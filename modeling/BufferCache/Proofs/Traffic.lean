import BufferCache.Proofs.Coherence

/-!
# Traffic with disks in memory

A disk in memory serves a request as soon as it is started.  So where every driver is
such a disk, a buffer is locked, its request is queued and served, and the buffer is
unlocked, all without giving way.  Whenever other tasks run, no buffer is locked and no
request waits: the cache is *calm*, `Cache.Mirrors`.

In between there are two more states.  `Cache.Claims` is that in which a buffer was
locked and its request is not yet queued, `Cache.Moves` that in which the request is
queued and not yet served.  In both of them everything but the block of that buffer is as
it is when the cache is calm.

What a suspended call has found out about buffers and blocks can become void while other
calls run.  `Cache.Later` is what it can rely on, whatever runs, and `Cache.Quietly` what
it can rely on as long as nothing gives way.
-/

namespace BufferCache

variable {g : Geometry}

/-! ## Requests, one at a time -/

namespace RequestTable

/-- No request waits. -/
structure Empty (r : RequestTable g) : Prop where
  /-- No major is serving a request. -/
  current : ∀ m, r.currentSlot m = none
  /-- All slots are free. -/
  free : ∀ slot, r.request? slot = none

/-- Only the request `q` waits; it is in `slot`, and major `m` is serving it. -/
structure Single (r : RequestTable g) (m : Nat) (slot : g.Slot) (q : Request g) : Prop where
  /-- No other major is serving a request. -/
  current : ∀ m', r.currentSlot m' = if m = m' then some slot else none
  /-- All other slots are free. -/
  request : ∀ slot', r.request? slot' = if slot = slot' then some q else none
  /-- No request follows. -/
  last : q.next = none

variable {r : RequestTable g} {m : Nat} {slot : g.Slot} {q : Request g}

theorem empty_initial (g : Geometry) : (RequestTable.initial g).Empty where
  current m := by
    rw [currentSlot, initial, Vector.getElem?_replicate]
    split
    · rfl
    · rfl
  free slot := Vector.getElem_replicate ..

/-- An empty table has a slot for every request. -/
theorem Empty.exists_freeSlot (h : r.Empty) (d : Direction) : ∃ slot, r.freeSlot d = some slot := by
  cases hslot : r.freeSlot d with
  | some slot => exact ⟨slot, rfl⟩
  | none =>
    have hwrite : g.writeSlots ≤ g.requests := Nat.div_le_of_le_mul (by omega)
    have hpos : 0 < usable g d := by
      cases d with
      | read => exact Nat.lt_of_lt_of_le g.writeSlots_pos hwrite
      | write => exact g.writeSlots_pos
    have hlt : 0 < g.requests := Nat.lt_of_lt_of_le g.writeSlots_pos hwrite
    exact absurd (h.free ⟨0, hlt⟩) (freeSlot_eq_none_iff.mp hslot ⟨0, hlt⟩ hpos)

/-- The first request of a driver is served at once. -/
theorem Empty.insert (h : r.Empty) (hm : m < majorCount) (slot : g.Slot) (t : Transfer)
    (i : g.Buffer) :
    (r.insert m slot t i).2 = true ∧
      (r.insert m slot t i).1.Single m slot { transfer := t, buffer := i } := by
  have hinsert : r.insert m slot t i =
      ((r.setSlot slot (some { transfer := t, buffer := i })).setCurrent m (some slot), true) := by
    unfold RequestTable.insert
    rw [h.current]
  rw [hinsert]
  refine ⟨rfl, fun m' => ?_, fun slot' => ?_, rfl⟩
  · rw [currentSlot_setCurrent, currentSlot_setSlot, h.current]
    by_cases hmm : m = m'
    · rw [if_pos ⟨hmm, hm⟩, if_pos hmm]
    · rw [if_neg fun h => hmm h.1, if_neg hmm]
  · rw [request?_setCurrent, request?_setSlot, h.free]

/-- When the only request has ended, none is left. -/
theorem Single.retire (h : r.Single m slot q) (hm : m < majorCount) :
    (r.retire m slot).2 = false ∧ (r.retire m slot).1.Empty := by
  have hnext : r.next? slot = none := by
    rw [next?, h.request, if_pos rfl]
    exact h.last
  unfold RequestTable.retire
  dsimp only
  rw [hnext]
  refine ⟨rfl, fun m' => ?_, fun slot' => ?_⟩
  · rw [currentSlot_setCurrent, currentSlot_setSlot, h.current]
    by_cases hmm : m = m'
    · rw [if_pos ⟨hmm, hm⟩]
    · rw [if_neg fun h => hmm h.1, if_neg hmm]
  · rw [request?_setCurrent, request?_setSlot, h.request]
    split
    · rfl
    · rfl

end RequestTable

/-! ## What calls can rely on -/

/-- From `c` to `c'`, whatever ran: references keep their blocks and what is known to be
valid, and the same blocks are served. -/
structure Cache.Later (c c' : Cache g) : Prop where
  /-- The same blocks are served. -/
  serves : ∀ b, c'.Serves b ↔ c.Serves b
  /-- The same drivers are there. -/
  drives : ∀ m, (c'.driver? m).isSome = (c.driver? m).isSome
  /-- A buffer that is referenced keeps its block. -/
  content : ∀ i, (c.header i).references ≠ 0 → (c'.header i).content = (c.header i).content
  /-- A buffer that is referenced remains valid. -/
  valid : ∀ i b, (c.header i).references ≠ 0 → (c.header i).content = some b → c.Serves b →
    (c.header i).valid = true → (c'.header i).valid = true

/-- From `c` to `c'`, where no client wrote and no buffer was given another block. -/
structure Cache.Quietly (c c' : Cache g) : Prop where
  /-- The same blocks are served. -/
  serves : ∀ b, c'.Serves b ↔ c.Serves b
  /-- The same drivers are there. -/
  drives : ∀ m, (c'.driver? m).isSome = (c.driver? m).isSome
  /-- A buffer keeps its block. -/
  content : ∀ i, (c'.header i).content = (c.header i).content
  /-- A buffer of a block that is served remains valid. -/
  valid : ∀ i b, (c.header i).content = some b → c.Serves b → (c.header i).valid = true →
    (c'.header i).valid = true
  /-- No buffer becomes dirty. -/
  dirty : ∀ i, (c.header i).dirty = false → (c'.header i).dirty = false

theorem Cache.Quietly.later {c c' : Cache g} (h : c.Quietly c') : c.Later c' where
  serves := h.serves
  drives := h.drives
  content i _ := h.content i
  valid i b _ := h.valid i b

/-- What can be relied on: more if what ran was `quiet`. -/
def Cache.Since (c : Cache g) (quiet : Bool) (c' : Cache g) : Prop :=
  c.Later c' ∧ (quiet = true → c.Quietly c')

theorem Cache.Quietly.since {c c' : Cache g} (h : c.Quietly c') (quiet : Bool) :
    c.Since quiet c' :=
  ⟨h.later, fun _ => h⟩

/-- Two caches with the same data and the same traffic. -/
structure Cache.Alike (c c' : Cache g) : Prop extends c.SameData c' where
  /-- The same buffers are locked. -/
  locked : ∀ i, (c'.header i).locked = (c.header i).locked
  /-- The same requests wait. -/
  requests : c'.requests = c.requests

namespace Cache

variable {c c' : Cache g} {i : g.Buffer}

theorem Alike.quietly (h : c.Alike c') : c.Quietly c' where
  serves := serves_congr h.drivers
  drives m := by rw [driver?_congr h.drivers]
  content := h.content
  valid j _ _ _ hv := (h.valid j).trans hv
  dirty j hd := (h.dirty j).trans hd

theorem Alike.refl (c : Cache g) : c.Alike c :=
  ⟨⟨fun _ => .refl _, fun _ => .refl _, fun _ => .refl _, fun _ => .refl _, .refl _⟩,
    fun _ => .refl _, .refl _⟩

theorem alike_of_eq (h : c' = c) : c.Alike c' :=
  h ▸ .refl c

theorem alike_tick (c : Cache g) (k : Counter) : c.Alike (c.tick k) :=
  ⟨⟨fun _ => .refl _, fun _ => .refl _, fun _ => .refl _, fun _ => .refl _, .refl _⟩,
    fun _ => .refl _, .refl _⟩

theorem Alike.trans {c'' : Cache g} (h : c.Alike c') (h' : c'.Alike c'') : c.Alike c'' :=
  ⟨⟨fun i => (h'.content i).trans (h.content i), fun i => (h'.valid i).trans (h.valid i),
    fun i => (h'.dirty i).trans (h.dirty i), fun i => (h'.page i).trans (h.page i),
    h'.drivers.trans h.drivers⟩, fun i => (h'.locked i).trans (h.locked i),
    h'.requests.trans h.requests⟩

theorem alike_refer (c : Cache g) (i : g.Buffer) : c.Alike (c.refer i) := by
  refine ⟨⟨fun j => ?_, fun j => ?_, fun j => ?_, fun j => .refl _, .refl _⟩, fun j => ?_, .refl _⟩
  all_goals
    rw [header_refer]
    split <;> exact .refl _

theorem alike_unrefer (c : Cache g) (i : g.Buffer) : c.Alike (c.unrefer i) := by
  refine ⟨⟨fun j => ?_, fun j => ?_, fun j => ?_, fun j => .refl _, .refl _⟩, fun j => ?_, .refl _⟩
  all_goals
    rw [header_unrefer]
    split <;> exact .refl _

end Cache

/-! ## The states of a transfer -/

/-- The cache is calm, and represents the array `blocks`. -/
structure Cache.Mirrors (c : Cache g) (blocks : Contents) : Prop where
  /-- All drivers are disks in memory. -/
  disks : c.Disks
  /-- No buffer is locked. -/
  unlocked : ∀ i, (c.header i).locked = false
  /-- No request waits. -/
  idle : c.requests.Empty
  /-- The cache represents the array. -/
  coherent : Coherent blocks none none c

/-- Buffer `i` is locked, and otherwise the cache is calm. -/
structure Cache.Claims (c : Cache g) (blocks : Contents) (i : g.Buffer) : Prop where
  /-- All drivers are disks in memory. -/
  disks : c.Disks
  /-- Only the buffer is locked. -/
  locked : ∀ j, (c.header j).locked = decide (i = j)
  /-- No request waits. -/
  idle : c.requests.Empty
  /-- The cache represents the array. -/
  coherent : Coherent blocks none none c

/-- A transfer of block `b` between buffer `i` and its disk is under way, and otherwise
the cache is calm. -/
structure Cache.Moves (c : Cache g) (blocks : Contents) (dir : Direction) (b : Block)
    (i : g.Buffer) : Prop where
  /-- All drivers are disks in memory. -/
  disks : c.Disks
  /-- Only the buffer is locked. -/
  locked : ∀ j, (c.header j).locked = decide (i = j)
  /-- The disk is there. -/
  driver : ∃ d, c.driver? b.device.major = some d
  /-- The transfer is the only request. -/
  request : ∃ slot, c.requests.Single b.device.major slot
    { transfer := .ofBlock dir b, buffer := i }
  /-- The buffer holds the block. -/
  content : (c.header i).content = some b
  /-- The flag was cleared when the request was queued. -/
  clean : (c.header i).dirty = false
  /-- What is written is what the block contains. -/
  page : dir = .write → c.Serves b → c.page i = blocks b
  /-- The cache represents the array, apart from what is being written. -/
  coherent : Coherent blocks none (dir.leaving b) c

namespace Cache

variable {c c' : Cache g} {blocks : Contents} {i : g.Buffer} {b : Block} {dir : Direction}

theorem Mirrors.congr (h : c.Mirrors blocks) (hc : c.Alike c') : c'.Mirrors blocks where
  disks := h.disks.congr hc.drivers
  unlocked j := (hc.locked j).trans (h.unlocked j)
  idle := hc.requests ▸ h.idle
  coherent := h.coherent.congr hc.toSameData

theorem sameData_lock (c : Cache g) (i : g.Buffer) : c.SameData (c.lock i) := by
  refine ⟨fun j => ?_, fun j => ?_, fun j => ?_, fun j => rfl, rfl⟩
  all_goals
    rw [header_lock]
    split <;> rfl

theorem sameData_unlock (c : Cache g) (i : g.Buffer) : c.SameData (c.unlock i) := by
  refine ⟨fun j => ?_, fun j => ?_, fun j => ?_, fun j => rfl, rfl⟩
  all_goals
    rw [header_unlock]
    split <;> rfl

theorem SameData.quietly (h : c.SameData c') : c.Quietly c' where
  serves := serves_congr h.drivers
  drives m := by rw [driver?_congr h.drivers]
  content := h.content
  valid j _ _ _ hv := (h.valid j).trans hv
  dirty j hd := (h.dirty j).trans hd

/-- A buffer is locked. -/
theorem Mirrors.claim (h : c.Mirrors blocks) (i : g.Buffer) : (c.lock i).Claims blocks i where
  disks := h.disks.congr rfl
  locked j := by
    rw [header_lock]
    by_cases hij : i = j
    · rw [if_pos hij, decide_eq_true hij]
    · rw [if_neg hij, decide_eq_false hij]
      exact h.unlocked j
  idle := h.idle
  coherent := h.coherent.congr (sameData_lock c i)

/-- A buffer is unlocked as there is nothing to do. -/
theorem Claims.yield (h : c.Claims blocks i) : (c.unlock i).Mirrors blocks where
  disks := h.disks.congr rfl
  unlocked j := by
    rw [header_unlock]
    by_cases hij : i = j
    · rw [if_pos hij]
    · rw [if_neg hij, h.locked, decide_eq_false hij]
  idle := h.idle
  coherent := h.coherent.congr (sameData_unlock c i)

/-- A request for the buffer is queued. -/
theorem Claims.enqueue {d : Driver} (h : c.Claims blocks i) (hi : (c.header i).content = some b)
    (hd : c.driver? b.device.major = some d)
    (hread : dir = .read → (c.header i).valid = false)
    (hwrite : dir = .write → (c.header i).dirty = true) (slot : g.Slot) :
    (c.enqueue dir i b slot).Moves blocks dir b i ∧ c.Quietly (c.enqueue dir i b slot) := by
  have hheader (j : g.Buffer) := header_enqueue c i j dir b slot
  have hcontent (j : g.Buffer) :
      ((c.enqueue dir i b slot).header j).content = (c.header j).content := by
    rw [hheader]
    split <;> rfl
  have hvalid (j : g.Buffer) :
      ((c.enqueue dir i b slot).header j).valid = (c.header j).valid := by
    rw [hheader]
    split <;> rfl
  have hdirty (j : g.Buffer) : ((c.enqueue dir i b slot).header j).dirty =
      if i = j then false else (c.header j).dirty := by
    rw [hheader]
    split <;> rfl
  have hdrivers : (c.enqueue dir i b slot).drivers = c.drivers := rfl
  refine ⟨⟨h.disks.congr hdrivers, fun j => ?_, ⟨d, hd⟩, ⟨slot, ?_⟩, ?_, ?_, fun hdir hs => ?_,
    ?_⟩, ?_⟩
  · rw [hheader]
    split <;> exact h.locked j
  · exact (h.idle.insert (lt_majorCount_of_driver? hd) slot (.ofBlock dir b) i).2
  · rw [hcontent]
    exact hi
  · rw [hdirty, if_pos rfl]
  · have hs' : c.Serves b := (serves_congr hdrivers b).mp hs
    exact h.coherent.current i b hi hs' nofun (h.coherent.sound i b hi hs' nofun (hwrite hdir))
  · exact h.coherent.queue hi hread hcontent hvalid hdirty (fun _ => rfl) hdrivers
  · refine ⟨serves_congr hdrivers, fun m => rfl, hcontent, fun j _ _ _ hv => ?_, fun j hj => ?_⟩
    · rw [hvalid]
      exact hv
    · rw [hdirty, hj]
      split <;> rfl

theorem isSome_driver?_carryOut {m : Nat} {d : Driver} (hd : c.driver? m = some d)
    (q : Request g) (m' : Nat) :
    ((c.carryOut m d q).driver? m').isSome = (c.driver? m').isSome := by
  have hdriver : (c.carryOut m d q).driver? m' =
      (c.setDriver m (d.serve q.transfer (c.page q.buffer)).driver).driver? m' := rfl
  rw [hdriver, driver?_setDriver]
  split
  · rename_i h
    rw [← h.1, hd]
    rfl
  · rfl

theorem drivers_conclude (c : Cache g) (m : Nat) (slot : g.Slot) (q : Request g)
    (success : Bool) : (c.conclude m slot q success).drivers = c.drivers := by
  cases success <;> rfl

theorem page_conclude (c : Cache g) (m : Nat) (slot : g.Slot) (q : Request g)
    (success : Bool) (j : g.Buffer) : (c.conclude m slot q success).page j = c.page j := by
  cases success <;> rfl

theorem requests_conclude (c : Cache g) (m : Nat) (slot : g.Slot) (q : Request g)
    (success : Bool) :
    (c.conclude m slot q success).requests = (c.requests.retire m slot).1 := by
  cases success <;> rfl

/-- A transfer of a block that is served succeeds. -/
theorem success_of_serves (hc : c.Disks) {d : Driver} (hd : c.driver? b.device.major = some d)
    {q : Request g} (hq : q.transfer = .ofBlock dir b) (hs : c.Serves b) :
    (d.serve q.transfer (c.page q.buffer)).success = true := by
  cases hdir : dir with
  | read => exact (carryOut_read hc hd hq hs hdir).1
  | write => exact (carryOut_write hc hd hq hs hdir).1

/-- The request that the driver finds is that of the transfer. -/
theorem Moves.single {q : Request g} {slot : g.Slot} (h : c.Moves blocks dir b i)
    (hslot : c.requests.currentSlot b.device.major = some slot)
    (hq : c.requests.request? slot = some q) :
    c.requests.Single b.device.major slot q ∧ q.transfer = .ofBlock dir b ∧ q.buffer = i := by
  obtain ⟨slot', hsingle⟩ := h.request
  rw [hsingle.current, if_pos rfl] at hslot
  cases hslot
  rw [hsingle.request, if_pos rfl] at hq
  cases hq
  exact ⟨hsingle, rfl, rfl⟩

theorem served_conclude (c : Cache g) (m : Nat) (d : Driver) (slot : g.Slot) (q : Request g) :
    c.Served m d q ((c.carryOut m d q).conclude m slot q
      (d.serve q.transfer (c.page q.buffer)).success) where
  content j := by
    rw [header_conclude, header_carryOut]
    split <;> rfl
  valid j := by
    rw [header_conclude, header_carryOut]
    split <;> rfl
  dirty j := by
    rw [header_conclude, header_carryOut]
    split <;> rfl
  page j := page_conclude _ m slot q _ j
  drivers := drivers_conclude _ m slot q _

/-- A transfer that succeeds if the block is served takes no valid or clean buffer away. -/
theorem Served.quietly {q : Request g} {d : Driver} (h : c.Served b.device.major d q c')
    (hc : c.Disks) (hd : c.driver? b.device.major = some d)
    (hb : (c.header q.buffer).content = some b)
    (hsuccess : c.Serves b → (d.serve q.transfer (c.page q.buffer)).success = true) :
    c.Quietly c' where
  serves := h.serves hc hd
  drives m := by rw [driver?_congr h.drivers, isSome_driver?_carryOut hd]
  content := h.content
  valid j b' hb' hs hv := by
    rw [h.valid]
    by_cases hj : q.buffer = j
    · subst hj
      obtain rfl : b = b' := Option.some.inj (hb.symm.trans hb')
      rw [if_pos rfl]
      exact hsuccess hs
    · rw [if_neg hj]
      exact hv
  dirty j hj := by
    rw [h.dirty]
    exact hj

/-- The disk carries out the transfer and ends the request.  The cache is calm again, the
block is valid if it was read, and the buffer is clean. -/
theorem Moves.serve {q : Request g} {slot : g.Slot} {d : Driver} (h : c.Moves blocks dir b i)
    (hc : c.buffers.Chained fun _ => True) (hd : c.driver? b.device.major = some d)
    (hslot : c.requests.currentSlot b.device.major = some slot)
    (hq : c.requests.request? slot = some q)
    (hc' : c' = (c.carryOut b.device.major d q).conclude b.device.major slot q
      (d.serve q.transfer (c.page q.buffer)).success) :
    c'.Mirrors blocks ∧ c.Quietly c' ∧ (c'.header i).dirty = false ∧
      (c'.header i).content = some b ∧ (c'.Serves b → (c'.header i).valid = true) := by
  obtain ⟨hsingle, htransfer, rfl⟩ := h.single hslot hq
  have hsuccess := success_of_serves h.disks hd htransfer
  have hserved : c.Served b.device.major d q c' := hc' ▸ served_conclude c _ d slot q
  have hunique (j : g.Buffer) (hj : (c.header j).content = some b) : j = q.buffer :=
    hc.unique trivial trivial hj h.content
  have hlocked (j : g.Buffer) : (c'.header j).locked = false := by
    rw [hc', header_conclude, header_carryOut]
    by_cases hj : q.buffer = j
    · rw [if_pos hj]
    · rw [if_neg hj, h.locked, decide_eq_false hj]
  have hidle : c'.requests.Empty := by
    rw [hc', requests_conclude]
    exact (hsingle.retire (lt_majorCount_of_driver? hd)).2
  have hcoherent : Coherent blocks none none c' :=
    h.coherent.serve h.disks hd htransfer hserved h.content hunique h.clean h.page
  refine ⟨⟨(disks_carryOut h.disks hd q).congr hserved.drivers, hlocked, hidle, hcoherent⟩,
    hserved.quietly h.disks hd h.content hsuccess, (hserved.dirty _).trans h.clean,
    (hserved.content _).trans h.content, fun hs => ?_⟩
  rw [hserved.valid, if_pos rfl]
  exact hsuccess ((hserved.serves h.disks hd b).mp hs)

/-! ## Another block -/

/-- The handle of a reference that was just taken is good. -/
theorem resolve_hold (h : (c.header i).references ≠ 0) : c.resolve (c.hold i).handle = .ok i := by
  unfold resolve
  refine (dif_pos i.isLt).trans ?_
  exact (if_pos rfl).trans (if_neg h)

/-- A buffer without references is given another block and gets its first reference. -/
theorem Mirrors.assign {s : Buffers g} (h : c.Mirrors blocks)
    (hreferences : (c.header i).references = 0) (hclean : (c.header i).dirty = false)
    (hs : c.buffers.reassign i b = .ok s) :
    (c.assign i s).Mirrors blocks ∧ c.Later (c.assign i s) ∧
      ((c.assign i s).header i).content = some b ∧ ((c.assign i s).header i).references ≠ 0 := by
  have hcontent (j : g.Buffer) : ((c.assign i s).header j).content =
      if i = j then some b else (c.header j).content :=
    field_of_assign hs rfl Header.content (fun _ => rfl) j
  have hvalid (j : g.Buffer) : ((c.assign i s).header j).valid =
      if i = j then false else (c.header j).valid :=
    field_of_assign hs rfl Header.valid (fun _ => rfl) j
  have hdirty (j : g.Buffer) : ((c.assign i s).header j).dirty =
      if i = j then false else (c.header j).dirty :=
    field_of_assign hs rfl Header.dirty (fun _ => rfl) j
  have hlocked (j : g.Buffer) : ((c.assign i s).header j).locked =
      if i = j then false else (c.header j).locked :=
    field_of_assign hs rfl Header.locked (fun _ => rfl) j
  have hrefs : ((c.assign i s).header i).references = 1 :=
    (field_of_assign hs rfl Header.references (fun _ => rfl) i).trans (if_pos rfl)
  have hsame : (c.assign i s).drivers = c.drivers ∧ (c.assign i s).pages = c.pages ∧
      (c.assign i s).requests = c.requests := by
    unfold Cache.assign
    split <;> exact ⟨rfl, rfl, rfl⟩
  obtain ⟨hdrivers, hpages, hrequests⟩ := hsame
  have hpage (j : g.Buffer) : (c.assign i s).page j = c.page j := by
    rw [page, page, hpages]
  have hfar {j : g.Buffer} (hj : (c.header j).references ≠ 0) : i ≠ j := by
    rintro rfl
    exact hj hreferences
  refine ⟨⟨h.disks.congr hdrivers, fun j => ?_, hrequests ▸ h.idle, ?_⟩,
    ⟨serves_congr hdrivers, fun m => ?_, fun j hj => ?_, fun j b' hj hb' _ hv => ?_⟩, ?_, ?_⟩
  · rw [hlocked]
    split
    · rfl
    · exact h.unlocked j
  · exact h.coherent.assign hclean hcontent hvalid hdirty hpage hdrivers
  · rw [driver?_congr hdrivers]
  · rw [hcontent, if_neg (hfar hj)]
  · rw [hvalid, if_neg (hfar hj)]
    exact hv
  · rw [hcontent, if_pos rfl]
  · rw [hrefs]
    exact Nat.one_ne_zero

end Cache
end BufferCache
