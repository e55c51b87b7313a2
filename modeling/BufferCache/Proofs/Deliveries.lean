import BufferCache.Proofs.Promises

/-!
# Promises are kept

Where all drivers are disks in memory, every step of a call keeps its promise, given that
the promise it relies on was kept.  This module goes through the calls of the cache.  The
commands of clients, which change what the blocks are to contain, are left for later.

Three of the steps carry the argument.  A transfer is carried out when the driver is
started, so whoever waits for it finds it done.  A reference keeps its block, so what a
call knows about a buffer outlasts the time for which it gave way.  And a flush does not
give way while it goes over the buffers, so that it leaves all of them clean, though not
those that others changed while it was announced.
-/

namespace BufferCache

variable {g : Geometry}

/-- What comes next keeps a promise. -/
def Next.Keeps {s : Shape} (a : Image) (w : World g) (p : Promise g s) : Next g s → Prop
  | .done v => p.Met a w v
  | .goto d => p.answers = false ∧ d.Keeps a w.cache p
  | .call d f => ∃ p', d.Keeps a w.cache p' ∧ f.Turns a.blocks w.cache p' p

/-- A step that begins with the cache `c` keeps a promise, and leaves others what they rely
on. -/
def Outcome.Delivers {s : Shape} (o : Outcome g s) (a : Image) (c : Cache g)
    (p : Promise g s) : Prop :=
  o.Ensures fun w n => n.Keeps a w p ∧ c.Since p.quiet w.cache

namespace Cache

variable {c c' c'' : Cache g}

theorem Quietly.trans (h : c.Quietly c') (h' : c'.Quietly c'') : c.Quietly c'' where
  serves b := (h'.serves b).trans (h.serves b)
  drives m := (h'.drives m).trans (h.drives m)
  content i := (h'.content i).trans (h.content i)
  valid i b hb hs hv :=
    h'.valid i b ((h.content i).trans hb) ((h.serves b).mpr hs) (h.valid i b hb hs hv)
  dirty i hd := h'.dirty i (h.dirty i hd)

theorem Alike.since (h : c.Alike c') (quiet : Bool) : c.Since quiet c' :=
  h.quietly.since quiet

/-- The bytes that a client may see through the handle of a reference. -/
theorem view_eq_ok {h : Hold g} {v : HeaderView} (hv : c.view h.handle = .ok v) :
    c.resolve h.handle = .ok h.buffer ∧ v = (c.header h.buffer).view := by
  obtain ⟨i, hi, rfl⟩ := map_eq_ok hv
  obtain rfl : i = h.buffer := Fin.ext (resolve_eq_ok hi).1
  exact ⟨hi, rfl⟩

end Cache

namespace World

variable {s : Shape} {a : Image} {c : Cache g} {p : Promise g s} {w w' : World g}

theorem delivers_done {v : s.Value g} (hv : p.Met a w v) (hc : c.Since p.quiet w.cache) :
    Outcome.Delivers (w.done v) a c p :=
  Outcome.ensures_done ⟨hv, hc⟩

theorem delivers_goto {d : Call g s} (hp : p.answers = false) (hd : d.Keeps a w.cache p)
    (hc : c.Since p.quiet w.cache) : Outcome.Delivers (w.goto d) a c p :=
  Outcome.ensures_goto ⟨⟨hp, hd⟩, hc⟩

theorem delivers_call {b : Shape} {d : Call g b} {f : Frame g b s} (p' : Promise g b)
    (hd : d.Keeps a w.cache p') (hf : f.Turns a.blocks w.cache p' p)
    (hc : c.Since p.quiet w.cache) : Outcome.Delivers (w.call d f) a c p :=
  Outcome.ensures_call ⟨⟨p', hd, hf⟩, hc⟩

theorem delivers_fault {f : Fault} : Outcome.Delivers (fault f : Outcome g s) a c p :=
  Outcome.ensures_fault

theorem delivers_orFault {α : Type} {x : Except Fault α} {k : α → Outcome g s}
    (h : ∀ r, x = .ok r → (k r).Delivers a c p) : (orFault x k).Delivers a c p :=
  Outcome.ensures_orFault h

theorem since_of_eq (h : w'.cache = c) (quiet : Bool) : c.Since quiet w'.cache :=
  (Cache.alike_of_eq h).since quiet

/-! Most steps leave the cache as it is. -/

theorem done_delivers {v : s.Value g} (hv : p.Met a w v) :
    Outcome.Delivers (w.done v) a w.cache p :=
  delivers_done hv (since_of_eq rfl _)

theorem goto_delivers {d : Call g s} (hp : p.answers = false) (hd : d.Keeps a w.cache p) :
    Outcome.Delivers (w.goto d) a w.cache p :=
  delivers_goto hp hd (since_of_eq rfl _)

theorem call_delivers {b : Shape} {d : Call g b} {f : Frame g b s} (p' : Promise g b)
    (hd : d.Keeps a w.cache p') (hf : f.Turns a.blocks w.cache p' p) :
    Outcome.Delivers (w.call d f) a w.cache p :=
  delivers_call p' hd hf (since_of_eq rfl _)

theorem settled_of_eq (h : c.Settled a) (hw : w'.cache = c) : w'.cache.Settled a :=
  hw ▸ h

/-! ## Waiting -/

variable {b : Block} {i : g.Buffer}

theorem sleep_delivers (h : w.cache.Settled a) (q : Queue g) (ticket : UInt64) :
    (w.sleep q ticket).Delivers a w.cache .resumed := by
  unfold sleep
  split
  · split
    · exact Outcome.ensures_error
    · rename_i hscript
      have hw := (cache_takeWaiting hscript).trans rfl
      exact delivers_call .resumed ⟨(settled_of_eq h hw).stands, rfl⟩ ⟨rfl, rfl⟩
        (since_of_eq hw _)
  · exact done_delivers h

theorem sleepIn_delivers {f : Frame g .unit s} (h : w'.cache.Settled a) (q : Queue g)
    (hf : f.Turns a.blocks w'.cache .resumed p) (hc : c.Since p.quiet w'.cache) :
    (w'.sleepIn q f).Delivers a c p :=
  delivers_call .resumed ⟨h, rfl⟩ hf hc

/-- A script may end where no client is in the middle of a change. -/
theorem play_delivers (h : w.cache.Stands a) {script : Script}
    (hend : script = [] → a.stage = .idle) : (w.play script).Delivers a w.cache .resumed := by
  cases script with
  | nil => exact done_delivers (h.settled (hend rfl))
  | cons command rest => exact call_delivers (.answer command) ⟨h, rfl⟩ rfl

theorem awaitUnlock_delivers (h : w.cache.Settled a) (i : g.Buffer) :
    (w.awaitUnlock i).Delivers a w.cache .still := by
  unfold awaitUnlock
  rw [h.2.unlocked, if_neg Bool.false_ne_true]
  exact done_delivers h

theorem lock_delivers (h : w.cache.Settled a) (i : g.Buffer) :
    (w.lock i).Delivers a w.cache (.claimed i) := by
  unfold lock
  rw [h.2.unlocked, if_neg Bool.false_ne_true]
  exact delivers_done ⟨h.1, h.2.claim i⟩ ((Cache.sameData_lock w.cache i).quietly.since _)

/-! ## Getting and giving back buffers -/

theorem lookUp_delivers (h : w.cache.Settled a) (b : Block) :
    (w.lookUp b).Delivers a w.cache (.found b) := by
  unfold lookUp
  split
  · exact done_delivers ⟨h, nofun⟩
  · rename_i i hi
    have halike := Cache.alike_refer w.cache i
    exact delivers_call .still ⟨h.congr halike, rfl⟩ ⟨rfl, rfl⟩ (halike.since _)

theorem pinned_delivers (h : w.cache.Settled a) (hi : (w.cache.header i).references ≠ 0) :
    (w.pinned b i).Delivers a w.cache (.found b) := by
  unfold pinned
  rw [if_neg hi]
  split
  · rename_i hholds
    refine done_delivers ⟨h, fun t ht => ?_⟩
    cases ht
    exact ⟨Cache.resolve_hold hi, beq_iff_eq.mp hholds⟩
  · have halike := Cache.alike_unrefer w.cache i
    exact delivers_goto rfl ⟨h.congr halike, rfl⟩ (halike.since _)

theorem acquire_delivers (h : w.cache.Settled a) (b : Block) :
    (w.acquire b).Delivers a w.cache (.buffer b) := by
  unfold acquire
  split
  · exact delivers_fault
  · have halike := Cache.alike_tick w.cache .access
    exact delivers_goto rfl ⟨h.congr halike, rfl⟩ (halike.since _)

theorem lookedUp_delivers (h : w.cache.Settled a) {found : Option (Hold g)}
    (hfound : Promise.Met a w (.found b) found) :
    (w.lookedUp b found).Delivers a w.cache (.buffer b) := by
  unfold lookedUp
  split
  · rename_i t
    have halike := Cache.alike_tick w.cache .hit
    exact delivers_done ⟨h.congr halike, hfound.2 t rfl⟩ (halike.since _)
  · refine delivers_orFault fun victim _ => ?_
    split
    · have hnoted : (w.note .allReferenced).cache.Settled a := h
      refine sleepIn_delivers hnoted _ ?_ (since_of_eq rfl _)
      exact ⟨rfl, rfl⟩
    · exact call_delivers .still ⟨h, rfl⟩ ⟨rfl, rfl⟩

theorem victimReady_delivers (h : w.cache.Settled a) (b : Block) (i : g.Buffer) :
    (w.victimReady b i).Delivers a w.cache (.buffer b) := by
  unfold victimReady
  dsimp only
  split
  · exact goto_delivers rfl ⟨h, rfl⟩
  split
  · exact call_delivers (.flushed _) ⟨h, rfl⟩ ⟨⟨_, rfl⟩, rfl⟩
  split
  · exact goto_delivers rfl ⟨h, rfl⟩
  rename_i hrefs hdirty _
  refine delivers_orFault fun s hs => ?_
  obtain ⟨hmirrors, hlater, hcontent, hrefs'⟩ :=
    h.2.assign (by simpa using hrefs) (by simpa using hdirty) hs
  have hcache : ((w.mapCache fun c => { c with buffers := s }).reportMiss i
      (w.cache.header i).content b).cache = w.cache.assign i s := by
    rw [cache_reportMiss]
    rfl
  refine delivers_done ?_ ?_
  · show Cache.Settled _ a ∧ _
    rw [hcache]
    exact ⟨⟨h.1, hmirrors⟩, Cache.resolve_hold hrefs', hcontent⟩
  · rw [hcache]
    exact ⟨hlater, nofun⟩

theorem release_delivers (h : w.cache.Settled a) (r : Handle) :
    (w.release r).Delivers a w.cache .still :=
  delivers_orFault fun _ _ => call_delivers .still ⟨h, rfl⟩ ⟨rfl, rfl⟩

theorem released_delivers (h : w.cache.Settled a) (i : g.Buffer) :
    (w.released i).Delivers a w.cache .still := by
  unfold released
  split
  · exact delivers_fault
  · have halike := Cache.alike_unrefer w.cache i
    exact delivers_done (h.congr halike) (halike.since _)

/-! ## Transfers -/

/-- The device of a buffer that has a driver is not zero, so that the buffer holds a
block. -/
theorem content_of_driver {d : DeviceNumber} (hc : w.cache.Disks)
    (hd : (w.cache.header i).device = d) (hdriver : (w.cache.driver? d.major).isSome = true) :
    (w.cache.header i).content = some ⟨d, (w.cache.header i).number⟩ := by
  obtain ⟨driver, hdriver⟩ := Option.isSome_iff_exists.mp hdriver
  have hmajor := (hc _ _ hdriver).1
  subst hd
  unfold Header.device at hmajor
  unfold Header.device Header.number
  split at hmajor
  · rename_i b hb
    rw [hb]
  · exact absurd rfl hmajor

/-- A promise that is kept without giving way may be made a little earlier. -/
theorem Delivers.before {o : Outcome g s} {c' : Cache g} (h : o.Delivers a c' p)
    (hp : p.quiet = true) (hc : c.Quietly c') : o.Delivers a c p := by
  refine Outcome.Ensures.mono h fun w' n hn => ⟨hn.1, ?_⟩
  exact (hc.trans (hn.2.2 hp)).since _

/-- A request is queued for a buffer that is locked, and the disk is started. -/
theorem enqueue_delivers {op : Operation} (hidle : a.stage = .idle)
    (h : w.cache.Claims a.blocks i) (hcontent : (w.cache.header i).content = some b)
    (hdriver : (w.cache.driver? b.device.major).isSome = true)
    (hneed : needless op (w.cache.header i) = false) :
    (w.enqueue op i b.device b.number).Delivers a w.cache (.issued op i) := by
  obtain ⟨slot, hslot⟩ := h.idle.exists_freeSlot op.direction
  obtain ⟨d, hd⟩ := Option.isSome_iff_exists.mp hdriver
  have hread (hdir : op.direction = .read) : (w.cache.header i).valid = false := by
    unfold needless at hneed
    rw [hdir] at hneed
    exact hneed
  have hwrite (hdir : op.direction = .write) : (w.cache.header i).dirty = true := by
    unfold needless at hneed
    rw [hdir] at hneed
    simpa using hneed
  obtain ⟨hmoves, hquietly⟩ := h.enqueue hcontent hd hread hwrite slot
  have hfirst := (h.idle.insert (Cache.lt_majorCount_of_driver? hd) slot
    (.ofBlock op.direction b) i).1
  unfold enqueue
  rw [hslot]
  dsimp only
  unfold file
  dsimp only
  rw [hfirst, if_pos rfl]
  exact delivers_goto rfl (.inr ⟨hidle, op, b, i, rfl, rfl, hmoves⟩) (hquietly.since _)

/-- A buffer that is locked is unlocked if there is nothing to do. -/
theorem locked_delivers {op : Operation} {d : DeviceNumber} (hidle : a.stage = .idle)
    (h : w.cache.Claims a.blocks i) (hd : (w.cache.header i).device = d)
    (hdriver : (w.cache.driver? d.major).isSome = true) :
    (w.locked op i d).Delivers a w.cache (.issued op i) := by
  unfold locked
  split
  · rename_i hneedless
    have hcache : (w.unlock i).cache = w.cache.unlock i := cache_unlock w i
    have hsame := Cache.sameData_unlock w.cache i
    refine delivers_done ⟨?_, fun hdir b' hb' => ?_, fun hdir => ?_⟩ ?_
    · rw [hcache]
      exact ⟨hidle, h.yield⟩
    · rw [hcache] at hb' ⊢
      refine ⟨hb', fun _ => ?_⟩
      rw [hsame.valid]
      unfold needless at hneedless
      rwa [hdir] at hneedless
    · rw [hcache, hsame.dirty]
      unfold needless at hneedless
      rw [hdir] at hneedless
      simpa using hneedless
    · rw [hcache]
      exact hsame.quietly.since _
  · rename_i hneed
    have hcontent := content_of_driver h.disks hd hdriver
    exact enqueue_delivers (b := ⟨d, (w.cache.header i).number⟩) hidle h hcontent hdriver
      (Bool.eq_false_of_not_eq_true hneed)

theorem request_delivers (h : w.cache.Settled a) (op : Operation) (i : g.Buffer) :
    (w.request op i).Delivers a w.cache (.issued op i) := by
  unfold request
  dsimp only
  split
  · exact delivers_fault
  rename_i driver hdriver
  have hsome : (w.cache.driver? (w.cache.header i).device.major).isSome = true := by
    rw [hdriver]
    rfl
  split
  · rw [h.2.unlocked, if_neg Bool.false_ne_true]
    have hsame := Cache.sameData_lock w.cache i
    refine Delivers.before ?_ rfl hsame.quietly
    exact locked_delivers (w := w.mapCache (·.lock i)) h.1 (h.2.claim i)
      (Cache.device_congr (hsame.content i)) hsome
  · exact call_delivers (.claimed i) ⟨h, rfl⟩ ⟨rfl, rfl, rfl, hsome⟩

theorem issue_delivers {op : Operation} {r : Handle} {p : Promise g .unit}
    (h : (Call.issue op r).Keeps a w.cache p) : (w.issue op r).Delivers a w.cache p := by
  obtain ⟨hsettled, hp⟩ := h
  refine delivers_orFault fun i hi => ?_
  obtain rfl := hp i hi
  exact goto_delivers rfl ⟨hsettled, rfl⟩

/-- An operation on a good handle is one on its buffer. -/
theorem issue_keeps (h : w.cache.Settled a) {op : Operation} {r : Handle}
    (hi : w.cache.resolve r = .ok i) : (Call.issue op r).Keeps a w.cache (.issued op i) := by
  refine ⟨h, fun j hj => ?_⟩
  rw [Cache.resolve_unique hi hj]

theorem start_delivers {m : Nat} {p : Promise g .unit} (h : (Call.start m).Keeps a w.cache p) :
    (w.start m).Delivers a w.cache p := by
  have hdisks : w.cache.Disks := by
    rcases h with ⟨h, -⟩ | ⟨-, op, b, i, -, -, h⟩
    · exact h.2.disks
    · exact h.disks
  unfold start
  split
  · rename_i hnone
    rcases h with ⟨h, rfl⟩ | ⟨-, op, b, i, -, rfl, h⟩
    · exact done_delivers h
    · obtain ⟨d, hd⟩ := h.driver
      rw [hnone] at hd
      cases hd
  · rename_i d hd
    obtain ⟨disk, hdisk⟩ := (hdisks m d hd).2.2
    rw [hdisk]
    exact goto_delivers (by cases p <;> rfl) h

/-- Whether another request follows the one that ended. -/
theorem follows_conclude (w : World g) (m : Nat) (slot : g.Slot) (q : Request g)
    (success : Bool) :
    (w.conclude m slot q success).2 = (w.cache.requests.retire m slot).2 := by
  have hrequests : (((w.mapCache (·.setValid q.buffer success)).unlock q.buffer).reportEnd q
      (w.cache.header q.buffer).number success).cache.requests = w.cache.requests := by
    rw [cache_reportEnd, cache_unlock]
    cases success <;> rfl
  unfold conclude
  dsimp only
  rw [hrequests]

/-- What a driver comes to that carries out its current request and ends it. -/
theorem finish_carryOut {m : Nat} {d : Driver} {slot : g.Slot} {q : Request g}
    {ended : World g × Bool} (hslot : w.cache.requests.currentSlot m = some slot)
    (hq : w.cache.requests.request? slot = some q)
    (h : (w.carryOut m d q).1.finish m (w.carryOut m d q).2 = .ok ended) :
    ended.2 = (w.cache.requests.retire m slot).2 ∧
      ended.1.cache = (w.cache.carryOut m d q).conclude m slot q
        (d.serve q.transfer (w.cache.page q.buffer)).success := by
  obtain ⟨slot', q', hslot', hq', rfl⟩ := finish_eq_ok h
  rw [cache_carryOut] at hslot' hq'
  obtain rfl : slot = slot' := Option.some.inj (hslot.symm.trans hslot')
  obtain rfl : q = q' := Option.some.inj (hq.symm.trans hq')
  rw [follows_conclude, cache_conclude, cache_carryOut, success_carryOut]
  exact ⟨rfl, rfl⟩

/-- The disk carries out the only request there is, if there is one. -/
theorem serve_delivers {m : Nat} {p : Promise g .unit} (h : (Call.serve m).Keeps a w.cache p)
    (hc : w.cache.buffers.Chained fun _ => True) : (w.serve m).Delivers a w.cache p := by
  unfold serve
  rcases h with ⟨h, rfl⟩ | ⟨hidle, op, b, i, rfl, rfl, h⟩
  · split
    · exact done_delivers h
    · rw [RequestTable.currentRequest, h.2.idle.current]
      exact done_delivers h
  · obtain ⟨d, hd⟩ := h.driver
    obtain ⟨slot, hsingle⟩ := h.request
    have hslot : w.cache.requests.currentSlot b.device.major = some slot := by
      rw [hsingle.current, if_pos rfl]
    have hq : w.cache.requests.request? slot =
        some { transfer := .ofBlock op.direction b, buffer := i } := by
      rw [hsingle.request, if_pos rfl]
    rw [hd]
    dsimp only
    rw [(h.disks _ _ hd).2.1, RequestTable.currentRequest, hslot, Option.bind_some, hq]
    refine delivers_orFault fun ended hended => ?_
    obtain ⟨hfollows, hcache⟩ := finish_carryOut hslot hq hended
    rw [(hsingle.retire (Cache.lt_majorCount_of_driver? hd)).1] at hfollows
    obtain ⟨hmirrors, hquietly, hclean, hcontent, hvalid⟩ := h.serve hc hd hslot hq hcache
    rw [hfollows, if_neg Bool.false_ne_true]
    refine delivers_done ⟨⟨hidle, hmirrors⟩, fun _ b' hb' => ⟨hb', ?_⟩, fun _ => hclean⟩
      (hquietly.since _)
    obtain rfl : b = b' := Option.some.inj (hcontent.symm.trans hb')
    exact hvalid

/-! ## Flushing -/

variable {scope : Scope} {rounds writes : Nat} {rest : List g.Buffer}

theorem flushRounds_delivers (h : w.cache.Settled a)
    (hswept : rounds = 0 → w.cache.Swept scope []) :
    (w.flushRounds scope rounds writes).Delivers a w.cache (.flushed scope) := by
  cases rounds with
  | zero => exact done_delivers ⟨h, hswept rfl⟩
  | succ rounds =>
    have hcache := cache_takeFlush w
    rw [flushRounds]
    exact delivers_call .resumed ⟨(settled_of_eq h hcache).stands, rfl⟩ ⟨rfl, rfl⟩
      (since_of_eq hcache _)

theorem flushBuffers_delivers (h : w.cache.Settled a)
    (hswept : rounds = 0 → w.cache.Swept scope rest) :
    (w.flushBuffers scope rounds writes rest).Delivers a w.cache (.flushed scope) := by
  cases rest with
  | nil => exact goto_delivers rfl ⟨h, rfl, hswept⟩
  | cons i rest =>
    rw [flushBuffers]
    split
    · exact call_delivers .still ⟨h, rfl⟩ ⟨rfl, rfl, hswept⟩
    · rename_i hcovers
      exact goto_delivers rfl ⟨h, rfl, fun hr => (hswept hr).tail fun hi => absurd hi hcovers⟩

theorem flushReady_delivers (h : w.cache.Settled a)
    (hswept : rounds = 0 → w.cache.Swept scope (i :: rest)) :
    (w.flushReady scope rounds writes i rest).Delivers a w.cache (.flushed scope) := by
  unfold flushReady
  dsimp only
  split
  · exact call_delivers (.issued .write i) ⟨h, rfl⟩ ⟨i, rfl, rfl, hswept⟩
  · rename_i hneed
    refine goto_delivers rfl ⟨h, rfl, fun hr => (hswept hr).tail fun hcovers => ?_⟩
    rw [hcovers, Bool.true_and] at hneed
    exact Bool.eq_false_of_not_eq_true hneed

/-- The write of a buffer was started: it is clean. -/
theorem flushWritten_delivers (h : Promise.Met a w (.issued .write i) ())
    (hswept : rounds = 0 → w.cache.Swept scope (i :: rest)) :
    Outcome.Delivers (w.goto (.flushBuffers scope rounds writes rest)) a w.cache
      (.flushed scope) :=
  goto_delivers rfl ⟨h.1, rfl, fun hr => (hswept hr).tail fun _ => h.2.2 rfl⟩

theorem checkMedium_delivers (h : w.cache.Settled a) (d : DeviceNumber) :
    (w.checkMedium d).Delivers a w.cache .told := by
  have hunchanged : w.mediumChanged d = false := by
    unfold mediumChanged
    cases hdriver : w.cache.driver? d.major with
    | none => rfl
    | some driver =>
      obtain ⟨disk, hdisk⟩ := (h.2.disks _ _ hdriver).2.2
      rw [Option.any_some, Driver.mediumChanged, hdisk]
  rw [checkMedium, hunchanged, if_neg Bool.false_ne_true]
  exact done_delivers h

/-! ## Reading blocks -/

variable {t t' : Hold g} {d : DeviceNumber} {ahead : List BlockNumber}

/-- A read gives its reference to the buffer if that is valid. -/
theorem bytes_of_valid {v : HeaderView} (h : w.cache.Settled a)
    (hview : w.cache.view t.handle = .ok v) (hvalid : v.valid = true)
    (hcontent : (w.cache.header t.buffer).content = some b) :
    Promise.Met a w (.bytes b) (.ok t) := by
  obtain ⟨hresolve, rfl⟩ := Cache.view_eq_ok hview
  refine ⟨h, fun _ => ⟨t, rfl⟩, fun t' ht' => ?_⟩
  cases ht'
  exact ⟨hresolve, hcontent, hvalid⟩

/-- A buffer that is found valid is fresh. -/
theorem fresh_of_valid {v : HeaderView} (hview : w.cache.view t.handle = .ok v)
    (hvalid : v.valid = true) (hcontent : (w.cache.header t.buffer).content = some b) :
    w.cache.Fresh t.buffer b := by
  obtain ⟨-, rfl⟩ := Cache.view_eq_ok hview
  exact ⟨hcontent, fun _ => hvalid⟩

theorem fetched_delivers (h : Promise.Met a w (.buffer b) t) :
    (w.fetched t).Delivers a w.cache (.bytes b) := by
  obtain ⟨hsettled, hresolve, hcontent⟩ := h
  refine delivers_orFault fun v hv => ?_
  split
  · rename_i hvalid
    exact done_delivers (bytes_of_valid hsettled hv hvalid hcontent)
  · exact call_delivers (.issued .read t.buffer) (issue_keeps hsettled hresolve)
      ⟨b, rfl, rfl, hcontent⟩

theorem settled_delivers (h : w.cache.Settled a) (hfresh : w.cache.Fresh t.buffer b) :
    (w.settled t).Delivers a w.cache (.bytes b) := by
  refine delivers_orFault fun v hv => ?_
  split
  · rename_i hvalid
    exact done_delivers (bytes_of_valid h hv hvalid hfresh.1)
  · rename_i hinvalid
    obtain ⟨-, rfl⟩ := Cache.view_eq_ok hv
    refine call_delivers .still ⟨h, rfl⟩ ⟨b, rfl, rfl, fun hs => ?_⟩
    exact hinvalid (hfresh.2 hs)

/-- A read fails only if the block is not served. -/
theorem unwound_delivers {f : Failure} (h : w.cache.Settled a) (hb : ¬ w.cache.Serves b) :
    Outcome.Delivers (w.done (.error f) : Outcome g .fetched) a w.cache (.bytes b) :=
  done_delivers ⟨h, fun hs => absurd hs hb, nofun⟩

theorem firstFetched_delivers (h : Promise.Met a w (.buffer b) t) :
    (w.firstFetched d ahead t).Delivers a w.cache (.bytes b) := by
  obtain ⟨hsettled, hresolve, hcontent⟩ := h
  refine delivers_orFault fun v hv => ?_
  split
  · rename_i hvalid
    have hfresh := fresh_of_valid hv hvalid hcontent
    exact goto_delivers rfl ⟨hsettled, b, rfl, hfresh⟩
  · exact call_delivers (.issued .read t.buffer) (issue_keeps hsettled hresolve)
      ⟨b, rfl, rfl, hcontent⟩

theorem readAhead_delivers (h : w.cache.Settled a) (hfresh : w.cache.Fresh t.buffer b) :
    (w.readAhead t d ahead).Delivers a w.cache (.bytes b) := by
  cases ahead with
  | nil => exact goto_delivers rfl ⟨h, b, rfl, hfresh⟩
  | cons n ahead =>
    rw [readAhead]
    exact call_delivers (.buffer ⟨d, n⟩) ⟨h, rfl⟩ ⟨b, ⟨d, n⟩, rfl, rfl, hfresh⟩

/-- Giving a reference back changes no buffer. -/
theorem fresh_unrefer (hfresh : w.cache.Fresh i b) (j : g.Buffer) :
    (w.cache.unrefer j).Fresh i b := by
  have halike := Cache.alike_unrefer w.cache j
  refine ⟨(halike.content i).trans hfresh.1, fun hs => ?_⟩
  rw [halike.valid]
  exact hfresh.2 ((Cache.serves_congr halike.drivers b).mp hs)

theorem letGo_delivers (h : w.cache.Settled a) (hfresh : w.cache.Fresh t.buffer b) :
    (w.letGo t t' d ahead).Delivers a w.cache (.bytes b) := by
  refine delivers_orFault fun i _ => ?_
  have halike := Cache.alike_unrefer w.cache i
  exact delivers_goto rfl ⟨h.congr halike, b, rfl, fresh_unrefer hfresh i⟩ (halike.since _)

theorem aheadFetched_delivers {b' : Block} (h : Promise.Met a w (.buffer b') t')
    (hfresh : w.cache.Fresh t.buffer b) :
    (w.aheadFetched t d ahead t').Delivers a w.cache (.bytes b) := by
  obtain ⟨hsettled, hresolve, -⟩ := h
  refine delivers_orFault fun v hv => ?_
  split
  · exact letGo_delivers hsettled hfresh
  · exact call_delivers (.issued .readAhead t'.buffer) (issue_keeps hsettled hresolve)
      ⟨b, rfl, rfl, hfresh⟩

/-- Once a read was carried out, the buffer is fresh. -/
theorem fresh_of_issued {op : Operation} (h : Promise.Met a w (.issued op i) ())
    (hop : op.direction = .read) (hcontent : (w.cache.header i).content = some b) :
    w.cache.Fresh i b :=
  h.2.1 hop b hcontent

/-! ## Reading pages -/

variable {numbers seen : List BlockNumber} {n : BlockNumber} {held held' : Held g}
  {chunks : List Page} {failed : Bool} {page : List UInt8}

theorem gathered_append {o : Option (Hold g)} (h : c.Gathered d seen held)
    (ho : c.Gathered d [n] [o]) : c.Gathered d (seen ++ [n]) (held ++ [o]) := by
  induction seen generalizing held with
  | nil =>
    cases held with
    | nil => exact ho
    | cons o' held => cases o' <;> exact h.elim
  | cons n' seen ih =>
    match held with
    | [] => exact h.elim
    | none :: held => exact ⟨h.1, ih h.2⟩
    | some t :: held => exact ⟨h.1, h.2.1, ih h.2.2⟩

theorem copied_append {blocks : Contents} {chunk : Page} {failed' : Bool}
    (h : c.Copied blocks d seen chunks failed)
    (hn : c.Supplies d n → chunk = blocks.part d n ∧ failed' = failed) :
    c.Copied blocks d (seen ++ [n]) (chunks ++ [chunk]) failed' where
  shows := List.rel_append h.shows (.cons (fun hs => (hn hs).1) .nil)
  complete hs := by
    have hsame := (hn (hs n (List.mem_append_right _ List.mem_cons_self))).2
    have hfailed := h.complete fun n' hn' => hs n' (List.mem_append_left _ hn')
    exact hsame.trans hfailed

theorem fetchPage_delivers (h : w.cache.Settled a) (d : DeviceNumber)
    (numbers : List BlockNumber) (page : List UInt8) :
    (w.fetchPage d numbers page).Delivers a w.cache (.page d numbers page) := by
  unfold fetchPage
  split
  · rename_i hlength
    refine done_delivers ⟨h, fun hle => ?_⟩
    exact absurd hle (Nat.not_le.mpr hlength)
  split
  · rename_i hcount
    refine done_delivers ⟨h, fun _ hle => ?_⟩
    exact absurd hle (Nat.not_le.mpr hcount)
  · exact goto_delivers rfl ⟨h, [], rfl, trivial⟩

theorem gather_delivers (h : w.cache.Settled a) (hheld : w.cache.Gathered d seen held) :
    (w.gather d numbers held page).Delivers a w.cache (.page d (seen ++ numbers) page) := by
  cases numbers with
  | nil =>
    have hnone : w.cache.Copied a.blocks d [] [] false := ⟨.nil, fun _ => rfl⟩
    refine goto_delivers rfl ⟨h, d, [], seen, ?_, hheld, hnone⟩
    rw [List.append_nil, List.nil_append]
  | cons n numbers =>
    rw [gather]
    split
    · rename_i hzero
      refine goto_delivers rfl ⟨h, seen ++ [n], ?_, gathered_append hheld ⟨hzero, trivial⟩⟩
      rw [List.append_assoc]
      rfl
    · rename_i hn
      exact call_delivers (.buffer ⟨d, n⟩) ⟨h, rfl⟩ ⟨seen, n, rfl, rfl, hn, hheld⟩

/-- The buffer of a block joins those that were gathered. -/
theorem gather_next_delivers (h : w.cache.Settled a) (hn : n ≠ 0)
    (hheld : w.cache.Gathered d seen held) (hfresh : w.cache.Fresh t.buffer ⟨d, n⟩) :
    Outcome.Delivers (w.goto (.gather d numbers (held ++ [some t]) page)) a w.cache
      (.page d (seen ++ n :: numbers) page) := by
  have hnext : w.cache.Gathered d [n] [some t] := ⟨hn, hfresh, trivial⟩
  refine goto_delivers rfl ⟨h, seen ++ [n], ?_, gathered_append hheld hnext⟩
  rw [List.append_assoc]
  rfl

theorem gathered_delivers (h : Promise.Met a w (.buffer ⟨d, n⟩) t) (hn : n ≠ 0)
    (hheld : w.cache.Gathered d seen held) :
    (w.gathered d numbers held page t).Delivers a w.cache
      (.page d (seen ++ n :: numbers) page) := by
  obtain ⟨hsettled, hresolve, hcontent⟩ := h
  refine delivers_orFault fun v hv => ?_
  split
  · rename_i hvalid
    exact gather_next_delivers hsettled hn hheld (fresh_of_valid hv hvalid hcontent)
  · exact call_delivers (.issued .read t.buffer) (issue_keeps hsettled hresolve)
      ⟨seen, n, held, t, rfl, rfl, rfl, hn, hheld, hcontent⟩

theorem collect_delivers (h : w.cache.Settled a) (hheld : w.cache.Gathered d numbers held)
    (hcopied : w.cache.Copied a.blocks d seen chunks failed) :
    (w.collect held chunks failed page).Delivers a w.cache
      (.page d (seen ++ numbers) page) := by
  match numbers, held with
  | [], [] =>
    rw [List.append_nil]
    refine done_delivers ⟨h, fun _ _ => ⟨chunks, rfl, hcopied.shows, fun hs => ?_⟩⟩
    rw [hcopied.complete hs, if_neg Bool.false_ne_true]
  | [], none :: held => exact hheld.elim
  | [], some t :: held => exact hheld.elim
  | n :: numbers, [] => exact hheld.elim
  | n :: numbers, none :: held =>
    obtain ⟨rfl, hheld⟩ := hheld
    refine goto_delivers rfl ⟨h, d, seen ++ [0], numbers, ?_, hheld,
      copied_append hcopied fun _ => ⟨rfl, rfl⟩⟩
    rw [List.append_assoc]
    rfl
  | n :: numbers, some t :: held =>
    obtain ⟨hn, hfresh, hheld⟩ := hheld
    exact call_delivers .still ⟨h, rfl⟩ ⟨d, seen, n, numbers, rfl, rfl, hn, hfresh, hheld, hcopied⟩

theorem part_of_ne {blocks : Contents} (hn : n ≠ 0) : blocks.part d n = blocks ⟨d, n⟩ :=
  if_neg hn

theorem collected_delivers (h : w.cache.Settled a) (hn : n ≠ 0)
    (hfresh : w.cache.Fresh t.buffer ⟨d, n⟩) (hheld : w.cache.Gathered d numbers held)
    (hcopied : w.cache.Copied a.blocks d seen chunks failed) :
    (w.collected t held chunks failed page).Delivers a w.cache
      (.page d (seen ++ n :: numbers) page) := by
  have happend : seen ++ n :: numbers = (seen ++ [n]) ++ numbers := by
    rw [List.append_assoc]
    rfl
  rw [happend]
  refine delivers_orFault fun v hv => ?_
  obtain ⟨-, rfl⟩ := Cache.view_eq_ok hv
  split
  · rename_i hvalid
    refine call_delivers .still ⟨h, rfl⟩ ⟨d, seen ++ [n], numbers, rfl, rfl, hheld,
      copied_append hcopied fun hs => ⟨?_, rfl⟩⟩
    rw [part_of_ne hn]
    exact h.2.coherent.current _ _ hfresh.1 (hs hn) nofun hvalid
  · rename_i hinvalid
    refine call_delivers .still ⟨h, rfl⟩ ⟨d, seen ++ [n], numbers, rfl, rfl, hheld,
      copied_append hcopied fun hs => ?_⟩
    exact absurd (hfresh.2 (hs hn)) hinvalid

end World
end BufferCache
