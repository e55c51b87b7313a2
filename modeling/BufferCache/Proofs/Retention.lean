import BufferCache.Proofs.Evaluation

/-!
# What buffers retain

Over disks in memory every transfer is over within its own submission, and what comes of it is
settled by the disk: a block is served or it is not.  So it can be said what may become of a buffer
that goes on holding its block, whatever else is read, written back or given another block
meanwhile.

* Its bytes stay as they are, unless they were not those of the block and a disk serves it.
* It becomes valid only if a disk serves the block.
* It stays valid, unless it was dirty and no disk serves the block: then a flush takes the validity
  away with the change.

This is `Cache.Retains`.  `World.Exchanges` says it of all buffers, over the calls by which bytes
are exchanged with the disks, and `World.Secures` of the buffers with references, over a call that
gets a buffer and may have to take it from another block.

The world is `Calm` if it is over disks in memory, those who listen to flushes have nothing to do,
and no request waits.  Buffers may be locked, and changes may be there that cannot be written back;
so calls may still give way or be at fault, and the specifications are of partial correctness.
-/

namespace BufferCache

variable {g : Geometry}

/-! ## One buffer -/

/-- What becomes of buffer `i`, which holds block `b`, from `c` to `c'`. -/
structure Cache.Retains (b : Block) (i : g.Buffer) (c c' : Cache g) : Prop where
  /-- Its bytes are the same, unless they were not there and a disk serves the block. -/
  page : (c.header i).valid = true ∨ ¬ c.Serves b → c'.page i = c.page i
  /-- What is there stays, unless it was changed and no disk serves the block. -/
  valid : (c.header i).valid = true → ((c.header i).dirty = true → c.Serves b) →
    (c'.header i).valid = true
  /-- What is not there does not come, unless a disk serves the block. -/
  invalid : (c.header i).valid = false → ¬ c.Serves b → (c'.header i).valid = false
  /-- A clean buffer remains clean. -/
  clean : (c.header i).dirty = false → (c'.header i).dirty = false

namespace Cache

variable {c c' c'' : Cache g} {b : Block} {i : g.Buffer}

theorem retains_of_eq (hvalid : (c'.header i).valid = (c.header i).valid)
    (hdirty : (c'.header i).dirty = (c.header i).dirty) (hpage : c'.page i = c.page i) :
    c.Retains b i c' where
  page _ := hpage
  valid h _ := hvalid.trans h
  invalid h _ := hvalid.trans h
  clean h := hdirty.trans h

theorem Retains.trans (h : c.Retains b i c') (h' : c'.Retains b i c'')
    (hserves : c'.Serves b ↔ c.Serves b) : c.Retains b i c'' where
  page hi := by
    refine (h'.page ?_).trans (h.page hi)
    by_cases hb : c.Serves b
    · exact .inl (h.valid (hi.resolve_right fun hn => hn hb) fun _ => hb)
    · exact .inr (mt hserves.mp hb)
  valid hi hdirty := h'.valid (h.valid hi hdirty) fun hdirty' => hserves.mpr <| hdirty <|
    Bool.of_not_eq_false fun hclean => Bool.false_ne_true ((h.clean hclean).symm.trans hdirty')
  invalid hi hb := h'.invalid (h.invalid hi hb) (mt hserves.mp hb)
  clean hi := h'.clean (h.clean hi)

end Cache

/-! ## Calm worlds -/

/-- No request waits, and every one that is queued will be served at once, by a disk. -/
structure World.Calm (w : World g) : Prop where
  /-- All drivers are disks in memory, registered under their own majors. -/
  disks : w.cache.Disks
  /-- Those who listen to flushes have nothing to do. -/
  silent : w.Silent
  /-- No request waits. -/
  requests : w.cache.requests.Empty

theorem World.Calm.of_eq {w w' : World g} (h : w.Calm) (hdrivers : w'.cache.drivers = w.cache.drivers)
    (hrequests : w'.cache.requests = w.cache.requests) (hsilent : w.Silent → w'.Silent) :
    w'.Calm :=
  ⟨h.disks.congr hdrivers, hsilent h.silent, hrequests ▸ h.requests⟩

/-- From `w` to `w'` there were transfers only, each of which a disk served or refused. -/
structure World.Exchanges (w w' : World g) : Prop where
  /-- Nothing but flags, bytes, requests and disks changed. -/
  transfers : w.cache.Transfers w'.cache
  /-- No buffer was left locked. -/
  unlocked : ∀ i, (w.cache.header i).locked = false → (w'.cache.header i).locked = false
  /-- No request was left. -/
  calm : w.Calm → w'.Calm
  /-- The same blocks are served. -/
  serves : ∀ b, w'.cache.Serves b ↔ w.cache.Serves b
  /-- Every buffer retains its block. -/
  retains : ∀ i b, (w.cache.header i).content = some b → w.cache.Retains b i w'.cache

namespace World.Exchanges

variable {w w' w'' : World g}

/-- Nothing but the buffers and their bytes, the requests, the drivers and the scripts of those who
listen to flushes matters. -/
theorem of_silent (hbuffers : w'.cache.buffers = w.cache.buffers)
    (hpages : w'.cache.pages = w.cache.pages) (hrequests : w'.cache.requests = w.cache.requests)
    (hdrivers : w'.cache.drivers = w.cache.drivers) (hsilent : w.Silent → w'.Silent) :
    w.Exchanges w' := by
  have hheader (i : g.Buffer) : w'.cache.header i = w.cache.header i := by
    rw [Cache.header, hbuffers]
    rfl
  refine ⟨(World.transfers_of_silent hbuffers hrequests hdrivers hsilent).cache, fun i hi => ?_,
    fun h => h.of_eq hdrivers hrequests hsilent, fun b => Cache.serves_congr hdrivers b,
    fun i b _ => ?_⟩
  · rw [hheader]
    exact hi
  · refine Cache.retains_of_eq (by rw [hheader]) (by rw [hheader]) ?_
    simp only [Cache.page, hpages]

theorem refl (w : World g) : w.Exchanges w :=
  .of_silent rfl rfl rfl rfl id

theorem trans (h : w.Exchanges w') (h' : w'.Exchanges w'') : w.Exchanges w'' where
  transfers := h.transfers.trans h'.transfers
  unlocked i hi := h'.unlocked i (h.unlocked i hi)
  calm hw := h'.calm (h.calm hw)
  serves b := (h'.serves b).trans (h.serves b)
  retains i b hb := (h.retains i b hb).trans (h'.retains i b ((h.transfers.content i).trans hb))
    (h.serves b)

/-- They are transfers after which an idle world is idle again. -/
theorem toTransfers (hw : w.Calm) (h : w.Exchanges w') : w.Transfers w' where
  cache := h.transfers
  idle hidle := hidle.transfers h.transfers (h.calm hw).disks (h.calm hw).silent
    (h.calm hw).requests fun i => h.unlocked i (hidle.unlocked i)

end World.Exchanges

/-! ## Starting an operation -/

section Starting

variable {w : World g} {op : Operation} {i : g.Buffer} {b : Block} {slot : g.Slot}

/-- What a disk makes of a transfer, in short: it succeeds just if the block is served, and it
changes only the bytes of a buffer that is read. -/
theorem Cache.Disks.carryOut {c : Cache g} {d : Driver} {q : Request g} {dir : Direction}
    (hc : c.Disks) (hd : c.driver? b.device.major = some d) (hq : q.transfer = .ofBlock dir b) :
    ((d.serve q.transfer (c.page q.buffer)).success = true ↔ c.Serves b) ∧
      ∀ j, (q.buffer = j → dir = .read → ¬ c.Serves b) →
        (c.carryOut b.device.major d q).page j = c.page j := by
  by_cases hb : c.Serves b
  · cases dir with
    | read =>
      obtain ⟨hsuccess, hpage, -⟩ := carryOut_read hc hd hq hb rfl
      refine ⟨iff_of_true hsuccess hb, fun j hj => ?_⟩
      rw [hpage, if_neg fun hij => hj hij rfl hb]
    | write =>
      obtain ⟨hsuccess, hpage, -⟩ := carryOut_write hc hd hq hb rfl
      exact ⟨iff_of_true hsuccess hb, fun j _ => hpage j⟩
  · obtain ⟨hfailure, hpage, -⟩ := carryOut_refused hc hd hq hb
    exact ⟨iff_of_false (by rw [hfailure]; exact Bool.false_ne_true) hb, fun j _ => hpage j⟩

/-- What starting operation `op` on buffer `i` comes to. -/
structure World.Treats (op : Operation) (i : g.Buffer) (w w' : World g) : Prop where
  /-- A transfer, if any. -/
  exchanges : w.Exchanges w'
  /-- What was to be written is clean. -/
  clean : op = .write → (w'.cache.header i).dirty = false
  /-- What was to be read is there, if a disk serves it. -/
  sent : op = .read → (w.cache.header i).valid = false → ∀ b,
    (w.cache.header i).content = some b → ((w'.cache.header i).valid = true ↔ w.cache.Serves b)

/-- A buffer that needs an operation retains its block as the operation is carried out. -/
theorem Cache.retains_of_needed {c c' : Cache g} {success : Bool}
    (hneed : World.needless op (c.header i) = false) (hsuccess : success = true ↔ c.Serves b)
    (hpage : (op.direction = .read → ¬ c.Serves b) → c'.page i = c.page i)
    (hheader : c'.header i =
      { c.header i with valid := success, dirty := false, locked := false }) :
    c.Retains b i c' where
  page hi := hpage fun hread => hi.resolve_left fun hvalid => by
    rw [World.needless, hread, hvalid] at hneed
    cases hneed
  valid hi hchange := by
    rw [hheader]
    refine hsuccess.mpr (hchange ?_)
    cases hop : op.direction with
    | read =>
      rw [World.needless, hop, hi] at hneed
      cases hneed
    | write =>
      rw [World.needless, hop] at hneed
      exact Bool.not_eq_false' _ ▸ hneed
  invalid _ hrefused := by
    rw [hheader]
    exact Bool.eq_false_iff.mpr (mt hsuccess.mp hrefused)
  clean _ := by rw [hheader]

/-- A request for buffer `i` was queued in a calm world, carried out and ended. -/
theorem World.Calm.treats_of_served {w' : World g} {driver : Driver} (hw : w.Calm)
    (hdriver : w.cache.driver? b.device.major = some driver)
    (hneed : needless op (w.cache.header i) = false)
    (hb : ∀ b', (w.cache.header i).content = some b' → b' = b) {q : Request g}
    (hq : q = { transfer := .ofBlock op.direction b, buffer := i })
    (hcache : w'.cache = (((w.cache.lock i).enqueue op.direction i b slot).carryOut
      b.device.major driver q).conclude b.device.major slot q
        (driver.serve q.transfer (w.cache.page i)).success)
    (hflushes : w'.flushes = w.flushes) : w.Treats op i w' := by
  subst hq
  let queued := (w.cache.lock i).enqueue op.direction i b slot
  have hmajor := Cache.lt_majorCount_of_driver? hdriver
  have hempty : (w.cache.lock i).requests.Empty := hw.requests
  obtain ⟨-, hsingle⟩ := hempty.insert hmajor slot (.ofBlock op.direction b) i
  have hdisks : queued.Disks := hw.disks.congr rfl
  have hqueued : queued.driver? b.device.major = some driver := hdriver
  obtain ⟨hsuccess, hpages⟩ := hdisks.carryOut
    (q := { transfer := .ofBlock op.direction b, buffer := i }) hqueued rfl
  rw [Cache.serves_congr (show queued.drivers = w.cache.drivers from rfl)] at hsuccess hpages
  have hheader (j : g.Buffer) : w'.cache.header j = if i = j then
      { w.cache.header j with
        valid := (driver.serve (.ofBlock op.direction b) (w.cache.page i)).success,
        dirty := false, locked := false }
      else w.cache.header j := by
    rw [hcache, Cache.header_conclude, Cache.header_carryOut, Cache.header_enqueue,
      Cache.header_lock]
    change (if i = j then _ else _) = _
    split <;> rfl
  have hpage (j : g.Buffer) (hj : i = j → op.direction = .read → ¬ w.cache.Serves b) :
      w'.cache.page j = w.cache.page j := by
    rw [hcache, Cache.page_conclude]
    exact hpages j hj
  refine ⟨⟨?_, fun j hj => ?_, fun _ => ⟨?_, ?_, ?_⟩, fun b' => ?_, fun j b' hj => ?_⟩,
    fun _ => ?_, fun _ _ b' hb' => ?_⟩
  · rw [hcache]
    exact ((w.cache.transfers_lock i).trans (Cache.transfers_enqueue _ op.direction i b slot)).trans
      ((Cache.transfers_carryOut hqueued _).trans (Cache.transfers_conclude ..))
  · rw [hheader]
    split
    · rfl
    · exact hj
  · rw [hcache]
    exact (Cache.disks_carryOut hdisks hqueued _).congr (Cache.drivers_conclude ..)
  · rw [Silent, hflushes]
    exact hw.silent
  · rw [hcache, Cache.requests_conclude]
    exact (hsingle.retire hmajor).2
  · rw [hcache, Cache.serves_congr (Cache.drivers_conclude ..),
      Cache.serves_carryOut hdisks hqueued]
    exact Cache.serves_congr rfl b'
  · by_cases hij : i = j
    · subst hij
      obtain rfl := hb b' hj
      exact Cache.retains_of_needed hneed hsuccess (fun h => hpage i fun _ => h)
        ((hheader i).trans (if_pos rfl))
    · have hsame := (hheader j).trans (if_neg hij)
      exact Cache.retains_of_eq (by rw [hsame]) (by rw [hsame]) (hpage j fun h => absurd h hij)
  · rw [hheader, if_pos rfl]
  · obtain rfl := hb b' hb'
    rw [hheader, if_pos rfl]
    exact hsuccess

/-- A request that is queued in a calm world is served at once. -/
theorem World.Calm.ends_file (hw : w.Calm) (hd : (w.cache.driver? b.device.major).isSome = true)
    (hneed : needless op (w.cache.header i) = false)
    (hb : ∀ b', (w.cache.header i).content = some b' → b' = b) :
    ((w.mapCache (·.lock i)).file op i b slot).Ends fun w' _ => w.Treats op i w' := by
  obtain ⟨driver, hdriver⟩ := Option.isSome_iff_exists.mp hd
  have hempty : (w.mapCache (·.lock i)).cache.requests.Empty := hw.requests
  obtain ⟨hfirst, hsingle⟩ := hempty.insert (Cache.lt_majorCount_of_driver? hdriver) slot
    (.ofBlock op.direction b) i
  have hdisks : ((w.cache.lock i).enqueue op.direction i b slot).Disks := hw.disks.congr rfl
  rw [file_eq, if_pos hfirst]
  refine Outcome.ends_goto (Call.Ends.post (Call.Completes.ends
    (Call.completes_start_single hdisks hdriver hsingle)) fun w' _ ⟨hcache, hflushes⟩ => ?_)
  exact hw.treats_of_served hdriver hneed hb rfl hcache hflushes

/-- A buffer that is locked in vain is unlocked again. -/
theorem World.exchanges_graze (w : World g) (i : g.Buffer) :
    w.Exchanges ((w.mapCache (·.lock i)).unlock i) := by
  have hcache : ((w.mapCache (·.lock i)).unlock i).cache = (w.cache.lock i).unlock i :=
    cache_unlock _ i
  have hheader (j : g.Buffer) : ((w.mapCache (·.lock i)).unlock i).cache.header j =
      if i = j then { w.cache.header j with locked := false } else w.cache.header j := by
    rw [hcache, Cache.header_unlock, Cache.header_lock]
    split <;> rfl
  refine ⟨?_, fun j hj => ?_, fun hw => ⟨?_, ?_, ?_⟩, fun b => ?_, fun j b _ => ?_⟩
  · rw [hcache]
    exact (w.cache.transfers_lock i).trans (Cache.transfers_unlock _ i)
  · rw [hheader]
    split
    · rfl
    · exact hj
  · rw [hcache]
    exact hw.disks.congr rfl
  · rw [Silent, World.flushes_of_scripts (scripts_unlock _ i)]
    exact hw.silent
  · rw [hcache]
    exact hw.requests
  · rw [hcache]
    exact Cache.serves_congr rfl b
  · refine Cache.retains_of_eq ?_ ?_ ?_
    · rw [hheader]
      split <;> rfl
    · rw [hheader]
      split <;> rfl
    · rw [hcache]
      rfl

theorem World.Calm.ends_locked (hw : w.Calm)
    (hd : (w.cache.driver? (w.cache.header i).device.major).isSome = true) :
    ((w.mapCache (·.lock i)).locked op i (w.cache.header i).device).Ends fun w' _ =>
      w.Treats op i w' := by
  have hheader : (w.mapCache (·.lock i)).cache.header i =
      { w.cache.header i with locked := true } :=
    (Cache.header_lock w.cache i i).trans (if_pos rfl)
  have hneedless : needless op ((w.mapCache (·.lock i)).cache.header i) =
      needless op (w.cache.header i) := by
    rw [hheader]
    rfl
  unfold World.locked
  rw [hneedless]
  split
  · rename_i hneed
    refine Outcome.ends_done ⟨w.exchanges_graze i, ?_, ?_⟩
    · rintro rfl
      exact (w.exchanges_graze i).transfers.clean i (Bool.not_eq_true' _ ▸ hneed)
    · rintro rfl hvalid
      exact absurd (hvalid.symm.trans hneed) Bool.false_ne_true
  · rename_i hneed
    have hempty : (w.mapCache (·.lock i)).cache.requests.Empty := hw.requests
    obtain ⟨slot, hslot⟩ := hempty.exists_freeSlot op.direction
    unfold World.enqueue
    rw [hslot, hheader]
    exact hw.ends_file hd (Bool.eq_false_iff.mpr hneed) fun b hb => (Cache.blockOf_eq hb).symm

/-- What becomes of an operation on a buffer: the disk serves or refuses it, unless there is nothing
to do, or it is ahead of need and the buffer is locked. -/
theorem Call.ends_request (hw : w.Calm) :
    (Call.request op i).Ends (fun w' _ => w.Treats op i w') w := by
  refine ends_of_begin ?_
  change (w.request op i).Ends _
  unfold World.request
  dsimp only
  split
  · exact Outcome.ends_error
  rename_i driver hdriver
  have hd : (w.cache.driver? (w.cache.header i).device.major).isSome = true := by
    rw [hdriver]
    rfl
  split
  · rename_i hahead
    split
    · refine Outcome.ends_done ⟨.of_silent rfl rfl rfl rfl id, ?_, ?_⟩
      · rintro rfl
        cases hahead
      · rintro rfl
        cases hahead
    · exact hw.ends_locked hd
  · refine Outcome.ends_call ends_lock fun w' _ h => ?_
    rw [h.1]
    exact hw.ends_locked hd

theorem Call.ends_issue {h : Handle} (hw : w.Calm) (hi : w.cache.resolve h = .ok i) :
    (Call.issue op h).Ends (fun w' _ => w.Treats op i w') w := by
  refine ends_of_begin (Outcome.ends_orFault fun j hj => ?_)
  rw [Cache.resolve_unique hj hi]
  exact Outcome.ends_goto (ends_request hw)

end Starting

/-! ## Flushing -/

section Flushing

variable {w : World g} {scope : Scope} {rounds writes : Nat} {rest : List g.Buffer}

/-- A round over the buffers of a list leaves those that fall under the flush clean. -/
theorem Call.ends_flushBuffers (hw : w.Calm)
    (hrounds : ∀ {w' : World g} {writes' : Nat}, w'.Calm →
      (Call.flushRounds scope rounds writes').Ends (fun w'' _ => w'.Exchanges w'') w') :
    (Call.flushBuffers scope rounds writes rest).Ends
      (fun w' _ => w.Exchanges w' ∧ w.Cleans scope rest w') w := by
  induction rest generalizing w writes with
  | nil =>
    refine ends_of_begin (Outcome.ends_goto ((hrounds hw).post fun w' _ h => ⟨h, ?_⟩))
    exact ⟨h.toTransfers hw, nofun⟩
  | cons i rest ih =>
    -- Going on with the rest of the buffers.
    have hnext {w' : World g} {writes' : Nat} (h : w.Exchanges w')
        (hi : scope.covers (w.cache.header i).device = true →
          (w'.cache.header i).dirty = false) :
        Outcome.Ends (fun w'' _ => w.Exchanges w'' ∧ w.Cleans scope (i :: rest) w'')
          (w'.goto (.flushBuffers scope rounds writes' rest)) :=
      Outcome.ends_goto ((ih (h.calm hw)).post fun w'' _ hrest =>
        ⟨h.trans hrest.1, .cons (h.toTransfers hw) hi hrest.2⟩)
    refine ends_of_begin ?_
    change (w.flushBuffers scope rounds writes (i :: rest)).Ends _
    rw [World.flushBuffers]
    split
    · refine Outcome.ends_call ends_awaitUnlock fun w' _ h => ?_
      rw [h.1]
      change (w.flushReady scope rounds writes i rest).Ends _
      unfold World.flushReady
      dsimp only
      split
      · refine Outcome.ends_call (ends_request hw) fun w' _ h => ?_
        exact hnext h.exchanges fun _ => h.clean rfl
      · rename_i hneed
        refine hnext (.refl w) fun hcovers => ?_
        rw [hcovers, Bool.true_and] at hneed
        exact Bool.eq_false_of_not_eq_true hneed
    · rename_i hcovers
      exact hnext (.refl w) fun h => absurd h hcovers

theorem Call.ends_flushRounds (hw : w.Calm) :
    (Call.flushRounds scope rounds writes).Ends
      (fun w' _ => w.Exchanges w' ∧ (rounds ≠ 0 → w.Cleans scope g.allBuffers w')) w := by
  induction rounds generalizing w writes with
  | zero =>
    exact ends_of_begin (Outcome.ends_done ⟨.of_silent rfl rfl rfl rfl id, absurd rfl⟩)
  | succ rounds ih =>
    have hcache := World.cache_takeFlush w
    have htaken : w.Exchanges w.takeFlush.2 :=
      .of_silent (by rw [hcache]) (by rw [hcache]) (by rw [hcache]) (by rw [hcache])
        fun h => h.takeFlush.2
    refine ends_of_begin ?_
    change Outcome.Ends _
      (w.takeFlush.2.call (.play w.takeFlush.1) (.announcing scope rounds writes))
    rw [hw.silent.takeFlush.1]
    refine Outcome.ends_call ends_play_nil fun w' _ h => ?_
    rw [h]
    refine Outcome.ends_goto ((ends_flushBuffers (htaken.calm hw) fun hw' =>
      (ih hw').post fun _ _ h => h.1).post fun w'' _ h => ⟨htaken.trans h.1, fun _ => ?_⟩)
    refine ⟨(htaken.toTransfers hw).trans h.2.1, fun i hi hcovers => h.2.2 i hi ?_⟩
    rw [htaken.transfers.device]
    exact hcovers

/-- A flush leaves the buffers that fall under it clean. -/
theorem Call.ends_flush (hw : w.Calm) : (Call.flush scope).Ends
    (fun w' _ => w.Exchanges w' ∧ w.Cleans scope g.allBuffers w') w :=
  ends_of_begin (Outcome.ends_goto ((ends_flushRounds hw).post fun _ _ h => ⟨h.1, h.2 (by decide)⟩))

end Flushing

/-! ## Getting a buffer -/

section Getting

variable {w w' : World g} {b : Block} {i : g.Buffer} {h : Hold g}

/-- A buffer for block `b` was got, in a calm world. -/
structure World.Secures (b : Block) (w w' : World g) (h : Hold g) : Prop
    extends World.Gets b w w' h where
  /-- No request was left. -/
  calm : w.Calm → w'.Calm
  /-- The same blocks are served. -/
  serves : ∀ b', w'.cache.Serves b' ↔ w.cache.Serves b'
  /-- Buffers with references retain their blocks. -/
  retains : ∀ i b', (w.cache.header i).references ≠ 0 → (w.cache.header i).content = some b' →
    w.cache.Retains b' i w'.cache
  /-- If the bytes are there, they were found there. -/
  found : (w'.cache.header h.buffer).valid = true →
    w.cache.buffers.locate b = some h.buffer ∧ (w.cache.header h.buffer).valid = true ∧
      ((w'.cache.header h.buffer).dirty = true → (w.cache.header h.buffer).dirty = true)

/-- The block was in the cache: its buffer got a reference. -/
theorem World.secures_of_found (hi : w.cache.buffers.locate b = some i)
    (hbuffers : w'.cache.buffers = (w.cache.refer i).buffers)
    (hpages : w'.cache.pages = w.cache.pages) (hrequests : w'.cache.requests = w.cache.requests)
    (hdrivers : w'.cache.drivers = w.cache.drivers) (hsilent : w.Silent → w'.Silent) :
    w.Secures b w' (w.cache.hold i) := by
  have hfound : w.Finds b (w.mapCache (·.refer i)) (some (w.cache.hold i)) := ⟨i, hi, rfl, rfl⟩
  have hheader (j : g.Buffer) : w'.cache.header j =
      if i = j then { w.cache.header j with references := (w.cache.header j).references + 1 }
      else w.cache.header j := by
    rw [← Cache.header_refer, Cache.header, hbuffers]
    rfl
  have hvalid (j : g.Buffer) : (w'.cache.header j).valid = (w.cache.header j).valid := by
    rw [hheader]
    split <;> rfl
  have hdirty (j : g.Buffer) : (w'.cache.header j).dirty = (w.cache.header j).dirty := by
    rw [hheader]
    split <;> rfl
  refine ⟨hfound.gets.transfers (World.transfers_of_silent hbuffers hrequests hdrivers hsilent),
    fun hw => hw.of_eq hdrivers hrequests hsilent, fun b' => Cache.serves_congr hdrivers b',
    fun j b' _ _ => Cache.retains_of_eq (hvalid j) (hdirty j) ?_, fun hi' => ⟨hi, ?_, ?_⟩⟩
  · simp only [Cache.page, hpages]
  · exact (hvalid i).symm.trans hi'
  · exact fun hi' => (hdirty i).symm.trans hi'

/-- A buffer without references was given the block: the bytes of the block are not there. -/
theorem World.secures_of_reassign {s : Buffers g}
    (hreferences : (w.cache.header i).references = 0)
    (hnone : w.cache.buffers.locate b = none) (hs : w.cache.buffers.reassign i b = .ok s)
    (hcache : w'.cache = w.cache.assign i s) (hflushes : w'.flushes = w.flushes) :
    w.Secures b w' (w'.cache.hold i) := by
  have hparts : w'.cache.drivers = w.cache.drivers ∧ w'.cache.requests = w.cache.requests ∧
      w'.cache.pages = w.cache.pages := by
    rw [hcache, Cache.assign]
    split <;> exact ⟨rfl, rfl, rfl⟩
  have hsilent : w.Silent → w'.Silent := by
    rw [Silent, Silent, hflushes]
    exact id
  refine ⟨World.gets_of_reassign hreferences hnone hs hcache hflushes,
    fun hw => hw.of_eq hparts.1 hparts.2.1 hsilent, fun b' => Cache.serves_congr hparts.1 b',
    fun j b' hj _ => ?_, fun hi => ?_⟩
  · have hij : i ≠ j := by
      rintro rfl
      exact hj hreferences
    refine Cache.retains_of_eq ?_ ?_ ?_
    · exact (Cache.field_of_assign hs hcache Header.valid (fun _ => rfl) j).trans (if_neg hij)
    · exact (Cache.field_of_assign hs hcache Header.dirty (fun _ => rfl) j).trans (if_neg hij)
    · simp only [Cache.page, hparts.2.2]
  · have hinvalid : (w'.cache.header i).valid = false :=
      (Cache.field_of_assign hs hcache Header.valid (fun _ => rfl) i).trans (if_pos rfl)
    exact absurd (hinvalid.symm.trans hi) Bool.false_ne_true

/-- A block that was not in the cache may be got after a flush. -/
theorem World.Exchanges.secures {w₀ : World g} (hw₀ : w₀.Calm) (h₀ : w₀.Exchanges w)
    (hnone : w₀.cache.buffers.locate b = none) (h' : w.Secures b w' h) : w₀.Secures b w' h where
  toGets := (h₀.toTransfers hw₀).gets h'.toGets
  calm hw := h'.calm (h₀.calm hw)
  serves b' := (h'.serves b').trans (h₀.serves b')
  retains i b' hi hb' := by
    refine (h₀.retains i b' hb').trans (h'.retains i b' ?_ ?_) (h₀.serves b')
    · rw [h₀.transfers.references]
      exact hi
    · rw [h₀.transfers.content]
      exact hb'
  found hvalid := by
    have hlocate := (h'.found hvalid).1
    rw [h₀.transfers.locate, hnone] at hlocate
    cases hlocate

theorem Call.ends_lookUp : (Call.lookUp b).Ends
    (fun w' (found : Shape.found.Value g) => w.Finds b w' found) w := by
  refine ends_of_begin ?_
  change (w.lookUp b).Ends _
  unfold World.lookUp
  split
  · rename_i hnone
    exact Outcome.ends_done ⟨rfl, hnone⟩
  · rename_i i hi
    refine Outcome.ends_call ends_awaitUnlock fun w' _ h => ?_
    rw [h.1]
    change ((w.mapCache (·.refer i)).pinned b i).Ends _
    rw [World.pinned_eq hi]
    exact Outcome.ends_done ⟨i, hi, rfl, rfl⟩

/-- A victim that is clean and still free is given the block. -/
theorem World.ends_cleanVictim (hreferences : (w.cache.header i).references = 0)
    (hclean : (w.cache.header i).dirty = false) (hlocked : (w.cache.header i).locked = false)
    (hnone : w.cache.buffers.locate b = none) :
    (w.victimReady b i).Ends fun w' (h : Shape.hold.Value g) => w.Secures b w' h := by
  have hready : w.victimReady b i = w.replace b i := by
    simp [victimReady, hreferences, hclean, hlocked, hnone, Cache.contains]
  rw [hready]
  refine Outcome.ends_orFault fun s hs => Outcome.ends_done ?_
  refine World.secures_of_reassign hreferences hnone hs ?_ ?_
  · rw [cache_reportMiss]
    rfl
  · unfold reportMiss
    split <;> rfl

/-- A victim is flushed if it is dirty, and then given the block. -/
theorem World.Calm.ends_victimReady (hw : w.Calm) (hreferences : (w.cache.header i).references = 0)
    (hlocked : (w.cache.header i).locked = false) (hnone : w.cache.buffers.locate b = none) :
    (w.victimReady b i).Ends fun w' (h : Shape.hold.Value g) => w.Secures b w' h := by
  by_cases hclean : (w.cache.header i).dirty = false
  · exact ends_cleanVictim hreferences hclean hlocked hnone
  let noted := w.note (.dirtyVictim i.val (w.cache.header i).device)
  have hnoted : w.Exchanges noted := .of_silent rfl rfl rfl rfl id
  have hready : w.victimReady b i = noted.call (.flush (.device (w.cache.header i).device))
      (.flushingVictim b i) := by
    simp [noted, victimReady, hreferences, hclean]
  rw [hready]
  refine Outcome.ends_call (Call.ends_flush (hnoted.calm hw)) fun flushed _ hflushed => ?_
  have hexchanges := hnoted.trans hflushed.1
  refine Outcome.ends_call Call.ends_awaitUnlock fun w' _ h => ?_
  rw [h.1]
  refine (ends_cleanVictim (w := flushed) ?_ ?_ h.2 ?_).post fun _ _ h =>
    hexchanges.secures hw hnone h
  · exact (hexchanges.transfers.references i).trans hreferences
  · exact hflushed.2.2 i (g.mem_allBuffers i) (beq_self_eq_true _)
  · exact (hexchanges.transfers.locate b).trans hnone

theorem World.Calm.ends_lookedUp {found : Option (Hold g)} (hw : w.Calm)
    (hfound : w.Finds b w' found) :
    (w'.lookedUp b found).Ends fun w'' (h : Shape.hold.Value g) => w.Secures b w'' h := by
  match found with
  | some h =>
    obtain ⟨i, hi, rfl, rfl⟩ := hfound
    exact Outcome.ends_done (secures_of_found hi rfl rfl rfl rfl id)
  | none =>
    obtain ⟨rfl, hnone⟩ := hfound
    refine Outcome.ends_orFault fun victim hvictim => ?_
    cases victim with
    | none => exact Outcome.ends_sleepIn
    | some i =>
      refine Outcome.ends_call Call.ends_awaitUnlock fun w'' _ h => ?_
      rw [h.1]
      exact hw.ends_victimReady (Buffers.references_of_victim hvictim) h.2 hnone

/-- Getting a buffer, which counts as an access. -/
theorem Call.ends_acquire (hw : w.Calm) : (Call.acquire b).Ends
    (fun w' (h : Shape.hold.Value g) => w.Secures b w' h) w := by
  refine ends_of_begin ?_
  change (w.acquire b).Ends _
  rw [World.acquire]
  split
  · exact Outcome.ends_error
  · let ticked := w.mapCache (·.tick .access)
    have hticked : w.Exchanges ticked := .of_silent rfl rfl rfl rfl id
    refine Outcome.ends_goto (ends_of_begin (Outcome.ends_call ends_lookUp fun w' found hfound =>
      ((hticked.calm hw).ends_lookedUp hfound).post fun w'' h hsecures => ?_))
    exact ⟨(hticked.toTransfers hw).gets hsecures.toGets, fun _ => hsecures.calm (hticked.calm hw),
      hsecures.serves, fun i b' hi hb' => (hticked.retains i b' hb').trans
        (hsecures.retains i b' hi hb') (hticked.serves b'), hsecures.found⟩

end Getting

end BufferCache
