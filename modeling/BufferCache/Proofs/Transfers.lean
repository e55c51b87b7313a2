import BufferCache.Proofs.Agenda
import BufferCache.Proofs.Completion
import BufferCache.Proofs.RingOrder
import BufferCache.Proofs.Deliveries
import BufferCache.Proofs.Locks

/-!
# Transfers that are left alone

What reading, writing back and emptying do to a cache, as long as the calls are left alone.
References, blocks and links stay, and no buffer becomes dirty: `Cache.Transfers`.

A world is *idle* if nothing is under way in it and nothing has to be waited for: the drivers
are disks in memory, nobody listens to flushes, no request waits and no buffer is locked.
From an idle world transfers neither halt nor give way, and what they leave is idle again.

The specifications of the calls are for all worlds.  The premise `ok → …` of each says what
it takes not to stop.
-/

namespace BufferCache

variable {g : Geometry}

/-! ## What transfers do to a cache -/

/-- A header without its flags. -/
def Header.unflagged {n : Nat} (h : Header n) : Header n :=
  { h with valid := false, dirty := false, locked := false }

/-- From `c` to `c'` at most flags and bytes of buffers, requests and disks changed, and no
buffer became dirty. -/
structure Cache.Transfers (c c' : Cache g) : Prop where
  /-- Headers are the same, apart from the flags. -/
  header : ∀ i, (c'.header i).unflagged = (c.header i).unflagged
  /-- A clean buffer remains clean. -/
  clean : ∀ i, (c.header i).dirty = false → (c'.header i).dirty = false
  /-- Buckets are the same. -/
  buckets : c'.buffers.buckets = c.buffers.buckets
  /-- The ring begins at the same buffer. -/
  ringHead : c'.buffers.ringHead = c.buffers.ringHead
  /-- The same drivers are there. -/
  drives : ∀ m, (c'.driver? m).isSome = (c.driver? m).isSome

namespace Cache

variable {c c' c'' : Cache g} {i : g.Buffer}

namespace Transfers

theorem refl (c : Cache g) : c.Transfers c :=
  ⟨fun _ => rfl, fun _ h => h, rfl, rfl, fun _ => rfl⟩

theorem trans (h : c.Transfers c') (h' : c'.Transfers c'') : c.Transfers c'' where
  header i := (h'.header i).trans (h.header i)
  clean i hi := h'.clean i (h.clean i hi)
  buckets := h'.buckets.trans h.buckets
  ringHead := h'.ringHead.trans h.ringHead
  drives m := (h'.drives m).trans (h.drives m)

theorem content (h : c.Transfers c') (i : g.Buffer) :
    (c'.header i).content = (c.header i).content :=
  (congrArg Header.content (h.header i) :)

theorem references (h : c.Transfers c') (i : g.Buffer) :
    (c'.header i).references = (c.header i).references :=
  (congrArg Header.references (h.header i) :)

theorem generation (h : c.Transfers c') (i : g.Buffer) :
    (c'.header i).generation = (c.header i).generation :=
  (congrArg Header.generation (h.header i) :)

theorem device (h : c.Transfers c') (i : g.Buffer) :
    (c'.header i).device = (c.header i).device := by
  rw [Header.device, Header.device, h.content]

theorem chained (h : c.Transfers c') (hc : c.buffers.Chained fun _ => True) :
    c'.buffers.Chained fun _ => True := by
  refine hc.congr (fun j _ => h.content j) (fun j _ => ?_) (fun j _ => ?_) fun k => ?_
  · exact (congrArg Header.chainPrev (h.header j) :)
  · exact (congrArg Header.chainNext (h.header j) :)
  · rw [Buffers.first, Buffers.first, h.buckets]

theorem ringed (h : c.Transfers c') (hc : c.buffers.Ringed) : c'.buffers.Ringed := by
  obtain ⟨order, horder, hall⟩ := hc
  refine ⟨order, horder.congr (fun j => ?_) (fun j => ?_) h.ringHead, hall⟩
  · exact (congrArg Header.ringPrev (h.header j) :)
  · exact (congrArg Header.ringNext (h.header j) :)

theorem hold (h : c.Transfers c') (i : g.Buffer) : c'.hold i = c.hold i := by
  rw [Cache.hold, Cache.hold, h.generation]

/-- The same buffers are found. -/
theorem locate (h : c.Transfers c') (b : Block) :
    c'.buffers.locate b = c.buffers.locate b := by
  have hnext : (fun j => (c'.buffers.header j).chainNext) =
      fun j => (c.buffers.header j).chainNext :=
    funext fun j => (congrArg Header.chainNext (h.header j) :)
  have hholds : (fun j => (c'.buffers.header j).holds b) =
      fun j => (c.buffers.header j).holds b := by
    funext j
    rw [Header.holds, Header.holds]
    exact congrArg (· == some b) (h.content j)
  rw [Buffers.locate, Buffers.locate, Buffers.chain, Buffers.chain, hnext, hholds,
    Buffers.first, Buffers.first, h.buckets]

end Transfers

/-! ## Single steps -/

/-- A change of flags that makes no buffer dirty. -/
theorem transfers_of_header (hheader : ∀ j, c'.header j = c.header j ∨
      ∃ valid dirty locked, (dirty = true → (c.header j).dirty = true) ∧
        c'.header j = { c.header j with valid := valid, dirty := dirty, locked := locked })
    (hbuckets : c'.buffers.buckets = c.buffers.buckets)
    (hhead : c'.buffers.ringHead = c.buffers.ringHead)
    (hdrives : ∀ m, (c'.driver? m).isSome = (c.driver? m).isSome) : c.Transfers c' where
  header j := by
    rcases hheader j with h | ⟨_, _, _, -, h⟩ <;> rw [h]
    rfl
  clean j hj := by
    rcases hheader j with h | ⟨_, dirty, _, hdirty, h⟩
    · rw [h]
      exact hj
    · rw [h]
      exact Bool.eq_false_iff.mpr fun hd => Bool.false_ne_true (hj.symm.trans (hdirty hd))
  buckets := hbuckets
  ringHead := hhead
  drives := hdrives

theorem transfers_lock (c : Cache g) (i : g.Buffer) : c.Transfers (c.lock i) := by
  refine transfers_of_header (fun j => ?_) rfl rfl fun m => rfl
  rw [header_lock]
  split
  · exact .inr ⟨_, _, _, fun h => h, rfl⟩
  · exact .inl rfl

theorem transfers_unlock (c : Cache g) (i : g.Buffer) : c.Transfers (c.unlock i) := by
  refine transfers_of_header (fun j => ?_) rfl rfl fun m => rfl
  rw [header_unlock]
  split
  · exact .inr ⟨_, _, _, fun h => h, rfl⟩
  · exact .inl rfl

theorem transfers_enqueue (c : Cache g) (d : Direction) (i : g.Buffer) (b : Block)
    (slot : g.Slot) : c.Transfers (c.enqueue d i b slot) := by
  refine transfers_of_header (fun j => ?_) rfl rfl fun m => rfl
  rw [header_enqueue]
  split
  · exact .inr ⟨_, false, _, nofun, rfl⟩
  · exact .inl rfl

theorem transfers_carryOut {m : Nat} {d : Driver} (hd : c.driver? m = some d)
    (q : Request g) : c.Transfers (c.carryOut m d q) :=
  transfers_of_header (fun _ => .inl rfl) rfl rfl (isSome_driver?_carryOut hd q)

theorem transfers_conclude (c : Cache g) (m : Nat) (slot : g.Slot) (q : Request g)
    (success : Bool) : c.Transfers (c.conclude m slot q success) := by
  refine transfers_of_header (fun j => ?_) ?_ ?_ fun k => ?_
  · rw [header_conclude]
    split
    · exact .inr ⟨_, _, _, fun h => h, rfl⟩
    · exact .inl rfl
  · cases success <;> rfl
  · cases success <;> rfl
  · rw [driver?_congr (drivers_conclude c m slot q success)]

/-- Emptying a buffer. -/
theorem transfers_empty (c : Cache g) (i : g.Buffer) :
    c.Transfers ((c.setValid i false).setDirty i false) := by
  refine transfers_of_header (fun j => ?_) rfl rfl fun m => rfl
  rw [header_setDirty, header_setValid]
  split
  · exact .inr ⟨_, false, _, nofun, rfl⟩
  · exact .inl rfl

end Cache

/-! ## Idle worlds -/

/-- Those who listen to flushes have nothing to do. -/
def World.Silent (w : World g) : Prop :=
  ∀ script ∈ w.flushes.getD [], script = []

/-- Nothing is under way, and no transfer has to be waited for. -/
structure World.Idle (w : World g) : Prop where
  /-- All drivers are disks in memory, registered under their own majors. -/
  disks : w.cache.Disks
  /-- Those who listen to flushes have nothing to do. -/
  silent : w.Silent
  /-- No request waits. -/
  requests : w.cache.requests.Empty
  /-- No buffer is locked. -/
  unlocked : ∀ i, (w.cache.header i).locked = false
  /-- What is dirty can be written back. -/
  backed : ∀ i, (w.cache.header i).dirty = true →
    (w.cache.driver? (w.cache.header i).device.major).isSome = true
  /-- The index is in order. -/
  chained : w.cache.buffers.Chained fun _ => True
  /-- The ring goes through all buffers. -/
  ringed : w.cache.buffers.Ringed

/-- Transfers leave a world idle if no request and no lock is left. -/
theorem World.Idle.transfers {w w' : World g} (h : w.Idle)
    (hc : w.cache.Transfers w'.cache) (hdisks : w'.cache.Disks) (hsilent : w'.Silent)
    (hrequests : w'.cache.requests.Empty)
    (hunlocked : ∀ i, (w'.cache.header i).locked = false) : w'.Idle where
  disks := hdisks
  silent := hsilent
  requests := hrequests
  unlocked := hunlocked
  backed i hi := by
    rw [hc.drives, hc.device]
    refine h.backed i (Bool.of_not_eq_false fun hclean => ?_)
    exact Bool.false_ne_true ((hc.clean i hclean).symm.trans hi)
  chained := hc.chained h.chained
  ringed := hc.ringed h.ringed

/-- From `w` to `w'` there were transfers only, after which an idle world is idle again. -/
structure World.Transfers (w w' : World g) : Prop where
  /-- What they do to the cache. -/
  cache : w.cache.Transfers w'.cache
  /-- Nothing is left under way. -/
  idle : w.Idle → w'.Idle

theorem World.Transfers.refl (w : World g) : w.Transfers w :=
  ⟨.refl w.cache, fun h => h⟩

/-- Nothing but the buffers, the requests, the drivers and the scripts of those who listen to
flushes matters. -/
theorem World.transfers_of_silent {w w' : World g} (hbuffers : w'.cache.buffers = w.cache.buffers)
    (hrequests : w'.cache.requests = w.cache.requests)
    (hdrivers : w'.cache.drivers = w.cache.drivers) (hsilent : w.Silent → w'.Silent) :
    w.Transfers w' := by
  have hheader (i : g.Buffer) : w'.cache.header i = w.cache.header i := by
    rw [Cache.header, hbuffers]
    rfl
  have htransfers : w.cache.Transfers w'.cache := by
    refine Cache.transfers_of_header (fun j => .inl (hheader j)) ?_ ?_ fun m => ?_
    · rw [hbuffers]
    · rw [hbuffers]
    · rw [Cache.driver?_congr hdrivers]
  refine ⟨htransfers, fun h => h.transfers htransfers (h.disks.congr hdrivers)
    (hsilent h.silent) ?_ fun i => ?_⟩
  · rw [hrequests]
    exact h.requests
  · rw [hheader]
    exact h.unlocked i

theorem World.transfers_of_eq {w w' : World g} (hcache : w'.cache = w.cache)
    (hflushes : w'.flushes = w.flushes) : w.Transfers w' :=
  transfers_of_silent (by rw [hcache]) (by rw [hcache]) (by rw [hcache]) fun h => by
    rw [Silent, hflushes]
    exact h

theorem World.Transfers.trans {w w' w'' : World g} (h : w.Transfers w')
    (h' : w'.Transfers w'') : w.Transfers w'' :=
  ⟨h.cache.trans h'.cache, fun hw => h'.idle (h.idle hw)⟩

/-! ## Waiting -/

/-- Those who listen to flushes are among those who have scripts. -/
theorem World.flushes_of_scripts {w w' : World g} (h : w'.scripts = w.scripts) :
    w'.flushes = w.flushes :=
  congrArg (·.2.2.1) h

/-- Every request that ends frees a slot. -/
theorem World.card_slotsWith_finish {w : World g} {m : Nat} {success : Bool}
    {r : World g × Bool} (h : w.finish m success = .ok r) :
    (r.1.cache.requests.slotsWith fun _ => true).card + 1 =
      (w.cache.requests.slotsWith fun _ => true).card := by
  obtain ⟨slot, q, -, hq, rfl⟩ := finish_eq_ok h
  have horder : w.cache.requests.order? slot = some q.order := congrArg _ hq
  rw [cache_conclude, Cache.requests_conclude]
  exact RequestTable.card_slotsWith_retire horder

namespace Call

variable {ok : Prop} {w : World g} {i : g.Buffer}

/-- Left alone, a call that gives way stops. -/
theorem alone_sleep {q : Queue g} {ticket : UInt64}
    (hholds : (w.cache.queue q).holds ticket = true) :
    (Call.sleep q ticket).alone w = .error .deadlock := by
  rw [alone]
  split
  · rfl
  · rename_i henters
    have hnone : w.waiting = [] := by
      simpa [enters, hholds] using henters
    have htake : (w.emit .gaveWay).takeWaiting = none := by
      simp [World.takeWaiting, World.emit, hnone]
    change w.sleep q ticket = _
    rw [World.sleep, if_pos hholds, htake]

theorem completes_sleep {q : Queue g} {ticket : UInt64}
    (hok : ok → (w.cache.queue q).holds ticket = false) :
    (Call.sleep q ticket).Completes ok (fun w' _ => w' = w) w := by
  by_cases hholds : (w.cache.queue q).holds ticket = true
  · rw [Completes, alone_sleep hholds]
    exact .error fun h => Bool.false_ne_true ((hok h).symm.trans hholds)
  · refine completes_of_begin (by simp [enters, Bool.eq_false_iff.mpr hholds]) ?_
    change (w.sleep q ticket).Completes _ _ _
    rw [World.sleep, if_neg hholds]
    exact Outcome.completes_done rfl

/-- A call that waits with a new ticket stops. -/
theorem completes_sleepIn {s : Shape} {P : Next g s → Prop} {Q : World g → s.Value g → Prop}
    {q : Queue g} {f : Frame g .unit s} (hstop : ¬ ok)
    (hP : P (.call (.sleep q (w.cache.queue q).ticket) f)) :
    (w.sleepIn q f).Completes ok P Q := by
  refine .call (R := fun _ _ => False) hP ?_ fun _ _ h => h.elim
  rw [alone_sleep (w.cache.queue q).holds_ticket]
  exact .error hstop

theorem completes_awaitUnlock (hok : ok → (w.cache.header i).locked = false) :
    (Call.awaitUnlock i).Completes ok
      (fun w' _ => w' = w ∧ (w.cache.header i).locked = false) w := by
  refine completes_of_begin rfl ?_
  change (w.awaitUnlock i).Completes _ _ _
  rw [World.awaitUnlock]
  split
  · rename_i hlocked
    exact completes_sleepIn (fun h => Bool.false_ne_true ((hok h).symm.trans hlocked)) trivial
  · rename_i hlocked
    exact Outcome.completes_done ⟨rfl, Bool.eq_false_iff.mpr hlocked⟩

theorem completes_lock (hok : ok → (w.cache.header i).locked = false) :
    (Call.lock i).Completes ok
      (fun w' _ => w' = w.mapCache (·.lock i) ∧ (w.cache.header i).locked = false) w := by
  refine completes_of_begin rfl ?_
  change (w.lock i).Completes _ _ _
  rw [World.lock]
  split
  · rename_i hlocked
    exact completes_sleepIn (fun h => Bool.false_ne_true ((hok h).symm.trans hlocked)) trivial
  · rename_i hlocked
    exact Outcome.completes_done ⟨rfl, Bool.eq_false_iff.mpr hlocked⟩

/-- A script without commands is over at once. -/
theorem completes_play_nil : (Call.play []).Completes ok (fun w' _ => w' = w) w :=
  completes_of_begin rfl (Outcome.completes_done rfl)

/-! ## Serving -/

variable {m : Nat}

/-- A driver serves the requests of its own major until none is left. -/
theorem completes_serve :
    (Call.serve m).Completes False (fun w' _ => w.cache.Transfers w'.cache) w := by
  -- Every turn frees a slot.
  induction hcard : (w.cache.requests.slotsWith fun _ => true).card using
    Nat.strong_induction_on generalizing w with
  | h k ih =>
    refine completes_of_begin rfl ?_
    change (w.serve m).Completes _ _ _
    rw [World.serve]
    split
    · exact Outcome.completes_done (.refl _)
    rename_i d hd
    split
    · exact Outcome.completes_done (.refl _)
    rename_i q hq
    refine Outcome.completes_orFault (fun ended hended => ?_) False.elim
    have hfreed := World.card_slotsWith_finish hended
    obtain ⟨slot, -, happly⟩ := World.exists_serve hd hq hended
    have htransfers : w.cache.Transfers ended.1.cache := by
      rw [happly]
      exact (Cache.transfers_carryOut hd q).trans (Cache.transfers_conclude ..)
    split
    · refine Outcome.completes_goto ((ih _ ?_ rfl).post fun _ _ h => htransfers.trans h)
      rw [World.cache_carryOut] at hfreed
      change _ + 1 = (w.cache.requests.slotsWith _).card at hfreed
      omega
    · exact Outcome.completes_done htransfers

theorem completes_start :
    (Call.start m).Completes False (fun w' _ => w.cache.Transfers w'.cache) w := by
  by_cases henters : (Call.start m).enters w = true
  · rw [Completes, alone, if_pos henters]
    exact .error id
  rw [Bool.not_eq_true] at henters
  refine completes_of_begin henters ?_
  change (w.start m).Completes _ _ _
  rw [World.start]
  split
  · exact Outcome.completes_done (.refl _)
  rename_i d hd
  split
  · exact Outcome.completes_done (.refl _)
  · rename_i changed hkind
    -- The script for the start has no commands.
    have hempty : ((w.emit (.started d.major)).takeStart d.major).1 = [] := by
      obtain ⟨major, kind⟩ := d
      obtain rfl : kind = .manual changed := hkind
      rw [World.takeStart_emit]
      simpa [enters, hd] using henters
    dsimp only
    rw [hempty]
    refine Outcome.completes_goto (completes_play_nil.post fun w' _ hw' => ?_)
    rw [hw', World.cache_takeStart]
    exact .refl _
  · exact Outcome.completes_goto completes_serve
  · exact Outcome.completes_goto completes_serve

/-- A disk that has one request serves it, and no other follows. -/
theorem completes_start_single {slot : g.Slot} {q : Request g} {d : Driver}
    (hdisks : w.cache.Disks) (hd : w.cache.driver? m = some d)
    (hsingle : w.cache.requests.Single m slot q) :
    (Call.start m).Completes ok (fun w' _ =>
      w'.cache = (w.cache.carryOut m d q).conclude m slot q
        (d.serve q.transfer (w.cache.page q.buffer)).success ∧ w'.flushes = w.flushes) w := by
  obtain ⟨-, hmajor, disk, hkind⟩ := hdisks m d hd
  have hcurrent : w.cache.requests.currentSlot m = some slot := by
    rw [hsingle.current, if_pos rfl]
  have hrequest : w.cache.requests.request? slot = some q := by
    rw [hsingle.request, if_pos rfl]
  have hstart : w.start m = w.goto (.serve m) := by
    simp only [World.start, hd, hkind]
  refine completes_of_begin (by simp only [enters, hd]; split <;> simp_all) ?_
  change (w.start m).Completes _ _ _
  rw [hstart]
  refine Outcome.completes_goto (completes_of_begin rfl ?_)
  change (w.serve m).Completes _ _ _
  have hq : w.cache.requests.currentRequest d.major = some q := by
    rw [hmajor, RequestTable.currentRequest, hcurrent]
    exact hrequest
  have hrequests : (w.carryOut m d q).1.cache.requests = w.cache.requests := by
    rw [World.cache_carryOut]
    rfl
  have hfinish : (w.carryOut m d q).1.finish d.major (w.carryOut m d q).2 =
      .ok ((w.carryOut m d q).1.conclude m slot q (w.carryOut m d q).2) := by
    simp only [World.finish, hrequests, hmajor, hcurrent, hrequest]
  have hserve : w.serve m = (if ((w.carryOut m d q).1.conclude m slot q
        (w.carryOut m d q).2).2 then
      ((w.carryOut m d q).1.conclude m slot q (w.carryOut m d q).2).1.goto (.serve m)
    else ((w.carryOut m d q).1.conclude m slot q (w.carryOut m d q).2).1.done ()) := by
    simp only [World.serve, hd, hq, hfinish]
    rfl
  have hlast : ((w.carryOut m d q).1.conclude m slot q (w.carryOut m d q).2).2 = false := by
    rw [World.follows_conclude, hrequests]
    exact (hsingle.retire (Cache.lt_majorCount_of_driver? hd)).1
  rw [hserve, hlast, if_neg Bool.false_ne_true]
  refine Outcome.completes_done ⟨?_, ?_⟩
  · rw [World.cache_conclude, World.cache_carryOut, World.success_carryOut]
  · exact World.flushes_of_scripts
      ((World.scripts_conclude ..).trans (World.scripts_carryOut ..))

end Call

/-! ## Queueing -/

section Queueing

variable {ok : Prop} {w : World g} {i : g.Buffer} {op : Operation} {d : DeviceNumber} {b : Block}
  {number : BlockNumber} {slot : g.Slot}

/-- What starting an operation on buffer `i` leads to: a transfer, after which the buffer is
clean if it was to be written. -/
def World.Starts (op : Operation) (i : g.Buffer) (w w' : World g) : Prop :=
  w.Transfers w' ∧ (op = .write → (w'.cache.header i).dirty = false)

theorem World.file_eq (w : World g) (op : Operation) (i : g.Buffer) (b : Block)
    (slot : g.Slot) : w.file op i b slot =
      if (w.cache.requests.insert b.device.major slot (.ofBlock op.direction b) i).2 then
        ((w.mapCache (·.enqueue op.direction i b slot)).note (.queued op.direction b)).goto
          (.start b.device.major)
      else
        ((w.mapCache (·.enqueue op.direction i b slot)).note (.queued op.direction b)).done () :=
  rfl

theorem World.completes_file :
    (w.file op i b slot).Completes False (fun _ => True) fun w' _ =>
      w.cache.Transfers w'.cache ∧ (w'.cache.header i).dirty = false := by
  have hclean : ((w.cache.enqueue op.direction i b slot).header i).dirty = false := by
    rw [Cache.header_enqueue, if_pos rfl]
  have htransfers := w.cache.transfers_enqueue op.direction i b slot
  rw [file_eq]
  split
  · exact Outcome.completes_goto (Call.completes_start.post fun w' _ h =>
      ⟨htransfers.trans h, h.clean i hclean⟩)
  · exact Outcome.completes_done ⟨htransfers, hclean⟩

theorem World.completes_enqueue :
    (w.enqueue op i d number).Completes False (fun _ => True) fun w' _ =>
      w.cache.Transfers w'.cache ∧ (op = .write → (w'.cache.header i).dirty = false) := by
  unfold enqueue
  split
  · exact completes_file.post fun w' _ h => ⟨h.1, fun _ => h.2⟩
  · split
    · rename_i hahead
      refine Outcome.completes_done ⟨?_, ?_⟩
      · rw [cache_unlock]
        exact w.cache.transfers_unlock i
      · rintro rfl
        cases hahead
    · exact Call.completes_sleepIn id trivial

theorem World.completes_locked :
    (w.locked op i d).Completes False (fun _ => True) fun w' _ =>
      w.cache.Transfers w'.cache ∧ (op = .write → (w'.cache.header i).dirty = false) := by
  unfold locked
  split
  · rename_i hneedless
    have htransfers : w.cache.Transfers (w.unlock i).cache := by
      rw [cache_unlock]
      exact w.cache.transfers_unlock i
    refine Outcome.completes_done ⟨htransfers, ?_⟩
    rintro rfl
    exact htransfers.clean i (Bool.not_eq_true' _ ▸ hneedless)
  · exact completes_enqueue

/-- A buffer that is locked in an idle world in vain is unlocked again. -/
theorem World.Idle.graze (hw : w.Idle) (i : g.Buffer) :
    w.Transfers ((w.mapCache (·.lock i)).unlock i) := by
  have hcache : ((w.mapCache (·.lock i)).unlock i).cache = (w.cache.lock i).unlock i :=
    cache_unlock _ i
  have htransfers : w.cache.Transfers ((w.mapCache (·.lock i)).unlock i).cache :=
    hcache ▸ (w.cache.transfers_lock i).trans (Cache.transfers_unlock _ i)
  refine ⟨htransfers, fun _ => hw.transfers htransfers ?_ ?_ ?_ fun j => ?_⟩
  · rw [hcache]
    exact hw.disks.congr rfl
  · rw [Silent, World.flushes_of_scripts (scripts_unlock _ i)]
    exact hw.silent
  · rw [hcache]
    exact hw.requests
  · rw [hcache, Cache.header_unlock, Cache.header_lock]
    split
    · rfl
    · exact hw.unlocked j

/-- A request that is queued in an idle world is served at once. -/
theorem World.Idle.completes_file (hw : w.Idle)
    (hd : (w.cache.driver? b.device.major).isSome = true) :
    ((w.mapCache (·.lock i)).file op i b slot).Completes ok (fun _ => True) fun w' _ =>
      w.Transfers w' ∧ (w'.cache.header i).dirty = false := by
  obtain ⟨driver, hdriver⟩ := Option.isSome_iff_exists.mp hd
  have hmajor := Cache.lt_majorCount_of_driver? hdriver
  have hempty : (w.mapCache (·.lock i)).cache.requests.Empty := hw.requests
  obtain ⟨hfirst, hsingle⟩ := hempty.insert hmajor slot (.ofBlock op.direction b) i
  have hqueued := (w.cache.transfers_lock i).trans
    (Cache.transfers_enqueue _ op.direction i b slot)
  have hclean : (((w.cache.lock i).enqueue op.direction i b slot).header i).dirty = false := by
    rw [Cache.header_enqueue, if_pos rfl]
  have hdriver' : ((w.cache.lock i).enqueue op.direction i b slot).driver? b.device.major =
      some driver := hdriver
  rw [file_eq, if_pos hfirst]
  refine Outcome.completes_goto (Call.Completes.post
    (Call.completes_start_single (hw.disks.congr rfl) hdriver' hsingle) fun w' _ h => ?_)
  obtain ⟨hcache, hflushes⟩ := h
  change w'.cache = (((w.cache.lock i).enqueue op.direction i b slot).carryOut _ _ _).conclude
    _ _ _ _ at hcache
  have hserved : ((w.cache.lock i).enqueue op.direction i b slot).Transfers w'.cache := by
    rw [hcache]
    exact (Cache.transfers_carryOut hdriver' _).trans (Cache.transfers_conclude ..)
  refine ⟨⟨hqueued.trans hserved, fun _ => hw.transfers (hqueued.trans hserved) ?_ ?_ ?_
    fun j => ?_⟩, hserved.clean i hclean⟩
  · rw [hcache]
    exact (Cache.disks_carryOut (hw.disks.congr rfl) hdriver' _).congr
      (Cache.drivers_conclude ..)
  · rw [Silent, hflushes]
    exact hw.silent
  · rw [hcache, Cache.requests_conclude]
    exact (hsingle.retire hmajor).2
  · rw [hcache, Cache.header_conclude, Cache.header_carryOut]
    change (if i = j then _ else ((w.cache.lock i).enqueue op.direction i b slot).header j).locked
      = false
    rw [Cache.header_enqueue, Cache.header_lock]
    split
    · rfl
    · exact hw.unlocked j

theorem World.Idle.completes_locked (hw : w.Idle)
    (hd : (w.cache.driver? d.major).isSome = true) :
    ((w.mapCache (·.lock i)).locked op i d).Completes ok (fun _ => True) fun w' _ =>
      w.Starts op i w' := by
  unfold World.locked
  split
  · rename_i hneedless
    have htransfers := hw.graze i
    refine Outcome.completes_done ⟨htransfers, ?_⟩
    rintro rfl
    refine htransfers.cache.clean i ?_
    have hheader : (w.mapCache (·.lock i)).cache.header i =
        { w.cache.header i with locked := true } :=
      (Cache.header_lock w.cache i i).trans (if_pos rfl)
    rw [hheader] at hneedless
    exact Bool.not_eq_true' _ ▸ hneedless
  · have hempty : (w.mapCache (·.lock i)).cache.requests.Empty := hw.requests
    obtain ⟨slot, hslot⟩ := hempty.exists_freeSlot op.direction
    unfold World.enqueue
    rw [hslot]
    exact (hw.completes_file hd).post fun w' _ h => ⟨h.1, fun _ => h.2⟩

/-- What it takes not to stop: the world is idle and has a driver for the device. -/
theorem Call.completes_request (hok : ok → w.Idle ∧
      (w.cache.driver? (w.cache.header i).device.major).isSome = true) :
    (Call.request op i).Completes ok (fun w' _ => w.Starts op i w') w := by
  refine completes_of_begin rfl ?_
  change (w.request op i).Completes _ _ _
  -- What happens once the buffer is locked.
  have hlocked (hd : (w.cache.driver? (w.cache.header i).device.major).isSome = true) :
      ((w.mapCache (·.lock i)).locked op i (w.cache.header i).device).Completes ok
        (fun _ => True) fun w' _ => w.Starts op i w' := by
    by_cases hw : w.Idle
    · exact hw.completes_locked hd
    · refine World.completes_locked.mono (fun h => hw (hok h).1) (fun _ h => h) fun w' _ h => ?_
      exact ⟨⟨(w.cache.transfers_lock i).trans h.1, fun h => absurd h hw⟩, h.2⟩
  unfold World.request
  dsimp only
  split
  · rename_i hnone
    refine Outcome.completes_fault fun h => ?_
    have hsome := (hok h).2
    rw [hnone] at hsome
    cases hsome
  rename_i driver hdriver
  have hd : (w.cache.driver? (w.cache.header i).device.major).isSome = true := by
    rw [hdriver]
    rfl
  split
  · rename_i hahead
    split
    · refine Outcome.completes_done ⟨World.transfers_of_eq rfl rfl, ?_⟩
      rintro rfl
      cases hahead
    · exact hlocked hd
  · refine Outcome.completes_call (completes_lock fun h => (hok h).1.unlocked i) fun w' _ h => ?_
    rw [h.1]
    exact hlocked hd

theorem Call.completes_issue {h : Handle} (hok : ok → w.Idle ∧ ∃ i, w.cache.resolve h = .ok i ∧
      (w.cache.driver? (w.cache.header i).device.major).isSome = true) :
    (Call.issue op h).Completes ok (fun w' _ => w.Transfers w') w := by
  refine completes_of_begin rfl (Outcome.completes_orFault (fun i hi => ?_) fun h => ?_)
  · refine Outcome.completes_goto ((completes_request fun h => ?_).post fun w' _ h => h.1)
    obtain ⟨hw, j, hj, hd⟩ := hok h
    rw [Cache.resolve_unique hi hj]
    exact ⟨hw, hd⟩
  · obtain ⟨-, i, hi, -⟩ := hok h
    exact ⟨i, hi⟩

end Queueing

/-! ## Flushing -/

section Flushing

variable {ok : Prop} {w : World g} {scope : Scope} {rounds writes : Nat} {rest : List g.Buffer}

/-- What a flush leaves: the buffers of the list that fall under it are clean. -/
def World.Cleans (scope : Scope) (list : List g.Buffer) (w w' : World g) : Prop :=
  w.Transfers w' ∧ ∀ i ∈ list, scope.covers (w.cache.header i).device = true →
    (w'.cache.header i).dirty = false

theorem World.Cleans.cons {w' w'' : World g} {i : g.Buffer} (h : w.Transfers w')
    (hi : scope.covers (w.cache.header i).device = true → (w'.cache.header i).dirty = false)
    (hrest : w'.Cleans scope rest w'') : w.Cleans scope (i :: rest) w'' := by
  refine ⟨h.trans hrest.1, fun j hj hcovers => ?_⟩
  rcases List.mem_cons.mp hj with rfl | hj
  · exact hrest.1.cache.clean j (hi hcovers)
  · refine hrest.2 j hj ?_
    rw [h.cache.device]
    exact hcovers

/-- A round over the buffers of a list, if the rounds that follow complete. -/
theorem Call.completes_flushBuffers (hok : ok → w.Idle)
    (hrounds : ∀ {w' writes'}, w.Transfers w' →
      (Call.flushRounds scope rounds writes').Completes ok (fun w'' _ => w'.Transfers w'') w') :
    (Call.flushBuffers scope rounds writes rest).Completes ok
      (fun w' _ => w.Cleans scope rest w') w := by
  induction rest generalizing w writes with
  | nil =>
    refine completes_of_begin rfl (Outcome.completes_goto ?_)
    exact (hrounds (.refl w)).post fun w' _ h => ⟨h, nofun⟩
  | cons i rest ih =>
    -- Going on with the rest of the buffers.
    have hnext {w' : World g} {writes' : Nat} (h : w.Transfers w')
        (hi : scope.covers (w.cache.header i).device = true →
          (w'.cache.header i).dirty = false) :
        Outcome.Completes ok (fun _ => True) (fun w'' _ => w.Cleans scope (i :: rest) w'')
          (w'.goto (.flushBuffers scope rounds writes' rest)) :=
      Outcome.completes_goto ((ih (fun hh => h.idle (hok hh)) fun h' =>
        hrounds (h.trans h')).post fun w'' _ hrest => .cons h hi hrest)
    refine completes_of_begin rfl ?_
    change (w.flushBuffers scope rounds writes (i :: rest)).Completes _ _ _
    rw [World.flushBuffers]
    split
    · refine Outcome.completes_call (completes_awaitUnlock fun h => (hok h).unlocked i)
        fun w' _ h => ?_
      rw [h.1]
      change (w.flushReady scope rounds writes i rest).Completes _ _ _
      unfold World.flushReady
      dsimp only
      split
      · rename_i hneed
        simp only [Bool.and_eq_true] at hneed
        refine Outcome.completes_call
          (completes_request fun h => ⟨hok h, (hok h).backed i hneed.2⟩) fun w' _ h => ?_
        exact hnext h.1 fun _ => h.2 rfl
      · rename_i hneed
        refine hnext (.refl w) fun hcovers => ?_
        rw [hcovers, Bool.true_and] at hneed
        exact Bool.eq_false_of_not_eq_true hneed
    · rename_i hcovers
      exact hnext (.refl w) fun h => absurd h hcovers

/-- Those who have nothing to do when a flush is announced will have nothing to do later. -/
theorem World.Silent.takeFlush (h : w.Silent) :
    w.takeFlush.1 = [] ∧ w.takeFlush.2.Silent := by
  unfold World.takeFlush
  split
  · exact ⟨rfl, h⟩
  · exact ⟨rfl, h⟩
  · rename_i script scripts hflushes
    have hall : ∀ x ∈ script :: scripts, x = [] := by
      rw [Silent, hflushes] at h
      exact h
    exact ⟨hall script List.mem_cons_self, fun x hx => hall x (List.mem_cons_of_mem _ hx)⟩

theorem Call.completes_flushRounds (hok : ok → w.Idle) :
    (Call.flushRounds scope rounds writes).Completes ok
      (fun w' _ => w.Transfers w' ∧ (rounds ≠ 0 → w.Cleans scope g.allBuffers w')) w := by
  induction rounds generalizing w writes with
  | zero =>
    refine completes_of_begin rfl (Outcome.completes_done ⟨?_, absurd rfl⟩)
    exact World.transfers_of_eq rfl rfl
  | succ rounds ih =>
    by_cases hscript : w.takeFlush.1 = []
    · have hcache := World.cache_takeFlush w
      have htaken : w.Transfers w.takeFlush.2 :=
        World.transfers_of_silent (by rw [hcache]) (by rw [hcache]) (by rw [hcache])
          fun h => h.takeFlush.2
      refine completes_of_begin (by simp [enters, hscript]) ?_
      change Outcome.Completes _ _ _
        (w.takeFlush.2.call (.play w.takeFlush.1) (.announcing scope rounds writes))
      rw [hscript]
      refine Outcome.completes_call completes_play_nil fun w' _ h => ?_
      rw [h]
      refine Outcome.completes_goto ((completes_flushBuffers (fun h => htaken.idle (hok h))
        fun h' => (ih fun h => h'.idle (htaken.idle (hok h))).post fun _ _ h => h.1).post
          fun w'' _ h => ⟨htaken.trans h.1, fun _ => ⟨htaken.trans h.1, ?_⟩⟩)
      intro i hi hcovers
      refine h.2 i hi ?_
      rw [htaken.cache.device]
      exact hcovers
    · rw [Completes, alone, if_pos (by simp [enters, hscript])]
      exact .error fun h => hscript (hok h).silent.takeFlush.1

/-- A flush leaves the buffers that fall under it clean. -/
theorem Call.completes_flush (hok : ok → w.Idle) :
    (Call.flush scope).Completes ok (fun w' _ => w.Cleans scope g.allBuffers w') w := by
  refine completes_of_begin rfl (Outcome.completes_goto ?_)
  exact (completes_flushRounds hok).post fun w' _ h => h.2 (by decide)

end Flushing

/-! ## Emptying -/

section Emptying

variable {ok : Prop} {w : World g} {d : DeviceNumber} {rest : List g.Buffer}

/-- Emptying a buffer of an idle world. -/
theorem World.transfers_empty (w : World g) (i : g.Buffer) :
    w.Transfers (w.mapCache fun c => (c.setValid i false).setDirty i false) where
  cache := w.cache.transfers_empty i
  idle h := h.transfers (w.cache.transfers_empty i) (h.disks.congr rfl) h.silent h.requests
    fun j => by
      change (((w.cache.setValid i false).setDirty i false).header j).locked = false
      rw [Cache.header_setDirty, Cache.header_setValid]
      split
      · exact h.unlocked j
      · exact h.unlocked j

theorem Call.completes_discardBuffers (hok : ok → w.Idle) :
    (Call.discardBuffers d rest).Completes ok (fun w' _ => w.Transfers w') w := by
  induction rest generalizing w with
  | nil => exact completes_of_begin rfl (Outcome.completes_done (World.transfers_of_eq rfl rfl))
  | cons i rest ih =>
    have hnext {w' : World g} (h : w.Transfers w') :
        Outcome.Completes ok (fun _ => True) (fun w'' _ => w.Transfers w'')
          (w'.goto (.discardBuffers d rest)) :=
      Outcome.completes_goto ((ih fun hh => h.idle (hok hh)).post fun _ _ h' => h.trans h')
    refine completes_of_begin rfl ?_
    change (w.discardBuffers d (i :: rest)).Completes _ _ _
    rw [World.discardBuffers]
    split
    · rename_i hdevice
      refine Outcome.completes_call (completes_awaitUnlock fun h => (hok h).unlocked i)
        fun w' _ h => ?_
      rw [h.1]
      change (w.discardReady d i rest).Completes _ _ _
      refine hnext ?_
      rw [if_pos hdevice]
      exact w.transfers_empty i
    · exact hnext (.refl w)

theorem Call.completes_discard (hok : ok → w.Idle) :
    (Call.discard d).Completes ok (fun w' _ => w.Transfers w') w :=
  completes_of_begin rfl (Outcome.completes_goto (completes_discardBuffers hok))

end Emptying

end BufferCache
