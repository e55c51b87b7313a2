import BufferCache.Proofs.Waits

/-!
# Every step is in order

Every call goes on as one that grants the same, and is suspended only on calls that grant
what it wishes; whoever goes to sleep takes a ticket while what it needs is missing; and a
buffer that was locked is claimed until a request is queued for it or it is unlocked.  This
module goes through all steps once to see this.
-/

namespace BufferCache

variable {g : Geometry}

namespace World

variable {s : Shape} {exact : Prop} {client : Bool} {w w' w₀ : World g} {asks : Option Nat}

/-! ## Waiting -/

theorem sleepIn_orderly {q : Queue g} {f : Frame g .unit s} {held : Option g.Buffer}
    (h : w'.cache = w.cache) (hclaim : f.claim? = held) (hw : f.wishes = .woken q)
    (hsound : f.Sound exact w'.cache) (hstalled : f.Stalled w'.cache)
    (hwaits : ∀ k, f.asks = some k → asks = some k ∧ ¬ w.cache.Unlocked k) :
    Outcome.Orderly (w'.sleepIn q f) exact client w f.grants held asks := by
  refine orderly_call ⟨.none, trivial, h, trivial, fun i => ?_⟩
    ⟨rfl, .inl hw, trivial, hsound, rfl, hstalled, nofun, hwaits⟩
  rw [hclaim]
  exact congrArg (· + 0) (Nat.zero_add _)

theorem sleep_orderly (w : World g) (q : Queue g) (ticket : UInt64) :
    (w.sleep q ticket).Orderly exact client w (.woken q) none asks := by
  unfold sleep
  split
  · split
    · exact Outcome.ensures_error
    · rename_i h
      exact call_simple ((cache_takeWaiting h).trans rfl) trivial trivial (.inl rfl)
  · exact orderly_done (shifts_of_eq rfl) trivial

theorem play_orderly (w : World g) (script : Script) :
    (w.play script).Orderly exact client w .nothing none asks := by
  cases script with
  | nil => exact done_simple rfl
  | cons c rest => exact call_simple rfl trivial trivial (.inl rfl)

theorem awaitUnlock_orderly (w : World g) (i : g.Buffer) :
    (w.awaitUnlock i).Orderly exact client w (.unlocked i) none asks := by
  unfold awaitUnlock
  split
  · rename_i h
    exact sleepIn_orderly rfl rfl rfl trivial h nofun
  · rename_i h
    exact orderly_done (shifts_of_eq rfl) (Bool.eq_false_iff.mpr h)

theorem lock_orderly (w : World g) (i : g.Buffer) :
    (w.lock i).Orderly exact client w (.locked i) none (some i.val) := by
  unfold lock
  split
  · rename_i h
    refine sleepIn_orderly rfl rfl rfl trivial h fun k hk => ⟨hk, fun hu => ?_⟩
    cases hk
    exact Bool.false_ne_true ((hu i rfl).symm.trans h)
  · rename_i h
    refine orderly_done ⟨.lock i, Bool.eq_false_iff.mpr h, rfl, trivial, fun j => ?_⟩ trivial
    exact Nat.add_comm _ 0

/-! ## Getting and giving back buffers -/

theorem lookUp_orderly (w : World g) (b : Block) :
    (w.lookUp b).Orderly exact client w (.found b) none asks := by
  unfold lookUp
  split
  · rename_i h
    exact orderly_done (shifts_of_eq rfl) fun _ => h
  · rename_i i h
    exact call_simple_of (shifts_of_idle (.refer b i) trivial h rfl) trivial trivial (.inl rfl)

theorem pinned_orderly (w : World g) (b : Block) (i : g.Buffer) :
    (w.pinned b i).Orderly exact client w (.found b) none asks := by
  unfold pinned
  split
  · exact orderly_done (shifts_of_eq rfl) nofun
  · split
    · exact Outcome.ensures_fault
    · rename_i h
      exact goto_simple_of (shifts_of_idle (.unrefer i) trivial h rfl) trivial

theorem acquire_orderly (w : World g) (b : Block) :
    (w.acquire b).Orderly exact client w .nothing none asks := by
  unfold acquire
  split
  · exact Outcome.ensures_fault
  · exact goto_simple_of (shifts_of_idle (.count .access) trivial trivial rfl) trivial

theorem lookedUp_orderly (w : World g) (b : Block) (found : Option (Hold g))
    (hfound : found = none → w.cache.buffers.locate b = none) :
    (w.lookedUp b found).Orderly exact client w .nothing none asks := by
  cases found with
  | some h =>
    exact orderly_done (shifts_of_idle (.count .hit) trivial trivial rfl) trivial
  | none =>
    refine Outcome.ensures_orFault fun victim hvictim => ?_
    cases victim with
    | none => exact sleepIn_orderly rfl rfl rfl trivial ⟨hvictim, hfound rfl⟩ nofun
    | some i => exact call_simple rfl trivial trivial (.inl rfl)

theorem victimReady_orderly (w : World g) (b : Block) (i : g.Buffer) :
    (w.victimReady b i).Orderly exact client w .nothing none asks := by
  unfold victimReady
  dsimp only
  split
  · exact goto_simple rfl trivial
  split
  · exact call_simple rfl trivial trivial (.inl rfl)
  split
  · exact goto_simple rfl trivial
  rename_i hrefs hdirty hfree
  simp only [Bool.or_eq_true, not_or, Bool.not_eq_true] at hfree
  have hnone : w.cache.buffers.locate b = none := by
    simpa [Cache.contains] using hfree.1
  refine Outcome.ensures_orFault fun s hs => ?_
  refine orderly_done (shifts_of_idle (.assign i b s) trivial
    ⟨by simpa using hrefs, by simpa using hdirty, hfree.2, hnone, hs⟩ ?_) trivial
  rw [cache_reportMiss]
  rfl

theorem released_orderly (w : World g) (i : g.Buffer) :
    (w.released i).Orderly exact client w .nothing none asks := by
  unfold released
  split
  · exact Outcome.ensures_fault
  · rename_i h
    exact orderly_done (shifts_of_idle (.unrefer i) trivial h rfl) trivial

/-! ## Queueing and serving -/

theorem file_orderly (direct : Bool) (op : Operation) (i : g.Buffer) (b : Block) (slot : g.Slot)
    {held : Option g.Buffer} (hheld : held = if direct then none else some i)
    (hcache : w.cache = if direct then w₀.cache.lock i else w₀.cache)
    (hfits : (Effect.queue direct op.direction i b slot).Fits w₀.cache)
    (hplaces : w₀.cache.Places exact i b) :
    (w.file op i b slot).Orderly exact client w₀ .nothing held asks := by
  have h : w₀.Shifts exact (one held) (one none)
      ((w.mapCache (·.enqueue op.direction i b slot)).note (.queued op.direction b)) := by
    refine ⟨.queue direct op.direction i b slot, hfits, ?_, hplaces, fun j => ?_⟩
    · change w.cache.enqueue op.direction i b slot = _
      rw [hcache]
      rfl
    · rw [hheld]
      cases direct with
      | false => exact Nat.add_comm 0 _
      | true => rfl
  unfold file
  dsimp only
  split
  · exact orderly_goto h ⟨rfl, trivial, .inl rfl⟩
  · exact orderly_done h trivial

theorem enqueue_orderly (w : World g) (op : Operation) (i : g.Buffer) (d : DeviceNumber)
    (number : BlockNumber) (h : w.cache.Places exact i ⟨d, number⟩) :
    (w.enqueue op i d number).Orderly exact client w .nothing (some i) asks := by
  unfold enqueue
  split
  · rename_i slot hslot
    exact file_orderly false op i ⟨d, number⟩ slot rfl rfl ⟨hslot, nofun⟩ h
  · rename_i hslot
    split
    · exact orderly_done ⟨.unlock i, trivial, cache_unlock _ i, trivial,
        fun j => Nat.add_comm 0 _⟩ trivial
    · exact sleepIn_orderly rfl rfl rfl h hslot nofun

theorem locked_orderly (w : World g) (op : Operation) (i : g.Buffer) (d : DeviceNumber)
    (hdriver : (w.cache.driver? d.major).isSome = true)
    (hdevice : exact → (w.cache.header i).device = d) :
    (w.locked op i d).Orderly exact client w .nothing (some i) asks := by
  unfold locked
  split
  · exact orderly_done ⟨.unlock i, trivial, cache_unlock w i, trivial,
      fun j => Nat.add_comm 0 _⟩ trivial
  · exact enqueue_orderly w op i d _ ⟨hdriver, rfl, hdevice⟩

theorem request_orderly (w : World g) (op : Operation) (i : g.Buffer) :
    (w.request op i).Orderly exact client w .nothing none (some i.val) := by
  unfold request
  dsimp only
  split
  · exact Outcome.ensures_fault
  rename_i driver hdriver
  have hsome : (w.cache.driver? (w.cache.header i).device.major).isSome = true := by
    rw [hdriver]
    rfl
  split
  · rename_i hahead
    split
    · exact done_simple rfl
    rename_i hfree
    simp only [Bool.not_eq_true] at hfree
    have hgraze {w' : World g} (h : w'.cache = (w.cache.lock i).unlock i) :
        w.Shifts exact (one none) (one none) w' := shifts_of_idle (.graze i) trivial hfree h
    unfold locked
    split
    · exact orderly_done (hgraze (cache_unlock _ i)) trivial
    unfold enqueue
    split
    · rename_i slot hslot
      have hnumber : ((w.mapCache (·.lock i)).cache.header i).number =
          (w.cache.header i).number := by
        simp [mapCache, Cache.lock, Cache.header_update, Header.number]
      refine file_orderly true op i _ slot rfl rfl ⟨hslot, fun _ => ⟨hfree, ?_⟩⟩
        ⟨hsome, hnumber.symm, fun _ => rfl⟩
      rw [hnumber]
    · rw [if_pos hahead]
      exact orderly_done (hgraze (cache_unlock _ i)) trivial
  · refine orderly_call (shifts_of_eq rfl) ⟨rfl, .inl rfl, trivial, ⟨hsome, fun _ => rfl⟩, trivial,
      trivial, fun k hk => .inr (.inl ⟨trivial, hk, rfl⟩), fun k hk => by cases hk⟩

/-- An operation is started by a call that has a reference of its own to the buffer, or for
a client. -/
theorem issue_orderly {op : Operation} {h : Handle} {f : Frame g .unit s}
    (hw : w'.cache = w.cache) (hf : f.Simple) (hwishes : f.wishes = .nothing)
    (hbacks : f.Backs client h.index) :
    Outcome.Orderly (w'.call (.issue op h) f) exact client w f.grants none asks := by
  have hframe : f.Sound exact w'.cache ∧ f.Stalled w'.cache ∧ f.asks = none ∧ f.claim? = none := by
    cases f <;> first | exact ⟨trivial, trivial, rfl, rfl⟩ | exact hf.elim
  obtain ⟨hsound, hstalled, hasks, hclaim⟩ := hframe
  refine orderly_call ?_ ⟨rfl, .inl hwishes, trivial, hsound, trivial, hstalled,
    fun k hk => ?_, fun k hk => ?_⟩
  · rw [hclaim]
    exact shifts_of_eq hw
  · cases hk
    exact .inl hbacks
  · cases hasks.symm.trans hk

theorem start_orderly (w : World g) (m : Nat) :
    (w.start m).Orderly exact client w .nothing none asks := by
  unfold start
  split
  · exact done_simple rfl
  · split
    · exact done_simple rfl
    · exact goto_simple (cache_takeStart _ _) trivial
    · exact goto_simple rfl trivial
    · exact goto_simple rfl trivial

theorem shifts_of_finish {m : Nat} {success : Bool} {r : World g × Bool}
    (h : w.finish m success = .ok r) : w.Shifts exact (one none) (one none) r.1 := by
  obtain ⟨slot, q, hslot, hq, rfl⟩ := finish_eq_ok h
  exact shifts_of_idle (.finish m slot q success) trivial ⟨hslot, hq⟩
    (cache_conclude w m slot q success)

theorem serve_orderly (w : World g) (m : Nat) :
    (w.serve m).Orderly exact client w .nothing none asks := by
  unfold serve
  split
  · exact done_simple rfl
  rename_i d hd
  split
  · exact done_simple rfl
  rename_i q hq
  refine Outcome.ensures_orFault fun ended hended => ?_
  obtain ⟨slot, hfits, happly⟩ := exists_serve hd hq hended
  have h : w.Shifts exact (one none) (one none) ended.1 :=
    shifts_of_idle (.serve m d slot q) trivial hfits happly
  split
  · exact goto_simple_of h trivial
  · exact orderly_done h trivial

/-! ## Flushing and emptying -/

theorem flushRounds_orderly (w : World g) (scope : Scope) (rounds writes : Nat) :
    (w.flushRounds scope rounds writes).Orderly exact client w .nothing none asks := by
  cases rounds with
  | zero => exact done_simple rfl
  | succ rounds => exact call_simple (cache_takeFlush w) trivial trivial (.inl rfl)

theorem flushBuffers_orderly (w : World g) (scope : Scope) (rounds writes : Nat)
    (rest : List g.Buffer) :
    (w.flushBuffers scope rounds writes rest).Orderly exact client w .nothing none asks := by
  unfold flushBuffers
  split
  · exact goto_simple rfl trivial
  · split
    · exact call_simple rfl trivial trivial (.inl rfl)
    · exact goto_simple rfl trivial

/-- A flush starts a write on a buffer that it finds unlocked, which does not have to wait
for the lock. -/
theorem flushReady_orderly (w : World g) (scope : Scope) (rounds writes : Nat) (i : g.Buffer)
    (rest : List g.Buffer) (hi : (w.cache.header i).locked = false) :
    (w.flushReady scope rounds writes i rest).Orderly exact client w .nothing none asks := by
  unfold flushReady
  dsimp only
  split
  · refine orderly_call (shifts_of_eq rfl) ⟨rfl, .inl rfl, trivial, trivial, trivial, trivial,
      fun k hk => .inr (.inr fun j hj => ?_), nofun⟩
    cases hk
    rw [Fin.ext hj]
    exact hi
  · exact goto_simple rfl trivial

theorem discardBuffers_orderly (w : World g) (d : DeviceNumber) (rest : List g.Buffer) :
    (w.discardBuffers d rest).Orderly exact client w .nothing none asks := by
  unfold discardBuffers
  split
  · exact done_simple rfl
  · split
    · exact call_simple rfl trivial trivial (.inl rfl)
    · exact goto_simple rfl trivial

theorem discardReady_orderly (w : World g) (d : DeviceNumber) (i : g.Buffer)
    (rest : List g.Buffer) :
    (w.discardReady d i rest).Orderly exact client w .nothing none asks := by
  unfold discardReady
  dsimp only
  split
  · rename_i h
    exact goto_simple_of (shifts_of_idle (.empty d i) trivial h rfl) trivial
  · exact goto_simple rfl trivial

theorem checkMedium_orderly (w : World g) (d : DeviceNumber) :
    (w.checkMedium d).Orderly exact client w .nothing none asks := by
  unfold checkMedium
  split
  · exact call_simple (cache_takeEmptying _ d) trivial trivial (.inl rfl)
  · exact done_simple rfl

/-! ## Reading -/

theorem letGo_orderly (w : World g) (h t : Hold g) (d : DeviceNumber)
    (ahead : List BlockNumber) :
    (w.letGo h t d ahead).Orderly exact client w .nothing none asks := by
  refine Outcome.ensures_orFault fun i hi => ?_
  have hrefs := Cache.references_of_resolve hi
  exact goto_simple_of (shifts_of_idle (.unrefer i) trivial hrefs rfl) trivial

theorem fetched_orderly (w : World g) (h : Hold g) :
    (w.fetched h).Orderly exact client w .nothing none asks := by
  refine Outcome.ensures_orFault fun v _ => ?_
  split
  · exact done_simple rfl
  · exact issue_orderly rfl trivial rfl (.inr ⟨_, Multiset.mem_singleton_self _, rfl⟩)

theorem settled_orderly (w : World g) (h : Hold g) :
    (w.settled h).Orderly exact client w .nothing none asks := by
  refine Outcome.ensures_orFault fun v _ => ?_
  split
  · exact done_simple rfl
  · exact call_simple rfl trivial trivial (.inl rfl)

theorem firstFetched_orderly (w : World g) (d : DeviceNumber) (ahead : List BlockNumber)
    (h : Hold g) :
    (w.firstFetched d ahead h).Orderly exact client w .nothing none asks := by
  refine Outcome.ensures_orFault fun v _ => ?_
  split
  · exact goto_simple rfl trivial
  · exact issue_orderly rfl trivial rfl (.inr ⟨_, Multiset.mem_singleton_self _, rfl⟩)

theorem readAhead_orderly (w : World g) (h : Hold g) (d : DeviceNumber)
    (ahead : List BlockNumber) :
    (w.readAhead h d ahead).Orderly exact client w .nothing none asks := by
  cases ahead with
  | nil => exact goto_simple rfl trivial
  | cons n ahead => exact call_simple rfl trivial trivial (.inl rfl)

theorem aheadFetched_orderly (w : World g) (h : Hold g) (d : DeviceNumber)
    (ahead : List BlockNumber) (t : Hold g) :
    (w.aheadFetched h d ahead t).Orderly exact client w .nothing none asks := by
  refine Outcome.ensures_orFault fun v _ => ?_
  split
  · exact letGo_orderly w h t d ahead
  · refine issue_orderly rfl trivial rfl (.inr ⟨t.handle, ?_, rfl⟩)
    exact Multiset.mem_add.mpr (.inl (Multiset.mem_singleton_self _))

theorem fetchPage_orderly (w : World g) (d : DeviceNumber) (numbers : List BlockNumber)
    (page : List UInt8) :
    (w.fetchPage d numbers page).Orderly exact client w .nothing none asks := by
  unfold fetchPage
  split
  · exact done_simple rfl
  split
  · exact done_simple rfl
  · exact goto_simple rfl trivial

theorem gather_orderly (w : World g) (d : DeviceNumber) (numbers : List BlockNumber)
    (held : Held g) (page : List UInt8) :
    (w.gather d numbers held page).Orderly exact client w .nothing none asks := by
  cases numbers with
  | nil => exact goto_simple rfl trivial
  | cons n numbers =>
    unfold gather
    dsimp only
    split
    · exact goto_simple rfl trivial
    · exact call_simple rfl trivial trivial (.inl rfl)

theorem gathered_orderly (w : World g) (d : DeviceNumber) (numbers : List BlockNumber)
    (held : Held g) (page : List UInt8) (h : Hold g) :
    (w.gathered d numbers held page h).Orderly exact client w .nothing none asks := by
  refine Outcome.ensures_orFault fun v _ => ?_
  split
  · exact goto_simple rfl trivial
  · refine issue_orderly rfl trivial rfl (.inr ⟨h.handle, ?_, rfl⟩)
    change Stake.hold h.handle ∈ stakesOf (held ++ [some h])
    rw [stakesOf_append]
    exact Multiset.mem_add.mpr (.inr (Multiset.mem_add.mpr (.inl (Multiset.mem_singleton_self _))))

theorem collect_orderly (w : World g) (held : Held g) (chunks : List Page) (failed : Bool)
    (page : List UInt8) :
    (w.collect held chunks failed page).Orderly exact client w .nothing none asks := by
  match held with
  | [] => exact done_simple rfl
  | none :: held => exact goto_simple rfl trivial
  | some h :: held => exact call_simple rfl trivial trivial (.inl rfl)

theorem collected_orderly (w : World g) (h : Hold g) (held : Held g) (chunks : List Page)
    (failed : Bool) (page : List UInt8) :
    (w.collected h held chunks failed page).Orderly exact client w .nothing none asks := by
  refine Outcome.ensures_orFault fun v _ => ?_
  split
  · exact call_simple rfl trivial trivial (.inl rfl)
  · exact call_simple rfl trivial trivial (.inl rfl)

/-! ## Commands -/

theorem withHandle_orderly {name : String} {k : Handle → Outcome g .reply}
    (hk : ∀ h, (k h).Orderly exact client w .nothing none asks) :
    (w.withHandle name k).Orderly exact client w .nothing none asks := by
  unfold withHandle
  split
  · exact hk _
  · exact done_simple rfl

theorem withGuard_orderly {name : String} {k : Handle → Outcome g .reply}
    (hk : ∀ h, (k h).Orderly exact client w .nothing none asks) :
    (w.withGuard name k).Orderly exact client w .nothing none asks := by
  unfold withGuard
  split
  · exact hk _
  · exact done_simple rfl

theorem shifts_of_edit (i : g.Buffer) (page : Option Page) (valid dirty : Bool)
    (h : w'.cache = w.cache.edit i page valid dirty) :
    w.Shifts exact (one none) (one none) w' :=
  shifts_of_idle (.edit i page valid dirty) trivial trivial h

theorem change_orderly {c : Except Fault (Cache g)}
    (hok : ∀ c', c = .ok c' → ∃ i page valid dirty, c' = w.cache.edit i page valid dirty) :
    (w.change c).Orderly exact client w .nothing none asks := by
  refine Outcome.ensures_orFault fun c' hc' => ?_
  obtain ⟨i, page, valid, dirty, rfl⟩ := hok c' hc'
  exact orderly_done (shifts_of_edit i page valid dirty rfl) trivial

theorem withDisk_orderly (w : World g) (m : Nat) (k : MemoryDisk → Answer) :
    (w.withDisk m k).Orderly exact client w .nothing none asks := by
  unfold withDisk
  split
  · exact done_simple rfl
  · exact done_simple rfl

theorem moveBytes_orderly (w : World g) (m : Nat) (fill : Option UInt8) :
    (w.moveBytes m fill).Orderly exact client w .nothing none asks := by
  unfold moveBytes
  split
  · exact done_simple rfl
  · cases fill with
    | none => exact done_simple rfl
    | some byte =>
      exact orderly_done (shifts_of_edit _ (some (Page.fill byte)) false false rfl) trivial

theorem drain_orderly (w : World g) (m : Nat) (pattern upcoming : List Bool)
    (ended : List (Transfer × Bool × Bool)) :
    (w.drain m pattern upcoming ended).Orderly exact client w .nothing none asks := by
  unfold drain
  split
  · exact done_simple rfl
  · dsimp only
    exact Outcome.ensures_orFault fun r hr => goto_simple_of (shifts_of_finish hr) trivial

theorem shifts_of_register {m : Nat} {d : Driver} {starts : List Script}
    (h : w.register m d starts = .ok w') : w.Shifts exact (one none) (one none) w' := by
  unfold register at h
  cases hc : w.cache.register m d with
  | error f => rw [hc] at h; cases h
  | ok c =>
    rw [hc] at h
    cases h
    obtain ⟨hzero, hm, hfree, rfl⟩ := Cache.register_eq_ok hc
    exact shifts_of_idle (.register m d) trivial ⟨hzero, hm, hfree⟩ rfl

theorem fillHeld_orderly (w : World g) (byte : UInt8) (h : Hold g) :
    (w.fillHeld byte h).Orderly exact client w .nothing none asks := by
  refine Outcome.ensures_orFault fun c hc => ?_
  obtain ⟨i, -, rfl⟩ := Cache.overwrite_eq_ok hc
  exact call_simple_of (shifts_of_edit i (some (Page.fill byte)) true true rfl) trivial trivial
    (.inl rfl)

theorem guardHeld_orderly (w : World g) (name : String) (h : Hold g) :
    (w.guardHeld name h).Orderly exact client w .nothing none asks := by
  refine Outcome.ensures_orFault fun c hc => ?_
  obtain ⟨i, -, rfl⟩ := Cache.markValid_eq_ok hc
  exact orderly_done (shifts_of_edit i none true false rfl) trivial

theorem perform_orderly (w : World g) (c : Command) :
    (w.perform c).Orderly exact client w .nothing none asks := by
  cases c with
  | register m d starts =>
    unfold perform
    dsimp only
    split
    · rename_i h
      exact orderly_done (shifts_of_register h) trivial
    · exact done_simple rfl
  | listen _ | attend _ => exact done_simple rfl
  | acquire b name => exact call_simple rfl trivial trivial (.inl rfl)
  | lookUp b name => exact call_simple rfl trivial trivial (.inr ⟨rfl, rfl⟩)
  | fetch b name => exact call_simple rfl trivial trivial (.inl rfl)
  | fetchAhead b ahead name => exact call_simple rfl trivial trivial (.inl rfl)
  | fetchPage d numbers length fill => exact call_simple rfl trivial trivial (.inl rfl)
  | release name =>
    exact withHandle_orderly fun h => call_simple rfl trivial trivial (.inl rfl)
  | put b fill => exact call_simple rfl trivial trivial (.inl rfl)
  | touch b => exact call_simple rfl trivial trivial (.inl rfl)
  | read name =>
    exact withHandle_orderly fun h => Outcome.ensures_orFault fun p _ => done_simple rfl
  | fill name byte =>
    refine withHandle_orderly fun h => change_orderly fun c hc => ?_
    obtain ⟨i, -, rfl⟩ := Cache.write_eq_ok hc
    exact ⟨i, _, _, _, rfl⟩
  | write name offset bytes =>
    refine withHandle_orderly fun h => change_orderly fun c hc => ?_
    obtain ⟨i, -, rfl⟩ := Cache.write_eq_ok hc
    exact ⟨i, _, _, _, rfl⟩
  | markDirty name =>
    refine withHandle_orderly fun h => change_orderly fun c hc => ?_
    obtain ⟨i, -, rfl⟩ := Cache.markDirty_eq_ok hc
    exact ⟨i, _, _, _, rfl⟩
  | markValid name =>
    refine withHandle_orderly fun h => change_orderly fun c hc => ?_
    obtain ⟨i, -, rfl⟩ := Cache.markValid_eq_ok hc
    exact ⟨i, _, _, _, rfl⟩
  | query name q =>
    exact withHandle_orderly fun h => Outcome.ensures_orFault fun v _ => done_simple rfl
  | isCached b => exact done_simple rfl
  | bufferCount => exact done_simple rfl
  | forge name index generation => exact done_simple rfl
  | issue op name =>
    exact withHandle_orderly fun h => issue_orderly rfl trivial rfl (.inl rfl)
  | current m => exact done_simple rfl
  | queued m => exact done_simple rfl
  | move m fill => exact moveBytes_orderly w m fill
  | finish m success =>
    exact Outcome.ensures_orFault fun r hr => orderly_done (shifts_of_finish hr) trivial
  | drain m pattern => exact goto_simple rfl trivial
  | start m =>
    unfold perform
    dsimp only
    split
    · exact call_simple rfl trivial trivial (.inl rfl)
    · exact done_simple rfl
  | flush scope => exact call_simple rfl trivial trivial (.inl rfl)
  | discard d => exact call_simple rfl trivial trivial (.inl rfl)
  | checkMedium d => exact call_simple rfl trivial trivial (.inl rfl)
  | diskInfo m => exact withDisk_orderly w m _
  | diskRead m offset length fill => exact withDisk_orderly w m _
  | statistics => exact done_simple rfl
  | describe => exact done_simple rfl
  | inspect => exact done_simple (cache_noteFaults w _)
  | guardFetch b name => exact call_simple rfl trivial trivial (.inl rfl)
  | guardAcquire b name => exact call_simple rfl trivial trivial (.inl rfl)
  | guardInfo name =>
    exact withGuard_orderly fun h => Outcome.ensures_orFault fun v _ => done_simple rfl
  | guardRead name =>
    exact withGuard_orderly fun h => Outcome.ensures_orFault fun p _ => done_simple rfl
  | guardWrite name offset bytes =>
    refine withGuard_orderly fun h => change_orderly fun c hc => ?_
    obtain ⟨i, -, rfl⟩ := Cache.writeDirty_eq_ok hc
    exact ⟨i, _, _, _, rfl⟩
  | guardDrop name =>
    exact withGuard_orderly fun h => call_simple rfl trivial trivial (.inl rfl)
  | guardInto name handle => exact withGuard_orderly fun h => done_simple rfl
  | guardHandle name handle => exact withGuard_orderly fun h => done_simple rfl

end World

/-! ## All steps -/

/-- The first step of a call is in order. -/
theorem Call.begin_orderly {s : Shape} {exact : Prop} {w : World g} {d : Call g s}
    (hd : d.Sound exact w.cache) (client : Bool) :
    (d.begin w).Orderly exact client w d.grants d.claim? d.asks := by
  cases d with
  | sleep q ticket => exact w.sleep_orderly q ticket
  | play script => exact w.play_orderly script
  | awaitUnlock i => exact w.awaitUnlock_orderly i
  | lock i => exact w.lock_orderly i
  | lookUp b => exact w.lookUp_orderly b
  | acquire b => exact w.acquire_orderly b
  | obtain b => exact World.call_simple rfl trivial trivial (.inl rfl)
  | release h =>
    exact Outcome.ensures_orFault fun i _ => World.call_simple rfl trivial trivial (.inl rfl)
  | fetch b => exact World.call_simple rfl trivial trivial (.inl rfl)
  | fetchAhead b ahead => exact World.call_simple rfl trivial trivial (.inl rfl)
  | readAhead h d ahead => exact w.readAhead_orderly h d ahead
  | settle h => exact World.call_simple rfl trivial trivial (.inl rfl)
  | fetchPage d numbers page => exact w.fetchPage_orderly d numbers page
  | gather d numbers held page => exact w.gather_orderly d numbers held page
  | collect held chunks failed page => exact w.collect_orderly held chunks failed page
  | issue op h =>
    refine Outcome.ensures_orFault fun i hi => ?_
    have hindex := (Cache.resolve_eq_ok hi).1
    exact World.orderly_goto (World.shifts_of_eq rfl)
      ⟨rfl, trivial, .inr ⟨congrArg some hindex, rfl⟩⟩
  | request op i => exact w.request_orderly op i
  | enqueue op i d number => exact w.enqueue_orderly op i d number hd
  | start m => exact w.start_orderly m
  | serve m => exact w.serve_orderly m
  | flush scope => exact World.goto_simple rfl trivial
  | flushRounds scope rounds writes => exact w.flushRounds_orderly scope rounds writes
  | flushBuffers scope rounds writes rest =>
    exact w.flushBuffers_orderly scope rounds writes rest
  | discard d => exact World.goto_simple rfl trivial
  | discardBuffers d rest => exact w.discardBuffers_orderly d rest
  | checkMedium d => exact w.checkMedium_orderly d
  | perform c => exact w.perform_orderly c
  | drain m pattern upcoming ended => exact w.drain_orderly m pattern upcoming ended

/-- The claim that a suspended call has once it is given its value. -/
def Frame.held {a s : Shape} (f : Frame g a s) : Option g.Buffer :=
  f.claim?.or f.wishes.claim?

/-- The step of a suspended call is in order. -/
theorem Frame.resume_orderly {a s : Shape} {exact : Prop} {w : World g}
    {f : Frame g a s} {v : a.Value g} (hf : f.Sound exact w.cache)
    (hv : f.wishes.Granted w.cache v) (client : Bool) :
    (f.resume v w).Orderly exact client w f.grants f.held f.asks := by
  cases f with
  | sleeping q ticket =>
    exact World.orderly_goto (World.shifts_of_eq rfl) ⟨rfl, trivial, .inl rfl⟩
  | playing rest => exact World.goto_simple rfl trivial
  | awaitingUnlock i => exact World.goto_simple rfl trivial
  | awaitingLock i =>
    exact World.orderly_goto (World.shifts_of_eq rfl) ⟨rfl, trivial, .inr ⟨rfl, rfl⟩⟩
  | pinning b i => exact w.pinned_orderly b i
  | lookingUp b => exact w.lookedUp_orderly b v hv
  | starving b => exact World.goto_simple rfl trivial
  | awaitingVictim b i => exact w.victimReady_orderly b i
  | flushingVictim b i => exact World.call_simple rfl trivial trivial (.inl rfl)
  | releasing h i => exact w.released_orderly i
  | fetching => exact w.fetched_orderly v
  | fetchIssuing h => exact World.goto_simple rfl trivial
  | settling h => exact w.settled_orderly h
  | unwinding f => exact World.done_simple rfl
  | fetchingFirst d ahead => exact w.firstFetched_orderly d ahead v
  | issuingFirst h d ahead => exact World.goto_simple rfl trivial
  | fetchingAhead h d ahead => exact w.aheadFetched_orderly h d ahead v
  | issuingAhead h t d ahead => exact w.letGo_orderly h t d ahead
  | gathering d numbers held page => exact w.gathered_orderly d numbers held page v
  | gatherIssuing d numbers held page => exact World.goto_simple rfl trivial
  | collecting h held chunks failed page => exact w.collected_orderly h held chunks failed page
  | collected held chunks failed page => exact World.goto_simple rfl trivial
  | locking op i d => exact w.locked_orderly op i d hf.1 hf.2
  | awaitingVacancy op i d number =>
    exact World.orderly_goto (World.shifts_of_eq rfl) ⟨rfl, hf, .inl rfl⟩
  | announcing scope rounds writes => exact World.goto_simple rfl trivial
  | flushAwaiting scope rounds writes i rest =>
    exact w.flushReady_orderly scope rounds writes i rest hv
  | flushWriting scope rounds writes rest => exact World.goto_simple rfl trivial
  | discardAwaiting d i rest => exact w.discardReady_orderly d i rest
  | mediumAnnouncing d => exact World.call_simple rfl trivial trivial (.inl rfl)
  | mediumDiscarding => exact World.done_simple rfl
  | keepHold name => exact World.done_simple rfl
  | keepFound name => cases v <;> exact World.done_simple rfl
  | keepFetched name => cases v <;> exact World.done_simple rfl
  | guardHold name => exact w.guardHeld_orderly name v
  | guardFetched name => cases v <;> exact World.done_simple rfl
  | filling byte => exact w.fillHeld_orderly byte v
  | touching => exact World.call_simple rfl trivial trivial (.inl rfl)
  | answering a => exact World.done_simple rfl
  | answerFlag => exact World.done_simple rfl
  | answerPage => exact World.done_simple rfl

end BufferCache
