import BufferCache.Proofs.Effects
import BufferCache.Proofs.Ring

/-!
# Every step has an effect

Every call and every suspended call has a step of its own.  This module goes
through all of them once and says which effect each has on the cache; the result
is `Machine.Steps.affects`.  A property of the cache that every effect keeps is
then kept by every run, with a dozen cases to consider.
-/

namespace BufferCache

variable {g : Geometry}

/-! ## What is known of every step -/

/-- A call to get a buffer gets one for a block of a device. -/
def Call.Aimed {s : Shape} : Call g s → Prop
  | .obtain b => b.device ≠ 0
  | _ => True

/-- A suspended call to get a buffer gets one for a block of a device. -/
def Frame.Aimed {a s : Shape} : Frame g a s → Prop
  | .lookingUp b | .starving b | .awaitingVictim b _ | .flushingVictim b _ => b.device ≠ 0
  | _ => True

/-- What comes next gets buffers only for blocks of a device. -/
def Next.Aimed {s : Shape} : Next g s → Prop
  | .done _ => True
  | .goto c => c.Aimed
  | .call c f => c.Aimed ∧ f.Aimed

/-- A step from `w` to `w'` has one of the effects, and what that needs to be due is
`due`. -/
def World.Affects (w : World g) (due : Option (Due g)) (w' : World g) : Prop :=
  ∃ e : Effect g, e.Fits w.cache ∧ w'.cache = e.apply w.cache ∧
    ∀ a, e.due = some a → due = some a

/-- A block is entered twice only where a buffer is given a block that a look-up did
not find. -/
def World.Blames (w : World g) (due : Option (Due g)) (f : Fault) : Prop :=
  ∀ b, f = .duplicateBlock b →
    ∃ b' i, due = some (.assign b' i) ∧ w.cache.buffers.locate b' = none ∧
      w.cache.buffers.reassign i b' = .error f

/-- What every step from `w` has in common, when `due` is due. -/
def Outcome.Regular {s : Shape} (o : Outcome g s) (w : World g) (due : Option (Due g)) : Prop :=
  o.Meets (fun w' n => w.Affects due w' ∧ n.Aimed) (w.Blames due)

namespace World

variable {s : Shape} {due : Option (Due g)} {w w' w₀ : World g}

theorem regular_done {v : s.Value g} (h : w.Affects due w') :
    Outcome.Regular (w'.done v) w due :=
  Outcome.meets_done ⟨h, trivial⟩

theorem regular_goto {c : Call g s} (h : w.Affects due w') (hc : c.Aimed) :
    Outcome.Regular (w'.goto c) w due :=
  Outcome.meets_goto ⟨h, hc⟩

theorem regular_call {a : Shape} {c : Call g a} {f : Frame g a s} (h : w.Affects due w')
    (hc : c.Aimed) (hf : f.Aimed) :
    Outcome.Regular (w'.call c f) w due :=
  Outcome.meets_call ⟨h, hc, hf⟩

theorem regular_deadlock : Outcome.Regular (.error .deadlock : Outcome g s) w due :=
  Outcome.meets_deadlock

theorem regular_fault {f : Fault} (h : ∀ b, f ≠ .duplicateBlock b) :
    Outcome.Regular (fault f : Outcome g s) w due :=
  Outcome.meets_fault fun b hb => absurd hb (h b)

theorem regular_orFault {α : Type} {x : Except Fault α} {k : α → Outcome g s}
    (h : ∀ a, x = .ok a → (k a).Regular w due)
    (hx : ∀ f, x = .error f → ∀ b, f ≠ .duplicateBlock b) :
    Outcome.Regular (orFault x k) w due :=
  Outcome.meets_orFault h fun f hf b hb => absurd hb (hx f hf b)

/-! ## Silent steps -/

theorem affects_of_cache_eq (h : w'.cache = w.cache) : w.Affects due w' :=
  ⟨.none, trivial, h, nofun⟩

theorem done_regular {v : s.Value g} (h : w'.cache = w.cache) :
    Outcome.Regular (w'.done v) w due :=
  regular_done (affects_of_cache_eq h)

theorem goto_regular {c : Call g s} (h : w'.cache = w.cache)
    (hc : c.Aimed) : Outcome.Regular (w'.goto c) w due :=
  regular_goto (affects_of_cache_eq h) hc

theorem call_regular {a : Shape} {c : Call g a} {f : Frame g a s} (h : w'.cache = w.cache)
    (hc : c.Aimed) (hf : f.Aimed) :
    Outcome.Regular (w'.call c f) w due :=
  regular_call (affects_of_cache_eq h) hc hf

theorem sleepIn_regular {q : Queue g} {f : Frame g .unit s} (h : w'.cache = w.cache)
    (hf : f.Aimed) : Outcome.Regular (w'.sleepIn q f) w due :=
  call_regular h trivial hf

theorem cache_takeFlush (w : World g) : w.takeFlush.2.cache = w.cache := by
  unfold takeFlush
  split <;> rfl

theorem cache_takeEmptying (w : World g) (d : DeviceNumber) :
    (w.takeEmptying d).2.cache = w.cache := by
  unfold takeEmptying
  split <;> rfl

theorem cache_takeStart (w : World g) (m : Nat) : (w.takeStart m).2.cache = w.cache := by
  unfold takeStart
  split <;> rfl

theorem cache_takeWaiting {w w' : World g} {script : Script}
    (h : w.takeWaiting = some (script, w')) : w'.cache = w.cache := by
  unfold takeWaiting at h
  split at h
  · cases h
  · cases h; rfl

@[simp] theorem cache_unlock (w : World g) (i : g.Buffer) :
    (w.unlock i).cache = w.cache.unlock i := by
  unfold unlock
  split <;> rfl

/-! ## Waiting -/

theorem sleep_regular (w : World g) (q : Queue g) (ticket : UInt64) :
    (w.sleep q ticket).Regular w due := by
  unfold sleep
  split
  · split
    · exact regular_deadlock
    · rename_i h
      exact call_regular ((cache_takeWaiting h).trans rfl) trivial trivial
  · exact done_regular rfl

theorem play_regular (w : World g) (script : Script) :
    (w.play script).Regular w due := by
  cases script with
  | nil => exact done_regular rfl
  | cons c rest => exact call_regular rfl trivial trivial

theorem awaitUnlock_regular (w : World g) (i : g.Buffer) :
    (w.awaitUnlock i).Regular w due := by
  unfold awaitUnlock
  split
  · exact sleepIn_regular rfl trivial
  · exact done_regular rfl

theorem lock_regular (w : World g) (i : g.Buffer) :
    (w.lock i).Regular w due := by
  unfold lock
  split
  · exact sleepIn_regular rfl trivial
  · rename_i h
    exact regular_done ⟨.lock i, Bool.eq_false_iff.mpr h, rfl, nofun⟩

/-! ## Getting and giving back buffers -/

theorem lookUp_regular (w : World g) (b : Block) :
    (w.lookUp b).Regular w (some (.refer b)) := by
  unfold lookUp
  split
  · exact done_regular rfl
  · rename_i i h
    exact regular_call ⟨.refer b i, h, rfl, fun _ ha => ha⟩ trivial trivial

theorem pinned_regular (w : World g) (b : Block) (i : g.Buffer) :
    (w.pinned b i).Regular w (some (.unrefer i)) := by
  unfold pinned
  split
  · exact done_regular rfl
  · split
    · exact regular_fault nofun
    · rename_i h
      exact regular_goto ⟨.unrefer i, h, rfl, fun _ ha => ha⟩ trivial

theorem acquire_regular (w : World g) (b : Block) :
    (w.acquire b).Regular w due := by
  unfold acquire
  split
  · exact regular_fault nofun
  · rename_i h
    exact regular_goto ⟨.count .access, trivial, rfl, nofun⟩ h

theorem lookedUp_regular (w : World g) {b : Block} (hb : b.device ≠ 0)
    (found : Option (Hold g)) : (w.lookedUp b found).Regular w due := by
  cases found with
  | some h => exact regular_done ⟨.count .hit, trivial, rfl, nofun⟩
  | none =>
    refine regular_orFault (fun victim _ => ?_) fun f hf => ?_
    · cases victim with
      | none => exact sleepIn_regular rfl hb
      | some i => exact call_regular rfl trivial hb
    · rw [Buffers.victim_error hf]
      exact nofun

theorem cache_reportMiss (w : World g) (i : g.Buffer) (old : Option Block) (b : Block) :
    (w.reportMiss i old b).cache = match old with
      | none => w.cache.tick .miss
      | some _ => (w.cache.tick .miss).tick .eviction := by
  cases old <;> rfl

theorem victimReady_regular (w : World g) {b : Block} (hb : b.device ≠ 0) (i : g.Buffer) :
    (w.victimReady b i).Regular w (some (.assign b i)) := by
  unfold victimReady
  dsimp only
  split
  · exact goto_regular rfl hb
  split
  · exact call_regular rfl trivial hb
  split
  · exact goto_regular rfl hb
  rename_i hrefs hdirty hfree
  simp only [Bool.or_eq_true, not_or, Bool.not_eq_true] at hfree
  have hnone : w.cache.buffers.locate b = none := by
    simpa [Cache.contains] using hfree.1
  refine Outcome.meets_orFault (fun s hs => regular_done
    ⟨.assign i b s, ⟨by simpa using hrefs, by simpa using hdirty, hfree.2, hnone, hs⟩, ?_,
      fun _ h => h⟩) fun f hf _ _ => ⟨b, i, rfl, hnone, hf⟩
  rw [cache_reportMiss]
  rfl

theorem released_regular (w : World g) (i : g.Buffer) :
    (w.released i).Regular w (some (.unrefer i)) := by
  unfold released
  split
  · exact regular_fault nofun
  · rename_i h
    exact regular_done ⟨.unrefer i, h, rfl, fun _ ha => ha⟩

/-! ## Queueing and serving -/

theorem file_regular {w w₀ : World g} (direct : Bool) (op : Operation) (i : g.Buffer)
    (b : Block) (slot : g.Slot)
    (hcache : w.cache = if direct then w₀.cache.lock i else w₀.cache)
    (hfits : (Effect.queue direct op.direction i b slot).Fits w₀.cache) :
    (w.file op i b slot).Regular w₀ due := by
  have h : w₀.Affects due
      ((w.mapCache (·.enqueue op.direction i b slot)).note (.queued op.direction b)) := by
    refine ⟨.queue direct op.direction i b slot, hfits, ?_, nofun⟩
    change w.cache.enqueue op.direction i b slot = _
    rw [hcache]
    rfl
  unfold file
  dsimp only
  split
  · exact regular_goto h trivial
  · exact regular_done h

theorem enqueue_regular (w : World g) (op : Operation) (i : g.Buffer) (d : DeviceNumber)
    (number : BlockNumber) :
    (w.enqueue op i d number).Regular w due := by
  unfold enqueue
  split
  · rename_i slot h
    exact file_regular false op i ⟨d, number⟩ slot rfl ⟨h, nofun⟩
  · split
    · exact regular_done ⟨.unlock i, trivial, cache_unlock _ i, nofun⟩
    · exact sleepIn_regular rfl trivial

theorem locked_regular (w : World g) (op : Operation) (i : g.Buffer) (d : DeviceNumber) :
    (w.locked op i d).Regular w due := by
  unfold locked
  split
  · exact regular_done ⟨.unlock i, trivial, cache_unlock w i, nofun⟩
  · exact enqueue_regular w op i d _

/-- An operation ahead locks the buffer in the step in which it queues a request
or finds that there is nothing to do. -/
theorem request_regular (w : World g) (op : Operation) (i : g.Buffer) :
    (w.request op i).Regular w due := by
  unfold request
  dsimp only
  split
  · exact regular_fault nofun
  split
  · rename_i hahead
    split
    · exact done_regular rfl
    rename_i hfree
    simp only [Bool.not_eq_true] at hfree
    have hgraze {w' : World g} (h : w'.cache = (w.cache.lock i).unlock i) :
        w.Affects due w' := ⟨.graze i, hfree, h, nofun⟩
    unfold locked
    split
    · exact regular_done (hgraze (cache_unlock _ i))
    unfold enqueue
    split
    · rename_i slot hslot
      refine file_regular true op i _ slot rfl ⟨hslot, fun _ => ⟨hfree, ?_⟩⟩
      simp [mapCache, Cache.lock, Cache.header_update, Header.number]
    · rw [if_pos hahead]
      exact regular_done (hgraze (cache_unlock _ i))
  · exact call_regular rfl trivial trivial

theorem cache_reportEnd (w : World g) (q : Request g) (number : BlockNumber)
    (success : Bool) :
    (w.reportEnd q number success).cache =
      if success then w.cache else w.cache.tick .failure := by
  cases success <;> rfl

theorem cache_conclude (w : World g) (m : Nat) (slot : g.Slot) (q : Request g)
    (success : Bool) :
    (w.conclude m slot q success).1.cache = w.cache.conclude m slot q success := by
  unfold conclude
  dsimp only [mapCache]
  rw [cache_reportEnd, cache_unlock]
  cases success <;> rfl

/-- Whoever ends a request ends the one that the major is serving. -/
theorem finish_eq_ok {w : World g} {m : Nat} {success : Bool} {r : World g × Bool}
    (h : w.finish m success = .ok r) :
    ∃ slot q, w.cache.requests.currentSlot m = some slot ∧
      w.cache.requests.request? slot = some q ∧ r = w.conclude m slot q success := by
  unfold finish at h
  split at h
  · cases h
  · rename_i slot hslot
    split at h
    · cases h
    · rename_i q hq
      cases h
      exact ⟨slot, q, hslot, hq, rfl⟩

theorem finish_eq_error {w : World g} {m : Nat} {success : Bool} {f : Fault}
    (h : w.finish m success = .error f) : f = .nothingServed m := by
  unfold finish at h
  split at h
  · cases h; rfl
  · split at h <;> cases h
    rfl

/-- A request that is ended has its effect, and going on from there is regular if what
follows is. -/
theorem finish_regular {w : World g} {m : Nat} {success : Bool} {k : World g × Bool → Outcome g s}
    (hk : ∀ r, w.finish m success = .ok r → (k r).Regular w₀ due) :
    Outcome.Regular (orFault (w.finish m success) k) w₀ due := by
  refine regular_orFault hk fun f hf => ?_
  rw [finish_eq_error hf]
  exact nofun

theorem affects_of_finish {w : World g} {m : Nat} {success : Bool} {r : World g × Bool}
    (h : w.finish m success = .ok r) : w.Affects due r.1 := by
  obtain ⟨slot, q, hslot, hq, rfl⟩ := finish_eq_ok h
  exact ⟨.finish m slot q success, ⟨hslot, hq⟩, cache_conclude w m slot q success, nofun⟩

theorem start_regular (w : World g) (m : Nat) :
    (w.start m).Regular w due := by
  unfold start
  split
  · exact done_regular rfl
  · split
    · exact done_regular rfl
    · exact goto_regular (cache_takeStart _ _) trivial
    · exact goto_regular rfl trivial
    · exact goto_regular rfl trivial

theorem cache_carryOut (w : World g) (m : Nat) (d : Driver) (q : Request g) :
    (w.carryOut m d q).1.cache = w.cache.carryOut m d q := by
  unfold carryOut
  dsimp only
  split
  · split <;> rfl
  · rfl

theorem success_carryOut (w : World g) (m : Nat) (d : Driver) (q : Request g) :
    (w.carryOut m d q).2 = (d.serve q.transfer (w.cache.page q.buffer)).success := by
  unfold carryOut
  dsimp only
  split <;> rfl

/-- A driver that carries out its current request ends that one. -/
theorem exists_serve {w : World g} {m : Nat} {d : Driver} {q : Request g}
    {ended : World g × Bool} (hd : w.cache.driver? m = some d)
    (hq : w.cache.requests.currentRequest d.major = some q)
    (h : (w.carryOut m d q).1.finish d.major (w.carryOut m d q).2 = .ok ended) :
    ∃ slot, (Effect.serve m d slot q).Fits w.cache ∧
      ended.1.cache = (Effect.serve m d slot q).apply w.cache := by
  obtain ⟨slot, q', hslot, hq', rfl⟩ := finish_eq_ok h
  have hrequests : (w.carryOut m d q).1.cache.requests = w.cache.requests := by
    rw [cache_carryOut]
    rfl
  rw [hrequests] at hslot hq'
  obtain rfl : q = q' := by
    rw [RequestTable.currentRequest, hslot] at hq
    exact Option.some.inj (hq.symm.trans hq')
  refine ⟨slot, ⟨hd, hslot, hq'⟩, ?_⟩
  rw [cache_conclude, cache_carryOut, success_carryOut]
  rfl

theorem serve_regular (w : World g) (m : Nat) :
    (w.serve m).Regular w due := by
  unfold serve
  split
  · exact done_regular rfl
  rename_i d hd
  split
  · exact done_regular rfl
  rename_i q hq
  refine finish_regular fun ended hended => ?_
  obtain ⟨slot, hfits, happly⟩ := exists_serve hd hq hended
  have h : w.Affects due ended.1 := ⟨_, hfits, happly, nofun⟩
  split
  · exact regular_goto h trivial
  · exact regular_done h

/-! ## Flushing and emptying -/

theorem flushRounds_regular (w : World g) (scope : Scope) (rounds writes : Nat) :
    (w.flushRounds scope rounds writes).Regular w due := by
  cases rounds with
  | zero => exact done_regular rfl
  | succ rounds => exact call_regular (cache_takeFlush w) trivial trivial

theorem flushBuffers_regular (w : World g) (scope : Scope) (rounds writes : Nat)
    (rest : List g.Buffer) :
    (w.flushBuffers scope rounds writes rest).Regular w due := by
  unfold flushBuffers
  split
  · exact goto_regular rfl trivial
  · split
    · exact call_regular rfl trivial trivial
    · exact goto_regular rfl trivial

theorem flushReady_regular (w : World g) (scope : Scope) (rounds writes : Nat) (i : g.Buffer)
    (rest : List g.Buffer) :
    (w.flushReady scope rounds writes i rest).Regular w due := by
  unfold flushReady
  dsimp only
  split
  · exact call_regular rfl trivial trivial
  · exact goto_regular rfl trivial

theorem discardBuffers_regular (w : World g) (d : DeviceNumber) (rest : List g.Buffer) :
    (w.discardBuffers d rest).Regular w due := by
  unfold discardBuffers
  split
  · exact done_regular rfl
  · split
    · exact call_regular rfl trivial trivial
    · exact goto_regular rfl trivial

theorem discardReady_regular (w : World g) (d : DeviceNumber) (i : g.Buffer)
    (rest : List g.Buffer) :
    (w.discardReady d i rest).Regular w (some (.empty d i)) := by
  unfold discardReady
  dsimp only
  split
  · rename_i h
    exact regular_goto ⟨.empty d i, h, rfl, fun _ h => h⟩ trivial
  · exact goto_regular rfl trivial

theorem checkMedium_regular (w : World g) (d : DeviceNumber) :
    (w.checkMedium d).Regular w due := by
  unfold checkMedium
  split
  · exact call_regular (cache_takeEmptying _ d) trivial trivial
  · exact done_regular rfl

/-! ## Reading -/

theorem letGo_regular (w : World g) (h t : Hold g) (d : DeviceNumber)
    (ahead : List BlockNumber) :
    (w.letGo h t d ahead).Regular w (some (.unrefer t.buffer)) := by
  refine regular_orFault (fun i hi => ?_) fun f hf => Cache.ne_duplicate_of_resolve hf
  obtain rfl : i = t.buffer := Fin.ext (Cache.resolve_eq_ok hi).1
  have hrefs := Cache.references_of_resolve hi
  exact regular_goto ⟨.unrefer t.buffer, hrefs, rfl, fun _ ha => ha⟩ trivial

/-- The view of a handle decides how to go on, and changes nothing. -/
theorem view_regular {w : World g} {h : Handle} {k : HeaderView → Outcome g s}
    (hk : ∀ v, (k v).Regular w due) :
    (orFault (w.cache.view h) k).Regular w due :=
  regular_orFault (fun v _ => hk v) fun _ hf =>
    Cache.ne_duplicate_of_resolve (Cache.map_eq_error hf)

theorem read_regular {w : World g} {h : Handle} {k : Page → Outcome g s}
    (hk : ∀ p, (k p).Regular w due) :
    (orFault (w.cache.read h) k).Regular w due :=
  regular_orFault (fun p _ => hk p) fun _ hf =>
    Cache.ne_duplicate_of_resolve (Cache.map_eq_error hf)

theorem fetched_regular (w : World g) (h : Hold g) :
    (w.fetched h).Regular w due := by
  refine view_regular fun v => ?_
  split
  · exact done_regular rfl
  · exact call_regular rfl trivial trivial

theorem settled_regular (w : World g) (h : Hold g) :
    (w.settled h).Regular w due := by
  refine view_regular fun v => ?_
  split
  · exact done_regular rfl
  · exact call_regular rfl trivial trivial

theorem firstFetched_regular (w : World g) (d : DeviceNumber) (ahead : List BlockNumber)
    (h : Hold g) :
    (w.firstFetched d ahead h).Regular w due := by
  refine view_regular fun v => ?_
  split
  · exact goto_regular rfl trivial
  · exact call_regular rfl trivial trivial

theorem readAhead_regular (w : World g) (h : Hold g) (d : DeviceNumber)
    (ahead : List BlockNumber) :
    (w.readAhead h d ahead).Regular w due := by
  cases ahead with
  | nil => exact goto_regular rfl trivial
  | cons n ahead => exact call_regular rfl trivial trivial

theorem aheadFetched_regular (w : World g) (h : Hold g) (d : DeviceNumber)
    (ahead : List BlockNumber) (t : Hold g) :
    (w.aheadFetched h d ahead t).Regular w (some (.unrefer t.buffer)) := by
  refine view_regular fun v => ?_
  split
  · exact letGo_regular w h t d ahead
  · exact call_regular rfl trivial trivial

theorem fetchPage_regular (w : World g) (d : DeviceNumber) (numbers : List BlockNumber)
    (page : List UInt8) :
    (w.fetchPage d numbers page).Regular w due := by
  unfold fetchPage
  split
  · exact done_regular rfl
  split
  · exact done_regular rfl
  · exact goto_regular rfl trivial

theorem gather_regular (w : World g) (d : DeviceNumber) (numbers : List BlockNumber)
    (held : Held g) (page : List UInt8) :
    (w.gather d numbers held page).Regular w due := by
  cases numbers with
  | nil => exact goto_regular rfl trivial
  | cons n numbers =>
    unfold gather
    dsimp only
    split
    · exact goto_regular rfl trivial
    · exact call_regular rfl trivial trivial

theorem gathered_regular (w : World g) (d : DeviceNumber) (numbers : List BlockNumber)
    (held : Held g) (page : List UInt8) (h : Hold g) :
    (w.gathered d numbers held page h).Regular w due := by
  refine view_regular fun v => ?_
  split
  · exact goto_regular rfl trivial
  · exact call_regular rfl trivial trivial

theorem collect_regular (w : World g) (held : Held g) (chunks : List Page) (failed : Bool)
    (page : List UInt8) :
    (w.collect held chunks failed page).Regular w due := by
  match held with
  | [] => exact done_regular rfl
  | none :: held => exact goto_regular rfl trivial
  | some h :: held => exact call_regular rfl trivial trivial

theorem collected_regular (w : World g) (h : Hold g) (held : Held g) (chunks : List Page)
    (failed : Bool) (page : List UInt8) :
    (w.collected h held chunks failed page).Regular w due := by
  refine view_regular fun v => ?_
  split
  · exact call_regular rfl trivial trivial
  · exact call_regular rfl trivial trivial

/-! ## Commands -/

theorem withHandle_regular {w : World g} {name : String} {k : Handle → Outcome g .reply}
    (hk : ∀ h, (k h).Regular w due) :
    (w.withHandle name k).Regular w due := by
  unfold withHandle
  split
  · exact hk _
  · exact done_regular rfl

theorem withGuard_regular {w : World g} {name : String} {k : Handle → Outcome g .reply}
    (hk : ∀ h, (k h).Regular w due) :
    (w.withGuard name k).Regular w due := by
  unfold withGuard
  split
  · exact hk _
  · exact done_regular rfl

/-- What is done through a handle is done to the buffer that it names. -/
theorem affects_of_edit {w w' : World g} (i : g.Buffer) (page : Option Page)
    (valid dirty : Bool) (h : w'.cache = w.cache.edit i page valid dirty) :
    w.Affects due w' :=
  ⟨.edit i page valid dirty, trivial, h, nofun⟩

theorem change_regular {w : World g} {h : Handle} {c : Except Fault (Cache g)}
    (hok : ∀ c', c = .ok c' → ∃ i page valid dirty, c' = w.cache.edit i page valid dirty)
    (herror : ∀ f, c = .error f → w.cache.resolve h = .error f) :
    (w.change c).Regular w due := by
  refine regular_orFault (fun c' hc' => ?_) fun f hf =>
    Cache.ne_duplicate_of_resolve (herror f hf)
  obtain ⟨i, page, valid, dirty, rfl⟩ := hok c' hc'
  exact regular_done (affects_of_edit i page valid dirty rfl)

theorem withDisk_regular (w : World g) (m : Nat) (k : MemoryDisk → Answer) :
    (w.withDisk m k).Regular w due := by
  unfold withDisk
  split
  · exact done_regular rfl
  · exact done_regular rfl

theorem moveBytes_regular (w : World g) (m : Nat) (fill : Option UInt8) :
    (w.moveBytes m fill).Regular w due := by
  unfold moveBytes
  split
  · exact done_regular rfl
  · cases fill with
    | none => exact done_regular rfl
    | some byte =>
      exact regular_done
        (affects_of_edit _ (some (Page.fill byte)) false false rfl)

theorem drain_regular (w : World g) (m : Nat) (pattern upcoming : List Bool)
    (ended : List (Transfer × Bool × Bool)) :
    (w.drain m pattern upcoming ended).Regular w due := by
  unfold drain
  split
  · exact done_regular rfl
  · dsimp only
    exact finish_regular fun r hr => regular_goto (affects_of_finish hr) trivial

theorem cache_noteFault {α : Type} (w : World g) (x : Except Fault α) :
    (w.noteFault x).cache = w.cache := by
  cases x <;> rfl

theorem cache_noteFaults {α : Type} (w : World g) (views : List (String × Except Fault α)) :
    (views.foldl (fun w e => w.noteFault e.2) w).cache = w.cache := by
  induction views generalizing w with
  | nil => rfl
  | cons e views ih => rw [List.foldl_cons, ih, cache_noteFault]

theorem inspect_regular (w : World g) :
    w.inspect.Regular w due :=
  done_regular (cache_noteFaults w _)

theorem register_regular {w w' : World g} {m : Nat} {d : Driver} {starts : List Script}
    (h : w.register m d starts = .ok w') : w.Affects due w' := by
  unfold register at h
  cases hc : w.cache.register m d with
  | error f => rw [hc] at h; cases h
  | ok c =>
    rw [hc] at h
    cases h
    obtain ⟨hzero, hm, hfree, rfl⟩ := Cache.register_eq_ok hc
    exact ⟨.register m d, ⟨hzero, hm, hfree⟩, rfl, nofun⟩

theorem fillHeld_regular (w : World g) (byte : UInt8) (h : Hold g) :
    (w.fillHeld byte h).Regular w due := by
  refine regular_orFault (fun c hc => ?_) fun f hf =>
    Cache.ne_duplicate_of_resolve (Cache.overwrite_eq_error hf)
  obtain ⟨i, -, rfl⟩ := Cache.overwrite_eq_ok hc
  exact regular_call (affects_of_edit i (some (Page.fill byte)) true true rfl) trivial trivial

theorem guardHeld_regular (w : World g) (name : String) (h : Hold g) :
    (w.guardHeld name h).Regular w due := by
  refine regular_orFault (fun c hc => ?_) fun f hf =>
    Cache.ne_duplicate_of_resolve (Cache.map_eq_error hf)
  obtain ⟨i, -, rfl⟩ := Cache.markValid_eq_ok hc
  exact regular_done (affects_of_edit i none true false rfl)

theorem perform_regular (w : World g) (c : Command) :
    (w.perform c).Regular w due := by
  cases c with
  | register m d starts =>
    unfold perform
    dsimp only
    split
    · rename_i h
      exact regular_done (register_regular h)
    · exact done_regular rfl
  | listen _ | attend _ => exact done_regular rfl
  | acquire b name => exact call_regular rfl trivial trivial
  | lookUp b name => exact call_regular rfl trivial trivial
  | fetch b name => exact call_regular rfl trivial trivial
  | fetchAhead b ahead name => exact call_regular rfl trivial trivial
  | fetchPage d numbers length fill => exact call_regular rfl trivial trivial
  | release name => exact withHandle_regular fun h => call_regular rfl trivial trivial
  | put b fill => exact call_regular rfl trivial trivial
  | touch b => exact call_regular rfl trivial trivial
  | read name =>
    exact withHandle_regular fun h => read_regular fun p => done_regular rfl
  | fill name byte =>
    refine withHandle_regular fun h => change_regular (fun c hc => ?_) fun f => Cache.map_eq_error
    obtain ⟨i, -, rfl⟩ := Cache.write_eq_ok hc
    exact ⟨i, _, _, _, rfl⟩
  | write name offset bytes =>
    refine withHandle_regular fun h => change_regular (fun c hc => ?_) fun f => Cache.map_eq_error
    obtain ⟨i, -, rfl⟩ := Cache.write_eq_ok hc
    exact ⟨i, _, _, _, rfl⟩
  | markDirty name =>
    refine withHandle_regular fun h => change_regular (fun c hc => ?_) fun f => Cache.map_eq_error
    obtain ⟨i, -, rfl⟩ := Cache.markDirty_eq_ok hc
    exact ⟨i, _, _, _, rfl⟩
  | markValid name =>
    refine withHandle_regular fun h => change_regular (fun c hc => ?_) fun f => Cache.map_eq_error
    obtain ⟨i, -, rfl⟩ := Cache.markValid_eq_ok hc
    exact ⟨i, _, _, _, rfl⟩
  | query name q =>
    exact withHandle_regular fun h => view_regular fun v => done_regular rfl
  | isCached b => exact done_regular rfl
  | bufferCount => exact done_regular rfl
  | forge name index generation => exact done_regular rfl
  | issue op name => exact withHandle_regular fun h => call_regular rfl trivial trivial
  | current m => exact done_regular rfl
  | queued m => exact done_regular rfl
  | move m fill => exact moveBytes_regular w m fill
  | finish m success =>
    exact finish_regular fun r hr => regular_done (affects_of_finish hr)
  | drain m pattern => exact goto_regular rfl trivial
  | start m =>
    unfold perform
    dsimp only
    split
    · exact call_regular rfl trivial trivial
    · exact done_regular rfl
  | flush scope => exact call_regular rfl trivial trivial
  | discard d => exact call_regular rfl trivial trivial
  | checkMedium d => exact call_regular rfl trivial trivial
  | diskInfo m => exact withDisk_regular w m _
  | diskRead m offset length fill => exact withDisk_regular w m _
  | statistics => exact done_regular rfl
  | describe => exact done_regular rfl
  | inspect => exact inspect_regular w
  | guardFetch b name => exact call_regular rfl trivial trivial
  | guardAcquire b name => exact call_regular rfl trivial trivial
  | guardInfo name =>
    exact withGuard_regular fun h => view_regular fun v => done_regular rfl
  | guardRead name =>
    exact withGuard_regular fun h => read_regular fun p => done_regular rfl
  | guardWrite name offset bytes =>
    refine withGuard_regular fun h =>
      change_regular (fun c hc => ?_) fun f => Cache.writeDirty_eq_error
    obtain ⟨i, -, rfl⟩ := Cache.writeDirty_eq_ok hc
    exact ⟨i, _, _, _, rfl⟩
  | guardDrop name => exact withGuard_regular fun h => call_regular rfl trivial trivial
  | guardInto name handle => exact withGuard_regular fun h => done_regular rfl
  | guardHandle name handle => exact withGuard_regular fun h => done_regular rfl

end World

/-! ## All steps -/

/-- What a call is about to do. -/
def Call.due {s : Shape} : Call g s → Option (Due g)
  | .lookUp b => some (.refer b)
  | _ => none

/-- The first step of a call is regular. -/
theorem Call.begin_regular {s : Shape} {c : Call g s} (hc : c.Aimed) (w : World g) :
    (c.begin w).Regular w c.due := by
  cases c with
  | sleep q ticket => exact w.sleep_regular q ticket
  | play script => exact w.play_regular script
  | awaitUnlock i => exact w.awaitUnlock_regular i
  | lock i => exact w.lock_regular i
  | lookUp b => exact w.lookUp_regular b
  | acquire b => exact w.acquire_regular b
  | obtain b => exact World.call_regular rfl trivial hc
  | release h =>
    exact World.regular_orFault (fun i _ => World.call_regular rfl trivial trivial) fun f hf =>
      Cache.ne_duplicate_of_resolveRelease hf
  | fetch b => exact World.call_regular rfl trivial trivial
  | fetchAhead b ahead => exact World.call_regular rfl trivial trivial
  | readAhead h d ahead => exact w.readAhead_regular h d ahead
  | settle h => exact World.call_regular rfl trivial trivial
  | fetchPage d numbers page => exact w.fetchPage_regular d numbers page
  | gather d numbers held page => exact w.gather_regular d numbers held page
  | collect held chunks failed page => exact w.collect_regular held chunks failed page
  | issue op h =>
    exact World.regular_orFault (fun i _ => World.goto_regular rfl trivial) fun f hf =>
      Cache.ne_duplicate_of_resolve hf
  | request op i => exact w.request_regular op i
  | enqueue op i d number => exact w.enqueue_regular op i d number
  | start m => exact w.start_regular m
  | serve m => exact w.serve_regular m
  | flush scope => exact World.goto_regular rfl trivial
  | flushRounds scope rounds writes => exact w.flushRounds_regular scope rounds writes
  | flushBuffers scope rounds writes rest =>
    exact w.flushBuffers_regular scope rounds writes rest
  | discard d => exact World.goto_regular rfl trivial
  | discardBuffers d rest => exact w.discardBuffers_regular d rest
  | checkMedium d => exact w.checkMedium_regular d
  | perform c => exact w.perform_regular c
  | drain m pattern upcoming ended => exact w.drain_regular m pattern upcoming ended

/-- What a suspended call is about to do, once it is given its value. -/
def Frame.due {a s : Shape} (f : Frame g a s) (v : a.Value g) : Option (Due g) :=
  match f with
  | .pinning _ i => some (.unrefer i)
  | .awaitingVictim b i => some (.assign b i)
  | .releasing _ i => some (.unrefer i)
  | .fetchingAhead _ _ _ => some (.unrefer v.buffer)
  | .issuingAhead _ t _ _ => some (.unrefer t.buffer)
  | .discardAwaiting d i _ => some (.empty d i)
  | _ => none

/-- The step of a suspended call is regular. -/
theorem Frame.resume_regular {a s : Shape} {f : Frame g a s} (hf : f.Aimed) (v : a.Value g)
    (w : World g) :
    (f.resume v w).Regular w (f.due v) := by
  cases f with
  | sleeping q ticket => exact World.goto_regular rfl trivial
  | playing rest => exact World.goto_regular rfl trivial
  | awaitingUnlock i => exact World.goto_regular rfl trivial
  | awaitingLock i => exact World.goto_regular rfl trivial
  | pinning b i => exact w.pinned_regular b i
  | lookingUp b => exact w.lookedUp_regular hf v
  | starving b => exact World.goto_regular rfl hf
  | awaitingVictim b i => exact w.victimReady_regular hf i
  | flushingVictim b i => exact World.call_regular rfl trivial hf
  | releasing h i => exact w.released_regular i
  | fetching => exact w.fetched_regular v
  | fetchIssuing h => exact World.goto_regular rfl trivial
  | settling h => exact w.settled_regular h
  | unwinding f => exact World.done_regular rfl
  | fetchingFirst d ahead => exact w.firstFetched_regular d ahead v
  | issuingFirst h d ahead => exact World.goto_regular rfl trivial
  | fetchingAhead h d ahead => exact w.aheadFetched_regular h d ahead v
  | issuingAhead h t d ahead => exact w.letGo_regular h t d ahead
  | gathering d numbers held page => exact w.gathered_regular d numbers held page v
  | gatherIssuing d numbers held page => exact World.goto_regular rfl trivial
  | collecting h held chunks failed page => exact w.collected_regular h held chunks failed page
  | collected held chunks failed page => exact World.goto_regular rfl trivial
  | locking op i d => exact w.locked_regular op i d
  | awaitingVacancy op i d number => exact World.goto_regular rfl trivial
  | announcing scope rounds writes => exact World.goto_regular rfl trivial
  | flushAwaiting scope rounds writes i rest =>
    exact w.flushReady_regular scope rounds writes i rest
  | flushWriting scope rounds writes rest => exact World.goto_regular rfl trivial
  | discardAwaiting d i rest => exact w.discardReady_regular d i rest
  | mediumAnnouncing d => exact World.call_regular rfl trivial trivial
  | mediumDiscarding => exact World.done_regular rfl
  | keepHold name => exact World.done_regular rfl
  | keepFound name =>
    cases v with
    | none => exact World.done_regular rfl
    | some h => exact World.done_regular rfl
  | keepFetched name =>
    cases v with
    | error f => exact World.done_regular rfl
    | ok h => exact World.done_regular rfl
  | guardHold name => exact w.guardHeld_regular name v
  | guardFetched name =>
    cases v with
    | error f => exact World.done_regular rfl
    | ok h => exact World.done_regular rfl
  | filling byte => exact w.fillHeld_regular byte v
  | touching => exact World.call_regular rfl trivial trivial
  | answering a => exact World.done_regular rfl
  | answerFlag => exact World.done_regular rfl
  | answerPage => exact World.done_regular rfl

/-! ## Machines -/

/-- All suspended calls to get a buffer get one for a block of a device. -/
def Stack.Aimed : {s : Shape} → Stack g s → Prop
  | _, .bottom => True
  | _, .push f rest => f.Aimed ∧ rest.Aimed

namespace Machine

/-- All calls to get a buffer, suspended or not, get one for a block of a device. -/
def Aimed : Machine g → Prop
  | ⟨_, _, .run c, stack⟩ => c.Aimed ∧ stack.Aimed
  | ⟨_, _, .give _, stack⟩ => stack.Aimed

/-- What is due in the next step of a machine. -/
def due : Machine g → Option (Due g)
  | ⟨_, _, .run c, _⟩ => c.due
  | ⟨_, _, .give v, .push f _⟩ => f.due v
  | _ => none

theorem aimed_of_next {s : Shape} {n : Next g s} {stack : Stack g s} (w : World g)
    (hn : n.Aimed) (hstack : stack.Aimed) : (n.machine w stack).Aimed := by
  cases n with
  | done v => exact hstack
  | goto c => exact ⟨hn, hstack⟩
  | call c f => exact ⟨hn.1, hn.2, hstack⟩

theorem world_next {s : Shape} (n : Next g s) (w : World g) (stack : Stack g s) :
    (n.machine w stack).world = w := by
  cases n <;> rfl

/-- What the next step of a machine does to the cache is one of the effects, what that
effect needs was checked, and calls go on getting buffers for blocks of devices
only. -/
theorem Steps.affects {m m' : Machine g} (h : m.Steps m') (hm : m.Aimed) :
    m.world.Affects m.due m'.world ∧ m'.Aimed := by
  cases h with
  | @begin s w w' c n stack hn =>
    obtain ⟨haffects, hnext⟩ := (Call.begin_regular hm.1 w).ensures w' n hn
    rw [world_next]
    exact ⟨haffects, aimed_of_next w' hnext hm.2⟩
  | @resume a s w w' f v n stack hn =>
    obtain ⟨haffects, hnext⟩ := (Frame.resume_regular hm.1 v w).ensures w' n hn
    rw [world_next]
    exact ⟨haffects, aimed_of_next w' hnext hm.2⟩

/-- A machine that halts since a block is entered twice is just about to give a buffer
that block. -/
theorem blames_of_halted {m : Machine g} (hm : m.Aimed) {f : Fault}
    (h : m.step = .halted (.fault f)) : m.world.Blames m.due f := by
  obtain ⟨w, s, control, stack⟩ := m
  match control, stack with
  | .run c, stack => exact (Call.begin_regular hm.1 w).raises f (advance_eq_halted h)
  | .give v, .bottom => cases h
  | .give v, .push f' stack =>
    exact (Frame.resume_regular hm.1 v w).raises f (advance_eq_halted h)

/-- In every session, calls get buffers for blocks of devices only. -/
theorem Reachable.aimed {m : Machine g} (h : m.Reachable) : m.Aimed := by
  refine h.invariant (fun _ _ => ?_) (fun _ _ hm hs => ?_) fun _ _ _ _ _ => ?_
  · exact ⟨trivial, trivial⟩
  · exact (hs.affects hm).2
  · exact ⟨trivial, trivial⟩

end Machine
end BufferCache
