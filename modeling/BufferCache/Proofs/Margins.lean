import BufferCache.Proofs.OwnSteps
import BufferCache.Proofs.Progress
import BufferCache.Proofs.Reckoning

/-!
# By how much a command advances the counters

The counters of a cache and the references to its buffers are natural numbers.  Where they are
kept in words instead, of 64 and of 32 bits, nothing overflows as long as they stay away from the
end of the words by what a command may add to them.  That is bounded here, for every command that
is left alone, whatever the drivers are.

What a call may still add to a quantity is read off the call, `Call.mayAdd`, and so it is for the
suspended calls.  No step makes the quantity and what may be added to it grow together.  For
accesses, and for the hits and misses in which they end, that is a matter of counting the blocks
that are still to be asked for.  A look-up adds a reference as soon as it has found a buffer, and
takes it back if it has to look again, so what it may add depends on where it has come to.

Transfers are another matter, since a flush writes as many blocks as there are changes.  But each
write takes a change along, so the quantity that does not grow is the sum of both: the requests
that were queued and the buffers that are dirty.  The exception is a request that waits for a slot
in the table, having looked for the change before.  A call that is left alone does not come back
from such a wait.
-/

namespace BufferCache

variable {g : Geometry}

/-! ## Quantities -/

/-- What is counted in a cache, as far as commands add to it. -/
inductive Quantity (g : Geometry) where
  /-- Buffers asked for. -/
  | accesses
  /-- Buffers got, by a hit or a miss. -/
  | outcomes
  /-- References to a buffer. -/
  | references (i : g.Buffer)
  /-- Requests that were queued, and changes that are still to be written back. -/
  | transfers

/-- The dirty buffers. -/
def Cache.dirtyBuffers (c : Cache g) : Finset g.Buffer :=
  Finset.univ.filter fun i => (c.header i).dirty = true

/-- How much there is of a quantity. -/
def Cache.amount (c : Cache g) : Quantity g → Nat
  | .accesses => c.statistics.accesses
  | .outcomes => c.statistics.hits + c.statistics.misses
  | .references i => (c.header i).references
  | .transfers => c.statistics.reads + c.statistics.writes + c.dirtyBuffers.card

namespace Quantity

/-- What is added as a buffer is asked for and got. -/
def acquire : Quantity g → Nat
  | .transfers => 0
  | _ => 1

/-- What is added as a buffer is got that was asked for. -/
def obtain : Quantity g → Nat
  | .outcomes | .references _ => 1
  | _ => 0

/-- What is added as it is settled that a buffer was got. -/
def settle : Quantity g → Nat
  | .outcomes => 1
  | _ => 0

/-- What is added as the buffer of a block is referenced, whichever it is. -/
def refer : Quantity g → Nat
  | .references _ => 1
  | _ => 0

/-- What is added as buffer `i` is referenced. -/
def referTo (i : g.Buffer) : Quantity g → Nat
  | .references j => if i = j then 1 else 0
  | _ => 0

/-- What is added as another buffer than `i` is referenced. -/
def referBeside (i : g.Buffer) : Quantity g → Nat
  | .references j => if i = j then 0 else 1
  | _ => 0

/-- What is added by a transfer, or by a change that makes one necessary. -/
def transfer : Quantity g → Nat
  | .transfers => 1
  | _ => 0

theorem acquire_add_transfer (q : Quantity g) : q.acquire + q.transfer = 1 := by
  cases q <;> rfl

theorem refer_add_settle (q : Quantity g) : q.refer + q.settle = q.obtain := by
  cases q <;> rfl

theorem referTo_add_referBeside (q : Quantity g) (i : g.Buffer) :
    q.referTo i + q.referBeside i = q.refer := by
  cases q with
  | references j =>
    change (if i = j then 1 else 0) + (if i = j then 0 else 1) = 1
    split <;> rfl
  | _ => rfl

end Quantity

/-! ## What effects add -/

/-- What an effect adds to a quantity, at most. -/
def Effect.adds (c : Cache g) : Effect g → Quantity g → Nat
  | .count .access, .accesses => 1
  | .count .hit, q => q.settle
  | .refer _ i, q => q.referTo i
  | .assign i _ _, q => q.settle + q.referTo i
  | .queue _ _ i _ _, q => if (c.header i).dirty = true then 0 else q.transfer
  | .edit _ _ _ dirty, q => if dirty = true then q.transfer else 0
  | _, _ => 0

section Effects

variable {e : Effect g} {c : Cache g}

theorem Cache.mem_dirtyBuffers {i : g.Buffer} :
    i ∈ c.dirtyBuffers ↔ (c.header i).dirty = true := by
  rw [dirtyBuffers, Finset.mem_filter, and_iff_right (Finset.mem_univ i)]

/-- Only a client makes a buffer dirty. -/
theorem Effect.dirty_of_apply (hfits : e.Fits c) {i : g.Buffer}
    (h : ((e.apply c).header i).dirty = true) :
    (c.header i).dirty = true ∨ ∃ page valid, e = .edit i page valid true := by
  have hsame (hd : ((e.apply c).header i).dirty = (c.header i).dirty) :
      (c.header i).dirty = true ∨ ∃ page valid, e = .edit i page valid true :=
    .inl (hd.symm.trans h)
  cases e with
  | none | count k | register m d => exact .inl h
  | refer b j =>
    refine hsame ?_
    rw [apply, Cache.header_refer]
    split <;> rfl
  | unrefer j =>
    refine hsame ?_
    rw [apply, Cache.header_unrefer]
    split <;> rfl
  | lock j =>
    refine hsame ?_
    rw [apply, Cache.header_lock]
    split <;> rfl
  | unlock j =>
    refine hsame ?_
    rw [apply, Cache.header_unlock]
    split <;> rfl
  | graze j =>
    refine hsame ?_
    rw [apply, Cache.header_unlock, Cache.header_lock]
    split <;> rfl
  | finish m slot q success =>
    refine hsame ?_
    rw [apply, Cache.header_conclude]
    split <;> rfl
  | serve m d slot q =>
    refine hsame ?_
    rw [apply, Cache.header_conclude, Cache.header_carryOut]
    split <;> rfl
  | queue direct d j b slot =>
    rw [apply, Cache.header_enqueue] at h
    split at h
    · cases h
    · refine .inl ?_
      split at h
      · rw [Cache.header_lock] at h
        split at h <;> exact h
      · exact h
  | assign j b s =>
    rw [apply, Cache.field_of_assign hfits.2.2.2.2 rfl Header.dirty fun _ => rfl] at h
    split at h
    · cases h
    · exact .inl h
  | edit j page valid dirty =>
    rw [apply, Cache.header_edit] at h
    split at h
    · rename_i hj
      subst hj
      cases dirty with
      | true => exact .inr ⟨page, valid, rfl⟩
      | false => exact .inl h
    · exact .inl h
  | empty d j =>
    rw [apply, Cache.header_setDirty, Cache.header_setValid] at h
    split at h
    · cases h
    · exact .inl h

/-- The requests that were queued, of both directions. -/
def Statistics.transfers (s : Statistics) : Nat :=
  s.reads + s.writes

theorem Statistics.transfers_tick_counterOf (s : Statistics) (d : Direction) :
    (s.tick (Cache.counterOf d)).transfers = s.transfers + 1 := by
  cases d with
  | read => exact Nat.succ_add _ _
  | write => exact Nat.add_succ _ _

/-- A request that is queued takes a change along, if there is one. -/
theorem Effect.transfers_of_queue {direct : Bool} {d : Direction} {i : g.Buffer} {b : Block}
    {slot : g.Slot} (hfits : (Effect.queue direct d i b slot).Fits c) :
    ((Effect.queue direct d i b slot).apply c).amount .transfers ≤
      c.amount .transfers + (Effect.queue direct d i b slot).adds c .transfers := by
  have hcounted : ((Effect.queue direct d i b slot).apply c).statistics.transfers =
      c.statistics.transfers + 1 := by
    rw [apply, Cache.statistics_enqueue, Statistics.transfers_tick_counterOf]
    split <;> rfl
  have hsub : ((Effect.queue direct d i b slot).apply c).dirtyBuffers ⊆
      c.dirtyBuffers.erase i := by
    intro j hj
    have hdirty := Cache.mem_dirtyBuffers.mp hj
    refine Finset.mem_erase.mpr ⟨?_, Cache.mem_dirtyBuffers.mpr ?_⟩
    · rintro rfl
      rw [apply, Cache.header_enqueue, if_pos rfl] at hdirty
      cases hdirty
    · rcases Effect.dirty_of_apply hfits hdirty with h | ⟨page, valid, h⟩
      · exact h
      · cases h
  have hcard := Finset.card_le_card hsub
  change Statistics.transfers _ + _ ≤ Statistics.transfers _ + _ +
    if (c.header i).dirty = true then 0 else 1
  rw [hcounted]
  split
  · rename_i hdirty
    have hmem := Cache.mem_dirtyBuffers.mpr hdirty
    have hpos := Finset.card_pos.mpr ⟨i, hmem⟩
    rw [Finset.card_erase_of_mem hmem] at hcard
    omega
  · have := Finset.card_le_card (Finset.erase_subset i c.dirtyBuffers)
    omega

/-- Otherwise transfers are added only where a client changes a buffer, one at a time. -/
theorem Effect.transfers_apply (hfits : e.Fits c) (hplain : e.Plain) :
    (e.apply c).amount .transfers ≤ c.amount .transfers + e.adds c .transfers := by
  have hother (hcounted : (e.apply c).statistics.transfers = c.statistics.transfers)
      (hne : ∀ i page valid, e ≠ .edit i page valid true) :
      (e.apply c).amount .transfers ≤ c.amount .transfers + e.adds c .transfers := by
    have hsub : (e.apply c).dirtyBuffers ⊆ c.dirtyBuffers := fun i hi => by
      rcases Effect.dirty_of_apply hfits (Cache.mem_dirtyBuffers.mp hi) with
        h | ⟨page, valid, h⟩
      · exact Cache.mem_dirtyBuffers.mpr h
      · exact absurd h (hne i page valid)
    have hcard := Finset.card_le_card hsub
    change Statistics.transfers _ + _ ≤ Statistics.transfers _ + _ + _
    omega
  cases e with
  | queue direct d i b slot => exact Effect.transfers_of_queue hfits
  | count k => obtain rfl | rfl := hplain <;> exact hother rfl (by simp)
  | finish m slot q success => cases success <;> exact hother rfl (by simp)
  | serve m d slot q =>
    refine hother ?_ (by simp)
    rw [apply, Cache.statistics_conclude]
    split <;> rfl
  | assign i b s =>
    refine hother ?_ (by simp)
    rw [apply, Cache.statistics_assign]
    split <;> rfl
  | edit i page valid dirty =>
    have hcounted : ((Effect.edit i page valid dirty).apply c).statistics.transfers =
        c.statistics.transfers := by
      rw [apply, Cache.statistics_edit]
    cases dirty with
    | false =>
      refine hother hcounted fun _ _ _ h => ?_
      cases h
    | true =>
      have hsub : ((Effect.edit i page valid true).apply c).dirtyBuffers ⊆
          insert i c.dirtyBuffers := by
        intro j hj
        rcases Effect.dirty_of_apply hfits (Cache.mem_dirtyBuffers.mp hj) with h | ⟨_, _, h⟩
        · exact Finset.mem_insert_of_mem (Cache.mem_dirtyBuffers.mpr h)
        · cases h
          exact Finset.mem_insert_self _ _
      have hcard := (Finset.card_le_card hsub).trans (Finset.card_insert_le i c.dirtyBuffers)
      change Statistics.transfers _ + _ ≤ Statistics.transfers _ + _ + 1
      omega
  | _ => exact hother rfl (by simp)

/-- What an effect does to a quantity. -/
theorem Effect.amount_apply (hfits : e.Fits c) (hplain : e.Plain) (q : Quantity g) :
    (e.apply c).amount q ≤ c.amount q + e.adds c q := by
  cases q with
  | transfers => exact Effect.transfers_apply hfits hplain
  | accesses =>
    change (e.apply c).statistics.accesses ≤ _
    rw [(Effect.lookups_apply hplain).1]
    cases e with
    | count k => obtain rfl | rfl := hplain <;> exact Nat.le_refl _
    | _ => exact Nat.le_add_right _ _
  | outcomes =>
    change (e.apply c).statistics.hits + (e.apply c).statistics.misses ≤ _
    rw [(Effect.lookups_apply hplain).2.1]
    cases e with
    | count k => obtain rfl | rfl := hplain <;> exact Nat.le_refl _
    | assign i b s => exact Nat.le_refl _
    | _ => exact Nat.le_add_right _ _
  | references j =>
    have hother (he : ∀ a, e.due = some a → ∃ d i, a = .empty d i) :
        ((e.apply c).header j).references ≤ (c.header j).references + e.adds c (.references j) :=
      ((e.sameReferences he c).references j).le.trans (Nat.le_add_right _ _)
    cases e with
    | refer b i => exact (c.references_refer i j).le
    | unrefer i => exact (Nat.le_add_right _ _).trans (c.references_unrefer hfits j).le
    | assign i b s =>
      refine (Cache.references_assign hfits.1 hfits.2.2.2.2 j).le.trans_eq ?_
      exact congrArg _ (Nat.zero_add _).symm
    | empty d i => exact hother fun a ha => ⟨d, i, (Option.some.inj ha).symm⟩
    | _ => exact hother nofun

end Effects

/-! ## What calls may add -/

/-- What a command may add to a quantity, apart from the scripts of other tasks. -/
def Command.mayAdd (q : Quantity g) : Command → Nat
  | .acquire _ _ | .touch _ | .guardAcquire _ _ => q.acquire
  | .lookUp _ _ => q.refer
  | .fetch _ _ | .guardFetch _ _ | .put _ _ => 1
  | .fetchAhead _ ahead _ => ahead.length + 1
  | .fetchPage _ numbers _ _ => numbers.toList.length
  | .issue _ _ | .markDirty _ | .guardWrite _ _ _ => q.transfer
  | _ => 0

/-- What the commands of a script may add. -/
def Script.mayAdd (q : Quantity g) (script : List Command) : Nat :=
  (script.map (Command.mayAdd q)).sum

/-- What an operation may add.  A write takes a change along. -/
def Operation.mayAdd (op : Operation) (q : Quantity g) : Nat :=
  match op.direction with
  | .read => q.transfer
  | .write => 0

/-- What a call may still add. -/
def Call.mayAdd (q : Quantity g) : {s : Shape} → Call g s → Nat
  | _, .play script => Script.mayAdd q script
  | _, .lookUp _ => q.refer
  | _, .acquire _ => q.acquire
  | _, .obtain _ => q.obtain
  | _, .fetch _ => 1
  | _, .fetchAhead _ ahead => ahead.length + 1
  | _, .readAhead _ _ ahead => ahead.length
  | _, .fetchPage _ numbers _ => numbers.length
  | _, .gather _ numbers _ _ => numbers.length
  | _, .issue _ _ => q.transfer
  | _, .request op _ => op.mayAdd q
  | _, .enqueue _ _ _ _ => q.transfer
  | _, .perform c => c.mayAdd q
  | _, _ => 0

/-- What a suspended call may still add. -/
def Frame.mayAdd (q : Quantity g) : {a s : Shape} → Frame g a s → Nat
  | _, _, .playing rest => Script.mayAdd q rest
  | _, _, .pinning _ i => q.referBeside i
  | _, _, .lookingUp _ => q.settle
  | _, _, .starving _ | _, _, .awaitingVictim _ _ | _, _, .flushingVictim _ _ => q.obtain
  | _, _, .fetching => q.transfer
  | _, _, .fetchingFirst _ ahead => ahead.length + q.transfer
  | _, _, .issuingFirst _ _ ahead => ahead.length
  | _, _, .fetchingAhead _ _ ahead => ahead.length + q.transfer
  | _, _, .issuingAhead _ _ _ ahead => ahead.length
  | _, _, .gathering _ numbers _ _ => numbers.length + q.transfer
  | _, _, .gatherIssuing _ numbers _ _ => numbers.length
  | _, _, .locking op _ _ => op.mayAdd q
  | _, _, .awaitingVacancy _ _ _ _ => q.transfer
  | _, _, .filling _ => q.transfer
  | _, _, _ => 0

/-- What may still be added once a value is handed over: a look-up that found nothing has
referenced no buffer. -/
def Shape.mayAdd (q : Quantity g) : (s : Shape) → s.Value g → Nat
  | .found, v => if Option.isNone v then q.refer else 0
  | _, _ => 0

/-- What may still be added by what comes next. -/
def Next.mayAdd (q : Quantity g) : {s : Shape} → Next g s → Nat
  | s, .done v => s.mayAdd q v
  | _, .goto c => c.mayAdd q
  | _, .call c f => c.mayAdd q + f.mayAdd q

/-- What the suspended calls may still add. -/
def Stack.mayAdd (q : Quantity g) : {s : Shape} → Stack g s → Nat
  | _, .bottom => 0
  | _, .push f rest => f.mayAdd q + rest.mayAdd q

/-- What a machine may still add. -/
def Machine.mayAdd (q : Quantity g) : Machine g → Nat
  | ⟨_, _, .run c, stack⟩ => c.mayAdd q + stack.mayAdd q
  | ⟨_, s, .give v, stack⟩ => s.mayAdd q v + stack.mayAdd q

/-- The next step gives way with a ticket that stands. -/
def Next.Sleeps (w : World g) : {s : Shape} → Next g s → Prop
  | _, .call (.sleep q ticket) _ => (w.cache.queue q).holds ticket = true
  | _, _ => False

/-- Every step from `w` adds no more than it takes from what may be added, which was `a`; or it
adds nothing, and gives way next. -/
def Outcome.Affords {s : Shape} (o : Outcome g s) (w : World g) (a : Quantity g → Nat) : Prop :=
  o.Ensures fun w' n => ∀ q, w'.cache.amount q + n.mayAdd q ≤ w.cache.amount q + a q ∨
    n.Sleeps w' ∧ w'.cache.amount q ≤ w.cache.amount q

/-- From `w` to `w'` quantities grow by `x` at most. -/
def World.Grows (w w' : World g) (x : Quantity g → Nat) : Prop :=
  ∀ q, w'.cache.amount q ≤ w.cache.amount q + x q

theorem Outcome.Affords.mono {s : Shape} {o : Outcome g s} {w : World g} {a a' : Quantity g → Nat}
    (h : o.Affords w a) (ha : ∀ q, a q ≤ a' q) : o.Affords w a' :=
  fun w' n hn q => (h w' n hn q).imp_left (·.trans (Nat.add_le_add_left (ha q) _))

namespace World

variable {s : Shape} {w w' : World g} {a x : Quantity g → Nat}

theorem grows_of_eq (h : w'.cache = w.cache) : w.Grows w' fun _ => 0 :=
  fun q => (congrArg (·.amount q) h :).le

theorem grows_of_effect {e : Effect g} (hfits : e.Fits w.cache) (hplain : e.Plain)
    (h : w'.cache = e.apply w.cache) : w.Grows w' (e.adds w.cache) := fun q => by
  rw [h]
  exact Effect.amount_apply hfits hplain q

/-! ### Rules -/

theorem done_affords_of {v : s.Value g} (h : w.Grows w' x)
    (hx : ∀ q, x q + s.mayAdd q v ≤ a q) : Outcome.Affords (w'.done v) w a :=
  Outcome.ensures_done fun q => .inl <| by
    have hgrows := h q
    have hadd := hx q
    change _ + s.mayAdd q v ≤ _
    omega

theorem goto_affords_of {c : Call g s} (h : w.Grows w' x)
    (hx : ∀ q, x q + c.mayAdd q ≤ a q) : Outcome.Affords (w'.goto c) w a :=
  Outcome.ensures_goto fun q => .inl <| by
    have hgrows := h q
    have hadd := hx q
    change _ + c.mayAdd q ≤ _
    omega

theorem call_affords_of {b : Shape} {c : Call g b} {f : Frame g b s} (h : w.Grows w' x)
    (hx : ∀ q, x q + (c.mayAdd q + f.mayAdd q) ≤ a q) : Outcome.Affords (w'.call c f) w a :=
  Outcome.ensures_call fun q => .inl <| by
    have hgrows := h q
    have hadd := hx q
    change _ + (c.mayAdd q + f.mayAdd q) ≤ _
    omega

theorem done_affords {v : s.Value g} (h : w'.cache = w.cache) (hx : ∀ q, s.mayAdd q v ≤ a q) :
    Outcome.Affords (w'.done v) w a :=
  done_affords_of (grows_of_eq h) fun q => (Nat.zero_add _).trans_le (hx q)

theorem goto_affords {c : Call g s} (h : w'.cache = w.cache) (hx : ∀ q, c.mayAdd q ≤ a q) :
    Outcome.Affords (w'.goto c) w a :=
  goto_affords_of (grows_of_eq h) fun q => (Nat.zero_add _).trans_le (hx q)

theorem call_affords {b : Shape} {c : Call g b} {f : Frame g b s} (h : w'.cache = w.cache)
    (hx : ∀ q, c.mayAdd q + f.mayAdd q ≤ a q) : Outcome.Affords (w'.call c f) w a :=
  call_affords_of (grows_of_eq h) fun q => (Nat.zero_add _).trans_le (hx q)

theorem fault_affords {f : Fault} : Outcome.Affords (fault f : Outcome g s) w a :=
  Outcome.ensures_fault

theorem orFault_affords {α : Type} {e : Except Fault α} {k : α → Outcome g s}
    (h : ∀ y, e = .ok y → (k y).Affords w a) : (orFault e k).Affords w a :=
  Outcome.ensures_orFault h

/-- A step that gives way with a new ticket may leave more to be added. -/
theorem sleepIn_affords_of (h : w.Grows w' fun _ => 0) (q : Queue g) (f : Frame g .unit s) :
    (w'.sleepIn q f).Affords w a :=
  Outcome.ensures_call fun k => .inr ⟨WaitQueue.holds_ticket _, h k⟩

/-! ### Waiting -/

theorem sleep_affords {q : Queue g} {ticket : UInt64}
    (h : (Call.sleep q ticket).enters w = false) : (w.sleep q ticket).Affords w a := by
  unfold sleep
  split
  · rename_i hholds
    have hnone : w.waiting = [] := by simpa [Call.enters, hholds] using h
    have htake : (w.emit .gaveWay).takeWaiting = none := by
      simp [takeWaiting, emit, hnone]
    rw [htake]
    exact Outcome.ensures_error
  · exact done_affords rfl fun _ => Nat.zero_le _

theorem play_affords (w : World g) (script : Script) :
    (w.play script).Affords w fun q => Script.mayAdd q script := by
  cases script with
  | nil => exact done_affords rfl fun _ => Nat.le_refl _
  | cons c rest => exact call_affords rfl fun _ => Nat.le_refl _

theorem awaitUnlock_affords (w : World g) (i : g.Buffer) : (w.awaitUnlock i).Affords w a := by
  unfold awaitUnlock
  split
  · exact call_affords rfl fun _ => Nat.zero_le _
  · exact done_affords rfl fun _ => Nat.zero_le _

theorem lock_affords (w : World g) (i : g.Buffer) : (w.lock i).Affords w a := by
  unfold lock
  split
  · exact call_affords rfl fun _ => Nat.zero_le _
  · rename_i h
    exact done_affords_of (grows_of_effect (e := .lock i) (Bool.eq_false_iff.mpr h) trivial rfl)
      fun _ => Nat.zero_le _

/-! ### Getting and giving back buffers -/

/-- A look-up references the buffer that it finds. -/
theorem lookUp_affords (w : World g) (b : Block) :
    (w.lookUp b).Affords w fun q => q.refer := by
  unfold lookUp
  split
  · exact done_affords rfl fun _ => Nat.le_refl _
  · rename_i i h
    refine call_affords_of (grows_of_effect (e := .refer b i) h trivial rfl) fun q => ?_
    change q.referTo i + (0 + q.referBeside i) ≤ q.refer
    rw [Nat.zero_add, q.referTo_add_referBeside]

/-- If it has to look again, it takes the reference back. -/
theorem pinned_affords (w : World g) (b : Block) (i : g.Buffer) :
    (w.pinned b i).Affords w fun q => q.referBeside i := by
  unfold pinned
  split
  · exact done_affords rfl fun _ => Nat.zero_le _
  split
  · exact fault_affords
  rename_i hi
  refine Outcome.ensures_goto fun q => .inl ?_
  have hparts := q.referTo_add_referBeside i
  have hgrows : (w.cache.unrefer i).amount q ≤ w.cache.amount q :=
    Effect.amount_apply (e := .unrefer i) hi trivial q
  change (w.cache.unrefer i).amount q + q.refer ≤ w.cache.amount q + q.referBeside i
  cases q with
  | references j =>
    have hunrefer := Cache.references_unrefer hi j
    change (_ + 1 : Nat) ≤ _
    change (if i = j then 1 else 0) + _ = 1 at hparts
    change ((w.cache.unrefer i).header j).references + 1 ≤ (w.cache.header j).references + _
    omega
  | _ => exact hgrows

/-- An access is counted. -/
theorem acquire_affords (w : World g) (b : Block) :
    (w.acquire b).Affords w fun q => q.acquire := by
  unfold acquire
  split
  · exact fault_affords
  · refine goto_affords_of (grows_of_effect (e := .count .access) trivial (.inl rfl) rfl)
      fun q => ?_
    cases q <;> exact Nat.le_refl _

/-- A block that was found is a hit.  Otherwise there is a reference still to come. -/
theorem lookedUp_affords (w : World g) (b : Block) (found : Option (Hold g)) :
    (w.lookedUp b found).Affords w fun q => Shape.mayAdd q .found found + q.settle := by
  cases found with
  | some h =>
    exact done_affords_of (grows_of_effect (e := .count .hit) trivial (.inr rfl) rfl)
      fun q => Nat.le_add_left _ _
  | none =>
    refine orFault_affords fun victim _ => ?_
    cases victim with
    | none =>
      exact call_affords rfl fun q => (Nat.zero_add _).trans_le q.refer_add_settle.ge
    | some i =>
      exact call_affords rfl fun q => (Nat.zero_add _).trans_le q.refer_add_settle.ge

/-- A buffer that is given the block is a miss, and is referenced. -/
theorem victimReady_affords (w : World g) (b : Block) (i : g.Buffer) :
    (w.victimReady b i).Affords w fun q => q.obtain := by
  unfold victimReady
  dsimp only
  split
  · exact goto_affords rfl fun _ => Nat.le_refl _
  split
  · exact call_affords rfl fun q => (Nat.zero_add _).le
  split
  · exact goto_affords rfl fun _ => Nat.le_refl _
  rename_i hrefs hdirty hfree
  simp only [Bool.or_eq_true, not_or, Bool.not_eq_true] at hfree
  have hnone : w.cache.buffers.locate b = none := by
    simpa [Cache.contains] using hfree.1
  refine orFault_affords fun s hs => done_affords_of (grows_of_effect (e := .assign i b s)
    ⟨by simpa using hrefs, by simpa using hdirty, hfree.2, hnone, hs⟩ trivial ?_) fun q => ?_
  · rw [cache_reportMiss]
    rfl
  · have hparts := q.referTo_add_referBeside i
    have hobtain := q.refer_add_settle
    change q.settle + q.referTo i + 0 ≤ q.obtain
    omega

theorem released_affords (w : World g) (i : g.Buffer) : (w.released i).Affords w a := by
  unfold released
  split
  · exact fault_affords
  · rename_i h
    exact done_affords_of (grows_of_effect (e := .unrefer i) h trivial rfl)
      fun _ => Nat.zero_le _

/-! ### Queueing and serving -/

theorem file_affords {w₀ : World g} (direct : Bool) (op : Operation) (i : g.Buffer) (b : Block)
    (slot : g.Slot) (hcache : w.cache = if direct then w₀.cache.lock i else w₀.cache)
    (hfits : (Effect.queue direct op.direction i b slot).Fits w₀.cache)
    (ha : ∀ q, (Effect.queue direct op.direction i b slot).adds w₀.cache q ≤ a q) :
    (w.file op i b slot).Affords w₀ a := by
  have h : w₀.Grows ((w.mapCache (·.enqueue op.direction i b slot)).note
      (.queued op.direction b)) ((Effect.queue direct op.direction i b slot).adds w₀.cache) := by
    refine grows_of_effect hfits trivial ?_
    change w.cache.enqueue op.direction i b slot = _
    rw [hcache]
    rfl
  rw [file_eq]
  split
  · exact goto_affords_of h ha
  · exact done_affords_of h ha

/-- What is queued takes a change along, or is paid for. -/
theorem adds_queue_le {direct : Bool} {op : Operation} {i : g.Buffer} {b : Block} {slot : g.Slot}
    (q : Quantity g) :
    (Effect.queue direct op.direction i b slot).adds w.cache q ≤ q.transfer := by
  change (if _ then 0 else q.transfer) ≤ _
  split
  · exact Nat.zero_le _
  · exact Nat.le_refl _

/-- An operation that has something to do is paid for by the change, if it is a write. -/
theorem adds_queue_of_needed {direct : Bool} {op : Operation} {i : g.Buffer} {b : Block}
    {slot : g.Slot} (hneeded : ¬ needless op (w.cache.header i) = true) (q : Quantity g) :
    (Effect.queue direct op.direction i b slot).adds w.cache q ≤ op.mayAdd q := by
  unfold needless at hneeded
  unfold Operation.mayAdd
  split
  · exact adds_queue_le q
  · rename_i hwrite
    rw [hwrite] at hneeded
    have hdirty : (w.cache.header i).dirty = true := by simpa using hneeded
    exact (if_pos hdirty).le

theorem enqueue_affords_of (op : Operation) (i : g.Buffer) (d : DeviceNumber)
    (number : BlockNumber) (ha : ∀ slot q,
      (Effect.queue false op.direction i ⟨d, number⟩ slot).adds w.cache q ≤ a q) :
    (w.enqueue op i d number).Affords w a := by
  unfold enqueue
  split
  · rename_i slot h
    exact file_affords false op i ⟨d, number⟩ slot rfl ⟨h, nofun⟩ (ha slot)
  · split
    · exact done_affords_of (grows_of_effect (e := .unlock i) trivial trivial (cache_unlock _ i))
        fun _ => Nat.zero_le _
    · exact sleepIn_affords_of (grows_of_eq rfl) _ _

theorem locked_affords (w : World g) (op : Operation) (i : g.Buffer) (d : DeviceNumber) :
    (w.locked op i d).Affords w op.mayAdd := by
  unfold locked
  split
  · exact done_affords_of (grows_of_effect (e := .unlock i) trivial trivial (cache_unlock _ i))
      fun _ => Nat.zero_le _
  · rename_i hneeded
    exact enqueue_affords_of op i d _ fun _ => adds_queue_of_needed hneeded

theorem request_affords (w : World g) (op : Operation) (i : g.Buffer) :
    (w.request op i).Affords w op.mayAdd := by
  unfold request
  dsimp only
  split
  · exact fault_affords
  split
  · rename_i hahead
    split
    · exact done_affords rfl fun _ => Nat.zero_le _
    rename_i hfree
    simp only [Bool.not_eq_true] at hfree
    have hgraze {w' : World g} (h : w'.cache = (w.cache.lock i).unlock i) :
        Outcome.Affords (w'.done (s := .unit) ()) w op.mayAdd :=
      done_affords_of (grows_of_effect (e := .graze i) hfree trivial h) fun _ => Nat.zero_le _
    have hheader : (w.mapCache (·.lock i)).cache.header i =
        { w.cache.header i with locked := true } :=
      (Cache.header_lock w.cache i i).trans (if_pos rfl)
    unfold locked
    split
    · exact hgraze (cache_unlock _ i)
    rename_i hneeded
    rw [hheader] at hneeded
    unfold enqueue
    split
    · rename_i slot hslot
      refine file_affords true op i _ slot rfl ⟨hslot, fun _ => ⟨hfree, ?_⟩⟩
        (adds_queue_of_needed hneeded)
      rw [hheader]
      rfl
    · rw [if_pos hahead]
      exact hgraze (cache_unlock _ i)
  · exact call_affords rfl fun _ => (Nat.zero_add _).le

theorem finish_affords {m : Nat} {success : Bool} {r : World g × Bool}
    (h : w.finish m success = .ok r) : w.Grows r.1 fun _ => 0 := by
  obtain ⟨slot, q, hslot, hq, rfl⟩ := finish_eq_ok h
  exact grows_of_effect (e := .finish m slot q success) ⟨hslot, hq⟩ trivial
    (cache_conclude w m slot q success)

theorem start_affords {m : Nat} (h : (Call.start m).enters w = false) :
    (w.start m).Affords w a := by
  unfold start
  split
  · exact done_affords rfl fun _ => Nat.zero_le _
  rename_i d hd
  split
  · exact done_affords rfl fun _ => Nat.zero_le _
  · rename_i changed hkind
    -- The script for the start has no commands.
    have hempty : ((w.emit (.started d.major)).takeStart d.major).1 = [] := by
      obtain ⟨major, kind⟩ := d
      obtain rfl : kind = .manual changed := hkind
      rw [takeStart_emit]
      simpa [Call.enters, hd] using h
    dsimp only
    rw [hempty]
    exact goto_affords (cache_takeStart _ _) fun _ => Nat.zero_le _
  · exact goto_affords rfl fun _ => Nat.zero_le _
  · exact goto_affords rfl fun _ => Nat.zero_le _

theorem serve_affords (w : World g) (m : Nat) : (w.serve m).Affords w a := by
  unfold serve
  split
  · exact done_affords rfl fun _ => Nat.zero_le _
  rename_i d hd
  split
  · exact done_affords rfl fun _ => Nat.zero_le _
  rename_i q hq
  refine orFault_affords fun ended hended => ?_
  obtain ⟨slot, hfits, happly⟩ := exists_serve hd hq hended
  have h := grows_of_effect hfits trivial happly
  split
  · exact goto_affords_of h fun _ => Nat.zero_le _
  · exact done_affords_of h fun _ => Nat.zero_le _

/-! ### Flushing and emptying -/

theorem flushRounds_affords {scope : Scope} {rounds writes : Nat}
    (h : (Call.flushRounds scope rounds writes).enters w = false) :
    (w.flushRounds scope rounds writes).Affords w a := by
  cases rounds with
  | zero => exact done_affords rfl fun _ => Nat.zero_le _
  | succ rounds =>
    have hempty : w.takeFlush.1 = [] := by simpa [Call.enters] using h
    unfold flushRounds
    dsimp only
    rw [hempty]
    exact call_affords (cache_takeFlush w) fun _ => Nat.zero_le _

theorem flushBuffers_affords (w : World g) (scope : Scope) (rounds writes : Nat)
    (rest : List g.Buffer) : (w.flushBuffers scope rounds writes rest).Affords w a := by
  unfold flushBuffers
  split
  · exact goto_affords rfl fun _ => Nat.zero_le _
  · split
    · exact call_affords rfl fun _ => Nat.zero_le _
    · exact goto_affords rfl fun _ => Nat.zero_le _

theorem flushReady_affords (w : World g) (scope : Scope) (rounds writes : Nat) (i : g.Buffer)
    (rest : List g.Buffer) : (w.flushReady scope rounds writes i rest).Affords w a := by
  unfold flushReady
  dsimp only
  split
  · exact call_affords rfl fun _ => Nat.zero_le _
  · exact goto_affords rfl fun _ => Nat.zero_le _

theorem discardBuffers_affords (w : World g) (d : DeviceNumber) (rest : List g.Buffer) :
    (w.discardBuffers d rest).Affords w a := by
  unfold discardBuffers
  split
  · exact done_affords rfl fun _ => Nat.zero_le _
  · split
    · exact call_affords rfl fun _ => Nat.zero_le _
    · exact goto_affords rfl fun _ => Nat.zero_le _

theorem discardReady_affords (w : World g) (d : DeviceNumber) (i : g.Buffer)
    (rest : List g.Buffer) : (w.discardReady d i rest).Affords w a := by
  unfold discardReady
  dsimp only
  split
  · rename_i h
    exact goto_affords_of (grows_of_effect (e := .empty d i) h trivial rfl)
      fun _ => Nat.zero_le _
  · exact goto_affords rfl fun _ => Nat.zero_le _

theorem checkMedium_affords {d : DeviceNumber} (h : (Call.checkMedium d).enters w = false) :
    (w.checkMedium d).Affords w a := by
  unfold checkMedium
  split
  · rename_i hchanged
    have hempty : ((w.note (.mediumChanged d)).takeEmptying d).1 = [] := by
      simpa [Call.enters, hchanged, takeEmptying_note] using h
    dsimp only
    rw [hempty]
    exact call_affords (cache_takeEmptying _ d) fun _ => Nat.zero_le _
  · exact done_affords rfl fun _ => Nat.zero_le _

/-! ### Reading -/

theorem fetch_affords (w : World g) (b : Block) : (w.fetch b).Affords w fun _ => 1 :=
  call_affords rfl fun q => q.acquire_add_transfer.le

/-- A transfer is started unless the bytes are there. -/
theorem bring_affords {e : Except Fault HeaderView} {there : Outcome g s} {op : Operation}
    {h : Hold g} {f : Frame g .unit s} (hthere : there.Affords w a)
    (hf : ∀ q, q.transfer + f.mayAdd q ≤ a q) :
    (orFault e fun v => if v.valid then there else w.call (.issue op h.handle) f).Affords w
      a := by
  refine orFault_affords fun v _ => ?_
  split
  · exact hthere
  · exact call_affords rfl hf

theorem settled_affords (w : World g) (h : Hold g) : (w.settled h).Affords w a := by
  refine orFault_affords fun v _ => ?_
  split
  · exact done_affords rfl fun _ => Nat.zero_le _
  · exact call_affords rfl fun _ => Nat.zero_le _

theorem fetchAhead_affords (w : World g) (b : Block) (ahead : List BlockNumber) :
    (w.fetchAhead b ahead).Affords w fun _ => ahead.length + 1 := by
  refine call_affords rfl fun q => ?_
  have hparts := q.acquire_add_transfer
  have hlength : (if g.buffers > 1 then ahead else []).length ≤ ahead.length := by
    split
    · exact Nat.le_refl _
    · exact Nat.zero_le _
  change q.acquire + (_ + q.transfer) ≤ _
  omega

theorem readAhead_affords (w : World g) (h : Hold g) (d : DeviceNumber)
    (ahead : List BlockNumber) : (w.readAhead h d ahead).Affords w fun _ => ahead.length := by
  cases ahead with
  | nil => exact goto_affords rfl fun _ => Nat.le_refl _
  | cons n ahead =>
    refine call_affords rfl fun q => ?_
    have hparts := q.acquire_add_transfer
    change q.acquire + (ahead.length + q.transfer) ≤ ahead.length + 1
    omega

theorem letGo_affords (w : World g) (h t : Hold g) (d : DeviceNumber)
    (ahead : List BlockNumber) (ha : ∀ q, ahead.length ≤ a q) :
    (w.letGo h t d ahead).Affords w a :=
  orFault_affords fun i hi => goto_affords_of (grows_of_effect (e := .unrefer i)
    (Cache.references_of_resolve hi) trivial rfl) fun q => (Nat.zero_add _).trans_le (ha q)

theorem fetchPage_affords (w : World g) (d : DeviceNumber) (numbers : List BlockNumber)
    (page : List UInt8) : (w.fetchPage d numbers page).Affords w fun _ => numbers.length := by
  unfold fetchPage
  split
  · exact done_affords rfl fun _ => Nat.zero_le _
  split
  · exact done_affords rfl fun _ => Nat.zero_le _
  · exact goto_affords rfl fun _ => Nat.le_refl _

theorem gather_affords (w : World g) (d : DeviceNumber) (numbers : List BlockNumber)
    (held : Held g) (page : List UInt8) :
    (w.gather d numbers held page).Affords w fun _ => numbers.length := by
  cases numbers with
  | nil => exact goto_affords rfl fun _ => Nat.le_refl _
  | cons n numbers =>
    unfold gather
    dsimp only
    split
    · exact goto_affords rfl fun _ => Nat.le_succ _
    · refine call_affords rfl fun q => ?_
      have hparts := q.acquire_add_transfer
      change q.acquire + (numbers.length + q.transfer) ≤ numbers.length + 1
      omega

theorem collect_affords (w : World g) (held : Held g) (chunks : List Page) (failed : Bool)
    (page : List UInt8) : (w.collect held chunks failed page).Affords w a := by
  match held with
  | [] => exact done_affords rfl fun _ => Nat.zero_le _
  | none :: held => exact goto_affords rfl fun _ => Nat.zero_le _
  | some h :: held => exact call_affords rfl fun _ => Nat.zero_le _

theorem collected_affords (w : World g) (h : Hold g) (held : Held g) (chunks : List Page)
    (failed : Bool) (page : List UInt8) :
    (w.collected h held chunks failed page).Affords w a := by
  refine orFault_affords fun v _ => ?_
  split
  · exact call_affords rfl fun _ => Nat.zero_le _
  · exact call_affords rfl fun _ => Nat.zero_le _

/-! ### Commands -/

theorem withHandle_affords {name : String} {k : Handle → Outcome g .reply}
    (hk : ∀ h, (k h).Affords w a) : (w.withHandle name k).Affords w a := by
  unfold withHandle
  split
  · exact hk _
  · exact done_affords rfl fun _ => Nat.zero_le _

theorem withGuard_affords {name : String} {k : Handle → Outcome g .reply}
    (hk : ∀ h, (k h).Affords w a) : (w.withGuard name k).Affords w a := by
  unfold withGuard
  split
  · exact hk _
  · exact done_affords rfl fun _ => Nat.zero_le _

/-- A question about a buffer is answered if its handle is good. -/
theorem answer_affords {α : Type} {e : Except Fault α} {k : α → Answer} :
    (orFault e fun y => (w.done (k y) : Outcome g .reply)).Affords w a :=
  orFault_affords fun _ _ => done_affords rfl fun _ => Nat.zero_le _

/-- A change adds a transfer if it makes the buffer dirty. -/
theorem change_affords {c : Except Fault (Cache g)} (dirty : Bool)
    (hok : ∀ c', c = .ok c' → ∃ i page valid, c' = w.cache.edit i page valid dirty)
    (ha : dirty = true → ∀ q, q.transfer ≤ a q) : (w.change c).Affords w a := by
  refine orFault_affords fun c' hc' => ?_
  obtain ⟨i, page, valid, rfl⟩ := hok c' hc'
  refine done_affords_of (grows_of_effect (e := .edit i page valid dirty) trivial trivial rfl)
    fun q => ?_
  change (if dirty = true then q.transfer else 0) + 0 ≤ _
  split
  · rename_i hdirty
    exact ha hdirty q
  · exact Nat.zero_le _

theorem withDisk_affords (w : World g) (m : Nat) (k : MemoryDisk → Answer) :
    (w.withDisk m k).Affords w a := by
  unfold withDisk
  split
  · exact done_affords rfl fun _ => Nat.zero_le _
  · exact done_affords rfl fun _ => Nat.zero_le _

theorem moveBytes_affords (w : World g) (m : Nat) (fill : Option UInt8) :
    (w.moveBytes m fill).Affords w a := by
  unfold moveBytes
  split
  · exact done_affords rfl fun _ => Nat.zero_le _
  · cases fill with
    | none => exact done_affords rfl fun _ => Nat.zero_le _
    | some byte =>
      exact done_affords_of (grows_of_effect (e := .edit _ (some (Page.fill byte)) false false)
        trivial trivial rfl) fun _ => Nat.zero_le _

theorem drain_affords (w : World g) (m : Nat) (pattern upcoming : List Bool)
    (ended : List (Transfer × Bool × Bool)) :
    (w.drain m pattern upcoming ended).Affords w a := by
  unfold drain
  split
  · exact done_affords rfl fun _ => Nat.zero_le _
  · dsimp only
    exact orFault_affords fun r hr => goto_affords_of (finish_affords hr)
      fun _ => Nat.zero_le _

theorem register_affords {m : Nat} {d : Driver} {starts : List Script}
    (h : w.register m d starts = .ok w') : w.Grows w' fun _ => 0 := by
  unfold register at h
  cases hc : w.cache.register m d with
  | error f => rw [hc] at h; cases h
  | ok c =>
    rw [hc] at h
    cases h
    obtain ⟨hzero, hm, hfree, rfl⟩ := Cache.register_eq_ok hc
    exact grows_of_effect (e := .register m d) ⟨hzero, hm, hfree⟩ trivial rfl

theorem fillHeld_affords (w : World g) (byte : UInt8) (h : Hold g) :
    (w.fillHeld byte h).Affords w fun q => q.transfer := by
  refine orFault_affords fun c hc => ?_
  obtain ⟨i, -, rfl⟩ := Cache.overwrite_eq_ok hc
  exact call_affords_of (grows_of_effect (e := .edit i (some (Page.fill byte)) true true)
    trivial trivial rfl) fun _ => Nat.le_refl _

theorem guardHeld_affords (w : World g) (name : String) (h : Hold g) :
    (w.guardHeld name h).Affords w a := by
  refine orFault_affords fun c hc => ?_
  obtain ⟨i, -, rfl⟩ := Cache.markValid_eq_ok hc
  exact done_affords_of (grows_of_effect (e := .edit i none true false) trivial trivial rfl)
    fun _ => Nat.zero_le _

theorem perform_affords (w : World g) (c : Command) :
    (w.perform c).Affords w fun q => c.mayAdd q := by
  cases c with
  | register m d starts =>
    unfold perform
    dsimp only
    split
    · rename_i h
      exact done_affords_of (register_affords h) fun _ => Nat.zero_le _
    · exact done_affords rfl fun _ => Nat.zero_le _
  | acquire b name => exact call_affords rfl fun _ => Nat.le_refl _
  | touch b => exact call_affords rfl fun _ => Nat.le_refl _
  | guardAcquire b name => exact call_affords rfl fun _ => Nat.le_refl _
  | lookUp b name => exact call_affords rfl fun _ => Nat.le_refl _
  | fetch b name => exact call_affords rfl fun _ => Nat.le_refl _
  | guardFetch b name => exact call_affords rfl fun _ => Nat.le_refl _
  | put b fill => exact call_affords rfl fun q => q.acquire_add_transfer.le
  | fetchAhead b ahead name => exact call_affords rfl fun _ => Nat.le_refl _
  | fetchPage d numbers length fill => exact call_affords rfl fun _ => Nat.le_refl _
  | release name => exact withHandle_affords fun h => call_affords rfl fun _ => Nat.zero_le _
  | read name => exact withHandle_affords fun h => answer_affords
  | fill name byte =>
    refine withHandle_affords fun h => change_affords false (fun c hc => ?_)
      (absurd · Bool.false_ne_true)
    obtain ⟨i, -, rfl⟩ := Cache.write_eq_ok hc
    exact ⟨i, _, _, rfl⟩
  | write name offset bytes =>
    refine withHandle_affords fun h => change_affords false (fun c hc => ?_)
      (absurd · Bool.false_ne_true)
    obtain ⟨i, -, rfl⟩ := Cache.write_eq_ok hc
    exact ⟨i, _, _, rfl⟩
  | markDirty name =>
    refine withHandle_affords fun h => change_affords true (fun c hc => ?_)
      fun _ _ => Nat.le_refl _
    obtain ⟨i, -, rfl⟩ := Cache.markDirty_eq_ok hc
    exact ⟨i, _, _, rfl⟩
  | markValid name =>
    refine withHandle_affords fun h => change_affords false (fun c hc => ?_)
      (absurd · Bool.false_ne_true)
    obtain ⟨i, -, rfl⟩ := Cache.markValid_eq_ok hc
    exact ⟨i, _, _, rfl⟩
  | query name q => exact withHandle_affords fun h => answer_affords
  | issue op name => exact withHandle_affords fun h => call_affords rfl fun _ => Nat.le_refl _
  | move m fill => exact moveBytes_affords w m fill
  | finish m success =>
    exact orFault_affords fun r hr => done_affords_of (finish_affords hr) fun _ => Nat.zero_le _
  | drain m pattern => exact goto_affords rfl fun _ => Nat.zero_le _
  | start m =>
    unfold perform
    dsimp only
    split
    · exact call_affords rfl fun _ => Nat.zero_le _
    · exact done_affords rfl fun _ => Nat.zero_le _
  | flush scope => exact call_affords rfl fun _ => Nat.zero_le _
  | discard d => exact call_affords rfl fun _ => Nat.zero_le _
  | checkMedium d => exact call_affords rfl fun _ => Nat.zero_le _
  | diskInfo m => exact withDisk_affords w m _
  | diskRead m offset length fill => exact withDisk_affords w m _
  | inspect => exact done_affords (cache_noteFaults w _) fun _ => Nat.zero_le _
  | guardInfo name => exact withGuard_affords fun h => answer_affords
  | guardRead name => exact withGuard_affords fun h => answer_affords
  | guardWrite name offset bytes =>
    refine withGuard_affords fun h => change_affords true (fun c hc => ?_)
      fun _ _ => Nat.le_refl _
    obtain ⟨i, -, rfl⟩ := Cache.writeDirty_eq_ok hc
    exact ⟨i, _, _, rfl⟩
  | guardDrop name => exact withGuard_affords fun h => call_affords rfl fun _ => Nat.zero_le _
  | guardInto name handle =>
    exact withGuard_affords fun h => done_affords rfl fun _ => Nat.zero_le _
  | guardHandle name handle =>
    exact withGuard_affords fun h => done_affords rfl fun _ => Nat.zero_le _
  | listen _ | attend _ | isCached _ | bufferCount | forge _ _ _ | current _ | queued _
  | statistics | describe => exact done_affords rfl fun _ => Nat.zero_le _

end World

/-! ## All steps -/

/-- A call that begins and takes up no script adds what it may. -/
theorem Call.begin_affords {s : Shape} {c : Call g s} {w : World g} (h : c.enters w = false) :
    (c.begin w).Affords w fun q => c.mayAdd q := by
  cases c with
  | sleep q ticket => exact World.sleep_affords h
  | play script => exact w.play_affords script
  | awaitUnlock i => exact w.awaitUnlock_affords i
  | lock i => exact w.lock_affords i
  | lookUp b => exact w.lookUp_affords b
  | acquire b => exact w.acquire_affords b
  | obtain b => exact World.call_affords rfl fun q => q.refer_add_settle.le
  | release h =>
    exact World.orFault_affords fun i _ => World.call_affords rfl fun _ => Nat.zero_le _
  | fetch b => exact w.fetch_affords b
  | fetchAhead b ahead => exact w.fetchAhead_affords b ahead
  | readAhead t d ahead => exact w.readAhead_affords t d ahead
  | settle h => exact World.call_affords rfl fun _ => Nat.zero_le _
  | fetchPage d numbers page => exact w.fetchPage_affords d numbers page
  | gather d numbers held page => exact w.gather_affords d numbers held page
  | collect held chunks failed page => exact w.collect_affords held chunks failed page
  | issue op h =>
    refine World.orFault_affords fun i _ => World.goto_affords rfl fun q => ?_
    change op.mayAdd q ≤ q.transfer
    unfold Operation.mayAdd
    split
    · exact Nat.le_refl _
    · exact Nat.zero_le _
  | request op i => exact w.request_affords op i
  | enqueue op i d number =>
    exact World.enqueue_affords_of op i d number fun _ => World.adds_queue_le
  | start m => exact World.start_affords h
  | serve m => exact w.serve_affords m
  | flush scope => exact World.goto_affords rfl fun _ => Nat.zero_le _
  | flushRounds scope rounds writes => exact World.flushRounds_affords h
  | flushBuffers scope rounds writes rest =>
    exact w.flushBuffers_affords scope rounds writes rest
  | discard d => exact World.goto_affords rfl fun _ => Nat.zero_le _
  | discardBuffers d rest => exact w.discardBuffers_affords d rest
  | checkMedium d => exact World.checkMedium_affords h
  | perform c => exact w.perform_affords c
  | drain m pattern upcoming ended => exact w.drain_affords m pattern upcoming ended

/-- A suspended call that is given a value adds what it may. -/
theorem Frame.resume_affords {s t : Shape} (f : Frame g s t) (v : s.Value g) (w : World g) :
    (f.resume v w).Affords w fun q => s.mayAdd q v + f.mayAdd q := by
  -- Only a look-up leaves it to its caller to add something.
  suffices h : s = .found ∨ (f.resume v w).Affords w fun q => f.mayAdd q by
    obtain rfl | h := h
    · cases f with
      | lookingUp b => exact w.lookedUp_affords b v
      | keepFound name =>
        cases v with
        | none => exact World.done_affords rfl fun _ => Nat.zero_le _
        | some h => exact World.done_affords rfl fun _ => Nat.zero_le _
    · exact h.mono fun q => Nat.le_add_left _ _
  cases f with
  | lookingUp _ | keepFound _ => exact .inl rfl
  | playing rest => exact .inr (World.goto_affords rfl fun _ => Nat.le_refl _)
  | pinning b i => exact .inr (w.pinned_affords b i)
  | starving b => exact .inr (World.goto_affords rfl fun _ => Nat.le_refl _)
  | awaitingVictim b i => exact .inr (w.victimReady_affords b i)
  | flushingVictim b i => exact .inr (World.call_affords rfl fun _ => (Nat.zero_add _).le)
  | releasing h i => exact .inr (w.released_affords i)
  | fetching => exact .inr (World.bring_affords (World.done_affords rfl fun _ => Nat.zero_le _)
      fun _ => Nat.le_refl _)
  | settling h => exact .inr (w.settled_affords h)
  | fetchingFirst d ahead =>
    exact .inr (World.bring_affords (World.goto_affords rfl fun _ => Nat.le_add_right _ _)
      fun _ => (Nat.add_comm _ _).le)
  | issuingFirst h d ahead => exact .inr (World.goto_affords rfl fun _ => Nat.le_refl _)
  | fetchingAhead h d ahead =>
    exact .inr (World.bring_affords (w.letGo_affords h v d ahead fun _ => Nat.le_add_right _ _)
      fun _ => (Nat.add_comm _ _).le)
  | issuingAhead h t d ahead => exact .inr (w.letGo_affords h t d ahead fun _ => Nat.le_refl _)
  | gathering d numbers held page =>
    exact .inr (World.bring_affords (World.goto_affords rfl fun _ => Nat.le_add_right _ _)
      fun _ => (Nat.add_comm _ _).le)
  | gatherIssuing d numbers held page =>
    exact .inr (World.goto_affords rfl fun _ => Nat.le_refl _)
  | collecting h held chunks failed page =>
    exact .inr (w.collected_affords h held chunks failed page)
  | locking op i d => exact .inr (w.locked_affords op i d)
  | awaitingVacancy op i d number => exact .inr (World.goto_affords rfl fun _ => Nat.le_refl _)
  | flushAwaiting scope rounds writes i rest =>
    exact .inr (w.flushReady_affords scope rounds writes i rest)
  | discardAwaiting d i rest => exact .inr (w.discardReady_affords d i rest)
  | keepFetched name =>
    cases v with
    | error f => exact .inr (World.done_affords rfl fun _ => Nat.zero_le _)
    | ok h => exact .inr (World.done_affords rfl fun _ => Nat.zero_le _)
  | guardFetched name =>
    cases v with
    | error f => exact .inr (World.done_affords rfl fun _ => Nat.zero_le _)
    | ok h => exact .inr (World.done_affords rfl fun _ => Nat.zero_le _)
  | guardHold name => exact .inr (w.guardHeld_affords name v)
  | filling byte => exact .inr (w.fillHeld_affords byte v)
  | touching | mediumAnnouncing _ =>
    exact .inr (World.call_affords rfl fun _ => Nat.zero_le _)
  | unwinding _ | mediumDiscarding | keepHold _ | answering _ | answerFlag | answerPage =>
    exact .inr (World.done_affords rfl fun _ => Nat.zero_le _)
  | sleeping _ _ | awaitingUnlock _ | awaitingLock _ | fetchIssuing _ | collected _ _ _ _
  | announcing _ _ _ | flushWriting _ _ _ _ =>
    exact .inr (World.goto_affords rfl fun _ => Nat.zero_le _)

namespace Machine

variable {m m' n : Machine g}

theorem mayAdd_next {s : Shape} (n : Next g s) (w : World g) (stack : Stack g s)
    (q : Quantity g) :
    (n.machine w stack).mayAdd q = n.mayAdd q + stack.mayAdd q := by
  cases n with
  | done v => rfl
  | goto c => rfl
  | call c f => exact (Nat.add_assoc _ _ _).symm

theorem givesWay_next {s : Shape} {n : Next g s} {w : World g} (stack : Stack g s)
    (h : n.Sleeps w) : (n.machine w stack).GivesWay := by
  cases n with
  | done v => exact h.elim
  | goto c => exact h.elim
  | call c f =>
    cases c with
    | sleep q ticket => exact h
    | _ => exact h.elim

/-- How much there is of a quantity. -/
def amount (m : Machine g) (q : Quantity g) : Nat :=
  m.world.cache.amount q

/-- A step that takes up no script adds no more than it takes from what may be added, or gives
way next. -/
theorem Steps.affords (h : m.Steps m') (hm : ¬ m.Enters) (q : Quantity g) :
    m'.amount q + m'.mayAdd q ≤ m.amount q + m.mayAdd q ∨
      m'.GivesWay ∧ m'.amount q ≤ m.amount q := by
  cases h with
  | @begin s w w' c n stack hn =>
    have hstep := Call.begin_affords (Bool.eq_false_iff.mpr hm) w' n hn q
    beta_reduce at hstep
    rw [amount, amount, world_next, mayAdd_next]
    refine hstep.imp (fun h => ?_) fun h => ⟨givesWay_next stack h.1, h.2⟩
    change _ ≤ w.cache.amount q + (c.mayAdd q + stack.mayAdd q)
    omega
  | @resume a s w w' f v n stack hn =>
    have hstep := Frame.resume_affords f v w w' n hn q
    beta_reduce at hstep
    rw [amount, amount, world_next, mayAdd_next]
    refine hstep.imp (fun h => ?_) fun h => ⟨givesWay_next stack h.1, h.2⟩
    change _ ≤ w.cache.amount q + (a.mayAdd q v + (f.mayAdd q + stack.mayAdd q))
    omega

/-- A command that is left alone adds no more than it may, whatever it has come to. -/
theorem Leads.amount_le (h : Leads (fun x => ¬ x.Returned (.bottom : Stack g .reply) ∧
    ¬ x.Enters) m n) (q : Quantity g) : n.amount q ≤ m.amount q + m.mayAdd q := by
  suffices hn : n.amount q + n.mayAdd q ≤ m.amount q + m.mayAdd q ∨
      n.GivesWay ∧ n.amount q ≤ m.amount q + m.mayAdd q by
    omega
  induction h with
  | refl => exact .inl (Nat.le_refl _)
  | @tail b c _ hmove ih =>
    rcases ih with hb | ⟨hway, -⟩
    · obtain ⟨⟨hrunning, hundisturbed⟩, hmove⟩ := hmove
      have hs : b.Steps c := by
        cases hmove with
        | step hs => exact hs
        | next waiting command => exact absurd ⟨_, _, rfl⟩ hrunning
      rcases hs.affords hundisturbed q with hstep | ⟨hway, hstep⟩
      · exact .inl (hstep.trans hb)
      · exact .inr ⟨hway, by omega⟩
    · exact absurd hmove.2 (hway.not_moves hmove.1.2)

end Machine

/-! ## The counters -/

/-- How often an event was counted. -/
def Statistics.count (s : Statistics) : Counter → Nat
  | .access => s.accesses
  | .hit => s.hits
  | .miss => s.misses
  | .eviction => s.evictions
  | .read => s.reads
  | .write => s.writes
  | .failure => s.failures

theorem Statistics.count_le_tick (s : Statistics) (k k' : Counter) :
    s.count k' ≤ (s.tick k).count k' := by
  cases k <;> cases k' <;> first | exact Nat.le_refl _ | exact Nat.le_succ _

/-- The requests in the table, of both directions. -/
def Cache.waiting (c : Cache g) : Nat :=
  (c.requests.slotsWith Direction.read.asked).card +
    (c.requests.slotsWith Direction.write.asked).card

/-- From `c` to `c'` the counters grow, those of evictions and failures not more than those of
misses and transfers. -/
structure Cache.Advances (c c' : Cache g) : Prop where
  /-- No counter goes back. -/
  count : ∀ k, c.statistics.count k ≤ c'.statistics.count k
  /-- There is no eviction without a miss. -/
  evictions : c'.statistics.evictions + c.statistics.misses ≤
    c.statistics.evictions + c'.statistics.misses
  /-- A request that fails was queued. -/
  failures : c'.statistics.failures + c'.waiting + c.statistics.transfers ≤
    c.statistics.failures + c.waiting + c'.statistics.transfers

theorem Cache.Advances.refl (c : Cache g) : c.Advances c :=
  ⟨fun _ => Nat.le_refl _, Nat.le_refl _, Nat.le_refl _⟩

theorem Cache.Advances.trans {c c' c'' : Cache g} (h : c.Advances c') (h' : c'.Advances c'') :
    c.Advances c'' where
  count k := (h.count k).trans (h'.count k)
  evictions := by
    have := h.evictions
    have := h'.evictions
    omega
  failures := by
    have := h.failures
    have := h'.failures
    omega

section Advances

variable {e : Effect g} {c : Cache g}

theorem Effect.count_apply (hplain : e.Plain) (k : Counter) :
    c.statistics.count k ≤ (e.apply c).statistics.count k := by
  have hconclude (c : Cache g) (m : Nat) (slot : g.Slot) (q : Request g) (success : Bool) :
      c.statistics.count k ≤ (c.conclude m slot q success).statistics.count k := by
    rw [Cache.statistics_conclude]
    split
    · exact Nat.le_refl _
    · exact c.statistics.count_le_tick _ k
  cases e with
  | count k' => exact c.statistics.count_le_tick k' k
  | queue direct d i b slot =>
    rw [apply, Cache.statistics_enqueue]
    refine Nat.le_trans (Nat.le_of_eq ?_) (Statistics.count_le_tick _ _ k)
    split <;> rfl
  | finish m slot q success => exact hconclude c m slot q success
  | serve m d slot q => exact hconclude (c.carryOut m d q) d.major slot q _
  | assign i b s =>
    rw [apply, Cache.statistics_assign]
    split
    · exact c.statistics.count_le_tick _ k
    · exact (c.statistics.count_le_tick _ k).trans (Statistics.count_le_tick _ _ k)
  | edit i page valid dirty =>
    rw [apply, Cache.statistics_edit]
  | _ => exact Nat.le_refl _

theorem Effect.evictions_apply (hplain : e.Plain) :
    (e.apply c).statistics.evictions + c.statistics.misses ≤
      c.statistics.evictions + (e.apply c).statistics.misses := by
  by_cases hassign : ∃ i b s, e = .assign i b s
  · obtain ⟨i, b, s, rfl⟩ := hassign
    rw [apply, Cache.statistics_assign]
    split
    · exact Nat.le_succ _
    · exact (Nat.succ_add _ _).le
  · obtain ⟨hmisses, hevictions⟩ := Effect.misses_of_unassigned (c := c)
      (fun i b s h => hassign ⟨i, b, s, h⟩) hplain
    rw [hmisses, hevictions]

theorem Effect.failures_apply (hfits : e.Fits c) (hplain : e.Plain) :
    (e.apply c).statistics.failures + (e.apply c).waiting + c.statistics.transfers ≤
      c.statistics.failures + c.waiting + (e.apply c).statistics.transfers := by
  have hreads := Effect.requests_apply hfits hplain .read
  have hwrites := Effect.requests_apply hfits hplain .write
  have hfailures := (Effect.lookups_apply (c := c) hplain).2.2
  have hends := Direction.length_eq (fun x : Direction × Bool => x.1) (e.ends c).toList
  have hcount := List.countP_le_length (p := fun x : Direction × Bool => !x.2)
    (l := (e.ends c).toList)
  simp only [Statistics.requests] at hreads hwrites
  unfold Cache.waiting Statistics.transfers
  omega

theorem Effect.advances (hfits : e.Fits c) (hplain : e.Plain) : c.Advances (e.apply c) :=
  ⟨Effect.count_apply hplain, Effect.evictions_apply hplain,
    Effect.failures_apply hfits hplain⟩

end Advances

namespace Machine

variable {m m' n : Machine g} {on : Machine g → Prop}

theorem Leads.advances (h : Leads on m n) : m.world.cache.Advances n.world.cache := by
  induction h with
  | refl => exact .refl _
  | tail _ hmove ih =>
    refine ih.trans ?_
    cases hmove.2 with
    | step hs =>
      obtain ⟨e, hfits, happly, hplain, -⟩ := hs.reckons
      rw [happly]
      exact Effect.advances hfits hplain
    | next waiting command => exact .refl _

/-- A command that is left alone advances each counter by what it may add, by the number of
changes that were there, which may be written back, and by the number of requests that were in
the table, which may fail. -/
theorem Leads.count_le {a : Nat} (h : Leads (fun x => ¬ x.Returned (.bottom : Stack g .reply) ∧
    ¬ x.Enters) m n) (ha : ∀ q, m.mayAdd q ≤ a) (k : Counter) :
    n.statistics.count k ≤ m.statistics.count k +
      (m.world.cache.dirtyBuffers.card + m.world.cache.waiting + a) := by
  obtain ⟨hcount, hevictions, hfailures⟩ := h.advances
  have haccesses : n.statistics.accesses ≤ m.statistics.accesses + _ := h.amount_le .accesses
  have houtcomes : n.statistics.hits + n.statistics.misses ≤
    m.statistics.hits + m.statistics.misses + _ := h.amount_le .outcomes
  have htransfers : n.statistics.transfers + n.world.cache.dirtyBuffers.card ≤
    m.statistics.transfers + m.world.cache.dirtyBuffers.card + _ := h.amount_le .transfers
  have := ha .accesses
  have := ha .outcomes
  have := ha .transfers
  have hhits : m.statistics.hits ≤ n.statistics.hits := hcount .hit
  have hmisses : m.statistics.misses ≤ n.statistics.misses := hcount .miss
  have hreads : m.statistics.reads ≤ n.statistics.reads := hcount .read
  have hwrites : m.statistics.writes ≤ n.statistics.writes := hcount .write
  change n.statistics.evictions + m.statistics.misses ≤
    m.statistics.evictions + n.statistics.misses at hevictions
  change n.statistics.failures + _ + m.statistics.transfers ≤ m.statistics.failures + _ +
    n.statistics.transfers at hfailures
  unfold Statistics.transfers at htransfers hfailures
  cases k with
  | access => change n.statistics.accesses ≤ m.statistics.accesses + _; omega
  | hit => change n.statistics.hits ≤ m.statistics.hits + _; omega
  | miss => change n.statistics.misses ≤ m.statistics.misses + _; omega
  | eviction => change n.statistics.evictions ≤ m.statistics.evictions + _; omega
  | read => change n.statistics.reads ≤ m.statistics.reads + _; omega
  | write => change n.statistics.writes ≤ m.statistics.writes + _; omega
  | failure => change n.statistics.failures ≤ m.statistics.failures + _; omega

end Machine

/-! ## Commands over disks in memory -/

theorem Cache.card_dirtyBuffers_le (c : Cache g) : c.dirtyBuffers.card ≤ g.buffers :=
  (Finset.card_le_univ _).trans (Fintype.card_fin _).le

theorem Cache.waiting_of_empty {c : Cache g} (h : c.requests.Empty) : c.waiting = 0 := by
  have hnone (d : Direction) : c.requests.slotsWith d.asked = ∅ := by
    refine Finset.eq_empty_of_forall_notMem fun k hk => ?_
    obtain ⟨o, ho, -⟩ := RequestTable.mem_slotsWith.mp hk
    rw [RequestTable.order?, h.free k] at ho
    cases ho
  rw [waiting, hnone, hnone]
  rfl

/-- A command that is provided for asks for the blocks of a page at most. -/
theorem World.Provides.mayAdd_le {w : World g} {c : Command} (h : w.Provides c)
    (q : Quantity g) : c.mayAdd q ≤ 4 := by
  have hparts := q.acquire_add_transfer
  cases c with
  | acquire b name => change q.acquire ≤ 4; omega
  | fetch b name => change 1 ≤ 4; omega
  | fetchPage d numbers length fill => exact numbers.length_toList.le
  | issue op name => change q.transfer ≤ 4; omega
  | release name => exact Nat.zero_le _
  | flush scope => exact Nat.zero_le _
  | discard d => exact Nat.zero_le _
  | _ => exact h.elim

/-- The counters stay away by `margin` from the end of a word of 64 bits, and the references to
each buffer from the end of a word of 32 bits. -/
structure Cache.FitsWords (c : Cache g) (margin : Nat) : Prop where
  /-- The counters fit. -/
  counters : ∀ k, c.statistics.count k + margin < 2 ^ 64
  /-- The references fit. -/
  references : ∀ i, (c.header i).references + margin < 2 ^ 32

namespace Machine

variable {m n : Machine g}

/-- What completes without a stop takes up no script on its way. -/
theorem Completes.undisturbed {s : Shape} {base : Stack g s} {P : Next g s → Prop}
    {Q : World g → s.Value g → Prop} (h : m.Completes True base P Q)
    (hspan : Leads (¬ Returned base ·) m n) :
    Leads (fun x => ¬ x.Returned base ∧ ¬ x.Enters) m n := by
  induction hspan with
  | refl => exact .refl
  | @tail b c _ hmove ih =>
    have hb : b.Alone base P := (h.through ih).alone fun hover => by
      obtain ⟨hstop, -⟩ | ⟨w, v, rfl, -⟩ := hover
      · exact hstop trivial
      · exact hmove.1 ⟨w, v, rfl⟩
    exact ih.tail ⟨⟨hmove.1, hb.undisturbed⟩, hmove.2⟩

/-- In a session over disks in memory, a command that is provided for advances each counter by one
for every buffer and four more at most, and takes four references to each buffer at most. -/
theorem OnDisks.count_le (h : m.OnDisks) (hm : m.Resting) (hsilent : m.world.Silent)
    (hbacked : ∀ i, (m.world.cache.header i).dirty = true →
      (m.world.cache.driver? (m.world.cache.header i).device.major).isSome = true)
    {waiting : List Script} {c : Command} (hc : m.world.Provides c)
    (hspan : Leads (¬ Returned (.bottom : Stack g .reply) ·)
      (start (m.world.fresh waiting) c) n) :
    (∀ k, n.statistics.count k ≤ m.statistics.count k + (g.buffers + 4)) ∧
      ∀ i, (n.world.cache.header i).references ≤ (m.world.cache.header i).references + 4 := by
  have hfresh : m.world.Transfers (m.world.fresh waiting) := World.transfers_of_eq rfl rfl
  have hidle := hfresh.idle (h.idle hm hsilent hbacked)
  have hprovides : (m.world.fresh waiting).Provides c := by cases c <;> exact hc
  have hundisturbed : Leads (fun x => ¬ x.Returned (.bottom : Stack g .reply) ∧ ¬ x.Enters)
      (start (m.world.fresh waiting) c) n :=
    ((hidle.completes_perform hprovides).machine .bottom).undisturbed hspan
  have hadd (q : Quantity g) : (start (m.world.fresh waiting) c).mayAdd q ≤ 4 :=
    hc.mayAdd_le q
  have hempty : (start (m.world.fresh waiting) c).world.cache.waiting = 0 :=
    Cache.waiting_of_empty hidle.requests
  refine ⟨fun k => ?_, fun i => ?_⟩
  · have hcount := hundisturbed.count_le hadd k
    have hchanged := (start (m.world.fresh waiting) c).world.cache.card_dirtyBuffers_le
    change _ ≤ m.statistics.count k + _ at hcount
    omega
  · have hreferences := hundisturbed.amount_le (.references i)
    have := hadd (.references i)
    change (n.world.cache.header i).references ≤ (m.world.cache.header i).references + _
      at hreferences
    omega

/-- Nothing overflows in such a command if there are four places for each buffer and four more
before it. -/
theorem OnDisks.fitsWords (h : m.OnDisks) (hm : m.Resting) (hsilent : m.world.Silent)
    (hbacked : ∀ i, (m.world.cache.header i).dirty = true →
      (m.world.cache.driver? (m.world.cache.header i).device.major).isSome = true)
    (hfits : m.world.cache.FitsWords (4 * g.buffers + 4))
    {waiting : List Script} {c : Command} (hc : m.world.Provides c)
    (hspan : Leads (¬ Returned (.bottom : Stack g .reply) ·)
      (start (m.world.fresh waiting) c) n) : n.world.cache.FitsWords 0 := by
  obtain ⟨hcount, hreferences⟩ := h.count_le hm hsilent hbacked hc hspan
  refine ⟨fun k => ?_, fun i => ?_⟩
  · have hroom : m.statistics.count k + (4 * g.buffers + 4) < 2 ^ 64 := hfits.counters k
    have hafter : n.statistics.count k ≤ m.statistics.count k + (g.buffers + 4) := hcount k
    change n.statistics.count k + 0 < 2 ^ 64
    omega
  · have := hfits.references i
    have := hreferences i
    omega

end Machine

end BufferCache
