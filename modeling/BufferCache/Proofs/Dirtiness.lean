import BufferCache.Proofs.Index
import BufferCache.Proofs.Requests

/-!
# When a change ceases to be pending

A buffer is dirty while it holds a change that was not written back.  The flag goes
at three places only: when a request for the buffer is queued, when its device is
emptied, and when it is given another block, which happens to clean buffers alone.

Queueing clears the flag whatever the direction of the request.  For a write that is
right, since the write takes the change along.  A read takes nothing along: if a
read is queued for a dirty buffer, which may be so as long as the bytes are not
marked valid, the change is forgotten, and will be overwritten by the read.
`Machine.Reachable.keepsChange_iff` says that this is the only way in which a change
is lost, and `change_lost_by_read` shows that it occurs.
-/

namespace BufferCache

variable {g : Geometry}

/-! ## Queued requests -/

/-- From `c` to `c'`, a request of direction `d` for buffer `i` comes into a free
slot. -/
def Cache.Queues (c c' : Cache g) (d : Direction) (i : g.Buffer) : Prop :=
  ∃ slot, c.requests.request? slot = none ∧
    ∃ q ∈ c'.requests.request? slot, q.buffer = i ∧ q.transfer.direction = d

instance (c c' : Cache g) (d : Direction) (i : g.Buffer) : Decidable (c.Queues c' d i) := by
  unfold Cache.Queues
  infer_instance

namespace Cache

theorem queues_iff {c c' : Cache g} {d : Direction} {i : g.Buffer} :
    c.Queues c' d i ↔ ∃ slot t, c.requests.order? slot = none ∧
      c'.requests.order? slot = some (t, i) ∧ t.direction = d := by
  constructor
  · rintro ⟨slot, hnone, q, hq, rfl, rfl⟩
    refine ⟨slot, q.transfer, (RequestTable.order?_eq_none_iff _ _).mpr hnone, ?_, rfl⟩
    rw [RequestTable.order?, Option.mem_def.mp hq]
    rfl
  · rintro ⟨slot, t, hnone, hsome, rfl⟩
    obtain ⟨q, hq, hqt⟩ := Option.map_eq_some_iff.mp hsome
    cases hqt
    exact ⟨slot, (RequestTable.order?_eq_none_iff _ _).mp hnone, q, hq, rfl, rfl⟩

/-- Nothing is queued where each slot asks for what it did, or was freed. -/
theorem not_queues {c c' : Cache g}
    (h : ∀ slot, c'.requests.order? slot = c.requests.order? slot ∨
      c'.requests.order? slot = none) (d : Direction) (i : g.Buffer) : ¬ c.Queues c' d i := by
  rw [queues_iff]
  rintro ⟨slot, t, hnone, hsome, -⟩
  rcases h slot with heq | heq
  · rw [heq, hnone] at hsome
    cases hsome
  · rw [heq] at hsome
    cases hsome

theorem order?_conclude (c : Cache g) (m : Nat) (slot j : g.Slot) (q : Request g)
    (success : Bool) :
    (c.conclude m slot q success).requests.order? j =
      if slot = j then none else c.requests.order? j := by
  have h : (c.conclude m slot q success).requests.order? j =
      (c.requests.retire m slot).1.order? j := by
    cases success <;> rfl
  rw [h, RequestTable.order?_retire]

end Cache

/-- Only one effect queues a request. -/
theorem Effect.queues_iff {e : Effect g} {c : Cache g} (hfits : e.Fits c) {d : Direction}
    {i : g.Buffer} :
    c.Queues (e.apply c) d i ↔ ∃ direct b slot, e = .queue direct d i b slot := by
  have hother (hne : ∀ direct b slot, e ≠ .queue direct d i b slot)
      (horder : ∀ slot, (e.apply c).requests.order? slot = c.requests.order? slot ∨
        (e.apply c).requests.order? slot = Option.none) :
      c.Queues (e.apply c) d i ↔ ∃ direct b slot, e = .queue direct d i b slot := by
    refine iff_of_false (Cache.not_queues horder d i) ?_
    rintro ⟨direct, b, slot, h⟩
    exact hne direct b slot h
  cases e with
  | queue direct d' i' b slot =>
    have horder (j : g.Slot) :
        ((queue direct d' i' b slot).apply c).requests.order? j =
          if slot = j then some (.ofBlock d' b, i') else c.requests.order? j := by
      have h : ((queue direct d' i' b slot).apply c).requests =
          (c.requests.insert b.device.major slot (.ofBlock d' b) i').1 := by
        cases direct <;> rfl
      rw [h, RequestTable.order?_insert]
    rw [Cache.queues_iff]
    constructor
    · rintro ⟨j, t, hnone, hsome, rfl⟩
      rw [horder] at hsome
      split at hsome
      · cases hsome
        exact ⟨direct, b, slot, rfl⟩
      · rw [hnone] at hsome
        cases hsome
    · rintro ⟨_, _, _, heq⟩
      cases heq
      refine ⟨slot, .ofBlock d b, ?_, ?_, rfl⟩
      · exact (RequestTable.order?_eq_none_iff _ _).mpr
          (RequestTable.freeSlot_eq_some hfits.1).1
      · rw [horder, if_pos rfl]
  | finish m slot q success =>
    refine hother (fun _ _ _ h => by cases h) fun j => ?_
    rw [apply, Cache.order?_conclude]
    split
    · exact Or.inr rfl
    · exact Or.inl rfl
  | serve m driver slot q =>
    refine hother (fun _ _ _ h => by cases h) fun j => ?_
    rw [apply, Cache.order?_conclude]
    split
    · exact Or.inr rfl
    · exact Or.inl rfl
  | assign j b s =>
    refine hother (fun _ _ _ h => by cases h) fun slot => Or.inl ?_
    rw [apply, Cache.assign]
    split <;> rfl
  | edit j page valid dirty =>
    refine hother (fun _ _ _ h => by cases h) fun slot => Or.inl ?_
    cases page <;> cases valid <;> cases dirty <;> rfl
  | _ => exact hother (fun _ _ _ h => by cases h) fun slot => Or.inl rfl

/-! ## The flag after an effect -/

/-- The buffer that an effect may leave clean. -/
def Effect.cleaned : Effect g → Option g.Buffer
  | .queue _ _ i _ _ | .empty _ i => some i
  | _ => Option.none

/-- A buffer may be left clean as a request is queued for it or as it is emptied. -/
theorem Effect.cleaned_eq_some_iff {e : Effect g} {i : g.Buffer} :
    e.cleaned = some i ↔
      (∃ direct d b slot, e = .queue direct d i b slot) ∨ ∃ d, e = .empty d i := by
  constructor
  · intro h
    cases e <;> cases h
    · exact Or.inl ⟨_, _, _, _, rfl⟩
    · exact Or.inr ⟨_, rfl⟩
  · rintro (⟨direct, d, b, slot, rfl⟩ | ⟨d, rfl⟩)
    · rfl
    · rfl

/-- A buffer that was dirty is clean after an effect just if the effect left it so. -/
theorem Effect.dirty_apply {e : Effect g} {c : Cache g} (hfits : e.Fits c) {i : g.Buffer}
    (hdirty : (c.header i).dirty = true) :
    ((e.apply c).header i).dirty = false ↔ e.cleaned = some i := by
  have hkept (h : ((e.apply c).header i).dirty = (c.header i).dirty)
      (hne : e.cleaned ≠ some i) :
      ((e.apply c).header i).dirty = false ↔ e.cleaned = some i := by
    rw [h, hdirty]
    exact iff_of_false Bool.noConfusion hne
  cases e with
  | none => exact hkept rfl (Option.some_ne_none i).symm
  | count k => exact hkept rfl (Option.some_ne_none i).symm
  | refer b j =>
    refine hkept ?_ (Option.some_ne_none i).symm
    rw [apply, Cache.header_refer]
    split <;> rfl
  | unrefer j =>
    refine hkept ?_ (Option.some_ne_none i).symm
    rw [apply, Cache.header_unrefer]
    split <;> rfl
  | lock j =>
    refine hkept ?_ (Option.some_ne_none i).symm
    rw [apply, Cache.header_lock]
    split <;> rfl
  | unlock j =>
    refine hkept ?_ (Option.some_ne_none i).symm
    rw [apply, Cache.header_unlock]
    split <;> rfl
  | graze j =>
    refine hkept ?_ (Option.some_ne_none i).symm
    rw [apply, Cache.header_unlock, Cache.header_lock]
    split <;> rfl
  | queue direct d j b slot =>
    by_cases hj : j = i
    · subst hj
      refine iff_of_true ?_ rfl
      rw [apply, Cache.header_enqueue, if_pos rfl]
    · refine hkept ?_ fun he => hj (Option.some.inj he)
      rw [apply, Cache.header_enqueue, if_neg hj]
      split
      · rw [Cache.header_lock, if_neg hj]
      · rfl
  | finish m slot q success =>
    refine hkept ?_ (Option.some_ne_none i).symm
    rw [apply, Cache.header_conclude]
    split <;> rfl
  | serve m d slot q =>
    refine hkept ?_ (Option.some_ne_none i).symm
    rw [apply, Cache.header_conclude, Cache.header_carryOut]
    split <;> rfl
  | assign j b s =>
    refine hkept ?_ (Option.some_ne_none i).symm
    obtain ⟨-, hclean, -, -, hs⟩ := hfits
    have hj : j ≠ i := by
      rintro rfl
      rw [hdirty] at hclean
      cases hclean
    have hbare := Buffers.bare_reassign hs i
    rw [if_neg hj] at hbare
    rw [apply, Cache.header_assign]
    exact (congrArg Header.dirty hbare :)
  | edit j page valid dirty =>
    refine hkept ?_ (Option.some_ne_none i).symm
    rw [apply, Cache.header_edit]
    split
    · rw [hdirty, Bool.or_true]
    · rfl
  | empty d j =>
    by_cases hj : j = i
    · subst hj
      refine iff_of_true ?_ rfl
      rw [apply, Cache.header_setDirty, if_pos rfl]
    · refine hkept ?_ fun he => hj (Option.some.inj he)
      rw [apply, Cache.header_setDirty, if_neg hj, Cache.header_setValid, if_neg hj]
  | register m d => exact hkept rfl (Option.some_ne_none i).symm

namespace Machine

/-! ## Moves -/

/-- Whether buffer `i` holds a change that was not written back. -/
def dirty (m : Machine g) (i : g.Buffer) : Bool :=
  (m.world.cache.header i).dirty

/-- Buffer `i` is emptied in the next step, as its device is. -/
def Empties (m : Machine g) (i : g.Buffer) : Prop :=
  m.due = some (.empty (m.world.cache.header i).device i)

instance (m : Machine g) (i : g.Buffer) : Decidable (m.Empties i) := by
  unfold Empties
  infer_instance

/-- From `m` to `m'`, the change in buffer `i` is not lost: it is still pending, or a
write of it is queued, or its device is emptied. -/
def KeepsChange (m m' : Machine g) (i : g.Buffer) : Prop :=
  m.dirty i = true →
    m'.dirty i = true ∨ m.world.cache.Queues m'.world.cache .write i ∨ m.Empties i

instance (m m' : Machine g) (i : g.Buffer) : Decidable (m.KeepsChange m' i) := by
  unfold KeepsChange
  infer_instance

/-- Nothing is queued in the step in which a buffer is emptied. -/
theorem Steps.order?_of_empties {m m' : Machine g} (h : m.Steps m') {i : g.Buffer}
    (hi : m.Empties i) (slot : g.Slot) :
    m'.world.cache.requests.order? slot = m.world.cache.requests.order? slot := by
  cases h with
  | @begin s w w' c n stack hn =>
    change c.due = _ at hi
    cases c <;> cases hi
  | @resume a s w w' f v n stack hn =>
    rw [world_next]
    change f.due v = _ at hi
    cases f with
    | discardAwaiting d j rest =>
      change w.discardReady d j rest = _ at hn
      unfold World.discardReady at hn
      dsimp only at hn
      split at hn <;> cases hn <;> rfl
    | _ => cases hi

/-- What a move does to a dirty buffer, one of three things: nothing, and then it stays
dirty; a request is queued for it, of one direction; or it is emptied. -/
theorem Reachable.move_cases {m m' : Machine g} (h : m.Reachable) (hm : m.Moves m')
    {i : g.Buffer} (hdirty : m.dirty i = true) :
    (m'.dirty i = true ∧ ∀ d, ¬ m.world.cache.Queues m'.world.cache d i) ∨
    (m'.dirty i = false ∧ ¬ m.Empties i ∧
      ∃ d, ∀ d', m.world.cache.Queues m'.world.cache d' i ↔ d' = d) ∨
    (m'.dirty i = false ∧ m.Empties i ∧
      ∀ d, ¬ m.world.cache.Queues m'.world.cache d i) := by
  cases hm with
  | next waiting c =>
    exact Or.inl ⟨hdirty, fun d => Cache.not_queues (fun _ => Or.inl rfl) d i⟩
  | step hs =>
    obtain ⟨⟨e, hfits, happly, hdue⟩, -⟩ := hs.affects h.aimed
    have hqueues (d : Direction) : m.world.cache.Queues m'.world.cache d i ↔
        ∃ direct b slot, e = .queue direct d i b slot := by
      rw [happly]
      exact Effect.queues_iff hfits
    have hclean : m'.dirty i = false ↔
        (∃ direct d b slot, e = .queue direct d i b slot) ∨ ∃ d, e = .empty d i := by
      rw [dirty, happly, Effect.dirty_apply hfits hdirty, Effect.cleaned_eq_some_iff]
    by_cases hempty : ∃ d, e = .empty d i
    · obtain ⟨d, rfl⟩ := hempty
      have hdevice : (m.world.cache.header i).device = d := hfits
      refine Or.inr (Or.inr ⟨hclean.mpr (Or.inr ⟨d, rfl⟩), ?_, fun d' hq => ?_⟩)
      · rw [Empties, hdevice]
        exact hdue _ rfl
      · obtain ⟨_, _, _, heq⟩ := (hqueues d').mp hq
        cases heq
    by_cases hqueue : ∃ direct d b slot, e = .queue direct d i b slot
    · obtain ⟨direct, d, b, slot, rfl⟩ := hqueue
      have hd (d' : Direction) : m.world.cache.Queues m'.world.cache d' i ↔ d' = d := by
        rw [hqueues]
        constructor
        · rintro ⟨_, _, _, heq⟩
          cases heq
          rfl
        · rintro rfl
          exact ⟨direct, b, slot, rfl⟩
      refine Or.inr (Or.inl ⟨hclean.mpr (Or.inl ⟨direct, d, b, slot, rfl⟩), ?_, d, hd⟩)
      intro hempties
      exact Cache.not_queues (fun slot => Or.inl (hs.order?_of_empties hempties slot)) d i
        ((hd d).mpr rfl)
    · refine Or.inl ⟨?_, fun d hq => ?_⟩
      · rw [← Bool.not_eq_false, hclean]
        exact not_or.mpr ⟨hqueue, hempty⟩
      · obtain ⟨direct, b, slot, heq⟩ := (hqueues d).mp hq
        exact hqueue ⟨direct, d, b, slot, heq⟩

/-- A session in which a block was acquired and marked as changed, and an operation is
about to be started on it; the driver is manual. -/
def submitted (op : Operation) : Machine Geometry.small :=
  let registered := (start ((World.initial Geometry.small).fresh [])
    (.register 1 ⟨1, .manual []⟩ [])).after 30
  let acquired := (registered.next [] (.acquire ⟨257, 3⟩ (some "h"))).after 30
  let marked := (acquired.next [] (.markDirty "h")).after 30
  marked.next [] (.issue op "h")

theorem reachable_submitted (op : Operation) : (submitted op).Reachable := by
  have registered := (@reachable_start Geometry.small [] (.register 1 ⟨1, .manual []⟩ [])).after 30
  have acquired := (registered.next [] (.acquire ⟨257, 3⟩ (some "h"))).after 30
  have marked := (acquired.next [] (.markDirty "h")).after 30
  exact marked.next [] (.issue op "h")

/-- A change is lost just where a read is queued for a dirty buffer: in every session,
whatever other tasks and drivers do. -/
theorem Reachable.keepsChange_iff {m m' : Machine g} (h : m.Reachable) (hm : m.Moves m')
    (i : g.Buffer) :
    m.KeepsChange m' i ↔
      ¬ (m.dirty i = true ∧ m.world.cache.Queues m'.world.cache .read i) := by
  by_cases hdirty : m.dirty i = true
  · rw [not_and, forall_prop_of_true hdirty, KeepsChange, forall_prop_of_true hdirty]
    rcases h.move_cases hm hdirty with ⟨hstill, hnone⟩ | ⟨hclean, hempties, d, hd⟩ |
      ⟨hclean, hempties, hnone⟩
    · exact iff_of_true (Or.inl hstill) (hnone .read)
    · rw [hd, hd, hclean]
      cases d <;> simp [hempties]
    · exact iff_of_true (Or.inr (Or.inr hempties)) (hnone .read)
  · exact iff_of_true (fun hd => absurd hd hdirty) fun hq => hdirty hq.1

/-- If the operation is a write, the change is kept. -/
theorem change_kept_by_write :
    ∃ m m' : Machine Geometry.small, m.Reachable ∧ m.Moves m' ∧
      m.dirty Geometry.small.firstBuffer = true ∧
      m'.dirty Geometry.small.firstBuffer = false ∧
      m.KeepsChange m' Geometry.small.firstBuffer := by
  have h := (reachable_submitted .write).after 4
  have hm : ((submitted .write).after 4).Moves ((submitted .write).after 5) :=
    .step (steps_of_step rfl)
  exact ⟨_, _, h, hm, by decide, by decide, (h.keepsChange_iff hm _).mpr (by decide)⟩

/-- If the operation is a read, the change is lost. -/
theorem change_lost_by_read :
    ∃ m m' : Machine Geometry.small, m.Reachable ∧ m.Moves m' ∧
      ¬ m.KeepsChange m' Geometry.small.firstBuffer :=
  ⟨_, (submitted .read).after 5, (reachable_submitted .read).after 4, .step (steps_of_step rfl),
    by decide⟩

end Machine
end BufferCache
