import BufferCache.Proofs.Correspondence
import BufferCache.Proofs.RingOrder

/-!
# What calls sleep for

A call goes to sleep because something is missing that it needs: a buffer is locked, there
are references to all buffers, or no slot is free.  A `Need` says what, and in which queue one
waits for it.

An effect meets a need only if it wakes that queue as well: `Effect.not_met_apply`.  Each step
wakes a queue at most once.
-/

namespace BufferCache

variable {g : Geometry}

/-- What a call may sleep for. -/
inductive Need (g : Geometry) where
  /-- That a buffer is unlocked. -/
  | unlocking (i : g.Buffer)
  /-- A buffer for a block. -/
  | buffer (b : Block)
  /-- A slot for a request of a direction. -/
  | slot (d : Direction)

namespace Need

/-- The queue in which one waits for it. -/
def queue : Need g → Queue g
  | unlocking i => .unlock i
  | buffer _ => .release
  | slot _ => .vacancy

/-- It is there: the buffer is unlocked; a buffer is without references, or the block is in
the cache; a slot that the request may use is free. -/
def Met (c : Cache g) : Need g → Prop
  | unlocking i => (c.header i).locked = false
  | buffer b => (∃ i, (c.header i).references = 0) ∨ c.contains b = true
  | slot d => ∃ k : g.Slot, k.val < RequestTable.usable g d ∧ c.requests.request? k = none

end Need

/-- What a suspended call needs that goes to sleep. -/
def Frame.need? {a s : Shape} : Frame g a s → Option (Need g)
  | .awaitingUnlock i | .awaitingLock i => some (.unlocking i)
  | .starving b => some (.buffer b)
  | .awaitingVacancy op _ _ _ => some (.slot op.direction)
  | _ => none

/-- A suspended call that wishes to be woken needs something. -/
theorem Frame.exists_need {a s : Shape} {f : Frame g a s} {q : Queue g}
    (h : f.wishes = .woken q) : ∃ need, f.need? = some need ∧ need.queue = q := by
  cases f <;> cases h
  · exact ⟨_, rfl, rfl⟩
  · exact ⟨_, rfl, rfl⟩
  · exact ⟨_, rfl, rfl⟩
  · exact ⟨_, rfl, rfl⟩

theorem Frame.wishes_of_need {a s : Shape} {f : Frame g a s} {need : Need g}
    (h : f.need? = some need) : f.wishes = .woken need.queue := by
  cases f <;> cases h <;> rfl

/-- A suspended call that goes to sleep finds that its need is not met, provided that a victim
is missing only where there are references to all buffers. -/
theorem Frame.Stalled.not_met {a s : Shape} {f : Frame g a s} {c : Cache g} {need : Need g}
    (h : f.Stalled c) (hneed : f.need? = some need)
    (hvictim : c.buffers.victim = .ok none → ∀ i, (c.header i).references ≠ 0) :
    ¬ need.Met c := by
  have hlocked {i : g.Buffer} (h : (c.header i).locked = true) :
      ¬ (Need.unlocking i).Met c := fun hmet => Bool.false_ne_true (hmet.symm.trans h)
  cases f <;> cases hneed
  · exact hlocked h
  · exact hlocked h
  · rintro (⟨i, hi⟩ | hcontains)
    · exact hvictim h.1 i hi
    · rw [Cache.contains, h.2] at hcontains
      cases hcontains
  · rintro ⟨k, husable, hfree⟩
    exact RequestTable.freeSlot_eq_none_iff.mp h k husable hfree

/-! ## Wake-ups -/

namespace Cache

variable (c : Cache g) (q : Queue g)

theorem queue_update (i : g.Buffer) (f : Header g.buffers → Header g.buffers) :
    (c.update i f).queue q = c.queue q := by
  cases q <;> rfl

theorem queue_unlock (i : g.Buffer) :
    (c.unlock i).queue q = if .unlock i = q then (c.queue q).wake else c.queue q := by
  rw [unlock, queue_wake, queue_update]

theorem queue_unrefer (i : g.Buffer) :
    (c.unrefer i).queue q = if .release = q then (c.queue q).wake else c.queue q := by
  rw [unrefer, queue_wake, queue_update]

theorem queue_conclude (m : Nat) (slot : g.Slot) (r : Request g) (success : Bool) :
    (c.conclude m slot r success).queue q =
      if .unlock r.buffer = q ∨ .vacancy = q then (c.queue q).wake else c.queue q := by
  have hsettled : ((c.setValid r.buffer success).unlock r.buffer).queue q =
      if .unlock r.buffer = q then (c.queue q).wake else c.queue q := by
    rw [queue_unlock, setValid, queue_update]
  have hcounted (requests : RequestTable g) :
      queue { (if success then (c.setValid r.buffer success).unlock r.buffer
        else ((c.setValid r.buffer success).unlock r.buffer).tick .failure) with
          requests := requests } q =
        ((c.setValid r.buffer success).unlock r.buffer).queue q := by
    cases success <;> cases q <;> rfl
  rw [conclude, queue_wake, hcounted, hsettled]
  by_cases hvacancy : .vacancy = q
  · subst hvacancy
    rfl
  · rw [if_neg hvacancy]
    simp only [hvacancy, or_false]

theorem queue_enqueue (d : Direction) (i : g.Buffer) (b : Block) (slot : g.Slot) :
    (c.enqueue d i b slot).queue q = c.queue q := by
  cases q <;> rfl

theorem queue_assign (i : g.Buffer) (s : Buffers g) : (c.assign i s).queue q = c.queue q := by
  unfold assign
  split <;> cases q <;> rfl

theorem queue_edit (i : g.Buffer) (page : Option Page) (valid dirty : Bool) :
    (c.edit i page valid dirty).queue q = c.queue q := by
  cases page <;> cases valid <;> cases dirty <;> cases q <;> rfl

end Cache

namespace Effect

/-- Whether an effect wakes a queue. -/
def Wakes : Effect g → Queue g → Prop
  | .unrefer _, q => .release = q
  | .unlock i, q | .graze i, q => .unlock i = q
  | .finish _ _ r _, q | .serve _ _ _ r, q => .unlock r.buffer = q ∨ .vacancy = q
  | _, _ => False

/-- A queue is woken once by an effect that wakes it, and by no other. -/
theorem queue_apply (e : Effect g) (c : Cache g) (q : Queue g) :
    e.Wakes q ∧ (e.apply c).queue q = (c.queue q).wake ∨
      ¬ e.Wakes q ∧ (e.apply c).queue q = c.queue q := by
  have hdecide (p : Prop) [Decidable p] {x : WaitQueue}
      (h : x = if p then (c.queue q).wake else c.queue q) :
      p ∧ x = (c.queue q).wake ∨ ¬ p ∧ x = c.queue q := by
    by_cases hp : p
    · exact .inl ⟨hp, h.trans (if_pos hp)⟩
    · exact .inr ⟨hp, h.trans (if_neg hp)⟩
  cases e with
  | none => exact .inr ⟨id, rfl⟩
  | count k => exact .inr ⟨id, by cases q <;> rfl⟩
  | refer b i => exact .inr ⟨id, c.queue_update q i _⟩
  | unrefer i => exact hdecide (.release = q) (c.queue_unrefer q i)
  | lock i => exact .inr ⟨id, c.queue_update q i _⟩
  | unlock i => exact hdecide (.unlock i = q) (c.queue_unlock q i)
  | graze i =>
    refine hdecide (.unlock i = q) (((c.lock i).queue_unlock q i).trans ?_)
    rw [Cache.lock, Cache.queue_update]
  | queue direct d i b slot =>
    refine .inr ⟨id, ?_⟩
    cases direct with
    | false => exact c.queue_enqueue q d i b slot
    | true => exact ((c.lock i).queue_enqueue q d i b slot).trans (c.queue_update q i _)
  | finish m slot r success =>
    exact hdecide (.unlock r.buffer = q ∨ .vacancy = q) (c.queue_conclude q m slot r success)
  | serve m d slot r =>
    have hcarry : (c.carryOut m d r).queue q = c.queue q := by cases q <;> rfl
    refine hdecide (.unlock r.buffer = q ∨ .vacancy = q)
      (((c.carryOut m d r).queue_conclude q ..).trans ?_)
    rw [hcarry]
  | assign i b s => exact .inr ⟨id, c.queue_assign q i s⟩
  | edit i page valid dirty => exact .inr ⟨id, c.queue_edit q i page valid dirty⟩
  | empty d i =>
    refine .inr ⟨id, ?_⟩
    rw [apply, Cache.setDirty, Cache.queue_update, Cache.setValid, Cache.queue_update]
  | register m d => exact .inr ⟨id, by cases q <;> rfl⟩

/-! ## What others leave unmet -/

variable {e : Effect g} {c : Cache g}

/-- A locked buffer stays locked as long as those who wait for it are not woken. -/
theorem locked_apply (hfits : e.Fits c) {i : g.Buffer} (hquiet : ¬ e.Wakes (.unlock i))
    (hi : (c.header i).locked = true) : ((e.apply c).header i).locked = true := by
  have hother {j : g.Buffer} (hj : ¬ Queue.unlock j = Queue.unlock i) : j ≠ i := by
    rintro rfl
    exact hj rfl
  cases e with
  | refer b j =>
    rw [apply, Cache.header_refer]
    split <;> exact hi
  | unrefer j =>
    rw [apply, Cache.header_unrefer]
    split <;> exact hi
  | lock j =>
    rw [apply, Cache.header_lock]
    split
    · rfl
    · exact hi
  | unlock j =>
    rw [apply, Cache.header_unlock, if_neg (hother hquiet)]
    exact hi
  | graze j =>
    rw [apply, Cache.header_unlock, if_neg (hother hquiet), Cache.header_lock,
      if_neg (hother hquiet)]
    exact hi
  | queue direct d j b slot =>
    cases direct with
    | false =>
      rw [apply, Cache.header_enqueue]
      split <;> exact hi
    | true =>
      rw [apply, if_pos rfl, Cache.header_enqueue, Cache.header_lock]
      split
      · rfl
      · exact hi
  | finish m slot r success =>
    rw [apply, Cache.header_conclude, if_neg (hother fun h => hquiet (.inl h))]
    exact hi
  | serve m d slot r =>
    rw [apply, Cache.header_conclude, if_neg (hother fun h => hquiet (.inl h))]
    exact hi
  | assign j b s =>
    obtain ⟨-, -, hunlocked, -, hs⟩ := hfits
    have hj : j ≠ i := by
      rintro rfl
      exact Bool.false_ne_true (hunlocked.symm.trans hi)
    have hbare := Buffers.bare_reassign hs i
    rw [if_neg hj] at hbare
    rw [apply, Cache.header_assign]
    exact (congrArg Header.locked hbare :).trans hi
  | edit j page valid dirty =>
    rw [apply, Cache.header_edit]
    split <;> exact hi
  | empty d j =>
    rw [apply, Cache.header_setDirty, Cache.header_setValid]
    split <;> exact hi
  | _ => exact hi

/-- The buffers keep their references and their blocks as long as there are references to
all of them and those who wait for one are not woken. -/
theorem references_apply (hfits : e.Fits c) (hquiet : ¬ e.Wakes .release)
    (hall : ∀ i, (c.header i).references ≠ 0) (i : g.Buffer) :
    ((e.apply c).header i).references ≠ 0 ∧
      ((e.apply c).header i).content = (c.header i).content := by
  have hsame (he : ∀ a, e.due = some a → ∃ d i, a = .empty d i) :
      ((e.apply c).header i).references ≠ 0 ∧
        ((e.apply c).header i).content = (c.header i).content := by
    obtain ⟨hcontent, -, hreferences⟩ := e.sameReferences he c
    rw [hreferences]
    exact ⟨hall i, hcontent i⟩
  cases e with
  | refer b j =>
    rw [apply, Cache.header_refer]
    split
    · exact ⟨Nat.succ_ne_zero _, rfl⟩
    · exact ⟨hall i, rfl⟩
  | unrefer j => exact absurd rfl hquiet
  | assign j b s => exact absurd hfits.1 (hall j)
  | empty d j =>
    refine hsame fun a ha => ⟨d, j, ?_⟩
    cases ha
    rfl
  | _ =>
    refine hsame fun a ha => ?_
    cases ha

/-- A request stays in its slot as long as those who wait for a slot are not woken. -/
theorem request?_apply (hfits : e.Fits c) (hquiet : ¬ e.Wakes .vacancy) {k : g.Slot}
    (hk : c.requests.request? k ≠ Option.none) :
    (e.apply c).requests.request? k ≠ Option.none := by
  have hinsert (major : Nat) (slot : g.Slot) (t : Transfer) (i : g.Buffer) :
      (c.requests.insert major slot t i).1.request? k ≠ Option.none := by
    rw [ne_eq, ← RequestTable.order?_eq_none_iff] at hk ⊢
    rw [RequestTable.order?_insert]
    split
    · exact Option.some_ne_none _
    · exact hk
  cases e with
  | queue direct d i b slot => cases direct <;> exact hinsert _ _ _ _
  | finish m slot r success => exact absurd (.inr rfl) hquiet
  | serve m d slot r => exact absurd (.inr rfl) hquiet
  | assign i b s =>
    rw [apply, Cache.requests_assign]
    exact hk
  | edit i page valid dirty => cases page <;> cases valid <;> cases dirty <;> exact hk
  | _ => exact hk

/-- A need is not met by an effect that does not wake those who wait for it. -/
theorem not_met_apply (hfits : e.Fits c) {need : Need g} (hquiet : ¬ e.Wakes need.queue)
    (hc : c.buffers.Chained fun _ => True) (hc' : (e.apply c).buffers.Chained fun _ => True)
    (hneed : ¬ need.Met c) : ¬ need.Met (e.apply c) := by
  cases need with
  | unlocking i =>
    have hlocked := locked_apply hfits hquiet (Bool.of_not_eq_false hneed)
    exact fun hmet => Bool.false_ne_true (hmet.symm.trans hlocked)
  | buffer b =>
    have hall (i : g.Buffer) : (c.header i).references ≠ 0 := fun hi => hneed (.inl ⟨i, hi⟩)
    have hnone : c.buffers.locate b = Option.none := by
      have h : ¬ c.contains b = true := fun hb => hneed (.inr hb)
      rwa [Cache.contains, Option.not_isSome_iff_eq_none] at h
    have hkept := references_apply hfits hquiet hall
    rintro (⟨i, hi⟩ | hcontains)
    · exact (hkept i).1 hi
    · have hnone' : (e.apply c).buffers.locate b = Option.none := by
        refine hc'.locate_eq_none_iff.mpr fun i _ hi => ?_
        exact hc.locate_eq_none_iff.mp hnone i trivial ((hkept i).2.symm.trans hi)
      rw [Cache.contains, hnone'] at hcontains
      cases hcontains
  | slot d =>
    rintro ⟨k, husable, hfree⟩
    exact request?_apply hfits hquiet (fun hk => hneed ⟨k, husable, hk⟩) hfree

end Effect
end BufferCache
