import BufferCache.Buffers.Ring

/-!
# Changes of the ring

Taking a buffer out of the ring and putting it at the end touch nothing but the
links of the ring: `SameButRing`.  Where they fail, and where the ring cannot be
listed, the ring is broken; there is no other fault.
-/

namespace BufferCache

/-- A header without its links. -/
def Header.bare {n : Nat} (h : Header n) : Header n :=
  { h with chainPrev := none, chainNext := none, ringPrev := none, ringNext := none }

namespace Buffers

variable {g : Geometry}

/-- Two tables that differ in the ring only. -/
structure SameButRing (s s' : Buffers g) : Prop where
  /-- The headers are the same, apart from the links of the ring. -/
  header : ∀ j, ∃ before after,
    s'.header j = { s.header j with ringPrev := before, ringNext := after }
  /-- The buckets are the same. -/
  buckets : s'.buckets = s.buckets

namespace SameButRing

variable {s s' s'' : Buffers g}

theorem trans (h : SameButRing s s') (h' : SameButRing s' s'') : SameButRing s s'' := by
  refine ⟨fun j => ?_, h'.buckets.trans h.buckets⟩
  obtain ⟨before, after, hj⟩ := h.header j
  obtain ⟨before', after', hj'⟩ := h'.header j
  exact ⟨before', after', by rw [hj', hj]⟩

theorem update (s : Buffers g) (i : g.Buffer) {f : Header g.buffers → Header g.buffers}
    (hf : ∀ h, ∃ before after, f h = { h with ringPrev := before, ringNext := after }) :
    SameButRing s (s.update i f) := by
  refine ⟨fun j => ?_, rfl⟩
  rw [header_update]
  split
  · exact hf _
  · exact ⟨(s.header j).ringPrev, (s.header j).ringNext, rfl⟩

theorem unring {i : g.Buffer} (h : s.unring i = .ok s') : SameButRing s s' := by
  unfold Buffers.unring at h
  split at h
  · rename_i before after _ _
    cases h
    have hjoined := (update s before (f := fun x => { x with ringNext := some after })
      fun x => ⟨x.ringPrev, some after, rfl⟩).trans
      (update _ after (f := fun x => { x with ringPrev := some before })
        fun x => ⟨some before, x.ringNext, rfl⟩)
    exact ⟨hjoined.header, hjoined.buckets⟩
  · cases h

theorem enring {i : g.Buffer} (h : s.enring i = .ok s') : SameButRing s s' := by
  unfold Buffers.enring at h
  split at h
  · cases h
  · rename_i last _
    cases h
    exact ((update s i fun x => ⟨some last, some s.ringHead, rfl⟩).trans
      (update _ last fun x => ⟨x.ringPrev, some i, rfl⟩)).trans
      (update _ s.ringHead fun x => ⟨some i, x.ringNext, rfl⟩)

theorem bare (h : SameButRing s s') (j : g.Buffer) :
    (s'.header j).bare = (s.header j).bare := by
  obtain ⟨_, _, hj⟩ := h.header j
  rw [hj]
  rfl

end SameButRing

theorem unring_error {s : Buffers g} {i : g.Buffer} {f : Fault} (h : s.unring i = .error f) :
    f = .ringBroken := by
  unfold unring at h
  split at h <;> cases h
  rfl

theorem enring_error {s : Buffers g} {i : g.Buffer} {f : Fault} (h : s.enring i = .error f) :
    f = .ringBroken := by
  unfold enring at h
  split at h <;> cases h
  rfl

/-- Where the ring cannot be listed, it is broken. -/
theorem ringFrom_error {s : Buffers g} {bound : Nat} {i : g.Buffer} {f : Fault}
    (h : s.ringFrom bound i = .error f) : f = .ringBroken := by
  induction bound generalizing i with
  | zero => cases h
  | succ bound ih =>
    unfold ringFrom ringNext at h
    split at h
    · rename_i e he
      cases h
      split at he <;> cases he
      rfl
    · rename_i j _
      split at h
      · cases h
      · cases hr : s.ringFrom bound j with
        | ok l => rw [hr] at h; cases h
        | error f' =>
          rw [hr] at h
          cases h
          exact ih hr

theorem victim_error {s : Buffers g} {f : Fault} (h : s.victim = .error f) :
    f = .ringBroken := by
  unfold victim ring at h
  cases hr : s.ringFrom g.buffers s.ringHead with
  | ok l => rw [hr] at h; cases h
  | error f' =>
    rw [hr] at h
    cases h
    exact ringFrom_error hr

end Buffers
end BufferCache
