import BufferCache.Proofs.Reuse

/-!
# What a release takes

A release checks the generation of its handle as it begins, waits until the buffer is
unlocked, and then takes a reference away without looking at the generation again.  A client
that gives a reference back twice can slip in between: once its second release has taken the
reference, the buffer may be given another block, and the first takes a reference to that one.

`Reachable.releases` tells just when a release takes a reference of the generation that its
handle was issued in: if the buffer was given another block during the wait not at all, or so
often that the generation has come round.
-/

namespace BufferCache

variable {g : Geometry}

namespace Machine

variable {m n a b : Machine g} {i : g.Buffer} {h : Handle} {k : Nat} {w : World g}
  {base : Stack g .unit}

/-! ## The beginning and the end -/

/-- A release with a handle of another generation, or of no buffer, is refused. -/
theorem halted_of_stale
    (hstale : ∀ i : g.Buffer, i.val = h.index → (w.cache.header i).generation ≠ h.generation) :
    step ⟨w, .unit, .run (.release h), base⟩ = .halted (.fault (.staleRelease h.index)) := by
  have hrefused : w.cache.resolveRelease h = .error (.staleRelease h.index) := by
    cases hc : w.cache.resolveRelease h with
    | ok i =>
      obtain ⟨hindex, hgeneration⟩ := Cache.resolveRelease_eq_ok hc
      exact absurd hgeneration (hstale i hindex)
    | error f => rw [Cache.resolveRelease_eq_error hc]
  have hbegin : (Call.release h).begin w = World.fault (.staleRelease h.index) := by
    change w.release h = _
    rw [World.release, hrefused]
    rfl
  exact congrArg (advance base) hbegin

/-- A release of a buffer without references is refused. -/
theorem halted_of_free {v : Shape.Value g .unit} (hfree : (w.cache.header i).references = 0) :
    step ⟨w, .unit, .give v, .push (.releasing h i) base⟩ = .halted (.fault .freeRelease) := by
  have hresume : (Frame.releasing h i).resume v w = World.fault .freeRelease := if_pos hfree
  exact congrArg (advance base) hresume

/-- A release begins to wait for the buffer of its handle, in whose generation it is. -/
theorem beneath_of_release {m' : Machine g} (hm : Moves ⟨w, .unit, .run (.release h), base⟩ m') :
    ∃ j : g.Buffer, j.val = h.index ∧ (w.cache.header j).generation = h.generation ∧
      (Stack.push (Frame.releasing h j) base).Beneath m'.stack := by
  obtain ⟨w', next, hnext, rfl⟩ := moves_of_run hm
  change World.orFault (w.cache.resolveRelease h) _ = _ at hnext
  cases hc : w.cache.resolveRelease h with
  | ok j =>
    rw [hc] at hnext
    cases hnext
    obtain ⟨hindex, hgeneration⟩ := Cache.resolveRelease_eq_ok hc
    exact ⟨j, hindex, hgeneration, .here⟩
  | error f =>
    rw [hc] at hnext
    cases hnext

/-- The moment in which a release takes a reference: the machine goes from `a` to `b`. -/
structure Takes (h : Handle) (i : g.Buffer) (base : Stack g .unit) (a b : Machine g) : Prop where
  /-- The release goes on after its wait. -/
  resumes : a.Returned (.push (.releasing h i) base)
  /-- It is the next to move. -/
  moves : a.Moves b
  /-- There is a reference, and it goes. -/
  taken : a.references i = b.references i + 1
  /-- All other buffers keep theirs. -/
  others : ∀ j, j ≠ i → b.references j = a.references j
  /-- Nobody is given another block. -/
  kept : ∀ j, b.content j = a.content j ∧ b.generation j = a.generation j

/-- A release that goes on takes a reference, and is over. -/
theorem takes_of_returned (ha : a.Returned (.push (.releasing h i) base)) (hm : a.Moves b) :
    Takes h i base a b ∧ b.Returned base := by
  obtain ⟨w, v, w', next, rfl, hnext, rfl⟩ := moves_of_returned ha hm
  change (if _ then _ else _) = _ at hnext
  split at hnext
  · cases hnext
  · rename_i hreferenced
    cases hnext
    have hheader (j : g.Buffer) : (w.cache.unrefer i).header j = _ :=
      Cache.header_unrefer w.cache i j
    refine ⟨⟨ha, hm, ?_, fun j hj => ?_, fun j => ?_⟩, ⟨_, _, rfl⟩⟩
    · change _ = ((w.cache.unrefer i).header i).references + 1
      rw [hheader, if_pos rfl]
      exact (Nat.succ_pred_eq_of_ne_zero hreferenced).symm
    · change ((w.cache.unrefer i).header j).references = _
      rw [hheader, if_neg hj.symm]
      rfl
    · change ((w.cache.unrefer i).header j).content = _ ∧
        ((w.cache.unrefer i).header j).generation = _
      rw [hheader]
      split
      · exact ⟨rfl, rfl⟩
      · exact ⟨rfl, rfl⟩

/-! ## The span of a release -/

/-- A release that has begun and is not over waits for the buffer of its handle. -/
theorem waits_of_leads
    (hspan : Leads (¬ Returned base ·) ⟨w, .unit, .run (.release h), base⟩ n)
    (hover : ¬ n.Returned base) : n = ⟨w, .unit, .run (.release h), base⟩ ∨
      ∃ i : g.Buffer, i.val = h.index ∧ (w.cache.header i).generation = h.generation ∧
        (Stack.push (Frame.releasing h i) base).Beneath n.stack := by
  induction hspan with
  | refl => exact .inl rfl
  | tail _ hmove ih =>
    rcases ih hmove.1 with rfl | ⟨i, hindex, hgeneration, hbeneath⟩
    · exact .inr (beneath_of_release hmove.2)
    · refine .inr ⟨i, hindex, hgeneration, beneath_moves hbeneath hmove.2 fun hreturned => ?_⟩
      exact hover (takes_of_returned hreturned hmove.2).2

/-- A release that is over took a reference in its last move. -/
theorem takes_of_reuses (hindex : i.val = h.index)
    (hspan : Reuses (¬ Returned base ·) i ⟨w, .unit, .run (.release h), base⟩ k n)
    (hover : n.Returned base) : (w.cache.header i).generation = h.generation ∧
      ∃ a, Reuses (¬ Returned base ·) i ⟨w, .unit, .run (.release h), base⟩ k a ∧
        Takes h i base a n := by
  have hgone {i : g.Buffer} : ¬ (Stack.push (Frame.releasing h i) base).Beneath n.stack := by
    obtain ⟨w', v, rfl⟩ := hover
    exact Stack.not_push_beneath _ base
  rcases hspan.eq_or_last with rfl | ⟨a, hleads, hbusy, hm, hlast⟩
  · obtain ⟨w', v, hrun⟩ := hover
    cases hrun
  rcases waits_of_leads hleads hbusy with rfl | ⟨j, hj, hgeneration, hbeneath⟩
  · obtain ⟨j, -, -, hbeneath⟩ := beneath_of_release hm
    exact absurd hbeneath hgone
  obtain rfl : j = i := Fin.ext (hj.trans hindex.symm)
  by_cases hreturned : a.Returned (.push (.releasing h j) base)
  · obtain ⟨htakes, -⟩ := takes_of_returned hreturned hm
    exact ⟨hgeneration, a, hlast (htakes.kept j).1, htakes⟩
  · exact absurd (beneath_moves hbeneath hm hreturned) hgone

/-! ## Every release -/

/-- What a release comes to. -/
structure Releases (m : Machine g) : Prop where
  /-- It is refused at once if the buffer of the handle is in another generation. -/
  refused : ∀ {w h} {base : Stack g .unit}, m = ⟨w, .unit, .run (.release h), base⟩ →
    (∀ i : g.Buffer, i.val = h.index → (w.cache.header i).generation ≠ h.generation) →
      m.step = .halted (.fault (.staleRelease h.index))
  /-- If it returns, it took one reference of the buffer in its last move.  The buffer was in
  the generation of the handle then just if the number of blocks that it was given during the
  wait is a multiple of the number of generations. -/
  took : ∀ {w h} {base : Stack g .unit} {i k n}, m = ⟨w, .unit, .run (.release h), base⟩ →
    i.val = h.index → Reuses (¬ Returned base ·) i m k n → n.Returned base →
      ∃ a, Reuses (¬ Returned base ·) i m k a ∧ Takes h i base a n ∧
        (a.generation i = h.generation ↔ UInt32.size ∣ k)
  /-- As long as some reference to the buffer is left, it is not given another block. -/
  kept : ∀ {on i k n}, Reuses on i m k n → (∀ a, on a → a.references i ≠ 0) →
    k = 0 ∧ n.generation i = m.generation i

/-- In every session, whatever clients, drivers and listeners do, a release takes a reference
of the generation of its handle just if its buffer was not given another block meanwhile, up
to the number of generations. -/
theorem Reachable.releases (hm : m.Reachable) : m.Releases := by
  refine ⟨?_, ?_, fun {on i k n} hspan hreferenced => ?_⟩
  · rintro w h base rfl hstale
    exact halted_of_stale hstale
  · rintro w h base i k n rfl hindex hspan hover
    obtain ⟨hgeneration, a, hspan', htakes⟩ := takes_of_reuses hindex hspan hover
    refine ⟨a, hspan', htakes, ?_⟩
    rw [← hgeneration]
    exact hspan'.generation_eq_iff hm
  · have hk := hspan.eq_zero hm hreferenced
    subst hk
    refine ⟨rfl, ?_⟩
    rw [hspan.generation_eq hm]
    exact UInt32.add_zero _

/-- A client gives its reference back while the buffer is read, so that it has to wait.
Meanwhile the read ends, the reference is given back once more, and the buffer is taken for
another block. -/
def releasedTwice : Machine Geometry.single :=
  reading.next [[.finish 1 true, .release "h", .acquire ⟨257, 5⟩ (some "x")]] (.release "h")

theorem reachable_releasedTwice (n : Nat) : (releasedTwice.after n).Reachable :=
  (reachable_reading.next _ _).after n

/-- The release begins while the buffer is locked. -/
theorem releases_of_locked :
    ∃ m : Machine Geometry.single, m.Reachable ∧
      (∃ w h base, m = ⟨w, .unit, .run (.release h), base⟩ ∧
        w.cache.resolveRelease h = .ok ⟨0, by decide⟩ ∧
        (w.cache.header ⟨0, by decide⟩).locked = true) ∧
      m.Releases := by
  have h := reachable_releasedTwice 1
  exact ⟨_, h, ⟨_, _, _, rfl, by decide, by decide⟩, h.releases⟩

/-- When its wait is over, it takes a reference to the other block. -/
theorem reassigned_taken_by_release :
    ∃ (h : Handle) (i : Geometry.single.Buffer) (base : Stack Geometry.single .unit)
      (a b : Machine Geometry.single), a.Reachable ∧ Takes h i base a b ∧
        a.generation i ≠ h.generation := by
  have hreturned : ∃ (h : Handle) (i : Geometry.single.Buffer) (base : Stack _ .unit),
      (releasedTwice.after 29).Returned (.push (.releasing h i) base) ∧
        (releasedTwice.after 29).generation i ≠ h.generation :=
    ⟨_, _, _, ⟨_, _, rfl⟩, by decide⟩
  obtain ⟨h, i, base, hreturned, hother⟩ := hreturned
  have hmoves : (releasedTwice.after 29).Moves (releasedTwice.after 30) :=
    .step (steps_of_step rfl)
  exact ⟨h, i, base, _, _, reachable_releasedTwice 29, (takes_of_returned hreturned hmoves).1,
    hother⟩

end Machine
end BufferCache
