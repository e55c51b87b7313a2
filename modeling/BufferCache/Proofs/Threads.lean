import BufferCache.Links
import Mathlib.Data.List.Nodup

/-!
# Lists threaded through a table

A chain that is linked both ways through a table is a list in disguise.
`Threaded prev next before start l` says which: from `start` on, `next` visits the
elements of `l` and then ends, and `prev` leads from each of them to the one
visited before it, the first one's being `before`.

* `Threaded.walk_eq`: following the links gives the list.
* `Threaded.remove`: an element is taken out by making its neighbours skip it,
  wherever it stands.
* `Threaded.cons_front`: an element is put at the front.
* `Threaded.next_eq_some_iff`: forward and backward links are inverse to each
  other.
-/

namespace BufferCache

variable {α : Type}

/-- The list `l` is linked both ways from `start` on; `before` precedes it. -/
def Threaded (prev next : α → Option α) : (before start : Option α) → List α → Prop
  | _, start, [] => start = none
  | before, start, i :: l =>
      start = some i ∧ prev i = before ∧ Threaded prev next (some i) (next i) l

namespace Threaded

variable {prev next prev' next' : α → Option α} {before start : Option α} {l l₁ l₂ : List α}
  {i x y : α}

/-- Only the links of the elements matter. -/
theorem congr (h : Threaded prev next before start l)
    (hp : ∀ x ∈ l, prev' x = prev x) (hn : ∀ x ∈ l, next' x = next x) :
    Threaded prev' next' before start l := by
  induction l generalizing before start with
  | nil => exact h
  | cons i l ih =>
    obtain ⟨hs, hb, hl⟩ := h
    refine ⟨hs, (hp i List.mem_cons_self).trans hb, ?_⟩
    rw [hn i List.mem_cons_self]
    exact ih hl (fun x hx => hp x (List.mem_cons_of_mem i hx))
      fun x hx => hn x (List.mem_cons_of_mem i hx)

/-- Following the links gives the list, if the bound on the walk allows it. -/
theorem walk_eq (h : Threaded prev next before start l) {bound : Nat}
    (hbound : l.length ≤ bound) : walk next bound start = l := by
  induction l generalizing before start bound with
  | nil =>
    cases h
    exact walk_none next bound
  | cons i l ih =>
    obtain ⟨rfl, -, hl⟩ := h
    cases bound with
    | zero => cases hbound
    | succ bound =>
      rw [List.length_cons] at hbound
      rw [walk, ih hl (by omega)]

/-- The start is the first element. -/
theorem start_eq (h : Threaded prev next before start l) : start = l.head? := by
  cases l with
  | nil => exact h
  | cons i l => exact h.1

/-- What comes after an element is in the list. -/
theorem mem_of_next (h : Threaded prev next before start l) (hx : x ∈ l)
    (hy : next x = some y) : y ∈ l := by
  induction l generalizing before start with
  | nil => cases hx
  | cons i l ih =>
    obtain ⟨-, -, hl⟩ := h
    rcases List.mem_cons.mp hx with rfl | hx
    · rw [hy] at hl
      exact List.mem_cons_of_mem _ (List.mem_of_mem_head? (hl.start_eq.symm ▸ rfl))
    · exact List.mem_cons_of_mem i (ih hl hx)

/-- What comes before an element is in the list, or precedes it. -/
theorem mem_of_prev (h : Threaded prev next before start l) (hx : x ∈ l)
    (hy : prev x = some y) : y ∈ l ∨ before = some y := by
  induction l generalizing before start with
  | nil => cases hx
  | cons i l ih =>
    obtain ⟨-, hb, hl⟩ := h
    rcases List.mem_cons.mp hx with rfl | hx
    · exact Or.inr (hb.symm.trans hy)
    · rcases ih hl hx with hmem | heq
      · exact Or.inl (List.mem_cons_of_mem i hmem)
      · cases heq
        exact Or.inl List.mem_cons_self

/-- In a list without duplicates, nothing leads to the first element. -/
theorem next_ne_head (h : Threaded prev next before start (i :: l)) (hd : (i :: l).Nodup)
    (hx : x ∈ i :: l) : next x ≠ some i := by
  intro hi
  obtain ⟨-, -, hl⟩ := h
  have hmem : i ∈ l := by
    rcases List.mem_cons.mp hx with rfl | hx
    · rw [hi] at hl
      exact List.mem_of_mem_head? (hl.start_eq.symm ▸ rfl)
    · exact hl.mem_of_next hx hi
  exact (List.nodup_cons.mp hd).1 hmem

/-- Forward and backward links between elements are inverse to each other. -/
theorem next_eq_some_iff (h : Threaded prev next before start l) (hd : l.Nodup) (hx : x ∈ l)
    (hy : y ∈ l) (hb : before ≠ some x) : next x = some y ↔ prev y = some x := by
  induction l generalizing before start with
  | nil => cases hx
  | cons i l ih =>
    have ⟨_, hprev, hl⟩ := h
    obtain ⟨hi, hd'⟩ := List.nodup_cons.mp hd
    rcases List.mem_cons.mp hy with rfl | hy'
    · rw [hprev]
      exact iff_of_false (h.next_ne_head hd hx) hb
    rcases List.mem_cons.mp hx with rfl | hx'
    · constructor
      · intro hn
        cases l with
        | nil => cases hy'
        | cons j l =>
          obtain ⟨hj, hpj, -⟩ := hl
          rw [hn] at hj
          cases hj
          exact hpj
      · intro hp
        cases l with
        | nil => cases hy'
        | cons j l =>
          have ⟨hj, _, hl'⟩ := hl
          rcases List.mem_cons.mp hy' with rfl | hy''
          · exact hj
          · rcases hl'.mem_of_prev hy'' hp with hmem | heq
            · exact absurd (List.mem_cons_of_mem j hmem) hi
            · cases heq
              exact absurd List.mem_cons_self hi
    · refine ih hl hd' hx' hy' fun he => ?_
      cases he
      exact hi hx'

variable [DecidableEq α]

/-- An element is put at the front: it takes the place of the first, which now
has it behind. -/
theorem cons_front (h : Threaded prev next none start l) (hp : prev' i = none)
    (hn : next' i = start) (hnext : ∀ x ∈ l, next' x = next x)
    (hprev : ∀ x ∈ l, prev' x = if start = some x then some i else prev x) (hd : l.Nodup) :
    Threaded prev' next' none (some i) (i :: l) := by
  refine ⟨rfl, hp, ?_⟩
  rw [hn]
  cases l with
  | nil => exact h
  | cons j l =>
    obtain ⟨rfl, -, hl⟩ := h
    obtain ⟨hj, -⟩ := List.nodup_cons.mp hd
    refine ⟨rfl, ?_, ?_⟩
    · rw [hprev j List.mem_cons_self, if_pos rfl]
    · rw [hnext j List.mem_cons_self]
      refine hl.congr (fun x hx => ?_) fun x hx => hnext x (List.mem_cons_of_mem j hx)
      have hne : some j ≠ some x := by
        rintro ⟨⟩
        exact hj hx
      rw [hprev x (List.mem_cons_of_mem j hx), if_neg hne]

/-- An element is taken out: links to it skip it, and the start moves on if it
was the first. -/
theorem remove (h : Threaded prev next before start (l₁ ++ i :: l₂))
    (hd : (l₁ ++ i :: l₂).Nodup) (hb : before ≠ some i)
    (hnext : ∀ x ∈ l₁ ++ l₂, next' x = if next x = some i then next i else next x)
    (hprev : ∀ x ∈ l₁ ++ l₂, prev' x = if prev x = some i then prev i else prev x) :
    Threaded prev' next' before (if start = some i then next i else start) (l₁ ++ l₂) := by
  induction l₁ generalizing before start with
  | nil =>
    rw [List.nil_append] at h hd hnext hprev ⊢
    have ⟨hs, hpi, hl⟩ := h
    obtain ⟨hi, hd₂⟩ := List.nodup_cons.mp hd
    rw [if_pos hs]
    cases l₂ with
    | nil => exact hl
    | cons j l =>
      have ⟨hj, hpj, hl'⟩ := hl
      have hnj : ∀ x ∈ j :: l, next' x = next x := by
        intro x hx
        rw [hnext x hx, if_neg (h.next_ne_head hd (List.mem_cons_of_mem i hx))]
      refine ⟨hj, ?_, ?_⟩
      · rw [hprev j List.mem_cons_self, if_pos hpj, hpi]
      · rw [hnj j List.mem_cons_self]
        refine hl'.congr (fun x hx => ?_) fun x hx => hnj x (List.mem_cons_of_mem j hx)
        have hne : prev x ≠ some i := by
          intro he
          rcases hl'.mem_of_prev hx he with hmem | heq
          · exact hi (List.mem_cons_of_mem j hmem)
          · cases heq
            exact hi List.mem_cons_self
        rw [hprev x (List.mem_cons_of_mem j hx), if_neg hne]
  | cons a l₁ ih =>
    rw [List.cons_append] at h hd hnext hprev ⊢
    obtain ⟨hs, hpa, hl⟩ := h
    obtain ⟨ha, hd'⟩ := List.nodup_cons.mp hd
    have hai : a ≠ i := by
      rintro rfl
      exact ha (List.mem_append_right l₁ List.mem_cons_self)
    have hsi : start ≠ some i := by
      rw [hs]
      rintro ⟨⟩
      exact hai rfl
    rw [if_neg hsi]
    refine ⟨hs, ?_, ?_⟩
    · rw [hprev a List.mem_cons_self, if_neg (hpa ▸ hb), hpa]
    · rw [hnext a List.mem_cons_self]
      refine ih hl hd' ?_ (fun x hx => hnext x (List.mem_cons_of_mem a hx))
        fun x hx => hprev x (List.mem_cons_of_mem a hx)
      rintro ⟨⟩
      exact hai rfl

end Threaded
end BufferCache
