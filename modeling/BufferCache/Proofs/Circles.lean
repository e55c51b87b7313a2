import Mathlib.Data.List.Cycle

/-!
# Lists linked in a circle

A ring that is linked both ways through a table is a list in disguise, of which it does not
matter where it begins.  In `Circled prev next l`, the links `next` lead from each element of
`l` to the one after it, and from the last one to the first; `prev` leads back.

* `Circled.of_isRotated`: the list may begin elsewhere.
* `Circled.remove`: an element is taken out by joining its neighbours.
* `Circled.append`: an element is put between the last one and the first.
-/

namespace BufferCache

variable {α : Type}

/-- A relation holds along a list as well if what it says is needed only of steps to elements
behind the first. -/
theorem isChain_imp_of_mem_tail {r s : α → α → Prop} {a : α} {l : List α}
    (h : (a :: l).IsChain r) (hrs : ∀ x ∈ a :: l, ∀ y ∈ l, r x y → s x y) :
    (a :: l).IsChain s := by
  induction l generalizing a with
  | nil => exact List.isChain_singleton a
  | cons b l ih =>
    rw [List.isChain_cons_cons] at h ⊢
    refine ⟨hrs a List.mem_cons_self b List.mem_cons_self h.1, ih h.2 fun x hx y hy => ?_⟩
    exact hrs x (List.mem_cons_of_mem a hx) y (List.mem_cons_of_mem b hy)

/-- The list `l` is linked both ways, in a circle. -/
def Circled (prev next : α → Option α) (l : List α) : Prop :=
  (l : Cycle α).Chain fun x y => next x = some y ∧ prev y = some x

namespace Circled

variable {prev next prev' next' : α → Option α} {l l' : List α} {a i z : α}

theorem of_isRotated (h : Circled prev next l) (hl : l ~r l') : Circled prev next l' := by
  rw [Circled, ← Cycle.coe_eq_coe.mpr hl]
  exact h

/-- The links go along the list, and from its last element to the first. -/
theorem cons_iff : Circled prev next (a :: l) ↔
    (a :: l).IsChain (fun x y => next x = some y ∧ prev y = some x) ∧
      ∃ z, (a :: l).getLast? = some z ∧ next z = some a ∧ prev a = some z := by
  rw [Circled, Cycle.chain_coe_cons, ← List.cons_append, List.isChain_append]
  simp [List.getLast?_cons]

/-- Every element has one before it and one behind it. -/
theorem exists_links (h : Circled prev next l) (ha : a ∈ l) :
    ∃ y z, prev a = some y ∧ next a = some z := by
  obtain ⟨l₁, l₂, rfl⟩ := List.append_of_mem ha
  have hrotated := h.of_isRotated List.isRotated_append
  rw [List.cons_append] at hrotated
  obtain ⟨hchain, z, hz, hnext, hprev⟩ := cons_iff.mp hrotated
  cases hl : l₂ ++ l₁ with
  | nil =>
    rw [hl] at hz
    obtain rfl : a = z := Option.some.inj hz
    exact ⟨a, a, hprev, hnext⟩
  | cons b l =>
    rw [hl] at hchain
    exact ⟨z, b, hprev, (List.isChain_cons_cons.mp hchain).1.1⟩

/-- The links back undo the links forward. -/
theorem next_iff (h : Circled prev next l) (ha : a ∈ l) (hz : z ∈ l) :
    next a = some z ↔ prev z = some a := by
  constructor
  · intro hnext
    obtain ⟨l₁, l₂, rfl⟩ := List.append_of_mem ha
    have hrotated := h.of_isRotated List.isRotated_append
    rw [List.cons_append] at hrotated
    obtain ⟨hchain, y, hy, hlast, hfirst⟩ := cons_iff.mp hrotated
    cases hl : l₂ ++ l₁ with
    | nil =>
      rw [hl] at hy
      obtain rfl : a = y := Option.some.inj hy
      obtain rfl : a = z := Option.some.inj (hlast.symm.trans hnext)
      exact hfirst
    | cons b l =>
      rw [hl] at hchain
      obtain ⟨hb, hback⟩ := (List.isChain_cons_cons.mp hchain).1
      obtain rfl : b = z := Option.some.inj (hb.symm.trans hnext)
      exact hback
  · intro hprev
    -- Seen from `z`, the element before it is the last.
    obtain ⟨l₁, l₂, rfl⟩ := List.append_of_mem hz
    have hrotated := h.of_isRotated List.isRotated_append
    rw [List.cons_append] at hrotated
    obtain ⟨-, y, -, hlast, hfirst⟩ := cons_iff.mp hrotated
    obtain rfl : y = a := Option.some.inj (hfirst.symm.trans hprev)
    exact hlast

/-- Only the links of the elements matter. -/
theorem congr (h : Circled prev next l) (hp : ∀ x ∈ l, prev' x = prev x)
    (hn : ∀ x ∈ l, next' x = next x) : Circled prev' next' l := by
  cases l with
  | nil => exact Cycle.Chain.nil _
  | cons a l =>
    obtain ⟨hchain, z, hz, hnext, hprev⟩ := cons_iff.mp h
    refine cons_iff.mpr ⟨hchain.imp_of_mem_imp fun x y hx hy hxy => ?_, z, hz, ?_, ?_⟩
    · exact ⟨(hn x hx).trans hxy.1, (hp y hy).trans hxy.2⟩
    · exact (hn z (List.mem_of_mem_getLast? hz)).trans hnext
    · exact (hp a List.mem_cons_self).trans hprev

variable [DecidableEq α]

/-- An element is taken out: the one before it and the one behind it are joined. -/
theorem remove (h : Circled prev next (i :: a :: l)) (hi : i ∉ a :: l) (hz : prev i = some z)
    (hn : ∀ x, next' x = if z = x then some a else next x)
    (hp : ∀ x, prev' x = if a = x then some z else prev x) : Circled prev' next' (a :: l) := by
  obtain ⟨hchain, z', hlast, hback, hz'⟩ := cons_iff.mp h
  obtain rfl : z' = z := Option.some.inj (hz'.symm.trans hz)
  rw [List.isChain_cons_cons] at hchain
  obtain ⟨⟨-, hprev⟩, hchain⟩ := hchain
  rw [List.getLast?_cons_cons] at hlast
  refine cons_iff.mpr ⟨hchain.imp_of_mem_imp fun x y hx hy hxy => ?_, z', hlast, ?_, ?_⟩
  · have hzx : z' ≠ x := by
      rintro rfl
      exact hi (Option.some.inj (hback.symm.trans hxy.1) ▸ hy)
    have hay : a ≠ y := by
      rintro rfl
      exact hi (Option.some.inj (hprev.symm.trans hxy.2) ▸ hx)
    rw [hn, hp, if_neg hzx, if_neg hay]
    exact hxy
  · rw [hn, if_pos rfl]
  · rw [hp, if_pos rfl]

/-- An element is put between the last one and the first. -/
theorem append (h : Circled prev next (a :: l)) (hd : a ∉ l) (hi : i ∉ a :: l)
    (hz : prev a = some z)
    (hn : ∀ x, next' x = if z = x then some i else if i = x then some a else next x)
    (hp : ∀ x, prev' x = if a = x then some i else if i = x then some z else prev x) :
    Circled prev' next' (a :: (l ++ [i])) := by
  obtain ⟨hchain, z', hlast, hback, hz'⟩ := cons_iff.mp h
  obtain rfl : z' = z := Option.some.inj (hz'.symm.trans hz)
  have hnot (x : α) (hx : x ∈ a :: l) : i ≠ x := by
    rintro rfl
    exact hi hx
  have hzmem : z' ∈ a :: l := List.mem_of_mem_getLast? hlast
  have hchain' : (a :: l).IsChain fun x y => next' x = some y ∧ prev' y = some x := by
    refine isChain_imp_of_mem_tail hchain fun x hx y hy hxy => ?_
    have hay : a ≠ y := by
      rintro rfl
      exact hd hy
    have hzx : z' ≠ x := by
      rintro rfl
      exact hay (Option.some.inj (hback.symm.trans hxy.1))
    rw [hn, hp, if_neg hzx, if_neg hay, if_neg (hnot x hx),
      if_neg (hnot y (List.mem_cons_of_mem a hy))]
    exact hxy
  refine cons_iff.mpr ⟨?_, i, ?_, ?_, ?_⟩
  · rw [← List.cons_append, List.isChain_append]
    refine ⟨hchain', List.isChain_singleton i, fun x hx y hy => ?_⟩
    obtain rfl : z' = x := Option.some.inj (hlast.symm.trans hx)
    obtain rfl : i = y := Option.some.inj hy
    rw [hn, hp, if_pos rfl, if_neg (hnot a List.mem_cons_self).symm, if_pos rfl]
    exact ⟨rfl, rfl⟩
  · rw [← List.cons_append, List.getLast?_concat]
  · rw [hn, if_neg (hnot z' hzmem).symm, if_pos rfl]
  · rw [hp, if_pos rfl]

end Circled
end BufferCache
