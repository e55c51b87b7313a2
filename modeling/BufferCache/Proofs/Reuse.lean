import BufferCache.Proofs.Correspondence

/-!
# Buffers that are given other blocks

A buffer that nobody has a reference to may be given another block at any time.  Its
generation goes up by one as this happens, and stays otherwise.  So a call that finds the
generation unchanged after a wait knows that the buffer was not given another block, or so
often that the generation has come round.

`Reuses` is a span of a run in which it is counted how often this happens to a buffer.
-/

namespace BufferCache

variable {g : Geometry}

namespace Machine

variable {m m' n : Machine g} {on : Machine g → Prop} {i : g.Buffer} {k : Nat}

/-- The block in a buffer, if there is one. -/
def content (m : Machine g) (i : g.Buffer) : Option Block :=
  (m.world.cache.header i).content

/-- The generation of a buffer. -/
def generation (m : Machine g) (i : g.Buffer) : UInt32 :=
  (m.world.cache.header i).generation

/-- How many references to a buffer are out. -/
def references (m : Machine g) (i : g.Buffer) : Nat :=
  (m.world.cache.header i).references

/-- A buffer keeps its block and its generation, or is given another block.  Before that it
is unlocked, clean and without references, and it comes to the next generation. -/
theorem Reachable.content_cases (h : m.Reachable) (hm : m.Moves m') (i : g.Buffer) :
    m'.content i = m.content i ∧ m'.generation i = m.generation i ∨
      m'.content i ≠ m.content i ∧ m'.generation i = m.generation i + 1 ∧
        m.references i = 0 ∧ (m.world.cache.header i).locked = false ∧
        (m.world.cache.header i).dirty = false := by
  obtain ⟨e, hfits, happly⟩ := h.exists_effect hm
  unfold content generation
  rw [happly]
  by_cases he : ∃ b s, e = .assign i b s
  · obtain ⟨b, s, rfl⟩ := he
    obtain ⟨hreferences, hdirty, hlocked, habsent, hassign⟩ := hfits
    have hassigned : ((m.world.cache.assign i s).header i).bare =
        ((m.world.cache.header i).assign b).bare := by
      rw [Cache.header_assign, Buffers.bare_reassign hassign, if_pos rfl]
      rfl
    have hcontent : ((m.world.cache.assign i s).header i).content = some b :=
      (congrArg Header.content hassigned :)
    have hnew : (m.world.cache.header i).content ≠ some b :=
      h.chained.locate_eq_none_iff.mp habsent i trivial
    refine .inr ⟨fun hsame => hnew (hsame.symm.trans hcontent),
      (congrArg Header.generation hassigned :), hreferences, hlocked, hdirty⟩
  · exact .inl (Effect.keeps_of_ne hfits fun b s hassign => he ⟨b, s, hassign⟩)

/-! ## Counting -/

/-- From one machine to a later one, through machines for which `on` holds; on the way,
buffer `i` is given another block so many times. -/
inductive Reuses (on : Machine g → Prop) (i : g.Buffer) (m : Machine g) : Nat → Machine g → Prop
  | refl : Reuses on i m 0 m
  | keep {k : Nat} {a b : Machine g} : Reuses on i m k a → on a → a.Moves b →
      b.content i = a.content i → Reuses on i m k b
  | reuse {k : Nat} {a b : Machine g} : Reuses on i m k a → on a → a.Moves b →
      b.content i ≠ a.content i → Reuses on i m (k + 1) b

namespace Reuses

theorem leads (h : Reuses on i m k n) : Leads on m n := by
  induction h with
  | refl => exact .refl
  | keep _ hon hm _ ih => exact ih.tail ⟨hon, hm⟩
  | reuse _ hon hm _ ih => exact ih.tail ⟨hon, hm⟩

/-- A span ends where it began, or has a last move. -/
theorem eq_or_last (h : Reuses on i m k n) : n = m ∨ ∃ a, Leads on m a ∧ on a ∧ a.Moves n ∧
    (n.content i = a.content i → Reuses on i m k a) := by
  cases h with
  | refl => exact .inl rfl
  | keep hspan hon hm _ => exact .inr ⟨_, hspan.leads, hon, hm, fun _ => hspan⟩
  | reuse hspan hon hm hgiven =>
    exact .inr ⟨_, hspan.leads, hon, hm, fun hkept => absurd hkept hgiven⟩

/-- The generation counts along. -/
theorem generation_eq (h : Reuses on i m k n) (hm : m.Reachable) :
    n.generation i = m.generation i + UInt32.ofNat k := by
  induction h with
  | refl => exact (UInt32.add_zero _).symm
  | keep hspan _ hmove hkept ih =>
    rcases (hm.leads hspan.leads).content_cases hmove i with ⟨-, hsame⟩ | ⟨hgiven, -⟩
    · exact hsame.trans ih
    · exact absurd hkept hgiven
  | @reuse k a b hspan _ hmove hgiven ih =>
    rcases (hm.leads hspan.leads).content_cases hmove i with ⟨hkept, -⟩ | ⟨-, hnext, -⟩
    · exact absurd hkept hgiven
    · rw [hnext, ih, UInt32.ofNat_add, UInt32.add_assoc]
      rfl

/-- A generation comes back just after as many blocks as there are generations. -/
theorem generation_eq_iff (h : Reuses on i m k n) (hm : m.Reachable) :
    n.generation i = m.generation i ↔ UInt32.size ∣ k := by
  have hlt := (m.generation i).toNat_lt
  rw [h.generation_eq hm, ← UInt32.toNat_inj, UInt32.toNat_add, UInt32.toNat_ofNat', UInt32.size]
  omega

/-- A buffer that is given another block was without references before. -/
theorem exists_free (h : Reuses on i m k n) (hm : m.Reachable) (hk : k ≠ 0) :
    ∃ a, Leads on m a ∧ on a ∧ a.references i = 0 := by
  induction h with
  | refl => exact absurd rfl hk
  | keep _ _ _ _ ih => exact ih hk
  | @reuse k a b hspan ha hmove hgiven =>
    rcases (hm.leads hspan.leads).content_cases hmove i with ⟨hkept, -⟩ | ⟨-, -, hfree, -⟩
    · exact absurd hkept hgiven
    · exact ⟨a, hspan.leads, ha, hfree⟩

/-- A buffer that is not without references keeps its block. -/
theorem eq_zero (h : Reuses on i m k n) (hm : m.Reachable)
    (hon : ∀ a, on a → a.references i ≠ 0) : k = 0 := by
  by_contra hk
  obtain ⟨a, -, ha, hfree⟩ := h.exists_free hm hk
  exact hon a ha hfree

/-- Every span reuses a buffer some number of times. -/
theorem exists_of_leads (h : Leads on m n) (i : g.Buffer) : ∃ k, Reuses on i m k n := by
  induction h with
  | refl => exact ⟨0, .refl⟩
  | @tail a b _ hmove ih =>
    obtain ⟨k, hk⟩ := ih
    by_cases hkept : b.content i = a.content i
    · exact ⟨k, .keep hk hmove.1 hmove.2 hkept⟩
    · exact ⟨k + 1, .reuse hk hmove.1 hmove.2 hkept⟩

/-- Where a buffer is not given another block, it has the block that it had. -/
theorem content_eq (h : Reuses on i m 0 n) : n.content i = m.content i := by
  generalize hk : 0 = k at h
  induction h with
  | refl => rfl
  | keep _ _ _ hkept ih => exact hkept.trans (ih hk)
  | reuse => cases hk

end Reuses

/-! ## A buffer in use -/

/-- A client has a reference to the only buffer, which is being read by a manual driver. -/
def reading : Machine Geometry.single :=
  ((start ((World.initial Geometry.single).fresh []) (.register 1 ⟨1, .manual []⟩ [])).after
    20).commanded 20 [.acquire ⟨257, 3⟩ (some "h"), .issue .read "h"]

theorem reachable_reading : reading.Reachable :=
  ((reachable_start [] _).after 20).commanded 20 _

end Machine
end BufferCache
