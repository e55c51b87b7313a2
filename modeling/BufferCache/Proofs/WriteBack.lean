import BufferCache.Proofs.Correspondence

/-!
# What becomes of a change

A buffer is dirty at one point of a run.  Along the run from there its change goes through
three stages, and never back.  First it is *pending*: the buffer has been dirty all along.
Then it is *in flight*: a request was queued for the buffer, has not ended, and keeps the
buffer locked.  At last it is *settled*: that request has ended.  A change also settles if the
device is emptied while it is pending.

As long as a change is not settled its buffer keeps the block.  So whoever finds the buffer
unlocked and clean, or with another block, knows that the change is settled; this is
`Reaches.settled`.
-/

namespace BufferCache

variable {g : Geometry}

namespace Effect

/-- A buffer that is dirty keeps its block. -/
theorem keeps_of_dirty {e : Effect g} {c : Cache g} {x : g.Buffer} (hfits : e.Fits c)
    (hx : (c.header x).dirty = true) :
    ((e.apply c).header x).content = (c.header x).content ∧
      ((e.apply c).header x).generation = (c.header x).generation := by
  refine keeps_of_ne hfits ?_
  rintro b s rfl
  exact Bool.false_ne_true (hfits.2.1.symm.trans hx)

end Effect

namespace Machine

/-! ## The three stages -/

section Stages

variable (on : Machine g → Prop) (m : Machine g) (x : g.Buffer)

/-- On the way from `m`, buffer `x` is dirty and still for what it was for. -/
def Pending (a : Machine g) : Prop :=
  Leads on m a ∧ a.dirty x = true ∧ a.identity x = m.identity x

/-- On the way from `m`, a request for buffer `x` was queued in slot `k`, by which its change
was no longer pending, and the request has not ended. -/
def InFlight (k : g.Slot) (a : Machine g) : Prop :=
  ∃ b c t, Pending on m x b ∧ on b ∧ b.Moves c ∧ c.dirty x = false ∧
    b.order? k = none ∧ c.order? k = some (t, x) ∧
      Leads (fun n => on n ∧ n.order? k ≠ none) c a ∧ a.order? k ≠ none

/-- On the way from `m`, the change in buffer `x` was in flight and the request ended, or the
device was emptied while the change was pending. -/
def Settled (a : Machine g) : Prop :=
  ∃ b c, on b ∧ b.Moves c ∧ Leads on c a ∧
    ((∃ k, InFlight on m x k b ∧ c.order? k = none) ∨
      Pending on m x b ∧ b.Empties x ∧ c.dirty x = false)

/-- The change is at least as far as this, where two stages are to come, one, or none. -/
def Reaches : Nat → Machine g → Prop
  | 0, a => Settled on m x a
  | 1, a => (∃ k, InFlight on m x k a) ∨ Settled on m x a
  | _ + 2, a => Pending on m x a ∨ (∃ k, InFlight on m x k a) ∨ Settled on m x a

end Stages

variable {on : Machine g → Prop} {m a b : Machine g} {x : g.Buffer} {k : g.Slot}

/-! ## What is known of a stage -/

theorem InFlight.leads (h : InFlight on m x k a) : Leads on m a := by
  obtain ⟨b, c, t, ⟨hpath, -⟩, hon, hm, -, -, -, hspan, -⟩ := h
  exact (hpath.tail ⟨hon, hm⟩).trans (hspan.mono fun n hn => hn.1)

/-- A change in flight is on its way from where the buffer still has its block, by the
request that is in the slot. -/
theorem InFlight.order? (h : InFlight on m x k a) (hm : m.Reachable) :
    (∃ t, a.order? k = some (t, x)) ∧ a.identity x = m.identity x := by
  obtain ⟨b, c, t, ⟨hpath, -, hidentity⟩, -, hmove, -, hnone, hsome, hspan, htaken⟩ := h
  have hb := hm.leads hpath
  obtain ⟨hstill, hkept⟩ := (hb.moves hmove).identity_of_leads hsome
    (hspan.mono fun n hn => hn.2) htaken
  exact ⟨⟨t, hstill⟩, hkept.trans ((hb.identity_of_queued hmove hnone hsome).trans hidentity)⟩

theorem InFlight.locked (h : InFlight on m x k a) (hm : m.Reachable) :
    (a.world.cache.header x).locked = true := by
  obtain ⟨t, ht⟩ := (h.order? hm).1
  exact (hm.leads h.leads).locked_of_order? ht

theorem Reaches.succ {r : Nat} (h : Reaches on m x r a) : Reaches on m x (r + 1) a := by
  match r, h with
  | 0, h => exact .inr h
  | 1, h => exact .inr h
  | _ + 2, h => exact h

theorem Reaches.mono {r r' : Nat} (h : Reaches on m x r a) (hr : r ≤ r') :
    Reaches on m x r' a := by
  induction hr with
  | refl => exact h
  | step _ ih => exact ih.succ

theorem Reaches.of_settled (h : Settled on m x a) (r : Nat) : Reaches on m x r a :=
  Reaches.mono (r := 0) h (Nat.zero_le r)

theorem Reaches.cases {r : Nat} (h : Reaches on m x r a) :
    Pending on m x a ∨ (∃ k, InFlight on m x k a) ∨ Settled on m x a := by
  match r, h with
  | 0, h => exact .inr (.inr h)
  | 1, h => exact .inr h
  | _ + 2, h => exact h

/-- A change is settled if its buffer is unlocked and clean, or has another block. -/
theorem Reaches.settled {r : Nat} (h : Reaches on m x r a) (hm : m.Reachable)
    (hx : (a.world.cache.header x).locked = false ∧ a.dirty x = false ∨
      a.identity x ≠ m.identity x) : Settled on m x a := by
  rcases h.cases with ⟨-, hdirty, hidentity⟩ | ⟨k, hflight⟩ | hsettled
  · rcases hx with ⟨-, hclean⟩ | hother
    · cases hclean.symm.trans hdirty
    · exact absurd hidentity hother
  · rcases hx with ⟨hunlocked, -⟩ | hother
    · cases hunlocked.symm.trans (hflight.locked hm)
    · exact absurd (hflight.order? hm).2 hother
  · exact hsettled

/-- A change is in flight or settled if its buffer is clean. -/
theorem Reaches.of_clean {r : Nat} (h : Reaches on m x r a) (hx : a.dirty x = false) :
    Reaches on m x 1 a := by
  rcases h.cases with ⟨-, hdirty, -⟩ | hrest
  · cases hx.symm.trans hdirty
  · exact hrest

/-- A change that is not pending is settled if its buffer is unlocked. -/
theorem Reaches.of_unlocked (h : Reaches on m x 1 a) (hm : m.Reachable)
    (hx : (a.world.cache.header x).locked = false) : Settled on m x a := by
  rcases h with ⟨k, hflight⟩ | hsettled
  · cases hx.symm.trans (hflight.locked hm)
  · exact hsettled

/-! ## From stage to stage -/

theorem Settled.moves (h : Settled on m x a) (hon : on a) (hmove : a.Moves b) :
    Settled on m x b := by
  obtain ⟨c, d, hc, hcd, hspan, hend⟩ := h
  exact ⟨c, d, hc, hcd, hspan.tail ⟨hon, hmove⟩, hend⟩

theorem InFlight.moves (h : InFlight on m x k a) (hon : on a) (hmove : a.Moves b) :
    InFlight on m x k b ∨ Settled on m x b := by
  by_cases hended : b.order? k = none
  · exact .inr ⟨a, b, hon, hmove, .refl, .inl ⟨k, h, hended⟩⟩
  · obtain ⟨c, d, t, hpending, hc, hcd, hclean, hnone, hsome, hspan, htaken⟩ := h
    exact .inl ⟨c, d, t, hpending, hc, hcd, hclean, hnone, hsome,
      hspan.tail ⟨⟨hon, htaken⟩, hmove⟩, hended⟩

theorem Reachable.identity_of_dirty (h : a.Reachable) (hx : a.dirty x = true)
    (hmove : a.Moves b) : b.identity x = a.identity x := by
  obtain ⟨e, hfits, happly⟩ := h.exists_effect hmove
  exact identity_of_keeps happly (Effect.keeps_of_dirty hfits hx)

theorem Pending.moves (h : Pending on m x a) (hm : m.Reachable) (hon : on a)
    (hmove : a.Moves b) :
    Pending on m x b ∨ (∃ k, InFlight on m x k b) ∨ Settled on m x b := by
  have ha := hm.leads h.1
  have hidentity := ha.identity_of_dirty h.2.1 hmove
  rcases ha.move_cases hmove h.2.1 with ⟨hstill, -⟩ | ⟨hclean, -, d, hd⟩ |
    ⟨hclean, hempties, -⟩
  · exact .inl ⟨h.1.tail ⟨hon, hmove⟩, hstill, hidentity.trans h.2.2⟩
  · obtain ⟨k, t, hnone, hsome, -⟩ := Cache.queues_iff.mp ((hd d).mpr rfl)
    refine .inr (.inl ⟨k, a, b, t, h, hon, hmove, hclean, hnone, hsome, .refl, ?_⟩)
    rw [Machine.order?, hsome]
    exact Option.some_ne_none _
  · exact .inr (.inr ⟨a, b, hon, hmove, .refl, .inr ⟨h, hempties, hclean⟩⟩)

/-- No move takes a change back. -/
theorem Reaches.moves {r : Nat} (h : Reaches on m x r a) (hm : m.Reachable) (hon : on a)
    (hmove : a.Moves b) : Reaches on m x r b := by
  have hsettled (hs : Settled on m x a) : Settled on m x b := hs.moves hon hmove
  have hflight (hf : ∃ k, InFlight on m x k a) :
      (∃ k, InFlight on m x k b) ∨ Settled on m x b := by
    obtain ⟨k, hk⟩ := hf
    exact (hk.moves hon hmove).imp_left fun hb => ⟨k, hb⟩
  match r, h with
  | 0, h => exact hsettled h
  | 1, h => exact h.elim hflight fun hs => .inr (hsettled hs)
  | _ + 2, h =>
    rcases h with hpending | hf | hs
    · exact hpending.moves hm hon hmove
    · exact .inr (hflight hf)
    · exact .inr (.inr (hsettled hs))

end Machine
end BufferCache
