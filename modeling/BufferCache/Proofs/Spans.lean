import BufferCache.Proofs.Runs
import Mathlib.Data.Nat.Find
import Mathlib.Logic.Relation

/-!
# Spans of runs

What is known of a call is often known only once it is over.  Until then other calls
run above it, so the end of a call is best told by the stack: it has come when a value is
about to be handed to the calls that were suspended beneath the call when it began.

`Conduct.Leads` leads from one point of a run to a later one through machines that are
told by a predicate; for the span of a call, that predicate says that the call is not over
yet.  `Machine.Leads` is the same where nothing is on record.

Where a call has come to within its span is told by the suspended call that lies directly
on `base`: a stack stays `Beneath` until it is returned to.
-/

namespace BufferCache

variable {g : Geometry}

/-- The calls of `base` are suspended, and perhaps further ones on top of them. -/
inductive Stack.Beneath {s : Shape} (base : Stack g s) : {a : Shape} → Stack g a → Prop
  | here : Beneath base base
  | push {a b : Shape} (f : Frame g a b) {rest : Stack g b} :
      Beneath base rest → Beneath base (.push f rest)

theorem Stack.Beneath.sizeOf_le {s a : Shape} {base : Stack g s} {stack : Stack g a}
    (h : base.Beneath stack) : sizeOf base ≤ sizeOf stack := by
  induction h with
  | here => exact Nat.le_refl _
  | push f _ ih =>
    rw [Stack.push.sizeOf_spec]
    omega

theorem Stack.Beneath.of_push {s a b : Shape} {f : Frame g a s} {base : Stack g s}
    {stack : Stack g b} (h : (Stack.push f base).Beneath stack) : base.Beneath stack := by
  induction h with
  | here => exact .push f .here
  | push f' _ ih => exact .push f' ih

theorem Stack.not_push_beneath {s a : Shape} (f : Frame g a s) (base : Stack g s) :
    ¬ (Stack.push f base).Beneath base := by
  intro h
  have hle := h.sizeOf_le
  rw [Stack.push.sizeOf_spec] at hle
  omega

namespace Machine

/-- A value is about to be handed to `base`: the call that ran above it is over. -/
def Returned {s : Shape} (base : Stack g s) (m : Machine g) : Prop :=
  ∃ w v, m = ⟨w, s, .give v, base⟩

/-- A call that is about to run returns nothing yet. -/
theorem not_returned_run {a s : Shape} {base : Stack g s} {w : World g} {c : Call g a}
    {stack : Stack g a} : ¬ Returned base ⟨w, a, .run c, stack⟩ := by
  rintro ⟨w', v, heq⟩
  cases heq

/-- From one machine to a later one, through machines for which `on` holds. -/
def Leads (on : Machine g → Prop) : Machine g → Machine g → Prop :=
  Relation.ReflTransGen fun a b => on a ∧ a.Moves b

theorem Leads.mono {on on' : Machine g → Prop} {m n : Machine g} (h : Leads on m n)
    (hon : ∀ a, on a → on' a) : Leads on' m n :=
  Relation.ReflTransGen.mono (fun a _ ha => ⟨hon a ha.1, ha.2⟩) m n h

/-- What can be reached goes on to what can be reached. -/
theorem Reachable.leads {on : Machine g → Prop} {m m' : Machine g} (h : m.Reachable)
    (hspan : Leads on m m') : m'.Reachable := by
  induction hspan with
  | refl => exact h
  | tail _ hmove ih => exact ih.moves hmove.2

/-- What comes next leaves the stack as it is, or adds to it. -/
theorem beneath_next {s a : Shape} {base : Stack g s} {stack : Stack g a}
    (h : base.Beneath stack) (w : World g) (n : Next g a) :
    base.Beneath (n.machine w stack).stack := by
  cases n with
  | done v => exact h
  | goto c => exact h
  | call c f => exact .push f h

/-- A stack stays beneath until it is returned to. -/
theorem beneath_moves {s : Shape} {base : Stack g s} {m m' : Machine g}
    (h : base.Beneath m.stack) (hm : m.Moves m') (hover : ¬ m.Returned base) :
    base.Beneath m'.stack := by
  cases hm with
  | next waiting c =>
    cases h
    exact absurd ⟨_, _, rfl⟩ hover
  | step hs =>
    cases hs with
    | begin stack hn => exact beneath_next h _ _
    | resume stack hn =>
      cases h with
      | here => exact absurd ⟨_, _, rfl⟩ hover
      | push f hrest => exact beneath_next hrest _ _

/-- The first move of a call. -/
theorem moves_of_run {s : Shape} {w : World g} {c : Call g s} {stack : Stack g s}
    {m' : Machine g} (hm : Moves ⟨w, s, .run c, stack⟩ m') :
    ∃ w' n, c.begin w = .ok (w', n) ∧ m' = n.machine w' stack := by
  cases hm with
  | step hs =>
    cases hs with
    | begin stack hn => exact ⟨_, _, hn, rfl⟩

/-- The move on which a suspended call is given its value. -/
theorem moves_of_give {a s : Shape} {f : Frame g a s} {w : World g} {v : a.Value g}
    {stack : Stack g s} {m' : Machine g} (hm : Moves ⟨w, a, .give v, .push f stack⟩ m') :
    ∃ w' n, f.resume v w = .ok (w', n) ∧ m' = n.machine w' stack := by
  cases hm with
  | step hs =>
    cases hs with
    | resume stack hn => exact ⟨_, _, hn, rfl⟩

/-- The move of a suspended call that is given its value. -/
theorem moves_of_returned {a s : Shape} {f : Frame g a s} {stack : Stack g s}
    {m m' : Machine g} (h : m.Returned (.push f stack)) (hm : m.Moves m') :
    ∃ w v w' n, m = ⟨w, a, .give v, .push f stack⟩ ∧ f.resume v w = .ok (w', n) ∧
      m' = n.machine w' stack := by
  obtain ⟨w, v, rfl⟩ := h
  obtain ⟨w', n, hn, rfl⟩ := moves_of_give hm
  exact ⟨w, v, w', n, rfl, hn, rfl⟩

/-- A move above a suspended call gives it its value, or leaves it where it is. -/
theorem resumes_or_beneath {a s : Shape} {f : Frame g a s} {stack : Stack g s}
    {m m' : Machine g} (h : (Stack.push f stack).Beneath m.stack) (hm : m.Moves m') :
    (∃ w v w' n, m = ⟨w, a, .give v, .push f stack⟩ ∧ f.resume v w = .ok (w', n) ∧
      m' = n.machine w' stack) ∨ (Stack.push f stack).Beneath m'.stack := by
  by_cases hreturned : m.Returned (.push f stack)
  · exact .inl (moves_of_returned hreturned hm)
  · exact .inr (beneath_moves h hm hreturned)

/-- A span that begins above a suspended call ends above it, or comes to where that call is given
its value and goes on from there. -/
theorem Leads.resumes_or_beneath {on : Machine g → Prop} {a s : Shape} {f : Frame g a s}
    {base : Stack g s} {m n : Machine g} (h : Leads on m n)
    (hm : (Stack.push f base).Beneath m.stack) :
    Leads (fun x => on x ∧ ¬ x.Returned (.push f base)) m n ∧ (Stack.push f base).Beneath n.stack ∨
      ∃ w v w' next,
        Leads (fun x => on x ∧ ¬ x.Returned (.push f base)) m ⟨w, a, .give v, .push f base⟩ ∧
          on ⟨w, a, .give v, .push f base⟩ ∧ f.resume v w = .ok (w', next) ∧
            Leads on (next.machine w' base) n := by
  induction h with
  | refl => exact .inl ⟨.refl, hm⟩
  | @tail b c _ hmove ih =>
    rcases ih with ⟨hspan, hb⟩ | ⟨w, v, w', next, hspan, hon, hnext, hrest⟩
    · by_cases hreturned : b.Returned (.push f base)
      · obtain ⟨w, v, w', next, rfl, hnext, rfl⟩ := moves_of_returned hreturned hmove.2
        exact .inr ⟨w, v, w', next, hspan, hmove.1, hnext, .refl⟩
      · exact .inl ⟨hspan.tail ⟨⟨hmove.1, hreturned⟩, hmove.2⟩, beneath_moves hb hmove.2 hreturned⟩
    · exact .inr ⟨w, v, w', next, hspan, hon, hnext, hrest.tail hmove⟩

/-- While a call goes on above `base`, only one move is possible. -/
theorem Moves.unique {s : Shape} {base : Stack g s} {m a b : Machine g}
    (hm : base.Beneath m.stack) (hover : ¬ m.Returned base) (ha : m.Moves a) (hb : m.Moves b) :
    a = b := by
  have halone {a : Machine g} (hmove : m.Moves a) : m.Steps a := by
    cases hmove with
    | step hs => exact hs
    | next waiting command =>
      cases hm
      exact absurd ⟨_, _, rfl⟩ hover
  exact Progress.running.inj
    ((step_of_steps (halone ha)).symm.trans (step_of_steps (halone hb)))

/-- Of two places to which a call has come, one comes after the other. -/
theorem Leads.comparable {on : Machine g → Prop} {s : Shape} {base : Stack g s}
    {m x y : Machine g} (hx : Leads on m x) (hy : Leads on m y) (hm : base.Beneath m.stack)
    (hon : ∀ a, on a → ¬ a.Returned base) : Leads on x y ∨ Leads on y x := by
  induction hx using Relation.ReflTransGen.head_induction_on with
  | refl => exact .inl hy
  | head hstep hrest ih =>
    rcases hy.cases_head with rfl | ⟨c, hstep', hrest'⟩
    · exact .inr (.head hstep hrest)
    · obtain rfl := Moves.unique hm (hon _ hstep.1) hstep.2 hstep'.2
      exact ih hrest' (beneath_moves hm hstep.2 (hon _ hstep.1))

/-- The machine hands over a value of this shape. -/
def gives (s : Shape) : Machine g → Bool
  | ⟨_, a, .give _, _⟩ => a == s
  | _ => false

theorem gives_of_returned {s : Shape} {base : Stack g s} {m : Machine g}
    (h : m.Returned base) : m.gives s = true := by
  obtain ⟨w, v, rfl⟩ := h
  exact beq_self_eq_true s

/-- So many steps, before each of which `on` holds. -/
theorem leads_after_of {on : Machine g → Prop} {n : Nat} {m : Machine g}
    (hon : ∀ k < n, on (m.after k)) : Leads on m (m.after n) := by
  induction n generalizing m with
  | zero => exact .refl
  | succ n ih =>
    cases hstep : m.step with
    | running m₁ =>
      have hpermits : (Conduct.free g).permits () m := trivial
      have hafter (k : Nat) : m.after (k + 1) = m₁.after k := by
        rw [after, Conduct.after, hstep]
        exact congrArg Prod.snd (if_pos hpermits)
      rw [hafter]
      exact .head ⟨hon 0 (Nat.succ_pos n), .step (steps_of_step hstep)⟩
        (ih fun k hk => hafter k ▸ hon (k + 1) (Nat.succ_lt_succ hk))
    | _ =>
      rw [after, Conduct.after, hstep]
      exact .refl

/-- Whether `p` says yes to a machine and to all that come of it in fewer than `n` steps. -/
def checks (p : Machine g → Bool) : Nat → Machine g → Bool
  | 0, _ => true
  | n + 1, m =>
      p m && match m.step with
        | .running m' => checks p n m'
        | _ => true

theorem checks_after {p : Machine g → Bool} {n k : Nat} {m : Machine g}
    (h : m.checks p n = true) (hk : k < n) : p (m.after k) = true := by
  induction n generalizing m k with
  | zero => exact absurd hk (Nat.not_lt_zero k)
  | succ n ih =>
    obtain ⟨hm, hrest⟩ := (Bool.and_eq_true _ _).mp h
    cases k with
    | zero => exact hm
    | succ k =>
      rw [after, Conduct.after]
      cases hstep : m.step with
      | running m₁ =>
        rw [hstep] at hrest
        exact ih hrest (Nat.lt_of_succ_lt_succ hk)
      | _ => exact hm

/-- So many steps from machines that were all checked. -/
theorem leads_of_checks {p : Machine g → Bool} {on : Machine g → Prop}
    (hp : ∀ m, p m = true → on m) {n : Nat} {m : Machine g} (h : m.checks p n = true) :
    Leads on m (m.after n) :=
  leads_after_of fun _ hk => hp _ (checks_after h hk)

/-- A call that has returned some steps later was led to where it returned first, through machines
that were looked at on the way. -/
theorem exists_leads_of_after_of {s : Shape} {base : Stack g s} {P : Machine g → Prop} {n : Nat}
    {m : Machine g} (hP : ∀ k < n, P (m.after k)) (h : (m.after n).Returned base) :
    ∃ m', Leads (fun a => ¬ a.Returned base ∧ P a) m m' ∧ m'.Returned base := by
  classical
  have hreturns : ∃ k, (m.after k).Returned base := ⟨n, h⟩
  refine ⟨_, leads_after_of fun k hk => ⟨Nat.find_min hreturns hk, hP k ?_⟩,
    Nat.find_spec hreturns⟩
  exact Nat.lt_of_lt_of_le hk (Nat.find_min' hreturns h)

theorem exists_leads_of_after {s : Shape} {base : Stack g s} {n : Nat} {m : Machine g}
    (h : (m.after n).Returned base) :
    ∃ m', Leads (¬ Returned base ·) m m' ∧ m'.Returned base := by
  obtain ⟨m', hspan, hm'⟩ := exists_leads_of_after_of (P := fun _ => True) (fun _ _ => trivial) h
  exact ⟨m', hspan.mono fun _ ha => ha.1, hm'⟩

end Machine

namespace Conduct

variable {γ : Type} {k : Conduct g γ}

/-- From one point of a run, with what is on record there, to a later one: every move is
permitted, and is made from a machine for which `on` holds. -/
def Leads (k : Conduct g γ) (on : Machine g → Prop) : γ × Machine g → γ × Machine g → Prop :=
  Relation.ReflTransGen fun a b =>
    on a.2 ∧ k.permits a.1 a.2 ∧ a.2.Moves b.2 ∧ b.1 = k.record a.1 a.2

/-- A run goes on to a run. -/
theorem Run.leads {start : World g → γ → Prop} {on : Machine g → Prop} {a b : γ × Machine g}
    (h : k.Run start a.1 a.2) (hspan : k.Leads on a b) : k.Run start b.1 b.2 := by
  induction hspan with
  | refl => exact h
  | @tail b c _ hmove ih =>
    obtain ⟨-, hp, hm, hr⟩ := hmove
    obtain ⟨r, m⟩ := b
    obtain ⟨r', m'⟩ := c
    dsimp only at hp hm hr ih ⊢
    subst hr
    cases hm with
    | step hs => exact .step ih hp (Machine.step_of_steps hs)
    | next waiting c => exact .next waiting c ih hp rfl

end Conduct
end BufferCache
