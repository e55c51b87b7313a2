import BufferCache.Proofs.Progress

/-!
# What calls evaluate to

As long as no call gives way, what a call comes to depends on the world in which it begins and on
nothing else: not on the calls that are suspended beneath it, and not on how the scripts of other
tasks go on.  `Outcome.Gives` is this evaluation, in big steps: a call that is made is evaluated
as a whole before the caller goes on with its value.  A call that gives way, and a fault, have no
value.

Evaluation is deterministic, `Outcome.Gives.unique`, and where a machine comes from the beginning
of a call to its value without giving way, the call evaluates to that value,
`Machine.gives_of_leads`.  So two runs that begin with the same call in the same world can be
compared: they agree up to where they part.

`Outcome.Ends` is the logic of partial correctness that goes with it.  It differs from that of
calls which are left alone in that scripts may be taken up; a total specification there holds
here.
-/

namespace BufferCache

variable {g : Geometry}

/-! ## Evaluation -/

/-- The call gives way in its first step. -/
def Call.Waits (w : World g) : {s : Shape} → Call g s → Prop
  | _, .sleep q ticket => (w.cache.queue q).holds ticket = true
  | _, _ => False

/-- What a step leads to comes to a value in some world, and no call gives way before. -/
inductive Outcome.Gives : {s : Shape} → Outcome g s → World g → s.Value g → Prop
  | done {s : Shape} {w : World g} {v : s.Value g} : Gives (w.done v) w v
  | goto {s : Shape} {w w' : World g} {c : Call g s} {v : s.Value g} :
      ¬ c.Waits w → Gives (c.begin w) w' v → Gives (w.goto c) w' v
  | call {a s : Shape} {w w₁ w' : World g} {c : Call g a} {f : Frame g a s} {x : a.Value g}
      {v : s.Value g} :
      ¬ c.Waits w → Gives (c.begin w) w₁ x → Gives (f.resume x w₁) w' v → Gives (w.call c f) w' v

/-- The call comes to a value in some world, and no call gives way before. -/
def Call.Gives {s : Shape} (c : Call g s) (w w' : World g) (v : s.Value g) : Prop :=
  ¬ c.Waits w ∧ (c.begin w).Gives w' v

namespace Outcome

variable {s : Shape} {o : Outcome g s} {w w' : World g} {v v' : s.Value g}

theorem Gives.unique (h : o.Gives w v) (h' : o.Gives w' v') : w' = w ∧ v' = v := by
  induction h generalizing w' with
  | done =>
    cases h'
    exact ⟨rfl, rfl⟩
  | goto _ _ ih =>
    cases h' with
    | goto _ h' => exact ih h'
  | call _ _ _ ih ihf =>
    cases h' with
    | call _ hc hf =>
      obtain ⟨rfl, rfl⟩ := ih hc
      exact ihf hf

end Outcome

theorem Call.Gives.unique {s : Shape} {c : Call g s} {w w₁ w₂ : World g} {v₁ v₂ : s.Value g}
    (h : c.Gives w w₁ v₁) (h' : c.Gives w w₂ v₂) : w₂ = w₁ ∧ v₂ = v₁ :=
  Outcome.Gives.unique h.2 h'.2

/-- A call that makes another one evaluates that one first. -/
theorem Outcome.Gives.of_call {a s : Shape} {w w' : World g} {c : Call g a} {f : Frame g a s}
    {v : s.Value g} (h : Outcome.Gives (w.call c f) w' v) :
    ∃ w₁ x, c.Gives w w₁ x ∧ (f.resume x w₁).Gives w' v := by
  cases h with
  | call hc hcall hf => exact ⟨_, _, ⟨hc, hcall⟩, hf⟩

theorem Outcome.Gives.of_goto {s : Shape} {w w' : World g} {c : Call g s} {v : s.Value g}
    (h : Outcome.Gives (w.goto c) w' v) : c.Gives w w' v := by
  cases h with
  | goto hc h => exact ⟨hc, h⟩

/-! ## Evaluation and the machine -/

/-- The suspended calls down to `base`, each given its value, come to a value for `base`. -/
inductive Stack.Gives {s : Shape} (base : Stack g s) (w' : World g) (v' : s.Value g) :
    {a : Shape} → Stack g a → World g → a.Value g → Prop
  | here : Gives base w' v' base w' v'
  | push {a b : Shape} {f : Frame g a b} {rest : Stack g b} {w w₁ : World g} {x : a.Value g}
      {y : b.Value g} :
      (f.resume x w).Gives w₁ y → Gives base w' v' rest w₁ y → Gives base w' v' (.push f rest) w x

theorem Stack.Gives.beneath {a s : Shape} {base : Stack g s} {stack : Stack g a}
    {w w' : World g} {x : a.Value g} {v' : s.Value g} (h : base.Gives w' v' stack w x) :
    base.Beneath stack := by
  induction h with
  | here => exact .here
  | push _ _ ih => exact .push _ ih

namespace Machine

variable {s : Shape} {base : Stack g s} {w' : World g} {v' : s.Value g}

theorem givesWay_run {a : Shape} {c : Call g a} {w : World g} {stack : Stack g a} :
    GivesWay ⟨w, a, .run c, stack⟩ ↔ c.Waits w := by
  cases c <;> exact Iff.rfl

/-- The call that the machine runs, and those that are suspended above `base`, come to a value for
`base`. -/
def Gives (base : Stack g s) (w' : World g) (v' : s.Value g) : Machine g → Prop
  | ⟨w, _, .run c, stack⟩ => ∃ w₁ x, c.Gives w w₁ x ∧ base.Gives w' v' stack w₁ x
  | ⟨w, _, .give x, stack⟩ => base.Gives w' v' stack w x

/-- What a step leads to has a value if the machine has one that goes on with it. -/
theorem Gives.of_next {a : Shape} {rest : Stack g a} {w : World g} {n : Next g a}
    (h : (n.machine w rest).Gives base w' v') (hrest : base.Beneath rest) :
    ∃ w₁ x, Outcome.Gives (.ok (w, n)) w₁ x ∧ base.Gives w' v' rest w₁ x := by
  cases n with
  | done x => exact ⟨w, x, .done, h⟩
  | goto c =>
    obtain ⟨w₁, x, hc, hstack⟩ := h
    exact ⟨w₁, x, .goto hc.1 hc.2, hstack⟩
  | call c f =>
    obtain ⟨w₁, x, hc, hstack⟩ := h
    cases hstack with
    | here => exact absurd hrest (Stack.not_push_beneath f rest)
    | push hf hstack => exact ⟨_, _, .call hc.1 hc.2 hf, hstack⟩

/-- A machine that comes to a value for `base` without giving way evaluates to it. -/
theorem gives_of_leads {m : Machine g} (hm : base.Beneath m.stack)
    (h : Leads (fun x => ¬ x.Returned base ∧ ¬ x.GivesWay) m ⟨w', s, .give v', base⟩) :
    m.Gives base w' v' := by
  induction h using Relation.ReflTransGen.head_induction_on with
  | refl => exact .here
  | head hstep _ ih =>
    obtain ⟨⟨hover, hway⟩, hmove⟩ := hstep
    replace ih := ih (beneath_moves hm hmove hover)
    cases hmove with
    | next waiting c =>
      cases hm
      exact absurd ⟨_, _, rfl⟩ hover
    | step hs =>
      cases hs with
      | begin stack hn =>
        obtain ⟨w₁, x, hgives, hstack⟩ := ih.of_next hm
        exact ⟨w₁, x, ⟨mt givesWay_run.mpr hway, hn ▸ hgives⟩, hstack⟩
      | resume stack hn =>
        cases hm with
        | here => exact absurd ⟨_, _, rfl⟩ hover
        | push f hrest =>
          obtain ⟨w₁, x, hgives, hstack⟩ := ih.of_next hrest
          exact .push (hn ▸ hgives) hstack

/-- A call that comes to its value without giving way evaluates to it. -/
theorem gives_of_run {w : World g} {c : Call g s}
    (h : Leads (fun x => ¬ x.Returned base ∧ ¬ x.GivesWay) ⟨w, s, .run c, base⟩
      ⟨w', s, .give v', base⟩) : c.Gives w w' v' := by
  have hgives : Gives base w' v' ⟨w, s, .run c, base⟩ := gives_of_leads .here h
  obtain ⟨w₁, x, hc, hstack⟩ := hgives
  cases hstack with
  | here => exact hc
  | push _ hrest => exact absurd hrest.beneath (Stack.not_push_beneath _ _)

end Machine

/-! ## Partial correctness -/

/-- Whatever the step comes to satisfies `Q`. -/
def Outcome.Ends {s : Shape} (Q : World g → s.Value g → Prop) (o : Outcome g s) : Prop :=
  ∀ w v, o.Gives w v → Q w v

/-- Whatever the call comes to satisfies `Q`. -/
def Call.Ends {s : Shape} (Q : World g → s.Value g → Prop) (c : Call g s) (w : World g) : Prop :=
  ∀ w' v, c.Gives w w' v → Q w' v

section Rules

variable {a s : Shape} {Q Q' : World g → s.Value g → Prop} {w : World g}

namespace Outcome

theorem ends_done {v : s.Value g} (h : Q w v) : Outcome.Ends Q (w.done v) := by
  intro w' v' hgives
  cases hgives
  exact h

theorem ends_goto {c : Call g s} (h : c.Ends Q w) : Outcome.Ends Q (w.goto c) :=
  fun w' v hgives => h w' v hgives.of_goto

theorem ends_call {R : World g → a.Value g → Prop} {c : Call g a} {f : Frame g a s}
    (h : c.Ends R w) (hf : ∀ w' v, R w' v → (f.resume v w').Ends Q) :
    Outcome.Ends Q (w.call c f) := by
  intro w' v hgives
  obtain ⟨w₁, x, hc, hresume⟩ := hgives.of_call
  exact hf w₁ x (h w₁ x hc) w' v hresume

theorem ends_error {e : Halt} : Outcome.Ends Q (.error e) := by
  intro w' v hgives
  cases hgives

theorem ends_orFault {α : Type} {x : Except Fault α} {k : α → Outcome g s}
    (h : ∀ a, x = .ok a → (k a).Ends Q) : (World.orFault x k).Ends Q := by
  cases x with
  | ok a => exact h a rfl
  | error f => exact ends_error

/-- A call that waits with a new ticket gives way. -/
theorem ends_sleepIn {q : Queue g} {f : Frame g .unit s} : (w.sleepIn q f).Ends Q := by
  intro w' v hgives
  obtain ⟨_, _, hsleep, -⟩ := hgives.of_call
  exact absurd (w.cache.queue q).holds_ticket hsleep.1

theorem Ends.post {o : Outcome g s} (h : o.Ends Q) (hQ : ∀ w v, Q w v → Q' w v) : o.Ends Q' :=
  fun w v hgives => hQ w v (h w v hgives)

end Outcome

theorem Call.Ends.post {c : Call g s} (h : c.Ends Q w) (hQ : ∀ w v, Q w v → Q' w v) :
    c.Ends Q' w :=
  fun w' v hgives => hQ w' v (h w' v hgives)

theorem Call.ends_of_begin {c : Call g s} (h : (c.begin w).Ends Q) : c.Ends Q w :=
  fun w' v hgives => h w' v hgives.2

/-- A call that completes without a stop takes up no script in its first step. -/
theorem Outcome.Completes.alone_eq_begin {P : Next g s → Prop} {c : Call g s}
    (h : (c.alone w).Completes True P Q) : c.alone w = c.begin w := by
  unfold Call.alone at h ⊢
  split at h
  · exact absurd trivial h.of_error
  · rename_i henters
    exact if_neg henters

/-- What completes without a stop has no other value than the one it completes with. -/
theorem Outcome.Completes.ends {P : Next g s → Prop} {o : Outcome g s}
    (h : o.Completes True P Q) : o.Ends Q := by
  induction h with
  | error hstop => exact absurd trivial hstop
  | done _ hv => exact ends_done hv
  | goto _ hc ih => exact ends_goto (Call.ends_of_begin (hc.alone_eq_begin ▸ ih))
  | call _ hc _ ih ihf => exact ends_call (Call.ends_of_begin (hc.alone_eq_begin ▸ ih)) ihf

theorem Call.Completes.ends {c : Call g s} (h : c.Completes True Q w) : c.Ends Q w :=
  ends_of_begin (Outcome.Completes.alone_eq_begin h ▸ Outcome.Completes.ends h)

end Rules

/-! ## Waiting -/

section Waiting

variable {w : World g} {i : g.Buffer}

theorem Call.ends_awaitUnlock : (Call.awaitUnlock i).Ends
    (fun w' _ => w' = w ∧ (w.cache.header i).locked = false) w := by
  refine ends_of_begin ?_
  change (w.awaitUnlock i).Ends _
  rw [World.awaitUnlock]
  split
  · exact Outcome.ends_sleepIn
  · rename_i hlocked
    exact Outcome.ends_done ⟨rfl, Bool.eq_false_iff.mpr hlocked⟩

theorem Call.ends_lock : (Call.lock i).Ends
    (fun w' _ => w' = w.mapCache (·.lock i) ∧ (w.cache.header i).locked = false) w := by
  refine ends_of_begin ?_
  change (w.lock i).Ends _
  rw [World.lock]
  split
  · exact Outcome.ends_sleepIn
  · rename_i hlocked
    exact Outcome.ends_done ⟨rfl, Bool.eq_false_iff.mpr hlocked⟩

/-- A script without commands is over at once. -/
theorem Call.ends_play_nil : (Call.play []).Ends (fun w' _ => w' = w) w :=
  ends_of_begin (Outcome.ends_done rfl)

end Waiting

end BufferCache
