import BufferCache.Proofs.Spans

/-!
# Calls that are left alone

Other tasks act only where a script is taken up: where a call gives way, where a manual
driver is started, and where a flush or an emptying is announced.  `Call.enters` says where
that is.
Between two such points everything that happens is the doing of the calls themselves.

`Outcome.Completes` is a logic of total correctness for calls that are left alone.  A step of
a call, and whatever follows it, completes if it comes to a value.  Unless `ok` holds it may
also *stop*: it halts, or it comes to a point where a script is taken up.  The logic has one
rule for each way in which a call can go on; a loop is dealt with by an induction on whatever
it uses up.  What is proved in it holds of the machine, `Outcome.Completes.machine`.

Beside the postcondition there is a condition on each step that the call itself takes, told
by what comes next; the calls that it makes are free.  That is how it is said that a call
does not begin again.
-/

namespace BufferCache

variable {g : Geometry}

/-! ## Where scripts are taken up -/

/-- The first step of the call takes up a script that is laid down for it: it gives way to
another task, or the script for a start or an announcement has commands. -/
def Call.enters (w : World g) : {s : Shape} → Call g s → Bool
  | _, .sleep q ticket => (w.cache.queue q).holds ticket && !w.waiting.isEmpty
  | _, .start m =>
      match w.cache.driver? m with
      | some ⟨major, .manual _⟩ => !(w.takeStart major).1.isEmpty
      | _ => false
  | _, .flushRounds _ (_ + 1) _ => !w.takeFlush.1.isEmpty
  | _, .checkMedium d => w.mediumChanged d && !(w.takeEmptying d).1.isEmpty
  | _, _ => false

theorem World.takeStart_emit (w : World g) (e : Event) (m : Nat) :
    ((w.emit e).takeStart m).1 = (w.takeStart m).1 := by
  have hstarts : (w.emit e).startsOf m = w.startsOf m := rfl
  rw [takeStart, takeStart, hstarts]
  split <;> rfl

theorem World.takeEmptying_note (w : World g) (n : Notice) (d : DeviceNumber) :
    ((w.note n).takeEmptying d).1 = (w.takeEmptying d).1 := by
  have hflushes : (w.note n).flushes = w.flushes := rfl
  have hemptyings : (w.note n).emptyings = w.emptyings := rfl
  rw [takeEmptying, takeEmptying, hflushes, hemptyings]
  split <;> rfl

/-- The next step takes up a script. -/
def Machine.Enters : Machine g → Prop
  | ⟨w, _, .run c, _⟩ => c.enters w = true
  | _ => False

/-- The first step of a call that is left alone: where a script would be taken up there is
nobody to run it. -/
def Call.alone {s : Shape} (c : Call g s) (w : World g) : Outcome g s :=
  if c.enters w then .error .deadlock else c.begin w

theorem Call.alone_eq_begin {s : Shape} {c : Call g s} {w : World g}
    (h : c.enters w = false) : c.alone w = c.begin w := by
  rw [Call.alone, if_neg (Bool.eq_false_iff.mp h)]

/-! ## The logic -/

/-- What a step leads to completes, if the calls are left alone: it comes to a value for
which `Q` holds, and of every step that the call itself takes on the way, what comes next
satisfies `P`.  Unless `ok` holds it may also stop. -/
inductive Outcome.Completes (ok : Prop) : {s : Shape} → (Next g s → Prop) →
    (World g → s.Value g → Prop) → Outcome g s → Prop
  | error {s : Shape} {P : Next g s → Prop} {Q : World g → s.Value g → Prop} {e : Halt} :
      ¬ ok → Completes ok P Q (.error e)
  | done {s : Shape} {P : Next g s → Prop} {Q : World g → s.Value g → Prop} {w : World g}
      {v : s.Value g} : P (.done v) → Q w v → Completes ok P Q (w.done v)
  | goto {s : Shape} {P : Next g s → Prop} {Q : World g → s.Value g → Prop} {w : World g}
      {c : Call g s} : P (.goto c) → Completes ok P Q (c.alone w) →
      Completes ok P Q (w.goto c)
  | call {a s : Shape} {P : Next g s → Prop} {R : World g → a.Value g → Prop}
      {Q : World g → s.Value g → Prop} {w : World g} {c : Call g a} {f : Frame g a s} :
      P (.call c f) → Completes ok (fun _ => True) R (c.alone w) →
      (∀ w' v, R w' v → Completes ok P Q (f.resume v w')) → Completes ok P Q (w.call c f)

/-- A call that is left alone completes. -/
def Call.Completes {s : Shape} (ok : Prop) (Q : World g → s.Value g → Prop) (c : Call g s)
    (w : World g) : Prop :=
  (c.alone w).Completes ok (fun _ => True) Q

namespace Outcome

variable {ok ok' : Prop} {s : Shape} {P P' : Next g s → Prop}
  {Q Q' : World g → s.Value g → Prop} {w : World g}

theorem Completes.mono {o : Outcome g s} (h : o.Completes ok P Q) (hok : ok' → ok)
    (hP : ∀ n, P n → P' n) (hQ : ∀ w v, Q w v → Q' w v) : o.Completes ok' P' Q' := by
  induction h with
  | error hstop => exact .error (mt hok hstop)
  | done hnext hv => exact .done (hP _ hnext) (hQ _ _ hv)
  | goto hnext _ ih => exact .goto (hP _ hnext) (ih hP hQ)
  | call hnext _ _ ih ihf =>
    exact .call (hP _ hnext) (ih (fun _ h => h) fun _ _ h => h) fun w v hv => ihf w v hv hP hQ

theorem Completes.post {o : Outcome g s} (h : o.Completes ok P Q)
    (hQ : ∀ w v, Q w v → Q' w v) : o.Completes ok P Q' :=
  h.mono (fun h => h) (fun _ h => h) hQ

theorem Completes.next {n : Next g s} (h : Outcome.Completes ok P Q (.ok (w, n))) : P n := by
  cases h with
  | done hnext => exact hnext
  | goto hnext => exact hnext
  | call hnext => exact hnext

theorem Completes.of_error {e : Halt} (h : Outcome.Completes ok P Q (.error e)) : ¬ ok := by
  cases h with
  | error hstop => exact hstop

theorem completes_fault {f : Fault} (h : ¬ ok) :
    Outcome.Completes ok P Q (World.fault f : Outcome g s) :=
  .error h

theorem completes_orFault {α : Type} {x : Except Fault α} {k : α → Outcome g s}
    (h : ∀ a, x = .ok a → (k a).Completes ok P Q) (hx : ok → ∃ a, x = .ok a) :
    (World.orFault x k).Completes ok P Q := by
  cases x with
  | ok a => exact h a rfl
  | error f =>
    refine completes_fault fun hok => ?_
    obtain ⟨a, ha⟩ := hx hok
    cases ha

/-- The rules for calls whose own steps are free. -/
theorem completes_done {v : s.Value g} (h : Q w v) :
    Outcome.Completes ok (fun _ => True) Q (w.done v) :=
  .done trivial h

theorem completes_goto {c : Call g s} (h : c.Completes ok Q w) :
    Outcome.Completes ok (fun _ => True) Q (w.goto c) :=
  .goto trivial h

theorem completes_call {a : Shape} {R : World g → a.Value g → Prop} {c : Call g a}
    {f : Frame g a s} (h : c.Completes ok R w)
    (hf : ∀ w' v, R w' v → (f.resume v w').Completes ok (fun _ => True) Q) :
    Outcome.Completes ok (fun _ => True) Q (w.call c f) :=
  .call trivial h hf

end Outcome

theorem Call.Completes.post {ok : Prop} {s : Shape} {Q Q' : World g → s.Value g → Prop}
    {c : Call g s} {w : World g} (h : c.Completes ok Q w) (hQ : ∀ w v, Q w v → Q' w v) :
    c.Completes ok Q' w :=
  Outcome.Completes.post h hQ

/-- A call whose first step takes up no script completes if that step does. -/
theorem Call.completes_of_begin {ok : Prop} {s : Shape} {Q : World g → s.Value g → Prop}
    {c : Call g s} {w : World g} (hc : c.enters w = false)
    (h : (c.begin w).Completes ok (fun _ => True) Q) : c.Completes ok Q w := by
  rw [Call.Completes, Call.alone_eq_begin hc]
  exact h

/-! ## What is proved in the logic holds of the machine -/

namespace Machine

variable {ok : Prop} {a s : Shape} {base : Stack g s} {P : Next g s → Prop}
  {Q : World g → s.Value g → Prop} {m m' : Machine g}

/-- The next step is one that the call above `base` takes itself, and this is what comes
next. -/
inductive Proceeds (base : Stack g s) : Machine g → Next g s → Prop
  | begin {w w' : World g} {c : Call g s} {n : Next g s} :
      c.begin w = .ok (w', n) → Proceeds base ⟨w, s, .run c, base⟩ n
  | resume {a : Shape} {w w' : World g} {f : Frame g a s} {v : a.Value g} {n : Next g s} :
      f.resume v w = .ok (w', n) → Proceeds base ⟨w, a, .give v, .push f base⟩ n

/-- The call above `base` is not over and is left alone, and the steps that it takes itself
satisfy `P`. -/
structure Alone (base : Stack g s) (P : Next g s → Prop) (m : Machine g) : Prop where
  /-- The call is suspended at most. -/
  beneath : base.Beneath m.stack
  /-- It is not over. -/
  running : ¬ m.Returned base
  /-- No script is taken up. -/
  undisturbed : ¬ m.Enters
  /-- Its own steps satisfy `P`. -/
  proceeds : ∀ n, m.Proceeds base n → P n

/-- The call above `base` has come to a value, or, unless `ok` holds, to a stop. -/
def Completed (ok : Prop) (base : Stack g s) (Q : World g → s.Value g → Prop)
    (m : Machine g) : Prop :=
  (¬ ok ∧ (m.Enters ∨ ∃ e, m.step = .halted e)) ∨ ∃ w v, m = ⟨w, s, .give v, base⟩ ∧ Q w v

/-- What a call does on top of another one is none of the steps of that one itself. -/
theorem Alone.of_push {f : Frame g a s} {P' : Next g a → Prop}
    (h : m.Alone (.push f base) P') : m.Alone base P where
  beneath := h.beneath.of_push
  running := by
    rintro ⟨w, v, rfl⟩
    exact Stack.not_push_beneath f base h.beneath
  undisturbed := h.undisturbed
  proceeds n hn := by
    cases hn with
    | begin _ => exact absurd h.beneath (Stack.not_push_beneath f base)
    | resume _ =>
      cases h.beneath with
      | here => exact absurd ⟨_, _, rfl⟩ h.running
      | push _ hrest => exact absurd hrest (Stack.not_push_beneath f base)

/-- A machine that is about to begin a call. -/
theorem alone_of_run {w : World g} {c : Call g s} (hc : c.enters w = false)
    (hP : ∀ w' n, c.begin w = .ok (w', n) → P n) : Alone base P ⟨w, s, .run c, base⟩ where
  beneath := .here
  running := by
    rintro ⟨w', v, h⟩
    cases h
  undisturbed := Bool.eq_false_iff.mp hc
  proceeds n hn := by
    cases hn with
    | begin h => exact hP _ _ h

/-- A machine that is about to hand a value to a suspended call. -/
theorem alone_of_give {w : World g} {f : Frame g a s} {v : a.Value g}
    (hP : ∀ w' n, f.resume v w = .ok (w', n) → P n) :
    Alone base P ⟨w, a, .give v, .push f base⟩ where
  beneath := .push f .here
  running := by
    rintro ⟨w', v', h⟩
    have hbeneath : (Stack.push f base).Beneath
        (⟨w, a, .give v, .push f base⟩ : Machine g).stack := .here
    rw [h] at hbeneath
    exact Stack.not_push_beneath f base hbeneath
  undisturbed := id
  proceeds n hn := by
    cases hn with
    | resume h => exact hP _ _ h

/-- A call completes from here: left alone, it comes to a value or to a stop. -/
def Completes (ok : Prop) (base : Stack g s) (P : Next g s → Prop)
    (Q : World g → s.Value g → Prop) (m : Machine g) : Prop :=
  ∃ m', Leads (Alone base P) m m' ∧ m'.Completed ok base Q

theorem Completes.head (h : m'.Completes ok base P Q) (hm : m.Alone base P) (hs : m.Steps m') :
    m.Completes ok base P Q := by
  obtain ⟨n, hspan, hn⟩ := h
  exact ⟨n, .head ⟨hm, .step hs⟩ hspan, hn⟩

/-- A call that begins completes if what its first step leads to does. -/
theorem completes_of_run {w : World g} {c : Call g s}
    (hstop : ∀ e, c.alone w = .error e → ¬ ok)
    (h : ∀ w' n, c.alone w = .ok (w', n) → P n ∧ (n.machine w' base).Completes ok base P Q) :
    Machine.Completes ok base P Q ⟨w, s, .run c, base⟩ := by
  by_cases hc : c.enters w = true
  · exact ⟨_, .refl, .inl ⟨hstop .deadlock (if_pos hc), .inl hc⟩⟩
  rw [Bool.not_eq_true] at hc
  rw [Call.alone_eq_begin hc] at hstop h
  cases hbegin : c.begin w with
  | error e => exact ⟨_, .refl, .inl ⟨hstop e hbegin, .inr ⟨e, congrArg (advance base) hbegin⟩⟩⟩
  | ok r =>
    obtain ⟨w', n⟩ := r
    exact (h w' n hbegin).2.head (alone_of_run hc fun w' n hn => (h w' n hn).1)
      (.begin base hbegin)

/-- A suspended call completes if the step does in which it is given its value. -/
theorem completes_of_give {w : World g} {f : Frame g a s} {v : a.Value g}
    (hstop : ∀ e, f.resume v w = .error e → ¬ ok)
    (h : ∀ w' n, f.resume v w = .ok (w', n) →
      P n ∧ (n.machine w' base).Completes ok base P Q) :
    Machine.Completes ok base P Q ⟨w, a, .give v, .push f base⟩ := by
  cases hresume : f.resume v w with
  | error e =>
    exact ⟨_, .refl, .inl ⟨hstop e hresume, .inr ⟨e, congrArg (advance base) hresume⟩⟩⟩
  | ok r =>
    obtain ⟨w', n⟩ := r
    exact (h w' n hresume).2.head (alone_of_give fun w' n hn => (h w' n hn).1)
      (.resume base hresume)

/-- A call that makes another one completes if that one does, and it does itself with the
value that it is given. -/
theorem Completes.bind {f : Frame g a s} {R : World g → a.Value g → Prop}
    (h : m.Completes ok (.push f base) (fun _ => True) R)
    (hf : ∀ w v, R w v → Machine.Completes ok base P Q ⟨w, a, .give v, .push f base⟩) :
    m.Completes ok base P Q := by
  obtain ⟨n, hspan, hn⟩ := h
  have hlifted : Leads (Alone base P) m n :=
    Relation.ReflTransGen.mono (fun x _ hx => ⟨hx.1.of_push, hx.2⟩) _ _ hspan
  rcases hn with hstop | ⟨w, v, rfl, hv⟩
  · exact ⟨n, hlifted, .inl hstop⟩
  · obtain ⟨n', hspan', hn'⟩ := hf w v hv
    exact ⟨n', hlifted.trans hspan', hn'⟩

end Machine

/-- A step that completes in the logic leads the machine to completion. -/
theorem Outcome.Completes.machine {ok : Prop} {s : Shape} {P : Next g s → Prop}
    {Q : World g → s.Value g → Prop} {o : Outcome g s} (h : o.Completes ok P Q) {w : World g}
    {n : Next g s} (ho : o = .ok (w, n)) (base : Stack g s) :
    (n.machine w base).Completes ok base P Q := by
  induction h generalizing w with
  | error _ => cases ho
  | @done s P Q w v _ hv =>
    cases ho
    exact ⟨_, .refl, .inr ⟨w, v, rfl, hv⟩⟩
  | goto _ hc ih =>
    cases ho
    exact Machine.completes_of_run (fun e he => (he ▸ hc).of_error)
      fun w' n hn => ⟨(hn ▸ hc).next, ih hn base⟩
  | @call a s P R Q w c f _ hc hf ih ihf =>
    cases ho
    refine Machine.Completes.bind (R := R) (Machine.completes_of_run
      (fun e he => (he ▸ hc).of_error) fun w' n hn => ⟨trivial, ih hn (.push f base)⟩)
      fun w' v hv => ?_
    exact Machine.completes_of_give (fun e he => (he ▸ hf w' v hv).of_error)
      fun w'' n hn => ⟨(hn ▸ hf w' v hv).next, ihf w' v hv hn base⟩

theorem Call.Completes.machine {ok : Prop} {s : Shape} {Q : World g → s.Value g → Prop}
    {c : Call g s} {w : World g} (h : c.Completes ok Q w) (base : Stack g s) :
    Machine.Completes ok base (fun _ => True) Q ⟨w, s, .run c, base⟩ := by
  have halone : (c.alone w).Completes ok (fun _ => True) Q := h
  exact Machine.completes_of_run (fun e he => (he ▸ halone).of_error)
    fun w' n hn => ⟨trivial, halone.machine hn base⟩

theorem Frame.machine_of_completes {ok : Prop} {a s : Shape} {P : Next g s → Prop}
    {Q : World g → s.Value g → Prop} {f : Frame g a s} {v : a.Value g} {w : World g}
    (h : (f.resume v w).Completes ok P Q) (base : Stack g s) :
    Machine.Completes ok base P Q ⟨w, a, .give v, .push f base⟩ :=
  Machine.completes_of_give (fun _ he => (he ▸ h).of_error)
    fun _ _ hn => ⟨(hn ▸ h).next, h.machine hn base⟩

namespace Machine

variable {ok : Prop} {s : Shape} {base : Stack g s} {P : Next g s → Prop}
  {Q : World g → s.Value g → Prop} {m m' n : Machine g}

/-- While a call runs, the next command does not begin. -/
theorem Alone.steps (h : m.Alone base P) (hm : m.Moves m') : m.Steps m' := by
  cases hm with
  | step hs => exact hs
  | next waiting c =>
    cases h.beneath with
    | here => exact absurd ⟨_, _, rfl⟩ h.running

theorem Alone.unique (h : m.Alone base P) (hm : m.Moves m') (hn : m.Moves n) : m' = n :=
  Progress.running.inj
    ((step_of_steps (h.steps hm)).symm.trans (step_of_steps (h.steps hn)))

theorem Completed.not_moves (h : m.Completed ok base Q) (hrunning : ¬ m.Returned base)
    (hundisturbed : ¬ m.Enters) : ¬ m.Moves m' := by
  intro hm
  rcases h with ⟨-, henters | ⟨e, he⟩⟩ | ⟨w, v, rfl, -⟩
  · exact hundisturbed henters
  · cases hm with
    | step hs => cases (step_of_steps hs).symm.trans he
    | next waiting c => cases he
  · exact hrunning ⟨w, v, rfl⟩

/-- Whatever the call comes to while it is not over and is left alone is on its way to
completion. -/
theorem Completes.through (h : m.Completes ok base P Q)
    (hspan : Leads (fun x => ¬ x.Returned base ∧ ¬ x.Enters) m m') :
    m'.Completes ok base P Q := by
  induction hspan with
  | refl => exact h
  | @tail b c _ hmove ih =>
    obtain ⟨n, hrest, hn⟩ := ih
    rcases hrest.cases_head with rfl | ⟨x, ⟨halone, hx⟩, hrest'⟩
    · exact absurd hmove.2 (hn.not_moves hmove.1.1 hmove.1.2)
    · rw [halone.unique hmove.2 hx]
      exact ⟨n, hrest', hn⟩

/-- What has not come to a stop or to a value is on its way. -/
theorem Completes.alone (h : m.Completes ok base P Q) (hm : ¬ m.Completed ok base Q) :
    m.Alone base P := by
  obtain ⟨n, hspan, hn⟩ := h
  rcases hspan.cases_head with rfl | ⟨x, ⟨halone, -⟩, -⟩
  · exact absurd hn hm
  · exact halone

end Machine
end BufferCache
