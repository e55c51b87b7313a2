import BufferCache.Session

/-!
# Runs

A property of all runs is a property of every machine that a session can come
to: at the first step of a command, between any two steps of it, and so also
wherever a call gives way and the scripts of other tasks take over.

## What an outcome ensures

The functions that make up a step are built from checks, branches and three ways
to go on.  `Outcome.Ensures` is what a step guarantees of the world and of what
comes next, if the step does not halt.  It computes through the branches, so a
guarantee is proved by walking down the definition of the step.

## Runs that are watched

Most properties speak about more than the machine holds: which references
clients have not given back, what a block is supposed to contain.  A `Conduct`
keeps such a record beside the machine and says what clients may do.  Its runs
are those in which every step is one that the conduct permits.  The conduct that
permits everything and records nothing gives the runs as such, `Reachable`.
-/

namespace BufferCache

variable {g : Geometry}

/-! ## What a step guarantees -/

/-- Whatever the step leads to, short of halting, satisfies `P`. -/
def Outcome.Ensures {s : Shape} (o : Outcome g s) (P : World g → Next g s → Prop) : Prop :=
  ∀ w n, o = .ok (w, n) → P w n

namespace Outcome

variable {s : Shape} {P Q : World g → Next g s → Prop}

theorem ensures_done {w : World g} {v : s.Value g} (h : P w (.done v)) :
    Outcome.Ensures (w.done v) P := by
  intro w' n hn
  cases hn
  exact h

theorem ensures_goto {w : World g} {c : Call g s} (h : P w (.goto c)) :
    Outcome.Ensures (w.goto c) P := by
  intro w' n hn
  cases hn
  exact h

theorem ensures_call {a : Shape} {w : World g} {c : Call g a} {f : Frame g a s}
    (h : P w (.call c f)) : Outcome.Ensures (w.call c f) P := by
  intro w' n hn
  cases hn
  exact h

theorem ensures_error {e : Halt} : Outcome.Ensures (.error e : Outcome g s) P := by
  intro w' n hn
  cases hn

theorem ensures_fault {f : Fault} : Outcome.Ensures (World.fault f : Outcome g s) P :=
  ensures_error

theorem ensures_orFault {α : Type} {x : Except Fault α} {k : α → Outcome g s}
    (h : ∀ a, x = .ok a → (k a).Ensures P) : (World.orFault x k).Ensures P := by
  cases x with
  | ok a => exact h a rfl
  | error f => exact ensures_fault

/-- The same, where in addition every fault that the step may raise satisfies
`E`. -/
structure Meets (o : Outcome g s) (P : World g → Next g s → Prop) (E : Fault → Prop) :
    Prop where
  /-- What the step guarantees if it does not halt. -/
  ensures : o.Ensures P
  /-- What is known of a fault. -/
  raises : ∀ f, o = .error (.fault f) → E f

variable {E : Fault → Prop}

theorem meets_done {w : World g} {v : s.Value g} (h : P w (.done v)) :
    Outcome.Meets (w.done v) P E :=
  ⟨ensures_done h, nofun⟩

theorem meets_goto {w : World g} {c : Call g s} (h : P w (.goto c)) :
    Outcome.Meets (w.goto c) P E :=
  ⟨ensures_goto h, nofun⟩

theorem meets_call {a : Shape} {w : World g} {c : Call g a} {f : Frame g a s}
    (h : P w (.call c f)) : Outcome.Meets (w.call c f) P E :=
  ⟨ensures_call h, nofun⟩

theorem meets_deadlock : Outcome.Meets (.error .deadlock : Outcome g s) P E :=
  ⟨ensures_error, nofun⟩

theorem meets_fault {f : Fault} (h : E f) : Outcome.Meets (World.fault f : Outcome g s) P E := by
  refine ⟨ensures_fault, fun f' hf => ?_⟩
  cases hf
  exact h

theorem meets_orFault {α : Type} {x : Except Fault α} {k : α → Outcome g s}
    (h : ∀ a, x = .ok a → (k a).Meets P E) (hE : ∀ f, x = .error f → E f) :
    (World.orFault x k).Meets P E := by
  cases x with
  | ok a => exact h a rfl
  | error f => exact meets_fault (hE f rfl)

theorem Ensures.mono {o : Outcome g s} (h : o.Ensures P) (hPQ : ∀ w n, P w n → Q w n) :
    o.Ensures Q :=
  fun w n hn => hPQ w n (h w n hn)

end Outcome

/-! ## What comes next, as a machine -/

/-- The machine in which what comes next happens above `stack`. -/
def Next.machine {s : Shape} (w : World g) (stack : Stack g s) : Next g s → Machine g
  | .done v => ⟨w, s, .give v, stack⟩
  | .goto c => ⟨w, s, .run c, stack⟩
  | .call c f => ⟨w, _, .run c, .push f stack⟩

namespace Machine

theorem advance_eq_running {s : Shape} {stack : Stack g s} {o : Outcome g s} {m : Machine g}
    (h : advance stack o = .running m) :
    ∃ w n, o = .ok (w, n) ∧ m = n.machine w stack := by
  match o with
  | .error e => cases h
  | .ok (w, .done v) => cases h; exact ⟨w, .done v, rfl, rfl⟩
  | .ok (w, .goto c) => cases h; exact ⟨w, .goto c, rfl, rfl⟩
  | .ok (w, .call c f) => cases h; exact ⟨w, .call c f, rfl, rfl⟩

theorem advance_ok {s : Shape} (stack : Stack g s) (w : World g) (n : Next g s) :
    advance stack (.ok (w, n)) = .running (n.machine w stack) := by
  cases n <;> rfl

theorem advance_ne_answered {s : Shape} {stack : Stack g s} {o : Outcome g s} {w : World g}
    {a : Answer} : advance stack o ≠ .answered w a := by
  intro h
  match o with
  | .error e => cases h
  | .ok (w, .done v) => cases h
  | .ok (w, .goto c) => cases h
  | .ok (w, .call c f) => cases h

theorem advance_eq_halted {s : Shape} {stack : Stack g s} {o : Outcome g s} {e : Halt}
    (h : advance stack o = .halted e) : o = .error e := by
  match o with
  | .error e => cases h; rfl
  | .ok (w, .done v) => cases h
  | .ok (w, .goto c) => cases h
  | .ok (w, .call c f) => cases h

/-- The ways in which a machine takes a step: a call begins, or the topmost
suspended call is given its value. -/
inductive Steps : Machine g → Machine g → Prop
  | begin {s : Shape} {w w' : World g} {c : Call g s} {n : Next g s} (stack : Stack g s) :
      c.begin w = .ok (w', n) → Steps ⟨w, s, .run c, stack⟩ (n.machine w' stack)
  | resume {a s : Shape} {w w' : World g} {f : Frame g a s} {v : a.Value g} {n : Next g s}
      (stack : Stack g s) :
      f.resume v w = .ok (w', n) → Steps ⟨w, a, .give v, .push f stack⟩ (n.machine w' stack)

theorem steps_of_step {m m' : Machine g} (h : m.step = .running m') : Steps m m' := by
  obtain ⟨w, s, control, stack⟩ := m
  match control, stack with
  | .run c, stack =>
    obtain ⟨w', n, hn, rfl⟩ := advance_eq_running h
    exact .begin stack hn
  | .give v, .bottom => cases h
  | .give v, .push f stack =>
    obtain ⟨w', n, hn, rfl⟩ := advance_eq_running h
    exact .resume stack hn

theorem step_of_steps {m m' : Machine g} (h : Steps m m') : m.step = .running m' := by
  cases h with
  | begin stack hn => exact (congrArg (advance stack) hn).trans (advance_ok stack _ _)
  | resume stack hn => exact (congrArg (advance stack) hn).trans (advance_ok stack _ _)

/-- A command is answered just when its value reaches the bottom of the stack. -/
theorem eq_of_answered {m : Machine g} {w : World g} {a : Answer}
    (h : m.step = .answered w a) : m = ⟨w, .reply, .give a, .bottom⟩ := by
  obtain ⟨w', s, control, stack⟩ := m
  match control, stack with
  | .run c, stack => exact absurd h advance_ne_answered
  | .give v, .bottom => cases h; rfl
  | .give v, .push f stack => exact absurd h advance_ne_answered

end Machine

/-! ## Conduct -/

/-- What is recorded beside a machine, and which steps are permitted. -/
structure Conduct (g : Geometry) (γ : Type) where
  /-- Whether the step that comes next is permitted. -/
  permits : γ → Machine g → Prop
  /-- What is on record after the step. -/
  record : γ → Machine g → γ

namespace Conduct

variable {γ : Type}

/-- The runs of sessions that begin in a world and with a record for which
`start` holds: any commands, any scripts of other tasks, every step permitted. -/
inductive Run (k : Conduct g γ) (start : World g → γ → Prop) : γ → Machine g → Prop
  | start {w : World g} {r : γ} (waiting : List Script) (c : Command) :
      start w r → Run k start r (Machine.start (w.fresh waiting) c)
  | step {r : γ} {m m' : Machine g} :
      Run k start r m → k.permits r m → m.step = .running m' → Run k start (k.record r m) m'
  | next {r : γ} {m : Machine g} {w : World g} {a : Answer} (waiting : List Script)
      (c : Command) :
      Run k start r m → k.permits r m → m.step = .answered w a →
      Run k start (k.record r m) (Machine.start (w.fresh waiting) c)

end Conduct

/-- The conduct of clients that may do anything, with nothing on record. -/
def Conduct.free (g : Geometry) : Conduct g Unit where
  permits _ _ := True
  record _ _ := ()

/-- The machines that some session on a new cache comes to. -/
def Machine.Reachable (m : Machine g) : Prop :=
  (Conduct.free g).Run (fun w _ => w = World.initial g) () m

/-- What holds when a command begins and is kept by every step holds throughout a
run. -/
theorem Conduct.Run.invariant {γ : Type} {k : Conduct g γ} {start : World g → γ → Prop}
    {Inv : γ → Machine g → Prop}
    (hstart : ∀ w r waiting c, start w r → Inv r (Machine.start (w.fresh waiting) c))
    (hstep : ∀ r m m', Inv r m → k.permits r m → m.Steps m' → Inv (k.record r m) m')
    (hnext : ∀ r w a waiting c, Inv r ⟨w, .reply, .give a, .bottom⟩ →
      Inv (k.record r ⟨w, .reply, .give a, .bottom⟩) (Machine.start (w.fresh waiting) c))
    {r : γ} {m : Machine g} (h : k.Run start r m) : Inv r m := by
  induction h with
  | start waiting c hw => exact hstart _ _ waiting c hw
  | step _ hp hs ih => exact hstep _ _ _ ih hp (Machine.steps_of_step hs)
  | next waiting c _ _ hs ih =>
    cases Machine.eq_of_answered hs
    exact hnext _ _ _ waiting c ih

/-- What holds when a session begins and is kept by every step, and from one command to
the next, holds of every machine that can be reached. -/
theorem Machine.Reachable.invariant {Inv : Machine g → Prop}
    (hstart : ∀ waiting c, Inv (Machine.start ((World.initial g).fresh waiting) c))
    (hstep : ∀ m m', Inv m → m.Steps m' → Inv m')
    (hnext : ∀ w a waiting c, Inv ⟨w, .reply, .give a, .bottom⟩ →
      Inv (Machine.start (w.fresh waiting) c))
    {m : Machine g} (h : m.Reachable) : Inv m := by
  refine @Conduct.Run.invariant g Unit _ _ (fun _ => Inv) ?_ ?_ ?_ () m h
  · rintro w r waiting c rfl
    exact hstart waiting c
  · intro r m m' hm _ hs
    exact hstep m m' hm hs
  · intro r w a waiting c hm
    exact hnext w a waiting c hm

/-- Under any conduct, a session on a new cache comes only to machines that can be
reached. -/
theorem Conduct.Run.reachable {γ : Type} {k : Conduct g γ} {start : World g → γ → Prop}
    (hstart : ∀ w r, start w r → w = World.initial g) {r : γ} {m : Machine g}
    (h : k.Run start r m) : m.Reachable := by
  induction h with
  | start waiting c hw => exact .start waiting c (hstart _ _ hw)
  | step _ _ hs ih => exact .step ih trivial hs
  | next waiting c _ _ hs ih => exact .next waiting c ih trivial hs

/-! ## Moves -/

/-- A machine takes a step, or the next command begins. -/
inductive Machine.Moves : Machine g → Machine g → Prop
  | step {m m' : Machine g} : m.Steps m' → Moves m m'
  | next {w : World g} {a : Answer} (waiting : List Script) (c : Command) :
      Moves ⟨w, .reply, .give a, .bottom⟩ (Machine.start (w.fresh waiting) c)

theorem Machine.Reachable.moves {m m' : Machine g} (h : m.Reachable) (hm : m.Moves m') :
    m'.Reachable := by
  cases hm with
  | step hs => exact .step h trivial (step_of_steps hs)
  | next waiting c => exact Conduct.Run.next waiting c h trivial rfl

/-! ## Runs by hand -/

namespace Conduct

variable {γ : Type} (k : Conduct g γ) [∀ r m, Decidable (k.permits r m)]

/-- The record and the machine after `n` steps, as long as they are permitted. -/
def after : Nat → γ → Machine g → γ × Machine g
  | 0, r, m => (r, m)
  | n + 1, r, m =>
      match m.step with
      | .running m' => if k.permits r m then after n (k.record r m) m' else (r, m)
      | _ => (r, m)

/-- The record and the machine once the next command begins, where the last one has its
answer. -/
def following (waiting : List Script) (c : Command) (r : γ) (m : Machine g) : γ × Machine g :=
  match m.step with
  | .answered w _ =>
      if k.permits r m then (k.record r m, Machine.start (w.fresh waiting) c) else (r, m)
  | _ => (r, m)

variable {k} {start : World g → γ → Prop} {r : γ} {m : Machine g}

theorem Run.after (h : k.Run start r m) (n : Nat) :
    k.Run start (k.after n r m).1 (k.after n r m).2 := by
  induction n generalizing r m with
  | zero => exact h
  | succ n ih =>
    rw [Conduct.after]
    split
    · rename_i m' hstep
      split
      · rename_i hp
        exact ih (.step h hp hstep)
      · exact h
    · exact h

theorem Run.following (h : k.Run start r m) (waiting : List Script) (c : Command) :
    k.Run start (k.following waiting c r m).1 (k.following waiting c r m).2 := by
  rw [Conduct.following]
  split
  · rename_i w a hstep
    split
    · rename_i hp
      exact .next waiting c h hp hstep
    · exact h
  · exact h

end Conduct

namespace Machine

instance (r : Unit) (m : Machine g) : Decidable ((Conduct.free g).permits r m) :=
  inferInstanceAs (Decidable True)

/-- The machine after `n` steps.  One that has its answer, or halts, stays as it is. -/
def after (n : Nat) (m : Machine g) : Machine g :=
  ((Conduct.free g).after n () m).2

/-- The machine that begins the next command, where the last one has its answer. -/
def next (m : Machine g) (waiting : List Script) (c : Command) : Machine g :=
  ((Conduct.free g).following waiting c () m).2

/-- The machine after these commands, each of which has its answer within `n` steps. -/
def commanded (m : Machine g) (n : Nat) (commands : List Command) : Machine g :=
  commands.foldl (fun m c => (m.next [] c).after n) m

theorem reachable_start (waiting : List Script) (c : Command) :
    (start ((World.initial g).fresh waiting) c).Reachable :=
  .start waiting c rfl

theorem Reachable.after {m : Machine g} (h : m.Reachable) (n : Nat) : (m.after n).Reachable :=
  Conduct.Run.after h n

theorem Reachable.next {m : Machine g} (h : m.Reachable) (waiting : List Script)
    (c : Command) : (m.next waiting c).Reachable :=
  Conduct.Run.following h waiting c

theorem Reachable.commanded {m : Machine g} (h : m.Reachable) (n : Nat)
    (commands : List Command) : (m.commanded n commands).Reachable := by
  induction commands generalizing m with
  | nil => exact h
  | cons c commands ih => exact ih ((h.next [] c).after n)

end Machine

/-- Dimensions small enough to follow a run by hand. -/
def Geometry.small : Geometry where
  buffers := 2
  requests := 3
  buckets := 1
  buffers_pos := by decide
  writeSlots_pos := by decide
  buckets_pos := by decide

/-- Dimensions of a cache with one buffer. -/
def Geometry.single : Geometry where
  buffers := 1
  requests := 3
  buckets := 1
  buffers_pos := by decide
  writeSlots_pos := by decide
  buckets_pos := by decide

/-- Dimensions of a cache with three buffers. -/
def Geometry.triple : Geometry where
  buffers := 3
  requests := 3
  buckets := 1
  buffers_pos := by decide
  writeSlots_pos := by decide
  buckets_pos := by decide

/-- Dimensions with room for a few requests. -/
def Geometry.wide : Geometry where
  buffers := 4
  requests := 6
  buckets := 1
  buffers_pos := by decide
  writeSlots_pos := by decide
  buckets_pos := by decide

end BufferCache
