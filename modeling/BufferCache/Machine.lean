import BufferCache.Calls.Step

/-!
# The machine

A `Machine` is a world, the call that is being run, and the stack of suspended
calls beneath it, at the bottom of which a command awaits its answer.  One `step`
either begins the call that is to be run, or hands the value of the call that is
over to the topmost suspended one.

A run takes steps until the command is answered or everything halts.  Nothing
bounds their number.  A run of limited length stands beside it, for what is to be
said of the first steps; it tells when they do not suffice.
-/

namespace BufferCache

/-- The suspended calls beneath a call of shape `s`, topmost first. -/
inductive Stack (g : Geometry) : Shape → Type where
  /-- Nothing but the command that awaits its answer. -/
  | bottom : Stack g .reply
  /-- A suspended call on top of others. -/
  | push {a b : Shape} (f : Frame g a b) (rest : Stack g b) : Stack g a

/-- What is to be done next. -/
inductive Control (g : Geometry) (s : Shape) where
  /-- A call is to be begun. -/
  | run (c : Call g s)
  /-- A value is to be handed to the topmost suspended call. -/
  | give (v : s.Value g)

/-- A world in the middle of a command. -/
structure Machine (g : Geometry) where
  /-- The world. -/
  world : World g
  /-- The shape of the value that comes next. -/
  shape : Shape
  /-- What is to be done next. -/
  control : Control g shape
  /-- The suspended calls. -/
  stack : Stack g shape

/-- What a step leads to. -/
inductive Progress (g : Geometry) where
  /-- There is more to do. -/
  | running (m : Machine g)
  /-- The command is answered. -/
  | answered (w : World g) (a : Answer)
  /-- Everything halted. -/
  | halted (h : Halt)

namespace Machine

variable {g : Geometry}

/-- A command that is about to be carried out. -/
def start (w : World g) (c : Command) : Machine g where
  world := w
  shape := .reply
  control := .run (.perform c)
  stack := .bottom

/-- The machine after a step of the topmost call above `stack`. -/
def advance {s : Shape} (stack : Stack g s) : Outcome g s → Progress g
  | .error h => .halted h
  | .ok (w, .done v) => .running ⟨w, s, .give v, stack⟩
  | .ok (w, .goto c) => .running ⟨w, s, .run c, stack⟩
  | .ok (w, .call c f) => .running ⟨w, _, .run c, .push f stack⟩

/-- Hand a value to the topmost suspended call. -/
def give (w : World g) : {s : Shape} → Stack g s → s.Value g → Progress g
  | _, .bottom, v => .answered w v
  | _, .push f rest, v => advance rest (f.resume v w)

/-- One step. -/
def step (m : Machine g) : Progress g :=
  match m with
  | ⟨w, _, .run c, stack⟩ => advance stack (c.begin w)
  | ⟨w, _, .give v, stack⟩ => give w stack v

end Machine

/-! ## Runs -/

/-- How a run ends. -/
inductive Ending (g : Geometry) where
  /-- The command is answered. -/
  | answered (w : World g) (a : Answer)
  /-- Everything halted. -/
  | halted (h : Halt)
  /-- There is more to do after the steps that were allowed. -/
  | exhausted

instance (g : Geometry) : Inhabited (Ending g) :=
  ⟨.exhausted⟩

namespace Machine

variable {g : Geometry}

/-- Take up to so many steps. -/
def run : (limit : Nat) → Machine g → Ending g
  | 0, _ => .exhausted
  | limit + 1, m =>
      match m.step with
      | .running m => run limit m
      | .answered w a => .answered w a
      | .halted h => .halted h

/-- Take steps until the command is answered or everything halts. -/
def toEnd (m : Machine g) : Ending g :=
  match m.step with
  | .running m => m |>.toEnd
  | .answered w a => .answered w a
  | .halted h => .halted h
partial_fixpoint

end Machine

/-- Carry out a command to its end. -/
def World.execute {g : Geometry} (w : World g) (c : Command) : Ending g :=
  (Machine.start w c).toEnd

end BufferCache
