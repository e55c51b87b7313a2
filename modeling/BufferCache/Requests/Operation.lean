/-!
# Directions and operations

A request moves a block in one of two *directions*.  What a client asks for is an
*operation*: a direction, and whether it is only worth starting if it can be
started at once.  Operations ahead of need never wait.
-/

namespace BufferCache

/-- Which way a request moves a block. -/
inductive Direction where
  /-- From the device into the buffer. -/
  | read
  /-- From the buffer to the device. -/
  | write
  deriving DecidableEq

namespace Direction

/-- The place of a direction in the order of service: reads come first. -/
def rank : Direction → Nat
  | .read => 0
  | .write => 1

/-- The name of a direction. -/
def name : Direction → String
  | .read => "Read"
  | .write => "Write"

end Direction

/-- What a client asks to be done with a buffer. -/
inductive Operation where
  | read
  | write
  | readAhead
  | writeAhead
  deriving DecidableEq

namespace Operation

/-- The direction of an operation. -/
def direction : Operation → Direction
  | .read | .readAhead => .read
  | .write | .writeAhead => .write

/-- Whether an operation is dropped where it would have to wait. -/
def ahead : Operation → Bool
  | .read | .write => false
  | .readAhead | .writeAhead => true

/-- The name of an operation. -/
def name : Operation → String
  | .read => "Read"
  | .write => "Write"
  | .readAhead => "ReadAhead"
  | .writeAhead => "WriteAhead"

end Operation
end BufferCache
