/-!
# Recoverable failures

An operation that cannot do what it was asked for, while the cache itself is
sound, reports a `Failure`.  A failure is a cause; its kind and its wording are
functions of the cause.  States that call the cache itself into question are
reported as `Fault`s instead, and end everything.
-/

namespace BufferCache

/-- The broad classes that failures fall into. -/
inductive FailureKind where
  | io
  | invalidInput
  | notFound
  | alreadyExists
  | unsupported
  deriving DecidableEq

namespace FailureKind

/-- The name of a class of failures. -/
def name : FailureKind → String
  | .io => "Io"
  | .invalidInput => "InvalidInput"
  | .notFound => "NotFound"
  | .alreadyExists => "AlreadyExists"
  | .unsupported => "Unsupported"

/-- A failure of this class as one line: the class, then the message. -/
def describe (k : FailureKind) (message : String) : String :=
  k.name ++ ": " ++ message

end FailureKind

/-- Why an operation could not be carried out. -/
inductive Failure where
  /-- A configuration without buffers. -/
  | noBuffers
  /-- A configuration whose request table has no slot that a write may use. -/
  | tooFewRequests
  /-- A configuration without hash buckets. -/
  | noBuckets
  /-- A driver registered under major number zero or past the driver table. -/
  | majorOutOfRange
  /-- A driver registered where another one already is. -/
  | majorTaken
  /-- A block that its device could not deliver. -/
  | blockUnread
  /-- A page that cannot hold four blocks. -/
  | pageTooShort
  /-- A page of more distinct blocks than the cache has buffers. -/
  | tooFewBuffers
  /-- A page of which some block could not be delivered. -/
  | pageUnread
  deriving DecidableEq

namespace Failure

/-- The class that a failure belongs to. -/
def kind : Failure → FailureKind
  | .blockUnread | .pageUnread => .io
  | .majorTaken => .alreadyExists
  | _ => .invalidInput

/-- The wording of a failure. -/
def message : Failure → String
  | .noBuffers => "Buffer pool must hold at least one buffer"
  | .tooFewRequests => "Request table too small to hold a write request"
  | .noBuckets => "Hash table must have at least one bucket"
  | .majorOutOfRange => "Major number out of range"
  | .majorTaken => "Major number already registered"
  | .blockUnread => "Block read failed"
  | .pageTooShort => "Page too small for four blocks"
  | .tooFewBuffers => "Buffer pool too small for a page"
  | .pageUnread => "Page read failed"

end Failure
end BufferCache
