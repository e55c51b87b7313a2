import BufferCache.World

/-!
# Calls that can be suspended

An operation of the cache that may have to wait is a *call*.  While it waits,
other tasks run, and these make calls of their own; so at any time there is a
stack of calls, of which all but the topmost are suspended.  The stack is kept as
data: a suspended call is a `Frame`, which says what the call was about, how far
it had come, and, by its type, what it is waiting to be given.

Keeping the frames open to inspection is what makes it possible to say what the
suspended calls hold: which references, which locks, which tickets.

## Shapes

`Call g s` is a call that gives a value of shape `s`; `Frame g a b` is a suspended
call that awaits a value of shape `a` and will then give one of shape `b`.  A
value that does not fit its frame cannot be written down.

## One step of a call

A call does what it can do without waiting and without calling, and then either
is done, goes on as another call, or makes a call and is suspended on it: a
`Next`.  A step may also halt everything, by a fault, or because it gives way and
there is nobody to run.
-/

namespace BufferCache

/-- Why a run cannot go on. -/
inductive Halt where
  /-- The cache is at fault. -/
  | fault (f : Fault)
  /-- A call gave way and nobody was left to run. -/
  | deadlock
  deriving DecidableEq

/-- The kinds of value that calls give. -/
inductive Shape where
  /-- No more than that the call is over. -/
  | unit
  /-- A truth value. -/
  | flag
  /-- A reference. -/
  | hold
  /-- A reference, if the block was in the cache. -/
  | found
  /-- A reference, unless the block could not be read. -/
  | fetched
  /-- The bytes of a page and what came of reading into it. -/
  | page
  /-- The answer to a command. -/
  | reply
  deriving DecidableEq

/-- The values of a shape. -/
def Shape.Value (g : Geometry) : Shape → Type
  | .unit => Unit
  | .flag => Bool
  | .hold => Hold g
  | .found => Option (Hold g)
  | .fetched => Except Failure (Hold g)
  | .page => Except Failure Unit × List UInt8
  | .reply => Answer

/-- A page read that has taken references to some of its blocks: the reference
for each number so far, none where the number is zero. -/
abbrev Held (g : Geometry) := List (Option (Hold g))

/-- A call. -/
inductive Call (g : Geometry) : Shape → Type where
  /-- Wait in a queue for as long as a ticket stands. -/
  | sleep (q : Queue g) (ticket : UInt64) : Call g .unit
  /-- Run a script. -/
  | play (script : Script) : Call g .unit
  /-- Wait until buffer `i` is unlocked. -/
  | awaitUnlock (i : g.Buffer) : Call g .unit
  /-- Wait until buffer `i` is unlocked, and lock it. -/
  | lock (i : g.Buffer) : Call g .unit
  /-- Get the buffer of a block that is in the cache. -/
  | lookUp (b : Block) : Call g .found
  /-- Get a buffer for a block. -/
  | acquire (b : Block) : Call g .hold
  /-- Get a buffer for a block, the access being counted already. -/
  | obtain (b : Block) : Call g .hold
  /-- Give a reference back. -/
  | release (h : Handle) : Call g .unit
  /-- Get a buffer with the bytes of a block. -/
  | fetch (b : Block) : Call g .fetched
  /-- Get a buffer with the bytes of a block, and start reading further ones. -/
  | fetchAhead (b : Block) (ahead : List BlockNumber) : Call g .fetched
  /-- Start reading blocks, and then settle the reference `h`. -/
  | readAhead (h : Hold g) (d : DeviceNumber) (ahead : List BlockNumber) : Call g .fetched
  /-- Wait for the transfer of a buffer, and give the reference back if the bytes
  are not there then. -/
  | settle (h : Hold g) : Call g .fetched
  /-- Read four blocks into a page. -/
  | fetchPage (d : DeviceNumber) (numbers : List BlockNumber) (page : List UInt8) :
      Call g .page
  /-- Take references to the blocks of a page and start reading them. -/
  | gather (d : DeviceNumber) (numbers : List BlockNumber) (held : Held g)
      (page : List UInt8) : Call g .page
  /-- Copy the blocks of a page out of their buffers as they arrive. -/
  | collect (held : Held g) (chunks : List Page) (failed : Bool) (page : List UInt8) :
      Call g .page
  /-- Start an operation on the buffer behind a handle. -/
  | issue (op : Operation) (h : Handle) : Call g .unit
  /-- Start an operation on buffer `i`. -/
  | request (op : Operation) (i : g.Buffer) : Call g .unit
  /-- Queue a request for buffer `i`, which is locked: the device is `d` and the
  number of the block `number`. -/
  | enqueue (op : Operation) (i : g.Buffer) (d : DeviceNumber) (number : BlockNumber) :
      Call g .unit
  /-- Start the driver of major `m`. -/
  | start (m : Nat) : Call g .unit
  /-- Serve the requests of the driver of major `m`. -/
  | serve (m : Nat) : Call g .unit
  /-- Write changed blocks back. -/
  | flush (scope : Scope) : Call g .unit
  /-- Write changed blocks back in `rounds` rounds over all buffers, after
  `writes` writes. -/
  | flushRounds (scope : Scope) (rounds writes : Nat) : Call g .unit
  /-- Go on with a round over the buffers in `rest`, before `rounds` more. -/
  | flushBuffers (scope : Scope) (rounds writes : Nat) (rest : List g.Buffer) : Call g .unit
  /-- Empty the buffers of a device. -/
  | discard (d : DeviceNumber) : Call g .unit
  /-- Go on with that for the buffers in `rest`. -/
  | discardBuffers (d : DeviceNumber) (rest : List g.Buffer) : Call g .unit
  /-- Empty the buffers of a device if its medium was changed. -/
  | checkMedium (d : DeviceNumber) : Call g .flag
  /-- Carry out a command. -/
  | perform (c : Command) : Call g .reply
  /-- End all transfers that wait for major `m`; the successes still to be used
  come before those of the pattern, and `ended` were ended so far, the last one
  first. -/
  | drain (m : Nat) (pattern upcoming : List Bool) (ended : List (Transfer × Bool × Bool)) :
      Call g .reply

/-- A suspended call. -/
inductive Frame (g : Geometry) : Shape → Shape → Type where
  /-- A wait that gave way. -/
  | sleeping (q : Queue g) (ticket : UInt64) : Frame g .unit .unit
  /-- A script with commands to come. -/
  | playing (rest : Script) : Frame g .reply .unit
  /-- A wait for the unlocking of buffer `i`, asleep. -/
  | awaitingUnlock (i : g.Buffer) : Frame g .unit .unit
  /-- A wait to lock buffer `i`, asleep. -/
  | awaitingLock (i : g.Buffer) : Frame g .unit .unit
  /-- A look-up that found buffer `i`, took a reference, and waits for the
  unlocking. -/
  | pinning (b : Block) (i : g.Buffer) : Frame g .unit .found
  /-- The taking of a buffer, looking the block up. -/
  | lookingUp (b : Block) : Frame g .found .hold
  /-- The taking of a buffer, asleep until a reference is given back. -/
  | starving (b : Block) : Frame g .unit .hold
  /-- The taking of buffer `i` for another block, waiting for its unlocking. -/
  | awaitingVictim (b : Block) (i : g.Buffer) : Frame g .unit .hold
  /-- The taking of buffer `i` for another block, flushing its device. -/
  | flushingVictim (b : Block) (i : g.Buffer) : Frame g .unit .hold
  /-- The release of a reference to buffer `i`, waiting for its unlocking. -/
  | releasing (h : Handle) (i : g.Buffer) : Frame g .unit .unit
  /-- A read, getting its buffer. -/
  | fetching : Frame g .hold .fetched
  /-- A read, starting its transfer. -/
  | fetchIssuing (h : Hold g) : Frame g .unit .fetched
  /-- A read, waiting for its transfer. -/
  | settling (h : Hold g) : Frame g .unit .fetched
  /-- A read that failed, giving its reference back. -/
  | unwinding (f : Failure) : Frame g .unit .fetched
  /-- A read with others ahead, getting its buffer. -/
  | fetchingFirst (d : DeviceNumber) (ahead : List BlockNumber) : Frame g .hold .fetched
  /-- A read with others ahead, starting its transfer. -/
  | issuingFirst (h : Hold g) (d : DeviceNumber) (ahead : List BlockNumber) :
      Frame g .unit .fetched
  /-- A read with others ahead, getting the buffer of one of those. -/
  | fetchingAhead (h : Hold g) (d : DeviceNumber) (ahead : List BlockNumber) :
      Frame g .hold .fetched
  /-- A read with others ahead, starting the transfer of one of those. -/
  | issuingAhead (h t : Hold g) (d : DeviceNumber) (ahead : List BlockNumber) :
      Frame g .unit .fetched
  /-- A page read, getting a buffer. -/
  | gathering (d : DeviceNumber) (numbers : List BlockNumber) (held : Held g)
      (page : List UInt8) : Frame g .hold .page
  /-- A page read, starting a transfer; the last reference held is its own. -/
  | gatherIssuing (d : DeviceNumber) (numbers : List BlockNumber) (held : Held g)
      (page : List UInt8) : Frame g .unit .page
  /-- A page read, waiting for a transfer. -/
  | collecting (h : Hold g) (held : Held g) (chunks : List Page) (failed : Bool)
      (page : List UInt8) : Frame g .unit .page
  /-- A page read, giving a reference back. -/
  | collected (held : Held g) (chunks : List Page) (failed : Bool) (page : List UInt8) :
      Frame g .unit .page
  /-- The start of an operation, locking buffer `i`. -/
  | locking (op : Operation) (i : g.Buffer) (d : DeviceNumber) : Frame g .unit .unit
  /-- The start of an operation, asleep until a request slot becomes free. -/
  | awaitingVacancy (op : Operation) (i : g.Buffer) (d : DeviceNumber)
      (number : BlockNumber) : Frame g .unit .unit
  /-- A flush, while it is announced. -/
  | announcing (scope : Scope) (rounds writes : Nat) : Frame g .unit .unit
  /-- A flush, waiting for the unlocking of buffer `i`. -/
  | flushAwaiting (scope : Scope) (rounds writes : Nat) (i : g.Buffer)
      (rest : List g.Buffer) : Frame g .unit .unit
  /-- A flush, starting a write. -/
  | flushWriting (scope : Scope) (rounds writes : Nat) (rest : List g.Buffer) :
      Frame g .unit .unit
  /-- The emptying of a device's buffers, waiting for the unlocking of buffer
  `i`. -/
  | discardAwaiting (d : DeviceNumber) (i : g.Buffer) (rest : List g.Buffer) :
      Frame g .unit .unit
  /-- The check of a medium that was changed, while the emptying is announced. -/
  | mediumAnnouncing (d : DeviceNumber) : Frame g .unit .flag
  /-- The check of a medium that was changed, emptying the buffers. -/
  | mediumDiscarding : Frame g .unit .flag
  /-- A command that answers the reference it gets and keeps it under a name. -/
  | keepHold (name : Option String) : Frame g .hold .reply
  /-- The same where there may be no reference. -/
  | keepFound (name : Option String) : Frame g .found .reply
  /-- The same where the block may not have been read. -/
  | keepFetched (name : Option String) : Frame g .fetched .reply
  /-- A command that makes a guard of the reference it gets, the bytes of the
  buffer being about to be overwritten. -/
  | guardHold (name : String) : Frame g .hold .reply
  /-- A command that makes a guard of the reference it gets. -/
  | guardFetched (name : String) : Frame g .fetched .reply
  /-- A command that fills the buffer it gets and gives it back. -/
  | filling (byte : UInt8) : Frame g .hold .reply
  /-- A command that gives the buffer it gets back. -/
  | touching : Frame g .hold .reply
  /-- A command whose answer is settled. -/
  | answering (a : Answer) : Frame g .unit .reply
  /-- A command that answers a truth value. -/
  | answerFlag : Frame g .flag .reply
  /-- A command that answers a page. -/
  | answerPage : Frame g .page .reply

/-- What a call does after one step. -/
inductive Next (g : Geometry) (s : Shape) where
  /-- It is over and gives a value. -/
  | done (v : s.Value g)
  /-- It goes on as another call. -/
  | goto (c : Call g s)
  /-- It makes a call and is suspended on it. -/
  | call {a : Shape} (c : Call g a) (f : Frame g a s)

/-- One step of a call: the world afterwards and what the call does next, unless
the step halts everything. -/
abbrev Outcome (g : Geometry) (s : Shape) := Except Halt (World g × Next g s)

namespace World

variable {g : Geometry} {s : Shape}

/-- The call is over and gives a value. -/
def done (w : World g) (v : s.Value g) : Outcome g s :=
  .ok (w, .done v)

/-- The call goes on as another call. -/
def goto (w : World g) (c : Call g s) : Outcome g s :=
  .ok (w, .goto c)

/-- The call makes a call and is suspended on it. -/
def call {a : Shape} (w : World g) (c : Call g a) (f : Frame g a s) : Outcome g s :=
  .ok (w, .call c f)

/-- The call is at fault. -/
def fault (f : Fault) : Outcome g s :=
  .error (.fault f)

/-- The call goes on with what was checked, or is at fault. -/
def orFault {α : Type} (x : Except Fault α) (k : α → Outcome g s) : Outcome g s :=
  match x with
  | .ok a => k a
  | .error f => fault f

end World
end BufferCache
