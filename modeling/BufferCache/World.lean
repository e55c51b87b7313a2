import BufferCache.Client.Answer
import BufferCache.Client.Command
import BufferCache.Client.Directory

/-!
# The world of a cache

A `World` is a cache with everything around it: the names under which clients
keep handles and guards, the scripts that other tasks will run, and what could be
watched so far.

Other tasks act only where a call lets them, and what they do there is laid down
in advance: one script for each time that a call gives way, one for each start of
a manual driver, one for each announcement of a flush or of an emptying.  A run is
therefore a function of the commands and the scripts.

The steps that are taken here touch the cache and leave a notice of what they
did.  None of them waits.
-/

namespace BufferCache

/-- A cache with its clients, the scripts of other tasks, and what was seen. -/
structure World (g : Geometry) where
  /-- The cache. -/
  cache : Cache g
  /-- The handles that clients keep. -/
  handles : Directory Handle := {}
  /-- The guards that clients keep. -/
  guards : Directory Handle := {}
  /-- What other tasks do each time that a call gives way. -/
  waiting : List Script := []
  /-- What tasks do each time that a manual driver is started, by its major
  number. -/
  starts : List (Nat × List Script) := []
  /-- What listeners do each time that a flush is announced, if anyone listens. -/
  flushes : Option (List Script) := none
  /-- What they do each time that the emptying of a device is announced. -/
  emptyings : List Script := []
  /-- What was seen. -/
  events : Array Event := #[]
  /-- What was reported. -/
  notices : Array Notice := #[]

namespace World

variable {g : Geometry}

/-- The world with its cache changed by `f`. -/
def mapCache (w : World g) (f : Cache g → Cache g) : World g :=
  { w with cache := f w.cache }

/-- The world in which something more was seen. -/
def emit (w : World g) (e : Event) : World g :=
  { w with events := w.events.push e }

/-- The world in which something more was reported. -/
def note (w : World g) (n : Notice) : World g :=
  { w with notices := w.notices.push n }

/-- The world of a new cache. -/
def initial (g : Geometry) : World g :=
  note { cache := Cache.initial g } (.built g.toConfig)

/-! ## Scripts -/

/-- The script for the next time that a call gives way, and the world in which it
is taken. -/
def takeWaiting (w : World g) : Option (Script × World g) :=
  match w.waiting with
  | [] => none
  | script :: rest => some (script, { w with waiting := rest })

/-- The scripts for the starts of the manual driver of major `m`. -/
def startsOf (w : World g) (m : Nat) : List Script :=
  ((w.starts.find? fun e => e.1 == m).map Prod.snd).getD []

/-- The world in which the scripts for the starts of major `m` are replaced. -/
def setStarts (w : World g) (m : Nat) (scripts : List Script) : World g :=
  { w with starts := (m, scripts) :: w.starts.filter fun e => e.1 != m }

/-- The script for the next start of major `m`, empty if there is none left, and
the world in which it is taken. -/
def takeStart (w : World g) (m : Nat) : Script × World g :=
  match w.startsOf m with
  | [] => ([], w)
  | script :: rest => (script, w.setStarts m rest)

/-- The script for the announcement of a flush, empty if there is none left, and
the world in which it is taken; nobody may be listening. -/
def takeFlush (w : World g) : Script × World g :=
  match w.flushes with
  | none => ([], w)
  | some [] => ([], w.emit .flushAnnounced)
  | some (script :: rest) =>
      (script, { w.emit .flushAnnounced with flushes := some rest })

/-- The script for the announcement that device `d` will be emptied, empty if there
is none left, and the world in which it is taken; nobody may be listening. -/
def takeEmptying (w : World g) (d : DeviceNumber) : Script × World g :=
  match w.flushes, w.emptyings with
  | none, _ => ([], w)
  | some _, [] => ([], w.emit (.discardAnnounced d))
  | some _, script :: rest => (script, { w.emit (.discardAnnounced d) with emptyings := rest })

/-! ## Steps on the cache -/

/-- Unlock buffer `i`. -/
def unlock (w : World g) (i : g.Buffer) : World g :=
  (if (w.cache.header i).locked then w else w.note (.notLocked i.val)).mapCache (·.unlock i)

/-- Report how the request `q` ended; `number` is that of the block in its
buffer. -/
def reportEnd (w : World g) (q : Request g) (number : BlockNumber) (success : Bool) :
    World g :=
  if success then w
  else
    (w.note (.ioFailed q.transfer.direction q.transfer.device number)).mapCache
      (·.tick .failure)

/-- End the request `q` in `slot`, which major `m` is serving.  The buffer is valid
just if the transfer succeeded; it is unlocked, the request leaves the table, and
all who wait for either are woken.  Also whether another request takes its
place. -/
def conclude (w : World g) (m : Nat) (slot : g.Slot) (q : Request g) (success : Bool) :
    World g × Bool :=
  let settled := (w.mapCache (·.setValid q.buffer success)).unlock q.buffer
  let reported := settled.reportEnd q (w.cache.header q.buffer).number success
  let retired := reported.cache.requests.retire m slot
  (reported.mapCache fun c => { c with requests := retired.1 }.wake .vacancy, retired.2)

/-- End the request that major `m` is serving, of which there has to be one. -/
def finish (w : World g) (m : Nat) (success : Bool) : Except Fault (World g × Bool) :=
  match w.cache.requests.currentSlot m with
  | none => .error (.nothingServed m)
  | some slot =>
      match w.cache.requests.request? slot with
      | none => .error (.nothingServed m)
      | some q => .ok (w.conclude m slot q success)

/-- Carry out the transfer `q` with driver `d` of table entry `m`: the driver and
the page of the buffer change, and it is seen or reported what came of it. -/
def carryOut (w : World g) (m : Nat) (d : Driver) (q : Request g) : World g × Bool :=
  let s := d.serve q.transfer (w.cache.page q.buffer)
  let moved := w.mapCache fun c => (c.setDriver m s.driver).setPage q.buffer s.page
  match d.kind with
  | .disk _ =>
      (if s.success then moved else moved.note (.beyondDisk q.transfer.sector), s.success)
  | _ => (moved.emit (.served q.transfer s.page.firstByte s.success), s.success)

/-- Register a driver, and lay down what tasks do when it is started. -/
def register (w : World g) (m : Nat) (d : Driver) (starts : List Script) :
    Except Failure (World g) :=
  (w.cache.register m d).map fun c =>
    ({ w with cache := c }.note (.registered d.name m)).setStarts d.major starts

end World
end BufferCache
