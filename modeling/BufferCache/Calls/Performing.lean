import BufferCache.Calls.Call

/-!
# Carrying out commands

Most commands are over in one step.  Those that may wait make a call and are
suspended on it; the frame says what is to be done with the value that the call
gives.

A command that uses a name nobody goes by says so and does nothing.  A name given
to a reference is bound only if the reference is there.  Dropping a guard forgets
its name before the reference goes, while binding the name of a guard again
leaves the reference of the older guard out for good.
-/

namespace BufferCache
namespace World

variable {g : Geometry}

/-! ## Names -/

/-- Go on with the handle that goes by a name. -/
def withHandle (w : World g) (name : String) (k : Handle → Outcome g .reply) :
    Outcome g .reply :=
  match w.handles.find? name with
  | some h => k h
  | none => w.done .unknownHandle

/-- Go on with the guard that goes by a name. -/
def withGuard (w : World g) (name : String) (k : Handle → Outcome g .reply) :
    Outcome g .reply :=
  match w.guards.find? name with
  | some h => k h
  | none => w.done .unknownGuard

/-- The world in which a handle goes by a name, if there is a name. -/
def keep (w : World g) (name : Option String) (h : Handle) : World g :=
  { w with handles := w.handles.insert? name h }

/-- The world in which a guard goes by a name. -/
def keepGuard (w : World g) (name : String) (h : Handle) : World g :=
  { w with guards := w.guards.insert name h }

/-- The world in which no guard goes by a name. -/
def forgetGuard (w : World g) (name : String) : World g :=
  { w with guards := w.guards.erase name }

/-! ## What is done with the value of a call -/

/-- Answer a reference and keep it under a name. -/
def answerHold (w : World g) (name : Option String) (h : Hold g) : Outcome g .reply :=
  (w.keep name h.handle).done (.handle h.handle)

/-- Answer a reference that may not be there, and keep it under a name. -/
def answerFound (w : World g) (name : Option String) : Option (Hold g) → Outcome g .reply
  | some h => w.answerHold name h
  | none => w.done .nothing

/-- Answer a reference that may have failed, and keep it under a name. -/
def answerFetched (w : World g) (name : Option String) :
    Except Failure (Hold g) → Outcome g .reply
  | .ok h => w.answerHold name h
  | .error f => w.done (.failed f)

/-- Make a guard of a reference. -/
def answerGuard (w : World g) (name : String) (h : Hold g) : Outcome g .reply :=
  (w.keepGuard name h.handle).done (.handle h.handle)

/-- Make a guard of a reference to a buffer that is about to be overwritten. -/
def guardHeld (w : World g) (name : String) (h : Hold g) : Outcome g .reply :=
  orFault (w.cache.markValid h.handle) fun c =>
    { w with cache := c }.answerGuard name h

/-- Make a guard of a reference that may have failed. -/
def guardFetched (w : World g) (name : String) :
    Except Failure (Hold g) → Outcome g .reply
  | .ok h => w.answerGuard name h
  | .error f => w.done (.failed f)

/-- Fill a buffer, leave it to be written back, and give it back. -/
def fillHeld (w : World g) (byte : UInt8) (h : Hold g) : Outcome g .reply :=
  orFault
    (do
      let c ← w.cache.write h.handle fun _ => Page.fill byte
      let c ← c.markValid h.handle
      c.markDirty h.handle)
    fun c => { w with cache := c }.call (.release h.handle) (.answering (.handle h.handle))

/-! ## Commands -/

/-- The answer to a question about a buffer. -/
def reply (v : HeaderView) : Query → Answer
  | .dirty => .truth v.dirty
  | .valid => .truth v.valid
  | .device => .number v.device.toNat
  | .number => .number v.number.toNat
  | .references => .number v.references
  | .everything => .view v

/-- Change the cache through a handle. -/
def change (w : World g) (c : Except Fault (Cache g)) : Outcome g .reply :=
  orFault c fun c => { w with cache := c }.done .done

/-- Move the bytes of the transfer that major `m` is serving, filling the buffer
first if asked to. -/
def moveBytes (w : World g) (m : Nat) (fill : Option UInt8) : Outcome g .reply :=
  match w.cache.requests.currentRequest m with
  | none => w.done .nothing
  | some q =>
      let w :=
        match fill with
        | some byte => w.mapCache (·.setPage q.buffer (Page.fill byte))
        | none => w
      w.done (.moved q.transfer (w.cache.page q.buffer).toList)

/-- The next success of a pattern that repeats, and those that come before the
pattern begins again: `upcoming` are left of it.  The empty pattern is success
throughout. -/
def nextSuccess (pattern upcoming : List Bool) : Bool × List Bool :=
  match upcoming, pattern with
  | s :: rest, _ => (s, rest)
  | [], s :: rest => (s, rest)
  | [], [] => (true, [])

/-- End the next transfer that waits for major `m`, until none is left.  Each has
the next success of a pattern that repeats, and succeeds if the pattern is
empty. -/
def drain (w : World g) (m : Nat) (pattern upcoming : List Bool)
    (ended : List (Transfer × Bool × Bool)) : Outcome g .reply :=
  match w.cache.requests.currentRequest m with
  | none => w.done (.finished ended.reverse)
  | some q =>
      let success := nextSuccess pattern upcoming
      orFault (w.finish m success.1) fun done =>
        done.1.goto (.drain m pattern success.2 ((q.transfer, success.1, done.2) :: ended))

/-- Report a fault if there was one. -/
def noteFault {α : Type} (w : World g) : Except Fault α → World g
  | .ok _ => w
  | .error f => w.note (.halted f)

/-- Ask about the buffers behind all handles.  A handle that is no longer good is
reported, and does no further harm. -/
def inspect (w : World g) : Outcome g .reply :=
  let views := w.handles.entries.map fun e => (e.1, w.cache.view e.2)
  (views.foldl (fun w e => w.noteFault e.2) w).done (.views views)

/-- The disk registered under major `m`. -/
def withDisk (w : World g) (m : Nat) (k : MemoryDisk → Answer) : Outcome g .reply :=
  match (w.cache.driver? m).bind Driver.disk? with
  | some disk => w.done (k disk)
  | none => w.done .noDisk

/-- Carry out a command. -/
def perform (w : World g) : Command → Outcome g .reply
  | .register m d starts =>
      match w.register m d starts with
      | .ok w => w.done .done
      | .error f => w.done (.failed f)
  | .listen flushes => { w with flushes := flushes, emptyings := [] }.done .done
  | .attend emptyings => { w with emptyings := emptyings }.done .done
  | .acquire b name => w.call (.acquire b) (.keepHold name)
  | .lookUp b name => w.call (.lookUp b) (.keepFound name)
  | .fetch b name => w.call (.fetch b) (.keepFetched name)
  | .fetchAhead b ahead name => w.call (.fetchAhead b ahead) (.keepFetched name)
  | .fetchPage d numbers length fill =>
      w.call (.fetchPage d numbers.toList (List.replicate length fill)) .answerPage
  | .release name => w.withHandle name fun h => w.call (.release h) (.answering .done)
  | .put b fill => w.call (.acquire b) (.filling fill)
  | .touch b => w.call (.acquire b) .touching
  | .read name =>
      w.withHandle name fun h => orFault (w.cache.read h) fun p => w.done (.bytes p.toList)
  | .fill name byte =>
      w.withHandle name fun h => w.change (w.cache.write h fun _ => Page.fill byte)
  | .write name offset bytes =>
      w.withHandle name fun h => w.change (w.cache.write h (·.write offset bytes))
  | .markDirty name => w.withHandle name fun h => w.change (w.cache.markDirty h)
  | .markValid name => w.withHandle name fun h => w.change (w.cache.markValid h)
  | .query name q =>
      w.withHandle name fun h => orFault (w.cache.view h) fun v => w.done (reply v q)
  | .isCached b => w.done (.truth (w.cache.contains b))
  | .bufferCount => w.done (.number g.buffers)
  | .forge name index generation =>
      (w.keep name ⟨index, generation⟩).done (.handle ⟨index, generation⟩)
  | .issue op name => w.withHandle name fun h => w.call (.issue op h) (.answering .done)
  | .current m =>
      w.done (.ofOption (fun q => .transfer q.transfer) (w.cache.requests.currentRequest m))
  | .queued m => w.done (.transfers (w.cache.requests.queued m))
  | .move m fill => w.moveBytes m fill
  | .finish m success => orFault (w.finish m success) fun done => done.1.done (.truth done.2)
  | .drain m pattern => w.goto (.drain m pattern [] [])
  | .start m =>
      match w.cache.driver? m with
      | some d => w.call (.start m) (.answering (.text d.name))
      | none => w.done .noDriver
  | .flush scope => w.call (.flush scope) (.answering .done)
  | .discard d => w.call (.discard d) (.answering .done)
  | .checkMedium d => w.call (.checkMedium d) .answerFlag
  | .diskInfo m => w.withDisk m fun disk => .disk disk.reads disk.writes disk.size
  | .diskRead m offset length fill =>
      w.withDisk m fun disk =>
        let got := disk.bytesFrom offset length
        .diskBytes got.length (got ++ List.replicate (length - got.length) fill)
  | .statistics => w.done (.statistics w.cache.statistics)
  | .describe => w.done (.text w.cache.describe)
  | .inspect => w.inspect
  | .guardFetch b name => w.call (.fetch b) (.guardFetched name)
  | .guardAcquire b name => w.call (.acquire b) (.guardHold name)
  | .guardInfo name =>
      w.withGuard name fun h => orFault (w.cache.view h) fun v =>
        w.done (.guard h v.number v.dirty)
  | .guardRead name =>
      w.withGuard name fun h => orFault (w.cache.read h) fun p => w.done (.bytes p.toList)
  | .guardWrite name offset bytes =>
      w.withGuard name fun h => w.change do
        let c ← w.cache.write h (·.write offset bytes)
        c.markDirty h
  | .guardDrop name =>
      w.withGuard name fun h => (w.forgetGuard name).call (.release h) (.answering .done)
  | .guardInto name handle =>
      w.withGuard name fun h => ((w.forgetGuard name).keep handle h).done (.handle h)
  | .guardHandle name handle => w.withGuard name fun h => (w.keep handle h).done (.handle h)

end World
end BufferCache
