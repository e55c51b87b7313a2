import BufferCache.Calls.Call

/-!
# Giving way

A wait goes on for as long as its ticket stands.  Each turn of it gives way to
other tasks, which run the next script to its end; if there is none, nobody is
left who could wake the queue.

A buffer is locked while a transfer of it is under way.  Waiting for the
unlocking, or to lock it oneself, takes a ticket of the buffer's queue each time
that the buffer is found locked, and looks again after the wake-up, since another
task may have been first.
-/

namespace BufferCache
namespace World

variable {g : Geometry}

/-- Give way in a queue for as long as a ticket stands. -/
def sleep (w : World g) (q : Queue g) (ticket : UInt64) : Outcome g .unit :=
  if (w.cache.queue q).holds ticket then
    match (w.emit .gaveWay).takeWaiting with
    | none => .error .deadlock
    | some (script, w) => w.call (.play script) (.sleeping q ticket)
  else w.done ()

/-- Sleep in a queue until its next wake-up, and go on as the frame says. -/
def sleepIn {s : Shape} (w : World g) (q : Queue g) (f : Frame g .unit s) : Outcome g s :=
  w.call (.sleep q (w.cache.queue q).ticket) f

/-- Run the first command of a script. -/
def play (w : World g) : Script → Outcome g .unit
  | [] => w.done ()
  | c :: rest => w.call (.perform c) (.playing rest)

/-- Go on with a script after a command was answered. -/
def played (w : World g) (rest : Script) (a : Answer) : Outcome g .unit :=
  (w.emit (.answered a)).goto (.play rest)

/-- Wait until buffer `i` is unlocked. -/
def awaitUnlock (w : World g) (i : g.Buffer) : Outcome g .unit :=
  if (w.cache.header i).locked then w.sleepIn (.unlock i) (.awaitingUnlock i)
  else w.done ()

/-- Wait until buffer `i` is unlocked, and lock it. -/
def lock (w : World g) (i : g.Buffer) : Outcome g .unit :=
  if (w.cache.header i).locked then w.sleepIn (.unlock i) (.awaitingLock i)
  else (w.mapCache (·.lock i)).done ()

end World
end BufferCache
