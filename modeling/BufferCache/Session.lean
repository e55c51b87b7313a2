import BufferCache.Machine

/-!
# Sessions

A session is a sequence of commands on one cache.  Each command comes with the
scripts that other tasks run while it waits, which replace those that earlier
commands left over.  After each command the session reports its answer, what was
seen and what was noticed while it ran, the counters, and the transfers that are
queued.

A session ends with its commands, or at the first that does not end well.
-/

namespace BufferCache

/-- A command with what other tasks do while it waits. -/
structure SessionStep where
  /-- The command. -/
  command : Command
  /-- What other tasks do each time that the command gives way. -/
  waiting : List Script

/-- What a session reports after a command. -/
structure Report where
  /-- The answer to the command. -/
  answer : Answer
  /-- What was seen while it ran. -/
  events : List Event
  /-- The counters afterwards. -/
  statistics : Statistics
  /-- The transfers queued afterwards. -/
  queued : List Transfer
  /-- What was noticed while it ran. -/
  notices : List Notice

/-- Why a session ended before its commands did. -/
inductive SessionEnd where
  /-- Everything halted. -/
  | halted (h : Halt)
  /-- A command did not come to an end.  Every command does. -/
  | exhausted

namespace World

variable {g : Geometry}

/-- The world before a command: nothing was seen or noticed yet, and other tasks
do what comes with the command. -/
def fresh (w : World g) (waiting : List Script) : World g :=
  { w with waiting := waiting, events := #[], notices := #[] }

/-- What there is to report after a command. -/
def report (w : World g) (a : Answer) : Report where
  answer := a
  events := w.events.toList
  statistics := w.cache.statistics
  queued := w.cache.allQueued
  notices := w.notices.toList

/-- The reports of a session, and why it ended if it ended early. -/
def session (w : World g) : List SessionStep → List Report × Option SessionEnd
  | [] => ([], none)
  | s :: rest =>
      match (w.fresh s.waiting).execute s.command with
      | .answered w a =>
          let (reports, ending) := w.session rest
          (w.report a :: reports, ending)
      | .halted h => ([], some (.halted h))
      | .exhausted => ([], some .exhausted)

end World
end BufferCache
