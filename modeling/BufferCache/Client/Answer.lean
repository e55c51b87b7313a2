import BufferCache.Cache.Handle

/-!
# Answers and events

What a client gets back from a command, and what can be watched from outside
while a command runs: a task giving way to others, a driver being started, a
transfer being served, announcements, and the answers to what other tasks did.
-/

namespace BufferCache

/-- What a command answers. -/
inductive Answer where
  /-- It was done. -/
  | done
  /-- There is nothing to answer with. -/
  | nothing
  /-- No handle goes by that name. -/
  | unknownHandle
  /-- No guard goes by that name. -/
  | unknownGuard
  /-- No driver is registered there. -/
  | noDriver
  /-- No disk is registered there. -/
  | noDisk
  /-- It could not be done. -/
  | failed (f : Failure)
  | handle (h : Handle)
  | truth (b : Bool)
  | number (n : Nat)
  | view (v : HeaderView)
  | bytes (data : List UInt8)
  /-- A page, and what came of reading into it. -/
  | page (result : Except Failure Unit) (data : List UInt8)
  | transfer (t : Transfer)
  | transfers (ts : List Transfer)
  /-- A transfer with the bytes it moves. -/
  | moved (t : Transfer) (data : List UInt8)
  /-- The transfers that were ended, each with its success and whether another
  one followed. -/
  | finished (ts : List (Transfer × Bool × Bool))
  | text (s : String)
  /-- The counters and the size of a disk. -/
  | disk (reads writes size : Nat)
  /-- How many bytes were read, and the bytes they were read into. -/
  | diskBytes (count : Nat) (data : List UInt8)
  | statistics (s : Statistics)
  /-- The buffers behind all handles, by name. -/
  | views (vs : List (String × Except Fault HeaderView))
  /-- A guard: its handle, the number of its block, and whether it is changed. -/
  | guard (h : Handle) (number : BlockNumber) (dirty : Bool)

namespace Answer

/-- The answer that is nothing in the absence of a value. -/
def ofOption {α : Type} (f : α → Answer) : Option α → Answer
  | some a => f a
  | none => .nothing

end Answer

/-- What can be watched while a command runs. -/
inductive Event where
  /-- A task gave way to others. -/
  | gaveWay
  /-- A manual driver was started. -/
  | started (major : Nat)
  /-- An automatic driver served a transfer; the first byte of the page is that
  after the transfer. -/
  | served (t : Transfer) (first : UInt8) (success : Bool)
  /-- A flush was announced. -/
  | flushAnnounced
  /-- It was announced that a device is emptied. -/
  | discardAnnounced (d : DeviceNumber)
  /-- Another task got an answer. -/
  | answered (a : Answer)

end BufferCache
