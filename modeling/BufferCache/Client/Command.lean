import BufferCache.Drivers.Basic
import BufferCache.Notice

/-!
# Commands

What a client can do with a cache, one indivisible request at a time.  Clients
name the handles they are given; a *guard* is a handle that owns its reference
and gives it back when it is dropped.

Three commands carry scripts, lists of commands for later: those that tasks run
when a manual driver is started, and those that listeners run when a flush is
announced, or the emptying of a device.
-/

namespace BufferCache

/-- What a client can ask about the buffer behind a handle. -/
inductive Query where
  | dirty
  | valid
  | device
  | number
  | references
  | everything
  deriving DecidableEq

/-- A step that a client takes. -/
inductive Command where
  /-- Register a driver; each start of a manual one takes the next script. -/
  | register (major : Nat) (driver : Driver) (starts : List (List Command))
  /-- Listen to announcements, those of flushes taking the next script each, or stop
  listening. -/
  | listen (flushes : Option (List (List Command)))
  /-- Let announcements of emptyings take the next script each, too. -/
  | attend (emptyings : List (List Command))
  /-- Get a buffer for a block, whatever its bytes. -/
  | acquire (block : Block) (name : Option String)
  /-- Get the buffer of a block if the block is in the cache. -/
  | lookUp (block : Block) (name : Option String)
  /-- Get a buffer with the bytes of a block. -/
  | fetch (block : Block) (name : Option String)
  /-- Get a buffer with the bytes of a block, and start reading further ones. -/
  | fetchAhead (block : Block) (ahead : List BlockNumber) (name : Option String)
  /-- Read four blocks into a page of `length` bytes. -/
  | fetchPage (device : DeviceNumber) (numbers : Vector BlockNumber blocksPerPage)
      (length : Nat) (fill : UInt8)
  /-- Give a reference back. -/
  | release (handle : String)
  /-- Fill a block with one byte and leave it to be written back. -/
  | put (block : Block) (fill : UInt8)
  /-- Get a buffer for a block and give it back. -/
  | touch (block : Block)
  /-- Read the bytes of a buffer. -/
  | read (handle : String)
  /-- Fill a buffer with one byte. -/
  | fill (handle : String) (byte : UInt8)
  /-- Write bytes into a buffer. -/
  | write (handle : String) (offset : Nat) (bytes : List UInt8)
  /-- Mark a buffer as changed. -/
  | markDirty (handle : String)
  /-- Mark the bytes of a buffer as those of its block. -/
  | markValid (handle : String)
  /-- Ask about a buffer. -/
  | query (handle : String) (query : Query)
  /-- Ask whether a block is in the cache. -/
  | isCached (block : Block)
  /-- Ask for the number of buffers. -/
  | bufferCount
  /-- Take a handle that another cache issued. -/
  | forge (handle : Option String) (index : Nat) (generation : UInt32)
  /-- Start an operation on a buffer. -/
  | issue (op : Operation) (handle : String)
  /-- Ask for the transfer that a driver is serving. -/
  | current (major : Nat)
  /-- Ask for the transfers that wait for a driver. -/
  | queued (major : Nat)
  /-- Move the bytes of the transfer that a driver is serving. -/
  | move (major : Nat) (fill : Option UInt8)
  /-- End the transfer that a driver is serving. -/
  | finish (major : Nat) (success : Bool)
  /-- End all transfers that wait for a driver, each with the next success of a
  pattern that repeats. -/
  | drain (major : Nat) (pattern : List Bool)
  /-- Start a driver. -/
  | start (major : Nat)
  /-- Write changed blocks back. -/
  | flush (scope : Scope)
  /-- Empty the buffers of a device. -/
  | discard (device : DeviceNumber)
  /-- Empty the buffers of a device if its medium was changed. -/
  | checkMedium (device : DeviceNumber)
  /-- Ask for the counters of a disk. -/
  | diskInfo (major : Nat)
  /-- Read from a disk past the cache, into `length` bytes. -/
  | diskRead (major offset length : Nat) (fill : UInt8)
  /-- Ask for the counters. -/
  | statistics
  /-- Ask for the cache as a line of text. -/
  | describe
  /-- Ask about the buffers behind all handles. -/
  | inspect
  /-- Get a guard on a buffer with the bytes of a block. -/
  | guardFetch (block : Block) (guard : String)
  /-- Get a guard on a buffer whose bytes are to be overwritten. -/
  | guardAcquire (block : Block) (guard : String)
  /-- Ask about the buffer behind a guard. -/
  | guardInfo (guard : String)
  /-- Read the bytes behind a guard. -/
  | guardRead (guard : String)
  /-- Write bytes behind a guard and mark the buffer as changed. -/
  | guardWrite (guard : String) (offset : Nat) (bytes : List UInt8)
  /-- Drop a guard and give its reference back. -/
  | guardDrop (guard : String)
  /-- Turn a guard into a plain handle, with its reference. -/
  | guardInto (guard : String) (handle : Option String)
  /-- Copy the handle of a guard, which keeps the reference. -/
  | guardHandle (guard : String) (handle : Option String)

/-- Commands that a task runs one after the other. -/
abbrev Script := List Command

end BufferCache
