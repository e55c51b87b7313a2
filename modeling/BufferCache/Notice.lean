import BufferCache.Fault
import BufferCache.Requests.Transfer

/-!
# Notices

The cache reports what it does to a log.  A notice is the fact reported; its
level and its wording are functions of the fact.  A reader of the log sees the
notices up to a level of importance of their choice.
-/

namespace BufferCache

/-- How important a notice is, the most important level first. -/
inductive Level where
  | error
  | warn
  | info
  | debug
  | trace
  deriving DecidableEq

namespace Level

/-- The place of a level, counted from the most important one. -/
def rank : Level → Nat
  | .error => 1
  | .warn => 2
  | .info => 3
  | .debug => 4
  | .trace => 5

/-- The name of a level. -/
def name : Level → String
  | .error => "ERROR"
  | .warn => "WARN"
  | .info => "INFO"
  | .debug => "DEBUG"
  | .trace => "TRACE"

end Level

/-- Which blocks a flush writes back. -/
inductive Scope where
  /-- The blocks of one device. -/
  | device (d : DeviceNumber)
  /-- The blocks of all devices. -/
  | everything
  deriving DecidableEq

/-- A fact that the cache reports. -/
inductive Notice where
  /-- A cache was built. -/
  | built (c : Config)
  /-- A buffer that was found in the cache held another block by the time it was
  unlocked. -/
  | repurposed (buffer : Nat)
  /-- A block was found in the cache. -/
  | hit (b : Block)
  /-- There are references to all buffers. -/
  | allReferenced
  /-- The buffer chosen for another block has to be written back first. -/
  | dirtyVictim (buffer : Nat) (device : DeviceNumber)
  /-- A buffer changed its block. -/
  | evicted (buffer : Nat) (old new : Block)
  /-- A flush ended. -/
  | flushed (scope : Scope) (writes : Nat)
  /-- The buffers of a device were emptied. -/
  | discarded (device : DeviceNumber)
  /-- The medium of a device was changed. -/
  | mediumChanged (device : DeviceNumber)
  /-- A buffer was unlocked that was not locked. -/
  | notLocked (buffer : Nat)
  /-- An operation ahead of need met a locked buffer. -/
  | aheadLocked (op : Operation) (buffer : Nat)
  /-- An operation ahead of need found no slot. -/
  | aheadCrowded (op : Operation) (number : BlockNumber)
  /-- A request found no slot and waits for one. -/
  | crowded (direction : Direction) (number : BlockNumber)
  /-- A request was queued. -/
  | queued (direction : Direction) (b : Block)
  /-- A device could not serve a request. -/
  | ioFailed (direction : Direction) (device : DeviceNumber) (number : BlockNumber)
  /-- A driver was registered. -/
  | registered (driver : String) (major : Nat)
  /-- A disk refused a transfer. -/
  | beyondDisk (sector : Nat)
  /-- The cache stopped for good. -/
  | halted (f : Fault)
  deriving DecidableEq

namespace Notice

/-- How important a notice is. -/
def level : Notice → Level
  | .ioFailed .. | .halted .. => .error
  | .mediumChanged .. | .notLocked .. | .aheadCrowded .. | .beyondDisk .. => .warn
  | .built .. | .discarded .. | .registered .. => .info
  | .allReferenced | .dirtyVictim .. | .evicted .. | .flushed .. | .crowded .. => .debug
  | .repurposed .. | .hit .. | .aheadLocked .. | .queued .. => .trace

/-- The wording of a notice. -/
def message : Notice → String
  | .built c =>
      s!"[BCACHE] init: {c.buffers} buffers of {blockSize} bytes, {c.buckets} hash buckets, " ++
      s!"{c.requests} request slots"
  | .repurposed buffer => s!"[BCACHE] buffer {buffer} repurposed while waiting, retry"
  | .hit b => s!"[BCACHE] getblk {b.text} HIT"
  | .allReferenced => "[BCACHE] all buffers busy, waiting for a release"
  | .dirtyVictim buffer device =>
      s!"[BCACHE] victim {buffer} is dirty, syncing dev {device.text}"
  | .evicted buffer old new => s!"[BCACHE] buffer {buffer}: {old.text} -> {new.text}"
  | .flushed (.device d) writes => s!"[BCACHE] sync_dev {d.text}: {writes} writes submitted"
  | .flushed .everything writes => s!"[BCACHE] sync_all: {writes} writes submitted"
  | .discarded device => s!"[BCACHE] invalidated buffers of dev {device.text}"
  | .mediumChanged device => s!"[BCACHE] media changed on dev {device.text}"
  | .notLocked buffer => s!"[BCACHE] buffer {buffer} not locked"
  | .aheadLocked op buffer => s!"[BLK] {op.name} on locked buffer {buffer} dropped"
  | .aheadCrowded op number =>
      s!"[BLK] no free request slot, {op.name} of block {number.toNat} dropped"
  | .crowded direction number =>
      s!"[BLK] request table full, waiting ({direction.name} block {number.toNat})"
  | .queued direction b => s!"[BLK] queued {direction.name} {b.text}"
  | .ioFailed direction device number =>
      s!"[BLK] I/O error: {direction.name} dev {device.text}, block {number.toNat}"
  | .registered driver major => s!"[BLK] registered {driver} as major {major}"
  | .beyondDisk sector => s!"[RAMDISK] request beyond device, sector {sector}"
  | .halted f => s!"[PANIC] {f.message}"

/-- A notice as a line of the log. -/
def line (n : Notice) : String :=
  n.level.name ++ " " ++ n.message

/-- The lines of the log for a reader who sees notices up to a level, or none at
all. -/
def lines (threshold : Option Level) (notices : List Notice) : List String :=
  match threshold with
  | none => []
  | some t => (notices.filter fun n => decide (n.level.rank ≤ t.rank)).map line

end Notice
end BufferCache
