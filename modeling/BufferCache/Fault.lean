import BufferCache.Block

/-!
# Faults

A `Fault` says that the structures of the cache can no longer be trusted, or
that a client broke a rule on which they rest: a handle used or released after
its reference was given back, a device that no driver serves, a broken link.
There is no way on from a fault.
-/

namespace BufferCache

/-- Why the cache stopped for good. -/
inductive Fault where
  /-- A handle that names no buffer of this cache. -/
  | handleOutOfRange (index : Nat)
  /-- A handle issued before its buffer was given another block. -/
  | staleHandle (index : Nat) (issued current : UInt32)
  /-- A handle to a buffer on which no reference is left. -/
  | handleReleased (index : Nat)
  /-- The release of a handle that is out of range or stale. -/
  | staleRelease (index : Nat)
  /-- The release of a buffer on which no reference is left. -/
  | freeRelease
  /-- A buffer asked for on the device that is none. -/
  | noDevice (number : BlockNumber)
  /-- A transfer to a device that no driver serves. -/
  | noDriver (device : DeviceNumber)
  /-- The end of a request where none is being served. -/
  | nothingServed (major : Nat)
  /-- A buffer without a place in the ring. -/
  | ringBroken
  /-- A block entered twice into the index. -/
  | duplicateBlock (block : Block)
  /-- A reference count that would fall below zero. -/
  | countUnderflow
  deriving DecidableEq

namespace Fault

/-- The wording of a fault. -/
def message : Fault → String
  | .handleOutOfRange index => s!"Buffer handle {index} out of range"
  | .staleHandle index issued current =>
      s!"Stale buffer handle {index} (generation {issued.toNat} != {current.toNat})"
  | .handleReleased index => s!"Buffer handle {index} used after release"
  | .staleRelease index => s!"Trying to free stale buffer handle {index}"
  | .freeRelease => "Trying to free free buffer"
  | .noDevice number => s!"getblk on device 0 (block {number.toNat})"
  | .noDriver device => s!"Trying to access nonexistent block-device {device.text}"
  | .nothingServed major => s!"end_request on idle device major {major}"
  | .ringBroken => "Free block list corrupted"
  | .duplicateBlock block =>
      s!"Hash collision inserting dev {block.device.text} block {block.number.toNat}"
  | .countUnderflow => "attempt to subtract with overflow"

end Fault
end BufferCache
