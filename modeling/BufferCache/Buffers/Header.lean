import BufferCache.Block

/-!
# The header of a buffer

What the cache knows about a buffer apart from the bytes in it: the block it
holds, how many references to it are out, its three flags, and its place in a
hash chain and in the ring.

The *generation* counts how often the buffer was given another block.  A handle
carries the generation it was issued in, which is how a handle that outlived its
block is told from one that did not.  Generations are 32-bit words and wrap.
References are counted without an end; `BufferCache.Proofs.Margins` says when
words of 32 bits would do.

Headers are parameterised by the number of buffers, since their links name other
buffers of the same table.
-/

namespace BufferCache

/-- The header of one of `n` buffers. -/
structure Header (n : Nat) where
  /-- The block that the buffer holds, if it was ever given one. -/
  content : Option Block := none
  /-- How many references to the buffer are out. -/
  references : Nat := 0
  /-- The bytes are those of the block. -/
  valid : Bool := false
  /-- The bytes were changed and not written back. -/
  dirty : Bool := false
  /-- A transfer is under way. -/
  locked : Bool := false
  /-- How often the buffer was given another block. -/
  generation : UInt32 := 0
  /-- The buffer before this one in its hash chain. -/
  chainPrev : Option (Fin n) := none
  /-- The buffer after this one in its hash chain. -/
  chainNext : Option (Fin n) := none
  /-- The buffer before this one in the ring. -/
  ringPrev : Option (Fin n) := none
  /-- The buffer after this one in the ring. -/
  ringNext : Option (Fin n) := none

namespace Header

variable {n : Nat}

/-- The device whose block the buffer holds, zero if it holds none. -/
def device (h : Header n) : DeviceNumber :=
  match h.content with
  | some b => b.device
  | none => 0

/-- The number of the block that the buffer holds, zero if it holds none. -/
def number (h : Header n) : BlockNumber :=
  match h.content with
  | some b => b.number
  | none => 0

/-- Whether the buffer holds block `b`. -/
def holds (h : Header n) (b : Block) : Bool :=
  h.content == some b

/-- What it costs to take the buffer away from its block: a dirty buffer has to
be written back first, a locked one only to be waited for. -/
def cost (h : Header n) : Nat :=
  2 * h.dirty.toNat + h.locked.toNat

/-- The header once the buffer was given block `b` and its first reference: no
flag is set, and older handles are stale. -/
def assign (h : Header n) (b : Block) : Header n :=
  { h with
    content := some b
    references := 1
    valid := false
    dirty := false
    locked := false
    generation := h.generation + 1 }

end Header
end BufferCache
