import BufferCache.Geometry
import BufferCache.DeviceNumber

/-!
# Blocks and their contents

A block is named by its device and its number there.  Its contents fill a
`Page` of exactly `blockSize` bytes.
-/

namespace BufferCache

/-- The number of a block on its device. -/
abbrev BlockNumber := UInt32

/-- The name of a block: a device and a number on it. -/
structure Block where
  /-- The device that holds the block. -/
  device : DeviceNumber
  /-- The number of the block on its device. -/
  number : BlockNumber
  deriving DecidableEq

namespace Block

/-- The first sector of a block. -/
def sector (b : Block) : Nat :=
  b.number.toNat * sectorsPerBlock

/-- How messages show a block. -/
def text (b : Block) : String :=
  "dev=" ++ b.device.text ++ " block=" ++ toString b.number.toNat

end Block

/-- The contents of a block. -/
abbrev Page := Vector UInt8 blockSize

namespace Page

/-- The page whose bytes are all `byte`. -/
def fill (byte : UInt8) : Page :=
  Vector.replicate blockSize byte

/-- The page of zeros. -/
def zero : Page :=
  fill 0

/-- The page whose first sector is full of `first` and whose second is full of
`second`. -/
def halves (first second : UInt8) : Page :=
  Vector.ofFn fun i => if i.val < sectorSize then first else second

/-- The page `p` with `bytes` written from `offset` on; bytes past its end are
dropped. -/
def write (p : Page) (offset : Nat) (bytes : List UInt8) : Page :=
  Vector.ofFn fun i =>
    if i.val < offset then p[i] else (bytes[i.val - offset]?).getD p[i]

/-- The first byte of a page. -/
def firstByte (p : Page) : UInt8 :=
  p.get ⟨0, by decide⟩

@[simp] theorem getElem_fill (byte : UInt8) (i : Nat) (h : i < blockSize) :
    (fill byte)[i] = byte := by
  simp [fill]

/-- A write changes the bytes that it covers, up to the end of the page, and no
others. -/
theorem getElem_write (p : Page) (offset : Nat) (bytes : List UInt8) (i : Nat)
    (h : i < blockSize) :
    (p.write offset bytes)[i] =
      if offset ≤ i then (bytes[i - offset]?).getD p[i] else p[i] := by
  by_cases hi : i < offset
  · simp [write, hi, Nat.not_le.mpr hi]
  · simp [write, hi, Nat.not_lt.mp hi]

end Page
end BufferCache
