import BufferCache.Requests.Transfer

/-!
# Disks in memory

A disk in memory serves one unit.  Its storage is an array of bytes, zero at
first.  A transfer that names another unit, or that would run past the end of the
storage, is refused and changes nothing.
-/

namespace BufferCache

/-- A disk kept in memory. -/
structure MemoryDisk where
  /-- The unit that the disk is. -/
  minor : UInt8
  /-- The bytes on the disk. -/
  storage : Array UInt8
  /-- How many blocks were read from the disk. -/
  reads : Nat := 0
  /-- How many blocks were written to the disk. -/
  writes : Nat := 0

namespace MemoryDisk

/-- The disk of `size` zero bytes. -/
def blank (minor : UInt8) (size : Nat) : MemoryDisk where
  minor := minor
  storage := Array.replicate size 0

/-- The number of bytes on the disk. -/
def size (d : MemoryDisk) : Nat :=
  d.storage.size

/-- Whether the disk can carry out a transfer: it names this unit, and ends
within the storage. -/
def serves (d : MemoryDisk) (t : Transfer) : Bool :=
  t.device.minor == d.minor && decide (t.offset + blockSize ≤ d.size)

/-- The block that begins at byte `offset`. -/
def readPage (d : MemoryDisk) (offset : Nat) : Page :=
  Vector.ofFn fun i => (d.storage[offset + i.val]?).getD 0

/-- The storage with the block that begins at byte `offset` replaced. -/
def writePage (d : MemoryDisk) (offset : Nat) (p : Page) : Array UInt8 :=
  d.storage.mapIdx fun k byte =>
    if offset ≤ k then (p[k - offset]?).getD byte else byte

/-- Carry out a transfer on page `p`: the disk and the page afterwards, or
nothing if the disk refuses it. -/
def carryOut (d : MemoryDisk) (t : Transfer) (p : Page) : Option (MemoryDisk × Page) :=
  if d.serves t then
    match t.direction with
    | .read => some ({ d with reads := d.reads + 1 }, d.readPage t.offset)
    | .write => some ({ d with storage := d.writePage t.offset p, writes := d.writes + 1 }, p)
  else none

/-- The bytes of the disk from `offset` on, at most `count` of them. -/
def bytesFrom (d : MemoryDisk) (offset count : Nat) : List UInt8 :=
  (d.storage.extract offset (offset + count)).toList

@[simp] theorem size_writePage (d : MemoryDisk) (offset : Nat) (p : Page) :
    (d.writePage offset p).size = d.size := by
  simp [writePage, size]

/-- The bytes of a block written are those of the page, and no others change. -/
theorem getElem?_writePage (d : MemoryDisk) (offset : Nat) (p : Page) (k : Nat) :
    (d.writePage offset p)[k]? =
      (d.storage[k]?).map fun byte =>
        if offset ≤ k then (p[k - offset]?).getD byte else byte := by
  simp [writePage]

/-- A block that was written reads back. -/
theorem readPage_writePage (d : MemoryDisk) (offset : Nat) (p : Page)
    (h : offset + blockSize ≤ d.size) :
    { d with storage := d.writePage offset p }.readPage offset = p := by
  ext i hi
  have hk : offset + i < d.storage.size := by
    rw [size] at h
    omega
  simp [readPage, getElem?_writePage, Array.getElem?_eq_getElem hk]

/-- A disk refuses just the transfers that it does not serve. -/
theorem carryOut_eq_none_iff (d : MemoryDisk) (t : Transfer) (p : Page) :
    d.carryOut t p = none ↔ d.serves t = false := by
  unfold carryOut
  cases d.serves t <;> cases t.direction <;> simp

end MemoryDisk
end BufferCache
