import BufferCache.Failure

/-!
# The dimensions of a cache

A `Config` is what a client asks for: how many buffers, request slots and hash
buckets.  A `Geometry` is a config that can be built, and carries the three
facts that make it so.  Everything else in the library is indexed by a geometry,
so a buffer is an element of `g.Buffer` and never an index that might be out of
range.

Writes may occupy only the first two thirds of the request table, which leaves
the rest to reads; the second fact says that a write finds at least one slot.
-/

namespace BufferCache

/-- The number of bytes in a block. -/
def blockSize : Nat := 1024

/-- The number of bytes in a sector, the unit in which requests count. -/
def sectorSize : Nat := 512

/-- The number of sectors in a block. -/
def sectorsPerBlock : Nat := blockSize / sectorSize

/-- The number of blocks that make up a page. -/
def blocksPerPage : Nat := 4

/-- The number of entries in the driver table. -/
def majorCount : Nat := 7

/-- The number of bytes a buffer costs beside its block. -/
def headerSize : Nat := 80

/-- The dimensions that a client asks for. -/
structure Config where
  /-- The number of buffers. -/
  buffers : Nat := 256
  /-- The number of slots in the request table. -/
  requests : Nat := 32
  /-- The number of hash buckets. -/
  buckets : Nat := 307
  deriving DecidableEq

namespace Config

/-- The usual dimensions, with `n` buffers. -/
def ofBuffers (n : Nat) : Config :=
  { buffers := n }

/-- The usual dimensions, with as many buffers as fit into `bytes`, each costing
its block and its header. -/
def ofMemory (bytes : Nat) : Config :=
  ofBuffers (bytes / (blockSize + headerSize))

/-- The number of request slots that a write may use: two thirds of them. -/
def writeSlots (c : Config) : Nat :=
  c.requests * 2 / 3

end Config

/-- Dimensions of a cache that can be built. -/
structure Geometry extends Config where
  /-- There is a buffer. -/
  buffers_pos : 0 < buffers
  /-- There is a request slot that a write may use. -/
  writeSlots_pos : 0 < toConfig.writeSlots
  /-- There is a hash bucket. -/
  buckets_pos : 0 < buckets

namespace Config

/-- The geometry that a config describes, or the first reason why there is
none. -/
def geometry (c : Config) : Except Failure Geometry :=
  if hb : 0 < c.buffers then
    if hw : 0 < c.writeSlots then
      if hk : 0 < c.buckets then
        .ok { toConfig := c, buffers_pos := hb, writeSlots_pos := hw, buckets_pos := hk }
      else .error .noBuckets
    else .error .tooFewRequests
  else .error .noBuffers

/-- A geometry comes from the config that it extends, and from no other. -/
theorem geometry_eq_ok_iff {c : Config} {g : Geometry} :
    c.geometry = .ok g ↔ g.toConfig = c := by
  constructor
  · intro h
    unfold geometry at h
    split at h
    · split at h
      · split at h
        · cases h; rfl
        · cases h
      · cases h
    · cases h
  · rintro rfl
    simp [geometry, g.buffers_pos, g.writeSlots_pos, g.buckets_pos]

end Config

namespace Geometry

/-- The buffers of a cache. -/
abbrev Buffer (g : Geometry) := Fin g.buffers

/-- The slots of a cache's request table. -/
abbrev Slot (g : Geometry) := Fin g.requests

/-- The hash buckets of a cache. -/
abbrev Bucket (g : Geometry) := Fin g.buckets

/-- The first buffer. -/
def firstBuffer (g : Geometry) : g.Buffer :=
  ⟨0, g.buffers_pos⟩

/-- All buffers, in the order of their indices. -/
def allBuffers (g : Geometry) : List g.Buffer :=
  List.finRange g.buffers

/-- All request slots, in the order of their indices. -/
def allSlots (g : Geometry) : List g.Slot :=
  List.finRange g.requests

theorem lt_buffers {g : Geometry} (i : g.Buffer) : i.val < g.buffers :=
  i.isLt

theorem mem_allBuffers {g : Geometry} (i : g.Buffer) : i ∈ g.allBuffers := by
  simp [allBuffers]

theorem mem_allSlots {g : Geometry} (i : g.Slot) : i ∈ g.allSlots := by
  simp [allSlots]

end Geometry
end BufferCache
