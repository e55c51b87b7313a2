import BufferCache.Buffers.Basic
import BufferCache.Fault
import BufferCache.Links

/-!
# Hash chains

A buffer that holds a block is found through its bucket: the device and the
number of the block, combined by exclusive or, modulo the number of buckets.
The buffers of one bucket form a chain, linked both ways, newest first.

* `locate` finds the buffer that holds a block.
* `unchain` takes a buffer out of its chain, wherever it stands there.
* `enchain` puts a buffer at the front of the chain of the block it holds.
-/

namespace BufferCache
namespace Buffers

variable {g : Geometry}

/-- The bucket of a block. -/
def bucketOf (g : Geometry) (b : Block) : g.Bucket :=
  ⟨(b.device.toUInt32 ^^^ b.number).toNat % g.buckets, Nat.mod_lt _ g.buckets_pos⟩

/-- The first buffer of the chain of a bucket. -/
def first (s : Buffers g) (k : g.Bucket) : Option g.Buffer :=
  s.buckets[k]

/-- The buffers of a bucket, in the order of its chain. -/
def chain (s : Buffers g) (k : g.Bucket) : List g.Buffer :=
  walk (fun i => (s.header i).chainNext) g.buffers (s.first k)

/-- The buffer that holds block `b`, if there is one in the chain of its
bucket. -/
def locate (s : Buffers g) (b : Block) : Option g.Buffer :=
  (s.chain (bucketOf g b)).find? fun i => (s.header i).holds b

/-- The table with the entry of a bucket replaced. -/
def setBucket (s : Buffers g) (k : g.Bucket) (i : Option g.Buffer) : Buffers g :=
  { s with buckets := s.buckets.set k i }

/-- The table without buffer `i` in any chain.  The neighbours are joined, and
the bucket is moved on if the buffer stood at its front. -/
def unchain (s : Buffers g) (i : g.Buffer) : Buffers g :=
  let h := s.header i
  let joined :=
    (s.update? h.chainNext fun x => { x with chainPrev := h.chainPrev }).update? h.chainPrev
      fun x => { x with chainNext := h.chainNext }
  match h.content with
  | none => joined
  | some b =>
      if joined.first (bucketOf g b) = some i then
        joined.setBucket (bucketOf g b) h.chainNext
      else joined

/-- The table with buffer `i`, which holds block `b`, at the front of the chain
of that block.  A chain in which the block already stands is at fault. -/
def enchain (s : Buffers g) (i : g.Buffer) (b : Block) : Except Fault (Buffers g) :=
  let fresh := s.update i fun x => { x with chainPrev := none, chainNext := none }
  match fresh.locate b with
  | some _ => .error (.duplicateBlock b)
  | none =>
      let first := fresh.first (bucketOf g b)
      .ok <|
        ((fresh.update i fun x => { x with chainNext := first }).update? first
          fun x => { x with chainPrev := some i }).setBucket (bucketOf g b) (some i)

end Buffers
end BufferCache
