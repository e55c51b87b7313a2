import BufferCache.Buffers.Header

/-!
# The table of buffers

All headers stand in one table of fixed size.  Two structures are threaded
through it by links: a hash chain per bucket, through the buffers that hold a
block, and a ring through all buffers, which orders them by how long ago they
were last given a block.

This module holds the table and its initial state, in which every buffer is
free and the ring follows the indices.
-/

namespace BufferCache

/-- The headers of all buffers, with the entry points of chains and ring. -/
structure Buffers (g : Geometry) where
  /-- The headers. -/
  headers : Vector (Header g.buffers) g.buffers
  /-- The first buffer of the chain of each bucket. -/
  buckets : Vector (Option g.Buffer) g.buckets
  /-- The buffer at which the ring begins. -/
  ringHead : g.Buffer

namespace Buffers

variable {g : Geometry}

/-- The header of buffer `i`. -/
def header (s : Buffers g) (i : g.Buffer) : Header g.buffers :=
  s.headers[i]

/-- The table with the header of buffer `i` changed by `f`. -/
def update (s : Buffers g) (i : g.Buffer) (f : Header g.buffers → Header g.buffers) :
    Buffers g :=
  { s with headers := s.headers.set i (f s.headers[i]) }

/-- The same as `update`, for a buffer that may be missing. -/
def update? (s : Buffers g) (i : Option g.Buffer)
    (f : Header g.buffers → Header g.buffers) : Buffers g :=
  match i with
  | some i => s.update i f
  | none => s

/-- The buffer `k` places after buffer `i`, counted round the table. -/
def cyclic (g : Geometry) (i : g.Buffer) (k : Nat) : g.Buffer :=
  ⟨(i.val + k) % g.buffers, Nat.mod_lt _ g.buffers_pos⟩

/-- The table in which every buffer is free and the ring follows the indices. -/
def initial (g : Geometry) : Buffers g where
  headers := Vector.ofFn fun i =>
    { ringPrev := some (cyclic g i (g.buffers - 1)), ringNext := some (cyclic g i 1) }
  buckets := Vector.replicate g.buckets none
  ringHead := g.firstBuffer

theorem header_update (s : Buffers g) (i j : g.Buffer)
    (f : Header g.buffers → Header g.buffers) :
    (s.update i f).header j = if i = j then f (s.header j) else s.header j := by
  by_cases h : i = j
  · subst h; simp [update, header]
  · have hv : i.val ≠ j.val := fun hv => h (Fin.ext hv)
    simp [update, header, h, hv]

@[simp] theorem header_update_self (s : Buffers g) (i : g.Buffer)
    (f : Header g.buffers → Header g.buffers) :
    (s.update i f).header i = f (s.header i) := by
  simp [header_update]

@[simp] theorem buckets_update (s : Buffers g) (i : g.Buffer)
    (f : Header g.buffers → Header g.buffers) : (s.update i f).buckets = s.buckets := rfl

@[simp] theorem ringHead_update (s : Buffers g) (i : g.Buffer)
    (f : Header g.buffers → Header g.buffers) : (s.update i f).ringHead = s.ringHead := rfl

end Buffers
end BufferCache
