import BufferCache.Cache.Basic

/-!
# Handles

A client names a buffer by a `Handle`: an index, and the generation in which the
handle was issued.  Clients may pass anything for a handle, also one that another
cache issued, so each use of one is checked against the header of its buffer: the
index is in range, the generation is the current one, and some reference is out.
A handle that fails a check is a fault.

Inside the cache a reference is a `Hold`, whose buffer is known to exist.
-/

namespace BufferCache

/-- How a client names a buffer. -/
structure Handle where
  /-- The index of the buffer. -/
  index : Nat
  /-- The generation in which the handle was issued. -/
  generation : UInt32
  deriving DecidableEq

/-- A reference to a buffer of this cache. -/
structure Hold (g : Geometry) where
  /-- The buffer. -/
  buffer : g.Buffer
  /-- The generation in which the reference was taken. -/
  generation : UInt32
  deriving DecidableEq

/-- The handle under which a client gets a reference. -/
def Hold.handle {g : Geometry} (h : Hold g) : Handle :=
  ⟨h.buffer.val, h.generation⟩

/-- What a client sees of a header. -/
structure HeaderView where
  /-- The device of the block. -/
  device : DeviceNumber
  /-- The number of the block. -/
  number : BlockNumber
  /-- How many references are out. -/
  references : Nat
  /-- Whether the bytes are those of the block. -/
  valid : Bool
  /-- Whether the bytes were changed and not written back. -/
  dirty : Bool
  deriving DecidableEq

/-- What a client sees of a header. -/
def Header.view {n : Nat} (h : Header n) : HeaderView where
  device := h.device
  number := h.number
  references := h.references
  valid := h.valid
  dirty := h.dirty

namespace Cache

variable {g : Geometry}

/-- A reference to buffer `i` as it is now. -/
def hold (c : Cache g) (i : g.Buffer) : Hold g :=
  ⟨i, (c.header i).generation⟩

/-- The buffer that a handle names, provided that the handle is still good: the
buffer exists, has not changed its block since, and has a reference left. -/
def resolve (c : Cache g) (h : Handle) : Except Fault g.Buffer :=
  if hi : h.index < g.buffers then
    let i : g.Buffer := ⟨h.index, hi⟩
    if (c.header i).generation = h.generation then
      if (c.header i).references = 0 then .error (.handleReleased h.index)
      else .ok i
    else .error (.staleHandle h.index h.generation (c.header i).generation)
  else .error (.handleOutOfRange h.index)

/-- The buffer that a handle to be released names, provided that it exists and
has not changed its block since. -/
def resolveRelease (c : Cache g) (h : Handle) : Except Fault g.Buffer :=
  if hi : h.index < g.buffers then
    let i : g.Buffer := ⟨h.index, hi⟩
    if (c.header i).generation = h.generation then .ok i
    else .error (.staleRelease h.index)
  else .error (.staleRelease h.index)

/-- What a client sees of the buffer behind a handle. -/
def view (c : Cache g) (h : Handle) : Except Fault HeaderView :=
  (c.resolve h).map fun i => (c.header i).view

/-- The bytes behind a handle. -/
def read (c : Cache g) (h : Handle) : Except Fault Page :=
  (c.resolve h).map c.page

/-- The cache with the bytes behind a handle changed by `f`. -/
def write (c : Cache g) (h : Handle) (f : Page → Page) : Except Fault (Cache g) :=
  (c.resolve h).map fun i => c.setPage i (f (c.page i))

/-- The cache with the bytes behind a handle marked as changed. -/
def markDirty (c : Cache g) (h : Handle) : Except Fault (Cache g) :=
  (c.resolve h).map fun i => c.setDirty i true

/-- The cache with the bytes behind a handle marked as those of the block. -/
def markValid (c : Cache g) (h : Handle) : Except Fault (Cache g) :=
  (c.resolve h).map fun i => c.setValid i true

end Cache
end BufferCache
