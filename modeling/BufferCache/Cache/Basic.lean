import BufferCache.Buffers.Reassign
import BufferCache.Drivers.Basic
import BufferCache.Requests.Table
import BufferCache.Statistics
import BufferCache.WaitQueue

/-!
# The cache

A cache is the table of buffers with a page for each, the request table, the
table of drivers, the counters, and the queues of tasks that wait: one for each
buffer, woken when it is unlocked; one woken when a reference is given back; one
woken when a request slot becomes free.

Nothing here waits.  The calls that do are built on top, as calls that can be
suspended between two of these steps.
-/

namespace BufferCache

/-- The queues in which tasks wait. -/
inductive Queue (g : Geometry) where
  /-- For a buffer to be unlocked. -/
  | unlock (i : g.Buffer)
  /-- For a reference to any buffer to be given back. -/
  | release
  /-- For a request slot to become free. -/
  | vacancy
  deriving DecidableEq

/-- A buffer cache. -/
structure Cache (g : Geometry) where
  /-- The headers of the buffers. -/
  buffers : Buffers g
  /-- The bytes in the buffers. -/
  pages : Vector Page g.buffers
  /-- The requests. -/
  requests : RequestTable g
  /-- The drivers, by major number. -/
  drivers : Vector (Option Driver) majorCount
  /-- The counters. -/
  statistics : Statistics
  /-- Who waits for a buffer to be unlocked, by buffer. -/
  unlockWaits : Vector WaitQueue g.buffers
  /-- Who waits for a reference to be given back. -/
  releaseWaits : WaitQueue
  /-- Who waits for a request slot to become free. -/
  vacancyWaits : WaitQueue

namespace Cache

variable {g : Geometry}

/-- The empty cache, with no driver. -/
def initial (g : Geometry) : Cache g where
  buffers := Buffers.initial g
  pages := Vector.replicate g.buffers Page.zero
  requests := RequestTable.initial g
  drivers := Vector.replicate majorCount none
  statistics := {}
  unlockWaits := Vector.replicate g.buffers {}
  releaseWaits := {}
  vacancyWaits := {}

/-! ## Buffers -/

/-- The header of buffer `i`. -/
def header (c : Cache g) (i : g.Buffer) : Header g.buffers :=
  c.buffers.header i

/-- The cache with the header of buffer `i` changed by `f`. -/
def update (c : Cache g) (i : g.Buffer) (f : Header g.buffers → Header g.buffers) : Cache g :=
  { c with buffers := c.buffers.update i f }

theorem header_update (c : Cache g) (i j : g.Buffer)
    (f : Header g.buffers → Header g.buffers) :
    (c.update i f).header j = if i = j then f (c.header j) else c.header j :=
  Buffers.header_update c.buffers i j f

/-- The bytes in buffer `i`. -/
def page (c : Cache g) (i : g.Buffer) : Page :=
  getElem c.pages i (Geometry.lt_buffers i)

/-- The cache with the bytes in buffer `i` replaced. -/
def setPage (c : Cache g) (i : g.Buffer) (p : Page) : Cache g :=
  { c with pages := c.pages.set i p (Geometry.lt_buffers i) }

theorem page_setPage (c : Cache g) (i j : g.Buffer) (p : Page) :
    (c.setPage i p).page j = if i = j then p else c.page j := by
  by_cases h : i = j
  · subst h; simp [setPage, page]
  · have hv : i.val ≠ j.val := fun hv => h (Fin.ext hv)
    simp [setPage, page, h, hv]

/-- Whether a block is in the cache. -/
def contains (c : Cache g) (b : Block) : Bool :=
  (c.buffers.locate b).isSome

/-! ## Waiting tasks -/

/-- The state of a queue. -/
def queue (c : Cache g) : Queue g → WaitQueue
  | .unlock i => getElem c.unlockWaits i (Geometry.lt_buffers i)
  | .release => c.releaseWaits
  | .vacancy => c.vacancyWaits

/-- The cache with a queue woken. -/
def wake (c : Cache g) : Queue g → Cache g
  | .unlock i =>
      let woken := (getElem c.unlockWaits i (Geometry.lt_buffers i)).wake
      { c with unlockWaits := c.unlockWaits.set i woken (Geometry.lt_buffers i) }
  | .release => { c with releaseWaits := c.releaseWaits.wake }
  | .vacancy => { c with vacancyWaits := c.vacancyWaits.wake }

/-- Waking a queue makes the tickets of that queue void, and no others. -/
theorem queue_wake (c : Cache g) (q r : Queue g) :
    (c.wake q).queue r = if q = r then (c.queue r).wake else c.queue r := by
  cases q with
  | unlock i =>
    cases r with
    | unlock j =>
      by_cases h : i = j
      · subst h; simp [wake, queue]
      · have hv : i.val ≠ j.val := fun hv => h (Fin.ext hv)
        simp [wake, queue, h, hv]
    | release => simp [wake, queue]
    | vacancy => simp [wake, queue]
  | release => cases r <;> simp [wake, queue]
  | vacancy => cases r <;> simp [wake, queue]

/-! ## Flags and references -/

/-- The cache with buffer `i` locked. -/
def lock (c : Cache g) (i : g.Buffer) : Cache g :=
  c.update i fun h => { h with locked := true }

/-- The cache with buffer `i` unlocked and those who wait for that woken. -/
def unlock (c : Cache g) (i : g.Buffer) : Cache g :=
  (c.update i fun h => { h with locked := false }).wake (.unlock i)

/-- The cache with the bytes in buffer `i` being those of its block, or not. -/
def setValid (c : Cache g) (i : g.Buffer) (valid : Bool) : Cache g :=
  c.update i fun h => { h with valid := valid }

/-- The cache with the bytes in buffer `i` changed and not written back, or
not. -/
def setDirty (c : Cache g) (i : g.Buffer) (dirty : Bool) : Cache g :=
  c.update i fun h => { h with dirty := dirty }

/-- The cache with one more reference to buffer `i`. -/
def refer (c : Cache g) (i : g.Buffer) : Cache g :=
  c.update i fun h => { h with references := h.references + 1 }

/-- The cache with one reference to buffer `i` less, and those who wait for a
buffer woken. -/
def unrefer (c : Cache g) (i : g.Buffer) : Cache g :=
  (c.update i fun h => { h with references := h.references - 1 }).wake .release

/-! ## Drivers -/

/-- The driver registered under major number `m`. -/
def driver? (c : Cache g) (m : Nat) : Option Driver :=
  (c.drivers[m]?).join

/-- The cache with the driver under major number `m` replaced. -/
def setDriver (c : Cache g) (m : Nat) (d : Driver) : Cache g :=
  { c with drivers := c.drivers.setIfInBounds m (some d) }

/-- The cache with a driver registered, unless the major number is zero, past the
table, or taken. -/
def register (c : Cache g) (m : Nat) (d : Driver) : Except Failure (Cache g) :=
  if m = 0 ∨ majorCount ≤ m then .error .majorOutOfRange
  else
    match c.driver? m with
    | some _ => .error .majorTaken
    | none => .ok (c.setDriver m d)

/-! ## Counters -/

/-- The cache after one more event was counted. -/
def tick (c : Cache g) (k : Counter) : Cache g :=
  { c with statistics := c.statistics.tick k }

/-- The counter of requests of a direction. -/
def counterOf : Direction → Counter
  | .read => .read
  | .write => .write

/-- The transfers queued for all drivers, driver by driver in the order of major
numbers, each in its order of service. -/
def allQueued (c : Cache g) : List Transfer :=
  (List.range majorCount).flatMap c.requests.queued

/-- The cache as a line of text. -/
def describe (c : Cache g) : String :=
  s!"BlockCache \x7b nr_buffers: {g.buffers}, stats: {c.statistics.describe} \x7d"

end Cache
end BufferCache
