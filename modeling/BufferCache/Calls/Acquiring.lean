import BufferCache.Calls.Call
import BufferCache.Calls.Waiting

/-!
# Getting and giving back buffers

`acquire` gets a buffer for a block.  If the block is in the cache, its buffer is
referenced and waited for.  Otherwise a victim is chosen among the buffers
without references, waited for, and written back if it is dirty.  All of this may
give way, so once it is over every conclusion drawn before is checked again: the
victim is still without references, unlocked and clean, and the block is still
not in the cache.  If not, the attempt begins anew.  If yes, the victim is given
the block at once.

A look-up references the buffer before it waits.  If the buffer holds another
block by then, the reference is taken back and the look-up begins anew.

`release` waits for the buffer to be unlocked before the reference goes.
-/

namespace BufferCache
namespace World

variable {g : Geometry}

/-! ## Looking up -/

/-- Reference the buffer of a block that is in the cache, and wait for it. -/
def lookUp (w : World g) (b : Block) : Outcome g .found :=
  match w.cache.buffers.locate b with
  | none => w.done none
  | some i => (w.mapCache (·.refer i)).call (.awaitUnlock i) (.pinning b i)

/-- The buffer that was referenced is unlocked: it is the answer if it still
holds the block. -/
def pinned (w : World g) (b : Block) (i : g.Buffer) : Outcome g .found :=
  if (w.cache.header i).holds b then w.done (some (w.cache.hold i))
  else if (w.cache.header i).references = 0 then fault .countUnderflow
  else ((w.note (.repurposed i.val)).mapCache (·.unrefer i)).goto (.lookUp b)

/-! ## Acquiring -/

/-- Get a buffer for a block, which counts as an access. -/
def acquire (w : World g) (b : Block) : Outcome g .hold :=
  if b.device = 0 then fault (.noDevice b.number)
  else (w.mapCache (·.tick .access)).goto (.obtain b)

/-- Begin an attempt to get a buffer for a block. -/
def obtain (w : World g) (b : Block) : Outcome g .hold :=
  w.call (.lookUp b) (.lookingUp b)

/-- The block was looked up: its buffer is the answer, or a victim is chosen. -/
def lookedUp (w : World g) (b : Block) (found : Option (Hold g)) : Outcome g .hold :=
  match found with
  | some h => ((w.mapCache (·.tick .hit)).note (.hit b)).done h
  | none =>
      orFault w.cache.buffers.victim fun
        | none => (w.note .allReferenced).sleepIn .release (.starving b)
        | some i => w.call (.awaitUnlock i) (.awaitingVictim b i)

/-- Report that buffer `i` was given block `b`, which drove out the block `old`
if there was one. -/
def reportMiss (w : World g) (i : g.Buffer) (old : Option Block) (b : Block) : World g :=
  let missed := w.mapCache (·.tick .miss)
  match old with
  | none => missed
  | some old => (missed.mapCache (·.tick .eviction)).note (.evicted i.val old b)

/-- Give buffer `i` the block `b`, which counts as a miss, and as an eviction if
the buffer held another block. -/
def replace (w : World g) (b : Block) (i : g.Buffer) : Outcome g .hold :=
  orFault (w.cache.buffers.reassign i b) fun s =>
    let assigned :=
      (w.mapCache fun c => { c with buffers := s }).reportMiss i (w.cache.header i).content b
    assigned.done (assigned.cache.hold i)

/-- The victim is unlocked.  It is given the block if it is still free for it and
the block still has no buffer; a dirty victim has its device flushed before. -/
def victimReady (w : World g) (b : Block) (i : g.Buffer) : Outcome g .hold :=
  let h := w.cache.header i
  if h.references ≠ 0 then w.goto (.obtain b)
  else if h.dirty then
    (w.note (.dirtyVictim i.val h.device)).call (.flush (.device h.device))
      (.flushingVictim b i)
  else if w.cache.contains b || h.locked then w.goto (.obtain b)
  else w.replace b i

/-! ## Releasing -/

/-- Begin to give a reference back. -/
def release (w : World g) (h : Handle) : Outcome g .unit :=
  orFault (w.cache.resolveRelease h) fun i => w.call (.awaitUnlock i) (.releasing h i)

/-- The buffer to be released is unlocked: the reference goes. -/
def released (w : World g) (i : g.Buffer) : Outcome g .unit :=
  if (w.cache.header i).references = 0 then fault .freeRelease
  else (w.mapCache (·.unrefer i)).done ()

end World
end BufferCache
