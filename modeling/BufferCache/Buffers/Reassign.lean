import BufferCache.Buffers.Chain
import BufferCache.Buffers.Ring

/-!
# Giving a buffer another block

A buffer changes its block in one go: it leaves its chain and the ring, its
header is made out to the new block with one reference, and it enters the ring at
the end and the new chain at the front.
-/

namespace BufferCache
namespace Buffers

variable {g : Geometry}

/-- The table with buffer `i` given block `b`, with one reference and no flag. -/
def reassign (s : Buffers g) (i : g.Buffer) (b : Block) : Except Fault (Buffers g) := do
  let detached ← (s.unchain i).unring i
  let attached ← (detached.update i fun h => h.assign b).enring i
  attached.enchain i b

end Buffers
end BufferCache
