/-!
# Statistics

What a cache counts: how often a buffer was asked for and how that ended, and
what was queued at and reported by the devices.

The counters have no end here.  By how much a command may advance them, and hence
when words of 64 bits would do, is said in `BufferCache.Proofs.Margins`.
-/

namespace BufferCache

/-- The counters of a cache. -/
structure Statistics where
  /-- Buffers asked for. -/
  accesses : Nat := 0
  /-- Buffers found in the cache. -/
  hits : Nat := 0
  /-- Buffers that had to be given another block. -/
  misses : Nat := 0
  /-- Misses that drove out a block. -/
  evictions : Nat := 0
  /-- Reads queued. -/
  reads : Nat := 0
  /-- Writes queued. -/
  writes : Nat := 0
  /-- Requests that a device could not serve. -/
  failures : Nat := 0
  deriving DecidableEq

/-- The events that are counted. -/
inductive Counter where
  /-- A buffer was asked for. -/
  | access
  /-- A buffer was found in the cache. -/
  | hit
  /-- A buffer was given another block. -/
  | miss
  /-- A block was driven out. -/
  | eviction
  /-- A read was queued. -/
  | read
  /-- A write was queued. -/
  | write
  /-- A request could not be served. -/
  | failure
  deriving DecidableEq

/-- The part of `total` accesses that were `hits`, zero if there were none. -/
def hitRate (hits total : UInt64) : Float :=
  if total == 0 then 0.0 else hits.toFloat / total.toFloat

namespace Statistics

/-- The counters after one more event. -/
def tick (s : Statistics) : Counter → Statistics
  | .access => { s with accesses := s.accesses + 1 }
  | .hit => { s with hits := s.hits + 1 }
  | .miss => { s with misses := s.misses + 1 }
  | .eviction => { s with evictions := s.evictions + 1 }
  | .read => { s with reads := s.reads + 1 }
  | .write => { s with writes := s.writes + 1 }
  | .failure => { s with failures := s.failures + 1 }

/-- The counters in the order in which they are reported. -/
def toList (s : Statistics) : List Nat :=
  [s.accesses, s.hits, s.misses, s.evictions, s.reads, s.writes, s.failures]

/-- The part of all accesses that were hits. -/
def hitRate (s : Statistics) : Float :=
  BufferCache.hitRate (UInt64.ofNat s.hits) (UInt64.ofNat s.accesses)

/-- The counters with their names. -/
def describe (s : Statistics) : String :=
  s!"CacheStats \x7b total_accesses: {s.accesses}, hits: {s.hits}, misses: {s.misses}, " ++
  s!"evictions: {s.evictions}, read_requests: {s.reads}, write_requests: {s.writes}, " ++
  s!"io_errors: {s.failures} \x7d"

end Statistics
end BufferCache
