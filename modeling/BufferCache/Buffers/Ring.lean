import BufferCache.Buffers.Basic
import BufferCache.Fault

/-!
# The ring of buffers

Every buffer stands in one ring, also while references to it are out.  Giving a
buffer another block moves it to the end of the ring, so the ring lists the
buffers from the one that was given its block longest ago to the newest.

* `ring` lists the buffers from the head of the ring on.
* `victim` is the buffer to take for another block: of those without references
  the cheapest, and of equally cheap ones the first in the ring.
* `unring` and `enring` take a buffer out and put it at the end.

Each link is an option, and a missing one is a fault: a buffer always has a
place in the ring.
-/

namespace BufferCache
namespace Buffers

variable {g : Geometry}

/-- The buffer after `i` in the ring. -/
def ringNext (s : Buffers g) (i : g.Buffer) : Except Fault g.Buffer :=
  match (s.header i).ringNext with
  | some j => .ok j
  | none => .error .ringBroken

/-- The buffers from `i` on until the ring comes back to its head, up to `bound`
of them. -/
def ringFrom (s : Buffers g) : (bound : Nat) → g.Buffer → Except Fault (List g.Buffer)
  | 0, _ => .ok []
  | bound + 1, i =>
      match s.ringNext i with
      | .error e => .error e
      | .ok j =>
          if j = s.ringHead then .ok [i]
          else (s.ringFrom bound j).map (i :: ·)

/-- All buffers in the order of the ring. -/
def ring (s : Buffers g) : Except Fault (List g.Buffer) :=
  s.ringFrom g.buffers s.ringHead

/-- Of the buffers in a list the cheapest to take, and of equally cheap ones the
first. -/
def cheapest (s : Buffers g) : List g.Buffer → Option g.Buffer
  | [] => none
  | i :: rest =>
      match s.cheapest rest with
      | none => some i
      | some j => if (s.header j).cost < (s.header i).cost then some j else some i

/-- The buffer to take for another block: the cheapest of those without
references, nothing if there are references to all of them. -/
def victim (s : Buffers g) : Except Fault (Option g.Buffer) :=
  s.ring.map fun order => s.cheapest (order.filter fun i => (s.header i).references == 0)

/-- The table without buffer `i` in the ring.  The neighbours are joined, and the
head moves on if it was that buffer. -/
def unring (s : Buffers g) (i : g.Buffer) : Except Fault (Buffers g) :=
  match (s.header i).ringPrev, (s.header i).ringNext with
  | some before, some after =>
      let joined :=
        (s.update before fun x => { x with ringNext := some after }).update after
          fun x => { x with ringPrev := some before }
      .ok { joined with ringHead := if joined.ringHead = i then after else joined.ringHead }
  | _, _ => .error .ringBroken

/-- The table with buffer `i` at the end of the ring. -/
def enring (s : Buffers g) (i : g.Buffer) : Except Fault (Buffers g) :=
  match (s.header s.ringHead).ringPrev with
  | none => .error .ringBroken
  | some last =>
      .ok <|
        ((s.update i fun x =>
            { x with ringNext := some s.ringHead, ringPrev := some last }).update last
          fun x => { x with ringNext := some i }).update s.ringHead
            fun x => { x with ringPrev := some i }

end Buffers
end BufferCache
