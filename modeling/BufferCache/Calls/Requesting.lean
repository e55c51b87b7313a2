import BufferCache.Calls.Call
import BufferCache.Calls.Waiting

/-!
# Queueing requests

To start a transfer of a buffer, the buffer is locked, a slot of the request
table is filled, and the slot is put into the chain of the driver; if that chain
was empty, the driver is started.  The buffer stays locked until the transfer is
ended.

Nothing is queued for the write of a clean buffer or the read of a valid one,
which can only be told once the buffer is locked.  A write counts as done when it
is queued: the buffer is clean from then on, and a change made later makes it
dirty again.

An operation ahead of need is dropped where it would have to wait, for the lock
or for a slot.
-/

namespace BufferCache
namespace World

variable {g : Geometry}

/-- Start an operation on the buffer behind a handle. -/
def issue (w : World g) (op : Operation) (h : Handle) : Outcome g .unit :=
  orFault (w.cache.resolve h) fun i => w.goto (.request op i)

/-- Whether an operation has nothing to do on a buffer. -/
def needless (op : Operation) (h : Header g.buffers) : Bool :=
  match op.direction with
  | .read => h.valid
  | .write => !h.dirty

/-- Put a request for buffer `i` into a free slot and the chain of its driver,
and start the driver if the chain was empty. -/
def file (w : World g) (op : Operation) (i : g.Buffer) (b : Block) (slot : g.Slot) :
    Outcome g .unit :=
  let filed := w.cache.requests.insert b.device.major slot (.ofBlock op.direction b) i
  let queued := w.mapCache fun c =>
    ({ c with requests := filed.1 }.setDirty i false).tick (Cache.counterOf op.direction)
  let reported := queued.note (.queued op.direction b)
  if filed.2 then reported.goto (.start b.device.major) else reported.done ()

/-- Queue a request for buffer `i`, which is locked, as soon as there is a
slot. -/
def enqueue (w : World g) (op : Operation) (i : g.Buffer) (d : DeviceNumber)
    (number : BlockNumber) : Outcome g .unit :=
  match w.cache.requests.freeSlot op.direction with
  | some slot => w.file op i ⟨d, number⟩ slot
  | none =>
      if op.ahead then ((w.note (.aheadCrowded op number)).unlock i).done ()
      else
        (w.note (.crowded op.direction number)).sleepIn .vacancy
          (.awaitingVacancy op i d number)

/-- Buffer `i` is locked: queue a request for it, or unlock it if there is nothing
to do. -/
def locked (w : World g) (op : Operation) (i : g.Buffer) (d : DeviceNumber) :
    Outcome g .unit :=
  if needless op (w.cache.header i) then (w.unlock i).done ()
  else w.enqueue op i d (w.cache.header i).number

/-- Start an operation on buffer `i`, on the device that it belongs to now. -/
def request (w : World g) (op : Operation) (i : g.Buffer) : Outcome g .unit :=
  let d := (w.cache.header i).device
  match w.cache.driver? d.major with
  | none => fault (.noDriver d)
  | some _ =>
      if op.ahead then
        if (w.cache.header i).locked then (w.note (.aheadLocked op i.val)).done ()
        else (w.mapCache (·.lock i)).locked op i d
      else w.call (.lock i) (.locking op i d)

end World
end BufferCache
