import BufferCache.Calls.Call

/-!
# Writing back and emptying

A flush goes over all buffers twice.  In the first round a buffer may be found in
the middle of a transfer, or be changed again after its write was queued; the
second round waits for such writes and catches the change.  Before each round the
flush is announced, so that listeners can put what they still hold into buffers.

Emptying a device's buffers takes their validity and their changes away, once no
transfer is under way in them.  What was changed is not written back: the medium
that it belonged to is gone.

Both go over the buffers one by one and may give way at each, so a buffer is
looked at again after the wait.
-/

namespace BufferCache

/-- Whether a buffer of this device falls under a flush. -/
def Scope.covers : Scope → DeviceNumber → Bool
  | .device d, d' => d' == d
  | .everything, d' => d' != 0

namespace World

variable {g : Geometry}

/-! ## Flushing -/

/-- How often a flush goes over the buffers. -/
def flushRoundCount : Nat := 2

/-- Write changed blocks back. -/
def flush (w : World g) (scope : Scope) : Outcome g .unit :=
  w.goto (.flushRounds scope flushRoundCount 0)

/-- Begin the next round of a flush, with an announcement, or end the flush. -/
def flushRounds (w : World g) (scope : Scope) : (rounds writes : Nat) → Outcome g .unit
  | 0, writes => (w.note (.flushed scope writes)).done ()
  | rounds + 1, writes =>
      let taken := w.takeFlush
      taken.2.call (.play taken.1) (.announcing scope rounds writes)

/-- Go on with a round of a flush at the first of the buffers in `rest`. -/
def flushBuffers (w : World g) (scope : Scope) (rounds writes : Nat) :
    (rest : List g.Buffer) → Outcome g .unit
  | [] => w.goto (.flushRounds scope rounds writes)
  | i :: rest =>
      if scope.covers (w.cache.header i).device then
        w.call (.awaitUnlock i) (.flushAwaiting scope rounds writes i rest)
      else w.goto (.flushBuffers scope rounds writes rest)

/-- Buffer `i` is unlocked: write it back if it still falls under the flush and
is dirty. -/
def flushReady (w : World g) (scope : Scope) (rounds writes : Nat) (i : g.Buffer)
    (rest : List g.Buffer) : Outcome g .unit :=
  let h := w.cache.header i
  if scope.covers h.device && h.dirty then
    w.call (.request .write i) (.flushWriting scope rounds (writes + 1) rest)
  else w.goto (.flushBuffers scope rounds writes rest)

/-! ## Emptying -/

/-- Empty the buffers of a device. -/
def discard (w : World g) (d : DeviceNumber) : Outcome g .unit :=
  w.goto (.discardBuffers d g.allBuffers)

/-- Go on with the emptying at the first of the buffers in `rest`. -/
def discardBuffers (w : World g) (d : DeviceNumber) : (rest : List g.Buffer) →
    Outcome g .unit
  | [] => (w.note (.discarded d)).done ()
  | i :: rest =>
      if (w.cache.header i).device = d then
        w.call (.awaitUnlock i) (.discardAwaiting d i rest)
      else w.goto (.discardBuffers d rest)

/-- Buffer `i` is unlocked: empty it if it still belongs to the device. -/
def discardReady (w : World g) (d : DeviceNumber) (i : g.Buffer) (rest : List g.Buffer) :
    Outcome g .unit :=
  let emptied :=
    if (w.cache.header i).device = d then
      w.mapCache fun c => (c.setValid i false).setDirty i false
    else w
  emptied.goto (.discardBuffers d rest)

/-- Whether the driver of a device says that its medium was changed. -/
def mediumChanged (w : World g) (d : DeviceNumber) : Bool :=
  (w.cache.driver? d.major).any (·.mediumChanged d.minor)

/-- Empty the buffers of a device if its medium was changed; listeners hear of it
first. -/
def checkMedium (w : World g) (d : DeviceNumber) : Outcome g .flag :=
  if w.mediumChanged d then
    let taken := (w.note (.mediumChanged d)).takeEmptying d
    taken.2.call (.play taken.1) (.mediumAnnouncing d)
  else w.done false

end World
end BufferCache
