import BufferCache.Requests.Transfer
import BufferCache.Links

/-!
# The request table

All drivers share one table of request slots.  The requests of one driver form a
chain through the table, which begins at the *current* request, the one that the
driver is serving.

* `freeSlot` finds a slot for a request: reads may use the whole table, writes
  only the first two thirds of it, so that writes alone cannot fill it.
* `insert` puts a request into the chain of a driver: behind the current one,
  which the driver already has in hand, and before the first that it precedes in
  the order of service.
* `retire` takes the current request off its chain.
* `queued` lists the chain of a driver.
-/

namespace BufferCache

/-- A request: a transfer, the buffer it fills or empties, and its successor in
the chain of its driver. -/
structure Request (g : Geometry) where
  /-- What the driver is to do. -/
  transfer : Transfer
  /-- The buffer whose page is moved. -/
  buffer : g.Buffer
  /-- The request served after this one. -/
  next : Option g.Slot := none
  deriving DecidableEq

/-- The request slots, and the current request of each driver. -/
structure RequestTable (g : Geometry) where
  /-- The slots; an empty one is free. -/
  slots : Vector (Option (Request g)) g.requests
  /-- The slot of the current request, by major number. -/
  current : Vector (Option g.Slot) majorCount

namespace RequestTable

variable {g : Geometry}

/-- The table in which every slot is free. -/
def initial (g : Geometry) : RequestTable g where
  slots := Vector.replicate g.requests none
  current := Vector.replicate majorCount none

/-- The request in a slot. -/
def request? (r : RequestTable g) (i : g.Slot) : Option (Request g) :=
  r.slots[i]

/-- The request behind the one in slot `i`. -/
def next? (r : RequestTable g) (i : g.Slot) : Option g.Slot :=
  (r.request? i).bind Request.next

/-- The number of slots that a request of this direction may use. -/
def usable (g : Geometry) : Direction → Nat
  | .read => g.requests
  | .write => g.writeSlots

/-- The last free slot among those that a request of this direction may use. -/
def freeSlot (r : RequestTable g) (d : Direction) : Option g.Slot :=
  g.allSlots.reverse.find? fun i => decide (i.val < usable g d) && (r.request? i).isNone

/-- A slot that is found for a request is free, and one that it may use. -/
theorem freeSlot_eq_some {r : RequestTable g} {d : Direction} {i : g.Slot}
    (h : r.freeSlot d = some i) : r.request? i = none ∧ i.val < usable g d := by
  have := List.find?_some h
  simp only [Bool.and_eq_true, decide_eq_true_eq, Option.isNone_iff_eq_none] at this
  exact ⟨this.2, this.1⟩

/-- No slot is found for a request just if all that it may use are taken. -/
theorem freeSlot_eq_none_iff {r : RequestTable g} {d : Direction} :
    r.freeSlot d = none ↔ ∀ i : g.Slot, i.val < usable g d → r.request? i ≠ none := by
  simp [freeSlot, Geometry.allSlots]

/-- The slot of the current request of major `m`. -/
def currentSlot (r : RequestTable g) (m : Nat) : Option g.Slot :=
  (r.current[m]?).join

/-- The current request of major `m`. -/
def currentRequest (r : RequestTable g) (m : Nat) : Option (Request g) :=
  (r.currentSlot m).bind r.request?

/-- The table with the content of a slot replaced. -/
def setSlot (r : RequestTable g) (i : g.Slot) (q : Option (Request g)) : RequestTable g :=
  { r with slots := r.slots.set i q }

theorem request?_setSlot (r : RequestTable g) (i j : g.Slot) (q : Option (Request g)) :
    (r.setSlot i q).request? j = if i = j then q else r.request? j := by
  by_cases h : i = j
  · subst h; simp [setSlot, request?]
  · have hv : i.val ≠ j.val := fun hv => h (Fin.ext hv)
    simp [setSlot, request?, h, hv]

@[simp] theorem currentSlot_setSlot (r : RequestTable g) (i : g.Slot)
    (q : Option (Request g)) (m : Nat) : (r.setSlot i q).currentSlot m = r.currentSlot m := rfl

/-- The table with the current request of major `m` replaced. -/
def setCurrent (r : RequestTable g) (m : Nat) (i : Option g.Slot) : RequestTable g :=
  { r with current := r.current.setIfInBounds m i }

@[simp] theorem request?_setCurrent (r : RequestTable g) (m : Nat) (i : Option g.Slot)
    (j : g.Slot) : (r.setCurrent m i).request? j = r.request? j := rfl

theorem currentSlot_setCurrent (r : RequestTable g) (m : Nat) (i : Option g.Slot) (m' : Nat) :
    (r.setCurrent m i).currentSlot m' =
      if m = m' ∧ m < majorCount then i else r.currentSlot m' := by
  unfold setCurrent currentSlot
  rw [Vector.getElem?_setIfInBounds]
  by_cases h : m = m'
  · subst h
    by_cases hm : m < majorCount
    · simp [hm]
    · simp [hm]
  · simp [h]

/-- The table with the request in slot `i` followed by `next`. -/
def setNext (r : RequestTable g) (i : g.Slot) (next : Option g.Slot) : RequestTable g :=
  r.setSlot i ((r.request? i).map fun q => { q with next := next })

/-- The slots of the chain of major `m`, in the order of service. -/
def chain (r : RequestTable g) (m : Nat) : List g.Slot :=
  walk r.next? g.requests (r.currentSlot m)

/-- The transfers that wait for major `m`, the current one first. -/
def queued (r : RequestTable g) (m : Nat) : List Transfer :=
  (r.chain m).filterMap fun i => (r.request? i).map Request.transfer

/-- From the request in slot `i` on, the last one behind which the transfer `t`
has to stand: the one before the first that `t` precedes. -/
def placeFor (r : RequestTable g) (t : Transfer) : (bound : Nat) → g.Slot → g.Slot
  | 0, i => i
  | bound + 1, i =>
      match r.next? i with
      | none => i
      | some j =>
          match r.request? j with
          | none => i
          | some q => if t.Precedes q.transfer then i else r.placeFor t bound j

/-- The table with a request for transfer `t` of buffer `b` in slot `i` and in
the chain of major `m`, and whether that chain was empty, so that the driver has
to be started. -/
def insert (r : RequestTable g) (m : Nat) (i : g.Slot) (t : Transfer) (b : g.Buffer) :
    RequestTable g × Bool :=
  match r.currentSlot m with
  | none =>
      ((r.setSlot i (some { transfer := t, buffer := b })).setCurrent m (some i), true)
  | some first =>
      let place := r.placeFor t g.requests first
      ((r.setSlot i (some { transfer := t, buffer := b, next := r.next? place })).setNext
        place (some i), false)

/-- The table without the current request of major `m`, which stands in slot `i`,
and whether another one takes its place. -/
def retire (r : RequestTable g) (m : Nat) (i : g.Slot) : RequestTable g × Bool :=
  let next := r.next? i
  ((r.setSlot i none).setCurrent m next, next.isSome)

end RequestTable
end BufferCache
