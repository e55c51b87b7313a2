import BufferCache.Requests.Table

/-!
# What the request table keeps

Putting a request into a slot changes no other request, apart from which one is
served after it, and so does taking the current request away.  `Request.order` is
what stays the same: the transfer and the buffer.
-/

namespace BufferCache

variable {g : Geometry}

/-- What a request asks for: the transfer and the buffer. -/
def Request.order (q : Request g) : Transfer × g.Buffer :=
  (q.transfer, q.buffer)

namespace RequestTable

variable (r : RequestTable g) (m : Nat) (i j : g.Slot) (t : Transfer) (b : g.Buffer)

/-- What the request in a slot asks for. -/
def order? : Option (Transfer × g.Buffer) :=
  (r.request? i).map Request.order

theorem order?_eq_none_iff : r.order? i = none ↔ r.request? i = none := by
  rw [order?, Option.map_eq_none_iff]

theorem order?_setNext (next : Option g.Slot) :
    (r.setNext i next).order? j = r.order? j := by
  unfold order? setNext
  rw [request?_setSlot]
  by_cases h : i = j
  · subst h
    rw [if_pos rfl, Option.map_map]
    rfl
  · rw [if_neg h]

/-- A request that is put into a slot asks for what it was made for, and all others go
on asking for what they did. -/
theorem order?_insert :
    (r.insert m i t b).1.order? j = if i = j then some (t, b) else r.order? j := by
  have hset (next : Option g.Slot) :
      (r.setSlot i (some { transfer := t, buffer := b, next := next })).order? j =
        if i = j then some (t, b) else r.order? j := by
    rw [order?, request?_setSlot]
    split
    · rfl
    · rfl
  unfold insert
  split
  · exact hset none
  · dsimp only
    rw [order?_setNext]
    exact hset _

/-- Ending the current request frees its slot, and nothing else. -/
theorem request?_retire :
    (r.retire m i).1.request? j = if i = j then none else r.request? j := by
  rw [retire, request?_setCurrent, request?_setSlot]

theorem order?_retire :
    (r.retire m i).1.order? j = if i = j then none else r.order? j := by
  rw [order?, request?_retire]
  split <;> rfl

end RequestTable
end BufferCache
