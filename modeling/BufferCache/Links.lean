/-!
# Following links

Hash chains, the ring of buffers and the chains of requests are all kept as
links between the elements of a fixed table.  `walk` is the list view that they
share: the elements met from a starting point on.  It takes a bound on its
length, for which the size of the table does, since a chain that visits an
element twice is not a chain.
-/

namespace BufferCache

/-- The elements met when `next` is followed from `start`, up to `bound` of
them. -/
def walk {α : Type} (next : α → Option α) : (bound : Nat) → (start : Option α) → List α
  | 0, _ => []
  | _ + 1, none => []
  | bound + 1, some a => a :: walk next bound (next a)

@[simp] theorem walk_none {α : Type} (next : α → Option α) (bound : Nat) :
    walk next bound none = [] := by
  cases bound <;> rfl

end BufferCache
