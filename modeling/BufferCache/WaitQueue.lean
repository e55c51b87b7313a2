/-!
# Wait queues

A task that finds a condition unmet takes a *ticket*, the number of wake-ups its
queue has seen, and waits for as long as that number stands.  Whoever changes
the condition wakes the queue afterwards.  A wake-up between the ticket and the
wait is therefore never lost: the ticket is already void when the wait begins.

Wake-ups are counted modulo `2 ^ 64`.

`countYields` is a wait on a queue of its own, for a task that is the only one:
it counts how often the task gives way, with wake-ups arranged in advance.
-/

namespace BufferCache

/-- A queue of waiting tasks, known by the number of its wake-ups so far. -/
structure WaitQueue where
  /-- How often the queue was woken. -/
  wakeups : UInt64 := 0
  deriving DecidableEq

namespace WaitQueue

/-- The ticket that a task takes before it waits. -/
def ticket (q : WaitQueue) : UInt64 :=
  q.wakeups

/-- Make every ticket taken so far void. -/
def wake (q : WaitQueue) : WaitQueue :=
  ⟨q.wakeups + 1⟩

/-- Wake the queue `n` times. -/
def wakeMany (q : WaitQueue) (n : Nat) : WaitQueue :=
  ⟨q.wakeups + UInt64.ofNat n⟩

/-- Whether a task with this ticket has to go on waiting. -/
def holds (q : WaitQueue) (ticket : UInt64) : Bool :=
  q.wakeups == ticket

/-- A ticket stands until the queue is woken. -/
theorem holds_ticket (q : WaitQueue) : q.holds q.ticket = true := by
  simp [holds, ticket]

/-- The next wake-up makes a ticket void, also where the count wraps. -/
theorem holds_wake_ticket (q : WaitQueue) : q.wake.holds q.ticket = false := by
  simp [holds, ticket, wake]

/-- Wait with a ticket, where the `n`-th time of giving way wakes the queue for
each `n` in `wakeAt`.  The count so far is `given`; a task whose patience is used
up gives up and has no count. -/
def countYieldsFrom (ticket : UInt64) (wakeAt : List Nat) :
    (patience given : Nat) → WaitQueue → Option (Nat × WaitQueue)
  | patience, given, q =>
      if q.holds ticket then
        match patience with
        | 0 => none
        | patience + 1 =>
            countYieldsFrom ticket wakeAt patience (given + 1)
              (if wakeAt.contains (given + 1) then q.wake else q)
      else some (given, q)

/-- How often a task may give way before it counts as stuck. -/
def patience : Nat := 1000

/-- How often a task with this ticket gives way until it is woken, and the queue
afterwards; nothing if it is stuck. -/
def countYields (q : WaitQueue) (ticket : UInt64) (wakeAt : List Nat) :
    Option (Nat × WaitQueue) :=
  countYieldsFrom ticket wakeAt patience 0 q

end WaitQueue
end BufferCache
