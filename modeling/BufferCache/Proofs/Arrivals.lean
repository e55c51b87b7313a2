import BufferCache.Proofs.Acquisitions
import BufferCache.Proofs.Operations

/-!
# The bytes that a read waits for

Once a read was started for a buffer, its bytes are there or a request for it is queued.  Others
may end the request, queue further ones, write the buffer or mark its bytes; but as long as the
buffer keeps its block, only two kinds of move can take the bytes from whoever waits for them: a
request for the buffer ends without success, or its device is emptied.  Such a move `Spoils` the
buffer.

That the buffer keeps its block is not certain.  A client that gives back what it does not have
can make a buffer free under a read.  The read finds this out by the generation, unless the
buffer has been given so many blocks that the generation has come round; a `Turnover` is a span
in which it is counted for all buffers how often that happens.
-/

namespace BufferCache

variable {g : Geometry}

namespace Machine

variable {on : Machine g → Prop} {m m' n n' a b : Machine g} {i : g.Buffer}
  {k : g.Buffer → Nat}

/-! ## Turnover -/

/-- How often a buffer was given another block, one move later. -/
def turned (k : g.Buffer → Nat) (m m' : Machine g) (i : g.Buffer) : Nat :=
  if m'.content i = m.content i then k i else k i + 1

theorem le_turned (k : g.Buffer → Nat) (m m' : Machine g) (i : g.Buffer) :
    k i ≤ turned k m m' i := by
  unfold turned
  split
  · exact Nat.le_refl _
  · exact Nat.le_succ _

/-- From one machine to a later one, through machines for which `on` holds; on the way, each
buffer is given another block so many times. -/
inductive Turnover (on : Machine g → Prop) (m : Machine g) : (g.Buffer → Nat) → Machine g → Prop
  | refl : Turnover on m (fun _ => 0) m
  | tail {k : g.Buffer → Nat} {a b : Machine g} : Turnover on m k a → on a → a.Moves b →
      Turnover on m (turned k a b) b

theorem Turnover.leads (h : Turnover on m k n) : Leads on m n := by
  induction h with
  | refl => exact .refl
  | tail _ hon hmove ih => exact ih.tail ⟨hon, hmove⟩

theorem Turnover.head (hm : on m) (hmove : m.Moves m') (h : Turnover on m' k n) :
    ∃ k', Turnover on m k' n ∧ ∀ i, k' i ≤ k i + 1 := by
  induction h with
  | refl =>
    refine ⟨_, .tail .refl hm hmove, fun i => ?_⟩
    unfold turned
    split <;> omega
  | @tail k a b _ hon hmoves ih =>
    obtain ⟨k', hspan, hle⟩ := ih
    refine ⟨_, .tail hspan hon hmoves, fun i => ?_⟩
    have := hle i
    unfold turned
    split <;> omega

/-- Some steps, before the last of which no value of the shape was handed over; no buffer was
given more blocks than there were steps. -/
theorem exists_turnover_after {s : Shape} (base : Stack g s) {t : Nat}
    (h : ∀ u < t, (m.after u).gives s = false) :
    ∃ k, Turnover (¬ Returned base ·) m k (m.after t) ∧ ∀ i, k i ≤ t := by
  induction t generalizing m with
  | zero => exact ⟨_, .refl, fun _ => Nat.le_refl 0⟩
  | succ t ih =>
    have hm : ¬ m.Returned base := fun hreturned =>
      Bool.false_ne_true ((h 0 (Nat.succ_pos t)).symm.trans (gives_of_returned hreturned))
    cases hstep : m.step with
    | running m₁ =>
      have hafter (u : Nat) : m.after (u + 1) = m₁.after u := by
        simp [after, Conduct.after, hstep, Conduct.free]
      obtain ⟨k, hspan, hle⟩ := ih fun u hu => hafter u ▸ h (u + 1) (Nat.succ_lt_succ hu)
      obtain ⟨k', hspan', hle'⟩ := hspan.head hm (.step (steps_of_step hstep))
      rw [hafter]
      exact ⟨k', hspan', fun i => (hle' i).trans (Nat.succ_le_succ (hle i))⟩
    | _ =>
      have hafter : m.after (t + 1) = m := by
        simp [after, Conduct.after, hstep]
      rw [hafter]
      exact ⟨_, .refl, fun _ => Nat.zero_le _⟩

/-- A buffer is given another block at most so many times. -/
def ReusesUpTo (on : Machine g → Prop) (i : g.Buffer) (t : Nat) (m n : Machine g) : Prop :=
  ∃ r ≤ t, Reuses on i m r n

theorem ReusesUpTo.moves (h : ReusesUpTo on i (k i) m a) (hon : on a) (hmove : a.Moves b) :
    ReusesUpTo on i (turned k a b i) m b := by
  obtain ⟨r, hr, hspan⟩ := h
  unfold turned
  split
  · exact ⟨r, hr, hspan.keep hon hmove ‹_›⟩
  · exact ⟨r + 1, Nat.succ_le_succ hr, hspan.reuse hon hmove ‹_›⟩

/-! ## What spoils a buffer -/

/-- Whether the bytes in a buffer are those of its block. -/
def valid (m : Machine g) (i : g.Buffer) : Bool :=
  (m.world.cache.header i).valid

/-- There is a request for buffer `i`. -/
def Queued (i : g.Buffer) (m : Machine g) : Prop :=
  ∃ slot t, m.order? slot = some (t, i)

/-- The bytes are there, or there is a request for the buffer. -/
def Coming (i : g.Buffer) (m : Machine g) : Prop :=
  m.valid i = true ∨ m.Queued i

/-- From `m` to `m'`, a request for buffer `i` ends without success, or the buffer is emptied as
its device is. -/
def Spoils (i : g.Buffer) (m m' : Machine g) : Prop :=
  (∃ slot t, m.order? slot = some (t, i) ∧ m'.order? slot = none ∧ m'.valid i = false) ∨
    m.Empties i

/-- On the way from `m` to `n`, buffer `i` was spoiled. -/
def Spoiled (on : Machine g → Prop) (i : g.Buffer) (m n : Machine g) : Prop :=
  ∃ a b, Leads on m a ∧ on a ∧ a.Moves b ∧ Leads on b n ∧ a.Spoils i b

theorem Spoiled.moves (h : Spoiled on i m a) (hon : on a) (hmove : a.Moves b) :
    Spoiled on i m b := by
  obtain ⟨x, y, hspan, hx, hxy, hrest, hspoils⟩ := h
  exact ⟨x, y, hspan, hx, hxy, hrest.tail ⟨hon, hmove⟩, hspoils⟩

theorem Reachable.locked_of_queued (h : m.Reachable) (hi : m.Queued i) :
    (m.world.cache.header i).locked = true := by
  obtain ⟨slot, t, ht⟩ := hi
  exact h.locked_of_order? ht

end Machine

/-- Bytes that are there stay there, unless a request for their buffer ends, the buffer is emptied
or it is given another block. -/
theorem Effect.valid_apply {e : Effect g} {c : Cache g} {i : g.Buffer} (hfits : e.Fits c)
    (hvalid : (c.header i).valid = true) : ((e.apply c).header i).valid = true ∨
      (∃ slot t, c.requests.order? slot = some (t, i) ∧
        (e.apply c).requests.order? slot = Option.none) ∨
      (∃ d, e = .empty d i) ∨ ∃ b s, e = .assign i b s := by
  have hkept {h : Header g.buffers} (hh : h.valid = (c.header i).valid) : h.valid = true :=
    hh.trans hvalid
  have hended (c' : Cache g) (m : Nat) (slot : g.Slot) (q : Request g) (success : Bool)
      (hq : c.requests.request? slot = some q) (hheader : c'.header i = c.header i) :
      ((c'.conclude m slot q success).header i).valid = true ∨
        ∃ k t, c.requests.order? k = some (t, i) ∧
          (c'.conclude m slot q success).requests.order? k = Option.none := by
    by_cases hi : q.buffer = i
    · refine .inr ⟨slot, q.transfer, RequestTable.order?_eq_some_iff.mpr ⟨q, hq, rfl, hi⟩, ?_⟩
      rw [Cache.order?_conclude, if_pos rfl]
    · rw [Cache.header_conclude, if_neg hi, hheader]
      exact .inl hvalid
  cases e with
  | none | count | register => exact .inl hvalid
  | refer b j =>
    rw [apply, Cache.header_refer]
    exact .inl (hkept (by split <;> rfl))
  | unrefer j =>
    rw [apply, Cache.header_unrefer]
    exact .inl (hkept (by split <;> rfl))
  | lock j =>
    rw [apply, Cache.header_lock]
    exact .inl (hkept (by split <;> rfl))
  | unlock j =>
    rw [apply, Cache.header_unlock]
    exact .inl (hkept (by split <;> rfl))
  | graze j =>
    rw [apply, Cache.header_unlock, Cache.header_lock]
    exact .inl (hkept (by split <;> rfl))
  | queue direct d j b slot =>
    refine .inl (hkept ?_)
    cases direct with
    | false =>
      rw [apply, Cache.header_enqueue]
      split <;> rfl
    | true =>
      rw [apply, Cache.header_enqueue, if_pos rfl, Cache.header_lock]
      split <;> rfl
  | finish m slot q success =>
    exact (hended c m slot q success hfits.2 rfl).imp_right .inl
  | serve m d slot q =>
    exact (hended (c.carryOut m d q) d.major slot q _ hfits.2.2 rfl).imp_right .inl
  | assign j b s =>
    by_cases hj : j = i
    · subst hj
      exact .inr (.inr (.inr ⟨b, s, rfl⟩))
    · have hsame := Buffers.bare_reassign hfits.2.2.2.2 i
      rw [if_neg hj] at hsame
      rw [apply, Cache.header_assign]
      exact .inl (hkept (congrArg Header.valid hsame :))
  | edit j page valid dirty =>
    rw [apply, Cache.header_edit]
    split
    · rw [hvalid, Bool.or_true]
      exact .inl rfl
    · exact .inl hvalid
  | empty d j =>
    by_cases hj : j = i
    · subst hj
      exact .inr (.inr (.inl ⟨d, rfl⟩))
    · rw [apply, Cache.header_setDirty, if_neg hj, Cache.header_setValid, if_neg hj]
      exact .inl hvalid

namespace Machine

variable {on : Machine g → Prop} {m m' n n' a b : Machine g} {i : g.Buffer}

/-- In a move in which a buffer keeps its block, what is coming comes on, or is spoiled. -/
theorem Reachable.coming_of_moves (h : m.Reachable) (hm : m.Moves m')
    (hkept : m'.content i = m.content i) (hcoming : m.Coming i) :
    m'.Coming i ∨ m.Spoils i m' := by
  have hended {slot : g.Slot} {t : Transfer} (ho : m.order? slot = some (t, i))
      (hnone : m'.order? slot = none) : m'.Coming i ∨ m.Spoils i m' := by
    cases hvalid : m'.valid i with
    | true => exact .inl (.inl hvalid)
    | false => exact .inr (.inl ⟨slot, t, ho, hnone, hvalid⟩)
  rcases hcoming with hvalid | ⟨slot, t, ho⟩
  · cases hm with
    | next waiting c => exact .inl (.inl hvalid)
    | step hs =>
      obtain ⟨⟨e, hfits, happly, hdue⟩, -⟩ := hs.affects h.aimed
      rcases Effect.valid_apply hfits hvalid with hstill | ⟨slot, t, ho, hnone⟩ | ⟨d, rfl⟩ |
        ⟨b, s, rfl⟩
      · refine .inl (.inl ?_)
        rw [valid, happly]
        exact hstill
      · refine hended ho ?_
        rw [order?, happly]
        exact hnone
      · obtain rfl : (m.world.cache.header i).device = d := hfits
        exact .inr (.inr (hdue _ rfl))
      · -- A buffer is given a block only if that is in no buffer.
        have hreassigns := h.reassigns_of_assign (h.moves (.step hs)) hfits happly
        have hnew : m'.content i = some b := (congrArg Header.content hreassigns.given :)
        exact absurd (hkept.symm.trans hnew) (h.contains_eq_false_iff.mp hreassigns.absent i)
  · rcases (h.order?_of_moves hm ho).2 with hstill | ⟨hnone, -⟩
    · exact .inl (.inr ⟨slot, t, hstill⟩)
    · exact hended ho hnone

/-- As far as a buffer has kept its block since `m`, its bytes are coming or it was spoiled. -/
def Awaits (on : Machine g → Prop) (i : g.Buffer) (t : Nat) (m n : Machine g) : Prop :=
  ∃ r ≤ t, Reuses on i m r n ∧ (r = 0 → Spoiled on i m n ∨ n.Coming i)

theorem ReusesUpTo.awaits {t : Nat} (h : ReusesUpTo on i t m n) (hn : n.Coming i) :
    Awaits on i t m n := by
  obtain ⟨r, hr, hspan⟩ := h
  exact ⟨r, hr, hspan, fun _ => .inr hn⟩

theorem Awaits.moves {k : g.Buffer → Nat} (h : Awaits on i (k i) m a) (hm : m.Reachable)
    (hon : on a) (hmove : a.Moves b) : Awaits on i (turned k a b i) m b := by
  obtain ⟨r, hr, hspan, hcoming⟩ := h
  unfold turned
  split
  · rename_i hkept
    refine ⟨r, hr, hspan.keep hon hmove hkept, fun hzero => ?_⟩
    rcases hcoming hzero with hspoiled | hcoming
    · exact .inl (hspoiled.moves hon hmove)
    · rcases (hm.leads hspan.leads).coming_of_moves hmove hkept hcoming with hstill | hspoils
      · exact .inr hstill
      · exact .inl ⟨a, b, hspan.leads, hon, hmove, .refl, hspoils⟩
  · exact ⟨r + 1, Nat.succ_le_succ hr, hspan.reuse hon hmove ‹_›, nofun⟩

/-- The buffer is unlocked and in the generation in which it was.  Then its bytes are there or it
was spoiled, and it has its block. -/
theorem Awaits.arrived {t : Nat} (h : Awaits on i t m n) (hm : m.Reachable)
    (ht : t < UInt32.size) (hgeneration : n.generation i = m.generation i)
    (hunlocked : (n.world.cache.header i).locked = false) :
    n.content i = m.content i ∧ (Spoiled on i m n ∨ n.valid i = true) := by
  obtain ⟨r, hr, hspan, hcoming⟩ := h
  obtain rfl : r = 0 := Nat.eq_zero_of_dvd_of_lt ((hspan.generation_eq_iff hm).mp hgeneration)
    (Nat.lt_of_le_of_lt hr ht)
  refine ⟨hspan.content_eq, (hcoming rfl).imp_right fun h => h.resolve_right fun hqueued => ?_⟩
  cases hunlocked.symm.trans ((hm.leads hspan.leads).locked_of_queued hqueued)

/-! ## Starting to read a buffer -/

/-- Where the start of a read of buffer `x` above `base` has come to. -/
inductive Starting (x : g.Buffer) (base : Stack g .unit) : Machine g → Prop
  | begins {n : Machine g} : n.Begins .read x base → Starting x base n
  | locking {d : DeviceNumber} {n : Machine g} :
      (Stack.push (.locking .read x d) base).Beneath n.stack → Starting x base n
  | enqueue {w : World g} {d : DeviceNumber} {number : BlockNumber} :
      Starting x base ⟨w, .unit, .run (.enqueue .read x d number), base⟩
  | awaiting {d : DeviceNumber} {number : BlockNumber} {n : Machine g} :
      (Stack.push (.awaitingVacancy .read x d number) base).Beneath n.stack → Starting x base n

end Machine

section Starting

variable {w w' : World g} {x : g.Buffer} {d : DeviceNumber} {number : BlockNumber}
  {next : Next g .unit}

/-- A read is queued, or waits for a slot. -/
theorem World.enqueue_read (h : w.enqueue .read x d number = .ok (w', next)) :
    (∃ slot t, w'.cache.requests.order? slot = some (t, x)) ∨
      ∃ q ticket, next = .call (.sleep q ticket) (.awaitingVacancy .read x d number) := by
  unfold enqueue at h
  split at h
  · rename_i slot hslot
    have hqueued : (w.cache.enqueue .read x ⟨d, number⟩ slot).requests.order? slot =
        some (.ofBlock .read ⟨d, number⟩, x) :=
      (RequestTable.order?_insert ..).trans (if_pos rfl)
    refine .inl ⟨slot, .ofBlock .read ⟨d, number⟩, ?_⟩
    unfold file at h
    dsimp only at h
    split at h <;> cases h <;> exact hqueued
  · cases h
    exact .inr ⟨_, _, rfl⟩

/-- Once the buffer is locked for it, a read starts, unless the bytes are there. -/
theorem World.locked_read (h : w.locked .read x d = .ok (w', next)) :
    (w'.cache.header x).valid = true ∨
      (∃ slot t, w'.cache.requests.order? slot = some (t, x)) ∨
      ∃ q ticket number, next = .call (.sleep q ticket) (.awaitingVacancy .read x d number) := by
  unfold locked at h
  split at h
  · rename_i hneedless
    have hvalid : (w.cache.header x).valid = true := hneedless
    cases h
    left
    rw [cache_unlock, Cache.header_unlock, if_pos rfl]
    exact hvalid
  · exact .inr ((enqueue_read h).imp_right fun ⟨q, ticket, hnext⟩ => ⟨q, ticket, _, hnext⟩)

end Starting

namespace Machine

variable {x : g.Buffer} {base : Stack g .unit} {n n' : Machine g}

theorem Starting.beneath (h : Starting x base n) : base.Beneath n.stack := by
  cases h with
  | begins hbegins => cases hbegins <;> exact .here
  | locking hbeneath => exact hbeneath.of_push
  | enqueue => exact .here
  | awaiting hbeneath => exact hbeneath.of_push

/-- A move within the start of a read goes on with it, or the bytes are coming. -/
theorem Starting.moves (h : Starting x base n) (hmove : n.Moves n') :
    Starting x base n' ∨ n'.Coming x ∧ base.Beneath n'.stack := by
  have hbegun {w' : World g} {next : Next g .unit}
      (hnext : (w'.cache.header x).valid = true ∨
        (∃ slot t, w'.cache.requests.order? slot = some (t, x)) ∨
        ∃ q ticket d number,
          next = .call (.sleep q ticket) (.awaitingVacancy .read x d number)) :
      Starting x base (next.machine w' base) ∨
        (next.machine w' base).Coming x ∧ base.Beneath (next.machine w' base).stack := by
    rcases hnext with hvalid | hqueued | ⟨q, ticket, d, number, rfl⟩
    · refine .inr ⟨.inl ?_, beneath_next .here w' next⟩
      rw [valid, world_next]
      exact hvalid
    · refine .inr ⟨.inr ?_, beneath_next .here w' next⟩
      unfold Queued order?
      rw [world_next]
      exact hqueued
    · exact .inl (.awaiting .here)
  cases h with
  | begins hbegins =>
    cases hbegins with
    | @issue w h hresolve =>
      obtain ⟨w', next, hnext, rfl⟩ := moves_of_run hmove
      change World.orFault (w.cache.resolve h) _ = _ at hnext
      rw [hresolve] at hnext
      cases hnext
      exact .inl (.begins .request)
    | @request w =>
      obtain ⟨w', next, hnext, rfl⟩ := moves_of_run hmove
      change w.request .read x = _ at hnext
      unfold World.request at hnext
      dsimp only at hnext
      split at hnext
      · cases hnext
      · cases hnext
        exact .inl (.locking .here)
  | @locking d _ hbeneath =>
    rcases resumes_or_beneath hbeneath hmove with ⟨w, v, w', next, rfl, hnext, rfl⟩ | hstill
    · refine hbegun ((World.locked_read hnext).imp_right (.imp_right fun hslept => ?_))
      obtain ⟨q, ticket, number, he⟩ := hslept
      exact ⟨q, ticket, d, number, he⟩
    · exact .inl (.locking hstill)
  | @enqueue w d number =>
    obtain ⟨w', next, hnext, rfl⟩ := moves_of_run hmove
    refine hbegun (.inr ((World.enqueue_read hnext).imp_right fun hslept => ?_))
    obtain ⟨q, ticket, he⟩ := hslept
    exact ⟨q, ticket, d, number, he⟩
  | @awaiting d number _ hbeneath =>
    rcases resumes_or_beneath hbeneath hmove with ⟨w, v, w', next, rfl, hnext, rfl⟩ | hstill
    · cases hnext
      exact .inl .enqueue
    · exact .inl (.awaiting hstill)

end Machine
end BufferCache
