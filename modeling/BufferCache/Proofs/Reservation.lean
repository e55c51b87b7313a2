import BufferCache.Proofs.Occupancy
import BufferCache.Proofs.Wakeups
import Mathlib.Data.Fintype.Fin

/-!
# Slots kept for reads

A write may use the first two thirds of the request table, a read all of it.  So the slots of
the last third, the *reserve*, never hold anything but reads, however requests come and go: a
slot is filled by a request that may use it, and until it is free again it keeps what it
holds.

This is what reads gain by it.  A slot for a read is missing only where the table is
*crowded*: all slots are taken, and reads take at least as many as there are in the reserve.
There are three steps in which a slot is looked for, `Machine.Seeks`; a read that finds one is
queued in that step.  One that finds none is dropped if it is ahead of need, and sleeps
otherwise; and while it sleeps with a ticket that stands, the table is still crowded.
-/

namespace BufferCache

variable {g : Geometry}

/-! ## The reserve -/

namespace Geometry

/-- The slots that writes may not use. -/
def reserve (g : Geometry) : Finset g.Slot :=
  Finset.univ.filter fun k => g.writeSlots ≤ k.val

theorem mem_reserve {k : g.Slot} : k ∈ g.reserve ↔ g.writeSlots ≤ k.val := by
  rw [reserve, Finset.mem_filter]
  exact and_iff_right (Finset.mem_univ k)

theorem writeSlots_lt_requests (g : Geometry) : g.writeSlots < g.requests := by
  have hpos := g.writeSlots_pos
  unfold Config.writeSlots at hpos ⊢
  omega

theorem card_reserve (g : Geometry) : g.reserve.card = g.requests - g.writeSlots := by
  have hlow : (Finset.univ.filter fun k : g.Slot => k.val < g.writeSlots).card =
      g.writeSlots := by
    rw [Fin.card_filter_val_lt, Nat.min_eq_right g.writeSlots_lt_requests.le]
  have hsplit := Finset.card_filter_add_card_filter_not (s := (Finset.univ : Finset g.Slot))
    fun k => k.val < g.writeSlots
  rw [Finset.card_univ, Fintype.card_fin, hlow] at hsplit
  simp only [Nat.not_lt] at hsplit
  rw [reserve]
  omega

end Geometry

namespace RequestTable

variable {r : RequestTable g} {m : Nat} {i : g.Buffer} {k : g.Slot} {d : Direction} {b : Block}

/-- The reserve holds nothing but reads. -/
def Reserved (r : RequestTable g) : Prop :=
  ∀ k ∈ g.reserve, ∀ o, r.order? k = some o → o.1.direction = .read

theorem Reserved.insert (h : r.Reserved) (hslot : r.freeSlot d = some k) :
    (r.insert m k (.ofBlock d b) i).1.Reserved := by
  intro j hj o ho
  rw [order?_insert] at ho
  split at ho
  · rename_i hkj
    cases ho
    cases d with
    | read => rfl
    | write =>
      have hlow : k.val < g.writeSlots := (freeSlot_eq_some hslot).2
      have hhigh := Geometry.mem_reserve.mp hj
      rw [← hkj] at hhigh
      exact absurd hlow (Nat.not_lt_of_le hhigh)
  · exact h j hj o ho

theorem Reserved.retire (h : r.Reserved) : (r.retire m k).1.Reserved := by
  intro j hj o ho
  rw [order?_retire] at ho
  split at ho
  · cases ho
  · exact h j hj o ho

theorem reserved_initial (g : Geometry) : (initial g).Reserved := by
  intro k _ o ho
  simp [order?, request?, initial] at ho

/-- Writes leave the reserve free. -/
theorem Reserved.card_writes_le (h : r.Reserved) :
    (r.slotsWith Direction.write.asked).card ≤ g.writeSlots := by
  have hlow : r.slotsWith Direction.write.asked ⊆
      Finset.univ.filter fun k : g.Slot => k.val < g.writeSlots := by
    intro k hk
    obtain ⟨o, ho, hwrite⟩ := mem_slotsWith.mp hk
    refine Finset.mem_filter.mpr ⟨Finset.mem_univ k, ?_⟩
    by_contra hhigh
    have hread := h k (Geometry.mem_reserve.mpr (Nat.le_of_not_lt hhigh)) o ho
    have hwrite := of_decide_eq_true hwrite
    cases hread.symm.trans hwrite
  refine (Finset.card_le_card hlow).trans ?_
  rw [Fin.card_filter_val_lt]
  exact Nat.min_le_right _ _

/-- Where all slots are taken, reads fill the reserve. -/
theorem Reserved.le_card_reads (h : r.Reserved) (hfull : ∀ k, r.request? k ≠ none) :
    g.reserve.card ≤ (r.slotsWith Direction.read.asked).card := by
  refine Finset.card_le_card fun k hk => ?_
  obtain ⟨o, ho⟩ := Option.ne_none_iff_exists'.mp
    (mt (r.order?_eq_none_iff k).mp (hfull k))
  exact mem_slotsWith.mpr ⟨o, ho, decide_eq_true (h k hk o ho)⟩

end RequestTable

/-- The reserve goes on to hold nothing but reads. -/
theorem Effect.reserved {e : Effect g} {c : Cache g} (h : c.requests.Reserved)
    (hfits : e.Fits c) : (e.apply c).requests.Reserved := by
  cases e with
  | queue direct d i b slot =>
    cases direct with
    | false => exact h.insert hfits.1
    | true => exact h.insert hfits.1
  | finish m slot q success =>
    rw [apply, Cache.requests_conclude]
    exact h.retire
  | serve m d slot q =>
    rw [apply, Cache.requests_conclude]
    exact h.retire
  | assign i b s =>
    rw [apply, Cache.requests_assign]
    exact h
  | edit i page valid dirty =>
    rw [apply, Cache.requests_edit]
    exact h
  | _ => exact h

namespace Machine

variable {m m' : Machine g} {op : Operation} {i : g.Buffer} {b : Block}
  {count : Queue g → Nat}

theorem Reachable.reserved (h : m.Reachable) : m.world.cache.requests.Reserved := by
  let Inv (m : Machine g) : Prop := m.Reachable ∧ m.world.cache.requests.Reserved
  suffices hm : Inv m from hm.2
  refine h.invariant (fun waiting c => ?_) (fun m m' hm hs => ?_) fun w a waiting c hm => ?_
  · exact ⟨reachable_start waiting c, RequestTable.reserved_initial g⟩
  · obtain ⟨e, hfits, happly⟩ := hm.1.exists_effect (.step hs)
    refine ⟨hm.1.moves (.step hs), ?_⟩
    rw [happly]
    exact Effect.reserved hm.2 hfits
  · exact ⟨hm.1.moves (.next waiting c), hm.2⟩

/-! ## Looking for a slot -/

/-- The next step looks for a slot for an operation on buffer `i`, to move block `b`: the
buffer has just been locked and there is something to do, or the step itself locks it, or the
operation slept for a slot. -/
inductive Seeks (op : Operation) (i : g.Buffer) (b : Block) : Machine g → Prop
  | again {w : World g} {stack : Stack g .unit} :
      Seeks op i b ⟨w, .unit, .run (.enqueue op i b.device b.number), stack⟩
  | locked {w : World g} {stack : Stack g .unit} :
      World.needless op (w.cache.header i) = false → (w.cache.header i).number = b.number →
        Seeks op i b ⟨w, .unit, .give (), .push (.locking op i b.device) stack⟩
  | ahead {w : World g} {stack : Stack g .unit} :
      op.ahead = true → (w.cache.driver? (w.cache.header i).device.major).isSome = true →
        (w.cache.header i).locked = false → World.needless op (w.cache.header i) = false →
          w.cache.blockOf i = b → Seeks op i b ⟨w, .unit, .run (.request op i), stack⟩

/-- The next step queues a request in a slot that is free. -/
def Enqueues (m : Machine g) (o : Transfer × g.Buffer) : Prop :=
  ∃ m' k, m.Steps m' ∧ m.order? k = none ∧ m'.order? k = some o

/-- All slots are taken, and reads take at least as many as there are in the reserve. -/
structure Crowded (m : Machine g) : Prop where
  /-- All slots are taken. -/
  full : ∀ k, m.world.cache.requests.request? k ≠ none
  /-- As many reads are queued as the reserve has slots, or more. -/
  reads : g.requests - g.writeSlots ≤
    m.world.cache.allQueued.countP fun t => decide (t.direction = .read)

theorem Reachable.crowded (h : m.Reachable)
    (hfull : ∀ k, m.world.cache.requests.request? k ≠ none) : m.Crowded := by
  refine ⟨hfull, ?_⟩
  rw [Cache.countP_allQueued h.consistent.tallies.arranged, ← g.card_reserve]
  exact h.reserved.le_card_reads hfull

theorem Reachable.writes_le (h : m.Reachable) :
    (m.world.cache.allQueued.countP fun t => decide (t.direction = .write)) ≤ g.writeSlots := by
  rw [Cache.countP_allQueued h.consistent.tallies.arranged]
  exact h.reserved.card_writes_le

/-- Whatever looks for a slot comes to the same search. -/
theorem Seeks.exists_step (h : m.Seeks op i b) : ∃ (w : World g) (stack : Stack g .unit),
    w.cache.requests = m.world.cache.requests ∧
      m.step = advance stack (w.enqueue op i b.device b.number) := by
  cases h with
  | again => exact ⟨_, _, rfl, rfl⟩
  | @locked w stack hneeded hnumber =>
    refine ⟨w, stack, rfl, ?_⟩
    change advance stack (w.locked op i b.device) = _
    rw [World.locked, if_neg (by rw [hneeded]; exact Bool.false_ne_true), hnumber]
  | @ahead w stack hahead hdriver hunlocked hneeded hblock =>
    obtain ⟨driver, hd⟩ := Option.isSome_iff_exists.mp hdriver
    have hheader : (w.mapCache (·.lock i)).cache.header i =
        { w.cache.header i with locked := true } :=
      (Cache.header_lock w.cache i i).trans (if_pos rfl)
    have hneeded' : ¬ World.needless op ((w.mapCache (·.lock i)).cache.header i) = true := by
      rw [hheader]
      exact Bool.eq_false_iff.mp hneeded
    have hrequest : w.request op i =
        (w.mapCache (·.lock i)).locked op i (w.cache.header i).device := by
      simp only [World.request, hd, hahead, hunlocked, if_true, Bool.false_eq_true, if_false]
    refine ⟨w.mapCache (·.lock i), stack, rfl, ?_⟩
    change advance stack (w.request op i) = _
    rw [hrequest, World.locked, if_neg hneeded', hheader, ← hblock]
    rfl

/-- A step that looks for a slot fills it if there is one. -/
theorem Seeks.enqueues (h : m.Seeks op i b) {k : g.Slot}
    (hk : m.world.cache.requests.freeSlot op.direction = some k) :
    m.Enqueues (.ofBlock op.direction b, i) := by
  obtain ⟨w, stack, hrequests, hstep⟩ := h.exists_step
  have hfree : m.order? k = none :=
    (RequestTable.order?_eq_none_iff _ _).mpr (RequestTable.freeSlot_eq_some hk).1
  have hinsert : ((w.cache.requests.insert b.device.major k
      (.ofBlock op.direction b) i).1).order? k = some (.ofBlock op.direction b, i) :=
    (RequestTable.order?_insert ..).trans (if_pos rfl)
  rw [World.enqueue, hrequests, hk] at hstep
  dsimp only at hstep
  rw [World.file] at hstep
  dsimp only at hstep
  split at hstep
  · exact ⟨_, k, steps_of_step hstep, hfree, hinsert⟩
  · exact ⟨_, k, steps_of_step hstep, hfree, hinsert⟩

/-- A search for a slot for a read fails only in a crowded table. -/
theorem Seeks.enqueues_or_crowded (h : m.Seeks op i b) (hm : m.Reachable)
    (hread : op.direction = .read) : m.Enqueues (.ofBlock .read b, i) ∨ m.Crowded := by
  cases hk : m.world.cache.requests.freeSlot .read with
  | some k =>
    have henqueues := h.enqueues (k := k) (by rw [hread]; exact hk)
    rw [hread] at henqueues
    exact .inl henqueues
  | none =>
    refine .inr (hm.crowded fun k => ?_)
    exact RequestTable.freeSlot_eq_none_iff.mp hk k k.isLt

/-- While a read sleeps for a slot, the table is crowded. -/
theorem Counted.crowded_of_sleeper (h : m.Counted count) {x : Sleeper g}
    (hx : x ∈ m.sleepers) (hneed : x.need = some (.slot .read))
    (hcount : count .vacancy < 2 ^ 64)
    (hholds : (m.world.cache.queue .vacancy).holds x.ticket = true) : m.Crowded := by
  obtain ⟨need, n, hneed', hqueue, hticket, hle, hunmet⟩ := h.watchful.watched x hx
  obtain rfl : need = .slot .read := Option.some.inj (hneed'.symm.trans hneed)
  rw [← hqueue] at hle hunmet
  have hn : n = count .vacancy := by
    rw [WaitQueue.holds, beq_iff_eq, h.watchful.counted, hticket] at hholds
    by_contra hne
    exact ofNat_ne_of_lt (lt_of_le_of_ne hle hne) hcount hholds
  refine h.reachable.crowded fun k hk => hunmet hn ⟨k, k.isLt, hk⟩

/-! ## What the reserve is good for -/

/-- Writes cannot keep reads from the request table. -/
structure SparesReads (count : Queue g → Nat) (m : Machine g) : Prop where
  /-- A request in a slot past the part that writes may use is a read. -/
  reserved : ∀ k q, m.world.cache.requests.request? k = some q → g.writeSlots ≤ k.val →
    q.transfer.direction = .read
  /-- There is such a slot, and no slot that is found for a write is one. -/
  reserve : g.reserve.card = g.requests - g.writeSlots ∧ 1 ≤ g.requests - g.writeSlots ∧
    ∀ k, m.world.cache.requests.freeSlot .write = some k → k ∉ g.reserve
  /-- Over all drivers together, no more writes are queued than slots are left to them. -/
  writes : (m.world.cache.allQueued.countP fun t => decide (t.direction = .write)) ≤ g.writeSlots
  /-- A read, ahead of need or not, is queued by the step that looks for a slot for it, unless
  the table is crowded. -/
  seeks : ∀ op i b, m.Seeks op i b → op.direction = .read →
    m.Enqueues (.ofBlock .read b, i) ∨ m.Crowded
  /-- At whatever depth a read sleeps for a slot, the table is crowded as long as its ticket
  stands, provided that there were not `2 ^ 64` wake-ups. -/
  sleeps : ∀ x ∈ m.sleepers, x.need = some (.slot .read) → count .vacancy < 2 ^ 64 →
    (m.world.cache.queue .vacancy).holds x.ticket = true → m.Crowded
  /-- With fewer reads queued than there are slots in the reserve, no read has to wait for a
  slot and none is dropped, however many writes are queued or waiting. -/
  prompt : (m.world.cache.allQueued.countP fun t => decide (t.direction = .read)) <
      g.requests - g.writeSlots →
    (∀ op i b, m.Seeks op i b → op.direction = .read → m.Enqueues (.ofBlock .read b, i)) ∧
      ∀ x ∈ m.sleepers, x.need = some (.slot .read) → count .vacancy < 2 ^ 64 →
        (m.world.cache.queue .vacancy).holds x.ticket = false

/-- In every session, whatever clients, drivers and listeners do, writes leave room for
reads. -/
theorem Counted.sparesReads (h : m.Counted count) : m.SparesReads count := by
  have hreachable := h.reachable
  refine ⟨fun k q hq hk => ?_, ⟨g.card_reserve, ?_, fun k hk hreserve => ?_⟩,
    hreachable.writes_le, fun op i b hseeks => hseeks.enqueues_or_crowded hreachable,
    fun x hx => h.crowded_of_sleeper hx, fun hfew => ⟨fun op i b hseeks hread => ?_,
      fun x hx hneed hcount => ?_⟩⟩
  · exact hreachable.reserved k (Geometry.mem_reserve.mpr hk) _
      (RequestTable.order?_eq_some_iff.mpr ⟨q, hq, rfl, rfl⟩)
  · have := g.writeSlots_lt_requests
    omega
  · have hlow : k.val < g.writeSlots := (RequestTable.freeSlot_eq_some hk).2
    exact absurd hlow (Nat.not_lt_of_le (Geometry.mem_reserve.mp hreserve))
  · refine (hseeks.enqueues_or_crowded hreachable hread).resolve_right fun hcrowded => ?_
    exact absurd hcrowded.reads (Nat.not_le_of_lt hfew)
  · refine Bool.eq_false_iff.mpr fun hholds => ?_
    have hcrowded := h.crowded_of_sleeper hx hneed hcount hholds
    exact absurd hcrowded.reads (Nat.not_le_of_lt hfew)

/-- Two writes take all slots that they may use, and one of three is left to reads. -/
theorem sparesReads_of_writes :
    ∃ count, ∃ m : Machine Geometry.small, m.Counted count ∧
      (m.world.cache.allQueued.countP fun t => decide (t.direction = .write)) =
        Geometry.small.writeSlots ∧ m.SparesReads count := by
  have hstart : Counted (fun _ => 0) (start ((World.initial Geometry.small).fresh [])
      (.register 1 ⟨1, .manual []⟩ [])) := .start [] _ ⟨rfl, rfl⟩
  have hfirst := ((hstart.after 30).following [] (.put ⟨257, 3⟩ 7)).after 30
  have hsecond := (hfirst.following [] (.put ⟨257, 5⟩ 8)).after 30
  have h : Counted _ _ := (hsecond.following [[.bufferCount]] (.flush (.device 257))).after 60
  exact ⟨_, _, h, by decide, h.sparesReads⟩

end Machine
end BufferCache
