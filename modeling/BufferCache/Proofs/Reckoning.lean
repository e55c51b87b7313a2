import BufferCache.Proofs.Counting
import BufferCache.Proofs.Occupancy
import BufferCache.Proofs.Reuse
import Mathlib.Algebra.BigOperators.Fin

/-!
# The counters add up

The counters of a cache are kept apart from what they count: the calls that are getting a
buffer, the blocks in the buffers, the requests in the table.  `Machine.AddsUp` ties them
together, at every point of every session.

Two equations need what has happened so far, the requests that have ended and how often each
buffer was given another block.  `Conduct.reckoning` keeps a record of both beside the
machine.  Generations are words, so they add up to the number of misses only as long as no
buffer was given `2 ^ 32` blocks.
-/

namespace BufferCache

variable {g : Geometry}

namespace Statistics

/-- How many requests of a direction were queued. -/
def requests (s : Statistics) : Direction → Nat
  | .read => s.reads
  | .write => s.writes

theorem requests_tick_counterOf (s : Statistics) (d d' : Direction) :
    (s.tick (Cache.counterOf d)).requests d' = s.requests d' + if d = d' then 1 else 0 := by
  cases d <;> cases d' <;> rfl

end Statistics

/-- Elements with a direction are those of the one and those of the other. -/
theorem Direction.length_eq {α : Type} (f : α → Direction) (l : List α) :
    l.length = l.countP (fun a => decide (f a = .read)) +
      l.countP fun a => decide (f a = .write) := by
  rw [List.length_eq_countP_add_countP fun a => decide (f a = .read)]
  refine congrArg (_ + ·) (List.countP_congr fun a _ => ?_)
  cases f a <;> simp

/-! ## What effects do to the counters -/

namespace Cache

variable (c : Cache g)

theorem statistics_enqueue (d : Direction) (i : g.Buffer) (b : Block) (slot : g.Slot) :
    (c.enqueue d i b slot).statistics = c.statistics.tick (counterOf d) := rfl

theorem statistics_conclude (m : Nat) (slot : g.Slot) (q : Request g) (success : Bool) :
    (c.conclude m slot q success).statistics =
      if success then c.statistics else c.statistics.tick .failure := by
  cases success <;> rfl

theorem statistics_assign (i : g.Buffer) (s : Buffers g) :
    (c.assign i s).statistics = match (c.header i).content with
      | none => c.statistics.tick .miss
      | some _ => (c.statistics.tick .miss).tick .eviction := by
  unfold assign
  cases (c.header i).content <;> rfl

theorem statistics_edit (i : g.Buffer) (page : Option Page) (valid dirty : Bool) :
    (c.edit i page valid dirty).statistics = c.statistics := by
  cases page <;> cases valid <;> cases dirty <;> rfl

end Cache

namespace Effect

variable {e : Effect g} {c : Cache g}

/-- Accesses, hits and misses are counted as the effect says, failures as requests end. -/
theorem lookups_apply (hplain : e.Plain) :
    (e.apply c).statistics.accesses = c.statistics.accesses + e.opens ∧
      (e.apply c).statistics.hits + (e.apply c).statistics.misses =
        c.statistics.hits + c.statistics.misses + e.settles ∧
      (e.apply c).statistics.failures =
        c.statistics.failures + (e.ends c).toList.countP fun x => !x.2 := by
  cases e with
  | count k => obtain rfl | rfl := hplain <;> exact ⟨rfl, by simp +arith [apply, Cache.tick,
      Statistics.tick, settles], rfl⟩
  | queue direct d i b slot => cases direct <;> cases d <;> exact ⟨rfl, rfl, rfl⟩
  | finish m slot q success =>
    rw [apply, Cache.statistics_conclude]
    cases success <;> exact ⟨rfl, rfl, rfl⟩
  | serve m d slot q =>
    rw [apply, Cache.statistics_conclude, ends]
    cases (d.serve q.transfer (c.page q.buffer)).success <;> exact ⟨rfl, rfl, rfl⟩
  | assign i b s =>
    rw [apply, Cache.statistics_assign]
    split <;> exact ⟨rfl, rfl, rfl⟩
  | edit i page valid dirty =>
    rw [apply, Cache.statistics_edit]
    exact ⟨rfl, rfl, rfl⟩
  | _ => exact ⟨rfl, rfl, rfl⟩

/-- A request that is counted is queued, and one that is no longer queued has ended. -/
theorem requests_apply (hfits : e.Fits c) (hplain : e.Plain) (d : Direction) :
    (e.apply c).statistics.requests d + (c.requests.slotsWith d.asked).card =
      c.statistics.requests d + ((e.apply c).requests.slotsWith d.asked).card +
        (e.ends c).toList.countP fun x => decide (x.1 = d) := by
  have hqueue (c : Cache g) {d' : Direction} {slot : g.Slot} (i : g.Buffer) (b : Block)
      (hslot : c.requests.freeSlot d' = some slot) :
      (c.enqueue d' i b slot).statistics.requests d + (c.requests.slotsWith d.asked).card =
        c.statistics.requests d +
          ((c.enqueue d' i b slot).requests.slotsWith d.asked).card := by
    have hcard := RequestTable.card_slotsWith_insert (m := b.device.major) (b := i)
      (t := .ofBlock d' b) (p := d.asked) (RequestTable.freeSlot_eq_some hslot).1
    have hasked : d.asked (Transfer.ofBlock d' b, i) = decide (d' = d) := rfl
    simp only [hasked, decide_eq_true_eq] at hcard
    rw [Cache.statistics_enqueue, Statistics.requests_tick_counterOf]
    change _ = _ + ((c.requests.insert _ _ _ _).1.slotsWith _).card
    omega
  have hend (c : Cache g) (m : Nat) {slot : g.Slot} {q : Request g} (success : Bool)
      (hq : c.requests.request? slot = some q) :
      (c.conclude m slot q success).statistics.requests d +
          (c.requests.slotsWith d.asked).card =
        c.statistics.requests d +
          ((c.conclude m slot q success).requests.slotsWith d.asked).card +
          if q.transfer.direction = d then 1 else 0 := by
    have ho : c.requests.order? slot = some q.order := by
      rw [RequestTable.order?, hq]
      rfl
    have hcard := RequestTable.card_slotsWith_retire (m := m) (p := d.asked) ho
    have hasked : d.asked q.order = decide (q.transfer.direction = d) := rfl
    simp only [hasked, decide_eq_true_eq] at hcard
    have hsame : (c.conclude m slot q success).statistics.requests d =
        c.statistics.requests d := by
      cases success <;> cases d <;> rfl
    rw [Cache.requests_conclude, hsame]
    omega
  have hended (x : Direction × Bool) : ((some x).toList.countP fun x => decide (x.1 = d)) =
      if x.1 = d then 1 else 0 := by
    rw [Option.toList_some, List.countP_singleton]
    simp only [decide_eq_true_eq]
  cases e with
  | count k => obtain rfl | rfl := hplain <;> cases d <;> rfl
  | queue direct d' i b slot =>
    cases direct with
    | false => exact hqueue c i b hfits.1
    | true => exact hqueue (c.lock i) i b hfits.1
  | finish m slot q success =>
    rw [ends, hended]
    exact hend c m success hfits.2
  | serve m driver slot q =>
    rw [ends, hended]
    exact hend (c.carryOut m driver q) driver.major _ hfits.2.2
  | assign i b s =>
    rw [apply, Cache.statistics_assign, Cache.requests_assign]
    split <;> cases d <;> rfl
  | edit i page valid dirty =>
    rw [apply, Cache.statistics_edit, Cache.requests_edit]
    rfl
  | _ => rfl

/-- Unless a buffer is given a block, no miss and no eviction is counted. -/
theorem misses_of_unassigned (he : ∀ i b s, e ≠ .assign i b s) (hplain : e.Plain) :
    (e.apply c).statistics.misses = c.statistics.misses ∧
      (e.apply c).statistics.evictions = c.statistics.evictions := by
  cases e with
  | assign i b s => exact absurd rfl (he i b s)
  | count k => obtain rfl | rfl := hplain <;> exact ⟨rfl, rfl⟩
  | queue direct d i b slot => cases direct <;> cases d <;> exact ⟨rfl, rfl⟩
  | finish m slot q success => cases success <;> exact ⟨rfl, rfl⟩
  | serve m d slot q =>
    rw [apply, Cache.statistics_conclude]
    split <;> exact ⟨rfl, rfl⟩
  | edit i page valid dirty =>
    rw [apply, Cache.statistics_edit]
    exact ⟨rfl, rfl⟩
  | _ => exact ⟨rfl, rfl⟩

/-- What an effect has to do with misses: buffers keep their blocks, and nothing is counted; or
one of them is given a block, which is a miss, and an eviction if it had one. -/
theorem misses_apply (hfits : e.Fits c) (hplain : e.Plain)
    (hchained : c.buffers.Chained fun _ => True) :
    (∀ j, ((e.apply c).header j).content = (c.header j).content) ∧
        (e.apply c).statistics.misses = c.statistics.misses ∧
        (e.apply c).statistics.evictions = c.statistics.evictions ∨
      ∃ i, ((e.apply c).header i).content ≠ (c.header i).content ∧
        ((e.apply c).header i).content ≠ Option.none ∧
        (∀ j, i ≠ j → ((e.apply c).header j).content = (c.header j).content) ∧
        (e.apply c).statistics.misses = c.statistics.misses + 1 ∧
        (e.apply c).statistics.evictions =
          c.statistics.evictions + if (c.header i).content = Option.none then 0 else 1 := by
  by_cases hassign : ∃ i b s, e = .assign i b s
  · obtain ⟨i, b, s, rfl⟩ := hassign
    obtain ⟨-, -, -, habsent, hassign⟩ := hfits
    have hcontent (j : g.Buffer) : ((c.assign i s).header j).content =
        if i = j then some b else (c.header j).content := by
      have hbare : ((c.assign i s).header j).bare = _ :=
        (congrArg Header.bare (c.header_assign i j s)).trans (Buffers.bare_reassign hassign j)
      refine (congrArg Header.content hbare :).trans ?_
      split <;> rfl
    have hself : ((c.assign i s).header i).content = some b := (hcontent i).trans (if_pos rfl)
    refine .inr ⟨i, fun hsame => ?_, fun hnone => ?_, fun j hj => ?_, ?_, ?_⟩
    · exact hchained.locate_eq_none_iff.mp habsent i trivial (hsame.symm.trans hself)
    · cases hself.symm.trans hnone
    · exact (hcontent j).trans (if_neg hj)
    · rw [apply, Cache.statistics_assign]
      split <;> rfl
    · rw [apply, Cache.statistics_assign]
      split
      · rename_i hnone
        rw [if_pos hnone]
        rfl
      · rename_i hsome
        rw [if_neg (by rw [hsome]; exact Option.some_ne_none _)]
        rfl
  · have he (i : g.Buffer) (b : Block) (s : Buffers g) : e ≠ .assign i b s :=
      fun h => hassign ⟨i, b, s, h⟩
    exact .inl ⟨fun j => Cache.content_of_unmarked (e.unmarked_header he c j),
      misses_of_unassigned he hplain⟩

end Effect

/-! ## The record -/

/-- What has happened so far. -/
structure Reckoning (g : Geometry) where
  /-- The requests that have ended: their directions, and whether they succeeded. -/
  ended : List (Direction × Bool)
  /-- How often each buffer was given a block. -/
  assigned : g.Buffer → Nat

/-- Whether the next step gives a buffer another block. -/
def Machine.assigns (m : Machine g) (i : g.Buffer) : Nat :=
  match m.step with
  | .running m' => if m'.content i = m.content i then 0 else 1
  | _ => 0

/-- The conduct of clients that may do anything, where the requests that end and the blocks
that buffers are given are put on record. -/
def Conduct.reckoning (g : Geometry) : Conduct g (Reckoning g) where
  permits _ _ := True
  record r m := ⟨r.ended ++ m.ends.toList, fun i => r.assigned i + m.assigns i⟩

instance (r : Reckoning g) (m : Machine g) :
    Decidable ((Conduct.reckoning g).permits r m) :=
  inferInstanceAs (Decidable True)

/-- The buffers that hold a block. -/
def Cache.taken (c : Cache g) : Finset g.Buffer :=
  Finset.univ.filter fun i => (c.header i).content ≠ none

namespace Machine

/-- Some session on a new cache comes to this machine, with this on record. -/
def Reckoned (r : Reckoning g) (m : Machine g) : Prop :=
  (Conduct.reckoning g).Run (fun w r => w = World.initial g ∧ r = ⟨[], fun _ => 0⟩) r m

variable {r : Reckoning g} {m m' : Machine g}

theorem Reckoned.reachable (h : m.Reckoned r) : m.Reachable :=
  Conduct.Run.reachable (fun _ _ hw => hw.1) h

/-- The counters of the machine. -/
def statistics (m : Machine g) : Statistics :=
  m.world.cache.statistics

/-- The counters agree with the calls, the buffers, the slots and the record. -/
structure Reckons (r : Reckoning g) (m : Machine g) : Prop where
  lookups : m.statistics.accesses = m.statistics.hits + m.statistics.misses + m.obtaining
  failures : m.statistics.failures = r.ended.countP fun x => !x.2
  requests : ∀ d, m.statistics.requests d = (r.ended.countP fun x => decide (x.1 = d)) +
    (m.world.cache.requests.slotsWith d.asked).card
  misses : m.statistics.misses = ∑ i, r.assigned i
  evictions : m.statistics.misses = m.statistics.evictions + m.world.cache.taken.card
  generations : ∀ i, m.generation i = UInt32.ofNat (r.assigned i)

/-- How often buffers are given blocks in a step, and what follows for the counters. -/
theorem Steps.reckons_misses (h : m.Steps m') (hm : m.Reachable) (hr : m.Reckons r)
    {e : Effect g} (hfits : e.Fits m.world.cache)
    (happly : m'.world.cache = e.apply m.world.cache) (hplain : e.Plain) :
    m'.statistics.misses = ∑ i, (r.assigned i + m.assigns i) ∧
      m'.statistics.misses = m'.statistics.evictions + m'.world.cache.taken.card := by
  have hassigns (i : g.Buffer) :
      m.assigns i = if m'.content i = m.content i then 0 else 1 := by
    rw [assigns, step_of_steps h]
  have hmisses := hr.misses
  have hevictions := hr.evictions
  have hcases := Effect.misses_apply hfits hplain hm.chained
  rw [← happly] at hcases
  rcases hcases with ⟨hkept, hmiss, heviction⟩ | ⟨i, hgiven, hsome, hkept, hmiss, heviction⟩
  · have hzero (i : g.Buffer) : m.assigns i = 0 := (hassigns i).trans (if_pos (hkept i))
    have htaken : m'.world.cache.taken = m.world.cache.taken :=
      Finset.filter_congr fun i _ => by rw [hkept i]
    simp only [hzero, Nat.add_zero, htaken]
    change m'.statistics.misses = m.statistics.misses at hmiss
    change m'.statistics.evictions = m.statistics.evictions at heviction
    exact ⟨hmiss.trans hmisses, by omega⟩
  · have hone : ∑ j, m.assigns j = 1 := by
      rw [Finset.sum_eq_single i (fun j _ hj => ?_) fun hi => absurd (Finset.mem_univ i) hi]
      · exact (hassigns i).trans (if_neg hgiven)
      · exact (hassigns j).trans (if_pos (hkept j hj.symm))
    have htaken : m'.world.cache.taken = insert i m.world.cache.taken := by
      ext j
      rw [Finset.mem_insert, Cache.taken, Cache.taken, Finset.mem_filter, Finset.mem_filter]
      by_cases hj : i = j
      · subst hj
        exact iff_of_true ⟨Finset.mem_univ i, hsome⟩ (.inl rfl)
      · rw [hkept j hj]
        exact ⟨.inr, fun hor => hor.resolve_left (Ne.symm hj)⟩
    rw [Finset.sum_add_distrib, hone, ← hmisses, htaken]
    refine ⟨hmiss, ?_⟩
    change m'.statistics.misses = m.statistics.misses + 1 at hmiss
    change m'.statistics.evictions = m.statistics.evictions + _ at heviction
    by_cases hnone : (m.world.cache.header i).content = none
    · have hnot : i ∉ m.world.cache.taken := fun hi => (Finset.mem_filter.mp hi).2 hnone
      rw [if_pos hnone] at heviction
      rw [Finset.card_insert_of_notMem hnot]
      omega
    · have hmem : i ∈ m.world.cache.taken :=
        Finset.mem_filter.mpr ⟨Finset.mem_univ i, hnone⟩
      rw [if_neg hnone] at heviction
      rw [Finset.insert_eq_of_mem hmem]
      omega

/-- A generation counts the blocks that its buffer is given. -/
theorem Steps.generation_eq (h : m.Steps m') (hm : m.Reachable) (i : g.Buffer) :
    m'.generation i = m.generation i + UInt32.ofNat (m.assigns i) := by
  have hassigns : m.assigns i = if m'.content i = m.content i then 0 else 1 := by
    rw [assigns, step_of_steps h]
  rcases hm.content_cases (.step h) i with ⟨hkept, hsame⟩ | ⟨hgiven, hnext, -⟩
  · rw [hassigns, if_pos hkept, hsame]
    exact (UInt32.add_zero _).symm
  · rw [hassigns, if_neg hgiven, hnext]
    rfl

theorem Steps.reckons_next (h : m.Steps m') (hm : m.Reachable) (hr : m.Reckons r) :
    m'.Reckons ((Conduct.reckoning g).record r m) := by
  obtain ⟨e, hfits, happly, hplain, hends, hbalance⟩ := h.reckons
  obtain ⟨haccesses, hlookups, hfailures⟩ := Effect.lookups_apply (c := m.world.cache) hplain
  obtain ⟨hmisses, hevictions⟩ := h.reckons_misses hm hr hfits happly hplain
  have hbefore := hr.lookups
  rw [hends] at hfailures
  rw [← happly] at haccesses hlookups hfailures
  refine ⟨?_, ?_, fun d => ?_, hmisses, hevictions, fun i => ?_⟩
  · change m'.statistics.accesses = m.statistics.accesses + _ at haccesses
    change m'.statistics.hits + m'.statistics.misses =
      m.statistics.hits + m.statistics.misses + _ at hlookups
    omega
  · change _ = (r.ended ++ m.ends.toList).countP _
    rw [List.countP_append, ← hr.failures]
    exact hfailures
  · have hrequests := Effect.requests_apply hfits hplain d
    have hqueued := hr.requests d
    rw [hends, ← happly] at hrequests
    change m'.statistics.requests d + _ = m.statistics.requests d + _ + _ at hrequests
    change _ = (r.ended ++ m.ends.toList).countP _ + _
    rw [List.countP_append]
    omega
  · change _ = UInt32.ofNat (r.assigned i + m.assigns i)
    rw [h.generation_eq hm, hr.generations, UInt32.ofNat_add]

theorem reckons_start (waiting : List Script) (c : Command) :
    (start ((World.initial g).fresh waiting) c).Reckons ⟨[], fun _ => 0⟩ := by
  have hheader (i : g.Buffer) : ((Cache.initial g).header i).content = none ∧
      ((Cache.initial g).header i).generation = 0 := by
    have := Buffers.header_initial g i
    exact ⟨(congrArg Header.content this :), (congrArg Header.generation this :)⟩
  have htaken : (Cache.initial g).taken = ∅ :=
    Finset.filter_eq_empty_iff.mpr fun i _ => not_not_intro (hheader i).1
  have hslots (d : Direction) : (Cache.initial g).requests.slotsWith d.asked = ∅ := by
    refine Finset.eq_empty_of_forall_notMem fun k hk => ?_
    obtain ⟨o, ho, -⟩ := RequestTable.mem_slotsWith.mp hk
    simp [Cache.initial, RequestTable.order?, RequestTable.request?, RequestTable.initial] at ho
  refine ⟨rfl, rfl, fun d => ?_, ?_, ?_, fun i => (hheader i).2⟩
  · change _ = 0 + ((Cache.initial g).requests.slotsWith d.asked).card
    rw [hslots]
    cases d <;> rfl
  · exact (Finset.sum_const_zero (s := Finset.univ)).symm
  · change 0 = 0 + (Cache.initial g).taken.card
    rw [htaken]
    rfl

theorem Reckoned.reckons (h : m.Reckoned r) : m.Reckons r := by
  let Inv (r : Reckoning g) (m : Machine g) : Prop := m.Reachable ∧ m.Reckons r
  suffices hm : Inv r m from hm.2
  refine Conduct.Run.invariant (fun w r waiting c hw => ?_) (fun r m m' hm _ hs => ?_)
    (fun r w a waiting c hm => ?_) h
  · obtain ⟨rfl, rfl⟩ := hw
    exact ⟨reachable_start waiting c, reckons_start waiting c⟩
  · exact ⟨hm.1.moves (.step hs), hs.reckons_next hm.1 hm.2⟩
  · have hrecord : (Conduct.reckoning g).record r ⟨w, .reply, .give a, .bottom⟩ = r :=
      congrArg (fun ended => Reckoning.mk ended r.assigned) (List.append_nil r.ended)
    rw [hrecord]
    obtain ⟨hreachable, hr⟩ := hm
    exact ⟨hreachable.moves (.next waiting c), hr.lookups, hr.failures, hr.requests, hr.misses,
      hr.evictions, hr.generations⟩

/-! ## The balance -/

/-- The counters of the cache add up. -/
structure AddsUp (r : Reckoning g) (m : Machine g) : Prop where
  /-- Every access was a hit or a miss, or belongs to a call that is still getting its buffer,
  at whatever depth. -/
  accesses : m.statistics.accesses = m.statistics.hits + m.statistics.misses + m.obtaining
  /-- Where clients can act, those calls are suspended. -/
  suspended : m.Open → m.obtaining = m.stack.obtaining
  /-- Misses that were not evictions are buffers that were given their first block. -/
  misses : m.statistics.misses = m.statistics.evictions +
    (Finset.univ.filter fun i => (m.world.cache.header i).device ≠ 0).card
  /-- So evictions are misses, and at most as many misses as there are buffers were not. -/
  evictions : m.statistics.evictions ≤ m.statistics.misses ∧
    m.statistics.misses - m.statistics.evictions ≤ g.buffers
  /-- The generations add up to the misses, as long as no buffer was given so many blocks that
  its generation has come round. -/
  generations : (∀ i, r.assigned i < 2 ^ 32) →
    m.statistics.misses = ∑ i, (m.generation i).toNat
  /-- The requests that were counted have ended, or are queued for some driver. -/
  requests : m.statistics.reads + m.statistics.writes =
    r.ended.length + m.world.cache.allQueued.length
  /-- The same holds of the reads. -/
  reads : m.statistics.reads = (r.ended.countP fun x => decide (x.1 = .read)) +
    m.world.cache.allQueued.countP fun t => decide (t.direction = .read)
  /-- The same holds of the writes. -/
  writes : m.statistics.writes = (r.ended.countP fun x => decide (x.1 = .write)) +
    m.world.cache.allQueued.countP fun t => decide (t.direction = .write)
  /-- The failures that were counted are those of the requests that have ended. -/
  failures : m.statistics.failures = r.ended.countP fun x => !x.2

/-- In every session, whatever clients, drivers and listeners do, the counters add up. -/
theorem Reckoned.addsUp (h : m.Reckoned r) : m.AddsUp r := by
  have hr := h.reckons
  have hqueued (d : Direction) : m.statistics.requests d =
      (r.ended.countP fun x => decide (x.1 = d)) +
        m.world.cache.allQueued.countP fun t => decide (t.direction = d) := by
    rw [hr.requests, Cache.countP_allQueued h.reachable.consistent.tallies.arranged]
    rfl
  have htaken : (Finset.univ.filter fun i => (m.world.cache.header i).device ≠ 0) =
      m.world.cache.taken := by
    refine Finset.filter_congr fun i _ => ?_
    unfold Header.device
    cases hi : (m.world.cache.header i).content with
    | none => simp
    | some b => simpa using h.reachable.chained.named trivial hi
  have hevictions := hr.evictions
  have hcard := Finset.card_le_univ m.world.cache.taken
  rw [Fintype.card_fin] at hcard
  refine ⟨hr.lookups, fun hopen => ?_, ?_, ⟨by omega, by omega⟩, fun hfew => ?_, ?_,
    hqueued .read, hqueued .write, hr.failures⟩
  · obtain ⟨w, s, control, stack⟩ := m
    cases control with
    | run d => cases d <;> first | exact Nat.zero_add _ | exact hopen.elim
    | give v => rfl
  · rw [htaken]
    exact hevictions
  · rw [hr.misses]
    refine Finset.sum_congr rfl fun i _ => ?_
    rw [hr.generations, UInt32.toNat_ofNat_of_lt' (hfew i)]
  · have hread := hqueued .read
    have hwrite := hqueued .write
    have hended := Direction.length_eq Prod.fst r.ended
    have hall := Direction.length_eq Transfer.direction m.world.cache.allQueued
    change m.statistics.reads = _ at hread
    change m.statistics.writes = _ at hwrite
    omega

/-- While a client gets a buffer, another one ends a request that fails. -/
theorem addsUp_of_fetch :
    ∃ r, ∃ m : Machine Geometry.single, m.Reckoned r ∧ m.obtaining = 1 ∧
      r.ended = [(.read, false)] ∧ m.AddsUp r := by
  have hstart : Reckoned ⟨[], fun _ => 0⟩ (start ((World.initial Geometry.single).fresh [])
      (.register 1 ⟨1, .manual []⟩ [])) := .start [] _ ⟨rfl, rfl⟩
  have hfirst := ((hstart.after 20).following [] (.acquire ⟨257, 3⟩ (some "h"))).after 20
  have hsecond := (hfirst.following [] (.issue .read "h")).after 20
  have h : Reckoned _ _ := (hsecond.following [[.finish 1 false, .bufferCount]]
    (.acquire ⟨257, 5⟩ none)).after 9
  exact ⟨_, _, h, by decide, by decide, h.addsUp⟩

end Machine
end BufferCache
