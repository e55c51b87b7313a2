import BufferCache.Proofs.Availability
import BufferCache.Proofs.RingFaults

/-!
# Which buffer is replaced

The ring of a cache goes through all buffers.  A buffer that is given another block moves to
its end, and nothing else changes the order.  So the ring lists the buffers by the time at which
each was last given a block, those that never were in front, in the order of their indices.

To say so, the buffers that are given blocks are put on record: a *history* lists them in the
order in which that happened, and `Older` compares two buffers by it.  `Aged` is the invariant
that ties the ring to the history.

The victim is the first of the cheapest free buffers in the ring.  Buffers that can be had at
once are the cheapest of all.  So a call that does not find its block takes the one of them that
has had its block for the longest time.
-/

namespace BufferCache

variable {g : Geometry}

/-! ## The choice of a victim -/

namespace Buffers

variable {s : Buffers g} {order l : List g.Buffer} {i j : g.Buffer} {p : g.Buffer → Bool}

/-- Buffer `i` is to be taken rather than buffer `j`: it costs less, or as much and comes no
later in the list. -/
def Prefers (s : Buffers g) (l : List g.Buffer) (i j : g.Buffer) : Prop :=
  (s.header i).cost < (s.header j).cost ∨
    (s.header i).cost = (s.header j).cost ∧ l.idxOf i ≤ l.idxOf j

/-- What is in front of a list does not matter if it is neither of the two. -/
theorem Prefers.cons (h : s.Prefers l i j) {a : g.Buffer} (hi : a ≠ i) (hj : a ≠ j) :
    s.Prefers (a :: l) i j := by
  rw [Prefers, List.idxOf_cons_ne l hi, List.idxOf_cons_ne l hj]
  exact h.imp_right fun heq => ⟨heq.1, Nat.succ_le_succ heq.2⟩

/-- Two buffers of a list that are both preferred to each other are the same. -/
theorem Prefers.antisymm (h : s.Prefers l i j) (h' : s.Prefers l j i) (hi : i ∈ l) : i = j := by
  unfold Prefers at h h'
  exact (List.idxOf_inj hi).mp (by omega)

/-- The buffer that is found the cheapest is preferred to all of the list. -/
theorem prefers_of_cheapest (h : s.cheapest l = some i) (hj : j ∈ l) : s.Prefers l i j := by
  induction l generalizing i with
  | nil => cases hj
  | cons a rest ih =>
    rw [cheapest] at h
    split at h
    · rename_i hnone
      cases h
      obtain rfl := cheapest_eq_none_iff.mp hnone
      obtain rfl := List.mem_singleton.mp hj
      exact .inr ⟨rfl, Nat.le_refl _⟩
    · rename_i k hk
      split at h
      · rename_i hcheaper
        cases h
        have hak : a ≠ i := by
          rintro rfl
          exact Nat.lt_irrefl _ hcheaper
        by_cases hja : a = j
        · subst hja
          exact .inl hcheaper
        · exact (ih hk (List.mem_of_ne_of_mem (Ne.symm hja) hj)).cons hak hja
      · rename_i hcheaper
        cases h
        rw [Prefers, List.idxOf_cons_self]
        rcases List.mem_cons.mp hj with rfl | hrest
        · exact .inr ⟨rfl, Nat.zero_le _⟩
        · have hk := ih hk hrest
          unfold Prefers at hk
          omega

/-- What is left of a list keeps its order. -/
theorem idxOf_le_of_filter (hi : i ∈ l.filter p) (hj : j ∈ l.filter p)
    (h : (l.filter p).idxOf i ≤ (l.filter p).idxOf j) : l.idxOf i ≤ l.idxOf j := by
  induction l with
  | nil => exact Nat.le_refl _
  | cons a rest ih =>
    by_cases ha : p a = true
    · rw [List.filter_cons_of_pos ha] at hi hj h
      by_cases hia : a = i
      · subst hia
        rw [List.idxOf_cons_self]
        exact Nat.zero_le _
      by_cases hja : a = j
      · subst hja
        rw [List.idxOf_cons_self, List.idxOf_cons_ne _ hia] at h
        cases h
      · rw [List.idxOf_cons_ne _ hia, List.idxOf_cons_ne _ hja] at h ⊢
        exact Nat.succ_le_succ (ih (List.mem_of_ne_of_mem (Ne.symm hia) hi)
          (List.mem_of_ne_of_mem (Ne.symm hja) hj) (Nat.le_of_succ_le_succ h))
    · rw [List.filter_cons_of_neg ha] at hi hj h
      have hne {k : g.Buffer} (hk : k ∈ rest.filter p) : a ≠ k := by
        rintro rfl
        exact ha (List.mem_filter.mp hk).2
      rw [List.idxOf_cons_ne _ (hne hi), List.idxOf_cons_ne _ (hne hj)]
      exact Nat.succ_le_succ (ih hi hj h)

/-- In a ring of all buffers, the victim is a free buffer that is preferred to all free
buffers. -/
theorem Rings.victim_eq_some_iff (h : s.Rings order) (hall : ∀ i, i ∈ order) :
    s.victim = .ok (some i) ↔ (s.header i).references = 0 ∧
      ∀ j, (s.header j).references = 0 → s.Prefers order i j := by
  have hmem (j : g.Buffer) : j ∈ order.filter (fun k => (s.header k).references == 0) ↔
      (s.header j).references = 0 := by
    rw [List.mem_filter, beq_iff_eq]
    exact and_iff_right (hall j)
  have hprefers {k : g.Buffer} (hvictim : s.victim = .ok (some k)) :
      (s.header k).references = 0 ∧
        ∀ j, (s.header j).references = 0 → s.Prefers order k j := by
    rw [h.victim_eq, Except.ok.injEq] at hvictim
    have hk := mem_of_cheapest hvictim
    refine ⟨(hmem k).mp hk, fun j hj => ?_⟩
    exact (prefers_of_cheapest hvictim ((hmem j).mpr hj)).imp_right fun heq =>
      ⟨heq.1, idxOf_le_of_filter hk ((hmem j).mpr hj) heq.2⟩
  refine ⟨hprefers, fun ⟨hfree, hbest⟩ => ?_⟩
  -- There is a victim, since this buffer is free; and it is preferred to this one too.
  cases hvictim : s.victim with
  | error f => cases h.victim_eq.symm.trans hvictim
  | ok victim =>
    cases victim with
    | none => exact absurd hfree ((h.victim_eq_none_iff hall).mp hvictim i)
    | some k =>
      obtain ⟨hk, hkbest⟩ := hprefers hvictim
      rw [(hbest k hk).antisymm (hkbest i hfree) (hall i)]

/-- The links that lead forward along the ring lead back the other way. -/
theorem Rings.ringNext_iff (h : s.Rings order) (hall : ∀ i, i ∈ order) (i j : g.Buffer) :
    (s.header i).ringNext = some j ↔ (s.header j).ringPrev = some i :=
  h.circled.next_iff (hall i) (hall j)

end Buffers

/-! ## Histories -/

/-- The place in a history at which a buffer was last given another block, counted from one;
zero if it never was. -/
def lastIn (r : List g.Buffer) (i : g.Buffer) : Nat :=
  r.length - r.reverse.idxOf i

/-- Buffer `i` was last given another block before buffer `j`, or was never given one and `j`
was; if neither was, it has the smaller index. -/
def Older (r : List g.Buffer) (i j : g.Buffer) : Prop :=
  lastIn r i < lastIn r j ∨ lastIn r i = lastIn r j ∧ i < j

/-- The order of a ring goes by the history. -/
def Aged (r order : List g.Buffer) : Prop :=
  order.Pairwise (Older r)

section Histories

variable {r order : List g.Buffer} {i j : g.Buffer}

theorem lastIn_le (r : List g.Buffer) (i : g.Buffer) : lastIn r i ≤ r.length :=
  Nat.sub_le _ _

theorem lastIn_append_self (r : List g.Buffer) (i : g.Buffer) :
    lastIn (r ++ [i]) i = r.length + 1 := by
  rw [lastIn, List.reverse_append, List.reverse_singleton, List.singleton_append,
    List.idxOf_cons_self, List.length_append]
  rfl

theorem lastIn_append_of_ne (r : List g.Buffer) (h : i ≠ j) :
    lastIn (r ++ [i]) j = lastIn r j := by
  rw [lastIn, List.reverse_append, List.reverse_singleton, List.singleton_append,
    List.idxOf_cons_ne _ h, List.length_append, List.length_singleton, Nat.add_sub_add_right,
    lastIn]

/-- Where no buffer was given another block, the indices decide. -/
theorem aged_nil (g : Geometry) : Aged [] g.allBuffers := by
  refine (List.pairwise_lt_finRange g.buffers).imp fun hlt => .inr ⟨rfl, hlt⟩

/-- A buffer that is given another block goes to the end of the order. -/
theorem Aged.append (h : Aged r order) (hnodup : order.Nodup) (i : g.Buffer) :
    Aged (r ++ [i]) (order.erase i ++ [i]) := by
  have hne {j : g.Buffer} (hj : j ∈ order.erase i) : i ≠ j :=
    fun hij => hnodup.not_mem_erase (hij ▸ hj)
  refine List.pairwise_append.mpr ⟨?_, List.pairwise_singleton _ _, fun j hj k hk => ?_⟩
  · refine (List.Pairwise.erase i h).imp_of_mem fun hj hk hjk => ?_
    rw [Older, lastIn_append_of_ne r (hne hj), lastIn_append_of_ne r (hne hk)]
    exact hjk
  · obtain rfl := List.mem_singleton.mp hk
    rw [Older, lastIn_append_of_ne r (hne hj), lastIn_append_self]
    exact .inl (Nat.lt_succ_of_le (lastIn_le r j))

/-- What comes first in the order is older. -/
theorem Aged.older (h : Aged r order) (hj : j ∈ order) (hij : order.idxOf i ≤ order.idxOf j)
    (hne : i ≠ j) : Older r i j := by
  have hjl := List.idxOf_lt_length_of_mem hj
  have hi : i ∈ order := List.idxOf_lt_length_iff.mp (Nat.lt_of_le_of_lt hij hjl)
  have hlt : order.idxOf i < order.idxOf j :=
    Nat.lt_of_le_of_ne hij fun heq => hne ((List.idxOf_inj hi).mp heq)
  have holder := List.pairwise_iff_getElem.mp h _ _ (List.idxOf_lt_length_of_mem hi) hjl hlt
  rwa [List.getElem_idxOf, List.getElem_idxOf] at holder

end Histories

/-! ## The record -/

/-- The buffers that are given another block in the next step: one, or none. -/
def Machine.reassigned (m : Machine g) : List g.Buffer :=
  match m.step with
  | .running m' => g.allBuffers.filter fun i => m'.content i ≠ m.content i
  | _ => []

/-- The conduct of clients that may do anything, where it is put on record which buffers are
given other blocks. -/
def Conduct.history (g : Geometry) : Conduct g (List g.Buffer) where
  permits _ _ := True
  record r m := r ++ m.reassigned

instance (r : List g.Buffer) (m : Machine g) :
    Decidable ((Conduct.history g).permits r m) :=
  inferInstanceAs (Decidable True)

namespace Machine

/-- Some session on a new cache comes to this machine, with this history. -/
def Recorded (r : List g.Buffer) (m : Machine g) : Prop :=
  (Conduct.history g).Run (fun w r => w = World.initial g ∧ r = []) r m

variable {r : List g.Buffer} {order : List g.Buffer} {m n : Machine g} {i : g.Buffer} {b : Block}

theorem Recorded.reachable (h : m.Recorded r) : m.Reachable :=
  Conduct.Run.reachable (fun _ _ hw => hw.1) h

/-- Every session has a history. -/
theorem Reachable.exists_recorded (h : m.Reachable) : ∃ r, m.Recorded r := by
  unfold Reachable at h
  generalize () = u at h
  induction h with
  | start waiting c hw => exact ⟨[], .start waiting c ⟨hw, rfl⟩⟩
  | step _ _ hs ih =>
    obtain ⟨r, hr⟩ := ih
    exact ⟨_, .step hr trivial hs⟩
  | next waiting c _ _ hs ih =>
    obtain ⟨r, hr⟩ := ih
    exact ⟨_, .next waiting c hr trivial hs⟩

/-! ## The order of the ring -/

/-- The ring goes through the buffers in this order. -/
def Rings (m : Machine g) (order : List g.Buffer) : Prop :=
  m.world.cache.buffers.Rings order

/-- A move keeps all blocks and the order of the ring, or gives one buffer another block, which
takes it to the end. -/
theorem Reachable.rings_cases (h : m.Reachable) (hmove : m.Moves n) (horder : m.Rings order)
    (hall : ∀ i, i ∈ order) :
    (∀ i, n.content i = m.content i) ∧ n.Rings order ∨
      ∃ i, n.content i ≠ m.content i ∧ (∀ j, j ≠ i → n.content j = m.content j) ∧
        n.Rings (order.erase i ++ [i]) := by
  obtain ⟨e, hfits, happly⟩ := h.exists_effect hmove
  unfold content Rings
  rw [happly]
  by_cases he : ∃ i b s, e = .assign i b s
  · obtain ⟨i, b, s, rfl⟩ := he
    obtain ⟨-, -, -, habsent, hs⟩ := hfits
    have hcontent (j : g.Buffer) : ((m.world.cache.assign i s).header j).content =
        if i = j then some b else (m.world.cache.header j).content := by
      rw [Cache.header_assign]
      have hbare := congrArg Header.content (Buffers.bare_reassign hs j)
      refine hbare.trans ?_
      split <;> rfl
    refine .inr ⟨i, ?_, fun j hj => (hcontent j).trans (if_neg hj.symm), ?_⟩
    · change ((m.world.cache.assign i s).header i).content ≠ _
      rw [hcontent, if_pos rfl]
      exact (h.chained.locate_eq_none_iff.mp habsent i trivial).symm
    · rw [Effect.apply, Cache.buffers_assign]
      exact horder.reassign (hall i) hs
  · have he' (i : g.Buffer) (b : Block) (s : Buffers g) : e ≠ .assign i b s :=
      fun heq => he ⟨i, b, s, heq⟩
    exact .inl ⟨fun j => Cache.content_of_unmarked (e.unmarked_header he' _ j),
      Effect.rings_of_ne he' horder⟩

/-- The history goes on with what the move gives another block. -/
theorem Steps.record_of_kept (h : m.Steps n) (hkept : ∀ i, n.content i = m.content i) :
    (Conduct.history g).record r m = r := by
  have hnone : m.reassigned = [] := by
    rw [reassigned, step_of_steps h]
    refine List.filter_eq_nil_iff.mpr fun i _ => ?_
    rw [decide_eq_true_iff, not_not]
    exact hkept i
  change r ++ m.reassigned = r
  rw [hnone, List.append_nil]

theorem Steps.record_of_given (h : m.Steps n) (hgiven : n.content i ≠ m.content i)
    (hothers : ∀ j, j ≠ i → n.content j = m.content j) :
    (Conduct.history g).record r m = r ++ [i] := by
  change r ++ m.reassigned = r ++ [i]
  rw [reassigned, step_of_steps h]
  have hfilter (j : g.Buffer) : decide (n.content j ≠ m.content j) = (j == i) := by
    by_cases hj : j = i
    · subst hj
      simp [hgiven]
    · simp [hj, hothers j hj]
  simp only [hfilter]
  rw [List.filter_beq, Geometry.allBuffers,
    List.count_eq_one_of_mem (List.nodup_finRange _) (List.mem_finRange i)]
  rfl

/-- The ring goes through all buffers, in the order of the history. -/
theorem Recorded.aged (h : m.Recorded r) :
    ∃ order, m.Rings order ∧ (∀ i, i ∈ order) ∧ Aged r order := by
  let Inv (r : List g.Buffer) (m : Machine g) : Prop :=
    m.Reachable ∧ ∃ order, m.Rings order ∧ (∀ i, i ∈ order) ∧ Aged r order
  suffices hm : Inv r m from hm.2
  refine Conduct.Run.invariant (fun w r waiting c hw => ?_) (fun r m m' hm _ hs => ?_)
    (fun r w a waiting c hm => ?_) h
  · obtain ⟨rfl, rfl⟩ := hw
    exact ⟨reachable_start waiting c, _, Buffers.rings_initial g, g.mem_allBuffers, aged_nil g⟩
  · obtain ⟨hreachable, order, horder, hall, haged⟩ := hm
    refine ⟨hreachable.moves (.step hs), ?_⟩
    rcases hreachable.rings_cases (.step hs) horder hall with
      ⟨hkept, hsame⟩ | ⟨i, hgiven, hothers, hmoved⟩
    · rw [hs.record_of_kept hkept]
      exact ⟨order, hsame, hall, haged⟩
    · rw [hs.record_of_given hgiven hothers]
      refine ⟨_, hmoved, fun j => ?_, haged.append horder.nodup i⟩
      rw [List.mem_append, List.mem_singleton]
      by_cases hj : j = i
      · exact .inr hj
      · exact .inl ((List.mem_erase_of_ne hj).mpr (hall j))
  · obtain ⟨hreachable, order, horder, hall, haged⟩ := hm
    have hrecord : (Conduct.history g).record r ⟨w, .reply, .give a, .bottom⟩ = r :=
      List.append_nil r
    rw [hrecord]
    exact ⟨hreachable.moves (.next waiting c), order, horder, hall, haged⟩

/-! ## What is replaced -/

/-- A buffer can be given another block at once: it is free, clean and unlocked. -/
structure Replaceable (m : Machine g) (i : g.Buffer) : Prop where
  free : m.references i = 0
  clean : (m.world.cache.header i).dirty = false
  unlocked : (m.world.cache.header i).locked = false

/-- Such a buffer costs nothing, and no other free one does. -/
theorem replaceable_iff : m.Replaceable i ↔
    (m.world.cache.header i).references = 0 ∧ (m.world.cache.header i).cost = 0 := by
  refine ⟨fun h => ⟨h.free, ?_⟩, fun ⟨hfree, hcost⟩ => ⟨hfree, ?_, ?_⟩⟩
  · rw [Header.cost, h.clean, h.unlocked]
    rfl
  · cases hdirty : (m.world.cache.header i).dirty with
    | false => rfl
    | true =>
      rw [Header.cost, hdirty] at hcost
      exact absurd hcost (by simp)
  · cases hlocked : (m.world.cache.header i).locked with
    | false => rfl
    | true =>
      rw [Header.cost, hlocked] at hcost
      exact absurd hcost (by simp)

/-- If there is a buffer that can be given another block at once, the victim is one too, and no
other such buffer is older. -/
theorem Recorded.exists_victim (h : m.Recorded r) (hsome : ∃ j, m.Replaceable j) :
    ∃ i, m.world.cache.buffers.victim = .ok (some i) ∧ m.Replaceable i ∧
      ∀ j, m.Replaceable j → j ≠ i → Older r i j := by
  obtain ⟨order, horder, hall, haged⟩ := h.aged
  obtain ⟨k, hk⟩ := hsome
  have hkcost := (replaceable_iff.mp hk).2
  cases hvictim : m.world.cache.buffers.victim with
  | error f => cases horder.victim_eq.symm.trans hvictim
  | ok victim =>
    cases victim with
    | none => exact absurd hk.free ((horder.victim_eq_none_iff hall).mp hvictim k)
    | some i =>
      obtain ⟨hfree, hbest⟩ := (horder.victim_eq_some_iff hall).mp hvictim
      have hcost : (m.world.cache.header i).cost = 0 := by
        rcases hbest k hk.free with hlt | ⟨heq, -⟩
        · exact absurd (Nat.lt_of_lt_of_eq hlt hkcost) (Nat.not_lt_zero _)
        · exact heq.trans hkcost
      refine ⟨i, rfl, replaceable_iff.mpr ⟨hfree, hcost⟩, fun j hj hji => ?_⟩
      -- Both cost nothing, so the place in the ring decides.
      have hjcost := (replaceable_iff.mp hj).2
      rcases hbest j hj.free with hlt | ⟨-, hle⟩
      · exact absurd (Nat.lt_of_lt_of_eq hlt hjcost) (Nat.not_lt_zero _)
      · exact haged.older (hall j) hle hji.symm

/-- What is known of the ring and of what is taken from it, where the ring goes through the
buffers in this order and the history is `r`. -/
structure Replaces (r order : List g.Buffer) (m : Machine g) : Prop where
  /-- The links go along the order, and from its end to the head. -/
  rings : m.Rings order
  /-- Every buffer is in the order once. -/
  complete : order.Perm g.allBuffers
  /-- To follow the links from the head on lists the buffers in this order. -/
  listed : m.world.cache.buffers.ring = .ok order
  /-- The links back undo the links forward. -/
  inverse : ∀ i j, (m.world.cache.header i).ringNext = some j ↔
    (m.world.cache.header j).ringPrev = some i
  /-- The next step does not find the ring broken. -/
  unbroken : m.step ≠ .halted (.fault .ringBroken)
  /-- A buffer can be given any block of a device that is not in the cache. -/
  reassigns : ∀ i {b}, b.device ≠ 0 → m.world.cache.contains b = false →
    ∃ s, m.world.cache.buffers.reassign i b = .ok s
  /-- Wherever it stands, that takes it to the end of the ring. -/
  moves : ∀ {i b s}, m.world.cache.buffers.reassign i b = .ok s →
    s.Rings (order.erase i ++ [i])
  /-- This is what the next move does if it gives a buffer another block. -/
  moved : ∀ {n i}, m.Moves n → n.content i ≠ m.content i → n.Rings (order.erase i ++ [i])
  /-- No other move changes the order. -/
  kept : ∀ {n}, m.Moves n → (∀ i, n.content i = m.content i) → n.Rings order
  /-- A victim can always be looked for. -/
  looked : ∃ victim, m.world.cache.buffers.victim = .ok victim
  /-- There is no victim just if there are references to all buffers. -/
  none_free : m.world.cache.buffers.victim = .ok none ↔ ∀ i, 0 < m.references i
  /-- Otherwise it is, of the cheapest free buffers, the first in the ring. -/
  first_cheapest : ∀ {i}, m.world.cache.buffers.victim = .ok (some i) ↔
    m.references i = 0 ∧ ∀ j, m.references j = 0 → m.world.cache.buffers.Prefers order i j
  /-- The order of the ring goes by the history. -/
  aged : Aged r order
  /-- If a block is got that is not in the cache, and there are buffers that can be had at once,
  then the call does not give way. -/
  prompt : ∀ {w b} {base : Stack g .hold}, m = ⟨w, .hold, .run (.acquire b), base⟩ →
    b.device ≠ 0 → m.world.cache.contains b = false → (∃ j, m.Replaceable j) →
      ∃ w' h, Leads (fun x => ¬ x.Returned base ∧ ¬ x.GivesWay) m ⟨w', .hold, .give h, base⟩
  /-- It takes the one of them that has had its block for the longest time. -/
  oldest : ∀ {w b w' h} {base : Stack g .hold}, m = ⟨w, .hold, .run (.acquire b), base⟩ →
    m.world.cache.contains b = false → (∃ j, m.Replaceable j) →
      Leads (¬ Returned base ·) m ⟨w', .hold, .give h, base⟩ →
        m.Replaceable h.buffer ∧ m.Reassigns b h.buffer ⟨w', .hold, .give h, base⟩ ∧
          ∀ j, m.Replaceable j → j ≠ h.buffer → Older r h.buffer j

/-- A call that gets a buffer returns only if it is for a block of a device. -/
theorem device_ne_zero_of_returned {w w' : World g} {v : Hold g} {base : Stack g .hold}
    (hspan : Leads (¬ Returned base ·) ⟨w, .hold, .run (.acquire b), base⟩
      ⟨w', .hold, .give v, base⟩) : b.device ≠ 0 := by
  intro hzero
  rcases hspan.cases_head with heq | ⟨x, ⟨-, hmove⟩, -⟩
  · cases heq
  · obtain ⟨w'', n, hbegin, -⟩ := moves_of_run hmove
    change w.acquire b = _ at hbegin
    rw [World.acquire, if_pos hzero] at hbegin
    cases hbegin

/-- A call that does not find its block takes the victim at once, if that is free, clean and
unlocked. -/
theorem Reachable.completes_of_victim {w : World g} {base : Stack g .hold}
    (h : Reachable ⟨w, .hold, .run (.acquire b), base⟩) (hdevice : b.device ≠ 0)
    (habsent : w.cache.contains b = false) (hvictim : w.cache.buffers.victim = .ok (some i))
    (hi : Replaceable ⟨w, .hold, .run (.acquire b), base⟩ i) :
    (Call.acquire b).Completes True (fun w' (h : Shape.hold.Value g) => h.buffer = i ∧
      ∃ s, (Effect.assign i b s).Fits (w.cache.tick .access) ∧
        w'.cache = (w.cache.tick .access).assign i s) w := by
  have hnone : w.cache.buffers.locate b = none := by simpa [Cache.contains] using habsent
  exact Call.completes_acquire_victim h.chained h.ringed hdevice hnone hvictim hi.unlocked
    hi.clean

/-- In every session the ring is in order, and what is taken from it has had its block for the
longest time. -/
theorem Reachable.replaces (h : m.Reachable) :
    (∃ r, m.Recorded r) ∧ ∀ r, m.Recorded r → ∃ order, m.Replaces r order := by
  refine ⟨h.exists_recorded, fun r hr => ?_⟩
  obtain ⟨order, horder, hall, haged⟩ := hr.aged
  have hmoves {i : g.Buffer} {b : Block} {s : Buffers g}
      (hs : m.world.cache.buffers.reassign i b = .ok s) : s.Rings (order.erase i ++ [i]) :=
    horder.reassign (hall i) hs
  refine ⟨order, horder, ?_, horder.ring_eq, horder.ringNext_iff hall, h.step_ne_ringBroken,
    fun i b hdevice habsent => ?_, hmoves, fun {n i} hmove hgiven => ?_, fun {n} hmove hkept => ?_,
    ⟨_, horder.victim_eq⟩, ?_, horder.victim_eq_some_iff hall, haged, ?_, ?_⟩
  · exact (List.perm_ext_iff_of_nodup horder.nodup (List.nodup_finRange _)).mpr fun i =>
      iff_of_true (hall i) (g.mem_allBuffers i)
  · have hnone : m.world.cache.buffers.locate b = none := by
      simpa [Cache.contains] using habsent
    obtain ⟨s, hs, -⟩ := horder.exists_reassign (hall i) h.chained hdevice fun j =>
      h.chained.locate_eq_none_iff.mp hnone j trivial
    exact ⟨s, hs⟩
  · rcases h.rings_cases hmove horder hall with ⟨hkept, -⟩ | ⟨j, -, hothers, hmoved⟩
    · exact absurd (hkept i) hgiven
    · by_cases hij : i = j
      · exact hij ▸ hmoved
      · exact absurd (hothers i hij) hgiven
  · rcases h.rings_cases hmove horder hall with ⟨-, hsame⟩ | ⟨j, hgiven, -⟩
    · exact hsame
    · exact absurd (hkept j) hgiven
  · simp only [Nat.pos_iff_ne_zero]
    exact horder.victim_eq_none_iff hall
  · rintro w b base rfl hdevice habsent hsome
    obtain ⟨i, hvictim, hi, -⟩ := hr.exists_victim hsome
    have hcompletes := h.completes_of_victim hdevice habsent hvictim hi
    obtain ⟨w', v, hspan, -⟩ := (hcompletes.machine base).exists_leads
    exact ⟨w', v, hspan⟩
  · rintro w b w' v base rfl habsent hsome hspan
    obtain ⟨i, hvictim, hi, holdest⟩ := hr.exists_victim hsome
    have hdevice := device_ne_zero_of_returned hspan
    have hcompletes := h.completes_of_victim hdevice habsent hvictim hi
    obtain ⟨rfl, s, hfits, happly⟩ := (hcompletes.machine base).of_returned hspan
    -- The access is counted before, which changes no buffer.
    have hcounted := h.moves (.step (.begin base (begin_acquire hdevice w)))
    have hgiven := hcounted.reassigns_of_assign (h.leads hspan) hfits happly
    exact ⟨hi, ⟨hgiven.absent, hgiven.free, hgiven.unlocked, hgiven.clean, hgiven.given,
      hgiven.others, hgiven.cached, hgiven.pages⟩, holdest⟩

/-- The history and the machine once buffers were got for these blocks and given back, in a new
cache with two buffers. -/
def touched (blocks : List Block) : List Geometry.small.Buffer × Machine Geometry.small :=
  let k := Conduct.history Geometry.small
  blocks.foldl
    (fun p b => let q := k.following [] (.touch b) p.1 p.2; k.after 20 q.1 q.2)
    (k.after 20 [] (start ((World.initial Geometry.small).fresh []) .statistics))

theorem recorded_touched (blocks : List Block) : (touched blocks).2.Recorded (touched blocks).1 := by
  have hstart : Recorded [] (start ((World.initial Geometry.small).fresh []) .statistics) :=
    .start [] _ ⟨rfl, rfl⟩
  unfold touched
  dsimp only
  generalize hp : (Conduct.history Geometry.small).after 20 []
    (start ((World.initial Geometry.small).fresh []) .statistics) = p
  have h : p.2.Recorded p.1 := hp ▸ hstart.after 20
  clear hp
  induction blocks generalizing p with
  | nil => exact h
  | cons b blocks ih => exact ih _ ((h.following [] (.touch b)).after 20)

/-- The first of the two buffers was given a block, then the second, and then the first another
one.  Nobody has a reference now, and a buffer is got for a fourth block. -/
def touchedAgain : List Geometry.small.Buffer × Machine Geometry.small :=
  let k := Conduct.history Geometry.small
  let p := touched [⟨257, 1⟩, ⟨257, 2⟩, ⟨257, 3⟩]
  let q := k.following [] (.touch ⟨257, 4⟩) p.1 p.2
  k.after 1 q.1 q.2

theorem recorded_touchedAgain : touchedAgain.2.Recorded touchedAgain.1 :=
  ((recorded_touched _).following [] _).after 1

/-- The second buffer is the first in the ring. -/
theorem replaces_of_touchedAgain :
    ∃ (i j : Geometry.small.Buffer) (base : Stack Geometry.small .hold), i < j ∧
      touchedAgain.2 = ⟨touchedAgain.2.world, .hold, .run (.acquire ⟨257, 4⟩), base⟩ ∧
      touchedAgain.2.world.cache.contains ⟨257, 4⟩ = false ∧
      (∀ k, touchedAgain.2.Replaceable k) ∧ touchedAgain.2.Reachable ∧
      touchedAgain.2.Recorded [i, j, i] ∧ touchedAgain.2.Replaces [i, j, i] [j, i] := by
  let i : Geometry.small.Buffer := ⟨0, by decide⟩
  let j : Geometry.small.Buffer := ⟨1, by decide⟩
  have hrecord : touchedAgain.1 = [i, j, i] := by decide
  have hrecorded : touchedAgain.2.Recorded [i, j, i] := hrecord ▸ recorded_touchedAgain
  have hring : touchedAgain.2.world.cache.buffers.ring = .ok [j, i] := rfl
  have hreachable : touchedAgain.2.Reachable := hrecorded.reachable
  obtain ⟨order, horder⟩ := hreachable.replaces.2 _ hrecorded
  obtain rfl : order = [j, i] := Except.ok.inj (horder.listed.symm.trans hring)
  refine ⟨i, j, _, by decide, rfl, by decide, fun k => ?_, hreachable, hrecorded, horder⟩
  exact replaceable_iff.mpr (by revert k; decide)

end Machine
end BufferCache
