import BufferCache.Proofs.Circles
import BufferCache.Proofs.Index

/-!
# The ring of buffers is in order

`Rings s order` says that the ring of a table goes through the buffers in `order`, from its
head on, each of them once.  The ring of a cache always goes through all buffers.  Giving a
buffer another block moves it to the end of the order and leaves the others as they are.

Since the ring leaves no buffer out, no victim is found only where there are references to
all buffers.
-/

namespace BufferCache

variable {g : Geometry}

namespace Buffers

/-- The ring goes through the buffers in `order`, and then comes back to its head. -/
structure Rings (s : Buffers g) (order : List g.Buffer) : Prop where
  /-- The order begins at the head. -/
  first : order.head? = some s.ringHead
  /-- It is linked both ways, in a circle. -/
  circled : Circled (fun i => (s.header i).ringPrev) (fun i => (s.header i).ringNext) order
  /-- No buffer is in it twice. -/
  nodup : order.Nodup

namespace Rings

variable {s s' : Buffers g} {order : List g.Buffer} {i : g.Buffer}

/-- Only the links of the ring and its head matter. -/
theorem congr (h : s.Rings order) (hp : ∀ i, (s'.header i).ringPrev = (s.header i).ringPrev)
    (hn : ∀ i, (s'.header i).ringNext = (s.header i).ringNext)
    (hhead : s'.ringHead = s.ringHead) : s'.Rings order :=
  ⟨hhead ▸ h.first, h.circled.congr (fun i _ => hp i) fun i _ => hn i, h.nodup⟩

theorem order_eq (h : s.Rings order) : ∃ rest, order = s.ringHead :: rest := by
  obtain ⟨rest, hrest⟩ := List.head?_eq_some_iff.mp h.first
  exact ⟨rest, hrest⟩

/-! ## Listing -/

/-- A list whose links lead back to the head, and not earlier, is what the ring lists. -/
theorem ringFrom_eq {l : List g.Buffer} {bound : Nat}
    (h : (i :: l).IsChain fun x y => (s.header x).ringNext = some y)
    (hlast : ∃ z, (i :: l).getLast? = some z ∧ (s.header z).ringNext = some s.ringHead)
    (hhead : s.ringHead ∉ l) (hbound : l.length < bound) :
    s.ringFrom bound i = .ok (i :: l) := by
  induction l generalizing i bound with
  | nil =>
    obtain ⟨z, hz, hback⟩ := hlast
    obtain rfl : i = z := Option.some.inj hz
    cases bound with
    | zero => cases hbound
    | succ bound =>
      rw [ringFrom, ringNext, hback]
      exact if_pos rfl
  | cons j l ih =>
    rw [List.isChain_cons_cons] at h
    cases bound with
    | zero => cases hbound
    | succ bound =>
      rw [List.length_cons] at hbound
      have hj : j ≠ s.ringHead := fun hj => hhead (hj ▸ List.mem_cons_self)
      rw [List.getLast?_cons_cons] at hlast
      have hrest : s.ringFrom bound j = .ok (j :: l) :=
        ih h.2 hlast (fun hmem => hhead (List.mem_cons_of_mem j hmem)) (by omega)
      rw [ringFrom, ringNext, h.1]
      change (if j = s.ringHead then _ else _) = _
      rw [if_neg hj, hrest]
      rfl

theorem ring_eq (h : s.Rings order) : s.ring = .ok order := by
  obtain ⟨rest, rfl⟩ := h.order_eq
  obtain ⟨hchain, z, hlast, hback, -⟩ := Circled.cons_iff.mp h.circled
  obtain ⟨hhead, -⟩ := List.nodup_cons.mp h.nodup
  have hlength : (s.ringHead :: rest).length ≤ g.buffers := by
    simpa using h.nodup.length_le_card
  refine ringFrom_eq (hchain.imp fun _ _ hxy => hxy.1) ⟨z, hlast, hback⟩ hhead ?_
  rw [List.length_cons] at hlength
  exact hlength

end Rings

theorem cheapest_eq_none_iff {s : Buffers g} {l : List g.Buffer} :
    s.cheapest l = none ↔ l = [] := by
  cases l with
  | nil => exact iff_of_true rfl rfl
  | cons i rest =>
    refine iff_of_false ?_ (List.cons_ne_nil i rest)
    rw [cheapest]
    split
    · exact Option.some_ne_none i
    · split <;> exact Option.some_ne_none _

theorem mem_of_cheapest {s : Buffers g} {l : List g.Buffer} {i : g.Buffer}
    (h : s.cheapest l = some i) : i ∈ l := by
  induction l with
  | nil => cases h
  | cons j rest ih =>
    rw [cheapest] at h
    split at h
    · cases h
      exact List.mem_cons_self
    · rename_i k hk
      split at h
      · exact List.mem_cons_of_mem j (ih (hk.trans h))
      · cases h
        exact List.mem_cons_self

/-- A victim has no references. -/
theorem references_of_victim {s : Buffers g} {i : g.Buffer} (h : s.victim = .ok (some i)) :
    (s.header i).references = 0 := by
  obtain ⟨order, -, hcheapest⟩ := Cache.map_eq_ok h
  have hmem := List.mem_filter.mp (mem_of_cheapest hcheapest)
  exact beq_iff_eq.mp hmem.2

/-- No victim is found in a ring of all buffers just where there are references to all of
them. -/
theorem Rings.victim_eq_none_iff {s : Buffers g} {order : List g.Buffer} (h : s.Rings order)
    (hall : ∀ i, i ∈ order) :
    s.victim = .ok none ↔ ∀ i, (s.header i).references ≠ 0 := by
  have hvictim : s.victim =
      .ok (s.cheapest (order.filter fun i => (s.header i).references == 0)) := by
    rw [victim, h.ring_eq]
    rfl
  rw [hvictim, Except.ok.injEq, cheapest_eq_none_iff, List.filter_eq_nil_iff]
  simp only [beq_iff_eq]
  exact ⟨fun hnone i => hnone i (hall i), fun hnone i _ => hnone i⟩

/-! ## Moving a buffer to the end -/

section Moving

variable {s s' : Buffers g} {order : List g.Buffer} {i : g.Buffer}

/-- What taking a buffer out of the ring does to the links. -/
theorem unring_eq_ok (h : s.unring i = .ok s') :
    ∃ before after, (s.header i).ringPrev = some before ∧ (s.header i).ringNext = some after ∧
      (∀ j, (s'.header j).ringPrev =
        if after = j then some before else (s.header j).ringPrev) ∧
      (∀ j, (s'.header j).ringNext =
        if before = j then some after else (s.header j).ringNext) ∧
      s'.ringHead = if s.ringHead = i then after else s.ringHead := by
  unfold unring at h
  split at h
  · rename_i before after hbefore hafter
    cases h
    have hheader (j : g.Buffer) (joined : Buffers g) (head : g.Buffer) :
        header { joined with ringHead := head } j = joined.header j := rfl
    refine ⟨before, after, hbefore, hafter, fun j => ?_, fun j => ?_, rfl⟩
    · rw [hheader, header_update, header_update]
      split <;> split <;> rfl
    · rw [hheader, header_update, header_update]
      split <;> split <;> rfl
  · cases h

/-- What putting a buffer at the end of the ring does to the links. -/
theorem enring_eq_ok (h : s.enring i = .ok s') :
    ∃ last, (s.header s.ringHead).ringPrev = some last ∧
      (∀ j, (s'.header j).ringPrev = if s.ringHead = j then some i
        else if i = j then some last else (s.header j).ringPrev) ∧
      (∀ j, (s'.header j).ringNext = if last = j then some i
        else if i = j then some s.ringHead else (s.header j).ringNext) ∧
      s'.ringHead = s.ringHead := by
  unfold enring at h
  split at h
  · cases h
  · rename_i last hlast
    cases h
    refine ⟨last, hlast, fun j => ?_, fun j => ?_, rfl⟩
    · rw [header_update, header_update, header_update]
      split <;> split <;> split <;> rfl
    · rw [header_update, header_update, header_update]
      split <;> split <;> split <;> rfl

/-- Taking a buffer out of the ring leaves the order of the others, if there are any. -/
theorem Rings.unring (h : s.Rings order) (hi : i ∈ order) (hother : order ≠ [i])
    (hs : s.unring i = .ok s') : s'.Rings (order.erase i) := by
  obtain ⟨before, after, hbefore, hafter, hp, hn, hhead⟩ := unring_eq_ok hs
  obtain ⟨l₁, l₂, rfl⟩ := List.append_of_mem hi
  have hnodup := h.nodup
  rw [List.nodup_append_comm, List.cons_append, List.nodup_cons] at hnodup
  have hnot : i ∉ l₁ := fun hmem => hnodup.1 (List.mem_append_right l₂ hmem)
  rw [List.erase_append_right _ hnot, List.erase_cons_head]
  -- Seen from the buffer that is taken out, the others begin behind it.
  have hrotated := h.circled.of_isRotated List.isRotated_append
  rw [List.cons_append] at hrotated
  have hcircled : Circled (fun j => (s'.header j).ringPrev) (fun j => (s'.header j).ringNext)
      (l₂ ++ l₁) ∧ (l₂ ++ l₁).head? = some after := by
    cases hl : l₂ ++ l₁ with
    | nil =>
      obtain ⟨rfl, rfl⟩ := List.append_eq_nil_iff.mp hl
      exact absurd rfl hother
    | cons a l =>
      rw [hl] at hrotated hnodup
      obtain ⟨hchain, -⟩ := Circled.cons_iff.mp hrotated
      obtain rfl : a = after :=
        Option.some.inj ((List.isChain_cons_cons.mp hchain).1.1.symm.trans hafter)
      exact ⟨hrotated.remove hnodup.1 hbefore hn hp, rfl⟩
  refine ⟨?_, hcircled.1.of_isRotated List.isRotated_append, List.nodup_append_comm.mp hnodup.2⟩
  have hfirst := h.first
  cases l₁ with
  | nil =>
    obtain rfl : i = s.ringHead := Option.some.inj hfirst
    rw [hhead, if_pos rfl, ← hcircled.2, List.append_nil]
    rfl
  | cons b l₁ =>
    obtain rfl : b = s.ringHead := Option.some.inj hfirst
    rw [hhead, if_neg fun he : s.ringHead = i => hnot (he ▸ List.mem_cons_self)]
    rfl

/-- Putting a buffer at the end of the ring puts it at the end of the order. -/
theorem Rings.enring (h : s.Rings order) (hi : i ∉ order) (hs : s.enring i = .ok s') :
    s'.Rings (order ++ [i]) := by
  obtain ⟨last, hlast, hp, hn, hhead⟩ := enring_eq_ok hs
  obtain ⟨rest, rfl⟩ := h.order_eq
  refine ⟨?_, h.circled.append (List.nodup_cons.mp h.nodup).1 hi hlast hn hp, ?_⟩
  · rw [hhead]
    rfl
  · exact List.nodup_append_comm.mp (List.nodup_cons.mpr ⟨hi, h.nodup⟩)

/-- A buffer that is alone in the ring is linked to itself. -/
theorem Rings.links_of_alone (h : s.Rings [i]) : s.ringHead = i ∧
    (s.header i).ringPrev = some i ∧ (s.header i).ringNext = some i := by
  obtain ⟨-, z, hz, hnext, hprev⟩ := Circled.cons_iff.mp h.circled
  obtain rfl : i = z := Option.some.inj hz
  exact ⟨(Option.some.inj h.first).symm, hprev, hnext⟩

theorem rings_alone (hhead : s.ringHead = i) (hp : (s.header i).ringPrev = some i)
    (hn : (s.header i).ringNext = some i) : s.Rings [i] :=
  ⟨congrArg some hhead.symm, Circled.cons_iff.mpr ⟨List.isChain_singleton i, i, rfl, hn, hp⟩,
    List.nodup_singleton i⟩

/-- A buffer that is alone in the ring stays there as it is taken out. -/
theorem Rings.unring_alone (h : s.Rings [i]) (hs : s.unring i = .ok s') : s'.Rings [i] := by
  obtain ⟨hring, hprev, hnext⟩ := h.links_of_alone
  obtain ⟨before, after, hbefore, hafter, hp, hn, hhead⟩ := unring_eq_ok hs
  obtain rfl : i = before := Option.some.inj (hprev.symm.trans hbefore)
  obtain rfl : i = after := Option.some.inj (hnext.symm.trans hafter)
  refine rings_alone ?_ ((hp i).trans (if_pos rfl)) ((hn i).trans (if_pos rfl))
  rw [hhead, if_pos hring]

/-- It stays there as it is put at the end. -/
theorem Rings.enring_alone (h : s.Rings [i]) (hs : s.enring i = .ok s') : s'.Rings [i] := by
  obtain ⟨hring, hprev, -⟩ := h.links_of_alone
  obtain ⟨last, hlast, hp, hn, hhead⟩ := enring_eq_ok hs
  rw [hring, hprev] at hlast
  obtain rfl : i = last := Option.some.inj hlast
  exact rings_alone (hhead.trans hring) ((hp i).trans (if_pos hring))
    ((hn i).trans (if_pos rfl))

/-! ## Giving a buffer another block -/

theorem ringHead_update? (s : Buffers g) (o : Option g.Buffer)
    (f : Header g.buffers → Header g.buffers) : (s.update? o f).ringHead = s.ringHead := by
  cases o <;> rfl

theorem ringHead_unchain (s : Buffers g) (i : g.Buffer) :
    (s.unchain i).ringHead = s.ringHead := by
  have hjoined : (s.joined i).ringHead = s.ringHead := by
    rw [joined, ringHead_update?, ringHead_update?]
  rw [unchain_eq]
  split
  · exact hjoined
  · split <;> exact hjoined

theorem Rings.unchain (h : s.Rings order) (i : g.Buffer) : (s.unchain i).Rings order := by
  refine h.congr (fun j => ?_) (fun j => ?_) (ringHead_unchain s i) <;> rw [header_unchain]

theorem Rings.assign (h : s.Rings order) (i : g.Buffer) (b : Block) :
    (s.update i fun h => h.assign b).Rings order := by
  refine h.congr (fun j => ?_) (fun j => ?_) rfl <;> rw [header_update] <;> split <;> rfl

theorem Rings.enchain {b : Block} (h : s.Rings order) (hs : s.enchain i b = .ok s') :
    s'.Rings order := by
  rw [enchain_eq] at hs
  split at hs
  · cases hs
  · cases hs
    refine h.congr (fun j => ?_) (fun j => ?_) (ringHead_update? ..)
    · rw [header_entered, header_loosened]
      split <;> rfl
    · rw [header_entered, header_loosened]
      split <;> rfl

/-- A buffer that is given another block moves to the end of the ring; the others keep their
order. -/
theorem Rings.reassign {b : Block} (h : s.Rings order) (hi : i ∈ order)
    (hs : s.reassign i b = .ok s') : s'.Rings (order.erase i ++ [i]) := by
  rw [reassign_eq] at hs
  split at hs
  · cases hs
  rename_i detached hdetached
  split at hs
  · cases hs
  rename_i attached hattached
  refine Rings.enchain ?_ hs
  by_cases halone : order = [i]
  · subst halone
    rw [List.erase_cons_head, List.nil_append]
    exact (((h.unchain i).unring_alone hdetached).assign i b).enring_alone hattached
  · refine Rings.enring (Rings.assign ((h.unchain i).unring hi halone hdetached) i b) ?_ hattached
    exact h.nodup.not_mem_erase

/-- Buffers are taken out of a ring that they stand in. -/
theorem Rings.exists_unring (h : s.Rings order) (hi : i ∈ order) :
    ∃ s', s.unring i = .ok s' := by
  obtain ⟨before, after, hbefore, hafter⟩ := h.circled.exists_links hi
  rw [Buffers.unring, hbefore, hafter]
  exact ⟨_, rfl⟩

theorem Rings.exists_enring (h : s.Rings order) (i : g.Buffer) :
    ∃ s', s.enring i = .ok s' := by
  obtain ⟨last, -, hlast, -⟩ := h.circled.exists_links (List.mem_of_mem_head? h.first)
  rw [Buffers.enring, hlast]
  exact ⟨_, rfl⟩

/-- Where the ring is in order, all that can fail as a buffer is given another block is the entry
in the chain. -/
theorem Rings.eq_duplicate_of_reassign {b : Block} {f : Fault} (h : s.Rings order)
    (hi : i ∈ order) (hs : s.reassign i b = .error f) : f = .duplicateBlock b := by
  obtain ⟨detached, hdetached⟩ := (h.unchain i).exists_unring hi
  have hrings : ∃ order', detached.Rings order' := by
    by_cases halone : order = [i]
    · subst halone
      exact ⟨_, (h.unchain i).unring_alone hdetached⟩
    · exact ⟨_, (h.unchain i).unring hi halone hdetached⟩
  obtain ⟨order', horder'⟩ := hrings
  obtain ⟨attached, hattached⟩ := (horder'.assign i b).exists_enring i
  rw [reassign_eq, hdetached] at hs
  dsimp only at hs
  rw [hattached] at hs
  dsimp only at hs
  rw [enchain_eq] at hs
  split at hs <;> cases hs
  rfl

/-- Where ring and index are in order, a buffer can be given any block of a device that no
buffer holds. -/
theorem Rings.exists_reassign {b : Block} (h : s.Rings order) (hi : i ∈ order)
    (hc : s.Chained fun _ => True) (hdevice : b.device ≠ 0)
    (hnone : ∀ j, (s.header j).content ≠ some b) :
    ∃ s', s.reassign i b = .ok s' ∧ s'.Chained fun _ => True := by
  have hreassign := hc.reassign i hdevice hnone
  cases hs : s.reassign i b with
  | ok s' =>
    rw [hs] at hreassign
    exact ⟨s', rfl, hreassign⟩
  | error f =>
    -- By the order of the index only the ring can be at fault, and by that of the ring only the
    -- index.
    rw [hs] at hreassign
    cases hreassign.symm.trans (h.eq_duplicate_of_reassign hi hs)

end Moving

/-! ## The first table -/

theorem val_cyclic (i : g.Buffer) (k : Nat) :
    (cyclic g i k).val = (i.val + k) % g.buffers := rfl

/-- In a new cache the ring follows the indices. -/
theorem rings_initial (g : Geometry) : (initial g).Rings g.allBuffers := by
  have hpos := g.buffers_pos
  have hlength : g.allBuffers.length = g.buffers := List.length_finRange
  have hval (k : Nat) (hk : k < g.allBuffers.length) : (g.allBuffers[k]).val = k := by
    simp [Geometry.allBuffers]
  have hfirst : g.allBuffers.head? = some g.firstBuffer := by
    rw [List.head?_eq_getElem?, List.getElem?_eq_getElem (hlength.symm ▸ hpos)]
    exact congrArg some (Fin.ext (hval 0 _))
  obtain ⟨rest, hrest⟩ := List.head?_eq_some_iff.mp hfirst
  refine ⟨hfirst, ?_, List.nodup_finRange _⟩
  rw [hrest, Circled.cons_iff, ← hrest]
  simp only [header_initial, Option.some.injEq]
  refine ⟨List.isChain_iff_getElem.mpr fun k hk => ⟨Fin.ext ?_, Fin.ext ?_⟩,
    cyclic g g.firstBuffer (g.buffers - 1), ?_, Fin.ext ?_, rfl⟩
  · rw [val_cyclic, hval, hval, Nat.mod_eq_of_lt (by omega)]
  · rw [val_cyclic, hval, hval]
    have hsum : k + 1 + (g.buffers - 1) = k + g.buffers := by omega
    rw [hsum, Nat.add_mod_right, Nat.mod_eq_of_lt (by omega)]
  · have hlast : g.allBuffers.length - 1 < g.allBuffers.length := by omega
    rw [List.getLast?_eq_getElem?, List.getElem?_eq_getElem hlast]
    refine congrArg some (Fin.ext ?_)
    change _ = (0 + (g.buffers - 1)) % g.buffers
    rw [hval, hlength, Nat.zero_add, Nat.mod_eq_of_lt (by omega)]
  · have hsum : 0 + (g.buffers - 1) + 1 = g.buffers := by omega
    change ((0 + (g.buffers - 1)) % g.buffers + 1) % g.buffers = 0
    rw [Nat.mod_add_mod, hsum, Nat.mod_self]

end Buffers

/-! ## Reachable machines -/

/-- Only giving a buffer another block moves the head of the ring. -/
theorem Effect.ringHead_apply {e : Effect g} (he : ∀ i b s, e ≠ .assign i b s) (c : Cache g) :
    (e.apply c).buffers.ringHead = c.buffers.ringHead := by
  cases e with
  | assign i b s => exact absurd rfl (he i b s)
  | queue direct d i b slot => cases direct <;> rfl
  | finish m slot q success => cases success <;> rfl
  | serve m d slot q =>
    rw [apply]
    generalize (d.serve q.transfer (c.page q.buffer)).success = success
    cases success <;> rfl
  | edit i page valid dirty => cases page <;> cases valid <;> cases dirty <;> rfl
  | _ => rfl

/-- So the ring keeps its order. -/
theorem Effect.rings_of_ne {e : Effect g} (he : ∀ i b s, e ≠ .assign i b s) {c : Cache g}
    {order : List g.Buffer} (h : c.buffers.Rings order) : (e.apply c).buffers.Rings order := by
  have hheader := e.unmarked_header he c
  refine h.congr (fun j => ?_) (fun j => ?_) (e.ringHead_apply he c)
  · exact (congrArg Header.ringPrev (hheader j) :)
  · exact (congrArg Header.ringNext (hheader j) :)

/-- The ring of a cache goes through all buffers. -/
def Buffers.Ringed (s : Buffers g) : Prop :=
  ∃ order, s.Rings order ∧ ∀ i, i ∈ order

theorem Effect.ringed {e : Effect g} {c : Cache g} (hfits : e.Fits c) (h : c.buffers.Ringed) :
    (e.apply c).buffers.Ringed := by
  obtain ⟨order, horder, hall⟩ := h
  by_cases he : ∃ i b s, e = .assign i b s
  · obtain ⟨i, b, s, rfl⟩ := he
    obtain ⟨-, -, -, -, hs⟩ := hfits
    rw [apply, Cache.buffers_assign]
    refine ⟨_, horder.reassign (hall i) hs, fun j => ?_⟩
    rw [List.mem_append, List.mem_singleton]
    by_cases hj : j = i
    · exact .inr hj
    · exact .inl ((List.mem_erase_of_ne hj).mpr (hall j))
  · exact ⟨order, rings_of_ne (fun i b s heq => he ⟨i, b, s, heq⟩) horder, hall⟩

namespace Machine

/-- In every session the ring goes through all buffers. -/
theorem Reachable.ringed {m : Machine g} (h : m.Reachable) : m.world.cache.buffers.Ringed := by
  let Inv (m : Machine g) : Prop := m.Aimed ∧ m.world.cache.buffers.Ringed
  suffices hm : Inv m from hm.2
  refine h.invariant (fun waiting c => ?_) (fun m m' hm hs => ?_) fun w a waiting c hm => ?_
  · exact ⟨⟨trivial, trivial⟩, _, Buffers.rings_initial g, g.mem_allBuffers⟩
  · obtain ⟨⟨e, hfits, happly, -⟩, haimed⟩ := hs.affects hm.1
    refine ⟨haimed, ?_⟩
    rw [happly]
    exact Effect.ringed hfits hm.2
  · exact ⟨⟨trivial, trivial⟩, hm.2⟩

/-- In every session a victim is missing just where there are references to all buffers. -/
theorem Reachable.victim_eq_none_iff {m : Machine g} (h : m.Reachable) :
    m.world.cache.buffers.victim = .ok none ↔
      ∀ i, (m.world.cache.header i).references ≠ 0 := by
  obtain ⟨order, horder, hall⟩ := h.ringed
  exact horder.victim_eq_none_iff hall

end Machine
end BufferCache
