import BufferCache.Proofs.ChainOrder

/-!
# The order of service

A driver has its current request in hand.  The others wait behind it, and a new one is put
among them so that all who wait stay in the order of service: reads before writes, then by
device, then by sector.  When the current request ends, the next one is the least of those who
wait, and the driver goes on from there.

Those who wait are sorted, so the order in which they came does not matter: a chain that keeps
its current request is that request and the others sorted, `Files.queued_eq`.

`Reachable.sweeps` puts this together for every machine of every session.
-/

namespace BufferCache

variable {g : Geometry}

namespace Machine

variable {m m' m₂ n n₂ : Machine g} {major : Nat} {k j : g.Slot} {o : Transfer × g.Buffer}
  {ts ts₂ : List Transfer}

/-- The slot of the current request of a major number. -/
def current? (m : Machine g) (major : Nat) : Option g.Slot :=
  m.world.cache.requests.currentSlot major

/-- The slots of the chain of a major number, in the order of service. -/
def chain (m : Machine g) (major : Nat) : List g.Slot :=
  m.world.cache.requests.chain major

/-- The transfers of the chain of a major number, in the order of service. -/
def queued (m : Machine g) (major : Nat) : List Transfer :=
  m.world.cache.requests.queued major

theorem Reachable.arranged (h : m.Reachable) : m.world.cache.requests.Arranged :=
  h.consistent.tallies.arranged

theorem Reachable.mem_chain_iff (h : m.Reachable) :
    k ∈ m.chain major ↔ ∃ o, m.order? k = some o ∧ o.1.device.major = major :=
  h.arranged.mem_iff major k

theorem Reachable.current?_eq (h : m.Reachable) (major : Nat) :
    m.current? major = (m.chain major).head? :=
  h.arranged.currentSlot_eq major

theorem queued_eq (m : Machine g) (major : Nat) :
    m.queued major = (m.chain major).filterMap m.world.cache.requests.transfer? :=
  RequestTable.queued_eq m.world.cache.requests major

theorem Reachable.turns (h : m.Reachable) (hm : m.Moves m') :
    m.world.cache.requests.Turns m'.world.cache.requests := by
  obtain ⟨e, hfits, happly⟩ := h.exists_effect hm
  have h' := (h.moves hm).arranged
  rw [happly] at h' ⊢
  exact Effect.turns hfits h.arranged h'

/-! ## Chains are sorted -/

/-- Whoever waits behind the current request waits in the order of service. -/
theorem Reachable.ordered (h : m.Reachable) (major : Nat) :
    Transfer.Ordered (m.queued major).tail := by
  let Inv (m : Machine g) : Prop :=
    m.Reachable ∧ ∀ major, Transfer.Ordered (m.queued major).tail
  suffices hm : Inv m from hm.2 major
  refine h.invariant (fun waiting c => ⟨reachable_start waiting c, fun major => ?_⟩)
    (fun m m' hm hs => ⟨hm.1.moves (.step hs), fun major => ?_⟩)
    fun w a waiting c hm => ⟨hm.1.moves (.next waiting c), hm.2⟩
  · have hempty : (start ((World.initial g).fresh waiting) c).chain major = [] := by
      refine List.eq_nil_iff_forall_not_mem.mpr fun k hk => ?_
      obtain ⟨o, ho, -⟩ := (reachable_start waiting c).mem_chain_iff.mp hk
      have hnone : (RequestTable.initial g).order? k = none := by
        simp [RequestTable.order?, RequestTable.request?, RequestTable.initial]
      cases hnone.symm.trans ho
    rw [queued_eq, hempty]
    exact .nil
  · rcases (hm.1.turns (.step hs)).queued hm.1.arranged major with
      hsame | ⟨i, o, -, -, -, hfiled⟩ | hretired
    · rw [queued, hsame]
      exact hm.2 major
    · rw [queued, hfiled]
      exact Transfer.ordered_file (hm.2 major) o.1
    · rw [queued, hretired]
      exact (hm.2 major).sublist (List.tail_sublist _)

/-! ## How requests pass through a chain -/

/-- A request that is queued goes behind the current one of its chain, and between others
of it.  Nothing else changes. -/
theorem Reachable.chain_of_queued (h : m.Reachable) (hm : m.Moves m')
    (hnone : m.order? k = none) (ho : m'.order? k = some o) :
    (∀ j, j ≠ k → m'.order? j = m.order? j) ∧ ∀ major, m'.chain major =
      if o.1.device.major = major then
        m.world.cache.requests.behind o.1 k (m.chain major)
      else m.chain major := by
  cases h.turns hm with
  | rest horder hchain =>
    rw [order?, horder] at ho
    cases hnone.symm.trans ho
  | queue i o' hfree horder hchain =>
    have hik : i = k := by
      by_contra hik
      rw [order?, horder, if_neg hik] at ho
      cases hnone.symm.trans ho
    subst hik
    rw [order?, horder, if_pos rfl] at ho
    cases ho
    exact ⟨fun j hj => (horder j).trans (if_neg hj.symm), hchain⟩
  | retire m₀ i hcurrent horder hchain =>
    rw [order?, horder] at ho
    split at ho
    · cases ho
    · cases hnone.symm.trans ho

/-- A request that ends was the current one.  Nothing else changes. -/
theorem Reachable.chain_of_ended (h : m.Reachable) (hm : m.Moves m')
    (ho : m.order? k = some o) (hnone : m'.order? k = none) :
    m.current? o.1.device.major = some k ∧ (∀ j, j ≠ k → m'.order? j = m.order? j) ∧
      ∀ major, m'.chain major =
        if o.1.device.major = major then (m.chain major).tail else m.chain major := by
  cases h.turns hm with
  | rest horder hchain =>
    rw [order?, horder] at hnone
    cases hnone.symm.trans ho
  | queue i o' hfree horder hchain =>
    rw [order?, horder] at hnone
    split at hnone
    · cases hnone
    · cases hnone.symm.trans ho
  | retire m₀ i hcurrent horder hchain =>
    have hik : i = k := by
      by_contra hik
      rw [order?, horder, if_neg hik] at hnone
      cases hnone.symm.trans ho
    subst hik
    obtain ⟨l, hfront, -⟩ := h.arranged.exists_cons hcurrent
    obtain ⟨o', ho', hmajor⟩ :=
      (h.arranged.mem_iff m₀ i).mp (hfront ▸ List.mem_cons_self)
    cases ho.symm.trans ho'
    subst hmajor
    exact ⟨hcurrent, fun j hj => (horder j).trans (if_neg hj.symm), hchain⟩

/-- Whoever is current once a request has ended precedes, or might, all who wait then. -/
theorem Reachable.exists_current_of_ended (h : m.Reachable) (hm : m.Moves m')
    (ho : m.order? k = some o) (hnone : m'.order? k = none) {o' : Transfer × g.Buffer}
    (hj : m'.order? j = some o') (hmajor : o'.1.device.major = o.1.device.major) :
    ∃ i o'', m'.current? o.1.device.major = some i ∧ m'.order? i = some o'' ∧
      ¬ o'.1.Precedes o''.1 := by
  have h' := h.moves hm
  obtain ⟨hcurrent, hkept, hchain⟩ := h.chain_of_ended hm ho hnone
  obtain ⟨l, hfront, -⟩ := h.arranged.exists_cons hcurrent
  have hchain' : m'.chain o.1.device.major = l := by
    rw [hchain, if_pos rfl, chain, hfront, List.tail_cons]
  have hmem : j ∈ l := hchain' ▸ h'.mem_chain_iff.mpr ⟨o', hj, hmajor⟩
  obtain ⟨i, l, rfl⟩ := List.exists_cons_of_ne_nil (List.ne_nil_of_mem hmem)
  have himem : i ∈ m'.chain o.1.device.major := hchain' ▸ List.mem_cons_self
  obtain ⟨o'', hi, -⟩ := h'.mem_chain_iff.mp himem
  have hold {x : g.Slot} {p : Transfer × g.Buffer} (hx : m'.order? x = some p) :
      m.order? x = some p := by
    refine (hkept x ?_).symm.trans hx
    rintro rfl
    cases hnone.symm.trans hx
  refine ⟨i, o'', ?_, hi, ?_⟩
  · rw [h'.current?_eq, hchain', List.head?_cons]
  · exact RequestTable.not_precedes_of_ordered (h.ordered o.1.device.major) hfront ho
      (hold hi) (hold hj) hmem

/-- Two requests of a chain, of which the first precedes the other and the other is not
current. -/
structure Queues (major : Nat) (k j : g.Slot) (o o' : Transfer × g.Buffer) (m : Machine g) :
    Prop where
  /-- The first stands in the chain. -/
  first : m.order? k = some o ∧ k ∈ m.chain major
  /-- The other waits behind the current one. -/
  other : m.order? j = some o' ∧ j ∈ (m.chain major).tail

theorem Reachable.queues_of_moves (h : m.Reachable) {o' : Transfer × g.Buffer}
    (hprecedes : o.1.Precedes o'.1) (hq : m.Queues major k j o o') (hm : m.Moves m')
    (htaken : m'.order? k ≠ none) : m'.Queues major k j o o' := by
  obtain ⟨⟨hk, hkmem⟩, hj, hjmem⟩ := hq
  cases h.turns hm with
  | rest horder hchain =>
    have hchain : m'.chain major = m.chain major := congrFun hchain major
    exact ⟨⟨(congrFun horder k).trans hk, hchain.symm ▸ hkmem⟩,
      (congrFun horder j).trans hj, hchain.symm ▸ hjmem⟩
  | queue i p hfree horder hchain =>
    have hkept {x : g.Slot} {p' : Transfer × g.Buffer} (hx : m.order? x = some p') :
        m'.order? x = some p' := by
      refine (horder x).trans ((if_neg ?_).trans hx)
      rintro rfl
      cases hfree.symm.trans hx
    have hchain : m'.chain major = _ := hchain major
    split at hchain
    · refine ⟨⟨hkept hk, ?_⟩, hkept hj, ?_⟩
      · rw [hchain]
        exact RequestTable.mem_behind_of_mem hkmem
      · rw [hchain]
        exact RequestTable.mem_tail_behind_of_mem hjmem
    · exact ⟨⟨hkept hk, hchain.symm ▸ hkmem⟩, hkept hj, hchain.symm ▸ hjmem⟩
  | retire m₀ i hcurrent horder hchain =>
    have hik : i ≠ k := by
      rintro rfl
      exact htaken ((horder i).trans (if_pos rfl))
    obtain ⟨l, hfront, -, hil, -⟩ := h.arranged.exists_cons hcurrent
    have hchain : m'.chain major = _ := hchain major
    split at hchain
    · rename_i hm₀
      subst hm₀
      rw [hfront, List.tail_cons] at hchain
      rw [chain, hfront] at hkmem hjmem
      rw [List.tail_cons] at hjmem
      have hkl : k ∈ l := (List.mem_cons.mp hkmem).resolve_left hik.symm
      have hij : i ≠ j := (ne_of_mem_of_not_mem hjmem hil).symm
      refine ⟨⟨(horder k).trans ((if_neg hik).trans hk), hchain.symm ▸ hkl⟩,
        (horder j).trans ((if_neg hij).trans hj), ?_⟩
      obtain ⟨first, l, rfl⟩ := List.exists_cons_of_ne_nil (List.ne_nil_of_mem hjmem)
      rw [hchain, List.tail_cons]
      refine (List.mem_cons.mp hjmem).resolve_left ?_
      -- The other would be current before the first.
      rintro rfl
      obtain ⟨p, hi, -⟩ := (h.arranged.mem_iff m₀ i).mp (hfront ▸ List.mem_cons_self)
      exact RequestTable.not_precedes_of_ordered (h.ordered m₀) hfront hi hj hk hkl hprecedes
    · rename_i hm₀
      have hother {x : g.Slot} (hx : x ∈ m.chain major) : i ≠ x := by
        rintro rfl
        exact hm₀ (h.arranged.eq_of_mem (hfront ▸ List.mem_cons_self) hx)
      refine ⟨⟨(horder k).trans ((if_neg hik).trans hk), hchain.symm ▸ hkmem⟩,
        (horder j).trans ((if_neg (hother ?_)).trans hj), hchain.symm ▸ hjmem⟩
      exact List.mem_of_mem_tail hjmem

/-- Until the first of the two ends, the other waits. -/
theorem Reachable.queues_of_leads (h : m.Reachable) {o' : Transfer × g.Buffer}
    (hprecedes : o.1.Precedes o'.1) (hq : m.Queues major k j o o')
    (hspan : Leads (fun a => a.order? k ≠ none) m n) (htaken : n.order? k ≠ none) :
    n.Queues major k j o o' := by
  induction hspan with
  | refl => exact hq
  | tail hpath hmove ih =>
    exact (h.leads hpath).queues_of_moves hprecedes (ih hmove.1) hmove.2 htaken

/-! ## Requests in any order -/

/-- On the way from `m`, transfers for devices of a major number are queued one after the
other, and its chain changes in no other way. -/
inductive Files (major : Nat) (m : Machine g) : List Transfer → Machine g → Prop
  | refl : Files major m [] m
  | pass {ts : List Transfer} {a b : Machine g} :
      Files major m ts a → a.Moves b → b.queued major = a.queued major → Files major m ts b
  | file {ts : List Transfer} {a b : Machine g} {k : g.Slot} {t : Transfer} {i : g.Buffer} :
      Files major m ts a → a.Moves b → a.order? k = none → b.order? k = some (t, i) →
        t.device.major = major → Files major m (ts ++ [t]) b

theorem Files.reachable (h : m.Reachable) (hfiles : Files major m ts n) : n.Reachable := by
  induction hfiles with
  | refl => exact h
  | pass _ hm _ ih => exact ih.moves hm
  | file _ hm _ _ _ ih => exact ih.moves hm

theorem Files.exists_queued (h : m.Reachable) (hfiles : Files major m ts n)
    {current : Transfer} {waiting : List Transfer} (hqueued : m.queued major = current :: waiting) :
    ∃ l, n.queued major = current :: l ∧ l.Perm (waiting ++ ts) := by
  induction hfiles with
  | refl => exact ⟨waiting, hqueued, by rw [List.append_nil]⟩
  | pass _ _ hsame ih =>
    obtain ⟨l, hl, hperm⟩ := ih
    exact ⟨l, hsame.trans hl, hperm⟩
  | @file ts a b k t i hfiles hm hnone ho hmajor ih =>
    obtain ⟨l, hl, hperm⟩ := ih
    have ha := hfiles.reachable h
    obtain ⟨hkept, hchain⟩ := ha.chain_of_queued hm hnone ho
    refine ⟨l.orderedInsert Transfer.Precedes t, ?_, ?_⟩
    · have horder (x : g.Slot) : b.order? x = if k = x then some (t, i) else a.order? x := by
        split
        · rename_i hkx
          exact hkx ▸ ho
        · rename_i hkx
          exact hkept x (Ne.symm hkx)
      rw [queued_eq, hchain, if_pos hmajor]
      refine (ha.arranged.queued_behind hnone horder).trans ?_
      change t.file (a.queued major) = _
      rw [hl]
      rfl
    · rw [← List.append_assoc]
      exact (List.perm_orderedInsert _ t l).trans
        ((hperm.cons t).trans (List.perm_append_singleton t _).symm)

theorem Reachable.sectors_of_queued (h : m.Reachable) {t : Transfer}
    (ht : t ∈ m.queued major) : t.sectors = sectorsPerBlock := by
  rw [queued_eq] at ht
  obtain ⟨k, -, hk⟩ := List.mem_filterMap.mp ht
  obtain ⟨o, ho, rfl⟩ := Option.map_eq_some_iff.mp hk
  exact (h.consistent.tallies.placed k o.1 o.2 ho).1

/-- Behind the same current request, those who wait are sorted, whenever they came. -/
theorem Files.queued_eq (h : m.Reachable) (hfiles : Files major m ts n)
    {current : Transfer} {waiting : List Transfer} (hqueued : m.queued major = current :: waiting) :
    n.queued major = current :: (waiting ++ ts).mergeSort Transfer.notAfter := by
  obtain ⟨l, hl, hperm⟩ := hfiles.exists_queued h hqueued
  have hn := hfiles.reachable h
  have hordered := hn.ordered major
  rw [hl, List.tail_cons] at hordered
  rw [hl, hordered.eq_of_perm (Transfer.ordered_mergeSort _)
    (hperm.trans (List.mergeSort_perm _ _).symm) (n := sectorsPerBlock) fun t ht => ?_]
  exact hn.sectors_of_queued (hl ▸ List.mem_cons_of_mem current ht)

/-! ## The order of service -/

/-- Drivers sweep over those who wait for them. -/
structure Sweeps (m : Machine g) : Prop where
  /-- Behind the current request of a major number, no transfer precedes one in front of
  it. -/
  sorted : ∀ major, (m.queued major).tail.Pairwise fun a b => ¬ b.Precedes a
  /-- A new request goes behind the current one of its chain, if there is one.  The others
  keep their places among each other and what they ask for, and no other chain changes. -/
  joins : ∀ {m' k t i}, m.Moves m' → m.order? k = none → m'.order? k = some (t, i) →
    (m.chain t.device.major = [] → m'.chain t.device.major = [k]) ∧
      (∀ first l, m.chain t.device.major = first :: l →
        ∃ l₁ l₂, l = l₁ ++ l₂ ∧ m'.chain t.device.major = first :: (l₁ ++ k :: l₂)) ∧
      (∀ major, t.device.major ≠ major → m'.chain major = m.chain major) ∧
      ∀ j, j ≠ k → m'.order? j = m.order? j
  /-- A request that ends was the current one of its chain.  The next in the chain takes its
  place: the least of all who wait then for the same major number, if anybody does. -/
  advances : ∀ {m' k t i}, m.Moves m' → m.order? k = some (t, i) → m'.order? k = none →
    m.current? t.device.major = some k ∧
      m'.chain t.device.major = (m.chain t.device.major).tail ∧
      ∀ j t' i', m'.order? j = some (t', i') → t'.device.major = t.device.major →
        ∃ next u b, m'.current? t.device.major = some next ∧
          m'.order? next = some (u, b) ∧ ¬ t'.Precedes u
  /-- As long as a read stands in a chain, a write that waits there goes on to wait behind
  the current request. -/
  readsFirst : ∀ {major n k j t i t' i'}, m.order? k = some (t, i) → k ∈ m.chain major →
    t.direction = .read → m.order? j = some (t', i') → j ∈ (m.chain major).tail →
    t'.direction = .write → Leads (fun a => a.order? k ≠ none) m n → n.order? k ≠ none →
      n.order? j = some (t', i') ∧ j ∈ (n.chain major).tail
  /-- Behind the same current request, those who wait are sorted, whenever they came. -/
  filed : ∀ {major ts n current waiting}, m.queued major = current :: waiting →
    Files major m ts n →
      n.queued major = current :: (waiting ++ ts).mergeSort Transfer.notAfter
  /-- In whatever order the same transfers are queued behind the same current request, the
  chain is the same. -/
  alike : ∀ {major ts ts₂ n} {m₂ n₂ : Machine g}, m.queued major ≠ [] → m₂.Reachable →
    m₂.queued major = m.queued major → Files major m ts n → Files major m₂ ts₂ n₂ →
      ts.Perm ts₂ → n₂.queued major = n.queued major

/-- In every session, whatever clients, drivers and listeners do, drivers sweep over those
who wait for them. -/
theorem Reachable.sweeps (h : m.Reachable) : m.Sweeps := by
  refine ⟨h.ordered, fun hm hnone ho => ?_, fun {m' k t i} hm ho hnone => ?_,
    fun {major n k j t i t' i'} ho hmem hread hj hjmem hwrite hspan htaken => ?_,
    fun hqueued hfiles => hfiles.queued_eq h hqueued,
    fun {major ts ts₂ n m₂ n₂} hbusy h₂ hsame hfiles hfiles₂ hperm => ?_⟩
  · obtain ⟨hkept, hchain⟩ := h.chain_of_queued hm hnone ho
    refine ⟨fun hidle => ?_, fun first l hl => ?_, fun major hmajor => ?_, hkept⟩
    · rw [hchain, if_pos rfl, hidle]
      rfl
    · rw [hchain, if_pos rfl, hl]
      exact RequestTable.exists_behind ..
    · rw [hchain, if_neg hmajor]
  · obtain ⟨hcurrent, -, hchain⟩ := h.chain_of_ended hm ho hnone
    refine ⟨hcurrent, (hchain _).trans (if_pos rfl), fun j t' i' hj hmajor => ?_⟩
    obtain ⟨next, ⟨u, b⟩, hnext, hu, hleast⟩ :=
      h.exists_current_of_ended hm ho hnone hj hmajor
    exact ⟨next, u, b, hnext, hu, hleast⟩
  · have hprecedes : t.Precedes t' := by
      refine .inl ?_
      rw [hread, hwrite]
      exact Nat.zero_lt_one
    have hq : m.Queues major k j (t, i) (t', i') := ⟨⟨ho, hmem⟩, hj, hjmem⟩
    exact (h.queues_of_leads hprecedes hq hspan htaken).other
  · obtain ⟨current, waiting, hqueued⟩ := List.exists_cons_of_ne_nil hbusy
    obtain ⟨l, hl, hpermutes⟩ := hfiles.exists_queued h hqueued
    obtain ⟨l₂, hl₂, hpermutes₂⟩ := hfiles₂.exists_queued h₂ (hsame.trans hqueued)
    have hn := hfiles.reachable h
    have hordered := hn.ordered major
    have hordered₂ := (hfiles₂.reachable h₂).ordered major
    rw [hl, List.tail_cons] at hordered
    rw [hl₂, List.tail_cons] at hordered₂
    rw [hl, hl₂, hordered.eq_of_perm hordered₂
      (hpermutes.trans ((hperm.append_left waiting).trans hpermutes₂.symm))
      (n := sectorsPerBlock) fun t ht => hn.sectors_of_queued (hl ▸ List.mem_cons_of_mem current ht)]

/-- Behind a read that a manual driver has in hand, a write and two reads wait: the reads
before the write, and in the order of their sectors, although they came last and the other
way round. -/
theorem sweeps_of_submissions :
    ∃ m : Machine Geometry.wide, m.Reachable ∧
      m.queued 1 = [⟨.read, 257, 18, 2⟩, ⟨.read, 257, 6, 2⟩, ⟨.read, 257, 10, 2⟩,
        ⟨.write, 257, 14, 2⟩] ∧ m.Sweeps := by
  have hstart := (reachable_start (g := Geometry.wide) [] (.register 1 ⟨1, .manual []⟩ [])).after 20
  have hacquired := hstart.commanded 20 [.acquire ⟨257, 9⟩ (some "a"),
    .acquire ⟨257, 7⟩ (some "b"), .acquire ⟨257, 5⟩ (some "c"), .acquire ⟨257, 3⟩ (some "d")]
  have h := hacquired.commanded 30 [.issue .read "a", .markDirty "b", .issue .write "b",
    .issue .read "c", .issue .read "d"]
  exact ⟨_, h, by decide, h.sweeps⟩

end Machine
end BufferCache
