import BufferCache.Proofs.Correspondence
import Mathlib.Data.List.Sort

/-!
# Chains in the order of service

What a chain of the request table looks like is told in two ways.  `chain` lists slots, and
`Turns` says the three things that a move can do to the chains: nothing, a request is queued,
or a current one leaves at the front.  `queued` lists transfers, and there a new one is
inserted by `orderedInsert`, behind the current one.

Transfers that may be served as they stand are `Ordered`.  The order of service does not tell
apart two transfers of the same direction, device and sector, but all requests are for as many
sectors, so there is just one list in order of the same transfers.
-/

namespace BufferCache

variable {g : Geometry}

/-! ## Lists of transfers in order -/

namespace Transfer

/-- The list may be served as it stands: nobody in it is to be served strictly before
someone in front. -/
def Ordered (l : List Transfer) : Prop :=
  l.Pairwise fun a b => ¬ b.Precedes a

/-- Whether `a` may be served first of the two. -/
def notAfter (a b : Transfer) : Bool :=
  !decide (b.Precedes a)

theorem notAfter_iff {a b : Transfer} : a.notAfter b = true ↔ ¬ b.Precedes a := by
  rw [notAfter, Bool.not_eq_true', decide_eq_false_iff_not]

/-- One of two transfers may be served first. -/
theorem Precedes.not_symm {a b : Transfer} (h : a.Precedes b) : ¬ b.Precedes a :=
  fun hba => not_precedes_self a (h.trans hba)

/-- What may be served before someone may be served before those behind. -/
theorem not_precedes_trans {a b c : Transfer} (hab : ¬ b.Precedes a) (hbc : ¬ c.Precedes b) :
    ¬ c.Precedes a := by
  intro hca
  by_cases hcb : a.Precedes b
  · exact hbc (hca.trans hcb)
  · -- Direction, device and sector of `a` and `b` are the same.
    obtain ⟨hdirection, hdevice, hsector⟩ := eq_of_not_precedes hcb hab
    refine hbc ?_
    unfold Precedes at hca ⊢
    rwa [← hdirection, ← hdevice, ← hsector]

/-- A transfer is inserted behind all that it does not precede, and the list stays in
order. -/
theorem Ordered.insert {l : List Transfer} (h : Ordered l) (t : Transfer) :
    Ordered (l.orderedInsert Precedes t) := by
  induction l with
  | nil => exact List.pairwise_singleton _ t
  | cons a l ih =>
    obtain ⟨ha, hl⟩ := List.pairwise_cons.mp h
    rw [List.orderedInsert_cons]
    split
    · rename_i hta
      refine List.pairwise_cons.mpr ⟨fun b hb => ?_, h⟩
      rcases List.mem_cons.mp hb with rfl | hb
      · exact hta.not_symm
      · exact not_precedes_trans hta.not_symm (ha b hb)
    · rename_i hta
      refine List.pairwise_cons.mpr ⟨fun b hb => ?_, ih hl⟩
      rcases (List.mem_orderedInsert Precedes).mp hb with rfl | hb
      · exact hta
      · exact ha b hb

/-- The transfers of a chain with one more: behind the current one, and behind the others
that it does not precede. -/
def file (t : Transfer) : List Transfer → List Transfer
  | [] => [t]
  | current :: l => current :: l.orderedInsert Precedes t

/-- Whoever waits behind the current transfer stays in order. -/
theorem ordered_file {l : List Transfer} (h : Ordered l.tail) (t : Transfer) :
    Ordered (t.file l).tail := by
  cases l with
  | nil => exact .nil
  | cons current l => exact h.insert t

/-- Among transfers of as many sectors there is one list in order. -/
theorem Ordered.eq_of_perm {l₁ l₂ : List Transfer} (h₁ : Ordered l₁) (h₂ : Ordered l₂)
    (hperm : l₁.Perm l₂) {n : Nat} (hsectors : ∀ t ∈ l₁, t.sectors = n) : l₁ = l₂ := by
  refine hperm.eq_of_pairwise (fun a b ha hb hab hba => ?_) h₁ h₂
  obtain ⟨hdirection, hdevice, hsector⟩ := eq_of_not_precedes hba hab
  have hsame := (hsectors a ha).trans (hsectors b (hperm.mem_iff.mpr hb)).symm
  cases a
  cases b
  cases hdirection
  cases hdevice
  cases hsector
  cases hsame
  rfl

theorem ordered_mergeSort (l : List Transfer) : Ordered (l.mergeSort notAfter) := by
  have htrans (a b c : Transfer) (hab : a.notAfter b = true) (hbc : b.notAfter c = true) :
      a.notAfter c = true :=
    notAfter_iff.mpr (not_precedes_trans (notAfter_iff.mp hab) (notAfter_iff.mp hbc))
  have htotal (a b : Transfer) : (a.notAfter b || b.notAfter a) = true := by
    rw [Bool.or_eq_true, notAfter_iff, notAfter_iff]
    by_cases hba : b.Precedes a
    · exact .inr hba.not_symm
    · exact .inl hba
  exact (List.pairwise_mergeSort htrans htotal l).imp notAfter_iff.mp

end Transfer

/-! ## What a move does to a chain -/

namespace RequestTable

variable {r r' : RequestTable g} {m : Nat} {i j k : g.Slot} {t : Transfer} {b : g.Buffer}
  {o : Transfer × g.Buffer}

/-- A chain with slot `i` put in for transfer `t`: behind the current request, and behind
the others that `t` does not precede. -/
def behind (r : RequestTable g) (t : Transfer) (i : g.Slot) : List g.Slot → List g.Slot
  | [] => [i]
  | first :: l => first :: (l.takeWhile (fun k => !r.goesBefore t k) ++
      i :: l.dropWhile fun k => !r.goesBefore t k)

/-- Behind the current request, the others keep their places among each other. -/
theorem exists_behind (r : RequestTable g) (t : Transfer) (i first : g.Slot) (l : List g.Slot) :
    ∃ l₁ l₂, l = l₁ ++ l₂ ∧ r.behind t i (first :: l) = first :: (l₁ ++ i :: l₂) :=
  ⟨_, _, (List.takeWhile_append_dropWhile (p := fun k => !r.goesBefore t k)).symm, rfl⟩

theorem mem_behind_of_mem {l : List g.Slot} (hj : j ∈ l) : j ∈ r.behind t i l := by
  cases l with
  | nil => cases hj
  | cons first l =>
    obtain ⟨l₁, l₂, rfl, hbehind⟩ := r.exists_behind t i first l
    rw [hbehind]
    simp only [List.mem_cons, List.mem_append] at hj ⊢
    tauto

/-- Whoever waited behind the current request does so still. -/
theorem mem_tail_behind_of_mem {l : List g.Slot} (hj : j ∈ l.tail) :
    j ∈ (r.behind t i l).tail := by
  cases l with
  | nil => cases hj
  | cons first l =>
    obtain ⟨l₁, l₂, rfl, hbehind⟩ := r.exists_behind t i first l
    rw [hbehind]
    simp only [List.tail_cons, List.mem_append, List.mem_cons] at hj ⊢
    tauto

/-- What a move can do to the requests. -/
inductive Turns (r r' : RequestTable g) : Prop
  /-- Chains and requests stay. -/
  | rest (horder : r'.order? = r.order?) (hchain : r'.chain = r.chain)
  /-- A request is queued. -/
  | queue (i : g.Slot) (o : Transfer × g.Buffer) (hfree : r.order? i = none)
      (horder : ∀ j, r'.order? j = if i = j then some o else r.order? j)
      (hchain : ∀ m, r'.chain m =
        if o.1.device.major = m then r.behind o.1 i (r.chain m) else r.chain m)
  /-- A current request ends. -/
  | retire (m : Nat) (i : g.Slot) (hcurrent : r.currentSlot m = some i)
      (horder : ∀ j, r'.order? j = if i = j then none else r.order? j)
      (hchain : ∀ m', r'.chain m' = if m = m' then (r.chain m').tail else r.chain m')

/-- The current request is the front of its chain. -/
theorem Arranged.currentSlot_eq (h : r.Arranged) (m : Nat) :
    r.currentSlot m = (r.chain m).head? :=
  (h.linked m).start_eq

theorem Arranged.turns_insert (h : r.Arranged) (hi : r.request? i = none)
    (h' : (r.insert t.device.major i t b).1.Arranged) :
    r.Turns (r.insert t.device.major i t b).1 := by
  have horder (j : g.Slot) : (r.insert t.device.major i t b).1.order? j =
      if i = j then some (t, b) else r.order? j := order?_insert ..
  refine .queue i (t, b) ((r.order?_eq_none_iff i).mpr hi) horder fun m => ?_
  cases hchain : r.chain t.device.major with
  | nil =>
    have hidle := h.currentSlot_eq t.device.major
    rw [hchain] at hidle
    have hbound : t.device.major < majorCount := by
      have hmem := (h'.mem_iff t.device.major i).mpr ⟨_, (horder i).trans (if_pos rfl), rfl⟩
      obtain ⟨k, l, hl⟩ := List.exists_cons_of_ne_nil (List.ne_nil_of_mem hmem)
      refine lt_majorCount_of_currentSlot (r := (r.insert t.device.major i t b).1) (k := k) ?_
      rw [h'.currentSlot_eq, hl, List.head?_cons]
    refine (congrFun (h.insert_first (b := b) hbound hi hidle).2 m).trans ?_
    split
    · rename_i hm
      rw [← hm, hchain]
      rfl
    · rfl
  | cons first l =>
    refine (congrFun (h.insert_behind (b := b) hi hchain).2 m).trans ?_
    split
    · rename_i hm
      rw [← hm, hchain]
      rfl
    · rfl

theorem Arranged.turns_retire (h : r.Arranged) (hcurrent : r.currentSlot m = some i) :
    r.Turns (r.retire m i).1 :=
  .retire m i hcurrent (fun _ => order?_retire ..) (h.retire hcurrent).2

/-! ### Chains as lists of transfers -/

/-- The transfer in a slot. -/
def transfer? (r : RequestTable g) (k : g.Slot) : Option Transfer :=
  (r.order? k).map Prod.fst

theorem transfer?_eq (h : r.order? k = some o) : r.transfer? k = some o.1 := by
  rw [transfer?, h]
  rfl

theorem queued_eq (r : RequestTable g) (m : Nat) :
    r.queued m = (r.chain m).filterMap r.transfer? := by
  have hsame : (fun k => (r.request? k).map Request.transfer) = r.transfer? := by
    funext k
    rw [transfer?, order?, Option.map_map]
    rfl
  rw [queued, hsame]

theorem filterMap_transfer?_congr {l : List g.Slot} (h : ∀ j ∈ l, r'.order? j = r.order? j) :
    l.filterMap r'.transfer? = l.filterMap r.transfer? :=
  List.filterMap_congr fun j hj => congrArg (Option.map Prod.fst) (h j hj)

/-- In the order of service, the transfer of a new request is put before the first that it
precedes. -/
theorem filterMap_insert {l : List g.Slot} (hl : ∀ j ∈ l, r.request? j ≠ none)
    (hkept : ∀ j ∈ l, r'.order? j = r.order? j) (hi : r'.order? i = some o) :
    (l.takeWhile (fun k => !r.goesBefore o.1 k) ++
        i :: l.dropWhile fun k => !r.goesBefore o.1 k).filterMap r'.transfer? =
      (l.filterMap r.transfer?).orderedInsert Transfer.Precedes o.1 := by
  induction l with
  | nil => exact List.filterMap_cons_some (transfer?_eq hi)
  | cons j l ih =>
    obtain ⟨q, hq⟩ := Option.ne_none_iff_exists'.mp (hl j List.mem_cons_self)
    have hj : r.transfer? j = some q.transfer := by
      rw [transfer?, order?, hq]
      rfl
    have hj' : r'.transfer? j = some q.transfer := by
      rw [transfer?, hkept j List.mem_cons_self]
      exact hj
    have hbefore : r.goesBefore o.1 j = decide (o.1.Precedes q.transfer) := by
      rw [goesBefore, hq]
      rfl
    have hrest : ∀ k ∈ l, r'.order? k = r.order? k :=
      fun k hk => hkept k (List.mem_cons_of_mem j hk)
    rw [List.filterMap_cons_some hj, List.orderedInsert_cons]
    by_cases ht : o.1.Precedes q.transfer
    · rw [List.takeWhile_cons_of_neg (by simpa [hbefore] using ht),
        List.dropWhile_cons_of_neg (by simpa [hbefore] using ht), if_pos ht, List.nil_append,
        List.filterMap_cons_some (transfer?_eq hi), List.filterMap_cons_some hj',
        filterMap_transfer?_congr hrest]
    · rw [List.takeWhile_cons_of_pos (by simpa [hbefore] using ht),
        List.dropWhile_cons_of_pos (by simpa [hbefore] using ht), if_neg ht, List.cons_append,
        List.filterMap_cons_some hj', ih (fun k hk => hl k (List.mem_cons_of_mem j hk)) hrest]

/-- What a queued request does to the transfers of its chain. -/
theorem Arranged.queued_behind (h : r.Arranged) (hfree : r.order? i = none)
    (horder : ∀ j, r'.order? j = if i = j then some o else r.order? j) :
    (r.behind o.1 i (r.chain m)).filterMap r'.transfer? = o.1.file (r.queued m) := by
  have hi : r'.order? i = some o := (horder i).trans (if_pos rfl)
  have hkept (j : g.Slot) (hj : j ∈ r.chain m) : r'.order? j = r.order? j := by
    have hfree' := (r.order?_eq_none_iff i).mp hfree
    rw [horder, if_neg (ne_of_mem_of_not_mem hj (h.not_mem_chain hfree' m)).symm]
  rw [queued_eq]
  cases hchain : r.chain m with
  | nil => exact List.filterMap_cons_some (transfer?_eq hi)
  | cons first l =>
    rw [hchain] at hkept
    have htaken (k : g.Slot) (hk : k ∈ first :: l) : r.request? k ≠ none :=
      h.request?_ne_none (hchain ▸ hk)
    obtain ⟨o', ho', -⟩ := (h.mem_iff m first).mp (hchain ▸ List.mem_cons_self)
    have hfirst : r'.transfer? first = some o'.1 :=
      transfer?_eq ((hkept first List.mem_cons_self).trans ho')
    rw [behind, List.filterMap_cons_some hfirst, List.filterMap_cons_some (transfer?_eq ho'),
      filterMap_insert (fun k hk => htaken k (List.mem_cons_of_mem first hk))
        (fun k hk => hkept k (List.mem_cons_of_mem first hk)) hi]
    rfl

/-- What a move can do to the transfers of a chain. -/
theorem Turns.queued (h : r.Arranged) (hturns : r.Turns r') (m : Nat) :
    r'.queued m = r.queued m ∨
      (∃ i o, r.order? i = none ∧ r'.order? i = some o ∧ o.1.device.major = m ∧
        r'.queued m = o.1.file (r.queued m)) ∨
      r'.queued m = (r.queued m).tail := by
  cases hturns with
  | rest horder hchain =>
    refine .inl ?_
    rw [queued_eq, queued_eq, hchain]
    exact filterMap_transfer?_congr fun j _ => congrFun horder j
  | queue i o hfree horder hchain =>
    have hchain := hchain m
    split at hchain
    · rename_i hm
      refine .inr (.inl ⟨i, o, hfree, (horder i).trans (if_pos rfl), hm, ?_⟩)
      rw [queued_eq, hchain, h.queued_behind hfree horder]
    · refine .inl ?_
      rw [queued_eq, queued_eq, hchain]
      refine filterMap_transfer?_congr fun j hj => ?_
      have hfree' := (r.order?_eq_none_iff i).mp hfree
      rw [horder, if_neg (ne_of_mem_of_not_mem hj (h.not_mem_chain hfree' m)).symm]
  | retire m' i hcurrent horder hchain =>
    obtain ⟨l, hfront, -, hil, -⟩ := h.exists_cons hcurrent
    have hmem : i ∈ r.chain m' := hfront ▸ List.mem_cons_self
    have hchain := hchain m
    split at hchain
    · rename_i hm
      subst hm
      refine .inr (.inr ?_)
      obtain ⟨o, ho, -⟩ := (h.mem_iff m' i).mp hmem
      rw [queued_eq, queued_eq, hchain, hfront, List.filterMap_cons_some (transfer?_eq ho),
        List.tail_cons, List.tail_cons]
      refine filterMap_transfer?_congr fun j hj => ?_
      rw [horder, if_neg (ne_of_mem_of_not_mem hj hil).symm]
    · rename_i hm
      refine .inl ?_
      rw [queued_eq, queued_eq, hchain]
      refine filterMap_transfer?_congr fun j hj => ?_
      have hij : i ≠ j := by
        rintro rfl
        exact hm (h.eq_of_mem hmem hj)
      rw [horder, if_neg hij]

/-- Behind the current request, nobody precedes the one that is served next. -/
theorem not_precedes_of_ordered (hsorted : Transfer.Ordered (r.queued m).tail) {l : List g.Slot}
    {o' o'' : Transfer × g.Buffer} (hchain : r.chain m = i :: k :: l) (hi : r.order? i = some o'')
    (hk : r.order? k = some o) (hj : r.order? j = some o') (hmem : j ∈ k :: l) :
    ¬ o'.1.Precedes o.1 := by
  rcases List.mem_cons.mp hmem with rfl | hl
  · cases hk.symm.trans hj
    exact o.1.not_precedes_self
  · rw [queued_eq, hchain, List.filterMap_cons_some (transfer?_eq hi),
      List.filterMap_cons_some (transfer?_eq hk), List.tail_cons] at hsorted
    refine (List.pairwise_cons.mp hsorted).1 o'.1 ?_
    exact List.mem_filterMap.mpr ⟨j, hl, transfer?_eq hj⟩

end RequestTable

/-- Requests come and go in three ways. -/
theorem Effect.turns {e : Effect g} {c : Cache g} (hfits : e.Fits c) (h : c.requests.Arranged)
    (h' : (e.apply c).requests.Arranged) : c.requests.Turns (e.apply c).requests := by
  have hconclude (c : Cache g) (m : Nat) (slot : g.Slot) (q : Request g) (success : Bool)
      (h : c.requests.Arranged) (hslot : c.requests.currentSlot m = some slot) :
      c.requests.Turns (c.conclude m slot q success).requests := by
    rw [Cache.requests_conclude]
    exact h.turns_retire hslot
  cases e with
  | queue direct d i b slot =>
    have hfree := (RequestTable.freeSlot_eq_some hfits.1).1
    cases direct with
    | false => exact h.turns_insert (t := .ofBlock d b) hfree h'
    | true => exact h.turns_insert (t := .ofBlock d b) hfree h'
  | finish m slot q success => exact hconclude c m slot q success h hfits.1
  | serve m d slot q => exact hconclude (c.carryOut m d q) d.major slot q _ h hfits.2.1
  | assign i b s =>
    rw [apply, Cache.requests_assign]
    exact .rest rfl rfl
  | edit i page valid dirty =>
    rw [apply, Cache.requests_edit]
    exact .rest rfl rfl
  | _ => exact .rest rfl rfl

end BufferCache
