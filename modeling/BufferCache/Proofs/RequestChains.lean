import BufferCache.Proofs.Requests
import Mathlib.Data.Fintype.Card
import Mathlib.Data.List.Nodup

/-!
# The chains of the request table

The requests of a driver are linked one way only, from its current request on.  A table
is *arranged* if each chain ends, visits no slot twice, and visits just the slots of the
requests for its major number.  Every slot that is taken then lies on one chain, once.

Putting a request into a chain and taking the current one away keep the table arranged,
and the chain afterwards is told as a list: `chain_insert` and `chain_retire`.
-/

namespace BufferCache

/-! ## Lists that are linked one way -/

/-- The list `l` is linked from `start` on: `next` visits its elements, and then ends. -/
def Linked {α : Type} (next : α → Option α) : (start : Option α) → List α → Prop
  | start, [] => start = none
  | start, i :: l => start = some i ∧ Linked next (next i) l

namespace Linked

variable {α : Type} {next next' : α → Option α} {start : Option α} {l l₁ l₂ : List α} {i p : α}

/-- Only the links of the elements matter. -/
theorem congr (h : Linked next start l) (hn : ∀ x ∈ l, next' x = next x) :
    Linked next' start l := by
  induction l generalizing start with
  | nil => exact h
  | cons i l ih =>
    refine ⟨h.1, ?_⟩
    rw [hn i List.mem_cons_self]
    exact ih h.2 fun x hx => hn x (List.mem_cons_of_mem i hx)

/-- Following the links gives the list, if the bound on the walk allows it. -/
theorem walk_eq (h : Linked next start l) {bound : Nat} (hbound : l.length ≤ bound) :
    walk next bound start = l := by
  induction l generalizing start bound with
  | nil =>
    cases h
    exact walk_none next bound
  | cons i l ih =>
    obtain ⟨rfl, hl⟩ := h
    cases bound with
    | zero => cases hbound
    | succ bound =>
      rw [List.length_cons] at hbound
      rw [walk, ih hl (by omega)]

/-- The start is the first element. -/
theorem start_eq (h : Linked next start l) : start = l.head? := by
  cases l with
  | nil => exact h
  | cons i l => exact h.1

/-- An element is put behind another one: it takes over the link of that one, which leads
to it from then on. -/
theorem insert_behind (h : Linked next start (l₁ ++ p :: l₂)) (hp : p ∉ l₁)
    (hpl : p ∉ l₂) (hnp : next' p = some i) (hni : next' i = next p)
    (hn : ∀ x ∈ l₁ ++ l₂, x ≠ p → next' x = next x) :
    Linked next' start (l₁ ++ p :: i :: l₂) := by
  induction l₁ generalizing start with
  | nil =>
    obtain ⟨hs, hl⟩ := h
    refine ⟨hs, hnp, ?_⟩
    rw [hni]
    exact hl.congr fun x hx => hn x hx (ne_of_mem_of_not_mem hx hpl)
  | cons a l₁ ih =>
    obtain ⟨hs, hl⟩ := h
    rw [List.mem_cons, not_or] at hp
    obtain ⟨hpa, hp⟩ := hp
    refine ⟨hs, ?_⟩
    rw [hn a List.mem_cons_self (Ne.symm hpa)]
    exact ih hl hp fun x hx => hn x (List.mem_cons_of_mem a hx)

end Linked

variable {g : Geometry}

namespace RequestTable

variable {r : RequestTable g} {m m' : Nat} {i k : g.Slot} {t : Transfer} {b : g.Buffer}

/-! ## Arranged tables -/

/-- The chains of the table are lists, and share the slots that are taken among them by
their major numbers. -/
structure Arranged (r : RequestTable g) : Prop where
  /-- Following the links from the current request of a major number visits its chain and
  then ends. -/
  linked : ∀ m, Linked r.next? (r.currentSlot m) (r.chain m)
  /-- No slot is visited twice. -/
  nodup : ∀ m, (r.chain m).Nodup
  /-- The chain visits just the slots of requests for its major number. -/
  mem_iff : ∀ m k, k ∈ r.chain m ↔ ∃ o, r.order? k = some o ∧ o.1.device.major = m

/-- A table is arranged if there are lists that are its chains. -/
theorem arranged_of_lists {l : Nat → List g.Slot}
    (hl : ∀ m, Linked r.next? (r.currentSlot m) (l m)) (hd : ∀ m, (l m).Nodup)
    (hmem : ∀ m k, k ∈ l m ↔ ∃ o, r.order? k = some o ∧ o.1.device.major = m) :
    r.Arranged ∧ r.chain = l := by
  have hchain : r.chain = l := by
    funext m
    refine (hl m).walk_eq ?_
    have hcard := (hd m).length_le_card
    rwa [Fintype.card_fin] at hcard
  refine ⟨⟨?_, ?_, ?_⟩, hchain⟩
  · rwa [hchain]
  · rwa [hchain]
  · rwa [hchain]

theorem request?_of_order? {o : Transfer × g.Buffer} (h : r.order? k = some o) :
    ∃ q, r.request? k = some q ∧ q.order = o :=
  Option.map_eq_some_iff.mp h

theorem arranged_initial (g : Geometry) : (initial g).Arranged := by
  have hcurrent (m : Nat) : (initial g).currentSlot m = none := by
    unfold currentSlot initial
    by_cases hm : m < majorCount
    · simp [hm]
    · simp [hm]
  have hrequest (k : g.Slot) : (initial g).order? k = none := by
    simp [order?, request?, initial]
  refine (arranged_of_lists (l := fun _ => []) hcurrent (fun _ => List.nodup_nil)
    fun m k => ?_).1
  rw [hrequest]
  simp

/-- Whether a transfer is to be served before the request in a slot. -/
def goesBefore (r : RequestTable g) (t : Transfer) (k : g.Slot) : Bool :=
  (r.request? k).any fun q => decide (t.Precedes q.transfer)

/-- The place for a transfer is behind the requests that it does not go before. -/
theorem exists_placeFor {first : g.Slot} {l : List g.Slot} {bound : Nat}
    (h : Linked r.next? (r.next? first) l) (hl : ∀ k ∈ l, r.request? k ≠ none)
    (hbound : l.length ≤ bound) :
    ∃ l₁, first :: l.takeWhile (fun k => !r.goesBefore t k) =
      l₁ ++ [r.placeFor t bound first] := by
  induction l generalizing first bound with
  | nil =>
    refine ⟨[], ?_⟩
    cases bound with
    | zero => rfl
    | succ bound =>
      rw [placeFor, show r.next? first = none from h]
      rfl
  | cons j l ih =>
    obtain ⟨hj, hlinked⟩ := h
    cases bound with
    | zero => cases hbound
    | succ bound =>
      obtain ⟨q, hq⟩ := Option.ne_none_iff_exists'.mp (hl j List.mem_cons_self)
      have hbefore : r.goesBefore t j = decide (t.Precedes q.transfer) := by
        rw [goesBefore, hq]
        rfl
      rw [placeFor, hj]
      dsimp only
      rw [hq]
      dsimp only
      by_cases ht : t.Precedes q.transfer
      · rw [if_pos ht, List.takeWhile_cons_of_neg (by rw [hbefore]; simpa using ht)]
        exact ⟨[], rfl⟩
      · rw [if_neg ht, List.takeWhile_cons_of_pos (by rw [hbefore]; simpa using ht)]
        obtain ⟨l₁, hl₁⟩ := ih hlinked (fun k hk => hl k (List.mem_cons_of_mem j hk))
          (Nat.le_of_succ_le_succ hbound)
        exact ⟨first :: l₁, congrArg (first :: ·) hl₁⟩

theorem next?_setSlot (r : RequestTable g) (i k : g.Slot) (q : Option (Request g)) :
    (r.setSlot i q).next? k = if i = k then q.bind Request.next else r.next? k := by
  rw [next?, request?_setSlot]
  split <;> rfl

theorem next?_setNext (h : r.request? i ≠ none) (k : g.Slot) (next : Option g.Slot) :
    (r.setNext i next).next? k = if i = k then next else r.next? k := by
  obtain ⟨q, hq⟩ := Option.ne_none_iff_exists'.mp h
  rw [setNext, next?_setSlot, hq]
  rfl

theorem lt_majorCount_of_currentSlot (h : r.currentSlot m = some k) : m < majorCount := by
  by_contra hm
  have hnone : r.current[m]? = none := Vector.getElem?_eq_none (Nat.le_of_not_lt hm)
  rw [currentSlot, hnone] at h
  cases h

/-! ## Queueing -/

/-- A slot that is free lies on no chain. -/
theorem Arranged.not_mem_chain (h : r.Arranged) (hi : r.request? i = none) (m : Nat) :
    i ∉ r.chain m := by
  rw [h.mem_iff]
  rintro ⟨o, ho, -⟩
  cases ((r.order?_eq_none_iff i).mpr hi).symm.trans ho

/-- A slot that lies on a chain holds a request. -/
theorem Arranged.request?_ne_none (h : r.Arranged) (hk : k ∈ r.chain m) :
    r.request? k ≠ none := by
  obtain ⟨o, ho, -⟩ := (h.mem_iff m k).mp hk
  obtain ⟨q, hq, -⟩ := request?_of_order? ho
  rw [hq]
  exact Option.some_ne_none q

/-- A slot lies on the chain of one major number only. -/
theorem Arranged.eq_of_mem (h : r.Arranged) (hk : k ∈ r.chain m) (hk' : k ∈ r.chain m') :
    m = m' := by
  obtain ⟨o, ho, hmajor⟩ := (h.mem_iff m k).mp hk
  obtain ⟨o', ho', hmajor'⟩ := (h.mem_iff m' k).mp hk'
  cases ho.symm.trans ho'
  exact hmajor.symm.trans hmajor'

/-- Those who wait once a request is put into a free slot. -/
theorem Arranged.mem_insert_iff (h : r.Arranged) (hi : r.request? i = none) :
    k ∈ r.chain m' ∨ k = i ∧ t.device.major = m' ↔
      ∃ o, (r.insert m i t b).1.order? k = some o ∧ o.1.device.major = m' := by
  rw [order?_insert]
  by_cases hik : i = k
  · subst hik
    simp [h.not_mem_chain hi]
  · rw [if_neg hik, h.mem_iff]
    simp [Ne.symm hik]

/-- Where there is no current request, a new one is the chain. -/
theorem Arranged.insert_first (h : r.Arranged) (hm : t.device.major < majorCount)
    (hi : r.request? i = none) (hfirst : r.currentSlot t.device.major = none) :
    (r.insert t.device.major i t b).1.Arranged ∧ (r.insert t.device.major i t b).1.chain =
      fun m => if t.device.major = m then [i] else r.chain m := by
  have hempty : r.chain t.device.major = [] := by
    have hl := h.linked t.device.major
    rw [hfirst] at hl
    exact List.head?_eq_none_iff.mp hl.start_eq.symm
  have hinsert : (r.insert t.device.major i t b).1 =
      (r.setSlot i (some { transfer := t, buffer := b })).setCurrent t.device.major (some i) := by
    rw [insert, hfirst]
  have hnext (k : g.Slot) : (r.insert t.device.major i t b).1.next? k =
      if i = k then none else r.next? k := by
    rw [hinsert]
    exact next?_setSlot r i k _
  have hcurrent (m : Nat) : (r.insert t.device.major i t b).1.currentSlot m =
      if t.device.major = m then some i else r.currentSlot m := by
    rw [hinsert, currentSlot_setCurrent, currentSlot_setSlot]
    simp only [hm, and_true]
  refine arranged_of_lists (fun m => ?_) (fun m => ?_) fun m k => ?_
  · rw [hcurrent]
    split
    · refine ⟨rfl, ?_⟩
      rw [hnext, if_pos rfl]
      rfl
    · refine (h.linked m).congr fun x hx => ?_
      rw [hnext, if_neg (ne_of_mem_of_not_mem hx (h.not_mem_chain hi m)).symm]
  · split
    · exact List.nodup_singleton i
    · exact h.nodup m
  · rw [← h.mem_insert_iff hi]
    split
    · rename_i hm
      subst hm
      simp [hempty]
    · rename_i hm
      simp [hm]

/-- The chain of a transfer is cut behind the place for it. -/
theorem Arranged.exists_split (h : r.Arranged) (t : Transfer) (i : g.Slot) {first : g.Slot}
    {l : List g.Slot} (hchain : r.chain t.device.major = first :: l) :
    ∃ l₁ l₂, r.chain t.device.major = l₁ ++ r.placeFor t g.requests first :: l₂ ∧
      first :: (l.takeWhile (fun k => !r.goesBefore t k) ++
        i :: l.dropWhile fun k => !r.goesBefore t k) =
      l₁ ++ r.placeFor t g.requests first :: i :: l₂ := by
  have hlinked := h.linked t.device.major
  have hnodup := h.nodup t.device.major
  rw [hchain] at hlinked hnodup
  have htaken (k : g.Slot) (hk : k ∈ l) : r.request? k ≠ none :=
    h.request?_ne_none (hchain ▸ List.mem_cons_of_mem first hk)
  have hbound : l.length ≤ g.requests := by
    have hcard := hnodup.length_le_card
    rw [Fintype.card_fin, List.length_cons] at hcard
    omega
  obtain ⟨l₁, hl₁⟩ := exists_placeFor (t := t) hlinked.2 htaken hbound
  refine ⟨l₁, l.dropWhile fun k => !r.goesBefore t k, ?_, ?_⟩
  · rw [List.append_cons, ← hl₁, List.cons_append, List.takeWhile_append_dropWhile, hchain]
  · rw [← List.cons_append, hl₁, List.append_assoc, List.singleton_append]

/-- The links once a request is put into a free slot, behind another. -/
theorem next?_insert_behind (hi : r.request? i = none) {first place : g.Slot}
    (hcurrent : r.currentSlot t.device.major = some first)
    (hplace : r.placeFor t g.requests first = place) (htaken : r.request? place ≠ none)
    (k : g.Slot) : (r.insert t.device.major i t b).1.next? k =
      if place = k then some i else if i = k then r.next? place else r.next? k := by
  have hne : i ≠ place := fun he => htaken (he ▸ hi)
  have hinsert : (r.insert t.device.major i t b).1 =
      (r.setSlot i (some { transfer := t, buffer := b, next := r.next? place })).setNext place
        (some i) := by
    rw [insert, hcurrent, ← hplace]
  rw [hinsert, next?_setNext, next?_setSlot]
  · rfl
  · rwa [request?_setSlot, if_neg hne]

/-- Where there is a current request, a new one is put into the chain behind it, behind
those that it does not go before. -/
theorem Arranged.insert_behind (h : r.Arranged) (hi : r.request? i = none) {first : g.Slot}
    {l : List g.Slot} (hchain : r.chain t.device.major = first :: l) :
    (r.insert t.device.major i t b).1.Arranged ∧ (r.insert t.device.major i t b).1.chain =
      fun m => if t.device.major = m then
        first :: (l.takeWhile (fun k => !r.goesBefore t k) ++
          i :: l.dropWhile (fun k => !r.goesBefore t k))
      else r.chain m := by
  obtain ⟨l₁, l₂, hsplit, hgoal⟩ := h.exists_split t i hchain
  have hlinked := h.linked t.device.major
  have hnodup := h.nodup t.device.major
  have hcurrent : r.currentSlot t.device.major = some first := by
    rw [hchain] at hlinked
    exact hlinked.1
  generalize hplace : r.placeFor t g.requests first = place at hsplit hgoal
  have hmem : place ∈ r.chain t.device.major :=
    hsplit ▸ List.mem_append_right l₁ List.mem_cons_self
  have hnext := next?_insert_behind (b := b) hi hcurrent hplace (h.request?_ne_none hmem)
  have hsame (m : Nat) : (r.insert t.device.major i t b).1.currentSlot m = r.currentSlot m := by
    rw [RequestTable.insert, hcurrent]
    rfl
  have hfree (m : Nat) (x : g.Slot) (hx : x ∈ r.chain m) : i ≠ x :=
    (ne_of_mem_of_not_mem hx (h.not_mem_chain hi m)).symm
  rw [hgoal]
  refine arranged_of_lists (fun m => ?_) (fun m => ?_) fun m k => ?_
  · rw [hsame]
    split
    · rename_i hm
      subst hm
      rw [hsplit] at hlinked hnodup
      obtain ⟨hplaceless, -⟩ := List.nodup_cons.mp (List.nodup_middle.mp hnodup)
      rw [List.mem_append, not_or] at hplaceless
      refine hlinked.insert_behind hplaceless.1 hplaceless.2 ?_ ?_ fun x hx hxp => ?_
      · rw [hnext, if_pos rfl]
      · rw [hnext, if_neg (hfree _ place hmem).symm, if_pos rfl]
      · have hxchain : x ∈ r.chain t.device.major := by
          rw [hsplit, List.mem_append, List.mem_cons]
          exact (List.mem_append.mp hx).imp_right Or.inr
        rw [hnext, if_neg hxp.symm, if_neg (hfree _ x hxchain)]
    · rename_i hm
      refine (h.linked m).congr fun x hx => ?_
      have hxp : place ≠ x := by
        rintro rfl
        exact hm (h.eq_of_mem hmem hx)
      rw [hnext, if_neg hxp, if_neg (hfree m x hx)]
  · split
    · have hperm : (l₁ ++ place :: i :: l₂).Perm (i :: (l₁ ++ place :: l₂)) :=
        ((List.Perm.swap i place l₂).append_left l₁).trans List.perm_middle
      rw [hperm.nodup_iff, ← hsplit]
      exact List.nodup_cons.mpr ⟨h.not_mem_chain hi _, hnodup⟩
    · exact h.nodup m
  · rw [← h.mem_insert_iff hi]
    split
    · rename_i hm
      subst hm
      rw [hsplit]
      simp only [List.mem_append, List.mem_cons, and_true]
      tauto
    · rename_i hm
      simp [hm]

/-- A request is put into a free slot, and into the chain of the major number of its
device. -/
theorem Arranged.insert (h : r.Arranged) (hm : t.device.major < majorCount)
    (hi : r.request? i = none) : (r.insert t.device.major i t b).1.Arranged := by
  cases hchain : r.chain t.device.major with
  | nil =>
    have hl := h.linked t.device.major
    rw [hchain] at hl
    exact (h.insert_first hm hi hl).1
  | cons first l => exact (h.insert_behind hi hchain).1

/-! ## Ending -/

/-- The current request is the front of its chain. -/
theorem Arranged.exists_cons (h : r.Arranged) (hcurrent : r.currentSlot m = some i) :
    ∃ l, r.chain m = i :: l ∧ Linked r.next? (r.next? i) l ∧ i ∉ l ∧ l.Nodup := by
  have hlinked := h.linked m
  have hnodup := h.nodup m
  cases hchain : r.chain m with
  | nil =>
    rw [hchain, hcurrent] at hlinked
    cases hlinked
  | cons first l =>
    rw [hchain, hcurrent] at hlinked
    rw [hchain] at hnodup
    obtain ⟨hfirst, hl⟩ := hlinked
    cases hfirst
    obtain ⟨hil, hd⟩ := List.nodup_cons.mp hnodup
    exact ⟨l, rfl, hl, hil, hd⟩

/-- The current request leaves its chain at the front. -/
theorem Arranged.retire (h : r.Arranged) (hcurrent : r.currentSlot m = some i) :
    (r.retire m i).1.Arranged ∧ ∀ m', (r.retire m i).1.chain m' =
      if m = m' then (r.chain m').tail else r.chain m' := by
  obtain ⟨l, hchain, hl, hil, hd⟩ := h.exists_cons hcurrent
  have hmem : i ∈ r.chain m := hchain ▸ List.mem_cons_self
  have hnext (k : g.Slot) : (r.retire m i).1.next? k = if i = k then none else r.next? k :=
    next?_setSlot r i k none
  have hcurrent' (m' : Nat) : (r.retire m i).1.currentSlot m' =
      if m = m' then r.next? i else r.currentSlot m' := by
    rw [RequestTable.retire, currentSlot_setCurrent, currentSlot_setSlot]
    simp only [lt_majorCount_of_currentSlot hcurrent, and_true]
  have harranged := arranged_of_lists (r := (r.retire m i).1)
    (l := fun m' => if m = m' then l else r.chain m') (fun m' => ?_) (fun m' => ?_) fun m' k => ?_
  · refine ⟨harranged.1, fun m' => ?_⟩
    rw [harranged.2]
    dsimp only
    split
    · rename_i hm
      subst hm
      rw [hchain, List.tail_cons]
    · rfl
  · rw [hcurrent']
    split
    · exact hl.congr fun x hx => by rw [hnext, if_neg (ne_of_mem_of_not_mem hx hil).symm]
    · rename_i hm
      refine (h.linked m').congr fun x hx => ?_
      have hix : i ≠ x := by
        rintro rfl
        exact hm (h.eq_of_mem hmem hx)
      rw [hnext, if_neg hix]
  · split
    · exact hd
    · exact h.nodup m'
  · rw [order?_retire]
    by_cases hik : i = k
    · subst hik
      rw [if_pos rfl]
      split
      · simp [hil]
      · rename_i hm
        refine iff_of_false (fun hi => hm (h.eq_of_mem hmem hi)) ?_
        rintro ⟨o, ho, -⟩
        cases ho
    · rw [if_neg hik, ← h.mem_iff]
      split
      · rename_i hm
        subst hm
        rw [hchain, List.mem_cons]
        simp [Ne.symm hik]
      · rfl

end RequestTable
end BufferCache
