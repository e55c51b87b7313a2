import BufferCache.Proofs.RequestChains
import BufferCache.Proofs.StepWaits
import BufferCache.Proofs.Traffic

/-!
# Locks, requests and claims

A buffer is locked for one of two reasons: a request is queued for it, or a call claims
it.  `Cache.Tallies` says that locks, requests and claims tally, that the chains of the
request table are in order, and that each request is for the block in its buffer.  Every
effect keeps this: a buffer is given another block only while it is unlocked, and then
nobody has a request or a claim for it.

The claims are read off the suspended calls, so at the points of a run at which clients
can act they are those of calls that wait for a request slot.
-/

namespace BufferCache

variable {g : Geometry}

/-! ## The requests of a kind -/

namespace RequestTable

variable {r : RequestTable g} {m : Nat} {slot k : g.Slot} {t : Transfer} {b i : g.Buffer}
  {p : Transfer × g.Buffer → Bool}

/-- The slots of the requests that ask for something of a kind. -/
def slotsWith (r : RequestTable g) (p : Transfer × g.Buffer → Bool) : Finset g.Slot :=
  Finset.univ.filter fun k => (r.order? k).any p

theorem mem_slotsWith : k ∈ r.slotsWith p ↔ ∃ o, r.order? k = some o ∧ p o = true := by
  rw [slotsWith, Finset.mem_filter, Option.any_eq_true]
  exact and_iff_right (Finset.mem_univ k)

/-- A request that is queued is one more of its kind. -/
theorem card_slotsWith_insert (hslot : r.request? slot = none) :
    ((r.insert m slot t b).1.slotsWith p).card =
      (r.slotsWith p).card + if p (t, b) then 1 else 0 := by
  have hfree : slot ∉ r.slotsWith p := by
    rw [mem_slotsWith, (r.order?_eq_none_iff slot).mpr hslot]
    exact nofun
  by_cases hp : p (t, b) = true
  · have hinsert : (r.insert m slot t b).1.slotsWith p =
        Insert.insert slot (r.slotsWith p) := by
      ext k
      rw [Finset.mem_insert, mem_slotsWith, mem_slotsWith, order?_insert]
      by_cases hk : slot = k
      · simp [hk, hp]
      · simp [hk, Ne.symm hk]
    rw [hinsert, Finset.card_insert_of_notMem hfree, if_pos hp]
  · have hsame : (r.insert m slot t b).1.slotsWith p = r.slotsWith p := by
      ext k
      rw [mem_slotsWith, mem_slotsWith, order?_insert]
      by_cases hk : slot = k
      · subst hk
        simp [hp, (r.order?_eq_none_iff slot).mpr hslot]
      · rw [if_neg hk]
    rw [hsame, if_neg hp, Nat.add_zero]

/-- A request that ends is one less of its kind. -/
theorem card_slotsWith_retire {o : Transfer × g.Buffer} (ho : r.order? slot = some o) :
    ((r.retire m slot).1.slotsWith p).card + (if p o then 1 else 0) =
      (r.slotsWith p).card := by
  have herase : (r.retire m slot).1.slotsWith p = (r.slotsWith p).erase slot := by
    ext k
    rw [Finset.mem_erase, mem_slotsWith, mem_slotsWith, order?_retire]
    by_cases hk : slot = k
    · simp [hk]
    · simp [hk, Ne.symm hk]
  rw [herase, Finset.card_erase_eq_ite]
  by_cases hp : p o = true
  · have hmem : slot ∈ r.slotsWith p := mem_slotsWith.mpr ⟨o, ho, hp⟩
    have hpos := Finset.card_pos.mpr ⟨slot, hmem⟩
    rw [if_pos hmem, if_pos hp]
    omega
  · have hnot : slot ∉ r.slotsWith p := by
      rw [mem_slotsWith, ho]
      rintro ⟨o', ho', hp'⟩
      cases ho'
      exact hp hp'
    rw [if_neg hnot, if_neg hp, Nat.add_zero]

/-! ### The requests for a buffer -/

/-- The slots of the requests for a buffer. -/
def slotsFor (r : RequestTable g) (i : g.Buffer) : Finset g.Slot :=
  Finset.univ.filter fun k => (r.order? k).map Prod.snd = some i

theorem mem_slotsFor : k ∈ r.slotsFor i ↔ ∃ t, r.order? k = some (t, i) := by
  rw [slotsFor, Finset.mem_filter, Option.map_eq_some_iff]
  constructor
  · rintro ⟨-, ⟨t, j⟩, hk, rfl⟩
    exact ⟨t, hk⟩
  · rintro ⟨t, hk⟩
    exact ⟨Finset.mem_univ k, (t, i), hk, rfl⟩

theorem slotsFor_eq (r : RequestTable g) (i : g.Buffer) :
    r.slotsFor i = r.slotsWith fun o => decide (o.2 = i) := by
  ext k
  rw [mem_slotsFor, mem_slotsWith]
  simp

/-- A request that is queued is one more for its buffer. -/
theorem card_slotsFor_insert (hslot : r.request? slot = none) :
    ((r.insert m slot t b).1.slotsFor i).card =
      (r.slotsFor i).card + if b = i then 1 else 0 := by
  rw [slotsFor_eq, slotsFor_eq, card_slotsWith_insert hslot]
  simp only [decide_eq_true_eq]

/-- A request that ends is one less for its buffer. -/
theorem card_slotsFor_retire {q : Request g} (hq : r.request? slot = some q) :
    ((r.retire m slot).1.slotsFor i).card + (if q.buffer = i then 1 else 0) =
      (r.slotsFor i).card := by
  have ho : r.order? slot = some (q.transfer, q.buffer) := by
    rw [order?, hq]
    rfl
  rw [slotsFor_eq, slotsFor_eq, ← card_slotsWith_retire (m := m) ho]
  simp only [decide_eq_true_eq]

end RequestTable

/-! ## The tally -/

/-- Requests and claims account for the locks; the chains of requests are in order; and
each request is for the block in its buffer. -/
structure Cache.Tallies (exact : Prop) (c : Cache g) (claims : g.Buffer → Nat) : Prop where
  /-- The chains of the request table are in order. -/
  arranged : c.requests.Arranged
  /-- A buffer is locked just if there is a request or a claim for it, and there is never
  more than one. -/
  counted : ∀ i, (c.requests.slotsFor i).card + claims i = (c.header i).locked.toNat
  /-- A request is for the block in its buffer. -/
  placed : ∀ k t i, c.requests.order? k = some (t, i) → t.sectors = sectorsPerBlock ∧
    t.sector = (c.blockOf i).sector ∧ (exact → t.device = (c.blockOf i).device)

namespace Cache

variable {exact : Prop} {c c' : Cache g} {claims claims' : g.Buffer → Nat} {i : g.Buffer}

theorem blockOf_congr (h : (c'.header i).content = (c.header i).content) :
    c'.blockOf i = c.blockOf i := by
  rw [blockOf, blockOf, Header.device, Header.device, Header.number, Header.number, h]

theorem requests_assign (c : Cache g) (i : g.Buffer) (s : Buffers g) :
    (c.assign i s).requests = c.requests := by
  unfold assign
  split <;> rfl

theorem drivers_assign (c : Cache g) (i : g.Buffer) (s : Buffers g) :
    (c.assign i s).drivers = c.drivers := by
  unfold assign
  split <;> rfl

theorem content_of_unmarked (h : (c'.header i).unmarked = (c.header i).unmarked) :
    (c'.header i).content = (c.header i).content :=
  (congrArg Header.content h :)

theorem content_lock (c : Cache g) (i j : g.Buffer) :
    ((c.lock i).header j).content = (c.header j).content := by
  rw [header_lock]
  split <;> rfl

theorem content_unlock (c : Cache g) (i j : g.Buffer) :
    ((c.unlock i).header j).content = (c.header j).content := by
  rw [header_unlock]
  split <;> rfl

/-- A block is in its place whether its buffer is locked or not. -/
theorem Places.lock {b : Block} (h : c.Places exact i b) : (c.lock i).Places exact i b := by
  obtain ⟨hdriver, hnumber, hdevice⟩ := h
  have hblock := blockOf_congr (content_lock c i i)
  refine ⟨hdriver, ?_, fun he => ?_⟩
  · exact (congrArg Block.number hblock :).trans hnumber
  · exact (congrArg Block.device hblock :).trans (hdevice he)

namespace Tallies

/-- A buffer for which there is a request is locked. -/
theorem locked_of_order? (h : c.Tallies exact claims) {k : g.Slot} {t : Transfer}
    (hk : c.requests.order? k = some (t, i)) : (c.header i).locked = true := by
  have hpos := Finset.card_pos.mpr ⟨k, RequestTable.mem_slotsFor.mpr ⟨t, hk⟩⟩
  have hcounted := h.counted i
  cases hlocked : (c.header i).locked with
  | true => rfl
  | false =>
    rw [hlocked, Bool.toNat_false] at hcounted
    omega

/-- A buffer that is claimed is locked. -/
theorem locked_of_claims (h : c.Tallies exact claims) (hi : 0 < claims i) :
    (c.header i).locked = true := by
  have hcounted := h.counted i
  cases hlocked : (c.header i).locked with
  | true => rfl
  | false =>
    rw [hlocked, Bool.toNat_false] at hcounted
    omega

/-- Where neither requests nor blocks change, only locks and claims matter. -/
theorem of_counted (h : c.Tallies exact claims) (hrequests : c'.requests = c.requests)
    (hcontent : ∀ i, (c'.header i).content = (c.header i).content)
    (hcounted : ∀ i, (c.requests.slotsFor i).card + claims' i = (c'.header i).locked.toNat) :
    c'.Tallies exact claims' := by
  refine ⟨?_, ?_, fun k t i hk => ?_⟩
  · rw [hrequests]
    exact h.arranged
  · rw [hrequests]
    exact hcounted
  · rw [hrequests] at hk
    rw [blockOf_congr (hcontent i)]
    exact h.placed k t i hk

theorem congr (h : c.Tallies exact claims) (hrequests : c'.requests = c.requests)
    (hlocked : ∀ i, (c'.header i).locked = (c.header i).locked)
    (hcontent : ∀ i, (c'.header i).content = (c.header i).content) : c'.Tallies exact claims := by
  refine h.of_counted hrequests hcontent fun i => ?_
  rw [hlocked]
  exact h.counted i

/-- A buffer that nobody has locked is given another block. -/
theorem assign (h : c.Tallies exact claims) {b : Block} {s : Buffers g}
    (hlocked : (c.header i).locked = false) (hs : c.buffers.reassign i b = .ok s) :
    (c.assign i s).Tallies exact claims := by
  have hbare (j : g.Buffer) : ((c.assign i s).header j).bare =
      (if i = j then (c.header j).assign b else c.header j).bare := by
    rw [header_assign]
    exact Buffers.bare_reassign hs j
  have hrequests := c.requests_assign i s
  refine ⟨hrequests ▸ h.arranged, fun j => ?_, fun k t j hk => ?_⟩
  · have hcounted := h.counted j
    have hsame : ((c.assign i s).header j).locked = (c.header j).locked := by
      refine (congrArg Header.locked (hbare j) :).trans ?_
      by_cases hij : i = j
      · subst hij
        rw [if_pos rfl, hlocked]
        rfl
      · rw [if_neg hij]
        rfl
    rw [hrequests, hsame]
    exact hcounted
  · rw [hrequests] at hk
    have hij : i ≠ j := by
      rintro rfl
      exact Bool.false_ne_true (hlocked.symm.trans (h.locked_of_order? hk))
    have hcontent : ((c.assign i s).header j).content = (c.header j).content := by
      refine (congrArg Header.content (hbare j) :).trans ?_
      rw [if_neg hij]
      rfl
    rw [blockOf_congr hcontent]
    exact h.placed k t j hk

/-- A buffer that nobody has locked is locked, for a new claim. -/
theorem lock (h : c.Tallies exact claims) (hlocked : (c.header i).locked = false)
    (hclaims : ∀ j, claims' j = claims j + one (some i) j) :
    (c.lock i).Tallies exact claims' := by
  refine h.of_counted rfl (content_lock c i) fun j => ?_
  have hcounted := h.counted j
  have hj : claims' j = claims j + if i = j then 1 else 0 := hclaims j
  rw [header_lock, hj]
  by_cases hij : i = j
  · subst hij
    rw [hlocked, Bool.toNat_false] at hcounted
    rw [if_pos rfl, if_pos rfl, Bool.toNat_true]
    omega
  · rw [if_neg hij, if_neg hij]
    exact hcounted

/-- A buffer is unlocked, and a claim to it is given up. -/
theorem unlock (h : c.Tallies exact claims)
    (hclaims : ∀ j, claims' j + one (some i) j = claims j) :
    (c.unlock i).Tallies exact claims' := by
  refine h.of_counted rfl (content_unlock c i) fun j => ?_
  have hcounted := h.counted j
  have hj : claims' j + (if i = j then 1 else 0) = claims j := hclaims j
  rw [header_unlock]
  by_cases hij : i = j
  · subst hij
    rw [if_pos rfl] at hj ⊢
    have hle := Bool.toNat_le (c.header i).locked
    rw [Bool.toNat_false]
    omega
  · rw [if_neg hij] at hj ⊢
    omega

/-- A buffer that nobody has locked is locked and unlocked again. -/
theorem graze (h : c.Tallies exact claims) (hlocked : (c.header i).locked = false) :
    ((c.lock i).unlock i).Tallies exact claims := by
  have hlock : (c.lock i).Tallies exact fun j => claims j + one (some i) j :=
    h.lock hlocked fun _ => rfl
  exact hlock.unlock fun _ => rfl

/-- A request is queued for a buffer that is locked, in exchange for a claim. -/
theorem enqueue (h : c.Tallies exact claims) {d : Direction} {b : Block} {slot : g.Slot}
    (hslot : c.requests.freeSlot d = some slot) (hplaces : c.Places exact i b)
    (hclaims : ∀ j, claims' j + one (some i) j = claims j) :
    (c.enqueue d i b slot).Tallies exact claims' := by
  have hfree := (RequestTable.freeSlot_eq_some hslot).1
  obtain ⟨hdriver, hnumber, hdevice⟩ := hplaces
  have hcontent (j : g.Buffer) : ((c.enqueue d i b slot).header j).content =
      (c.header j).content := by
    rw [header_enqueue]
    split <;> rfl
  have hrequests : (c.enqueue d i b slot).requests =
      (c.requests.insert b.device.major slot (.ofBlock d b) i).1 := rfl
  have hmajor : b.device.major < majorCount := by
    obtain ⟨driver, hd⟩ := Option.isSome_iff_exists.mp hdriver
    exact lt_majorCount_of_driver? hd
  refine ⟨?_, fun j => ?_, fun k t j hk => ?_⟩
  · exact h.arranged.insert (t := .ofBlock d b) hmajor hfree
  · have hlocked : ((c.enqueue d i b slot).header j).locked = (c.header j).locked := by
      rw [header_enqueue]
      split <;> rfl
    have hone : one (some i) j = if i = j then 1 else 0 := rfl
    rw [hrequests, RequestTable.card_slotsFor_insert hfree, hlocked, ← h.counted j, ← hclaims j,
      hone]
    omega
  · rw [blockOf_congr (hcontent j)]
    rw [hrequests, RequestTable.order?_insert] at hk
    split at hk
    · cases hk
      refine ⟨rfl, ?_, fun he => (hdevice he).symm⟩
      change b.number.toNat * _ = (c.header i).number.toNat * _
      rw [hnumber]
    · exact h.placed k t j hk

/-- The end of a request unlocks its buffer. -/
theorem conclude (h : c.Tallies exact claims) {m : Nat} {slot : g.Slot} {q : Request g}
    (hslot : c.requests.currentSlot m = some slot) (hq : c.requests.request? slot = some q)
    (success : Bool) : (c.conclude m slot q success).Tallies exact claims := by
  have horder : c.requests.order? slot = some (q.transfer, q.buffer) := by
    rw [RequestTable.order?, hq]
    rfl
  have hrequests := requests_conclude c m slot q success
  refine ⟨?_, fun j => ?_, fun k t j hk => ?_⟩
  · rw [hrequests]
    exact (h.arranged.retire hslot).1
  · have hcard := RequestTable.card_slotsFor_retire (m := m) (i := j) hq
    have hcounted := h.counted j
    rw [hrequests, header_conclude]
    by_cases hj : q.buffer = j
    · subst hj
      rw [h.locked_of_order? horder, Bool.toNat_true] at hcounted
      rw [if_pos rfl] at hcard ⊢
      change _ = 0
      omega
    · rw [if_neg hj] at hcard ⊢
      omega
  · have hcontent : ((c.conclude m slot q success).header j).content =
        (c.header j).content := by
      rw [header_conclude]
      split <;> rfl
    rw [hrequests, RequestTable.order?_retire] at hk
    split at hk
    · cases hk
    · rw [blockOf_congr hcontent]
      exact h.placed k t j hk

end Tallies
end Cache

namespace Effect

variable {exact : Prop} {e : Effect g} {c : Cache g} {claims claims' : g.Buffer → Nat}
  {i : g.Buffer}

/-- Whatever a step does, locks, requests and claims go on to tally. -/
theorem tallies (h : c.Tallies exact claims) (hfits : e.Fits c) (hapt : e.Apt exact c)
    (hclaims : ∀ i, claims' i + one e.frees i = claims i + one e.takes i) :
    (e.apply c).Tallies exact claims' := by
  have hsame (hidle : e.takes = Option.none ∧ e.frees = Option.none) : claims' = claims := by
    funext i
    have hi := hclaims i
    rw [hidle.1, hidle.2] at hi
    exact Nat.add_right_cancel hi
  have hcontent (he : ∀ i b s, e ≠ .assign i b s) (i : g.Buffer) :
      ((e.apply c).header i).content = (c.header i).content :=
    Cache.content_of_unmarked (e.unmarked_header he c i)
  cases e with
  | none =>
    rw [hsame ⟨rfl, rfl⟩]
    exact h
  | count k =>
    rw [hsame ⟨rfl, rfl⟩]
    exact h.congr rfl (fun _ => rfl) fun _ => rfl
  | refer b i =>
    rw [hsame ⟨rfl, rfl⟩]
    refine h.congr rfl (fun j => ?_) (hcontent fun _ _ _ he => by cases he)
    rw [apply, Cache.header_refer]
    split <;> rfl
  | unrefer i =>
    rw [hsame ⟨rfl, rfl⟩]
    refine h.congr rfl (fun j => ?_) (hcontent fun _ _ _ he => by cases he)
    rw [apply, Cache.header_unrefer]
    split <;> rfl
  | lock i => exact h.lock hfits hclaims
  | unlock i => exact h.unlock hclaims
  | graze i =>
    rw [hsame ⟨rfl, rfl⟩]
    exact h.graze hfits
  | queue direct d i b slot =>
    cases direct with
    | false => exact h.enqueue hfits.1 hapt hclaims
    | true =>
      -- The buffer is locked and the request queued in one step.
      obtain ⟨hslot, hdirect⟩ := hfits
      have hlock : (c.lock i).Tallies exact fun j => claims j + one (some i) j :=
        h.lock (hdirect rfl).1 fun _ => rfl
      exact hlock.enqueue hslot (Cache.Places.lock hapt) fun j =>
        congrArg (· + one (some i) j) (hclaims j)
  | finish m slot q success =>
    rw [hsame ⟨rfl, rfl⟩]
    exact h.conclude hfits.1 hfits.2 success
  | serve m d slot q =>
    rw [hsame ⟨rfl, rfl⟩]
    have hcarried : (c.carryOut m d q).Tallies exact claims :=
      h.congr rfl (fun _ => rfl) fun _ => rfl
    exact hcarried.conclude hfits.2.1 hfits.2.2 _
  | assign i b s =>
    rw [hsame ⟨rfl, rfl⟩]
    exact h.assign hfits.2.2.1 hfits.2.2.2.2
  | edit i page valid dirty =>
    rw [hsame ⟨rfl, rfl⟩]
    refine h.congr ?_ (fun j => ?_) (hcontent fun _ _ _ he => by cases he)
    · cases page <;> cases valid <;> cases dirty <;> rfl
    · rw [apply, Cache.header_edit]
      split <;> rfl
  | empty d i =>
    rw [hsame ⟨rfl, rfl⟩]
    refine h.congr rfl (fun j => ?_) (hcontent fun _ _ _ he => by cases he)
    rw [apply, Cache.header_setDirty, Cache.header_setValid]
    split <;> rfl
  | register m d =>
    rw [hsame ⟨rfl, rfl⟩]
    exact h.congr rfl (fun _ => rfl) fun _ => rfl

/-- A buffer keeps its block, and stays in its generation, unless it is given another
block. -/
theorem keeps_of_ne (hfits : e.Fits c) (hi : ∀ b s, e ≠ .assign i b s) :
    ((e.apply c).header i).content = (c.header i).content ∧
      ((e.apply c).header i).generation = (c.header i).generation := by
  by_cases hassign : ∃ j b s, e = .assign j b s
  · obtain ⟨j, b, s, rfl⟩ := hassign
    have hji : j ≠ i := by
      rintro rfl
      exact hi b s rfl
    have hbare : ((c.assign j s).header i).bare = (c.header i).bare := by
      rw [Cache.header_assign, Buffers.bare_reassign hfits.2.2.2.2, if_neg hji]
      rfl
    exact ⟨(congrArg Header.content hbare :), (congrArg Header.generation hbare :)⟩
  · have hheader := e.unmarked_header (fun j b s he => hassign ⟨j, b, s, he⟩) c i
    exact ⟨(congrArg Header.content hheader :), (congrArg Header.generation hheader :)⟩

/-- So does one that is locked. -/
theorem keeps_of_locked (hfits : e.Fits c) (hi : (c.header i).locked = true) :
    ((e.apply c).header i).content = (c.header i).content ∧
      ((e.apply c).header i).generation = (c.header i).generation := by
  refine keeps_of_ne hfits ?_
  rintro b s rfl
  exact Bool.false_ne_true (hfits.2.2.1.symm.trans hi)

/-- Drivers stay registered. -/
theorem isSome_driver? (hfits : e.Fits c) {m : Nat} (hm : (c.driver? m).isSome = true) :
    ((e.apply c).driver? m).isSome = true := by
  cases e with
  | queue direct d i b slot => cases direct <;> exact hm
  | finish m' slot q success =>
    rw [apply, Cache.driver?_congr (Cache.drivers_conclude c m' slot q success)]
    exact hm
  | serve m' d slot q =>
    rw [apply, Cache.driver?_congr (Cache.drivers_conclude ..),
      Cache.isSome_driver?_carryOut hfits.1]
    exact hm
  | assign i b s =>
    rw [apply, Cache.driver?_congr (c.drivers_assign i s)]
    exact hm
  | edit i page valid dirty => cases page <;> cases valid <;> cases dirty <;> exact hm
  | register m' d =>
    rw [apply, Cache.driver?_setDriver]
    split
    · rfl
    · exact hm
  | _ => exact hm

/-- No driver is registered for the devices that are none. -/
theorem driver?_zero (hfits : e.Fits c) (h : c.driver? 0 = Option.none) :
    (e.apply c).driver? 0 = Option.none := by
  cases e with
  | queue direct d i b slot => cases direct <;> exact h
  | finish m slot q success =>
    rw [apply, Cache.driver?_congr (Cache.drivers_conclude c m slot q success)]
    exact h
  | serve m d slot q =>
    rw [apply, Cache.driver?_congr (Cache.drivers_conclude ..), ← Option.not_isSome_iff_eq_none,
      Cache.isSome_driver?_carryOut hfits.1, h]
    exact Bool.false_ne_true
  | assign i b s =>
    rw [apply, Cache.driver?_congr (c.drivers_assign i s)]
    exact h
  | edit i page valid dirty => cases page <;> cases valid <;> cases dirty <;> exact h
  | register m d =>
    rw [apply, Cache.driver?_setDriver, if_neg fun hm => hfits.1 hm.1]
    exact h
  | _ => exact h

end Effect
end BufferCache
