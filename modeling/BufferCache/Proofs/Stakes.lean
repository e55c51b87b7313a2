import BufferCache.Proofs.Index
import Mathlib.Data.Multiset.AddSub

/-!
# Who holds which references

The count in a header says how many references are out, but not who has them.
There are three kinds of holder: clients, who are on a *ledger*; calls, suspended or
not, that got a reference for themselves; and look-ups that have referenced a buffer
and wait for it.

What a machine holds in its calls is a multiset of `Stake`s, the sum over its stack.
`Accounted ledger c stakes` says that ledger and stakes explain the counts of `c`,
that every handle in them is good, and that clients give back no more than they
have.  A buffer that anyone has a stake in therefore has a reference left, which
keeps it from being given another block.

The rules below say what each way of taking, passing on and giving back a reference
does to the account.  In each of them the other stakes are arbitrary, so a rule that
is applied to the topmost call carries all suspended ones along.
-/

namespace BufferCache

variable {g : Geometry}

/-- A reference that a client was given: its handle, and the block that the buffer held
then. -/
structure Reference where
  /-- The handle. -/
  handle : Handle
  /-- The block. -/
  block : Block
  deriving DecidableEq

/-- What a call has to do with a reference. -/
inductive Stake (g : Geometry) where
  /-- It holds a reference with this handle. -/
  | hold (h : Handle)
  /-- It gives a client's reference with this handle back. -/
  | departing (h : Handle)
  /-- It has referenced the buffer of a block. -/
  | pin (b : Block) (i : g.Buffer)
  deriving DecidableEq

namespace Cache

/-- The block of buffer `i`, as its header names it. -/
def blockOf (c : Cache g) (i : g.Buffer) : Block :=
  ⟨(c.header i).device, (c.header i).number⟩

/-- The handle `h` is current, and its buffer holds block `b`. -/
def Names (c : Cache g) (h : Handle) (b : Block) : Prop :=
  ∃ i : g.Buffer, i.val = h.index ∧ (c.header i).generation = h.generation ∧
    (c.header i).content = some b

theorem blockOf_eq {c : Cache g} {i : g.Buffer} {b : Block}
    (h : (c.header i).content = some b) : c.blockOf i = b := by
  simp [blockOf, Header.device, Header.number, h]

end Cache

namespace Stake

/-- Whether a stake is a reference to buffer `i`.  One that departs is still on the
ledger. -/
def Counts (i : g.Buffer) : Stake g → Prop
  | hold h => h.index = i.val
  | departing _ => False
  | pin _ j => j = i

instance (i : g.Buffer) : DecidablePred (Counts i) := by
  intro s
  cases s <;> unfold Counts <;> infer_instance

/-- A stake is good if its handle is current, or its buffer holds the block that it was
referenced for. -/
def Good (c : Cache g) : Stake g → Prop
  | hold h => ∃ b, c.Names h b
  | departing _ => True
  | pin b i => (c.header i).content = some b

end Stake

/-- Two caches with the same blocks, generations and references. -/
structure Cache.SameReferences (c c' : Cache g) : Prop where
  /-- The buffers hold the same blocks. -/
  content : ∀ i, (c'.header i).content = (c.header i).content
  /-- They are in the same generation. -/
  generation : ∀ i, (c'.header i).generation = (c.header i).generation
  /-- They have as many references. -/
  references : ∀ i, (c'.header i).references = (c.header i).references

/-- The ledger of clients and the stakes of calls explain the references of a cache. -/
structure Accounted (ledger : List Reference) (c : Cache g) (stakes : Multiset (Stake g)) :
    Prop where
  /-- The count of a buffer is that of its references on the ledger and in calls. -/
  counted : ∀ i, (c.header i).references =
    ledger.countP (fun r => r.handle.index = i.val) + stakes.countP (Stake.Counts i)
  /-- References on the ledger are good. -/
  owned : ∀ r ∈ ledger, c.Names r.handle r.block
  /-- References in calls are good. -/
  good : ∀ s ∈ stakes, s.Good c
  /-- Clients give back only what they have. -/
  departing : ∀ h, stakes.count (.departing h) ≤ ledger.countP fun r => r.handle = h

namespace Accounted

variable {ledger : List Reference} {c c' : Cache g} {stakes : Multiset (Stake g)} {h : Handle}
  {i : g.Buffer} {b : Block}

theorem count_departing_hold (stakes : Multiset (Stake g)) (h h' : Handle) :
    (.hold h ::ₘ stakes).count (.departing h') = stakes.count (.departing h') :=
  Multiset.count_cons_of_ne (show Stake.departing h' ≠ .hold h from nofun) stakes

theorem count_departing_pin (stakes : Multiset (Stake g)) (b : Block) (i : g.Buffer)
    (h : Handle) :
    (.pin b i ::ₘ stakes).count (.departing h) = stakes.count (.departing h) :=
  Multiset.count_cons_of_ne (show Stake.departing h ≠ .pin b i from nofun) stakes

theorem names_congr (hc : c.SameReferences c') (hb : c.Names h b) : c'.Names h b := by
  obtain ⟨i, hi, hg, hcontent⟩ := hb
  exact ⟨i, hi, by rw [hc.generation, hg], by rw [hc.content, hcontent]⟩

theorem congr (ha : Accounted ledger c stakes) (hc : c.SameReferences c') :
    Accounted ledger c' stakes where
  counted i := (hc.references i).trans (ha.counted i)
  owned r hr := names_congr hc (ha.owned r hr)
  good s hs := by
    have hgood := ha.good s hs
    cases s with
    | hold h =>
      obtain ⟨b, hb⟩ := hgood
      exact ⟨b, names_congr hc hb⟩
    | departing h => trivial
    | pin b i => exact (hc.content i).trans hgood
  departing := ha.departing

/-! ## Good handles -/

/-- A handle that names a block and has a reference left is good for everything. -/
theorem resolve_eq (hb : c.Names h b) (hr : ∀ i : g.Buffer, i.val = h.index →
    (c.header i).references ≠ 0) :
    ∃ i : g.Buffer, i.val = h.index ∧ (c.header i).content = some b ∧ c.resolve h = .ok i := by
  obtain ⟨i, hi, hg, hcontent⟩ := hb
  refine ⟨i, hi, hcontent, ?_⟩
  have hlt : h.index < g.buffers := hi ▸ i.isLt
  have heq : (⟨h.index, hlt⟩ : g.Buffer) = i := Fin.ext hi.symm
  unfold Cache.resolve
  rw [dif_pos hlt]
  dsimp only
  rw [heq, if_pos hg, if_neg (hr i hi)]

/-- The buffer of a reference on the ledger is referenced. -/
theorem references_of_owned (ha : Accounted ledger c stakes) {r : Reference} (hr : r ∈ ledger)
    (hi : i.val = r.handle.index) : (c.header i).references ≠ 0 := by
  have hpos : 0 < ledger.countP fun r => r.handle.index = i.val :=
    List.countP_pos_iff.mpr ⟨r, hr, by simpa using hi.symm⟩
  rw [ha.counted]
  omega

/-- The buffer of a stake is referenced. -/
theorem references_of_counts (ha : Accounted ledger c stakes) {s : Stake g} (hs : s ∈ stakes)
    (hi : s.Counts i) : (c.header i).references ≠ 0 := by
  have hpos : 0 < stakes.countP (Stake.Counts i) := Multiset.countP_pos_of_mem hs hi
  rw [ha.counted]
  omega

/-- A reference on the ledger is good. -/
theorem resolve_of_owned (ha : Accounted ledger c stakes) {r : Reference} (hr : r ∈ ledger) :
    ∃ i : g.Buffer, i.val = r.handle.index ∧ (c.header i).content = some r.block ∧
      c.resolve r.handle = .ok i :=
  resolve_eq (ha.owned r hr) fun _ hi => ha.references_of_owned hr hi

/-- A reference that a call holds is good. -/
theorem resolve_of_hold (ha : Accounted ledger c stakes) (hs : .hold h ∈ stakes) :
    ∃ i : g.Buffer, i.val = h.index ∧ c.resolve h = .ok i := by
  obtain ⟨b, hb⟩ := ha.good _ hs
  obtain ⟨i, hi, -, hok⟩ := resolve_eq hb fun j hj =>
    ha.references_of_counts hs (hj.symm : Stake.Counts j (.hold h))
  exact ⟨i, hi, hok⟩

/-- A reference that a client gives back is on the ledger. -/
theorem exists_owned_of_departing (ha : Accounted ledger c stakes)
    (hs : .departing h ∈ stakes) : ∃ r ∈ ledger, r.handle = h := by
  have hpos : 0 < ledger.countP fun r => r.handle = h :=
    lt_of_lt_of_le (Multiset.count_pos.mpr hs) (ha.departing h)
  obtain ⟨r, hr, heq⟩ := List.countP_pos_iff.mp hpos
  exact ⟨r, hr, by simpa using heq⟩

/-- A reference that a client gives back is good. -/
theorem resolve_of_departing (ha : Accounted ledger c stakes) (hs : .departing h ∈ stakes) :
    ∃ i : g.Buffer, i.val = h.index ∧ c.resolve h = .ok i := by
  obtain ⟨r, hr, rfl⟩ := ha.exists_owned_of_departing hs
  obtain ⟨i, hi, -, hok⟩ := ha.resolve_of_owned hr
  exact ⟨i, hi, hok⟩

/-! ## Taking references -/

/-- A look-up references the buffer that it finds. -/
theorem refer (ha : Accounted ledger c stakes) (hb : (c.header i).content = some b) :
    Accounted ledger (c.refer i) (.pin b i ::ₘ stakes) := by
  have hcontent (j : g.Buffer) : ((c.refer i).header j).content = (c.header j).content := by
    rw [Cache.header_refer]
    split <;> rfl
  have hgeneration (j : g.Buffer) :
      ((c.refer i).header j).generation = (c.header j).generation := by
    rw [Cache.header_refer]
    split <;> rfl
  have hnames {h : Handle} {b : Block} (hb : c.Names h b) : (c.refer i).Names h b := by
    obtain ⟨j, hj, hg, hc⟩ := hb
    exact ⟨j, hj, by rw [hgeneration, hg], by rw [hcontent, hc]⟩
  refine ⟨fun j => ?_, fun r hr => hnames (ha.owned r hr), fun s hs => ?_, fun h => ?_⟩
  · rw [Cache.header_refer, Multiset.countP_cons]
    by_cases hij : i = j
    · rw [if_pos hij, if_pos (show Stake.Counts j (.pin b i) from hij)]
      dsimp only
      rw [ha.counted j]
      omega
    · rw [if_neg hij, if_neg (show ¬ Stake.Counts j (.pin b i) from hij)]
      exact ha.counted j
  · rcases Multiset.mem_cons.mp hs with rfl | hs
    · exact (hcontent i).trans hb
    · have hgood := ha.good s hs
      cases s with
      | hold h =>
        obtain ⟨b, hb⟩ := hgood
        exact ⟨b, hnames hb⟩
      | departing h => trivial
      | pin b' j => exact (hcontent j).trans hgood
  · rw [count_departing_pin]
    exact ha.departing h

/-- A look-up passes its reference on, as a reference to the buffer as it is. -/
theorem hold_of_pin (ha : Accounted ledger c (.pin b i ::ₘ stakes)) :
    Accounted ledger c (.hold (c.hold i).handle ::ₘ stakes) := by
  have hpin : (c.header i).content = some b := ha.good _ (Multiset.mem_cons_self _ _)
  refine ⟨fun j => ?_, ha.owned, fun s hs => ?_, fun h => ?_⟩
  · rw [ha.counted j, Multiset.countP_cons, Multiset.countP_cons]
    have hiff : Stake.Counts j (.pin b i) ↔ Stake.Counts j (.hold (c.hold i).handle) :=
      Fin.ext_iff
    rw [if_congr hiff rfl rfl]
  · rcases Multiset.mem_cons.mp hs with rfl | hs
    · exact ⟨b, i, rfl, rfl, hpin⟩
    · exact ha.good s (Multiset.mem_cons_of_mem hs)
  · have hdeparting := ha.departing h
    rw [count_departing_pin] at hdeparting
    rw [count_departing_hold]
    exact hdeparting

/-- A buffer without references is given another block and gets its first one. -/
theorem assign (ha : Accounted ledger c stakes) (hzero : (c.header i).references = 0)
    {s : Buffers g} (hs : c.buffers.reassign i b = .ok s) :
    Accounted ledger (c.assign i s) (.hold ((c.assign i s).hold i).handle ::ₘ stakes) := by
  have hbare (j : g.Buffer) : ((c.assign i s).header j).bare =
      (if i = j then (c.header j).assign b else c.header j).bare := by
    rw [Cache.header_assign]
    exact Buffers.bare_reassign hs j
  have hfar {j : g.Buffer} (hj : i ≠ j) : ((c.assign i s).header j).bare = (c.header j).bare := by
    rw [hbare, if_neg hj]
  have hnear : ((c.assign i s).header i).bare = ((c.header i).assign b).bare := by
    rw [hbare, if_pos rfl]
  have hother {j : g.Buffer} (hj : (c.header j).references ≠ 0) : i ≠ j := by
    rintro rfl
    exact hj hzero
  have hnames {h : Handle} {b' : Block}
      (hr : ∀ j : g.Buffer, j.val = h.index → (c.header j).references ≠ 0)
      (hb : c.Names h b') : (c.assign i s).Names h b' := by
    obtain ⟨j, hj, hg, hc⟩ := hb
    have hf := hfar (hother (hr j hj))
    exact ⟨j, hj, (congrArg Header.generation hf).trans hg,
      (congrArg Header.content hf).trans hc⟩
  refine ⟨fun j => ?_, fun r hr => ?_, fun s' hs' => ?_, fun h => ?_⟩
  · rw [Multiset.countP_cons]
    by_cases hij : i = j
    · subst hij
      have hone : ((c.assign i s).header i).references = 1 :=
        (congrArg Header.references hnear :)
      have hcounted := ha.counted i
      rw [hzero] at hcounted
      rw [if_pos (show Stake.Counts i (.hold ((c.assign i s).hold i).handle) from rfl), hone]
      omega
    · have hsame : ((c.assign i s).header j).references = (c.header j).references :=
        (congrArg Header.references (hfar hij) :)
      have hnot : ¬ Stake.Counts j (.hold ((c.assign i s).hold i).handle) :=
        fun h => hij (Fin.ext h)
      rw [if_neg hnot, hsame]
      exact ha.counted j
  · exact hnames (fun j hj => ha.references_of_owned hr hj) (ha.owned r hr)
  · rcases Multiset.mem_cons.mp hs' with rfl | hs'
    · exact ⟨b, i, rfl, rfl, (congrArg Header.content hnear :)⟩
    · have hgood := ha.good s' hs'
      cases s' with
      | hold h =>
        obtain ⟨b', hb'⟩ := hgood
        exact ⟨b', hnames (fun j hj => ha.references_of_counts hs' (hj.symm :)) hb'⟩
      | departing h => trivial
      | pin b' j =>
        have hj := hother (ha.references_of_counts hs' (show Stake.Counts j (.pin b' j) from rfl))
        exact (congrArg Header.content (hfar hj)).trans hgood
  · rw [count_departing_hold]
    exact ha.departing h

/-- A reference is handed to a client. -/
theorem own (ha : Accounted ledger c (.hold h ::ₘ stakes)) (hi : i.val = h.index) :
    Accounted (⟨h, c.blockOf i⟩ :: ledger) c stakes := by
  obtain ⟨b, hb⟩ := ha.good _ (Multiset.mem_cons_self _ _)
  refine ⟨fun j => ?_, fun r hr => ?_, fun s hs => ha.good s (Multiset.mem_cons_of_mem hs),
    fun h' => ?_⟩
  · rw [ha.counted j, Multiset.countP_cons, List.countP_cons]
    simp only [Stake.Counts, decide_eq_true_eq]
    omega
  · rcases List.mem_cons.mp hr with rfl | hr
    · have hblock : c.blockOf i = b := by
        obtain ⟨j, hj, -, hc⟩ := hb
        obtain rfl : i = j := Fin.ext (hi.trans hj.symm)
        exact Cache.blockOf_eq hc
      rw [hblock]
      exact hb
    · exact ha.owned r hr
  · have hdeparting := ha.departing h'
    rw [count_departing_hold] at hdeparting
    rw [List.countP_cons]
    omega

/-! ## Giving references back -/

/-- A client begins to give a reference back. -/
theorem depart (ha : Accounted ledger c stakes)
    (hlt : stakes.count (.departing h) < ledger.countP fun r => r.handle = h) :
    Accounted ledger c (.departing h ::ₘ stakes) := by
  refine ⟨fun j => ?_, ha.owned, fun s hs => ?_, fun h' => ?_⟩
  · rw [ha.counted j, Multiset.countP_cons_of_neg _ (fun h => h)]
  · rcases Multiset.mem_cons.mp hs with rfl | hs
    · trivial
    · exact ha.good s hs
  · by_cases hh : h' = h
    · subst hh
      rw [Multiset.count_cons_self]
      exact hlt
    · rw [Multiset.count_cons_of_ne fun he => hh (by cases he; rfl)]
      exact ha.departing h'

/-- A reference is handed to a client, who gives it back at once. -/
theorem pass (ha : Accounted ledger c (.hold h ::ₘ stakes)) (hi : i.val = h.index) :
    Accounted (⟨h, c.blockOf i⟩ :: ledger) c (.departing h ::ₘ stakes) := by
  have hdeparting := ha.departing h
  rw [count_departing_hold] at hdeparting
  refine (ha.own hi).depart ?_
  rw [List.countP_cons_of_pos (by simp)]
  omega

theorem header_unrefer_same (c : Cache g) (i j : g.Buffer) :
    ((c.unrefer i).header j).content = (c.header j).content ∧
      ((c.unrefer i).header j).generation = (c.header j).generation := by
  rw [Cache.header_unrefer]
  split <;> exact ⟨rfl, rfl⟩

theorem names_unrefer (hb : c.Names h b) (i : g.Buffer) : (c.unrefer i).Names h b := by
  obtain ⟨j, hj, hg, hc⟩ := hb
  exact ⟨j, hj, (header_unrefer_same c i j).2.trans hg, (header_unrefer_same c i j).1.trans hc⟩

theorem good_unrefer {s : Stake g} (hs : s.Good c) (i : g.Buffer) : s.Good (c.unrefer i) := by
  cases s with
  | hold h =>
    obtain ⟨b, hb⟩ := hs
    exact ⟨b, names_unrefer hb i⟩
  | departing h => trivial
  | pin b j => exact (header_unrefer_same c i j).1.trans hs

/-- A call gives a reference of its own back. -/
theorem drop (ha : Accounted ledger c (.hold h ::ₘ stakes)) (hi : i.val = h.index) :
    Accounted ledger (c.unrefer i) stakes := by
  refine ⟨fun j => ?_, fun r hr => names_unrefer (ha.owned r hr) i,
    fun s hs => good_unrefer (ha.good s (Multiset.mem_cons_of_mem hs)) i, fun h' => ?_⟩
  · have hcounted := ha.counted j
    rw [Multiset.countP_cons] at hcounted
    rw [Cache.header_unrefer]
    by_cases hij : i = j
    · have hcounts : Stake.Counts j (.hold h) := by
        rw [← hij]
        exact hi.symm
      rw [if_pos hcounts] at hcounted
      rw [if_pos hij]
      dsimp only
      omega
    · have hcounts : ¬ Stake.Counts j (.hold h) := fun he => hij (Fin.ext (hi.trans he))
      rw [if_neg hcounts] at hcounted
      rw [if_neg hij]
      exact hcounted
  · have hdeparting := ha.departing h'
    rwa [count_departing_hold] at hdeparting

theorem countP_eraseP_index {r : Reference} (hr : r ∈ ledger) (hh : r.handle = h) (j : g.Buffer) :
    (ledger.eraseP fun r => r.handle = h).countP (fun r => r.handle.index = j.val) +
        (if h.index = j.val then 1 else 0) =
      ledger.countP fun r => r.handle.index = j.val := by
  induction ledger with
  | nil => cases hr
  | cons r' ledger ih =>
    by_cases hr' : r'.handle = h
    · rw [List.eraseP_cons_of_pos (by simpa using hr'), List.countP_cons]
      simp only [hr', decide_eq_true_eq]
    · rw [List.eraseP_cons_of_neg (by simpa using hr'), List.countP_cons, List.countP_cons]
      have hmem : r ∈ ledger := by
        rcases List.mem_cons.mp hr with rfl | hmem
        · exact absurd hh hr'
        · exact hmem
      have := ih hmem
      omega

theorem countP_eraseP_handle (h' : Handle) :
    (ledger.eraseP fun r => r.handle = h).countP (fun r => r.handle = h') =
      (ledger.countP fun r => r.handle = h') - if h' = h then 1 else 0 := by
  induction ledger with
  | nil => simp
  | cons r ledger ih =>
    by_cases hr : r.handle = h
    · rw [List.eraseP_cons_of_pos (by simpa using hr), List.countP_cons]
      simp only [hr, decide_eq_true_eq]
      by_cases hh : h' = h
      · simp [hh]
      · simp [hh, Ne.symm hh]
    · rw [List.eraseP_cons_of_neg (by simpa using hr), List.countP_cons, List.countP_cons, ih]
      by_cases hh : h' = h
      · subst hh
        simp [hr]
      · simp [hh]

/-- A client's reference is gone: its release is complete. -/
theorem leave (ha : Accounted ledger c (.departing h ::ₘ stakes)) (hi : i.val = h.index) :
    Accounted (ledger.eraseP fun r => r.handle = h) (c.unrefer i) stakes := by
  obtain ⟨r, hr, hh⟩ := ha.exists_owned_of_departing (Multiset.mem_cons_self _ _)
  refine ⟨fun j => ?_, fun r' hr' => names_unrefer (ha.owned r' (List.mem_of_mem_eraseP hr')) i,
    fun s hs => good_unrefer (ha.good s (Multiset.mem_cons_of_mem hs)) i, fun h' => ?_⟩
  · have hcounted := ha.counted j
    rw [Multiset.countP_cons_of_neg _ (fun h => h)] at hcounted
    have herase := countP_eraseP_index hr hh j
    rw [Cache.header_unrefer]
    by_cases hij : i = j
    · rw [if_pos (hi.symm.trans (congrArg Fin.val hij))] at herase
      rw [if_pos hij]
      dsimp only
      omega
    · rw [if_neg fun he => hij (Fin.ext (hi.trans he))] at herase
      rw [if_neg hij]
      omega
  · have hdeparting := ha.departing h'
    rw [countP_eraseP_handle]
    by_cases hh' : h' = h
    · subst hh'
      rw [Multiset.count_cons_self] at hdeparting
      rw [if_pos rfl]
      omega
    · rw [Multiset.count_cons_of_ne fun he => hh' (by cases he; rfl)] at hdeparting
      rw [if_neg hh']
      omega

end Accounted
end BufferCache
