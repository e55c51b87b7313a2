import BufferCache.Proofs.Attempts

/-!
# Reading, left alone

A read gets the buffer of its block, has the transfer carried out, and gives the buffer back
if the bytes did not come.  A page read gets the buffers of all its blocks before it gives the
first of them back.

Whether there are buffers enough for a page is told by two sets: the blocks still to be got
that are in no buffer with references, and the buffers without references.  Getting a block
takes one from the second only if it takes one from the first as well.
-/

namespace BufferCache

variable {g : Geometry}

/-! ## References that are held -/

section Held

variable {w w' : World g} {b : Block} {h : Hold g}

/-- A header can be seen through a good handle. -/
theorem Cache.exists_view {c : Cache g} {h : Handle} {i : g.Buffer} (hi : c.resolve h = .ok i) :
    ∃ v, c.view h = .ok v := by
  rw [view, hi]
  exact ⟨_, rfl⟩

theorem Cache.Transfers.resolve {c c' : Cache g} (hc : c.Transfers c') (h : Handle) :
    c'.resolve h = c.resolve h :=
  resolve_congr hc.generation hc.references h

/-- The handle of a buffer that was got is good. -/
theorem World.Gets.resolve (hw : w.Gets b w' h) :
    w'.cache.resolve h.handle = .ok h.buffer := by
  have hreferences : (w'.cache.header h.buffer).references ≠ 0 := by
    rw [hw.references, if_pos rfl]
    exact Nat.succ_ne_zero _
  have hresolve := Cache.resolve_hold hreferences
  rwa [← hw.hold] at hresolve

theorem World.Gets.device (hw : w.Gets b w' h) :
    (w'.cache.header h.buffer).device = b.device := by
  rw [Header.device, hw.content]

/-- A device with a driver is a device. -/
theorem Cache.Disks.device_ne_zero {c : Cache g} (hc : c.Disks) {d : DeviceNumber}
    (hd : (c.driver? d.major).isSome = true) : d ≠ 0 := by
  obtain ⟨driver, hdriver⟩ := Option.isSome_iff_exists.mp hd
  rintro rfl
  exact (hc _ _ hdriver).1 rfl

end Held

/-! ## Single blocks -/

section Reading

variable {ok : Prop} {s : Shape} {Q : World g → s.Value g → Prop} {w : World g} {b : Block}
  {h : Hold g}

/-- Having the bytes of a buffer transferred unless they are there: what it takes is that the
world is idle, the handle is good, and its device has a driver. -/
theorem World.completes_bring {op : Operation} {there : Outcome g s} {f : Frame g .unit s}
    (hok : ok → w.Idle ∧ ∃ i, w.cache.resolve h.handle = .ok i ∧
      (w.cache.driver? (w.cache.header i).device.major).isSome = true)
    (hthere : there.Completes ok (fun _ => True) Q)
    (hf : ∀ w', w.Transfers w' → (f.resume () w').Completes ok (fun _ => True) Q) :
    (orFault (w.cache.view h.handle) fun v =>
      if v.valid then there else w.call (.issue op h.handle) f).Completes ok
        (fun _ => True) Q := by
  refine Outcome.completes_orFault (fun v hv => ?_) fun hh => ?_
  · split
    · exact hthere
    · exact Outcome.completes_call (Call.completes_issue hok) fun w' _ => hf w'
  · obtain ⟨-, i, hi, -⟩ := hok hh
    exact Cache.exists_view hi

theorem World.completes_settled (hok : ok → w.Idle ∧ ∃ i, w.cache.resolve h.handle = .ok i) :
    (w.settled h).Completes ok (fun _ => True) fun _ _ => True := by
  refine Outcome.completes_orFault (fun v hv => ?_) fun hh => ?_
  · split
    · exact Outcome.completes_done trivial
    · exact Outcome.completes_call (Call.completes_release hok) fun _ _ _ =>
        Outcome.completes_done trivial
  · obtain ⟨-, i, hi⟩ := hok hh
    exact Cache.exists_view hi

theorem Call.completes_settle (hok : ok → w.Idle ∧ ∃ i, w.cache.resolve h.handle = .ok i) :
    (Call.settle h).Completes ok (fun _ _ => True) w := by
  refine completes_of_begin rfl (Outcome.completes_call
    (completes_awaitUnlock fun hh => (hok hh).1.unlocked h.buffer) fun w' _ h' => ?_)
  rw [h'.1]
  exact World.completes_settled hok

theorem World.completes_fetched (hok : ok → w.Idle ∧ ∃ i, w.cache.resolve h.handle = .ok i ∧
      (w.cache.driver? (w.cache.header i).device.major).isSome = true) :
    (w.fetched h).Completes ok (fun _ => True) fun _ _ => True := by
  refine completes_bring hok (Outcome.completes_done trivial) fun w' h' => ?_
  refine Outcome.completes_goto (Call.completes_settle fun hh => ?_)
  obtain ⟨hw, i, hi, -⟩ := hok hh
  exact ⟨h'.idle hw, i, (h'.cache.resolve _).trans hi⟩

/-- What it takes to read a block: the world is idle, the block is in the cache or some buffer
is free for it, and its device has a driver. -/
theorem Call.completes_fetch (hok : ok → w.Idle ∧ w.Holds b ∧
      (w.cache.driver? b.device.major).isSome = true) :
    (Call.fetch b).Completes ok (fun _ _ => True) w := by
  have hdevice (hh : ok) : b.device ≠ 0 := (hok hh).1.disks.device_ne_zero (hok hh).2.2
  refine completes_of_begin rfl (Outcome.completes_call (completes_acquire fun hh =>
    ⟨(hok hh).1, hdevice hh, (hok hh).2.1⟩) fun w' h h' => World.completes_fetched fun hh => ?_)
  refine ⟨h'.idle (hdevice hh) (hok hh).1, h.buffer, h'.resolve, ?_⟩
  rw [h'.device, h'.drives]
  exact (hok hh).2.2

/-- Reading blocks ahead comes to an end with the list of them. -/
theorem Call.completes_readAhead {d : DeviceNumber} {ahead : List BlockNumber} :
    (Call.readAhead h d ahead).Completes False (fun _ _ => True) w := by
  induction ahead generalizing w with
  | nil => exact completes_of_begin rfl (Outcome.completes_goto (completes_settle False.elim))
  | cons n ahead ih =>
    have hletGo (w : World g) (t : Hold g) :
        (w.letGo h t d ahead).Completes False (fun _ => True) fun _ _ => True :=
      Outcome.completes_orFault (fun _ _ => Outcome.completes_goto ih) False.elim
    refine completes_of_begin rfl (Outcome.completes_call (completes_acquire False.elim)
      fun w' t _ => ?_)
    exact World.completes_bring False.elim (hletGo w' t) fun w'' _ => hletGo w'' t

theorem Call.completes_fetchAhead {ahead : List BlockNumber} :
    (Call.fetchAhead b ahead).Completes False (fun _ _ => True) w := by
  refine completes_of_begin rfl (Outcome.completes_call (completes_acquire False.elim)
    fun w' h _ => ?_)
  exact World.completes_bring False.elim (Outcome.completes_goto completes_readAhead)
    fun w'' _ => Outcome.completes_goto completes_readAhead

end Reading

/-! ## The references of a page read -/

/-- The buffers that a page read holds references to, one entry for each reference. -/
def Held.buffers (held : Held g) : List g.Buffer :=
  held.filterMap (·.map Hold.buffer)

@[simp] theorem Held.buffers_cons_some (h : Hold g) (held : Held g) :
    Held.buffers (some h :: held) = h.buffer :: Held.buffers held := rfl

theorem Held.buffers_append (held held' : Held g) :
    Held.buffers (held ++ held') = Held.buffers held ++ Held.buffers held' :=
  List.filterMap_append

/-- There is a reference for each that a page read holds, and its handle is good. -/
structure World.Keeps (held : Held g) (w : World g) : Prop where
  /-- The references are to the buffers as they are now. -/
  current : ∀ h, some h ∈ held → h = w.cache.hold h.buffer
  /-- There are as many of them, at least. -/
  counted : ∀ i, (Held.buffers held).count i ≤ (w.cache.header i).references

namespace World.Keeps

variable {w w' : World g} {held : Held g} {b : Block} {h : Hold g}

theorem nil (w : World g) : w.Keeps [] :=
  ⟨nofun, fun _ => Nat.zero_le _⟩

theorem transfers (hw : w.Keeps held) (h' : w.Transfers w') : w'.Keeps held where
  current h hh := (hw.current h hh).trans (h'.cache.hold h.buffer).symm
  counted i := (h'.cache.references i).symm ▸ hw.counted i

theorem hole (hw : w.Keeps held) : w.Keeps (held ++ [none]) where
  current h hh := by
    rcases List.mem_append.mp hh with hh | hh
    · exact hw.current h hh
    · cases List.mem_singleton.mp hh
  counted i := by
    rw [Held.buffers_append]
    exact (List.append_nil _).symm ▸ hw.counted i

/-- Getting a buffer adds the reference to it. -/
theorem gets (hw : w.Keeps held) (h' : w.Gets b w' h) : w'.Keeps (held ++ [some h]) where
  current t ht := by
    rcases List.mem_append.mp ht with ht | ht
    · have hmem : t.buffer ∈ Held.buffers held :=
        List.mem_filterMap.mpr ⟨_, ht, rfl⟩
      have hreferences : (w.cache.header t.buffer).references ≠ 0 :=
        Nat.ne_of_gt ((List.count_pos_iff.mpr hmem).trans_le (hw.counted t.buffer))
      have hhold : w'.cache.hold t.buffer = w.cache.hold t.buffer := by
        rw [Cache.hold, Cache.hold, (h'.keeps _ hreferences).2]
      exact (hw.current t ht).trans hhold.symm
    · obtain rfl : t = h := Option.some.inj (List.mem_singleton.mp ht)
      exact h'.hold
  counted i := by
    have hbuffers : Held.buffers (held ++ [some h]) = Held.buffers held ++ [h.buffer] :=
      Held.buffers_append held [some h]
    rw [hbuffers, List.count_append, List.count_singleton, h'.references]
    have hcounted := hw.counted i
    by_cases hi : h.buffer = i
    · simp [hi, hcounted]
    · simp [hi, hcounted]

/-- The handle of the first reference is good. -/
theorem resolve (hw : w.Keeps (some h :: held)) :
    w.cache.resolve h.handle = .ok h.buffer := by
  have hreferences : (w.cache.header h.buffer).references ≠ 0 := by
    have hcounted := hw.counted h.buffer
    rw [Held.buffers_cons_some, List.count_cons_self] at hcounted
    omega
  have hresolve := Cache.resolve_hold hreferences
  rwa [← hw.current h List.mem_cons_self] at hresolve

theorem tail {o : Option (Hold g)} (hw : w.Keeps (o :: held)) : w.Keeps held where
  current h hh := hw.current h (List.mem_cons_of_mem _ hh)
  counted i := by
    refine Nat.le_trans (List.Sublist.count_le i ?_) (hw.counted i)
    exact (List.sublist_cons_self o held).filterMap _

/-- The first reference is given back. -/
theorem unrefer (hw : w.Keeps (some h :: held)) :
    (w.mapCache (·.unrefer h.buffer)).Keeps held where
  current t ht := by
    have hhold : (w.cache.unrefer h.buffer).hold t.buffer = w.cache.hold t.buffer := by
      rw [Cache.hold, Cache.hold, Cache.header_unrefer]
      split <;> rfl
    exact (hw.current t (List.mem_cons_of_mem _ ht)).trans hhold.symm
  counted i := by
    have hcounted := hw.counted i
    rw [Held.buffers_cons_some, List.count_cons] at hcounted
    change _ ≤ ((w.cache.unrefer h.buffer).header i).references
    rw [Cache.header_unrefer]
    split
    · rename_i hi
      simp only [hi, beq_self_eq_true, if_true] at hcounted ⊢
      omega
    · omega

end World.Keeps

section Collecting

variable {ok : Prop} {w : World g} {held : Held g} {chunks : List Page} {failed : Bool}
  {page : List UInt8} {h : Hold g}

/-- A page read gives the references that it holds back one after the other. -/
theorem Call.completes_collect (hok : ok → w.Idle ∧ w.Keeps held) :
    (Call.collect held chunks failed page).Completes ok (fun _ _ => True) w := by
  induction held generalizing w chunks failed with
  | nil => exact completes_of_begin rfl (Outcome.completes_done trivial)
  | cons o held ih =>
    match o with
    | none =>
      exact completes_of_begin rfl (Outcome.completes_goto
        (ih fun hh => ⟨(hok hh).1, (hok hh).2.tail⟩))
    | some h =>
      have hgood (hh : ok) : ∃ i, w.cache.resolve h.handle = .ok i :=
        ⟨_, (hok hh).2.resolve⟩
      -- Whatever was copied, the reference is given back.
      have hback (chunks : List Page) (failed : Bool) : Outcome.Completes ok (fun _ => True)
          (fun _ _ => True)
          (w.call (.release h.handle) (.collected held chunks failed page)) := by
        refine Outcome.completes_call (completes_release fun hh => ⟨(hok hh).1, hgood hh⟩)
          fun w' _ ⟨i, hi, hw'⟩ => Outcome.completes_goto (ih fun hh => ?_)
        obtain ⟨hw, hkeeps⟩ := hok hh
        cases hi.symm.trans (World.resolveRelease_of_resolve hkeeps.resolve)
        exact hw' ▸ ⟨hw.unrefer _, hkeeps.unrefer⟩
      refine completes_of_begin rfl (Outcome.completes_call
        (completes_awaitUnlock fun hh => (hok hh).1.unlocked h.buffer) fun w' _ h' => ?_)
      rw [h'.1]
      refine Outcome.completes_orFault (fun v hv => ?_) fun hh => ?_
      · split
        · exact hback _ _
        · exact hback _ _
      · exact Cache.exists_view (hok hh).2.resolve

end Collecting

/-! ## Buffers enough for a page -/

/-- The buffers without references. -/
def Cache.spare (c : Cache g) : Finset g.Buffer :=
  Finset.univ.filter fun i => (c.header i).references = 0

/-- The blocks among those of a page that are in no buffer with references; holes are no
blocks. -/
def Cache.lacking (c : Cache g) (d : DeviceNumber) (numbers : List BlockNumber) :
    Finset BlockNumber :=
  numbers.toFinset.filter fun n =>
    n ≠ 0 ∧ ∀ i, (c.header i).content = some ⟨d, n⟩ → (c.header i).references = 0

section Room

variable {c c' : Cache g} {d : DeviceNumber} {n : BlockNumber} {numbers : List BlockNumber}

theorem Cache.mem_spare {i : g.Buffer} : i ∈ c.spare ↔ (c.header i).references = 0 := by
  rw [spare, Finset.mem_filter, and_iff_right (Finset.mem_univ i)]

theorem Cache.mem_lacking : n ∈ c.lacking d numbers ↔ n ∈ numbers ∧ n ≠ 0 ∧
    ∀ i, (c.header i).content = some ⟨d, n⟩ → (c.header i).references = 0 := by
  rw [lacking, Finset.mem_filter, List.mem_toFinset]

theorem Cache.Transfers.spare (h : c.Transfers c') : c'.spare = c.spare :=
  Finset.filter_congr fun i _ => by rw [h.references]

theorem Cache.Transfers.lacking (h : c.Transfers c') :
    c'.lacking d numbers = c.lacking d numbers :=
  Finset.filter_congr fun n _ => by simp only [h.references, h.content]

/-- The distinct blocks of a page are counted. -/
theorem World.distinctCount_eq_card (numbers : List BlockNumber) :
    distinctCount numbers = (numbers.toFinset.filter (· ≠ 0)).card := by
  induction numbers with
  | nil => rfl
  | cons n numbers ih =>
    rw [List.toFinset_cons, Finset.filter_insert, distinctCount, ih]
    by_cases hn : n = 0
    · simp [hn]
    · by_cases hmem : n ∈ numbers
      · simp [hn, hmem, Finset.insert_eq_of_mem]
      · simp [hn, hmem, Finset.card_insert_of_notMem]

/-- At most the distinct blocks of a page are lacking. -/
theorem Cache.card_lacking_le (c : Cache g) (d : DeviceNumber) (numbers : List BlockNumber) :
    (c.lacking d numbers).card ≤ World.distinctCount numbers := by
  have hsub : c.lacking d numbers ⊆ numbers.toFinset.filter (· ≠ 0) := by
    intro n hn
    rw [mem_lacking] at hn
    rw [Finset.mem_filter, List.mem_toFinset]
    exact ⟨hn.1, hn.2.1⟩
  rw [World.distinctCount_eq_card]
  exact Finset.card_le_card hsub

/-- As long as not more blocks are lacking than buffers are spare, each of them is in the
cache or some buffer is free for it. -/
theorem World.holds_of_room {w : World g} (hw : w.Idle) (hn : n ∈ numbers) (hzero : n ≠ 0)
    (hroom : (w.cache.lacking d numbers).card ≤ w.cache.spare.card) : w.Holds ⟨d, n⟩ := by
  by_cases hlacking : n ∈ w.cache.lacking d numbers
  · obtain ⟨i, hi⟩ := Finset.card_pos.mp
      ((Finset.card_pos.mpr ⟨n, hlacking⟩).trans_le hroom)
    exact .inr ⟨i, Cache.mem_spare.mp hi⟩
  · simp only [Cache.mem_lacking, not_and, not_forall] at hlacking
    obtain ⟨i, hi, -⟩ := hlacking hn hzero
    refine .inl ?_
    rw [Cache.contains, (hw.chained.locate_eq_some_iff).mpr ⟨trivial, hi⟩]
    rfl

/-- Getting a block takes away a spare buffer only if the block was lacking. -/
theorem World.Gets.room {w w' : World g} {h : Hold g} (hw : w.Gets ⟨d, n⟩ w' h)
    (hchained : w'.cache.buffers.Chained fun _ => True) (hzero : n ≠ 0)
    (hroom : (w.cache.lacking d (n :: numbers)).card ≤ w.cache.spare.card) :
    (w'.cache.lacking d numbers).card ≤ w'.cache.spare.card := by
  -- What is lacking afterwards was lacking before, and is another block.
  have hlacking : w'.cache.lacking d numbers ⊆ (w.cache.lacking d (n :: numbers)).erase n := by
    intro k hk
    obtain ⟨hmem, hk0, hfree⟩ := Cache.mem_lacking.mp hk
    refine Finset.mem_erase.mpr ⟨?_, Cache.mem_lacking.mpr
      ⟨List.mem_cons_of_mem _ hmem, hk0, fun i hi => by_contra fun hi0 => ?_⟩⟩
    · rintro rfl
      exact Cache.references_of_resolve hw.resolve (hfree h.buffer hw.content)
    · have hreferences := hfree i ((hw.keeps i hi0).1.trans hi)
      rw [hw.references] at hreferences
      omega
  have hspare : w'.cache.spare = w.cache.spare.erase h.buffer := by
    ext i
    rw [Finset.mem_erase, Cache.mem_spare, Cache.mem_spare, hw.references]
    by_cases hi : h.buffer = i
    · simp [hi]
    · simp [hi, Ne.symm hi]
  rw [hspare]
  by_cases hfree : (w.cache.header h.buffer).references = 0
  · -- Had the block been in a buffer with references, that would hold it still.
    have hn : n ∈ w.cache.lacking d (n :: numbers) := by
      refine Cache.mem_lacking.mpr ⟨List.mem_cons_self, hzero, fun i hi => by_contra fun hi0 => ?_⟩
      have hsame := hchained.unique trivial trivial hw.content ((hw.keeps i hi0).1.trans hi)
      exact hi0 (hsame ▸ hfree)
    have hcard := Finset.card_le_card hlacking
    rw [Finset.card_erase_of_mem hn] at hcard
    rw [Finset.card_erase_of_mem (Cache.mem_spare.mpr hfree)]
    omega
  · rw [Finset.erase_eq_of_notMem (mt Cache.mem_spare.mp hfree)]
    exact (Finset.card_le_card (hlacking.trans (Finset.erase_subset _ _))).trans hroom

end Room

/-! ## Pages -/

/-- What it takes for a page read that holds some references to get the buffers of the other
blocks: the world is idle, the device has a driver, and not more blocks are lacking than
buffers are spare. -/
structure World.Gathers (d : DeviceNumber) (numbers : List BlockNumber) (held : Held g)
    (w : World g) : Prop where
  /-- Nothing is under way. -/
  idle : w.Idle
  /-- The device has a driver. -/
  driven : (w.cache.driver? d.major).isSome = true
  /-- The references are good. -/
  keeps : w.Keeps held
  /-- There are buffers enough. -/
  room : (w.cache.lacking d numbers).card ≤ w.cache.spare.card

namespace World.Gathers

variable {w w' : World g} {d : DeviceNumber} {n : BlockNumber} {numbers : List BlockNumber}
  {held : Held g} {h : Hold g}

theorem transfers (hw : w.Gathers d numbers held) (h' : w.Transfers w') :
    w'.Gathers d numbers held where
  idle := h'.idle hw.idle
  driven := (h'.cache.drives _).trans hw.driven
  keeps := hw.keeps.transfers h'
  room := by
    rw [h'.cache.lacking, h'.cache.spare]
    exact hw.room

theorem hole (hw : w.Gathers d (n :: numbers) held) :
    w.Gathers d numbers (held ++ [none]) where
  idle := hw.idle
  driven := hw.driven
  keeps := hw.keeps.hole
  room := by
    refine (Finset.card_le_card fun k hk => ?_).trans hw.room
    obtain ⟨hmem, hk⟩ := Cache.mem_lacking.mp hk
    exact Cache.mem_lacking.mpr ⟨List.mem_cons_of_mem _ hmem, hk⟩

theorem gets (hw : w.Gathers d (n :: numbers) held) (hn : n ≠ 0) (h' : w.Gets ⟨d, n⟩ w' h) :
    w'.Gathers d numbers (held ++ [some h]) := by
  have hidle := h'.idle (hw.idle.disks.device_ne_zero hw.driven) hw.idle
  exact ⟨hidle, (h'.drives _).trans hw.driven, hw.keeps.gets h',
    h'.room hidle.chained hn hw.room⟩

end World.Gathers

section Pages

variable {ok : Prop} {w : World g} {d : DeviceNumber} {numbers : List BlockNumber}
  {held : Held g} {page : List UInt8}

theorem Call.completes_gather (hok : ok → w.Gathers d numbers held) :
    (Call.gather d numbers held page).Completes ok (fun _ _ => True) w := by
  induction numbers generalizing w held with
  | nil =>
    exact completes_of_begin rfl (Outcome.completes_goto
      (completes_collect fun hh => ⟨(hok hh).idle, (hok hh).keeps⟩))
  | cons n numbers ih =>
    refine completes_of_begin rfl ?_
    change (w.gather d (n :: numbers) held page).Completes _ _ _
    rw [World.gather]
    split
    · exact Outcome.completes_goto (ih fun hh => (hok hh).hole)
    · rename_i hn
      refine Outcome.completes_call (completes_acquire fun hh => ⟨(hok hh).idle,
        (hok hh).idle.disks.device_ne_zero (hok hh).driven,
        World.holds_of_room (hok hh).idle List.mem_cons_self hn (hok hh).room⟩)
        fun w' h h' => ?_
      refine World.completes_bring (fun hh => ?_)
        (Outcome.completes_goto (ih fun hh => (hok hh).gets hn h')) fun w'' h'' =>
          Outcome.completes_goto (ih fun hh => ((hok hh).gets hn h').transfers h'')
      refine ⟨((hok hh).gets hn h').idle, h.buffer, h'.resolve, ?_⟩
      rw [h'.device]
      exact ((hok hh).gets hn h').driven

/-- What it takes to read a page: the world is idle, the device has a driver, and there are as
many spare buffers as distinct blocks in the page. -/
theorem Call.completes_fetchPage (hok : ok → w.Idle ∧
      (w.cache.driver? d.major).isSome = true ∧
      World.distinctCount numbers ≤ w.cache.spare.card) :
    (Call.fetchPage d numbers page).Completes ok (fun _ _ => True) w := by
  refine completes_of_begin rfl ?_
  change (w.fetchPage d numbers page).Completes _ _ _
  rw [World.fetchPage]
  split
  · exact Outcome.completes_done trivial
  split
  · exact Outcome.completes_done trivial
  · refine Outcome.completes_goto (completes_gather fun hh => ?_)
    obtain ⟨hw, hdriven, hroom⟩ := hok hh
    exact ⟨hw, hdriven, .nil w, (w.cache.card_lacking_le d numbers).trans hroom⟩

end Pages

end BufferCache
