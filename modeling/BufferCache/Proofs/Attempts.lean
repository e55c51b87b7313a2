import BufferCache.Proofs.Transfers

/-!
# Getting and giving back buffers, left alone

A call that gets a buffer begins anew wherever it finds that something changed while it
waited.  Left alone it waits for nobody, so nothing changes but by its own doing: the buffer
that was looked up still holds the block, and a victim that was flushed is clean, has no
references, and the block is still not in the cache.  So the call does not begin anew.

`World.Gets` says what comes of it: one more reference to a buffer that holds the block, while
buffers with references keep their blocks.
-/

namespace BufferCache

variable {g : Geometry}

/-! ## References come and go -/

section References

variable {w w' : World g}

/-- Only references changed, at most. -/
theorem World.Idle.of_references (h : w.Idle)
    (hheader : ∀ j, ∃ r, w'.cache.header j = { w.cache.header j with references := r })
    (hbuckets : w'.cache.buffers.buckets = w.cache.buffers.buckets)
    (hhead : w'.cache.buffers.ringHead = w.cache.buffers.ringHead)
    (hrequests : w'.cache.requests = w.cache.requests)
    (hdrivers : w'.cache.drivers = w.cache.drivers) (hflushes : w'.flushes = w.flushes) :
    w'.Idle := by
  have hfield {α : Type} (f : Header g.buffers → α)
      (hf : ∀ x r, f { x with references := r } = f x) (j : g.Buffer) :
      f (w'.cache.header j) = f (w.cache.header j) := by
    obtain ⟨r, hr⟩ := hheader j
    rw [hr, hf]
  have hdevice := hfield Header.device fun _ _ => rfl
  refine ⟨h.disks.congr hdrivers, ?_, hrequests ▸ h.requests, fun i => ?_, fun i hi => ?_, ?_, ?_⟩
  · rw [World.Silent, hflushes]
    exact h.silent
  · rw [hfield Header.locked fun _ _ => rfl]
    exact h.unlocked i
  · rw [hfield Header.dirty fun _ _ => rfl] at hi
    rw [hdevice, Cache.driver?_congr hdrivers]
    exact h.backed i hi
  · refine h.chained.congr (fun j _ => ?_) (fun j _ => ?_) (fun j _ => ?_) fun k => ?_
    · exact hfield Header.content (fun _ _ => rfl) j
    · exact hfield Header.chainPrev (fun _ _ => rfl) j
    · exact hfield Header.chainNext (fun _ _ => rfl) j
    · rw [Buffers.first, Buffers.first, hbuckets]
  · obtain ⟨order, horder, hall⟩ := h.ringed
    refine ⟨order, horder.congr (fun j => ?_) (fun j => ?_) hhead, hall⟩
    · exact hfield Header.ringPrev (fun _ _ => rfl) j
    · exact hfield Header.ringNext (fun _ _ => rfl) j

theorem World.Idle.refer (h : w.Idle) (i : g.Buffer) : (w.mapCache (·.refer i)).Idle := by
  refine h.of_references (fun j => ?_) rfl rfl rfl rfl rfl
  change ∃ r, (w.cache.refer i).header j = _
  rw [Cache.header_refer]
  split
  · exact ⟨_, rfl⟩
  · exact ⟨_, rfl⟩

theorem World.Idle.unrefer (h : w.Idle) (i : g.Buffer) : (w.mapCache (·.unrefer i)).Idle := by
  refine h.of_references (fun j => ?_) rfl rfl rfl rfl rfl
  change ∃ r, (w.cache.unrefer i).header j = _
  rw [Cache.header_unrefer]
  split
  · exact ⟨_, rfl⟩
  · exact ⟨_, rfl⟩

end References

/-! ## Looking up -/

section LookingUp

variable {ok : Prop} {w : World g} {b : Block} {i : g.Buffer}

/-- What comes of a look-up: the buffer that holds the block gets a reference, if there is
one. -/
def World.Finds (b : Block) (w w' : World g) : Option (Hold g) → Prop
  | none => w' = w ∧ w.cache.buffers.locate b = none
  | some h => ∃ i, w.cache.buffers.locate b = some i ∧ w' = w.mapCache (·.refer i) ∧
      h = w.cache.hold i

theorem Buffers.holds_of_locate {s : Buffers g} (h : s.locate b = some i) :
    (s.header i).holds b = true := by
  have hholds := List.find?_some h
  exact hholds

/-- A buffer that was found still holds the block when it has got its reference. -/
theorem World.pinned_eq (hi : w.cache.buffers.locate b = some i) :
    (w.mapCache (·.refer i)).pinned b i =
      (w.mapCache (·.refer i)).done (s := .found) (some (w.cache.hold i)) := by
  have hheader : (w.mapCache (·.refer i)).cache.header i =
      { w.cache.header i with references := (w.cache.header i).references + 1 } :=
    (Cache.header_refer w.cache i i).trans (if_pos rfl)
  have hholds : ((w.mapCache (·.refer i)).cache.header i).holds b = true := by
    rw [hheader]
    exact Buffers.holds_of_locate hi
  have hhold : (w.mapCache (·.refer i)).cache.hold i = w.cache.hold i := by
    rw [Cache.hold, hheader]
    rfl
  rw [World.pinned, if_pos hholds, hhold]

theorem Call.completes_lookUp (hok : ok → w.Idle) :
    (Call.lookUp b).Completes ok
      (fun w' (found : Shape.found.Value g) => w.Finds b w' found) w := by
  refine completes_of_begin rfl ?_
  change (w.lookUp b).Completes _ _ _
  unfold World.lookUp
  split
  · rename_i hnone
    exact Outcome.completes_done ⟨rfl, hnone⟩
  · rename_i i hi
    refine Outcome.completes_call (completes_awaitUnlock fun h => ((hok h).refer i).unlocked i)
      fun w' _ h => ?_
    rw [h.1]
    change ((w.mapCache (·.refer i)).pinned b i).Completes _ _ _
    rw [World.pinned_eq hi]
    exact Outcome.completes_done ⟨i, hi, rfl, rfl⟩

end LookingUp

/-! ## Getting a buffer -/

section Getting

variable {ok : Prop} {w w' : World g} {b : Block} {i : g.Buffer} {h : Hold g}

/-- A buffer for the block was got: it has one more reference, and buffers with references
keep their blocks. -/
structure World.Gets (b : Block) (w w' : World g) (h : Hold g) : Prop where
  /-- The reference is to the buffer as it is now. -/
  hold : h = w'.cache.hold h.buffer
  /-- The buffer holds the block. -/
  content : (w'.cache.header h.buffer).content = some b
  /-- It has one more reference. -/
  references : ∀ j, (w'.cache.header j).references =
    (w.cache.header j).references + if h.buffer = j then 1 else 0
  /-- Buffers with references keep their blocks. -/
  keeps : ∀ j, (w.cache.header j).references ≠ 0 →
    (w'.cache.header j).content = (w.cache.header j).content ∧
      (w'.cache.header j).generation = (w.cache.header j).generation
  /-- The same drivers are there. -/
  drives : ∀ m, (w'.cache.driver? m).isSome = (w.cache.driver? m).isSome
  /-- Nothing is left under way. -/
  idle : b.device ≠ 0 → w.Idle → w'.Idle

theorem World.Transfers.gets {w₀ : World g} (h₀ : w₀.Transfers w) (h' : w.Gets b w' h) :
    w₀.Gets b w' h where
  hold := h'.hold
  content := h'.content
  references j := by rw [h'.references, h₀.cache.references]
  keeps j hj := by
    rw [← h₀.cache.references] at hj
    rw [(h'.keeps j hj).1, (h'.keeps j hj).2, h₀.cache.content, h₀.cache.generation]
    exact ⟨rfl, rfl⟩
  drives m := (h'.drives m).trans (h₀.cache.drives m)
  idle hb h := h'.idle hb (h₀.idle h)

theorem World.Gets.transfers {w'' : World g} (h₀ : w.Gets b w' h) (h' : w'.Transfers w'') :
    w.Gets b w'' h where
  hold := h₀.hold.trans (h'.cache.hold h.buffer).symm
  content := (h'.cache.content _).trans h₀.content
  references j := (h'.cache.references j).trans (h₀.references j)
  keeps j hj := ⟨(h'.cache.content j).trans (h₀.keeps j hj).1,
    (h'.cache.generation j).trans (h₀.keeps j hj).2⟩
  drives m := (h'.cache.drives m).trans (h₀.drives m)
  idle hb hw := h'.idle (h₀.idle hb hw)

/-- The block was found. -/
theorem World.Finds.gets (hfound : w.Finds b w' (some h)) : w.Gets b w' h := by
  obtain ⟨i, hi, rfl, rfl⟩ := hfound
  have hheader (j : g.Buffer) : (w.mapCache (·.refer i)).cache.header j =
      if i = j then { w.cache.header j with references := (w.cache.header j).references + 1 }
      else w.cache.header j := Cache.header_refer w.cache i j
  have hcontent : (w.cache.header i).content = some b :=
    beq_iff_eq.mp (Buffers.holds_of_locate hi)
  refine ⟨?_, ?_, fun j => ?_, fun j _ => ?_, fun m => rfl, fun _ hw => hw.refer i⟩
  · rw [Cache.hold, Cache.hold]
    dsimp only
    rw [hheader, if_pos rfl]
  · change (((w.mapCache (·.refer i)).cache.header i).content) = _
    rw [hheader, if_pos rfl]
    exact hcontent
  · rw [hheader]
    change _ = _ + if i = j then 1 else 0
    split <;> rfl
  · rw [hheader]
    split <;> exact ⟨rfl, rfl⟩

/-- A buffer without references is given the block. -/
theorem World.gets_of_reassign {s : Buffers g} (hreferences : (w.cache.header i).references = 0)
    (hnone : w.cache.buffers.locate b = none) (hs : w.cache.buffers.reassign i b = .ok s)
    (hcache : w'.cache = w.cache.assign i s) (hflushes : w'.flushes = w.flushes) :
    w.Gets b w' (w'.cache.hold i) := by
  have hfar {j : g.Buffer} (hj : (w.cache.header j).references ≠ 0) : i ≠ j := by
    rintro rfl
    exact hj hreferences
  have hparts : w'.cache.drivers = w.cache.drivers ∧ w'.cache.requests = w.cache.requests := by
    rw [hcache, Cache.assign]
    split <;> exact ⟨rfl, rfl⟩
  have hdevice (j : g.Buffer) : (w'.cache.header j).device =
      if i = j then b.device else (w.cache.header j).device :=
    Cache.field_of_assign hs hcache Header.device (fun _ => rfl) j
  refine ⟨rfl, ?_, fun j => ?_, fun j hj => ⟨?_, ?_⟩, fun m => ?_, fun hb hw => ?_⟩
  · exact (Cache.field_of_assign hs hcache Header.content (fun _ => rfl) i).trans (if_pos rfl)
  · rw [Cache.field_of_assign hs hcache Header.references fun _ => rfl]
    change _ = _ + if i = j then 1 else 0
    split
    · rename_i hij
      rw [← hij, hreferences]
      rfl
    · rfl
  · exact (Cache.field_of_assign hs hcache Header.content (fun _ => rfl) j).trans
      (if_neg (hfar hj))
  · exact (Cache.field_of_assign hs hcache Header.generation (fun _ => rfl) j).trans
      (if_neg (hfar hj))
  · rw [Cache.driver?_congr hparts.1]
  · obtain ⟨order, horder, hall⟩ := hw.ringed
    have hfree (j : g.Buffer) : (w.cache.header j).content ≠ some b :=
      hw.chained.locate_eq_none_iff.mp hnone j trivial
    have hbuffers : w'.cache.buffers = s := by
      rw [hcache, Cache.buffers_assign]
    refine ⟨hw.disks.congr hparts.1, ?_, hparts.2 ▸ hw.requests, fun j => ?_, fun j hj => ?_,
      ?_, ?_⟩
    · rw [World.Silent, hflushes]
      exact hw.silent
    · rw [Cache.field_of_assign hs hcache Header.locked fun _ => rfl]
      split
      · rfl
      · exact hw.unlocked j
    · rw [Cache.field_of_assign hs hcache Header.dirty fun _ => rfl] at hj
      split at hj
      · cases hj
      · rename_i hij
        rw [hdevice, if_neg hij, Cache.driver?_congr hparts.1]
        exact hw.backed j hj
    · rw [hbuffers]
      obtain ⟨s', hs', hchained⟩ := horder.exists_reassign (hall i) hw.chained hb hfree
      cases hs.symm.trans hs'
      exact hchained
    · rw [hbuffers]
      refine ⟨_, horder.reassign (hall i) hs, fun j => ?_⟩
      rw [List.mem_append, List.mem_singleton]
      by_cases hj : j = i
      · exact .inr hj
      · exact .inl ((List.mem_erase_of_ne hj).mpr (hall j))

end Getting

/-! ## Attempts -/

/-- The step begins an attempt to get a buffer. -/
def Next.attempts : {s : Shape} → Next g s → Bool
  | _, .call _ (.lookingUp _) => true
  | _, _ => false

/-- The step has the device of a victim flushed. -/
def Next.flushesVictim : {s : Shape} → Next g s → Bool
  | _, .call _ (.flushingVictim _ _) => true
  | _, _ => false

section Attempts

variable {ok : Prop} {w w' : World g} {b : Block} {i : g.Buffer} {P : Next g .hold → Prop}

/-- A buffer that is free is given the block. -/
theorem World.completes_replace (hreferences : (w.cache.header i).references = 0)
    (hnone : w.cache.buffers.locate b = none) (hok : ok → w.Idle ∧ b.device ≠ 0)
    (hP : ∀ h, P (.done h)) :
    (w.replace b i).Completes ok P fun w' (h : Shape.hold.Value g) => w.Gets b w' h := by
  refine Outcome.completes_orFault (fun s hs => .done (hP _) ?_) fun h => ?_
  · refine World.gets_of_reassign hreferences hnone hs ?_ ?_
    · rw [cache_reportMiss]
      rfl
    · unfold reportMiss
      split <;> rfl
  · obtain ⟨hw, hb⟩ := hok h
    obtain ⟨order, horder, hall⟩ := hw.ringed
    have hfree (j : g.Buffer) : (w.cache.header j).content ≠ some b :=
      hw.chained.locate_eq_none_iff.mp hnone j trivial
    obtain ⟨s, hs, -⟩ := horder.exists_reassign (hall i) hw.chained hb hfree
    exact ⟨s, hs⟩

/-- A victim that is clean and still free is given the block. -/
theorem World.completes_cleanVictim (hreferences : (w.cache.header i).references = 0)
    (hclean : (w.cache.header i).dirty = false)
    (hlocked : (w.cache.header i).locked = false) (hnone : w.cache.buffers.locate b = none)
    (hok : ok → w.Idle ∧ b.device ≠ 0) (hP : ∀ h, P (.done h)) :
    (w.victimReady b i).Completes ok P fun w' (h : Shape.hold.Value g) => w.Gets b w' h := by
  have hready : w.victimReady b i = w.replace b i := by
    simp [victimReady, hreferences, hclean, hlocked, hnone, Cache.contains]
  rw [hready]
  exact completes_replace hreferences hnone hok hP

/-- A victim is flushed if it is dirty, and then given the block. -/
theorem World.completes_victimReady (hreferences : (w.cache.header i).references = 0)
    (hlocked : (w.cache.header i).locked = false) (hnone : w.cache.buffers.locate b = none)
    (hok : ok → w.Idle ∧ b.device ≠ 0) (hP : ∀ n, n.attempts = false → P n) :
    (w.victimReady b i).Completes ok P fun w' (h : Shape.hold.Value g) => w.Gets b w' h := by
  by_cases hclean : (w.cache.header i).dirty = false
  · exact completes_cleanVictim hreferences hclean hlocked hnone hok fun h => hP _ rfl
  have hready : w.victimReady b i =
      (w.note (.dirtyVictim i.val (w.cache.header i).device)).call
        (.flush (.device (w.cache.header i).device)) (.flushingVictim b i) := by
    simp [victimReady, hreferences, hclean]
  have hnoted : w.Transfers (w.note (.dirtyVictim i.val (w.cache.header i).device)) :=
    World.transfers_of_eq rfl rfl
  rw [hready]
  refine .call (hP _ rfl) (Call.completes_flush fun h => hnoted.idle (hok h).1)
    fun flushed _ hflushed => ?_
  have htransfers := hnoted.trans hflushed.1
  have hdirty : (flushed.cache.header i).dirty = false :=
    hflushed.2 i (g.mem_allBuffers i) (beq_self_eq_true _)
  refine .call (hP _ rfl) (Call.completes_awaitUnlock fun h =>
    (htransfers.idle (hok h).1).unlocked i) fun w' _ h => ?_
  rw [h.1]
  refine (completes_cleanVictim ?_ hdirty h.2 ?_ (fun h => ⟨htransfers.idle (hok h).1, (hok h).2⟩)
    fun h => hP _ rfl).post fun _ _ h => htransfers.gets h
  · exact (htransfers.cache.references i).trans hreferences
  · exact (htransfers.cache.locate b).trans hnone

/-- The block is in the cache, or some buffer is free for it. -/
def World.Holds (w : World g) (b : Block) : Prop :=
  w.cache.contains b = true ∨ ∃ i, (w.cache.header i).references = 0

/-- Once the block was looked up, the attempt succeeds. -/
theorem World.completes_lookedUp {found : Option (Hold g)} (hfound : w.Finds b w' found)
    (hok : ok → w.Idle ∧ b.device ≠ 0 ∧ w.Holds b) (hP : ∀ n, n.attempts = false → P n) :
    (w'.lookedUp b found).Completes ok P fun w'' (h : Shape.hold.Value g) => w.Gets b w'' h := by
  match found with
  | some h =>
    have hgets := World.Finds.gets hfound
    exact .done (hP _ rfl) (hgets.transfers (World.transfers_of_silent rfl rfl rfl fun h => h))
  | none =>
    obtain ⟨rfl, hnone⟩ := hfound
    refine Outcome.completes_orFault (fun victim hvictim => ?_) fun h => ?_
    · cases victim with
      | none =>
        refine Call.completes_sleepIn (fun h => ?_) (hP _ rfl)
        obtain ⟨hw, -, hheld | ⟨i, hi⟩⟩ := hok h
        · simp [Cache.contains, hnone] at hheld
        · obtain ⟨order, horder, hall⟩ := hw.ringed
          exact (horder.victim_eq_none_iff hall).mp hvictim i hi
      | some i =>
        refine .call (hP _ rfl) (Call.completes_awaitUnlock fun h => (hok h).1.unlocked i)
          fun w'' _ h => ?_
        rw [h.1]
        exact completes_victimReady (Buffers.references_of_victim hvictim) h.2 hnone
          (fun h => ⟨(hok h).1, (hok h).2.1⟩) hP
    · obtain ⟨order, horder, hall⟩ := (hok h).1.ringed
      rw [Buffers.victim, horder.ring_eq]
      exact ⟨_, rfl⟩

/-- Getting a buffer takes one attempt. -/
theorem Call.completes_obtain (hok : ok → w.Idle ∧ b.device ≠ 0 ∧ w.Holds b) :
    (Call.obtain b).Completes ok (fun w' (h : Shape.hold.Value g) => w.Gets b w' h) w :=
  completes_of_begin rfl (Outcome.completes_call (completes_lookUp fun h => (hok h).1)
    fun _ _ h => World.completes_lookedUp h hok fun _ _ => trivial)

/-- What it takes to get a buffer: the world is idle, the block is on a device, and it is in
the cache or some buffer is free for it. -/
theorem Call.completes_acquire (hok : ok → w.Idle ∧ b.device ≠ 0 ∧ w.Holds b) :
    (Call.acquire b).Completes ok (fun w' (h : Shape.hold.Value g) => w.Gets b w' h) w := by
  refine completes_of_begin rfl ?_
  change (w.acquire b).Completes _ _ _
  rw [World.acquire]
  split
  · rename_i hdevice
    exact Outcome.completes_fault fun h => (hok h).2.1 hdevice
  · have hticked : w.Transfers (w.mapCache (·.tick .access)) :=
      World.transfers_of_silent rfl rfl rfl fun h => h
    exact Outcome.completes_goto ((completes_obtain fun h =>
      ⟨hticked.idle (hok h).1, (hok h).2⟩).post fun _ _ h => hticked.gets h)

/-- A victim that was found dirty is flushed no second time: when the flush is over, it is
given the block, or the block has come into the cache. -/
theorem World.completes_flushedVictim (hreferences : (w.cache.header i).references = 0)
    (hclean : (w.cache.header i).dirty = false) (hP : ∀ n, n.flushesVictim = false → P n) :
    (w.call (.awaitUnlock i) (.awaitingVictim b i)).Completes False P fun _ _ => True := by
  refine .call (hP _ rfl) (Call.completes_awaitUnlock False.elim) fun w' _ h => ?_
  rw [h.1]
  change (w.victimReady b i).Completes _ _ _
  cases hlocate : w.cache.buffers.locate b with
  | none =>
    exact (completes_cleanVictim hreferences hclean h.2 hlocate False.elim
      fun h => hP _ rfl).post fun _ _ _ => trivial
  | some j =>
    have hready : w.victimReady b i = w.goto (.obtain b) := by
      simp [victimReady, hreferences, hclean, hlocate, Cache.contains]
    rw [hready]
    refine .goto (hP _ rfl) (.call (hP _ rfl) (Call.completes_lookUp False.elim)
      fun w'' found hfound => ?_)
    change (w''.lookedUp b found).Completes _ _ _
    cases found with
    | none =>
      obtain ⟨-, hnone⟩ := hfound
      cases hnone.symm.trans hlocate
    | some h => exact .done (hP _ rfl) trivial

end Attempts

/-! ## Giving back -/

section GivingBack

variable {ok : Prop} {w : World g} {h : Handle}

/-- What it takes to give a reference back: the world is idle and the handle is good. -/
theorem Call.completes_release (hok : ok → w.Idle ∧ ∃ i, w.cache.resolve h = .ok i) :
    (Call.release h).Completes ok (fun w' _ =>
      ∃ i, w.cache.resolveRelease h = .ok i ∧ w' = w.mapCache (·.unrefer i)) w := by
  refine completes_of_begin rfl (Outcome.completes_orFault (fun i hi => ?_) fun hh => ?_)
  · refine Outcome.completes_call (completes_awaitUnlock fun hh => (hok hh).1.unlocked i)
      fun w' _ h' => ?_
    rw [h'.1]
    change (w.released i).Completes _ _ _
    rw [World.released]
    split
    · rename_i hreferences
      refine Outcome.completes_fault fun hh => ?_
      obtain ⟨-, j, hj⟩ := hok hh
      cases hi.symm.trans (World.resolveRelease_of_resolve hj)
      exact Cache.references_of_resolve hj hreferences
    · exact Outcome.completes_done ⟨i, hi, rfl⟩
  · obtain ⟨-, i, hi⟩ := hok hh
    exact ⟨i, World.resolveRelease_of_resolve hi⟩

end GivingBack

end BufferCache
