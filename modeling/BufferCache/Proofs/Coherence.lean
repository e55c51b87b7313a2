import BufferCache.Proofs.Index
import BufferCache.Proofs.Storage

/-!
# The cache and the disks as one array of blocks

What a block contains is either in its buffer or on its disk, and which of the two
changes all the time.  `Coherent blocks changing leaving c` says that the cache `c` and
the disks behind it represent the array `blocks`:

* a valid buffer contains its block;
* a dirty buffer is valid;
* a block is stored on its disk unless a buffer is dirty with it.

There are two moments at which this fails for a single block: while a client is in the
middle of changing it, and while it is on its way to the disk, the flag having been
cleared when the request was queued.  `changing` and `leaving` name these blocks.

The lemmas below say what each of the effects does to such an array.  None of them
changes a block, except for a client's own write.
-/

namespace BufferCache

/-- The contents of all blocks. -/
abbrev Contents := Block → Page

/-- The contents after a block was written. -/
def Contents.put (blocks : Contents) (b : Block) (p : Page) : Contents :=
  fun b' => if b' = b then p else blocks b'

theorem Contents.put_self (blocks : Contents) (b : Block) (p : Page) :
    blocks.put b p b = p :=
  if_pos rfl

theorem Contents.put_of_ne (blocks : Contents) {b b' : Block} (p : Page) (h : b' ≠ b) :
    blocks.put b p b' = blocks b' :=
  if_neg h

variable {g : Geometry}

/-- The cache represents the array `blocks`, apart from the blocks `changing` and
`leaving`. -/
structure Coherent (blocks : Contents) (changing leaving : Option Block) (c : Cache g) :
    Prop where
  /-- A valid buffer contains its block. -/
  current : ∀ i b, (c.header i).content = some b → c.Serves b → changing ≠ some b →
    (c.header i).valid = true → c.page i = blocks b
  /-- A dirty buffer is valid. -/
  sound : ∀ i b, (c.header i).content = some b → c.Serves b → changing ≠ some b →
    (c.header i).dirty = true → (c.header i).valid = true
  /-- A block with which no buffer is dirty is stored on its disk. -/
  stored : ∀ b, c.Serves b → changing ≠ some b → leaving ≠ some b →
    (∀ i, (c.header i).content = some b → (c.header i).dirty = false) → c.stored b = blocks b

/-- Two caches with the same blocks, flags and bytes, over the same disks. -/
structure Cache.SameData (c c' : Cache g) : Prop where
  /-- The buffers hold the same blocks. -/
  content : ∀ i, (c'.header i).content = (c.header i).content
  /-- The same buffers are valid. -/
  valid : ∀ i, (c'.header i).valid = (c.header i).valid
  /-- The same buffers are dirty. -/
  dirty : ∀ i, (c'.header i).dirty = (c.header i).dirty
  /-- The bytes are the same. -/
  page : ∀ i, c'.page i = c.page i
  /-- The disks are the same. -/
  drivers : c'.drivers = c.drivers

/-- The cache `c'` is `c` after a driver carried out a request and ended it: the buffer is
valid if that succeeded, and the bytes are those that the driver left. -/
structure Cache.Served (c : Cache g) (m : Nat) (d : Driver) (q : Request g) (c' : Cache g) :
    Prop where
  /-- The buffers hold the same blocks. -/
  content : ∀ i, (c'.header i).content = (c.header i).content
  /-- The request decides whether its buffer is valid. -/
  valid : ∀ i, (c'.header i).valid =
    if q.buffer = i then (d.serve q.transfer (c.page q.buffer)).success
    else (c.header i).valid
  /-- The same buffers are dirty. -/
  dirty : ∀ i, (c'.header i).dirty = (c.header i).dirty
  /-- The bytes are those after the transfer. -/
  page : ∀ i, c'.page i = (c.carryOut m d q).page i
  /-- The disks are those after the transfer. -/
  drivers : c'.drivers = (c.carryOut m d q).drivers

/-- A transfer does not change which blocks a disk serves. -/
theorem Cache.Served.serves {c c' : Cache g} {m : Nat} {d : Driver} {q : Request g}
    (h : c.Served m d q c') (hc : c.Disks) (hd : c.driver? m = some d) (b : Block) :
    c'.Serves b ↔ c.Serves b :=
  (Cache.serves_congr h.drivers b).trans (Cache.serves_carryOut hc hd q b)

/-- What is on its way to a disk while a transfer of this direction is under way. -/
def Direction.leaving (dir : Direction) (b : Block) : Option Block :=
  match dir with
  | .read => none
  | .write => some b

namespace Coherent

variable {blocks : Contents} {changing leaving : Option Block} {c c' : Cache g} {b : Block}
  {i : g.Buffer}

theorem congr (h : Coherent blocks changing leaving c) (hc : c.SameData c') :
    Coherent blocks changing leaving c' where
  current j b hb hs hne hv := by
    rw [hc.content] at hb
    rw [hc.valid] at hv
    rw [Cache.serves_congr hc.drivers] at hs
    rw [hc.page]
    exact h.current j b hb hs hne hv
  sound j b hb hs hne hd := by
    rw [hc.content] at hb
    rw [hc.dirty] at hd
    rw [Cache.serves_congr hc.drivers] at hs
    rw [hc.valid]
    exact h.sound j b hb hs hne hd
  stored b hs hne hne' hd := by
    rw [Cache.serves_congr hc.drivers] at hs
    rw [Cache.stored_congr hc.drivers]
    refine h.stored b hs hne hne' fun j hj => ?_
    rw [← hc.dirty]
    rw [← hc.content] at hj
    exact hd j hj

/-! ## Transfers -/

/-- Queueing a request for a buffer that is not valid, or a write, clears the flag; a
write carries the block away. -/
theorem queue (h : Coherent blocks changing none c) {dir : Direction}
    (hi : (c.header i).content = some b) (hneed : dir = .read → (c.header i).valid = false)
    (hcontent : ∀ j, (c'.header j).content = (c.header j).content)
    (hvalid : ∀ j, (c'.header j).valid = (c.header j).valid)
    (hdirty : ∀ j, (c'.header j).dirty = if i = j then false else (c.header j).dirty)
    (hpage : ∀ j, c'.page j = c.page j) (hdrivers : c'.drivers = c.drivers) :
    Coherent blocks changing (dir.leaving b) c' where
  current j b' hb hs hne hv := by
    rw [hcontent] at hb
    rw [hvalid] at hv
    rw [Cache.serves_congr hdrivers] at hs
    rw [hpage]
    exact h.current j b' hb hs hne hv
  sound j b' hb hs hne hd := by
    rw [hcontent] at hb
    rw [Cache.serves_congr hdrivers] at hs
    rw [hdirty] at hd
    rw [hvalid]
    split at hd
    · cases hd
    · exact h.sound j b' hb hs hne hd
  stored b' hs hne hleaving hd := by
    rw [Cache.serves_congr hdrivers] at hs
    rw [Cache.stored_congr hdrivers]
    refine h.stored b' hs hne nofun fun j hj => ?_
    by_cases hij : i = j
    · subst hij
      obtain rfl : b = b' := Option.some.inj (hi.symm.trans hj)
      cases dir with
      | read =>
        have hinvalid := hneed rfl
        rw [← Bool.not_eq_true]
        intro hdirty
        rw [h.sound i b hi hs hne hdirty] at hinvalid
        cases hinvalid
      | write => exact absurd rfl hleaving
    · have hclean := hd j ((hcontent j).trans hj)
      rwa [hdirty, if_neg hij] at hclean

/-- The end of a transfer leaves the cache coherent if the block is then in the buffer, and
what was on its way to the disk is stored there. -/
theorem arrive {m : Nat} {d : Driver} {q : Request g} (h : Coherent blocks none leaving c)
    (hserved : c.Served m d q c') (hserves : ∀ b', c'.Serves b' ↔ c.Serves b')
    (hb : (c.header q.buffer).content = some b) (hclean : (c.header q.buffer).dirty = false)
    (hpage : c.Serves b → c'.page q.buffer = blocks b)
    (harrived : ∀ b', c.Serves b' → leaving = some b' → c'.stored b' = blocks b')
    (hstored : ∀ b', c.Serves b' → leaving ≠ some b' → c'.stored b' = c.stored b') :
    Coherent blocks none none c' where
  current j b' hb' hs _ hv := by
    rw [hserved.content] at hb'
    rw [hserves] at hs
    by_cases hj : q.buffer = j
    · subst hj
      obtain rfl : b = b' := Option.some.inj (hb.symm.trans hb')
      exact hpage hs
    · rw [hserved.valid, if_neg hj] at hv
      rw [hserved.page, Cache.page_carryOut, if_neg hj]
      exact h.current j b' hb' hs nofun hv
  sound j b' hb' hs _ hd := by
    rw [hserved.content] at hb'
    rw [hserved.dirty] at hd
    rw [hserves] at hs
    have hj : q.buffer ≠ j := by
      rintro rfl
      rw [hclean] at hd
      cases hd
    rw [hserved.valid, if_neg hj]
    exact h.sound j b' hb' hs nofun hd
  stored b' hs _ _ hd := by
    rw [hserves] at hs
    by_cases hleaving : leaving = some b'
    · exact harrived b' hs hleaving
    · rw [hstored b' hs hleaving]
      refine h.stored b' hs nofun hleaving fun j hj => ?_
      rw [← hserved.dirty]
      exact hd j ((hserved.content j).trans hj)

/-- The end of a transfer brings the block to the buffer, or to the disk. -/
theorem serve {dir : Direction} (h : Coherent blocks none (dir.leaving b) c) (hc : c.Disks)
    {d : Driver} (hd : c.driver? b.device.major = some d) {q : Request g}
    (hq : q.transfer = .ofBlock dir b) (hserved : c.Served b.device.major d q c')
    (hb : (c.header q.buffer).content = some b)
    (hunique : ∀ j, (c.header j).content = some b → j = q.buffer)
    (hclean : (c.header q.buffer).dirty = false)
    (hwrite : dir = .write → c.Serves b → c.page q.buffer = blocks b) :
    Coherent blocks none none c' := by
  have hserves := hserved.serves hc hd
  by_cases hs : c.Serves b
  · cases dir with
    | read =>
      obtain ⟨-, hpages, hdisk⟩ := Cache.carryOut_read hc hd hq hs rfl
      have hblock : c.stored b = blocks b := by
        refine h.stored b hs nofun nofun fun j hj => ?_
        rw [hunique j hj]
        exact hclean
      refine h.arrive hserved hserves hb hclean (fun _ => ?_) (fun _ _ => nofun) fun b' _ _ => ?_
      · rw [hserved.page, hpages, if_pos rfl, hblock]
      · rw [Cache.stored_congr hserved.drivers, hdisk]
    | write =>
      obtain ⟨-, hpages, hdisk⟩ := Cache.carryOut_write hc hd hq hs rfl
      refine h.arrive hserved hserves hb hclean (fun _ => ?_) (fun b' hs' he => ?_)
        fun b' hs' hne => ?_
      · rw [hserved.page, hpages]
        exact hwrite rfl hs
      · obtain rfl : b = b' := Option.some.inj he
        rw [Cache.stored_congr hserved.drivers, hdisk b hs', if_pos rfl]
        exact hwrite rfl hs
      · rw [Cache.stored_congr hserved.drivers, hdisk b' hs',
          if_neg fun he => hne (congrArg some he.symm)]
  · obtain ⟨-, -, hdisk⟩ := Cache.carryOut_refused hc hd hq hs
    refine h.arrive hserved hserves hb hclean (fun hs' => absurd hs' hs) (fun b' hs' he => ?_)
      fun b' _ _ => ?_
    · cases dir with
      | read => cases he
      | write =>
        obtain rfl : b = b' := Option.some.inj he
        exact absurd hs' hs
    · rw [Cache.stored_congr hserved.drivers, hdisk]

/-! ## Another block -/

/-- A clean buffer is given another block.  What its old block contains is on the disk. -/
theorem assign (h : Coherent blocks none none c) (hclean : (c.header i).dirty = false)
    (hcontent : ∀ j, (c'.header j).content = if i = j then some b else (c.header j).content)
    (hvalid : ∀ j, (c'.header j).valid = if i = j then false else (c.header j).valid)
    (hdirty : ∀ j, (c'.header j).dirty = if i = j then false else (c.header j).dirty)
    (hpage : ∀ j, c'.page j = c.page j) (hdrivers : c'.drivers = c.drivers) :
    Coherent blocks none none c' where
  current j b' hb hs hne hv := by
    rw [Cache.serves_congr hdrivers] at hs
    rw [hvalid] at hv
    rw [hcontent] at hb
    split at hv
    · cases hv
    · rename_i hj
      rw [if_neg hj] at hb
      rw [hpage]
      exact h.current j b' hb hs hne hv
  sound j b' hb hs hne hd := by
    rw [Cache.serves_congr hdrivers] at hs
    rw [hdirty] at hd
    rw [hcontent] at hb
    split at hd
    · cases hd
    · rename_i hj
      rw [if_neg hj] at hb
      rw [hvalid, if_neg hj]
      exact h.sound j b' hb hs hne hd
  stored b' hs hne hleaving hd := by
    rw [Cache.serves_congr hdrivers] at hs
    rw [Cache.stored_congr hdrivers]
    refine h.stored b' hs hne hleaving fun j hj => ?_
    by_cases hij : i = j
    · rw [← hij]
      exact hclean
    · have hclean' := hd j (by rw [hcontent, if_neg hij, hj])
      rwa [hdirty, if_neg hij] at hclean'

/-! ## The writes of clients -/

/-- A client that is changing block `b` may do anything to its buffer. -/
theorem change {blocks' : Contents} (h : Coherent blocks changing none c)
    (hchanging : changing = none ∨ changing = some b) (hi : (c.header i).content = some b)
    (hblocks : ∀ b', b' ≠ b → blocks' b' = blocks b')
    (hcontent : ∀ j, (c'.header j).content = (c.header j).content)
    (hvalid : ∀ j, i ≠ j → (c'.header j).valid = (c.header j).valid)
    (hdirty : ∀ j, i ≠ j → (c'.header j).dirty = (c.header j).dirty)
    (hpage : ∀ j, i ≠ j → c'.page j = c.page j) (hdrivers : c'.drivers = c.drivers) :
    Coherent blocks' (some b) none c' := by
  have hother {b' : Block} (hne : some b ≠ some b') : changing ≠ some b' := by
    rcases hchanging with rfl | rfl
    · exact (Option.some_ne_none b').symm
    · exact hne
  have hfar {j : g.Buffer} {b' : Block} (hb : (c.header j).content = some b')
      (hne : some b ≠ some b') : i ≠ j := by
    rintro rfl
    exact hne (hi.symm.trans hb)
  refine ⟨fun j b' hb hs hne hv => ?_, fun j b' hb hs hne hd => ?_, fun b' hs hne hleaving hd => ?_⟩
  · rw [hcontent] at hb
    rw [Cache.serves_congr hdrivers] at hs
    rw [hvalid j (hfar hb hne)] at hv
    rw [hpage j (hfar hb hne), hblocks b' fun heq => hne (congrArg some heq.symm)]
    exact h.current j b' hb hs (hother hne) hv
  · rw [hcontent] at hb
    rw [Cache.serves_congr hdrivers] at hs
    rw [hdirty j (hfar hb hne)] at hd
    rw [hvalid j (hfar hb hne)]
    exact h.sound j b' hb hs (hother hne) hd
  · rw [Cache.serves_congr hdrivers] at hs
    rw [Cache.stored_congr hdrivers, hblocks b' fun heq => hne (congrArg some heq.symm)]
    refine h.stored b' hs (hother hne) hleaving fun j hj => ?_
    rw [← hdirty j (hfar hj hne)]
    exact hd j ((hcontent j).trans hj)

/-- A change is over once the buffer of the block, which is the only one, contains it and
is marked as valid and as dirty. -/
theorem settle (h : Coherent blocks (some b) none c) (hi : (c.header i).content = some b)
    (hunique : ∀ j, (c.header j).content = some b → j = i)
    (hvalid : (c.header i).valid = true) (hdirty : (c.header i).dirty = true)
    (hpage : c.Serves b → c.page i = blocks b) : Coherent blocks none none c := by
  refine ⟨fun j b' hb hs _ hv => ?_, fun j b' hb hs _ hd => ?_, fun b' hs _ hleaving hd => ?_⟩
  · by_cases heq : b = b'
    · subst heq
      rw [hunique j hb]
      exact hpage hs
    · exact h.current j b' hb hs (fun he => heq (Option.some.inj he)) hv
  · by_cases heq : b = b'
    · subst heq
      rw [hunique j hb]
      exact hvalid
    · exact h.sound j b' hb hs (fun he => heq (Option.some.inj he)) hd
  · by_cases heq : b = b'
    · subst heq
      rw [hd i hi] at hdirty
      cases hdirty
    · exact h.stored b' hs (fun he => heq (Option.some.inj he)) hleaving hd

end Coherent
end BufferCache
