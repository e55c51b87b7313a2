import BufferCache.Proofs.Promises

/-!
# What clients do to blocks

A client edits a buffer: it writes bytes, and marks them as valid and as changed.  Each of
its changes goes through several edits, and between them the cache represents the array
apart from the one block.

The image follows the clients.  A write changes the block that the reference was entered
for in the ledger, and its new contents are computed from its old ones in the image: what
the cache contains does not come into it.  `Owns.fill`, `Owns.overwrite`, `Stands.validate`
and `Stands.conclude` are the edits of a client that owns a reference.
-/

namespace BufferCache

variable {g : Geometry}

/-- The image after a client changed the block behind one of its handles by `f`, and came
to some stage. -/
def Image.write (a : Image) (ledger : List Reference) (h : Handle) (f : Page → Page)
    (stage : Stage) : Image where
  blocks := match ledger.find? fun r => r.handle = h with
    | some r => a.blocks.put r.block (f (a.blocks r.block))
    | none => a.blocks
  stage := stage

/-! ## Edits -/

namespace Cache

variable {c : Cache g} {i : g.Buffer} {page : Option Page} {valid dirty : Bool}

theorem page_edit (c : Cache g) (i : g.Buffer) (page : Option Page) (valid dirty : Bool)
    (j : g.Buffer) :
    (c.edit i page valid dirty).page j = if i = j then page.getD (c.page j) else c.page j := by
  cases page with
  | none =>
    have h : (c.edit i none valid dirty).page j = c.page j := by
      cases valid <;> cases dirty <;> rfl
    rw [h]
    split <;> rfl
  | some p =>
    have h : (c.edit i (some p) valid dirty).page j = (c.setPage i p).page j := by
      cases valid <;> cases dirty <;> rfl
    rw [h, page_setPage]
    rfl

theorem drivers_edit (c : Cache g) (i : g.Buffer) (page : Option Page) (valid dirty : Bool) :
    (c.edit i page valid dirty).drivers = c.drivers := by
  cases page <;> cases valid <;> cases dirty <;> rfl

theorem requests_edit (c : Cache g) (i : g.Buffer) (page : Option Page) (valid dirty : Bool) :
    (c.edit i page valid dirty).requests = c.requests := by
  cases page <;> cases valid <;> cases dirty <;> rfl

theorem content_edit (c : Cache g) (i : g.Buffer) (page : Option Page) (valid dirty : Bool)
    (j : g.Buffer) :
    ((c.edit i page valid dirty).header j).content = (c.header j).content := by
  rw [header_edit]
  split <;> rfl

theorem resolve_edit (c : Cache g) (i : g.Buffer) (page : Option Page) (valid dirty : Bool)
    (h : Handle) : (c.edit i page valid dirty).resolve h = c.resolve h := by
  refine resolve_congr (fun j => ?_) (fun j => ?_) h
  · rw [header_edit]
    split <;> rfl
  · rw [header_edit]
    split <;> rfl

theorem later_edit (c : Cache g) (i : g.Buffer) (page : Option Page) (valid dirty : Bool) :
    c.Later (c.edit i page valid dirty) where
  serves := serves_congr (drivers_edit ..)
  drives m := by rw [driver?_congr (drivers_edit ..)]
  content j _ := content_edit ..
  valid j b _ _ _ hv := by
    rw [header_edit]
    split
    · rw [hv, Bool.or_true]
    · exact hv

/-- An edit leaves the cache calm. -/
theorem Stands.edit {a a' : Image} (h : c.Stands a)
    (hc : (c.edit i page valid dirty).Represents a'.blocks a'.stage) :
    (c.edit i page valid dirty).Stands a' where
  disks := h.disks.congr (drivers_edit ..)
  unlocked j := by
    rw [header_edit]
    split <;> exact h.unlocked j
  idle := (requests_edit c i page valid dirty).symm ▸ h.idle
  represents := hc

variable {blocks blocks' : Contents} {changing : Option Block} {b : Block} {h : Handle}

/-- A client edits the buffer of the block that it is changing. -/
theorem changes_edit (hc : Coherent blocks changing none c)
    (hchanging : changing = none ∨ changing = some b) (hresolve : c.resolve h = .ok i)
    (hcontent : (c.header i).content = some b)
    (hblocks : ∀ b', b' ≠ b → blocks' b' = blocks b') :
    (c.edit i page valid dirty).Changes blocks' h b i where
  resolve := (resolve_edit ..).trans hresolve
  content := (content_edit ..).trans hcontent
  coherent := by
    refine hc.change hchanging hcontent hblocks (fun j => content_edit ..) (fun j hj => ?_)
      (fun j hj => ?_) (fun j hj => ?_) (drivers_edit ..)
    · rw [header_edit, if_neg hj]
    · rw [header_edit, if_neg hj]
    · rw [page_edit, if_neg hj]

/-- A change is over. -/
theorem Changes.settle (hc : c.Changes blocks h b i) (hchained : c.buffers.Chained fun _ => True)
    (hvalid : (c.header i).valid = true) (hdirty : (c.header i).dirty = true)
    (hpage : c.Serves b → c.page i = blocks b) : Coherent blocks none none c :=
  hc.coherent.settle hc.content (fun _ hj => hchained.unique trivial trivial hj hc.content) hvalid
    hdirty hpage

theorem chained_edit (hchained : c.buffers.Chained fun _ => True) :
    (c.edit i page valid dirty).buffers.Chained fun _ => True :=
  Effect.chained (e := .edit i page valid dirty) hchained trivial nofun

theorem valid_edit_self :
    ((c.edit i page valid dirty).header i).valid = (valid || (c.header i).valid) := by
  rw [header_edit, if_pos rfl]

theorem dirty_edit_self :
    ((c.edit i page valid dirty).header i).dirty = (dirty || (c.header i).dirty) := by
  rw [header_edit, if_pos rfl]

theorem page_edit_self : (c.edit i page valid dirty).page i = page.getD (c.page i) := by
  rw [page_edit, if_pos rfl]

theorem serves_edit (b : Block) : (c.edit i page valid dirty).Serves b ↔ c.Serves b :=
  serves_congr (drivers_edit ..) b

end Cache

/-- All bytes of a page are written at once, whatever they were. -/
theorem Page.write_whole {bytes : List UInt8} (h : blockSize ≤ bytes.length) (p p' : Page) :
    p.write 0 bytes = p'.write 0 bytes := by
  refine Vector.ext fun k hk => ?_
  rw [getElem_write, getElem_write, if_pos (Nat.zero_le k), if_pos (Nat.zero_le k), Nat.sub_zero,
    List.getElem?_eq_getElem (Nat.lt_of_lt_of_le hk h)]
  rfl

/-! ## Changes of blocks -/

/-- A client owns what it uses: the reference with this handle is on the ledger, the
handle is good, and its buffer holds the block of the reference. -/
structure Cache.Owns (c : Cache g) (ledger : List Reference) (h : Handle) (b : Block)
    (i : g.Buffer) : Prop where
  /-- The reference is on the ledger. -/
  entered : ∃ r, (ledger.find? fun r => r.handle = h) = some r ∧ r.block = b
  /-- The handle is good. -/
  resolve : c.resolve h = .ok i
  /-- The buffer holds the block. -/
  content : (c.header i).content = some b

theorem Accounted.owns {ledger : List Reference} {c : Cache g} {stakes : Multiset (Stake g)}
    (ha : Accounted ledger c stakes) {h : Handle}
    (hpos : 0 < ledger.countP fun r => r.handle = h) : ∃ b i, c.Owns ledger h b i := by
  obtain ⟨r, hr, hh⟩ := List.countP_pos_iff.mp hpos
  cases hfind : ledger.find? fun r => r.handle = h with
  | none => exact absurd hh (List.find?_eq_none.mp hfind r hr)
  | some r' =>
    have hh' : r'.handle = h := by simpa using List.find?_some hfind
    obtain ⟨i, -, hcontent, hresolve⟩ := ha.resolve_of_owned (List.mem_of_find?_eq_some hfind)
    rw [hh'] at hresolve
    exact ⟨r'.block, i, ⟨r', hfind, rfl⟩, hresolve, hcontent⟩

namespace Cache.Owns

variable {c : Cache g} {a : Image} {ledger : List Reference} {h : Handle} {b : Block}
  {i : g.Buffer} {f : Page → Page} {changing : Option Block}

theorem blocks_write (ho : c.Owns ledger h b i) (f : Page → Page) (stage : Stage) :
    (a.write ledger h f stage).blocks = a.blocks.put b (f (a.blocks b)) := by
  obtain ⟨r, hfind, rfl⟩ := ho.entered
  unfold Image.write
  rw [hfind]

/-- A client writes the bytes of a block. -/
theorem changes_write (ho : c.Owns ledger h b i) (hc : Coherent a.blocks changing none c)
    (hchanging : changing = none ∨ changing = some b) (stage : Stage) {valid dirty : Bool}
    (hf : c.Serves b → f (c.page i) = f (a.blocks b)) :
    (c.edit i (some (f (c.page i))) valid dirty).Changes (a.write ledger h f stage).blocks h b i ∧
      ((c.edit i (some (f (c.page i))) valid dirty).Serves b →
        (c.edit i (some (f (c.page i))) valid dirty).page i =
          (a.write ledger h f stage).blocks b) := by
  rw [ho.blocks_write]
  refine ⟨changes_edit hc hchanging ho.resolve ho.content fun b' hb' =>
    a.blocks.put_of_ne _ hb', fun hs => ?_⟩
  rw [page_edit_self, Contents.put_self]
  exact hf ((serves_edit b).mp hs)

/-- A client writes the bytes behind a handle, all of them if they are not valid. -/
theorem fill (ho : c.Owns ledger h b i) (hc : c.Settled a)
    (hf : (c.header i).valid = false → ∀ p p', f p = f p') :
    (c.edit i (some (f (c.page i))) false false).Stands (a.write ledger h f (.filled h)) := by
  refine hc.stands.edit ⟨b, i, ho.changes_write hc.2.coherent (.inl rfl) _ fun hs => ?_⟩
  cases hvalid : (c.header i).valid with
  | false => exact hf hvalid _ _
  | true => rw [hc.2.coherent.current i b ho.content hs nofun hvalid]

/-- A client writes the bytes behind a guard and marks them as changed. -/
theorem overwrite (ho : c.Owns ledger h b i) (hc : c.Stands a)
    (hcoherent : Coherent a.blocks changing none c)
    (hchanging : changing = none ∨ changing = some b) (hvalid : (c.header i).valid = true)
    (hchained : c.buffers.Chained fun _ => True)
    (hf : c.Serves b → f (c.page i) = f (a.blocks b)) :
    (c.edit i (some (f (c.page i))) false true).Stands (a.write ledger h f .idle) := by
  obtain ⟨hchanges, hpage⟩ := ho.changes_write hcoherent hchanging .idle hf
  refine hc.edit (hchanges.settle (chained_edit hchained) ?_ ?_ hpage)
  · rw [valid_edit_self, hvalid, Bool.or_true]
  · rw [dirty_edit_self, Bool.true_or]

end Cache.Owns

namespace Cache

variable {c : Cache g} {a : Image} {h : Handle} {i : g.Buffer}

/-- A client marks the bytes that it wrote as those of the block. -/
theorem Stands.validate (hc : c.Stands a) (hstage : a.stage = .filled h)
    (hi : c.resolve h = .ok i) :
    (c.edit i none true false).Stands { a with stage := .validated h } := by
  have hrepresents := hc.represents
  rw [hstage] at hrepresents
  obtain ⟨b, j, hchanges, hpage⟩ := hrepresents
  obtain rfl : i = j := resolve_unique hi hchanges.resolve
  refine hc.edit ⟨b, i, changes_edit hchanges.coherent (.inr rfl) hi hchanges.content
    fun _ _ => rfl, fun hs => ?_, ?_⟩
  · rw [page_edit_self]
    exact hpage ((serves_edit b).mp hs)
  · rw [valid_edit_self, Bool.true_or]

/-- A client marks the bytes that it wrote as changed. -/
theorem Stands.conclude (hc : c.Stands a) (hstage : a.stage = .validated h)
    (hi : c.resolve h = .ok i) (hchained : c.buffers.Chained fun _ => True) :
    (c.edit i none false true).Stands { a with stage := .idle } := by
  have hrepresents := hc.represents
  rw [hstage] at hrepresents
  obtain ⟨b, j, hchanges, hpage, hvalid⟩ := hrepresents
  obtain rfl : i = j := resolve_unique hi hchanges.resolve
  have hchanges' : (c.edit i none false true).Changes a.blocks h b i :=
    changes_edit hchanges.coherent (.inr rfl) hi hchanges.content fun _ _ => rfl
  refine hc.edit (hchanges'.settle (chained_edit hchained) ?_ ?_ fun hs => ?_)
  · rw [valid_edit_self, hvalid, Bool.or_true]
  · rw [dirty_edit_self, Bool.true_or]
  · rw [page_edit_self]
    exact hpage ((serves_edit b).mp hs)

end Cache

end BufferCache
