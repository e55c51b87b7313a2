import BufferCache.Proofs.Chains
import BufferCache.Proofs.StepEffects

/-!
# The index is exact

A buffer is given a block only after a look-up of that block has failed.  Between
the look-up and the moment at which the block is entered, the call may wait four
times: for a reference to be given back, for the victim to be unlocked, for a
flush, and for the victim again.  Meanwhile other calls may have entered the same
block.  The look-up is therefore repeated in the very step in which the block is
entered, and that step is what the invariant rests on.

`Effect.chained` goes through the effects that a step can have; all but one of them
leave blocks, links and buckets alone.  `Machine.Reachable.exact_index` is what
follows for all sessions: look-ups are exact, and no block is ever entered twice.
-/

namespace BufferCache

variable {g : Geometry}

/-! ## Effects keep the index in order -/

theorem Cache.buffers_assign (c : Cache g) (i : g.Buffer) (s : Buffers g) :
    (c.assign i s).buffers = s := by
  unfold assign
  split <;> rfl

/-- Giving a buffer another block changes nothing but its own header, the links apart. -/
theorem Cache.field_of_assign {c c' : Cache g} {s : Buffers g} {i : g.Buffer} {b : Block}
    {α : Type} (hs : c.buffers.reassign i b = .ok s) (hc : c' = c.assign i s)
    (f : Header g.buffers → α) (hf : ∀ h, f h.bare = f h) (j : g.Buffer) :
    f (c'.header j) = if i = j then f ((c.header j).assign b) else f (c.header j) := by
  rw [hc, header_assign, ← hf, Buffers.bare_reassign hs, hf]
  split <;> rfl

/-- No effect puts the index out of order, provided that a buffer is given only blocks
of devices. -/
theorem Effect.chained {e : Effect g} {c : Cache g} (h : c.buffers.Chained fun _ => True)
    (hfits : e.Fits c) (hdue : ∀ b i, e.due = some (.assign b i) → b.device ≠ 0) :
    (e.apply c).buffers.Chained fun _ => True := by
  by_cases he : ∃ i b s, e = .assign i b s
  · obtain ⟨i, b, s, rfl⟩ := he
    obtain ⟨-, -, -, hnone, hs⟩ := hfits
    have hfree (j : g.Buffer) : (c.buffers.header j).content ≠ some b :=
      h.locate_eq_none_iff.mp hnone j trivial
    have hreassign := h.reassign i (hdue b i rfl) hfree
    rw [hs] at hreassign
    rw [apply, Cache.buffers_assign]
    exact hreassign
  · have he' (i : g.Buffer) (b : Block) (s : Buffers g) : e ≠ .assign i b s :=
      fun heq => he ⟨i, b, s, heq⟩
    have hheader := e.unmarked_header he' c
    refine h.congr (fun j _ => ?_) (fun j _ => ?_) (fun j _ => ?_) fun k => ?_
    · exact (congrArg Header.content (hheader j) :)
    · exact (congrArg Header.chainPrev (hheader j) :)
    · exact (congrArg Header.chainNext (hheader j) :)
    · rw [Buffers.first, Buffers.first, e.buckets_apply he']

namespace Machine

/-- What is due to be given to a buffer is a block of a device. -/
theorem Aimed.device_ne_zero {m : Machine g} (hm : m.Aimed) {b : Block} {i : g.Buffer}
    (h : m.due = some (.assign b i)) : b.device ≠ 0 := by
  obtain ⟨w, s, control, stack⟩ := m
  match control, stack with
  | .run c, _ =>
    change c.due = _ at h
    cases c <;> cases h
  | .give v, .bottom => cases h
  | .give v, .push f _ =>
    obtain ⟨hf, -⟩ := hm
    change f.due v = _ at h
    cases f <;> cases h
    exact hf

/-- No step puts the index out of order. -/
theorem Steps.chained {m m' : Machine g} (h : m.Steps m') (hm : m.Aimed)
    (hchained : m.world.cache.buffers.Chained fun _ => True) :
    m'.world.cache.buffers.Chained fun _ => True := by
  obtain ⟨⟨e, hfits, happly, hdue⟩, -⟩ := h.affects hm
  rw [happly]
  exact e.chained hchained hfits fun b i he => hm.device_ne_zero (hdue _ he)

/-- The index is in order in every machine that can be reached. -/
theorem Reachable.chained {m : Machine g} (h : m.Reachable) :
    m.world.cache.buffers.Chained fun _ => True := by
  let Inv (m : Machine g) : Prop := m.Aimed ∧ m.world.cache.buffers.Chained fun _ => True
  suffices hm : Inv m from hm.2
  refine h.invariant (fun waiting c => ?_) (fun m m' hm hs => ?_) fun w a waiting c hm => ?_
  · exact ⟨⟨trivial, trivial⟩, Buffers.chained_initial g⟩
  · exact ⟨(hs.affects hm.1).2, hs.chained hm.1 hm.2⟩
  · exact ⟨⟨trivial, trivial⟩, hm.2⟩

end Machine

/-! ## What the order of the index means -/

namespace Buffers

/-- The index tells the truth about every block. -/
structure Exact (s : Buffers g) : Prop where
  /-- No two buffers with a device hold the same block. -/
  unique : ∀ i j, (s.header i).device ≠ 0 → (s.header i).device = (s.header j).device →
    (s.header i).number = (s.header j).number → i = j
  /-- A chain visits no buffer twice. -/
  acyclic : ∀ k, (s.chain k).Nodup
  /-- A chain begins at its bucket, is linked both ways, and ends. -/
  linked : ∀ k : g.Bucket, Threaded (fun i => (s.header i).chainPrev)
    (fun i => (s.header i).chainNext) none (s.first k) (s.chain k)
  /-- The two links of a chain are inverse to each other. -/
  inverse : ∀ i j, (s.header i).chainNext = some j ↔ (s.header j).chainPrev = some i
  /-- The buffers of a chain are those with a device whose block belongs there. -/
  members : ∀ k i, i ∈ s.chain k ↔ (s.header i).device ≠ 0 ∧
    bucketOf g ⟨(s.header i).device, (s.header i).number⟩ = k
  /-- A look-up finds the buffer that holds the block; there is none on the device
  that is none. -/
  lookUp : ∀ b i, s.locate b = some i ↔
    b.device ≠ 0 ∧ (s.header i).device = b.device ∧ (s.header i).number = b.number

namespace Chained

variable {s : Buffers g} {i : g.Buffer}

/-- A buffer holds the block that its header names, if that is one of a device. -/
theorem content_eq_some_iff (h : s.Chained fun _ => True) {b : Block} :
    (s.header i).content = some b ↔
      b.device ≠ 0 ∧ (s.header i).device = b.device ∧ (s.header i).number = b.number := by
  unfold Header.device Header.number
  cases hc : (s.header i).content with
  | none =>
    refine ⟨nofun, ?_⟩
    rintro ⟨hdevice, hzero, -⟩
    exact absurd hzero.symm hdevice
  | some b' =>
    rw [Option.some.injEq]
    constructor
    · rintro rfl
      exact ⟨h.named trivial hc, rfl, rfl⟩
    · rintro ⟨-, hdevice, hnumber⟩
      cases b
      cases b'
      cases hdevice
      cases hnumber
      rfl

theorem exists_content_iff (h : s.Chained fun _ => True) {k : g.Bucket} :
    (∃ b, (s.header i).content = some b ∧ bucketOf g b = k) ↔
      (s.header i).device ≠ 0 ∧
        bucketOf g ⟨(s.header i).device, (s.header i).number⟩ = k := by
  constructor
  · rintro ⟨b, hb, rfl⟩
    obtain ⟨hdevice, hd, hn⟩ := h.content_eq_some_iff.mp hb
    rw [hd, hn]
    exact ⟨hdevice, rfl⟩
  · rintro ⟨hdevice, rfl⟩
    exact ⟨_, h.content_eq_some_iff.mpr ⟨hdevice, rfl, rfl⟩, rfl⟩

/-- An index in order is exact. -/
theorem exact (h : s.Chained fun _ => True) : s.Exact where
  unique := by
    intro i j hdevice hd hn
    refine h.unique (b := ⟨(s.header i).device, (s.header i).number⟩) trivial trivial
      (h.content_eq_some_iff.mpr ⟨hdevice, rfl, rfl⟩)
      (h.content_eq_some_iff.mpr ⟨hdevice, hd.symm, hn.symm⟩)
  acyclic := h.nodup_chain
  linked := h.threaded_chain
  inverse := by
    intro i j
    constructor
    · intro hij
      obtain ⟨k, hi, hj⟩ := h.exists_chain_of_link (Or.inl hij)
      exact (h.chainNext_eq_some_iff hi hj).mp hij
    · intro hij
      obtain ⟨k, hj, hi⟩ := h.exists_chain_of_link (Or.inr hij)
      exact (h.chainNext_eq_some_iff hi hj).mpr hij
  members := by
    intro k i
    rw [h.mem_chain_iff, true_and, h.exists_content_iff]
  lookUp := by
    intro b i
    rw [h.locate_eq_some_iff, true_and, h.content_eq_some_iff]

end Chained
end Buffers

namespace Machine

/-- In every session, on a cache of any dimensions and whatever other tasks do, the
index is exact at every step, and no block is entered twice. -/
theorem Reachable.exact_index {m : Machine g} (h : m.Reachable) :
    m.world.cache.buffers.Exact ∧ ∀ b, m.step ≠ .halted (.fault (.duplicateBlock b)) := by
  refine ⟨h.chained.exact, fun b hstep => ?_⟩
  obtain ⟨b', i, hdue, hnone, hfails⟩ := blames_of_halted h.aimed hstep b rfl
  have hreassign := h.chained.reassign i (h.aimed.device_ne_zero hdue) fun j =>
    h.chained.locate_eq_none_iff.mp hnone j trivial
  rw [hfails] at hreassign
  cases hreassign

/-- The index after a block was acquired: the block is found. -/
theorem exact_index_of_acquire :
    ∃ m : Machine Geometry.small, m.Reachable ∧
      m.world.cache.buffers.locate ⟨257, 3⟩ = some Geometry.small.firstBuffer ∧
      m.world.cache.buffers.Exact ∧
      ∀ b, m.step ≠ .halted (.fault (.duplicateBlock b)) := by
  have h := (@reachable_start Geometry.small [] (.acquire ⟨257, 3⟩ none)).after 12
  exact ⟨_, h, by decide, h.exact_index⟩

end Machine
end BufferCache
