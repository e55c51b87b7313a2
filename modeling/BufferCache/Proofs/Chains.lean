import BufferCache.Buffers.Reassign
import BufferCache.Proofs.Ring
import BufferCache.Proofs.Threads
import Mathlib.Data.Fintype.Card

/-!
# The hash chains are in order

`Chained s on` is the invariant of the index.  It speaks about the buffers for
which `on` holds, so that it can also describe the table between taking a buffer
out of its chain and entering it in another: `on` leaves out that one buffer
then.

* A buffer that holds a block holds one of a device, and no two buffers hold the
  same block.
* The chain of each bucket is a list without duplicates, linked both ways, of just
  the buffers that hold a block of that bucket.
* A buffer that holds no block has no links.  It was never in a chain, and is
  taken out of none when it is given its first block.

The invariant makes look-ups exact (`Chained.locate_eq_some_iff`).  It is kept
when a buffer is given a block that no buffer holds, and then the entry in the
new chain does not fail (`Chained.reassign`).
-/

namespace BufferCache

namespace Buffers

variable {g : Geometry}

/-! ## Single changes -/

theorem header_update? (s : Buffers g) (o : Option g.Buffer)
    (f : Header g.buffers → Header g.buffers) (j : g.Buffer) :
    (s.update? o f).header j = if o = some j then f (s.header j) else s.header j := by
  cases o with
  | none => rfl
  | some i =>
    rw [update?, header_update]
    simp only [Option.some.injEq]

@[simp] theorem first_update? (s : Buffers g) (o : Option g.Buffer)
    (f : Header g.buffers → Header g.buffers) (k : g.Bucket) :
    (s.update? o f).first k = s.first k := by
  cases o <;> rfl

@[simp] theorem header_setBucket (s : Buffers g) (k : g.Bucket) (i : Option g.Buffer)
    (j : g.Buffer) : (s.setBucket k i).header j = s.header j := rfl

theorem first_setBucket (s : Buffers g) (k k' : g.Bucket) (i : Option g.Buffer) :
    (s.setBucket k i).first k' = if k = k' then i else s.first k' := by
  by_cases h : k = k'
  · subst h
    simp [first, setBucket]
  · have hv : k.val ≠ k'.val := fun hv => h (Fin.ext hv)
    simp [first, setBucket, h, hv]

/-- The table in which the neighbours of buffer `i` in its chain are joined. -/
def joined (s : Buffers g) (i : g.Buffer) : Buffers g :=
  (s.update? (s.header i).chainNext fun x =>
      { x with chainPrev := (s.header i).chainPrev }).update?
    (s.header i).chainPrev fun x => { x with chainNext := (s.header i).chainNext }

theorem header_joined (s : Buffers g) (i j : g.Buffer) :
    (s.joined i).header j =
      { s.header j with
        chainPrev :=
          if (s.header i).chainNext = some j then (s.header i).chainPrev
          else (s.header j).chainPrev
        chainNext :=
          if (s.header i).chainPrev = some j then (s.header i).chainNext
          else (s.header j).chainNext } := by
  rw [joined, header_update?, header_update?]
  split <;> split <;> rfl

@[simp] theorem first_joined (s : Buffers g) (i : g.Buffer) (k : g.Bucket) :
    (s.joined i).first k = s.first k := by
  rw [joined, first_update?, first_update?]

theorem unchain_eq (s : Buffers g) (i : g.Buffer) :
    s.unchain i =
      match (s.header i).content with
      | none => s.joined i
      | some b =>
          if (s.joined i).first (bucketOf g b) = some i then
            (s.joined i).setBucket (bucketOf g b) (s.header i).chainNext
          else s.joined i := rfl

/-- Taking a buffer out of its chain changes links to it only. -/
theorem header_unchain (s : Buffers g) (i j : g.Buffer) :
    (s.unchain i).header j =
      { s.header j with
        chainPrev :=
          if (s.header i).chainNext = some j then (s.header i).chainPrev
          else (s.header j).chainPrev
        chainNext :=
          if (s.header i).chainPrev = some j then (s.header i).chainNext
          else (s.header j).chainNext } := by
  rw [← header_joined, unchain_eq]
  cases (s.header i).content with
  | none => rfl
  | some b =>
    dsimp only
    split
    · exact header_setBucket ..
    · rfl

/-- The bucket moves on if the buffer that is taken out was the first. -/
theorem first_unchain (s : Buffers g) (i : g.Buffer) (k : g.Bucket) :
    (s.unchain i).first k =
      if (s.header i).content.map (bucketOf g) = some k ∧ s.first k = some i then
        (s.header i).chainNext
      else s.first k := by
  rw [unchain_eq]
  cases (s.header i).content with
  | none => simp
  | some b =>
    simp only [Option.map_some, Option.some.injEq]
    by_cases hfirst : (s.joined i).first (bucketOf g b) = some i
    · rw [if_pos hfirst, first_setBucket]
      rw [first_joined] at hfirst
      by_cases hk : bucketOf g b = k
      · subst hk
        rw [if_pos rfl, if_pos ⟨rfl, hfirst⟩]
      · rw [if_neg hk, if_neg fun h => hk h.1, first_joined]
    · rw [if_neg hfirst, first_joined]
      rw [first_joined] at hfirst
      rw [if_neg]
      rintro ⟨rfl, h⟩
      exact hfirst h

theorem bare_unchain (s : Buffers g) (i j : g.Buffer) :
    ((s.unchain i).header j).bare = (s.header j).bare := by
  rw [header_unchain]
  rfl

/-- The table in which buffer `i` has no chain links. -/
def loosened (s : Buffers g) (i : g.Buffer) : Buffers g :=
  s.update i fun x => { x with chainPrev := none, chainNext := none }

/-- The table with buffer `i` at the front of bucket `k`. -/
def entered (s : Buffers g) (i : g.Buffer) (k : g.Bucket) : Buffers g :=
  ((s.update i fun x => { x with chainNext := s.first k }).update? (s.first k)
    fun x => { x with chainPrev := some i }).setBucket k (some i)

theorem enchain_eq (s : Buffers g) (i : g.Buffer) (b : Block) :
    s.enchain i b =
      match (s.loosened i).locate b with
      | some _ => .error (.duplicateBlock b)
      | none => .ok ((s.loosened i).entered i (bucketOf g b)) := rfl

theorem header_loosened (s : Buffers g) (i j : g.Buffer) :
    (s.loosened i).header j =
      if i = j then { s.header j with chainPrev := none, chainNext := none }
      else s.header j :=
  header_update s i j _

/-- Entering a buffer changes its forward link and the backward link of the buffer
that was first. -/
theorem header_entered (s : Buffers g) (i j : g.Buffer) (k : g.Bucket) :
    (s.entered i k).header j =
      { s.header j with
        chainPrev := if s.first k = some j then some i else (s.header j).chainPrev
        chainNext := if i = j then s.first k else (s.header j).chainNext } := by
  rw [entered, header_setBucket, header_update?, header_update]
  split <;> split <;> rfl

theorem first_entered (s : Buffers g) (i : g.Buffer) (k k' : g.Bucket) :
    (s.entered i k).first k' = if k = k' then some i else s.first k' := by
  rw [entered, first_setBucket, first_update?]
  rfl

theorem bare_loosened (s : Buffers g) (i j : g.Buffer) :
    ((s.loosened i).header j).bare = (s.header j).bare := by
  rw [header_loosened]
  split <;> rfl

theorem bare_enchain {s s' : Buffers g} {i : g.Buffer} {b : Block}
    (h : s.enchain i b = .ok s') (j : g.Buffer) :
    (s'.header j).bare = (s.header j).bare := by
  rw [enchain_eq] at h
  split at h
  · cases h
  · cases h
    rw [header_entered, ← bare_loosened s i j]
    rfl

/-! ### Giving a buffer another block -/

theorem reassign_eq (s : Buffers g) (i : g.Buffer) (b : Block) :
    s.reassign i b =
      match (s.unchain i).unring i with
      | .error f => .error f
      | .ok detached =>
          match (detached.update i fun h => h.assign b).enring i with
          | .error f => .error f
          | .ok attached => attached.enchain i b := by
  unfold reassign
  cases (s.unchain i).unring i with
  | error f => rfl
  | ok detached =>
    dsimp only
    cases ha : (detached.update i fun h => h.assign b).enring i with
    | error f => exact congrArg (· >>= fun attached => attached.enchain i b) ha
    | ok attached => exact congrArg (· >>= fun attached => attached.enchain i b) ha

theorem bare_attached {s detached attached : Buffers g} {i : g.Buffer} {b : Block}
    (hd : (s.unchain i).unring i = .ok detached)
    (ha : (detached.update i fun h => h.assign b).enring i = .ok attached) (j : g.Buffer) :
    (attached.header j).bare =
      (if i = j then (s.header j).assign b else s.header j).bare := by
  have hdetached : (detached.header j).bare = (s.header j).bare :=
    ((SameButRing.unring hd).bare j).trans (bare_unchain s i j)
  rw [(SameButRing.enring ha).bare, header_update]
  split
  · exact (congrArg (fun h => Header.assign h b) hdetached :)
  · exact hdetached

/-- Giving a buffer another block changes its own header, and only links in others. -/
theorem bare_reassign {s s' : Buffers g} {i : g.Buffer} {b : Block}
    (h : s.reassign i b = .ok s') (j : g.Buffer) :
    (s'.header j).bare = (if i = j then (s.header j).assign b else s.header j).bare := by
  rw [reassign_eq] at h
  split at h
  · cases h
  · rename_i hd
    split at h
    · cases h
    · rename_i ha
      exact (bare_enchain h j).trans (bare_attached hd ha j)

/-! ## The invariant -/

/-- The index of the buffers for which `on` holds is in order. -/
structure Chained (s : Buffers g) (on : g.Buffer → Prop) : Prop where
  /-- Blocks are blocks of a device. -/
  named : ∀ {i b}, on i → (s.header i).content = some b → b.device ≠ 0
  /-- Buffers without a block have no links. -/
  loose : ∀ {i}, on i → (s.header i).content = none →
    (s.header i).chainPrev = none ∧ (s.header i).chainNext = none
  /-- No two buffers hold the same block. -/
  unique : ∀ {i j b}, on i → on j → (s.header i).content = some b →
    (s.header j).content = some b → i = j
  /-- The chain of a bucket is a list of the buffers that belong there. -/
  threaded : ∀ k : g.Bucket, ∃ l : List g.Buffer, l.Nodup ∧
    Threaded (fun i => (s.header i).chainPrev) (fun i => (s.header i).chainNext) none
      (s.first k) l ∧
    ∀ i, i ∈ l ↔ on i ∧ ∃ b, (s.header i).content = some b ∧ bucketOf g b = k

namespace Chained

variable {s s' : Buffers g} {on : g.Buffer → Prop} {i j : g.Buffer} {b : Block}

/-- Only blocks, chain links and buckets matter. -/
theorem congr (h : s.Chained on)
    (hcontent : ∀ j, on j → (s'.header j).content = (s.header j).content)
    (hprev : ∀ j, on j → (s'.header j).chainPrev = (s.header j).chainPrev)
    (hnext : ∀ j, on j → (s'.header j).chainNext = (s.header j).chainNext)
    (hbuckets : ∀ k : g.Bucket, s'.first k = s.first k) : s'.Chained on where
  named := by
    intro i b hi hb
    rw [hcontent i hi] at hb
    exact h.named hi hb
  loose := by
    intro i hi hb
    rw [hcontent i hi] at hb
    rw [hprev i hi, hnext i hi]
    exact h.loose hi hb
  unique := by
    intro i j b hi hj hbi hbj
    rw [hcontent i hi] at hbi
    rw [hcontent j hj] at hbj
    exact h.unique hi hj hbi hbj
  threaded := by
    intro k
    obtain ⟨l, hd, ht, hmem⟩ := h.threaded k
    refine ⟨l, hd, ?_, fun i => ?_⟩
    · rw [hbuckets]
      exact ht.congr (fun x hx => hprev x ((hmem x).mp hx).1) fun x hx =>
        hnext x ((hmem x).mp hx).1
    · rw [hmem]
      refine and_congr_right fun hi => ?_
      rw [hcontent i hi]

/-- The chain of a bucket is the list that the invariant speaks of. -/
theorem chain_eq {l : List g.Buffer} {k : g.Bucket} (hd : l.Nodup)
    (ht : Threaded (fun i => (s.header i).chainPrev) (fun i => (s.header i).chainNext) none
      (s.first k) l) : s.chain k = l := by
  refine ht.walk_eq ?_
  have hcard := List.Nodup.length_le_card hd
  rwa [Fintype.card_fin] at hcard

theorem nodup_chain (h : s.Chained on) (k : g.Bucket) : (s.chain k).Nodup := by
  obtain ⟨l, hd, ht, -⟩ := h.threaded k
  rwa [chain_eq hd ht]

theorem threaded_chain (h : s.Chained on) (k : g.Bucket) :
    Threaded (fun i => (s.header i).chainPrev) (fun i => (s.header i).chainNext) none
      (s.first k) (s.chain k) := by
  obtain ⟨l, hd, ht, -⟩ := h.threaded k
  rwa [chain_eq hd ht]

theorem mem_chain_iff (h : s.Chained on) (k : g.Bucket) :
    i ∈ s.chain k ↔ on i ∧ ∃ b, (s.header i).content = some b ∧ bucketOf g b = k := by
  obtain ⟨l, hd, ht, hmem⟩ := h.threaded k
  rw [chain_eq hd ht]
  exact hmem i

/-- A look-up finds the buffer that holds the block, and nothing else. -/
theorem locate_eq_some_iff (h : s.Chained on) :
    s.locate b = some i ↔ on i ∧ (s.header i).content = some b := by
  constructor
  · intro hi
    have hmem := List.mem_of_find?_eq_some hi
    have hholds := List.find?_some hi
    exact ⟨((h.mem_chain_iff _).mp hmem).1, by simpa [Header.holds] using hholds⟩
  · rintro ⟨hon, hb⟩
    have hmem : i ∈ s.chain (bucketOf g b) := (h.mem_chain_iff _).mpr ⟨hon, b, hb, rfl⟩
    cases hl : s.locate b with
    | none =>
      have := List.find?_eq_none.mp hl i hmem
      simp [Header.holds, hb] at this
    | some j =>
      have hj := List.mem_of_find?_eq_some hl
      have hholds := List.find?_some hl
      have hbj : (s.header j).content = some b := by simpa [Header.holds] using hholds
      rw [h.unique ((h.mem_chain_iff _).mp hj).1 hon hbj hb]

/-- A look-up finds nothing just if no buffer holds the block. -/
theorem locate_eq_none_iff (h : s.Chained on) :
    s.locate b = none ↔ ∀ i, on i → (s.header i).content ≠ some b := by
  rw [Option.eq_none_iff_forall_ne_some]
  exact ⟨fun hn i hi hb => hn i (h.locate_eq_some_iff.mpr ⟨hi, hb⟩),
    fun hn i hi => hn i (h.locate_eq_some_iff.mp hi).1 (h.locate_eq_some_iff.mp hi).2⟩

/-! ## Taking a buffer out -/

/-- The links of a buffer lead to buffers of its own chain. -/
theorem mem_chain_of_link (h : s.Chained on) {k : g.Bucket} (hi : i ∈ s.chain k)
    (hj : (s.header i).chainNext = some j ∨ (s.header i).chainPrev = some j) :
    j ∈ s.chain k := by
  rcases hj with hj | hj
  · exact (h.threaded_chain k).mem_of_next hi hj
  · rcases (h.threaded_chain k).mem_of_prev hi hj with hmem | hnone
    · exact hmem
    · cases hnone

/-- Links between buffers are inverse to each other. -/
theorem chainNext_eq_some_iff (h : s.Chained on) {k : g.Bucket} (hi : i ∈ s.chain k)
    (hj : j ∈ s.chain k) :
    (s.header i).chainNext = some j ↔ (s.header j).chainPrev = some i :=
  (h.threaded_chain k).next_eq_some_iff (h.nodup_chain k) hi hj nofun

/-- A buffer is in no chain but that of its block. -/
theorem bucket_eq (h : s.Chained on) {k k' : g.Bucket} (hk : i ∈ s.chain k)
    (hk' : i ∈ s.chain k') : k = k' := by
  obtain ⟨-, b, hb, rfl⟩ := (h.mem_chain_iff k).mp hk
  obtain ⟨-, b', hb', rfl⟩ := (h.mem_chain_iff k').mp hk'
  rw [hb, Option.some.injEq] at hb'
  rw [hb']

/-- Linked buffers are in the same chain. -/
theorem exists_chain_of_link (h : s.Chained fun _ => True)
    (hj : (s.header i).chainNext = some j ∨ (s.header i).chainPrev = some j) :
    ∃ k, i ∈ s.chain k ∧ j ∈ s.chain k := by
  cases hb : (s.header i).content with
  | none =>
    rw [(h.loose trivial hb).1, (h.loose trivial hb).2] at hj
    rcases hj with hj | hj <;> cases hj
  | some b =>
    have hi : i ∈ s.chain (bucketOf g b) := (h.mem_chain_iff _).mpr ⟨trivial, b, hb, rfl⟩
    exact ⟨bucketOf g b, hi, h.mem_chain_of_link hi hj⟩

/-- Once a buffer is taken out, the index of all others is in order. -/
theorem unchain (h : s.Chained fun _ => True) (i : g.Buffer) :
    (s.unchain i).Chained (· ≠ i) := by
  have hcontent (j : g.Buffer) : ((s.unchain i).header j).content = (s.header j).content := by
    rw [header_unchain]
  refine ⟨fun _ hb => h.named trivial (hcontent _ ▸ hb), fun {j} _ hj => ?_,
    fun _ _ hbi hbj => h.unique trivial trivial (hcontent _ ▸ hbi) (hcontent _ ▸ hbj),
    fun k => ?_⟩
  · rw [hcontent] at hj
    have hfar (hl : (s.header i).chainNext = some j ∨ (s.header i).chainPrev = some j) :
        False := by
      obtain ⟨k, -, hjk⟩ := h.exists_chain_of_link hl
      obtain ⟨-, b, hb, -⟩ := (h.mem_chain_iff k).mp hjk
      rw [hj] at hb
      cases hb
    rw [header_unchain, if_neg fun hn => hfar (Or.inl hn), if_neg fun hp => hfar (Or.inr hp)]
    exact h.loose trivial hj
  · have hd := h.nodup_chain k
    have ht := h.threaded_chain k
    by_cases hi : i ∈ s.chain k
    · obtain ⟨-, b, hb, hk⟩ := (h.mem_chain_iff k).mp hi
      have hstart : (s.unchain i).first k =
          if s.first k = some i then (s.header i).chainNext else s.first k := by
        rw [first_unchain, hb]
        simp [hk]
      obtain ⟨l₁, l₂, hl⟩ := List.append_of_mem hi
      have hmem (j : g.Buffer) : j ∈ l₁ ++ l₂ ↔ j ≠ i ∧ j ∈ s.chain k := by
        have hi' : i ∉ l₁ ++ l₂ := by
          rw [hl] at hd
          exact (List.nodup_cons.mp (List.nodup_middle.mp hd)).1
        rw [hl]
        simp only [List.mem_append, List.mem_cons] at hi' ⊢
        constructor
        · intro hj
          exact ⟨fun he => hi' (he ▸ hj), hj.imp_right Or.inr⟩
        · rintro ⟨hne, hj | rfl | hj⟩
          · exact Or.inl hj
          · exact absurd rfl hne
          · exact Or.inr hj
      refine ⟨l₁ ++ l₂, ?_, ?_, fun j => ?_⟩
      · rw [hl] at hd
        exact (List.nodup_cons.mp (List.nodup_middle.mp hd)).2
      · rw [hstart]
        rw [hl] at hd ht
        refine ht.remove hd nofun (fun x hx => ?_) fun x hx => ?_
        · rw [header_unchain]
          exact if_congr (h.chainNext_eq_some_iff ((hmem x).mp hx).2 hi).symm rfl rfl
        · rw [header_unchain]
          exact if_congr (h.chainNext_eq_some_iff hi ((hmem x).mp hx).2) rfl rfl
      · rw [hmem, h.mem_chain_iff, hcontent, true_and]
    · -- The buffer is in another chain, or in none, and so are its neighbours.
      have hfar {x : g.Buffer} (hx : x ∈ s.chain k)
          (hl : (s.header i).chainNext = some x ∨ (s.header i).chainPrev = some x) : False := by
        obtain ⟨k', hik, hxk⟩ := h.exists_chain_of_link hl
        rw [h.bucket_eq hxk hx] at hik
        exact hi hik
      refine ⟨s.chain k, hd, ?_, fun j => ?_⟩
      · have hstart : (s.unchain i).first k = s.first k := by
          rw [first_unchain, if_neg]
          rintro ⟨-, hfirst⟩
          rw [ht.start_eq] at hfirst
          exact hi (List.mem_of_mem_head? hfirst)
        rw [hstart]
        refine ht.congr (fun x hx => ?_) fun x hx => ?_
        · rw [header_unchain]
          exact if_neg fun hn => hfar hx (Or.inl hn)
        · rw [header_unchain]
          exact if_neg fun hp => hfar hx (Or.inr hp)
      · rw [h.mem_chain_iff, hcontent]
        refine ⟨fun hj => ⟨?_, hj.2⟩, fun hj => ⟨trivial, hj.2⟩⟩
        rintro rfl
        exact hi ((h.mem_chain_iff k).mpr hj)

/-! ## Entering a buffer -/

/-- Links of a buffer that stands apart do not matter. -/
theorem loosened (h : s.Chained (· ≠ i)) : (s.loosened i).Chained (· ≠ i) := by
  have hfar (j : g.Buffer) (hj : j ≠ i) : (s.loosened i).header j = s.header j := by
    rw [header_loosened, if_neg hj.symm]
  refine h.congr (fun j hj => ?_) (fun j hj => ?_) (fun j hj => ?_) fun k => rfl
  · rw [hfar j hj]
  · rw [hfar j hj]
  · rw [hfar j hj]

/-- A buffer that stands apart is in no chain. -/
theorem not_mem_chain (h : s.Chained (· ≠ i)) (k : g.Bucket) : i ∉ s.chain k :=
  fun hi => ((h.mem_chain_iff k).mp hi).1 rfl

theorem mem_chain_of_first (h : s.Chained on) {k : g.Bucket} (hj : s.first k = some j) :
    j ∈ s.chain k :=
  List.mem_of_mem_head? ((h.threaded_chain k).start_eq ▸ hj)

/-- A buffer without links, which holds a block that no other buffer holds, enters
the chain of that block, and then the index of all buffers is in order. -/
theorem entered (h : s.Chained (· ≠ i)) (hb : (s.header i).content = some b)
    (hdevice : b.device ≠ 0) (hother : ∀ j, j ≠ i → (s.header j).content ≠ some b)
    (hprev : (s.header i).chainPrev = none) :
    (s.entered i (bucketOf g b)).Chained fun _ => True := by
  have hcontent (j : g.Buffer) :
      ((s.entered i (bucketOf g b)).header j).content = (s.header j).content := by
    rw [header_entered]
  have hfirst {k : g.Bucket} {x : g.Buffer} (hx : x ∈ s.chain k) (hk : bucketOf g b ≠ k) :
      s.first (bucketOf g b) ≠ some x :=
    fun hf => hk (h.bucket_eq (h.mem_chain_of_first hf) hx)
  have hne {k : g.Bucket} {x : g.Buffer} (hx : x ∈ s.chain k) : i ≠ x := by
    rintro rfl
    exact h.not_mem_chain k hx
  refine ⟨fun {j b'} _ hb' => ?_, fun {j} _ hj => ?_, fun {j j' b'} _ _ hj hj' => ?_,
    fun k => ?_⟩
  · rw [hcontent] at hb'
    by_cases hj : j = i
    · rw [hj, hb] at hb'
      cases hb'
      exact hdevice
    · exact h.named hj hb'
  · rw [hcontent] at hj
    have hji : j ≠ i := by
      rintro rfl
      rw [hb] at hj
      cases hj
    have hnf : s.first (bucketOf g b) ≠ some j := by
      intro hf
      obtain ⟨-, b', hb', -⟩ := (h.mem_chain_iff _).mp (h.mem_chain_of_first hf)
      rw [hj] at hb'
      cases hb'
    rw [header_entered, if_neg hnf, if_neg hji.symm]
    exact h.loose hji hj
  · rw [hcontent] at hj hj'
    by_cases hji : j = i
    · by_cases hji' : j' = i
      · rw [hji, hji']
      · rw [hji, hb] at hj
        cases hj
        exact absurd hj' (hother j' hji')
    · by_cases hji' : j' = i
      · rw [hji', hb] at hj'
        cases hj'
        exact absurd hj (hother j hji)
      · exact h.unique hji hji' hj hj'
  · have hd := h.nodup_chain k
    have ht := h.threaded_chain k
    by_cases hk : bucketOf g b = k
    · subst hk
      refine ⟨i :: s.chain (bucketOf g b), List.nodup_cons.mpr ⟨h.not_mem_chain _, hd⟩, ?_,
        fun j => ?_⟩
      · rw [first_entered, if_pos rfl]
        refine ht.cons_front ?_ ?_ (fun x hx => ?_) (fun x hx => ?_) hd
        · rw [header_entered, if_neg fun hf => h.not_mem_chain _ (h.mem_chain_of_first hf)]
          exact hprev
        · rw [header_entered, if_pos rfl]
        · rw [header_entered, if_neg (hne hx)]
        · rw [header_entered]
      · rw [List.mem_cons, h.mem_chain_iff, hcontent, true_and]
        constructor
        · rintro (rfl | ⟨-, hj⟩)
          · exact ⟨b, hb, rfl⟩
          · exact hj
        · intro hj
          by_cases hji : j = i
          · exact Or.inl hji
          · exact Or.inr ⟨hji, hj⟩
    · refine ⟨s.chain k, hd, ?_, fun j => ?_⟩
      · rw [first_entered, if_neg hk]
        refine ht.congr (fun x hx => ?_) fun x hx => ?_
        · rw [header_entered, if_neg (hfirst hx hk)]
        · rw [header_entered, if_neg (hne hx)]
      · rw [h.mem_chain_iff, hcontent, true_and]
        refine ⟨fun hj => hj.2, fun hj => ⟨?_, hj⟩⟩
        rintro rfl
        obtain ⟨b', hb', hk'⟩ := hj
        rw [hb] at hb'
        cases hb'
        exact hk hk'

/-- The entry of a block that no other buffer holds does not fail. -/
theorem enchain (h : s.Chained (· ≠ i)) (hb : (s.header i).content = some b)
    (hdevice : b.device ≠ 0) (hother : ∀ j, j ≠ i → (s.header j).content ≠ some b) :
    ∃ s', s.enchain i b = .ok s' ∧ s'.Chained fun _ => True := by
  have hl := h.loosened
  have hcontent (j : g.Buffer) : ((s.loosened i).header j).content = (s.header j).content :=
    (congrArg Header.content (bare_loosened s i j) :)
  have hnone : (s.loosened i).locate b = none := by
    refine hl.locate_eq_none_iff.mpr fun j hj => ?_
    rw [hcontent]
    exact hother j hj
  refine ⟨(s.loosened i).entered i (bucketOf g b), ?_, ?_⟩
  · rw [enchain_eq, hnone]
  · refine hl.entered ((hcontent i).trans hb) hdevice (fun j hj => ?_) ?_
    · rw [hcontent]
      exact hother j hj
    · rw [header_loosened, if_pos rfl]

/-! ## Giving a buffer another block -/

theorem sameButRing (h : s.Chained on) (hs : SameButRing s s') : s'.Chained on := by
  refine h.congr (fun j _ => ?_) (fun j _ => ?_) (fun j _ => ?_) fun k => ?_
  · obtain ⟨_, _, hj⟩ := hs.header j
    rw [hj]
  · obtain ⟨_, _, hj⟩ := hs.header j
    rw [hj]
  · obtain ⟨_, _, hj⟩ := hs.header j
    rw [hj]
  · rw [first, first, hs.buckets]

end Chained

/-- Giving a buffer a block that no buffer holds does not fail at the entry in the
chain, and leaves the index in order. -/
theorem Chained.reassign {s : Buffers g} (h : s.Chained fun _ => True) (i : g.Buffer)
    {b : Block} (hdevice : b.device ≠ 0) (hnone : ∀ j, (s.header j).content ≠ some b) :
    match s.reassign i b with
    | .error f => f = .ringBroken
    | .ok s' => s'.Chained fun _ => True := by
  rw [reassign_eq]
  cases hd : (s.unchain i).unring i with
  | error f => exact unring_error hd
  | ok detached =>
    dsimp only
    cases ha : (detached.update i fun h => h.assign b).enring i with
    | error f => exact enring_error ha
    | ok attached =>
      have hbare := bare_attached hd ha
      have hcontent (j : g.Buffer) : (attached.header j).content =
          (if i = j then (s.header j).assign b else s.header j).content :=
        (congrArg Header.content (hbare j) :)
      have hattached : attached.Chained (· ≠ i) := by
        have hassigned : (detached.update i fun h => h.assign b).Chained (· ≠ i) := by
          have hfar (j : g.Buffer) (hj : j ≠ i) :
              (detached.update i fun h => h.assign b).header j = detached.header j := by
            rw [header_update, if_neg hj.symm]
          refine ((h.unchain i).sameButRing (.unring hd)).congr (fun j hj => ?_)
            (fun j hj => ?_) (fun j hj => ?_) fun k => rfl
          · rw [hfar j hj]
          · rw [hfar j hj]
          · rw [hfar j hj]
        exact hassigned.sameButRing (.enring ha)
      obtain ⟨s', hs', hchained⟩ := hattached.enchain (b := b)
        (by rw [hcontent, if_pos rfl]; rfl) hdevice fun j hj => by
          rw [hcontent, if_neg hj.symm]
          exact hnone j
      dsimp only
      rw [hs']
      exact hchained

/-! ## The first table -/

theorem header_initial (g : Geometry) (i : g.Buffer) :
    (initial g).header i =
      { ringPrev := some (cyclic g i (g.buffers - 1)), ringNext := some (cyclic g i 1) } := by
  simp [initial, header]

/-- The index of a new cache is in order: it is empty. -/
theorem chained_initial (g : Geometry) : (initial g).Chained fun _ => True where
  named := by
    intro i b _ hb
    rw [header_initial] at hb
    cases hb
  loose := by
    intro i _ _
    rw [header_initial]
    exact ⟨rfl, rfl⟩
  unique := by
    intro i j b _ _ hi _
    rw [header_initial] at hi
    cases hi
  threaded := by
    intro k
    refine ⟨[], List.nodup_nil, ?_, fun i => ?_⟩
    · simp [Threaded, initial, first]
    · simp [header_initial]

end Buffers
end BufferCache
