import BufferCache.Proofs.WriteBack

/-!
# A flush settles every change

A flush goes over the buffers twice.  A change that is pending as the flush begins is in
flight or settled after the first round: when the round came to its buffer, the buffer was
unlocked, and either clean or written.  It is settled after the second round, which waited
for the buffer to be unlocked.  In between the flush gives way, and other tasks may do what
they like; no move takes a change back to an earlier stage, so this needs only to be looked at
where the flush itself takes a step.

`Flushing` says where a flush has come to and which stage the change has reached there.  It
is an invariant of the moves within the flush.
-/

namespace BufferCache

variable {g : Geometry}

/-- A flush is meant for the blocks of this device. -/
def Scope.Names : Scope → DeviceNumber → Prop
  | .device d, d' => d' = d
  | .everything, _ => True

theorem Scope.covers_of_names {scope : Scope} {d : DeviceNumber} (h : scope.Names d)
    (hd : d ≠ 0) : scope.covers d = true := by
  cases scope with
  | device d' => exact beq_iff_eq.mpr h
  | everything => exact bne_iff_ne.mpr hd

namespace Machine

/-! ## Writing one buffer back -/

/-- Where the start of a write of buffer `x` above `base` has come to. -/
inductive Writing (x : g.Buffer) (base : Stack g .unit) : Machine g → Prop
  | request {w : World g} : Writing x base ⟨w, .unit, .run (.request .write x), base⟩
  | locking {d : DeviceNumber} {n : Machine g} :
      (Stack.push (.locking .write x d) base).Beneath n.stack → Writing x base n
  | enqueue {w : World g} {d : DeviceNumber} {number : BlockNumber} :
      Writing x base ⟨w, .unit, .run (.enqueue .write x d number), base⟩
  | awaiting {d : DeviceNumber} {number : BlockNumber} {n : Machine g} :
      (Stack.push (.awaitingVacancy .write x d number) base).Beneath n.stack → Writing x base n

variable {x : g.Buffer} {base : Stack g .unit} {m n n' : Machine g}

theorem Writing.beneath (h : Writing x base n) : base.Beneath n.stack := by
  cases h with
  | request => exact .here
  | locking hbeneath => exact hbeneath.of_push
  | enqueue => exact .here
  | awaiting hbeneath => exact hbeneath.of_push

/-- A write is queued, which leaves the buffer clean, or waits for a slot. -/
theorem enqueue_write {w w' : World g} {d : DeviceNumber} {number : BlockNumber}
    {next : Next g .unit} (h : w.enqueue .write x d number = .ok (w', next)) :
    (w'.cache.header x).dirty = false ∨
      ∃ q t, next = .call (.sleep q t) (.awaitingVacancy .write x d number) := by
  unfold World.enqueue at h
  split at h
  · rename_i slot hslot
    have hclean : ((w.cache.enqueue .write x ⟨d, number⟩ slot).header x).dirty = false := by
      rw [Cache.header_enqueue, if_pos rfl]
    refine .inl ?_
    unfold World.file at h
    dsimp only at h
    split at h <;> cases h <;> exact hclean
  · cases h
    exact .inr ⟨_, _, rfl⟩

/-- Once the buffer is locked for it, a write starts, unless the buffer is clean. -/
theorem locked_write {w w' : World g} {d : DeviceNumber} {next : Next g .unit}
    (h : w.locked .write x d = .ok (w', next)) :
    (w'.cache.header x).dirty = false ∨
      ∃ q t number, next = .call (.sleep q t) (.awaitingVacancy .write x d number) := by
  unfold World.locked at h
  split at h
  · rename_i hneedless
    have hclean : (w.cache.header x).dirty = false := Bool.not_eq_true' _ ▸ hneedless
    cases h
    left
    rw [World.cache_unlock, Cache.header_unlock, if_pos rfl]
    exact hclean
  · exact (enqueue_write h).imp_right fun ⟨q, t, hnext⟩ => ⟨q, t, _, hnext⟩

/-- A move within the start of a write goes on with it, or leaves the buffer clean. -/
theorem Writing.moves (h : Writing x base n) (hmove : n.Moves n') :
    Writing x base n' ∨ n'.dirty x = false ∧ base.Beneath n'.stack := by
  have hbegun {w' : World g} {next : Next g .unit}
      (hnext : (w'.cache.header x).dirty = false ∨ ∃ q t d number,
        next = .call (.sleep q t) (.awaitingVacancy .write x d number)) :
      Writing x base (next.machine w' base) ∨
        (next.machine w' base).dirty x = false ∧ base.Beneath (next.machine w' base).stack := by
    rcases hnext with hclean | ⟨q, t, d, number, rfl⟩
    · refine .inr ⟨?_, beneath_next .here w' next⟩
      rw [dirty, world_next]
      exact hclean
    · exact .inl (.awaiting .here)
  cases h with
  | @request w =>
    obtain ⟨w', next, hnext, rfl⟩ := moves_of_run hmove
    change w.request .write x = _ at hnext
    unfold World.request at hnext
    dsimp only at hnext
    split at hnext
    · cases hnext
    · cases hnext
      exact .inl (.locking .here)
  | @locking d _ hbeneath =>
    by_cases hreturned : n.Returned (.push (.locking .write x d) base)
    · obtain ⟨w, v, w', next, rfl, hnext, rfl⟩ := moves_of_returned hreturned hmove
      refine hbegun ((locked_write hnext).imp_right fun hslept => ?_)
      obtain ⟨q, t, number, he⟩ := hslept
      exact ⟨q, t, d, number, he⟩
    · exact .inl (.locking (beneath_moves hbeneath hmove hreturned))
  | @enqueue w d number =>
    obtain ⟨w', next, hnext, rfl⟩ := moves_of_run hmove
    refine hbegun ((enqueue_write hnext).imp_right fun hslept => ?_)
    obtain ⟨q, t, he⟩ := hslept
    exact ⟨q, t, d, number, he⟩
  | @awaiting d number _ hbeneath =>
    by_cases hreturned : n.Returned (.push (.awaitingVacancy .write x d number) base)
    · obtain ⟨w, v, w', next, rfl, hnext, rfl⟩ := moves_of_returned hreturned hmove
      cases hnext
      exact .inl .enqueue
    · exact .inl (.awaiting (beneath_moves hbeneath hmove hreturned))

/-! ## Rounds -/

section Rounds

variable (scope : Scope) (m : Machine g) (x : g.Buffer) (base : Stack g .unit)

/-- How far the change in buffer `x` has come in a round with the buffers in `rest` to come,
before `r` more rounds. -/
def InRound (rest : List g.Buffer) (r : Nat) (n : Machine g) : Prop :=
  x ∈ rest ∧ Reaches (¬ Returned base ·) m x (r + 1) n ∨ Reaches (¬ Returned base ·) m x r n

/-- Where a flush above `base` has come to, and how far the change in buffer `x` has come. -/
inductive Flushing : Machine g → Prop
  | rounds {w : World g} {r writes : Nat} :
      Reaches (¬ Returned base ·) m x r ⟨w, .unit, .run (.flushRounds scope r writes), base⟩ →
      Flushing ⟨w, .unit, .run (.flushRounds scope r writes), base⟩
  | announcing {n : Machine g} {r writes : Nat} :
      (Stack.push (.announcing scope r writes) base).Beneath n.stack →
      Reaches (¬ Returned base ·) m x (r + 1) n → Flushing n
  | buffers {w : World g} {r writes : Nat} {rest : List g.Buffer} :
      InRound m x base rest r ⟨w, .unit, .run (.flushBuffers scope r writes rest), base⟩ →
      Flushing ⟨w, .unit, .run (.flushBuffers scope r writes rest), base⟩
  | awaiting {n : Machine g} {r writes : Nat} {i : g.Buffer} {rest : List g.Buffer} :
      (Stack.push (.flushAwaiting scope r writes i rest) base).Beneath n.stack →
      InRound m x base (i :: rest) r n → Flushing n
  | writing {n : Machine g} {r writes : Nat} {rest : List g.Buffer} :
      (Stack.push (.flushWriting scope r writes rest) base).Beneath n.stack →
      InRound m x base rest r n → Flushing n
  | writingBack {n : Machine g} {r writes : Nat} {rest : List g.Buffer} :
      Writing x (.push (.flushWriting scope (r + 1) writes rest) base) n →
      Reaches (¬ Returned base ·) m x (r + 2) n → Flushing n
  | returned {w : World g} {v : Unit} :
      Settled (¬ Returned base ·) m x ⟨w, .unit, .give v, base⟩ → Flushing ⟨w, .unit, .give v, base⟩

end Rounds

variable {scope : Scope} {i : g.Buffer} {rest : List g.Buffer} {r : Nat}

theorem InRound.moves (h : InRound m x base rest r n) (hm : m.Reachable)
    (hon : ¬ n.Returned base) (hmove : n.Moves n') : InRound m x base rest r n' :=
  h.imp (fun hrest => ⟨hrest.1, hrest.2.moves hm hon hmove⟩) fun hr => hr.moves hm hon hmove

/-- The round is through with a buffer that is not `x`, or whose change is settled. -/
theorem InRound.tail (h : InRound m x base (i :: rest) r n)
    (hi : x = i → Settled (¬ Returned base ·) m x n) : InRound m x base rest r n := by
  rcases h with ⟨hmem, hreaches⟩ | hreaches
  · rcases List.mem_cons.mp hmem with heq | hrest
    · exact .inr (.of_settled (hi heq) r)
    · exact .inl ⟨hrest, hreaches⟩
  · exact .inr hreaches

theorem InRound.reaches (h : InRound m x base rest r n) :
    Reaches (¬ Returned base ·) m x (r + 1) n :=
  h.elim And.right Reaches.succ

theorem identity_ne_of_covers (hm : scope.covers (m.world.cache.header x).device = true)
    (hn : scope.covers (n.world.cache.header x).device = false) :
    n.identity x ≠ m.identity x := by
  intro h
  have hcontent : (n.world.cache.header x).content = (m.world.cache.header x).content :=
    congrArg Prod.fst h
  have hdevice : (n.world.cache.header x).device = (m.world.cache.header x).device :=
    congrArg Block.device (Cache.blockOf_congr hcontent)
  rw [hdevice, hm] at hn
  cases hn

/-! ## A flush takes a change on -/

/-- A buffer that the flush passes over without a wait is no more for a device that the flush
covers, so its change is settled. -/
theorem Flushing.flushBuffers {w w' : World g} {writes : Nat} {next : Next g .unit}
    (hm : m.Reachable) (hcovers : scope.covers (m.world.cache.header x).device = true)
    (hround : InRound m x base rest r
      ⟨w, .unit, .run (.flushBuffers scope r writes rest), base⟩)
    (hmove : Moves ⟨w, .unit, .run (.flushBuffers scope r writes rest), base⟩
      (next.machine w' base))
    (hnext : w.flushBuffers scope r writes rest = .ok (w', next)) :
    Flushing scope m x base (next.machine w' base) := by
  have hon : ¬ Returned base ⟨w, .unit, .run (.flushBuffers scope r writes rest), base⟩ := nofun
  cases rest with
  | nil =>
    have hreaches := hround.resolve_left fun h => List.not_mem_nil h.1
    cases hnext
    exact .rounds (hreaches.moves hm hon hmove)
  | cons i rest =>
    simp only [World.flushBuffers] at hnext
    split at hnext
    · cases hnext
      exact .awaiting .here (hround.moves hm hon hmove)
    · rename_i hother
      cases hnext
      refine .buffers (InRound.moves (hround.tail ?_) hm hon hmove)
      rintro rfl
      refine hround.reaches.settled hm (.inr (identity_ne_of_covers hcovers ?_))
      exact Bool.eq_false_of_not_eq_true hother

/-- Buffer `i` is unlocked.  If it is `x`, its change is settled, or about to be written. -/
theorem Flushing.flushReady {w w' : World g} {v : Unit} {writes : Nat} {next : Next g .unit}
    (hm : m.Reachable) (hcovers : scope.covers (m.world.cache.header x).device = true)
    (hround : InRound m x base (i :: rest) r
      ⟨w, .unit, .give v, .push (.flushAwaiting scope r writes i rest) base⟩)
    (hunlocked : (w.cache.header i).locked = false)
    (hmove : Moves ⟨w, .unit, .give v, .push (.flushAwaiting scope r writes i rest) base⟩
      (next.machine w' base))
    (hnext : w.flushReady scope r writes i rest = .ok (w', next)) :
    Flushing scope m x base (next.machine w' base) := by
  have hon : ¬ Returned base
      ⟨w, .unit, .give v, .push (.flushAwaiting scope r writes i rest) base⟩ := by
    rintro ⟨_, _, heq⟩
    cases heq
  unfold World.flushReady at hnext
  dsimp only at hnext
  split at hnext
  · cases hnext
    by_cases hx : x = i
    · subst hx
      cases r with
      | zero =>
        have hsettled := hround.reaches.of_unlocked hm hunlocked
        exact .writing .here (.inr (.of_settled (hsettled.moves hon hmove) 0))
      | succ r => exact .writingBack .request (hround.reaches.moves hm hon hmove)
    · exact .writing .here ((hround.tail fun h => absurd h hx).moves hm hon hmove)
  · rename_i hneedless
    cases hnext
    refine .buffers (InRound.moves (hround.tail ?_) hm hon hmove)
    rintro rfl
    rw [Bool.and_eq_true, not_and_or, Bool.not_eq_true, Bool.not_eq_true] at hneedless
    rcases hneedless with hother | hclean
    · exact hround.reaches.settled hm (.inr (identity_ne_of_covers hcovers hother))
    · exact hround.reaches.settled hm (.inl ⟨hunlocked, hclean⟩)

/-- Wherever a flush has come to, a move goes on with it, and takes no change back. -/
theorem Flushing.moves (h : Flushing scope m x base n) (hm : m.Reachable)
    (hcovers : scope.covers (m.world.cache.header x).device = true) (hn : n.Reachable)
    (hon : ¬ n.Returned base) (hmove : n.Moves n') : Flushing scope m x base n' := by
  cases h with
  | @rounds w r writes hreaches =>
    obtain ⟨w', next, hnext, rfl⟩ := moves_of_run hmove
    cases r with
    | zero =>
      cases hnext
      exact .returned (hreaches.moves hm hon hmove)
    | succ r =>
      cases hnext
      exact .announcing .here (hreaches.moves hm hon hmove)
  | @announcing _ r writes hbeneath hreaches =>
    by_cases hreturned : n.Returned (.push (.announcing scope r writes) base)
    · obtain ⟨w, v, w', next, rfl, hnext, rfl⟩ := moves_of_returned hreturned hmove
      cases hnext
      exact .buffers (.inl ⟨g.mem_allBuffers x, hreaches.moves hm hon hmove⟩)
    · exact .announcing (beneath_moves hbeneath hmove hreturned) (hreaches.moves hm hon hmove)
  | @buffers w r writes rest hround =>
    obtain ⟨w', next, hnext, rfl⟩ := moves_of_run hmove
    exact .flushBuffers hm hcovers hround hmove hnext
  | @awaiting _ r writes i rest hbeneath hround =>
    by_cases hreturned : n.Returned (.push (.flushAwaiting scope r writes i rest) base)
    · obtain ⟨w, v, w', next, rfl, hnext, rfl⟩ := moves_of_returned hreturned hmove
      exact .flushReady hm hcovers hround hn.consistent.orderly.1 hmove hnext
    · exact .awaiting (beneath_moves hbeneath hmove hreturned) (hround.moves hm hon hmove)
  | @writing _ r writes rest hbeneath hround =>
    by_cases hreturned : n.Returned (.push (.flushWriting scope r writes rest) base)
    · obtain ⟨w, v, w', next, rfl, hnext, rfl⟩ := moves_of_returned hreturned hmove
      cases hnext
      exact .buffers (hround.moves hm hon hmove)
    · exact .writing (beneath_moves hbeneath hmove hreturned) (hround.moves hm hon hmove)
  | @writingBack _ r writes rest hwriting hreaches =>
    have hreaches' := hreaches.moves hm hon hmove
    rcases hwriting.moves hmove with hwriting' | ⟨hclean, hbeneath⟩
    · exact .writingBack hwriting' hreaches'
    · exact .writing hbeneath (.inr ((hreaches'.of_clean hclean).mono (Nat.le_add_left 1 r)))
  | returned => exact absurd ⟨_, _, rfl⟩ hon

/-- A flush that is over has settled the change. -/
theorem Flushing.settled (h : Flushing scope m x base n) (hover : n.Returned base) :
    Settled (¬ Returned base ·) m x n := by
  obtain ⟨w, v, rfl⟩ := hover
  cases h with
  | announcing hbeneath => exact absurd hbeneath (Stack.not_push_beneath _ _)
  | awaiting hbeneath => exact absurd hbeneath (Stack.not_push_beneath _ _)
  | writing hbeneath => exact absurd hbeneath (Stack.not_push_beneath _ _)
  | writingBack hwriting => exact absurd hwriting.beneath (Stack.not_push_beneath _ _)
  | returned hsettled => exact hsettled

/-- If a flush returns, every change that was pending in a buffer with a block of its devices
as it was called is settled, in every session and whatever other tasks and drivers do
meanwhile. -/
theorem Reachable.settled_of_flush {w : World g} {b : Block}
    (h : Reachable ⟨w, .unit, .run (.flush scope), base⟩)
    (hspan : Leads (¬ Returned base ·) ⟨w, .unit, .run (.flush scope), base⟩ n)
    (hover : n.Returned base) (hb : (w.cache.header x).content = some b)
    (hnames : scope.Names b.device) (hdirty : (w.cache.header x).dirty = true) :
    Settled (¬ Returned base ·) ⟨w, .unit, .run (.flush scope), base⟩ x n := by
  have hdevice : (w.cache.header x).device = b.device :=
    congrArg Block.device (Cache.blockOf_eq hb)
  have hcovers : scope.covers (w.cache.header x).device = true := by
    rw [hdevice]
    exact Scope.covers_of_names hnames (h.chained.named trivial hb)
  have hflushing : n = ⟨w, .unit, .run (.flush scope), base⟩ ∨
      Flushing scope ⟨w, .unit, .run (.flush scope), base⟩ x base n := by
    clear hover
    induction hspan with
    | refl => exact .inl rfl
    | @tail a b hpath hmove ih =>
      refine .inr ?_
      rcases ih with rfl | hflushing
      · obtain ⟨w', next, hnext, rfl⟩ := moves_of_run hmove.2
        cases hnext
        exact .rounds (Reaches.moves (r := 2) (.inl ⟨.refl, hdirty, rfl⟩) h hmove.1 hmove.2)
      · exact hflushing.moves h hcovers (h.leads hpath) hmove.1 hmove.2
  rcases hflushing with rfl | hflushing
  · obtain ⟨_, _, heq⟩ := hover
    cases heq
  · exact hflushing.settled hover

/-- A session in which a block was acquired and marked as changed, and its device is about to
be flushed.  The driver ends transfers only when another task tells it to, which is the first
to run once the flush gives way. -/
def flushedLate : Machine Geometry.small :=
  let registered := (start ((World.initial Geometry.small).fresh [])
    (.register 1 ⟨1, .manual []⟩ [])).after 30
  let acquired := (registered.next [] (.acquire ⟨257, 3⟩ (some "h"))).after 30
  let marked := (acquired.next [] (.markDirty "h")).after 30
  (marked.next [[.finish 1 true]] (.flush (.device 257))).after 1

/-- The flush settles the change in its second round. -/
theorem settled_of_late_transfer :
    ∃ n : Machine Geometry.small, flushedLate.Reachable ∧
      flushedLate.dirty Geometry.small.firstBuffer = true ∧ n.Returned flushedLate.stack ∧
      Settled (¬ Returned flushedLate.stack ·) flushedLate Geometry.small.firstBuffer n := by
  have registered := (@reachable_start Geometry.small [] (.register 1 ⟨1, .manual []⟩ [])).after 30
  have acquired := (registered.next [] (.acquire ⟨257, 3⟩ (some "h"))).after 30
  have marked := (acquired.next [] (.markDirty "h")).after 30
  have h : flushedLate.Reachable := (marked.next [[.finish 1 true]] (.flush (.device 257))).after 1
  have hreturned : (flushedLate.after 33).Returned flushedLate.stack := ⟨_, (), rfl⟩
  obtain ⟨n, hspan, hover⟩ := exists_leads_of_after hreturned
  have hdirty : flushedLate.dirty Geometry.small.firstBuffer = true := by decide
  exact ⟨n, h, hdirty, hover, Reachable.settled_of_flush (w := flushedLate.world) (b := ⟨257, 3⟩) h
    hspan hover rfl rfl hdirty⟩

end Machine
end BufferCache
