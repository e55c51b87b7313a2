import BufferCache.Proofs.Finishing

/-!
# No call spins

Three calls have loops of which no counter says when they end: a look-up looks again if its
buffer was given another block while it waited, a call that gets a buffer begins anew wherever
something has changed, and it flushes again if its victim was made dirty again.  Each of them
goes round again only if others acted in the meantime, that is, if a script was taken up.  As
scripts run out, so do the rounds.

`Machine.Provoked` says that about a kind of step.  Its proof follows the call from one such
step on: left alone, it comes to a value without another one.
-/

namespace BufferCache

variable {g : Geometry}

/-! ## The rounds of a loop -/

/-- The step looks a block up: it is not in the cache, or its buffer is referenced and waited
for. -/
def Next.searches : {s : Shape} → Next g s → Bool
  | .found, .done v => Option.isNone v
  | _, .call _ (.pinning _ _) => true
  | _, _ => false

/-- If the next step is one that the call above `base` takes itself, and one of the kind `p`,
then the call takes another step of this kind only after a script was taken up. -/
def Machine.Provoked {s : Shape} (base : Stack g s) (p : Next g s → Bool) (m : Machine g) :
    Prop :=
  ∀ n m₁ m₂ n', m.Proceeds base n → p n = true → m.Steps m₁ →
    Leads (fun x => ¬ x.Returned base ∧ ¬ x.Enters) m₁ m₂ → m₂.Proceeds base n' → p n' = false

section Rounds

variable {s : Shape} {base : Stack g s} {m m' : Machine g} {n : Next g s} {p : Next g s → Bool}

/-- Only calls without a value, and the check of a medium, take scripts up themselves. -/
theorem Call.enters_eq_false {c : Call g s} (hs : s ≠ .unit ∧ s ≠ .flag) (w : World g) :
    c.enters w = false := by
  cases c <;> first | rfl | exact absurd rfl hs.1 | exact absurd rfl hs.2

theorem Machine.Proceeds.not_enters (h : m.Proceeds base n) (hs : s ≠ .unit ∧ s ≠ .flag) :
    ¬ m.Enters := by
  cases h with
  | begin _ => exact Bool.eq_false_iff.mp (Call.enters_eq_false hs _)
  | resume _ => exact id

theorem Machine.Proceeds.not_returned (h : m.Proceeds base n) : ¬ m.Returned base := by
  rintro ⟨w, v, hm⟩
  cases h with
  | begin _ => cases hm
  | @resume _ w _ f v _ _ =>
    have hbeneath : (Stack.push f base).Beneath
        (⟨w, _, .give v, .push f base⟩ : Machine g).stack := .here
    rw [hm] at hbeneath
    exact Stack.not_push_beneath f base hbeneath

/-- The step is determined, and so is what comes next. -/
theorem Machine.Proceeds.steps (h : m.Proceeds base n) (hs : m.Steps m') :
    m' = n.machine m'.world base := by
  cases h with
  | begin hn =>
    cases hs with
    | begin _ hn' =>
      cases hn.symm.trans hn'
      rw [Machine.world_next]
  | resume hn =>
    cases hs with
    | resume _ hn' =>
      cases hn.symm.trans hn'
      rw [Machine.world_next]

/-- What it takes: from each step of the kind on, the call comes to a value or to a stop
without another one. -/
theorem Machine.provoked_of_completes (hs : s ≠ .unit ∧ s ≠ .flag)
    (h : ∀ n m₁, m.Proceeds base n → p n = true → m.Steps m₁ →
      m₁.Completes False base (fun n => p n = false) fun _ _ => True) : m.Provoked base p := by
  intro n m₁ m₂ n' hm hn hstep hspan hm₂
  have hcompletes := (h n m₁ hm hn hstep).through hspan
  refine (hcompletes.alone fun hover => ?_).proceeds n' hm₂
  obtain ⟨-, henters | ⟨e, he⟩⟩ | ⟨w, v, rfl, -⟩ := hover
  · exact hm₂.not_enters hs henters
  · cases hm₂ with
    | begin hn => cases (step_of_steps (.begin base hn)).symm.trans he
    | resume hn => cases (step_of_steps (.resume base hn)).symm.trans he
  · exact hm₂.not_returned ⟨w, v, rfl⟩

end Rounds

/-! ## Looking up -/

section LookingUp

variable {w : World g} {b : Block} {i : g.Buffer}

/-- Left alone, a look-up that has found a buffer keeps it. -/
theorem Machine.completes_pinning (hi : w.cache.buffers.locate b = some i)
    (base : Stack g .found) :
    Machine.Completes False base (fun n => n.searches = false) (fun _ _ => True)
      ⟨w.mapCache (·.refer i), .unit, .run (.awaitUnlock i), .push (.pinning b i) base⟩ := by
  have hwait : (Call.awaitUnlock i).Completes False _ (w.mapCache (·.refer i)) :=
    Call.completes_awaitUnlock False.elim
  refine (hwait.machine _).bind fun w' v h => ?_
  rw [h.1]
  refine Frame.machine_of_completes (Q := fun _ _ => True) ?_ base
  change ((w.mapCache (·.refer i)).pinned b i).Completes _ _ _
  rw [World.pinned_eq hi]
  exact .done rfl trivial

/-- A look-up looks again only after a script was taken up. -/
theorem Machine.provoked_searches (m : Machine g) (base : Stack g .found) :
    m.Provoked base Next.searches := by
  refine provoked_of_completes (by decide) fun n m₁ hm hn hstep => ?_
  rw [hm.steps hstep]
  cases hm with
  | @begin w w' c n hbegin =>
    cases c with
    | lookUp b =>
      have hlookUp : w.lookUp b = .ok (w', n) := hbegin
      unfold World.lookUp at hlookUp
      split at hlookUp
      · cases hlookUp
        exact ⟨_, .refl, .inr ⟨_, _, rfl, trivial⟩⟩
      · rename_i i hi
        cases hlookUp
        cases hstep with
        | begin _ hbegin' =>
          cases hbegin.symm.trans hbegin'
          exact completes_pinning hi base
  | @resume a w w' f v n hresume =>
    cases f with
    | pinning b i =>
      have hpinned : w.pinned b i = .ok (w', n) := hresume
      unfold World.pinned at hpinned
      split at hpinned
      · cases hpinned
        cases hn
      · split at hpinned
        · cases hpinned
        · cases hpinned
          cases hn

end LookingUp

/-! ## Getting a buffer -/

section Getting

variable {w : World g} {b : Block} {i : g.Buffer}

theorem World.acquire_ensures (w : World g) (b : Block) :
    (w.acquire b).Ensures fun _ n => n.attempts = false ∧ n.flushesVictim = false := by
  unfold acquire
  split
  · exact Outcome.ensures_fault
  · exact Outcome.ensures_goto ⟨rfl, rfl⟩

theorem World.lookedUp_ensures (w : World g) (b : Block) (found : Option (Hold g)) :
    (w.lookedUp b found).Ensures fun _ n => n.attempts = false ∧ n.flushesVictim = false := by
  cases found with
  | some h => exact Outcome.ensures_done ⟨rfl, rfl⟩
  | none =>
    refine Outcome.ensures_orFault fun victim _ => ?_
    cases victim with
    | none => exact Outcome.ensures_call ⟨rfl, rfl⟩
    | some i => exact Outcome.ensures_call ⟨rfl, rfl⟩

/-- A victim is flushed only if it has no references. -/
theorem World.victimReady_ensures (w : World g) (b : Block) (i : g.Buffer) :
    (w.victimReady b i).Ensures fun w' n => n.attempts = false ∧ (n.flushesVictim = true →
      (w.cache.header i).references = 0 ∧ w'.cache = w.cache ∧
        n = .call (.flush (.device (w.cache.header i).device)) (.flushingVictim b i)) := by
  unfold victimReady
  dsimp only
  split
  · exact Outcome.ensures_goto ⟨rfl, nofun⟩
  rename_i hreferences
  split
  · exact Outcome.ensures_call ⟨rfl, fun _ => ⟨not_not.mp hreferences, rfl, rfl⟩⟩
  split
  · exact Outcome.ensures_goto ⟨rfl, nofun⟩
  · exact Outcome.ensures_orFault fun _ _ => Outcome.ensures_done ⟨rfl, nofun⟩

/-- Attempts are begun by `obtain`. -/
theorem Machine.Proceeds.of_attempts {m : Machine g} {base : Stack g .hold} {n : Next g .hold}
    (h : m.Proceeds base n) (hn : n.attempts = true) :
    ∃ b, n = .call (.lookUp b) (.lookingUp b) := by
  cases h with
  | @begin w w' c n hbegin =>
    cases c with
    | obtain b =>
      cases hbegin
      exact ⟨b, rfl⟩
    | acquire b =>
      exact absurd hn (Bool.eq_false_iff.mp (w.acquire_ensures b w' n hbegin).1)
  | @resume a w w' f v n hresume =>
    cases f with
    | lookingUp b =>
      exact absurd hn (Bool.eq_false_iff.mp (w.lookedUp_ensures b v w' n hresume).1)
    | awaitingVictim b i =>
      exact absurd hn (Bool.eq_false_iff.mp (w.victimReady_ensures b i w' n hresume).1)
    | starving b =>
      cases hresume
      cases hn
    | flushingVictim b i =>
      cases hresume
      cases hn

/-- A victim that is flushed is dirty and has no references. -/
theorem Machine.Proceeds.of_flushesVictim {m m' : Machine g} {base : Stack g .hold}
    {n : Next g .hold} (h : m.Proceeds base n) (hn : n.flushesVictim = true)
    (hs : m.Steps m') : ∃ b i, (m'.world.cache.header i).references = 0 ∧
      n = .call (.flush (.device (m'.world.cache.header i).device)) (.flushingVictim b i) := by
  cases h with
  | @begin w w' c n hbegin =>
    cases c with
    | obtain b =>
      cases hbegin
      cases hn
    | acquire b =>
      exact absurd hn (Bool.eq_false_iff.mp (w.acquire_ensures b w' n hbegin).2)
  | @resume a w w' f v n hresume =>
    cases f with
    | lookingUp b =>
      exact absurd hn (Bool.eq_false_iff.mp (w.lookedUp_ensures b v w' n hresume).2)
    | awaitingVictim b i =>
      obtain ⟨hreferences, hcache, heq⟩ := (w.victimReady_ensures b i w' n hresume).2 hn
      have hworld : m'.world = w' := by
        cases hs with
        | resume _ hresume' =>
          cases hresume.symm.trans hresume'
          exact world_next _ _ _
      rw [hworld, hcache]
      exact ⟨b, i, hreferences, heq⟩
    | starving b =>
      cases hresume
      cases hn
    | flushingVictim b i =>
      cases hresume
      cases hn

/-- A call that gets a buffer begins another attempt only after a script was taken up. -/
theorem Machine.provoked_attempts (m : Machine g) (base : Stack g .hold) :
    m.Provoked base Next.attempts := by
  refine provoked_of_completes (by decide) fun n m₁ hm hn hstep => ?_
  obtain ⟨b, rfl⟩ := hm.of_attempts hn
  rw [hm.steps hstep]
  have hlookUp : (Call.lookUp b).Completes False _ m₁.world :=
    Call.completes_lookUp False.elim
  refine (hlookUp.machine _).bind fun w' found hfound => ?_
  have hlookedUp : (w'.lookedUp b found).Completes False (fun n => n.attempts = false) _ :=
    World.completes_lookedUp hfound False.elim fun n hn => hn
  exact Frame.machine_of_completes (hlookedUp.post fun _ _ _ => trivial) base

/-- A call that gets a buffer has a victim flushed again only after a script was taken up. -/
theorem Machine.provoked_flushes (m : Machine g) (base : Stack g .hold) :
    m.Provoked base Next.flushesVictim := by
  refine provoked_of_completes (by decide) fun n m₁ hm hn hstep => ?_
  obtain ⟨b, i, hreferences, rfl⟩ := hm.of_flushesVictim hn hstep
  rw [hm.steps hstep]
  have hflush : (Call.flush (.device (m₁.world.cache.header i).device)).Completes False _
      m₁.world := Call.completes_flush False.elim
  refine (hflush.machine _).bind fun w' v hflushed => ?_
  have hclean : (w'.cache.header i).dirty = false :=
    hflushed.2 i (g.mem_allBuffers i) (beq_self_eq_true _)
  refine Frame.machine_of_completes (World.completes_flushedVictim ?_ hclean fun n hn => hn) base
  rw [hflushed.1.cache.references]
  exact hreferences

end Getting

/-! ## Nothing spins -/

namespace Machine

/-- The machine does not spin. -/
structure Terminates (m : Machine g) : Prop where
  /-- The command is answered, or the cache is at fault, or a call gives way and the scripts of
  other tasks are used up. -/
  ends : ∃ n, (∃ w a, m.run n = .answered w a) ∨ (∃ f, m.run n = .halted (.fault f)) ∨
    m.run n = .halted .deadlock
  /-- Every call, at whatever depth, comes to its value, unless everything halts. -/
  returns : ∀ {s : Shape} (base : Stack g s), base.Beneath m.stack →
    m.Halts ∨ ∃ m', Leads (fun x => ¬ x.Returned base) m m' ∧ m'.Returned base
  /-- A look-up looks again only after a script was taken up. -/
  searches : ∀ base : Stack g .found, m.Provoked base Next.searches
  /-- A call that gets a buffer begins another attempt only after a script was taken up. -/
  attempts : ∀ base : Stack g .hold, m.Provoked base Next.attempts
  /-- It has a victim flushed again only after a script was taken up. -/
  flushes : ∀ base : Stack g .hold, m.Provoked base Next.flushesVictim
  /-- The links that are followed to find a block come to an end, and to no buffer twice. -/
  chain : ∀ k, Threaded (fun i => (m.world.cache.header i).chainPrev)
      (fun i => (m.world.cache.header i).chainNext) none (m.world.cache.buffers.first k)
        (m.world.cache.buffers.chain k) ∧ (m.world.cache.buffers.chain k).Nodup
  /-- The ring from which a victim is chosen comes back to its head, and to no buffer twice. -/
  ring : ∃ order, m.world.cache.buffers.ring = .ok order ∧ m.world.cache.buffers.Rings order

/-- In every session, whatever clients, drivers and listeners do, nothing spins. -/
theorem Reachable.terminates {m : Machine g} (h : m.Reachable) : m.Terminates where
  ends := by
    obtain ⟨n, hn⟩ := m.comesToEnd
    refine ⟨n, ?_⟩
    cases hrun : m.run n with
    | answered w a => exact .inl ⟨w, a, rfl⟩
    | halted e =>
      cases e with
      | fault f => exact .inr (.inl ⟨f, rfl⟩)
      | deadlock => exact .inr (.inr rfl)
    | exhausted => exact absurd hrun hn
  returns _ hbase := returns_or_halts hbase
  searches := m.provoked_searches
  attempts := m.provoked_attempts
  flushes := m.provoked_flushes
  chain k := ⟨h.chained.threaded_chain k, h.chained.nodup_chain k⟩
  ring := by
    obtain ⟨order, horder, -⟩ := h.ringed
    exact ⟨order, horder.ring_eq, horder⟩

/-- A machine with a single buffer, which is in use, about to begin an attempt to get it for
another block.  Whoever uses it gives it back once the call gives way. -/
def starved : Machine Geometry.single :=
  let w := (World.initial Geometry.single).fresh []
  let held := (start w (.acquire ⟨257, 3⟩ (some "h"))).after 20
  (held.next [[.release "h"]] (.acquire ⟨257, 5⟩ none)).after 2

/-- It begins another attempt after the script. -/
theorem terminates_of_starvation :
    starved.Reachable ∧
      (∃ n, starved.Proceeds (.push (.keepHold none) .bottom) n ∧ n.attempts = true) ∧
      (∃ n, (starved.after 15).Proceeds (.push (.keepHold none) .bottom) n ∧ n.attempts = true) ∧
      starved.Terminates := by
  have held := (@reachable_start Geometry.single [] (.acquire ⟨257, 3⟩ (some "h"))).after 20
  have h : starved.Reachable := (held.next [[.release "h"]] (.acquire ⟨257, 5⟩ none)).after 2
  exact ⟨h, ⟨_, .begin rfl, rfl⟩, ⟨_, .begin rfl, rfl⟩, h.terminates⟩

end Machine
end BufferCache
