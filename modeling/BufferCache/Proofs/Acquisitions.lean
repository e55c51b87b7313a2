import BufferCache.Proofs.OwnSteps

/-!
# What comes of taking a buffer

Whoever takes a buffer for a block may have to wait for the buffer of the block, for some
buffer without references, for the unlocking of the victim, and for a flush of its device.  All
the while others take, change, lock and give back buffers, and may bring in the same block.

`Acquiring` says where the taking has come to.  Nothing that was found out before a wait is
remembered after it, so nothing more needs to be said than which call waits for what, and the
two moves with which the taking can end are looked at by themselves: a look-up has found the
block, or the victim is given it.  Both check in one step all that they rely on.
`Reachable.acquires` puts together what is known then.
-/

namespace BufferCache

variable {g : Geometry}

namespace Machine

variable {m m' n n' : Machine g} {b : Block} {i j : g.Buffer} {k : Int}
  {base : Stack g .hold}

/-! ## Giving a buffer another block -/

/-- From `m` to `n`, buffer `i` is given block `b`: what was checked before, and what is changed
by it. -/
structure Reassigns (b : Block) (i : g.Buffer) (m n : Machine g) : Prop where
  /-- The block is not in the cache. -/
  absent : m.world.cache.contains b = false
  /-- There are no references to the buffer. -/
  free : m.references i = 0
  /-- It is not locked. -/
  unlocked : (m.world.cache.header i).locked = false
  /-- It is not dirty. -/
  clean : (m.world.cache.header i).dirty = false
  /-- It is given the block, one reference and the next generation, and no flag is set. -/
  given : (n.world.cache.header i).bare = ((m.world.cache.header i).assign b).bare
  /-- All other buffers are as before. -/
  others : ∀ j, j ≠ i → (n.world.cache.header j).bare = (m.world.cache.header j).bare
  /-- In the cache are that block and all that were in it but the one that the buffer had. -/
  cached : ∀ b', n.world.cache.contains b' = true ↔
    b' = b ∨ m.world.cache.contains b' = true ∧ m.content i ≠ some b'
  /-- No bytes are changed. -/
  pages : ∀ j, n.world.cache.page j = m.world.cache.page j

/-- A block is in the cache if some buffer has it. -/
theorem Reachable.contains_iff (h : m.Reachable) {b : Block} :
    m.world.cache.contains b = true ↔ ∃ j, m.content j = some b := by
  rw [Cache.contains, Option.isSome_iff_exists]
  exact exists_congr fun j => h.chained.locate_eq_some_iff.trans (and_iff_right trivial)

theorem Reachable.contains_eq_false_iff (h : m.Reachable) {b : Block} :
    m.world.cache.contains b = false ↔ ∀ j, m.content j ≠ some b := by
  rw [← Bool.not_eq_true, h.contains_iff, not_exists]

/-- No two buffers have the same block. -/
theorem Reachable.eq_of_content (h : m.Reachable) (hi : m.content i = some b)
    (hj : m.content j = some b) : i = j :=
  h.chained.unique trivial trivial hi hj

theorem page_assign (c : Cache g) (i j : g.Buffer) (s : Buffers g) :
    (c.assign i s).page j = c.page j := by
  unfold Cache.assign
  split <;> rfl

/-- What the effect amounts to. -/
theorem Reachable.reassigns_of_assign (h : m.Reachable) (hn : n.Reachable) {s : Buffers g}
    (hfits : (Effect.assign i b s).Fits m.world.cache)
    (happly : n.world.cache = m.world.cache.assign i s) : m.Reassigns b i n := by
  obtain ⟨hfree, hclean, hunlocked, habsent, hassign⟩ := hfits
  have hbare (j : g.Buffer) : (n.world.cache.header j).bare =
      (if i = j then (m.world.cache.header j).assign b else m.world.cache.header j).bare := by
    rw [happly, Cache.header_assign]
    exact Buffers.bare_reassign hassign j
  have hgiven : (n.world.cache.header i).bare = ((m.world.cache.header i).assign b).bare :=
    (hbare i).trans (congrArg Header.bare (if_pos rfl))
  have hothers (j : g.Buffer) (hj : j ≠ i) :
      (n.world.cache.header j).bare = (m.world.cache.header j).bare :=
    (hbare j).trans (congrArg Header.bare (if_neg hj.symm))
  have hcontent : n.content i = some b := (congrArg Header.content hgiven :)
  have hsame (j : g.Buffer) (hj : j ≠ i) : n.content j = m.content j :=
    (congrArg Header.content (hothers j hj) :)
  refine ⟨?_, hfree, hunlocked, hclean, hgiven, hothers, fun b' => ?_, fun j => ?_⟩
  · rw [Cache.contains, habsent]
    rfl
  · rw [hn.contains_iff, h.contains_iff]
    constructor
    · rintro ⟨j, hj⟩
      by_cases hji : j = i
      · subst hji
        exact .inl (Option.some.inj (hj.symm.trans hcontent))
      · rw [hsame j hji] at hj
        exact .inr ⟨⟨j, hj⟩, fun hi => hji (h.eq_of_content hj hi)⟩
    · rintro (rfl | ⟨⟨j, hj⟩, hi⟩)
      · exact ⟨i, hcontent⟩
      · have hji : j ≠ i := by
          rintro rfl
          exact hi hj
        exact ⟨j, (hsame j hji).trans hj⟩
  · rw [happly, page_assign]

/-- A buffer is given another block by a call that takes it for that block, and by no other
move. -/
theorem Reachable.reassigns_of_content (h : m.Reachable) (hm : m.Moves n)
    (hi : n.content i ≠ m.content i) : ∃ (b : Block) (base : Stack g .hold),
      m.Returned (.push (.awaitingVictim b i) base) ∧ m.Reassigns b i n := by
  cases hm with
  | next waiting c => exact absurd rfl hi
  | @step m n hs =>
    obtain ⟨⟨e, hfits, happly, hdue⟩, -⟩ := hs.affects h.aimed
    unfold content at hi
    rw [happly] at hi
    have hassign : ∃ b s, e = .assign i b s := by
      by_contra hne
      exact hi (Effect.keeps_of_ne hfits fun b s he => hne ⟨b, s, he⟩).1
    obtain ⟨b, s, rfl⟩ := hassign
    have hbegins := hdue _ rfl
    cases hs with
    | begin stack hn => cases ‹Call g _› <;> cases hbegins
    | @resume a a' w w' f v next stack hn =>
      cases f with
      | awaitingVictim b' i' =>
        cases hbegins
        exact ⟨b, stack, ⟨w, v, rfl⟩,
          h.reassigns_of_assign (h.moves (.step (.resume stack hn))) hfits happly⟩
      | _ => cases hbegins

/-! ## Where the taking of a buffer has come to -/

/-- The taking of a buffer for block `b` ends with reference `h`: the block was found in its
buffer, or the buffer is given the block. -/
inductive Obtains (b : Block) (base : Stack g .hold) (h : Hold g) (m n : Machine g) : Prop
  | found {w : World g} : m = ⟨w, .found, .give (some h), .push (.lookingUp b) base⟩ →
      (∀ j, n.world.cache.header j = m.world.cache.header j) →
      (∀ j, n.world.cache.page j = m.world.cache.page j) → Obtains b base h m n
  | given : m.Returned (.push (.awaitingVictim b h.buffer) base) →
      m.Reassigns b h.buffer n → Obtains b base h m n

/-- The reference is to the buffer that holds the block, in its present generation, and the
buffer is not locked. -/
structure Current (b : Block) (h : Hold g) (m : Machine g) : Prop where
  /-- The buffer holds the block. -/
  holds : m.content h.buffer = some b
  /-- It is not locked. -/
  unlocked : (m.world.cache.header h.buffer).locked = false
  /-- It is in the generation of the reference. -/
  generation : m.generation h.buffer = h.generation

/-- Where the taking of a buffer for block `b` above `base` has come to. -/
inductive Acquiring (b : Block) (base : Stack g .hold) (m : Machine g) : Machine g → Prop
  | begins {w : World g} : Acquiring b base m ⟨w, .hold, .run (.acquire b), base⟩
  | attempts {w : World g} : Acquiring b base m ⟨w, .hold, .run (.obtain b), base⟩
  | looksUp {w : World g} :
      Acquiring b base m ⟨w, .found, .run (.lookUp b), .push (.lookingUp b) base⟩
  | pinning {n : Machine g} {i : g.Buffer} :
      (Stack.push (.pinning b i) (.push (.lookingUp b) base)).Beneath n.stack →
      Acquiring b base m n
  | looked {w : World g} {found : Option (Hold g)} :
      (∀ h, found = some h → Current b h ⟨w, .found, .give found, .push (.lookingUp b) base⟩) →
      Acquiring b base m ⟨w, .found, .give found, .push (.lookingUp b) base⟩
  | starving {n : Machine g} : (Stack.push (.starving b) base).Beneath n.stack →
      Acquiring b base m n
  | awaiting {n : Machine g} {i : g.Buffer} :
      (Stack.push (.awaitingVictim b i) base).Beneath n.stack → Acquiring b base m n
  | flushing {n : Machine g} {i : g.Buffer} :
      (Stack.push (.flushingVictim b i) base).Beneath n.stack → Acquiring b base m n
  | returned {a : Machine g} {w : World g} {h : Hold g} : Leads (¬ Returned base ·) m a →
      ¬ a.Returned base → a.Moves ⟨w, .hold, .give h, base⟩ →
      a.Obtains b base h ⟨w, .hold, .give h, base⟩ → Current b h ⟨w, .hold, .give h, base⟩ →
      Acquiring b base m ⟨w, .hold, .give h, base⟩

/-- The victim is unlocked: the attempt begins anew, or its device is flushed, or it is given
the block. -/
theorem victimReady_eq_ok {w w' : World g} {next : Next g .hold}
    (h : w.victimReady b i = .ok (w', next)) : next = .goto (.obtain b) ∨
      (∃ d, next = .call (.flush (.device d)) (.flushingVictim b i)) ∨
      next = .done (w'.cache.hold i) ∧
        ∃ s, (Effect.assign i b s).Fits w.cache ∧ w'.cache = w.cache.assign i s := by
  unfold World.victimReady at h
  dsimp only at h
  split at h
  · cases h
    exact .inl rfl
  split at h
  · cases h
    exact .inr (.inl ⟨_, rfl⟩)
  split at h
  · cases h
    exact .inl rfl
  rename_i hrefs hdirty hfree
  simp only [Bool.or_eq_true, not_or, Bool.not_eq_true] at hfree
  have hnone : w.cache.buffers.locate b = none := by
    simpa [Cache.contains] using hfree.1
  unfold World.replace at h
  cases hs : w.cache.buffers.reassign i b with
  | error f =>
    rw [hs] at h
    cases h
  | ok s =>
    rw [hs] at h
    cases h
    refine .inr (.inr ⟨rfl, s, ⟨?_, ?_, hfree.2, hnone, hs⟩, ?_⟩)
    · simpa using hrefs
    · simpa using hdirty
    · rw [World.cache_reportMiss]
      rfl

/-- The buffer is unlocked that a look-up has waited for. -/
theorem Acquiring.awaited {w w' : World g} {next : Next g .found}
    (hunlocked : (w.cache.header i).locked = false) (hnext : w.pinned b i = .ok (w', next)) :
    Acquiring b base m (next.machine w' (.push (.lookingUp b) base)) := by
  unfold World.pinned at hnext
  split at hnext
  · rename_i hholds
    cases hnext
    refine .looked ?_
    rintro h ⟨⟩
    exact ⟨beq_iff_eq.mp hholds, hunlocked, rfl⟩
  split at hnext
  · cases hnext
  · cases hnext
    exact .looksUp

/-- A look-up is over: the taking is over too, or waits for a victim or for any buffer. -/
theorem Acquiring.lookedUp {w w' : World g} {found : Option (Hold g)} {next : Next g .hold}
    (hfound : ∀ h, found = some h → Current b h
      ⟨w, .found, .give found, .push (.lookingUp b) base⟩)
    (hspan : Leads (¬ Returned base ·) m ⟨w, .found, .give found, .push (.lookingUp b) base⟩)
    (hmove : Moves ⟨w, .found, .give found, .push (.lookingUp b) base⟩ (next.machine w' base))
    (hnext : w.lookedUp b found = .ok (w', next)) :
    Acquiring b base m (next.machine w' base) := by
  cases found with
  | some h =>
    cases hnext
    obtain ⟨hholds, hunlocked, hgeneration⟩ := hfound h rfl
    exact .returned hspan nofun hmove (.found rfl (fun _ => rfl) fun _ => rfl)
      ⟨hholds, hunlocked, hgeneration⟩
  | none =>
    unfold World.lookedUp at hnext
    cases hvictim : w.cache.buffers.victim with
    | error f =>
      rw [hvictim] at hnext
      cases hnext
    | ok victim =>
      rw [hvictim] at hnext
      cases victim with
      | none =>
        cases hnext
        exact .starving .here
      | some i =>
        cases hnext
        exact .awaiting .here

/-- The victim is unlocked. -/
theorem Acquiring.victimReady {w w' : World g} {v : Unit} {next : Next g .hold}
    (hn : Reachable ⟨w, .unit, .give v, .push (.awaitingVictim b i) base⟩)
    (hspan : Leads (¬ Returned base ·) m ⟨w, .unit, .give v, .push (.awaitingVictim b i) base⟩)
    (hmove : Moves ⟨w, .unit, .give v, .push (.awaitingVictim b i) base⟩ (next.machine w' base))
    (hnext : w.victimReady b i = .ok (w', next)) :
    Acquiring b base m (next.machine w' base) := by
  rcases victimReady_eq_ok hnext with rfl | ⟨d, rfl⟩ | ⟨rfl, s, hfits, happly⟩
  · exact .attempts
  · exact .flushing .here
  · have hreassigns := hn.reassigns_of_assign (hn.moves hmove) hfits happly
    have hgiven := hreassigns.given
    exact .returned hspan nofun hmove (.given ⟨w, v, rfl⟩ hreassigns)
      ⟨(congrArg Header.content hgiven :), (congrArg Header.locked hgiven :), rfl⟩

/-- A move takes the taking of a buffer on. -/
theorem Acquiring.moves (h : Acquiring b base m n) (hspan : Leads (¬ Returned base ·) m n)
    (hn : n.Reachable) (hover : ¬ n.Returned base) (hmove : n.Moves n') :
    Acquiring b base m n' := by
  cases h with
  | @begins w =>
    obtain ⟨w', next, hnext, rfl⟩ := moves_of_run hmove
    change w.acquire b = _ at hnext
    unfold World.acquire at hnext
    split at hnext
    · cases hnext
    · cases hnext
      exact .attempts
  | attempts =>
    obtain ⟨w', next, hnext, rfl⟩ := moves_of_run hmove
    cases hnext
    exact .looksUp
  | @looksUp w =>
    obtain ⟨w', next, hnext, rfl⟩ := moves_of_run hmove
    change w.lookUp b = _ at hnext
    unfold World.lookUp at hnext
    split at hnext
    · cases hnext
      exact .looked nofun
    · cases hnext
      exact .pinning .here
  | @pinning _ i hbeneath =>
    rcases resumes_or_beneath hbeneath hmove with ⟨w, v, w', next, rfl, hnext, rfl⟩ | hstill
    · exact .awaited hn.consistent.orderly.1 hnext
    · exact .pinning hstill
  | @looked w found hfound =>
    obtain ⟨w', next, hnext, rfl⟩ := moves_of_give hmove
    exact .lookedUp hfound hspan hmove hnext
  | starving hbeneath =>
    rcases resumes_or_beneath hbeneath hmove with ⟨w, v, w', next, rfl, hnext, rfl⟩ | hstill
    · cases hnext
      exact .attempts
    · exact .starving hstill
  | @awaiting _ i hbeneath =>
    rcases resumes_or_beneath hbeneath hmove with ⟨w, v, w', next, rfl, hnext, rfl⟩ | hstill
    · exact .victimReady hn hspan hmove hnext
    · exact .awaiting hstill
  | @flushing _ i hbeneath =>
    rcases resumes_or_beneath hbeneath hmove with ⟨w, v, w', next, rfl, hnext, rfl⟩ | hstill
    · cases hnext
      exact .awaiting .here
    · exact .flushing hstill
  | returned => exact absurd ⟨_, _, rfl⟩ hover

theorem Acquiring.of_leads {w : World g} (hm : Reachable ⟨w, .hold, .run (.acquire b), base⟩)
    (hspan : Leads (¬ Returned base ·) ⟨w, .hold, .run (.acquire b), base⟩ n) :
    Acquiring b base ⟨w, .hold, .run (.acquire b), base⟩ n := by
  induction hspan with
  | refl => exact .begins
  | tail hpath hmove ih => exact ih.moves hpath (hm.leads hpath) hmove.1 hmove.2

/-- The taking of a buffer is over. -/
theorem Acquiring.ended {w : World g} {h : Hold g}
    (hacquiring : Acquiring b base m ⟨w, .hold, .give h, base⟩) :
    (∃ a, Leads (¬ Returned base ·) m a ∧ ¬ a.Returned base ∧
      a.Moves ⟨w, .hold, .give h, base⟩ ∧ a.Obtains b base h ⟨w, .hold, .give h, base⟩) ∧
      Current b h ⟨w, .hold, .give h, base⟩ := by
  cases hacquiring with
  | pinning hbeneath => exact absurd hbeneath.of_push (Stack.not_push_beneath _ _)
  | starving hbeneath => exact absurd hbeneath (Stack.not_push_beneath _ _)
  | awaiting hbeneath => exact absurd hbeneath (Stack.not_push_beneath _ _)
  | flushing hbeneath => exact absurd hbeneath (Stack.not_push_beneath _ _)
  | returned hspan hover hmove hobtains hcurrent =>
    exact ⟨⟨_, hspan, hover, hmove, hobtains⟩, hcurrent⟩

/-! ## Every taking of a buffer -/

/-- What comes of taking a buffer. -/
structure Acquires (m : Machine g) : Prop where
  /-- If the taking returns a reference, it is to the buffer that holds the block, in its present
  generation, and the buffer is not locked. -/
  current : ∀ {w b w' h} {base : Stack g .hold}, m = ⟨w, .hold, .run (.acquire b), base⟩ →
    Leads (¬ Returned base ·) m ⟨w', .hold, .give h, base⟩ →
      Current b h ⟨w', .hold, .give h, base⟩
  /-- In the move before, the block was found in the buffer and no buffer was changed, or the
  buffer was given the block. -/
  obtained : ∀ {w b w' h} {base : Stack g .hold}, m = ⟨w, .hold, .run (.acquire b), base⟩ →
    Leads (¬ Returned base ·) m ⟨w', .hold, .give h, base⟩ →
      ∃ a, Leads (¬ Returned base ·) m a ∧ ¬ a.Returned base ∧
        a.Moves ⟨w', .hold, .give h, base⟩ ∧ a.Obtains b base h ⟨w', .hold, .give h, base⟩
  /-- The taking itself has added one reference to that buffer, and none to the others. -/
  added : ∀ {w b w' h j k} {base : Stack g .hold}, m = ⟨w, .hold, .run (.acquire b), base⟩ →
    Adds base j m k ⟨w', .hold, .give h, base⟩ → k = if h.buffer = j then 1 else 0
  /-- A buffer is given another block only by a call that takes it for that block.  It is without
  references then, unlocked and clean. -/
  reassigned : ∀ {n i}, m.Moves n → n.content i ≠ m.content i →
    ∃ (b : Block) (base : Stack g .hold),
      m.Returned (.push (.awaitingVictim b i) base) ∧ m.Reassigns b i n

/-- In every session, whatever clients, drivers and listeners do while it waits, a taking that
returns has the right buffer, and only buffers that nobody needs are given other blocks. -/
theorem Reachable.acquires (hm : m.Reachable) : m.Acquires := by
  refine ⟨?_, ?_, ?_, hm.reassigns_of_content⟩
  · rintro w b w' h base rfl hspan
    exact (Acquiring.of_leads hm hspan).ended.2
  · rintro w b w' h base rfl hspan
    exact (Acquiring.of_leads hm hspan).ended.1
  · rintro w b w' h j k base rfl hadds
    have hk := hadds.eq_of_operates hm trivial
    have htakes : (Call.acquire (g := g) b).takes j = 0 := rfl
    rw [htakes, Int.natCast_zero, Int.add_zero] at hk
    rw [hk]
    change ((if h.buffer = j then 1 else 0 : Nat) : Int) = _
    split <;> rfl

/-- A client has changed the only buffer and given it back, and now it is taken for another
block.  The driver ends the write only when another task tells it to. -/
def takingDirty : Machine Geometry.single :=
  (((start ((World.initial Geometry.single).fresh []) (.register 1 ⟨1, .manual []⟩ [])).after
    20).commanded 20 [.acquire ⟨257, 3⟩ (some "h"), .markDirty "h", .release "h"]).next
    [[.finish 1 true]] (.acquire ⟨257, 5⟩ (some "x"))

theorem reachable_takingDirty (n : Nat) : (takingDirty.after n).Reachable :=
  ((((reachable_start [] _).after 20).commanded 20 _).next _ _).after n

/-- The taking begins while the only buffer is dirty, and returns once it was written back. -/
theorem acquires_of_dirty_victim :
    ∃ (w w' : World Geometry.single) (h : Hold Geometry.single)
      (base : Stack Geometry.single .hold),
      (w.cache.header ⟨0, by decide⟩).dirty = true ∧
      Leads (¬ Returned base ·) ⟨w, .hold, .run (.acquire ⟨257, 5⟩), base⟩
        ⟨w', .hold, .give h, base⟩ ∧
      Reachable ⟨w, .hold, .run (.acquire ⟨257, 5⟩), base⟩ ∧
      Acquires ⟨w, .hold, .run (.acquire ⟨257, 5⟩), base⟩ := by
  have hm := reachable_takingDirty 1
  have hreturned : ((takingDirty.after 1).after 40).Returned (takingDirty.after 1).stack :=
    ⟨_, _, rfl⟩
  obtain ⟨n, hspan, w', h, rfl⟩ := exists_leads_of_after hreturned
  exact ⟨(takingDirty.after 1).world, w', h, _, by decide, hspan, hm, hm.acquires⟩

end Machine
end BufferCache
