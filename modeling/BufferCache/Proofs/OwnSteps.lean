import BufferCache.Proofs.Accounting
import BufferCache.Proofs.Reuse

/-!
# What a call does itself

While a call is suspended, others run.  Some of them it has made itself, to wait or to flush
a device; others are scripts of other tasks, which are taken up where a call gives way, where
a manual driver is started and where a flush or an emptying is announced.  On the stack the
two are told apart by whether a script lies between them and the call: `Machine.AtWork` says
that none does, so that the next step is one that the call takes itself or has taken for it.

What a call may do itself is mostly told by what it may call.  A `Family` of calls is closed if
its members call members only, and then a call of the family goes on as one for as long as it
lasts, however often others run in between.

References show what this is good for.  Clients may give back what they do not have, and then
counts tell little about who has which reference.  But what a call does to the counts itself
never depends on others: `Adds.eq_of_operates` says that in the end it has added the reference
that it answers, and taken away the one that it was given, in every session.
-/

namespace BufferCache

variable {g : Geometry}

/-! ## Scripts on the stack -/

/-- Whether a suspended call is the script of another task. -/
def Frame.plays {a s : Shape} : Frame g a s → Bool
  | .playing _ => true
  | _ => false

/-- Above `base` there are only suspended calls that were made for the one above `base`, and
no script. -/
inductive Stack.Supports {s : Shape} (base : Stack g s) : {a : Shape} → Stack g a → Prop
  | here : Supports base base
  | push {a b : Shape} {f : Frame g a b} {rest : Stack g b} :
      f.plays = false → Supports base rest → Supports base (.push f rest)

namespace Stack

variable {s a : Shape} {base : Stack g s} {stack : Stack g a}

theorem Supports.beneath (h : base.Supports stack) : base.Beneath stack := by
  induction h with
  | here => exact .here
  | push _ _ ih => exact .push _ ih

theorem Beneath.trans {b : Shape} {top : Stack g b} (h : base.Beneath stack)
    (h' : stack.Beneath top) : base.Beneath top := by
  induction h' with
  | here => exact h
  | push f _ ih => exact .push f ih

/-- Only one call lies directly above `base`. -/
theorem Beneath.eq_of_push {b b' : Shape} {f : Frame g b s} {f' : Frame g b' s}
    (h : (Stack.push f base).Beneath stack) (h' : (Stack.push f' base).Beneath stack) :
    (⟨b, f⟩ : Σ b, Frame g b s) = ⟨b', f'⟩ := by
  induction h with
  | here =>
    cases h' with
    | here => rfl
    | push _ hrest => exact absurd hrest (Stack.not_push_beneath f' base)
  | push _ hrest ih =>
    cases h' with
    | here => exact absurd hrest (Stack.not_push_beneath f base)
    | push _ hrest' => exact ih hrest'

theorem Supports.trans {b : Shape} {top : Stack g b} (h : base.Supports stack)
    (h' : stack.Supports top) : base.Supports top := by
  induction h' with
  | here => exact h
  | push hf _ ih => exact .push hf ih

/-- No script lies in between. -/
theorem Supports.not_playing {rest : Script} {below : Stack g .unit}
    (h : base.Supports stack) (hbelow : base.Beneath below) :
    ¬ (Stack.push (.playing rest) below).Beneath stack := by
  intro hplaying
  induction h with
  | here => exact Stack.not_push_beneath _ _ (hplaying.trans hbelow)
  | push hf hsupports ih =>
    cases hplaying with
    | here => cases hf
    | push _ hrest => exact ih hrest

/-- A call that no answer awaits calls none that one awaits. -/
theorem Supports.ne_reply (h : base.Supports stack) (hs : s ≠ .reply) : a ≠ .reply := by
  induction h with
  | here => exact hs
  | @push a b f rest hf _ ih =>
    cases f with
    | playing script => cases hf
    | keepHold _ | keepFound _ | keepFetched _ | guardHold _ | guardFetched _ | filling _
    | touching | answering _ | answerFlag | answerPage => exact absurd rfl ih
    | _ => exact nofun

end Stack

namespace Machine

/-- The call above `base` is the next to move, or one that was made for it, and no other
task. -/
def AtWork {s : Shape} (base : Stack g s) (m : Machine g) : Prop :=
  base.Supports m.stack ∧ ¬ m.Returned base

section Spans

variable {a s : Shape} {f : Frame g a s} {base : Stack g s} {m n : Machine g}

theorem not_returned_of_beneath (h : (Stack.push f base).Beneath m.stack) :
    ¬ m.Returned base := by
  rintro ⟨w, v, rfl⟩
  exact Stack.not_push_beneath f base h

/-- The calls beneath a call stay where they are as long as it goes on. -/
theorem Leads.beneath (h : Leads (¬ Returned base ·) m n) (hm : base.Beneath m.stack) :
    base.Beneath n.stack := by
  induction h with
  | refl => exact hm
  | tail _ hmove ih => exact beneath_moves ih hmove.2 hmove.1

/-- While a call goes on, the one that made it does too. -/
theorem Leads.of_push (h : Leads (¬ Returned (.push f base) ·) m n)
    (hm : (Stack.push f base).Beneath m.stack) : Leads (¬ Returned base ·) m n := by
  induction h with
  | refl => exact .refl
  | tail hspan hmove ih =>
    exact ih.tail ⟨not_returned_of_beneath (Leads.beneath hspan hm), hmove.2⟩

/-- Where a call is at work, it is at work for the one that made it. -/
theorem AtWork.of_push (h : m.AtWork (.push f base)) (hf : f.plays = false) : m.AtWork base :=
  ⟨.trans (.push hf .here) h.1, not_returned_of_beneath h.1.beneath⟩

end Spans

end Machine

/-! ## Families of calls -/

/-- Some calls, and the suspended calls among them. -/
structure Family (g : Geometry) where
  /-- A call that belongs to it. -/
  call : {s : Shape} → Call g s → Prop
  /-- A suspended call that belongs to it. -/
  frame : {a s : Shape} → Frame g a s → Prop

namespace Family

variable {F : Family g}

/-- What comes next belongs to the family, unless it is the script of another task. -/
def Admits (F : Family g) {s : Shape} : Next g s → Prop
  | .done _ => True
  | .goto c => F.call c
  | .call c f => F.call c ∧ F.frame f ∨ f.plays = true

/-- Calls of the family make calls of the family only, apart from scripts that they let run. -/
structure Closed (F : Family g) : Prop where
  /-- When they begin. -/
  begin : ∀ {s : Shape} {c : Call g s} {w w' : World g} {n : Next g s}, F.call c →
    c.begin w = .ok (w', n) → F.Admits n
  /-- When they are given a value. -/
  resume : ∀ {a s : Shape} {f : Frame g a s} {v : a.Value g} {w w' : World g} {n : Next g s},
    F.frame f → f.resume v w = .ok (w', n) → F.Admits n
  /-- Those that let a script run go on with it. -/
  play : ∀ script, F.call (.play script)

/-- Above `base` there are only suspended calls of the family. -/
inductive Above (F : Family g) {s : Shape} (base : Stack g s) : {a : Shape} → Stack g a → Prop
  | here : Above F base base
  | push {a b : Shape} {f : Frame g a b} {rest : Stack g b} :
      F.frame f → f.plays = false → Above F base rest → Above F base (.push f rest)

theorem Above.supports {s a : Shape} {base : Stack g s} {stack : Stack g a}
    (h : F.Above base stack) : base.Supports stack := by
  induction h with
  | here => exact .here
  | push _ hf _ ih => exact .push hf ih

/-- The call that moves next belongs to the family, and so do all those above `base`. -/
def Moves (F : Family g) {s : Shape} (base : Stack g s) : Machine g → Prop
  | ⟨_, _, .run c, stack⟩ => F.call c ∧ F.Above base stack
  | ⟨_, _, .give _, stack⟩ => F.Above base stack

/-- A move that the family makes above `base`. -/
inductive Makes (F : Family g) {s : Shape} (base : Stack g s) : Machine g → Machine g → Prop
  /-- One of its calls begins. -/
  | begin {a : Shape} {c : Call g a} {stack : Stack g a} {w w' : World g} {n : Next g a} :
      F.call c → F.Above base stack → c.begin w = .ok (w', n) →
        Makes F base ⟨w, a, .run c, stack⟩ (n.machine w' stack)
  /-- One of its suspended calls is given a value. -/
  | resume {a b : Shape} {f : Frame g a b} {stack : Stack g b} {v : a.Value g} {w w' : World g}
      {n : Next g b} :
      F.frame f → F.Above base stack → f.resume v w = .ok (w', n) →
        Makes F base ⟨w, a, .give v, .push f stack⟩ (n.machine w' stack)

/-- Until the call above `base` is over, the family makes the moves of what belongs to it. -/
theorem Moves.makes {s : Shape} {base : Stack g s} {m m' : Machine g} (h : F.Moves base m)
    (hover : ¬ m.Returned base) (hm : m.Moves m') : F.Makes base m m' := by
  cases hm with
  | next waiting c =>
    cases h
    exact absurd ⟨_, _, rfl⟩ hover
  | step hs =>
    cases hs with
    | begin stack hn => exact .begin h.1 h.2 hn
    | resume stack hn =>
      cases h with
      | here => exact absurd ⟨_, _, rfl⟩ hover
      | push hf _ hrest => exact .resume hf hrest hn

/-- Wherever the call above `base` has come to, it has done so by calls of the family. -/
def Contains (F : Family g) {s : Shape} (base : Stack g s) (m : Machine g) : Prop :=
  F.Moves base m ∨ ∃ (rest : Script) (below : Stack g .unit),
    (Stack.push (.playing rest) below).Beneath m.stack ∧ F.Above base below

theorem contains_next {s a : Shape} {base : Stack g s} {stack : Stack g a} {w : World g}
    {n : Next g a} (hn : F.Admits n) (habove : F.Above base stack) :
    F.Contains base (n.machine w stack) := by
  cases n with
  | done v => exact .inl habove
  | goto c => exact .inl ⟨hn, habove⟩
  | call c f =>
    by_cases hplays : f.plays = true
    · cases f with
      | playing rest => exact .inr ⟨rest, stack, .here, habove⟩
      | _ => cases hplays
    · obtain ⟨hc, hf⟩ := hn.resolve_right hplays
      exact .inl ⟨hc, .push hf (Bool.eq_false_iff.mpr hplays) habove⟩

theorem Contains.moves (hF : F.Closed) {s : Shape} {base : Stack g s} {m m' : Machine g}
    (h : F.Contains base m) (hover : ¬ m.Returned base) (hm : m.Moves m') :
    F.Contains base m' := by
  rcases h with hmoves | ⟨rest, below, hbeneath, habove⟩
  · cases hmoves.makes hover hm with
    | begin hc habove hn => exact contains_next (hF.begin hc hn) habove
    | resume hf habove hn => exact contains_next (hF.resume hf hn) habove
  · rcases Machine.resumes_or_beneath hbeneath hm with ⟨w, v, w', n, rfl, hn, rfl⟩ | hstill
    · cases hn
      exact .inl ⟨hF.play rest, habove⟩
    · exact .inr ⟨rest, below, hstill, habove⟩

/-- A call of a closed family goes on as one until it is over. -/
theorem Closed.contains (hF : F.Closed) {s : Shape} {base : Stack g s} {w : World g}
    {c : Call g s} {m : Machine g} (hc : F.call c)
    (hspan : Machine.Leads (¬ Machine.Returned base ·) ⟨w, s, .run c, base⟩ m) :
    F.Contains base m := by
  induction hspan with
  | refl => exact .inl ⟨hc, .here⟩
  | tail _ hmove ih => exact ih.moves hF hmove.1 hmove.2

/-- Where the call above `base` is at work, and goes on with one of a closed family that it has
made, a call of the family moves. -/
theorem Closed.moves_of_atWork (hF : F.Closed) {a s : Shape} {base : Stack g s}
    {base' : Stack g a} {w : World g} {c : Call g a} {m : Machine g} (hc : F.call c)
    (hbase : base.Beneath base')
    (hspan : Machine.Leads (¬ Machine.Returned base' ·) ⟨w, a, .run c, base'⟩ m)
    (hwork : m.AtWork base) : F.Moves base' m := by
  rcases hF.contains hc hspan with hmoves | ⟨rest, below, hbeneath, habove⟩
  · exact hmoves
  · exact absurd hbeneath (hwork.1.not_playing (hbase.trans habove.supports.beneath))

end Family

/-! ## References -/

/-- A step passes the stakes `held` on. -/
def Outcome.Passes {s : Shape} (o : Outcome g s) (client : Bool) (held : Multiset (Stake g)) :
    Prop :=
  o.Ensures fun _ n => n.stakes client = held

/-- What a step does to the counts is what it does to the stakes, of which there were `held`
before. -/
def Outcome.Accords {s : Shape} (o : Outcome g s) (client : Bool) (w : World g)
    (held : Multiset (Stake g)) : Prop :=
  o.Ensures fun w' n => ∀ j, (w'.cache.header j).references + engaged held j =
    (w.cache.header j).references + engaged (n.stakes client) j

section References

variable {s : Shape} {client : Bool} {held : Multiset (Stake g)} {w : World g}

theorem Outcome.Balanced.passes {o : Outcome g s} (h : o.Balanced client held) :
    o.Passes client held :=
  h.ensures.mono fun _ _ hn => hn.1

/-- A step that passes its stakes on, and neither takes nor gives back a reference. -/
theorem Outcome.Passes.accords {o : Outcome g s} {due : Option (Due g)}
    (h : o.Passes client held) (hregular : o.Regular w due)
    (hdue : ∀ a, due = some a → ∃ d i, a = .empty d i) : o.Accords client w held := by
  intro w' n hn j
  obtain ⟨⟨e, -, happly, he⟩, -⟩ := hregular.ensures w' n hn
  have hsame := e.sameReferences (fun a ha => hdue a (he a ha)) w.cache
  rw [h w' n hn, happly, hsame.references]

theorem engaged_singleton_hold (h : Hold g) (i : g.Buffer) :
    engaged ({.hold h.handle} : Multiset (Stake g)) i = if h.buffer = i then 1 else 0 :=
  (engaged_returning false h.handle i).trans (if_congr Fin.ext_iff.symm rfl rfl)

theorem engaged_singleton_pin (b : Block) (i j : g.Buffer) :
    engaged ({.pin b i} : Multiset (Stake g)) j = if i = j then 1 else 0 := by
  have hcount : Multiset.countP (Stake.Counts j) ({.pin b i} : Multiset (Stake g)) =
      if i = j then 1 else 0 :=
    (Multiset.countP_cons _ _ 0).trans (Nat.zero_add _)
  have hdeparts : Multiset.countP (Stake.Departs j) ({.pin b i} : Multiset (Stake g)) = 0 :=
    (Multiset.countP_cons _ _ 0).trans (Nat.zero_add _)
  rw [engaged, hcount, hdeparts, Nat.add_zero]

/-- The first step of a call passes on what it holds, except for a look-up. -/
theorem Call.begin_passes {c : Call g s} (hc : c.Routine) (client : Bool) (w : World g) :
    (c.begin w).Passes client (c.stakes client) := by
  cases c with
  | sleep q ticket => exact (w.sleep_balanced q ticket).passes
  | play script => exact (w.play_balanced script).passes
  | awaitUnlock i => exact (w.awaitUnlock_balanced i).passes
  | lock i => exact (w.lock_balanced i).passes
  | lookUp b => exact hc.elim
  | acquire b => exact (w.acquire_balanced b).passes
  | obtain b => exact Outcome.ensures_call (Multiset.zero_add 0)
  | release h =>
    refine Outcome.ensures_orFault fun i hi => Outcome.ensures_call ?_
    have hindex := (Cache.resolveRelease_eq_ok hi).1
    change 0 + {returning client ⟨i.val, h.generation⟩} = _
    rw [hindex]
    exact Multiset.zero_add _
  | fetch b => exact Outcome.ensures_call (Multiset.zero_add 0)
  | fetchAhead b ahead => exact Outcome.ensures_call (Multiset.zero_add 0)
  | readAhead h d ahead => exact (w.readAhead_balanced h d ahead).passes
  | settle h => exact Outcome.ensures_call (Multiset.zero_add _)
  | fetchPage d numbers page => exact (w.fetchPage_balanced d numbers page).passes
  | gather d numbers held page => exact (w.gather_balanced d numbers held page).passes
  | collect held chunks failed page =>
    exact (w.collect_balanced held chunks failed page).passes
  | issue op h => exact Outcome.ensures_orFault fun i _ => Outcome.ensures_goto rfl
  | request op i => exact (w.request_balanced op i).passes
  | enqueue op i d number => exact (w.enqueue_balanced op i d number).passes
  | start m => exact (w.start_balanced m).passes
  | serve m => exact (w.serve_balanced m).passes
  | flush scope => exact Outcome.ensures_goto rfl
  | flushRounds scope rounds writes => exact (w.flushRounds_balanced scope rounds writes).passes
  | flushBuffers scope rounds writes rest =>
    exact (w.flushBuffers_balanced scope rounds writes rest).passes
  | discard d => exact Outcome.ensures_goto rfl
  | discardBuffers d rest => exact (w.discardBuffers_balanced d rest).passes
  | checkMedium d => exact (w.checkMedium_balanced d).passes
  | perform c => exact hc.elim
  | drain m pattern upcoming ended => exact (w.drain_balanced m pattern upcoming ended).passes


/-- A handle that is viewed is good, or everything halts. -/
theorem Outcome.passes_view {h : Handle} {k : HeaderView → Outcome g s}
    (hk : (∃ i, w.cache.resolve h = .ok i) →
      (World.orFault (w.cache.view h) k).Passes client held) :
    (World.orFault (w.cache.view h) k).Passes client held := by
  cases hi : w.cache.resolve h with
  | ok i => exact hk ⟨i, hi⟩
  | error f =>
    rw [Cache.view, hi]
    exact Outcome.ensures_fault

/-- The step of a suspended call passes on what it holds and what it is given, with a few
exceptions. -/
theorem Frame.resume_passes {a : Shape} {f : Frame g a s} (hf : f.Routine) (v : a.Value g)
    (client : Bool) (w : World g) :
    (f.resume v w).Passes client (stakeOf (a.hold? v) + f.stakes client) := by
  cases f with
  | pinning b i | awaitingVictim b i | releasing h i | fetchingAhead h d ahead
  | issuingAhead h t d ahead | keepHold name | keepFound name | keepFetched name
  | guardHold name | guardFetched name | filling byte | touching => exact hf.elim
  | lookingUp b =>
    rw [show Frame.stakes client (.lookingUp b : Frame g _ _) = 0 from rfl, Multiset.add_zero]
    exact (w.lookedUp_balanced b v).passes
  | fetching =>
    exact Outcome.passes_view fun hr => (World.fetched_balanced hr).passes
  | settling h =>
    exact Outcome.passes_view fun hr => (World.settled_balanced hr).passes
  | fetchingFirst d ahead =>
    exact Outcome.passes_view fun hr => (World.firstFetched_balanced hr).passes
  | gathering d numbers held page =>
    exact Outcome.passes_view fun hr => (World.gathered_balanced hr).passes
  | collecting h held chunks failed page =>
    refine Outcome.passes_view fun hr => ?_
    have hzero : stakeOf (Shape.hold? (g := g) .unit v) = 0 := rfl
    rw [hzero, Multiset.zero_add]
    exact (World.collected_balanced hr).passes
  | flushingVictim b i | mediumAnnouncing d => exact Outcome.ensures_call rfl
  | locking op i d => exact (w.locked_balanced op i d).passes
  | flushAwaiting scope rounds writes i rest =>
    exact (w.flushReady_balanced scope rounds writes i rest).passes
  | unwinding f | mediumDiscarding | answering r | answerFlag | answerPage =>
    exact Outcome.ensures_done rfl
  | discardAwaiting d i rest => exact Outcome.ensures_goto rfl
  | _ => exact Outcome.ensures_goto (Multiset.zero_add _).symm

/-! ### Taking and giving back references -/

theorem Cache.references_refer (c : Cache g) (i j : g.Buffer) :
    ((c.refer i).header j).references = (c.header j).references + if i = j then 1 else 0 := by
  rw [Cache.header_refer]
  split <;> rfl

theorem Cache.references_unrefer {c : Cache g} {i : g.Buffer} (hi : (c.header i).references ≠ 0)
    (j : g.Buffer) :
    ((c.unrefer i).header j).references + (if i = j then 1 else 0) = (c.header j).references := by
  rw [Cache.header_unrefer]
  split
  · rename_i hj
    subst hj
    exact Nat.succ_pred hi
  · rfl

theorem Cache.references_assign {c : Cache g} {i : g.Buffer} {b : Block} {s' : Buffers g}
    (hi : (c.header i).references = 0) (hs : c.buffers.reassign i b = .ok s') (j : g.Buffer) :
    ((c.assign i s').header j).references = (c.header j).references + if i = j then 1 else 0 := by
  have hsame : (s'.header j).references =
      (if i = j then (c.header j).assign b else c.header j).references :=
    (congrArg Header.references (Buffers.bare_reassign hs j) :)
  rw [Cache.header_assign, hsame]
  split
  · rename_i hj
    subst hj
    exact congrArg (· + 1) hi.symm
  · rfl

namespace World

/-- A step that leaves the counts alone and passes on what was held. -/
theorem accords_ok {w w' : World g} {n : Next g s} (hcache : w'.cache = w.cache)
    (hn : n.stakes client = held) : Outcome.Accords (.ok (w', n)) client w held := by
  intro w₁ n₁ h₁ j
  cases h₁
  rw [hcache, hn]

theorem lookUp_accords (w : World g) (b : Block) : (w.lookUp b).Accords client w 0 := by
  unfold lookUp
  split
  · exact accords_ok rfl rfl
  · rename_i i _
    refine Outcome.ensures_call fun j => ?_
    have hrefer := w.cache.references_refer i j
    change ((w.cache.refer i).header j).references + 0 = _ + engaged (0 + {.pin b i}) j
    rw [Multiset.zero_add, engaged_singleton_pin, hrefer]
    rfl

theorem pinned_accords (w : World g) (b : Block) (i : g.Buffer) :
    (w.pinned b i).Accords client w {.pin b i} := by
  unfold pinned
  split
  · refine Outcome.ensures_done fun j => ?_
    change _ + _ = _ + engaged {.hold (w.cache.hold i).handle} j
    rw [engaged_singleton_pin, engaged_singleton_hold]
    rfl
  · split
    · exact Outcome.ensures_fault
    · rename_i hrefs
      refine Outcome.ensures_goto fun j => ?_
      change ((w.cache.unrefer i).header j).references + _ = _ + 0
      rw [engaged_singleton_pin, Cache.references_unrefer hrefs]
      rfl

theorem victimReady_accords (w : World g) (b : Block) (i : g.Buffer) :
    (w.victimReady b i).Accords client w 0 := by
  unfold victimReady
  dsimp only
  split
  · exact accords_ok rfl rfl
  split
  · exact accords_ok rfl rfl
  split
  · exact accords_ok rfl rfl
  rename_i hrefs _ _
  refine Outcome.ensures_orFault fun s hs => Outcome.ensures_done fun j => ?_
  rw [cache_reportMiss]
  have hassign := Cache.references_assign (by simpa using hrefs) hs j
  change ((w.cache.assign i s).header j).references + 0 =
    _ + engaged {.hold (Cache.hold _ i).handle} j
  rw [engaged_singleton_hold, hassign]
  rfl

theorem released_accords (w : World g) (h : Handle) (i : g.Buffer) :
    (w.released i).Accords client w {returning client ⟨i.val, h.generation⟩} := by
  unfold released
  split
  · exact Outcome.ensures_fault
  · rename_i hrefs
    refine Outcome.ensures_done fun j => ?_
    change ((w.cache.unrefer i).header j).references + _ = _ + 0
    rw [engaged_returning, ← if_congr (Fin.ext_iff (a := i) (b := j)) rfl rfl]
    exact Cache.references_unrefer hrefs j

theorem letGo_accords (w : World g) (h t : Hold g) (d : DeviceNumber)
    (ahead : List BlockNumber) :
    (w.letGo h t d ahead).Accords client w ({.hold t.handle} + {.hold h.handle}) := by
  refine Outcome.ensures_orFault fun i hi => Outcome.ensures_goto fun j => ?_
  obtain rfl : i = t.buffer := Fin.ext (Cache.resolve_eq_ok hi).1
  have hunrefer := Cache.references_unrefer (Cache.references_of_resolve hi) j
  change ((w.cache.unrefer t.buffer).header j).references + _ = _ + engaged {.hold h.handle} j
  rw [engaged_add, engaged_singleton_hold t, ← Nat.add_assoc, hunrefer]

theorem aheadFetched_accords (w : World g) (h t : Hold g) (d : DeviceNumber)
    (ahead : List BlockNumber) :
    (w.aheadFetched h d ahead t).Accords client w ({.hold t.handle} + {.hold h.handle}) := by
  refine Outcome.ensures_orFault fun v _ => ?_
  split
  · exact letGo_accords w h t d ahead
  · exact accords_ok rfl (Multiset.zero_add _)

end World

/-! ### All steps -/

/-- The first step of a call does to the counts what it does to the stakes. -/
theorem Call.begin_accords {c : Call g s} (hs : s ≠ .reply) (hc : c.Aimed) (w : World g) :
    (c.begin w).Accords client w (c.stakes client) := by
  by_cases hroutine : c.Routine
  · have hdue : c.due = none := by
      cases c <;> first | rfl | exact hroutine.elim
    have hregular := Call.begin_regular hc w
    rw [hdue] at hregular
    exact (Call.begin_passes hroutine client w).accords hregular nofun
  · cases c with
    | lookUp b => exact w.lookUp_accords b
    | perform c => exact absurd rfl hs
    | _ => exact absurd trivial hroutine

/-- And so does the step of a suspended call. -/
theorem Frame.resume_accords {a : Shape} {f : Frame g a s} (hs : s ≠ .reply) (hf : f.Aimed)
    (v : a.Value g) (w : World g) :
    (f.resume v w).Accords client w (stakeOf (a.hold? v) + f.stakes client) := by
  by_cases hroutine : f.Routine
  · have hdue (d : Due g) (hd : f.due v = some d) : ∃ d' i, d = .empty d' i := by
      cases f <;> first | exact hroutine.elim | cases hd
      exact ⟨_, _, rfl⟩
    exact (Frame.resume_passes hroutine v client w).accords (Frame.resume_regular hf v w) hdue
  · cases f with
    | pinning b i => exact (Multiset.zero_add _).symm ▸ w.pinned_accords b i
    | awaitingVictim b i => exact w.victimReady_accords b i
    | releasing h i => exact (Multiset.zero_add _).symm ▸ w.released_accords h i
    | fetchingAhead h d ahead => exact w.aheadFetched_accords h v d ahead
    | issuingAhead h t d ahead => exact (Multiset.zero_add _).symm ▸ w.letGo_accords h t d ahead
    | keepHold name | keepFound name | keepFetched name | guardHold name | guardFetched name
    | filling byte | touching => exact absurd rfl hs
    | _ => exact absurd trivial hroutine

end References

/-! ## What a call adds in the end -/

namespace Machine

variable {s : Shape} {base : Stack g s} {j : g.Buffer} {m n : Machine g} {k : Int}

/-- A span of the call above `base`, in which the call itself adds so many references to
buffer `j` in all.  What others do meanwhile does not count. -/
inductive Adds (base : Stack g s) (j : g.Buffer) (m : Machine g) : Int → Machine g → Prop
  | refl : Adds base j m 0 m
  | own {k : Int} {a b : Machine g} : Adds base j m k a → a.AtWork base → a.Moves b →
      Adds base j m (k + (b.references j - a.references j)) b
  | other {k : Int} {a b : Machine g} : Adds base j m k a → ¬ a.AtWork base →
      ¬ a.Returned base → a.Moves b → Adds base j m k b

theorem Adds.leads (h : Adds base j m k n) : Leads (¬ Returned base ·) m n := by
  induction h with
  | refl => exact .refl
  | own _ hwork hmove ih => exact ih.tail ⟨hwork.2, hmove⟩
  | other _ _ hover hmove ih => exact ih.tail ⟨hover, hmove⟩

/-- Every span of a call adds some number of references. -/
theorem Adds.exists_of_leads (h : Leads (¬ Returned base ·) m n) (j : g.Buffer) :
    ∃ k, Adds base j m k n := by
  induction h with
  | refl => exact ⟨0, .refl⟩
  | @tail a b _ hmove ih =>
    obtain ⟨k, hk⟩ := ih
    by_cases hwork : a.AtWork base
    · exact ⟨_, .own hk hwork hmove.2⟩
    · exact ⟨k, .other hk hwork hmove.1 hmove.2⟩

/-- The call above `base` and those that it made have to do with `t` references to
buffer `j`. -/
def Keeps (base : Stack g s) (j : g.Buffer) (t : Int) (m : Machine g) : Prop :=
  base.Supports m.stack ∧ engaged m.stakes j = t + engaged base.stakes j ∨
    ∃ (rest : Script) (below : Stack g .unit),
      (Stack.push (.playing rest) below).Beneath m.stack ∧ base.Supports below ∧
        engaged below.stakes j = t + engaged base.stakes j

/-- A command has to do with no reference when it begins. -/
theorem engaged_of_plays {a : Shape} (c : Call g a) {f : Frame g a s} (hf : f.plays = true)
    (client : Bool) (j : g.Buffer) : engaged ((Next.call c f).stakes client) j = 0 := by
  cases f with
  | playing rest => cases c <;> rfl
  | _ => cases hf

theorem keeps_next {a : Shape} {stack : Stack g a} {w : World g} {n : Next g a} {t : Int}
    (hsupports : base.Supports stack)
    (hn : engaged (n.stakes stack.answers + stack.stakes) j = t + engaged base.stakes j) :
    Keeps base j t (n.machine w stack) := by
  cases n with
  | done v => exact .inl ⟨hsupports, hn⟩
  | goto c => exact .inl ⟨hsupports, hn⟩
  | call c f =>
    by_cases hplays : f.plays = true
    · rw [engaged_add, engaged_of_plays c hplays, Nat.zero_add] at hn
      cases f with
      | playing rest => exact .inr ⟨rest, stack, .here, hsupports, hn⟩
      | _ => cases hplays
    · refine .inl ⟨.push (Bool.eq_false_iff.mpr hplays) hsupports, ?_⟩
      have hstakes := stakes_next (.call c f) w stack
      exact (congrArg (fun held => (engaged held j : Int)) hstakes).trans hn

/-- A step of the call itself has to do with as many references more as it adds. -/
theorem Keeps.own {t : Int} {a b : Machine g} (h : Keeps base j t a) (hs : s ≠ .reply)
    (haimed : a.Aimed) (hwork : a.AtWork base) (hmove : a.Moves b) :
    Keeps base j (t + (b.references j - a.references j)) b := by
  rcases h with ⟨hsupports, hheld⟩ | ⟨rest, below, hbeneath, hbelow, -⟩
  · cases hmove with
    | next waiting c =>
      cases hsupports
      exact absurd ⟨_, _, rfl⟩ hwork.2
    | step hstep =>
      cases hstep with
      | @begin a w w' c n stack hn =>
        have haccords : (w'.cache.header j).references + engaged (c.stakes stack.answers) j = _ :=
          Call.begin_accords (hsupports.ne_reply hs) haimed.1 w w' n hn j
        refine keeps_next hsupports ?_
        change (engaged (c.stakes stack.answers + stack.stakes) j : Int) = _ at hheld
        rw [engaged_add] at hheld ⊢
        unfold references
        rw [world_next]
        dsimp only
        omega
      | @resume a a' w w' f v n stack hn =>
        cases hsupports with
        | here => exact absurd ⟨_, _, rfl⟩ hwork.2
        | push hf hrest =>
          have haccords : (w'.cache.header j).references +
              engaged (stakeOf (a.hold? v) + f.stakes stack.answers) j = _ :=
            Frame.resume_accords (hrest.ne_reply hs) haimed.1 v w w' n hn j
          refine keeps_next hrest ?_
          change (engaged (stakeOf (a.hold? v) + (f.stakes stack.answers + stack.stakes)) j : Int)
            = _ at hheld
          rw [← Multiset.add_assoc, engaged_add] at hheld
          rw [engaged_add]
          unfold references
          rw [world_next]
          dsimp only
          omega
  · exact absurd hbeneath (hwork.1.not_playing hbelow.beneath)

/-- What others do leaves alone what the call has to do with. -/
theorem Keeps.other {t : Int} {a b : Machine g} (h : Keeps base j t a) (hwork : ¬ a.AtWork base)
    (hover : ¬ a.Returned base) (hmove : a.Moves b) : Keeps base j t b := by
  rcases h with ⟨hsupports, -⟩ | ⟨rest, below, hbeneath, hbelow, hheld⟩
  · exact absurd ⟨hsupports, hover⟩ hwork
  · rcases resumes_or_beneath hbeneath hmove with ⟨w, v, w', n, rfl, hn, rfl⟩ | hstill
    · cases hn
      refine keeps_next hbelow ?_
      change (engaged (0 + below.stakes) j : Int) = _
      rwa [Multiset.zero_add]
    · exact .inr ⟨rest, below, hstill, hbelow, hheld⟩

/-- What a call has to do with is what it had to do with at first and what it added. -/
theorem Adds.keeps {t : Int} (h : Adds base j m k n) (hs : s ≠ .reply) (hm : m.Reachable)
    (hkeeps : Keeps base j t m) : Keeps base j (t + k) n := by
  induction h with
  | refl => rwa [Int.add_zero]
  | own hspan hwork hmove ih =>
    rw [← Int.add_assoc]
    exact ih.own hs (hm.leads hspan.leads).aimed hwork hmove
  | other _ hwork hover hmove ih => exact ih.other hwork hover hmove

/-- An operation that is over has itself added the reference that it answers, and taken away
the one that it was given, whatever its clients do with theirs. -/
theorem Adds.eq_of_operates {c : Call g s} {w w' : World g} {v : s.Value g}
    (h : Adds base j ⟨w, s, .run c, base⟩ k ⟨w', s, .give v, base⟩)
    (hm : Reachable ⟨w, s, .run c, base⟩) (hc : c.Operates) : k + c.takes j = s.gives v j := by
  have hs : s ≠ .reply := by
    rintro rfl
    cases c <;> exact hc.elim
  have hstart : Keeps base j (c.takes j) ⟨w, s, .run c, base⟩ := by
    refine .inl ⟨.here, ?_⟩
    change (engaged (c.stakes base.answers + base.stakes) j : Int) = _
    rw [engaged_add, c.engaged_stakes hc, Int.natCast_add]
  rcases h.keeps hs hm hstart with ⟨-, hheld⟩ | ⟨rest, below, hbeneath, hbelow, -⟩
  · change (engaged (stakeOf (s.hold? v) + base.stakes) j : Int) = _ at hheld
    rw [engaged_add, engaged_stakeOf, Int.natCast_add] at hheld
    omega
  · have hhere : base.Supports base := .here
    exact absurd hbeneath (hhere.not_playing hbelow.beneath)

end Machine

end BufferCache
