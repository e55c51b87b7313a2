import BufferCache.Proofs.Load
import BufferCache.Proofs.Reads

/-!
# Every run ends

A call that is left alone comes to a value or to a stop, whatever the world is like: each of
its loops goes through a list, over slots that it frees, or begins again at most once.  The
same holds of every suspended call, whatever value it is given.

So a machine either comes to the end of its command, or to a point where a script is taken up.
There its load becomes less, which cannot go on for ever.  A session, whose commands are carried
out with no bound on their steps, therefore comes to an end as well, and what holds of every
machine that can be reached holds of those that it goes through.
-/

namespace BufferCache

variable {g : Geometry}

/-! ## Calls that are left alone come to an end -/

/-- What a step leads to comes to a value or to a stop, if the calls are left alone. -/
def Outcome.Finishes {s : Shape} (o : Outcome g s) : Prop :=
  o.Completes False (fun _ => True) fun _ _ => True

/-- The call comes to a value or to a stop, if it is left alone. -/
def Call.Finishes {s : Shape} (c : Call g s) (w : World g) : Prop :=
  c.Completes False (fun _ _ => True) w

section Rules

variable {s : Shape} {w : World g}

theorem Outcome.Completes.finishes {P : Next g s → Prop} {Q : World g → s.Value g → Prop}
    {o : Outcome g s} (h : o.Completes False P Q) : o.Finishes :=
  h.mono (fun h => h) (fun _ _ => trivial) fun _ _ _ => trivial

theorem Call.Completes.finishes {Q : World g → s.Value g → Prop} {c : Call g s}
    (h : c.Completes False Q w) : c.Finishes w :=
  Outcome.Completes.finishes h

theorem Call.finishes_of_begin {c : Call g s} (hc : c.enters w = false)
    (h : (c.begin w).Finishes) : c.Finishes w :=
  completes_of_begin hc h

namespace World

theorem done_finishes {v : s.Value g} : Outcome.Finishes (w.done v) :=
  Outcome.completes_done trivial

theorem goto_finishes {c : Call g s} (h : c.Finishes w) : Outcome.Finishes (w.goto c) :=
  Outcome.completes_goto h

theorem call_finishes {a : Shape} {c : Call g a} {f : Frame g a s} (h : c.Finishes w)
    (hf : ∀ v w', (f.resume v w').Finishes) : Outcome.Finishes (w.call c f) :=
  Outcome.completes_call h fun w' v _ => hf v w'

theorem fault_finishes {f : Fault} : Outcome.Finishes (fault f : Outcome g s) :=
  Outcome.completes_fault id

theorem orFault_finishes {α : Type} {x : Except Fault α} {k : α → Outcome g s}
    (h : ∀ a, x = .ok a → (k a).Finishes) : (orFault x k).Finishes :=
  Outcome.completes_orFault h False.elim

end World
end Rules

/-! ### Calls of the cache -/

section Calls

variable {w : World g} {b : Block} {i : g.Buffer}

theorem Call.acquire_finishes : (Call.acquire b).Finishes w :=
  (completes_acquire False.elim).finishes

theorem Call.obtain_finishes : (Call.obtain b).Finishes w :=
  (completes_obtain False.elim).finishes

theorem Call.release_finishes {h : Handle} : (Call.release h).Finishes w :=
  (completes_release False.elim).finishes

theorem Call.issue_finishes {op : Operation} {h : Handle} : (Call.issue op h).Finishes w :=
  (completes_issue False.elim).finishes

theorem Call.flushBuffers_finishes {scope : Scope} {rounds writes : Nat}
    {rest : List g.Buffer} : (Call.flushBuffers scope rounds writes rest).Finishes w :=
  (completes_flushBuffers False.elim fun _ =>
    (completes_flushRounds False.elim).post fun _ _ h => h.1).finishes

theorem Call.discard_finishes {d : DeviceNumber} : (Call.discard d).Finishes w :=
  (completes_discard False.elim).finishes

/-- The announcement of an emptying stops where its script has commands. -/
theorem Call.checkMedium_finishes {d : DeviceNumber} : (Call.checkMedium d).Finishes w := by
  by_cases henters : (Call.checkMedium d).enters w = true
  · rw [Finishes, Completes, alone, if_pos henters]
    exact .error id
  · have hc := Bool.eq_false_iff.mpr henters
    refine finishes_of_begin hc ?_
    change (w.checkMedium d).Finishes
    unfold World.checkMedium
    split
    · rename_i hchanged
      have hscript : ((w.note (.mediumChanged d)).takeEmptying d).1 = [] := by
        simpa [enters, hchanged, World.takeEmptying_note] using hc
      dsimp only
      rw [hscript]
      exact World.call_finishes completes_play_nil.finishes fun _ _ =>
        World.call_finishes discard_finishes fun _ _ => World.done_finishes
    · exact World.done_finishes

/-- Draining a driver comes to an end since every request that ends frees a slot. -/
theorem Call.drain_finishes {m : Nat} {pattern upcoming : List Bool}
    {ended : List (Transfer × Bool × Bool)} :
    (Call.drain m pattern upcoming ended).Finishes w := by
  induction hcard : (w.cache.requests.slotsWith fun _ => true).card using
    Nat.strong_induction_on generalizing w upcoming ended with
  | h k ih =>
    refine finishes_of_begin rfl ?_
    change (w.drain m pattern upcoming ended).Finishes
    unfold World.drain
    split
    · exact World.done_finishes
    · refine World.orFault_finishes fun r hr => World.goto_finishes (ih _ ?_ rfl)
      have hfreed := World.card_slotsWith_finish hr
      omega

/-- A victim that is looked at again may be in use by now, and have to be flushed. -/
theorem World.victimReady_finishes : (w.victimReady b i).Finishes := by
  have hobtain : (Call.obtain b).Finishes w := Call.obtain_finishes
  unfold victimReady
  dsimp only
  split
  · exact goto_finishes hobtain
  rename_i hreferences
  split
  · refine Outcome.completes_call (Call.completes_flush False.elim) fun flushed _ hflushed => ?_
    refine (completes_flushedVictim ?_ ?_ fun _ _ => trivial).finishes
    · rw [hflushed.1.cache.references]
      exact not_not.mp hreferences
    · exact hflushed.2 i (g.mem_allBuffers i) (beq_self_eq_true _)
  split
  · exact goto_finishes hobtain
  · exact orFault_finishes fun _ _ => done_finishes

theorem World.awaitingVictim_finishes :
    (w.call (.awaitUnlock i) (.awaitingVictim b i) : Outcome g .hold).Finishes :=
  call_finishes (Call.completes_awaitUnlock False.elim).finishes fun _ _ =>
    victimReady_finishes

theorem World.lookedUp_finishes (found : Option (Hold g)) : (w.lookedUp b found).Finishes := by
  cases found with
  | some h => exact done_finishes
  | none =>
    refine orFault_finishes fun victim _ => ?_
    cases victim with
    | none =>
      exact Outcome.Completes.finishes (P := fun _ => True) (Q := fun _ _ => True)
        (Call.completes_sleepIn id trivial)
    | some i => exact awaitingVictim_finishes

theorem World.letGo_finishes {h t : Hold g} {d : DeviceNumber} {ahead : List BlockNumber} :
    (w.letGo h t d ahead).Finishes :=
  orFault_finishes fun _ _ => goto_finishes Call.completes_readAhead

theorem World.collected_finishes {h : Hold g} {held : Held g} {chunks : List Page}
    {failed : Bool} {page : List UInt8} :
    (w.collected h held chunks failed page).Finishes := by
  have hback (chunks : List Page) (failed : Bool) :
      (w.call (.release h.handle) (.collected held chunks failed page) :
        Outcome g .page).Finishes :=
    call_finishes Call.release_finishes fun _ _ =>
      goto_finishes (Call.completes_collect False.elim)
  refine orFault_finishes fun v _ => ?_
  split
  · exact hback _ _
  · exact hback _ _

/-- Having the bytes of a buffer transferred unless they are there. -/
theorem World.bring_finishes {s : Shape} {op : Operation} {h : Hold g} {there : Outcome g s}
    {f : Frame g .unit s} (hthere : there.Finishes) (hf : ∀ w', (f.resume () w').Finishes) :
    (orFault (w.cache.view h.handle) fun v =>
      if v.valid then there else w.call (.issue op h.handle) f).Finishes :=
  completes_bring False.elim hthere fun w' _ => hf w'

end Calls

/-! ### Commands -/

section Commands

variable {w : World g} {name : String}

theorem World.withHandle_finishes {k : Handle → Outcome g .reply}
    (hk : ∀ h, (k h).Finishes) : (w.withHandle name k).Finishes := by
  unfold withHandle
  split
  · exact hk _
  · exact done_finishes

theorem World.withGuard_finishes {k : Handle → Outcome g .reply}
    (hk : ∀ h, (k h).Finishes) : (w.withGuard name k).Finishes := by
  unfold withGuard
  split
  · exact hk _
  · exact done_finishes

theorem World.withDisk_finishes {m : Nat} {k : MemoryDisk → Answer} :
    (w.withDisk m k).Finishes := by
  unfold withDisk
  split
  · exact done_finishes
  · exact done_finishes

/-- What is answered or changed in one step, if the handle is good. -/
theorem World.orFault_done_finishes {α : Type} {x : Except Fault α} {w' : α → World g}
    {a : α → Answer} :
    (orFault x fun y => ((w' y).done (a y) : Outcome g .reply)).Finishes :=
  orFault_finishes fun _ _ => done_finishes

/-- A reference that may not be there, or that may have failed, is answered. -/
theorem World.answerFetched_finishes {name : Option String} (v : Except Failure (Hold g)) :
    (w.answerFetched name v).Finishes := by
  cases v with
  | ok h => exact done_finishes
  | error f => exact done_finishes

theorem World.guardFetched_finishes (v : Except Failure (Hold g)) :
    (w.guardFetched name v).Finishes := by
  cases v with
  | ok h => exact done_finishes
  | error f => exact done_finishes

theorem World.answerFound_finishes {name : Option String} (v : Option (Hold g)) :
    (w.answerFound name v).Finishes := by
  cases v with
  | none => exact done_finishes
  | some h => exact done_finishes

theorem World.fillHeld_finishes {byte : UInt8} {h : Hold g} : (w.fillHeld byte h).Finishes :=
  orFault_finishes fun _ _ => call_finishes Call.release_finishes fun _ _ => done_finishes

theorem World.perform_finishes (w : World g) (c : Command) : (w.perform c).Finishes := by
  have hreleased {w : World g} {a : Answer} (h : Handle) :
      (w.call (.release h) (.answering a) : Outcome g .reply).Finishes :=
    call_finishes Call.release_finishes fun _ _ => done_finishes
  cases c with
  | register m d starts =>
    unfold perform
    dsimp only
    split
    · exact done_finishes
    · exact done_finishes
  | acquire b name => exact call_finishes Call.acquire_finishes fun _ _ => done_finishes
  | lookUp b name =>
    exact call_finishes (Call.completes_lookUp False.elim).finishes fun v _ =>
      answerFound_finishes v
  | fetch b name =>
    exact call_finishes (Call.completes_fetch False.elim) fun v _ => answerFetched_finishes v
  | fetchAhead b ahead name =>
    exact call_finishes Call.completes_fetchAhead fun v _ => answerFetched_finishes v
  | fetchPage d numbers length fill =>
    exact call_finishes (Call.completes_fetchPage False.elim) fun _ _ => done_finishes
  | release name => exact withHandle_finishes fun h => hreleased h
  | put b fill => exact call_finishes Call.acquire_finishes fun _ _ => fillHeld_finishes
  | touch b => exact call_finishes Call.acquire_finishes fun h _ => hreleased _
  | read name => exact withHandle_finishes fun h => orFault_done_finishes
  | fill name byte => exact withHandle_finishes fun h => orFault_done_finishes
  | write name offset bytes => exact withHandle_finishes fun h => orFault_done_finishes
  | markDirty name => exact withHandle_finishes fun h => orFault_done_finishes
  | markValid name => exact withHandle_finishes fun h => orFault_done_finishes
  | query name q => exact withHandle_finishes fun h => orFault_done_finishes
  | issue op name =>
    exact withHandle_finishes fun h => call_finishes Call.issue_finishes fun _ _ => done_finishes
  | move m fill =>
    change (w.moveBytes m fill).Finishes
    unfold moveBytes
    split
    · exact done_finishes
    · exact done_finishes
  | finish m success => exact orFault_done_finishes
  | drain m pattern => exact goto_finishes Call.drain_finishes
  | start m =>
    unfold perform
    dsimp only
    split
    · exact call_finishes Call.completes_start.finishes fun _ _ => done_finishes
    · exact done_finishes
  | flush scope =>
    exact call_finishes (Call.completes_flush False.elim).finishes fun _ _ => done_finishes
  | discard d => exact call_finishes Call.discard_finishes fun _ _ => done_finishes
  | checkMedium d => exact call_finishes Call.checkMedium_finishes fun _ _ => done_finishes
  | diskInfo m => exact withDisk_finishes
  | diskRead m offset length fill => exact withDisk_finishes
  | guardFetch b name =>
    exact call_finishes (Call.completes_fetch False.elim) fun v _ => guardFetched_finishes v
  | guardAcquire b name =>
    exact call_finishes Call.acquire_finishes fun h _ => orFault_done_finishes
  | guardInfo name => exact withGuard_finishes fun h => orFault_done_finishes
  | guardRead name => exact withGuard_finishes fun h => orFault_done_finishes
  | guardWrite name offset bytes => exact withGuard_finishes fun h => orFault_done_finishes
  | guardDrop name => exact withGuard_finishes fun h => hreleased h
  | guardInto name handle => exact withGuard_finishes fun h => done_finishes
  | guardHandle name handle => exact withGuard_finishes fun h => done_finishes
  | listen _ | attend _ | isCached _ | bufferCount | forge _ _ _ | current _ | queued _ | statistics
  | describe | inspect => exact done_finishes

theorem Call.perform_finishes {c : Command} : (Call.perform c : Call g .reply).Finishes w :=
  finishes_of_begin rfl (w.perform_finishes c)

/-- A script comes to an end with its list of commands. -/
theorem Call.play_finishes {script : Script} : (Call.play script).Finishes w := by
  induction script generalizing w with
  | nil => exact completes_play_nil.finishes
  | cons c rest ih =>
    exact finishes_of_begin rfl (World.call_finishes perform_finishes fun _ _ =>
      World.goto_finishes ih)

end Commands

/-! ### All calls -/

/-- Left alone, every call comes to a value or to a stop. -/
theorem Call.finishes {s : Shape} (c : Call g s) (w : World g) : c.Finishes w := by
  cases c with
  | sleep q ticket => exact (completes_sleep False.elim).finishes
  | play script => exact play_finishes
  | awaitUnlock i => exact (completes_awaitUnlock False.elim).finishes
  | lock i => exact (completes_lock False.elim).finishes
  | lookUp b => exact (completes_lookUp False.elim).finishes
  | acquire b => exact acquire_finishes
  | obtain b => exact obtain_finishes
  | release h => exact release_finishes
  | fetch b => exact completes_fetch False.elim
  | fetchAhead b ahead => exact completes_fetchAhead
  | readAhead h d ahead => exact completes_readAhead
  | settle h => exact completes_settle False.elim
  | fetchPage d numbers page => exact completes_fetchPage False.elim
  | gather d numbers held page => exact completes_gather False.elim
  | collect held chunks failed page => exact completes_collect False.elim
  | issue op h => exact issue_finishes
  | request op i => exact (completes_request False.elim).finishes
  | enqueue op i d number => exact finishes_of_begin rfl World.completes_enqueue.finishes
  | start m => exact completes_start.finishes
  | serve m => exact completes_serve.finishes
  | flush scope => exact (completes_flush False.elim).finishes
  | flushRounds scope rounds writes => exact (completes_flushRounds False.elim).finishes
  | flushBuffers scope rounds writes rest => exact flushBuffers_finishes
  | discard d => exact discard_finishes
  | discardBuffers d rest => exact (completes_discardBuffers False.elim).finishes
  | checkMedium d => exact checkMedium_finishes
  | perform c => exact perform_finishes
  | drain m pattern upcoming ended => exact drain_finishes

/-- Left alone, every suspended call comes to a value or to a stop when it is given a value,
whatever that is. -/
theorem Frame.resume_finishes {a s : Shape} (f : Frame g a s) (v : a.Value g) (w : World g) :
    (f.resume v w).Finishes := by
  cases f with
  | pinning b i =>
    change (w.pinned b i).Finishes
    unfold World.pinned
    split
    · exact World.done_finishes
    · split
      · exact World.fault_finishes
      · exact World.goto_finishes (Call.finishes _ _)
  | lookingUp b => exact World.lookedUp_finishes v
  | awaitingVictim b i => exact World.victimReady_finishes
  | flushingVictim b i => exact World.awaitingVictim_finishes
  | releasing h i =>
    change (w.released i).Finishes
    unfold World.released
    split
    · exact World.fault_finishes
    · exact World.done_finishes
  | fetching => exact World.completes_fetched False.elim
  | settling h => exact World.completes_settled False.elim
  | fetchingFirst d ahead =>
    exact World.bring_finishes (World.goto_finishes (Call.finishes _ _)) fun _ =>
      World.goto_finishes (Call.finishes _ _)
  | fetchingAhead h d ahead =>
    exact World.bring_finishes World.letGo_finishes fun _ => World.letGo_finishes
  | issuingAhead h t d ahead => exact World.letGo_finishes
  | gathering d numbers held page =>
    exact World.bring_finishes (World.goto_finishes (Call.finishes _ _)) fun _ =>
      World.goto_finishes (Call.finishes _ _)
  | collecting h held chunks failed page => exact World.collected_finishes
  | locking op i d => exact World.completes_locked.finishes
  | flushAwaiting scope rounds writes i rest =>
    change (w.flushReady scope rounds writes i rest).Finishes
    unfold World.flushReady
    dsimp only
    split
    · exact World.call_finishes (Call.finishes _ _) fun _ _ =>
        World.goto_finishes (Call.finishes _ _)
    · exact World.goto_finishes (Call.finishes _ _)
  | keepFound name => exact World.answerFound_finishes v
  | keepFetched name => exact World.answerFetched_finishes v
  | guardHold name => exact World.orFault_done_finishes
  | guardFetched name => exact World.guardFetched_finishes v
  | filling byte => exact World.fillHeld_finishes
  | touching | mediumAnnouncing _ =>
    exact World.call_finishes (Call.finishes _ _) fun _ _ => World.done_finishes
  | unwinding _ | mediumDiscarding | keepHold _ | answering _ | answerFlag | answerPage =>
    exact World.done_finishes
  | sleeping _ _ | playing _ | awaitingUnlock _ | awaitingLock _ | starving _ | fetchIssuing _
  | issuingFirst _ _ _ | gatherIssuing _ _ _ _ | collected _ _ _ _ | awaitingVacancy _ _ _ _
  | announcing _ _ _ | flushWriting _ _ _ _ | discardAwaiting _ _ _ =>
    exact World.goto_finishes (Call.finishes _ _)

/-! ## Runs come to an end -/

namespace Machine

variable {s : Shape} {base : Stack g s} {m m' : Machine g}

/-- With enough steps the command is answered, or everything halts. -/
def ComesToEnd (m : Machine g) : Prop :=
  ∃ n, m.run n ≠ .exhausted

theorem ComesToEnd.of_steps (h : m.Steps m') (hm' : m'.ComesToEnd) : m.ComesToEnd := by
  obtain ⟨n, hn⟩ := hm'
  refine ⟨n + 1, ?_⟩
  rw [run, step_of_steps h]
  exact hn

theorem comesToEnd_of_halted {e : Halt} (h : m.step = .halted e) : m.ComesToEnd := by
  refine ⟨1, ?_⟩
  rw [run, h]
  nofun

theorem comesToEnd_of_answered {w : World g} {a : Answer} (h : m.step = .answered w a) :
    m.ComesToEnd := by
  refine ⟨1, ?_⟩
  rw [run, h]
  nofun

/-- A machine that takes up a script ends if all do that have less load. -/
theorem Enters.comesToEnd (h : m.Enters)
    (hless : ∀ m' : Machine g, m'.load < m.load → m'.ComesToEnd) : m.ComesToEnd := by
  cases hstep : m.step with
  | running m' =>
    have hs := steps_of_step hstep
    exact .of_steps hs (hless m' (hs.lightens.2 h))
  | answered w a => exact comesToEnd_of_answered hstep
  | halted e => exact comesToEnd_of_halted hstep

/-- The machine of a call that comes to a value or to a stop ends if all do that have less
load, and those do in which the value is handed on. -/
theorem Completes.comesToEnd {P : Next g s → Prop} {Q : World g → s.Value g → Prop}
    (h : m.Completes False base P Q) (hless : ∀ m' : Machine g, m'.load < m.load → m'.ComesToEnd)
    (hvalue : ∀ w v, (⟨w, s, .give v, base⟩ : Machine g).load ≤ m.load →
      (⟨w, s, .give v, base⟩ : Machine g).ComesToEnd) : m.ComesToEnd := by
  obtain ⟨n, hspan, hn⟩ := h
  induction hspan using Relation.ReflTransGen.head_induction_on with
  | refl =>
    obtain ⟨-, henters | ⟨e, he⟩⟩ | ⟨w, v, rfl, -⟩ := hn
    · exact henters.comesToEnd hless
    · exact comesToEnd_of_halted he
    · exact hvalue w v (Nat.le_refl _)
  | @head a b hmove _ ih =>
    have hs := hmove.1.steps hmove.2
    have hle := hs.lightens.1
    exact .of_steps hs (ih (fun m' hm' => hless m' (hm'.trans_le hle)) fun w v hv =>
      hvalue w v (hv.trans hle))

/-- A machine that hands a value to its suspended calls ends: these come to an end one after
the other. -/
theorem comesToEnd_of_give (hless : ∀ m' : Machine g, m'.load < m.load → m'.ComesToEnd)
    (stack : Stack g s) (w : World g) (v : s.Value g)
    (hload : (⟨w, s, .give v, stack⟩ : Machine g).load ≤ m.load) :
    (⟨w, s, .give v, stack⟩ : Machine g).ComesToEnd := by
  induction stack generalizing w with
  | bottom => exact comesToEnd_of_answered rfl
  | push f rest ih =>
    have hfinishes : (f.resume v w).Finishes := f.resume_finishes v w
    refine (Frame.machine_of_completes hfinishes rest).comesToEnd (fun m' hm' => ?_)
      fun w' v' hv' => ?_
    · exact hless m' (hm'.trans_le hload)
    · exact ih w' v' (hv'.trans hload)

/-- Every machine comes to the end of its command, or halts. -/
theorem comesToEnd (m : Machine g) : m.ComesToEnd := by
  -- Where a script is taken up, the load becomes less.
  induction hload : m.load using Nat.strong_induction_on generalizing m with
  | h k ih =>
    have hless (m' : Machine g) (hm' : m'.load < m.load) : m'.ComesToEnd :=
      ih m'.load (hload ▸ hm') m' rfl
    obtain ⟨w, s, control, stack⟩ := m
    cases control with
    | give v => exact comesToEnd_of_give hless stack w v (Nat.le_refl _)
    | run c =>
      have hfinishes : c.Completes False (fun _ _ => True) w := c.finishes w
      exact (hfinishes.machine stack).comesToEnd hless fun w' v hv =>
        comesToEnd_of_give hless stack w' v hv

/-- A machine that halts within some steps. -/
def Halts (m : Machine g) : Prop :=
  ∃ n e, m.run n = .halted e

/-- Every call comes to its value, unless everything halts. -/
theorem returns_or_halts (h : base.Beneath m.stack) :
    m.Halts ∨ ∃ m', Leads (fun x => ¬ x.Returned base) m m' ∧ m'.Returned base := by
  obtain ⟨n, hn⟩ := m.comesToEnd
  induction n generalizing m with
  | zero => exact absurd rfl hn
  | succ n ih =>
    by_cases hreturned : m.Returned base
    · exact .inr ⟨m, .refl, hreturned⟩
    rw [run] at hn
    cases hstep : m.step with
    | running m' =>
      rw [hstep] at hn
      have hmove : m.Moves m' := .step (steps_of_step hstep)
      obtain ⟨k, e, hk⟩ | ⟨m'', hspan, hm''⟩ := ih (beneath_moves h hmove hreturned) hn
      · refine .inl ⟨k + 1, e, ?_⟩
        rw [run, hstep]
        exact hk
      · exact .inr ⟨m'', .head ⟨hreturned, hmove⟩ hspan, hm''⟩
    | answered w a =>
      obtain rfl := eq_of_answered hstep
      cases h
      exact absurd ⟨w, a, rfl⟩ hreturned
    | halted e =>
      refine .inl ⟨1, e, ?_⟩
      rw [run, hstep]

/-! ## Sessions come to an end -/

/-- What comes of a run that is long enough is what comes of the machine. -/
theorem toEnd_eq_run {n : Nat} (h : m.run n ≠ .exhausted) : m.toEnd = m.run n := by
  induction n generalizing m with
  | zero => exact absurd rfl h
  | succ n ih =>
    rw [run] at h ⊢
    rw [toEnd]
    cases hstep : m.step with
    | running m' =>
      rw [hstep] at h
      exact ih h
    | answered w a => rfl
    | halted e => rfl

theorem toEnd_ne_exhausted (m : Machine g) : m.toEnd ≠ .exhausted := by
  obtain ⟨n, hn⟩ := m.comesToEnd
  rw [toEnd_eq_run hn]
  exact hn

/-- A command that is answered within a run was about to be answered at some point of it. -/
theorem Reachable.exists_answered {n : Nat} {w : World g} {a : Answer} (hm : m.Reachable)
    (h : m.run n = .answered w a) :
    ∃ m' : Machine g, m'.Reachable ∧ m'.step = .answered w a := by
  induction n generalizing m with
  | zero => cases h
  | succ n ih =>
    rw [run] at h
    cases hstep : m.step with
    | running m' =>
      rw [hstep] at h
      exact ih (hm.step trivial hstep) h
    | answered w' a' =>
      rw [hstep] at h
      cases h
      exact ⟨m, hm, hstep⟩
    | halted e =>
      rw [hstep] at h
      cases h

/-- Every command of a session begins where a run has come to: the first by definition, and each
further one since the one before it was answered. -/
theorem Reachable.start_of_execute {w w' : World g} {c : Command} {a : Answer}
    (hw : (start w c).Reachable) (h : w.execute c = .answered w' a) (waiting : List Script)
    (c' : Command) : (start (w'.fresh waiting) c').Reachable := by
  obtain ⟨n, hn⟩ := (start w c).comesToEnd
  rw [World.execute, toEnd_eq_run hn] at h
  obtain ⟨m, hm, hstep⟩ := hw.exists_answered h
  exact Conduct.Run.next waiting c' hm trivial hstep

end Machine

namespace World

theorem execute_ne_exhausted (w : World g) (c : Command) : w.execute c ≠ .exhausted :=
  Machine.toEnd_ne_exhausted _

/-- A session ends early only where everything halts. -/
theorem session_ne_exhausted (w : World g) (steps : List SessionStep) :
    (w.session steps).2 ≠ some .exhausted := by
  induction steps generalizing w with
  | nil => exact nofun
  | cons s rest ih =>
    rw [session]
    cases hexecute : (w.fresh s.waiting).execute s.command with
    | answered w' a => exact ih w'
    | halted e => exact nofun
    | exhausted => exact absurd hexecute (execute_ne_exhausted _ _)

end World
end BufferCache
