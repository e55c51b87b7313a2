import BufferCache.Proofs.Edits

/-!
# What is left to be done

What remains to be done in a world is its *agenda*: the scripts of other tasks, and the requests
that wait.  Most steps leave it alone; they are *plain*.  The others are few: a script is taken
up, laid down or gone on with, or a request is queued or ended.

The commands that a machine still has to carry out, in the scripts of its world and in those
that its calls have begun, make up its *load*.  A command that lays scripts down weighs more
than these, so the load never grows; and where a script is taken up it becomes less.
-/

namespace BufferCache

variable {g : Geometry}

/-! ## What commands and scripts weigh -/

mutual

/-- What a command weighs: more than the scripts that it lays down. -/
def Command.work : Command → Nat
  | .register _ _ starts => 1 + scriptsWork starts
  | .listen (some flushes) => 1 + scriptsWork flushes
  | .attend emptyings => 1 + scriptsWork emptyings
  | _ => 1

/-- What a script weighs. -/
def scriptWork : List Command → Nat
  | [] => 1
  | c :: rest => c.work + scriptWork rest

/-- What scripts weigh. -/
def scriptsWork : List (List Command) → Nat
  | [] => 1
  | s :: rest => scriptWork s + scriptsWork rest

end

/-- What the scripts weigh that are laid down. -/
def World.work {g : Geometry} (w : World g) : Nat :=
  scriptsWork w.waiting + w.starts.foldr (fun e work => scriptsWork e.2 + work) 0 +
    scriptsWork (w.flushes.getD []) + scriptsWork w.emptyings

/-! ## The load of calls -/

/-- The commands that a call carries out itself, by what they weigh. -/
def Call.load : {s : Shape} → Call g s → Nat
  | _, .play script => scriptWork script - 1
  | _, .perform c => c.work
  | _, _ => 0

/-- The commands that a suspended call goes on with. -/
def Frame.load : {a s : Shape} → Frame g a s → Nat
  | _, _, .playing rest => scriptWork rest - 1
  | _, _, _ => 0

/-- The load of what comes next. -/
def Next.load : {s : Shape} → Next g s → Nat
  | _, .done _ => 0
  | _, .goto c => c.load
  | _, .call c f => c.load + f.load

/-- The load of the suspended calls. -/
def Stack.load : {s : Shape} → Stack g s → Nat
  | _, .bottom => 0
  | _, .push f rest => f.load + rest.load

/-- The load of a machine: the scripts that are laid down, and what its calls have begun. -/
def Machine.load : Machine g → Nat
  | ⟨w, _, .run c, stack⟩ => w.work + c.load + stack.load
  | ⟨w, _, .give _, stack⟩ => w.work + stack.load

/-! ## Plain steps -/

/-- The scripts of other tasks. -/
def World.scripts (w : World g) :
    List Script × List (Nat × List Script) × Option (List Script) × List Script :=
  (w.waiting, w.starts, w.flushes, w.emptyings)

/-- What is left to be done: the scripts of other tasks, and the requests. -/
def World.agenda (w : World g) :
    (List Script × List (Nat × List Script) × Option (List Script) × List Script) ×
      RequestTable g :=
  (w.scripts, w.cache.requests)

/-- A step leaves the agenda alone, and what comes next has no load. -/
def Outcome.Plain {s : Shape} (o : Outcome g s) (w : World g) : Prop :=
  o.Ensures fun w' n => w'.agenda = w.agenda ∧ n.load = 0

/-- A step leaves the scripts alone, and what comes next has no load. -/
def Outcome.Unscripted {s : Shape} (o : Outcome g s) (w : World g) : Prop :=
  o.Ensures fun w' n => w'.scripts = w.scripts ∧ n.load = 0

theorem Outcome.Plain.unscripted {s : Shape} {o : Outcome g s} {w : World g} (h : o.Plain w) :
    o.Unscripted w :=
  Outcome.Ensures.mono h fun _ _ hn => ⟨congrArg Prod.fst hn.1, hn.2⟩

namespace World

variable {s : Shape} {w w' : World g}

theorem done_plain {v : s.Value g} (h : w'.agenda = w.agenda) :
    Outcome.Plain (w'.done v) w :=
  Outcome.ensures_done ⟨h, rfl⟩

theorem goto_plain {c : Call g s} (h : w'.agenda = w.agenda) (hc : c.load = 0) :
    Outcome.Plain (w'.goto c) w :=
  Outcome.ensures_goto ⟨h, hc⟩

theorem call_plain {a : Shape} {c : Call g a} {f : Frame g a s} (h : w'.agenda = w.agenda)
    (hc : (Next.call c f).load = 0) : Outcome.Plain (w'.call c f) w :=
  Outcome.ensures_call ⟨h, hc⟩

theorem fault_plain {f : Fault} : Outcome.Plain (fault f : Outcome g s) w :=
  Outcome.ensures_fault

theorem orFault_plain {α : Type} {x : Except Fault α} {k : α → Outcome g s}
    (h : ∀ a, x = .ok a → (k a).Plain w) : (orFault x k).Plain w :=
  Outcome.ensures_orFault h

/-! ### Waiting -/

theorem awaitUnlock_plain (w : World g) (i : g.Buffer) : (w.awaitUnlock i).Plain w := by
  unfold awaitUnlock
  split
  · exact call_plain rfl rfl
  · exact done_plain rfl

theorem lock_plain (w : World g) (i : g.Buffer) : (w.lock i).Plain w := by
  unfold lock
  split
  · exact call_plain rfl rfl
  · exact done_plain rfl

/-! ### Getting and giving back buffers -/

theorem lookUp_plain (w : World g) (b : Block) : (w.lookUp b).Plain w := by
  unfold lookUp
  split
  · exact done_plain rfl
  · exact call_plain rfl rfl

theorem pinned_plain (w : World g) (b : Block) (i : g.Buffer) : (w.pinned b i).Plain w := by
  unfold pinned
  split
  · exact done_plain rfl
  · split
    · exact fault_plain
    · exact goto_plain rfl rfl

theorem acquire_plain (w : World g) (b : Block) : (w.acquire b).Plain w := by
  unfold acquire
  split
  · exact fault_plain
  · exact goto_plain rfl rfl

theorem lookedUp_plain (w : World g) (b : Block) (found : Option (Hold g)) :
    (w.lookedUp b found).Plain w := by
  cases found with
  | some h => exact done_plain rfl
  | none =>
    refine orFault_plain fun victim _ => ?_
    cases victim with
    | none => exact call_plain rfl rfl
    | some i => exact call_plain rfl rfl

theorem victimReady_plain (w : World g) (b : Block) (i : g.Buffer) :
    (w.victimReady b i).Plain w := by
  unfold victimReady
  dsimp only
  split
  · exact goto_plain rfl rfl
  split
  · exact call_plain rfl rfl
  split
  · exact goto_plain rfl rfl
  · refine orFault_plain fun s _ => done_plain ?_
    unfold reportMiss
    split <;> rfl

theorem released_plain (w : World g) (i : g.Buffer) : (w.released i).Plain w := by
  unfold released
  split
  · exact fault_plain
  · exact done_plain rfl

/-! ### Flushing and emptying -/

theorem flushBuffers_plain (w : World g) (scope : Scope) (rounds writes : Nat)
    (rest : List g.Buffer) : (w.flushBuffers scope rounds writes rest).Plain w := by
  unfold flushBuffers
  split
  · exact goto_plain rfl rfl
  · split
    · exact call_plain rfl rfl
    · exact goto_plain rfl rfl

theorem flushReady_plain (w : World g) (scope : Scope) (rounds writes : Nat) (i : g.Buffer)
    (rest : List g.Buffer) : (w.flushReady scope rounds writes i rest).Plain w := by
  unfold flushReady
  dsimp only
  split
  · exact call_plain rfl rfl
  · exact goto_plain rfl rfl

theorem discardBuffers_plain (w : World g) (d : DeviceNumber) (rest : List g.Buffer) :
    (w.discardBuffers d rest).Plain w := by
  unfold discardBuffers
  split
  · exact done_plain rfl
  · split
    · exact call_plain rfl rfl
    · exact goto_plain rfl rfl

theorem discardReady_plain (w : World g) (d : DeviceNumber) (i : g.Buffer)
    (rest : List g.Buffer) : (w.discardReady d i rest).Plain w := by
  unfold discardReady
  refine goto_plain ?_ rfl
  split <;> rfl

/-! ### Reading -/

theorem letGo_plain (w : World g) (h t : Hold g) (d : DeviceNumber)
    (ahead : List BlockNumber) : (w.letGo h t d ahead).Plain w :=
  orFault_plain fun _ _ => goto_plain rfl rfl

theorem fetched_plain (w : World g) (h : Hold g) : (w.fetched h).Plain w := by
  refine orFault_plain fun v _ => ?_
  split
  · exact done_plain rfl
  · exact call_plain rfl rfl

theorem settled_plain (w : World g) (h : Hold g) : (w.settled h).Plain w := by
  refine orFault_plain fun v _ => ?_
  split
  · exact done_plain rfl
  · exact call_plain rfl rfl

theorem firstFetched_plain (w : World g) (d : DeviceNumber) (ahead : List BlockNumber)
    (h : Hold g) : (w.firstFetched d ahead h).Plain w := by
  refine orFault_plain fun v _ => ?_
  split
  · exact goto_plain rfl rfl
  · exact call_plain rfl rfl

theorem readAhead_plain (w : World g) (h : Hold g) (d : DeviceNumber)
    (ahead : List BlockNumber) : (w.readAhead h d ahead).Plain w := by
  cases ahead with
  | nil => exact goto_plain rfl rfl
  | cons n ahead => exact call_plain rfl rfl

theorem aheadFetched_plain (w : World g) (h : Hold g) (d : DeviceNumber)
    (ahead : List BlockNumber) (t : Hold g) : (w.aheadFetched h d ahead t).Plain w := by
  refine orFault_plain fun v _ => ?_
  split
  · exact letGo_plain w h t d ahead
  · exact call_plain rfl rfl

theorem fetchPage_plain (w : World g) (d : DeviceNumber) (numbers : List BlockNumber)
    (page : List UInt8) : (w.fetchPage d numbers page).Plain w := by
  unfold fetchPage
  split
  · exact done_plain rfl
  split
  · exact done_plain rfl
  · exact goto_plain rfl rfl

theorem gather_plain (w : World g) (d : DeviceNumber) (numbers : List BlockNumber)
    (held : Held g) (page : List UInt8) : (w.gather d numbers held page).Plain w := by
  cases numbers with
  | nil => exact goto_plain rfl rfl
  | cons n numbers =>
    unfold gather
    dsimp only
    split
    · exact goto_plain rfl rfl
    · exact call_plain rfl rfl

theorem gathered_plain (w : World g) (d : DeviceNumber) (numbers : List BlockNumber)
    (held : Held g) (page : List UInt8) (h : Hold g) :
    (w.gathered d numbers held page h).Plain w := by
  refine orFault_plain fun v _ => ?_
  split
  · exact goto_plain rfl rfl
  · exact call_plain rfl rfl

theorem collect_plain (w : World g) (held : Held g) (chunks : List Page) (failed : Bool)
    (page : List UInt8) : (w.collect held chunks failed page).Plain w := by
  match held with
  | [] => exact done_plain rfl
  | none :: held => exact goto_plain rfl rfl
  | some h :: held => exact call_plain rfl rfl

theorem collected_plain (w : World g) (h : Hold g) (held : Held g) (chunks : List Page)
    (failed : Bool) (page : List UInt8) : (w.collected h held chunks failed page).Plain w := by
  refine orFault_plain fun v _ => ?_
  split
  · exact call_plain rfl rfl
  · exact call_plain rfl rfl

/-! ### Commands -/

theorem withHandle_plain {name : String} {k : Handle → Outcome g .reply}
    (hk : ∀ h, (k h).Plain w) : (w.withHandle name k).Plain w := by
  unfold withHandle
  split
  · exact hk _
  · exact done_plain rfl

theorem withGuard_plain {name : String} {k : Handle → Outcome g .reply}
    (hk : ∀ h, (k h).Plain w) : (w.withGuard name k).Plain w := by
  unfold withGuard
  split
  · exact hk _
  · exact done_plain rfl

/-- A question about a buffer is answered if its handle is good. -/
theorem answer_plain {α : Type} {x : Except Fault α} {k : α → Answer} :
    (orFault x fun a => (w.done (k a) : Outcome g .reply)).Plain w :=
  orFault_plain fun _ _ => done_plain rfl

theorem agenda_edit (w : World g) (i : g.Buffer) (page : Option Page) (valid dirty : Bool) :
    { w with cache := w.cache.edit i page valid dirty }.agenda = w.agenda := by
  rw [agenda, Cache.requests_edit]
  rfl

theorem change_plain {c : Except Fault (Cache g)}
    (hok : ∀ c', c = .ok c' → ∃ i page valid dirty, c' = w.cache.edit i page valid dirty) :
    (w.change c).Plain w := by
  refine orFault_plain fun c' hc' => ?_
  obtain ⟨i, page, valid, dirty, rfl⟩ := hok c' hc'
  exact done_plain (w.agenda_edit i page valid dirty)

theorem withDisk_plain (w : World g) (m : Nat) (k : MemoryDisk → Answer) :
    (w.withDisk m k).Plain w := by
  unfold withDisk
  split
  · exact done_plain rfl
  · exact done_plain rfl

theorem moveBytes_plain (w : World g) (m : Nat) (fill : Option UInt8) :
    (w.moveBytes m fill).Plain w := by
  unfold moveBytes
  split
  · exact done_plain rfl
  · cases fill with
    | none => exact done_plain rfl
    | some byte => exact done_plain rfl

theorem agenda_noteFaults {α : Type} (w : World g) (views : List (String × Except Fault α)) :
    (views.foldl (fun w e => w.noteFault e.2) w).agenda = w.agenda := by
  induction views generalizing w with
  | nil => rfl
  | cons e views ih =>
    rw [List.foldl_cons, ih]
    cases e.2 <;> rfl

theorem fillHeld_plain (w : World g) (byte : UInt8) (h : Hold g) :
    (w.fillHeld byte h).Plain w := by
  refine orFault_plain fun c hc => ?_
  obtain ⟨i, -, rfl⟩ := Cache.overwrite_eq_ok hc
  exact call_plain (w.agenda_edit i _ true true) rfl

theorem guardHeld_plain (w : World g) (name : String) (h : Hold g) :
    (w.guardHeld name h).Plain w := by
  refine orFault_plain fun c hc => ?_
  obtain ⟨i, -, rfl⟩ := Cache.markValid_eq_ok hc
  exact done_plain (w.agenda_edit i none true false)

end World

/-- Commands that leave the agenda alone: all but those that lay scripts down or end a
request. -/
def Command.plain : Command → Bool
  | .register _ _ _ | .listen _ | .attend _ | .finish _ _ => false
  | _ => true

theorem World.perform_plain (w : World g) {c : Command} (hc : c.plain = true) :
    (w.perform c).Plain w := by
  cases c with
  | register m d starts => cases hc
  | listen flushes => cases hc
  | attend emptyings => cases hc
  | finish m success => cases hc
  | release name => exact withHandle_plain fun h => call_plain rfl rfl
  | read name => exact withHandle_plain fun h => answer_plain
  | fill name byte =>
    refine withHandle_plain fun h => change_plain fun c hc => ?_
    obtain ⟨i, -, rfl⟩ := Cache.write_eq_ok hc
    exact ⟨i, _, _, _, rfl⟩
  | write name offset bytes =>
    refine withHandle_plain fun h => change_plain fun c hc => ?_
    obtain ⟨i, -, rfl⟩ := Cache.write_eq_ok hc
    exact ⟨i, _, _, _, rfl⟩
  | markDirty name =>
    refine withHandle_plain fun h => change_plain fun c hc => ?_
    obtain ⟨i, -, rfl⟩ := Cache.markDirty_eq_ok hc
    exact ⟨i, _, _, _, rfl⟩
  | markValid name =>
    refine withHandle_plain fun h => change_plain fun c hc => ?_
    obtain ⟨i, -, rfl⟩ := Cache.markValid_eq_ok hc
    exact ⟨i, _, _, _, rfl⟩
  | query name q => exact withHandle_plain fun h => answer_plain
  | issue op name => exact withHandle_plain fun h => call_plain rfl rfl
  | move m fill => exact moveBytes_plain w m fill
  | drain m pattern => exact goto_plain rfl rfl
  | start m =>
    unfold perform
    dsimp only
    split
    · exact call_plain rfl rfl
    · exact done_plain rfl
  | diskInfo m => exact withDisk_plain w m _
  | diskRead m offset length fill => exact withDisk_plain w m _
  | inspect => exact done_plain (agenda_noteFaults w _)
  | guardInfo name => exact withGuard_plain fun h => answer_plain
  | guardRead name => exact withGuard_plain fun h => answer_plain
  | guardWrite name offset bytes =>
    refine withGuard_plain fun h => change_plain fun c hc => ?_
    obtain ⟨i, -, rfl⟩ := Cache.writeDirty_eq_ok hc
    exact ⟨i, _, _, _, rfl⟩
  | guardDrop name => exact withGuard_plain fun h => call_plain rfl rfl
  | guardInto name handle => exact withGuard_plain fun h => done_plain rfl
  | guardHandle name handle => exact withGuard_plain fun h => done_plain rfl
  | acquire _ _ | lookUp _ _ | fetch _ _ | fetchAhead _ _ _ | fetchPage _ _ _ _ | put _ _
  | touch _ | flush _ | discard _ | checkMedium _ | guardFetch _ _ | guardAcquire _ _ =>
    exact call_plain rfl rfl
  | isCached _ | bufferCount | forge _ _ _ | current _ | queued _ | statistics | describe =>
    exact done_plain rfl

/-- Calls whose first step leaves the agenda alone. -/
def Call.plain {s : Shape} : Call g s → Bool
  | .sleep _ _ | .play _ | .request _ _ | .enqueue _ _ _ _ | .start _ | .serve _
  | .flushRounds _ _ _ | .checkMedium _ | .drain _ _ _ _ => false
  | .perform c => c.plain
  | _ => true

theorem Call.begin_plain {s : Shape} {c : Call g s} (hc : c.plain = true) (w : World g) :
    (c.begin w).Plain w := by
  cases c with
  | awaitUnlock i => exact w.awaitUnlock_plain i
  | lock i => exact w.lock_plain i
  | lookUp b => exact w.lookUp_plain b
  | acquire b => exact w.acquire_plain b
  | release h => exact World.orFault_plain fun i _ => World.call_plain rfl rfl
  | readAhead h d ahead => exact w.readAhead_plain h d ahead
  | fetchPage d numbers page => exact w.fetchPage_plain d numbers page
  | gather d numbers held page => exact w.gather_plain d numbers held page
  | collect held chunks failed page => exact w.collect_plain held chunks failed page
  | issue op h => exact World.orFault_plain fun i _ => World.goto_plain rfl rfl
  | flushBuffers scope rounds writes rest =>
    exact w.flushBuffers_plain scope rounds writes rest
  | discardBuffers d rest => exact w.discardBuffers_plain d rest
  | perform c => exact w.perform_plain hc
  | obtain _ | fetch _ | fetchAhead _ _ | settle _ => exact World.call_plain rfl rfl
  | flush _ | discard _ => exact World.goto_plain rfl rfl
  | sleep _ _ | play _ | request _ _ | enqueue _ _ _ _ | start _ | serve _ | flushRounds _ _ _
  | checkMedium _ | drain _ _ _ _ => cases hc

/-- Suspended calls whose step leaves the agenda alone. -/
def Frame.plain {a s : Shape} : Frame g a s → Bool
  | .playing _ | .locking _ _ _ => false
  | _ => true

theorem Frame.resume_plain {a s : Shape} {f : Frame g a s} (hf : f.plain = true)
    (v : a.Value g) (w : World g) : (f.resume v w).Plain w := by
  cases f with
  | pinning b i => exact w.pinned_plain b i
  | lookingUp b => exact w.lookedUp_plain b v
  | awaitingVictim b i => exact w.victimReady_plain b i
  | flushingVictim b i => exact World.call_plain rfl rfl
  | releasing h i => exact w.released_plain i
  | fetching => exact w.fetched_plain v
  | settling h => exact w.settled_plain h
  | fetchingFirst d ahead => exact w.firstFetched_plain d ahead v
  | fetchingAhead h d ahead => exact w.aheadFetched_plain h d ahead v
  | issuingAhead h t d ahead => exact w.letGo_plain h t d ahead
  | gathering d numbers held page => exact w.gathered_plain d numbers held page v
  | collecting h held chunks failed page => exact w.collected_plain h held chunks failed page
  | flushAwaiting scope rounds writes i rest =>
    exact w.flushReady_plain scope rounds writes i rest
  | discardAwaiting d i rest => exact w.discardReady_plain d i rest
  | keepFound name =>
    cases v with
    | none => exact World.done_plain rfl
    | some h => exact World.done_plain rfl
  | keepFetched name =>
    cases v with
    | error f => exact World.done_plain rfl
    | ok h => exact World.done_plain rfl
  | guardHold name => exact w.guardHeld_plain name v
  | guardFetched name =>
    cases v with
    | error f => exact World.done_plain rfl
    | ok h => exact World.done_plain rfl
  | filling byte => exact w.fillHeld_plain byte v
  | touching | mediumAnnouncing _ => exact World.call_plain rfl rfl
  | playing rest => cases hf
  | locking op i d => cases hf
  | unwinding _ | mediumDiscarding | keepHold _ | answering _ | answerFlag | answerPage =>
    exact World.done_plain rfl
  | sleeping _ _ | awaitingUnlock _ | awaitingLock _ | starving _ | fetchIssuing _
  | issuingFirst _ _ _ | gatherIssuing _ _ _ _ | collected _ _ _ _ | awaitingVacancy _ _ _ _
  | announcing _ _ _ | flushWriting _ _ _ _ => exact World.goto_plain rfl rfl

/-! ## Steps that leave the scripts alone -/

namespace World

variable {s : Shape} {w w' : World g}

theorem scripts_unlock (w : World g) (i : g.Buffer) : (w.unlock i).scripts = w.scripts := by
  unfold unlock
  split <;> rfl

theorem scripts_conclude (w : World g) (m : Nat) (slot : g.Slot) (q : Request g)
    (success : Bool) : (w.conclude m slot q success).1.scripts = w.scripts := by
  cases success <;> exact scripts_unlock _ _

theorem scripts_carryOut (w : World g) (m : Nat) (d : Driver) (q : Request g) :
    (w.carryOut m d q).1.scripts = w.scripts := by
  unfold carryOut
  dsimp only
  split
  · split <;> rfl
  · rfl

theorem scripts_finish {m : Nat} {success : Bool} {r : World g × Bool}
    (h : w.finish m success = .ok r) : r.1.scripts = w.scripts := by
  obtain ⟨slot, q, -, -, rfl⟩ := finish_eq_ok h
  exact scripts_conclude w m slot q success

theorem file_unscripted (w : World g) (op : Operation) (i : g.Buffer) (b : Block) (slot : g.Slot) :
    (w.file op i b slot).Unscripted w := by
  unfold file
  dsimp only
  split
  · exact Outcome.ensures_goto ⟨rfl, rfl⟩
  · exact Outcome.ensures_done ⟨rfl, rfl⟩

theorem enqueue_unscripted (w : World g) (op : Operation) (i : g.Buffer) (d : DeviceNumber)
    (number : BlockNumber) : (w.enqueue op i d number).Unscripted w := by
  unfold enqueue
  split
  · exact file_unscripted w op i _ _
  · split
    · exact Outcome.ensures_done ⟨scripts_unlock _ i, rfl⟩
    · exact Outcome.ensures_call ⟨rfl, rfl⟩

theorem locked_unscripted (w : World g) (op : Operation) (i : g.Buffer) (d : DeviceNumber) :
    (w.locked op i d).Unscripted w := by
  unfold locked
  split
  · exact Outcome.ensures_done ⟨scripts_unlock w i, rfl⟩
  · exact enqueue_unscripted w op i d _

theorem request_unscripted (w : World g) (op : Operation) (i : g.Buffer) :
    (w.request op i).Unscripted w := by
  unfold request
  dsimp only
  split
  · exact Outcome.ensures_fault
  split
  · split
    · exact Outcome.ensures_done ⟨rfl, rfl⟩
    · exact locked_unscripted (w.mapCache (·.lock i)) op i _
  · exact Outcome.ensures_call ⟨rfl, rfl⟩

theorem serve_unscripted (w : World g) (m : Nat) : (w.serve m).Unscripted w := by
  unfold serve
  split
  · exact Outcome.ensures_done ⟨rfl, rfl⟩
  split
  · exact Outcome.ensures_done ⟨rfl, rfl⟩
  · refine Outcome.ensures_orFault fun ended hended => ?_
    have hscripts := (scripts_finish hended).trans (scripts_carryOut w m _ _)
    split
    · exact Outcome.ensures_goto ⟨hscripts, rfl⟩
    · exact Outcome.ensures_done ⟨hscripts, rfl⟩

theorem drain_unscripted (w : World g) (m : Nat) (pattern upcoming : List Bool)
    (ended : List (Transfer × Bool × Bool)) :
    (w.drain m pattern upcoming ended).Unscripted w := by
  unfold drain
  split
  · exact Outcome.ensures_done ⟨rfl, rfl⟩
  · exact Outcome.ensures_orFault fun r hr => Outcome.ensures_goto ⟨scripts_finish hr, rfl⟩

end World
end BufferCache
