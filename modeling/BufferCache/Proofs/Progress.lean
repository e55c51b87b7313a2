import BufferCache.Proofs.Reads
import BufferCache.Proofs.Consistency

/-!
# Progress over disks in memory

A disk in memory serves a request as soon as it is queued.  So in a session over such disks
there is at most one request at any time, and that one is about to be served: a cache is
*attended*.  Whatever else goes on, no request and no lock is left where nothing is suspended.

Such a world is idle if those who listen to flushes have nothing to do and all that is dirty
can be written back.  From there every command that is provided for comes to its answer without
giving way: each of its transfers is served inside its own submission, also one that fails.
-/

namespace BufferCache

variable {g : Geometry}

/-! ## Every request is attended to -/

/-- The major whose requests a call is about to serve. -/
def Call.attends : {s : Shape} → Call g s → Option Nat
  | _, .start m => some m
  | _, .serve m => some m
  | _, _ => none

/-- The major whose requests are about to be served. -/
def Next.attends : {s : Shape} → Next g s → Option Nat
  | _, .done _ => none
  | _, .goto c => c.attends
  | _, .call c _ => c.attends

/-- The same for a machine. -/
def Machine.attends : Machine g → Option Nat
  | ⟨_, _, .run c, _⟩ => c.attends
  | _ => none

/-- No request waits, or a single one of the major that is about to serve it. -/
def Cache.Attended (c : Cache g) (major : Option Nat) : Prop :=
  c.requests.Empty ∨ ∃ m slot q, major = some m ∧ (c.driver? m).isSome = true ∧
    c.requests.Single m slot q

section Attended

variable {s : Shape} {w : World g} {i : g.Buffer} {op : Operation} {b : Block}

theorem Cache.Attended.empty {c : Cache g} (h : c.Attended none) : c.requests.Empty := by
  obtain hempty | ⟨_, _, _, hnone, -⟩ := h
  · exact hempty
  · cases hnone

/-- Steps that leave the requests alone. -/
theorem Outcome.Plain.attended {o : Outcome g s} (h : o.Plain w)
    (hempty : w.cache.requests.Empty) :
    o.Ensures fun w' n => w'.cache.Attended n.attends :=
  Outcome.Ensures.mono h fun w' _ hn => by
    have hrequests : w'.cache.requests = w.cache.requests := congrArg Prod.snd hn.1
    exact .inl (hrequests ▸ hempty)

/-- A request that is queued is about to be served. -/
theorem World.file_attended (hempty : w.cache.requests.Empty)
    (hd : (w.cache.driver? b.device.major).isSome = true) (slot : g.Slot) :
    (w.file op i b slot).Ensures fun w' n => w'.cache.Attended n.attends := by
  obtain ⟨driver, hdriver⟩ := Option.isSome_iff_exists.mp hd
  obtain ⟨hfirst, hsingle⟩ := hempty.insert (Cache.lt_majorCount_of_driver? hdriver) slot
    (.ofBlock op.direction b) i
  rw [file_eq, if_pos hfirst]
  exact Outcome.ensures_goto (.inr ⟨_, _, _, rfl, hd, hsingle⟩)

theorem World.enqueue_attended {d : DeviceNumber} {number : BlockNumber}
    (hempty : w.cache.requests.Empty) (hd : (w.cache.driver? d.major).isSome = true) :
    (w.enqueue op i d number).Ensures fun w' n => w'.cache.Attended n.attends := by
  unfold enqueue
  split
  · exact file_attended hempty hd _
  · split
    · refine Outcome.ensures_done (.inl ?_)
      rw [cache_unlock]
      exact hempty
    · exact Outcome.ensures_call (.inl hempty)

theorem World.locked_attended {d : DeviceNumber} (hempty : w.cache.requests.Empty)
    (hd : (w.cache.driver? d.major).isSome = true) :
    (w.locked op i d).Ensures fun w' n => w'.cache.Attended n.attends := by
  unfold locked
  split
  · refine Outcome.ensures_done (.inl ?_)
    rw [cache_unlock]
    exact hempty
  · exact enqueue_attended hempty hd

theorem World.request_attended (hempty : w.cache.requests.Empty) :
    (w.request op i).Ensures fun w' n => w'.cache.Attended n.attends := by
  unfold request
  dsimp only
  split
  · exact Outcome.ensures_fault
  rename_i d hd
  split
  · split
    · exact Outcome.ensures_done (.inl hempty)
    · refine locked_attended (w := w.mapCache (·.lock i)) hempty ?_
      change (w.cache.driver? _).isSome = true
      rw [hd]
      rfl
  · exact Outcome.ensures_call (.inl hempty)

theorem World.finish_eq_error_of_empty (hempty : w.cache.requests.Empty) (m : Nat)
    (success : Bool) : w.finish m success = .error (.nothingServed m) := by
  rw [finish, hempty.current]

theorem World.start_attended (hdisks : w.cache.Disks) {m : Nat}
    (h : w.cache.Attended (some m)) :
    (w.start m).Ensures fun w' n => w'.cache.Attended n.attends := by
  unfold start
  split
  · rename_i hnone
    obtain hempty | ⟨m', slot, q, heq, hd, -⟩ := h
    · exact Outcome.ensures_done (.inl hempty)
    · cases heq
      rw [hnone] at hd
      cases hd
  · rename_i d hd
    obtain ⟨-, -, disk, hkind⟩ := hdisks m d hd
    rw [hkind]
    exact Outcome.ensures_goto h

/-- The disk serves the request, and none follows. -/
theorem World.serve_attended (hdisks : w.cache.Disks) {m : Nat}
    (h : w.cache.Attended (some m)) :
    (w.serve m).Ensures fun w' n => w'.cache.Attended n.attends := by
  unfold serve
  split
  · rename_i hnone
    obtain hempty | ⟨m', slot, q, heq, hd, -⟩ := h
    · exact Outcome.ensures_done (.inl hempty)
    · cases heq
      rw [hnone] at hd
      cases hd
  rename_i d hd
  obtain ⟨-, hmajor, -⟩ := hdisks m d hd
  obtain hempty | ⟨m', slot, q, heq, -, hsingle⟩ := h
  · have hnone : w.cache.requests.currentRequest d.major = none := by
      rw [RequestTable.currentRequest, hempty.current]
      rfl
    rw [hnone]
    exact Outcome.ensures_done (.inl hempty)
  · cases heq
    split
    · rename_i hnone
      rw [hmajor, RequestTable.currentRequest, hsingle.current, if_pos rfl] at hnone
      cases (hnone.symm.trans (hsingle.request slot)).trans (if_pos rfl)
    · rename_i q' hq'
      refine Outcome.ensures_orFault fun ended hended => ?_
      obtain ⟨slot', q'', hslot', -, rfl⟩ := finish_eq_ok hended
      have hrequests : (w.carryOut m d q').1.cache.requests = w.cache.requests := by
        rw [cache_carryOut]
        rfl
      rw [hrequests, hmajor, hsingle.current, if_pos rfl] at hslot'
      cases hslot'
      obtain ⟨hlast, hempty⟩ := hsingle.retire (Cache.lt_majorCount_of_driver? hd)
      rw [follows_conclude, hrequests, hmajor, hlast, if_neg Bool.false_ne_true]
      refine Outcome.ensures_done (.inl ?_)
      rw [cache_conclude, Cache.requests_conclude, hrequests]
      exact hempty

theorem World.perform_attended (hempty : w.cache.requests.Empty) (c : Command) :
    (w.perform c).Ensures fun w' n => w'.cache.Attended n.attends := by
  by_cases hplain : c.plain = true
  · exact (w.perform_plain hplain).attended hempty
  cases c with
  | register m d starts =>
    unfold perform
    dsimp only
    split
    · rename_i w' hw'
      refine Outcome.ensures_done (.inl ?_)
      obtain ⟨c, hc, rfl⟩ := Cache.map_eq_ok hw'
      obtain ⟨-, -, -, rfl⟩ := Cache.register_eq_ok hc
      exact hempty
    · exact Outcome.ensures_done (.inl hempty)
  | listen _ | attend _ => exact Outcome.ensures_done (.inl hempty)
  | finish m success =>
    change (orFault (w.finish m success) _).Ensures _
    rw [finish_eq_error_of_empty hempty]
    exact Outcome.ensures_fault
  | _ => exact absurd rfl hplain

/-- Over disks in memory the first step of a call leaves no request unattended. -/
theorem Call.begin_attended {c : Call g s} (hdisks : w.cache.Disks)
    (hsound : c.Sound False w.cache) (h : w.cache.Attended c.attends) :
    (c.begin w).Ensures fun w' n => w'.cache.Attended n.attends := by
  cases c with
  | sleep q ticket =>
    change (w.sleep q ticket).Ensures _
    unfold World.sleep
    split
    · split
      · exact Outcome.ensures_error
      · rename_i htake
        refine Outcome.ensures_call (.inl ?_)
        rw [World.cache_takeWaiting htake]
        exact h.empty
    · exact Outcome.ensures_done (.inl h.empty)
  | play script =>
    cases script with
    | nil => exact Outcome.ensures_done (.inl h.empty)
    | cons c rest => exact Outcome.ensures_call (.inl h.empty)
  | request op i => exact World.request_attended h.empty
  | enqueue op i d number => exact World.enqueue_attended h.empty hsound.1
  | start m => exact World.start_attended hdisks h
  | serve m => exact World.serve_attended hdisks h
  | flushRounds scope rounds writes =>
    cases rounds with
    | zero => exact Outcome.ensures_done (.inl h.empty)
    | succ rounds =>
      refine Outcome.ensures_call (.inl ?_)
      rw [World.cache_takeFlush]
      exact h.empty
  | checkMedium d =>
    change (w.checkMedium d).Ensures _
    unfold World.checkMedium
    split
    · refine Outcome.ensures_call (.inl ?_)
      rw [World.cache_takeEmptying]
      exact h.empty
    · exact Outcome.ensures_done (.inl h.empty)
  | drain m pattern upcoming ended =>
    have hnone : w.cache.requests.currentRequest m = none := by
      rw [RequestTable.currentRequest, h.empty.current]
      rfl
    change (w.drain m pattern upcoming ended).Ensures _
    unfold World.drain
    rw [hnone]
    exact Outcome.ensures_done (.inl h.empty)
  | perform c => exact World.perform_attended h.empty c
  | _ => exact (Call.begin_plain rfl w).attended h.empty

/-- The step of a suspended call leaves no request unattended. -/
theorem Frame.resume_attended {a : Shape} {f : Frame g a s} (hsound : f.Sound False w.cache)
    (h : w.cache.requests.Empty) (v : a.Value g) :
    (f.resume v w).Ensures fun w' n => w'.cache.Attended n.attends := by
  cases f with
  | playing rest => exact Outcome.ensures_goto (.inl h)
  | locking op i d => exact World.locked_attended h hsound.1
  | _ => exact (Frame.resume_plain rfl v w).attended h

end Attended

namespace Machine

variable {m m' : Machine g}

/-- Every request of the machine is attended to. -/
def Attended (m : Machine g) : Prop :=
  m.world.cache.Attended m.attends

theorem attended_next {s : Shape} {n : Next g s} {w : World g} {stack : Stack g s}
    (h : w.cache.Attended n.attends) : (n.machine w stack).Attended := by
  cases n with
  | done v => exact h
  | goto c => exact h
  | call c f => exact h

theorem Steps.attended (h : m.Steps m') (hdisks : m.world.cache.Disks)
    (hconsistent : m.Consistent False) (hm : m.Attended) : m'.Attended := by
  cases h with
  | @begin s w w' c n stack hn =>
    exact attended_next (Call.begin_attended hdisks hconsistent.orderly.2.1 hm w' n hn)
  | @resume a s w w' f v n stack hn =>
    obtain ⟨-, -, hsound, -⟩ := hconsistent.orderly
    exact attended_next (Frame.resume_attended hsound (Cache.Attended.empty hm) v w' n hn)

end Machine

/-! ## Sessions over disks in memory -/

/-- A driver that carries out a transfer remains a driver of its kind. -/
theorem Driver.serve_kind (d : Driver) (t : Transfer) (p : Page) :
    (d.serve t p).driver.major = d.major ∧
      (d.serve t p).driver.disk?.isSome = d.disk?.isSome := by
  obtain ⟨major, kind⟩ := d
  unfold serve
  split
  · rename_i disk hkind
    obtain rfl : kind = .disk disk := hkind
    split <;> exact ⟨rfl, rfl⟩
  · split <;> exact ⟨rfl, rfl⟩
  · exact ⟨rfl, rfl⟩
  · exact ⟨rfl, rfl⟩

/-- Whatever a step does, a driver that is registered remains so, as a driver of its kind. -/
theorem Effect.exists_driver? {e : Effect g} {c : Cache g} (hfits : e.Fits c) {m : Nat} {d : Driver}
    (hd : c.driver? m = some d) : ∃ d', (e.apply c).driver? m = some d' ∧ d'.major = d.major ∧
      d'.disk?.isSome = d.disk?.isSome := by
  cases e with
  | queue direct d' i b slot => cases direct <;> exact ⟨d, hd, rfl, rfl⟩
  | finish m' slot q success =>
    rw [apply, Cache.driver?_congr (Cache.drivers_conclude c m' slot q success)]
    exact ⟨d, hd, rfl, rfl⟩
  | serve m' d' slot q =>
    have hset : ((Effect.serve m' d' slot q).apply c).driver? m =
        (c.setDriver m' (d'.serve q.transfer (c.page q.buffer)).driver).driver? m := by
      rw [apply, Cache.driver?_congr (Cache.drivers_conclude ..)]
      rfl
    rw [hset, Cache.driver?_setDriver]
    split
    · rename_i h
      obtain rfl : d' = d := Option.some.inj (hfits.1.symm.trans (h.1 ▸ hd))
      exact ⟨_, rfl, d'.serve_kind q.transfer (c.page q.buffer)⟩
    · exact ⟨d, hd, rfl, rfl⟩
  | assign i b s =>
    rw [apply, Cache.driver?_congr (c.drivers_assign i s)]
    exact ⟨d, hd, rfl, rfl⟩
  | edit i page valid dirty =>
    cases page <;> cases valid <;> cases dirty <;> exact ⟨d, hd, rfl, rfl⟩
  | register m' d' =>
    refine ⟨d, ?_, rfl, rfl⟩
    rw [apply, Cache.driver?_setDriver, if_neg ?_]
    · exact hd
    · rintro ⟨rfl, -⟩
      cases hfits.2.2.symm.trans hd
  | _ => exact ⟨d, hd, rfl, rfl⟩

/-- If all drivers are disks after a step, they were disks before. -/
theorem Effect.disks_of_apply {e : Effect g} {c : Cache g} (hfits : e.Fits c)
    (h : (e.apply c).Disks) : c.Disks := by
  intro m d hd
  obtain ⟨d', hd', hmajor, hkind⟩ := exists_driver? hfits hd
  obtain ⟨hm, hown, disk, hdisk⟩ := h m d' hd'
  refine ⟨hm, hmajor.symm.trans hown, ?_⟩
  cases hk : d.kind with
  | disk disk => exact ⟨disk, rfl⟩
  | _ =>
    simp only [Driver.disk?, hdisk, hk, Option.isSome_some, Option.isSome_none] at hkind
    cases hkind

/-- The conduct under which only disks in memory are registered, each under its own major. -/
def Conduct.onDisks (g : Geometry) : Conduct g Unit where
  permits _ m := m.world.cache.Disks
  record _ _ := ()

namespace Machine

variable {m : Machine g}

/-- A session on a new cache comes to this machine, and all drivers have been disks in memory,
registered under their own majors. -/
def OnDisks (m : Machine g) : Prop :=
  (Conduct.onDisks g).Run (fun w _ => w = World.initial g) () m ∧ m.world.cache.Disks

theorem OnDisks.reachable (h : m.OnDisks) : m.Reachable :=
  h.1.reachable fun _ _ hw => hw

/-- Drivers are not replaced, so all of them have been disks if they are now. -/
theorem Reachable.onDisks (h : m.Reachable) (hdisks : m.world.cache.Disks) : m.OnDisks := by
  let Inv (m : Machine g) : Prop := m.Reachable ∧ (m.world.cache.Disks → m.OnDisks)
  suffices hm : Inv m from hm.2 hdisks
  refine h.invariant (fun waiting c => ?_) (fun m m' hm hs => ?_) fun w a waiting c hm => ?_
  · exact ⟨reachable_start waiting c, fun hdisks => ⟨.start waiting c rfl, hdisks⟩⟩
  · refine ⟨hm.1.moves (.step hs), fun hdisks => ⟨?_, hdisks⟩⟩
    obtain ⟨e, hfits, happly, -⟩ := (hs.affects hm.1.aimed).1
    have hbefore : m.world.cache.Disks := Effect.disks_of_apply hfits (happly ▸ hdisks)
    exact .step (hm.2 hbefore).1 hbefore (step_of_steps hs)
  · exact ⟨hm.1.moves (.next waiting c), fun hdisks =>
      ⟨Conduct.Run.next waiting c (hm.2 hdisks).1 hdisks rfl, hdisks⟩⟩

theorem OnDisks.attended (h : m.OnDisks) : m.Attended := by
  let Inv (_ : Unit) (m : Machine g) : Prop := m.Consistent False ∧ m.Attended
  suffices hm : Inv () m from hm.2
  refine Conduct.Run.invariant (fun w r waiting c hw => ?_)
    (fun r m m' hm hdisks hs => ?_) (fun _ _ _ waiting c hm => ?_) h.1
  · rw [hw]
    exact ⟨consistent_start False waiting c, .inl (RequestTable.empty_initial g)⟩
  · exact ⟨hs.consistent hm.1 False.elim, hs.attended hdisks hm.1 hm.2⟩
  · exact ⟨hm.1.next waiting c, .inl (Cache.Attended.empty hm.2)⟩

/-- Nothing is suspended: a command is about to be carried out, or has its answer. -/
def Resting : Machine g → Prop
  | ⟨_, _, .run (.perform _), .bottom⟩ => True
  | ⟨_, _, .give _, .bottom⟩ => True
  | _ => False

theorem Resting.attends (h : m.Resting) : m.attends = none := by
  match m, h with
  | ⟨_, _, .run (.perform _), .bottom⟩, _ => rfl
  | ⟨_, _, .give _, .bottom⟩, _ => rfl

theorem Resting.claims (h : m.Resting) (i : g.Buffer) : m.claims i = 0 := by
  match m, h with
  | ⟨_, _, .run (.perform _), .bottom⟩, _ => rfl
  | ⟨_, _, .give _, .bottom⟩, _ => rfl

/-- Where nothing is suspended, no request waits. -/
theorem OnDisks.empty (h : m.OnDisks) (hm : m.Resting) : m.world.cache.requests.Empty := by
  have hattended : m.world.cache.Attended m.attends := h.attended
  rw [hm.attends] at hattended
  exact hattended.empty

/-- Where nothing is suspended, no buffer is locked. -/
theorem OnDisks.unlocked (h : m.OnDisks) (hm : m.Resting) (i : g.Buffer) :
    (m.world.cache.header i).locked = false := by
  have hcounted := h.reachable.consistent.tallies.counted i
  have hslots : m.world.cache.requests.slotsFor i = ∅ := by
    refine Finset.eq_empty_of_forall_notMem fun k hk => ?_
    obtain ⟨t, ht⟩ := RequestTable.mem_slotsFor.mp hk
    rw [RequestTable.order?, (h.empty hm).free k] at ht
    cases ht
  rw [hslots, hm.claims] at hcounted
  cases hlocked : (m.world.cache.header i).locked with
  | false => rfl
  | true =>
    rw [hlocked] at hcounted
    cases hcounted

/-- In such a session a world where nothing is suspended is idle, if those who listen to flushes
have nothing to do and what is dirty can be written back. -/
theorem OnDisks.idle (h : m.OnDisks) (hm : m.Resting) (hsilent : m.world.Silent)
    (hbacked : ∀ i, (m.world.cache.header i).dirty = true →
      (m.world.cache.driver? (m.world.cache.header i).device.major).isSome = true) :
    m.world.Idle where
  disks := h.2
  silent := hsilent
  requests := h.empty hm
  unlocked := h.unlocked hm
  backed := hbacked
  chained := h.reachable.chained
  ringed := h.reachable.ringed

end Machine

/-! ## Commands that are provided for -/

/-- What it takes in an idle world to carry a command out without waiting: a buffer for every
block that is asked for, a driver for every transfer that may be needed, and handles that are
good. -/
def World.Provides (w : World g) : Command → Prop
  | .acquire b _ => b.device ≠ 0 ∧ w.Holds b
  | .fetch b _ => w.Holds b ∧ (w.cache.driver? b.device.major).isSome = true
  | .fetchPage d numbers _ _ => (w.cache.driver? d.major).isSome = true ∧
      distinctCount numbers.toList ≤ w.cache.spare.card
  | .release name => ∃ h, w.handles.find? name = some h ∧ ∃ i, w.cache.resolve h = .ok i
  | .issue _ name => ∃ h, w.handles.find? name = some h ∧ ∃ i, w.cache.resolve h = .ok i ∧
      (w.cache.driver? (w.cache.header i).device.major).isSome = true
  | .flush _ | .discard _ => True
  | _ => False

/-- In an idle world commands that are provided for are carried out without waiting. -/
theorem World.Idle.completes_perform {w : World g} {c : Command} (hw : w.Idle)
    (hc : w.Provides c) : (Call.perform c).Completes True (fun _ _ => True) w := by
  refine Call.completes_of_begin rfl ?_
  change (w.perform c).Completes _ _ _
  cases c with
  | acquire b name =>
    exact Outcome.completes_call (Call.completes_acquire fun _ => ⟨hw, hc⟩) fun _ _ _ =>
      Outcome.completes_done trivial
  | fetch b name =>
    refine Outcome.completes_call (Call.completes_fetch fun _ => ⟨hw, hc⟩) fun _ v _ => ?_
    match v with
    | .ok h => exact Outcome.completes_done trivial
    | .error f => exact Outcome.completes_done trivial
  | fetchPage d numbers length fill =>
    exact Outcome.completes_call (Call.completes_fetchPage fun _ => ⟨hw, hc⟩) fun _ _ _ =>
      Outcome.completes_done trivial
  | release name =>
    obtain ⟨h, hname, hgood⟩ := hc
    have hperform : w.perform (.release name) = w.call (.release h) (.answering .done) := by
      simp only [perform, withHandle, hname]
    rw [hperform]
    exact Outcome.completes_call (Call.completes_release fun _ => ⟨hw, hgood⟩) fun _ _ _ =>
      Outcome.completes_done trivial
  | issue op name =>
    obtain ⟨h, hname, hgood⟩ := hc
    have hperform : w.perform (.issue op name) = w.call (.issue op h) (.answering .done) := by
      simp only [perform, withHandle, hname]
    rw [hperform]
    exact Outcome.completes_call (Call.completes_issue fun _ => ⟨hw, hgood⟩) fun _ _ _ =>
      Outcome.completes_done trivial
  | flush scope =>
    exact Outcome.completes_call (Call.completes_flush fun _ => hw) fun _ _ _ =>
      Outcome.completes_done trivial
  | discard d =>
    exact Outcome.completes_call (Call.completes_discard fun _ => hw) fun _ _ _ =>
      Outcome.completes_done trivial
  | _ => exact hc.elim

namespace Machine

variable {m m' : Machine g}

/-- The next step gives way to other tasks. -/
def GivesWay : Machine g → Prop
  | ⟨w, _, .run (.sleep q ticket), _⟩ => (w.cache.queue q).holds ticket = true
  | _ => False

/-- A call that gives way takes up a script or halts. -/
theorem GivesWay.not_moves (h : m.GivesWay) (henters : ¬ m.Enters) : ¬ m.Moves m' := by
  intro hm
  match m, h with
  | ⟨w, _, .run (.sleep q ticket), stack⟩, h =>
    have hstop : (Call.sleep q ticket).begin w = .error .deadlock := by
      rw [← Call.alone_eq_begin (Bool.not_eq_true _ ▸ henters)]
      exact Call.alone_sleep h
    obtain ⟨w', n, hbegin, -⟩ := moves_of_run hm
    cases hstop.symm.trans hbegin

/-- The command of the machine comes to its answer, and no call gives way or halts before. -/
def Prompt (m : Machine g) : Prop :=
  ∃ w a, Leads (fun x => ¬ x.Returned (.bottom : Stack g .reply) ∧ ¬ x.GivesWay) m
    ⟨w, .reply, .give a, .bottom⟩

/-- A command that completes comes to its answer. -/
theorem prompt_of_completes {w : World g} {c : Command}
    (h : (Call.perform c).Completes True (fun _ _ => True) w) : (start w c).Prompt := by
  obtain ⟨n, hspan, ⟨hstop, -⟩ | ⟨w', a, rfl, -⟩⟩ := h.machine .bottom
  · exact absurd trivial hstop
  · refine ⟨w', a, Relation.ReflTransGen.mono (fun x y hx => ?_) _ _ hspan⟩
    exact ⟨⟨hx.1.running, fun hway => hway.not_moves hx.1.undisturbed hx.2⟩, hx.2⟩

/-- The machine makes progress. -/
structure Progresses (m : Machine g) : Prop where
  /-- Where nothing is suspended, no request waits: all chains are empty. -/
  empty : m.Resting → m.world.cache.requests.Empty
  /-- There no buffer is locked either. -/
  unlocked : m.Resting → ∀ i, (m.world.cache.header i).locked = false
  /-- From there every command that is provided for is carried out without giving way, if those
  who listen to flushes have nothing to do and all that is dirty can be written back. -/
  prompt : m.Resting → m.world.Silent →
    (∀ i, (m.world.cache.header i).dirty = true →
      (m.world.cache.driver? (m.world.cache.header i).device.major).isSome = true) →
    ∀ waiting c, m.world.Provides c → (start (m.world.fresh waiting) c).Prompt

/-- Every session over disks in memory makes progress. -/
theorem OnDisks.progresses (h : m.OnDisks) : m.Progresses where
  empty := h.empty
  unlocked := h.unlocked
  prompt hm hsilent hbacked waiting c hc := by
    have hfresh : m.world.Transfers (m.world.fresh waiting) := World.transfers_of_eq rfl rfl
    have hidle := hfresh.idle (h.idle hm hsilent hbacked)
    refine prompt_of_completes (hidle.completes_perform ?_)
    cases c <;> exact hc

end Machine

/-! ## A session over a disk -/

/-- Whether all drivers are disks can be told from the table. -/
theorem Cache.disks_iff {c : Cache g} : c.Disks ↔ ∀ m < majorCount,
    (c.driver? m).all fun d => m != 0 && d.major == m && d.disk?.isSome := by
  constructor
  · intro h m _
    cases hd : c.driver? m with
    | none => rfl
    | some d =>
      obtain ⟨hm, hmajor, disk, hdisk⟩ := h m d hd
      simp [hm, hmajor, Driver.disk?, hdisk]
  · intro h m d hd
    have hall := h m (Cache.lt_majorCount_of_driver? hd)
    rw [hd] at hall
    simp only [Option.all_some, Bool.and_eq_true, bne_iff_ne, beq_iff_eq] at hall
    refine ⟨hall.1.1, hall.1.2, ?_⟩
    obtain ⟨disk, hdisk⟩ := Option.isSome_iff_exists.mp hall.2
    unfold Driver.disk? at hdisk
    split at hdisk
    · exact ⟨_, ‹_›⟩
    · cases hdisk

instance (c : Cache g) : Decidable c.Disks :=
  decidable_of_iff _ Cache.disks_iff.symm

instance (r : Unit) (m : Machine g) : Decidable ((Conduct.onDisks g).permits r m) :=
  inferInstanceAs (Decidable m.world.cache.Disks)

namespace Machine

/-- A page is read while one of the two buffers is dirty. -/
theorem progresses_of_page :
    ∃ m : Machine Geometry.small, m.OnDisks ∧ m.Resting ∧
      (m.world.cache.header Geometry.small.firstBuffer).dirty = true ∧
      (start (m.world.fresh []) (.fetchPage 257 ⟨#[1, 2, 0, 1], rfl⟩ 4096 0)).Prompt := by
  have hstart : (Conduct.onDisks Geometry.small).Run (fun w _ => w = World.initial _) ()
      (start ((World.initial Geometry.small).fresh [])
        (.register 1 ⟨1, .disk (.blank 1 4096)⟩ [])) := .start [] _ rfl
  have hrun := ((hstart.after 2).following [] (.put ⟨257, 0⟩ 7)).after 12
  have h : OnDisks _ := ⟨hrun, by decide⟩
  refine ⟨_, h, trivial, by decide, ?_⟩
  exact h.progresses.prompt trivial (fun _ hscript => nomatch hscript) (by decide) [] _
    ⟨by decide, by decide⟩

end Machine
end BufferCache
