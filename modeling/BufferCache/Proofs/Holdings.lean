import BufferCache.Proofs.Stakes

/-!
# What calls hold

A call that was given a reference keeps it until it gives it on or gives it back.
The stakes of a machine are read off its calls: off the value that is being handed
over, or the call that is to begin, and off every suspended call beneath.

A reference that is being given back belongs to a client if an answer awaits the end
of the release, and to the call beneath otherwise.  So the stakes of a release depend
on what is directly beneath it.

Most steps pass stakes on without taking or giving back a reference; they are
*balanced*.  This module goes through them.  It also shows that the handles which
they use are good, so that they raise no fault that a handle could give rise to.
-/

namespace BufferCache

variable {g : Geometry}

/-! ## Stakes of values, calls and stacks -/

/-- The reference in a value. -/
def Shape.hold? : (s : Shape) → s.Value g → Option (Hold g)
  | .hold, h => some h
  | .found, h => h
  | .fetched, .ok h => some h
  | _, _ => none

/-- The stakes of those who are given a reference, if it is one. -/
def stakeOf : Option (Hold g) → Multiset (Stake g)
  | some h => {.hold h.handle}
  | none => 0

/-- The stakes in the references to the blocks of a page. -/
def stakesOf : Held g → Multiset (Stake g)
  | [] => 0
  | h :: held => stakeOf h + stakesOf held

/-- The stake in a reference that is being given back, by a client or by a call. -/
def returning (client : Bool) (h : Handle) : Stake g :=
  if client then .departing h else .hold h

/-- The stakes of a call that is to begin; `client` if an answer awaits its end. -/
def Call.stakes {s : Shape} (client : Bool) : Call g s → Multiset (Stake g)
  | .release h => {returning client h}
  | .readAhead h _ _ => {.hold h.handle}
  | .settle h => {.hold h.handle}
  | .gather _ _ held _ => stakesOf held
  | .collect held _ _ _ => stakesOf held
  | _ => 0

/-- The stakes of a suspended call; `client` if an answer awaits its end. -/
def Frame.stakes {a s : Shape} (client : Bool) : Frame g a s → Multiset (Stake g)
  | .pinning b i => {.pin b i}
  | .releasing h i => {returning client ⟨i.val, h.generation⟩}
  | .fetchIssuing h => {.hold h.handle}
  | .settling h => {.hold h.handle}
  | .issuingFirst h _ _ => {.hold h.handle}
  | .fetchingAhead h _ _ => {.hold h.handle}
  | .issuingAhead h t _ _ => {.hold t.handle} + {.hold h.handle}
  | .gathering _ _ held _ => stakesOf held
  | .gatherIssuing _ _ held _ => stakesOf held
  | .collecting h held _ _ _ => {.hold h.handle} + stakesOf held
  | .collected held _ _ _ => stakesOf held
  | _ => 0

/-- Whether a suspended call is a command whose answer is settled. -/
def Frame.answers {a s : Shape} : Frame g a s → Bool
  | .answering _ => true
  | _ => false

/-- Whether the topmost suspended call is a command whose answer is settled. -/
def Stack.answers : {s : Shape} → Stack g s → Bool
  | _, .bottom => false
  | _, .push f _ => f.answers

/-- The stakes of all suspended calls. -/
def Stack.stakes : {s : Shape} → Stack g s → Multiset (Stake g)
  | _, .bottom => 0
  | _, .push f rest => f.stakes rest.answers + rest.stakes

/-- The stakes of what comes next. -/
def Next.stakes {s : Shape} (client : Bool) : Next g s → Multiset (Stake g)
  | .done v => stakeOf (s.hold? v)
  | .goto c => c.stakes client
  | .call c f => c.stakes f.answers + f.stakes client

/-- The stakes of all calls of a machine. -/
def Machine.stakes : Machine g → Multiset (Stake g)
  | ⟨_, _, .run c, stack⟩ => c.stakes stack.answers + stack.stakes
  | ⟨_, s, .give v, stack⟩ => stakeOf (s.hold? v) + stack.stakes

theorem Machine.stakes_next {s : Shape} (n : Next g s) (w : World g) (stack : Stack g s) :
    (n.machine w stack).stakes = n.stakes stack.answers + stack.stakes := by
  cases n with
  | done v => rfl
  | goto c => rfl
  | call c f =>
    change c.stakes f.answers + (f.stakes stack.answers + stack.stakes) = _
    rw [← Multiset.add_assoc]
    rfl

theorem stakesOf_append (held held' : Held g) :
    stakesOf (held ++ held') = stakesOf held + stakesOf held' := by
  induction held with
  | nil => exact (Multiset.zero_add _).symm
  | cons h held ih =>
    rw [List.cons_append, stakesOf, stakesOf, ih, Multiset.add_assoc]

/-! ## Faults of handles -/

/-- The faults that the use or the release of a handle can give rise to, and that of a
count that would fall below zero. -/
def Fault.OfReference : Fault → Prop
  | .handleOutOfRange _ | .staleHandle _ _ _ | .handleReleased _ | .staleRelease _
  | .freeRelease | .countUnderflow => True
  | _ => False

/-- An operation may only be started on a handle that is good. -/
def Call.Ready {s : Shape} (c : Cache g) : Call g s → Prop
  | .issue _ h => ∃ i, c.resolve h = .ok i
  | _ => True

/-- Whatever comes next starts operations only on handles that are good. -/
def Next.Ready {s : Shape} (c : Cache g) : Next g s → Prop
  | .done _ => True
  | .goto d => d.Ready c
  | .call d _ => d.Ready c

/-- A step passes the stakes `held` on, and raises no fault of a reference. -/
def Outcome.Balanced {s : Shape} (o : Outcome g s) (client : Bool)
    (held : Multiset (Stake g)) : Prop :=
  o.Meets (fun w n => n.stakes client = held ∧ n.Ready w.cache) fun f => ¬ f.OfReference

namespace World

variable {s : Shape} {client : Bool} {held : Multiset (Stake g)} {w w' : World g} {h : Handle}

theorem balanced_done {v : s.Value g} (hv : stakeOf (s.hold? v) = held) :
    Outcome.Balanced (w.done v) client held :=
  Outcome.meets_done ⟨hv, trivial⟩

theorem balanced_goto {c : Call g s} (hc : c.stakes client = held) (hr : c.Ready w.cache) :
    Outcome.Balanced (w.goto c) client held :=
  Outcome.meets_goto ⟨hc, hr⟩

theorem balanced_call {a : Shape} {c : Call g a} {f : Frame g a s}
    (hc : c.stakes f.answers + f.stakes client = held) (hr : c.Ready w.cache) :
    Outcome.Balanced (w.call c f) client held :=
  Outcome.meets_call ⟨hc, hr⟩

/-- A call that holds nothing, beneath it one that holds nothing. -/
theorem balanced_call_zero {a : Shape} {c : Call g a} {f : Frame g a s}
    (hc : c.stakes f.answers = 0) (hf : f.stakes client = 0) (hr : c.Ready w.cache) :
    Outcome.Balanced (w.call c f) client 0 := by
  refine balanced_call ?_ hr
  rw [hc, hf, Multiset.add_zero]

/-- A call that holds nothing, beneath it one that holds it all. -/
theorem balanced_call_frame {a : Shape} {c : Call g a} {f : Frame g a s}
    (hc : c.stakes f.answers = 0) (hf : f.stakes client = held) (hr : c.Ready w.cache) :
    Outcome.Balanced (w.call c f) client held := by
  refine balanced_call ?_ hr
  rw [hc, hf, Multiset.zero_add]

theorem balanced_deadlock : Outcome.Balanced (.error .deadlock : Outcome g s) client held :=
  Outcome.meets_deadlock

theorem balanced_fault {f : Fault} (hf : ¬ f.OfReference) :
    Outcome.Balanced (fault f : Outcome g s) client held :=
  Outcome.meets_fault hf

theorem balanced_orFault {α : Type} {x : Except Fault α} {k : α → Outcome g s}
    (hk : ∀ a, x = .ok a → (k a).Balanced client held)
    (hx : ∀ f, x = .error f → ¬ f.OfReference) :
    Outcome.Balanced (orFault x k) client held :=
  Outcome.meets_orFault hk hx

/-- A good handle has a view. -/
theorem balanced_view {k : HeaderView → Outcome g s} (hr : ∃ i, w.cache.resolve h = .ok i)
    (hk : ∀ v, (k v).Balanced client held) :
    Outcome.Balanced (orFault (w.cache.view h) k) client held := by
  obtain ⟨i, hi⟩ := hr
  refine balanced_orFault (fun v _ => hk v) fun f hf => ?_
  rw [Cache.view, hi] at hf
  cases hf

/-! ## Waiting -/

theorem sleep_balanced (w : World g) (q : Queue g) (ticket : UInt64) :
    (w.sleep q ticket).Balanced client 0 := by
  unfold sleep
  split
  · split
    · exact balanced_deadlock
    · exact balanced_call_zero rfl rfl trivial
  · exact balanced_done rfl

theorem play_balanced (w : World g) (script : Script) : (w.play script).Balanced client 0 := by
  cases script with
  | nil => exact balanced_done rfl
  | cons c rest => exact balanced_call_zero rfl rfl trivial

theorem awaitUnlock_balanced (w : World g) (i : g.Buffer) :
    (w.awaitUnlock i).Balanced client 0 := by
  unfold awaitUnlock
  split
  · exact balanced_call_zero rfl rfl trivial
  · exact balanced_done rfl

theorem lock_balanced (w : World g) (i : g.Buffer) : (w.lock i).Balanced client 0 := by
  unfold lock
  split
  · exact balanced_call_zero rfl rfl trivial
  · exact balanced_done rfl

/-! ## Getting and giving back buffers -/

theorem acquire_balanced (w : World g) (b : Block) : (w.acquire b).Balanced client 0 := by
  unfold acquire
  split
  · exact balanced_fault (fun h => h)
  · exact balanced_goto rfl trivial

theorem lookedUp_balanced (w : World g) (b : Block) (found : Option (Hold g)) :
    (w.lookedUp b found).Balanced client (stakeOf found) := by
  cases found with
  | some h => exact balanced_done rfl
  | none =>
    refine balanced_orFault (fun victim _ => ?_) fun f hf => ?_
    · cases victim with
      | none => exact balanced_call_zero rfl rfl trivial
      | some i => exact balanced_call_zero rfl rfl trivial
    · rw [Buffers.victim_error hf]
      exact fun h => h

/-- A handle that is good is good for a release. -/
theorem resolveRelease_of_resolve {i : g.Buffer} (hi : w.cache.resolve h = .ok i) :
    w.cache.resolveRelease h = .ok i := by
  obtain ⟨hv, hg, -⟩ := Cache.resolve_eq_ok hi
  have hlt : h.index < g.buffers := hv ▸ i.isLt
  have heq : (⟨h.index, hlt⟩ : g.Buffer) = i := Fin.ext hv.symm
  unfold Cache.resolveRelease
  rw [dif_pos hlt]
  dsimp only
  rw [heq, if_pos hg]

theorem release_balanced (w : World g) (h : Handle) (hr : ∃ i, w.cache.resolve h = .ok i) :
    (w.release h).Balanced client {returning client h} := by
  obtain ⟨i, hi⟩ := hr
  have hv := (Cache.resolve_eq_ok hi).1
  unfold release
  rw [resolveRelease_of_resolve hi]
  refine balanced_call_frame rfl ?_ trivial
  rw [Frame.stakes, hv]

/-! ## Queueing and serving -/

theorem file_balanced (w : World g) (op : Operation) (i : g.Buffer) (b : Block)
    (slot : g.Slot) : (w.file op i b slot).Balanced client 0 := by
  unfold file
  dsimp only
  split
  · exact balanced_goto rfl trivial
  · exact balanced_done rfl

theorem enqueue_balanced (w : World g) (op : Operation) (i : g.Buffer) (d : DeviceNumber)
    (number : BlockNumber) : (w.enqueue op i d number).Balanced client 0 := by
  unfold enqueue
  split
  · exact file_balanced w op i _ _
  · split
    · exact balanced_done rfl
    · exact balanced_call_zero rfl rfl trivial

theorem locked_balanced (w : World g) (op : Operation) (i : g.Buffer) (d : DeviceNumber) :
    (w.locked op i d).Balanced client 0 := by
  unfold locked
  split
  · exact balanced_done rfl
  · exact enqueue_balanced w op i d _

theorem request_balanced (w : World g) (op : Operation) (i : g.Buffer) :
    (w.request op i).Balanced client 0 := by
  unfold request
  dsimp only
  split
  · exact balanced_fault (fun h => h)
  split
  · split
    · exact balanced_done rfl
    · exact locked_balanced _ op i _
  · exact balanced_call_zero rfl rfl trivial

theorem start_balanced (w : World g) (m : Nat) : (w.start m).Balanced client 0 := by
  unfold start
  split
  · exact balanced_done rfl
  · split
    · exact balanced_done rfl
    · exact balanced_goto rfl trivial
    · exact balanced_goto rfl trivial
    · exact balanced_goto rfl trivial

theorem finish_balanced {m : Nat} {success : Bool} {k : World g × Bool → Outcome g s}
    (hk : ∀ r, (k r).Balanced client held) :
    Outcome.Balanced (orFault (w.finish m success) k) client held := by
  refine balanced_orFault (fun r _ => hk r) fun f hf => ?_
  rw [finish_eq_error hf]
  exact fun h => h

theorem serve_balanced (w : World g) (m : Nat) : (w.serve m).Balanced client 0 := by
  unfold serve
  split
  · exact balanced_done rfl
  split
  · exact balanced_done rfl
  refine finish_balanced fun ended => ?_
  split
  · exact balanced_goto rfl trivial
  · exact balanced_done rfl

/-! ## Flushing and emptying -/

theorem flushRounds_balanced (w : World g) (scope : Scope) (rounds writes : Nat) :
    (w.flushRounds scope rounds writes).Balanced client 0 := by
  cases rounds with
  | zero => exact balanced_done rfl
  | succ rounds => exact balanced_call_zero rfl rfl trivial

theorem flushBuffers_balanced (w : World g) (scope : Scope) (rounds writes : Nat)
    (rest : List g.Buffer) : (w.flushBuffers scope rounds writes rest).Balanced client 0 := by
  unfold flushBuffers
  split
  · exact balanced_goto rfl trivial
  · split
    · exact balanced_call_zero rfl rfl trivial
    · exact balanced_goto rfl trivial

theorem flushReady_balanced (w : World g) (scope : Scope) (rounds writes : Nat)
    (i : g.Buffer) (rest : List g.Buffer) :
    (w.flushReady scope rounds writes i rest).Balanced client 0 := by
  unfold flushReady
  dsimp only
  split
  · exact balanced_call_zero rfl rfl trivial
  · exact balanced_goto rfl trivial

theorem discardBuffers_balanced (w : World g) (d : DeviceNumber) (rest : List g.Buffer) :
    (w.discardBuffers d rest).Balanced client 0 := by
  unfold discardBuffers
  split
  · exact balanced_done rfl
  · split
    · exact balanced_call_zero rfl rfl trivial
    · exact balanced_goto rfl trivial

theorem checkMedium_balanced (w : World g) (d : DeviceNumber) :
    (w.checkMedium d).Balanced client 0 := by
  unfold checkMedium
  split
  · exact balanced_call_zero rfl rfl trivial
  · exact balanced_done rfl

/-! ## Reading -/

theorem fetched_balanced {h : Hold g} (hr : ∃ i, w.cache.resolve h.handle = .ok i) :
    (w.fetched h).Balanced client {.hold h.handle} := by
  refine balanced_view hr fun v => ?_
  split
  · exact balanced_done rfl
  · exact balanced_call_frame rfl rfl hr

theorem settled_balanced {h : Hold g} (hr : ∃ i, w.cache.resolve h.handle = .ok i) :
    (w.settled h).Balanced client {.hold h.handle} := by
  refine balanced_view hr fun v => ?_
  split
  · exact balanced_done rfl
  · exact balanced_call (Multiset.add_zero _) trivial

theorem firstFetched_balanced {d : DeviceNumber} {ahead : List BlockNumber} {h : Hold g}
    (hr : ∃ i, w.cache.resolve h.handle = .ok i) :
    (w.firstFetched d ahead h).Balanced client {.hold h.handle} := by
  refine balanced_view hr fun v => ?_
  split
  · exact balanced_goto rfl trivial
  · exact balanced_call_frame rfl rfl hr

theorem readAhead_balanced (w : World g) (h : Hold g) (d : DeviceNumber)
    (ahead : List BlockNumber) :
    (w.readAhead h d ahead).Balanced client {.hold h.handle} := by
  cases ahead with
  | nil => exact balanced_goto rfl trivial
  | cons n ahead => exact balanced_call_frame rfl rfl trivial

theorem fetchPage_balanced (w : World g) (d : DeviceNumber) (numbers : List BlockNumber)
    (page : List UInt8) : (w.fetchPage d numbers page).Balanced client 0 := by
  unfold fetchPage
  split
  · exact balanced_done rfl
  split
  · exact balanced_done rfl
  · exact balanced_goto rfl trivial

theorem gather_balanced (w : World g) (d : DeviceNumber) (numbers : List BlockNumber)
    (held : Held g) (page : List UInt8) :
    (w.gather d numbers held page).Balanced client (stakesOf held) := by
  cases numbers with
  | nil => exact balanced_goto rfl trivial
  | cons n numbers =>
    unfold gather
    dsimp only
    split
    · refine balanced_goto ?_ trivial
      exact (stakesOf_append held [none]).trans (Multiset.add_zero _)
    · exact balanced_call_frame rfl rfl trivial

theorem gathered_balanced {d : DeviceNumber} {numbers : List BlockNumber} {held : Held g}
    {page : List UInt8} {h : Hold g} (hr : ∃ i, w.cache.resolve h.handle = .ok i) :
    (w.gathered d numbers held page h).Balanced client
      ({.hold h.handle} + stakesOf held) := by
  have happend : stakesOf (held ++ [some h]) = {.hold h.handle} + stakesOf held :=
    (stakesOf_append held [some h]).trans (Multiset.add_comm _ _)
  refine balanced_view hr fun v => ?_
  split
  · exact balanced_goto happend trivial
  · exact balanced_call_frame rfl happend hr

theorem collect_balanced (w : World g) (held : Held g) (chunks : List Page) (failed : Bool)
    (page : List UInt8) :
    (w.collect held chunks failed page).Balanced client (stakesOf held) := by
  match held with
  | [] => exact balanced_done rfl
  | none :: held => exact balanced_goto (Multiset.zero_add _).symm trivial
  | some h :: held => exact balanced_call_frame rfl rfl trivial

theorem collected_balanced {h : Hold g} {held : Held g} {chunks : List Page} {failed : Bool}
    {page : List UInt8} (hr : ∃ i, w.cache.resolve h.handle = .ok i) :
    (w.collected h held chunks failed page).Balanced client
      ({.hold h.handle} + stakesOf held) := by
  refine balanced_view hr fun v => ?_
  split
  · exact balanced_call rfl trivial
  · exact balanced_call rfl trivial

/-! ## Commands -/

/-- The handle through which a command uses a reference of a client. -/
def uses (w : World g) : Command → Option Handle
  | .release name | .read name | .fill name _ | .write name _ _ | .markDirty name
  | .markValid name | .query name _ | .issue _ name => w.handles.find? name
  | .guardInfo name | .guardRead name | .guardWrite name _ _ | .guardDrop name =>
      w.guards.find? name
  | _ => none

/-- The stakes of a command once it has begun: the reference that it gives back. -/
def departures (w : World g) : Command → Multiset (Stake g)
  | .release name => (w.handles.find? name).elim 0 fun h => {.departing h}
  | .guardDrop name => (w.guards.find? name).elim 0 fun h => {.departing h}
  | _ => 0

theorem withHandle_balanced {name : String} {k : Handle → Outcome g .reply}
    (hk : ∀ h, w.handles.find? name = some h → (k h).Balanced client 0) :
    (w.withHandle name k).Balanced client 0 := by
  unfold withHandle
  split
  · rename_i h hn
    exact hk h hn
  · exact balanced_done rfl

theorem withGuard_balanced {name : String} {k : Handle → Outcome g .reply}
    (hk : ∀ h, w.guards.find? name = some h → (k h).Balanced client 0) :
    (w.withGuard name k).Balanced client 0 := by
  unfold withGuard
  split
  · rename_i h hn
    exact hk h hn
  · exact balanced_done rfl

/-- What is read through a good handle is there. -/
theorem read_balanced {h : Handle} {k : Page → Outcome g s}
    (hr : ∃ i, w.cache.resolve h = .ok i) (hk : ∀ p, (k p).Balanced client held) :
    (orFault (w.cache.read h) k).Balanced client held := by
  obtain ⟨i, hi⟩ := hr
  refine balanced_orFault (fun p _ => hk p) fun f hf => ?_
  rw [Cache.read, hi] at hf
  cases hf

/-- A change that fails just where the handle does succeeds through a good one. -/
theorem change_balanced {h : Handle} {c : Except Fault (Cache g)}
    (hr : ∃ i, w.cache.resolve h = .ok i)
    (herror : ∀ f, c = .error f → w.cache.resolve h = .error f) :
    (w.change c).Balanced client 0 := by
  obtain ⟨i, hi⟩ := hr
  refine balanced_orFault (fun c' _ => balanced_done rfl) fun f hf => ?_
  cases hi.symm.trans (herror f hf)

theorem moveBytes_balanced (w : World g) (m : Nat) (fill : Option UInt8) :
    (w.moveBytes m fill).Balanced client 0 := by
  unfold moveBytes
  split
  · exact balanced_done rfl
  · exact balanced_done rfl

theorem drain_balanced (w : World g) (m : Nat) (pattern upcoming : List Bool)
    (ended : List (Transfer × Bool × Bool)) :
    (w.drain m pattern upcoming ended).Balanced client 0 := by
  unfold drain
  split
  · exact balanced_done rfl
  · dsimp only
    exact finish_balanced fun r => balanced_goto rfl trivial

theorem withDisk_balanced (w : World g) (m : Nat) (k : MemoryDisk → Answer) :
    (w.withDisk m k).Balanced client 0 := by
  unfold withDisk
  split
  · exact balanced_done rfl
  · exact balanced_done rfl

/-- A command whose handle is good passes on the reference that it gives back, if it
does. -/
theorem perform_balanced (w : World g) (c : Command)
    (hr : ∀ h, w.uses c = some h → ∃ i, w.cache.resolve h = .ok i) :
    (w.perform c).Balanced client (w.departures c) := by
  cases c with
  | register m d starts =>
    unfold perform
    dsimp only
    split
    · exact balanced_done rfl
    · exact balanced_done rfl
  | listen _ | attend _ => exact balanced_done rfl
  | acquire b name => exact balanced_call_zero rfl rfl trivial
  | lookUp b name => exact balanced_call_zero rfl rfl trivial
  | fetch b name => exact balanced_call_zero rfl rfl trivial
  | fetchAhead b ahead name => exact balanced_call_zero rfl rfl trivial
  | fetchPage d numbers length fill => exact balanced_call_zero rfl rfl trivial
  | release name =>
    show (w.withHandle name _).Balanced client ((w.handles.find? name).elim 0 _)
    unfold withHandle
    cases w.handles.find? name with
    | some h => exact World.balanced_call (Multiset.add_zero _) trivial
    | none => exact World.balanced_done rfl
  | put b fill => exact balanced_call_zero rfl rfl trivial
  | touch b => exact balanced_call_zero rfl rfl trivial
  | read name =>
    exact withHandle_balanced fun h hn => read_balanced (hr h hn) fun p => balanced_done rfl
  | fill name byte =>
    exact withHandle_balanced fun h hn => change_balanced (hr h hn) fun f => Cache.map_eq_error
  | write name offset bytes =>
    exact withHandle_balanced fun h hn => change_balanced (hr h hn) fun f => Cache.map_eq_error
  | markDirty name =>
    exact withHandle_balanced fun h hn => change_balanced (hr h hn) fun f => Cache.map_eq_error
  | markValid name =>
    exact withHandle_balanced fun h hn => change_balanced (hr h hn) fun f => Cache.map_eq_error
  | query name q =>
    exact withHandle_balanced fun h hn => balanced_view (hr h hn) fun v => balanced_done rfl
  | isCached b => exact balanced_done rfl
  | bufferCount => exact balanced_done rfl
  | forge name index generation => exact balanced_done rfl
  | issue op name =>
    exact withHandle_balanced fun h hn => balanced_call_zero rfl rfl (hr h hn)
  | current m => exact balanced_done rfl
  | queued m => exact balanced_done rfl
  | move m fill => exact moveBytes_balanced w m fill
  | finish m success => exact finish_balanced fun r => balanced_done rfl
  | drain m pattern => exact balanced_goto rfl trivial
  | start m =>
    unfold perform
    dsimp only
    split
    · exact balanced_call_zero rfl rfl trivial
    · exact balanced_done rfl
  | flush scope => exact balanced_call_zero rfl rfl trivial
  | discard d => exact balanced_call_zero rfl rfl trivial
  | checkMedium d => exact balanced_call_zero rfl rfl trivial
  | diskInfo m => exact withDisk_balanced w m _
  | diskRead m offset length fill => exact withDisk_balanced w m _
  | statistics => exact balanced_done rfl
  | describe => exact balanced_done rfl
  | inspect => exact balanced_done rfl
  | guardFetch b name => exact balanced_call_zero rfl rfl trivial
  | guardAcquire b name => exact balanced_call_zero rfl rfl trivial
  | guardInfo name =>
    exact withGuard_balanced fun h hn => balanced_view (hr h hn) fun v => balanced_done rfl
  | guardRead name =>
    exact withGuard_balanced fun h hn => read_balanced (hr h hn) fun p => balanced_done rfl
  | guardWrite name offset bytes =>
    exact withGuard_balanced fun h hn =>
      change_balanced (hr h hn) fun f => Cache.writeDirty_eq_error
  | guardDrop name =>
    show (w.withGuard name _).Balanced client ((w.guards.find? name).elim 0 _)
    unfold withGuard
    cases w.guards.find? name with
    | some h => exact World.balanced_call (Multiset.add_zero _) trivial
    | none => exact World.balanced_done rfl
  | guardInto name handle => exact withGuard_balanced fun h _ => balanced_done rfl
  | guardHandle name handle => exact withGuard_balanced fun h _ => balanced_done rfl

/-! ## What a command does with the reference that it gets -/

theorem guardHeld_balanced {name : String} {h : Hold g}
    (hr : ∃ i, w.cache.resolve h.handle = .ok i) : (w.guardHeld name h).Balanced client 0 := by
  obtain ⟨i, hi⟩ := hr
  refine balanced_orFault (fun c _ => balanced_done rfl) fun f hf => ?_
  cases hi.symm.trans (Cache.map_eq_error hf)

theorem fillHeld_balanced {byte : UInt8} {h : Hold g}
    (hr : ∃ i, w.cache.resolve h.handle = .ok i) :
    (w.fillHeld byte h).Balanced client {.departing h.handle} := by
  obtain ⟨i, hi⟩ := hr
  refine balanced_orFault (fun c _ => balanced_call (Multiset.add_zero _) trivial) fun f hf => ?_
  cases hi.symm.trans (Cache.overwrite_eq_error hf)

end World

/-! ## Routine steps -/

/-- A call whose first step passes on what it holds. -/
def Call.Routine {s : Shape} : Call g s → Prop
  | .lookUp _ | .perform _ => False
  | _ => True

/-- A suspended call whose step passes on what it holds and what it is given. -/
def Frame.Routine {a s : Shape} : Frame g a s → Prop
  | .pinning _ _ | .awaitingVictim _ _ | .releasing _ _ | .fetchingAhead _ _ _
  | .issuingAhead _ _ _ _ | .keepHold _ | .keepFound _ | .keepFetched _ | .guardHold _
  | .guardFetched _ | .filling _ | .touching => False
  | _ => True

theorem Call.begin_balanced {s : Shape} {c : Call g s} {w : World g} {client : Bool}
    (hc : c.Routine) (hready : c.Ready w.cache)
    (hgood : ∀ h, returning client h ∈ c.stakes client → ∃ i, w.cache.resolve h = .ok i) :
    (c.begin w).Balanced client (c.stakes client) := by
  cases c with
  | sleep q ticket => exact w.sleep_balanced q ticket
  | play script => exact w.play_balanced script
  | awaitUnlock i => exact w.awaitUnlock_balanced i
  | lock i => exact w.lock_balanced i
  | lookUp b => exact hc.elim
  | acquire b => exact w.acquire_balanced b
  | obtain b => exact World.balanced_call_zero rfl rfl trivial
  | release h => exact w.release_balanced h (hgood h (Multiset.mem_singleton_self _))
  | fetch b => exact World.balanced_call_zero rfl rfl trivial
  | fetchAhead b ahead => exact World.balanced_call_zero rfl rfl trivial
  | readAhead h d ahead => exact w.readAhead_balanced h d ahead
  | settle h => exact World.balanced_call_frame rfl rfl trivial
  | fetchPage d numbers page => exact w.fetchPage_balanced d numbers page
  | gather d numbers held page => exact w.gather_balanced d numbers held page
  | collect held chunks failed page => exact w.collect_balanced held chunks failed page
  | issue op h =>
    obtain ⟨i, hi⟩ := hready
    refine World.balanced_orFault (fun j _ => World.balanced_goto rfl trivial) fun f hf => ?_
    cases hi.symm.trans hf
  | request op i => exact w.request_balanced op i
  | enqueue op i d number => exact w.enqueue_balanced op i d number
  | start m => exact w.start_balanced m
  | serve m => exact w.serve_balanced m
  | flush scope => exact World.balanced_goto rfl trivial
  | flushRounds scope rounds writes => exact w.flushRounds_balanced scope rounds writes
  | flushBuffers scope rounds writes rest =>
    exact w.flushBuffers_balanced scope rounds writes rest
  | discard d => exact World.balanced_goto rfl trivial
  | discardBuffers d rest => exact w.discardBuffers_balanced d rest
  | checkMedium d => exact w.checkMedium_balanced d
  | perform c => exact hc.elim
  | drain m pattern upcoming ended => exact w.drain_balanced m pattern upcoming ended

theorem Frame.resume_balanced {a s : Shape} {f : Frame g a s} {v : a.Value g} {w : World g}
    {client : Bool} {held : Multiset (Stake g)} (hf : f.Routine)
    (hheld : stakeOf (a.hold? v) + f.stakes client = held)
    (hgood : ∀ h, .hold h ∈ held → ∃ i, w.cache.resolve h = .ok i) :
    (f.resume v w).Balanced client held := by
  cases f with
  | sleeping q ticket => exact World.balanced_goto hheld trivial
  | playing rest => exact World.balanced_goto hheld trivial
  | awaitingUnlock i => exact World.balanced_goto hheld trivial
  | awaitingLock i => exact World.balanced_goto hheld trivial
  | pinning b i => exact hf.elim
  | lookingUp b =>
    obtain rfl : stakeOf v = held := (Multiset.add_zero _).symm.trans hheld
    exact w.lookedUp_balanced b v
  | starving b => exact World.balanced_goto hheld trivial
  | awaitingVictim b i => exact hf.elim
  | flushingVictim b i => exact World.balanced_call hheld trivial
  | releasing h i => exact hf.elim
  | fetching =>
    obtain rfl : {.hold v.handle} = held := (Multiset.add_zero _).symm.trans hheld
    exact World.fetched_balanced (hgood _ (Multiset.mem_singleton_self _))
  | fetchIssuing h => exact World.balanced_goto ((Multiset.zero_add _).symm.trans hheld) trivial
  | settling h =>
    obtain rfl : {.hold h.handle} = held := (Multiset.zero_add _).symm.trans hheld
    exact World.settled_balanced (hgood _ (Multiset.mem_singleton_self _))
  | unwinding f => exact World.balanced_done ((Multiset.zero_add _).symm.trans hheld)
  | fetchingFirst d ahead =>
    obtain rfl : {.hold v.handle} = held := (Multiset.add_zero _).symm.trans hheld
    exact World.firstFetched_balanced (hgood _ (Multiset.mem_singleton_self _))
  | issuingFirst h d ahead =>
    exact World.balanced_goto ((Multiset.zero_add _).symm.trans hheld) trivial
  | fetchingAhead h d ahead => exact hf.elim
  | issuingAhead h t d ahead => exact hf.elim
  | gathering d numbers held' page =>
    obtain rfl : {.hold v.handle} + stakesOf held' = held := hheld
    exact World.gathered_balanced
      (hgood _ (Multiset.mem_add.mpr (.inl (Multiset.mem_singleton_self _))))
  | gatherIssuing d numbers held' page =>
    exact World.balanced_goto ((Multiset.zero_add _).symm.trans hheld) trivial
  | collecting h held' chunks failed page =>
    obtain rfl : {.hold h.handle} + stakesOf held' = held := (Multiset.zero_add _).symm.trans hheld
    exact World.collected_balanced
      (hgood _ (Multiset.mem_add.mpr (.inl (Multiset.mem_singleton_self _))))
  | collected held' chunks failed page =>
    exact World.balanced_goto ((Multiset.zero_add _).symm.trans hheld) trivial
  | locking op i d =>
    obtain rfl : 0 = held := (Multiset.zero_add _).symm.trans hheld
    exact w.locked_balanced op i d
  | awaitingVacancy op i d number =>
    exact World.balanced_goto ((Multiset.zero_add _).symm.trans hheld) trivial
  | announcing scope rounds writes =>
    exact World.balanced_goto ((Multiset.zero_add _).symm.trans hheld) trivial
  | flushAwaiting scope rounds writes i rest =>
    obtain rfl : 0 = held := (Multiset.zero_add _).symm.trans hheld
    exact w.flushReady_balanced scope rounds writes i rest
  | flushWriting scope rounds writes rest =>
    exact World.balanced_goto ((Multiset.zero_add _).symm.trans hheld) trivial
  | discardAwaiting d i rest =>
    exact World.balanced_goto ((Multiset.zero_add _).symm.trans hheld) trivial
  | mediumAnnouncing d =>
    obtain rfl : 0 = held := (Multiset.zero_add _).symm.trans hheld
    exact World.balanced_call_zero rfl rfl trivial
  | mediumDiscarding => exact World.balanced_done ((Multiset.zero_add _).symm.trans hheld)
  | keepHold name => exact hf.elim
  | keepFound name => exact hf.elim
  | keepFetched name => exact hf.elim
  | guardHold name => exact hf.elim
  | guardFetched name => exact hf.elim
  | filling byte => exact hf.elim
  | touching => exact hf.elim
  | answering a => exact World.balanced_done ((Multiset.zero_add _).symm.trans hheld)
  | answerFlag => exact World.balanced_done ((Multiset.zero_add _).symm.trans hheld)
  | answerPage => exact World.balanced_done ((Multiset.zero_add _).symm.trans hheld)

end BufferCache
