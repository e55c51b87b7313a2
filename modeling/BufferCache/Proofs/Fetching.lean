import BufferCache.Proofs.Agenda
import BufferCache.Proofs.Arrivals

/-!
# What comes of reading a block

A read gets the buffer of its block, starts the transfer unless the bytes are there, and looks
at the buffer once it is unlocked.  A read with others ahead does all that it does for those in
between.  Meanwhile others may end transfers of the buffer, start further ones, write it, mark
its bytes, or empty it.

`Fetching` says where a read has come to.  From when its transfer was started, either the bytes
are there, or a request for the buffer is queued, or the buffer was spoiled; so once it is
unlocked the bytes are there, or the read knows whom to blame.  In all this the buffer keeps its
block, since the generation is checked in the end.

A read that finds the bytes there starts no transfer.  What it did before was to get a buffer,
and of the calls made for that, a closed family, none ever queues a read.
-/

namespace BufferCache

variable {g : Geometry}

/-! ## The steps of a read -/

/-- The block that a read is for. -/
def Call.fetches? : {s : Shape} → Call g s → Option Block
  | _, .fetch b => some b
  | _, .fetchAhead b _ => some b
  | _, _ => none

/-- A suspended read that is getting its buffer. -/
def Frame.gains : {a s : Shape} → Frame g a s → Bool
  | _, _, .fetching => true
  | _, _, .fetchingFirst _ _ => true
  | _, _, _ => false

/-- The reference of a read that has started the transfer, or found the bytes there, and has
still to look at its buffer. -/
def Call.awaited? : {s : Shape} → Call g s → Option (Hold g)
  | _, .readAhead h _ _ => some h
  | _, .settle h => some h
  | _, _ => none

/-- The reference of such a read that is suspended. -/
def Frame.awaited? : {a s : Shape} → Frame g a s → Option (Hold g)
  | _, _, .fetchIssuing h => some h
  | _, _, .issuingFirst h _ _ => some h
  | _, _, .fetchingAhead h _ _ => some h
  | _, _, .issuingAhead h _ _ _ => some h
  | _, _, .settling h => some h
  | _, _, _ => none

/-- What comes next is still to look at the buffer of reference `h`. -/
inductive Next.Awaits (h : Hold g) : Next g .fetched → Prop
  | goto {c : Call g .fetched} : c.awaited? = some h → Awaits h (.goto c)
  | call {a : Shape} {c : Call g a} {f : Frame g a .fetched} : f.awaited? = some h →
      Awaits h (.call c f)

section Steps

variable {w : World g} {b : Block} {h t : Hold g} {d : DeviceNumber} {ahead : List BlockNumber}

/-- A read first gets a buffer for its block. -/
theorem Call.begin_fetches {c : Call g .fetched} (hc : c.fetches? = some b) (w : World g) :
    (c.begin w).Ensures fun _ next =>
      ∃ f : Frame g .hold .fetched, f.gains = true ∧ next = .call (.acquire b) f := by
  cases c with
  | fetch b' =>
    cases hc
    exact Outcome.ensures_call ⟨_, rfl, rfl⟩
  | fetchAhead b' ahead =>
    cases hc
    exact Outcome.ensures_call ⟨_, rfl, rfl⟩
  | _ => cases hc

/-- A read is given no reference. -/
theorem Call.operates_of_fetches {c : Call g .fetched} (hc : c.fetches? = some b)
    (j : g.Buffer) : c.Operates ∧ c.takes j = 0 := by
  cases c <;> first | exact ⟨trivial, rfl⟩ | cases hc

/-- Then it starts the transfer, unless the bytes are there. -/
theorem Frame.resume_gains {f : Frame g .hold .fetched} (hf : f.gains = true) (h : Hold g)
    (w : World g) : (f.resume h w).Ensures fun w' next =>
      w' = w ∧ w.cache.resolve h.handle = .ok h.buffer ∧
        ((w.cache.header h.buffer).valid = true ∧
            (next = .done (.ok h) ∨ ∃ c, c.awaited? = some h ∧ next = .goto c) ∨
          ∃ f' : Frame g .unit .fetched, f'.awaited? = some h ∧
            next = .call (.issue .read h.handle) f') := by
  cases f with
  | fetching =>
    refine Outcome.ensures_orFault fun v hv => ?_
    obtain ⟨hresolve, rfl⟩ := Cache.view_eq_ok hv
    split
    · exact Outcome.ensures_done ⟨rfl, hresolve, .inl ⟨‹_›, .inl rfl⟩⟩
    · exact Outcome.ensures_call ⟨rfl, hresolve, .inr ⟨_, rfl, rfl⟩⟩
  | fetchingFirst d ahead =>
    refine Outcome.ensures_orFault fun v hv => ?_
    obtain ⟨hresolve, rfl⟩ := Cache.view_eq_ok hv
    split
    · exact Outcome.ensures_goto ⟨rfl, hresolve, .inl ⟨‹_›, .inr ⟨_, rfl, rfl⟩⟩⟩
    · exact Outcome.ensures_call ⟨rfl, hresolve, .inr ⟨_, rfl, rfl⟩⟩
  | _ => cases hf

/-- A read without others ahead that finds the bytes there is over. -/
theorem World.fetched_valid (hvalid : (w.cache.header h.buffer).valid = true) :
    (w.fetched h).Ensures fun w' next => w' = w ∧ next = .done (.ok h) := by
  refine Outcome.ensures_orFault fun v hv => ?_
  obtain ⟨-, rfl⟩ := Cache.view_eq_ok hv
  have hview : (w.cache.header h.buffer).view.valid = true := hvalid
  rw [if_pos hview]
  exact Outcome.ensures_done ⟨rfl, rfl⟩

theorem Call.begin_awaits {c : Call g .fetched} (hc : c.awaited? = some h) (w : World g) :
    (c.begin w).Ensures fun _ next => next.Awaits h := by
  cases c with
  | readAhead h' d ahead =>
    cases hc
    cases ahead with
    | nil => exact Outcome.ensures_goto (.goto rfl)
    | cons n ahead => exact Outcome.ensures_call (.call rfl)
  | settle h' =>
    cases hc
    exact Outcome.ensures_call (.call rfl)
  | _ => cases hc

theorem World.letGo_awaits (w : World g) (h t : Hold g) (d : DeviceNumber)
    (ahead : List BlockNumber) : (w.letGo h t d ahead).Ensures fun _ next => next.Awaits h :=
  Outcome.ensures_orFault fun _ _ => Outcome.ensures_goto (.goto rfl)

/-- The buffer is looked at when it is unlocked. -/
theorem World.settled_ensures (w : World g) (h : Hold g) : (w.settled h).Ensures fun w' next =>
    w' = w ∧ w.cache.resolve h.handle = .ok h.buffer ∧
      ((w.cache.header h.buffer).valid = true ∧ next = .done (.ok h) ∨
        (w.cache.header h.buffer).valid = false ∧
          next = .call (.release h.handle) (.unwinding .blockUnread)) := by
  refine Outcome.ensures_orFault fun v hv => ?_
  obtain ⟨hresolve, rfl⟩ := Cache.view_eq_ok hv
  split
  · exact Outcome.ensures_done ⟨rfl, hresolve, .inl ⟨‹_›, rfl⟩⟩
  · exact Outcome.ensures_call ⟨rfl, hresolve, .inr ⟨Bool.eq_false_of_not_eq_true ‹_›, rfl⟩⟩

/-- Until then it is still to be looked at. -/
theorem Frame.resume_awaits {a : Shape} {f : Frame g a .fetched} (hf : f.awaited? = some h)
    (v : a.Value g) (w : World g) : (∃ hs : a = .unit, f = hs ▸ .settling h) ∨
      (f.resume v w).Ensures fun _ next => next.Awaits h := by
  cases f with
  | settling h' =>
    cases hf
    exact .inl ⟨rfl, rfl⟩
  | fetchIssuing h' | issuingFirst h' d ahead =>
    cases hf
    exact .inr (Outcome.ensures_goto (.goto rfl))
  | fetchingAhead h' d ahead =>
    cases hf
    refine .inr (Outcome.ensures_orFault fun view _ => ?_)
    split
    · exact w.letGo_awaits h v d ahead
    · exact Outcome.ensures_call (.call rfl)
  | issuingAhead h' t d ahead =>
    cases hf
    exact .inr (w.letGo_awaits h t d ahead)
  | _ => cases hf

end Steps

/-! ## Getting a buffer queues no read -/

/-- The calls that are made to get a buffer: to look up and wait, and to write back a victim. -/
def Call.Getting {s : Shape} : Call g s → Prop
  | .sleep _ _ | .play _ | .awaitUnlock _ | .lock _ | .lookUp _ | .acquire _ | .obtain _
  | .start _ | .serve _ | .flush _ | .flushRounds _ _ _ | .flushBuffers _ _ _ _ => True
  | .request op _ | .enqueue op _ _ _ => op = .write
  | _ => False

/-- The suspended ones among them. -/
def Frame.Getting {a s : Shape} : Frame g a s → Prop
  | .sleeping _ _ | .awaitingUnlock _ | .awaitingLock _ | .pinning _ _ | .lookingUp _
  | .starving _ | .awaitingVictim _ _ | .flushingVictim _ _ | .announcing _ _ _
  | .flushAwaiting _ _ _ _ _ | .flushWriting _ _ _ _ => True
  | .locking op _ _ | .awaitingVacancy op _ _ _ => op = .write
  | _ => False

/-- The family of these calls. -/
def Family.getting (g : Geometry) : Family g where
  call := Call.Getting
  frame := Frame.Getting

/-- A step queues no read, and what comes next is made to get a buffer. -/
def Outcome.Writes {s : Shape} (o : Outcome g s) (w : World g) : Prop :=
  o.Ensures fun w' n =>
    (Family.getting g).Admits n ∧ ∀ i, ¬ w.cache.Queues w'.cache .read i

section Getting

variable {s : Shape} {w w' : World g}

theorem Cache.not_queues_of_eq {c c' : Cache g} (h : c'.requests = c.requests) (d : Direction)
    (i : g.Buffer) : ¬ c.Queues c' d i :=
  Cache.not_queues (fun slot => .inl (congrArg (·.order? slot) h)) d i

theorem Cache.QueuesOnly.not_queues {c c' : Cache g} {o : Transfer × g.Buffer}
    (h : c.QueuesOnly c' o) {d : Direction} (ho : o.1.direction ≠ d) (i : g.Buffer) :
    ¬ c.Queues c' d i := by
  rw [Cache.queues_iff]
  rintro ⟨slot, t, hnone, hsome, rfl⟩
  exact ho (h slot _ hnone hsome ▸ rfl)

/-- A plain step queues nothing. -/
theorem Outcome.Plain.writes {o : Outcome g s} (h : o.Plain w)
    (hn : o.Ensures fun _ n => (Family.getting g).Admits n) : o.Writes w := by
  intro w' n ho
  have hrequests : w'.cache.requests = w.cache.requests := congrArg Prod.snd (h w' n ho).1
  exact ⟨hn w' n ho, Cache.not_queues_of_eq hrequests .read⟩

/-- Nor does a write queue a read. -/
theorem Next.Operates.admits {i : g.Buffer} {d : DeviceNumber} {next : Next g .unit}
    (h : next.Operates .write i d) : (Family.getting g).Admits next := by
  cases h with
  | done => trivial
  | lock => exact .inl ⟨trivial, rfl⟩
  | wait q ticket number => exact .inl ⟨trivial, rfl⟩
  | @drive c hc =>
    change c.Getting
    cases c <;> trivial
  | play command rest => exact .inr rfl

theorem Outcome.writes_of_operates {o : Outcome g .unit} {i : g.Buffer} {d : DeviceNumber}
    {p : Transfer × g.Buffer} (hp : p.1.direction = .write)
    (h : o.Ensures fun w' n => w.cache.QueuesOnly w'.cache p ∧ n.Operates .write i d) :
    o.Writes w :=
  Outcome.Ensures.mono h fun _ _ hn =>
    ⟨hn.2.admits, hn.1.not_queues (hp ▸ Direction.noConfusion)⟩

theorem Call.Drives.writes {c : Call g .unit} (hc : c.Drives) (w : World g) :
    (c.begin w).Writes w :=
  Outcome.writes_of_operates rfl
    (c.begin_drives hc .write g.firstBuffer 0 (.ofBlock .write ⟨0, 0⟩, g.firstBuffer) w)

/-- When such a call begins. -/
theorem Call.Getting.begin {c : Call g s} (hc : c.Getting) (w : World g) :
    (c.begin w).Writes w := by
  have hplain (hc : c.plain = true) (h : (c.begin w).Ensures fun _ n =>
      (Family.getting g).Admits n) : (c.begin w).Writes w := (Call.begin_plain hc w).writes h
  cases c with
  | sleep q ticket =>
    change (w.sleep q ticket).Writes w
    unfold World.sleep
    split
    · split
      · exact Outcome.ensures_error
      · rename_i htake
        refine Outcome.ensures_call ⟨.inl ⟨trivial, trivial⟩, Cache.not_queues_of_eq ?_ .read⟩
        rw [World.cache_takeWaiting htake]
        rfl
    · exact Outcome.ensures_done ⟨trivial, Cache.not_queues_of_eq rfl .read⟩
  | play script => exact Call.Drives.writes (by trivial) w
  | start m => exact Call.Drives.writes (by trivial) w
  | serve m => exact Call.Drives.writes (by trivial) w
  | awaitUnlock i =>
    refine hplain rfl ?_
    change (w.awaitUnlock i).Ensures _
    unfold World.awaitUnlock
    split
    · exact Outcome.ensures_call (.inl ⟨trivial, trivial⟩)
    · exact Outcome.ensures_done trivial
  | lock i =>
    refine hplain rfl ?_
    change (w.lock i).Ensures _
    unfold World.lock
    split
    · exact Outcome.ensures_call (.inl ⟨trivial, trivial⟩)
    · exact Outcome.ensures_done trivial
  | lookUp b =>
    refine hplain rfl ?_
    change (w.lookUp b).Ensures _
    unfold World.lookUp
    split
    · exact Outcome.ensures_done trivial
    · exact Outcome.ensures_call (.inl ⟨trivial, trivial⟩)
  | acquire b =>
    refine hplain rfl ?_
    change (w.acquire b).Ensures _
    unfold World.acquire
    split
    · exact Outcome.ensures_fault
    · exact Outcome.ensures_goto trivial
  | obtain b => exact hplain rfl (Outcome.ensures_call (.inl ⟨trivial, trivial⟩))
  | request op i =>
    obtain rfl : op = .write := hc
    exact Outcome.writes_of_operates rfl (w.request_operates .write i)
  | enqueue op i d number =>
    obtain rfl : op = .write := hc
    exact Outcome.writes_of_operates rfl (w.enqueue_operates .write i d number)
  | flush scope => exact hplain rfl (Outcome.ensures_goto trivial)
  | flushRounds scope rounds writes =>
    cases rounds with
    | zero => exact Outcome.ensures_done ⟨trivial, Cache.not_queues_of_eq rfl .read⟩
    | succ rounds =>
      refine Outcome.ensures_call ⟨.inl ⟨trivial, trivial⟩, Cache.not_queues_of_eq ?_ .read⟩
      rw [World.cache_takeFlush]
  | flushBuffers scope rounds writes rest =>
    refine hplain rfl ?_
    cases rest with
    | nil => exact Outcome.ensures_goto trivial
    | cons i rest =>
      change (w.flushBuffers scope rounds writes (i :: rest)).Ensures fun _ n =>
        (Family.getting g).Admits n
      rw [World.flushBuffers]
      split
      · exact Outcome.ensures_call (.inl ⟨trivial, trivial⟩)
      · exact Outcome.ensures_goto trivial
  | _ => exact hc.elim

/-- And when it is given a value. -/
theorem Frame.Getting.resume {a : Shape} {f : Frame g a s} (hf : f.Getting) (v : a.Value g)
    (w : World g) : (f.resume v w).Writes w := by
  have hplain (hf : f.plain = true) (h : (f.resume v w).Ensures fun _ n =>
      (Family.getting g).Admits n) : (f.resume v w).Writes w :=
    (Frame.resume_plain hf v w).writes h
  cases f with
  | pinning b i =>
    refine hplain rfl ?_
    change (w.pinned b i).Ensures _
    unfold World.pinned
    split
    · exact Outcome.ensures_done trivial
    split
    · exact Outcome.ensures_fault
    · exact Outcome.ensures_goto trivial
  | lookingUp b =>
    refine hplain rfl ?_
    cases v with
    | some h => exact Outcome.ensures_done trivial
    | none =>
      refine Outcome.ensures_orFault fun victim _ => ?_
      cases victim <;> exact Outcome.ensures_call (.inl ⟨trivial, trivial⟩)
  | awaitingVictim b i =>
    refine hplain rfl fun w' n hn => ?_
    rcases Machine.victimReady_eq_ok hn with rfl | ⟨d, rfl⟩ | ⟨rfl, -⟩
    · exact trivial
    · exact .inl ⟨trivial, trivial⟩
    · exact trivial
  | flushingVictim b i => exact hplain rfl (Outcome.ensures_call (.inl ⟨trivial, trivial⟩))
  | locking op i d =>
    obtain rfl : op = .write := hf
    exact Outcome.writes_of_operates rfl (w.locked_operates .write i d)
  | awaitingVacancy op i d number => exact hplain rfl (Outcome.ensures_goto hf)
  | flushAwaiting scope rounds writes i rest =>
    refine hplain rfl ?_
    change (w.flushReady scope rounds writes i rest).Ensures fun _ n =>
      (Family.getting g).Admits n
    unfold World.flushReady
    dsimp only
    split
    · exact Outcome.ensures_call (.inl ⟨rfl, trivial⟩)
    · exact Outcome.ensures_goto trivial
  | sleeping | awaitingUnlock | awaitingLock | starving | announcing | flushWriting =>
    exact hplain rfl (Outcome.ensures_goto trivial)
  | _ => exact hf.elim

theorem Family.getting_closed : (Family.getting g).Closed where
  begin hc hn := (Call.Getting.begin hc _ _ _ hn).1
  resume hf hn := (Frame.Getting.resume hf _ _ _ _ hn).1
  play _ := trivial

end Getting

namespace Machine

variable {s : Shape} {base : Stack g s} {m n x y : Machine g} {b : Block}

/-- A move of a call that is made to get a buffer queues no read. -/
theorem not_queues_of_moves (hmoves : (Family.getting g).Moves base x)
    (hover : ¬ x.Returned base) (hxy : x.Moves y) (i : g.Buffer) :
    ¬ x.world.cache.Queues y.world.cache .read i := by
  cases hmoves.makes hover hxy with
  | begin hc _ hn =>
    rw [world_next]
    exact (Call.Getting.begin hc _ _ _ hn).2 i
  | resume hf _ hn =>
    rw [world_next]
    exact (Frame.Getting.resume hf _ _ _ _ hn).2 i

end Machine

namespace Machine

variable {b : Block} {h : Hold g} {base : Stack g .fetched} {m n n' a : Machine g}
  {k : g.Buffer → Nat}

/-! ## Where a read has come to -/

/-- The read of block `b` above `base` gets its buffer at `a`, with reference `h`. -/
structure Gains (b : Block) (base : Stack g .fetched) (h : Hold g) (m a : Machine g) : Prop where
  /-- That is while it goes on. -/
  leads : Leads (¬ Returned base ·) m a
  /-- The getting of the buffer is over. -/
  returned : ∃ (w : World g) (f : Frame g .hold .fetched),
    f.gains = true ∧ a = ⟨w, .hold, .give h, .push f base⟩
  /-- The buffer holds the block, is unlocked, and is in the generation of the reference. -/
  current : Current b h a

/-- What comes of a read of block `b`: a reference to its buffer, which is unlocked and valid, or
a failure, and then the buffer that it had got was spoiled. -/
def Yields (b : Block) (base : Stack g .fetched) (m n : Machine g) :
    Except Failure (Hold g) → Prop
  | .ok h => Current b h n ∧ n.valid h.buffer = true
  | .error f => f = .blockUnread ∧
      ∃ h a, Gains b base h m a ∧ Spoiled (¬ Returned base ·) h.buffer a n

/-- Where a read of block `b` above `base` has come to, buffers having been given other blocks
`k` times. -/
inductive Fetching (b : Block) (base : Stack g .fetched) (m : Machine g) (k : g.Buffer → Nat) :
    Machine g → Prop
  | begins {w : World g} {c : Call g .fetched} : c.fetches? = some b →
      Fetching b base m k ⟨w, .fetched, .run c, base⟩
  | getting {n : Machine g} {w : World g} {f : Frame g .hold .fetched} : f.gains = true →
      Leads (¬ Returned base ·) m ⟨w, .hold, .run (.acquire b), .push f base⟩ →
      Leads (¬ Returned (.push f base) ·) ⟨w, .hold, .run (.acquire b), .push f base⟩ n →
      Fetching b base m k n
  | starting {n a : Machine g} {h : Hold g} {f : Frame g .unit .fetched} : f.awaited? = some h →
      Gains b base h m a → ReusesUpTo (¬ Returned base ·) h.buffer (k h.buffer) a n →
      Starting h.buffer (.push f base) n → Fetching b base m k n
  | waiting {n a : Machine g} {h : Hold g} {s : Shape} {f : Frame g s .fetched} :
      f.awaited? = some h → Gains b base h m a →
      Awaits (¬ Returned base ·) h.buffer (k h.buffer) a n →
      (Stack.push f base).Beneath n.stack → Fetching b base m k n
  | proceeds {a : Machine g} {w : World g} {c : Call g .fetched} {h : Hold g} :
      c.awaited? = some h → Gains b base h m a →
      Awaits (¬ Returned base ·) h.buffer (k h.buffer) a ⟨w, .fetched, .run c, base⟩ →
      Fetching b base m k ⟨w, .fetched, .run c, base⟩
  | unwinding {n a : Machine g} {h : Hold g} : Gains b base h m a →
      Spoiled (¬ Returned base ·) h.buffer a n →
      (Stack.push (.unwinding .blockUnread) base).Beneath n.stack → Fetching b base m k n
  | returned {w : World g} {v : Except Failure (Hold g)} :
      Yields b base m ⟨w, .fetched, .give v, base⟩ v →
      Fetching b base m k ⟨w, .fetched, .give v, base⟩

theorem fetching_next {w : World g} {next : Next g .fetched} (hnext : next.Awaits h)
    (hgains : Gains b base h m a)
    (hawaits : Awaits (¬ Returned base ·) h.buffer (k h.buffer) a (next.machine w base)) :
    Fetching b base m k (next.machine w base) := by
  cases hnext with
  | goto hc => exact .proceeds hc hgains hawaits
  | call hf => exact .waiting hf hgains hawaits .here

/-- The read has got its buffer. -/
theorem Fetching.gained {w w' : World g} {f : Frame g .hold .fetched} {next : Next g .fetched}
    (hf : f.gains = true) (hgains : Gains b base h m ⟨w, .hold, .give h, .push f base⟩)
    (hmove : Moves ⟨w, .hold, .give h, .push f base⟩ (next.machine w' base))
    (hnext : f.resume h w = .ok (w', next)) :
    Fetching b base m
      (turned k ⟨w, .hold, .give h, .push f base⟩ (next.machine w' base))
      (next.machine w' base) := by
  have hover : ¬ Returned base ⟨w, .hold, .give h, .push f base⟩ := nofun
  have hreuses : ReusesUpTo (¬ Returned base ·) h.buffer (k h.buffer)
      ⟨w, .hold, .give h, .push f base⟩ ⟨w, .hold, .give h, .push f base⟩ :=
    ⟨0, Nat.zero_le _, .refl⟩
  obtain ⟨rfl, hresolve, ⟨hvalid, rfl | ⟨c, hc, rfl⟩⟩ | ⟨f', hf', rfl⟩⟩ :=
    Frame.resume_gains hf h w w' next hnext
  · obtain ⟨hholds, hunlocked, hgeneration⟩ := hgains.current
    exact .returned ⟨⟨hholds, hunlocked, hgeneration⟩, hvalid⟩
  · exact .proceeds hc hgains ((hreuses.moves hover hmove).awaits (.inl hvalid))
  · exact .starting hf' hgains (hreuses.moves hover hmove) (.begins (.issue hresolve))

/-- The buffer is unlocked that the read has waited for. -/
theorem Fetching.settled {w w' : World g} {v : Unit} {next : Next g .fetched}
    (hm : m.Reachable) (hbound : k h.buffer < UInt32.size) (hgains : Gains b base h m a)
    (hawaits : Awaits (¬ Returned base ·) h.buffer (k h.buffer) a
      ⟨w, .unit, .give v, .push (.settling h) base⟩)
    (hunlocked : (w.cache.header h.buffer).locked = false)
    (hmove : Moves ⟨w, .unit, .give v, .push (.settling h) base⟩ (next.machine w' base))
    (hnext : w.settled h = .ok (w', next)) :
    Fetching b base m
      (turned k ⟨w, .unit, .give v, .push (.settling h) base⟩ (next.machine w' base))
      (next.machine w' base) := by
  obtain ⟨rfl, hresolve, hlooked⟩ := w.settled_ensures h w' next hnext
  have hgeneration : (w'.cache.header h.buffer).generation = h.generation :=
    (Cache.resolve_eq_ok hresolve).2.1
  obtain ⟨hcontent, harrived⟩ := hawaits.arrived (hm.leads hgains.leads) hbound
    (hgeneration.trans hgains.current.generation.symm) hunlocked
  rcases hlooked with ⟨hvalid, rfl⟩ | ⟨hinvalid, rfl⟩
  · exact .returned ⟨⟨hcontent.trans hgains.current.holds, hunlocked, hgeneration⟩, hvalid⟩
  · have hspoiled := harrived.resolve_right fun hvalid =>
      Bool.false_ne_true (hinvalid.symm.trans hvalid)
    exact .unwinding hgains (hspoiled.moves nofun hmove) .here

/-- A move takes a read on. -/
theorem Fetching.moves (h : Fetching b base m k n) (hm : m.Reachable)
    (hspan : Leads (¬ Returned base ·) m n) (hbound : ∀ i, k i < UInt32.size)
    (hover : ¬ n.Returned base) (hmove : n.Moves n') :
    Fetching b base m (turned k n n') n' := by
  cases h with
  | @begins w c hc =>
    obtain ⟨w', next, hnext, rfl⟩ := moves_of_run hmove
    obtain ⟨f, hf, rfl⟩ := c.begin_fetches hc w w' next hnext
    exact .getting hf (hspan.tail ⟨hover, hmove⟩) .refl
  | @getting _ w₀ f hf hbegun hgetting =>
    by_cases hreturned : n.Returned (.push f base)
    · obtain ⟨w, h, w', next, rfl, hnext, rfl⟩ := moves_of_returned hreturned hmove
      have hcurrent := (Acquiring.of_leads (hm.leads hbegun) hgetting).ended.2
      exact .gained hf ⟨hspan, ⟨w, f, hf, rfl⟩, hcurrent⟩ hmove hnext
    · exact .getting hf hbegun (hgetting.tail ⟨hreturned, hmove⟩)
  | @starting _ a h f hf hgains hreuses hstarting =>
    rcases hstarting.moves hmove with hon | ⟨hcoming, hbeneath⟩
    · exact .starting hf hgains (hreuses.moves hover hmove) hon
    · exact .waiting hf hgains ((hreuses.moves hover hmove).awaits hcoming) hbeneath
  | @waiting _ a h s f hf hgains hawaits hbeneath =>
    have ha := hm.leads hgains.leads
    rcases resumes_or_beneath hbeneath hmove with ⟨w, v, w', next, rfl, hnext, rfl⟩ | hstill
    · rcases Frame.resume_awaits hf v w with ⟨rfl, rfl⟩ | hensures
      · exact .settled hm (hbound _) hgains hawaits (hm.leads hspan).consistent.orderly.1 hmove
          hnext
      · exact fetching_next (hensures w' next hnext) hgains (hawaits.moves ha hover hmove)
    · exact .waiting hf hgains (hawaits.moves ha hover hmove) hstill
  | @proceeds a w c h hc hgains hawaits =>
    have ha := hm.leads hgains.leads
    obtain ⟨w', next, hnext, rfl⟩ := moves_of_run hmove
    exact fetching_next (c.begin_awaits hc w w' next hnext) hgains
      (hawaits.moves ha hover hmove)
  | @unwinding _ a h hgains hspoiled hbeneath =>
    rcases resumes_or_beneath hbeneath hmove with ⟨w, v, w', next, rfl, hnext, rfl⟩ | hstill
    · cases hnext
      exact .returned ⟨rfl, h, a, hgains, hspoiled.moves hover hmove⟩
    · exact .unwinding hgains (hspoiled.moves hover hmove) hstill
  | returned => exact absurd ⟨_, _, rfl⟩ hover

theorem Fetching.of_turnover {w : World g} {c : Call g .fetched} (hc : c.fetches? = some b)
    (hm : Reachable ⟨w, .fetched, .run c, base⟩)
    (hspan : Turnover (¬ Returned base ·) ⟨w, .fetched, .run c, base⟩ k n)
    (hbound : ∀ i, k i < UInt32.size) : Fetching b base ⟨w, .fetched, .run c, base⟩ k n := by
  induction hspan with
  | refl => exact .begins hc
  | @tail k a n hspan hover hmove ih =>
    have hbefore (i : g.Buffer) : k i < UInt32.size :=
      Nat.lt_of_le_of_lt (le_turned k a n i) (hbound i)
    exact (ih hbefore).moves hm hspan.leads hbefore hover hmove

/-- A read that is over yields what it should. -/
theorem Fetching.yields {w : World g} {v : Except Failure (Hold g)}
    (h : Fetching b base m k ⟨w, .fetched, .give v, base⟩) :
    Yields b base m ⟨w, .fetched, .give v, base⟩ v := by
  cases h with
  | getting _ _ hgetting => exact absurd (hgetting.beneath .here) (Stack.not_push_beneath _ _)
  | starting _ _ _ hstarting => exact absurd hstarting.beneath (Stack.not_push_beneath _ _)
  | waiting _ _ _ hbeneath => exact absurd hbeneath (Stack.not_push_beneath _ _)
  | unwinding _ _ hbeneath => exact absurd hbeneath (Stack.not_push_beneath _ _)
  | returned hyields => exact hyields

/-- Until it has got its buffer, a read queues no read itself. -/
theorem not_queues_of_gaining {f : Frame g .hold .fetched} {w : World g} {x y : Machine g}
    (hspan : Leads (¬ Returned (.push f base) ·) ⟨w, .hold, .run (.acquire b), .push f base⟩ x)
    (hover : ¬ x.Returned (.push f base)) (hwork : x.AtWork base) (hxy : x.Moves y)
    (i : g.Buffer) : ¬ x.world.cache.Queues y.world.cache .read i := by
  have hacquire : (Family.getting g).call (.acquire b) := trivial
  have hmoves := Family.getting_closed.moves_of_atWork hacquire (.push _ .here) hspan hwork
  exact not_queues_of_moves hmoves hover hxy i

/-- Where a read without others ahead has got a buffer with the bytes, it is over with the next
move. -/
theorem eq_of_spared {w : World g} (hvalid : (w.cache.header h.buffer).valid = true)
    (hmove : Moves ⟨w, .hold, .give h, .push .fetching base⟩ n) :
    n = ⟨w, .fetched, .give (.ok h), base⟩ := by
  obtain ⟨w', next, hnext, rfl⟩ := moves_of_give hmove
  obtain ⟨rfl, rfl⟩ := World.fetched_valid hvalid w' next hnext
  rfl

/-! ## Every read of a block -/

/-- What comes of reading a block. -/
structure Fetches (m : Machine g) : Prop where
  /-- If a read returns a reference, it is to the buffer that holds the block, in its present
  generation, and the buffer is unlocked and valid; provided that no buffer is given so many
  blocks meanwhile that its generation comes round. -/
  delivered : ∀ {w c b k w' h} {base : Stack g .fetched}, c.fetches? = some b →
    m = ⟨w, .fetched, .run c, base⟩ →
    Turnover (¬ Returned base ·) m k ⟨w', .fetched, .give (.ok h), base⟩ →
    (∀ i, k i < UInt32.size) → Current b h ⟨w', .fetched, .give (.ok h), base⟩ ∧
      Machine.valid ⟨w', .fetched, .give (.ok h), base⟩ h.buffer = true
  /-- If a read fails, the kind of the failure is that of the device, and since it got its buffer
  a request for that has ended without success, or it was emptied as its device was. -/
  failed : ∀ {w c b k w' f} {base : Stack g .fetched}, c.fetches? = some b →
    m = ⟨w, .fetched, .run c, base⟩ →
    Turnover (¬ Returned base ·) m k ⟨w', .fetched, .give (.error f), base⟩ →
    (∀ i, k i < UInt32.size) → f.kind = .io ∧ ∃ h a, Gains b base h m a ∧
      Spoiled (¬ Returned base ·) h.buffer a ⟨w', .fetched, .give (.error f), base⟩
  /-- The read itself has added the reference that it returns, and none if it failed. -/
  added : ∀ {w c b j t w' v} {base : Stack g .fetched}, c.fetches? = some b →
    m = ⟨w, .fetched, .run c, base⟩ → Adds base j m t ⟨w', .fetched, .give v, base⟩ →
      t = match v with
        | .ok h => if h.buffer = j then 1 else 0
        | .error _ => 0
  /-- Until it has got its buffer, a read queues no read itself. -/
  unread : ∀ {w c b w₀ x y i} {f : Frame g .hold .fetched} {base : Stack g .fetched},
    c.fetches? = some b → m = ⟨w, .fetched, .run c, base⟩ →
    m.Moves ⟨w₀, .hold, .run (.acquire b), .push f base⟩ →
    Leads (¬ Returned (.push f base) ·) ⟨w₀, .hold, .run (.acquire b), .push f base⟩ x →
    ¬ x.Returned (.push f base) → x.AtWork base → x.Moves y →
      ¬ x.world.cache.Queues y.world.cache .read i
  /-- If the bytes are there then, a read without others ahead is over with the next move, which
  changes nothing. -/
  spared : ∀ {w h n} {base : Stack g .fetched}, m = ⟨w, .hold, .give h, .push .fetching base⟩ →
    (w.cache.header h.buffer).valid = true → m.Moves n → n = ⟨w, .fetched, .give (.ok h), base⟩

/-- In every session, whatever clients, drivers and listeners do while it waits, a read returns
the bytes of its block, or fails for a reason. -/
theorem Reachable.fetches (hm : m.Reachable) : m.Fetches := by
  refine ⟨?_, ?_, ?_, ?_, ?_⟩
  · rintro w c b k w' h base hc rfl hspan hbound
    exact (Fetching.of_turnover hc hm hspan hbound).yields
  · rintro w c b k w' f base hc rfl hspan hbound
    obtain ⟨rfl, h, a, hgains, hspoiled⟩ := (Fetching.of_turnover hc hm hspan hbound).yields
    exact ⟨rfl, h, a, hgains, hspoiled⟩
  · rintro w c b j t w' v base hc rfl hadds
    have hoperates := c.operates_of_fetches hc j
    have ht := hadds.eq_of_operates hm hoperates.1
    rw [hoperates.2, Int.natCast_zero, Int.add_zero] at ht
    rw [ht]
    cases v with
    | error f => rfl
    | ok h =>
      change ((if h.buffer = j then 1 else 0 : Nat) : Int) = if h.buffer = j then 1 else 0
      split <;> rfl
  · rintro w c b w₀ x y i f base - - - hspan hover hwork hxy
    exact not_queues_of_gaining hspan hover hwork hxy i
  · rintro w h n base rfl hvalid hmove
    exact eq_of_spared hvalid hmove

/-- A client reads a block that is being read for another one.  The driver ends that transfer
without success, and then the one that the client has started itself. -/
def failingTwice : Machine Geometry.single :=
  reading.next [[.finish 1 false], [.finish 1 false]] (.fetch ⟨257, 3⟩ (some "x"))

theorem reachable_failingTwice (n : Nat) : (failingTwice.after n).Reachable :=
  (reachable_reading.next _ _).after n

/-- The read waits twice, and fails. -/
theorem fetches_of_failure :
    ∃ (w w' : World Geometry.single) (base : Stack Geometry.single .fetched)
      (k : Geometry.single.Buffer → Nat),
      Reachable ⟨w, .fetched, .run (.fetch ⟨257, 3⟩), base⟩ ∧
      Turnover (¬ Returned base ·) ⟨w, .fetched, .run (.fetch ⟨257, 3⟩), base⟩ k
        ⟨w', .fetched, .give (.error .blockUnread), base⟩ ∧
      (∀ i, k i < UInt32.size) ∧ Fetches ⟨w, .fetched, .run (.fetch ⟨257, 3⟩), base⟩ := by
  have hm := reachable_failingTwice 1
  let base : Stack Geometry.single .fetched := (failingTwice.after 1).stack
  have hbefore : ∀ u < 40, ((failingTwice.after 1).after u).gives .fetched = false := by decide
  obtain ⟨k, hspan, hle⟩ := exists_turnover_after base hbefore
  have hbound (i : Geometry.single.Buffer) : k i < UInt32.size :=
    Nat.lt_of_le_of_lt (hle i) (by decide)
  exact ⟨(failingTwice.after 1).world, ((failingTwice.after 1).after 40).world, base, k, hm, hspan,
    hbound, hm.fetches⟩

end Machine
end BufferCache
