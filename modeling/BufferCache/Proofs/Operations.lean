import BufferCache.Proofs.Reuse

/-!
# Where requests are addressed

An operation on a buffer asks for its device as it begins.  Then it waits until it can lock
the buffer, and asks for the number of the block only when it has; from there on the lock
keeps the block.  So if the buffer is given another block while the operation waits for the
lock, the request that it queues is for the device of the one block and the number of the
other.  Nobody checks the device again.

`Operating` says where an operation has come to, and keeps the device that it found.
`Reachable.addresses` draws the consequences: what an operation queues is for the block of its
handle, and for the block in its buffer, just if these two are the same; and requests are all
for the blocks in their buffers as long as no buffer is given a block of another device while an
operation waits to lock it.
-/

namespace BufferCache

variable {g : Geometry}

/-! ## What a step queues -/

/-- From `c` to `c'`, nothing is queued but what asks for `o`. -/
def Cache.QueuesOnly (c c' : Cache g) (o : Transfer × g.Buffer) : Prop :=
  ∀ k p, c.requests.order? k = none → c'.requests.order? k = some p → p = o

section QueuesOnly

variable {c c' : Cache g} {o : Transfer × g.Buffer}

theorem Cache.queuesOnly_of_eq (h : c'.requests = c.requests) : c.QueuesOnly c' o := by
  intro k p hnone hsome
  rw [h, hnone] at hsome
  cases hsome

theorem Cache.queuesOnly_conclude (c : Cache g) (m : Nat) (slot : g.Slot) (q : Request g)
    (success : Bool) : c.QueuesOnly (c.conclude m slot q success) o := by
  intro k p hnone hsome
  rw [Cache.order?_conclude, hnone] at hsome
  split at hsome <;> cases hsome

theorem Cache.queuesOnly_enqueue (c : Cache g) (d : Direction) (i : g.Buffer) (b : Block)
    (slot : g.Slot) : c.QueuesOnly (c.enqueue d i b slot) (.ofBlock d b, i) := by
  intro k p hnone hsome
  have horder : (c.enqueue d i b slot).requests.order? k =
      if slot = k then some (.ofBlock d b, i) else c.requests.order? k :=
    RequestTable.order?_insert ..
  rw [horder, hnone] at hsome
  split at hsome <;> cases hsome
  rfl

end QueuesOnly

/-- A transfer of a whole block is for that block alone. -/
theorem Transfer.ofBlock_inj {d : Direction} {a b : Block} :
    Transfer.ofBlock d a = .ofBlock d b ↔ a = b := by
  refine ⟨fun h => ?_, congrArg _⟩
  have hdevice : a.device = b.device := congrArg Transfer.device h
  have hsector : a.sector = b.sector := congrArg Transfer.sector h
  have hnumber : a.number = b.number :=
    UInt32.toNat_inj.mp (Nat.eq_of_mul_eq_mul_right (by decide) hsector)
  cases a
  cases b
  exact congrArg₂ Block.mk hdevice hnumber

/-! ## The steps of an operation -/

/-- A call with which a driver is started, or goes on. -/
def Call.Drives {s : Shape} : Call g s → Prop
  | .start _ | .serve _ | .play _ => True
  | _ => False

/-- What an operation on buffer `i`, for which it found the device `d`, does next. -/
inductive Next.Operates (op : Operation) (i : g.Buffer) (d : DeviceNumber) : Next g .unit → Prop
  | done : Operates op i d (.done ())
  | lock : Operates op i d (.call (.lock i) (.locking op i d))
  | wait (q : Queue g) (ticket : UInt64) (number : BlockNumber) :
      Operates op i d (.call (.sleep q ticket) (.awaitingVacancy op i d number))
  | drive {c : Call g .unit} : c.Drives → Operates op i d (.goto c)
  | play (command : Command) (rest : Script) :
      Operates op i d (.call (.perform command) (.playing rest))

namespace World

variable {o : Transfer × g.Buffer}

/-- A request for the block that the operation knows is queued, or waited with. -/
theorem enqueue_operates (w : World g) (op : Operation) (i : g.Buffer) (d : DeviceNumber)
    (number : BlockNumber) : (w.enqueue op i d number).Ensures fun w' next =>
      w.cache.QueuesOnly w'.cache (.ofBlock op.direction ⟨d, number⟩, i) ∧
        next.Operates op i d := by
  unfold enqueue
  split
  · rename_i slot hslot
    have hqueues := w.cache.queuesOnly_enqueue op.direction i ⟨d, number⟩ slot
    unfold file
    dsimp only
    split
    · exact Outcome.ensures_goto ⟨hqueues, .drive trivial⟩
    · exact Outcome.ensures_done ⟨hqueues, .done⟩
  · split
    · refine Outcome.ensures_done ⟨Cache.queuesOnly_of_eq ?_, .done⟩
      rw [cache_unlock]
      exact Cache.requests_wake _ _
    · exact Outcome.ensures_call ⟨Cache.queuesOnly_of_eq rfl, .wait _ _ _⟩

/-- Once its buffer is locked, an operation is for the number that the buffer has then. -/
theorem locked_operates (w : World g) (op : Operation) (i : g.Buffer) (d : DeviceNumber) :
    (w.locked op i d).Ensures fun w' next =>
      w.cache.QueuesOnly w'.cache
        (.ofBlock op.direction ⟨d, (w.cache.header i).number⟩, i) ∧ next.Operates op i d := by
  unfold locked
  split
  · refine Outcome.ensures_done ⟨Cache.queuesOnly_of_eq ?_, .done⟩
    rw [cache_unlock]
    exact Cache.requests_wake _ _
  · exact w.enqueue_operates op i d _

/-- An operation finds the device of its buffer as it begins. -/
theorem request_operates (w : World g) (op : Operation) (i : g.Buffer) :
    (w.request op i).Ensures fun w' next =>
      w.cache.QueuesOnly w'.cache (.ofBlock op.direction (w.cache.blockOf i), i) ∧
        next.Operates op i (w.cache.header i).device := by
  unfold request
  dsimp only
  split
  · exact Outcome.ensures_fault
  split
  · split
    · exact Outcome.ensures_done ⟨Cache.queuesOnly_of_eq rfl, .done⟩
    · -- An operation ahead of need locks the buffer in the same step.
      have hnumber : ((w.mapCache (·.lock i)).cache.header i).number =
          (w.cache.header i).number :=
        congrArg Block.number (Cache.blockOf_congr (Cache.content_lock w.cache i i))
      have hlocked := (w.mapCache (·.lock i)).locked_operates op i (w.cache.header i).device
      rw [hnumber] at hlocked
      exact hlocked
  · exact Outcome.ensures_call ⟨Cache.queuesOnly_of_eq rfl, .lock⟩

end World

/-- What a driver does next: it is over, serves on, or lets a script run. -/
inductive Next.GoesOn : Next g .unit → Prop
  | done : GoesOn (.done ())
  | serve {major : Nat} : GoesOn (.goto (.serve major))
  | play {script : Script} : GoesOn (.goto (.play script))
  | perform {command : Command} {rest : Script} :
      GoesOn (.call (.perform command) (.playing rest))

/-- A driver that is started, or goes on, serves its current request, or does nothing to the
cache.  It starts no other one. -/
theorem Call.begin_goesOn {c : Call g .unit} (hc : c.Drives) (w : World g) :
    (c.begin w).Ensures fun w' next => (w'.cache = w.cache ∨ ∃ m d slot q,
      (Effect.serve m d slot q).Fits w.cache ∧
        w'.cache = (Effect.serve m d slot q).apply w.cache) ∧ next.GoesOn := by
  cases c with
  | start m =>
    change (w.start m).Ensures _
    unfold World.start
    split
    · exact Outcome.ensures_done ⟨.inl rfl, .done⟩
    split
    · exact Outcome.ensures_done ⟨.inl rfl, .done⟩
    · exact Outcome.ensures_goto ⟨.inl (World.cache_takeStart _ _), .play⟩
    · exact Outcome.ensures_goto ⟨.inl rfl, .serve⟩
    · exact Outcome.ensures_goto ⟨.inl rfl, .serve⟩
  | serve m =>
    change (w.serve m).Ensures _
    unfold World.serve
    split
    · exact Outcome.ensures_done ⟨.inl rfl, .done⟩
    rename_i d hd
    split
    · exact Outcome.ensures_done ⟨.inl rfl, .done⟩
    rename_i q hq
    refine Outcome.ensures_orFault fun ended hended => ?_
    obtain ⟨slot, hserved⟩ := World.exists_serve hd hq hended
    split
    · exact Outcome.ensures_goto ⟨.inr ⟨m, d, slot, q, hserved⟩, .serve⟩
    · exact Outcome.ensures_done ⟨.inr ⟨m, d, slot, q, hserved⟩, .done⟩
  | play script =>
    cases script with
    | nil => exact Outcome.ensures_done ⟨.inl rfl, .done⟩
    | cons command rest => exact Outcome.ensures_call ⟨.inl rfl, .perform⟩
  | _ => exact hc.elim

/-- A driver queues no requests itself. -/
theorem Call.begin_drives {c : Call g .unit} (hc : c.Drives) (op : Operation) (i : g.Buffer)
    (d : DeviceNumber) (o : Transfer × g.Buffer) (w : World g) :
    (c.begin w).Ensures fun w' next => w.cache.QueuesOnly w'.cache o ∧ next.Operates op i d := by
  refine (Call.begin_goesOn hc w).mono fun w' next ⟨hcache, hnext⟩ => ⟨?_, ?_⟩
  · rcases hcache with hsame | ⟨m, driver, slot, q, -, happly⟩
    · exact Cache.queuesOnly_of_eq (congrArg Cache.requests hsame)
    · rw [happly]
      exact Cache.queuesOnly_conclude (w.cache.carryOut m driver q) driver.major slot q _
  · cases hnext with
    | done => exact .done
    | serve => exact .drive trivial
    | play => exact .drive trivial
    | perform => exact .play _ _

namespace Machine

variable {m n n' : Machine g} {op : Operation} {i : g.Buffer} {d : DeviceNumber}
  {base : Stack g .unit}

/-! ## Where an operation has come to -/

/-- The block that a buffer is for. -/
def block (m : Machine g) (i : g.Buffer) : Block :=
  m.world.cache.blockOf i

/-- The next to move is the call directly above `base`, which begins, or is given what it
waited for. -/
def Acts {s : Shape} (base : Stack g s) (m : Machine g) : Prop :=
  (∃ w c, m = ⟨w, s, .run c, base⟩) ∨
    ∃ (a : Shape) (f : Frame g a s), m.Returned (.push f base)

/-- A suspended call directly above `base` acts when it is returned to. -/
theorem Acts.returned {a s : Shape} {base : Stack g s} {f : Frame g a s} (h : n.Acts base)
    (hbeneath : (Stack.push f base).Beneath n.stack) : n.Returned (.push f base) := by
  rcases h with ⟨w, c, rfl⟩ | ⟨b, f', w, v, rfl⟩
  · exact absurd hbeneath (Stack.not_push_beneath f base)
  · cases hbeneath with
    | here => exact ⟨w, v, rfl⟩
    | push _ hrest => exact absurd hrest (Stack.not_push_beneath f base)

theorem Acts.not_returned {s : Shape} {base : Stack g s} (h : n.Acts base) :
    ¬ n.Returned base := by
  rintro ⟨w, v, rfl⟩
  rcases h with ⟨w', c, heq⟩ | ⟨a, f, w', v', heq⟩
  · cases heq
  · have hbeneath : (Stack.push f base).Beneath (Machine.mk w s (.give v) base).stack := by
      rw [heq]
      exact .here
    exact Stack.not_push_beneath f base hbeneath

/-- An operation on buffer `i` begins above `base`: it is started through a handle, or by a
call that knows the buffer. -/
inductive Begins (op : Operation) (i : g.Buffer) (base : Stack g .unit) : Machine g → Prop
  | issue {w : World g} {h : Handle} : w.cache.resolve h = .ok i →
      Begins op i base ⟨w, .unit, .run (.issue op h), base⟩
  | request {w : World g} : Begins op i base ⟨w, .unit, .run (.request op i), base⟩

/-- Where an operation on buffer `i` above `base` has come to, for which it found, or is about
to find, the device `d`. -/
inductive Operating (op : Operation) (i : g.Buffer) (d : DeviceNumber) (base : Stack g .unit) :
    Machine g → Prop
  | begins {n : Machine g} : n.Begins op i base → (n.block i).device = d →
      Operating op i d base n
  | locking {n : Machine g} : (Stack.push (.locking op i d) base).Beneath n.stack →
      Operating op i d base n
  | enqueue {w : World g} {number : BlockNumber} :
      Operating op i d base ⟨w, .unit, .run (.enqueue op i d number), base⟩
  | awaiting {n : Machine g} {number : BlockNumber} :
      (Stack.push (.awaitingVacancy op i d number) base).Beneath n.stack → Operating op i d base n
  | driving {w : World g} {c : Call g .unit} : c.Drives →
      Operating op i d base ⟨w, .unit, .run c, base⟩
  | playing {n : Machine g} {rest : Script} :
      (Stack.push (.playing rest) base).Beneath n.stack → Operating op i d base n
  | returned {w : World g} {v : Unit} : Operating op i d base ⟨w, .unit, .give v, base⟩

theorem operating_next {w : World g} {next : Next g .unit} (h : next.Operates op i d) :
    Operating op i d base (next.machine w base) := by
  cases h with
  | done => exact .returned
  | lock => exact .locking .here
  | wait q ticket number => exact .awaiting .here
  | drive hc => exact .driving hc
  | play command rest => exact .playing .here

/-- A move takes an operation on.  The only request that the operation itself may queue in it
is for its device and for the number that its buffer has. -/
theorem Operating.moves (h : Operating op i d base n) (hn : n.Reachable)
    (hover : ¬ n.Returned base) (hmove : n.Moves n') : Operating op i d base n' ∧
      (n.Acts base → n.world.cache.QueuesOnly n'.world.cache
        (.ofBlock op.direction ⟨d, (n.block i).number⟩, i)) := by
  have hstep {acts : Prop} {w w' : World g} {next : Next g .unit} {o : Transfer × g.Buffer}
      (hnext : w.cache.QueuesOnly w'.cache o ∧ next.Operates op i d) :
      Operating op i d base (next.machine w' base) ∧
        (acts → w.cache.QueuesOnly (next.machine w' base).world.cache o) := by
    rw [world_next]
    exact ⟨operating_next hnext.2, fun _ => hnext.1⟩
  cases h with
  | begins hbegins hdevice =>
    cases hbegins with
    | @issue w h hresolve =>
      obtain ⟨w', next, hnext, rfl⟩ := moves_of_run hmove
      change World.orFault (w.cache.resolve h) _ = _ at hnext
      rw [hresolve] at hnext
      cases hnext
      exact ⟨.begins .request hdevice, fun _ => Cache.queuesOnly_of_eq rfl⟩
    | @request w =>
      obtain ⟨w', next, hnext, rfl⟩ := moves_of_run hmove
      have hoperates := w.request_operates op i w' next hnext
      subst hdevice
      exact hstep hoperates
  | @locking _ hbeneath =>
    by_cases hreturned : n.Returned (.push (.locking op i d) base)
    · obtain ⟨w, v, w', next, rfl, hnext, rfl⟩ := moves_of_returned hreturned hmove
      exact hstep (w.locked_operates op i d w' next hnext)
    · exact ⟨.locking (beneath_moves hbeneath hmove hreturned),
        fun hacts => absurd (hacts.returned hbeneath) hreturned⟩
  | @enqueue w number =>
    obtain ⟨w', next, hnext, rfl⟩ := moves_of_run hmove
    -- The number was read under the lock, which has kept the block in the buffer since.
    have hnumber : (w.cache.header i).number = number := hn.consistent.orderly.2.1.2.1
    have hoperates := w.enqueue_operates op i d number w' next hnext
    subst hnumber
    exact hstep hoperates
  | @awaiting _ number hbeneath =>
    by_cases hreturned : n.Returned (.push (.awaitingVacancy op i d number) base)
    · obtain ⟨w, v, w', next, rfl, hnext, rfl⟩ := moves_of_returned hreturned hmove
      cases hnext
      exact ⟨.enqueue, fun _ => Cache.queuesOnly_of_eq rfl⟩
    · exact ⟨.awaiting (beneath_moves hbeneath hmove hreturned),
        fun hacts => absurd (hacts.returned hbeneath) hreturned⟩
  | @driving w c hc =>
    obtain ⟨w', next, hnext, rfl⟩ := moves_of_run hmove
    exact hstep (Call.begin_drives hc op i d _ w w' next hnext)
  | @playing _ rest hbeneath =>
    by_cases hreturned : n.Returned (.push (.playing rest) base)
    · obtain ⟨w, v, w', next, rfl, hnext, rfl⟩ := moves_of_returned hreturned hmove
      cases hnext
      exact ⟨.driving trivial, fun _ => Cache.queuesOnly_of_eq rfl⟩
    · exact ⟨.playing (beneath_moves hbeneath hmove hreturned),
        fun hacts => absurd (hacts.returned hbeneath) hreturned⟩
  | returned => exact absurd ⟨_, _, rfl⟩ hover

/-- An operation goes on until it is over, whatever others do meanwhile. -/
theorem Operating.leads (h : Operating op i d base m) (hm : m.Reachable)
    (hspan : Leads (¬ Returned base ·) m n) : Operating op i d base n := by
  induction hspan with
  | refl => exact h
  | tail hpath hmove ih => exact (ih.moves (hm.leads hpath) hmove.1 hmove.2).1

/-- What an operation queues itself is for the device that it found, and for the number that
its buffer has. -/
theorem Operating.queued (h : Operating op i d base n) (hn : n.Reachable) (hacts : n.Acts base)
    (hmove : n.Moves n') {k : g.Slot} {o : Transfer × g.Buffer} (hnone : n.order? k = none)
    (ho : n'.order? k = some o) :
    o = (.ofBlock op.direction ⟨d, (n'.block i).number⟩, i) := by
  have hidentity : n'.identity i = n.identity i := hn.identity_of_queued hmove hnone ho
  have hblock : n'.block i = n.block i := Cache.blockOf_congr (congrArg Prod.fst hidentity :)
  rw [hblock]
  exact (h.moves hn hacts.not_returned hmove).2 hacts k o hnone ho

/-! ## Requests and the blocks in their buffers -/

/-- Every request is for the block in its buffer. -/
def Addressed (m : Machine g) : Prop :=
  ∀ k t i, m.order? k = some (t, i) → t = .ofBlock t.direction (m.block i)

/-- A request is for the number of the block in its buffer. -/
theorem Consistent.numbered {exact : Prop} (h : m.Consistent exact) {k : g.Slot} {t : Transfer}
    (ho : m.order? k = some (t, i)) :
    t = .ofBlock t.direction ⟨t.device, (m.block i).number⟩ := by
  obtain ⟨hsectors, hsector, -⟩ := h.tallies.placed k t i ho
  obtain ⟨direction, device, sector, sectors⟩ := t
  obtain rfl : sector = (m.block i).sector := hsector
  obtain rfl : sectors = sectorsPerBlock := hsectors
  rfl

theorem Consistent.addressed (h : m.Consistent True) : m.Addressed := by
  intro k t i ho
  have hdevice : t.device = (m.block i).device := (h.tallies.placed k t i ho).2.2 trivial
  have hnumbered := h.numbered ho
  rw [hdevice] at hnumbered
  exact hnumbered

/-- A buffer keeps its block as long as there are references to it. -/
theorem Reachable.block_of_leads (h : m.Reachable) {on : Machine g → Prop}
    (hspan : Leads on m n) (hreferenced : ∀ a, on a → a.references i ≠ 0) :
    n.block i = m.block i := by
  obtain ⟨k, hreuses⟩ := Reuses.exists_of_leads hspan i
  obtain rfl := hreuses.eq_zero h hreferenced
  exact Cache.blockOf_congr hreuses.content_eq

/-- How requests are addressed. -/
structure Addresses (m : Machine g) : Prop where
  /-- An operation with a handle that is not good is refused. -/
  refused : ∀ {w op h f} {base : Stack g .unit}, m = ⟨w, .unit, .run (.issue op h), base⟩ →
    w.cache.resolve h = .error f → m.step = .halted (.fault f)
  /-- What an operation queues itself, whatever others did meanwhile, is a transfer for its
  buffer: to or from the device that the buffer was for as the operation began, with the number
  that it is for as the request is queued.  So the transfer is for the block that the operation
  was about, and for the block in the buffer, just if the one is the other. -/
  queued : ∀ {op i n n' k t j} {base : Stack g .unit}, m.Begins op i base →
    Leads (¬ Returned base ·) m n → n.Acts base → n.Moves n' →
    n.order? k = none → n'.order? k = some (t, j) →
      j = i ∧ t = .ofBlock op.direction ⟨(m.block i).device, (n'.block i).number⟩ ∧
        (t = .ofBlock op.direction (m.block i) ∧ t = .ofBlock op.direction (n'.block i) ↔
          n'.block i = m.block i)
  /-- As long as there are references to it, a buffer keeps its block. -/
  kept : ∀ {on n i}, Leads on m n → (∀ a, on a → a.references i ≠ 0) →
    n.block i = m.block i
  /-- A request in a chain is for the number of the block in its buffer. -/
  numbered : ∀ {k t i}, m.order? k = some (t, i) →
    t = .ofBlock t.direction ⟨t.device, (m.block i).number⟩
  /-- Until it ends a request stays as it is, and its buffer keeps its block; so it is for that
  block all the time or never. -/
  stays : ∀ {k t i n}, m.order? k = some (t, i) → Leads (fun a => a.order? k ≠ none) m n →
    n.order? k ≠ none → n.order? k = some (t, i) ∧ n.block i = m.block i
  /-- If buffers always keep their devices while operations wait to lock them, every request is
  for the block in its buffer. -/
  steady : m.Steady → m.Addressed
  /-- So it is if clients keep what they submit. -/
  keeping : ∀ ledger, m.Keeping ledger → m.Addressed

/-- In every session, whatever clients, drivers and listeners do, a request is for the device
that its operation found, and for the number of the block in its buffer. -/
theorem Reachable.addresses (h : m.Reachable) : m.Addresses := by
  refine ⟨?_, ?_, fun hspan => h.block_of_leads hspan, fun ho => h.consistent.numbered ho,
    fun ho hspan htaken => ?_, fun hsteady => hsteady.consistent.addressed,
    fun _ hkeeping => hkeeping.consistent.addressed⟩
  · rintro w op handle f base rfl hresolve
    have hbegin : (Call.issue op handle).begin w = World.fault f := by
      change World.orFault (w.cache.resolve handle) _ = _
      rw [hresolve]
      rfl
    exact congrArg (advance base) hbegin
  · intro op i n n' k t j base hbegins hspan hacts hmove hnone ho
    have hoperating := Operating.leads (.begins hbegins rfl) h hspan
    obtain ⟨rfl, rfl⟩ := Prod.mk.inj
      (hoperating.queued (h.leads hspan) hacts hmove hnone ho)
    refine ⟨rfl, rfl, fun hboth => ?_, fun hsame => ?_⟩
    · exact Transfer.ofBlock_inj.mp (hboth.2.symm.trans hboth.1)
    · rw [hsame]
      exact ⟨rfl, rfl⟩
  · obtain ⟨hstill, hidentity⟩ := h.identity_of_leads ho hspan htaken
    exact ⟨hstill, Cache.blockOf_congr (congrArg Prod.fst hidentity :)⟩

/-- A client starts to read a block once more while it is read, and so has to wait.  Meanwhile
the read fails, another client gives the reference back, and the buffer is taken for a block of
another device. -/
def readTwice : Machine Geometry.single :=
  reading.next [[.finish 1 false, .release "h", .acquire ⟨258, 5⟩ (some "x")]] (.issue .read "h")

theorem reachable_readTwice (n : Nat) : (readTwice.after n).Reachable :=
  (reachable_reading.next _ _).after n

/-- The operation begins while the buffer is locked. -/
theorem addresses_of_locked :
    ∃ m : Machine Geometry.single, m.Reachable ∧
      (∃ base, m.Begins .read ⟨0, by decide⟩ base) ∧
      (m.world.cache.header ⟨0, by decide⟩).locked = true ∧ m.Addresses := by
  have h := reachable_readTwice 1
  have hresolve : (readTwice.after 1).world.cache.resolve ⟨0, 1⟩ = .ok ⟨0, by decide⟩ := rfl
  exact ⟨_, h, ⟨_, .issue hresolve⟩, by decide, h.addresses⟩

/-- In the end there is a request for the number of the one block on the device of the
other. -/
theorem misaddressed_by_read :
    ∃ m : Machine Geometry.single, m.Reachable ∧ ∃ k i,
      m.order? k = some (.ofBlock .read ⟨257, 5⟩, i) ∧ m.block i = ⟨258, 5⟩ :=
  ⟨_, reachable_readTwice 31, ⟨2, by decide⟩, ⟨0, by decide⟩, by decide, by decide⟩

end Machine
end BufferCache
