import BufferCache.Proofs.Pinning
import BufferCache.Proofs.Traffic

/-!
# What calls promise each other

A suspended call is given a value and relies on it: a read relies on being given the
buffer of its block, a flush on a buffer being clean once its write was started.  A
`Promise` says what is relied on, and `Promise.Met` what it means for a value to keep it.

* `Call.Keeps` says which promise a call keeps that is to begin, and of what state it has
  to begin in.
* `Frame.Turns` says which promise a suspended call relies on in order to keep which
  other.  What the call has found out before is part of this.
* `Stack.Owes` puts the suspended calls together: each keeps the promise that the one
  beneath relies on, and the last one answers a command.

What suspended calls have found out stays true while others run, as `Stack.Owes.later`
shows, because they refer only to buffers that they have referenced.  Some refer to more,
but these wait only for calls that do not give way: a *quiet* promise is one that is kept
without giving way.

## The image

What the blocks are to contain is the business of clients, and is kept apart from the
machine, in an `Image`.  A client marks the bytes of a block as valid and as changed after
it has written them; the image says how far it has come with that.
-/

namespace BufferCache

variable {g : Geometry}

/-! ## The image -/

/-- How far a client has come in changing a block. -/
inductive Stage where
  /-- No block is being changed. -/
  | idle
  /-- The bytes behind a handle were written. -/
  | filled (h : Handle)
  /-- They were marked as those of the block. -/
  | validated (h : Handle)
  /-- A buffer was marked as valid, and will be overwritten. -/
  | guarded (h : Handle)
  deriving DecidableEq

/-- What the blocks are to contain. -/
structure Image where
  /-- The contents of the blocks. -/
  blocks : Contents
  /-- How far a client has come in changing one. -/
  stage : Stage

/-- What a page shows in the place of block `n` of device `d`; zero is a hole. -/
def Contents.part (blocks : Contents) (d : DeviceNumber) (n : BlockNumber) : Page :=
  if n = 0 then Page.zero else blocks ⟨d, n⟩

namespace Cache

/-- The handle is good, and its buffer holds block `b`. -/
def Refers (c : Cache g) (h : Handle) (b : Block) : Prop :=
  ∃ i, c.resolve h = .ok i ∧ (c.header i).content = some b

/-- Buffer `i` holds block `b`, and is valid if the block is served. -/
def Fresh (c : Cache g) (i : g.Buffer) (b : Block) : Prop :=
  (c.header i).content = some b ∧ (c.Serves b → (c.header i).valid = true)

/-- A page read has the buffers of these blocks. -/
def Gathered (c : Cache g) (d : DeviceNumber) : List BlockNumber → Held g → Prop
  | [], [] => True
  | n :: numbers, none :: held => n = 0 ∧ c.Gathered d numbers held
  | n :: numbers, some h :: held => n ≠ 0 ∧ c.Fresh h.buffer ⟨d, n⟩ ∧ c.Gathered d numbers held
  | _, _ => False

/-- A part of a page is a hole, or its block is served. -/
def Supplies (c : Cache g) (d : DeviceNumber) (n : BlockNumber) : Prop :=
  n ≠ 0 → c.Serves ⟨d, n⟩

/-- The parts of a page show their blocks, as far as these are served. -/
def Shows (c : Cache g) (blocks : Contents) (d : DeviceNumber) (numbers : List BlockNumber)
    (chunks : List Page) : Prop :=
  List.Forall₂ (fun n chunk => c.Supplies d n → chunk = blocks.part d n) numbers chunks

/-- A page read has copied these blocks, and failed only if one of them is not served. -/
structure Copied (c : Cache g) (blocks : Contents) (d : DeviceNumber)
    (numbers : List BlockNumber) (chunks : List Page) (failed : Bool) : Prop where
  /-- The parts of the page show their blocks. -/
  shows : c.Shows blocks d numbers chunks
  /-- Nothing failed if all blocks are served. -/
  complete : (∀ n ∈ numbers, c.Supplies d n) → failed = false

/-- The buffers that fall under a flush are clean, apart from those in `rest`. -/
def Swept (c : Cache g) (scope : Scope) (rest : List g.Buffer) : Prop :=
  ∀ i, i ∉ rest → scope.covers (c.header i).device = true → (c.header i).dirty = false

/-- A client is changing block `b`, which is in buffer `i`. -/
structure Changes (c : Cache g) (blocks : Contents) (h : Handle) (b : Block) (i : g.Buffer) :
    Prop where
  /-- The handle of the client is that of the buffer. -/
  resolve : c.resolve h = .ok i
  /-- The buffer holds the block. -/
  content : (c.header i).content = some b
  /-- The cache represents the array, apart from that block. -/
  coherent : Coherent blocks (some b) none c

/-- How the cache represents the array at some stage of a change. -/
def Represents (c : Cache g) (blocks : Contents) : Stage → Prop
  | .idle => Coherent blocks none none c
  | .filled h => ∃ b i, c.Changes blocks h b i ∧ (c.Serves b → c.page i = blocks b)
  | .validated h => ∃ b i, c.Changes blocks h b i ∧ (c.Serves b → c.page i = blocks b) ∧
      (c.header i).valid = true
  | .guarded h => ∃ b i, c.Changes blocks h b i ∧ (c.header i).valid = true

/-- The cache is calm, and a client may be changing a block. -/
structure Stands (c : Cache g) (a : Image) : Prop where
  /-- All drivers are disks in memory. -/
  disks : c.Disks
  /-- No buffer is locked. -/
  unlocked : ∀ i, (c.header i).locked = false
  /-- No request waits. -/
  idle : c.requests.Empty
  /-- The cache represents the array. -/
  represents : c.Represents a.blocks a.stage

/-- The cache is calm, and no client is changing a block. -/
def Settled (c : Cache g) (a : Image) : Prop :=
  a.stage = .idle ∧ c.Mirrors a.blocks

theorem Settled.stands {c : Cache g} {a : Image} (h : c.Settled a) : c.Stands a := by
  refine ⟨h.2.disks, h.2.unlocked, h.2.idle, ?_⟩
  rw [h.1]
  exact h.2.coherent

theorem Stands.settled {c : Cache g} {a : Image} (h : c.Stands a) (hr : a.stage = .idle) :
    c.Settled a := by
  have hcoherent := h.represents
  rw [hr] at hcoherent
  exact ⟨hr, h.disks, h.unlocked, h.idle, hcoherent⟩

theorem Settled.congr {c c' : Cache g} {a : Image} (h : c.Settled a) (hc : c.Alike c') :
    c'.Settled a :=
  ⟨h.1, h.2.congr hc⟩

end Cache

/-! ## Answers -/

/-- An answer agrees with what the blocks contain. -/
def Command.Agrees (blocks : Contents) (w : World g) : Command → Answer → Prop
  | .acquire b _, a | .guardAcquire b _, a => ∃ h, a = .handle h ∧ w.cache.Refers h b
  | .lookUp b _, a => a = .nothing ∨ ∃ h, a = .handle h ∧ w.cache.Refers h b
  | .fetch b _, a | .fetchAhead b _ _, a | .guardFetch b _, a => w.cache.Serves b →
      ∃ h, a = .handle h ∧ w.cache.Refers h b ∧ w.cache.read h = .ok (blocks b)
  | .fetchPage d numbers length byte, a =>
      blocksPerPage * blockSize ≤ length → World.distinctCount numbers.toList ≤ g.buffers →
        ∃ result chunks, a = .page result (World.overlay chunks (List.replicate length byte)) ∧
          w.cache.Shows blocks d numbers.toList chunks ∧
          ((∀ n ∈ numbers.toList, w.cache.Supplies d n) → result = .ok ())
  | .read name, a => ∀ h b, w.handles.find? name = some h → w.cache.Refers h b →
      w.cache.Serves b → (∃ v, w.cache.view h = .ok v ∧ v.valid = true) →
        a = .bytes (blocks b).toList
  | .guardRead name, a => ∀ h b, w.guards.find? name = some h → w.cache.Refers h b →
      w.cache.Serves b → (∃ v, w.cache.view h = .ok v ∧ v.valid = true) →
        a = .bytes (blocks b).toList
  | .flush scope, _ => ∀ b, scope.covers b.device = true → w.cache.Serves b →
      w.cache.stored b = blocks b
  | _, _ => True

/-! ## Promises -/

/-- What a suspended call relies on. -/
inductive Promise (g : Geometry) : Shape → Type where
  /-- Others may have run. -/
  | resumed : Promise g .unit
  /-- Nothing gave way. -/
  | still : Promise g .unit
  /-- Buffer `i` was locked. -/
  | claimed (i : g.Buffer) : Promise g .unit
  /-- An operation on buffer `i` was carried out. -/
  | issued (op : Operation) (i : g.Buffer) : Promise g .unit
  /-- A flush was carried out. -/
  | flushed (scope : Scope) : Promise g .unit
  /-- There is a truth value. -/
  | told : Promise g .flag
  /-- There is a reference to the buffer of block `b`. -/
  | buffer (b : Block) : Promise g .hold
  /-- The same, unless the block is not in the cache. -/
  | found (b : Block) : Promise g .found
  /-- There is a reference to the buffer of block `b`, with its bytes. -/
  | bytes (b : Block) : Promise g .fetched
  /-- The blocks `numbers` of device `d` were read into `page`. -/
  | page (d : DeviceNumber) (numbers : List BlockNumber) (page : List UInt8) : Promise g .page
  /-- A command is answered. -/
  | answer (c : Command) : Promise g .reply

namespace Promise

/-- Whether a promise is kept without giving way. -/
def quiet {s : Shape} : Promise g s → Bool
  | .still | .claimed _ | .issued _ _ => true
  | _ => false

/-- Whether a promise is to answer a command. -/
def answers {s : Shape} : Promise g s → Bool
  | .answer _ => true
  | _ => false

/-- The command that is to be answered is the last that was asked. -/
def Heads {s : Shape} (asked : List Command) : Promise g s → Prop
  | .answer c => asked.head? = some c
  | _ => True

/-- A value keeps a promise. -/
def Met (a : Image) (w : World g) : {s : Shape} → Promise g s → s.Value g → Prop
  | _, .resumed, _ => w.cache.Settled a
  | _, .still, _ => w.cache.Settled a
  | _, .claimed i, _ => a.stage = .idle ∧ w.cache.Claims a.blocks i
  | _, .issued op i, _ => w.cache.Settled a ∧
      (op.direction = .read → ∀ b, (w.cache.header i).content = some b → w.cache.Fresh i b) ∧
      (op.direction = .write → (w.cache.header i).dirty = false)
  | _, .flushed scope, _ => w.cache.Settled a ∧ w.cache.Swept scope []
  | _, .told, _ => w.cache.Settled a
  | _, .buffer b, h => w.cache.Settled a ∧ w.cache.resolve h.handle = .ok h.buffer ∧
      (w.cache.header h.buffer).content = some b
  | _, .found b, v => w.cache.Settled a ∧ ∀ h, v = some h →
      w.cache.resolve h.handle = .ok h.buffer ∧ (w.cache.header h.buffer).content = some b
  | _, .bytes b, v => w.cache.Settled a ∧ (w.cache.Serves b → ∃ h, v = .ok h) ∧
      ∀ h, v = .ok h → w.cache.resolve h.handle = .ok h.buffer ∧
        (w.cache.header h.buffer).content = some b ∧ (w.cache.header h.buffer).valid = true
  | _, .page d numbers old, v => w.cache.Settled a ∧
      (blocksPerPage * blockSize ≤ old.length → World.distinctCount numbers ≤ g.buffers →
        ∃ chunks, v.2 = World.overlay chunks old ∧ w.cache.Shows a.blocks d numbers chunks ∧
          ((∀ n ∈ numbers, w.cache.Supplies d n) → v.1 = .ok ()))
  | _, .answer command, v => w.cache.Stands a ∧ command.Agrees a.blocks w v

end Promise

/-- A call that is to begin keeps a promise. -/
def Call.Keeps (a : Image) (c : Cache g) : {s : Shape} → Call g s → Promise g s → Prop
  | _, .sleep _ _, p => c.Settled a ∧ p = .resumed
  | _, .play _, p => c.Stands a ∧ p = .resumed
  | _, .awaitUnlock _, p => c.Settled a ∧ p = .still
  | _, .lock i, p => c.Settled a ∧ p = .claimed i
  | _, .lookUp b, p => c.Settled a ∧ p = .found b
  | _, .acquire b, p => c.Settled a ∧ p = .buffer b
  | _, .obtain b, p => c.Settled a ∧ p = .buffer b
  | _, .release _, p => c.Settled a ∧ p = .still
  | _, .fetch b, p => c.Settled a ∧ p = .bytes b
  | _, .fetchAhead b _, p => c.Settled a ∧ p = .bytes b
  | _, .readAhead h _ _, p => c.Settled a ∧ ∃ b, p = .bytes b ∧ c.Fresh h.buffer b
  | _, .settle h, p => c.Settled a ∧ ∃ b, p = .bytes b ∧ c.Fresh h.buffer b
  | _, .fetchPage d numbers page, p => c.Settled a ∧ p = .page d numbers page
  | _, .gather d numbers held page, p => c.Settled a ∧
      ∃ seen, p = .page d (seen ++ numbers) page ∧ c.Gathered d seen held
  | _, .collect held chunks failed page, p => c.Settled a ∧
      ∃ d seen numbers, p = .page d (seen ++ numbers) page ∧ c.Gathered d numbers held ∧
        c.Copied a.blocks d seen chunks failed
  | _, .issue op h, p => c.Settled a ∧ ∀ i, c.resolve h = .ok i → p = .issued op i
  | _, .request op i, p => c.Settled a ∧ p = .issued op i
  | _, .start m, p => c.Settled a ∧ p = .still ∨ a.stage = .idle ∧ ∃ op b i,
      p = .issued op i ∧ b.device.major = m ∧ c.Moves a.blocks op.direction b i
  | _, .serve m, p => c.Settled a ∧ p = .still ∨ a.stage = .idle ∧ ∃ op b i,
      p = .issued op i ∧ b.device.major = m ∧ c.Moves a.blocks op.direction b i
  | _, .flush scope, p => c.Settled a ∧ p = .flushed scope
  | _, .flushRounds scope rounds _, p => c.Settled a ∧ p = .flushed scope ∧
      (rounds = 0 → c.Swept scope [])
  | _, .flushBuffers scope rounds _ rest, p => c.Settled a ∧ p = .flushed scope ∧
      (rounds = 0 → c.Swept scope rest)
  | _, .checkMedium _, p => c.Settled a ∧ p = .told
  | _, .perform command, p => c.Stands a ∧ p = .answer command
  | _, .enqueue _ _ _ _, _ | _, .discard _, _ | _, .discardBuffers _ _, _
  | _, .drain _ _ _ _, _ => False

/-- A suspended call relies on the promise `p` and will keep the promise `p'`. -/
def Frame.Turns (blocks : Contents) (c : Cache g) : {a s : Shape} → Frame g a s →
    Promise g a → Promise g s → Prop
  | _, _, .sleeping _ _, p, p' => p = .resumed ∧ p' = .resumed
  | _, _, .playing _, _, p' => p' = .resumed
  | _, _, .pinning b _, p, p' => p = .still ∧ p' = .found b
  | _, _, .lookingUp b, p, p' => p = .found b ∧ p' = .buffer b
  | _, _, .starving b, p, p' => p = .resumed ∧ p' = .buffer b
  | _, _, .awaitingVictim b _, p, p' => p = .still ∧ p' = .buffer b
  | _, _, .flushingVictim b _, p, p' => (∃ scope, p = .flushed scope) ∧ p' = .buffer b
  | _, _, .releasing _ _, p, p' => p = .still ∧ p' = .still
  | _, _, .fetching, p, p' => ∃ b, p = .buffer b ∧ p' = .bytes b
  | _, _, .fetchIssuing h, p, p' => ∃ b, p = .issued .read h.buffer ∧ p' = .bytes b ∧
      (c.header h.buffer).content = some b
  | _, _, .settling h, p, p' => ∃ b, p = .still ∧ p' = .bytes b ∧ c.Fresh h.buffer b
  | _, _, .unwinding _, p, p' => ∃ b, p = .still ∧ p' = .bytes b ∧ ¬ c.Serves b
  | _, _, .fetchingFirst _ _, p, p' => ∃ b, p = .buffer b ∧ p' = .bytes b
  | _, _, .issuingFirst h _ _, p, p' => ∃ b, p = .issued .read h.buffer ∧ p' = .bytes b ∧
      (c.header h.buffer).content = some b
  | _, _, .fetchingAhead h _ _, p, p' => ∃ b b', p = .buffer b' ∧ p' = .bytes b ∧
      c.Fresh h.buffer b
  | _, _, .issuingAhead h t _ _, p, p' => ∃ b, p = .issued .readAhead t.buffer ∧
      p' = .bytes b ∧ c.Fresh h.buffer b
  | _, _, .gathering d numbers held page, p, p' => ∃ seen n, p = .buffer ⟨d, n⟩ ∧
      p' = .page d (seen ++ n :: numbers) page ∧ n ≠ 0 ∧ c.Gathered d seen held
  | _, _, .gatherIssuing d numbers held page, p, p' => ∃ seen n held' h,
      held = held' ++ [some h] ∧ p = .issued .read h.buffer ∧
      p' = .page d (seen ++ n :: numbers) page ∧ n ≠ 0 ∧ c.Gathered d seen held' ∧
      (c.header h.buffer).content = some ⟨d, n⟩
  | _, _, .collecting h held chunks failed page, p, p' => ∃ d seen n numbers, p = .still ∧
      p' = .page d (seen ++ n :: numbers) page ∧ n ≠ 0 ∧ c.Fresh h.buffer ⟨d, n⟩ ∧
      c.Gathered d numbers held ∧ c.Copied blocks d seen chunks failed
  | _, _, .collected held chunks failed page, p, p' => ∃ d seen numbers, p = .still ∧
      p' = .page d (seen ++ numbers) page ∧ c.Gathered d numbers held ∧
      c.Copied blocks d seen chunks failed
  | _, _, .locking op i d, p, p' => p = .claimed i ∧ p' = .issued op i ∧
      (c.header i).device = d ∧ (c.driver? d.major).isSome = true
  | _, _, .announcing scope _ _, p, p' => p = .resumed ∧ p' = .flushed scope
  | _, _, .flushAwaiting scope rounds _ i rest, p, p' => p = .still ∧ p' = .flushed scope ∧
      (rounds = 0 → c.Swept scope (i :: rest))
  | _, _, .flushWriting scope rounds _ rest, p, p' => ∃ i, p = .issued .write i ∧
      p' = .flushed scope ∧ (rounds = 0 → c.Swept scope (i :: rest))
  | _, _, .keepHold name, p, p' => ∃ b, p = .buffer b ∧ p' = .answer (.acquire b name)
  | _, _, .keepFound name, p, p' => ∃ b, p = .found b ∧ p' = .answer (.lookUp b name)
  | _, _, .keepFetched name, p, p' => ∃ b, p = .bytes b ∧
      (p' = .answer (.fetch b name) ∨ ∃ ahead, p' = .answer (.fetchAhead b ahead name))
  | _, _, .guardHold name, p, p' => ∃ b, p = .buffer b ∧ p' = .answer (.guardAcquire b name)
  | _, _, .guardFetched name, p, p' => ∃ b, p = .bytes b ∧ p' = .answer (.guardFetch b name)
  | _, _, .filling byte, p, p' => ∃ b, p = .buffer b ∧ p' = .answer (.put b byte)
  | _, _, .touching, p, p' => ∃ b, p = .buffer b ∧ p' = .answer (.touch b)
  | _, _, .answering a, p, p' => (∀ i, p ≠ .claimed i) ∧ ∃ command, p' = .answer command ∧
      ((∀ blocks (w : World g), command.Agrees blocks w a) ∨
        ∃ scope, command = .flush scope ∧ p = .flushed scope)
  | _, _, .answerFlag, p, p' => ∃ d, p = .told ∧ p' = .answer (.checkMedium d)
  | _, _, .answerPage, p, p' => ∃ d numbers length fill,
      p = .page d numbers.toList (List.replicate length fill) ∧
      p' = .answer (.fetchPage d numbers length fill)
  | _, _, .awaitingUnlock _, _, _ | _, _, .awaitingLock _, _, _
  | _, _, .awaitingVacancy _ _ _ _, _, _ | _, _, .discardAwaiting _ _ _, _, _
  | _, _, .mediumAnnouncing _, _, _ | _, _, .mediumDiscarding, _, _ => False

/-! ## Suspended calls -/

/-- The commands that have no answer yet, once a call began. -/
def Call.asked {s : Shape} (asked : List Command) : Call g s → List Command
  | .perform command => command :: asked
  | _ => asked

/-- The commands that have no answer yet, once a suspended call was given its value. -/
def Frame.asked {a s : Shape} (asked : List Command) : Frame g a s → List Command
  | .playing _ => asked.tail
  | _ => asked

/-- The suspended calls rely on a promise, in order to answer the commands that have no
answer yet. -/
def Stack.Owes (blocks : Contents) (c : Cache g) : {s : Shape} → Stack g s → Promise g s →
    List Command → Prop
  | _, .bottom, p, asked => p.Heads asked
  | _, .push f rest, p, asked => p.Heads asked ∧
      ∃ p', f.Turns blocks c p p' ∧ rest.Owes blocks c p' (f.asked asked)

theorem Stack.Owes.heads {blocks : Contents} {c : Cache g} {s : Shape} {stack : Stack g s}
    {p : Promise g s} {asked : List Command} (h : stack.Owes blocks c p asked) :
    p.Heads asked := by
  cases stack with
  | bottom => exact h
  | push f rest => exact h.1

/-- What is referenced in calls has references. -/
def Cache.Covers (c : Cache g) (stakes : Multiset (Stake g)) : Prop :=
  ∀ h : Hold g, .hold h.handle ∈ stakes → (c.header h.buffer).references ≠ 0

theorem Accounted.covers {ledger : List Reference} {c : Cache g} {stakes : Multiset (Stake g)}
    (h : Accounted ledger c stakes) : c.Covers stakes :=
  fun _ hs => h.references_of_counts hs rfl

namespace Cache

variable {c c' : Cache g} {blocks : Contents} {d : DeviceNumber} {b : Block} {i : g.Buffer}

theorem Covers.left {stakes stakes' : Multiset (Stake g)} (h : c.Covers (stakes + stakes')) :
    c.Covers stakes :=
  fun r hr => h r (Multiset.mem_add.mpr (.inl hr))

theorem Covers.right {stakes stakes' : Multiset (Stake g)} (h : c.Covers (stakes + stakes')) :
    c.Covers stakes' :=
  fun r hr => h r (Multiset.mem_add.mpr (.inr hr))

theorem Covers.single {h : Hold g} (hc : c.Covers {.hold h.handle}) :
    (c.header h.buffer).references ≠ 0 :=
  hc h (Multiset.mem_singleton_self _)

theorem Fresh.later (h : c.Fresh i b) (hc : c.Later c') (hi : (c.header i).references ≠ 0) :
    c'.Fresh i b := by
  refine ⟨(hc.content i hi).trans h.1, fun hs => ?_⟩
  have hs' := (hc.serves b).mp hs
  exact hc.valid i b hi h.1 hs' (h.2 hs')

theorem Gathered.later {numbers : List BlockNumber} {held : Held g}
    (h : c.Gathered d numbers held) (hc : c.Later c') (hheld : c.Covers (stakesOf held)) :
    c'.Gathered d numbers held := by
  induction numbers generalizing held with
  | nil =>
    cases held with
    | nil => trivial
    | cons o held => cases o <;> exact h
  | cons n numbers ih =>
    match held with
    | [] => exact h
    | none :: held => exact ⟨h.1, ih h.2 hheld.right⟩
    | some t :: held =>
      exact ⟨h.1, h.2.1.later hc hheld.left.single, ih h.2.2 hheld.right⟩

theorem Copied.later {numbers : List BlockNumber} {chunks : List Page} {failed : Bool}
    (h : c.Copied blocks d numbers chunks failed) (hc : c.Later c') :
    c'.Copied blocks d numbers chunks failed := by
  have hsupplies {n : BlockNumber} (hs : c'.Supplies d n) : c.Supplies d n :=
    fun hn => (hc.serves _).mp (hs hn)
  refine ⟨h.shows.imp fun n chunk hchunk hs => hchunk (hsupplies hs), fun hs => ?_⟩
  exact h.complete fun n hn => hsupplies (hs n hn)

theorem device_congr {j : g.Buffer} (h : (c'.header j).content = (c.header j).content) :
    (c'.header j).device = (c.header j).device := by
  rw [Header.device, Header.device, h]

/-- One buffer less is left for a flush, if it is clean or does not fall under it. -/
theorem Swept.tail {scope : Scope} {rest : List g.Buffer} (h : c.Swept scope (i :: rest))
    (hi : scope.covers (c.header i).device = true → (c.header i).dirty = false) :
    c.Swept scope rest := by
  intro j hj hcovers
  by_cases hij : j = i
  · subst hij
    exact hi hcovers
  · exact h j (List.not_mem_cons_of_ne_of_not_mem hij hj) hcovers

theorem Swept.quietly {scope : Scope} {rest : List g.Buffer} (h : c.Swept scope rest)
    (hc : c.Quietly c') : c'.Swept scope rest := by
  intro j hj hcovers
  rw [device_congr (hc.content j)] at hcovers
  exact hc.dirty j (h j hj hcovers)

end Cache

variable {a s : Shape} {f : Frame g a s} {p : Promise g a} {p' : Promise g s}
  {blocks blocks' : Contents} {c c' : Cache g}

/-- What keeps its promise without giving way waits only for what does so too. -/
theorem Frame.Turns.quiet (h : f.Turns blocks c p p') (hp : p'.quiet = true) :
    p.quiet = true := by
  cases f <;> grind [Frame.Turns, Promise.quiet]

/-- What a suspended call has found out stays true while what it waits for runs. -/
theorem Frame.Turns.later (h : f.Turns blocks c p p') (hc : c.Since p.quiet c')
    (hblocks : p.quiet = true → blocks' = blocks) {client : Bool}
    (hcovers : c.Covers (f.stakes client)) : f.Turns blocks' c' p p' := by
  obtain ⟨hlater, hquietly⟩ := hc
  cases f with
  | fetchIssuing t =>
    obtain ⟨b, hp, hp', hb⟩ := h
    exact ⟨b, hp, hp', (hlater.content _ hcovers.single).trans hb⟩
  | settling t =>
    obtain ⟨b, hp, hp', hb⟩ := h
    exact ⟨b, hp, hp', hb.later hlater hcovers.single⟩
  | unwinding e =>
    obtain ⟨b, hp, hp', hb⟩ := h
    exact ⟨b, hp, hp', fun hs => hb ((hlater.serves b).mp hs)⟩
  | issuingFirst t d ahead =>
    obtain ⟨b, hp, hp', hb⟩ := h
    exact ⟨b, hp, hp', (hlater.content _ hcovers.single).trans hb⟩
  | fetchingAhead t d ahead =>
    obtain ⟨b, b', hp, hp', hb⟩ := h
    exact ⟨b, b', hp, hp', hb.later hlater hcovers.single⟩
  | issuingAhead t t' d ahead =>
    obtain ⟨b, hp, hp', hb⟩ := h
    exact ⟨b, hp, hp', hb.later hlater hcovers.right.single⟩
  | gathering d numbers held page =>
    obtain ⟨seen, n, hp, hp', hn, hheld⟩ := h
    exact ⟨seen, n, hp, hp', hn, hheld.later hlater hcovers⟩
  | gatherIssuing d numbers held page =>
    obtain ⟨seen, n, held', t, rfl, hp, hp', hn, hheld, hb⟩ := h
    have hboth : c.Covers (stakesOf held' + stakesOf [some t]) := by
      rw [← stakesOf_append]
      exact hcovers
    have ht : c.Covers ({.hold t.handle} + 0) := hboth.right
    exact ⟨seen, n, held', t, rfl, hp, hp', hn, hheld.later hlater hboth.left,
      (hlater.content _ ht.left.single).trans hb⟩
  | collecting t held chunks failed page =>
    obtain ⟨d, seen, n, numbers, rfl, hp', hn, hb, hheld, hchunks⟩ := h
    rw [hblocks rfl]
    exact ⟨d, seen, n, numbers, rfl, hp', hn, hb.later hlater hcovers.left.single,
      hheld.later hlater hcovers.right, hchunks.later hlater⟩
  | collected held chunks failed page =>
    obtain ⟨d, seen, numbers, rfl, hp', hheld, hchunks⟩ := h
    rw [hblocks rfl]
    exact ⟨d, seen, numbers, rfl, hp', hheld.later hlater hcovers, hchunks.later hlater⟩
  | locking op i d =>
    obtain ⟨rfl, hp', hd, hdriver⟩ := h
    have hq := hquietly rfl
    exact ⟨rfl, hp', (Cache.device_congr (hq.content i)).trans hd, (hq.drives _).trans hdriver⟩
  | flushAwaiting scope rounds writes i rest =>
    obtain ⟨rfl, hp', hswept⟩ := h
    exact ⟨rfl, hp', fun hr => (hswept hr).quietly (hquietly rfl)⟩
  | flushWriting scope rounds writes rest =>
    obtain ⟨i, rfl, hp', hswept⟩ := h
    exact ⟨i, rfl, hp', fun hr => (hswept hr).quietly (hquietly rfl)⟩
  | _ => exact h

/-- The same holds of all suspended calls together. -/
theorem Stack.Owes.later {s : Shape} {stack : Stack g s} {p : Promise g s}
    {asked : List Command} (h : stack.Owes blocks c p asked) (hc : c.Since p.quiet c')
    (hblocks : p.quiet = true → blocks' = blocks) (hcovers : c.Covers stack.stakes) :
    stack.Owes blocks' c' p asked := by
  induction stack generalizing asked with
  | bottom => exact h
  | push f rest ih =>
    obtain ⟨hheads, p', hturns, howes⟩ := h
    refine ⟨hheads, p', hturns.later hc hblocks hcovers.left, ?_⟩
    exact ih howes ⟨hc.1, fun hp => hc.2 (hturns.quiet hp)⟩ (fun hp => hblocks (hturns.quiet hp))
      hcovers.right

end BufferCache
