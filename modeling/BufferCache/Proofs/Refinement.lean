import BufferCache.Proofs.StepDeliveries

/-!
# The cache over disks refines an array of blocks

Where every driver is a disk in memory, the cache and the disks together are an array of
blocks.  Clients see the contents of a block in its buffer, whichever buffer that is at the
time and however often the block was evicted and read again; and after a flush they are on
the disk.

A `Diary` is what is recorded beside a run: the references that clients have, what the
blocks are to contain, and the commands that have no answer yet.  The blocks of the diary
change only with what clients write, and are not read off the cache.  The runs of
`Conduct.careful` are those in which clients use references of their own, and change a
block in one go.

The invariant `Machine.Faithful` says that the call which is to begin keeps a promise, or
that the value which is given does, and that the suspended calls rely on this promise in
order to answer the commands in the diary.  `Careful.refines` draws the consequences for
the blocks in the cache, the blocks on the disks, and the answers.
-/

namespace BufferCache

variable {g : Geometry}

/-! ## Careful clients -/

/-- What is recorded beside a run. -/
structure Diary where
  /-- The references of clients. -/
  ledger : List Reference
  /-- What the blocks are to contain. -/
  image : Image
  /-- The commands that have no answer yet, the last one first. -/
  asked : List Command

namespace Machine

/-- Whether the next step is permitted at some stage of a change. -/
def permitted (stage : Stage) : Machine g → Bool
  | ⟨w, _, .run d, _⟩ => d.permitted stage w
  | _ => true

/-- The image after the next step. -/
def image (ledger : List Reference) (a : Image) : Machine g → Image
  | ⟨w, _, .run d, _⟩ => d.image ledger w a
  | ⟨w, _, .give v, .push f _⟩ => f.image v w a
  | _ => a

/-- The commands that have no answer yet after the next step. -/
def asked (asked : List Command) : Machine g → List Command
  | ⟨_, _, .run d, _⟩ => d.asked asked
  | ⟨_, _, .give _, .push f _⟩ => f.asked asked
  | _ => asked.tail

/-- The diary after the next step. -/
def diary (r : Diary) (m : Machine g) : Diary where
  ledger := m.ledger r.ledger
  image := m.image r.ledger r.image
  asked := m.asked r.asked

end Machine

/-- The conduct of careful clients: they have the references that they need, more often
than they are giving them back already, and change blocks in one go. -/
def Conduct.careful (g : Geometry) : Conduct g Diary where
  permits r m := (∀ h, m.demands = some h →
    m.stakes.count (.departing h) < r.ledger.countP fun t => t.handle = h) ∧
      m.permitted r.image.stage = true
  record r m := m.diary r

instance (r : Diary) (m : Machine g) : Decidable ((Conduct.careful g).permits r m) :=
  inferInstanceAs (Decidable ((∀ h, m.demands = some h → _) ∧ _))

/-- A new cache over disks. -/
structure World.Prepared (w : World g) : Prop where
  /-- The cache is new, apart from its drivers. -/
  new : w.cache = { Cache.initial g with drivers := w.cache.drivers }
  /-- All drivers are disks in memory, registered under their own majors. -/
  disks : w.cache.Disks

/-- The diary of a new cache: nobody has a reference, and the blocks contain what is stored
on the disks. -/
def Diary.new (w : World g) : Diary where
  ledger := []
  image := { blocks := w.cache.stored, stage := .idle }
  asked := []

theorem World.prepared_initial (g : Geometry) : (World.initial g).Prepared where
  new := rfl
  disks m d hd := by
    have hnone : (World.initial g).cache.driver? m = none := by
      show ((Vector.replicate majorCount none)[m]?).join = none
      rw [Vector.getElem?_replicate]
      split <;> rfl
    rw [hnone] at hd
    cases hd

/-- Disks are added by registering them under their own majors. -/
theorem World.Prepared.register {w w' : World g} (h : w.Prepared) {m : Nat} {disk : MemoryDisk}
    {starts : List Script} (hw : w.register m ⟨m, .disk disk⟩ starts = .ok w') : w'.Prepared := by
  unfold World.register at hw
  cases hc : w.cache.register m ⟨m, .disk disk⟩ with
  | error f =>
    rw [hc] at hw
    cases hw
  | ok c =>
    rw [hc] at hw
    cases hw
    obtain ⟨hm, -, -, rfl⟩ := Cache.register_eq_ok hc
    have hnew := congrArg (fun c => c.setDriver m ⟨m, .disk disk⟩) h.new
    exact ⟨hnew, h.disks.setDriver hm rfl rfl⟩

/-- The buffers of a new cache are empty. -/
theorem World.Prepared.header_eq {w : World g} (h : w.Prepared) (i : g.Buffer) :
    w.cache.header i = (Buffers.initial g).header i := by
  rw [h.new]
  rfl

/-- What the blocks contain is what is stored on the disks. -/
theorem World.Prepared.mirrors {w : World g} (h : w.Prepared) :
    w.cache.Mirrors w.cache.stored := by
  have hempty (i : g.Buffer) : (w.cache.header i).content = none := by
    rw [h.header_eq, Buffers.header_initial]
  refine ⟨h.disks, fun i => ?_, ?_, fun i b hi => ?_, fun i b hi => ?_, fun b _ _ _ _ => rfl⟩
  · rw [h.header_eq, Buffers.header_initial]
  · rw [h.new]
    exact RequestTable.empty_initial g
  · rw [hempty] at hi
    cases hi
  · rw [hempty] at hi
    cases hi

/-- Careful clients of a new cache over disks come to this machine, with this diary. -/
def Machine.Careful (r : Diary) (m : Machine g) : Prop :=
  (Conduct.careful g).Run (fun w r => w.Prepared ∧ r = Diary.new w) r m

/-! ## The invariant -/

namespace Machine

/-- The call that is to begin keeps a promise, or the value that is given does, and the
suspended calls rely on that. -/
def Faithful (r : Diary) : Machine g → Prop
  | ⟨w, _, .run d, stack⟩ => ∃ p, d.Keeps r.image w.cache p ∧
      stack.Owes r.image.blocks w.cache p (d.asked r.asked)
  | ⟨w, _, .give v, stack⟩ => ∃ p, p.Met r.image w v ∧
      stack.Owes r.image.blocks w.cache p r.asked

section Faithful

variable {s : Shape} {a : Image} {w : World g} {asked : List Command} {r : Diary}
  {m m' : Machine g}

/-- Only a script waits for an answer. -/
theorem asked_of_turns {b : Shape} {d : Call g b} {f : Frame g b s} {p : Promise g s}
    {p' : Promise g b} (hd : d.Keeps a w.cache p') (hf : f.Turns a.blocks w.cache p' p) :
    f.asked (d.asked asked) = asked := by
  by_cases hp : p'.answers = true
  · cases p' with
    | answer command =>
      cases d with
      | perform command' =>
        cases f with
        | playing script => rfl
      | drain m pattern upcoming ended => exact hd.elim
    | _ => cases hp
  · rw [Call.asked_of_keeps hd (Bool.eq_false_of_not_eq_true hp)]
    cases f with
    | playing script =>
      cases p' with
      | answer command => exact absurd rfl hp
    | _ => rfl

/-- What comes next keeps the promise that the suspended calls rely on. -/
theorem faithful_next {n : Next g s} {p : Promise g s} {stack : Stack g s}
    (hn : n.Keeps r.image w p) (howes : stack.Owes r.image.blocks w.cache p r.asked) :
    (n.machine w stack).Faithful r := by
  cases n with
  | done v => exact ⟨p, hn, howes⟩
  | goto d =>
    obtain ⟨hp, hd⟩ := hn
    refine ⟨p, hd, ?_⟩
    rw [Call.asked_of_keeps hd hp]
    exact howes
  | call d f =>
    obtain ⟨p', hd, hf⟩ := hn
    refine ⟨p', hd, Call.heads_of_keeps hd, p, hf, ?_⟩
    rw [asked_of_turns hd hf]
    exact howes

/-- A permitted step keeps all promises. -/
theorem Steps.faithful (h : m.Steps m') (hp : (Conduct.careful g).permits r m)
    (hchained : m.world.cache.buffers.Chained fun _ => True)
    (ha : Accounted r.ledger m.world.cache m.stakes) (hf : m.Faithful r) :
    m'.Faithful (m.diary r) := by
  obtain ⟨hdemands, hpermitted⟩ := hp
  cases h with
  | @begin s w w' d n stack hn =>
    obtain ⟨p, hd, howes⟩ := hf
    have howned (t : Handle) (ht : d.demands w = some t) : ∃ b i, w.cache.Owns r.ledger t b i :=
      ha.owns (Nat.zero_lt_of_lt (hdemands t ht))
    obtain ⟨hnext, hsince⟩ := Call.begin_delivers hd hpermitted howned hchained w' n hn
    have hblocks (hq : p.quiet = true) : (d.image r.ledger w r.image).blocks = r.image.blocks := by
      rw [Call.image_of_quiet hd hq]
    exact faithful_next hnext (howes.later hsince hblocks ha.covers.right)
  | @resume b s w w' f v n stack hn =>
    obtain ⟨p, hv, -, p', hturns, howes⟩ := hf
    obtain ⟨hnext, hsince⟩ := Frame.resume_delivers hturns hv hchained ha w' n hn
    have hblocks (hq : p'.quiet = true) : (f.image v w r.image).blocks = r.image.blocks :=
      Frame.image_of_quiet hturns hq
    exact faithful_next hnext (howes.later hsince hblocks ha.covers.right.right)

/-- What holds in every session of careful clients. -/
structure Sound (r : Diary) (m : Machine g) : Prop where
  /-- Calls get buffers for blocks of devices only. -/
  aimed : m.Aimed
  /-- The index is in order. -/
  chained : m.world.cache.buffers.Chained fun _ => True
  /-- All references are counted. -/
  accounted : Accounted r.ledger m.world.cache m.stakes
  /-- All promises are kept. -/
  faithful : m.Faithful r

theorem sound_start (waiting : List Script) (c : Command) (h : w.Prepared) :
    (start (w.fresh waiting) c).Sound (Diary.new w) where
  aimed := ⟨trivial, trivial⟩
  chained := by
    show w.cache.buffers.Chained fun _ => True
    rw [h.new]
    exact Buffers.chained_initial g
  accounted := by
    refine (accounted_initial g).congr ⟨fun i => ?_, fun i => ?_, fun i => ?_⟩
    · exact congrArg Header.content (h.header_eq i)
    · exact congrArg Header.generation (h.header_eq i)
    · exact congrArg Header.references (h.header_eq i)
  faithful := by
    have hsettled : w.cache.Settled (Diary.new w).image := ⟨rfl, h.mirrors⟩
    exact ⟨.answer c, ⟨hsettled.stands, rfl⟩, rfl⟩

theorem Sound.steps (hm : m.Sound r) (hp : (Conduct.careful g).permits r m) (h : m.Steps m') :
    m'.Sound (m.diary r) where
  aimed := (h.affects hm.aimed).2
  chained := h.chained hm.aimed hm.chained
  accounted := h.keepsAccount hm.aimed hm.chained hp.1 hm.accounted
  faithful := h.faithful hp hm.chained hm.accounted hm.faithful

/-- The next command begins with the references and the blocks that the last one left. -/
theorem Sound.next {x : Answer} (hm : Sound r ⟨w, .reply, .give x, .bottom⟩)
    (waiting : List Script) (c : Command) :
    (start (w.fresh waiting) c).Sound (diary r ⟨w, .reply, .give x, .bottom⟩) where
  aimed := ⟨trivial, trivial⟩
  chained := hm.chained
  accounted := hm.accounted
  faithful := by
    obtain ⟨p, hv, -⟩ := hm.faithful
    cases p with
    | answer command => exact ⟨.answer c, ⟨hv.1, rfl⟩, rfl⟩

theorem Careful.sound (h : m.Careful r) : m.Sound r := by
  refine Conduct.Run.invariant (fun w r waiting c hw => ?_) (fun r m m' hm hp hs => ?_)
    (fun r w x waiting c hm => ?_) h
  · obtain ⟨hprepared, rfl⟩ := hw
    exact sound_start waiting c hprepared
  · exact hm.steps hp hs
  · exact hm.next waiting c

end Faithful
end Machine

/-! ## What the array is good for -/

/-- The handle behind which a block is being changed. -/
def Stage.handle? : Stage → Option Handle
  | .idle => none
  | .filled h | .validated h | .guarded h => some h

/-- A client is in the middle of changing the block in buffer `i`. -/
def Stage.Changes (stage : Stage) (c : Cache g) (i : g.Buffer) : Prop :=
  ∃ h, stage.handle? = some h ∧ c.resolve h = .ok i

/-- The buffers and the disks contain what the blocks are to contain. -/
structure Cache.Reflects (c : Cache g) (a : Image) : Prop where
  /-- A valid buffer contains its block, unless a client is in the middle of changing it. -/
  cached : ∀ i b, (c.header i).content = some b → c.Serves b → (c.header i).valid = true →
    ¬ a.stage.Changes c i → c.page i = a.blocks b
  /-- A block is on its disk, unless a buffer is dirty with it, or is locked while it is on
  its way, or a client is in the middle of changing it. -/
  stored : ∀ b, c.Serves b → (∀ i, (c.header i).content = some b → (c.header i).dirty = false ∧
    (c.header i).locked = false ∧ ¬ a.stage.Changes c i) → c.stored b = a.blocks b

section Reflects

variable {c : Cache g} {a : Image} {changing leaving : Option Block}

theorem Coherent.reflects (h : Coherent a.blocks changing leaving c)
    (hchained : c.buffers.Chained fun _ => True)
    (hchanging : ∀ b, changing = some b → ∃ i, (c.header i).content = some b ∧ a.stage.Changes c i)
    (hleaving : ∀ b, leaving = some b →
      ∃ i, (c.header i).content = some b ∧ (c.header i).locked = true) : c.Reflects a where
  cached i b hi hs hvalid hnot := by
    refine h.current i b hi hs (fun he => ?_) hvalid
    obtain ⟨j, hj, hchanges⟩ := hchanging b he
    obtain rfl : i = j := hchained.unique trivial trivial hi hj
    exact hnot hchanges
  stored b hs hbuffers := by
    refine h.stored b hs (fun he => ?_) (fun he => ?_) fun i hi => (hbuffers i hi).1
    · obtain ⟨j, hj, hchanges⟩ := hchanging b he
      exact (hbuffers j hj).2.2 hchanges
    · obtain ⟨j, hj, hlocked⟩ := hleaving b he
      have hunlocked := (hbuffers j hj).2.1
      rw [hlocked] at hunlocked
      cases hunlocked

theorem Cache.Stands.reflects (h : c.Stands a) (hchained : c.buffers.Chained fun _ => True) :
    c.Reflects a := by
  have hrepresents := h.represents
  -- What is being changed is in the buffer behind the handle of the change.
  have hchanges {r : Handle} {b : Block} {i : g.Buffer} (hstage : a.stage.handle? = some r)
      (hc : c.Changes a.blocks r b i) : c.Reflects a := by
    refine hc.coherent.reflects hchained (fun b' hb' => ?_) nofun
    obtain rfl : b = b' := Option.some.inj hb'
    exact ⟨i, hc.content, r, hstage, hc.resolve⟩
  cases hstage : a.stage with
  | idle =>
    rw [hstage] at hrepresents
    exact Coherent.reflects hrepresents hchained nofun nofun
  | filled r | validated r | guarded r =>
    rw [hstage] at hrepresents
    obtain ⟨b, i, hc, -⟩ := hrepresents
    exact hchanges (by rw [hstage]; rfl) hc

theorem Cache.Moves.reflects {dir : Direction} {b : Block} {i : g.Buffer}
    (h : c.Moves a.blocks dir b i) (hchained : c.buffers.Chained fun _ => True) :
    c.Reflects a := by
  refine h.coherent.reflects hchained nofun fun b' hb' => ⟨i, ?_, ?_⟩
  · cases dir with
    | read => cases hb'
    | write =>
      cases hb'
      exact h.content
  · rw [h.locked]
    exact decide_eq_true rfl

theorem Call.reflects_of_keeps {s : Shape} {d : Call g s} {p : Promise g s} (h : d.Keeps a c p)
    (hchained : c.buffers.Chained fun _ => True) : c.Reflects a := by
  cases d with
  | play script => exact h.1.reflects hchained
  | perform command => exact h.1.reflects hchained
  | start m =>
    obtain ⟨h, -⟩ | ⟨-, op, b, i, -, -, h⟩ := h
    · exact h.stands.reflects hchained
    · exact h.reflects hchained
  | serve m =>
    obtain ⟨h, -⟩ | ⟨-, op, b, i, -, -, h⟩ := h
    · exact h.stands.reflects hchained
    · exact h.reflects hchained
  | enqueue op i d number => exact h.elim
  | discard d => exact h.elim
  | discardBuffers d rest => exact h.elim
  | drain m pattern upcoming ended => exact h.elim
  | _ => exact h.1.stands.reflects hchained

theorem Promise.Met.reflects {s : Shape} {p : Promise g s} {w : World g} {v : s.Value g}
    (h : p.Met a w v) (hchained : w.cache.buffers.Chained fun _ => True) :
    w.cache.Reflects a := by
  cases p with
  | resumed => exact Cache.Stands.reflects (Cache.Settled.stands h) hchained
  | still => exact Cache.Stands.reflects (Cache.Settled.stands h) hchained
  | told => exact Cache.Stands.reflects (Cache.Settled.stands h) hchained
  | claimed i => exact h.2.coherent.reflects hchained nofun nofun
  | answer command => exact h.1.reflects hchained
  | _ => exact h.1.stands.reflects hchained

end Reflects

namespace Machine

/-- The machine refines the array of blocks in the diary. -/
structure Refines (r : Diary) (m : Machine g) : Prop where
  /-- The buffers and the disks contain what the blocks are to contain. -/
  reflects : m.world.cache.Reflects r.image
  /-- A command is given the answer that agrees with the blocks. -/
  answers : ∀ {w : World g} {x : Answer} {stack : Stack g .reply},
    m = ⟨w, .reply, .give x, stack⟩ →
      ∃ command rest, r.asked = command :: rest ∧ command.Agrees r.image.blocks w x

variable {r : Diary} {m : Machine g}

/-- In every session of careful clients on a new cache over disks, whatever other tasks do
wherever a call gives way or something is announced, the cache and the disks refine the array
of blocks that clients have written. -/
theorem Careful.refines (h : m.Careful r) : m.Refines r := by
  obtain ⟨-, hchained, -, hfaithful⟩ := h.sound
  refine ⟨?_, ?_⟩
  · obtain ⟨w, s, control, stack⟩ := m
    cases control with
    | run d =>
      obtain ⟨p, hd, -⟩ := hfaithful
      exact Call.reflects_of_keeps hd hchained
    | give v =>
      obtain ⟨p, hv, -⟩ := hfaithful
      exact hv.reflects hchained
  · rintro w x stack rfl
    obtain ⟨p, hv, howes⟩ := hfaithful
    cases p with
    | answer command =>
      obtain ⟨rest, hasked⟩ := List.head?_eq_some_iff.mp howes.heads
      exact ⟨command, rest, hasked, hv.2⟩

/-- A block that a client changed, and that made way for another. -/
theorem refines_of_eviction :
    ∃ r, ∃ m : Machine Geometry.small, m.Careful r ∧
      m.world.cache.statistics.evictions = 1 ∧ m.world.cache.statistics.writes = 1 ∧
      m.Refines r := by
  have hregister : (World.initial Geometry.small).register 1 ⟨1, .disk (.blank 1 1024)⟩ [] =
      .ok _ := rfl
  have hstart : Careful _ _ :=
    .start [] (.put ⟨257, 0⟩ 7) ⟨(World.prepared_initial _).register hregister, rfl⟩
  have hheld : Careful _ _ := (hstart.after 12).following [] (.acquire ⟨257, 1⟩ (some "h"))
  have h : Careful _ _ := ((hheld.after 8).following [] (.touch ⟨257, 2⟩)).after 43
  exact ⟨_, _, h, by decide +kernel, by decide +kernel, h.refines⟩

end Machine
end BufferCache
