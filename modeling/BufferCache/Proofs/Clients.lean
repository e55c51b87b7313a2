import BufferCache.Proofs.Deliveries
import BufferCache.Proofs.Edits

/-!
# Careful clients

A client changes a block in one go: it writes the bytes behind a handle of its own, all of
them if the buffer is not valid, and then marks the buffer as valid and as changed.  A
guard marks the buffer as changed together with the write; a guard that was made without
reading the block, and whose buffer was marked as valid on the spot, is overwritten at
once.  `Stage.permits` says which command may follow which, so that nobody else runs in
the middle of a change.  Apart from that, careful clients leave the marks alone, empty no
buffers, and leave the ending of requests to the disks.

The references that a client needs are those through which it changes a block and those
that it gives back.  `Steps.keepsAccount` shows that this is enough for the account of
references to be kept.

That the cache keeps up with the image is shown here for the commands of clients.
-/

namespace BufferCache

variable {g : Geometry}

/-! ## What clients may do -/

/-- The handle of the reference that a client has to have for a command: the command
changes the block in its buffer, or gives it back.  To look at a buffer, or to start an
operation on it, a client need not have a reference of its own. -/
def World.demands (w : World g) : Command → Option Handle
  | .release name | .fill name _ | .write name _ _ | .markDirty name | .markValid name =>
      w.handles.find? name
  | .guardWrite name _ _ | .guardDrop name => w.guards.find? name
  | _ => none

/-- Whether the buffer behind a handle is valid. -/
def World.validAt (w : World g) (h : Handle) : Bool :=
  match w.cache.view h with
  | .ok v => v.valid
  | .error _ => false

/-- Whether a command may be given while no block is being changed. -/
def World.allows (w : World g) : Command → Bool
  | .register _ _ _ | .markDirty _ | .markValid _ | .move _ _ | .finish _ _ | .drain _ _
  | .discard _ => false
  | .write name offset bytes => (w.handles.find? name).all fun h =>
      w.validAt h || offset == 0 && decide (blockSize ≤ bytes.length)
  | .guardWrite name _ _ => (w.guards.find? name).all w.validAt
  | _ => true

/-- Whether a command may be given at some stage of a change. -/
def Stage.permits (w : World g) : Stage → Command → Bool
  | .idle, c => w.allows c
  | .filled h, .markValid name => decide (w.handles.find? name = some h)
  | .validated h, .markDirty name => decide (w.handles.find? name = some h)
  | .guarded h, .guardWrite name offset bytes =>
      decide (w.guards.find? name = some h) && (offset == 0 && decide (blockSize ≤ bytes.length))
  | _, _ => false

/-- The image once a command began. -/
def Image.begin (a : Image) (ledger : List Reference) (w : World g) : Command → Image
  | .fill name byte => (w.handles.find? name).elim a fun h =>
      a.write ledger h (fun _ => Page.fill byte) (.filled h)
  | .write name offset bytes => (w.handles.find? name).elim a fun h =>
      a.write ledger h (·.write offset bytes) (.filled h)
  | .markValid name => (w.handles.find? name).elim a fun h => { a with stage := .validated h }
  | .markDirty name => (w.handles.find? name).elim a fun _ => { a with stage := .idle }
  | .guardWrite name offset bytes => (w.guards.find? name).elim a fun h =>
      a.write ledger h (·.write offset bytes) .idle
  | _ => a

/-- The image after a suspended call was given its value: a command that fills the buffer
it gets changes the block in it, and a guard that was made without reading its block is
about to. -/
def Frame.image {b s : Shape} (f : Frame g b s) (v : b.Value g) (w : World g) (a : Image) :
    Image :=
  match f with
  | .filling byte => { a with blocks := a.blocks.put (w.cache.blockOf v.buffer) (Page.fill byte) }
  | .guardHold _ => { a with stage := .guarded v.handle }
  | _ => a

/-! ## References that clients have -/

/-- The handle of the reference that a client has to have for the first step of a call. -/
def Call.demands {s : Shape} (w : World g) : Call g s → Option Handle
  | .perform command => w.demands command
  | _ => none

/-- A call whose first step only looks at what is behind a handle. -/
def Call.Looks {s : Shape} : Call g s → Prop
  | .perform (.read _) | .perform (.query _ _) | .perform (.issue _ _)
  | .perform (.guardInfo _) | .perform (.guardRead _) => True
  | _ => False

section References

variable {s : Shape} {w w' : World g} {n : Next g s} {d : Call g s}

/-- A call that does more uses just what it demands. -/
theorem Call.uses_eq_demands (hd : ¬ d.Looks) : d.uses w = d.demands w := by
  cases d with
  | perform command => cases command <;> first | rfl | exact absurd trivial hd
  | _ => rfl

theorem World.withHandle_ensures {P : World g → Next g .reply → Prop} {name : String}
    {k : Handle → Outcome g .reply} (hnone : ∀ x, P w (.done x)) (hk : ∀ r, (k r).Ensures P) :
    (w.withHandle name k).Ensures P := by
  unfold withHandle
  split
  · exact hk _
  · exact Outcome.ensures_done (hnone _)

theorem World.withGuard_ensures {P : World g → Next g .reply → Prop} {name : String}
    {k : Handle → Outcome g .reply} (hnone : ∀ x, P w (.done x)) (hk : ∀ r, (k r).Ensures P) :
    (w.withGuard name k).Ensures P := by
  unfold withGuard
  split
  · exact hk _
  · exact Outcome.ensures_done (hnone _)

/-- Whoever only looks changes nothing, and holds no reference. -/
theorem Call.begin_looks (hd : d.Looks) (client : Bool) :
    (d.begin w).Ensures fun w' n =>
      w'.cache = w.cache ∧ d.stakes client = 0 ∧ n.stakes client = 0 := by
  cases d with
  | perform command =>
    cases command with
    | read name =>
      refine World.withHandle_ensures (fun _ => ⟨rfl, rfl, rfl⟩) fun r => ?_
      exact Outcome.ensures_orFault fun p _ => Outcome.ensures_done ⟨rfl, rfl, rfl⟩
    | query name q =>
      refine World.withHandle_ensures (fun _ => ⟨rfl, rfl, rfl⟩) fun r => ?_
      exact Outcome.ensures_orFault fun v _ => Outcome.ensures_done ⟨rfl, rfl, rfl⟩
    | issue op name =>
      refine World.withHandle_ensures (fun _ => ⟨rfl, rfl, rfl⟩) fun r => ?_
      exact Outcome.ensures_call ⟨rfl, rfl, Multiset.zero_add 0⟩
    | guardInfo name =>
      refine World.withGuard_ensures (fun _ => ⟨rfl, rfl, rfl⟩) fun r => ?_
      exact Outcome.ensures_orFault fun v _ => Outcome.ensures_done ⟨rfl, rfl, rfl⟩
    | guardRead name =>
      refine World.withGuard_ensures (fun _ => ⟨rfl, rfl, rfl⟩) fun r => ?_
      exact Outcome.ensures_orFault fun p _ => Outcome.ensures_done ⟨rfl, rfl, rfl⟩
    | _ => exact hd.elim
  | _ => exact hd.elim

/-- An operation that was started was started on a good handle. -/
theorem Call.ready_of_begin (h : d.begin w = .ok (w', n)) : d.Ready w.cache := by
  cases d with
  | issue op r =>
    change World.orFault (w.cache.resolve r) _ = _ at h
    cases hr : w.cache.resolve r with
    | ok i => exact ⟨i, hr⟩
    | error f =>
      rw [hr] at h
      cases h
  | _ => trivial

end References

namespace Machine

/-- The handle of the reference that a client has to have for the next step. -/
def demands : Machine g → Option Handle
  | ⟨w, _, .run d, _⟩ => d.demands w
  | _ => none

/-- A step for which clients have the references that they need keeps the account. -/
theorem Steps.keepsAccount {m m' : Machine g} {ledger : List Reference} (h : m.Steps m')
    (haimed : m.Aimed) (hchained : m.world.cache.buffers.Chained fun _ => True)
    (hp : ∀ r, m.demands = some r →
      m.stakes.count (.departing r) < ledger.countP fun t => t.handle = r)
    (ha : Accounted ledger m.world.cache m.stakes) :
    Accounted (m.ledger ledger) m'.world.cache m'.stakes := by
  cases h with
  | @begin s w w' d n stack hn =>
    rw [stakes_next, world_next]
    by_cases hlooks : d.Looks
    · obtain ⟨hcache, hbefore, hafter⟩ := Call.begin_looks hlooks stack.answers w' n hn
      change Accounted ledger w.cache (d.stakes stack.answers + stack.stakes) at ha
      rw [hbefore] at ha
      rw [hcache, hafter]
      exact ha
    · have hready := Call.ready_of_begin hn
      have hsame := Call.uses_eq_demands (w := w) hlooks
      have huses (r : Handle) (hr : d.uses w = some r) := hp r (hsame.symm.trans hr)
      exact ((Call.begin_settles haimed.1 hready hchained huses ha).ensures w' n hn).1
  | @resume a s w w' f v n stack hn =>
    rw [stakes_next, world_next]
    exact ((Frame.resume_settles haimed.1 hchained ha).ensures w' n hn).1

end Machine

/-! ## Commands -/

namespace World

variable {a a' : Image} {w : World g} {command : Command} {ledger : List Reference}

/-- A client owns what a command demands. -/
def Owned (w : World g) (ledger : List Reference) (command : Command) : Prop :=
  ∀ h, w.demands command = some h → ∃ b i, w.cache.Owns ledger h b i

/-- A command that is answered at once, and changes nothing in the cache. -/
theorem answer_delivers {w' : World g} {v : Answer} (h : w.cache.Stands a)
    (hw : w'.cache = w.cache) (hv : command.Agrees a.blocks w' v) :
    Outcome.Delivers (@done g .reply w' v) a w.cache (.answer command) :=
  delivers_done ⟨hw.symm ▸ h, hv⟩ (since_of_eq hw _)

/-- A command that changes the cache through a handle. -/
theorem change_delivers {x : Except Fault (Cache g)}
    (hx : ∀ c, x = .ok c → c.Stands a' ∧ w.cache.Later c)
    (hcommand : ∀ w' : World g, command.Agrees a'.blocks w' .done) :
    (w.change x).Delivers a' w.cache (.answer command) :=
  delivers_orFault fun c hc => delivers_done ⟨(hx c hc).1, hcommand _⟩ ⟨(hx c hc).2, nofun⟩

/-- A command that waits for a call, and whose answer is settled. -/
theorem answering_delivers {w' : World g} {d : Call g .unit} {p : Promise g .unit} {v : Answer}
    (hw : w'.cache = w.cache) (hd : d.Keeps a w.cache p) (hp : ∀ i, p ≠ .claimed i)
    (hcommand : (∀ blocks (w : World g), command.Agrees blocks w v) ∨
      ∃ scope, command = .flush scope ∧ p = .flushed scope) :
    Outcome.Delivers (w'.call d (.answering v)) a w.cache (.answer command) :=
  delivers_call p (hw.symm ▸ hd) ⟨hp, command, rfl, hcommand⟩ (since_of_eq hw _)

theorem withHandle_delivers {name : String} {k : Handle → Outcome g .reply}
    (h : w.cache.Stands a)
    (hnone : w.handles.find? name = none → command.Agrees a.blocks w .unknownHandle)
    (hk : ∀ r, w.handles.find? name = some r → (k r).Delivers a w.cache (.answer command)) :
    (w.withHandle name k).Delivers a w.cache (.answer command) := by
  unfold withHandle
  cases hname : w.handles.find? name with
  | none => exact answer_delivers h rfl (hnone hname)
  | some r => exact hk r hname

theorem withGuard_delivers {name : String} {k : Handle → Outcome g .reply}
    (h : w.cache.Stands a)
    (hnone : w.guards.find? name = none → command.Agrees a.blocks w .unknownGuard)
    (hk : ∀ r, w.guards.find? name = some r → (k r).Delivers a w.cache (.answer command)) :
    (w.withGuard name k).Delivers a w.cache (.answer command) := by
  unfold withGuard
  cases hname : w.guards.find? name with
  | none => exact answer_delivers h rfl (hnone hname)
  | some r => exact hk r hname

theorem withDisk_delivers {m : Nat} {k : MemoryDisk → Answer} (h : w.cache.Stands a)
    (hcommand : ∀ v, command.Agrees a.blocks w v) :
    (w.withDisk m k).Delivers a w.cache (.answer command) := by
  unfold withDisk
  split
  · exact answer_delivers h rfl (hcommand _)
  · exact answer_delivers h rfl (hcommand _)

theorem validAt_eq_true {h : Handle} (hv : w.validAt h = true) :
    ∃ i, w.cache.resolve h = .ok i ∧ (w.cache.header i).valid = true := by
  unfold validAt at hv
  split at hv
  · rename_i v hview
    obtain ⟨i, hi, rfl⟩ := Cache.map_eq_ok hview
    exact ⟨i, hi, hv⟩
  · cases hv

/-- The bytes that a client sees are those of the block. -/
theorem bytes_of_read {h : Handle} {p : Page} {b : Block} (hsettled : w.cache.Settled a)
    (hread : w.cache.read h = .ok p) (hb : w.cache.Refers h b) (hs : w.cache.Serves b)
    (hv : ∃ v, w.cache.view h = .ok v ∧ v.valid = true) : p = a.blocks b := by
  obtain ⟨i, hi, rfl⟩ := Cache.map_eq_ok hread
  obtain ⟨j, hj, hcontent⟩ := hb
  obtain rfl : i = j := Cache.resolve_unique hi hj
  obtain ⟨v, hview, hvalid⟩ := hv
  obtain ⟨k, hk, rfl⟩ := Cache.map_eq_ok hview
  obtain rfl : i = k := Cache.resolve_unique hi hk
  exact hsettled.2.coherent.current i b hcontent hs nofun hvalid

/-- A client writes the bytes behind a handle. -/
theorem fill_delivers {name : String} {f : Page → Page} (h : w.cache.Settled a)
    (howned : ∀ r, w.handles.find? name = some r → ∃ b i, w.cache.Owns ledger r b i)
    (hf : ∀ r, w.handles.find? name = some r → w.validAt r = false → ∀ p p', f p = f p')
    (hcommand : ∀ blocks (w : World g) v, command.Agrees blocks w v) :
    (w.withHandle name fun r => w.change (w.cache.write r f)).Delivers
      ((w.handles.find? name).elim a fun r => a.write ledger r f (.filled r)) w.cache
      (.answer command) := by
  unfold withHandle
  cases hname : w.handles.find? name with
  | none => exact answer_delivers h.stands rfl (hcommand ..)
  | some r =>
    obtain ⟨b, i, ho⟩ := howned r hname
    refine change_delivers (fun c hc => ?_) fun _ => hcommand ..
    obtain ⟨j, hj, rfl⟩ := Cache.write_eq_ok hc
    obtain rfl : i = j := Cache.resolve_unique ho.resolve hj
    refine ⟨ho.fill h fun hvalid => hf r hname ?_, Cache.later_edit ..⟩
    unfold validAt Cache.view
    rw [ho.resolve]
    exact hvalid

/-- A client writes the bytes behind a guard, whose buffer is valid. -/
theorem guardWrite_delivers {name : String} {offset : Nat} {bytes : List UInt8}
    (h : w.cache.Stands a) (hchained : w.cache.buffers.Chained fun _ => True)
    (howned : ∀ r, w.guards.find? name = some r → ∃ b i changing, w.cache.Owns ledger r b i ∧
      Coherent a.blocks changing none w.cache ∧ (changing = none ∨ changing = some b) ∧
        (w.cache.header i).valid = true ∧ (w.cache.Serves b →
          (w.cache.page i).write offset bytes = (a.blocks b).write offset bytes)) :
    (w.perform (.guardWrite name offset bytes)).Delivers
      (a.begin ledger w (.guardWrite name offset bytes)) w.cache
      (.answer (.guardWrite name offset bytes)) := by
  show (w.withGuard name _).Delivers ((w.guards.find? name).elim a _) _ _
  unfold withGuard
  cases hname : w.guards.find? name with
  | none => exact answer_delivers h rfl trivial
  | some r =>
    obtain ⟨b, i, changing, ho, hcoherent, hchanging, hvalid, hf⟩ := howned r hname
    refine change_delivers (fun c hc => ?_) fun _ => trivial
    obtain ⟨j, hj, rfl⟩ := Cache.writeDirty_eq_ok hc
    obtain rfl : i = j := Cache.resolve_unique ho.resolve hj
    exact ⟨ho.overwrite (f := (·.write offset bytes)) h hcoherent hchanging hvalid hchained hf,
      Cache.later_edit ..⟩

/-- A command that may be given while no block is being changed. -/
theorem perform_allowed (h : w.cache.Settled a) (hallowed : w.allows command = true)
    (howned : w.Owned ledger command) (hchained : w.cache.buffers.Chained fun _ => True) :
    (w.perform command).Delivers (a.begin ledger w command) w.cache (.answer command) := by
  cases command with
  | register m d starts => cases hallowed
  | listen _ | attend _ => exact answer_delivers h.stands rfl trivial
  | acquire b name => exact call_delivers (.buffer b) ⟨h, rfl⟩ ⟨b, rfl, rfl⟩
  | lookUp b name => exact call_delivers (.found b) ⟨h, rfl⟩ ⟨b, rfl, rfl⟩
  | fetch b name =>
    exact call_delivers (.bytes b) ⟨h, rfl⟩ ⟨b, rfl, .inl rfl⟩
  | fetchAhead b ahead name =>
    exact call_delivers (.bytes b) ⟨h, rfl⟩ ⟨b, rfl, .inr ⟨ahead, rfl⟩⟩
  | fetchPage d numbers length byte =>
    exact call_delivers (.page d _ _) ⟨h, rfl⟩ ⟨d, numbers, length, byte, rfl, rfl⟩
  | release name =>
    refine withHandle_delivers h.stands (fun _ => trivial) fun r _ => ?_
    exact answering_delivers rfl ⟨h, rfl⟩ nofun (.inl fun _ _ => trivial)
  | put b byte => exact call_delivers (.buffer b) ⟨h, rfl⟩ ⟨b, rfl, rfl⟩
  | touch b => exact call_delivers (.buffer b) ⟨h, rfl⟩ ⟨b, rfl, rfl⟩
  | read name =>
    refine withHandle_delivers h.stands (fun hname r b hr => ?_) fun r hname => ?_
    · rw [hname] at hr
      cases hr
    · refine delivers_orFault fun p hp => answer_delivers h.stands rfl fun r' b hr' hb hs hv => ?_
      obtain rfl : r = r' := Option.some.inj (hname.symm.trans hr')
      have hbytes := bytes_of_read h hp hb hs hv
      exact congrArg (fun p => Answer.bytes p.toList) hbytes
  | fill name byte => exact fill_delivers h howned (fun _ _ _ _ _ => rfl) fun _ _ _ => trivial
  | write name offset bytes =>
    refine fill_delivers h howned (fun r hr hinvalid p p' => ?_) fun _ _ _ => trivial
    change (w.handles.find? name).all _ = true at hallowed
    rw [hr, Option.all_some, hinvalid, Bool.false_or, Bool.and_eq_true, beq_iff_eq,
      decide_eq_true_eq] at hallowed
    obtain ⟨rfl, hlength⟩ := hallowed
    exact Page.write_whole hlength p p'
  | markDirty name => cases hallowed
  | markValid name => cases hallowed
  | query name q =>
    refine withHandle_delivers h.stands (fun _ => trivial) fun r _ => ?_
    exact delivers_orFault fun v _ => answer_delivers h.stands rfl trivial
  | isCached b => exact answer_delivers h.stands rfl trivial
  | bufferCount => exact answer_delivers h.stands rfl trivial
  | forge name index generation => exact answer_delivers h.stands rfl trivial
  | issue op name =>
    refine withHandle_delivers h.stands (fun _ => trivial) fun r _ => ?_
    cases hr : w.cache.resolve r with
    | ok i => exact answering_delivers rfl (issue_keeps h hr) nofun (.inl fun _ _ => trivial)
    | error f =>
      -- The operation will halt everything.
      have hkeeps : (Call.issue op r).Keeps a w.cache .still := by
        refine ⟨h, fun i hi => ?_⟩
        cases hr.symm.trans hi
      exact answering_delivers rfl hkeeps nofun (.inl fun _ _ => trivial)
  | current m => exact answer_delivers h.stands rfl trivial
  | queued m => exact answer_delivers h.stands rfl trivial
  | move m byte => cases hallowed
  | finish m success => cases hallowed
  | drain m pattern => cases hallowed
  | start m =>
    unfold perform
    dsimp only
    split
    · exact answering_delivers rfl (.inl ⟨h, rfl⟩) nofun (.inl fun _ _ => trivial)
    · exact answer_delivers h.stands rfl trivial
  | flush scope => exact answering_delivers rfl ⟨h, rfl⟩ nofun (.inr ⟨scope, rfl, rfl⟩)
  | discard d => cases hallowed
  | checkMedium d => exact call_delivers .told ⟨h, rfl⟩ ⟨d, rfl, rfl⟩
  | diskInfo m => exact withDisk_delivers h.stands fun _ => trivial
  | diskRead m offset length byte => exact withDisk_delivers h.stands fun _ => trivial
  | statistics => exact answer_delivers h.stands rfl trivial
  | describe => exact answer_delivers h.stands rfl trivial
  | inspect => exact answer_delivers h.stands (cache_noteFaults w _) trivial
  | guardFetch b name => exact call_delivers (.bytes b) ⟨h, rfl⟩ ⟨b, rfl, rfl⟩
  | guardAcquire b name =>
    exact call_delivers (.buffer b) ⟨h, rfl⟩ ⟨b, rfl, rfl⟩
  | guardInfo name =>
    refine withGuard_delivers h.stands (fun _ => trivial) fun r _ => ?_
    exact delivers_orFault fun v _ => answer_delivers h.stands rfl trivial
  | guardRead name =>
    refine withGuard_delivers h.stands (fun hname r b hr => ?_) fun r hname => ?_
    · rw [hname] at hr
      cases hr
    · refine delivers_orFault fun p hp => answer_delivers h.stands rfl fun r' b hr' hb hs hv => ?_
      obtain rfl : r = r' := Option.some.inj (hname.symm.trans hr')
      have hbytes := bytes_of_read h hp hb hs hv
      exact congrArg (fun p => Answer.bytes p.toList) hbytes
  | guardWrite name offset bytes =>
    refine guardWrite_delivers h.stands hchained fun r hr => ?_
    obtain ⟨b, i, ho⟩ := howned r hr
    change (w.guards.find? name).all _ = true at hallowed
    rw [hr, Option.all_some] at hallowed
    obtain ⟨j, hj, hvalid⟩ := validAt_eq_true hallowed
    obtain rfl : i = j := Cache.resolve_unique ho.resolve hj
    refine ⟨b, i, none, ho, h.2.coherent, .inl rfl, hvalid, fun hs => ?_⟩
    rw [h.2.coherent.current i b ho.content hs nofun hvalid]
  | guardDrop name =>
    refine withGuard_delivers h.stands (fun _ => trivial) fun r _ => ?_
    exact answering_delivers rfl ⟨h, rfl⟩ nofun (.inl fun _ _ => trivial)
  | guardInto name handle =>
    exact withGuard_delivers h.stands (fun _ => trivial) fun r _ =>
      answer_delivers h.stands rfl trivial
  | guardHandle name handle =>
    exact withGuard_delivers h.stands (fun _ => trivial) fun r _ =>
      answer_delivers h.stands rfl trivial

/-- A command that may be given at this stage of a change. -/
theorem perform_delivers (h : w.cache.Stands a) (hpermits : a.stage.permits w command = true)
    (howned : w.Owned ledger command) (hchained : w.cache.buffers.Chained fun _ => True) :
    (w.perform command).Delivers (a.begin ledger w command) w.cache (.answer command) := by
  cases hstage : a.stage with
  | idle =>
    rw [hstage] at hpermits
    exact perform_allowed (h.settled hstage) hpermits howned hchained
  | filled r =>
    rw [hstage] at hpermits
    cases command with
    | markValid name =>
      have hname : w.handles.find? name = some r := decide_eq_true_eq.mp hpermits
      show (w.withHandle name _).Delivers ((w.handles.find? name).elim a _) _ _
      unfold withHandle
      rw [hname]
      refine change_delivers (fun c hc => ?_) fun _ => trivial
      obtain ⟨j, hj, rfl⟩ := Cache.markValid_eq_ok hc
      exact ⟨h.validate hstage hj, Cache.later_edit ..⟩
    | _ => cases hpermits
  | validated r =>
    rw [hstage] at hpermits
    cases command with
    | markDirty name =>
      have hname : w.handles.find? name = some r := decide_eq_true_eq.mp hpermits
      show (w.withHandle name _).Delivers ((w.handles.find? name).elim a _) _ _
      unfold withHandle
      rw [hname]
      refine change_delivers (fun c hc => ?_) fun _ => trivial
      obtain ⟨j, hj, rfl⟩ := Cache.markDirty_eq_ok hc
      exact ⟨h.conclude hstage hj hchained, Cache.later_edit ..⟩
    | _ => cases hpermits
  | guarded r =>
    rw [hstage] at hpermits
    cases command with
    | guardWrite name offset bytes =>
      change (decide (w.guards.find? name = some r) && _) = true at hpermits
      rw [Bool.and_eq_true, Bool.and_eq_true, decide_eq_true_eq, beq_iff_eq,
        decide_eq_true_eq] at hpermits
      obtain ⟨hname, rfl, hlength⟩ := hpermits
      refine guardWrite_delivers h hchained fun r' hr' => ?_
      obtain rfl : r = r' := Option.some.inj (hname.symm.trans hr')
      obtain ⟨b, i, ho⟩ := howned r hname
      have hrepresents := h.represents
      rw [hstage] at hrepresents
      obtain ⟨b', j, hchanges, hvalid⟩ := hrepresents
      obtain rfl : i = j := Cache.resolve_unique ho.resolve hchanges.resolve
      obtain rfl : b = b' := Option.some.inj (ho.content.symm.trans hchanges.content)
      exact ⟨b, i, some b, ho, hchanges.coherent, .inr rfl, hvalid, fun _ =>
        Page.write_whole hlength _ _⟩
    | _ => cases hpermits

/-! ## What a command does with the value of its call -/

variable {b : Block} {t : Hold g}

/-- A reference that a client is answered. -/
theorem refers_of_buffer (h : Promise.Met a w (.buffer b) t) : w.cache.Refers t.handle b :=
  ⟨t.buffer, h.2.1, h.2.2⟩

theorem answerHold_delivers {name : Option String} (h : Promise.Met a w (.buffer b) t)
    (hcommand : ∀ w' : World g, w'.cache = w.cache →
      command.Agrees a.blocks w' (.handle t.handle)) :
    (w.answerHold name t).Delivers a w.cache (.answer command) :=
  answer_delivers h.1.stands rfl (hcommand _ rfl)

/-- A read answers the bytes of the block, if the block is served. -/
theorem bytes_of_fetched {v : Except Failure (Hold g)} (h : Promise.Met a w (.bytes b) v)
    (hs : w.cache.Serves b) : ∃ t, v = .ok t ∧ w.cache.Refers t.handle b ∧
      w.cache.read t.handle = .ok (a.blocks b) := by
  obtain ⟨hsettled, hok, hv⟩ := h
  obtain ⟨t, rfl⟩ := hok hs
  obtain ⟨hresolve, hcontent, hvalid⟩ := hv t rfl
  refine ⟨t, rfl, ⟨t.buffer, hresolve, hcontent⟩, ?_⟩
  unfold Cache.read
  rw [hresolve]
  exact congrArg Except.ok (hsettled.2.coherent.current _ b hcontent hs nofun hvalid)

theorem answerFetched_delivers {name : Option String} {v : Except Failure (Hold g)}
    (h : Promise.Met a w (.bytes b) v)
    (hcommand : command = .fetch b name ∨ ∃ ahead, command = .fetchAhead b ahead name) :
    (w.answerFetched name v).Delivers a w.cache (.answer command) := by
  have hagrees (x : Answer) (w' : World g) (hw : w'.cache = w.cache)
      (hx : w.cache.Serves b → ∃ r, x = .handle r ∧ w.cache.Refers r b ∧
        w.cache.read r = .ok (a.blocks b)) : command.Agrees a.blocks w' x := by
    rcases hcommand with rfl | ⟨ahead, rfl⟩
    · show w'.cache.Serves b → _
      rw [hw]
      exact hx
    · show w'.cache.Serves b → _
      rw [hw]
      exact hx
  cases v with
  | ok t =>
    refine answer_delivers h.1.stands rfl (hagrees _ _ rfl fun hs => ?_)
    obtain ⟨t', ht', hb⟩ := bytes_of_fetched h hs
    cases ht'
    exact ⟨t.handle, rfl, hb⟩
  | error f =>
    refine answer_delivers h.1.stands rfl (hagrees _ _ rfl fun hs => ?_)
    obtain ⟨t, ht, -⟩ := bytes_of_fetched h hs
    cases ht

theorem guardFetched_delivers {name : String} {v : Except Failure (Hold g)}
    (h : Promise.Met a w (.bytes b) v) :
    (w.guardFetched name v).Delivers a w.cache (.answer (.guardFetch b name)) := by
  cases v with
  | ok t =>
    refine answer_delivers h.1.stands rfl fun hs => ?_
    obtain ⟨t', ht', hb⟩ := bytes_of_fetched h hs
    cases ht'
    exact ⟨t.handle, rfl, hb⟩
  | error f =>
    refine answer_delivers h.1.stands rfl fun hs => ?_
    obtain ⟨t, ht, -⟩ := bytes_of_fetched h hs
    cases ht

/-- The buffer of a guard is marked as valid: its block is going to be changed. -/
theorem guardHeld_delivers {name : String} (h : Promise.Met a w (.buffer b) t) :
    (w.guardHeld name t).Delivers { a with stage := .guarded t.handle } w.cache
      (.answer (.guardAcquire b name)) := by
  obtain ⟨hsettled, hresolve, hcontent⟩ := h
  refine delivers_orFault fun c hc => ?_
  obtain ⟨i, hi, rfl⟩ := Cache.markValid_eq_ok hc
  obtain rfl : t.buffer = i := Cache.resolve_unique hresolve hi
  have hchanges : (w.cache.edit t.buffer none true false).Changes a.blocks t.handle b t.buffer :=
    Cache.changes_edit hsettled.2.coherent (.inl rfl) hresolve hcontent fun _ _ => rfl
  have hvalid : ((w.cache.edit t.buffer none true false).header t.buffer).valid = true := by
    rw [Cache.valid_edit_self, Bool.true_or]
  have hstands : (w.cache.edit t.buffer none true false).Stands
      { a with stage := .guarded t.handle } :=
    hsettled.stands.edit ⟨b, t.buffer, hchanges, hvalid⟩
  have hlater : w.cache.Later (w.cache.edit t.buffer none true false) := Cache.later_edit ..
  exact delivers_done ⟨hstands, t.handle, rfl, t.buffer, hchanges.resolve, hchanges.content⟩
    ⟨hlater, nofun⟩

/-- A buffer is filled, marked as valid and as changed, and given back. -/
theorem fillHeld_delivers {byte : UInt8} (h : Promise.Met a w (.buffer b) t)
    (hchained : w.cache.buffers.Chained fun _ => True) :
    (w.fillHeld byte t).Delivers
      { a with blocks := a.blocks.put (w.cache.blockOf t.buffer) (Page.fill byte) } w.cache
      (.answer (.put b byte)) := by
  obtain ⟨hsettled, hresolve, hcontent⟩ := h
  rw [Cache.blockOf_eq hcontent]
  refine delivers_orFault fun c hc => ?_
  obtain ⟨i, hi, rfl⟩ := Cache.overwrite_eq_ok hc
  obtain rfl : t.buffer = i := Cache.resolve_unique hresolve hi
  have hchanges : (w.cache.edit t.buffer (some (Page.fill byte)) true true).Changes
      (a.blocks.put b (Page.fill byte)) t.handle b t.buffer :=
    Cache.changes_edit hsettled.2.coherent (.inl rfl) hresolve hcontent fun _ hb' =>
      a.blocks.put_of_ne _ hb'
  have hcoherent := hchanges.settle (Cache.chained_edit hchained)
    (by rw [Cache.valid_edit_self, Bool.true_or]) (by rw [Cache.dirty_edit_self, Bool.true_or])
    (fun _ => by rw [Cache.page_edit_self, Contents.put_self]; rfl)
  have hstands : (w.cache.edit t.buffer (some (Page.fill byte)) true true).Stands
      { a with blocks := a.blocks.put b (Page.fill byte) } := by
    refine hsettled.stands.edit ?_
    rw [hsettled.1]
    exact hcoherent
  have hlater : w.cache.Later (w.cache.edit t.buffer (some (Page.fill byte)) true true) :=
    Cache.later_edit ..
  exact delivers_call .still ⟨hstands.settled hsettled.1, rfl⟩
    ⟨nofun, _, rfl, .inl fun _ _ => trivial⟩ ⟨hlater, nofun⟩

end World
end BufferCache
