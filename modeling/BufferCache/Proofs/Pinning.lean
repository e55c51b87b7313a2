import BufferCache.Proofs.Holdings

/-!
# A reference pins its block

Clients are *disciplined* if each reference that they were given is given back at
most once, and each handle that they use is that of a reference which they have and
are not giving back.  The ledger of a run says which references they have: one is
entered in the step in which a command gets it, and struck out in the step in which
its release is complete, not when the release begins.

Sessions of disciplined clients keep the account: the count of every buffer is that
of the references on the ledger and of those that calls hold, suspended ones
included.  A victim is a buffer without references, and whether it has none is
checked in the very step in which it is given another block; so the account says
that nobody has a stake in it, whatever was suspended where.

`Disciplined.pinned` draws the consequences.  No bound on generations or counts is
needed for them: a handle that clients have is never compared with a generation of
another round, since its buffer is not given away in the meantime.
-/

namespace BufferCache

variable {g : Geometry}

/-! ## The discipline -/

/-- The handle through which the first step of a call uses a reference of a client. -/
def Call.uses {s : Shape} (w : World g) : Call g s → Option Handle
  | .perform c => w.uses c
  | _ => none

/-- Whether a suspended call is a command that gets a reference for its client. -/
def Frame.obtains {a s : Shape} : Frame g a s → Bool
  | .keepHold _ | .keepFound _ | .keepFetched _ | .guardHold _ | .guardFetched _
  | .filling _ | .touching => true
  | _ => false

/-- The handle of the reference whose release a suspended call completes. -/
def Frame.completes {a s : Shape} : Frame g a s → Option Handle
  | .releasing h i => some ⟨i.val, h.generation⟩
  | _ => none

/-- The ledger after a suspended call was given its value: a reference that it got for
its client is entered, and one whose release it completed is struck out; `client` if
an answer awaits its end. -/
def Frame.ledger {a s : Shape} (f : Frame g a s) (v : a.Value g) (w : World g) (client : Bool)
    (ledger : List Reference) : List Reference :=
  match if f.obtains then a.hold? v else none, f.completes with
  | some h, _ => ⟨h.handle, w.cache.blockOf h.buffer⟩ :: ledger
  | none, some h => if client then ledger.eraseP fun r => r.handle = h else ledger
  | none, none => ledger

namespace Machine

/-- The handle through which the next step uses a reference of a client. -/
def uses : Machine g → Option Handle
  | ⟨w, _, .run c, _⟩ => c.uses w
  | _ => none

/-- The ledger after the next step. -/
def ledger (ledger : List Reference) : Machine g → List Reference
  | ⟨w, _, .give v, .push f rest⟩ => f.ledger v w rest.answers ledger
  | _ => ledger

end Machine

/-- The conduct of disciplined clients: what they use is on the ledger, more often than
they are giving it back already. -/
def Conduct.disciplined (g : Geometry) : Conduct g (List Reference) where
  permits ledger m := ∀ h, m.uses = some h →
    m.stakes.count (.departing h) < ledger.countP fun r => r.handle = h
  record ledger m := m.ledger ledger

instance (ledger : List Reference) (m : Machine g) :
    Decidable ((Conduct.disciplined g).permits ledger m) :=
  inferInstanceAs (Decidable (∀ h, m.uses = some h → _))

/-! ## Balanced steps -/

/-- An effect that neither takes nor gives back a reference keeps all of them. -/
theorem Effect.sameReferences (e : Effect g) (he : ∀ a, e.due = some a → ∃ d i, a = .empty d i)
    (c : Cache g) : c.SameReferences (e.apply c) := by
  have hassign (i : g.Buffer) (b : Block) (s : Buffers g) : e ≠ .assign i b s := by
    rintro rfl
    obtain ⟨d, j, hd⟩ := he _ rfl
    cases hd
  have hheader := e.unmarked_header hassign c
  refine ⟨fun j => (congrArg Header.content (hheader j) :),
    fun j => (congrArg Header.generation (hheader j) :), fun j => ?_⟩
  cases e with
  | none => rfl
  | count k => rfl
  | refer b i =>
    obtain ⟨d, i, hd⟩ := he _ rfl
    cases hd
  | unrefer i =>
    obtain ⟨d, i, hd⟩ := he _ rfl
    cases hd
  | lock i =>
    rw [apply, Cache.header_lock]
    split <;> rfl
  | unlock i =>
    rw [apply, Cache.header_unlock]
    split <;> rfl
  | graze i =>
    rw [apply, Cache.header_unlock, Cache.header_lock]
    split <;> rfl
  | queue direct d i b slot =>
    cases direct with
    | false =>
      rw [apply, Cache.header_enqueue]
      split <;> rfl
    | true =>
      rw [apply, Cache.header_enqueue, if_pos rfl, Cache.header_lock]
      split <;> rfl
  | finish m slot q success =>
    rw [apply, Cache.header_conclude]
    split <;> rfl
  | serve m d slot q =>
    rw [apply, Cache.header_conclude, Cache.header_carryOut]
    split <;> rfl
  | assign i b s => exact absurd rfl (hassign i b s)
  | edit i page valid dirty =>
    rw [apply, Cache.header_edit]
    split <;> rfl
  | empty d i =>
    rw [apply, Cache.header_setDirty, Cache.header_setValid]
    split <;> rfl
  | register m d => rfl

/-- A step keeps the account, with the stakes `rest` beneath it, and raises no fault of
a reference. -/
def Outcome.Settles {s : Shape} (o : Outcome g s) (ledger : List Reference) (client : Bool)
    (rest : Multiset (Stake g)) : Prop :=
  o.Meets (fun w n => Accounted ledger w.cache (n.stakes client + rest) ∧ n.Ready w.cache)
    fun f => ¬ f.OfReference

namespace World

variable {s : Shape} {client : Bool} {held rest : Multiset (Stake g)} {w : World g}
  {ledger : List Reference}

/-- A balanced step keeps the account. -/
theorem settles_of_balanced {o : Outcome g s} {due : Option (Due g)}
    (hb : o.Balanced client held) (hr : o.Regular w due)
    (hdue : ∀ a, due = some a → ∃ d i, a = .empty d i)
    (ha : Accounted ledger w.cache (held + rest)) : o.Settles ledger client rest := by
  refine ⟨fun w' n hn => ?_, hb.raises⟩
  obtain ⟨hheld, hready⟩ := hb.ensures w' n hn
  obtain ⟨⟨e, -, happly, he⟩, -⟩ := hr.ensures w' n hn
  rw [hheld, happly]
  rw [happly] at hready
  exact ⟨ha.congr (e.sameReferences (fun a h => hdue a (he a h)) w.cache), hready⟩

theorem settles_done {v : s.Value g} (ha : Accounted ledger w.cache (stakeOf (s.hold? v) + rest)) :
    Outcome.Settles (w.done v) ledger client rest :=
  Outcome.meets_done ⟨ha, trivial⟩

theorem settles_goto {c : Call g s} (ha : Accounted ledger w.cache (c.stakes client + rest))
    (hr : c.Ready w.cache) : Outcome.Settles (w.goto c) ledger client rest :=
  Outcome.meets_goto ⟨ha, hr⟩

theorem settles_call {a : Shape} {c : Call g a} {f : Frame g a s}
    (ha : Accounted ledger w.cache (c.stakes f.answers + f.stakes client + rest))
    (hr : c.Ready w.cache) : Outcome.Settles (w.call c f) ledger client rest :=
  Outcome.meets_call ⟨ha, hr⟩

/-! ## Looking up and releasing -/

theorem lookUp_settles {b : Block} (hc : w.cache.buffers.Chained fun _ => True)
    (ha : Accounted ledger w.cache rest) : (w.lookUp b).Settles ledger client rest := by
  unfold lookUp
  split
  · refine settles_done ?_
    show Accounted ledger w.cache (0 + rest)
    rwa [Multiset.zero_add]
  · rename_i i hi
    refine settles_call ?_ trivial
    show Accounted ledger (w.cache.refer i) (0 + {.pin b i} + rest)
    rw [Multiset.zero_add, Multiset.singleton_add]
    exact ha.refer (hc.locate_eq_some_iff.mp hi).2

/-- A look-up that waited finds the block that it waited for. -/
theorem holds_of_pin {b : Block} {i : g.Buffer} {c : Cache g}
    (ha : Accounted ledger c (.pin b i ::ₘ rest)) : (c.header i).holds b = true := by
  have hpin : (c.header i).content = some b := ha.good _ (Multiset.mem_cons_self _ _)
  rw [Header.holds, hpin, beq_self_eq_true]

theorem pinned_settles {b : Block} {i : g.Buffer}
    (ha : Accounted ledger w.cache ({.pin b i} + rest)) :
    (w.pinned b i).Settles ledger client rest := by
  rw [Multiset.singleton_add] at ha
  unfold pinned
  rw [if_pos (holds_of_pin ha)]
  refine settles_done ?_
  show Accounted ledger w.cache ({.hold (w.cache.hold i).handle} + rest)
  rw [Multiset.singleton_add]
  exact ha.hold_of_pin

theorem victimReady_settles {b : Block} {i : g.Buffer} (hb : b.device ≠ 0)
    (hc : w.cache.buffers.Chained fun _ => True) (ha : Accounted ledger w.cache rest) :
    (w.victimReady b i).Settles ledger client rest := by
  unfold victimReady
  dsimp only
  have ha' : Accounted ledger w.cache (0 + rest) := by rwa [Multiset.zero_add]
  split
  · exact settles_goto ha' trivial
  split
  · refine settles_call ?_ trivial
    show Accounted ledger w.cache (0 + 0 + rest)
    rwa [Multiset.add_zero]
  split
  · exact settles_goto ha' trivial
  rename_i hrefs _ hfree
  refine Outcome.meets_orFault (fun s hs => settles_done ?_) fun f hf => ?_
  · rw [cache_reportMiss]
    exact ha.assign (by simpa using hrefs) hs
  · have hnone : w.cache.buffers.locate b = none := by
      simp only [Bool.or_eq_true, not_or, Bool.not_eq_true] at hfree
      simpa [Cache.contains] using hfree.1
    have hreassign := hc.reassign i hb fun j => hc.locate_eq_none_iff.mp hnone j trivial
    rw [hf] at hreassign
    rw [hreassign]
    exact fun h => h

/-- The buffer to be released has the reference that goes. -/
theorem released_settles {h : Handle} {i : g.Buffer} (hi : i.val = h.index)
    (ha : Accounted ledger w.cache ({returning client h} + rest)) :
    (w.released i).Settles (if client then ledger.eraseP fun r => r.handle = h else ledger)
      client rest := by
  rw [Multiset.singleton_add] at ha
  have hrefs : (w.cache.header i).references ≠ 0 := by
    cases client with
    | true =>
      obtain ⟨r, hr, rfl⟩ := ha.exists_owned_of_departing (Multiset.mem_cons_self _ _)
      exact ha.references_of_owned hr hi
    | false => exact ha.references_of_counts (Multiset.mem_cons_self _ _) hi.symm
  unfold released
  rw [if_neg hrefs]
  refine settles_done ?_
  have hnone : stakeOf (Shape.hold? Shape.unit ()) = (0 : Multiset (Stake g)) := rfl
  rw [hnone, Multiset.zero_add]
  cases client with
  | true => exact ha.leave hi
  | false => exact ha.drop hi

theorem letGo_settles {h t : Hold g} {d : DeviceNumber} {ahead : List BlockNumber}
    (ha : Accounted ledger w.cache ({.hold t.handle} + ({.hold h.handle} + rest))) :
    (w.letGo h t d ahead).Settles ledger client rest := by
  rw [Multiset.singleton_add] at ha
  obtain ⟨i, hi, hok⟩ := ha.resolve_of_hold (Multiset.mem_cons_self _ _)
  unfold letGo
  rw [hok]
  exact settles_goto (ha.drop hi) trivial

theorem aheadFetched_settles {h t : Hold g} {d : DeviceNumber} {ahead : List BlockNumber}
    (ha : Accounted ledger w.cache ({.hold t.handle} + ({.hold h.handle} + rest))) :
    (w.aheadFetched h d ahead t).Settles ledger client rest := by
  have hok : ∃ i, w.cache.resolve t.handle = .ok i := by
    rw [Multiset.singleton_add] at ha
    obtain ⟨i, -, hok⟩ := ha.resolve_of_hold (Multiset.mem_cons_self _ _)
    exact ⟨i, hok⟩
  unfold aheadFetched
  obtain ⟨i, hi⟩ := hok
  rw [Cache.view, hi]
  show Outcome.Settles (if _ then _ else _) ledger client rest
  split
  · exact letGo_settles ha
  · refine settles_call ?_ ⟨i, hi⟩
    show Accounted ledger w.cache (0 + ({.hold t.handle} + {.hold h.handle}) + rest)
    rwa [Multiset.zero_add, Multiset.add_assoc]

/-- A command of a disciplined client keeps the account. -/
theorem perform_settles {c : Command}
    (hp : ∀ h, w.uses c = some h →
      rest.count (.departing h) < ledger.countP fun r => r.handle = h)
    (ha : Accounted ledger w.cache rest) : (w.perform c).Settles ledger client rest := by
  have hok (h : Handle) (hh : w.uses c = some h) : ∃ i, w.cache.resolve h = .ok i := by
    have hpos := Nat.zero_lt_of_lt (hp h hh)
    obtain ⟨r, hr, heq⟩ := List.countP_pos_iff.mp hpos
    obtain rfl : r.handle = h := by simpa using heq
    obtain ⟨i, -, -, hi⟩ := ha.resolve_of_owned hr
    exact ⟨i, hi⟩
  have hdepart : Accounted ledger w.cache (w.departures c + rest) := by
    cases c with
    | release name =>
      show Accounted ledger w.cache ((w.handles.find? name).elim 0 _ + rest)
      cases hn : w.handles.find? name with
      | some h => exact ha.depart (hp h hn)
      | none => exact (Multiset.zero_add rest).symm ▸ ha
    | guardDrop name =>
      show Accounted ledger w.cache ((w.guards.find? name).elim 0 _ + rest)
      cases hn : w.guards.find? name with
      | some h => exact ha.depart (hp h hn)
      | none => exact (Multiset.zero_add rest).symm ▸ ha
    | _ => exact (Multiset.zero_add rest).symm ▸ ha
  have hregular : (w.perform c).Regular w none := perform_regular w c
  exact settles_of_balanced (perform_balanced w c hok) hregular nofun hdepart

theorem accounted_zero_add (ha : Accounted ledger w.cache (0 + rest)) :
    Accounted ledger w.cache rest := by
  rwa [Multiset.zero_add] at ha

/-- The handle of the last reference that was entered is good. -/
theorem good_of_entered {r : Reference} (ha : Accounted (r :: ledger) w.cache rest) :
    ∃ i, w.cache.resolve r.handle = .ok i := by
  obtain ⟨i, -, -, hi⟩ := ha.resolve_of_owned List.mem_cons_self
  exact ⟨i, hi⟩

/-- A reference that a command got is entered into the ledger. -/
theorem accounted_entered {h : Hold g}
    (ha : Accounted ledger w.cache ({.hold h.handle} + (0 + rest))) :
    Accounted (⟨h.handle, w.cache.blockOf h.buffer⟩ :: ledger) w.cache (0 + rest) := by
  rw [Multiset.singleton_add] at ha
  exact ha.own rfl

/-- A reference that a command got is entered into the ledger, and given back. -/
theorem accounted_passed {h : Hold g}
    (ha : Accounted ledger w.cache ({.hold h.handle} + (0 + rest))) :
    Accounted (⟨h.handle, w.cache.blockOf h.buffer⟩ :: ledger) w.cache
      ({.departing h.handle} + rest) := by
  rw [Multiset.singleton_add, Multiset.zero_add] at ha
  rw [Multiset.singleton_add]
  exact ha.pass rfl

end World

/-! ## Every step keeps the account -/

/-- The first step of a call keeps the account. -/
theorem Call.begin_settles {s : Shape} {c : Call g s} {w : World g} {client : Bool}
    {ledger : List Reference} {rest : Multiset (Stake g)} (hc : c.Aimed)
    (hready : c.Ready w.cache) (hchained : w.cache.buffers.Chained fun _ => True)
    (hp : ∀ h, c.uses w = some h →
      (c.stakes client + rest).count (.departing h) < ledger.countP fun r => r.handle = h)
    (ha : Accounted ledger w.cache (c.stakes client + rest)) :
    (c.begin w).Settles ledger client rest := by
  by_cases hroutine : c.Routine
  · have hgood (h : Handle) (hh : returning client h ∈ c.stakes client) :
        ∃ i, w.cache.resolve h = .ok i := by
      have hmem := Multiset.mem_add.mpr (.inl hh : _ ∨ returning client h ∈ rest)
      cases client with
      | true =>
        obtain ⟨i, -, hi⟩ := ha.resolve_of_departing hmem
        exact ⟨i, hi⟩
      | false =>
        obtain ⟨i, -, hi⟩ := ha.resolve_of_hold hmem
        exact ⟨i, hi⟩
    have hdue : c.due = none := by
      cases c <;> first | rfl | exact hroutine.elim
    have hregular := Call.begin_regular hc w
    rw [hdue] at hregular
    exact World.settles_of_balanced (Call.begin_balanced hroutine hready hgood) hregular nofun ha
  · cases c with
    | lookUp b => exact World.lookUp_settles hchained ((Multiset.zero_add rest) ▸ ha)
    | perform c =>
      have ha' : Accounted ledger w.cache rest := World.accounted_zero_add ha
      exact World.perform_settles (fun h hh => (Multiset.zero_add rest) ▸ hp h hh) ha'
    | _ => exact absurd trivial hroutine

theorem Frame.ledger_of_routine {a s : Shape} {f : Frame g a s} (hf : f.Routine) (v : a.Value g)
    (w : World g) (client : Bool) (ledger : List Reference) :
    f.ledger v w client ledger = ledger := by
  cases f <;> cases client <;> first | rfl | exact hf.elim

/-- The step of a suspended call keeps the account. -/
theorem Frame.resume_settles {a s : Shape} {f : Frame g a s} {v : a.Value g} {w : World g}
    {client : Bool} {ledger : List Reference} {rest : Multiset (Stake g)} (hf : f.Aimed)
    (hchained : w.cache.buffers.Chained fun _ => True)
    (ha : Accounted ledger w.cache (stakeOf (a.hold? v) + (f.stakes client + rest))) :
    (f.resume v w).Settles (f.ledger v w client ledger) client rest := by
  by_cases hroutine : f.Routine
  · rw [Frame.ledger_of_routine hroutine]
    rw [← Multiset.add_assoc] at ha
    have hgood (h : Handle) (hh : .hold h ∈ stakeOf (a.hold? v) + f.stakes client) :
        ∃ i, w.cache.resolve h = .ok i := by
      obtain ⟨i, -, hi⟩ := ha.resolve_of_hold (Multiset.mem_add.mpr (.inl hh))
      exact ⟨i, hi⟩
    have hdue (d : Due g) (hd : f.due v = some d) : ∃ d' i, d = .empty d' i := by
      cases f <;> first | exact hroutine.elim | cases hd
      exact ⟨_, _, rfl⟩
    exact World.settles_of_balanced (Frame.resume_balanced hroutine rfl hgood)
      (Frame.resume_regular hf v w) hdue ha
  · cases f with
    | pinning b i => exact World.pinned_settles (World.accounted_zero_add ha)
    | awaitingVictim b i =>
      exact World.victimReady_settles hf hchained
        (World.accounted_zero_add (World.accounted_zero_add ha))
    | releasing h i => exact World.released_settles rfl (World.accounted_zero_add ha)
    | fetchingAhead h d ahead => exact World.aheadFetched_settles ha
    | issuingAhead h t d ahead =>
      refine World.letGo_settles ?_
      rw [← Multiset.add_assoc]
      exact World.accounted_zero_add ha
    | keepHold name => exact World.settles_done (World.accounted_entered ha)
    | keepFound name =>
      cases v with
      | none => exact World.settles_done (World.accounted_zero_add ha)
      | some h => exact World.settles_done (World.accounted_entered ha)
    | keepFetched name =>
      cases v with
      | error f => exact World.settles_done (World.accounted_zero_add ha)
      | ok h => exact World.settles_done (World.accounted_entered ha)
    | guardHold name =>
      have ha' := World.accounted_entered ha
      have hregular : (w.guardHeld name v).Regular w none := w.guardHeld_regular name v
      have hgood := World.good_of_entered ha'
      exact World.settles_of_balanced (World.guardHeld_balanced hgood) hregular nofun ha'
    | guardFetched name =>
      cases v with
      | error f => exact World.settles_done (World.accounted_zero_add ha)
      | ok h => exact World.settles_done (World.accounted_entered ha)
    | filling byte =>
      have ha' := World.accounted_passed ha
      have hregular : (w.fillHeld byte v).Regular w none := w.fillHeld_regular byte v
      have hgood := World.good_of_entered ha'
      exact World.settles_of_balanced (World.fillHeld_balanced hgood) hregular nofun ha'
    | touching => exact World.settles_call (World.accounted_passed ha) trivial
    | _ => exact absurd trivial hroutine

/-! ## Runs -/

namespace Machine

/-- An operation that is to begin is started on a handle that is good. -/
def Ready : Machine g → Prop
  | ⟨w, _, .run c, _⟩ => c.Ready w.cache
  | ⟨_, _, .give _, _⟩ => True

theorem ready_next {s : Shape} {n : Next g s} {w : World g} (h : n.Ready w.cache)
    (stack : Stack g s) : (n.machine w stack).Ready := by
  cases n with
  | done v => trivial
  | goto c => exact h
  | call c f => exact h

variable {ledger : List Reference} {m m' : Machine g}

/-- A permitted step keeps the account. -/
theorem Steps.accounted (h : m.Steps m') (haimed : m.Aimed) (hready : m.Ready)
    (hchained : m.world.cache.buffers.Chained fun _ => True)
    (hp : (Conduct.disciplined g).permits ledger m)
    (ha : Accounted ledger m.world.cache m.stakes) :
    Accounted (m.ledger ledger) m'.world.cache m'.stakes ∧ m'.Ready := by
  cases h with
  | @begin s w w' c n stack hn =>
    obtain ⟨ha', hr⟩ := (Call.begin_settles haimed.1 hready hchained hp ha).ensures w' n hn
    rw [stakes_next, world_next]
    exact ⟨ha', ready_next hr stack⟩
  | @resume a s w w' f v n stack hn =>
    obtain ⟨ha', hr⟩ := (Frame.resume_settles haimed.1 hchained ha).ensures w' n hn
    rw [stakes_next, world_next]
    exact ⟨ha', ready_next hr stack⟩

/-- A permitted step does not halt for want of a reference. -/
theorem not_ofReference_of_halted (haimed : m.Aimed) (hready : m.Ready)
    (hchained : m.world.cache.buffers.Chained fun _ => True)
    (hp : (Conduct.disciplined g).permits ledger m)
    (ha : Accounted ledger m.world.cache m.stakes) {f : Fault}
    (h : m.step = .halted (.fault f)) : ¬ f.OfReference := by
  obtain ⟨w, s, control, stack⟩ := m
  match control, stack with
  | .run c, stack =>
    exact (Call.begin_settles haimed.1 hready hchained hp ha).raises f (advance_eq_halted h)
  | .give v, .bottom => cases h
  | .give v, .push f' stack =>
    exact (Frame.resume_settles haimed.1 hchained ha).raises f (advance_eq_halted h)

/-- Disciplined clients of a new cache come to this machine, with this ledger. -/
def Disciplined (ledger : List Reference) (m : Machine g) : Prop :=
  (Conduct.disciplined g).Run (fun w l => w = World.initial g ∧ l = []) ledger m

theorem Disciplined.reachable (h : m.Disciplined ledger) : m.Reachable :=
  Conduct.Run.reachable (fun _ _ hw => hw.1) h

/-- Nobody has a reference to a new cache. -/
theorem accounted_initial (g : Geometry) : Accounted [] (Cache.initial g) 0 where
  counted i := by simp [Cache.header, Cache.initial, Buffers.header_initial]
  owned r hr := nomatch hr
  good s hs := absurd hs (Multiset.notMem_zero s)
  departing h := le_of_eq (Multiset.count_zero _)

/-- Sessions of disciplined clients keep the account. -/
theorem Disciplined.accounted (h : m.Disciplined ledger) :
    Accounted ledger m.world.cache m.stakes ∧ m.Ready := by
  let Inv (ledger : List Reference) (m : Machine g) : Prop :=
    m.Reachable ∧ Accounted ledger m.world.cache m.stakes ∧ m.Ready
  suffices hm : Inv ledger m from hm.2
  refine Conduct.Run.invariant (fun w l waiting c hw => ?_) (fun l m m' hm hp hs => ?_)
    (fun l w a waiting c hm => ?_) h
  · obtain ⟨rfl, rfl⟩ := hw
    exact ⟨reachable_start waiting c, accounted_initial g, trivial⟩
  · obtain ⟨hreach, ha, hready⟩ := hm
    exact ⟨hreach.moves (.step hs),
      hs.accounted hreach.aimed hready hreach.chained hp ha⟩
  · obtain ⟨hreach, ha, -⟩ := hm
    exact ⟨hreach.moves (.next waiting c), ha, trivial⟩

/-! ## What references are good for -/

/-- What the references on a ledger are good for. -/
structure Pins (ledger : List Reference) (m : Machine g) : Prop where
  /-- Each buffer is as it was when the reference was entered: it holds the same block, in
  the same generation, and it is referenced. -/
  kept : ∀ r ∈ ledger, ∃ i : g.Buffer, i.val = r.handle.index ∧
    (m.world.cache.header i).generation = r.handle.generation ∧
    (m.world.cache.header i).device = r.block.device ∧
    (m.world.cache.header i).number = r.block.number ∧
    1 ≤ (m.world.cache.header i).references
  /-- References to the same block have the same handle. -/
  same : ∀ r ∈ ledger, ∀ r' ∈ ledger, r.block = r'.block → r.handle = r'.handle
  /-- References to different blocks are to different buffers. -/
  apart : ∀ r ∈ ledger, ∀ r' ∈ ledger, r.block ≠ r'.block → r.handle.index ≠ r'.handle.index
  /-- No use of a reference that is permitted halts for want of it, nor does anything that
  calls do with references of their own. -/
  sound : (Conduct.disciplined g).permits ledger m →
    ∀ f, m.step = .halted (.fault f) → ¬ f.OfReference
  /-- A look-up that has waited for a buffer is over: the buffer still holds the block. -/
  found : ∀ {w : World g} {b : Block} {i : g.Buffer} {v : Unit} {rest : Stack g .found},
    m = ⟨w, .unit, .give v, .push (.pinning b i) rest⟩ →
      w.pinned b i = @World.done g .found w (some (w.cache.hold i))

/-- In every session of disciplined clients, whatever is suspended, a reference keeps its
buffer at its block from the step in which it is entered into the ledger to the one in
which its release is complete. -/
theorem Disciplined.pinned (h : m.Disciplined ledger) : m.Pins ledger := by
  obtain ⟨ha, hready⟩ := h.accounted
  have hchained := h.reachable.chained
  refine ⟨fun r hr => ?_, fun r hr r' hr' hb => ?_, fun r hr r' hr' hb hindex => ?_,
    fun hp f => not_ofReference_of_halted h.reachable.aimed hready hchained hp ha, ?_⟩
  · obtain ⟨i, hi, hg, hc⟩ := ha.owned r hr
    have hblock := Cache.blockOf_eq hc
    refine ⟨i, hi, hg, congrArg Block.device hblock, congrArg Block.number hblock, ?_⟩
    exact Nat.pos_of_ne_zero (ha.references_of_owned hr hi)
  · obtain ⟨i, hi, hg, hc⟩ := ha.owned r hr
    obtain ⟨j, hj, hg', hc'⟩ := ha.owned r' hr'
    rw [← hb] at hc'
    obtain rfl : i = j := hchained.unique trivial trivial hc hc'
    have hindex : r.handle.index = r'.handle.index := hi.symm.trans hj
    have hgeneration : r.handle.generation = r'.handle.generation := hg.symm.trans hg'
    cases hh : r.handle
    cases hh' : r'.handle
    rw [hh, hh'] at hindex hgeneration
    exact congr (congrArg Handle.mk hindex) hgeneration
  · obtain ⟨i, hi, -, hc⟩ := ha.owned r hr
    obtain ⟨j, hj, -, hc'⟩ := ha.owned r' hr'
    obtain rfl : i = j := Fin.ext (hi.trans (hindex.trans hj.symm))
    exact hb (Option.some.inj (hc.symm.trans hc'))
  · rintro w b i v rest rfl
    have hpin : Accounted ledger w.cache (.pin b i ::ₘ rest.stakes) := by
      rw [← Multiset.singleton_add]
      exact World.accounted_zero_add ha
    unfold World.pinned
    rw [if_pos (World.holds_of_pin hpin)]

/-- A client that got a buffer and now gives it back. -/
theorem pinned_of_release :
    ∃ ledger, ∃ m : Machine Geometry.small, m.Disciplined ledger ∧
      ledger = [⟨⟨0, 1⟩, ⟨257, 3⟩⟩] ∧ m.uses = some ⟨0, 1⟩ ∧
      (Conduct.disciplined Geometry.small).permits ledger m ∧ m.Pins ledger := by
  have hstart : Disciplined [] (start ((World.initial Geometry.small).fresh [])
      (.acquire ⟨257, 3⟩ (some "h"))) := .start [] _ ⟨rfl, rfl⟩
  have h : Disciplined _ _ := (hstart.after 20).following [] (.release "h")
  exact ⟨_, _, h, by decide, by decide, by decide, h.pinned⟩

end Machine
end BufferCache
