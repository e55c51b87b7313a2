import BufferCache.Proofs.Pinning
import BufferCache.Proofs.Spans

/-!
# Every reference is accounted for

The account of references explains the count of a buffer by the references on the ledger
and those that calls hold.  Here the account is read the way in which one would settle
it: what clients and guards have and are not giving back, and what calls have to do with,
among it the references that are being given back.

From the account at the beginning and at the end of a call follows what the call itself
did to the counts, whatever ran in between: the calls beneath it have the same stakes, and
what clients got and gave back meanwhile is told by what they have.  So an operation that
is over has left behind just the reference that it answers, and a release has taken away
just the one that it was given.
-/

namespace BufferCache

variable {g : Geometry}

/-! ## References of clients and of calls -/

namespace Stake

/-- Whether a stake is a reference to buffer `i` that a client is giving back. -/
def Departs (i : g.Buffer) : Stake g → Prop
  | departing h => h.index = i.val
  | _ => False

instance (i : g.Buffer) : DecidablePred (Departs i)
  | departing h => inferInstanceAs (Decidable (h.index = i.val))
  | hold _ => inferInstanceAs (Decidable False)
  | pin _ _ => inferInstanceAs (Decidable False)

end Stake

/-- How many references to buffer `i` are among some stakes, those that clients are giving
back included. -/
def engaged (stakes : Multiset (Stake g)) (i : g.Buffer) : Nat :=
  stakes.countP (Stake.Counts i) + stakes.countP (Stake.Departs i)

theorem engaged_add (stakes stakes' : Multiset (Stake g)) (i : g.Buffer) :
    engaged (stakes + stakes') i = engaged stakes i + engaged stakes' i := by
  simp only [engaged, Multiset.countP_add]
  omega

/-- How many references to buffer `i` a value carries. -/
def Shape.gives (s : Shape) (v : s.Value g) (i : g.Buffer) : Nat :=
  match s.hold? v with
  | some h => if h.buffer = i then 1 else 0
  | none => 0

/-- A reference that is being given back is one reference, whoever gives it back. -/
theorem engaged_returning (client : Bool) (h : Handle) (i : g.Buffer) :
    engaged {returning client h} i = if h.index = i.val then 1 else 0 := by
  have hcountP (p : Stake g → Prop) [DecidablePred p] (s : Stake g) :
      Multiset.countP p {s} = if p s then 1 else 0 :=
    (Multiset.countP_cons p s 0).trans (Nat.zero_add _)
  rw [engaged, hcountP, hcountP]
  cases client with
  | true => exact Nat.zero_add _
  | false => exact Nat.add_zero _

theorem engaged_stakeOf (s : Shape) (v : s.Value g) (i : g.Buffer) :
    engaged (stakeOf (s.hold? v)) i = s.gives v i := by
  unfold Shape.gives
  cases s.hold? v with
  | none => rfl
  | some h =>
    have hindex : h.handle.index = i.val ↔ h.buffer = i := Fin.ext_iff.symm
    exact (engaged_returning false h.handle i).trans (if_congr hindex rfl rfl)

namespace Machine

/-- How many references to buffer `i` clients and their guards have and are not giving
back. -/
def owned (m : Machine g) (ledger : List Reference) (i : g.Buffer) : Nat :=
  ledger.countP (fun r => r.handle.index = i.val) - m.stakes.countP (Stake.Departs i)

end Machine

namespace Accounted

variable {ledger : List Reference} {c : Cache g} {stakes : Multiset (Stake g)}

/-- Clients give back no more references to a buffer than they have. -/
theorem departs_le (ha : Accounted ledger c stakes) (i : g.Buffer) :
    stakes.countP (Stake.Departs i) ≤ ledger.countP fun r => r.handle.index = i.val := by
  -- All references to one buffer have the same handle, that of its present generation.
  let h : Handle := ⟨i.val, (c.header i).generation⟩
  have hdeparts (s : Stake g) (hs : s ∈ stakes) : Stake.Departs i s ↔ .departing h = s := by
    cases s with
    | departing h' =>
      refine ⟨fun hindex => ?_, fun heq => by cases heq; rfl⟩
      obtain ⟨r, hr, rfl⟩ := ha.exists_owned_of_departing hs
      obtain ⟨j, hj, hg, -⟩ := ha.owned r hr
      obtain rfl : j = i := Fin.ext (hj.trans hindex)
      change Stake.departing ⟨j.val, (c.header j).generation⟩ = _
      rw [hj, hg]
    | hold h' => exact iff_of_false (fun h => h) nofun
    | pin b j => exact iff_of_false (fun h => h) nofun
  calc stakes.countP (Stake.Departs i)
      = stakes.count (.departing h) := Multiset.countP_congr rfl fun s hs => propext (hdeparts s hs)
    _ ≤ ledger.countP (fun r => r.handle = h) := ha.departing h
    _ ≤ ledger.countP (fun r => r.handle.index = i.val) :=
        List.countP_mono_left fun r _ hr => by
          rw [decide_eq_true_eq] at hr ⊢
          exact congrArg Handle.index hr

end Accounted

/-! ## Operations -/

/-- A call that is an operation of the cache, as clients and calls may make it. -/
def Call.Operates {s : Shape} : Call g s → Prop
  | .acquire _ | .lookUp _ | .fetch _ | .fetchAhead _ _ | .fetchPage _ _ _ | .release _
  | .issue _ _ | .flush _ | .discard _ | .checkMedium _ => True
  | _ => False

/-- How many references to buffer `i` a call takes over from whoever makes it. -/
def Call.takes {s : Shape} (i : g.Buffer) : Call g s → Nat
  | .release h => if h.index = i.val then 1 else 0
  | _ => 0

theorem Call.engaged_stakes {s : Shape} {c : Call g s} (hc : c.Operates) (client : Bool)
    (i : g.Buffer) : engaged (c.stakes client) i = c.takes i := by
  cases c with
  | release h => exact engaged_returning client h i
  | _ => first | rfl | exact hc.elim

/-- Whether a suspended call is a command that hands the reference which it is given to its
client, for good. -/
def Frame.keeps {a s : Shape} : Frame g a s → Bool
  | .keepHold _ | .keepFound _ | .keepFetched _ | .guardHold _ | .guardFetched _ => true
  | _ => false

/-- Such a command is over in one step. -/
theorem Frame.resume_of_keeps {a : Shape} {f : Frame g a .reply} (hf : f.keeps = true)
    (v : a.Value g) (w : World g) : (f.resume v w).Ensures fun _ n => ∃ x, n = .done x := by
  cases f with
  | keepHold name => exact Outcome.ensures_done ⟨_, rfl⟩
  | keepFound name => cases v <;> exact Outcome.ensures_done ⟨_, rfl⟩
  | keepFetched name => cases v <;> exact Outcome.ensures_done ⟨_, rfl⟩
  | guardHold name => exact Outcome.ensures_orFault fun c _ => Outcome.ensures_done ⟨_, rfl⟩
  | guardFetched name => cases v <;> exact Outcome.ensures_done ⟨_, rfl⟩
  | _ => exact absurd hf Bool.false_ne_true

/-- It holds nothing itself, and hands on all that it is given. -/
theorem Frame.ledger_of_keeps {a : Shape} {f : Frame g a .reply} (hf : f.keeps = true)
    (v : a.Value g) (w : World g) (client : Bool) (ledger : List Reference) :
    f.stakes client = 0 ∧ f.ledger v w client ledger =
      (a.hold? v).elim ledger fun h => ⟨h.handle, w.cache.blockOf h.buffer⟩ :: ledger := by
  have hobtained : (if f.obtains then a.hold? v else none) = a.hold? v := by
    cases f <;> rfl
  have hcompletes : f.completes = none := by
    cases f <;> rfl
  refine ⟨?_, ?_⟩
  · cases f <;> rfl
  · rw [Frame.ledger, hobtained, hcompletes]
    cases a.hold? v <;> rfl

namespace Machine

variable {ledger : List Reference} {m m' : Machine g}

/-- The count of a buffer is that of the references that clients have and of those that
calls have to do with. -/
theorem references_eq (ha : Accounted ledger m.world.cache m.stakes) (i : g.Buffer) :
    (m.world.cache.header i).references = m.owned ledger i + engaged m.stakes i := by
  have hle := ha.departs_le i
  rw [ha.counted i, owned, engaged]
  omega

/-- What the references of clients and calls amount to, at every point of a run of
disciplined clients. -/
structure Accounts (ledger : List Reference) (m : Machine g) : Prop where
  /-- Clients and guards on the one hand, and calls on the other, have all references. -/
  counted : ∀ i, (m.world.cache.header i).references =
    m.owned ledger i + engaged m.stakes i
  /-- An operation that is over has added the reference that it answers, and taken away
  the one that it was given; all else was done by clients meanwhile. -/
  completed : ∀ {s : Shape} {c : Call g s} {base : Stack g s} {w : World g},
    m = ⟨w, s, .run c, base⟩ → c.Operates → ∀ {ledger' w' v},
      (Conduct.disciplined g).Leads (fun n => ¬ n.Returned base) (ledger, m)
        (ledger', ⟨w', s, .give v, base⟩) →
      ∀ i, (w'.cache.header i).references + m.owned ledger i + c.takes i =
        (w.cache.header i).references + owned ⟨w', s, .give v, base⟩ ledger' i + s.gives v i
  /-- A block that is read ahead leaves no reference behind. -/
  ahead : ∀ {h : Hold g} {d : DeviceNumber} {n : BlockNumber} {rest : List BlockNumber}
    {base : Stack g .fetched} {w : World g},
    m = ⟨w, .fetched, .run (.readAhead h d (n :: rest)), base⟩ → ∀ {ledger' w'},
      (Conduct.disciplined g).Leads (fun n => ¬ n.Returned base) (ledger, m)
        (ledger', ⟨w', .fetched, .run (.readAhead h d rest), base⟩) →
      ∀ i, (w'.cache.header i).references + m.owned ledger i =
        (w.cache.header i).references +
          owned ⟨w', .fetched, .run (.readAhead h d rest), base⟩ ledger' i
  /-- A command that is given a reference for its client hands on just this one, under a
  name or in a guard. -/
  handed : ∀ {a : Shape} {f : Frame g a .reply} {v : a.Value g} {base : Stack g .reply}
    {w : World g},
    m = ⟨w, a, .give v, .push f base⟩ → f.keeps = true → ∀ {m'}, m.Steps m' →
      ∀ i, (m'.world.cache.header i).references = (w.cache.header i).references ∧
        m'.owned (m.ledger ledger) i = m.owned ledger i + a.gives v i
  /-- Dropping a guard begins the release of its reference. -/
  dropped : ∀ {name : String} {h : Handle} {base : Stack g .reply} {w : World g},
    m = ⟨w, .reply, .run (.perform (.guardDrop name)), base⟩ →
      w.guards.find? name = some h → (Conduct.disciplined g).permits ledger m →
      ∃ w', m.Steps ⟨w', .unit, .run (.release h), .push (.answering .done) base⟩ ∧
        w'.cache = w.cache ∧ w'.guards.find? name = none ∧
        ∀ i, owned ⟨w', .unit, .run (.release h), .push (.answering .done) base⟩ ledger i +
          (if h.index = i.val then 1 else 0) = m.owned ledger i
  /-- Turning a guard into a handle passes its reference on, and changes no count. -/
  transferred : ∀ {name : String} {kept : Option String} {h : Handle} {base : Stack g .reply}
    {w : World g},
    m = ⟨w, .reply, .run (.perform (.guardInto name kept)), base⟩ →
      w.guards.find? name = some h →
      ∃ w', m.Steps ⟨w', .reply, .give (.handle h), base⟩ ∧
        w'.cache = w.cache ∧ w'.guards.find? name = none ∧
        (∀ x, kept = some x → w'.handles.find? x = some h) ∧
        ∀ i, owned ⟨w', .reply, .give (.handle h), base⟩ ledger i = m.owned ledger i

/-! ## What a call did -/

theorem Disciplined.leads {ledger' : List Reference} {on : Machine g → Prop}
    (h : m.Disciplined ledger)
    (hspan : (Conduct.disciplined g).Leads on (ledger, m) (ledger', m')) :
    m'.Disciplined ledger' :=
  Conduct.Run.leads (a := (ledger, m)) h hspan

theorem Disciplined.references_eq (h : m.Disciplined ledger) (i : g.Buffer) :
    (m.world.cache.header i).references = m.owned ledger i + engaged m.stakes i :=
  Machine.references_eq h.accounted.1 i

/-- Between two points of a run at which the same calls are suspended, the counts change by
what clients have and what the topmost call has to do with. -/
theorem Disciplined.references_add {s : Shape} {base : Stack g s} {w w' : World g}
    {a a' : Control g s} {ledger' : List Reference} {held held' : Multiset (Stake g)}
    (h : Disciplined ledger ⟨w, s, a, base⟩) (h' : Disciplined ledger' ⟨w', s, a', base⟩)
    (hheld : stakes ⟨w, s, a, base⟩ = held + base.stakes)
    (hheld' : stakes ⟨w', s, a', base⟩ = held' + base.stakes) (i : g.Buffer) :
    (w'.cache.header i).references + owned ⟨w, s, a, base⟩ ledger i + engaged held i =
      (w.cache.header i).references + owned ⟨w', s, a', base⟩ ledger' i + engaged held' i := by
  have hbefore := h.references_eq i
  have hafter := h'.references_eq i
  rw [hheld, engaged_add] at hbefore
  rw [hheld', engaged_add] at hafter
  change (w.cache.header i).references = _ at hbefore
  change (w'.cache.header i).references = _ at hafter
  omega

/-- A command that is given a reference for its client changes no count. -/
theorem Steps.references_of_keeps {a : Shape} {f : Frame g a .reply} {v : a.Value g}
    {base : Stack g .reply} {w : World g} (h : Steps ⟨w, a, .give v, .push f base⟩ m')
    (haimed : Aimed ⟨w, a, .give v, .push f base⟩) (hf : f.keeps = true) (i : g.Buffer) :
    (m'.world.cache.header i).references = (w.cache.header i).references := by
  obtain ⟨⟨e, -, happly, hdue⟩, -⟩ := h.affects haimed
  have hnone : f.due v = none := by
    cases f <;> rfl
  rw [happly]
  refine (e.sameReferences (fun d hd => ?_) w.cache).references i
  cases hnone.symm.trans (hdue d hd)

/-- What it was given goes to its client, and nothing is left of it. -/
theorem Steps.owned_of_keeps {a : Shape} {f : Frame g a .reply} {v : a.Value g}
    {base : Stack g .reply} {w : World g} (h : Steps ⟨w, a, .give v, .push f base⟩ m')
    (ha : Accounted ledger w.cache (stakes ⟨w, a, .give v, .push f base⟩))
    (hf : f.keeps = true) (i : g.Buffer) :
    m'.owned (Machine.ledger ledger ⟨w, a, .give v, .push f base⟩) i =
      owned ⟨w, a, .give v, .push f base⟩ ledger i + a.gives v i := by
  obtain ⟨hheld, hledger⟩ := Frame.ledger_of_keeps hf v w base.answers ledger
  have hbefore : stakes ⟨w, a, .give v, .push f base⟩ = stakeOf (a.hold? v) + base.stakes := by
    change stakeOf (a.hold? v) + (f.stakes base.answers + base.stakes) = _
    rw [hheld, Multiset.zero_add]
  have hafter : m'.stakes = base.stakes := by
    cases h with
    | resume _ hn =>
      obtain ⟨x, rfl⟩ := Frame.resume_of_keeps hf v w _ _ hn
      exact Multiset.zero_add _
  have hdeparts : (stakeOf (a.hold? v) + base.stakes).countP (Stake.Departs i) =
      base.stakes.countP (Stake.Departs i) := by
    rw [Multiset.countP_add]
    cases a.hold? v with
    | none => exact Nat.zero_add _
    | some t =>
      rw [stakeOf, ← Multiset.cons_zero, Multiset.countP_cons_of_neg _ (fun h => h)]
      exact Nat.zero_add _
  have hle := ha.departs_le i
  change owned m' (f.ledger v w base.answers ledger) i = _
  unfold owned Shape.gives
  rw [hledger, hafter, hbefore, hdeparts]
  rw [hbefore, hdeparts] at hle
  cases a.hold? v with
  | none => rfl
  | some t =>
    have hindex : t.handle.index = i.val ↔ t.buffer = i := Fin.ext_iff.symm
    change List.countP _ (_ :: ledger) - _ = _ - _ + if t.buffer = i then 1 else 0
    rw [List.countP_cons]
    simp only [decide_eq_true_eq, hindex]
    omega

/-! ### Guards -/

section Guards

variable {w : World g} {name : String} {t : Handle}

/-- A guard that is dropped is forgotten, and its reference is to be given back. -/
theorem steps_guardDrop (base : Stack g .reply) (hname : w.guards.find? name = some t) :
    Steps ⟨w, .reply, .run (.perform (.guardDrop name)), base⟩
      ⟨w.forgetGuard name, .unit, .run (.release t), .push (.answering .done) base⟩ := by
  refine .begin (n := .call (.release t) (.answering .done)) base ?_
  change w.withGuard name _ = _
  rw [World.withGuard, hname]
  rfl

/-- A guard that is turned into a handle is forgotten, and the handle is kept. -/
theorem steps_guardInto (base : Stack g .reply) (kept : Option String)
    (hname : w.guards.find? name = some t) :
    Steps ⟨w, .reply, .run (.perform (.guardInto name kept)), base⟩
      ⟨(w.forgetGuard name).keep kept t, .reply, .give (.handle t), base⟩ := by
  refine .begin (n := @Next.done g .reply (.handle t)) base ?_
  change w.withGuard name _ = _
  rw [World.withGuard, hname]
  rfl

/-- A client that drops a guard has one reference less. -/
theorem Disciplined.owned_guardDrop {base : Stack g .reply}
    (h : Disciplined ledger ⟨w, .reply, .run (.perform (.guardDrop name)), base⟩)
    (hp : (Conduct.disciplined g).permits ledger
      ⟨w, .reply, .run (.perform (.guardDrop name)), base⟩)
    (hname : w.guards.find? name = some t) (i : g.Buffer) :
    owned ⟨w.forgetGuard name, .unit, .run (.release t), .push (.answering .done) base⟩
        ledger i + (if t.index = i.val then 1 else 0) =
      owned ⟨w, .reply, .run (.perform (.guardDrop name)), base⟩ ledger i := by
  have h' : Disciplined ledger
      ⟨w.forgetGuard name, .unit, .run (.release t), .push (.answering .done) base⟩ :=
    .step h hp (step_of_steps (steps_guardDrop base hname))
  have hle := h'.accounted.1.departs_le i
  have hstakes : (stakes ⟨w.forgetGuard name, .unit, .run (.release t),
      .push (.answering .done) base⟩).countP (Stake.Departs i) =
      base.stakes.countP (Stake.Departs i) + if t.index = i.val then 1 else 0 := by
    change Multiset.countP _ ({.departing t} + (0 + base.stakes)) = _
    rw [Multiset.zero_add, Multiset.singleton_add, Multiset.countP_cons]
    rfl
  have hbefore : stakes ⟨w, .reply, .run (.perform (.guardDrop name)), base⟩ = base.stakes :=
    Multiset.zero_add _
  unfold owned
  rw [hstakes] at hle ⊢
  rw [hbefore]
  omega

end Guards

/-! ## The account at every point of a run -/

/-- In every session of disciplined clients, whatever is suspended and whatever drivers
do, the counts of buffers are those of the references that clients have and calls
hold. -/
theorem Disciplined.accounts (h : m.Disciplined ledger) : m.Accounts ledger := by
  refine ⟨h.references_eq, ?_, ?_, ?_, ?_, ?_⟩
  · rintro s c base w rfl hc ledger' w' v hspan i
    have hadd := h.references_add (h.leads hspan) rfl rfl i
    rw [c.engaged_stakes hc, engaged_stakeOf] at hadd
    exact hadd
  · rintro t d n rest base w rfl ledger' w' hspan i
    have hadd := h.references_add (h.leads hspan) rfl rfl i
    exact Nat.add_right_cancel hadd
  · rintro a f v base w rfl hf m' hs i
    exact ⟨hs.references_of_keeps h.reachable.aimed hf i, hs.owned_of_keeps h.accounted.1 hf i⟩
  · rintro name t base w rfl hname hp
    exact ⟨_, steps_guardDrop base hname, rfl, Directory.find?_erase_self _ _,
      h.owned_guardDrop hp hname⟩
  · rintro name kept t base w rfl hname
    refine ⟨_, steps_guardInto base kept hname, rfl, Directory.find?_erase_self _ _, ?_,
      fun i => rfl⟩
    rintro x rfl
    exact Directory.find?_insert_self _ _ _

/-- A reference that is given back while its buffer is locked is still accounted for. -/
theorem accounts_of_release :
    ∃ ledger, ∃ m : Machine Geometry.small, m.Disciplined ledger ∧
      m.stakes = {.departing ⟨0, 1⟩} ∧ m.owned ledger Geometry.small.firstBuffer = 0 ∧
      (m.world.cache.header Geometry.small.firstBuffer).references = 1 ∧
      m.Accounts ledger := by
  have hstart : Disciplined [] (start ((World.initial Geometry.small).fresh [])
      (.register 1 ⟨1, .manual []⟩ [])) := .start [] _ ⟨rfl, rfl⟩
  have hacquired := ((hstart.after 20).following [] (.acquire ⟨257, 3⟩ (some "h"))).after 30
  have hissued := (hacquired.following [] (.issue .read "h")).after 30
  have h : Disciplined _ _ := (hissued.following [[.bufferCount]] (.release "h")).after 4
  exact ⟨_, _, h, by decide, by decide, by decide, h.accounts⟩

end Machine
end BufferCache
