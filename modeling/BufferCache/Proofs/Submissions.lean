import BufferCache.Proofs.Accounting
import BufferCache.Proofs.Clients
import BufferCache.Proofs.Consistency

/-!
# Clients that keep the buffers they submit

The device of a request is settled before its buffer is locked.  If the buffer were given
another block while the operation waits for the lock, the request would be for the wrong
device.  A client prevents this by keeping the reference that it started the operation
with until the operation is started.  It need not be disciplined otherwise, except that it
gives no reference back twice.

Operations that calls start for themselves are safe anyway: they have references of their
own, or find the buffer unlocked.
-/

namespace BufferCache

variable {g : Geometry}

/-! ## The discipline -/

/-- The handle of the reference that a command gives back. -/
def World.returns (w : World g) : Command → Option Handle
  | .release name => w.handles.find? name
  | .guardDrop name => w.guards.find? name
  | _ => none

/-- The handle of the reference that a client begins to give back in the first step of a
call. -/
def Call.returns {s : Shape} (w : World g) : Call g s → Option Handle
  | .perform command => w.returns command
  | _ => none

/-- A client's operation on the buffer with index `k` waits for the lock, and a suspended
call is about it. -/
def Stack.Submits (k : Nat) : {s : Shape} → Stack g s → Prop
  | _, .bottom => False
  | _, .push f rest =>
      f.locking?.map Fin.val = some k ∧ rest.answers = true ∨ rest.Submits k

instance Stack.decidableSubmits (k : Nat) :
    {s : Shape} → (stack : Stack g s) → Decidable (stack.Submits k)
  | _, .bottom => inferInstanceAs (Decidable False)
  | _, .push f rest =>
      have := decidableSubmits k rest
      inferInstanceAs (Decidable (f.locking?.map Fin.val = some k ∧ rest.answers = true ∨
        rest.Submits k))

namespace Machine

/-- The handle of the reference that a client begins to give back in the next step. -/
def returns : Machine g → Option Handle
  | ⟨w, _, .run d, _⟩ => d.returns w
  | _ => none

/-- A client's operation on the buffer with index `k` is being started, and the buffer is
not locked for it yet. -/
def Submits (k : Nat) : Machine g → Prop
  | ⟨_, _, .run d, stack⟩ => d.asks = some k ∧ stack.answers = true ∨ stack.Submits k
  | ⟨_, _, .give _, stack⟩ => stack.Submits k

instance (k : Nat) : (m : Machine g) → Decidable (m.Submits k)
  | ⟨_, _, .run d, stack⟩ =>
      inferInstanceAs (Decidable (d.asks = some k ∧ stack.answers = true ∨ stack.Submits k))
  | ⟨_, _, .give _, stack⟩ => inferInstanceAs (Decidable (stack.Submits k))

end Machine

/-- The conduct of clients that give each reference back at most once, and keep one to a
buffer while an operation of theirs on it is being started. -/
def Conduct.keeping (g : Geometry) : Conduct g (List Reference) where
  permits ledger m :=
    (∀ h, m.returns = some h →
      m.stakes.count (.departing h) < ledger.countP fun r => r.handle = h) ∧
    ∀ i : g.Buffer, m.Submits i.val → 0 < m.owned ledger i
  record ledger m := m.ledger ledger

instance (ledger : List Reference) (m : Machine g) :
    Decidable ((Conduct.keeping g).permits ledger m) :=
  inferInstanceAs (Decidable ((∀ h, m.returns = some h → _) ∧ _))

/-- The conduct of clients that see to it that a buffer keeps its device while an operation
waits to lock it. -/
def Conduct.steady (g : Geometry) : Conduct g Unit where
  permits _ m := ∀ m', m.step = .running m' → ∀ i, m.stack.Locking i →
    (m'.world.cache.header i).device = (m.world.cache.header i).device
  record _ _ := ()

/-! ## The account -/

/-- A command that changes the bytes or the marks of a buffer. -/
def Call.Edits {s : Shape} : Call g s → Prop
  | .perform (.fill _ _) | .perform (.write _ _ _) | .perform (.markDirty _)
  | .perform (.markValid _) | .perform (.guardWrite _ _ _) => True
  | _ => False

section References

variable {s : Shape} {w : World g} {d : Call g s}

/-- Apart from edits, a command demands a reference only in order to give it back. -/
theorem Call.demands_eq_returns (hd : ¬ d.Edits) : d.demands w = d.returns w := by
  cases d with
  | perform command => cases command <;> first | rfl | exact absurd trivial hd
  | _ => rfl

/-- Whoever edits holds no reference. -/
theorem Call.begin_edits (hd : d.Edits) (client : Bool) :
    (d.begin w).Ensures fun _ n => d.stakes client = 0 ∧ n.stakes client = 0 ∧ d.due = none := by
  cases d with
  | perform command =>
    cases command with
    | fill name byte =>
      exact World.withHandle_ensures (fun _ => ⟨rfl, rfl, rfl⟩) fun r =>
        Outcome.ensures_orFault fun c _ => Outcome.ensures_done ⟨rfl, rfl, rfl⟩
    | write name offset bytes =>
      exact World.withHandle_ensures (fun _ => ⟨rfl, rfl, rfl⟩) fun r =>
        Outcome.ensures_orFault fun c _ => Outcome.ensures_done ⟨rfl, rfl, rfl⟩
    | markDirty name =>
      exact World.withHandle_ensures (fun _ => ⟨rfl, rfl, rfl⟩) fun r =>
        Outcome.ensures_orFault fun c _ => Outcome.ensures_done ⟨rfl, rfl, rfl⟩
    | markValid name =>
      exact World.withHandle_ensures (fun _ => ⟨rfl, rfl, rfl⟩) fun r =>
        Outcome.ensures_orFault fun c _ => Outcome.ensures_done ⟨rfl, rfl, rfl⟩
    | guardWrite name offset bytes =>
      exact World.withGuard_ensures (fun _ => ⟨rfl, rfl, rfl⟩) fun r =>
        Outcome.ensures_orFault fun c _ => Outcome.ensures_done ⟨rfl, rfl, rfl⟩
    | _ => exact hd.elim
  | _ => exact hd.elim

end References

namespace Machine

variable {ledger : List Reference} {m m' : Machine g}

/-- The account is kept if no client gives a reference back that it does not have. -/
theorem Steps.accounted_of_returns (h : m.Steps m') (haimed : m.Aimed)
    (hchained : m.world.cache.buffers.Chained fun _ => True)
    (hp : ∀ r, m.returns = some r →
      m.stakes.count (.departing r) < ledger.countP fun t => t.handle = r)
    (ha : Accounted ledger m.world.cache m.stakes) :
    Accounted (m.ledger ledger) m'.world.cache m'.stakes := by
  have hsteps := h
  cases h with
  | resume stack hn => exact hsteps.keepsAccount haimed hchained nofun ha
  | @begin s w w' d n stack hn =>
    by_cases hedits : d.Edits
    · obtain ⟨hbefore, hafter, hdue⟩ := Call.begin_edits hedits stack.answers w' n hn
      obtain ⟨⟨e, -, happly, he⟩, -⟩ := (Call.begin_regular haimed.1 w).ensures w' n hn
      change Accounted ledger w.cache (d.stakes stack.answers + stack.stakes) at ha
      rw [hbefore] at ha
      rw [stakes_next, world_next, hafter, happly]
      refine ha.congr (e.sameReferences (fun a hea => ?_) w.cache)
      cases hdue.symm.trans (he a hea)
    · refine hsteps.keepsAccount haimed hchained (fun r hr => hp r ?_) ha
      exact (Call.demands_eq_returns hedits).symm.trans hr

end Machine

/-! ## Backing -/

/-- The call above the stack that starts an operation on the buffer with index `k` does so
for a call that has a reference to it, or for a client. -/
def Stack.Backs (k : Nat) : {s : Shape} → Stack g s → Prop
  | _, .bottom => False
  | _, .push f rest => f.Backs rest.answers k ∨ f.Passes ∧ rest.Backs k

/-- Suspended calls that wait for a lock are backed. -/
def Stack.Backed : {s : Shape} → Stack g s → Prop
  | _, .bottom => True
  | _, .push f rest => (∀ k, f.asks = some k → rest.Backs k) ∧ rest.Backed

/-- Whoever asks for a reference has it, directly or through a client who does. -/
theorem Stack.holds_of_backs {s : Shape} {f : Frame g .unit s} {rest : Stack g s} {i : g.Buffer}
    {exact : Prop} {c : Cache g} (hf : f.locking? = some i)
    (horderly : (Stack.push f rest).Orderly exact c) (hbacks : rest.Backs i.val) :
    (∃ h, .hold h ∈ (Stack.push f rest).stakes ∧ h.index = i.val) ∨
      (Stack.push f rest).Submits i.val := by
  have hover : f.grants = .nothing := by
    cases f <;> first | rfl | cases hf
  cases rest with
  | bottom => exact hbacks.elim
  | push f' rest' =>
    rcases hbacks with (hanswers | ⟨h, hh, hindex⟩) | ⟨hpasses, -⟩
    · exact .inr (.inl ⟨by rw [hf]; rfl, hanswers⟩)
    · refine .inl ⟨h, ?_, hindex⟩
      exact Multiset.mem_add.mpr (.inr (Multiset.mem_add.mpr (.inl hh)))
    · -- Nobody waits for a lock on behalf of another who does.
      have hserves := horderly.1
      rw [hover] at hserves
      cases f' with
      | locking op j d => rcases hserves with h | ⟨h, -⟩ <;> cases h
      | _ => exact hpasses.elim

/-- A buffer that is waited for is referenced: by the call that the operation is for, or by
the client. -/
theorem Stack.holds_of_locking {s : Shape} {stack : Stack g s} {exact : Prop} {c : Cache g}
    (horderly : stack.Orderly exact c) (hbacked : stack.Backed) {i : g.Buffer} :
    ∀ {a : Shape} {f : Frame g a s}, f.grants.Serves stack.wishes →
      (∀ k, f.asks = some k → stack.Backs k) → stack.Locking i →
      (∃ h, .hold h ∈ stack.stakes ∧ h.index = i.val) ∨ stack.Submits i.val := by
  induction stack with
  | bottom => exact fun _ _ h => h.elim
  | push f' rest ih =>
    intro a f hserves hasks hlocking
    rcases hlocking with hf' | hrest
    · cases f' with
      | locking op j d =>
        obtain rfl : j = i := Option.some.inj hf'
        have hgrants : f.grants = .locked j := by
          rcases hserves with h | ⟨h, -⟩
          · exact h.symm
          · cases h
        have hlock : f.asks = some j.val := by
          cases f <;> cases hgrants
          rfl
        rcases hasks _ hlock with (hanswers | ⟨h, hh, -⟩) | ⟨-, hbacks⟩
        · cases hanswers
        · exact absurd hh (Multiset.notMem_zero _)
        · exact holds_of_backs rfl horderly hbacks
      | _ => cases hf'
    · rcases ih horderly.2.2 hbacked.2 horderly.1 hbacked.1 hrest with ⟨h, hh, hindex⟩ | hsubmits
      · exact .inl ⟨h, Multiset.mem_add.mpr (.inr hh), hindex⟩
      · exact .inr (.inr hsubmits)

namespace Machine

variable {ledger : List Reference} {m m' : Machine g}

/-- Operations that are started or wait for a lock are backed, unless the lock is free. -/
def Backed : Machine g → Prop
  | ⟨w, _, .run d, stack⟩ =>
      (∀ k, d.asks = some k → stack.Backs k ∨ w.cache.Unlocked k) ∧ stack.Backed
  | ⟨_, _, .give _, stack⟩ => stack.Backed

theorem backed_next {s : Shape} {n : Next g s} {w w' : World g} {exact : Prop} {grants : Wish g}
    {asks : Option Nat} {stack : Stack g s}
    (hn : n.Follows exact stack.answers grants asks w.cache w'.cache)
    (hasks : ∀ k, asks = some k → stack.Backs k ∨ w.cache.Unlocked k) (hstack : stack.Backed) :
    (n.machine w' stack).Backed := by
  cases n with
  | done v => exact hstack
  | goto d =>
    refine ⟨fun k hk => ?_, hstack⟩
    rcases hn.asks with hnone | ⟨hsame, hcache⟩
    · cases hnone.symm.trans hk
    · rw [hcache]
      exact hasks k (hsame.symm.trans hk)
  | call d f =>
    refine ⟨fun k hk => ?_, fun k hk => ?_, hstack⟩
    · rcases hn.backs k hk with hbacks | ⟨hpasses, hsame, hcache⟩ | hunlocked
      · exact .inl (.inl hbacks)
      · rw [hcache]
        exact (hasks k hsame).imp_left fun hbacks => .inr ⟨hpasses, hbacks⟩
      · exact .inr hunlocked
    · obtain ⟨hsame, hlocked⟩ := hn.waits k hk
      exact (hasks k hsame).resolve_right hlocked

theorem Steps.backed {exact : Prop} (h : m.Steps m') (horderly : m.Orderly exact)
    (hm : m.Backed) : m'.Backed := by
  cases h with
  | @begin s w w' d n stack hn =>
    obtain ⟨-, hfollows⟩ := Call.begin_orderly horderly.2.1 stack.answers w' n hn
    exact backed_next hfollows hm.1 hm.2
  | @resume a s w w' f v n stack hn =>
    obtain ⟨hv, -, hsound, -⟩ := horderly
    obtain ⟨-, hfollows⟩ := Frame.resume_orderly hsound hv stack.answers w' n hn
    exact backed_next hfollows (fun k hk => .inl (hm.1 k hk)) hm.2

/-- A buffer that is waited for is not given another block. -/
theorem Steps.content_of_locking {exact : Prop} (h : m.Steps m') (haimed : m.Aimed)
    (horderly : m.Orderly exact) (hbacked : m.Backed)
    (ha : Accounted ledger m.world.cache m.stakes)
    (hsubmits : ∀ i : g.Buffer, m.Submits i.val → 0 < m.owned ledger i) {i : g.Buffer}
    (hi : m.stack.Locking i) :
    (m'.world.cache.header i).content = (m.world.cache.header i).content := by
  obtain ⟨⟨e, hfits, happly, hdue⟩, -⟩ := h.affects haimed
  rw [happly]
  refine (Effect.keeps_of_ne hfits ?_).1
  rintro b s rfl
  have hreferenced : (m.world.cache.header i).references ≠ 0 := by
    have hassign := hdue _ rfl
    obtain ⟨w, shape, control, stack⟩ := m
    match control, stack with
    | .run d, stack =>
      change d.due = _ at hassign
      cases d <;> cases hassign
    | .give v, .bottom => cases hassign
    | .give v, .push f rest =>
      have htop : f.locking? = none := by
        cases f <;> first | rfl | cases hassign
      have hrest : rest.Locking i := hi.resolve_left fun hf => by cases htop.symm.trans hf
      obtain ⟨-, hserves, -, horderly'⟩ := horderly
      rcases Stack.holds_of_locking horderly' hbacked.2 hserves hbacked.1 hrest with
        ⟨t, ht, hindex⟩ | hsub
      · refine ha.references_of_counts (s := .hold t) ?_ hindex
        exact Multiset.mem_add.mpr (.inr (Multiset.mem_add.mpr (.inr ht)))
      · have howned := hsubmits i (.inr hsub)
        have hreferences := references_eq ha i
        omega
  exact hreferenced hfits.1

/-! ## Runs -/

/-- Clients of a new cache that keep what they submit come to this machine, with this
ledger. -/
def Keeping (ledger : List Reference) (m : Machine g) : Prop :=
  (Conduct.keeping g).Run (fun w l => w = World.initial g ∧ l = []) ledger m

/-- A run of a new cache in which buffers keep their devices while operations wait to lock them
comes to this machine. -/
def Steady (m : Machine g) : Prop :=
  (Conduct.steady g).Run (fun w _ => w = World.initial g) () m

/-- As long as buffers keep their devices while operations wait to lock them, requests are for
these devices as well. -/
theorem Steady.consistent (h : m.Steady) : m.Consistent True := by
  refine @Conduct.Run.invariant g Unit _ _ (fun _ => Consistent True) ?_ ?_ ?_ () m h
  · rintro w _ waiting c rfl
    exact consistent_start True waiting c
  · intro _ m m' hm hp hs
    exact hs.consistent hm fun _ i hi => hp m' (step_of_steps hs) i hi
  · intro _ w a waiting c hm
    exact hm.next waiting c

/-- Clients that keep what they submit see to that. -/
theorem Keeping.steady (h : m.Keeping ledger) : m.Steady := by
  let Inv (ledger : List Reference) (m : Machine g) : Prop :=
    m.Reachable ∧ Accounted ledger m.world.cache m.stakes ∧ m.Backed ∧ m.Steady
  suffices hm : Inv ledger m from hm.2.2.2
  refine Conduct.Run.invariant (fun w l waiting c hw => ?_) (fun l m m' hm hp hs => ?_)
    (fun l w a waiting c hm => ?_) h
  · obtain ⟨rfl, rfl⟩ := hw
    exact ⟨reachable_start waiting c, accounted_initial g, ⟨nofun, trivial⟩, .start waiting c rfl⟩
  · obtain ⟨hreach, ha, hbacked, hsteady⟩ := hm
    have horderly := hreach.consistent.orderly
    refine ⟨hreach.moves (.step hs), hs.accounted_of_returns hreach.aimed hreach.chained hp.1 ha,
      hs.backed horderly hbacked, .step hsteady (fun m₁ hm₁ i hi => ?_) (step_of_steps hs)⟩
    have hcontent := (steps_of_step hm₁).content_of_locking hreach.aimed horderly hbacked ha hp.2 hi
    exact congrArg Block.device (Cache.blockOf_congr hcontent)
  · obtain ⟨hreach, ha, -, hsteady⟩ := hm
    exact ⟨hreach.moves (.next waiting c), ha, ⟨nofun, trivial⟩,
      .next waiting c hsteady nofun rfl⟩

/-- So if clients do, requests are for the devices of their buffers as well. -/
theorem Keeping.consistent (h : m.Keeping ledger) : m.Consistent True :=
  h.steady.consistent

end Machine
end BufferCache
