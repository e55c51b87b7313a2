import BufferCache.Proofs.Holdings
import BufferCache.Proofs.StepEffects

/-!
# What suspended calls wait for

A suspended call waits for more than the end of the call above it: to be woken, or to
find a buffer unlocked, or to have it locked for it.  A `Wish` says what, and each call
grants one.  On the stack, whatever a suspended call wishes is what the call above it
grants.

A buffer that was locked for a call is *claimed* by it until a request is queued for the
buffer or the buffer is unlocked again.  Claims go with the value that a call which locks
a buffer gives, with the call that is to queue a request, and with one that waits for a
slot.  `World.Shifts` says what a step does to the claims, by way of its effect.

Which device a request is for is settled before the buffer is locked.  What is said of it
therefore holds only of clients who see to it that the buffer keeps its block, and comes
with the assumption `exact`: it is false where nothing is assumed of clients.
-/

namespace BufferCache

variable {g : Geometry}

/-! ## Wishes -/

/-- What a suspended call waits for. -/
inductive Wish (g : Geometry) where
  /-- The end of the call above, no more. -/
  | nothing
  /-- A wake-up of a queue. -/
  | woken (q : Queue g)
  /-- That a buffer is unlocked. -/
  | unlocked (i : g.Buffer)
  /-- That a buffer is locked for it. -/
  | locked (i : g.Buffer)
  /-- A look-up of a block. -/
  | found (b : Block)
  deriving DecidableEq

namespace Wish

/-- What has come true once a value is given. -/
def Granted (c : Cache g) {s : Shape} (v : s.Value g) : Wish g → Prop
  | unlocked i => (c.header i).locked = false
  | found b => s.hold? v = none → c.buffers.locate b = none
  | _ => True

/-- The buffer that is handed over locked. -/
def claim? : Wish g → Option g.Buffer
  | locked i => some i
  | _ => none

/-- Whether it may be granted to one who wishes nothing: claims and wake-ups may not. -/
def optional : Wish g → Bool
  | locked _ | woken _ => false
  | _ => true

theorem claim?_of_optional {granted : Wish g} (h : granted.optional = true) :
    granted.claim? = none := by
  cases granted <;> first | rfl | cases h

/-- What is granted serves a wish if it is what is wished, or if nothing is wished and it may
be granted all the same. -/
def Serves (granted wished : Wish g) : Prop :=
  wished = granted ∨ wished = nothing ∧ granted.optional = true

end Wish

/-- What a call grants. -/
def Call.grants {s : Shape} : Call g s → Wish g
  | .sleep q _ => .woken q
  | .awaitUnlock i => .unlocked i
  | .lock i => .locked i
  | .lookUp b => .found b
  | _ => .nothing

/-- What a suspended call will grant. -/
def Frame.grants {a s : Shape} : Frame g a s → Wish g
  | .sleeping q _ => .woken q
  | .awaitingUnlock i => .unlocked i
  | .awaitingLock i => .locked i
  | .pinning b _ => .found b
  | _ => .nothing

/-- What a suspended call wishes. -/
def Frame.wishes {a s : Shape} : Frame g a s → Wish g
  | .awaitingUnlock i | .awaitingLock i => .woken (.unlock i)
  | .starving _ => .woken .release
  | .awaitingVacancy _ _ _ _ => .woken .vacancy
  | .pinning _ i | .awaitingVictim _ i | .releasing _ i | .flushAwaiting _ _ _ i _
  | .discardAwaiting _ i _ => .unlocked i
  | .settling h | .collecting h _ _ _ _ => .unlocked h.buffer
  | .locking _ i _ => .locked i
  | .lookingUp b => .found b
  | _ => .nothing

/-! ## Sleep -/

/-- A sleep begins with the ticket of the day. -/
def Call.Ticketed {s : Shape} (c : Cache g) : Call g s → Prop
  | .sleep q ticket => ticket = (c.queue q).ticket
  | _ => True

/-- A suspended call that goes to sleep finds what it needs missing. -/
def Frame.Stalled {a s : Shape} (c : Cache g) : Frame g a s → Prop
  | .awaitingUnlock i | .awaitingLock i => (c.header i).locked = true
  | .starving b => c.buffers.victim = .ok none ∧ c.buffers.locate b = none
  | .awaitingVacancy op _ _ _ => c.requests.freeSlot op.direction = none
  | _ => True

/-! ## Claims -/

/-- How often a buffer is in an option. -/
def one : Option g.Buffer → g.Buffer → Nat
  | none, _ => 0
  | some i, j => if i = j then 1 else 0

/-- The buffer that a call is about to queue a request for. -/
def Call.claim? {s : Shape} : Call g s → Option g.Buffer
  | .enqueue _ i _ _ => some i
  | _ => none

/-- The buffer that a suspended call waits to queue a request for. -/
def Frame.claim? {a s : Shape} : Frame g a s → Option g.Buffer
  | .awaitingVacancy _ i _ _ => some i
  | _ => none

/-- The claims of what comes next, above a call that wishes what is granted. -/
def Next.claims {s : Shape} (grants : Wish g) : Next g s → g.Buffer → Nat
  | .done _ => one grants.claim?
  | .goto d => one d.claim?
  | .call d f => fun i => one d.claim? i + one f.claim? i

/-- What a call knows that is to queue a request, or waits to. -/
def Cache.Places (c : Cache g) (exact : Prop) (i : g.Buffer) (b : Block) : Prop :=
  (c.driver? b.device.major).isSome = true ∧ (c.header i).number = b.number ∧
    (exact → (c.header i).device = b.device)

/-- What is known of the request that a call is about to queue. -/
def Call.Sound {s : Shape} (exact : Prop) (c : Cache g) : Call g s → Prop
  | .enqueue _ i d number => c.Places exact i ⟨d, number⟩
  | _ => True

/-- What is known of the request that a suspended call is for. -/
def Frame.Sound {a s : Shape} (exact : Prop) (c : Cache g) : Frame g a s → Prop
  | .locking _ i d => (c.driver? d.major).isSome = true ∧ (exact → (c.header i).device = d)
  | .awaitingVacancy _ i d number => c.Places exact i ⟨d, number⟩
  | _ => True

namespace Effect

/-- The buffer that is claimed from now on. -/
def takes : Effect g → Option g.Buffer
  | .lock i => some i
  | _ => Option.none

/-- The buffer that is no longer claimed. -/
def frees : Effect g → Option g.Buffer
  | .unlock i => some i
  | .queue false _ i _ _ => some i
  | _ => Option.none

/-- A request that is queued is for the block in its buffer, and has a driver. -/
def Apt (exact : Prop) (c : Cache g) : Effect g → Prop
  | .queue _ _ i b _ => c.Places exact i b
  | _ => True

/-- Effects that have nothing to do with claims. -/
def Idle : Effect g → Prop
  | .lock _ | .unlock _ | .queue _ _ _ _ _ => False
  | _ => True

end Effect

/-- A step from `w` to `w'` has an effect, which turns the claims `before` into those
`after`. -/
def World.Shifts (w : World g) (exact : Prop) (before after : g.Buffer → Nat) (w' : World g) :
    Prop :=
  ∃ e : Effect g, e.Fits w.cache ∧ w'.cache = e.apply w.cache ∧ e.Apt exact w.cache ∧
    ∀ i, after i + one e.frees i = before i + one e.takes i

/-! ## Operations that are started -/

/-- The index of the buffer on which a call starts an operation or waits to. -/
def Call.asks {s : Shape} : Call g s → Option Nat
  | .issue _ h => some h.index
  | .request _ i | .lock i => some i.val
  | _ => none

/-- The same for a suspended call. -/
def Frame.asks {a s : Shape} : Frame g a s → Option Nat
  | .awaitingLock i => some i.val
  | _ => none

/-- Whether a suspended call has a reference to the buffer with index `k`, or leaves it to
its client to have one. -/
def Frame.Backs {a s : Shape} (client : Bool) (k : Nat) (f : Frame g a s) : Prop :=
  f.answers = true ∨ ∃ h, .hold h ∈ f.stakes client ∧ h.index = k

/-- Whether a suspended call starts an operation for the one beneath it. -/
def Frame.Passes {a s : Shape} : Frame g a s → Prop
  | .locking _ _ _ => True
  | _ => False

/-- The buffer with index `k`, if there is one, is unlocked. -/
def Cache.Unlocked (c : Cache g) (k : Nat) : Prop :=
  ∀ i : g.Buffer, i.val = k → (c.header i).locked = false

/-! ## Steps -/

/-- A call goes on as another one, which grants the same; the cache is `c` before and `c'`
after the step. -/
structure Call.Continues {s : Shape} (exact : Prop) (grants : Wish g) (asks : Option Nat)
    (c c' : Cache g) (d : Call g s) : Prop where
  /-- It grants the same. -/
  grants : d.grants = grants
  /-- What it is about to queue is sound. -/
  sound : d.Sound exact c'
  /-- It asks for nothing else. -/
  asks : d.asks = none ∨ d.asks = asks ∧ c' = c

/-- A call is suspended on another one, which grants what it wishes. -/
structure Frame.Awaits {a s : Shape} (exact : Prop) (client : Bool) (grants : Wish g)
    (asks : Option Nat) (c c' : Cache g) (d : Call g a) (f : Frame g a s) : Prop where
  /-- It will grant the same as before. -/
  grants : f.grants = grants
  /-- Its wish is served. -/
  served : d.grants.Serves f.wishes
  /-- What the call is about to queue is sound. -/
  sound_call : d.Sound exact c'
  /-- What it is itself about is sound. -/
  sound : f.Sound exact c'
  /-- If the call sleeps, its ticket is that of the day. -/
  ticketed : d.Ticketed c'
  /-- What it waits for is missing. -/
  stalled : f.Stalled c'
  /-- An operation that is started is backed, or will not have to wait. -/
  backs : ∀ k, d.asks = some k →
    f.Backs client k ∨ (f.Passes ∧ asks = some k ∧ c' = c) ∨ c'.Unlocked k
  /-- It waits for the lock of a buffer only where an operation was started on it. -/
  waits : ∀ k, f.asks = some k → asks = some k ∧ ¬ c.Unlocked k

/-- What comes next is in order, above a call that wishes what is granted. -/
def Next.Follows {s : Shape} (exact : Prop) (client : Bool) (grants : Wish g)
    (asks : Option Nat) (c c' : Cache g) : Next g s → Prop
  | .done v => grants.Granted c' v
  | .goto d => d.Continues exact grants asks c c'
  | .call d f => f.Awaits exact client grants asks c c' d

/-- A step is in order, of a call that is to grant `grants`, claims the buffer `held` and
asks for the buffer `asks`; `client` if an answer awaits its end. -/
def Outcome.Orderly {s : Shape} (o : Outcome g s) (exact : Prop) (client : Bool) (w : World g)
    (grants : Wish g) (held : Option g.Buffer) (asks : Option Nat) : Prop :=
  o.Ensures fun w' n => w.Shifts exact (one held) (n.claims grants) w' ∧
    n.Follows exact client grants asks w.cache w'.cache

namespace World

variable {s : Shape} {exact : Prop} {client : Bool} {w w' : World g} {grants : Wish g}
  {held : Option g.Buffer} {asks : Option Nat} {before : g.Buffer → Nat}

/-! ## Shifts of claims -/

theorem shifts_of_eq (h : w'.cache = w.cache) : w.Shifts exact before before w' :=
  ⟨.none, trivial, h, trivial, fun _ => rfl⟩

theorem shifts_of_idle (e : Effect g) (hidle : e.Idle) (hfits : e.Fits w.cache)
    (h : w'.cache = e.apply w.cache) : w.Shifts exact before before w' := by
  have hclaims : e.takes = none ∧ e.frees = none ∧ e.Apt exact w.cache := by
    cases e <;> first | exact ⟨rfl, rfl, trivial⟩ | exact hidle.elim
  refine ⟨e, hfits, h, hclaims.2.2, fun i => ?_⟩
  rw [hclaims.1, hclaims.2.1]

/-! ## Ways to go on -/

theorem orderly_done {v : s.Value g} (h : w.Shifts exact (one held) (one grants.claim?) w')
    (hv : grants.Granted w'.cache v) :
    Outcome.Orderly (w'.done v) exact client w grants held asks :=
  Outcome.ensures_done ⟨h, hv⟩

theorem orderly_goto {d : Call g s} (h : w.Shifts exact (one held) (one d.claim?) w')
    (hd : d.Continues exact grants asks w.cache w'.cache) :
    Outcome.Orderly (w'.goto d) exact client w grants held asks :=
  Outcome.ensures_goto ⟨h, hd⟩

theorem orderly_call {a : Shape} {d : Call g a} {f : Frame g a s}
    (h : w.Shifts exact (one held) (fun i => one d.claim? i + one f.claim? i) w')
    (hf : f.Awaits exact client grants asks w.cache w'.cache d) :
    Outcome.Orderly (w'.call d f) exact client w grants held asks :=
  Outcome.ensures_call ⟨h, hf⟩

end World

/-! ## Simple calls -/

/-- Calls that neither sleep nor have to do with locking and queueing. -/
def Call.Simple {s : Shape} : Call g s → Prop
  | .sleep _ _ | .issue _ _ | .request _ _ | .lock _ | .enqueue _ _ _ _ => False
  | _ => True

/-- Suspended calls that neither sleep nor have to do with locking and queueing. -/
def Frame.Simple {a s : Shape} : Frame g a s → Prop
  | .awaitingUnlock _ | .awaitingLock _ | .starving _ | .locking _ _ _
  | .awaitingVacancy _ _ _ _ => False
  | _ => True

theorem Call.Simple.continues {s : Shape} {exact : Prop} {asks : Option Nat} {c c' : Cache g}
    {d : Call g s} (hd : d.Simple) : d.Continues exact d.grants asks c c' ∧ d.claim? = none := by
  cases d <;> first | exact ⟨⟨rfl, trivial, .inl rfl⟩, rfl⟩ | exact hd.elim

theorem Frame.Simple.awaits {a s : Shape} {exact : Prop} {client : Bool} {asks : Option Nat}
    {c c' : Cache g} {d : Call g a} {f : Frame g a s} (hf : f.Simple) (hd : d.Simple)
    (hserved : d.grants.Serves f.wishes) :
    f.Awaits exact client f.grants asks c c' d ∧ d.claim? = none ∧ f.claim? = none := by
  have hcall : d.Sound exact c' ∧ d.Ticketed c' ∧ d.asks = none ∧ d.claim? = none := by
    cases d <;> first | exact ⟨trivial, trivial, rfl, rfl⟩ | exact hd.elim
  have hframe : f.Sound exact c' ∧ f.Stalled c' ∧ f.asks = none ∧ f.claim? = none := by
    cases f <;> first | exact ⟨trivial, trivial, rfl, rfl⟩ | exact hf.elim
  obtain ⟨hsound, hticketed, hasks, hclaim⟩ := hcall
  obtain ⟨hsound', hstalled, hasks', hclaim'⟩ := hframe
  refine ⟨⟨rfl, hserved, hsound, hsound', hticketed, hstalled, fun k hk => ?_, fun k hk => ?_⟩,
    hclaim, hclaim'⟩
  · cases hasks.symm.trans hk
  · cases hasks'.symm.trans hk

namespace World

variable {s : Shape} {exact : Prop} {client : Bool} {w w' : World g} {grants : Wish g}
  {asks : Option Nat}

theorem goto_simple_of {d : Call g s} (h : w.Shifts exact (one none) (one none) w')
    (hd : d.Simple) : Outcome.Orderly (w'.goto d) exact client w d.grants none asks := by
  refine orderly_goto ?_ hd.continues.1
  rw [(@Call.Simple.continues g s exact asks w.cache w'.cache d hd).2]
  exact h

theorem call_simple_of {a : Shape} {d : Call g a} {f : Frame g a s}
    (h : w.Shifts exact (one none) (one none) w') (hd : d.Simple) (hf : f.Simple)
    (hserved : d.grants.Serves f.wishes) :
    Outcome.Orderly (w'.call d f) exact client w f.grants none asks := by
  obtain ⟨hawaits, hclaim, hclaim'⟩ :=
    @Frame.Simple.awaits g a s exact client asks w.cache w'.cache d f hf hd hserved
  refine orderly_call ?_ hawaits
  rw [hclaim, hclaim']
  exact h

theorem done_simple {v : s.Value g} (h : w'.cache = w.cache) :
    Outcome.Orderly (w'.done v) exact client w .nothing none asks :=
  orderly_done (shifts_of_eq h) trivial

theorem goto_simple {d : Call g s} (h : w'.cache = w.cache) (hd : d.Simple) :
    Outcome.Orderly (w'.goto d) exact client w d.grants none asks :=
  goto_simple_of (shifts_of_eq h) hd

theorem call_simple {a : Shape} {d : Call g a} {f : Frame g a s} (h : w'.cache = w.cache)
    (hd : d.Simple) (hf : f.Simple) (hserved : d.grants.Serves f.wishes) :
    Outcome.Orderly (w'.call d f) exact client w f.grants none asks :=
  call_simple_of (shifts_of_eq h) hd hf hserved

end World
end BufferCache
