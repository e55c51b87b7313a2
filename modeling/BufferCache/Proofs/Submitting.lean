import BufferCache.Proofs.Filing

/-!
# How the start of an operation ends

The start of an operation ends in one of three manners.  It is *dropped* if the operation is ahead
of need and would have to wait for the lock.  It is *skipped* if there is nothing to do once the
buffer is locked, or if the operation is ahead of need and would have to wait for a slot; then the
buffer is unlocked at once, of which only those who wait for that notice anything.  Otherwise a
request is *filed*, and the driver is started if it had none before.

Other tasks may run while the operation waits for the lock or for a slot.  `Idles` tells what they
do from what the operation does itself: until it locks the buffer that is nothing, and between the
lock and the filing it is nothing again.  Where it takes the lock is determined by the run, and with
it the manner; so `Reachable.submitsOnce` says that there is exactly one.
-/

namespace BufferCache

variable {g : Geometry}

namespace Machine

/-! ## What an operation has done so far -/

section Submissions

variable {s : Shape} (op : Operation) (i : g.Buffer) (d : DeviceNumber) (b : Block)
  (base : Stack g .unit) (m : Machine g)

/-- Others may have run, but the call above `base` has changed nothing itself. -/
def Idles (base : Stack g s) : Machine g → Machine g → Prop :=
  Relation.ReflTransGen fun x y =>
    ¬ x.Returned base ∧ x.Moves y ∧ (x.AtWork base → y.world.cache = x.world.cache)

/-- The call above `base` has itself started these drivers, told by their major numbers. -/
inductive Kicks : List Nat → Machine g → Prop
  | refl : Kicks [] m
  | start {kicked : List Nat} {w : World g} {major : Nat} {y : Machine g} :
      Kicks kicked ⟨w, .unit, .run (.start major), base⟩ →
      Moves ⟨w, .unit, .run (.start major), base⟩ y → Kicks (kicked ++ [major]) y
  | pass {kicked : List Nat} {x y : Machine g} : Kicks kicked x →
      (∀ w major, x ≠ ⟨w, .unit, .run (.start major), base⟩) → ¬ x.Returned base → x.Moves y →
      Kicks kicked y

/-- The operation on buffer `i` is about to lock it, and finds it unlocked. -/
inductive Secures : Machine g → Prop
  | lock {w : World g} : op.ahead = false → (w.cache.header i).locked = false →
      Secures ⟨w, .unit, .run (.lock i), .push (.locking op i d) base⟩
  | ahead {w : World g} : op.ahead = true → (w.cache.header i).locked = false →
      (w.cache.header i).device = d → Secures ⟨w, .unit, .run (.request op i), base⟩

/-- Since the operation locked its buffer at `x`, it has changed nothing itself but to file its
request, which it did in the cache `c`. -/
inductive Retains (x : Machine g) : Cache g → Machine g → Prop
  | ahead {z : Machine g} : op.ahead = true → x.Moves z → Retains x (x.world.cache.lock i) z
  | after {x' y z : Machine g} : op.ahead = false → x.Moves x' →
      x'.world.cache = x.world.cache.lock i → Idles base x' y → y.AtWork base → y.Moves z →
      Retains x y.world.cache z

/-- The operation locked its buffer at `x` and filed its request for block `b` in the cache `c`, by
which it came to `z`. -/
structure FilesRequest (x : Machine g) (c : Cache g) (slot : g.Slot) (z : Machine g) :
    Prop where
  /-- It had changed nothing before. -/
  idles : Idles base m x
  /-- It locked the buffer. -/
  secures : Secures op i b.device base x
  /-- There was something to do. -/
  wanted : World.needless op (x.world.cache.header i) = false
  /-- There was a slot if it was ahead of need. -/
  room : op.ahead = true → x.world.cache.requests.freeSlot op.direction ≠ none
  /-- It changed nothing between the lock and the filing. -/
  obtains : Retains op i base x c z
  /-- The request was filed. -/
  filed : c.Filed op.direction i b slot z.world.cache

/-- The manners in which the start of an operation can end. -/
inductive Manner where
  /-- The operation would have had to wait for the lock. -/
  | dropped
  /-- There was nothing to do, or no slot. -/
  | skipped
  /-- A request was filed. -/
  | filed
  deriving DecidableEq

/-- The start of an operation on buffer `i`, which holds block `b`, began at `m` above `base` and
has ended at `n`, in one of the manners. -/
inductive Concludes (n : Machine g) : Manner → Prop
  /-- The operation was ahead of need and its buffer locked, and the cache is as it was. -/
  | dropped : op.ahead = true → (m.world.cache.header i).locked = true → Idles base m n →
      Leads (AtWork base) m n → n.world.cache = m.world.cache → Kicks base m [] n →
      Concludes n .dropped
  /-- The buffer was locked at `x`, and unlocked before others could run.  All that is left of this
  is that those who wait for the unlocking are woken. -/
  | skipped {x : Machine g} : Idles base m x → Secures op i b.device base x →
      World.needless op (x.world.cache.header i) = true ∨
        op.ahead = true ∧ x.world.cache.requests.freeSlot op.direction = none →
      Leads (AtWork base) x n → n.world.cache = x.world.cache.wake (.unlock i) →
      Kicks base m [] n → Concludes n .skipped
  /-- The buffer was locked and a request was filed.  If the chain of the driver was empty, the
  operation went on to start the driver, once; otherwise it was over. -/
  | filed {x z : Machine g} {c : Cache g} {slot : g.Slot} :
      FilesRequest op i b base m x c slot z →
      (if c.requests.chain b.device.major = [] then
        ∃ w, z = ⟨w, .unit, .run (.start b.device.major), base⟩ else z = n) →
      Leads (¬ Returned base ·) z n →
      Kicks base m (if c.requests.chain b.device.major = [] then [b.device.major] else []) n →
      Concludes n .filed

end Submissions

/-! ## Where the start of an operation has come to -/

variable {op : Operation} {i : g.Buffer} {b : Block} {base : Stack g .unit} {m n n' : Machine g}
  {kicked : List Nat} {slot : g.Slot}

/-- The operation has had its lock since `x`, and waits for a slot. -/
structure AwaitsSlot (op : Operation) (i : g.Buffer) (d : DeviceNumber) (base : Stack g .unit)
    (m x n : Machine g) : Prop where
  /-- It is not ahead of need. -/
  patient : op.ahead = false
  /-- It had changed nothing before it took the lock. -/
  idles : Idles base m x
  /-- There it took the lock. -/
  secures : Secures op i d base x
  /-- There was something to do. -/
  wanted : World.needless op (x.world.cache.header i) = false
  /-- It has changed nothing since. -/
  holds : ∃ x', x.Moves x' ∧ x'.world.cache = x.world.cache.lock i ∧ Idles base x' n

/-- Where the start of an operation has come to before a request is filed. -/
inductive Preparing (op : Operation) (i : g.Buffer) (d : DeviceNumber) (base : Stack g .unit)
    (m : Machine g) : Machine g → Prop
  | begins {n : Machine g} : n.Begins op i base → Idles base m n → Leads (AtWork base) m n →
      n.world.cache = m.world.cache → Preparing op i d base m n
  | lock {w : World g} : op.ahead = false →
      Idles base m ⟨w, .unit, .run (.lock i), .push (.locking op i d) base⟩ →
      Preparing op i d base m ⟨w, .unit, .run (.lock i), .push (.locking op i d) base⟩
  | asleep {n : Machine g} {w : World g} {q : Queue g} {ticket : UInt64} : op.ahead = false →
      Idles base m n →
      Leads (¬ Returned (.push (.awaitingLock i) (.push (.locking op i d) base)) ·)
        ⟨w, .unit, .run (.sleep q ticket), .push (.awaitingLock i) (.push (.locking op i d) base)⟩
        n → Preparing op i d base m n
  | locked {x : Machine g} {w : World g} {v : Unit} : op.ahead = false → Idles base m x →
      Secures op i d base x →
      x.Moves ⟨w, .unit, .give v, .push (.locking op i d) base⟩ →
      w.cache = x.world.cache.lock i →
      Preparing op i d base m ⟨w, .unit, .give v, .push (.locking op i d) base⟩
  | waiting {x n : Machine g} {w : World g} {q : Queue g} {ticket : UInt64}
      {number : BlockNumber} : AwaitsSlot op i d base m x n →
      Leads (¬ Returned (.push (.awaitingVacancy op i d number) base) ·)
        ⟨w, .unit, .run (.sleep q ticket), .push (.awaitingVacancy op i d number) base⟩ n →
      Preparing op i d base m n
  | enqueue {x : Machine g} {w : World g} {number : BlockNumber} :
      AwaitsSlot op i d base m x ⟨w, .unit, .run (.enqueue op i d number), base⟩ →
      Preparing op i d base m ⟨w, .unit, .run (.enqueue op i d number), base⟩

/-- Where a driver that was started above `base` has come to. -/
inductive Driving (base : Stack g .unit) : Machine g → Prop
  | serve {w : World g} {major : Nat} : Driving base ⟨w, .unit, .run (.serve major), base⟩
  | play {w : World g} {script : Script} : Driving base ⟨w, .unit, .run (.play script), base⟩
  | playing {n : Machine g} {rest : Script} :
      (Stack.push (.playing rest) base).Beneath n.stack → Driving base n
  | returned {w : World g} {v : Unit} : Driving base ⟨w, .unit, .give v, base⟩

/-- Where the start of an operation has come to, and which drivers it has started. -/
inductive Submitting (op : Operation) (i : g.Buffer) (b : Block) (base : Stack g .unit)
    (m : Machine g) : Machine g → Prop
  | prepares {n : Machine g} : Preparing op i b.device base m n → Kicks base m [] n →
      Submitting op i b base m n
  | starts {x : Machine g} {c : Cache g} {w : World g} {slot : g.Slot} :
      FilesRequest op i b base m x c slot ⟨w, .unit, .run (.start b.device.major), base⟩ →
      c.requests.chain b.device.major = [] →
      Kicks base m [] ⟨w, .unit, .run (.start b.device.major), base⟩ →
      Submitting op i b base m ⟨w, .unit, .run (.start b.device.major), base⟩
  | drives {x n : Machine g} {c : Cache g} {w : World g} {slot : g.Slot} :
      FilesRequest op i b base m x c slot ⟨w, .unit, .run (.start b.device.major), base⟩ →
      c.requests.chain b.device.major = [] →
      Leads (¬ Returned base ·) ⟨w, .unit, .run (.start b.device.major), base⟩ n →
      Driving base n → Kicks base m [b.device.major] n → Submitting op i b base m n
  | ends {w : World g} {v : Unit} {k : Manner} :
      Concludes op i b base m ⟨w, .unit, .give v, base⟩ k →
      Submitting op i b base m ⟨w, .unit, .give v, base⟩

/-- The operation is suspended at most, and is not about to start a driver. -/
theorem Preparing.beneath {d : DeviceNumber} (h : Preparing op i d base m n) :
    base.Beneath n.stack ∧ ∀ w major, n ≠ ⟨w, .unit, .run (.start major), base⟩ := by
  have hpushed {a : Shape} {f : Frame g a .unit} (hf : (Stack.push f base).Beneath n.stack) :
      base.Beneath n.stack ∧ ∀ w major, n ≠ ⟨w, .unit, .run (.start major), base⟩ := by
    refine ⟨hf.of_push, ?_⟩
    rintro w major rfl
    exact Stack.not_push_beneath f base hf
  cases h with
  | begins hbegins => cases hbegins <;> exact ⟨.here, nofun⟩
  | lock => exact hpushed .here
  | asleep _ _ hspan => exact hpushed (Leads.beneath hspan .here).of_push
  | locked => exact hpushed .here
  | waiting _ hspan => exact hpushed (Leads.beneath hspan .here)
  | enqueue => exact ⟨.here, nofun⟩

theorem Idles.step {s : Shape} {base : Stack g s} (h : Idles base m n) (hover : ¬ n.Returned base)
    (hmove : n.Moves n') (hcache : n.AtWork base → n'.world.cache = n.world.cache) :
    Idles base m n' :=
  h.tail ⟨hover, hmove, hcache⟩

theorem AwaitsSlot.step {d : DeviceNumber} {x : Machine g} (h : AwaitsSlot op i d base m x n)
    (hover : ¬ n.Returned base) (hmove : n.Moves n')
    (hcache : n.AtWork base → n'.world.cache = n.world.cache) :
    AwaitsSlot op i d base m x n' := by
  obtain ⟨x', hx, hlock, hidles⟩ := h.holds
  exact { h with holds := ⟨x', hx, hlock, hidles.step hover hmove hcache⟩ }

/-- Once a request is filed the driver is started, or the operation is over. -/
theorem submitting_of_filed {x : Machine g} {c : Cache g} {w : World g} {next : Next g .unit}
    (hnext : next = if c.requests.currentSlot b.device.major = none then
      .goto (.start b.device.major) else .done ())
    (hfiles : FilesRequest op i b base m x c slot (next.machine w base))
    (harranged : c.requests.Arranged) (hkicks : Kicks base m [] (next.machine w base)) :
    Submitting op i b base m (next.machine w base) := by
  by_cases hidle : c.requests.currentSlot b.device.major = none
  · rw [if_pos hidle] at hnext
    subst hnext
    exact .starts hfiles ((harranged.currentSlot_eq_none_iff _).mp hidle) hkicks
  · rw [if_neg hidle] at hnext
    subst hnext
    have hchain := mt (harranged.currentSlot_eq_none_iff _).mpr hidle
    refine .ends (.filed hfiles ?_ .refl ?_)
    · rw [if_neg hchain]
      rfl
    · rw [if_neg hchain]
      exact hkicks

/-- What is done with a buffer that is locked and wanted takes the operation on. -/
theorem submitting_of_handles {x : Machine g} {c : Cache g} {w : World g} {next : Next g .unit}
    (hhandles : World.Handles op i b.device b.number c w next) (hidles : Idles base m x)
    (hsecures : Secures op i b.device base x)
    (hwanted : World.needless op (x.world.cache.header i) = false)
    (hroom : op.ahead = true →
      c.requests.freeSlot op.direction = x.world.cache.requests.freeSlot op.direction)
    (hretains : Retains op i base x c (next.machine w base))
    (hlocked : (c.header i).locked = true) (harranged : c.requests.Arranged)
    (harranged' : w.cache.requests.Arranged) (hkicks : Kicks base m [] (next.machine w base))
    (hskip : op.ahead = true → c.requests.freeSlot op.direction = none →
      w.cache = c.unlock i → next = .done () →
        Concludes op i b base m (next.machine w base) .skipped)
    (hwait : ∀ ticket, op.ahead = false → w.cache = c →
      next = .call (.sleep .vacancy ticket) (.awaitingVacancy op i b.device b.number) →
        Preparing op i b.device base m (next.machine w base)) :
    Submitting op i b base m (next.machine w base) := by
  generalize hsame : next = next' at hhandles
  cases hhandles with
  | skip hahead hnone hcache =>
    have hconcludes := hskip hahead hnone hcache hsame
    subst hsame
    exact .ends hconcludes
  | wait hpatient hcache =>
    have hprepares := hwait _ hpatient hcache hsame
    subst hsame
    exact .prepares hprepares hkicks
  | @file slot hslot hcache =>
    subst hsame
    have hfiled : c.Filed op.direction i b slot w.cache := by
      rw [hcache] at harranged' ⊢
      exact Cache.filed_enqueue hslot hlocked harranged harranged'
    have hsome (hahead : op.ahead = true) :
        x.world.cache.requests.freeSlot op.direction ≠ none := by
      rw [← hroom hahead, hslot]
      exact Option.some_ne_none _
    refine submitting_of_filed rfl ⟨hidles, hsecures, hwanted, hsome, hretains,
      (?_ : c.Filed op.direction i b slot _)⟩ harranged hkicks
    rw [world_next]
    exact hfiled

/-- The first step of an operation drops it, goes on to ask for the lock, or has the lock at
once. -/
theorem submitting_of_request {w w' : World g} {next : Next g .unit}
    (hn : Reachable ⟨w, .unit, .run (.request op i), base⟩) (hb : w.cache.blockOf i = b)
    (hidles : Idles base m ⟨w, .unit, .run (.request op i), base⟩)
    (hown : Leads (AtWork base) m ⟨w, .unit, .run (.request op i), base⟩)
    (hcache : w.cache = m.world.cache) (hnext : w.request op i = .ok (w', next))
    (hkicks : Kicks base m [] (next.machine w' base)) :
    Submitting op i b base m (next.machine w' base) := by
  have hdevice : (w.cache.header i).device = b.device := congrArg Block.device hb
  have hnumber : (w.cache.header i).number = b.number := congrArg Block.number hb
  have hover : ¬ Returned base ⟨w, .unit, .run (.request op i), base⟩ := not_returned_run
  have hwork : AtWork base ⟨w, .unit, .run (.request op i), base⟩ := ⟨.here, hover⟩
  have hmove : Moves ⟨w, .unit, .run (.request op i), base⟩ (next.machine w' base) :=
    .step (.begin base hnext)
  have harranged' := (hn.moves hmove).arranged
  rw [world_next] at harranged'
  rcases w.request_handles op i w' next hnext with ⟨hahead, hlocked, hsame, rfl⟩ |
    ⟨hahead, hunlocked, hhandled⟩ | ⟨hpatient, hsame, rfl⟩
  · refine .ends (.dropped hahead ?_ (hidles.step hover hmove fun _ => hsame)
      (hown.tail ⟨hwork, hmove⟩) (hsame.trans hcache) hkicks)
    rw [← hcache]
    exact hlocked
  · have hsecures : Secures op i b.device base ⟨w, .unit, .run (.request op i), base⟩ :=
      .ahead hahead hunlocked hdevice
    rcases hhandled with ⟨hneedless, hsame, rfl⟩ | ⟨hwanted, hhandles⟩
    · rw [Cache.unlock_lock hunlocked] at hsame
      exact .ends (.skipped hidles hsecures (.inl hneedless) (.single ⟨hwork, hmove⟩) hsame hkicks)
    · have hlocked : ((w.cache.lock i).header i).locked = true := by
        rw [Cache.header_lock, if_pos rfl]
      rw [hdevice, hnumber] at hhandles
      refine submitting_of_handles hhandles hidles hsecures hwanted (fun _ => rfl)
        (.ahead hahead hmove) hlocked hn.arranged harranged' hkicks
        (fun _ hnone hsame hdone => ?_) fun _ hpatient => ?_
      · rw [Cache.unlock_lock hunlocked] at hsame
        refine .skipped hidles hsecures (.inr ⟨hahead, hnone⟩) (.single ⟨hwork, hmove⟩) ?_ hkicks
        rw [world_next]
        exact hsame
      · cases hahead.symm.trans hpatient
  · subst hb
    exact .prepares (.lock hpatient (hidles.step hover hmove fun _ => hsame)) hkicks

/-- An operation that has the lock gives it up, files its request, or waits for a slot. -/
theorem submitting_of_locked {x : Machine g} {w w' : World g} {v : Unit} {next : Next g .unit}
    (hn : Reachable ⟨w, .unit, .give v, .push (.locking op i b.device) base⟩)
    (hb : w.cache.blockOf i = b) (hpatient : op.ahead = false) (hidles : Idles base m x)
    (hsecures : Secures op i b.device base x)
    (hx : x.Moves ⟨w, .unit, .give v, .push (.locking op i b.device) base⟩)
    (hlock : w.cache = x.world.cache.lock i)
    (hnext : w.locked op i b.device = .ok (w', next))
    (hkicks : Kicks base m [] (next.machine w' base)) :
    Submitting op i b base m (next.machine w' base) := by
  have hnumber : (w.cache.header i).number = b.number := congrArg Block.number hb
  have hover : ¬ Returned base ⟨w, .unit, .give v, .push (.locking op i b.device) base⟩ :=
    not_returned_of_beneath .here
  have hwork : AtWork base ⟨w, .unit, .give v, .push (.locking op i b.device) base⟩ :=
    ⟨.push rfl .here, hover⟩
  have hmove : Moves ⟨w, .unit, .give v, .push (.locking op i b.device) base⟩
      (next.machine w' base) := .step (.resume base hnext)
  have harranged' := (hn.moves hmove).arranged
  rw [world_next] at harranged'
  have hheader : w.cache.header i = { x.world.cache.header i with locked := true } := by
    rw [hlock, Cache.header_lock, if_pos rfl]
  have hneedless : World.needless op (w.cache.header i) =
      World.needless op (x.world.cache.header i) := by
    rw [hheader]
    rfl
  have hsecured : x.AtWork base ∧ (x.world.cache.header i).locked = false := by
    cases hsecures with
    | lock _ hunlocked => exact ⟨⟨.push rfl .here, not_returned_of_beneath .here⟩, hunlocked⟩
    | ahead _ hunlocked => exact ⟨⟨.here, not_returned_run⟩, hunlocked⟩
  rcases w.locked_handles op i b.device w' next hnext with
    ⟨hdone, hsame, rfl⟩ | ⟨hwanted, hhandles⟩
  · rw [hlock, Cache.unlock_lock hsecured.2] at hsame
    exact .ends (.skipped hidles hsecures (.inl (hneedless ▸ hdone))
      ((Relation.ReflTransGen.single ⟨hsecured.1, hx⟩).tail ⟨hwork, hmove⟩) hsame hkicks)
  · rw [hneedless] at hwanted
    rw [hnumber] at hhandles
    refine submitting_of_handles hhandles hidles hsecures hwanted (fun hahead => ?_)
      (.after hpatient hx hlock .refl hwork hmove) (by rw [hheader]) hn.arranged harranged' hkicks
      (fun hahead => ?_) fun ticket _ hsame hwaits => ?_
    · cases hpatient.symm.trans hahead
    · cases hpatient.symm.trans hahead
    · subst hwaits
      refine .waiting ⟨hpatient, hidles, hsecures, hwanted, _, hx, hlock, ?_⟩ .refl
      exact .single ⟨hover, hmove, fun _ => hsame⟩

/-- An operation that looks for a slot files its request, or goes on waiting. -/
theorem submitting_of_enqueue {x : Machine g} {w w' : World g} {next : Next g .unit}
    (hn : Reachable ⟨w, .unit, .run (.enqueue op i b.device b.number), base⟩)
    (hawaits : AwaitsSlot op i b.device base m x
      ⟨w, .unit, .run (.enqueue op i b.device b.number), base⟩)
    (hnext : w.enqueue op i b.device b.number = .ok (w', next))
    (hkicks : Kicks base m [] (next.machine w' base)) :
    Submitting op i b base m (next.machine w' base) := by
  have hover : ¬ Returned base ⟨w, .unit, .run (.enqueue op i b.device b.number), base⟩ :=
    not_returned_run
  have hmove : Moves ⟨w, .unit, .run (.enqueue op i b.device b.number), base⟩
      (next.machine w' base) := .step (.begin base hnext)
  have harranged' := (hn.moves hmove).arranged
  rw [world_next] at harranged'
  have hlocked : (w.cache.header i).locked = true := by
    refine hn.consistent.tallies.locked_of_claims ?_
    have hclaim : one (some i) i = 1 := if_pos rfl
    change 0 < one (some i) i + base.claims i
    omega
  obtain ⟨hpatient, hidles, hsecures, hwanted, x', hx, hlock, hheld⟩ := hawaits
  refine submitting_of_handles (w.enqueue_handles op i _ _ w' next hnext) hidles hsecures hwanted
    (fun hahead => ?_) (.after hpatient hx hlock hheld ⟨.here, hover⟩ hmove) hlocked hn.arranged
    harranged' hkicks (fun hahead => ?_) fun ticket _ hsame hwaits => ?_
  · cases hpatient.symm.trans hahead
  · cases hpatient.symm.trans hahead
  · subst hwaits
    exact .waiting ⟨hpatient, hidles, hsecures, hwanted, x', hx, hlock,
      hheld.step hover hmove fun _ => hsame⟩ .refl

/-- A move takes the start of an operation on, as long as the buffer keeps its block. -/
theorem Preparing.moves (h : Preparing op i b.device base m n) (hn : n.Reachable)
    (hb : n.block i = b) (hover : ¬ n.Returned base) (hmove : n.Moves n')
    (hkicks : Kicks base m [] n') : Submitting op i b base m n' := by
  cases h with
  | @begins _ hbegins hidles hown hcache =>
    cases hbegins with
    | @issue w h hresolve =>
      obtain ⟨w', next, hnext, rfl⟩ := moves_of_run hmove
      change World.orFault (w.cache.resolve h) _ = _ at hnext
      rw [hresolve] at hnext
      cases hnext
      exact .prepares (.begins .request (hidles.step hover hmove fun _ => rfl)
        (hown.tail ⟨⟨.here, hover⟩, hmove⟩) hcache) hkicks
    | @request w =>
      obtain ⟨w', next, hnext, rfl⟩ := moves_of_run hmove
      exact submitting_of_request hn hb hidles hown hcache hnext hkicks
  | @lock w hpatient hidles =>
    obtain ⟨w', next, hnext, rfl⟩ := moves_of_run hmove
    change w.lock i = _ at hnext
    unfold World.lock at hnext
    split at hnext
    · cases hnext
      exact .prepares (.asleep hpatient (hidles.step hover hmove fun _ => rfl) .refl) hkicks
    · rename_i hlocked
      cases hnext
      exact .prepares (.locked hpatient hidles
        (.lock hpatient (Bool.eq_false_of_not_eq_true hlocked)) hmove rfl) hkicks
  | @asleep _ w q ticket hpatient hidles hspan =>
    by_cases hreturned : n.Returned (.push (.awaitingLock i) (.push (.locking op i b.device) base))
    · obtain ⟨w, v, w', next, rfl, hnext, rfl⟩ := moves_of_returned hreturned hmove
      cases hnext
      exact .prepares (.lock hpatient (hidles.step hover hmove fun _ => rfl)) hkicks
    · have hbase : base.Beneath
          (.push (.awaitingLock i) (.push (.locking op i b.device) base)) := .push _ (.push _ .here)
      have hcache (hwork : n.AtWork base) : n'.world.cache = n.world.cache :=
        cache_of_asleep hbase hspan hreturned hwork hmove
      exact .prepares (.asleep hpatient (hidles.step hover hmove hcache)
        (hspan.tail ⟨hreturned, hmove⟩)) hkicks
  | @locked x w v hpatient hidles hsecures hx hlock =>
    obtain ⟨w', next, hnext, rfl⟩ := moves_of_give hmove
    exact submitting_of_locked hn hb hpatient hidles hsecures hx hlock hnext hkicks
  | @waiting x _ w q ticket number hawaits hspan =>
    by_cases hreturned : n.Returned (.push (.awaitingVacancy op i b.device number) base)
    · obtain ⟨w, v, w', next, rfl, hnext, rfl⟩ := moves_of_returned hreturned hmove
      cases hnext
      exact .prepares (.enqueue (hawaits.step hover hmove fun _ => rfl)) hkicks
    · have hbase : base.Beneath (.push (.awaitingVacancy op i b.device number) base) :=
        .push _ .here
      have hcache (hwork : n.AtWork base) : n'.world.cache = n.world.cache :=
        cache_of_asleep hbase hspan hreturned hwork hmove
      exact .prepares (.waiting (hawaits.step hover hmove hcache)
        (hspan.tail ⟨hreturned, hmove⟩)) hkicks
  | @enqueue x w number hawaits =>
    obtain ⟨w', next, hnext, rfl⟩ := moves_of_run hmove
    -- The number was read under the lock, which has kept the block in the buffer since.
    have hsame : (w.cache.header i).number = number := hn.consistent.orderly.2.1.2.1
    obtain rfl : b.number = number := (congrArg Block.number hb).symm.trans hsame
    exact submitting_of_enqueue hn hawaits hnext hkicks

/-- A driver that goes on serves or runs a script; it starts no other one. -/
theorem driving_next {w : World g} {next : Next g .unit} (h : next.GoesOn) :
    Driving base (next.machine w base) := by
  cases h with
  | done => exact .returned
  | serve => exact .serve
  | play => exact .play
  | perform => exact .playing .here

theorem Driving.moves (h : Driving base n) (hover : ¬ n.Returned base) (hmove : n.Moves n') :
    Driving base n' ∧ ∀ w major, n ≠ ⟨w, .unit, .run (.start major), base⟩ := by
  cases h with
  | @serve w major =>
    obtain ⟨w', next, hnext, rfl⟩ := moves_of_run hmove
    have hdrives : (Call.serve (g := g) major).Drives := trivial
    exact ⟨driving_next (Call.begin_goesOn hdrives w w' next hnext).2, nofun⟩
  | @play w script =>
    obtain ⟨w', next, hnext, rfl⟩ := moves_of_run hmove
    have hdrives : (Call.play (g := g) script).Drives := trivial
    exact ⟨driving_next (Call.begin_goesOn hdrives w w' next hnext).2, nofun⟩
  | @playing _ rest hbeneath =>
    refine ⟨?_, ?_⟩
    · rcases resumes_or_beneath hbeneath hmove with ⟨w, v, w', next, rfl, hnext, rfl⟩ | hstill
      · cases hnext
        exact .play
      · exact .playing hstill
    · rintro w major rfl
      exact Stack.not_push_beneath _ _ hbeneath
  | returned => exact absurd ⟨_, _, rfl⟩ hover

theorem Submitting.moves (h : Submitting op i b base m n) (hn : n.Reachable)
    (hb : n.block i = b) (hover : ¬ n.Returned base) (hmove : n.Moves n') :
    Submitting op i b base m n' := by
  cases h with
  | prepares hprepares hkicks =>
    exact hprepares.moves hn hb hover hmove (hkicks.pass hprepares.beneath.2 hover hmove)
  | @starts x c w slot hfiles hempty hkicks =>
    obtain ⟨w', next, hnext, rfl⟩ := moves_of_run hmove
    have hdrives : (Call.start (g := g) b.device.major).Drives := trivial
    exact .drives hfiles hempty (.single ⟨hover, hmove⟩)
      (driving_next (Call.begin_goesOn hdrives w w' next hnext).2) (hkicks.start hmove)
  | drives hfiles hempty hspan hdriving hkicks =>
    obtain ⟨hdriving', hstart⟩ := hdriving.moves hover hmove
    exact .drives hfiles hempty (hspan.tail ⟨hover, hmove⟩) hdriving'
      (hkicks.pass hstart hover hmove)
  | ends => exact absurd ⟨_, _, rfl⟩ hover

/-- The start of an operation that is over has ended in some manner. -/
theorem Submitting.exists_concludes (h : Submitting op i b base m n) (hover : n.Returned base) :
    ∃ k, Concludes op i b base m n k := by
  obtain ⟨w, v, rfl⟩ := hover
  cases h with
  | prepares hprepares =>
    cases hprepares with
    | begins hbegins => cases hbegins
    | asleep _ _ hspan =>
      have hbeneath : (Stack.push (.awaitingLock i) (.push (.locking op i b.device) base)).Beneath
        base := Leads.beneath hspan .here
      exact absurd hbeneath.of_push (Stack.not_push_beneath _ _)
    | waiting _ hspan =>
      exact absurd (Leads.beneath hspan .here) (Stack.not_push_beneath _ _)
  | drives hfiles hempty hspan _ hkicks =>
    refine ⟨.filed, .filed hfiles ?_ hspan ?_⟩
    · rw [if_pos hempty]
      exact ⟨_, rfl⟩
    · rw [if_pos hempty]
      exact hkicks
  | ends hconcludes => exact ⟨_, hconcludes⟩

/-! ## The manner is determined -/

/-- The call above `base` does not go on without a change of its own. -/
def EndsIdling (base : Stack g .unit) (n : Machine g) : Prop :=
  n.Returned base ∨
    n.AtWork base ∧ ∀ n', n.Moves n' → n'.world.cache ≠ n.world.cache

/-- Where a call changes something for the first time, or is over without that, is determined by
where it began. -/
theorem Idles.unique {x y : Machine g} (hx : Idles base m x) (hy : Idles base m y)
    (hm : base.Beneath m.stack) (hends : x.EndsIdling base) (hends' : y.EndsIdling base) : x = y := by
  have hstops {a c : Machine g} (ha : a.EndsIdling base) (hover : ¬ a.Returned base)
      (hmove : a.Moves c) (hcache : a.AtWork base → c.world.cache = a.world.cache) : False := by
    obtain ⟨hwork, hchanges⟩ := ha.resolve_left hover
    exact hchanges c hmove (hcache hwork)
  induction hx using Relation.ReflTransGen.head_induction_on with
  | refl =>
    rcases hy.cases_head with heq | ⟨c, ⟨hover, hmove, hcache⟩, -⟩
    · exact heq
    · exact (hstops hends hover hmove hcache).elim
  | head hstep _ ih =>
    obtain ⟨hover, hmove, hcache⟩ := hstep
    rcases hy.cases_head with rfl | ⟨c, ⟨-, hmove', -⟩, hrest⟩
    · exact (hstops hends' hover hmove hcache).elim
    · obtain rfl := Moves.unique hm hover hmove hmove'
      exact ih hrest (beneath_moves hm hmove hover)

/-- An operation that takes its lock changes the cache. -/
theorem Secures.endsIdling {d : DeviceNumber} (h : Secures op i d base n) : n.EndsIdling base := by
  cases h with
  | @lock w hpatient hunlocked =>
    refine .inr ⟨⟨.push rfl .here, not_returned_run⟩, fun n' hmove hsame => ?_⟩
    obtain ⟨w', next, hnext, rfl⟩ := moves_of_run hmove
    change w.lock i = _ at hnext
    rw [World.lock, if_neg (Bool.eq_false_iff.mp hunlocked)] at hnext
    cases hnext
    have hlocked : ((w.cache.lock i).header i).locked = true := by
      rw [Cache.header_lock, if_pos rfl]
    change w.cache.lock i = w.cache at hsame
    rw [hsame, hunlocked] at hlocked
    cases hlocked
  | @ahead w hahead hunlocked hdevice =>
    refine .inr ⟨⟨.here, not_returned_run⟩, fun n' hmove hsame => ?_⟩
    obtain ⟨w', next, hnext, rfl⟩ := moves_of_run hmove
    rw [world_next] at hsame
    have hwoken (hcache : w'.cache = (w.cache.lock i).unlock i) : False := by
      have hticket := WaitQueue.holds_wake_ticket (w.cache.queue (.unlock i))
      have hqueue := w.cache.queue_wake (.unlock i) (.unlock i)
      rw [← Cache.unlock_lock hunlocked, ← hcache, hsame, if_pos rfl] at hqueue
      rw [← hqueue, WaitQueue.holds_ticket] at hticket
      cases hticket
    rcases w.request_handles op i w' next hnext with ⟨-, hlocked, -⟩ |
      ⟨-, -, ⟨-, hcache, -⟩ | ⟨-, hhandles⟩⟩ | ⟨hpatient, -⟩
    · cases hunlocked.symm.trans hlocked
    · exact hwoken hcache
    · cases hhandles with
      | skip _ _ hcache => exact hwoken hcache
      | wait hpatient _ => cases hahead.symm.trans hpatient
      | file _ hcache =>
        have hlocked : (w'.cache.header i).locked = true := by
          rw [hcache, Cache.header_enqueue, if_pos rfl, Cache.header_lock, if_pos rfl]
        rw [hsame, hunlocked] at hlocked
        cases hlocked
    · cases hahead.symm.trans hpatient

theorem Secures.not_returned {d : DeviceNumber} (h : Secures op i d base n) :
    ¬ n.Returned base := by
  cases h with
  | lock => exact not_returned_run
  | ahead => exact not_returned_run

/-- The start of an operation ends in one manner only. -/
theorem Concludes.unique {k k' : Manner} (h : Concludes op i b base m n k)
    (h' : Concludes op i b base m n k') (hm : base.Beneath m.stack) (hover : n.Returned base) :
    k = k' := by
  have hdropped {x : Machine g} (hn : Idles base m n) (hx : Idles base m x)
      (hsecures : Secures op i b.device base x) : False := by
    obtain rfl := hn.unique hx hm (.inl hover) hsecures.endsIdling
    exact hsecures.not_returned hover
  have hsame {x y : Machine g} (hx : Idles base m x) (hsecures : Secures op i b.device base x)
      (hy : Idles base m y) (hsecures' : Secures op i b.device base y) : x = y :=
    hx.unique hy hm hsecures.endsIdling hsecures'.endsIdling
  have hexclusive {x y z : Machine g} {c : Cache g} {slot : g.Slot} (hx : Idles base m x)
      (hsecures : Secures op i b.device base x)
      (hskips : World.needless op (x.world.cache.header i) = true ∨
        op.ahead = true ∧ x.world.cache.requests.freeSlot op.direction = none)
      (hfiles : FilesRequest op i b base m y c slot z) : False := by
    obtain rfl := hsame hx hsecures hfiles.idles hfiles.secures
    rcases hskips with hneedless | ⟨hahead, hnone⟩
    · cases hfiles.wanted.symm.trans hneedless
    · exact hfiles.room hahead hnone
  cases h with
  | dropped _ _ hidles =>
    cases h' with
    | dropped => rfl
    | skipped hx hsecures => exact (hdropped hidles hx hsecures).elim
    | filed hfiles => exact (hdropped hidles hfiles.idles hfiles.secures).elim
  | skipped hx hsecures hskips =>
    cases h' with
    | dropped _ _ hidles => exact (hdropped hidles hx hsecures).elim
    | skipped => rfl
    | filed hfiles => exact (hexclusive hx hsecures hskips hfiles).elim
  | filed hfiles =>
    cases h' with
    | dropped _ _ hidles => exact (hdropped hidles hfiles.idles hfiles.secures).elim
    | skipped hx hsecures hskips => exact (hexclusive hx hsecures hskips hfiles).elim
    | filed => rfl

/-! ## Every start of an operation -/

/-- What the start of an operation does. -/
structure SubmitsOnce (m : Machine g) : Prop where
  /-- If its buffer is referenced all the time, the start of an operation that is over has ended in
  exactly one manner, and what was filed is for the block that the buffer holds. -/
  once : ∀ {op i n} {base : Stack g .unit}, m.Begins op i base →
    Leads (fun a => ¬ a.Returned base ∧ a.references i ≠ 0) m n → n.Returned base →
      ∃! k, Concludes op i (m.block i) base m n k
  /-- If there is no driver for the device, everything halts. -/
  refused : ∀ {w op i} {base : Stack g .unit}, m = ⟨w, .unit, .run (.request op i), base⟩ →
    w.cache.driver? (m.block i).device.major = none →
      m.step = .halted (.fault (.noDriver (m.block i).device))

/-- In every session, whatever other tasks and drivers do meanwhile, the start of an operation does
all that belongs to one of the manners in which it can end, and nothing else. -/
theorem Reachable.submitsOnce (h : m.Reachable) : m.SubmitsOnce where
  once := by
    intro op i n base hbegins hspan hover
    have hm : base.Beneath m.stack := by
      cases hbegins <;> exact .here
    have hsubmitting : Submitting op i (m.block i) base m n := by
      clear hover
      induction hspan with
      | refl => exact .prepares (.begins hbegins .refl .refl rfl) .refl
      | @tail a c hpath hmove ih =>
        exact ih.moves (h.leads hpath) (h.block_of_leads hpath fun _ ha => ha.2) hmove.1.1 hmove.2
    obtain ⟨k, hk⟩ := hsubmitting.exists_concludes hover
    exact ⟨k, hk, fun k' hk' => hk'.unique hk hm hover⟩
  refused := by
    rintro w op i base rfl hnone
    have hrequest : w.request op i = World.fault (.noDriver (w.cache.header i).device) := by
      unfold World.request
      dsimp only
      rw [show w.cache.driver? (w.cache.header i).device.major = none from hnone]
    exact congrArg (advance base) hrequest

/-- A block that was marked as changed is about to be written. -/
def writing : Machine Geometry.small :=
  (submitted .write).after 1

/-- A request is filed, and the driver is started. -/
theorem concludes_of_write :
    ∃ n : Machine Geometry.small, writing.Reachable ∧
      writing.Begins .write Geometry.small.firstBuffer writing.stack ∧
      n.Returned writing.stack ∧ writing.dirty Geometry.small.firstBuffer = true ∧
      ∃! k, Concludes .write Geometry.small.firstBuffer ⟨257, 3⟩ writing.stack writing n k := by
  have h : writing.Reachable := (reachable_submitted .write).after 1
  have hbegins : writing.Begins .write Geometry.small.firstBuffer writing.stack :=
    .issue (by rfl)
  have hreturned : (writing.after 6).Returned writing.stack := ⟨_, (), rfl⟩
  obtain ⟨n, hspan, hover⟩ := exists_leads_of_after_of
    (P := fun a => a.references Geometry.small.firstBuffer ≠ 0) (by decide) hreturned
  exact ⟨n, h, hbegins, hover, by decide, h.submitsOnce.once hbegins hspan hover⟩

end Machine
end BufferCache
