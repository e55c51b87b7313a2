import BufferCache.Proofs.Locks

/-!
# Machines whose locks tally

What suspended calls wish and claim is read off the stack.  A machine is *consistent* if
on its stack every wish is served by the call above it, and the locks of its buffers tally
with its requests and claims.  Every step keeps a machine consistent, whatever clients,
drivers and listeners do; so every machine of every session is.

What is assumed of clients for the devices of requests is that a buffer keeps its device
while an operation on it waits for the lock.
-/

namespace BufferCache

variable {g : Geometry}

/-- The buffer that a suspended call waits to lock for an operation on it. -/
def Frame.locking? {a s : Shape} : Frame g a s → Option g.Buffer
  | .locking _ i _ => some i
  | _ => none

namespace Stack

/-- What the topmost suspended call wishes. -/
def wishes : {s : Shape} → Stack g s → Wish g
  | _, .bottom => .nothing
  | _, .push f _ => f.wishes

/-- How many suspended calls claim a buffer: they wait for a slot to queue a request for
it. -/
def claims : {s : Shape} → Stack g s → g.Buffer → Nat
  | _, .bottom, _ => 0
  | _, .push f rest, i => one f.claim? i + rest.claims i

/-- A suspended call waits to lock buffer `i` for an operation on it. -/
def Locking (i : g.Buffer) : {s : Shape} → Stack g s → Prop
  | _, .bottom => False
  | _, .push f rest => f.locking? = some i ∨ rest.Locking i

/-- On the stack, each wish is served by what the call above it will grant, and what calls
know of the requests that they are about is true. -/
def Orderly (exact : Prop) (c : Cache g) : {s : Shape} → Stack g s → Prop
  | _, .bottom => True
  | _, .push f rest => f.grants.Serves rest.wishes ∧ f.Sound exact c ∧ rest.Orderly exact c

end Stack

/-! ## What others leave alone -/

section Later

variable {exact : Prop} {c c' : Cache g} {i : g.Buffer} {b : Block}

/-- Two caches between which drivers stay registered. -/
def Cache.Drives (c c' : Cache g) : Prop :=
  ∀ m, (c.driver? m).isSome = true → (c'.driver? m).isSome = true

theorem Cache.Places.later (h : c.Places exact i b) (hdrives : c.Drives c')
    (hi : (c'.header i).content = (c.header i).content) : c'.Places exact i b := by
  have hblock := Cache.blockOf_congr hi
  refine ⟨hdrives _ h.1, ?_, fun he => ?_⟩
  · exact (congrArg Block.number hblock :).trans h.2.1
  · exact (congrArg Block.device hblock :).trans (h.2.2 he)

theorem Frame.Sound.later {a s : Shape} {f : Frame g a s} (h : f.Sound exact c)
    (hdrives : c.Drives c')
    (hclaim : ∀ i, f.claim? = some i → (c'.header i).content = (c.header i).content)
    (hlocking : exact → ∀ i, f.locking? = some i →
      (c'.header i).device = (c.header i).device) : f.Sound exact c' := by
  cases f with
  | locking op i d => exact ⟨hdrives _ h.1, fun he => (hlocking he i rfl).trans (h.2 he)⟩
  | awaitingVacancy op i d number => exact Cache.Places.later h hdrives (hclaim i rfl)
  | _ => trivial

/-- What suspended calls know stays true as long as the buffers that are claimed keep their
blocks, and those that are waited for their devices. -/
theorem Stack.Orderly.later {s : Shape} {stack : Stack g s} (h : stack.Orderly exact c)
    (hdrives : c.Drives c')
    (hclaims : ∀ i, 0 < stack.claims i → (c'.header i).content = (c.header i).content)
    (hlocking : exact → ∀ i, stack.Locking i →
      (c'.header i).device = (c.header i).device) : stack.Orderly exact c' := by
  induction stack with
  | bottom => trivial
  | push f rest ih =>
    obtain ⟨hserves, hsound, hrest⟩ := h
    refine ⟨hserves, hsound.later hdrives (fun i hi => hclaims i ?_)
      fun he i hi => hlocking he i (.inl hi), ih hrest (fun i hi => hclaims i ?_)
      fun he i hi => hlocking he i (.inr hi)⟩
    · have hone : one f.claim? i = 1 := by
        rw [hi]
        exact if_pos rfl
      rw [Stack.claims, hone]
      omega
    · rw [Stack.claims]
      omega

end Later

/-! ## Consistent machines -/

namespace Machine

variable {exact : Prop} {m m' : Machine g}

/-- How many calls claim a buffer. -/
def claims : Machine g → g.Buffer → Nat
  | ⟨_, _, .run d, stack⟩, i => one d.claim? i + stack.claims i
  | ⟨_, _, .give _, stack⟩, i => one stack.wishes.claim? i + stack.claims i

/-- The calls of the machine are in order: all wishes are served, and what is handed over
has come true. -/
def Orderly (exact : Prop) : Machine g → Prop
  | ⟨w, _, .run d, stack⟩ =>
      d.grants.Serves stack.wishes ∧ d.Sound exact w.cache ∧ stack.Orderly exact w.cache
  | ⟨w, _, .give v, stack⟩ => stack.wishes.Granted w.cache v ∧ stack.Orderly exact w.cache

/-- The calls of a machine are in order, and its locks tally with its requests and
claims. -/
structure Consistent (exact : Prop) (m : Machine g) : Prop where
  /-- The calls are in order. -/
  orderly : m.Orderly exact
  /-- Locks, requests and claims tally. -/
  tallies : m.world.cache.Tallies exact m.claims

theorem granted_of_serves {granted wished : Wish g} (h : granted.Serves wished) {c : Cache g}
    {s : Shape} {v : s.Value g} (hv : granted.Granted c v) : wished.Granted c v := by
  rcases h with rfl | ⟨rfl, -⟩
  · exact hv
  · trivial

/-- What comes next is in order above a stack that is. -/
theorem orderly_next {s : Shape} {n : Next g s} {w : World g} {c : Cache g} {grants : Wish g}
    {client : Bool} {asks : Option Nat} {stack : Stack g s}
    (hn : n.Follows exact client grants asks c w.cache) (hserves : grants.Serves stack.wishes)
    (hstack : stack.Orderly exact w.cache) : (n.machine w stack).Orderly exact := by
  cases n with
  | done v => exact ⟨granted_of_serves hserves hn, hstack⟩
  | goto d => exact ⟨hn.grants.symm ▸ hserves, hn.sound, hstack⟩
  | call d f => exact ⟨hn.served, hn.sound_call, hn.grants.symm ▸ hserves, hn.sound, hstack⟩

theorem claims_next {s : Shape} (n : Next g s) (w : World g) {grants : Wish g}
    {stack : Stack g s} (hserves : grants.Serves stack.wishes) (i : g.Buffer) :
    (n.machine w stack).claims i = n.claims grants i + stack.claims i := by
  cases n with
  | done v =>
    have hclaim : stack.wishes.claim? = grants.claim? := by
      rcases hserves with heq | ⟨hnothing, hoptional⟩
      · rw [heq]
      · rw [hnothing, Wish.claim?_of_optional hoptional]
        rfl
    change one stack.wishes.claim? i + _ = _
    rw [hclaim]
    rfl
  | goto d => rfl
  | call d f => exact (Nat.add_assoc _ _ _).symm

/-- The claim of a suspended call that is given its value was its own or comes with the
value. -/
theorem one_held {a s : Shape} (f : Frame g a s) (i : g.Buffer) :
    one f.held i = one f.wishes.claim? i + one f.claim? i := by
  cases f with
  | awaitingVacancy op j d number => exact (Nat.zero_add _).symm
  | _ => rfl

/-- What a step amounts to, for a call that claims the buffer `held`, above a stack. -/
theorem consistent_next {s : Shape} {n : Next g s} {w w' : World g} {grants : Wish g}
    {client : Bool} {asks : Option Nat} {held : Option g.Buffer} {stack : Stack g s}
    (hshifts : w.Shifts exact (one held) (n.claims grants) w')
    (hn : n.Follows exact client grants asks w.cache w'.cache)
    (hserves : grants.Serves stack.wishes) (hstack : stack.Orderly exact w.cache)
    (htallies : w.cache.Tallies exact fun i => one held i + stack.claims i)
    (hlocking : exact → ∀ i, stack.Locking i →
      (w'.cache.header i).device = (w.cache.header i).device) :
    (n.machine w' stack).Consistent exact := by
  obtain ⟨e, hfits, happly, hapt, hclaims⟩ := hshifts
  have hstack' : stack.Orderly exact w'.cache := by
    refine hstack.later (fun m hm => ?_) (fun i hi => ?_) hlocking
    · rw [happly]
      exact Effect.isSome_driver? hfits hm
    · rw [happly]
      exact (Effect.keeps_of_locked hfits (htallies.locked_of_claims (by omega))).1
  refine ⟨orderly_next hn hserves hstack', ?_⟩
  rw [world_next, happly]
  refine Effect.tallies htallies hfits hapt fun i => ?_
  rw [claims_next n w' hserves]
  have := hclaims i
  omega

/-- Every step keeps a machine consistent. -/
theorem Steps.consistent (h : m.Steps m') (hm : m.Consistent exact)
    (hlocking : exact → ∀ i, m.stack.Locking i →
      (m'.world.cache.header i).device = (m.world.cache.header i).device) :
    m'.Consistent exact := by
  cases h with
  | @begin s w w' d n stack hn =>
    obtain ⟨hserves, hsound, hstack⟩ := hm.orderly
    obtain ⟨hshifts, hfollows⟩ := Call.begin_orderly hsound stack.answers w' n hn
    rw [world_next] at hlocking
    exact consistent_next hshifts hfollows hserves hstack hm.tallies hlocking
  | @resume a s w w' f v n stack hn =>
    obtain ⟨hv, hserves, hsound, hstack⟩ := hm.orderly
    obtain ⟨hshifts, hfollows⟩ :=
      Frame.resume_orderly hsound hv stack.answers w' n hn
    rw [world_next] at hlocking
    have hclaims : (fun i => one f.held i + stack.claims i) =
        claims ⟨w, a, .give v, .push f stack⟩ := by
      funext i
      rw [one_held]
      exact Nat.add_assoc _ _ _
    refine consistent_next hshifts hfollows hserves hstack ?_ fun he i hi =>
      hlocking he i (.inr hi)
    rw [hclaims]
    exact hm.tallies

/-- Nothing is locked in a new cache. -/
theorem tallies_initial (exact : Prop) (g : Geometry) :
    (Cache.initial g).Tallies exact fun _ => 0 := by
  have horder (k : g.Slot) : (Cache.initial g).requests.order? k = none := by
    simp [Cache.initial, RequestTable.order?, RequestTable.request?, RequestTable.initial]
  refine ⟨RequestTable.arranged_initial g, fun i => ?_, fun k t i hk => ?_⟩
  · have hempty : (Cache.initial g).requests.slotsFor i = ∅ := by
      refine Finset.eq_empty_of_forall_notMem fun k hk => ?_
      obtain ⟨t, ht⟩ := RequestTable.mem_slotsFor.mp hk
      cases (horder k).symm.trans ht
    have hheader : ((Cache.initial g).header i).locked = false :=
      congrArg Header.locked (Buffers.header_initial g i)
    rw [hempty, hheader]
    rfl
  · cases (horder k).symm.trans hk

theorem consistent_start (exact : Prop) (waiting : List Script) (c : Command) :
    (start ((World.initial g).fresh waiting) c).Consistent exact :=
  ⟨⟨.inl rfl, trivial, trivial⟩, tallies_initial exact g⟩

theorem Consistent.next {w : World g} {a : Answer}
    (h : Consistent exact ⟨w, .reply, .give a, .bottom⟩) (waiting : List Script) (c : Command) :
    (start (w.fresh waiting) c).Consistent exact :=
  ⟨⟨.inl rfl, trivial, trivial⟩, h.tallies⟩

/-- Every machine of every session is consistent. -/
theorem Reachable.consistent (h : m.Reachable) : m.Consistent False :=
  h.invariant (consistent_start False) (fun _ _ hm hs => hs.consistent hm False.elim)
    fun _ _ waiting c hm => hm.next waiting c

end Machine
end BufferCache
