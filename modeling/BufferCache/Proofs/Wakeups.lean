import BufferCache.Proofs.Needs

/-!
# No wake-up is lost

A suspended call that sleeps holds a ticket, the number of wake-ups that its queue had seen
when the call found its need unmet.  As long as the ticket stands the need is still unmet: an
effect that meets it wakes the queue, in the same step.  So a need that was met at any time
during a sleep is not overlooked, even where it is unmet again when the call is resumed.

Tickets are words.  How often a queue was woken is therefore counted beside the machine, by
`Conduct.counting`, and a ticket is told from later ones for as long as there were fewer than
`2 ^ 64` wake-ups.
-/

namespace BufferCache

variable {g : Geometry}

/-! ## Who sleeps -/

/-- A sleep: its queue, its ticket, and what the call beneath it needs. -/
structure Sleeper (g : Geometry) where
  /-- The queue. -/
  queue : Queue g
  /-- The ticket. -/
  ticket : UInt64
  /-- What the call needs that went to sleep. -/
  need : Option (Need g)

/-- The queue and the ticket of a call that sleeps. -/
def Call.asleep? {s : Shape} : Call g s → Option (Queue g × UInt64)
  | .sleep q ticket => some (q, ticket)
  | _ => none

/-- The queue and the ticket of a sleep that gave way. -/
def Frame.asleep? {a s : Shape} : Frame g a s → Option (Queue g × UInt64)
  | .sleeping q ticket => some (q, ticket)
  | _ => none

/-- What the topmost suspended call needs. -/
def Stack.need? : {s : Shape} → Stack g s → Option (Need g)
  | _, .bottom => none
  | _, .push f _ => f.need?

/-- The sleeper above a call, if there is one. -/
def sleeperOf (asleep : Option (Queue g × UInt64)) (need : Option (Need g)) :
    List (Sleeper g) :=
  asleep.toList.map fun x => ⟨x.1, x.2, need⟩

/-- The sleepers of a stack, at any depth. -/
def Stack.sleepers : {s : Shape} → Stack g s → List (Sleeper g)
  | _, .bottom => []
  | _, .push f rest => sleeperOf f.asleep? rest.need? ++ rest.sleepers

/-- The sleepers of a machine. -/
def Machine.sleepers : Machine g → List (Sleeper g)
  | ⟨_, _, .run d, stack⟩ => sleeperOf d.asleep? stack.need? ++ stack.sleepers
  | ⟨_, _, .give _, stack⟩ => stack.sleepers

/-- What the suspended calls of a stack need, at any depth. -/
def Stack.needs : {s : Shape} → Stack g s → List (Need g)
  | _, .bottom => []
  | _, .push f rest => f.need?.toList ++ rest.needs

/-- What the suspended calls of a machine need, apart from the one that is being resumed. -/
def Machine.needs : Machine g → List (Need g)
  | ⟨_, _, .run _, stack⟩ => stack.needs
  | ⟨_, _, .give _, .push _ rest⟩ => rest.needs
  | ⟨_, _, .give _, .bottom⟩ => []

/-- The queue and the ticket of a sleep that goes on. -/
def Next.asleep? {s : Shape} : Next g s → Option (Queue g × UInt64)
  | .done _ => none
  | .goto d => d.asleep?
  | .call _ f => f.asleep?

namespace Sleeper

/-- A sleep that begins: its ticket is that of the day, and its need is not met. -/
def Fresh (c : Cache g) (x : Sleeper g) : Prop :=
  ∃ need, x.need = some need ∧ need.queue = x.queue ∧
    x.ticket = (c.queue x.queue).ticket ∧ ¬ need.Met c

/-- A sleep whose ticket was taken after `n` wake-ups of its queue; if there was none since,
its need is not met. -/
def Watched (count : Queue g → Nat) (c : Cache g) (x : Sleeper g) : Prop :=
  ∃ need n, x.need = some need ∧ need.queue = x.queue ∧ x.ticket = UInt64.ofNat n ∧
    n ≤ count x.queue ∧ (n = count x.queue → ¬ need.Met c)

end Sleeper

/-! ### Whoever needs something sleeps -/

theorem filterMap_sleeperOf (asleep : Option (Queue g × UInt64)) (need : Option (Need g))
    (h : need ≠ none → asleep ≠ none) :
    (sleeperOf asleep need).filterMap Sleeper.need = need.toList := by
  cases need with
  | none => cases asleep <;> rfl
  | some need =>
    obtain ⟨y, rfl⟩ := Option.ne_none_iff_exists'.mp (h (Option.some_ne_none need))
    rfl

theorem Frame.asleep?_ne_none {a s : Shape} {f : Frame g a s} {q : Queue g}
    (h : f.grants = .woken q) : f.asleep? ≠ none := by
  cases f <;> cases h
  exact Option.some_ne_none _

/-- Above a suspended call that needs something there is a sleep. -/
theorem Stack.filterMap_need {s : Shape} {stack : Stack g s} {exact : Prop} {c : Cache g}
    (h : stack.Orderly exact c) {granted : Wish g} (hserves : granted.Serves stack.wishes)
    {asleep : Option (Queue g × UInt64)} (hasleep : ∀ q, granted = .woken q → asleep ≠ none) :
    (sleeperOf asleep stack.need? ++ stack.sleepers).filterMap Sleeper.need = stack.needs := by
  induction stack generalizing granted asleep with
  | bottom =>
    rw [Stack.sleepers, List.append_nil]
    exact filterMap_sleeperOf asleep none (absurd rfl)
  | push f rest ih =>
    have hrest := ih h.2.2 h.1 fun q hq => Frame.asleep?_ne_none hq
    rw [List.filterMap_append, Stack.needs, Stack.sleepers, hrest]
    refine congrArg (· ++ rest.needs) (filterMap_sleeperOf asleep f.need? fun hneed => ?_)
    obtain ⟨need, hneed⟩ := Option.ne_none_iff_exists'.mp hneed
    rcases hserves with hwished | ⟨hnothing, -⟩
    · exact hasleep _ (hwished.symm.trans (Frame.wishes_of_need hneed))
    · cases hnothing.symm.trans (Frame.wishes_of_need hneed)

section Steps

variable {s : Shape} {exact : Prop} {client : Bool} {grants : Wish g} {asks : Option Nat}
  {c : Cache g} {w w' : World g} {n : Next g s} {x : Sleeper g}

theorem mem_sleeperOf {asleep : Option (Queue g × UInt64)} {need : Option (Need g)} :
    x ∈ sleeperOf asleep need ↔ asleep = some (x.queue, x.ticket) ∧ need = x.need := by
  rw [sleeperOf, List.mem_map]
  constructor
  · rintro ⟨⟨q, ticket⟩, hasleep, rfl⟩
    exact ⟨Option.mem_toList.mp hasleep, rfl⟩
  · rintro ⟨rfl, rfl⟩
    exact ⟨_, List.mem_singleton_self _, rfl⟩

/-- Only a sleep goes on as one. -/
theorem Next.Follows.grants_eq (h : n.Follows exact client grants asks c w'.cache)
    {y : Queue g × UInt64} (hy : n.asleep? = some y) : grants = .woken y.1 := by
  cases n with
  | done v => cases hy
  | goto d =>
    rw [← h.grants]
    change d.asleep? = _ at hy
    cases d <;> cases hy
    rfl
  | call d f =>
    rw [← h.grants]
    change f.asleep? = _ at hy
    cases f <;> cases hy
    rfl

/-- A call that is suspended on a sleep begins it. -/
theorem Frame.Awaits.fresh {a : Shape} {d : Call g a} {f : Frame g a s}
    (h : f.Awaits exact client grants asks c w'.cache d)
    (hvictim : w'.cache.buffers.victim = .ok none →
      ∀ i, (w'.cache.header i).references ≠ 0)
    (hx : x ∈ sleeperOf d.asleep? f.need?) : x.Fresh w'.cache := by
  obtain ⟨hasleep, hneed⟩ := mem_sleeperOf.mp hx
  have hd : d.grants = .woken x.queue ∧ x.ticket = (w'.cache.queue x.queue).ticket := by
    have hticketed := h.ticketed
    cases d <;> cases hasleep
    exact ⟨rfl, hticketed⟩
  have hwishes : f.wishes = .woken x.queue := by
    have hserved := h.served
    rw [hd.1] at hserved
    rcases hserved with heq | ⟨-, hoptional⟩
    · exact heq
    · cases hoptional
  obtain ⟨need, hf, hqueue⟩ := Frame.exists_need hwishes
  exact ⟨need, hneed.symm.trans hf, hqueue, hd.2, h.stalled.not_met hf hvictim⟩

/-- The sleepers of what comes next: a sleep that goes on, those of the stack, and one that
begins. -/
theorem fresh_of_next {stack : Stack g s} (h : n.Follows exact client grants asks c w'.cache)
    (hvictim : w'.cache.buffers.victim = .ok none →
      ∀ i, (w'.cache.header i).references ≠ 0)
    (hx : x ∈ (n.machine w' stack).sleepers) :
    x ∈ sleeperOf n.asleep? stack.need? ∨ x ∈ stack.sleepers ∨ x.Fresh w'.cache := by
  cases n with
  | done v => exact .inr (.inl hx)
  | goto d =>
    rcases List.mem_append.mp hx with hd | hstack
    · exact .inl hd
    · exact .inr (.inl hstack)
  | call d f =>
    rcases List.mem_append.mp hx with hd | hrest
    · exact .inr (.inr (Frame.Awaits.fresh h hvictim hd))
    · rcases List.mem_append.mp hrest with hf | hstack
      · exact .inl hf
      · exact .inr (.inl hstack)

end Steps

namespace Machine

variable {m m' : Machine g} {x : Sleeper g}

/-- Whoever sleeps after a step slept before, or begins to. -/
theorem Steps.sleepers (h : m.Steps m') (hm : m.Reachable) (hx : x ∈ m'.sleepers) :
    x ∈ m.sleepers ∨ x.Fresh m'.world.cache := by
  have hvictim := (hm.moves (.step h)).victim_eq_none_iff.mp
  cases h with
  | @begin s w w' d n stack hn =>
    obtain ⟨-, hsound, -⟩ := hm.consistent.orderly
    obtain ⟨-, hfollows⟩ := Call.begin_orderly hsound stack.answers w' n hn
    rw [world_next] at hvictim ⊢
    rcases fresh_of_next hfollows hvictim hx with hon | hstack | hfresh
    · refine .inl (List.mem_append_left _ ?_)
      obtain ⟨hasleep, hneed⟩ := mem_sleeperOf.mp hon
      have hgrants := hfollows.grants_eq hasleep
      cases d <;> cases hgrants
      rename_i ticket
      refine mem_sleeperOf.mpr ⟨?_, hneed⟩
      change w.sleep x.queue ticket = _ at hn
      unfold World.sleep at hn
      split at hn
      · split at hn <;> cases hn
        exact hasleep
      · cases hn
        cases hasleep
    · exact .inl (List.mem_append_right _ hstack)
    · exact .inr hfresh
  | @resume a s w w' f v n stack hn =>
    obtain ⟨hv, -, hsound, -⟩ := hm.consistent.orderly
    obtain ⟨-, hfollows⟩ := Frame.resume_orderly hsound hv stack.answers w' n hn
    rw [world_next] at hvictim ⊢
    rcases fresh_of_next hfollows hvictim hx with hon | hstack | hfresh
    · refine .inl (List.mem_append_left _ ?_)
      obtain ⟨hasleep, hneed⟩ := mem_sleeperOf.mp hon
      have hgrants := hfollows.grants_eq hasleep
      cases f <;> cases hgrants
      cases hn
      exact mem_sleeperOf.mpr ⟨hasleep, hneed⟩
    · exact .inl (List.mem_append_right _ hstack)
    · exact .inr hfresh

/-- Every suspended call that needs something sleeps, unless it is being resumed. -/
theorem Reachable.filterMap_need (h : m.Reachable) :
    m.sleepers.filterMap Sleeper.need = m.needs := by
  have horderly := h.consistent.orderly
  obtain ⟨w, s, control, stack⟩ := m
  match control, stack with
  | .run d, stack =>
    refine Stack.filterMap_need horderly.2.2 horderly.1 fun q hq => ?_
    cases d <;> cases hq
    exact Option.some_ne_none _
  | .give v, .bottom => rfl
  | .give v, .push f rest =>
    exact Stack.filterMap_need horderly.2.2.2 horderly.2.1 fun q hq => Frame.asleep?_ne_none hq

/-! ## Counting wake-ups -/

/-- How often the next step wakes a queue: once if it changes the queue, or not at all. -/
def wakes (m : Machine g) (q : Queue g) : Nat :=
  match m.step with
  | .running m' => if m'.world.cache.queue q = m.world.cache.queue q then 0 else 1
  | _ => 0

end Machine

/-- The conduct of clients that may do anything, where the wake-ups of each queue are
counted. -/
def Conduct.counting (g : Geometry) : Conduct g (Queue g → Nat) where
  permits _ _ := True
  record count m q := count q + m.wakes q

instance (count : Queue g → Nat) (m : Machine g) :
    Decidable ((Conduct.counting g).permits count m) :=
  inferInstanceAs (Decidable True)

namespace Machine

/-- Some session on a new cache comes to this machine, and its queues were woken so often. -/
def Counted (count : Queue g → Nat) (m : Machine g) : Prop :=
  (Conduct.counting g).Run (fun w count => w = World.initial g ∧ count = fun _ => 0) count m

variable {m m' : Machine g} {x : Sleeper g} {count count' : Queue g → Nat}

theorem Counted.reachable (h : m.Counted count) : m.Reachable :=
  Conduct.Run.reachable (fun _ _ hw => hw.1) h

/-- What a step does to the queues, and how often it wakes them. -/
theorem Steps.queues (h : m.Steps m') (haimed : m.Aimed) :
    ∃ e : Effect g, e.Fits m.world.cache ∧ m'.world.cache = e.apply m.world.cache ∧ ∀ q,
      m.wakes q = 1 ∧ m'.world.cache.queue q = (m.world.cache.queue q).wake ∨
        ¬ e.Wakes q ∧ m.wakes q = 0 ∧ m'.world.cache.queue q = m.world.cache.queue q := by
  obtain ⟨⟨e, hfits, happly, -⟩, -⟩ := h.affects haimed
  have hwakes (q : Queue g) : m.wakes q =
      if m'.world.cache.queue q = m.world.cache.queue q then 0 else 1 := by
    rw [wakes, step_of_steps h]
  refine ⟨e, hfits, happly, fun q => ?_⟩
  rw [hwakes, happly]
  rcases e.queue_apply m.world.cache q with ⟨-, hwoken⟩ | ⟨hquiet, hsame⟩
  · refine .inl ⟨if_neg fun hsame => ?_, hwoken⟩
    have hholds := (m.world.cache.queue q).holds_wake_ticket
    rw [← hwoken, hsame, WaitQueue.holds_ticket] at hholds
    cases hholds
  · exact .inr ⟨hquiet, if_pos hsame, hsame⟩

/-- The counts are those of the queues, modulo `2 ^ 64`, and all sleepers are watched. -/
structure Watchful (count : Queue g → Nat) (m : Machine g) : Prop where
  counted : ∀ q, (m.world.cache.queue q).wakeups = UInt64.ofNat (count q)
  watched : ∀ x ∈ m.sleepers, x.Watched count m.world.cache

theorem Steps.watchful (h : m.Steps m') (hm : m.Reachable) (hw : m.Watchful count) :
    m'.Watchful fun q => count q + m.wakes q := by
  obtain ⟨e, hfits, happly, hqueues⟩ := h.queues hm.aimed
  have hcounted (q : Queue g) :
      (m'.world.cache.queue q).wakeups = UInt64.ofNat (count q + m.wakes q) := by
    rcases hqueues q with ⟨hone, hwoken⟩ | ⟨-, hzero, hsame⟩
    · rw [hwoken, hone, UInt64.ofNat_add, ← hw.counted]
      rfl
    · rw [hsame, hzero, hw.counted]
      rfl
  refine ⟨hcounted, fun x hx => ?_⟩
  rcases h.sleepers hm hx with hslept | ⟨need, hneed, hqueue, hticket, hunmet⟩
  · obtain ⟨need, n, hneed, hqueue, hticket, hle, hunmet⟩ := hw.watched x hslept
    refine ⟨need, n, hneed, hqueue, hticket, Nat.le_add_right_of_le hle, fun hn => ?_⟩
    change n = count x.queue + m.wakes x.queue at hn
    rcases hqueues x.queue with ⟨hone, -⟩ | ⟨hquiet, hzero, -⟩
    · omega
    · have hchained' := (hm.moves (.step h)).chained
      rw [happly] at hchained' ⊢
      refine Effect.not_met_apply hfits ?_ hm.chained hchained' (hunmet (by omega))
      rw [hqueue]
      exact hquiet
  · exact ⟨need, _, hneed, hqueue, hticket.trans (hcounted x.queue), Nat.le_refl _, fun _ => hunmet⟩

theorem Counted.watchful (h : m.Counted count) : m.Watchful count := by
  let Inv (count : Queue g → Nat) (m : Machine g) : Prop := m.Reachable ∧ m.Watchful count
  suffices hm : Inv count m from hm.2
  refine Conduct.Run.invariant (fun w count waiting c hw => ?_) (fun count m m' hm _ hs => ?_)
    (fun count w a waiting c hm => ?_) h
  · obtain ⟨rfl, rfl⟩ := hw
    refine ⟨reachable_start waiting c, fun q => ?_, fun x hx => by cases hx⟩
    change ((Cache.initial g).queue q).wakeups = 0
    cases q with
    | unlock i => simp [Cache.initial, Cache.queue]
    | release => rfl
    | vacancy => rfl
  · exact ⟨hm.1.moves (.step hs), hs.watchful hm.1 hm.2⟩
  · exact ⟨hm.1.moves (.next waiting c), fun q => hm.2.counted q, fun x hx => by cases hx⟩

/-! ## No wake-up is lost -/

/-- No sleeper misses what it needs. -/
structure Attentive (count : Queue g → Nat) (m : Machine g) : Prop where
  /-- The counts of wake-ups are those of the queues, modulo `2 ^ 64`. -/
  counted : ∀ q, (m.world.cache.queue q).wakeups = UInt64.ofNat (count q)
  /-- Whoever needs something sleeps, unless it is being resumed. -/
  asleep : m.sleepers.filterMap Sleeper.need = m.needs
  /-- Every sleeper, at any depth, needs what its queue is for.  As long as its ticket stands,
  the need is unmet. -/
  unmet : ∀ x ∈ m.sleepers, count x.queue < 2 ^ 64 → ∃ need, x.need = some need ∧
    need.queue = x.queue ∧
      ((m.world.cache.queue x.queue).holds x.ticket = true → ¬ need.Met m.world.cache)
  /-- If its need is met, the sleep does not give way any more, whatever others do before the
  sleeper is resumed. -/
  returns : ∀ x ∈ m.sleepers, ∀ need, x.need = some need → need.Met m.world.cache →
    ∀ {count' m'}, (Conduct.counting g).Leads (fun _ => True) (count, m) (count', m') →
      count' x.queue < 2 ^ 64 →
        m'.world.sleep x.queue x.ticket = (m'.world.done () : Outcome g .unit)

theorem ofNat_ne_of_lt {k n : Nat} (hk : k < n) (hn : n < 2 ^ 64) :
    UInt64.ofNat n ≠ UInt64.ofNat k := by
  intro heq
  have hmod := congrArg UInt64.toNat heq
  rw [UInt64.toNat_ofNat', UInt64.toNat_ofNat', Nat.mod_eq_of_lt hn,
    Nat.mod_eq_of_lt (hk.trans hn)] at hmod
  exact absurd hmod hk.ne'

/-- Along a run counts do not decrease. -/
theorem le_of_leads {on : Machine g → Prop} {a b : (Queue g → Nat) × Machine g}
    (h : (Conduct.counting g).Leads on a b) (q : Queue g) : a.1 q ≤ b.1 q := by
  induction h with
  | refl => exact Nat.le_refl _
  | tail _ hmove ih =>
    obtain ⟨-, -, -, hrecord⟩ := hmove
    rw [hrecord]
    exact Nat.le_add_right_of_le ih

/-- In every session, whatever clients, drivers and listeners do, no wake-up is lost. -/
theorem Counted.attentive (h : m.Counted count) : m.Attentive count := by
  have hwatchful := h.watchful
  refine ⟨hwatchful.counted, h.reachable.filterMap_need, fun x hx hcount => ?_,
    fun x hx need hneed hmet count' m' hspan hcount' => ?_⟩
  · obtain ⟨need, n, hneed, hqueue, hticket, hle, hunmet⟩ := hwatchful.watched x hx
    refine ⟨need, hneed, hqueue, fun hholds => hunmet ?_⟩
    rw [WaitQueue.holds, beq_iff_eq, hwatchful.counted, hticket] at hholds
    by_contra hne
    exact ofNat_ne_of_lt (lt_of_le_of_ne hle hne) hcount hholds
  · obtain ⟨need', n, hneed', hqueue, hticket, hle, hunmet⟩ := hwatchful.watched x hx
    obtain rfl : need' = need := Option.some.inj (hneed'.symm.trans hneed)
    have hlt : n < count x.queue := lt_of_le_of_ne hle fun hn => hunmet hn hmet
    have hlt' : n < count' x.queue := lt_of_lt_of_le hlt (le_of_leads hspan x.queue)
    have hcounted' :=
      (Counted.watchful (Conduct.Run.leads (a := (count, m)) h hspan)).counted x.queue
    have hvoid : ¬ (m'.world.cache.queue x.queue).holds x.ticket = true := by
      rw [WaitQueue.holds, beq_iff_eq, hcounted', hticket]
      exact ofNat_ne_of_lt hlt' hcount'
    unfold World.sleep
    rw [if_neg hvoid]

/-- A read sleeps until its transfer ends, while another task runs. -/
theorem attentive_of_fetch :
    ∃ count, ∃ m : Machine Geometry.small, m.Counted count ∧
      m.sleepers.map Sleeper.queue = [.unlock Geometry.small.firstBuffer] ∧
      count (.unlock Geometry.small.firstBuffer) = 0 ∧ m.Attentive count := by
  have hstart : Counted (fun _ => 0) (start ((World.initial Geometry.small).fresh [])
      (.register 1 ⟨1, .manual []⟩ [])) := .start [] _ ⟨rfl, rfl⟩
  have h : Counted _ _ := ((hstart.after 30).following [[.bufferCount, .finish 1 true]]
    (.fetch ⟨257, 3⟩ (some "h"))).after 20
  exact ⟨_, _, h, by decide, by decide, h.attentive⟩

end Machine
end BufferCache
