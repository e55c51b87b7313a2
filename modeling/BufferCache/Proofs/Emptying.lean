import BufferCache.Proofs.Acquisitions
import BufferCache.Proofs.Progress
import BufferCache.Proofs.WriteBack

/-!
# Emptying the buffers of a device

When a medium was taken out, what is in the buffers of its device is of no more use, and neither
are the changes.  The buffers are emptied one by one.  One that is locked is waited for, so that
no transfer that is under way can make it valid afterwards; other tasks run meanwhile, and may
give it another block, or give blocks of the device to buffers that were passed already.  Where
the medium was changed, whoever listens is told before the first buffer is looked at, and may use
the cache at will.

`Discarding` says where this has come to, for one buffer that was for the device at first: either
the buffer is still to come, or it was seen *vacant* on the way, which is to say unlocked and
without bytes and change, or with another block.  Nobody can take that back, so it holds of every
buffer in the end.  `Reachable.discards` adds that a call that never gave way leaves no buffer of
the device valid or dirty, and that its own steps leave everything else alone.
-/

namespace BufferCache

variable {g : Geometry}

/-! ## What the calls do themselves -/

/-- From `c` to `c'`, unlocked buffers of device `d` may have been emptied, and nothing else is
changed. -/
structure Cache.EmptiesOnly (d : DeviceNumber) (c c' : Cache g) : Prop where
  /-- A header stays as it is, or the validity and the change of its buffer are gone.  It keeps
  its block, its references, its generation, its lock and its place in chain and ring. -/
  header : ∀ i, c'.header i = c.header i ∨ (c.header i).device = d ∧
    (c.header i).locked = false ∧ c'.header i = { c.header i with valid := false, dirty := false }
  /-- The chains begin where they did. -/
  buckets : c'.buffers.buckets = c.buffers.buckets
  /-- So does the ring. -/
  ringHead : c'.buffers.ringHead = c.buffers.ringHead
  /-- The bytes are as before. -/
  pages : c'.pages = c.pages
  /-- So are the requests. -/
  requests : c'.requests = c.requests
  /-- So are the drivers. -/
  drivers : c'.drivers = c.drivers
  /-- Nothing is counted. -/
  statistics : c'.statistics = c.statistics
  /-- Nobody is woken. -/
  queues : c'.queue = c.queue

section EmptiesOnly

variable {d : DeviceNumber} {c c' : Cache g}

theorem Cache.EmptiesOnly.of_eq (h : c' = c) : c.EmptiesOnly d c' := by
  subst h
  exact ⟨fun _ => .inl rfl, rfl, rfl, rfl, rfl, rfl, rfl, rfl⟩

theorem Cache.header_empty (c : Cache g) (i j : g.Buffer) :
    ((c.setValid i false).setDirty i false).header j =
      if i = j then { c.header j with valid := false, dirty := false } else c.header j := by
  rw [header_setDirty, header_setValid]
  split <;> rfl

theorem Cache.emptiesOnly_empty {i : g.Buffer} (hdevice : (c.header i).device = d)
    (hlocked : (c.header i).locked = false) :
    c.EmptiesOnly d ((c.setValid i false).setDirty i false) := by
  refine ⟨fun j => ?_, rfl, rfl, rfl, rfl, rfl, rfl, rfl⟩
  rw [Cache.header_empty]
  split
  · rename_i hij
    subst hij
    exact .inr ⟨hdevice, hlocked, rfl⟩
  · exact .inl rfl

end EmptiesOnly

/-- The calls that are made to empty the buffers of device `d`, and to wait for them. -/
def Call.Discards (d : DeviceNumber) {s : Shape} : Call g s → Prop
  | .checkMedium d' | .discard d' | .discardBuffers d' _ => d' = d
  | .awaitUnlock _ | .sleep _ _ | .play _ => True
  | _ => False

/-- The suspended ones among them. -/
def Frame.Discards (d : DeviceNumber) {a s : Shape} : Frame g a s → Prop
  | .discardAwaiting d' _ _ | .mediumAnnouncing d' => d' = d
  | .mediumDiscarding | .awaitingUnlock _ | .sleeping _ _ => True
  | _ => False

/-- The family of these calls. -/
def Family.discards (g : Geometry) (d : DeviceNumber) : Family g where
  call := Call.Discards d
  frame := Frame.Discards d

/-- A step leaves the cache alone, and what comes next is made to empty the device. -/
def Outcome.Discards {s : Shape} (o : Outcome g s) (d : DeviceNumber) (w : World g) : Prop :=
  o.Ensures fun w' n => w'.cache = w.cache ∧ (Family.discards g d).Admits n

section Discards

variable {s : Shape} {d : DeviceNumber} {w : World g}

theorem World.sleep_discards (w : World g) (q : Queue g) (ticket : UInt64) :
    (w.sleep q ticket).Discards d w := by
  unfold World.sleep
  split
  · split
    · exact Outcome.ensures_error
    · rename_i htake
      exact Outcome.ensures_call ⟨(World.cache_takeWaiting htake).trans rfl, .inl ⟨trivial, trivial⟩⟩
  · exact Outcome.ensures_done ⟨rfl, trivial⟩

theorem World.awaitUnlock_discards (w : World g) (i : g.Buffer) : (w.awaitUnlock i).Discards d w := by
  unfold World.awaitUnlock
  split
  · exact Outcome.ensures_call ⟨rfl, .inl ⟨trivial, trivial⟩⟩
  · exact Outcome.ensures_done ⟨rfl, trivial⟩

theorem World.discardBuffers_discards (w : World g) (rest : List g.Buffer) :
    (w.discardBuffers d rest).Discards d w := by
  cases rest with
  | nil => exact Outcome.ensures_done ⟨rfl, trivial⟩
  | cons i rest =>
    rw [World.discardBuffers]
    split
    · exact Outcome.ensures_call ⟨rfl, .inl ⟨trivial, rfl⟩⟩
    · exact Outcome.ensures_goto ⟨rfl, rfl⟩

/-- What a check of the medium does at first: nothing at all, or it announces that the device
will be emptied. -/
theorem World.checkMedium_ensures (w : World g) (d : DeviceNumber) :
    (w.checkMedium d).Ensures fun w' n => w' = w ∧ n = .done false ∨
      w'.cache = w.cache ∧ ∃ script, n = .call (.play script) (.mediumAnnouncing d) := by
  unfold World.checkMedium
  split
  · exact Outcome.ensures_call (.inr ⟨World.cache_takeEmptying _ d, _, rfl⟩)
  · exact Outcome.ensures_done (.inl ⟨rfl, rfl⟩)

/-- When such a call begins. -/
theorem Call.Discards.begin {c : Call g s} (hc : c.Discards d) (w : World g) :
    (c.begin w).Discards d w := by
  cases c with
  | sleep q ticket => exact w.sleep_discards q ticket
  | play script =>
    cases script with
    | nil => exact Outcome.ensures_done ⟨rfl, trivial⟩
    | cons command rest => exact Outcome.ensures_call ⟨rfl, .inr rfl⟩
  | awaitUnlock i => exact w.awaitUnlock_discards i
  | discard d' => exact Outcome.ensures_goto ⟨rfl, hc⟩
  | discardBuffers d' rest =>
    obtain rfl : d' = d := hc
    exact w.discardBuffers_discards rest
  | checkMedium d' =>
    obtain rfl : d' = d := hc
    refine (w.checkMedium_ensures d').mono fun w' n hn => ?_
    rcases hn with ⟨rfl, rfl⟩ | ⟨hcache, script, rfl⟩
    · exact ⟨rfl, trivial⟩
    · exact ⟨hcache, .inl ⟨trivial, rfl⟩⟩
  | _ => exact hc.elim

/-- A buffer that was waited for is emptied if it still belongs to the device, and the next one
is looked at. -/
theorem World.discardReady_ensures (w : World g) (d : DeviceNumber) (i : g.Buffer)
    (rest : List g.Buffer) : (w.discardReady d i rest).Ensures fun w' n =>
      n = .goto (.discardBuffers d rest) ∧
        ((w.cache.header i).device = d ∧
            w'.cache = (w.cache.setValid i false).setDirty i false ∨
          (w.cache.header i).device ≠ d ∧ w'.cache = w.cache) := by
  unfold World.discardReady
  dsimp only
  split
  · rename_i hdevice
    exact Outcome.ensures_goto ⟨rfl, .inl ⟨hdevice, rfl⟩⟩
  · rename_i hdevice
    exact Outcome.ensures_goto ⟨rfl, .inr ⟨hdevice, rfl⟩⟩

/-- When such a call goes on. -/
theorem Frame.Discards.resume {a : Shape} {f : Frame g a s} (hf : f.Discards d) (v : a.Value g)
    (w : World g) : (f.resume v w).Ensures fun w' n => (Family.discards g d).Admits n ∧
      ((∀ i, f.wishes = .unlocked i → (w.cache.header i).locked = false) →
        w.cache.EmptiesOnly d w'.cache) := by
  cases f with
  | sleeping q ticket => exact Outcome.ensures_goto ⟨trivial, fun _ => .of_eq rfl⟩
  | awaitingUnlock i => exact Outcome.ensures_goto ⟨trivial, fun _ => .of_eq rfl⟩
  | mediumAnnouncing d' => exact Outcome.ensures_call ⟨.inl ⟨hf, trivial⟩, fun _ => .of_eq rfl⟩
  | mediumDiscarding => exact Outcome.ensures_done ⟨trivial, fun _ => .of_eq rfl⟩
  | discardAwaiting d' i rest =>
    obtain rfl : d' = d := hf
    refine (w.discardReady_ensures d' i rest).mono fun w' n hn => ?_
    obtain ⟨rfl, ⟨hdevice, hcache⟩ | ⟨-, hcache⟩⟩ := hn
    · refine ⟨rfl, fun hwish => ?_⟩
      rw [hcache]
      exact Cache.emptiesOnly_empty hdevice (hwish i rfl)
    · exact ⟨rfl, fun _ => .of_eq hcache⟩
  | _ => exact hf.elim

theorem Family.discards_closed (d : DeviceNumber) : (Family.discards g d).Closed where
  begin hc hn := (Call.Discards.begin hc _ _ _ hn).2
  resume hf hn := (Frame.Discards.resume hf _ _ _ _ hn).1
  play _ := trivial

end Discards

namespace Machine

variable {s : Shape} {d : DeviceNumber} {x : g.Buffer} {m n n' : Machine g}

/-- Where the emptying of a device is at work itself, buffers of the device are emptied at
most. -/
theorem emptiesOnly_of_atWork {w : World g} {c : Call g s} {base : Stack g s}
    (hc : c.Discards d) (hm : Reachable ⟨w, s, .run c, base⟩)
    (hspan : Leads (¬ Returned base ·) ⟨w, s, .run c, base⟩ n) (hwork : n.AtWork base)
    (hmove : n.Moves n') : n.world.cache.EmptiesOnly d n'.world.cache := by
  have hmoves := (Family.discards_closed d).moves_of_atWork hc .here hspan hwork
  have hn := hm.leads hspan
  cases hmoves.makes hwork.2 hmove with
  | begin hc _ hnext =>
    rw [world_next]
    exact .of_eq (Call.Discards.begin hc _ _ _ hnext).1
  | resume hf _ hnext =>
    rw [world_next]
    refine (Frame.Discards.resume hf _ _ _ _ hnext).2 fun i hwish => ?_
    have hgranted := hn.consistent.orderly.1
    rw [Stack.wishes, hwish] at hgranted
    exact hgranted

/-! ## Vacant buffers -/

/-- Buffer `x` is unlocked and has neither bytes nor a change, or it has a block of another
device. -/
def Vacant (d : DeviceNumber) (x : g.Buffer) (n : Machine g) : Prop :=
  (n.world.cache.header x).locked = false ∧ (n.world.cache.header x).valid = false ∧
      (n.world.cache.header x).dirty = false ∨
    (n.world.cache.header x).device ≠ d

/-- A buffer that is emptied is vacant. -/
theorem vacant_of_discardReady {w w' : World g} {rest : List g.Buffer} {next : Next g .unit}
    {base : Stack g .unit} (hunlocked : (w.cache.header x).locked = false)
    (hnext : w.discardReady d x rest = .ok (w', next)) : (next.machine w' base).Vacant d x := by
  obtain ⟨rfl, ⟨-, hcache⟩ | ⟨hother, hcache⟩⟩ := w.discardReady_ensures d x rest w' next hnext
  · refine .inl ?_
    change (w'.cache.header x).locked = false ∧ (w'.cache.header x).valid = false ∧
      (w'.cache.header x).dirty = false
    rw [hcache, Cache.header_empty, if_pos rfl]
    exact ⟨hunlocked, rfl, rfl⟩
  · refine .inr ?_
    change (w'.cache.header x).device ≠ d
    rw [hcache]
    exact hother

/-- From `m` to `n`, buffer `x` was vacant at some point, by which every request for it that was
in a slot at `m` had ended. -/
def Vacated (on : Machine g → Prop) (d : DeviceNumber) (x : g.Buffer) (m n : Machine g) : Prop :=
  ∃ a, Leads on m a ∧ Leads on a n ∧ a.Vacant d x ∧
    ∀ k t, m.order? k = some (t, x) → ∃ b, Leads on m b ∧ Leads on b a ∧ b.order? k = none

section Vacated

variable {on : Machine g → Prop}

theorem Vacated.moves (h : Vacated on d x m n) (hon : on n) (hmove : n.Moves n') :
    Vacated on d x m n' := by
  obtain ⟨a, hma, han, hvacant, hended⟩ := h
  exact ⟨a, hma, han.tail ⟨hon, hmove⟩, hvacant, hended⟩

/-- A request is in its slot all the way, or ends on it. -/
theorem Leads.ended_or {k : g.Slot} (h : Leads on m n) (hk : m.order? k ≠ none) :
    (∃ b, Leads on m b ∧ Leads on b n ∧ b.order? k = none) ∨
      Leads (fun a => a.order? k ≠ none) m n ∧ n.order? k ≠ none := by
  induction h with
  | refl => exact .inr ⟨.refl, hk⟩
  | @tail a b hspan hmove ih =>
    rcases ih with ⟨e, hme, hea, hended⟩ | ⟨hthrough, hstill⟩
    · exact .inl ⟨e, hme, hea.tail hmove, hended⟩
    · by_cases hended : b.order? k = none
      · exact .inl ⟨b, hspan.tail hmove, .refl, hended⟩
      · exact .inr ⟨hthrough.tail ⟨hstill, hmove.2⟩, hended⟩

/-- A buffer of the device that is vacant later has no request left that was there before: that
would keep it locked, and its block in it. -/
theorem Reachable.vacated (hm : m.Reachable) (hspan : Leads on m n)
    (hx : (m.world.cache.header x).device = d) (hvacant : n.Vacant d x) : Vacated on d x m n := by
  refine ⟨n, hspan, .refl, hvacant, fun k t hk => ?_⟩
  rcases hspan.ended_or (hk ▸ Option.some_ne_none _) with hended | ⟨hthrough, hstill⟩
  · exact hended
  obtain ⟨hkept, hidentity⟩ := hm.identity_of_leads hk hthrough hstill
  exfalso
  rcases hvacant with ⟨hunlocked, -⟩ | hother
  · exact Bool.false_ne_true (hunlocked.symm.trans ((hm.leads hspan).locked_of_order? hkept))
  · have hblock := Cache.blockOf_congr (congrArg Prod.fst hidentity :)
    exact hother ((congrArg Block.device hblock :).trans hx)

end Vacated

/-! ## One buffer after the other -/

/-- Where the emptying of device `d` above `base` has come to: buffer `x` is still to come, or
it was vacated on the way from `m`. -/
inductive Discarding (d : DeviceNumber) (x : g.Buffer) (base : Stack g .unit) (m : Machine g) :
    Machine g → Prop
  | begins {w : World g} : Discarding d x base m ⟨w, .unit, .run (.discard d), base⟩
  | buffers {w : World g} {rest : List g.Buffer} :
      x ∈ rest ∨ Vacated (¬ Returned base ·) d x m
        ⟨w, .unit, .run (.discardBuffers d rest), base⟩ →
      Discarding d x base m ⟨w, .unit, .run (.discardBuffers d rest), base⟩
  | awaiting {n : Machine g} {i : g.Buffer} {rest : List g.Buffer} :
      (Stack.push (.discardAwaiting d i rest) base).Beneath n.stack →
      x ∈ i :: rest ∨ Vacated (¬ Returned base ·) d x m n → Discarding d x base m n
  | returned {w : World g} {v : Unit} :
      Vacated (¬ Returned base ·) d x m ⟨w, .unit, .give v, base⟩ →
      Discarding d x base m ⟨w, .unit, .give v, base⟩

/-- A move goes on with the emptying.  Buffer `x` is vacant where it is passed over. -/
theorem Discarding.moves {base : Stack g .unit} (h : Discarding d x base m n)
    (hm : m.Reachable) (hx : (m.world.cache.header x).device = d)
    (hspan : Leads (¬ Returned base ·) m n) (hover : ¬ n.Returned base) (hmove : n.Moves n') :
    Discarding d x base m n' := by
  have hvacated (hvacant : n'.Vacant d x) : Vacated (¬ Returned base ·) d x m n' :=
    hm.vacated (hspan.tail ⟨hover, hmove⟩) hx hvacant
  have hkept (hn : Vacated (¬ Returned base ·) d x m n) :
      Vacated (¬ Returned base ·) d x m n' := hn.moves hover hmove
  cases h with
  | begins =>
    obtain ⟨w', next, hnext, rfl⟩ := moves_of_run hmove
    cases hnext
    exact .buffers (.inl (g.mem_allBuffers x))
  | @buffers w rest hrest =>
    obtain ⟨w', next, hnext, rfl⟩ := moves_of_run hmove
    change w.discardBuffers d rest = _ at hnext
    cases rest with
    | nil =>
      cases hnext
      exact .returned (hkept (hrest.resolve_left List.not_mem_nil))
    | cons i rest =>
      rw [World.discardBuffers] at hnext
      split at hnext
      · cases hnext
        exact .awaiting .here (hrest.imp_right hkept)
      · rename_i hother
        cases hnext
        refine .buffers (hrest.elim (fun hmem => ?_) fun hn => .inr (hkept hn))
        rcases List.mem_cons.mp hmem with rfl | hlater
        · exact .inr (hvacated (.inr hother))
        · exact .inl hlater
  | @awaiting _ i rest hbeneath hrest =>
    by_cases hreturned : n.Returned (.push (.discardAwaiting d i rest) base)
    · obtain ⟨w, v, w', next, rfl, hnext, rfl⟩ := moves_of_returned hreturned hmove
      have hunlocked : (w.cache.header i).locked = false :=
        (hm.leads hspan).consistent.orderly.1
      obtain ⟨rfl, -⟩ := w.discardReady_ensures d i rest w' next hnext
      refine .buffers (hrest.elim (fun hmem => ?_) fun hn => .inr (hkept hn))
      rcases List.mem_cons.mp hmem with rfl | hlater
      · exact .inr (hvacated (vacant_of_discardReady hunlocked hnext))
      · exact .inl hlater
    · exact .awaiting (beneath_moves hbeneath hmove hreturned) (hrest.imp_right hkept)
  | returned => exact absurd ⟨_, _, rfl⟩ hover

/-- When the emptying is over, every buffer that was for the device as it began was vacated. -/
theorem Reachable.vacated_of_discard {w : World g} {base : Stack g .unit}
    (hm : Reachable ⟨w, .unit, .run (.discard d), base⟩)
    (hspan : Leads (¬ Returned base ·) ⟨w, .unit, .run (.discard d), base⟩ n)
    (hover : n.Returned base) (hx : (w.cache.header x).device = d) :
    Vacated (¬ Returned base ·) d x ⟨w, .unit, .run (.discard d), base⟩ n := by
  have hdiscarding : Discarding d x base ⟨w, .unit, .run (.discard d), base⟩ n := by
    clear hover
    induction hspan with
    | refl => exact .begins
    | tail hpath hmove ih => exact ih.moves hm hx hpath hmove.1 hmove.2
  obtain ⟨w', v, rfl⟩ := hover
  cases hdiscarding with
  | awaiting hbeneath => exact absurd hbeneath (Stack.not_push_beneath _ _)
  | returned hvacated => exact hvacated

/-! ## If nothing gives way -/

theorem Vacant.of_emptiesOnly (h : n.Vacant d x)
    (hempties : n.world.cache.EmptiesOnly d n'.world.cache) : n'.Vacant d x := by
  unfold Vacant
  rcases hempties.header x with hsame | ⟨-, hunlocked, hemptied⟩
  · rw [hsame]
    exact h
  · rw [hemptied]
    exact .inl ⟨hunlocked, rfl, rfl⟩

/-- Where the emptying of device `d` above `base` has come to if nothing gave way before: buffer
`x` is still to come, or it is vacant. -/
inductive Undelayed (d : DeviceNumber) (x : g.Buffer) (base : Stack g .unit) : Machine g → Prop
  | begins {w : World g} : Undelayed d x base ⟨w, .unit, .run (.discard d), base⟩
  | buffers {w : World g} {rest : List g.Buffer} :
      x ∈ rest ∨ Vacant d x ⟨w, .unit, .run (.discardBuffers d rest), base⟩ →
      Undelayed d x base ⟨w, .unit, .run (.discardBuffers d rest), base⟩
  | awaits {w : World g} {i : g.Buffer} {rest : List g.Buffer} :
      x ∈ i :: rest ∨ Vacant d x
        ⟨w, .unit, .run (.awaitUnlock i), .push (.discardAwaiting d i rest) base⟩ →
      Undelayed d x base
        ⟨w, .unit, .run (.awaitUnlock i), .push (.discardAwaiting d i rest) base⟩
  | ready {w : World g} {v : Unit} {i : g.Buffer} {rest : List g.Buffer} :
      x ∈ i :: rest ∨ Vacant d x ⟨w, .unit, .give v, .push (.discardAwaiting d i rest) base⟩ →
      Undelayed d x base ⟨w, .unit, .give v, .push (.discardAwaiting d i rest) base⟩
  | asleep {n : Machine g} : n.GivesWay → Undelayed d x base n
  | returned {w : World g} {v : Unit} : Vacant d x ⟨w, .unit, .give v, base⟩ →
      Undelayed d x base ⟨w, .unit, .give v, base⟩

/-- There the calls above `base` are at work themselves. -/
theorem Undelayed.atWork {base : Stack g .unit} (h : Undelayed d x base n)
    (hover : ¬ n.Returned base) (hway : ¬ n.GivesWay) : n.AtWork base := by
  refine ⟨?_, hover⟩
  cases h with
  | begins | buffers _ | returned _ => exact .here
  | awaits _ | ready _ => exact .push rfl .here
  | asleep h => exact absurd h hway

theorem Undelayed.moves {base : Stack g .unit} (h : Undelayed d x base n) (hn : n.Reachable)
    (hempties : n.world.cache.EmptiesOnly d n'.world.cache) (hover : ¬ n.Returned base)
    (hway : ¬ n.GivesWay) (hmove : n.Moves n') : Undelayed d x base n' := by
  have hkept (hvacant : n.Vacant d x) : n'.Vacant d x := hvacant.of_emptiesOnly hempties
  cases h with
  | begins =>
    obtain ⟨w', next, hnext, rfl⟩ := moves_of_run hmove
    cases hnext
    exact .buffers (.inl (g.mem_allBuffers x))
  | @buffers w rest hrest =>
    obtain ⟨w', next, hnext, rfl⟩ := moves_of_run hmove
    change w.discardBuffers d rest = _ at hnext
    cases rest with
    | nil =>
      cases hnext
      exact .returned (hkept (hrest.resolve_left List.not_mem_nil))
    | cons i rest =>
      rw [World.discardBuffers] at hnext
      split at hnext
      · cases hnext
        exact .awaits (hrest.imp_right hkept)
      · rename_i hother
        cases hnext
        refine .buffers (hrest.elim (fun hmem => ?_) fun hvacant => .inr (hkept hvacant))
        rcases List.mem_cons.mp hmem with rfl | hlater
        · exact .inr (.inr hother)
        · exact .inl hlater
  | @awaits w i rest hrest =>
    obtain ⟨w', next, hnext, rfl⟩ := moves_of_run hmove
    change w.awaitUnlock i = _ at hnext
    unfold World.awaitUnlock at hnext
    split at hnext
    · cases hnext
      exact .asleep (WaitQueue.holds_ticket _)
    · cases hnext
      exact .ready (hrest.imp_right hkept)
  | @ready w v i rest hrest =>
    obtain ⟨w', next, hnext, rfl⟩ := moves_of_give hmove
    have hunlocked : (w.cache.header i).locked = false := hn.consistent.orderly.1
    obtain ⟨rfl, -⟩ := w.discardReady_ensures d i rest w' next hnext
    refine .buffers (hrest.elim (fun hmem => ?_) fun hvacant => .inr (hkept hvacant))
    rcases List.mem_cons.mp hmem with rfl | hlater
    · exact .inr (vacant_of_discardReady hunlocked hnext)
    · exact .inl hlater
  | asleep h => exact absurd h hway
  | returned => exact absurd ⟨_, _, rfl⟩ hover

/-- If nothing gave way, no buffer has bytes or a change of the device as the emptying ends. -/
theorem Reachable.vacant_of_discard {w : World g} {base : Stack g .unit}
    (hm : Reachable ⟨w, .unit, .run (.discard d), base⟩)
    (hspan : Leads (fun a => ¬ a.Returned base ∧ ¬ a.GivesWay)
      ⟨w, .unit, .run (.discard d), base⟩ n)
    (hover : n.Returned base) (x : g.Buffer) : n.Vacant d x := by
  have hundelayed : Undelayed d x base n := by
    clear hover
    induction hspan with
    | refl => exact .begins
    | @tail a b hpath hmove ih =>
      have hplain := Leads.mono hpath fun _ h => h.1
      have hdiscard : (Call.discard (g := g) d).Discards d := rfl
      have hempties := emptiesOnly_of_atWork hdiscard hm hplain
        (ih.atWork hmove.1.1 hmove.1.2) hmove.2
      exact ih.moves (hm.leads hplain) hempties hmove.1.1 hmove.1.2 hmove.2
  obtain ⟨w', v, rfl⟩ := hover
  cases hundelayed with
  | asleep h => exact h.elim
  | returned hvacant => exact hvacant

/-! ## Every emptying -/

/-- A check of a medium leaves everything as it is and answers so, or empties the device once the
listener has done what it does. -/
theorem leads_checkMedium {on : Machine g → Prop} {w w' : World g} {v : Bool}
    {base : Stack g .flag}
    (hon : ∀ a, on a → ¬ a.Returned base)
    (hspan : Leads on ⟨w, .flag, .run (.checkMedium d), base⟩ ⟨w', .flag, .give v, base⟩) :
    w' = w ∧ v = false ∨ v = true ∧ ∃ w₁ : World g,
      Leads on ⟨w, .flag, .run (.checkMedium d), base⟩
        ⟨w₁, .unit, .run (.discard d), .push .mediumDiscarding base⟩ ∧
      Leads (fun a => on a ∧ ¬ a.Returned (.push .mediumDiscarding base))
        ⟨w₁, .unit, .run (.discard d), .push .mediumDiscarding base⟩
        ⟨w', .unit, .give (), .push .mediumDiscarding base⟩ ∧
      on ⟨w', .unit, .give (), .push .mediumDiscarding base⟩ := by
  have hended {a n : Machine g} (ha : a.Returned base) (h : Leads on a n) : n = a := by
    rcases h.cases_head with rfl | ⟨b, hmove, -⟩
    · rfl
    · exact absurd ha (hon a hmove.1)
  rcases hspan.cases_head with heq | ⟨m₁, ⟨hm, hmove⟩, hrest⟩
  · cases heq
  obtain ⟨w₁, next, hnext, rfl⟩ := moves_of_run hmove
  rcases w.checkMedium_ensures d w₁ next hnext with ⟨rfl, rfl⟩ | ⟨-, script, rfl⟩
  · cases hended ⟨_, _, rfl⟩ hrest
    exact .inl ⟨rfl, rfl⟩
  -- The listener is heard to its end, then the buffers are emptied.
  rcases Leads.resumes_or_beneath hrest .here with
    ⟨-, hbeneath⟩ | ⟨w₂, u, w₃, next, hheard, hreturned, hresume, hlast⟩
  · exact absurd hbeneath (Stack.not_push_beneath _ _)
  cases hresume
  have hfirst := ((hheard.mono fun _ ha => ha.1).tail
    ⟨hreturned, .step (.resume base rfl)⟩).head ⟨hm, hmove⟩
  rcases Leads.resumes_or_beneath hlast .here with
    ⟨-, hbeneath⟩ | ⟨w₄, u', w₅, next, hinner, hreturned', hresume, hlast⟩
  · exact absurd hbeneath (Stack.not_push_beneath _ _)
  cases hresume
  cases hended ⟨_, _, rfl⟩ hlast
  exact .inr ⟨rfl, w₂, hfirst, hinner, hreturned'⟩

/-- How the buffers of a device are emptied. -/
structure EmptiesDevices (m : Machine g) : Prop where
  /-- When the buffers of a device were emptied, every buffer that was for the device at first was
  vacant at some point, and the requests for it had ended by then. -/
  vacated : ∀ {w d x n} {base : Stack g .unit}, m = ⟨w, .unit, .run (.discard d), base⟩ →
    Leads (¬ Returned base ·) m n → n.Returned base → (w.cache.header x).device = d →
      Vacated (¬ Returned base ·) d x m n
  /-- So it is if they were emptied since the medium was changed, whatever is done where this is
  announced. -/
  checked : ∀ {w d x w'} {base : Stack g .flag}, m = ⟨w, .flag, .run (.checkMedium d), base⟩ →
    Leads (¬ Returned base ·) m ⟨w', .flag, .give true, base⟩ → (w.cache.header x).device = d →
      Vacated (¬ Returned base ·) d x m ⟨w', .flag, .give true, base⟩
  /-- If nothing gave way, no buffer of the device is valid or dirty in the end. -/
  prompt : ∀ {w d n} {base : Stack g .unit}, m = ⟨w, .unit, .run (.discard d), base⟩ →
    Leads (fun a => ¬ a.Returned base ∧ ¬ a.GivesWay) m n → n.Returned base →
      ∀ x, (n.world.cache.header x).device = d →
        (n.world.cache.header x).valid = false ∧ (n.world.cache.header x).dirty = false
  /-- So it is after the check of a medium that was changed, also if its announcement was acted
  on. -/
  promptly : ∀ {w d w'} {base : Stack g .flag}, m = ⟨w, .flag, .run (.checkMedium d), base⟩ →
    Leads (fun a => ¬ a.Returned base ∧ ¬ a.GivesWay) m ⟨w', .flag, .give true, base⟩ →
      ∀ x, (w'.cache.header x).device = d →
        (w'.cache.header x).valid = false ∧ (w'.cache.header x).dirty = false
  /-- Nothing else is changed by the steps that belong to the emptying. -/
  confined : ∀ {s w d n n'} {base : Stack g s} {c : Call g s}, m = ⟨w, s, .run c, base⟩ →
    c.Discards d → Leads (¬ Returned base ·) m n → n.AtWork base → n.Moves n' →
      n.world.cache.EmptiesOnly d n'.world.cache
  /-- The check of a medium that was not changed changes nothing. -/
  unchanged : ∀ {w d w'} {base : Stack g .flag}, m = ⟨w, .flag, .run (.checkMedium d), base⟩ →
    Leads (¬ Returned base ·) m ⟨w', .flag, .give false, base⟩ → w' = w

/-- In every session, whatever listeners and other tasks do meanwhile, the emptying of a device is
complete, and it is confined to the device. -/
theorem Reachable.emptiesDevices (h : m.Reachable) : m.EmptiesDevices where
  vacated := by
    rintro w d x n base rfl hspan hover hx
    exact h.vacated_of_discard hspan hover hx
  checked := by
    rintro w d x w' base rfl hspan hx
    rcases leads_checkMedium (fun _ ha => ha) hspan with ⟨-, hfalse⟩ |
      ⟨-, w₁, hfirst, hinner, hreturned⟩
    · cases hfalse
    have hplain := hinner.mono fun _ ha => ha.2
    -- The listener may have given the buffer a block of another device: then it is vacant.
    obtain ⟨a, hma, han, hvacant⟩ : ∃ a,
        Leads (¬ Returned (.push .mediumDiscarding base) ·) _ a ∧
          Leads (¬ Returned (.push .mediumDiscarding base) ·) a _ ∧ a.Vacant d x := by
      by_cases hx₁ : (w₁.cache.header x).device = d
      · obtain ⟨a, hma, han, hvacant, -⟩ :=
          (h.leads hfirst).vacated_of_discard hplain ⟨_, _, rfl⟩ hx₁
        exact ⟨a, hma, han, hvacant⟩
      · exact ⟨_, .refl, hplain, .inr hx₁⟩
    have hto : Leads (¬ Returned base ·) ⟨w, .flag, .run (.checkMedium d), base⟩ a :=
      hfirst.trans (hma.of_push .here)
    have hbeneath : (Stack.push .mediumDiscarding base).Beneath a.stack := hma.beneath .here
    have hfrom := (han.of_push hbeneath).tail ⟨hreturned, .step (.resume base rfl)⟩
    obtain ⟨b, hmb, hba, hvacantb, hended⟩ := h.vacated hto hx hvacant
    exact ⟨b, hmb, hba.trans hfrom, hvacantb, hended⟩
  prompt := by
    rintro w d n base rfl hspan hover x hx
    rcases h.vacant_of_discard hspan hover x with ⟨-, hvalid, hclean⟩ | hother
    · exact ⟨hvalid, hclean⟩
    · exact absurd hx hother
  promptly := by
    rintro w d w' base rfl hspan x hx
    rcases leads_checkMedium (fun _ ha => ha.1) hspan with ⟨-, hfalse⟩ |
      ⟨-, w₁, hfirst, hinner, -⟩
    · cases hfalse
    have hinner' := hinner.mono fun _ ha => And.intro ha.2 ha.1.2
    rcases (h.leads hfirst).vacant_of_discard hinner' ⟨_, _, rfl⟩ x with
      ⟨-, hvalid, hclean⟩ | hother
    · exact ⟨hvalid, hclean⟩
    · exact absurd hx hother
  confined := by
    rintro s w d n n' base c rfl hc hspan hwork hmove
    exact emptiesOnly_of_atWork hc h hspan hwork hmove
  unchanged := by
    rintro w d w' base rfl hspan
    rcases leads_checkMedium (fun _ ha => ha) hspan with ⟨hsame, -⟩ | ⟨htrue, -⟩
    · exact hsame
    · cases htrue

/-- The medium of a device was changed, which is about to be noticed while one of its buffers is
read.  Whoever listens to that ends the transfer well. -/
def checkedWhileReading : Machine Geometry.single :=
  let read := ((start ((World.initial Geometry.single).fresh [])
    (.register 1 ⟨1, .manual [1]⟩ [])).after 20).commanded 20
      [.listen (some []), .attend [[.finish 1 true]], .acquire ⟨257, 3⟩ (some "h"),
        .issue .read "h"]
  (read.next [] (.checkMedium 257)).after 1

/-- What was read is valid before the buffers are emptied, but it is not left. -/
theorem vacated_of_read :
    ∃ w' : World Geometry.single, checkedWhileReading.Reachable ∧
      checkedWhileReading.order? ⟨2, by decide⟩ =
        some (.ofBlock .read ⟨257, 3⟩, Geometry.single.firstBuffer) ∧
      ((checkedWhileReading.after 9).world.cache.header Geometry.single.firstBuffer).valid =
        true ∧
      Leads (¬ Returned (.push .answerFlag .bottom) ·) checkedWhileReading
        ⟨w', .flag, .give true, .push .answerFlag .bottom⟩ ∧
      Vacated (¬ Returned (.push .answerFlag .bottom) ·) 257 Geometry.single.firstBuffer
        checkedWhileReading ⟨w', .flag, .give true, .push .answerFlag .bottom⟩ := by
  have h : checkedWhileReading.Reachable :=
    ((((reachable_start [] _).after 20).commanded 20 _).next _ _).after 1
  have hsteps : ∀ k < 12, (checkedWhileReading.after k).gives .flag = false := by decide
  have hspan : Leads (¬ Returned (.push .answerFlag .bottom) ·) checkedWhileReading
      (checkedWhileReading.after 12) := leads_after_of fun k hk hreturned =>
    Bool.false_ne_true ((hsteps k hk).symm.trans (gives_of_returned hreturned))
  exact ⟨_, h, by decide, by decide, hspan, h.emptiesDevices.checked rfl hspan (by decide)⟩

end Machine
end BufferCache
