import BufferCache.Proofs.RingOrder

/-!
# The ring is never found broken

The ring is looked at in two places: where a victim is looked for, and where the victim is
given its block.  Only there can a step find out that a link is missing.  All other steps are
*intact*, whatever the links are; this module goes through them once.

In the two places the ring of a session is in order.  So no session halts for this reason.
-/

namespace BufferCache

variable {g : Geometry}

/-! ## Steps that do not halt over the ring -/

/-- The step does not halt since the ring is broken. -/
def Outcome.Intact {s : Shape} (o : Outcome g s) : Prop :=
  o ≠ .error (.fault .ringBroken)

/-- What is done through a handle does not fail for the ring. -/
theorem Cache.resolve_ne_ringBroken {c : Cache g} {h : Handle} :
    c.resolve h ≠ .error .ringBroken := by
  intro hc
  rcases resolve_eq_error hc with hf | ⟨_, hf⟩ | hf <;> cases hf

theorem Cache.resolveRelease_ne_ringBroken {c : Cache g} {h : Handle} :
    c.resolveRelease h ≠ .error .ringBroken := by
  intro hc
  cases resolveRelease_eq_error hc

namespace World

variable {s : Shape} {w : World g} {h : Handle}

theorem intact_ok {o : Outcome g s} {r : World g × Next g s} (ho : o = .ok r) : o.Intact := by
  intro hf
  cases ho.symm.trans hf

theorem intact_fault {f : Fault} (hf : f ≠ .ringBroken) :
    Outcome.Intact (fault f : Outcome g s) := by
  intro hbroken
  exact hf (Halt.fault.inj (Except.error.inj hbroken))

theorem intact_orFault {α : Type} {x : Except Fault α} {k : α → Outcome g s}
    (hk : ∀ a, (k a).Intact) (hx : x ≠ .error .ringBroken) : (orFault x k).Intact := by
  cases x with
  | ok a => exact hk a
  | error f => exact intact_fault fun hf => hx (congrArg Except.error hf)

/-- What fails just where a handle does is intact. -/
theorem intact_handle {α : Type} {x : Except Fault α} {k : α → Outcome g s}
    (hk : ∀ a, (k a).Intact) (hx : ∀ f, x = .error f → w.cache.resolve h = .error f) :
    (orFault x k).Intact :=
  intact_orFault hk fun hbroken => Cache.resolve_ne_ringBroken (hx _ hbroken)

theorem intact_view {k : HeaderView → Outcome g s} (hk : ∀ v, (k v).Intact) :
    (orFault (w.cache.view h) k).Intact :=
  intact_handle hk fun _ => Cache.map_eq_error

/-- What looks at a buffer and then goes one of two ways is intact if both are. -/
theorem intact_valid {k₁ k₂ : Outcome g s} (h₁ : k₁.Intact) (h₂ : k₂.Intact) :
    (orFault (w.cache.view h) fun v => if v.valid then k₁ else k₂).Intact := by
  refine intact_view fun v => ?_
  split
  · exact h₁
  · exact h₂

theorem intact_finish {m : Nat} {success : Bool} {k : World g × Bool → Outcome g s}
    (hk : ∀ a, (k a).Intact) : (orFault (w.finish m success) k).Intact :=
  intact_orFault hk fun hbroken => nomatch finish_eq_error hbroken

theorem withHandle_intact {name : String} {k : Handle → Outcome g .reply}
    (hk : ∀ h, (k h).Intact) : (w.withHandle name k).Intact := by
  unfold withHandle
  split
  · exact hk _
  · exact intact_ok rfl

theorem withGuard_intact {name : String} {k : Handle → Outcome g .reply}
    (hk : ∀ h, (k h).Intact) : (w.withGuard name k).Intact := by
  unfold withGuard
  split
  · exact hk _
  · exact intact_ok rfl

theorem change_intact {c : Except Fault (Cache g)}
    (hc : ∀ f, c = .error f → w.cache.resolve h = .error f) : (w.change c).Intact :=
  intact_handle (fun _ => intact_ok rfl) hc

theorem withDisk_intact (w : World g) (m : Nat) (k : MemoryDisk → Answer) :
    (w.withDisk m k).Intact := by
  unfold withDisk
  split <;> exact intact_ok rfl

theorem sleep_intact (w : World g) (q : Queue g) (ticket : UInt64) :
    (w.sleep q ticket).Intact := by
  unfold sleep
  split
  · split
    · exact nofun
    · exact intact_ok rfl
  · exact intact_ok rfl

theorem enqueue_intact (w : World g) (op : Operation) (i : g.Buffer) (d : DeviceNumber)
    (number : BlockNumber) : (w.enqueue op i d number).Intact := by
  unfold enqueue
  split
  · unfold file
    dsimp only
    split <;> exact intact_ok rfl
  · split <;> exact intact_ok rfl

theorem locked_intact (w : World g) (op : Operation) (i : g.Buffer) (d : DeviceNumber) :
    (w.locked op i d).Intact := by
  unfold locked
  split
  · exact intact_ok rfl
  · exact enqueue_intact w op i d _

theorem request_intact (w : World g) (op : Operation) (i : g.Buffer) :
    (w.request op i).Intact := by
  unfold request
  dsimp only
  split
  · exact intact_fault Fault.noConfusion
  split
  · split
    · exact intact_ok rfl
    · exact locked_intact _ op i _
  · exact intact_ok rfl

theorem start_intact (w : World g) (m : Nat) : (w.start m).Intact := by
  unfold start
  split
  · exact intact_ok rfl
  · split <;> exact intact_ok rfl

theorem serve_intact (w : World g) (m : Nat) : (w.serve m).Intact := by
  unfold serve
  split
  · exact intact_ok rfl
  split
  · exact intact_ok rfl
  · refine intact_finish fun ended => ?_
    split <;> exact intact_ok rfl

theorem letGo_intact (w : World g) (h t : Hold g) (d : DeviceNumber) (ahead : List BlockNumber) :
    (w.letGo h t d ahead).Intact :=
  intact_orFault (fun _ => intact_ok rfl) Cache.resolve_ne_ringBroken

theorem perform_intact (w : World g) (c : Command) : (w.perform c).Intact := by
  cases c with
  | register m d starts =>
    unfold perform
    dsimp only
    split <;> exact intact_ok rfl
  | start m =>
    unfold perform
    dsimp only
    split <;> exact intact_ok rfl
  | release name => exact withHandle_intact fun h => intact_ok rfl
  | issue op name => exact withHandle_intact fun h => intact_ok rfl
  | guardDrop name => exact withGuard_intact fun h => intact_ok rfl
  | guardInto name handle => exact withGuard_intact fun h => intact_ok rfl
  | guardHandle name handle => exact withGuard_intact fun h => intact_ok rfl
  | read name =>
    exact withHandle_intact fun h =>
      intact_handle (fun _ => intact_ok rfl) fun _ => Cache.map_eq_error
  | guardRead name =>
    exact withGuard_intact fun h =>
      intact_handle (fun _ => intact_ok rfl) fun _ => Cache.map_eq_error
  | query name q => exact withHandle_intact fun h => intact_view fun v => intact_ok rfl
  | guardInfo name => exact withGuard_intact fun h => intact_view fun v => intact_ok rfl
  | fill name byte =>
    exact withHandle_intact fun h => change_intact fun _ => Cache.map_eq_error
  | write name offset bytes =>
    exact withHandle_intact fun h => change_intact fun _ => Cache.map_eq_error
  | markDirty name => exact withHandle_intact fun h => change_intact fun _ => Cache.map_eq_error
  | markValid name => exact withHandle_intact fun h => change_intact fun _ => Cache.map_eq_error
  | guardWrite name offset bytes =>
    exact withGuard_intact fun h => change_intact fun _ => Cache.writeDirty_eq_error
  | move m fill =>
    change (w.moveBytes m fill).Intact
    unfold moveBytes
    split <;> exact intact_ok rfl
  | finish m success => exact intact_finish fun _ => intact_ok rfl
  | diskInfo m => exact w.withDisk_intact m _
  | diskRead m offset length fill => exact w.withDisk_intact m _
  | _ => exact intact_ok rfl

end World

/-- No call looks at the ring as it begins. -/
theorem Call.begin_intact {s : Shape} (c : Call g s) (w : World g) : (c.begin w).Intact := by
  cases c with
  | sleep q ticket => exact w.sleep_intact q ticket
  | play script => cases script <;> exact World.intact_ok rfl
  | awaitUnlock i =>
    change (w.awaitUnlock i).Intact
    unfold World.awaitUnlock
    split <;> exact World.intact_ok rfl
  | lock i =>
    change (w.lock i).Intact
    unfold World.lock
    split <;> exact World.intact_ok rfl
  | lookUp b =>
    change (w.lookUp b).Intact
    unfold World.lookUp
    split <;> exact World.intact_ok rfl
  | acquire b =>
    change (w.acquire b).Intact
    unfold World.acquire
    split
    · exact World.intact_fault Fault.noConfusion
    · exact World.intact_ok rfl
  | release h =>
    exact World.intact_orFault (fun _ => World.intact_ok rfl) Cache.resolveRelease_ne_ringBroken
  | readAhead h d ahead => cases ahead <;> exact World.intact_ok rfl
  | fetchPage d numbers page =>
    change (w.fetchPage d numbers page).Intact
    unfold World.fetchPage
    split
    · exact World.intact_ok rfl
    · split <;> exact World.intact_ok rfl
  | gather d numbers held page =>
    cases numbers with
    | nil => exact World.intact_ok rfl
    | cons n numbers =>
      change (w.gather d (n :: numbers) held page).Intact
      unfold World.gather
      dsimp only
      split <;> exact World.intact_ok rfl
  | collect held chunks failed page =>
    match held with
    | [] => exact World.intact_ok rfl
    | none :: held => exact World.intact_ok rfl
    | some h :: held => exact World.intact_ok rfl
  | issue op h =>
    exact World.intact_orFault (fun _ => World.intact_ok rfl) Cache.resolve_ne_ringBroken
  | request op i => exact w.request_intact op i
  | enqueue op i d number => exact w.enqueue_intact op i d number
  | start m => exact w.start_intact m
  | serve m => exact w.serve_intact m
  | flushRounds scope rounds writes => cases rounds <;> exact World.intact_ok rfl
  | flushBuffers scope rounds writes rest =>
    cases rest with
    | nil => exact World.intact_ok rfl
    | cons i rest =>
      change (w.flushBuffers scope rounds writes (i :: rest)).Intact
      unfold World.flushBuffers
      dsimp only
      split <;> exact World.intact_ok rfl
  | discardBuffers d rest =>
    cases rest with
    | nil => exact World.intact_ok rfl
    | cons i rest =>
      change (w.discardBuffers d (i :: rest)).Intact
      unfold World.discardBuffers
      dsimp only
      split <;> exact World.intact_ok rfl
  | checkMedium d =>
    change (w.checkMedium d).Intact
    unfold World.checkMedium
    split <;> exact World.intact_ok rfl
  | perform c => exact w.perform_intact c
  | drain m pattern upcoming ended =>
    change (w.drain m pattern upcoming ended).Intact
    unfold World.drain
    split
    · exact World.intact_ok rfl
    · exact World.intact_finish fun _ => World.intact_ok rfl
  | _ => exact World.intact_ok rfl

/-! ## The two places that look at the ring -/

/-- Whether a suspended call looks at the ring as it goes on: one that chooses a victim, or
gives the victim its block. -/
def Frame.Circles {a s : Shape} : Frame g a s → Prop
  | .lookingUp _ | .awaitingVictim _ _ => True
  | _ => False

theorem Frame.resume_intact {a s : Shape} {f : Frame g a s} (hf : ¬ f.Circles) (v : a.Value g)
    (w : World g) : (f.resume v w).Intact := by
  cases f with
  | lookingUp b => exact absurd trivial hf
  | awaitingVictim b i => exact absurd trivial hf
  | pinning b i =>
    change (w.pinned b i).Intact
    unfold World.pinned
    split
    · exact World.intact_ok rfl
    · split
      · exact World.intact_fault Fault.noConfusion
      · exact World.intact_ok rfl
  | releasing h i =>
    change (w.released i).Intact
    unfold World.released
    split
    · exact World.intact_fault Fault.noConfusion
    · exact World.intact_ok rfl
  | fetching => exact World.intact_valid (World.intact_ok rfl) (World.intact_ok rfl)
  | settling h => exact World.intact_valid (World.intact_ok rfl) (World.intact_ok rfl)
  | fetchingFirst d ahead =>
    exact World.intact_valid (World.intact_ok rfl) (World.intact_ok rfl)
  | fetchingAhead h d ahead =>
    exact World.intact_valid (w.letGo_intact h v d ahead) (World.intact_ok rfl)
  | issuingAhead h t d ahead => exact w.letGo_intact h t d ahead
  | gathering d numbers held page =>
    exact World.intact_valid (World.intact_ok rfl) (World.intact_ok rfl)
  | collecting h held chunks failed page =>
    exact World.intact_valid (World.intact_ok rfl) (World.intact_ok rfl)
  | locking op i d => exact w.locked_intact op i d
  | flushAwaiting scope rounds writes i rest =>
    change (w.flushReady scope rounds writes i rest).Intact
    unfold World.flushReady
    dsimp only
    split <;> exact World.intact_ok rfl
  | keepFound name => cases v <;> exact World.intact_ok rfl
  | keepFetched name => cases v <;> exact World.intact_ok rfl
  | guardFetched name => cases v <;> exact World.intact_ok rfl
  | guardHold name =>
    exact World.intact_handle (fun _ => World.intact_ok rfl) fun _ => Cache.map_eq_error
  | filling byte =>
    exact World.intact_handle (fun _ => World.intact_ok rfl) fun _ => Cache.overwrite_eq_error
  | _ => exact World.intact_ok rfl

namespace Buffers

variable {s : Buffers g} {order : List g.Buffer}

/-- A ring that is in order has a victim, or none is free. -/
theorem Rings.victim_eq (h : s.Rings order) : s.victim =
    .ok (s.cheapest (order.filter fun i => (s.header i).references == 0)) := by
  rw [victim, h.ring_eq]
  rfl

/-- Nor is a link missing where a buffer in the ring is given a block. -/
theorem Rings.reassign_ne_ringBroken (h : s.Rings order) {i : g.Buffer} (hi : i ∈ order)
    (b : Block) : s.reassign i b ≠ .error .ringBroken := by
  intro hs
  cases h.eq_duplicate_of_reassign hi hs

end Buffers

theorem World.lookedUp_intact {w : World g} (h : w.cache.buffers.Ringed) (b : Block)
    (found : Option (Hold g)) : (w.lookedUp b found).Intact := by
  cases found with
  | some h => exact intact_ok rfl
  | none =>
    obtain ⟨order, horder, -⟩ := h
    unfold lookedUp
    rw [horder.victim_eq]
    generalize w.cache.buffers.cheapest _ = victim
    cases victim <;> exact intact_ok rfl

theorem World.victimReady_intact {w : World g} (h : w.cache.buffers.Ringed) (b : Block)
    (i : g.Buffer) : (w.victimReady b i).Intact := by
  obtain ⟨order, horder, hall⟩ := h
  unfold victimReady
  dsimp only
  split
  · exact intact_ok rfl
  split
  · exact intact_ok rfl
  split
  · exact intact_ok rfl
  · exact intact_orFault (fun _ => intact_ok rfl) (horder.reassign_ne_ringBroken (hall i) b)

namespace Machine

/-- No session halts since the ring is broken. -/
theorem Reachable.step_ne_ringBroken {m : Machine g} (h : m.Reachable) :
    m.step ≠ .halted (.fault .ringBroken) := by
  intro hhalted
  have hringed := h.ringed
  obtain ⟨w, s, control, stack⟩ := m
  match control, stack with
  | .run c, stack => exact Call.begin_intact c w (advance_eq_halted hhalted)
  | .give v, .bottom => cases hhalted
  | .give v, .push f stack =>
    by_cases hf : f.Circles
    · cases f with
      | lookingUp b => exact World.lookedUp_intact hringed b v (advance_eq_halted hhalted)
      | awaitingVictim b i =>
        exact World.victimReady_intact hringed b i (advance_eq_halted hhalted)
      | _ => cases hf
    · exact Frame.resume_intact hf v w (advance_eq_halted hhalted)

end Machine
end BufferCache
