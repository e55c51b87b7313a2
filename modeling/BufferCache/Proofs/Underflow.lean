import BufferCache.Proofs.Releases

/-!
# How counts go down

A reference count goes down in three places: at the end of a release, where a block ahead of
need is let go, and where a look-up takes its own reference back because its buffer holds
another block by now.  The first two check that there is a reference left.  The third does not,
and relies on the reference that it took itself.  A client that gives back more references than
it has can take that one away, so that the count falls below zero.

`Reachable.decrements` says just when this happens.  That no other step raises this fault is
shown by going through all steps once: they *spare* the counts.
-/

namespace BufferCache

variable {g : Geometry}

/-! ## Steps that spare the counts -/

/-- The step does not let a count fall below zero. -/
def Outcome.Spares {s : Shape} (o : Outcome g s) : Prop :=
  ∀ f, o = .error (.fault f) → f ≠ .countUnderflow

theorem Outcome.Balanced.spares {s : Shape} {o : Outcome g s} {held : Multiset (Stake g)}
    (h : o.Balanced false held) : o.Spares := by
  rintro f hf rfl
  exact h.raises _ hf trivial

/-- The faults of handles do not speak of counts below zero. -/
theorem Cache.ne_underflow_of_resolve {c : Cache g} {h : Handle} {f : Fault}
    (hc : c.resolve h = .error f) : f ≠ .countUnderflow := by
  rcases resolve_eq_error hc with rfl | ⟨_, rfl⟩ | rfl <;> exact Fault.noConfusion

theorem Cache.ne_underflow_of_resolveRelease {c : Cache g} {h : Handle} {f : Fault}
    (hc : c.resolveRelease h = .error f) : f ≠ .countUnderflow := by
  rw [resolveRelease_eq_error hc]
  exact Fault.noConfusion

theorem Buffers.ne_underflow_of_reassign {s : Buffers g} {i : g.Buffer} {b : Block} {f : Fault}
    (hs : s.reassign i b = .error f) : f ≠ .countUnderflow := by
  rintro rfl
  rw [reassign_eq] at hs
  split at hs
  · rename_i hd
    cases hs
    cases unring_error hd
  · split at hs
    · rename_i ha
      cases hs
      cases enring_error ha
    · unfold enchain at hs
      dsimp only at hs
      split at hs <;> cases hs

namespace World

variable {s : Shape} {w : World g} {h : Handle}

theorem spares_ok {o : Outcome g s} {r : World g × Next g s} (ho : o = .ok r) : o.Spares := by
  intro f hf
  cases ho.symm.trans hf

theorem spares_fault {f : Fault} (hf : f ≠ .countUnderflow) :
    Outcome.Spares (fault f : Outcome g s) := by
  intro f' hf'
  cases hf'
  exact hf

theorem spares_orFault {α : Type} {x : Except Fault α} {k : α → Outcome g s}
    (hk : ∀ a, (k a).Spares) (hx : ∀ f, x = .error f → f ≠ .countUnderflow) :
    (orFault x k).Spares := by
  cases x with
  | ok a => exact hk a
  | error f => exact spares_fault (hx f rfl)

/-- What fails just where a handle does spares the counts. -/
theorem spares_handle {α : Type} {x : Except Fault α} {k : α → Outcome g s}
    (hk : ∀ a, (k a).Spares) (hx : ∀ f, x = .error f → w.cache.resolve h = .error f) :
    (orFault x k).Spares :=
  spares_orFault hk fun f hf => Cache.ne_underflow_of_resolve (hx f hf)

theorem spares_view {k : HeaderView → Outcome g s} (hk : ∀ v, (k v).Spares) :
    (orFault (w.cache.view h) k).Spares :=
  spares_handle hk fun _ => Cache.map_eq_error

theorem withHandle_spares {name : String} {k : Handle → Outcome g .reply}
    (hk : ∀ h, (k h).Spares) : (w.withHandle name k).Spares := by
  unfold withHandle
  split
  · exact hk _
  · exact spares_ok rfl

theorem withGuard_spares {name : String} {k : Handle → Outcome g .reply}
    (hk : ∀ h, (k h).Spares) : (w.withGuard name k).Spares := by
  unfold withGuard
  split
  · exact hk _
  · exact spares_ok rfl

theorem change_spares {c : Except Fault (Cache g)}
    (hc : ∀ f, c = .error f → w.cache.resolve h = .error f) : (w.change c).Spares :=
  spares_handle (fun _ => spares_ok rfl) hc

theorem victimReady_spares (w : World g) (b : Block) (i : g.Buffer) :
    (w.victimReady b i).Spares := by
  unfold victimReady
  dsimp only
  split
  · exact spares_ok rfl
  split
  · exact spares_ok rfl
  split
  · exact spares_ok rfl
  · exact spares_orFault (fun _ => spares_ok rfl) fun _ => Buffers.ne_underflow_of_reassign

theorem letGo_spares (w : World g) (h t : Hold g) (d : DeviceNumber) (ahead : List BlockNumber) :
    (w.letGo h t d ahead).Spares :=
  spares_orFault (fun _ => spares_ok rfl) fun _ => Cache.ne_underflow_of_resolve

theorem released_spares (w : World g) (i : g.Buffer) : (w.released i).Spares := by
  unfold released
  split
  · exact spares_fault Fault.noConfusion
  · exact spares_ok rfl

/-- What looks at a buffer and then goes one of two ways spares the counts if both do. -/
theorem spares_valid {k₁ k₂ : Outcome g s} (h₁ : k₁.Spares) (h₂ : k₂.Spares) :
    (orFault (w.cache.view h) fun v => if v.valid then k₁ else k₂).Spares := by
  refine spares_view fun v => ?_
  split
  · exact h₁
  · exact h₂

theorem perform_spares (w : World g) (c : Command) : (w.perform c).Spares := by
  cases c with
  | register m d starts =>
    unfold perform
    dsimp only
    split <;> exact spares_ok rfl
  | start m =>
    unfold perform
    dsimp only
    split <;> exact spares_ok rfl
  | release name => exact withHandle_spares fun h => spares_ok rfl
  | issue op name => exact withHandle_spares fun h => spares_ok rfl
  | guardDrop name => exact withGuard_spares fun h => spares_ok rfl
  | guardInto name handle => exact withGuard_spares fun h => spares_ok rfl
  | guardHandle name handle => exact withGuard_spares fun h => spares_ok rfl
  | read name =>
    exact withHandle_spares fun h =>
      spares_handle (fun _ => spares_ok rfl) fun _ => Cache.map_eq_error
  | guardRead name =>
    exact withGuard_spares fun h =>
      spares_handle (fun _ => spares_ok rfl) fun _ => Cache.map_eq_error
  | query name q => exact withHandle_spares fun h => spares_view fun v => spares_ok rfl
  | guardInfo name => exact withGuard_spares fun h => spares_view fun v => spares_ok rfl
  | fill name byte =>
    exact withHandle_spares fun h => change_spares fun _ => Cache.map_eq_error
  | write name offset bytes =>
    exact withHandle_spares fun h => change_spares fun _ => Cache.map_eq_error
  | markDirty name => exact withHandle_spares fun h => change_spares fun _ => Cache.map_eq_error
  | markValid name => exact withHandle_spares fun h => change_spares fun _ => Cache.map_eq_error
  | guardWrite name offset bytes =>
    exact withGuard_spares fun h => change_spares fun _ => Cache.writeDirty_eq_error
  | move m fill => exact (w.moveBytes_balanced m fill).spares
  | finish m success =>
    refine spares_orFault (fun _ => spares_ok rfl) fun f hf => ?_
    rw [finish_eq_error hf]
    exact Fault.noConfusion
  | diskInfo m => exact (w.withDisk_balanced m _).spares
  | diskRead m offset length fill => exact (w.withDisk_balanced m _).spares
  | _ => exact spares_ok rfl

end World

/-- A call spares the counts as it begins. -/
theorem Call.begin_spares {s : Shape} (c : Call g s) (w : World g) : (c.begin w).Spares := by
  cases c with
  | sleep q ticket => exact (w.sleep_balanced q ticket).spares
  | play script => exact (w.play_balanced script).spares
  | awaitUnlock i => exact (w.awaitUnlock_balanced i).spares
  | lock i => exact (w.lock_balanced i).spares
  | lookUp b =>
    change (w.lookUp b).Spares
    unfold World.lookUp
    split <;> exact World.spares_ok rfl
  | acquire b => exact (w.acquire_balanced b).spares
  | obtain b => exact World.spares_ok rfl
  | release h =>
    exact World.spares_orFault (fun _ => World.spares_ok rfl) fun _ =>
      Cache.ne_underflow_of_resolveRelease
  | fetch b => exact World.spares_ok rfl
  | fetchAhead b ahead => exact World.spares_ok rfl
  | readAhead h d ahead => exact (w.readAhead_balanced h d ahead).spares
  | settle h => exact World.spares_ok rfl
  | fetchPage d numbers page => exact (w.fetchPage_balanced d numbers page).spares
  | gather d numbers held page => exact (w.gather_balanced d numbers held page).spares
  | collect held chunks failed page => exact (w.collect_balanced held chunks failed page).spares
  | issue op h =>
    exact World.spares_orFault (fun _ => World.spares_ok rfl) fun _ =>
      Cache.ne_underflow_of_resolve
  | request op i => exact (w.request_balanced op i).spares
  | enqueue op i d number => exact (w.enqueue_balanced op i d number).spares
  | start m => exact (w.start_balanced m).spares
  | serve m => exact (w.serve_balanced m).spares
  | flush scope => exact World.spares_ok rfl
  | flushRounds scope rounds writes => exact (w.flushRounds_balanced scope rounds writes).spares
  | flushBuffers scope rounds writes rest =>
    exact (w.flushBuffers_balanced scope rounds writes rest).spares
  | discard d => exact World.spares_ok rfl
  | discardBuffers d rest => exact (w.discardBuffers_balanced d rest).spares
  | checkMedium d => exact (w.checkMedium_balanced d).spares
  | perform c => exact w.perform_spares c
  | drain m pattern upcoming ended => exact (w.drain_balanced m pattern upcoming ended).spares

/-- Whether a suspended call is a look-up that waits for the buffer that it referenced. -/
def Frame.Pins {a s : Shape} : Frame g a s → Prop
  | .pinning _ _ => True
  | _ => False

/-- Any other suspended call than such a look-up spares the counts as it goes on. -/
theorem Frame.resume_spares {a s : Shape} {f : Frame g a s} (hf : ¬ f.Pins) (v : a.Value g)
    (w : World g) : (f.resume v w).Spares := by
  cases f with
  | pinning b i => exact absurd trivial hf
  | lookingUp b => exact (w.lookedUp_balanced b v).spares
  | awaitingVictim b i => exact w.victimReady_spares b i
  | releasing h i => exact w.released_spares i
  | fetching => exact World.spares_valid (World.spares_ok rfl) (World.spares_ok rfl)
  | settling h => exact World.spares_valid (World.spares_ok rfl) (World.spares_ok rfl)
  | fetchingFirst d ahead =>
    exact World.spares_valid (World.spares_ok rfl) (World.spares_ok rfl)
  | fetchingAhead h d ahead =>
    exact World.spares_valid (w.letGo_spares h v d ahead) (World.spares_ok rfl)
  | issuingAhead h t d ahead => exact w.letGo_spares h t d ahead
  | gathering d numbers held page =>
    exact World.spares_valid (World.spares_ok rfl) (World.spares_ok rfl)
  | collecting h held chunks failed page =>
    exact World.spares_valid (World.spares_ok rfl) (World.spares_ok rfl)
  | locking op i d => exact (w.locked_balanced op i d).spares
  | flushAwaiting scope rounds writes i rest =>
    exact (w.flushReady_balanced scope rounds writes i rest).spares
  | keepFound name => cases v <;> exact World.spares_ok rfl
  | keepFetched name => cases v <;> exact World.spares_ok rfl
  | guardFetched name => cases v <;> exact World.spares_ok rfl
  | guardHold name =>
    exact World.spares_handle (fun _ => World.spares_ok rfl) fun _ => Cache.map_eq_error
  | filling byte =>
    exact World.spares_handle (fun _ => World.spares_ok rfl) fun _ => Cache.overwrite_eq_error
  | _ => exact World.spares_ok rfl

/-- A look-up that takes its reference back, because the buffer holds another block, and finds
none left. -/
def Frame.Overdraws {a s : Shape} (c : Cache g) : Frame g a s → Prop
  | .pinning b i => (c.header i).content ≠ some b ∧ (c.header i).references = 0
  | _ => False

theorem World.pinned_underflow_iff (w : World g) (b : Block) (i : g.Buffer) :
    w.pinned b i = .error (.fault .countUnderflow) ↔
      (w.cache.header i).content ≠ some b ∧ (w.cache.header i).references = 0 := by
  have hholds : (w.cache.header i).holds b = true ↔ (w.cache.header i).content = some b :=
    beq_iff_eq
  unfold pinned
  split
  · rename_i hb
    exact iff_of_false nofun fun h => h.1 (hholds.mp hb)
  · rename_i hb
    rw [hholds] at hb
    split
    · rename_i hfree
      exact iff_of_true rfl ⟨hb, hfree⟩
    · rename_i hreferenced
      exact iff_of_false nofun fun h => hreferenced h.2

/-- A suspended call lets a count fall below zero just if it overdraws. -/
theorem Frame.resume_underflow_iff {a s : Shape} (f : Frame g a s) (v : a.Value g)
    (w : World g) :
    f.resume v w = .error (.fault .countUnderflow) ↔ f.Overdraws w.cache := by
  cases f with
  | pinning b i => exact w.pinned_underflow_iff b i
  | _ => exact iff_of_false (fun hf => resume_spares id v w _ hf rfl) id

/-! ## Counting down -/

namespace Effect

variable {e : Effect g} {c : Cache g}

/-- A count that goes down goes down by one. -/
theorem references_of_lt (hfits : e.Fits c) {i : g.Buffer}
    (hlt : ((e.apply c).header i).references < (c.header i).references) :
    (c.header i).references = ((e.apply c).header i).references + 1 := by
  have hsame (he : ∀ a, e.due = some a → ∃ d i, a = .empty d i) :
      ((e.apply c).header i).references = (c.header i).references :=
    (e.sameReferences he c).references i
  cases e with
  | refer b j =>
    rw [apply, Cache.header_refer] at hlt
    split at hlt
    · exact absurd hlt (Nat.not_lt.mpr (Nat.le_succ _))
    · exact absurd hlt (Nat.lt_irrefl _)
  | unrefer j =>
    rw [apply, Cache.header_unrefer] at hlt ⊢
    split at hlt
    · rename_i hij
      subst hij
      rw [if_pos rfl]
      exact (Nat.succ_pred_eq_of_ne_zero hfits).symm
    · exact absurd hlt (Nat.lt_irrefl _)
  | assign j b s =>
    -- The buffer had no reference and gets one.
    have hbare := Buffers.bare_reassign hfits.2.2.2.2 i
    rw [apply, Cache.header_assign] at hlt
    split at hbare
    · rename_i hji
      subst hji
      rw [show (c.header j).references = 0 from hfits.1] at hlt
      exact absurd hlt (Nat.not_lt_zero _)
    · exact absurd (congrArg Header.references hbare :) hlt.ne
  | empty d j =>
    refine absurd (hsame fun a ha => ⟨d, j, ?_⟩) hlt.ne
    cases ha
    rfl
  | _ =>
    refine absurd (hsame fun a ha => ?_) hlt.ne
    cases ha

end Effect

namespace Machine

variable {m m' n : Machine g} {i : g.Buffer} {k : Nat}

/-- The next step takes back a reference of which none is left. -/
def Overdraws : Machine g → Prop
  | ⟨w, _, .give _, .push f _⟩ => f.Overdraws w.cache
  | _ => False

theorem step_underflow_iff (m : Machine g) :
    m.step = .halted (.fault .countUnderflow) ↔ m.Overdraws := by
  obtain ⟨w, s, control, stack⟩ := m
  match control, stack with
  | .run c, stack =>
    exact iff_of_false (fun h => c.begin_spares w _ (advance_eq_halted h) rfl) id
  | .give v, .bottom => exact iff_of_false nofun id
  | .give v, .push f rest =>
    refine Iff.trans ⟨fun h => advance_eq_halted h, fun h => ?_⟩ (f.resume_underflow_iff v w)
    exact congrArg (advance rest) h

/-- Clients that give back only what they have never bring it about. -/
theorem Disciplined.not_overdraws {ledger : List Reference} (h : m.Disciplined ledger) :
    ¬ m.Overdraws := by
  intro hover
  obtain ⟨haccounted, hready⟩ := h.accounted
  have hpermits : (Conduct.disciplined g).permits ledger m := by
    intro handle hhandle
    obtain ⟨w, s, control, stack⟩ := m
    match control, stack with
    | .run c, stack => exact hover.elim
    | .give v, stack => cases hhandle
  exact not_ofReference_of_halted h.reachable.aimed hready h.reachable.chained hpermits haccounted
    (m.step_underflow_iff.mpr hover) trivial

/-- The handle of a reference to a buffer on which none is left is no longer good. -/
theorem resolve_of_free {c : Cache g} {t : Hold g} (hfree : (c.header t.buffer).references = 0) :
    ∃ f, c.resolve t.handle = .error f ∧ (f = .handleReleased t.buffer.val ∨
      f = .staleHandle t.buffer.val t.generation (c.header t.buffer).generation) := by
  have hindex : t.handle.index < g.buffers := t.buffer.isLt
  by_cases hg : (c.header t.buffer).generation = t.generation
  · refine ⟨_, ?_, .inl rfl⟩
    rw [Cache.resolve, dif_pos hindex]
    exact (if_pos hg).trans (if_pos hfree)
  · refine ⟨_, ?_, .inr rfl⟩
    rw [Cache.resolve, dif_pos hindex]
    exact if_neg hg

/-- How counts go down. -/
structure Decrements (m : Machine g) : Prop where
  /-- A count falls below zero just where a look-up takes its reference back, because its
  buffer holds another block by then, and finds none left. -/
  underflow_iff : m.step = .halted (.fault .countUnderflow) ↔ m.Overdraws
  /-- The buffer was given another block while the look-up waited, although the look-up has a
  reference to it: somebody gave that one back. -/
  stolen : ∀ {w b} {base : Stack g .found} {i k n}, m = ⟨w, .found, .run (.lookUp b), base⟩ →
    w.cache.buffers.locate b = some i → Reuses (¬ Returned base ·) i m k n →
      n.Returned (.push (.pinning b i) base) → n.Overdraws →
        k ≠ 0 ∧ ∃ a, Leads (¬ Returned base ·) m a ∧ a.references i = 0
  /-- Clients that give back only what they have never bring it about. -/
  disciplined : ∀ ledger, m.Disciplined ledger → ¬ m.Overdraws
  /-- A count that goes down goes down by one. -/
  byOne : ∀ {m' i}, m.Moves m' → m'.references i < m.references i →
    m.references i = m'.references i + 1
  /-- A release that finds no reference left is refused. -/
  release : ∀ {w v h i} {base : Stack g .unit},
    m = ⟨w, .unit, .give v, .push (.releasing h i) base⟩ → m.references i = 0 →
      m.step = .halted (.fault .freeRelease)
  /-- So is letting a block ahead go. -/
  letGo : ∀ {w v h t d ahead base},
    m = ⟨w, .unit, .give v, .push (.issuingAhead h t d ahead) base⟩ ∨
      m = ⟨w, .hold, .give t, .push (.fetchingAhead h d ahead) base⟩ →
    m.references t.buffer = 0 → ∃ f, m.step = .halted (.fault f) ∧
      (f = .handleReleased t.buffer.val ∨
        f = .staleHandle t.buffer.val t.generation (m.generation t.buffer))

/-- In every session, whatever clients, drivers and listeners do, counts go down one by one,
and only a look-up whose reference was given back by another takes one below zero. -/
theorem Reachable.decrements (h : m.Reachable) : m.Decrements := by
  refine ⟨m.step_underflow_iff, ?_, fun _ => Disciplined.not_overdraws, fun hm hlt => ?_, ?_, ?_⟩
  · rintro w b base i k n rfl hfound hspan ⟨w', v, rfl⟩ hover
    have hbefore : content ⟨w, .found, .run (.lookUp b), base⟩ i = some b :=
      (h.chained.locate_eq_some_iff.mp hfound).2
    have hk : k ≠ 0 := by
      rintro rfl
      exact hover.1 (hspan.content_eq.trans hbefore)
    obtain ⟨a, hleads, -, hfree⟩ := hspan.exists_free h hk
    exact ⟨hk, a, hleads, hfree⟩
  · obtain ⟨e, hfits, happly⟩ := h.exists_effect hm
    unfold references at hlt ⊢
    rw [happly] at hlt ⊢
    exact Effect.references_of_lt hfits hlt
  · rintro w v handle i base rfl hfree
    exact halted_of_free hfree
  · rintro w v first t d ahead base (rfl | rfl) hfree
    · obtain ⟨f, hf, hfault⟩ := resolve_of_free hfree
      have hresume : (Frame.issuingAhead first t d ahead).resume v w = World.fault f := by
        change World.orFault (w.cache.resolve t.handle) _ = _
        rw [hf]
        rfl
      exact ⟨f, congrArg (advance base) hresume, hfault⟩
    · obtain ⟨f, hf, hfault⟩ := resolve_of_free hfree
      have hresume : (Frame.fetchingAhead first d ahead).resume t w = World.fault f := by
        change World.orFault (w.cache.view t.handle) _ = _
        rw [Cache.view, hf]
        rfl
      exact ⟨f, congrArg (advance base) hresume, hfault⟩

/-- A client looks a block up while it is read.  Meanwhile the read ends, another client gives
its reference back twice, and gets a buffer for another block and gives that back as well. -/
def releasedBeneath : Machine Geometry.single :=
  reading.next [[.finish 1 true, .release "h", .release "h", .acquire ⟨257, 5⟩ (some "x"),
    .release "x"]] (.lookUp ⟨257, 3⟩ (some "y"))

theorem reachable_releasedBeneath (n : Nat) : (releasedBeneath.after n).Reachable :=
  (reachable_reading.next _ _).after n

/-- As it begins, the look-up finds the block. -/
theorem decrements_of_lookUp :
    ∃ m : Machine Geometry.single, m.Reachable ∧
      (∃ w base, m = ⟨w, .found, .run (.lookUp ⟨257, 3⟩), base⟩ ∧
        w.cache.buffers.locate ⟨257, 3⟩ = some ⟨0, by decide⟩ ∧
        (w.cache.header ⟨0, by decide⟩).locked = true) ∧
      m.Decrements := by
  have h := reachable_releasedBeneath 1
  exact ⟨_, h, ⟨_, _, rfl, by decide, by decide⟩, h.decrements⟩

/-- In the end the look-up takes back a reference that is not there. -/
theorem underflow_of_lookUp :
    ∃ m : Machine Geometry.single, m.Reachable ∧ m.step = .halted (.fault .countUnderflow) :=
  ⟨_, reachable_releasedBeneath 44, rfl⟩

end Machine
end BufferCache
