import BufferCache.Proofs.Acquisitions
import BufferCache.Proofs.Releases

/-!
# Handles that are no longer good

A handle carries the generation in which it was issued.  Each use of it is checked against the
present generation of its buffer, which counts the blocks that the buffer was given, in words
that wrap.  So a handle of an earlier block is caught at every use, unless the generations have
come round; this is one half of `Reachable.handles`.

The other half is that nobody is refused who has a reference.  Of clients it is assumed only
that they give each reference back at most once.  They may use handles that are no longer good,
which halts everything, or make handles up, which may be good by chance.
-/

namespace BufferCache

variable {g : Geometry}

/-! ## Handles are issued in the present generation -/

/-- A reference that is handed over next is in the present generation of its buffer. -/
def Next.Current (c : Cache g) {s : Shape} : Next g s → Prop
  | .done v => ∀ h, s.hold? v = some h → (c.header h.buffer).generation = h.generation
  | _ => True

/-- Values of most shapes carry no reference. -/
theorem Outcome.current_of_shape {s : Shape} (hs : s ≠ .hold ∧ s ≠ .found ∧ s ≠ .fetched)
    (o : Outcome g s) : o.Ensures fun w' n => n.Current w'.cache := by
  intro w' n _
  cases n with
  | done v =>
    cases s with
    | hold => exact absurd rfl hs.1
    | found => exact absurd rfl hs.2.1
    | fetched => exact absurd rfl hs.2.2
    | _ => exact nofun
  | _ => trivial

section Issuing

variable {s : Shape} {w : World g}

theorem Call.begin_current (c : Call g s) (w : World g) :
    (c.begin w).Ensures fun w' n => n.Current w'.cache := by
  cases c with
  | acquire b =>
    change (w.acquire b).Ensures _
    unfold World.acquire
    split
    · exact Outcome.ensures_fault
    · exact Outcome.ensures_goto trivial
  | lookUp b =>
    change (w.lookUp b).Ensures _
    unfold World.lookUp
    split
    · exact Outcome.ensures_done nofun
    · exact Outcome.ensures_call trivial
  | readAhead h d ahead =>
    cases ahead with
    | nil => exact Outcome.ensures_goto trivial
    | cons n ahead => exact Outcome.ensures_call trivial
  | obtain b | fetch b | fetchAhead b ahead | settle h => exact Outcome.ensures_call trivial
  | _ => exact Outcome.current_of_shape (by decide) _

/-- A handle that is viewed is in the present generation. -/
theorem World.view_current {h : Hold g} {k : HeaderView → Outcome g s}
    (hk : (w.cache.header h.buffer).generation = h.generation →
      ∀ v, (k v).Ensures fun w' n => n.Current w'.cache) :
    (World.orFault (w.cache.view h.handle) k).Ensures fun w' n => n.Current w'.cache := by
  refine Outcome.ensures_orFault fun v hv => ?_
  obtain ⟨i, hi, -⟩ := Cache.map_eq_ok hv
  obtain ⟨hindex, hgeneration, -⟩ := Cache.resolve_eq_ok hi
  obtain rfl : i = h.buffer := Fin.ext hindex
  exact hk hgeneration v

theorem World.letGo_current (w : World g) (h t : Hold g) (d : DeviceNumber)
    (ahead : List BlockNumber) :
    (w.letGo h t d ahead).Ensures fun w' n => n.Current w'.cache :=
  Outcome.ensures_orFault fun _ _ => Outcome.ensures_goto trivial

theorem Frame.resume_current {a : Shape} {f : Frame g a s} {v : a.Value g}
    (hv : ∀ h, a.hold? v = some h → (w.cache.header h.buffer).generation = h.generation) :
    (f.resume v w).Ensures fun w' n => n.Current w'.cache := by
  cases f with
  | pinning b i =>
    change (w.pinned b i).Ensures _
    unfold World.pinned
    split
    · refine Outcome.ensures_done ?_
      rintro h ⟨⟩
      rfl
    split
    · exact Outcome.ensures_fault
    · exact Outcome.ensures_goto trivial
  | lookingUp b =>
    cases v with
    | some h => exact Outcome.ensures_done hv
    | none =>
      refine Outcome.ensures_orFault fun victim _ => ?_
      cases victim with
      | none => exact Outcome.ensures_call trivial
      | some i => exact Outcome.ensures_call trivial
  | awaitingVictim b i =>
    intro w' n hn
    rcases Machine.victimReady_eq_ok hn with rfl | ⟨d, rfl⟩ | ⟨rfl, -⟩
    · trivial
    · trivial
    · rintro h ⟨⟩
      rfl
  | fetching =>
    refine World.view_current fun hgeneration v => ?_
    split
    · refine Outcome.ensures_done ?_
      rintro h ⟨⟩
      exact hgeneration
    · exact Outcome.ensures_call trivial
  | settling h =>
    refine World.view_current fun hgeneration v => ?_
    split
    · refine Outcome.ensures_done ?_
      rintro h ⟨⟩
      exact hgeneration
    · exact Outcome.ensures_call trivial
  | fetchingFirst d ahead =>
    refine World.view_current fun _ v => ?_
    split
    · exact Outcome.ensures_goto trivial
    · exact Outcome.ensures_call trivial
  | fetchingAhead h d ahead =>
    refine World.view_current fun _ v => ?_
    split
    · exact w.letGo_current h _ d ahead
    · exact Outcome.ensures_call trivial
  | issuingAhead h t d ahead => exact w.letGo_current h t d ahead
  | unwinding f => exact Outcome.ensures_done nofun
  | flushingVictim b i => exact Outcome.ensures_call trivial
  | starving b | fetchIssuing h | issuingFirst h d ahead => exact Outcome.ensures_goto trivial
  | _ => exact Outcome.current_of_shape (by decide) _

end Issuing

namespace Machine

variable {m m' n : Machine g} {h : Hold g} {k : Nat} {on : Machine g → Prop}

/-- A reference is being handed over. -/
def Hands (h : Hold g) : Machine g → Prop
  | ⟨_, s, .give v, _⟩ => s.hold? v = some h
  | ⟨_, _, .run _, _⟩ => False

/-- A reference that is handed over is in the present generation of its buffer. -/
theorem Reachable.generation_of_hands (hm : m.Reachable) (hh : m.Hands h) :
    m.generation h.buffer = h.generation := by
  have hnext {s : Shape} {n : Next g s} {w : World g} {stack : Stack g s}
      (hn : n.Current w.cache) :
      ∀ h, (n.machine w stack).Hands h →
        (n.machine w stack).generation h.buffer = h.generation := by
    intro h hh
    cases n with
    | done v => exact hn h hh
    | goto c => exact hh.elim
    | call c f => exact hh.elim
  let Inv (m : Machine g) : Prop := ∀ h, m.Hands h → m.generation h.buffer = h.generation
  suffices hall : Inv m from hall h hh
  refine hm.invariant (fun _ _ _ hh => hh.elim) (fun m m' hm hs => ?_)
    fun _ _ _ _ _ _ hh => hh.elim
  cases hs with
  | @begin s w w' c n stack hn => exact hnext (c.begin_current w w' n hn)
  | @resume a s w w' f v n stack hn => exact hnext (Frame.resume_current hm w' n hn)

end Machine

/-! ## What commands do with a handle -/

/-- A command that passes its handle on to a call, which checks it. -/
def Command.PassesOn : Command → Prop
  | .release _ | .guardDrop _ | .issue _ _ => True
  | _ => False

/-- What a command changes in a buffer with these bytes: the bytes, and which marks are set. -/
def Command.changes (p : Page) : Command → Option Page × Bool × Bool
  | .fill _ byte => (some (Page.fill byte), false, false)
  | .write _ offset bytes => (some (p.write offset bytes), false, false)
  | .markValid _ => (none, true, false)
  | .markDirty _ => (none, false, true)
  | .guardWrite _ offset bytes => (some (p.write offset bytes), false, true)
  | _ => (none, false, false)

/-- The cache after a command has changed buffer `i`. -/
def Cache.changedBy (c : Cache g) (i : g.Buffer) (command : Command) : Cache g :=
  let x := command.changes (c.page i)
  c.edit i x.1 x.2.1 x.2.2

/-- What a command answers about buffer `i`, if it was asked by this handle. -/
def World.answerAt (w : World g) (h : Handle) (i : g.Buffer) : Command → Answer
  | .read _ | .guardRead _ => .bytes (w.cache.page i).toList
  | .query _ q => reply (w.cache.header i).view q
  | .guardInfo _ => .guard h (w.cache.header i).number (w.cache.header i).dirty
  | _ => .done

/-- Writing through a guard changes the buffer that the handle names. -/
theorem Cache.writeDirty_eq (c : Cache g) (h : Handle) (f : Page → Page) :
    (do let c ← c.write h f; c.markDirty h) =
      (c.resolve h).map fun i => c.edit i (some (f (c.page i))) false true := by
  cases hi : c.resolve h with
  | error e =>
    rw [Cache.write, hi]
    rfl
  | ok i =>
    have hwritten : (c.setPage i (f (c.page i))).resolve h = .ok i := hi
    rw [Cache.write, hi]
    change (c.setPage i (f (c.page i))).markDirty h = _
    rw [Cache.markDirty, hwritten]
    rfl

namespace World

variable {w : World g} {h : Handle} {c : Command}

/-- To go on with the outcome of a check is to go on with the check. -/
theorem orFault_map {α β : Type} {s : Shape} (x : Except Fault α) (f : α → β)
    (k : β → Outcome g s) : orFault (x.map f) k = orFault x fun a => k (f a) := by
  cases x <;> rfl

theorem withHandle_eq {name : String} {k : Handle → Outcome g .reply}
    (hname : w.handles.find? name = some h) : w.withHandle name k = k h := by
  rw [withHandle, hname]

theorem withGuard_eq {name : String} {k : Handle → Outcome g .reply}
    (hname : w.guards.find? name = some h) : w.withGuard name k = k h := by
  rw [withGuard, hname]

/-- A command that does not pass its handle on has it checked at once, and is about the buffer
that the handle names. -/
theorem perform_of_uses (huses : w.uses c = some h) (hc : ¬ c.PassesOn) :
    w.perform c = orFault (w.cache.resolve h) fun i =>
      { w with cache := w.cache.changedBy i c }.done (w.answerAt h i c) := by
  cases c with
  | read name => exact (withHandle_eq huses).trans (orFault_map _ _ _)
  | fill name byte => exact (withHandle_eq huses).trans (orFault_map _ _ _)
  | write name offset bytes => exact (withHandle_eq huses).trans (orFault_map _ _ _)
  | markDirty name => exact (withHandle_eq huses).trans (orFault_map _ _ _)
  | markValid name => exact (withHandle_eq huses).trans (orFault_map _ _ _)
  | query name q => exact (withHandle_eq huses).trans (orFault_map _ _ _)
  | guardInfo name => exact (withGuard_eq huses).trans (orFault_map _ _ _)
  | guardRead name => exact (withGuard_eq huses).trans (orFault_map _ _ _)
  | guardWrite name offset bytes =>
    refine (withGuard_eq huses).trans ?_
    rw [Cache.writeDirty_eq]
    exact orFault_map _ _ _
  | release name | guardDrop name | issue op name => exact absurd trivial hc
  | _ => cases huses

/-- The other commands do no more than to pass it on. -/
theorem perform_of_passesOn (huses : w.uses c = some h) (hc : c.PassesOn) :
    ∃ (w' : World g) (d : Call g .unit), w'.cache = w.cache ∧
      (d = .release h ∨ ∃ op, d = .issue op h) ∧ w.perform c = w'.call d (.answering .done) := by
  cases c with
  | release name =>
    exact ⟨w, .release h, rfl, .inl rfl, withHandle_eq huses⟩
  | guardDrop name =>
    exact ⟨w.forgetGuard name, .release h, rfl, .inl rfl, withGuard_eq huses⟩
  | issue op name =>
    exact ⟨w, .issue op h, rfl, .inr ⟨op, rfl⟩, withHandle_eq huses⟩
  | _ => exact hc.elim

end World

/-! ## Uses of handles -/

/-- A handle is used: an operation or a release begins with it, or a command that uses it. -/
def Call.Presents (w : World g) (h : Handle) : {s : Shape} → Call g s → Prop
  | _, .issue _ h' => h' = h
  | _, .release h' => h' = h
  | _, .perform c => w.uses c = some h
  | _, _ => False

/-- The faults with which a handle of an earlier block is refused. -/
inductive Fault.Stale (h : Handle) : Fault → Prop
  | use (current : UInt32) : Stale h (.staleHandle h.index h.generation current)
  | release : Stale h (.staleRelease h.index)

namespace Machine

variable {m m' n : Machine g} {h : Handle} {i : g.Buffer} {w : World g}

/-- The handle is used in the next step. -/
def Presents (h : Handle) : Machine g → Prop
  | ⟨w, _, .run c, _⟩ => c.Presents w h
  | ⟨_, _, .give _, _⟩ => False

/-- The handle is refused: its checks fail, and a use of it halts everything in that step or, if
a command passes it on, in the next. -/
structure Refuses (h : Handle) (m : Machine g) : Prop where
  /-- It may not be used. -/
  use : ∃ current, m.world.cache.resolve h = .error (.staleHandle h.index h.generation current)
  /-- It may not be released. -/
  release : m.world.cache.resolveRelease h = .error (.staleRelease h.index)
  /-- Whoever tries halts everything. -/
  halts : m.Presents h → ∃ f, f.Stale h ∧ m.run 2 = .halted (.fault f)

theorem run_of_halted {f : Fault} (hm : m.step = .halted (.fault f)) (budget : Nat) :
    m.run (budget + 1) = .halted (.fault f) := by
  rw [run, hm]

theorem run_of_running (hm : m.step = .running m') (budget : Nat) :
    m.run (budget + 1) = m'.run budget := by
  rw [run, hm]

/-- A call that has the handle checked halts everything if the check fails. -/
theorem halted_of_checked {d : Call g .unit} {base : Stack g .unit}
    (hd : d = .release h ∨ ∃ op, d = .issue op h)
    (huse : ∃ current, w.cache.resolve h = .error (.staleHandle h.index h.generation current))
    (hrelease : w.cache.resolveRelease h = .error (.staleRelease h.index)) :
    ∃ f, f.Stale h ∧ step ⟨w, .unit, .run d, base⟩ = .halted (.fault f) := by
  rcases hd with rfl | ⟨op, rfl⟩
  · have hbegin : (Call.release h).begin w = World.fault (.staleRelease h.index) := by
      change World.orFault (w.cache.resolveRelease h) _ = _
      rw [hrelease]
      rfl
    exact ⟨_, .release, congrArg (advance base) hbegin⟩
  · obtain ⟨current, hresolve⟩ := huse
    have hbegin : (Call.issue op h).begin w =
        World.fault (.staleHandle h.index h.generation current) := by
      change World.orFault (w.cache.resolve h) _ = _
      rw [hresolve]
      rfl
    exact ⟨_, .use current, congrArg (advance base) hbegin⟩

/-- So does a command, in that step or in the next. -/
theorem halted_of_performed {c : Command} {base : Stack g .reply} (huses : w.uses c = some h)
    (huse : ∃ current, w.cache.resolve h = .error (.staleHandle h.index h.generation current))
    (hrelease : w.cache.resolveRelease h = .error (.staleRelease h.index)) :
    ∃ f, f.Stale h ∧ run 2 ⟨w, .reply, .run (.perform c), base⟩ = .halted (.fault f) := by
  by_cases hc : c.PassesOn
  · obtain ⟨w', d, hcache, hd, hperform⟩ := World.perform_of_passesOn huses hc
    have hstep : step ⟨w, .reply, .run (.perform c), base⟩ =
        .running ⟨w', .unit, .run d, .push (.answering .done) base⟩ :=
      congrArg (advance base) hperform
    rw [← hcache] at huse hrelease
    obtain ⟨f, hf, hhalted⟩ := halted_of_checked hd huse hrelease
    exact ⟨f, hf, (run_of_running hstep 1).trans (run_of_halted hhalted 0)⟩
  · obtain ⟨current, hresolve⟩ := huse
    have hperform := World.perform_of_uses huses hc
    rw [hresolve] at hperform
    have hstep : step ⟨w, .reply, .run (.perform c), base⟩ =
        .halted (.fault (.staleHandle h.index h.generation current)) :=
      congrArg (advance base) hperform
    exact ⟨_, .use current, run_of_halted hstep 1⟩

/-- A handle of another generation is refused. -/
theorem refuses_of_generation (hindex : i.val = h.index)
    (hgeneration : m.generation i ≠ h.generation) : m.Refuses h := by
  have hlt : h.index < g.buffers := hindex ▸ i.isLt
  obtain rfl : i = ⟨h.index, hlt⟩ := Fin.ext hindex
  have huse : m.world.cache.resolve h =
      .error (.staleHandle h.index h.generation (m.generation ⟨h.index, hlt⟩)) := by
    unfold Cache.resolve
    rw [dif_pos hlt]
    exact if_neg hgeneration
  have hrelease : m.world.cache.resolveRelease h = .error (.staleRelease h.index) := by
    unfold Cache.resolveRelease
    rw [dif_pos hlt]
    exact if_neg hgeneration
  refine ⟨⟨_, huse⟩, hrelease, fun hpresents => ?_⟩
  obtain ⟨w, s, control, base⟩ := m
  cases control with
  | give v => exact hpresents.elim
  | run c =>
    cases c with
    | issue op h' =>
      obtain rfl : h' = h := hpresents
      obtain ⟨f, hf, hhalted : step ⟨w, .unit, .run (.issue op h'), base⟩ = _⟩ :=
        halted_of_checked (.inr ⟨op, rfl⟩) ⟨_, huse⟩ hrelease
      exact ⟨f, hf, run_of_halted hhalted 1⟩
    | release h' =>
      obtain rfl : h' = h := hpresents
      obtain ⟨f, hf, hhalted : step ⟨w, .unit, .run (.release h'), base⟩ = _⟩ :=
        halted_of_checked (.inl rfl) ⟨_, huse⟩ hrelease
      exact ⟨f, hf, run_of_halted hhalted 1⟩
    | perform c => exact halted_of_performed hpresents ⟨_, huse⟩ hrelease
    | _ => exact hpresents.elim

end Machine

/-! ## Clients that give each reference back at most once -/

/-- The conduct of clients that give each reference back at most once, and otherwise do as they
like. -/
def Conduct.returning (g : Geometry) : Conduct g (List Reference) where
  permits ledger m := ∀ h, m.returns = some h →
    m.stakes.count (.departing h) < ledger.countP fun r => r.handle = h
  record ledger m := m.ledger ledger

instance (ledger : List Reference) (m : Machine g) :
    Decidable ((Conduct.returning g).permits ledger m) :=
  inferInstanceAs (Decidable (∀ h, m.returns = some h → _))

namespace Machine

variable {ledger : List Reference} {m m' n : Machine g} {r : Reference} {i : g.Buffer}
  {w : World g}

/-- Clients of a new cache that give each reference back at most once come to this machine, with
this ledger. -/
def Returning (ledger : List Reference) (m : Machine g) : Prop :=
  (Conduct.returning g).Run (fun w l => w = World.initial g ∧ l = []) ledger m

theorem Returning.reachable (h : m.Returning ledger) : m.Reachable :=
  Conduct.Run.reachable (fun _ _ hw => hw.1) h

/-- Such clients keep the account. -/
theorem Returning.accounted (h : m.Returning ledger) :
    Accounted ledger m.world.cache m.stakes := by
  let Inv (ledger : List Reference) (m : Machine g) : Prop :=
    m.Reachable ∧ Accounted ledger m.world.cache m.stakes
  suffices hm : Inv ledger m from hm.2
  refine Conduct.Run.invariant (fun w l waiting c hw => ?_) (fun l m m' hm hp hs => ?_)
    (fun l w a waiting c hm => ?_) h
  · obtain ⟨rfl, rfl⟩ := hw
    exact ⟨reachable_start waiting c, accounted_initial g⟩
  · exact ⟨hm.1.moves (.step hs), hs.accounted_of_returns hm.1.aimed hm.1.chained hp hm.2⟩
  · exact ⟨hm.1.moves (.next waiting c), hm.2⟩

/-- A reference is good: its buffer holds its block, and whatever it is used for is about that
buffer. -/
structure Accepts (r : Reference) (i : g.Buffer) (m : Machine g) : Prop where
  /-- The buffer is the one that the handle names. -/
  index : i.val = r.handle.index
  /-- It holds the block that it held when the reference was handed out. -/
  content : m.content i = some r.block
  /-- The handle may be used. -/
  use : m.world.cache.resolve r.handle = .ok i
  /-- It may be released. -/
  release : m.world.cache.resolveRelease r.handle = .ok i
  /-- A command that uses it reads and changes that buffer only. -/
  performs : ∀ {w c base}, m = ⟨w, .reply, .run (.perform c), base⟩ →
    w.uses c = some r.handle → ¬ c.PassesOn →
      m.step = .running ⟨{ w with cache := w.cache.changedBy i c }, .reply,
        .give (w.answerAt r.handle i c), base⟩
  /-- A command that passes it on begins a release or an operation with it. -/
  passes : ∀ {w c base}, m = ⟨w, .reply, .run (.perform c), base⟩ →
    w.uses c = some r.handle → c.PassesOn →
      ∃ (w' : World g) (d : Call g .unit), w'.cache = w.cache ∧
        (d = .release r.handle ∨ ∃ op, d = .issue op r.handle) ∧
        m.step = .running ⟨w', .unit, .run d, .push (.answering .done) base⟩
  /-- A release is one of that buffer. -/
  releases : ∀ {w base}, m = ⟨w, .unit, .run (.release r.handle), base⟩ →
    m.step = .running ⟨w, .unit, .run (.awaitUnlock i), .push (.releasing r.handle i) base⟩
  /-- An operation is one on that buffer. -/
  operates : ∀ {w op base}, m = ⟨w, .unit, .run (.issue op r.handle), base⟩ →
    m.step = .running ⟨w, .unit, .run (.request op i), base⟩

/-- A reference that was not given back is good. -/
theorem Returning.accepts (h : m.Returning ledger) (hr : r ∈ ledger) :
    ∃ i, m.Accepts r i := by
  obtain ⟨i, hindex, hcontent, huse⟩ := h.accounted.resolve_of_owned hr
  have hrelease := World.resolveRelease_of_resolve huse
  refine ⟨i, hindex, hcontent, huse, hrelease, ?_, ?_, ?_, ?_⟩
  · rintro w c base rfl huses hc
    have hperform := World.perform_of_uses huses hc
    rw [huse] at hperform
    exact congrArg (advance base) hperform
  · rintro w c base rfl huses hc
    obtain ⟨w', d, hcache, hd, hperform⟩ := World.perform_of_passesOn huses hc
    exact ⟨w', d, hcache, hd, congrArg (advance base) hperform⟩
  · rintro w base rfl
    have hbegin : (Call.release r.handle).begin w =
        w.call (.awaitUnlock i) (.releasing r.handle i) := by
      change World.orFault (w.cache.resolveRelease r.handle) _ = _
      rw [hrelease]
      rfl
    exact congrArg (advance base) hbegin
  · rintro w op base rfl
    have hbegin : (Call.issue op r.handle).begin w = w.goto (.request op i) := by
      change World.orFault (w.cache.resolve r.handle) _ = _
      rw [huse]
      rfl
    exact congrArg (advance base) hbegin

/-- A reference comes onto the ledger as it is handed over, with the block that its buffer holds
then. -/
theorem mem_of_ledger (hr : r ∈ m.ledger ledger) : r ∈ ledger ∨
    ∃ h, m.Hands h ∧ r = ⟨h.handle, m.world.cache.blockOf h.buffer⟩ := by
  obtain ⟨w, s, control, stack⟩ := m
  match control, stack with
  | .run c, _ => exact .inl hr
  | .give v, .bottom => exact .inl hr
  | .give v, .push f rest =>
    change r ∈ f.ledger v w rest.answers ledger at hr
    unfold Frame.ledger at hr
    split at hr
    · rename_i h hobtains
      rcases List.mem_cons.mp hr with rfl | hr
      · refine .inr ⟨h, ?_, rfl⟩
        split at hobtains
        · exact hobtains
        · cases hobtains
      · exact .inl hr
    · split at hr
      · exact .inl (List.mem_of_mem_eraseP hr)
      · exact .inl hr
    · exact .inl hr

/-- It is struck out as its release is complete. -/
theorem ledger_of_mem (hr : r ∈ ledger) : r ∈ m.ledger ledger ∨
    ∃ (h : Handle) (i : g.Buffer) (base : Stack g .unit), m.Returned (.push (.releasing h i) base) ∧
      r.handle = ⟨i.val, h.generation⟩ := by
  obtain ⟨w, s, control, stack⟩ := m
  match control, stack with
  | .run c, _ => exact .inl hr
  | .give v, .bottom => exact .inl hr
  | .give v, .push f rest =>
    change r ∈ f.ledger v w rest.answers ledger ∨ _
    unfold Frame.ledger
    split
    · exact .inl (List.mem_cons_of_mem _ hr)
    · rename_i h _ hcompletes
      split
      · by_cases hhandle : r.handle = h
        · cases f with
          | releasing h' i =>
            cases hcompletes
            exact .inr ⟨h', i, rest, ⟨w, v, rfl⟩, hhandle⟩
          | _ => cases hcompletes
        · exact .inl ((List.mem_eraseP_of_neg (by simpa using hhandle)).mpr hr)
      · exact .inl hr
    · exact .inl hr

/-! ## Every handle -/

/-- What handles are good for. -/
structure Handles (m : Machine g) : Prop where
  /-- A reference that is handed over is in the present generation of its buffer.  It is so later
  just if the number of blocks that the buffer was given meanwhile is a multiple of the number of
  generations. -/
  current : ∀ {h on k n}, m.Hands h → Reuses on h.buffer m k n →
    (n.generation h.buffer = h.generation ↔ UInt32.size ∣ k)
  /-- Otherwise the handle is refused: from when the buffer is first given another block until it
  was given as many as there are generations, and again until it was given twice as many. -/
  refused : ∀ {h on k n}, m.Hands h → Reuses on h.buffer m k n → ¬ UInt32.size ∣ k →
    n.Refuses h.handle
  /-- If clients give each reference back at most once, those that they have are good. -/
  accepted : ∀ {ledger r}, m.Returning ledger → r ∈ ledger → ∃ i, m.Accepts r i
  /-- So are those that calls have. -/
  held : ∀ {ledger h}, m.Returning ledger → .hold h ∈ m.stakes →
    ∃ i : g.Buffer, i.val = h.index ∧ m.world.cache.resolve h = .ok i ∧
      m.world.cache.resolveRelease h = .ok i
  /-- They have a reference from when it is handed over to one of them, with the block that its
  buffer holds then ... -/
  entered : ∀ {ledger r}, r ∈ m.ledger ledger → r ∈ ledger ∨
    ∃ h, m.Hands h ∧ r = ⟨h.handle, m.world.cache.blockOf h.buffer⟩
  /-- ... until a release of it is complete. -/
  struck : ∀ {ledger r}, r ∈ ledger → r ∈ m.ledger ledger ∨
    ∃ (h : Handle) (i : g.Buffer) (base : Stack g .unit),
      m.Returned (.push (.releasing h i) base) ∧ r.handle = ⟨i.val, h.generation⟩

/-- In every session, whatever clients, drivers and listeners do, the handles of a buffer are
refused once it was given another block; and in sessions of clients that give nothing back
twice, no handle is refused before it was given back. -/
theorem Reachable.handles (hm : m.Reachable) : m.Handles := by
  have hcurrent {h : Hold g} {on : Machine g → Prop} {k : Nat} {n : Machine g}
      (hh : m.Hands h) (hspan : Reuses on h.buffer m k n) :
      n.generation h.buffer = h.generation ↔ UInt32.size ∣ k := by
    rw [← hm.generation_of_hands hh]
    exact hspan.generation_eq_iff hm
  refine ⟨hcurrent, fun hh hspan hother => ?_, fun hreturning hr => hreturning.accepts hr,
    fun hreturning hheld => ?_, mem_of_ledger, ledger_of_mem⟩
  · exact refuses_of_generation rfl fun hsame => hother ((hcurrent hh hspan).mp hsame)
  · obtain ⟨i, hindex, huse⟩ := hreturning.accounted.resolve_of_hold hheld
    exact ⟨i, hindex, huse, World.resolveRelease_of_resolve huse⟩

/-! ### A handle that outlives its block -/

theorem leads_after (m : Machine g) (n : Nat) : Leads (fun _ => True) m (m.after n) :=
  leads_after_of fun _ _ => trivial

theorem leads_next (m : Machine g) (waiting : List Script) (c : Command) :
    Leads (fun _ => True) m (m.next waiting c) := by
  rw [next, Conduct.following]
  split
  · rename_i w a hstep
    have hpermits : (Conduct.free g).permits () m := trivial
    rw [if_pos hpermits]
    cases eq_of_answered hstep
    exact .single ⟨trivial, .next waiting c⟩
  · exact .refl

theorem leads_commanded (m : Machine g) (n : Nat) (commands : List Command) :
    Leads (fun _ => True) m (m.commanded n commands) := by
  induction commands generalizing m with
  | nil => exact .refl
  | cons c commands ih =>
    exact ((leads_next m [] c).trans (leads_after _ n)).trans (ih _)

/-- Clients give both their references back, the buffer is taken for another block, and then one
of them looks at it once more. -/
def lookedBack (m : Machine Geometry.single) : Machine Geometry.single :=
  ((m.after 20).commanded 20 [.release "h", .release "i", .acquire ⟨257, 5⟩ (some "x")]).next []
    (.query "h" .valid)

theorem leads_lookedBack (m : Machine Geometry.single) :
    Leads (fun _ => True) m (lookedBack m) :=
  ((leads_after m 20).trans (leads_commanded _ 20 _)).trans (leads_next _ _ _)

/-- A client has a reference to the only buffer, and another one is being handed over. -/
theorem handles_of_outlived :
    ∃ (ledger : List Reference) (m : Machine Geometry.single) (h : Hold Geometry.single) (k : Nat),
      m.Returning ledger ∧ ledger = [⟨⟨0, 1⟩, ⟨257, 3⟩⟩] ∧ m.Hands h ∧
        Reuses (fun _ => True) h.buffer m k (lookedBack m) ∧ ¬ UInt32.size ∣ k ∧
          (lookedBack m).Presents h.handle ∧ m.Handles := by
  have hstart : Returning [] (start ((World.initial Geometry.single).fresh [])
      (.acquire ⟨257, 3⟩ (some "h"))) := .start [] _ ⟨rfl, rfl⟩
  obtain ⟨ledger, m, hreturning, hledger, hhands, hother, hpresents⟩ :
      ∃ (ledger : List Reference) (m : Machine Geometry.single), m.Returning ledger ∧
        ledger = [⟨⟨0, 1⟩, ⟨257, 3⟩⟩] ∧ m.Hands ⟨⟨0, by decide⟩, 1⟩ ∧
          (lookedBack m).generation ⟨0, by decide⟩ ≠ m.generation ⟨0, by decide⟩ ∧
            (lookedBack m).Presents ⟨0, 1⟩ :=
    ⟨_, _, ((hstart.after 20).following [] (.acquire ⟨257, 3⟩ (some "i"))).after 7, by decide, rfl,
      by decide, rfl⟩
  have hm := hreturning.reachable
  obtain ⟨k, hk⟩ := Reuses.exists_of_leads (leads_lookedBack m) ⟨0, by decide⟩
  exact ⟨ledger, m, _, k, hreturning, hledger, hhands, hk,
    fun hsame => hother ((hk.generation_eq_iff hm).mpr hsame), hpresents, hm.handles⟩

end Machine
end BufferCache
