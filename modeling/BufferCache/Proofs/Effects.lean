import BufferCache.Proofs.Runs

/-!
# What a step does to the cache

There are some seventy kinds of step, since every call and every suspended call
has its own.  To the cache itself they do only a dozen different things, most of
them nothing at all.  An `Effect` names what a step does, `Effect.apply` is the
cache afterwards, and `Effect.Fits` is what was checked before.

What each effect does to the headers is computed here, by one lemma for each
change.  That every step has one of the effects is shown elsewhere.

Two effects come in one step although the cache has smaller operations: queueing
a request clears the dirty flag of its buffer, and ending a request settles the
validity of the buffer, unlocks it and frees the slot.  No other task runs in
between.
-/

namespace BufferCache

variable {g : Geometry}

/-! ## Effects -/

/-- What a step does to the cache. -/
inductive Effect (g : Geometry) where
  /-- Nothing. -/
  | none
  /-- An event is counted. -/
  | count (k : Counter)
  /-- The buffer of a block gets a reference. -/
  | refer (b : Block) (i : g.Buffer)
  /-- A buffer loses a reference. -/
  | unrefer (i : g.Buffer)
  /-- A buffer is locked. -/
  | lock (i : g.Buffer)
  /-- A buffer is unlocked. -/
  | unlock (i : g.Buffer)
  /-- A buffer is locked, and unlocked at once as there is nothing to do. -/
  | graze (i : g.Buffer)
  /-- A request is queued for a buffer; `direct` if the buffer is locked in the
  same step. -/
  | queue (direct : Bool) (d : Direction) (i : g.Buffer) (b : Block) (slot : g.Slot)
  /-- The request that a major is serving ends. -/
  | finish (m : Nat) (slot : g.Slot) (q : Request g) (success : Bool)
  /-- A driver carries out its current request and ends it. -/
  | serve (m : Nat) (d : Driver) (slot : g.Slot) (q : Request g)
  /-- A buffer is given another block, and the buffers are `s` then. -/
  | assign (i : g.Buffer) (b : Block) (s : Buffers g)
  /-- A client or a driver replaces the bytes in a buffer, or marks them. -/
  | edit (i : g.Buffer) (page : Option Page) (valid dirty : Bool)
  /-- A buffer of a device is emptied. -/
  | empty (d : DeviceNumber) (i : g.Buffer)
  /-- A driver is registered. -/
  | register (m : Nat) (d : Driver)

/-- What a call may be about to do to the references to a buffer, to its block, or to
its change. -/
inductive Due (g : Geometry) where
  /-- The buffer of a block is to be referenced. -/
  | refer (b : Block)
  /-- A reference to a buffer is to be given back. -/
  | unrefer (i : g.Buffer)
  /-- A buffer is to be given another block. -/
  | assign (b : Block) (i : g.Buffer)
  /-- The buffer of a device is to be emptied. -/
  | empty (d : DeviceNumber) (i : g.Buffer)
  deriving DecidableEq

/-- What has to be due for a step to have the effect. -/
def Effect.due : Effect g → Option (Due g)
  | .refer b _ => some (.refer b)
  | .unrefer i => some (.unrefer i)
  | .assign i b _ => some (.assign b i)
  | .empty d i => some (.empty d i)
  | _ => .none

namespace Cache

/-- The cache with a request queued for buffer `i`, in a given slot. -/
def enqueue (c : Cache g) (d : Direction) (i : g.Buffer) (b : Block) (slot : g.Slot) :
    Cache g :=
  ({ c with requests := (c.requests.insert b.device.major slot (.ofBlock d b) i).1 }.setDirty
    i false).tick (counterOf d)

/-- The cache with the request `q` of major `m` ended. -/
def conclude (c : Cache g) (m : Nat) (slot : g.Slot) (q : Request g) (success : Bool) :
    Cache g :=
  let settled := (c.setValid q.buffer success).unlock q.buffer
  let counted := if success then settled else settled.tick .failure
  { counted with requests := (c.requests.retire m slot).1 }.wake .vacancy

/-- The cache with the transfer of `q` carried out by driver `d` of major `m`. -/
def carryOut (c : Cache g) (m : Nat) (d : Driver) (q : Request g) : Cache g :=
  let s := d.serve q.transfer (c.page q.buffer)
  (c.setDriver m s.driver).setPage q.buffer s.page

/-- The cache with buffer `i` given block `b`, so that its buffers are `s`. -/
def assign (c : Cache g) (i : g.Buffer) (s : Buffers g) : Cache g :=
  let missed := { c with buffers := s }.tick .miss
  match (c.header i).content with
  | none => missed
  | some _ => missed.tick .eviction

/-- The cache with the bytes in buffer `i` replaced, or marked as those of the
block, or as changed. -/
def edit (c : Cache g) (i : g.Buffer) (page : Option Page) (valid dirty : Bool) : Cache g :=
  let written := match page with
    | none => c
    | some p => c.setPage i p
  let marked := if valid then written.setValid i true else written
  if dirty then marked.setDirty i true else marked

end Cache

namespace Effect

/-- The cache after a step. -/
def apply : Effect g → Cache g → Cache g
  | .none, c => c
  | .count k, c => c.tick k
  | .refer _ i, c => c.refer i
  | .unrefer i, c => c.unrefer i
  | .lock i, c => c.lock i
  | .unlock i, c => c.unlock i
  | .graze i, c => (c.lock i).unlock i
  | .queue direct d i b slot, c => (if direct then c.lock i else c).enqueue d i b slot
  | .finish m slot q success, c => c.conclude m slot q success
  | .serve m d slot q, c =>
      (c.carryOut m d q).conclude d.major slot q
        (d.serve q.transfer (c.page q.buffer)).success
  | .assign i _ s, c => c.assign i s
  | .edit i page valid dirty, c => c.edit i page valid dirty
  | .empty _ i, c => (c.setValid i false).setDirty i false
  | .register m d, c => c.setDriver m d

/-- What the step has made sure of before. -/
def Fits : Effect g → Cache g → Prop
  | .none, _ => True
  | .count _, _ => True
  | .refer b i, c => c.buffers.locate b = some i
  | .unrefer i, c => (c.header i).references ≠ 0
  | .lock i, c => (c.header i).locked = false
  | .unlock _, _ => True
  | .graze i, c => (c.header i).locked = false
  | .queue direct d i b slot, c =>
      c.requests.freeSlot d = some slot ∧
        (direct = true → (c.header i).locked = false ∧
          b = ⟨(c.header i).device, (c.header i).number⟩)
  | .finish m slot q _, c =>
      c.requests.currentSlot m = some slot ∧ c.requests.request? slot = some q
  | .serve m d slot q, c =>
      c.driver? m = some d ∧ c.requests.currentSlot d.major = some slot ∧
        c.requests.request? slot = some q
  | .assign i b s, c =>
      (c.header i).references = 0 ∧ (c.header i).dirty = false ∧
        (c.header i).locked = false ∧ c.buffers.locate b = Option.none ∧
          c.buffers.reassign i b = .ok s
  | .edit _ _ _ _, _ => True
  | .empty d i, c => (c.header i).device = d
  | .register m _, c => m ≠ 0 ∧ m < majorCount ∧ c.driver? m = Option.none

end Effect

namespace Cache

/-! ## Changes through a handle -/

theorem resolve_eq_ok {c : Cache g} {h : Handle} {i : g.Buffer} (hi : c.resolve h = .ok i) :
    i.val = h.index ∧ (c.header i).generation = h.generation ∧
      (c.header i).references ≠ 0 := by
  unfold resolve at hi
  split at hi
  · dsimp only at hi
    split at hi
    · rename_i hg
      split at hi
      · cases hi
      · rename_i hr
        cases hi
        exact ⟨rfl, hg, hr⟩
    · cases hi
  · cases hi

theorem references_of_resolve {c : Cache g} {h : Handle} {i : g.Buffer}
    (hi : c.resolve h = .ok i) : (c.header i).references ≠ 0 :=
  (resolve_eq_ok hi).2.2

/-- A handle names at most one buffer, whatever the state of the cache. -/
theorem resolve_unique {c c' : Cache g} {h : Handle} {i j : g.Buffer}
    (hi : c.resolve h = .ok i) (hj : c'.resolve h = .ok j) : i = j :=
  Fin.ext ((resolve_eq_ok hi).1.trans (resolve_eq_ok hj).1.symm)

theorem map_eq_ok {ε α β : Type} {x : Except ε α} {f : α → β} {b : β}
    (h : x.map f = .ok b) : ∃ a, x = .ok a ∧ f a = b := by
  cases x with
  | error e => cases h
  | ok a => cases h; exact ⟨a, rfl, rfl⟩

theorem write_eq_ok {c c' : Cache g} {h : Handle} {f : Page → Page}
    (hc : c.write h f = .ok c') :
    ∃ i, c.resolve h = .ok i ∧ c' = c.edit i (some (f (c.page i))) false false := by
  obtain ⟨i, hi, rfl⟩ := map_eq_ok hc
  exact ⟨i, hi, rfl⟩

theorem markDirty_eq_ok {c c' : Cache g} {h : Handle} (hc : c.markDirty h = .ok c') :
    ∃ i, c.resolve h = .ok i ∧ c' = c.edit i none false true := by
  obtain ⟨i, hi, rfl⟩ := map_eq_ok hc
  exact ⟨i, hi, rfl⟩

theorem markValid_eq_ok {c c' : Cache g} {h : Handle} (hc : c.markValid h = .ok c') :
    ∃ i, c.resolve h = .ok i ∧ c' = c.edit i none true false := by
  obtain ⟨i, hi, rfl⟩ := map_eq_ok hc
  exact ⟨i, hi, rfl⟩

/-- Writing through a guard replaces the bytes and marks them as changed. -/
theorem writeDirty_eq_ok {c c' : Cache g} {h : Handle} {f : Page → Page}
    (hc : (do let c ← c.write h f; c.markDirty h) = Except.ok c') :
    ∃ i, c.resolve h = .ok i ∧ c' = c.edit i (some (f (c.page i))) false true := by
  cases hw : c.write h f with
  | error e => rw [hw] at hc; cases hc
  | ok c₁ =>
    rw [hw] at hc
    obtain ⟨i, hi, rfl⟩ := write_eq_ok hw
    obtain ⟨j, hj, rfl⟩ := markDirty_eq_ok hc
    cases resolve_unique hi hj
    exact ⟨i, hi, rfl⟩

/-- Overwriting a block replaces the bytes and marks them as those of the block,
and as changed. -/
theorem overwrite_eq_ok {c c' : Cache g} {h : Handle} {f : Page → Page}
    (hc : (do let c ← c.write h f; let c ← c.markValid h; c.markDirty h) = Except.ok c') :
    ∃ i, c.resolve h = .ok i ∧ c' = c.edit i (some (f (c.page i))) true true := by
  cases hw : c.write h f with
  | error e => rw [hw] at hc; cases hc
  | ok c₁ =>
    rw [hw] at hc
    cases hv : c₁.markValid h with
    | error e =>
      change (c₁.markValid h >>= fun c => c.markDirty h) = _ at hc
      rw [hv] at hc
      cases hc
    | ok c₂ =>
      change (c₁.markValid h >>= fun c => c.markDirty h) = _ at hc
      rw [hv] at hc
      obtain ⟨i, hi, rfl⟩ := write_eq_ok hw
      obtain ⟨j, hj, rfl⟩ := markValid_eq_ok hv
      obtain ⟨k, hk, rfl⟩ := markDirty_eq_ok hc
      cases resolve_unique hi hj
      cases resolve_unique hi hk
      exact ⟨i, hi, rfl⟩

theorem register_eq_ok {c c' : Cache g} {m : Nat} {d : Driver} (hc : c.register m d = .ok c') :
    m ≠ 0 ∧ m < majorCount ∧ c.driver? m = none ∧ c' = c.setDriver m d := by
  unfold register at hc
  split at hc
  · cases hc
  · rename_i hm
    split at hc
    · cases hc
    · rename_i hfree
      cases hc
      exact ⟨by omega, by omega, hfree, rfl⟩

/-! ## Changes through a handle that is no longer good -/

theorem map_eq_error {ε α β : Type} {x : Except ε α} {f : α → β} {e : ε}
    (h : x.map f = .error e) : x = .error e := by
  cases x with
  | error e' => exact congrArg Except.error (Except.error.inj h)
  | ok a => cases h

/-- Generations and references decide whether a handle is good. -/
theorem resolve_congr {c c' : Cache g}
    (hg : ∀ i, (c'.header i).generation = (c.header i).generation)
    (hr : ∀ i, (c'.header i).references = (c.header i).references) (h : Handle) :
    c'.resolve h = c.resolve h := by
  unfold resolve
  split
  · dsimp only
    rw [hg, hr]
  · rfl

theorem resolve_setValid (c : Cache g) (i : g.Buffer) (v : Bool) (h : Handle) :
    (c.setValid i v).resolve h = c.resolve h := by
  refine resolve_congr (fun j => ?_) (fun j => ?_) h
  · rw [setValid, header_update]
    split <;> rfl
  · rw [setValid, header_update]
    split <;> rfl

/-- Writing through a guard fails just where the handle does. -/
theorem writeDirty_eq_error {c : Cache g} {h : Handle} {f : Page → Page} {e : Fault}
    (hc : (do let c ← c.write h f; c.markDirty h) = Except.error e) :
    c.resolve h = .error e := by
  cases hw : c.write h f with
  | error e' => rw [hw] at hc; cases hc; exact map_eq_error hw
  | ok c₁ =>
    rw [hw] at hc
    obtain ⟨i, hi, rfl⟩ := map_eq_ok hw
    exact map_eq_error hc

/-- Overwriting a block fails just where the handle does. -/
theorem overwrite_eq_error {c : Cache g} {h : Handle} {f : Page → Page} {e : Fault}
    (hc : (do let c ← c.write h f; let c ← c.markValid h; c.markDirty h) = Except.error e) :
    c.resolve h = .error e := by
  cases hw : c.write h f with
  | error e' => rw [hw] at hc; cases hc; exact map_eq_error hw
  | ok c₁ =>
    rw [hw] at hc
    obtain ⟨i, hi, rfl⟩ := map_eq_ok hw
    change ((c.setPage i (f (c.page i))).markValid h >>= fun c => c.markDirty h) = _ at hc
    cases hv : (c.setPage i (f (c.page i))).markValid h with
    | error e' => rw [hv] at hc; cases hc; exact map_eq_error hv
    | ok c₂ =>
      rw [hv] at hc
      obtain ⟨j, hj, rfl⟩ := map_eq_ok hv
      have hd : ((c.setPage i (f (c.page i))).setValid j true).resolve h = .error e :=
        map_eq_error hc
      rw [resolve_setValid] at hd
      exact hd

/-- A handle that is not good is out of range, stale or released. -/
theorem resolve_eq_error {c : Cache g} {h : Handle} {e : Fault} (hc : c.resolve h = .error e) :
    e = .handleOutOfRange h.index ∨ (∃ current, e = .staleHandle h.index h.generation current) ∨
      e = .handleReleased h.index := by
  unfold resolve at hc
  split at hc
  · dsimp only at hc
    split at hc
    · split at hc <;> cases hc
      exact .inr (.inr rfl)
    · cases hc
      exact .inr (.inl ⟨_, rfl⟩)
  · cases hc
    exact .inl rfl

theorem resolveRelease_eq_ok {c : Cache g} {h : Handle} {i : g.Buffer}
    (hi : c.resolveRelease h = .ok i) :
    i.val = h.index ∧ (c.header i).generation = h.generation := by
  unfold resolveRelease at hi
  split at hi
  · dsimp only at hi
    split at hi
    · rename_i hg
      cases hi
      exact ⟨rfl, hg⟩
    · cases hi
  · cases hi

/-- A handle that cannot be released is stale. -/
theorem resolveRelease_eq_error {c : Cache g} {h : Handle} {e : Fault}
    (hc : c.resolveRelease h = .error e) : e = .staleRelease h.index := by
  unfold resolveRelease at hc
  split at hc
  · dsimp only at hc
    split at hc <;> cases hc
    rfl
  · cases hc
    rfl

/-- The faults of handles say nothing about the index. -/
theorem ne_duplicate_of_resolve {c : Cache g} {h : Handle} {e : Fault}
    (hc : c.resolve h = .error e) (b : Block) : e ≠ .duplicateBlock b := by
  rcases resolve_eq_error hc with rfl | ⟨_, rfl⟩ | rfl <;> exact Fault.noConfusion

theorem ne_duplicate_of_resolveRelease {c : Cache g} {h : Handle} {e : Fault}
    (hc : c.resolveRelease h = .error e) (b : Block) : e ≠ .duplicateBlock b := by
  rw [resolveRelease_eq_error hc]
  exact Fault.noConfusion

/-! ## Headers after a change -/

section Headers

variable (c : Cache g) (i j : g.Buffer)

@[simp] theorem header_tick (k : Counter) : (c.tick k).header j = c.header j := rfl

@[simp] theorem header_wake (q : Queue g) : (c.wake q).header j = c.header j := by
  cases q <;> rfl

@[simp] theorem header_setPage (p : Page) : (c.setPage i p).header j = c.header j := rfl

@[simp] theorem header_setDriver (m : Nat) (d : Driver) :
    (c.setDriver m d).header j = c.header j := rfl

@[simp] theorem requests_wake (q : Queue g) : (c.wake q).requests = c.requests := by
  cases q <;> rfl

theorem header_lock :
    (c.lock i).header j =
      if i = j then { c.header j with locked := true } else c.header j :=
  header_update c i j _

theorem header_unlock :
    (c.unlock i).header j =
      if i = j then { c.header j with locked := false } else c.header j := by
  rw [unlock, header_wake, header_update]

theorem header_refer :
    (c.refer i).header j =
      if i = j then { c.header j with references := (c.header j).references + 1 }
      else c.header j :=
  header_update c i j _

theorem header_unrefer :
    (c.unrefer i).header j =
      if i = j then { c.header j with references := (c.header j).references - 1 }
      else c.header j := by
  rw [unrefer, header_wake, header_update]

theorem header_setValid (v : Bool) :
    (c.setValid i v).header j =
      if i = j then { c.header j with valid := v } else c.header j :=
  header_update c i j _

theorem header_setDirty (d : Bool) :
    (c.setDirty i d).header j =
      if i = j then { c.header j with dirty := d } else c.header j :=
  header_update c i j _

theorem header_enqueue (d : Direction) (b : Block) (slot : g.Slot) :
    (c.enqueue d i b slot).header j =
      if i = j then { c.header j with dirty := false } else c.header j := by
  rw [enqueue, header_tick, header_setDirty]
  rfl

theorem header_conclude (m : Nat) (slot : g.Slot) (q : Request g) (success : Bool) :
    (c.conclude m slot q success).header j =
      if q.buffer = j then { c.header j with valid := success, locked := false }
      else c.header j := by
  have h : (c.conclude m slot q success).header j =
      ((c.setValid q.buffer success).unlock q.buffer).header j := by
    cases success <;> rfl
  rw [h, header_unlock, header_setValid]
  split <;> rfl

@[simp] theorem header_carryOut (m : Nat) (d : Driver) (q : Request g) :
    (c.carryOut m d q).header j = c.header j := rfl

theorem header_edit (page : Option Page) (valid dirty : Bool) :
    (c.edit i page valid dirty).header j =
      if i = j then
        { c.header j with
          valid := valid || (c.header j).valid, dirty := dirty || (c.header j).dirty }
      else c.header j := by
  cases page <;> cases valid <;> cases dirty <;>
    simp [edit, header_setValid, header_setDirty] <;> split <;> simp_all

theorem header_assign (s : Buffers g) : (c.assign i s).header j = s.header j := by
  unfold assign
  split <;> rfl

end Headers

end Cache

/-! ## What most effects leave alone -/

/-- A header without its references and flags. -/
def Header.unmarked {n : Nat} (h : Header n) : Header n :=
  { h with references := 0, valid := false, dirty := false, locked := false }

/-- Apart from giving a buffer another block, effects change references and flags
only. -/
theorem Effect.unmarked_header {e : Effect g} (he : ∀ i b s, e ≠ .assign i b s) (c : Cache g)
    (j : g.Buffer) : ((e.apply c).header j).unmarked = (c.header j).unmarked := by
  cases e with
  | none => rfl
  | count k => rfl
  | refer b i =>
    rw [apply, Cache.header_refer]
    split <;> rfl
  | unrefer i =>
    rw [apply, Cache.header_unrefer]
    split <;> rfl
  | lock i =>
    rw [apply, Cache.header_lock]
    split <;> rfl
  | unlock i =>
    rw [apply, Cache.header_unlock]
    split <;> rfl
  | graze i =>
    rw [apply, Cache.header_unlock, Cache.header_lock]
    split <;> rfl
  | queue direct d i b slot =>
    cases direct with
    | false =>
      rw [apply, Cache.header_enqueue]
      split <;> rfl
    | true =>
      rw [apply, Cache.header_enqueue, if_pos rfl, Cache.header_lock]
      split <;> rfl
  | finish m slot q success =>
    rw [apply, Cache.header_conclude]
    split <;> rfl
  | serve m d slot q =>
    rw [apply, Cache.header_conclude, Cache.header_carryOut]
    split <;> rfl
  | assign i b s => exact absurd rfl (he i b s)
  | edit i page valid dirty =>
    rw [apply, Cache.header_edit]
    split <;> rfl
  | empty d i =>
    rw [apply, Cache.header_setDirty, Cache.header_setValid]
    split <;> rfl
  | register m d => rfl

/-- The same holds of the buckets. -/
theorem Effect.buckets_apply {e : Effect g} (he : ∀ i b s, e ≠ .assign i b s) (c : Cache g) :
    (e.apply c).buffers.buckets = c.buffers.buckets := by
  cases e with
  | assign i b s => exact absurd rfl (he i b s)
  | queue direct d i b slot => cases direct <;> rfl
  | finish m slot q success => cases success <;> rfl
  | serve m d slot q =>
    rw [apply]
    generalize (d.serve q.transfer (c.page q.buffer)).success = success
    cases success <;> rfl
  | edit i page valid dirty => cases page <;> cases valid <;> cases dirty <;> rfl
  | _ => rfl

end BufferCache
