import BufferCache.Proofs.StepEffects

/-!
# What steps count

Three things are counted in a step: that a buffer was asked for, how that ended, and that a
request was queued or failed.  `World.Reckons` says what a step does to the number of calls
that are getting a buffer, beside its effect: one more where an access is counted, one less
where a hit or a miss is; and which request it ends, if it ends one.

Who is getting a buffer is read off the calls: `obtain`, at its beginning and wherever it is
suspended.  The requests that end are read off the calls as well, those that clients end and
those that drivers serve.
-/

namespace BufferCache

variable {g : Geometry}

/-! ## Getting a buffer -/

/-- One for a call that is getting a buffer, the access being counted. -/
def Call.obtaining {s : Shape} : Call g s → Nat
  | .obtain _ => 1
  | _ => 0

/-- One for a suspended call that is getting a buffer. -/
def Frame.obtaining {a s : Shape} : Frame g a s → Nat
  | .lookingUp _ | .starving _ | .awaitingVictim _ _ | .flushingVictim _ _ => 1
  | _ => 0

/-- How many of the calls that come next are getting a buffer. -/
def Next.obtaining {s : Shape} : Next g s → Nat
  | .done _ => 0
  | .goto d => d.obtaining
  | .call d f => d.obtaining + f.obtaining

/-- How many suspended calls are getting a buffer. -/
def Stack.obtaining : {s : Shape} → Stack g s → Nat
  | _, .bottom => 0
  | _, .push f rest => f.obtaining + rest.obtaining

/-- How many calls are getting a buffer, at any depth. -/
def Machine.obtaining : Machine g → Nat
  | ⟨_, _, .run d, stack⟩ => d.obtaining + stack.obtaining
  | ⟨_, _, .give _, stack⟩ => stack.obtaining

/-! ## Requests that end -/

/-- The direction of the request that major `m` is serving, and a success. -/
def World.ending (w : World g) (m : Nat) (success : Request g → Bool) :
    Option (Direction × Bool) :=
  (w.cache.requests.currentRequest m).map fun q => (q.transfer.direction, success q)

/-- The direction of the request that the first step of a call ends, if it ends one, and with
what success: a client ends it, alone or with others, or a driver serves it. -/
def Call.ends {s : Shape} (w : World g) : Call g s → Option (Direction × Bool)
  | .perform (.finish m success) => w.ending m fun _ => success
  | .drain m pattern upcoming _ => w.ending m fun _ => (World.nextSuccess pattern upcoming).1
  | .serve m => (w.cache.driver? m).bind fun d =>
      w.ending d.major fun q => (d.serve q.transfer (w.cache.page q.buffer)).success
  | _ => none

/-- The direction of the request that the next step ends, if it ends one, and with what
success. -/
def Machine.ends : Machine g → Option (Direction × Bool)
  | ⟨w, _, .run d, _⟩ => d.ends w
  | _ => none

/-! ## Effects -/

namespace Effect

/-- How many accesses an effect counts. -/
def opens : Effect g → Nat
  | .count .access => 1
  | _ => 0

/-- How many hits and misses an effect counts. -/
def settles : Effect g → Nat
  | .count .hit | .assign _ _ _ => 1
  | _ => 0

/-- The request that an effect ends, and with what success. -/
def ends : Effect g → Cache g → Option (Direction × Bool)
  | .finish _ _ q success, _ => some (q.transfer.direction, success)
  | .serve _ d _ q, c =>
      some (q.transfer.direction, (d.serve q.transfer (c.page q.buffer)).success)
  | _, _ => Option.none

/-- By themselves only accesses and hits are counted. -/
def Plain : Effect g → Prop
  | .count k => k = .access ∨ k = .hit
  | _ => True

/-- Effects that neither end a request nor have to do with getting a buffer. -/
def Aside : Effect g → Prop
  | .count _ | .finish _ _ _ _ | .serve _ _ _ _ | .assign _ _ _ => False
  | _ => True

end Effect

/-- A step from `w` to `w'` has an effect that ends the request `ends`, if it is one, and turns
the number of calls that are getting a buffer from `before` into `after`. -/
def World.Reckons (w : World g) (ends : Option (Direction × Bool)) (before after : Nat)
    (w' : World g) : Prop :=
  ∃ e : Effect g, e.Fits w.cache ∧ w'.cache = e.apply w.cache ∧ e.Plain ∧
    e.ends w.cache = ends ∧ after + e.settles = before + e.opens

/-- What every step from `w` counts, of a call that is getting `before` buffers. -/
def Outcome.Reckons {s : Shape} (o : Outcome g s) (w : World g)
    (ends : Option (Direction × Bool)) (before : Nat) : Prop :=
  o.Ensures fun w' n => w.Reckons ends before n.obtaining w'

namespace World

variable {s : Shape} {w w' : World g} {k : Nat}

/-! ## Steps that count nothing -/

theorem reckons_aside (e : Effect g) (haside : e.Aside) (hfits : e.Fits w.cache)
    (h : w'.cache = e.apply w.cache) : w.Reckons none k k w' := by
  refine ⟨e, hfits, h, ?_⟩
  cases e <;> first | exact ⟨trivial, rfl, rfl⟩ | exact haside.elim

theorem reckons_of_eq (h : w'.cache = w.cache) : w.Reckons none k k w' :=
  reckons_aside .none trivial trivial h

theorem done_reckons_of {v : s.Value g} (h : w.Reckons none 0 0 w') :
    Outcome.Reckons (w'.done v) w none 0 :=
  Outcome.ensures_done h

theorem goto_reckons_of {c : Call g s} (h : w.Reckons none c.obtaining c.obtaining w') :
    Outcome.Reckons (w'.goto c) w none c.obtaining :=
  Outcome.ensures_goto h

theorem done_reckons {v : s.Value g} (h : w'.cache = w.cache) :
    Outcome.Reckons (w'.done v) w none 0 :=
  Outcome.ensures_done (reckons_of_eq h)

theorem goto_reckons {c : Call g s} (h : w'.cache = w.cache) :
    Outcome.Reckons (w'.goto c) w none c.obtaining :=
  Outcome.ensures_goto (reckons_of_eq h)

theorem call_reckons {a : Shape} {c : Call g a} {f : Frame g a s} (h : w'.cache = w.cache) :
    Outcome.Reckons (w'.call c f) w none (c.obtaining + f.obtaining) :=
  Outcome.ensures_call (reckons_of_eq h)

theorem fault_reckons {f : Fault} {ends : Option (Direction × Bool)} :
    Outcome.Reckons (fault f : Outcome g s) w ends k :=
  Outcome.ensures_fault

/-! ## Waiting -/

theorem sleep_reckons (w : World g) (q : Queue g) (ticket : UInt64) :
    (w.sleep q ticket).Reckons w none 0 := by
  unfold sleep
  split
  · split
    · exact Outcome.ensures_error
    · rename_i h
      exact call_reckons ((cache_takeWaiting h).trans rfl)
  · exact done_reckons rfl

theorem play_reckons (w : World g) (script : Script) : (w.play script).Reckons w none 0 := by
  cases script with
  | nil => exact done_reckons rfl
  | cons c rest => exact call_reckons rfl

theorem awaitUnlock_reckons (w : World g) (i : g.Buffer) :
    (w.awaitUnlock i).Reckons w none 0 := by
  unfold awaitUnlock
  split
  · exact call_reckons rfl
  · exact done_reckons rfl

theorem lock_reckons (w : World g) (i : g.Buffer) : (w.lock i).Reckons w none 0 := by
  unfold lock
  split
  · exact call_reckons rfl
  · rename_i h
    exact done_reckons_of (reckons_aside (.lock i) trivial (Bool.eq_false_iff.mpr h) rfl)

/-! ## Getting and giving back buffers -/

theorem lookUp_reckons (w : World g) (b : Block) : (w.lookUp b).Reckons w none 0 := by
  unfold lookUp
  split
  · exact done_reckons rfl
  · rename_i i h
    exact Outcome.ensures_call (reckons_aside (.refer b i) trivial h rfl)

theorem pinned_reckons (w : World g) (b : Block) (i : g.Buffer) :
    (w.pinned b i).Reckons w none 0 := by
  unfold pinned
  split
  · exact done_reckons rfl
  · split
    · exact fault_reckons
    · rename_i h
      exact goto_reckons_of (reckons_aside (.unrefer i) trivial h rfl)

/-- A call that gets a buffer begins with an access. -/
theorem acquire_reckons (w : World g) (b : Block) : (w.acquire b).Reckons w none 0 := by
  unfold acquire
  split
  · exact fault_reckons
  · exact Outcome.ensures_goto ⟨.count .access, trivial, rfl, .inl rfl, rfl, rfl⟩

/-- It ends with a hit if the block was found. -/
theorem lookedUp_reckons (w : World g) (b : Block) (found : Option (Hold g)) :
    (w.lookedUp b found).Reckons w none 1 := by
  cases found with
  | some h => exact Outcome.ensures_done ⟨.count .hit, trivial, rfl, .inr rfl, rfl, rfl⟩
  | none =>
    refine Outcome.ensures_orFault fun victim _ => ?_
    cases victim with
    | none => exact call_reckons rfl
    | some i => exact call_reckons rfl

/-- It ends with a miss if a buffer is given the block. -/
theorem victimReady_reckons (w : World g) (b : Block) (i : g.Buffer) :
    (w.victimReady b i).Reckons w none 1 := by
  unfold victimReady
  dsimp only
  split
  · exact goto_reckons (c := .obtain b) rfl
  split
  · exact call_reckons (f := .flushingVictim b i) rfl
  split
  · exact goto_reckons (c := .obtain b) rfl
  rename_i hrefs hdirty hfree
  simp only [Bool.or_eq_true, not_or, Bool.not_eq_true] at hfree
  have hnone : w.cache.buffers.locate b = none := by
    simpa [Cache.contains] using hfree.1
  refine Outcome.ensures_orFault fun s hs => Outcome.ensures_done
    ⟨.assign i b s, ⟨by simpa using hrefs, by simpa using hdirty, hfree.2, hnone, hs⟩, ?_,
      trivial, rfl, rfl⟩
  rw [cache_reportMiss]
  rfl

theorem released_reckons (w : World g) (i : g.Buffer) : (w.released i).Reckons w none 0 := by
  unfold released
  split
  · exact fault_reckons
  · rename_i h
    exact done_reckons_of (reckons_aside (.unrefer i) trivial h rfl)

/-! ## Queueing and serving -/

theorem file_reckons {w₀ : World g} (direct : Bool) (op : Operation) (i : g.Buffer) (b : Block)
    (slot : g.Slot) (hcache : w.cache = if direct then w₀.cache.lock i else w₀.cache)
    (hfits : (Effect.queue direct op.direction i b slot).Fits w₀.cache) :
    (w.file op i b slot).Reckons w₀ none 0 := by
  have h : w₀.Reckons none 0 0
      ((w.mapCache (·.enqueue op.direction i b slot)).note (.queued op.direction b)) := by
    refine reckons_aside (.queue direct op.direction i b slot) trivial hfits ?_
    change w.cache.enqueue op.direction i b slot = _
    rw [hcache]
    rfl
  unfold file
  dsimp only
  split
  · exact Outcome.ensures_goto h
  · exact Outcome.ensures_done h

theorem enqueue_reckons (w : World g) (op : Operation) (i : g.Buffer) (d : DeviceNumber)
    (number : BlockNumber) : (w.enqueue op i d number).Reckons w none 0 := by
  unfold enqueue
  split
  · rename_i slot h
    exact file_reckons false op i ⟨d, number⟩ slot rfl ⟨h, nofun⟩
  · split
    · exact done_reckons_of (reckons_aside (.unlock i) trivial trivial (cache_unlock _ i))
    · exact call_reckons rfl

theorem locked_reckons (w : World g) (op : Operation) (i : g.Buffer) (d : DeviceNumber) :
    (w.locked op i d).Reckons w none 0 := by
  unfold locked
  split
  · exact done_reckons_of (reckons_aside (.unlock i) trivial trivial (cache_unlock w i))
  · exact enqueue_reckons w op i d _

theorem request_reckons (w : World g) (op : Operation) (i : g.Buffer) :
    (w.request op i).Reckons w none 0 := by
  unfold request
  dsimp only
  split
  · exact fault_reckons
  split
  · rename_i hahead
    split
    · exact done_reckons rfl
    rename_i hfree
    simp only [Bool.not_eq_true] at hfree
    have hgraze {w' : World g} (h : w'.cache = (w.cache.lock i).unlock i) :
        w.Reckons none 0 0 w' := reckons_aside (.graze i) trivial hfree h
    unfold locked
    split
    · exact done_reckons_of (hgraze (cache_unlock _ i))
    unfold enqueue
    split
    · rename_i slot hslot
      refine file_reckons true op i _ slot rfl ⟨hslot, fun _ => ⟨hfree, ?_⟩⟩
      simp [mapCache, Cache.lock, Cache.header_update, Header.number]
    · rw [if_pos hahead]
      exact done_reckons_of (hgraze (cache_unlock _ i))
  · exact call_reckons rfl

/-- Whoever ends a request ends the one that the major is serving. -/
theorem finish_reckons {m : Nat} {success : Bool} {r : World g × Bool}
    (h : w.finish m success = .ok r) : w.Reckons (w.ending m fun _ => success) 0 0 r.1 := by
  obtain ⟨slot, q, hslot, hq, rfl⟩ := finish_eq_ok h
  refine ⟨.finish m slot q success, ⟨hslot, hq⟩, cache_conclude w m slot q success, trivial,
    ?_, rfl⟩
  rw [ending, RequestTable.currentRequest, hslot]
  exact (congrArg (Option.map fun q : Request g => (q.transfer.direction, success)) hq).symm

theorem start_reckons (w : World g) (m : Nat) : (w.start m).Reckons w none 0 := by
  unfold start
  split
  · exact done_reckons rfl
  · split
    · exact done_reckons rfl
    · exact goto_reckons (cache_takeStart _ _)
    · exact goto_reckons rfl
    · exact goto_reckons rfl

/-- A driver ends the request that it is serving. -/
theorem serve_reckons (w : World g) (m : Nat) :
    (w.serve m).Reckons w ((Call.serve m).ends w) 0 := by
  change Outcome.Reckons _ _ ((w.cache.driver? m).bind _) _
  unfold serve
  split
  · rename_i hd
    rw [hd]
    exact done_reckons rfl
  rename_i d hd
  rw [hd]
  change Outcome.Reckons _ _ (w.ending d.major _) _
  unfold ending
  split
  · rename_i hq
    rw [hq]
    exact done_reckons rfl
  rename_i q hq
  rw [hq]
  refine Outcome.ensures_orFault fun ended hended => ?_
  obtain ⟨slot, hfits, happly⟩ := exists_serve hd hq hended
  have h : w.Reckons (some (q.transfer.direction,
      (d.serve q.transfer (w.cache.page q.buffer)).success)) 0 0 ended.1 :=
    ⟨_, hfits, happly, trivial, rfl, rfl⟩
  split
  · exact Outcome.ensures_goto h
  · exact Outcome.ensures_done h

/-! ## Flushing and emptying -/

theorem flushRounds_reckons (w : World g) (scope : Scope) (rounds writes : Nat) :
    (w.flushRounds scope rounds writes).Reckons w none 0 := by
  cases rounds with
  | zero => exact done_reckons rfl
  | succ rounds => exact call_reckons (cache_takeFlush w)

theorem flushBuffers_reckons (w : World g) (scope : Scope) (rounds writes : Nat)
    (rest : List g.Buffer) : (w.flushBuffers scope rounds writes rest).Reckons w none 0 := by
  unfold flushBuffers
  split
  · exact goto_reckons rfl
  · split
    · exact call_reckons rfl
    · exact goto_reckons rfl

theorem flushReady_reckons (w : World g) (scope : Scope) (rounds writes : Nat) (i : g.Buffer)
    (rest : List g.Buffer) : (w.flushReady scope rounds writes i rest).Reckons w none 0 := by
  unfold flushReady
  dsimp only
  split
  · exact call_reckons rfl
  · exact goto_reckons rfl

theorem discardBuffers_reckons (w : World g) (d : DeviceNumber) (rest : List g.Buffer) :
    (w.discardBuffers d rest).Reckons w none 0 := by
  unfold discardBuffers
  split
  · exact done_reckons rfl
  · split
    · exact call_reckons rfl
    · exact goto_reckons rfl

theorem discardReady_reckons (w : World g) (d : DeviceNumber) (i : g.Buffer)
    (rest : List g.Buffer) : (w.discardReady d i rest).Reckons w none 0 := by
  unfold discardReady
  dsimp only
  split
  · rename_i h
    exact goto_reckons_of (c := .discardBuffers d rest)
      (reckons_aside (.empty d i) trivial h rfl)
  · exact goto_reckons rfl

theorem checkMedium_reckons (w : World g) (d : DeviceNumber) :
    (w.checkMedium d).Reckons w none 0 := by
  unfold checkMedium
  split
  · exact call_reckons (cache_takeEmptying _ d)
  · exact done_reckons rfl

/-! ## Reading -/

theorem letGo_reckons (w : World g) (h t : Hold g) (d : DeviceNumber)
    (ahead : List BlockNumber) : (w.letGo h t d ahead).Reckons w none 0 :=
  Outcome.ensures_orFault fun i hi => Outcome.ensures_goto
    (reckons_aside (.unrefer i) trivial (Cache.references_of_resolve hi) rfl)

/-- A read goes on, or starts an operation, depending on the view of a handle. -/
theorem view_reckons {x : Except Fault HeaderView} {k : HeaderView → Outcome g s}
    (hk : ∀ v, (k v).Reckons w none 0) : (orFault x k).Reckons w none 0 :=
  Outcome.ensures_orFault fun v _ => hk v

theorem fetched_reckons (w : World g) (h : Hold g) : (w.fetched h).Reckons w none 0 := by
  refine view_reckons fun v => ?_
  split
  · exact done_reckons rfl
  · exact call_reckons rfl

theorem settled_reckons (w : World g) (h : Hold g) : (w.settled h).Reckons w none 0 := by
  refine view_reckons fun v => ?_
  split
  · exact done_reckons rfl
  · exact call_reckons rfl

theorem firstFetched_reckons (w : World g) (d : DeviceNumber) (ahead : List BlockNumber)
    (h : Hold g) : (w.firstFetched d ahead h).Reckons w none 0 := by
  refine view_reckons fun v => ?_
  split
  · exact goto_reckons rfl
  · exact call_reckons rfl

theorem readAhead_reckons (w : World g) (h : Hold g) (d : DeviceNumber)
    (ahead : List BlockNumber) : (w.readAhead h d ahead).Reckons w none 0 := by
  cases ahead with
  | nil => exact goto_reckons rfl
  | cons n ahead => exact call_reckons rfl

theorem aheadFetched_reckons (w : World g) (h : Hold g) (d : DeviceNumber)
    (ahead : List BlockNumber) (t : Hold g) :
    (w.aheadFetched h d ahead t).Reckons w none 0 := by
  refine view_reckons fun v => ?_
  split
  · exact letGo_reckons w h t d ahead
  · exact call_reckons rfl

theorem fetchPage_reckons (w : World g) (d : DeviceNumber) (numbers : List BlockNumber)
    (page : List UInt8) : (w.fetchPage d numbers page).Reckons w none 0 := by
  unfold fetchPage
  split
  · exact done_reckons rfl
  split
  · exact done_reckons rfl
  · exact goto_reckons rfl

theorem gather_reckons (w : World g) (d : DeviceNumber) (numbers : List BlockNumber)
    (held : Held g) (page : List UInt8) : (w.gather d numbers held page).Reckons w none 0 := by
  cases numbers with
  | nil => exact goto_reckons rfl
  | cons n numbers =>
    unfold gather
    dsimp only
    split
    · exact goto_reckons rfl
    · exact call_reckons rfl

theorem gathered_reckons (w : World g) (d : DeviceNumber) (numbers : List BlockNumber)
    (held : Held g) (page : List UInt8) (h : Hold g) :
    (w.gathered d numbers held page h).Reckons w none 0 := by
  refine view_reckons fun v => ?_
  split
  · exact goto_reckons rfl
  · exact call_reckons rfl

theorem collect_reckons (w : World g) (held : Held g) (chunks : List Page) (failed : Bool)
    (page : List UInt8) : (w.collect held chunks failed page).Reckons w none 0 := by
  match held with
  | [] => exact done_reckons rfl
  | none :: held => exact goto_reckons rfl
  | some h :: held => exact call_reckons rfl

theorem collected_reckons (w : World g) (h : Hold g) (held : Held g) (chunks : List Page)
    (failed : Bool) (page : List UInt8) :
    (w.collected h held chunks failed page).Reckons w none 0 := by
  refine view_reckons fun v => ?_
  split
  · exact call_reckons rfl
  · exact call_reckons rfl

/-! ## Commands -/

theorem withHandle_reckons {name : String} {k : Handle → Outcome g .reply}
    (hk : ∀ h, (k h).Reckons w none 0) : (w.withHandle name k).Reckons w none 0 := by
  unfold withHandle
  split
  · exact hk _
  · exact done_reckons rfl

theorem withGuard_reckons {name : String} {k : Handle → Outcome g .reply}
    (hk : ∀ h, (k h).Reckons w none 0) : (w.withGuard name k).Reckons w none 0 := by
  unfold withGuard
  split
  · exact hk _
  · exact done_reckons rfl

/-- A question about a buffer is answered if its handle is good. -/
theorem answer_reckons {α : Type} {x : Except Fault α} {k : α → Answer} :
    (orFault x fun a => (w.done (k a) : Outcome g .reply)).Reckons w none 0 :=
  Outcome.ensures_orFault fun _ _ => done_reckons rfl

theorem change_reckons {c : Except Fault (Cache g)}
    (hok : ∀ c', c = .ok c' → ∃ i page valid dirty, c' = w.cache.edit i page valid dirty) :
    (w.change c).Reckons w none 0 := by
  refine Outcome.ensures_orFault fun c' hc' => ?_
  obtain ⟨i, page, valid, dirty, rfl⟩ := hok c' hc'
  exact done_reckons_of (reckons_aside (.edit i page valid dirty) trivial trivial rfl)

theorem withDisk_reckons (w : World g) (m : Nat) (k : MemoryDisk → Answer) :
    (w.withDisk m k).Reckons w none 0 := by
  unfold withDisk
  split
  · exact done_reckons rfl
  · exact done_reckons rfl

theorem moveBytes_reckons (w : World g) (m : Nat) (fill : Option UInt8) :
    (w.moveBytes m fill).Reckons w none 0 := by
  unfold moveBytes
  split
  · exact done_reckons rfl
  · cases fill with
    | none => exact done_reckons rfl
    | some byte =>
      exact done_reckons_of
        (reckons_aside (.edit _ (some (Page.fill byte)) false false) trivial trivial rfl)

theorem drain_reckons (w : World g) (m : Nat) (pattern upcoming : List Bool)
    (ended : List (Transfer × Bool × Bool)) :
    (w.drain m pattern upcoming ended).Reckons w
      (w.ending m fun _ => (nextSuccess pattern upcoming).1) 0 := by
  unfold drain
  split
  · rename_i hq
    rw [ending, hq]
    exact done_reckons rfl
  · dsimp only
    exact Outcome.ensures_orFault fun r hr => Outcome.ensures_goto (finish_reckons hr)

theorem register_reckons {m : Nat} {d : Driver} {starts : List Script}
    (h : w.register m d starts = .ok w') : w.Reckons none 0 0 w' := by
  unfold register at h
  cases hc : w.cache.register m d with
  | error f => rw [hc] at h; cases h
  | ok c =>
    rw [hc] at h
    cases h
    obtain ⟨hzero, hm, hfree, rfl⟩ := Cache.register_eq_ok hc
    exact reckons_aside (.register m d) trivial ⟨hzero, hm, hfree⟩ rfl

theorem fillHeld_reckons (w : World g) (byte : UInt8) (h : Hold g) :
    (w.fillHeld byte h).Reckons w none 0 := by
  refine Outcome.ensures_orFault fun c hc => ?_
  obtain ⟨i, -, rfl⟩ := Cache.overwrite_eq_ok hc
  exact Outcome.ensures_call
    (reckons_aside (.edit i (some (Page.fill byte)) true true) trivial trivial rfl)

theorem guardHeld_reckons (w : World g) (name : String) (h : Hold g) :
    (w.guardHeld name h).Reckons w none 0 := by
  refine Outcome.ensures_orFault fun c hc => ?_
  obtain ⟨i, -, rfl⟩ := Cache.markValid_eq_ok hc
  exact Outcome.ensures_done (reckons_aside (.edit i none true false) trivial trivial rfl)

theorem perform_reckons (w : World g) (c : Command) :
    (w.perform c).Reckons w ((Call.perform c).ends w) 0 := by
  cases c with
  | register m d starts =>
    change Outcome.Reckons _ _ none _
    unfold perform
    dsimp only
    split
    · rename_i h
      exact done_reckons_of (register_reckons h)
    · exact done_reckons rfl
  | release name => exact withHandle_reckons fun h => call_reckons rfl
  | read name => exact withHandle_reckons fun h => answer_reckons
  | fill name byte =>
    refine withHandle_reckons fun h => change_reckons fun c hc => ?_
    obtain ⟨i, -, rfl⟩ := Cache.write_eq_ok hc
    exact ⟨i, _, _, _, rfl⟩
  | write name offset bytes =>
    refine withHandle_reckons fun h => change_reckons fun c hc => ?_
    obtain ⟨i, -, rfl⟩ := Cache.write_eq_ok hc
    exact ⟨i, _, _, _, rfl⟩
  | markDirty name =>
    refine withHandle_reckons fun h => change_reckons fun c hc => ?_
    obtain ⟨i, -, rfl⟩ := Cache.markDirty_eq_ok hc
    exact ⟨i, _, _, _, rfl⟩
  | markValid name =>
    refine withHandle_reckons fun h => change_reckons fun c hc => ?_
    obtain ⟨i, -, rfl⟩ := Cache.markValid_eq_ok hc
    exact ⟨i, _, _, _, rfl⟩
  | query name q => exact withHandle_reckons fun h => answer_reckons
  | issue op name => exact withHandle_reckons fun h => call_reckons rfl
  | move m fill => exact moveBytes_reckons w m fill
  | finish m success =>
    exact Outcome.ensures_orFault fun r hr => Outcome.ensures_done (finish_reckons hr)
  | drain m pattern => exact goto_reckons rfl
  | start m =>
    change Outcome.Reckons _ _ none _
    unfold perform
    dsimp only
    split
    · exact call_reckons rfl
    · exact done_reckons rfl
  | diskInfo m => exact withDisk_reckons w m _
  | diskRead m offset length fill => exact withDisk_reckons w m _
  | inspect => exact done_reckons (cache_noteFaults w _)
  | guardInfo name => exact withGuard_reckons fun h => answer_reckons
  | guardRead name => exact withGuard_reckons fun h => answer_reckons
  | guardWrite name offset bytes =>
    refine withGuard_reckons fun h => change_reckons fun c hc => ?_
    obtain ⟨i, -, rfl⟩ := Cache.writeDirty_eq_ok hc
    exact ⟨i, _, _, _, rfl⟩
  | guardDrop name => exact withGuard_reckons fun h => call_reckons rfl
  | guardInto name handle => exact withGuard_reckons fun h => done_reckons rfl
  | guardHandle name handle => exact withGuard_reckons fun h => done_reckons rfl
  | acquire _ _ | lookUp _ _ | fetch _ _ | fetchAhead _ _ _ | fetchPage _ _ _ _ | put _ _
  | touch _ | flush _ | discard _ | checkMedium _ | guardFetch _ _ | guardAcquire _ _ =>
    exact call_reckons rfl
  | listen _ | attend _ | isCached _ | bufferCount | forge _ _ _ | current _ | queued _ | statistics
  | describe => exact done_reckons rfl

end World

/-! ## All steps -/

/-- What the first step of a call counts. -/
theorem Call.begin_reckons {s : Shape} (c : Call g s) (w : World g) :
    (c.begin w).Reckons w (c.ends w) c.obtaining := by
  cases c with
  | sleep q ticket => exact w.sleep_reckons q ticket
  | play script => exact w.play_reckons script
  | awaitUnlock i => exact w.awaitUnlock_reckons i
  | lock i => exact w.lock_reckons i
  | lookUp b => exact w.lookUp_reckons b
  | acquire b => exact w.acquire_reckons b
  | obtain b => exact World.call_reckons rfl
  | release h => exact Outcome.ensures_orFault fun i _ => World.call_reckons rfl
  | fetch b => exact World.call_reckons rfl
  | fetchAhead b ahead => exact World.call_reckons rfl
  | readAhead h d ahead => exact w.readAhead_reckons h d ahead
  | settle h => exact World.call_reckons rfl
  | fetchPage d numbers page => exact w.fetchPage_reckons d numbers page
  | gather d numbers held page => exact w.gather_reckons d numbers held page
  | collect held chunks failed page => exact w.collect_reckons held chunks failed page
  | issue op h => exact Outcome.ensures_orFault fun i _ => World.goto_reckons rfl
  | request op i => exact w.request_reckons op i
  | enqueue op i d number => exact w.enqueue_reckons op i d number
  | start m => exact w.start_reckons m
  | serve m => exact w.serve_reckons m
  | flush scope => exact World.goto_reckons rfl
  | flushRounds scope rounds writes => exact w.flushRounds_reckons scope rounds writes
  | flushBuffers scope rounds writes rest =>
    exact w.flushBuffers_reckons scope rounds writes rest
  | discard d => exact World.goto_reckons rfl
  | discardBuffers d rest => exact w.discardBuffers_reckons d rest
  | checkMedium d => exact w.checkMedium_reckons d
  | perform c => exact w.perform_reckons c
  | drain m pattern upcoming ended => exact w.drain_reckons m pattern upcoming ended

/-- What the step of a suspended call counts.  None ends a request. -/
theorem Frame.resume_reckons {a s : Shape} (f : Frame g a s) (v : a.Value g) (w : World g) :
    (f.resume v w).Reckons w none f.obtaining := by
  cases f with
  | pinning b i => exact w.pinned_reckons b i
  | lookingUp b => exact w.lookedUp_reckons b v
  | starving b => exact World.goto_reckons (c := .obtain b) rfl
  | awaitingVictim b i => exact w.victimReady_reckons b i
  | flushingVictim b i => exact World.call_reckons (f := .awaitingVictim b i) rfl
  | releasing h i => exact w.released_reckons i
  | fetching => exact w.fetched_reckons v
  | settling h => exact w.settled_reckons h
  | fetchingFirst d ahead => exact w.firstFetched_reckons d ahead v
  | fetchingAhead h d ahead => exact w.aheadFetched_reckons h d ahead v
  | issuingAhead h t d ahead => exact w.letGo_reckons h t d ahead
  | gathering d numbers held page => exact w.gathered_reckons d numbers held page v
  | collecting h held chunks failed page => exact w.collected_reckons h held chunks failed page
  | locking op i d => exact w.locked_reckons op i d
  | flushAwaiting scope rounds writes i rest =>
    exact w.flushReady_reckons scope rounds writes i rest
  | discardAwaiting d i rest => exact w.discardReady_reckons d i rest
  | keepFound name =>
    cases v with
    | none => exact World.done_reckons rfl
    | some h => exact World.done_reckons rfl
  | keepFetched name =>
    cases v with
    | error f => exact World.done_reckons rfl
    | ok h => exact World.done_reckons rfl
  | guardHold name => exact w.guardHeld_reckons name v
  | guardFetched name =>
    cases v with
    | error f => exact World.done_reckons rfl
    | ok h => exact World.done_reckons rfl
  | filling byte => exact w.fillHeld_reckons byte v
  | touching | mediumAnnouncing _ => exact World.call_reckons rfl
  | unwinding _ | mediumDiscarding | keepHold _ | answering _ | answerFlag | answerPage =>
    exact World.done_reckons rfl
  | sleeping _ _ | playing _ | awaitingUnlock _ | awaitingLock _ | fetchIssuing _
  | issuingFirst _ _ _ | gatherIssuing _ _ _ _ | collected _ _ _ _ | awaitingVacancy _ _ _ _
  | announcing _ _ _ | flushWriting _ _ _ _ => exact World.goto_reckons rfl

namespace Machine

theorem obtaining_next {s : Shape} (n : Next g s) (w : World g) (stack : Stack g s) :
    (n.machine w stack).obtaining = n.obtaining + stack.obtaining := by
  cases n with
  | done v => exact (Nat.zero_add _).symm
  | goto d => rfl
  | call d f => exact (Nat.add_assoc _ _ _).symm

/-- What the next step of a machine counts. -/
theorem Steps.reckons {m m' : Machine g} (h : m.Steps m') :
    m.world.Reckons m.ends m.obtaining m'.obtaining m'.world := by
  cases h with
  | @begin s w w' c n stack hn =>
    obtain ⟨e, hfits, happly, hplain, hends, hbalance⟩ := Call.begin_reckons c w w' n hn
    rw [world_next, obtaining_next]
    refine ⟨e, hfits, happly, hplain, hends, ?_⟩
    change _ = c.obtaining + stack.obtaining + _
    omega
  | @resume a s w w' f v n stack hn =>
    obtain ⟨e, hfits, happly, hplain, hends, hbalance⟩ := Frame.resume_reckons f v w w' n hn
    rw [world_next, obtaining_next]
    refine ⟨e, hfits, happly, hplain, hends, ?_⟩
    change _ = f.obtaining + stack.obtaining + _
    omega

end Machine
end BufferCache
