import BufferCache.Proofs.Flushes
import BufferCache.Proofs.Tending

/-!
# A flush writes what is dirty, once

A flush that is undisturbed queues one write for each buffer that falls under it and is dirty as
the flush is called, in the order of the buffers, and nothing else.  In its first round it comes to
each buffer once, and drivers that it starts on the way make no buffer dirty and lock none.  So in
its second round all that it comes to is clean; there it waits for transfers to end, and as it
does not give way none is under way.

`Cache.Cleaned` says what is done once the first round has been through some of the buffers.  It is
carried through the whole flush by `Sweeping`, which says where the flush has come to.

What a flush leaves is clean and unlocked, so that a second one finds nothing to do.  And as a
flush leaves the changes of other devices as they are, it does not matter to the writes of a device
whether the others are flushed before, or together with it.
-/

namespace BufferCache

variable {g : Geometry}

namespace Cache

/-! ## The writes of a flush -/

/-- Buffer `i` falls under a flush and is dirty. -/
def changed (c : Cache g) (scope : Scope) (i : g.Buffer) : Bool :=
  scope.covers (c.header i).device && (c.header i).dirty

/-- The request to write buffer `i` back. -/
def writeBack (c : Cache g) (i : g.Buffer) : Transfer × g.Buffer :=
  (.ofBlock .write (c.blockOf i), i)

/-- The requests to write back all buffers that fall under a flush and are dirty. -/
def writeBacks (c : Cache g) (scope : Scope) : List (Transfer × g.Buffer) :=
  (g.allBuffers.filter (c.changed scope)).map c.writeBack

/-- From `c` to `c'` there was a flush that queued the requests of the log. -/
structure Flushed (scope : Scope) (log : List (Transfer × g.Buffer)) (c c' : Cache g) : Prop where
  /-- It queued one write for each buffer that fell under it and was dirty. -/
  written : log = c.writeBacks scope
  /-- Each is of the block in its buffer: no buffer without a block is written back. -/
  blocks : ∀ o ∈ log, ∃ b, (c.header o.2).content = some b ∧ o.1 = .ofBlock .write b
  /-- The writes were counted.  No read was. -/
  counted : c'.statistics.writes = c.statistics.writes + log.length ∧
    c'.statistics.reads = c.statistics.reads
  /-- No buffer that falls under the flush is dirty. -/
  clean : ∀ i, scope.covers (c'.header i).device = true → (c'.header i).dirty = false
  /-- Headers are as before, apart from the flags. -/
  unflagged : ∀ i, (c'.header i).unflagged = (c.header i).unflagged
  /-- Other buffers keep their changes. -/
  dirty : ∀ i, scope.covers (c.header i).device = false →
    (c'.header i).dirty = (c.header i).dirty
  /-- They keep all their flags, unless a request that had been waiting for them ended. -/
  others : ∀ i, scope.covers (c.header i).device = false → c'.header i = c.header i ∨
    ∃ k t, c.requests.order? k = some (t, i) ∧ c'.requests.order? k ≠ some (t, i)

/-- What is done from `c` to `c'`, once the first round of a flush has been through the buffers
in `past` and has queued the requests of the log. -/
structure Cleaned (scope : Scope) (past : List g.Buffer) (log : List (Transfer × g.Buffer))
    (c c' : Cache g) : Prop where
  /-- Headers are as before, apart from the flags. -/
  unflagged : ∀ i, (c'.header i).unflagged = (c.header i).unflagged
  /-- What falls under the flush is clean where the round has been, and as before elsewhere.
  What does not is as before. -/
  dirty_iff : ∀ i, (c'.header i).dirty = true ↔ (c.header i).dirty = true ∧
    ¬ (i ∈ past ∧ scope.covers (c.header i).device = true)
  /-- Where it has been, what was dirty is written back. -/
  written : log = (past.filter (c.changed scope)).map c.writeBack
  /-- Each of these buffers holds a block. -/
  blocks : ∀ o ∈ log, (c.header o.2).content ≠ none
  /-- The writes were counted.  No read was. -/
  counted : c'.statistics.writes = c.statistics.writes + log.length ∧
    c'.statistics.reads = c.statistics.reads
  /-- What does not fall under the flush has kept its flags, unless a request for it ended. -/
  others : ∀ i, scope.covers (c.header i).device = false → c'.header i = c.header i ∨
    ∃ k t, c.requests.order? k = some (t, i) ∧ c'.requests.order? k ≠ some (t, i)
  /-- No request for another buffer is queued. -/
  order? : ∀ {k t i}, scope.covers (c.header i).device = false →
    c'.requests.order? k = some (t, i) → c.requests.order? k = some (t, i)

variable {scope : Scope} {past rest : List g.Buffer} {log : List (Transfer × g.Buffer)}
  {c c' c'' : Cache g} {i : g.Buffer}

namespace Cleaned

theorem refl (scope : Scope) (c : Cache g) : c.Cleaned scope [] [] c where
  unflagged _ := rfl
  dirty_iff _ := (and_iff_left fun h => List.not_mem_nil h.1).symm
  written := rfl
  blocks _ ho := absurd ho List.not_mem_nil
  counted := ⟨rfl, rfl⟩
  others _ _ := .inl rfl
  order? _ h := h

theorem blockOf (h : c.Cleaned scope past log c') (i : g.Buffer) : c'.blockOf i = c.blockOf i :=
  blockOf_congr (congrArg Header.content (h.unflagged i) :)

theorem device (h : c.Cleaned scope past log c') (i : g.Buffer) :
    (c'.header i).device = (c.header i).device :=
  congrArg Block.device (h.blockOf i)

/-- What the round has not come to is dirty just if it was. -/
theorem changed_eq (h : c.Cleaned scope past log c') (hi : i ∉ past) :
    c'.changed scope i = c.changed scope i := by
  have hdirty : (c'.header i).dirty = (c.header i).dirty :=
    Bool.eq_iff_iff.mpr ((h.dirty_iff i).trans (and_iff_left fun hpast => hi hpast.1))
  rw [changed, changed, h.device, hdirty]

/-- Drivers that retire requests take nothing back. -/
theorem retires (h : c.Cleaned scope past log c') (hretires : c'.Retires c'') :
    c.Cleaned scope past log c'' where
  unflagged i := (hretires.unflagged i).trans (h.unflagged i)
  dirty_iff i := by
    rw [hretires.dirty]
    exact h.dirty_iff i
  written := h.written
  blocks := h.blocks
  counted := ⟨(hretires.counted .write).trans h.counted.1,
    (hretires.counted .read).trans h.counted.2⟩
  others i hi := by
    rcases h.others i hi with hsame | ⟨k, t, hk, hended⟩
    · rcases hretires.ended i with hsame' | ⟨k, t, hk, hnone⟩
      · exact .inl (hsame'.trans hsame)
      · refine .inr ⟨k, t, h.order? hi hk, ?_⟩
        rw [hnone]
        exact nofun
    · exact .inr ⟨k, t, hk, fun hk' => hended (hretires.order?_eq_some hk')⟩
  order? hi hk := h.order? hi (hretires.order?_eq_some hk)

/-- The round passes over a buffer that does not fall under the flush, or is clean. -/
theorem skip (h : c.Cleaned scope past log c') (hpast : i ∉ past)
    (hi : c'.changed scope i = false) : c.Cleaned scope (past ++ [i]) log c' := by
  rw [h.changed_eq hpast] at hi
  refine { h with dirty_iff := fun j => (h.dirty_iff j).trans ?_, written := ?_ }
  · refine and_congr_right fun hj => not_congr (and_congr_left fun hcovers => ?_)
    rw [List.mem_append, List.mem_singleton]
    refine ⟨.inl, fun hor => hor.resolve_right ?_⟩
    rintro rfl
    rw [changed, hcovers, hj] at hi
    cases hi
  · rw [List.filter_append, List.filter_singleton, hi, h.written]
    exact congrArg _ (List.append_nil _).symm

/-- The round locks a buffer that is dirty and queues its write. -/
theorem write (h : c.Cleaned scope past log c') (hpast : i ∉ past)
    (hi : c'.changed scope i = true) (hcontent : (c'.header i).content ≠ none) (slot : g.Slot) :
    c.Cleaned scope (past ++ [i]) (log ++ [c'.writeBack i])
      ((c'.lock i).enqueue .write i (c'.blockOf i) slot) := by
  have hwritten : c'.writeBack i = c.writeBack i := by
    rw [writeBack, writeBack, h.blockOf]
  have hchanged := (h.changed_eq hpast).symm.trans hi
  obtain ⟨hcovers, -⟩ := Bool.and_eq_true_iff.mp hchanged
  have hheader (j : g.Buffer) : ((c'.lock i).enqueue .write i (c'.blockOf i) slot).header j =
      if i = j then { c'.header j with dirty := false, locked := true } else c'.header j := by
    rw [header_enqueue, header_lock]
    split <;> rfl
  have horder (k : g.Slot) :
      ((c'.lock i).enqueue .write i (c'.blockOf i) slot).requests.order? k =
        if slot = k then some (c'.writeBack i) else c'.requests.order? k :=
    RequestTable.order?_insert ..
  have hother {j : g.Buffer} (hj : scope.covers (c.header j).device = false) : i ≠ j := by
    rintro rfl
    exact Bool.false_ne_true (hj.symm.trans hcovers)
  exact {
    unflagged := fun j => by
      rw [hheader]
      split
      · exact h.unflagged j
      · exact h.unflagged j
    dirty_iff := fun j => by
      rw [hheader, List.mem_append, List.mem_singleton]
      split
      · rename_i hij
        subst hij
        exact iff_of_false Bool.false_ne_true fun hj => hj.2 ⟨.inr rfl, hcovers⟩
      · rename_i hij
        rw [or_iff_left (Ne.symm hij)]
        exact h.dirty_iff j
    written := by
      rw [List.filter_append, List.filter_singleton, hchanged, List.map_append, ← h.written,
        hwritten]
      rfl
    blocks := fun o ho => by
      rcases List.mem_append.mp ho with ho | ho
      · exact h.blocks o ho
      · obtain rfl := List.mem_singleton.mp ho
        have hsame : (c'.header i).content = (c.header i).content :=
          (congrArg Header.content (h.unflagged i) :)
        exact hsame ▸ hcontent
    counted := by
      rw [List.length_append, ← Nat.add_assoc, ← h.counted.1]
      exact ⟨rfl, h.counted.2⟩
    others := fun j hj => by
      rw [hheader, if_neg (hother hj)]
      refine (h.others j hj).imp_right fun ⟨k, t, hk, hended⟩ => ⟨k, t, hk, ?_⟩
      rw [horder]
      split
      · exact fun heq => hother hj (congrArg Prod.snd (Option.some.inj heq))
      · exact hended
    order? := fun {k t j} hj hk => by
      rw [horder] at hk
      split at hk
      · exact absurd (congrArg Prod.snd (Option.some.inj hk)) (hother hj)
      · exact h.order? hj hk }

/-- Once the first round is over, nothing that falls under the flush is dirty. -/
theorem clean (h : c.Cleaned scope g.allBuffers log c')
    (hi : scope.covers (c'.header i).device = true) : (c'.header i).dirty = false := by
  rw [h.device] at hi
  exact Bool.eq_false_iff.mpr fun hdirty =>
    ((h.dirty_iff i).mp hdirty).2 ⟨g.mem_allBuffers i, hi⟩

theorem flushed (h : c.Cleaned scope g.allBuffers log c') : c.Flushed scope log c' where
  written := h.written
  blocks o ho := by
    obtain ⟨b, hb⟩ := Option.ne_none_iff_exists'.mp (h.blocks o ho)
    rw [h.written] at ho
    obtain ⟨i, -, rfl⟩ := List.mem_map.mp ho
    exact ⟨b, hb, congrArg (Transfer.ofBlock .write) (blockOf_eq hb)⟩
  counted := h.counted
  clean _ hi := h.clean hi
  unflagged := h.unflagged
  dirty i hi := Bool.eq_iff_iff.mpr ((h.dirty_iff i).trans
    (and_iff_left fun hcovers => Bool.false_ne_true (hi.symm.trans hcovers.2)))
  others := h.others

end Cleaned

/-! ## Rounds -/

/-- What is done from `c` to `c'` in a flush, with the buffers in `rest` to come in a round, and as
many rounds after it. -/
inductive Round (scope : Scope) (c : Cache g) :
    Nat → List g.Buffer → List (Transfer × g.Buffer) → Cache g → Prop
  | first {past rest : List g.Buffer} {log : List (Transfer × g.Buffer)} {c' : Cache g} :
      past ++ rest = g.allBuffers → c.Cleaned scope past log c' → Round scope c 1 rest log c'
  | second {rest : List g.Buffer} {log : List (Transfer × g.Buffer)} {c' : Cache g} :
      c.Cleaned scope g.allBuffers log c' →
      (∀ i ∉ rest, scope.covers (c'.header i).device = true → (c'.header i).locked = false) →
      Round scope c 0 rest log c'

namespace Round

variable {r : Nat}

theorem retires (h : c.Round scope r rest log c') (hretires : c'.Retires c'') :
    c.Round scope r rest log c'' := by
  cases h with
  | first hall hcleaned => exact .first hall (hcleaned.retires hretires)
  | second hcleaned hunlocked =>
    refine .second (hcleaned.retires hretires) fun i hi hcovers => hretires.unlocked ?_
    refine hunlocked i hi ?_
    rw [hcleaned.device, ← (hcleaned.retires hretires).device]
    exact hcovers

/-- What is still to come was not there before. -/
theorem notMem_of_append (h : past ++ i :: rest = g.allBuffers) : i ∉ past := by
  have hnodup : (past ++ i :: rest).Nodup := h ▸ List.nodup_finRange g.buffers
  exact fun hi => (List.nodup_append.mp hnodup).2.2 i hi i List.mem_cons_self rfl

theorem skip (h : c.Round scope r (i :: rest) log c') (hi : c'.changed scope i = false)
    (hunlocked : scope.covers (c'.header i).device = true → (c'.header i).locked = false) :
    c.Round scope r rest log c' := by
  cases h with
  | @first past _ _ _ hall hcleaned =>
    refine .first ?_ (hcleaned.skip (notMem_of_append hall) hi)
    rw [List.append_assoc]
    exact hall
  | second hcleaned hrest =>
    refine .second hcleaned fun j hj hcovers => ?_
    by_cases hji : j = i
    · subst hji
      exact hunlocked hcovers
    · exact hrest j (fun hmem => (List.mem_cons.mp hmem).elim hji hj) hcovers

theorem write (h : c.Round scope r (i :: rest) log c') (hi : c'.changed scope i = true)
    (hcontent : (c'.header i).content ≠ none) (slot : g.Slot) :
    c.Round scope r rest (log ++ [c'.writeBack i])
      ((c'.lock i).enqueue .write i (c'.blockOf i) slot) := by
  cases h with
  | first hall hcleaned =>
    refine .first ?_ (hcleaned.write (notMem_of_append hall) hi hcontent slot)
    rw [List.append_assoc]
    exact hall
  | second hcleaned _ =>
    -- In the second round nothing is dirty.
    obtain ⟨hcovers, hdirty⟩ := Bool.and_eq_true_iff.mp hi
    exact absurd (hcleaned.clean hcovers) (Bool.not_eq_false _ ▸ hdirty)

end Round

end Cache

/-! ## Writing one buffer -/

/-- A write of a dirty buffer that is locked is queued, and its driver started if need be, or it
waits for a slot. -/
theorem World.locked_writes {w : World g} {i : g.Buffer} (hdirty : (w.cache.header i).dirty = true)
    (d : DeviceNumber) : (w.locked .write i d).Ensures fun w' next =>
      (∃ slot, w.cache.requests.freeSlot .write = some slot ∧
        w'.cache = w.cache.enqueue .write i ⟨d, (w.cache.header i).number⟩ slot ∧
          (next = .done () ∨ next = .goto (.start d.major))) ∨
      ∃ f, next = .call (.sleep .vacancy (w'.cache.queue .vacancy).ticket) f := by
  have hneeded : needless .write (w.cache.header i) = false := by
    rw [needless, hdirty]
    rfl
  unfold World.locked
  rw [hneeded, if_neg Bool.false_ne_true]
  unfold World.enqueue
  split
  · rename_i slot hslot
    unfold World.file
    dsimp only
    split
    · exact Outcome.ensures_goto (.inl ⟨slot, hslot, rfl, .inr rfl⟩)
    · exact Outcome.ensures_done (.inl ⟨slot, hslot, rfl, .inl rfl⟩)
  · exact Outcome.ensures_call (.inr ⟨_, rfl⟩)

/-- A buffer for which an operation can be started holds a block. -/
theorem World.content_of_request {w w' : World g} {op : Operation} {i : g.Buffer}
    {next : Next g .unit} (hzero : w.cache.driver? 0 = none)
    (h : w.request op i = .ok (w', next)) : (w.cache.header i).content ≠ none := by
  intro hnone
  have hdevice : (w.cache.header i).device.major = 0 := by
    rw [Header.device, hnone]
    rfl
  unfold World.request at h
  dsimp only at h
  rw [hdevice, hzero] at h
  cases h

/-- Nothing is left to do for a flush: what falls under it is clean, and no transfer of it is
under way. -/
def Cache.Clean (scope : Scope) (c : Cache g) : Prop :=
  ∀ i, scope.covers (c.header i).device = true →
    (c.header i).dirty = false ∧ (c.header i).locked = false

namespace Machine

/-! ## Where a flush has come to -/

section Sweeping

variable (scope : Scope) (c : Cache g) (base : Stack g .unit)

/-- Where a flush above `base` that began with the cache `c` has come to, with the requests of the
log queued. -/
inductive Sweeping : List (Transfer × g.Buffer) → Machine g → Prop
  | rounds {w : World g} {r writes : Nat} {log : List (Transfer × g.Buffer)} :
      c.Round scope r g.allBuffers log w.cache →
      Sweeping log ⟨w, .unit, .run (.flushRounds scope (r + 1) writes), base⟩
  | announcing {n : Machine g} {r writes : Nat} {log : List (Transfer × g.Buffer)} :
      Tending (.push (.announcing scope r writes) base) n →
      c.Round scope r g.allBuffers log n.world.cache → Sweeping log n
  | buffers {w : World g} {r writes : Nat} {rest : List g.Buffer}
      {log : List (Transfer × g.Buffer)} : c.Round scope r rest log w.cache →
      Sweeping log ⟨w, .unit, .run (.flushBuffers scope r writes rest), base⟩
  | awaiting {w : World g} {r writes : Nat} {i : g.Buffer} {rest : List g.Buffer}
      {log : List (Transfer × g.Buffer)} : c.Round scope r (i :: rest) log w.cache →
      Sweeping log
        ⟨w, .unit, .run (.awaitUnlock i), .push (.flushAwaiting scope r writes i rest) base⟩
  | ready {w : World g} {v : Unit} {r writes : Nat} {i : g.Buffer} {rest : List g.Buffer}
      {log : List (Transfer × g.Buffer)} : c.Round scope r (i :: rest) log w.cache →
      (w.cache.header i).locked = false →
      Sweeping log ⟨w, .unit, .give v, .push (.flushAwaiting scope r writes i rest) base⟩
  | request {w : World g} {r writes : Nat} {i : g.Buffer} {rest : List g.Buffer}
      {log : List (Transfer × g.Buffer)} : c.Round scope r (i :: rest) log w.cache →
      w.cache.changed scope i = true →
      Sweeping log
        ⟨w, .unit, .run (.request .write i), .push (.flushWriting scope r writes rest) base⟩
  | lock {w : World g} {r writes : Nat} {i : g.Buffer} {rest : List g.Buffer}
      {log : List (Transfer × g.Buffer)} : c.Round scope r (i :: rest) log w.cache →
      w.cache.changed scope i = true → (w.cache.header i).content ≠ none →
      Sweeping log ⟨w, .unit, .run (.lock i), .push (.locking .write i (w.cache.header i).device)
        (.push (.flushWriting scope r writes rest) base)⟩
  | locked {w : World g} {v : Unit} {c' : Cache g} {r writes : Nat} {i : g.Buffer}
      {rest : List g.Buffer} {log : List (Transfer × g.Buffer)} :
      c.Round scope r (i :: rest) log c' → c'.changed scope i = true →
      (c'.header i).content ≠ none → w.cache = c'.lock i →
      Sweeping log ⟨w, .unit, .give v, .push (.locking .write i (c'.header i).device)
        (.push (.flushWriting scope r writes rest) base)⟩
  | writing {n : Machine g} {r writes : Nat} {rest : List g.Buffer}
      {log : List (Transfer × g.Buffer)} :
      Tending (.push (.flushWriting scope r writes rest) base) n →
      c.Round scope r rest log n.world.cache → Sweeping log n
  | asleep {n : Machine g} {log : List (Transfer × g.Buffer)} : n.GivesWay → Sweeping log n
  | ends {w : World g} {writes : Nat} {log : List (Transfer × g.Buffer)} :
      c.Round scope 0 [] log w.cache →
      Sweeping log ⟨w, .unit, .run (.flushRounds scope 0 writes), base⟩
  | returned {w : World g} {v : Unit} {log : List (Transfer × g.Buffer)} :
      c.Round scope 0 [] log w.cache → Sweeping log ⟨w, .unit, .give v, base⟩

end Sweeping

variable {scope : Scope} {c : Cache g} {base : Stack g .unit} {log : List (Transfer × g.Buffer)}
  {m n n' : Machine g} {r writes : Nat} {i : g.Buffer} {rest : List g.Buffer}

/-- A wait with a new ticket gives way. -/
theorem givesWay_sleepIn {w : World g} {q : Queue g} {stack : Stack g .unit} :
    GivesWay ⟨w, .unit, .run (.sleep q (w.cache.queue q).ticket), stack⟩ :=
  WaitQueue.holds_ticket _

/-- A step that leaves the requests alone adds nothing to the log. -/
theorem Sweeping.of_requests {c' c'' : Cache g} (h : Sweeping scope c base log n)
    (hrequests : c''.requests = c'.requests) :
    Sweeping scope c base (log ++ c'.filings c'') n := by
  rw [Cache.filings_of_requests hrequests, List.append_nil]
  exact h

theorem Sweeping.flushBuffers {w : World g} (h : c.Round scope r rest log w.cache)
    (hmove : Moves ⟨w, .unit, .run (.flushBuffers scope r writes rest), base⟩ n) :
    Sweeping scope c base (log ++ w.cache.filings n.world.cache) n := by
  obtain ⟨w', next, hnext, rfl⟩ := moves_of_run hmove
  change w.flushBuffers scope r writes rest = _ at hnext
  cases rest with
  | nil =>
    cases hnext
    refine .of_requests ?_ rfl
    cases h with
    | first hall hcleaned =>
      rw [List.append_nil] at hall
      subst hall
      exact .rounds (.second hcleaned fun i hi => absurd (g.mem_allBuffers i) hi)
    | second hcleaned hunlocked => exact .ends (.second hcleaned hunlocked)
  | cons i rest =>
    rw [World.flushBuffers] at hnext
    split at hnext
    · cases hnext
      exact .of_requests (.awaiting h) rfl
    · rename_i hcovers
      cases hnext
      refine .of_requests (.buffers (h.skip ?_ fun hi => absurd hi hcovers)) rfl
      rw [Cache.changed, Bool.eq_false_of_not_eq_true hcovers]
      rfl

theorem Sweeping.flushReady {w : World g} {v : Unit}
    (h : c.Round scope r (i :: rest) log w.cache) (hunlocked : (w.cache.header i).locked = false)
    (hmove : Moves ⟨w, .unit, .give v, .push (.flushAwaiting scope r writes i rest) base⟩ n) :
    Sweeping scope c base (log ++ w.cache.filings n.world.cache) n := by
  obtain ⟨w', next, hnext, rfl⟩ := moves_of_give hmove
  change w.flushReady scope r writes i rest = _ at hnext
  unfold World.flushReady at hnext
  dsimp only at hnext
  split at hnext
  · rename_i hchanged
    cases hnext
    exact .of_requests (.request h hchanged) rfl
  · rename_i hchanged
    cases hnext
    exact .of_requests (.buffers (h.skip (Bool.eq_false_of_not_eq_true hchanged)
      fun _ => hunlocked)) rfl

/-- The write of a buffer that was locked for it is queued. -/
theorem Sweeping.queues {w : World g} {v : Unit} {c' : Cache g}
    (h : c.Round scope r (i :: rest) log c') (hchanged : c'.changed scope i = true)
    (hcontent : (c'.header i).content ≠ none) (hw : w.cache = c'.lock i)
    (hmove : Moves ⟨w, .unit, .give v, .push (.locking .write i (c'.header i).device)
      (.push (.flushWriting scope r writes rest) base)⟩ n) :
    Sweeping scope c base (log ++ w.cache.filings n.world.cache) n := by
  obtain ⟨w', next, hnext, rfl⟩ := moves_of_give hmove
  have hheader : (c'.lock i).header i = { c'.header i with locked := true } := by
    rw [Cache.header_lock, if_pos rfl]
  have hdirty : (w.cache.header i).dirty = true := by
    rw [hw, hheader]
    exact (Bool.and_eq_true_iff.mp hchanged).2
  rcases World.locked_writes hdirty (c'.header i).device w' next hnext with
    ⟨slot, hslot, hcache, hdone⟩ | ⟨f, rfl⟩
  · have hnumber : (w.cache.header i).number = (c'.header i).number := by
      rw [hw, hheader]
      rfl
    have hfree : c'.requests.order? slot = none := by
      rw [hw] at hslot
      exact (RequestTable.order?_eq_none_iff _ _).mpr (RequestTable.freeSlot_eq_some hslot).1
    rw [hnumber, hw] at hcache
    have hround := h.write hchanged hcontent slot
    have hlog : w.cache.filings w'.cache = [c'.writeBack i] := by
      rw [hw, hcache]
      exact Cache.filings_enqueue (c := c'.lock i) .write i (c'.blockOf i) hfree
    rw [world_next, hlog]
    change w'.cache = (c'.lock i).enqueue .write i (c'.blockOf i) slot at hcache
    rw [← hcache] at hround
    rcases hdone with rfl | rfl
    · exact .writing .finished hround
    · exact .writing (.driving trivial) hround
  · exact .asleep givesWay_sleepIn

/-- A move within a flush that is undisturbed goes on with it. -/
theorem Sweeping.moves (h : Sweeping scope c base log n) (hn : n.Reachable)
    (hon : n.Unbroken base) (hmove : n.Moves n') :
    Sweeping scope c base (log ++ n.world.cache.filings n'.world.cache) n' := by
  obtain ⟨hover, hundisturbed⟩ := hon
  -- What drivers do above a frame of the flush.
  have htending {a : Stack g .unit} (ht : Tending a n) (hreturned : ¬ n.Returned a)
      (hgoes : Tending a n' → n.world.cache.Retires n'.world.cache →
        Sweeping scope c base log n') :
      Sweeping scope c base (log ++ n.world.cache.filings n'.world.cache) n' := by
    obtain ⟨ht', hretires⟩ := ht.moves hundisturbed hreturned hmove
    rw [hretires.filings_eq_nil, List.append_nil]
    exact hgoes ht' hretires
  cases h with
  | @rounds w r writes _ hround =>
    obtain ⟨w', next, hnext, rfl⟩ := moves_of_run hmove
    cases hnext
    have hcache := w.cache_takeFlush
    refine .of_requests (.announcing (.driving trivial) ?_) (congrArg Cache.requests hcache)
    change c.Round scope r g.allBuffers log w.takeFlush.2.cache
    rw [hcache]
    exact hround
  | @announcing _ r writes _ ht hround =>
    by_cases hreturned : n.Returned (.push (.announcing scope r writes) base)
    · obtain ⟨w, v, w', next, rfl, hnext, rfl⟩ := moves_of_returned hreturned hmove
      cases hnext
      exact .of_requests (.buffers hround) rfl
    · exact htending ht hreturned fun ht' hretires => .announcing ht' (hround.retires hretires)
  | buffers hround => exact .flushBuffers hround hmove
  | @awaiting w r writes i rest _ hround =>
    obtain ⟨w', next, hnext, rfl⟩ := moves_of_run hmove
    change w.awaitUnlock i = _ at hnext
    unfold World.awaitUnlock at hnext
    split at hnext
    · cases hnext
      exact .asleep givesWay_sleepIn
    · rename_i hlocked
      cases hnext
      exact .of_requests (.ready hround (Bool.eq_false_of_not_eq_true hlocked)) rfl
  | ready hround hunlocked => exact .flushReady hround hunlocked hmove
  | @request w r writes i rest _ hround hchanged =>
    obtain ⟨w', next, hnext, rfl⟩ := moves_of_run hmove
    have hcontent := World.content_of_request hn.driver?_zero hnext
    change w.request .write i = _ at hnext
    unfold World.request at hnext
    dsimp only at hnext
    split at hnext
    · cases hnext
    · cases hnext
      exact .of_requests (.lock hround hchanged hcontent) rfl
  | @lock w r writes i rest _ hround hchanged hcontent =>
    obtain ⟨w', next, hnext, rfl⟩ := moves_of_run hmove
    change w.lock i = _ at hnext
    unfold World.lock at hnext
    split at hnext
    · cases hnext
      exact .asleep givesWay_sleepIn
    · cases hnext
      exact .of_requests (.locked hround hchanged hcontent rfl) rfl
  | locked hround hchanged hcontent hw => exact .queues hround hchanged hcontent hw hmove
  | @writing _ r writes rest _ ht hround =>
    by_cases hreturned : n.Returned (.push (.flushWriting scope r writes rest) base)
    · obtain ⟨w, v, w', next, rfl, hnext, rfl⟩ := moves_of_returned hreturned hmove
      cases hnext
      exact .of_requests (.buffers hround) rfl
    · exact htending ht hreturned fun ht' hretires => .writing ht' (hround.retires hretires)
  | asleep hway => exact absurd hway hundisturbed.not_givesWay
  | ends hround =>
    obtain ⟨w', next, hnext, rfl⟩ := moves_of_run hmove
    cases hnext
    exact .of_requests (.returned hround) rfl
  | returned hround => exact absurd ⟨_, _, rfl⟩ hover

/-- A flush that is undisturbed has gone through both rounds when it is over. -/
theorem Sweeping.of_returned (h : Sweeping scope c base log n) (hover : n.Returned base) :
    c.Round scope 0 [] log n.world.cache := by
  obtain ⟨w, v, rfl⟩ := hover
  cases h with
  | announcing ht _ => exact absurd ht.beneath (Stack.not_push_beneath _ _)
  | writing ht _ => exact absurd ht.beneath (Stack.not_push_beneath _ _)
  | asleep hway => exact hway.elim
  | returned hround => exact hround

/-- Where an undisturbed flush that began with the cache of `w` has come to. -/
theorem Sweeping.of_logs {w : World g} (h : Reachable ⟨w, .unit, .run (.flush scope), base⟩)
    (hlogs : Logs (Unbroken base) ⟨w, .unit, .run (.flush scope), base⟩ log n) :
    log = [] ∧ n = ⟨w, .unit, .run (.flush scope), base⟩ ∨
      Sweeping scope w.cache base log n := by
  induction hlogs with
  | refl => exact .inl ⟨rfl, rfl⟩
  | @tail log a b hpath hon hmove ih =>
    refine .inr ?_
    rcases ih with ⟨rfl, rfl⟩ | hsweeping
    · obtain ⟨w', next, hnext, rfl⟩ := moves_of_run hmove
      cases hnext
      exact .of_requests (.rounds (.first (List.nil_append _) (.refl scope w.cache))) rfl
    · exact hsweeping.moves (h.leads hpath.leads) hon hmove

theorem round_of_logs {w : World g} (h : Reachable ⟨w, .unit, .run (.flush scope), base⟩)
    (hlogs : Logs (Unbroken base) ⟨w, .unit, .run (.flush scope), base⟩ log n)
    (hover : n.Returned base) : w.cache.Round scope 0 [] log n.world.cache := by
  rcases Sweeping.of_logs h hlogs with ⟨-, rfl⟩ | hsweeping
  · exact absurd hover not_returned_run
  · exact hsweeping.of_returned hover

/-! ## A second flush -/

section Again

variable {a : Shape} {w w' : World g}

/-- A call that is quiet, and in its first step leaves the cache alone. -/
theorem logs_begin {s : Shape} {d : Call g a} {next : Next g a} {stack : Stack g a}
    {base : Stack g s} (hquiet : d.quiet w = true) (hnext : d.begin w = .ok (w', next))
    (hcache : w'.cache = w.cache) :
    Logs (Unbroken base) ⟨w, a, .run d, stack⟩ [] (next.machine w' stack) :=
  .single ⟨not_returned_run, hquiet⟩ (.step (.begin stack hnext)) (by rw [world_next, hcache])

/-- A suspended call that is given its value, and leaves the cache alone. -/
theorem logs_resume {f : Frame g a .unit} {v : a.Value g} {next : Next g .unit}
    (hnext : f.resume v w = .ok (w', next)) (hcache : w'.cache = w.cache) :
    Logs (Unbroken base) ⟨w, a, .give v, .push f base⟩ [] (next.machine w' base) :=
  .single ⟨not_returned_of_beneath .here, trivial⟩ (.step (.resume base hnext))
    (by rw [world_next, hcache])

/-- A round that finds nothing to do goes over all its buffers. -/
theorem logs_flushBuffers (hclean : w.cache.Clean scope) (r writes : Nat)
    (rest : List g.Buffer) : Logs (Unbroken base)
      ⟨w, .unit, .run (.flushBuffers scope r writes rest), base⟩ []
      ⟨w, .unit, .run (.flushRounds scope r writes), base⟩ := by
  induction rest with
  | nil =>
    have hbegin : (Call.flushBuffers scope r writes []).begin w =
        w.goto (.flushRounds scope r writes) := rfl
    exact logs_begin rfl hbegin rfl
  | cons i rest ih =>
    have hbegin : (Call.flushBuffers scope r writes (i :: rest)).begin w =
        if scope.covers (w.cache.header i).device then
          w.call (.awaitUnlock i) (.flushAwaiting scope r writes i rest)
        else w.goto (.flushBuffers scope r writes rest) := rfl
    by_cases hcovers : scope.covers (w.cache.header i).device = true
    · obtain ⟨hdirty, hunlocked⟩ := hclean i hcovers
      rw [if_pos hcovers] at hbegin
      have hawait : (Call.awaitUnlock i).begin w = .ok (w, .done ()) := by
        change w.awaitUnlock i = _
        rw [World.awaitUnlock, hunlocked, if_neg Bool.false_ne_true]
        rfl
      have hready : (Frame.flushAwaiting scope r writes i rest).resume () w =
          w.goto (.flushBuffers scope r writes rest) := by
        change w.flushReady scope r writes i rest = _
        simp only [World.flushReady, hdirty, Bool.and_false, if_neg Bool.false_ne_true]
      have hunlocks : Logs (Unbroken base)
          ⟨w, .unit, .run (.flushBuffers scope r writes (i :: rest)), base⟩ []
          ⟨w, .unit, .give (), .push (.flushAwaiting scope r writes i rest) base⟩ :=
        (logs_begin rfl hbegin rfl).trans (logs_begin rfl hawait rfl)
      exact (hunlocks.trans (logs_resume hready rfl)).trans ih
    · rw [if_neg hcovers] at hbegin
      exact (logs_begin rfl hbegin rfl).trans ih

/-- Rounds that find nothing to do, if those who listen to flushes do nothing either. -/
theorem exists_logs_flushRounds (hsilent : w.Silent) (hclean : w.cache.Clean scope)
    (r writes : Nat) : ∃ w' : World g, Logs (Unbroken base)
      ⟨w, .unit, .run (.flushRounds scope r writes), base⟩ [] ⟨w', .unit, .give (), base⟩ ∧
        w'.cache = w.cache := by
  induction r generalizing w writes with
  | zero =>
    have hbegin : (Call.flushRounds scope 0 writes).begin w =
        .ok (w.note (.flushed scope writes), .done ()) := rfl
    exact ⟨_, logs_begin rfl hbegin rfl, rfl⟩
  | succ r ih =>
    obtain ⟨hscript, hlater⟩ := hsilent.takeFlush
    have hcache := w.cache_takeFlush
    have hbegin : (Call.flushRounds scope (r + 1) writes).begin w =
        w.takeFlush.2.call (.play w.takeFlush.1) (.announcing scope r writes) := rfl
    rw [hscript] at hbegin
    have hplay : (Call.play []).begin w.takeFlush.2 = .ok (w.takeFlush.2, .done ()) := rfl
    have hround : (Frame.announcing scope r writes).resume () w.takeFlush.2 =
        w.takeFlush.2.goto (.flushBuffers scope r writes g.allBuffers) := rfl
    have hannounced : Logs (Unbroken base)
        ⟨w, .unit, .run (.flushRounds scope (r + 1) writes), base⟩ []
        ⟨w.takeFlush.2, .unit, .give (), .push (.announcing scope r writes) base⟩ :=
      (logs_begin rfl hbegin hcache).trans (logs_begin rfl hplay rfl)
    rw [← hcache] at hclean
    obtain ⟨w', hrest, hsame⟩ := ih hlater hclean writes
    exact ⟨w', ((hannounced.trans (logs_resume hround rfl)).trans
      (logs_flushBuffers hclean r writes g.allBuffers)).trans hrest, hsame.trans hcache⟩

/-- A flush that finds nothing to do comes to its end and queues nothing. -/
theorem exists_logs_flush (hsilent : w.Silent) (hclean : w.cache.Clean scope)
    (base : Stack g .unit) : ∃ n, Logs (Unbroken base)
      ⟨w, .unit, .run (.flush scope), base⟩ [] n ∧ n.Returned base ∧ n.world.cache = w.cache := by
  obtain ⟨w', hrounds, hcache⟩ : ∃ w' : World g, Logs (Unbroken base)
      ⟨w, .unit, .run (.flushRounds scope World.flushRoundCount 0), base⟩ []
      ⟨w', .unit, .give (), base⟩ ∧ w'.cache = w.cache :=
    exists_logs_flushRounds hsilent hclean _ _
  have hbegin : (Call.flush scope).begin w =
      w.goto (.flushRounds scope World.flushRoundCount 0) := rfl
  exact ⟨_, (logs_begin rfl hbegin rfl).trans hrounds, ⟨w', (), rfl⟩, hcache⟩

end Again

end Machine

/-! ## Flushes one after the other -/

namespace Cache

variable {scope : Scope} {log : List (Transfer × g.Buffer)} {c c' : Cache g}

theorem Round.clean (h : c.Round scope 0 [] log c') : c'.Clean scope := by
  cases h with
  | second hcleaned hunlocked =>
    exact fun i hi => ⟨hcleaned.clean hi, hunlocked i List.not_mem_nil hi⟩

theorem Round.flushed (h : c.Round scope 0 [] log c') : c.Flushed scope log c' := by
  cases h with
  | second hcleaned _ => exact hcleaned.flushed

/-- What is to be written for a device after a flush is what was to be written before, unless
that was written. -/
theorem Flushed.writeBacks (h : c.Flushed scope log c') (d : DeviceNumber) :
    c'.writeBacks (.device d) = if scope.covers d then [] else c.writeBacks (.device d) := by
  have hblock (i : g.Buffer) : c'.blockOf i = c.blockOf i :=
    blockOf_congr (congrArg Header.content (h.unflagged i) :)
  have hdevice (i : g.Buffer) : (c'.header i).device = (c.header i).device :=
    congrArg Block.device (hblock i)
  split
  · rename_i hcovers
    refine List.map_eq_nil_iff.mpr (List.filter_eq_nil_iff.mpr fun i _ hchanged => ?_)
    obtain ⟨hd, hdirty⟩ := Bool.and_eq_true_iff.mp hchanged
    rw [← beq_iff_eq.mp hd] at hcovers
    exact Bool.false_ne_true ((h.clean i hcovers).symm.trans hdirty)
  · rename_i hcovers
    have hchanged (i : g.Buffer) : c'.changed (.device d) i = c.changed (.device d) i := by
      rw [changed, changed, hdevice]
      by_cases hd : (c.header i).device = d
      · rw [h.dirty i (hd ▸ Bool.eq_false_of_not_eq_true hcovers)]
      · have hother : (Scope.device d).covers (c.header i).device = false := beq_eq_false_iff_ne.mpr hd
        rw [hother, Bool.false_and, Bool.false_and]
    have hwrite (i : g.Buffer) : c'.writeBack i = c.writeBack i := by
      rw [writeBack, writeBack, hblock]
    rw [Cache.writeBacks, Cache.writeBacks, funext hchanged, funext hwrite]

/-- Of the writes for all devices, those for one of them are the writes for that device. -/
theorem filter_writeBacks {d : DeviceNumber} (hd : d ≠ 0) :
    (c.writeBacks .everything).filter (fun o => decide (o.1.device = d)) =
      c.writeBacks (.device d) := by
  rw [writeBacks, writeBacks, List.filter_map, List.filter_filter]
  refine congrArg _ (List.filter_congr fun i _ => ?_)
  by_cases h : (c.header i).device = d
  · simp [changed, writeBack, Scope.covers, blockOf, Transfer.ofBlock, h, hd]
  · simp [changed, writeBack, Scope.covers, blockOf, Transfer.ofBlock, h]

end Cache

namespace Machine

variable {m n : Machine g}

/-- How flushes go that are undisturbed. -/
structure FlushesExactly (m : Machine g) : Prop where
  /-- A flush that comes to its end queues just the writes of the buffers that fall under it and
  are dirty when it is called.  Then these are clean.  Other buffers keep their changes, and all
  their flags unless a request ends that had been waiting for them. -/
  flushed : ∀ {w scope n log} {base : Stack g .unit}, m = ⟨w, .unit, .run (.flush scope), base⟩ →
    Logs (Unbroken base) m log n → n.Returned base → w.cache.Flushed scope log n.world.cache
  /-- If those who listen to flushes have nothing to do, a second one then comes to its end too.
  It queues nothing, and leaves the cache as it is. -/
  again : ∀ {w scope n log} {base : Stack g .unit}, m = ⟨w, .unit, .run (.flush scope), base⟩ →
    Logs (Unbroken base) m log n → n.Returned base → ∀ {w'} (base' : Stack g .unit),
      w'.cache = n.world.cache → w'.Silent → ∃ n', Logs (Unbroken base')
        ⟨w', .unit, .run (.flush scope), base'⟩ [] n' ∧ n'.Returned base' ∧
          n'.world.cache = w'.cache
  /-- A flush of a device then queues what it would have queued before, or nothing if the device
  was flushed. -/
  inTurn : ∀ {w scope n log} {base : Stack g .unit}, m = ⟨w, .unit, .run (.flush scope), base⟩ →
    Logs (Unbroken base) m log n → n.Returned base → ∀ {w' d n' log'} {base' : Stack g .unit},
      Reachable ⟨w', .unit, .run (.flush (.device d)), base'⟩ → w'.cache = n.world.cache →
        Logs (Unbroken base') ⟨w', .unit, .run (.flush (.device d)), base'⟩ log' n' →
          n'.Returned base' →
            log' = if scope.covers d then [] else w.cache.writeBacks (.device d)
  /-- A flush of all devices queues, for each device, what a flush of that device queues with the
  same cache. -/
  devices : ∀ {w n log} {base : Stack g .unit}, m = ⟨w, .unit, .run (.flush .everything), base⟩ →
    Logs (Unbroken base) m log n → n.Returned base → ∀ {w' d n' log'} {base' : Stack g .unit},
      Reachable ⟨w', .unit, .run (.flush (.device d)), base'⟩ → w'.cache = w.cache →
        Logs (Unbroken base') ⟨w', .unit, .run (.flush (.device d)), base'⟩ log' n' →
          n'.Returned base' → log' = log.filter fun o => decide (o.1.device = d)

/-- In every session, a flush that is undisturbed writes what is dirty, once, and nothing else. -/
theorem Reachable.flushesExactly (h : m.Reachable) : m.FlushesExactly where
  flushed := by
    rintro w scope n log base rfl hlogs hover
    exact (round_of_logs h hlogs hover).flushed
  again := by
    rintro w scope n log base rfl hlogs hover w' base' hcache hsilent
    refine exists_logs_flush hsilent ?_ base'
    rw [hcache]
    exact (round_of_logs h hlogs hover).clean
  inTurn := by
    rintro w scope n log base rfl hlogs hover w' d n' log' base' h' hcache hlogs' hover'
    have hflushed := (round_of_logs h hlogs hover).flushed
    rw [(round_of_logs h' hlogs' hover').flushed.written, hcache]
    exact hflushed.writeBacks d
  devices := by
    rintro w n log base rfl hlogs hover w' d n' log' base' h' hcache hlogs' hover'
    have hflushed := (round_of_logs h hlogs hover).flushed
    have hflushed' := (round_of_logs h' hlogs' hover').flushed
    rw [hcache] at hflushed'
    by_cases hd : d = 0
    · -- No block is on this device.
      subst hd
      have hother {o : Transfer × g.Buffer} {b : Block}
          (hb : (w.cache.header o.2).content = some b) (ho : o.1 = .ofBlock .write b) :
          o.1.device ≠ 0 := by
        rw [ho]
        exact h.chained.named trivial hb
      have hnone : log' = [] := List.eq_nil_iff_forall_not_mem.mpr fun o ho => by
        obtain ⟨b, hb, htransfer⟩ := hflushed'.blocks o ho
        rw [hflushed'.written] at ho
        obtain ⟨i, hi, rfl⟩ := List.mem_map.mp ho
        have hcovers := (Bool.and_eq_true_iff.mp (List.mem_filter.mp hi).2).1
        exact hother hb htransfer (beq_iff_eq.mp hcovers)
      rw [hnone]
      refine (List.filter_eq_nil_iff.mpr fun o ho => ?_).symm
      obtain ⟨b, hb, htransfer⟩ := hflushed.blocks o ho
      rw [decide_eq_true_iff]
      exact hother hb htransfer
    · rw [hflushed.written, hflushed'.written]
      exact (Cache.filter_writeBacks hd).symm

/-! ## A flush of one device -/

/-- The calls that are suspended when a flush that a client asked for begins. -/
def commandBase (g : Geometry) : Stack g .unit :=
  .push (.answering .done) .bottom

/-- A value is about to be handed to a call that answers a command. -/
def answers : Machine g → Bool
  | ⟨_, _, .give _, .push (.answering _) _⟩ => true
  | _ => false

theorem answers_of_returned (h : m.Returned (commandBase g)) : m.answers = true := by
  obtain ⟨w, v, rfl⟩ := h
  rfl

/-- Two drivers.  The first ends requests of the second when it is started, and then its own.  A
read was submitted to the second, and a block of the first was marked as changed; the device of
that block is about to be flushed. -/
def flushedBeside : Machine Geometry.small :=
  let registered := ((start ((World.initial Geometry.small).fresh [])
    (.register 1 ⟨1, .manual []⟩ [[.finish 2 true, .finish 1 true]])).after 20).commanded 20
      [.register 2 ⟨2, .manual []⟩ []]
  let submitted := registered.commanded 20 [.acquire ⟨513, 5⟩ (some "o"), .issue .read "o"]
  let marked := submitted.commanded 20 [.acquire ⟨257, 3⟩ (some "h"), .markDirty "h"]
  (marked.next [] (.flush (.device 257))).after 1

theorem reachable_flushedBeside : flushedBeside.Reachable :=
  have marked := (((reachable_start [] _).after 20).commanded 20 _).commanded 20 _
  ((marked.commanded 20 _).next [] _).after 1

/-- The flush is undisturbed. -/
theorem exists_log_flushedBeside : ∃ log,
    Logs (Unbroken (commandBase _)) flushedBeside log (flushedBeside.after 30) := by
  have hsteps : ∀ k < 30, (flushedBeside.after k).answers = false ∧
      (flushedBeside.after k).Undisturbed := by decide
  exact (leads_after_of fun k hk =>
    ⟨fun h => Bool.false_ne_true ((hsteps k hk).1.symm.trans (answers_of_returned h)),
      (hsteps k hk).2⟩).exists_log

theorem returned_flushedBeside : (flushedBeside.after 30).Returned (commandBase _) :=
  ⟨_, (), rfl⟩

/-- The block that was marked is written, and no other. -/
theorem flushed_of_beside : ∃ log n, flushedBeside.Reachable ∧
    Logs (Unbroken (commandBase _)) flushedBeside log n ∧ n.Returned (commandBase _) ∧
    log = [(⟨.write, 257, 6, 2⟩, ⟨1, by decide⟩)] ∧
    flushedBeside.world.cache.Flushed (.device 257) log n.world.cache := by
  have h := reachable_flushedBeside
  obtain ⟨log, hlogs⟩ := exists_log_flushedBeside
  have hflushed := h.flushesExactly.flushed (w := flushedBeside.world) rfl hlogs returned_flushedBeside
  have hwritten : flushedBeside.world.cache.writeBacks (.device 257) =
      [(⟨.write, 257, 6, 2⟩, ⟨1, by decide⟩)] := by decide
  exact ⟨log, _, h, hlogs, returned_flushedBeside, hflushed.written.trans hwritten, hflushed⟩

/-- The read for the other device ends while the first one is flushed, and the buffer of that read
becomes valid. -/
theorem valid_of_flush_beside : ¬ ∀ (m n : Machine Geometry.small) (w : World Geometry.small)
    (d : DeviceNumber) (base : Stack Geometry.small .unit)
    (log : List (Transfer × Geometry.small.Buffer)), m.Reachable →
      m = ⟨w, .unit, .run (.flush (.device d)), base⟩ → Logs (Unbroken base) m log n →
        n.Returned base → ∀ i, (w.cache.header i).device ≠ d →
          (n.world.cache.header i).valid = (w.cache.header i).valid := by
  intro h
  obtain ⟨log, hlogs⟩ := exists_log_flushedBeside
  have hsame := h flushedBeside _ flushedBeside.world 257 (commandBase _) log
    reachable_flushedBeside rfl hlogs returned_flushedBeside Geometry.small.firstBuffer (by decide)
  have hbefore : (flushedBeside.world.cache.header Geometry.small.firstBuffer).valid = false := by
    decide
  have hafter : ((flushedBeside.after 30).world.cache.header Geometry.small.firstBuffer).valid =
      true := by decide
  exact Bool.false_ne_true (hbefore.symm.trans (hsame.symm.trans hafter))

end Machine
end BufferCache
