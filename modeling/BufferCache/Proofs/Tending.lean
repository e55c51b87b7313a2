import BufferCache.Proofs.Filing
import BufferCache.Proofs.Reckoning

/-!
# What drivers do meanwhile

A driver that is started within a call moves the bytes of the requests that wait for it, and ends
them: it *retires* them.  `Cache.Retires` tells all that this does to the buffers and to the
requests.  A buffer of which a transfer ends gets another validity and loses its lock; nothing else
about it changes, and no other buffer does.

A machine is `Undisturbed` if its next step does not give way, and carries out no command but those
with which a driver tends to its requests.  As long as it is, whatever is set off by the start of a
driver, or by an announcement, only retires requests.  The two are alike in this: a script is run,
or the requests of a driver are served one by one, and `Tending` says where that has come to.

Which requests a call queues is on record in a `Log`.
-/

namespace BufferCache

variable {g : Geometry}

/-! ## Retired requests -/

namespace Cache

/-- From `c` to `c'`, nothing happened to the buffers and to the requests but that some of the
requests ended. -/
structure Retires (c c' : Cache g) : Prop where
  /-- Of a header, validity and lock may be others, but no buffer is locked that was not. -/
  header : ∀ j, ∃ valid locked, (locked = true → (c.header j).locked = true) ∧
    c'.header j = { c.header j with valid := valid, locked := locked }
  /-- They are others only if a request for the buffer ended. -/
  ended : ∀ j, c'.header j = c.header j ∨
    ∃ k t, c.requests.order? k = some (t, j) ∧ c'.requests.order? k = none
  /-- A request stays as it is, or ends. -/
  order? : ∀ k, c'.requests.order? k = c.requests.order? k ∨ c'.requests.order? k = none
  /-- None was counted. -/
  counted : ∀ d, c'.statistics.requests d = c.statistics.requests d

variable {c c' c'' : Cache g}

namespace Retires

theorem of_eq (hheader : ∀ j, c'.header j = c.header j) (hrequests : c'.requests = c.requests)
    (hstatistics : c'.statistics = c.statistics) : c.Retires c' where
  header j := ⟨_, _, id, hheader j⟩
  ended j := .inl (hheader j)
  order? k := .inl (by rw [hrequests])
  counted d := by rw [hstatistics]

theorem refl (c : Cache g) : c.Retires c :=
  .of_eq (fun _ => rfl) rfl rfl

theorem of_cache_eq {w w' : World g} (h : w'.cache = w.cache) : w.cache.Retires w'.cache := by
  rw [h]
  exact .refl _

/-- A request that has ended is not there again. -/
theorem order?_eq_none (h : c.Retires c') {k : g.Slot} (hk : c.requests.order? k = none) :
    c'.requests.order? k = none :=
  (h.order? k).elim (fun hsame => hsame.trans hk) id

theorem order?_eq_some (h : c.Retires c') {k : g.Slot} {o : Transfer × g.Buffer}
    (hk : c'.requests.order? k = some o) : c.requests.order? k = some o := by
  rcases h.order? k with hsame | hnone
  · exact hsame.symm.trans hk
  · cases hnone.symm.trans hk

theorem trans (h : c.Retires c') (h' : c'.Retires c'') : c.Retires c'' where
  header j := by
    obtain ⟨_, _, hlocked, hj⟩ := h.header j
    obtain ⟨valid, locked, hlocked', hj'⟩ := h'.header j
    rw [hj] at hj' hlocked'
    exact ⟨valid, locked, fun hl => hlocked (hlocked' hl), hj'⟩
  ended j := by
    rcases h.ended j with hsame | ⟨k, t, hk, hnone⟩
    · rcases h'.ended j with hsame' | ⟨k, t, hk, hnone⟩
      · exact .inl (hsame'.trans hsame)
      · exact .inr ⟨k, t, h.order?_eq_some hk, hnone⟩
    · exact .inr ⟨k, t, hk, h'.order?_eq_none hnone⟩
  order? k := by
    rcases h'.order? k with hsame | hnone
    · rw [hsame]
      exact h.order? k
    · exact .inr hnone
  counted d := (h'.counted d).trans (h.counted d)

theorem unflagged (h : c.Retires c') (j : g.Buffer) :
    (c'.header j).unflagged = (c.header j).unflagged := by
  obtain ⟨_, _, -, hj⟩ := h.header j
  rw [hj]
  rfl

theorem dirty (h : c.Retires c') (j : g.Buffer) : (c'.header j).dirty = (c.header j).dirty := by
  obtain ⟨_, _, -, hj⟩ := h.header j
  rw [hj]

theorem unlocked (h : c.Retires c') {j : g.Buffer} (hj : (c.header j).locked = false) :
    (c'.header j).locked = false := by
  obtain ⟨_, locked, hlocked, hheader⟩ := h.header j
  rw [hheader]
  exact Bool.eq_false_iff.mpr fun hl => Bool.false_ne_true (hj.symm.trans (hlocked hl))

end Retires

/-- The end of a request. -/
theorem retires_conclude {slot : g.Slot} {q : Request g} (hq : c.requests.request? slot = some q)
    (m : Nat) (success : Bool) : c.Retires (c.conclude m slot q success) where
  header j := by
    rw [header_conclude]
    split
    · exact ⟨success, false, nofun, rfl⟩
    · exact ⟨_, _, id, rfl⟩
  ended j := by
    rw [header_conclude]
    split
    · rename_i hj
      refine .inr ⟨slot, q.transfer, RequestTable.order?_eq_some_iff.mpr ⟨q, hq, rfl, hj⟩, ?_⟩
      rw [order?_conclude, if_pos rfl]
    · exact .inl rfl
  order? k := by
    rw [order?_conclude]
    split
    · exact .inr rfl
    · exact .inl rfl
  counted d := by
    rw [statistics_conclude]
    cases success <;> cases d <;> rfl

end Cache

namespace World

variable {w : World g}

theorem retires_finish {m : Nat} {success : Bool} {r : World g × Bool}
    (h : w.finish m success = .ok r) : w.cache.Retires r.1.cache := by
  obtain ⟨slot, q, -, hq, rfl⟩ := finish_eq_ok h
  rw [cache_conclude]
  exact Cache.retires_conclude hq m success

end World

/-- A driver that is started, or goes on, retires requests. -/
theorem Call.Drives.retires {c : Call g .unit} (hc : c.Drives) (w : World g) :
    (c.begin w).Ensures fun w' next => next.GoesOn ∧ w.cache.Retires w'.cache := by
  refine (Call.begin_goesOn hc w).mono fun w' next ⟨hcache, hnext⟩ => ⟨hnext, ?_⟩
  rcases hcache with hsame | ⟨m, d, slot, q, hfits, happly⟩
  · exact .of_cache_eq hsame
  · have hmoved : w.cache.Retires (w.cache.carryOut m d q) := .of_eq (fun _ => rfl) rfl rfl
    have hq : (w.cache.carryOut m d q).requests.request? slot = some q := hfits.2.2
    rw [happly]
    exact hmoved.trans (Cache.retires_conclude hq d.major _)

/-! ## Commands of drivers -/

/-- A command with which a driver tends to its requests: it looks at those that wait, moves the
bytes of the current one, or ends requests. -/
def Command.tends : Command → Bool
  | .current _ | .queued _ | .move _ _ | .finish _ _ | .drain _ _ => true
  | _ => false

/-- A command of a driver that was begun is over, or goes on to end requests. -/
def Next.Tends : Next g .reply → Prop
  | .done _ => True
  | .goto (.drain _ _ _ _) => True
  | _ => False

section Commands

variable (w : World g)

theorem World.drain_retires (m : Nat) (pattern upcoming : List Bool)
    (ended : List (Transfer × Bool × Bool)) : (w.drain m pattern upcoming ended).Ensures
      fun w' next => next.Tends ∧ w.cache.Retires w'.cache := by
  unfold World.drain
  split
  · exact Outcome.ensures_done ⟨trivial, .refl _⟩
  · exact Outcome.ensures_orFault fun r hr =>
      Outcome.ensures_goto ⟨trivial, World.retires_finish hr⟩

theorem World.moveBytes_retires (m : Nat) (fill : Option UInt8) : (w.moveBytes m fill).Ensures
    fun w' next => next.Tends ∧ w.cache.Retires w'.cache := by
  unfold World.moveBytes
  split
  · exact Outcome.ensures_done ⟨trivial, .refl _⟩
  · cases fill with
    | none => exact Outcome.ensures_done ⟨trivial, .refl _⟩
    | some byte => exact Outcome.ensures_done ⟨trivial, .of_eq (fun _ => rfl) rfl rfl⟩

theorem Command.perform_retires {c : Command} (hc : c.tends = true) : (w.perform c).Ensures
    fun w' next => next.Tends ∧ w.cache.Retires w'.cache := by
  cases c with
  | current m => exact Outcome.ensures_done ⟨trivial, .refl _⟩
  | queued m => exact Outcome.ensures_done ⟨trivial, .refl _⟩
  | move m fill => exact w.moveBytes_retires m fill
  | finish m success =>
    exact Outcome.ensures_orFault fun r hr =>
      Outcome.ensures_done ⟨trivial, World.retires_finish hr⟩
  | drain m pattern => exact Outcome.ensures_goto ⟨trivial, .refl _⟩
  | _ => cases hc

end Commands

/-- The first step of the call does not give way, and carries out no command but those of
drivers. -/
def Call.quiet (w : World g) : {s : Shape} → Call g s → Bool
  | _, .sleep q ticket => !(w.cache.queue q).holds ticket
  | _, .perform c => c.tends
  | _, _ => true

namespace Machine

/-- The next step does not give way, and carries out no command but those of drivers. -/
def Undisturbed : Machine g → Prop
  | ⟨w, _, .run c, _⟩ => c.quiet w = true
  | _ => True

instance : DecidablePred (Undisturbed (g := g))
  | ⟨w, _, .run c, _⟩ => inferInstanceAs (Decidable (c.quiet w = true))
  | ⟨_, _, .give _, _⟩ => .isTrue trivial

theorem Undisturbed.not_givesWay {m : Machine g} (h : m.Undisturbed) : ¬ m.GivesWay := by
  intro hway
  match m, hway with
  | ⟨w, _, .run (.sleep q ticket), _⟩, hway =>
    have hquiet : (!(w.cache.queue q).holds ticket) = true := h
    rw [show (w.cache.queue q).holds ticket = true from hway] at hquiet
    cases hquiet

/-- The call above `base` is not over, and the machine is undisturbed. -/
def Unbroken {s : Shape} (base : Stack g s) (m : Machine g) : Prop :=
  ¬ m.Returned base ∧ m.Undisturbed

variable {base : Stack g .unit} {n n' : Machine g}

/-- Where a driver that was started above `base`, or a script that was begun there, has come
to. -/
inductive Tending (base : Stack g .unit) : Machine g → Prop
  | driving {w : World g} {c : Call g .unit} : c.Drives → Tending base ⟨w, .unit, .run c, base⟩
  | command {w : World g} {c : Command} {rest : Script} :
      Tending base ⟨w, .reply, .run (.perform c), .push (.playing rest) base⟩
  | draining {w : World g} {m : Nat} {pattern upcoming : List Bool}
      {ended : List (Transfer × Bool × Bool)} {rest : Script} :
      Tending base
        ⟨w, .reply, .run (.drain m pattern upcoming ended), .push (.playing rest) base⟩
  | answered {w : World g} {a : Answer} {rest : Script} :
      Tending base ⟨w, .reply, .give a, .push (.playing rest) base⟩
  | finished {w : World g} {v : Unit} : Tending base ⟨w, .unit, .give v, base⟩

theorem Tending.beneath (h : Tending base n) : base.Beneath n.stack := by
  cases h with
  | driving _ | finished => exact .here
  | command | draining | answered => exact .push _ .here

theorem tending_next {next : Next g .reply} (h : next.Tends) (w : World g) (rest : Script) :
    Tending base (next.machine w (.push (.playing rest) base)) := by
  match next, h with
  | .done _, _ => exact .answered
  | .goto (.drain _ _ _ _), _ => exact .draining

/-- As long as the machine is undisturbed, what was begun above `base` only retires requests. -/
theorem Tending.moves (h : Tending base n) (hon : n.Undisturbed) (hover : ¬ n.Returned base)
    (hmove : n.Moves n') : Tending base n' ∧ n.world.cache.Retires n'.world.cache := by
  cases h with
  | @driving w c hc =>
    obtain ⟨w', next, hnext, rfl⟩ := moves_of_run hmove
    obtain ⟨hgoesOn, hretires⟩ := hc.retires w w' next hnext
    rw [world_next]
    refine ⟨?_, hretires⟩
    cases hgoesOn with
    | done => exact .finished
    | serve => exact .driving trivial
    | play => exact .driving trivial
    | perform => exact .command
  | @command w c rest =>
    obtain ⟨w', next, hnext, rfl⟩ := moves_of_run hmove
    obtain ⟨htends, hretires⟩ := Command.perform_retires w hon w' next hnext
    rw [world_next]
    exact ⟨tending_next htends w' rest, hretires⟩
  | @draining w m pattern upcoming ended rest =>
    obtain ⟨w', next, hnext, rfl⟩ := moves_of_run hmove
    obtain ⟨htends, hretires⟩ := w.drain_retires m pattern upcoming ended w' next hnext
    rw [world_next]
    exact ⟨tending_next htends w' rest, hretires⟩
  | @answered w a rest =>
    obtain ⟨w', next, hnext, rfl⟩ := moves_of_give hmove
    cases hnext
    exact ⟨.driving trivial, .of_cache_eq rfl⟩
  | finished => exact absurd ⟨_, _, rfl⟩ hover

end Machine

/-! ## Logs -/

/-- The requests that are there in `c'` and were not in `c`, slot by slot. -/
def Cache.filings (c c' : Cache g) : List (Transfer × g.Buffer) :=
  g.allSlots.filterMap fun k =>
    if c'.requests.order? k = c.requests.order? k then none else c'.requests.order? k

/-- Where requests are retired, none is filed. -/
theorem Cache.Retires.filings_eq_nil {c c' : Cache g} (h : c.Retires c') : c.filings c' = [] := by
  refine List.filterMap_eq_nil_iff.mpr fun k _ => ?_
  split
  · rfl
  · rename_i hother
    exact (h.order? k).resolve_left hother

theorem Cache.filings_of_requests {c c' : Cache g} (h : c'.requests = c.requests) :
    c.filings c' = [] :=
  List.filterMap_eq_nil_iff.mpr fun k _ => if_pos (by rw [h])

/-- If the function has a value at one member of a list without duplicates only, the list of its
values is that value. -/
theorem filterMap_eq_singleton {α β : Type} {f : α → Option β} {l : List α} {a : α} {b : β}
    (hl : l.Nodup) (ha : a ∈ l) (hb : f a = some b) (hne : ∀ a' ≠ a, f a' = none) :
    l.filterMap f = [b] := by
  obtain ⟨before, after, rfl⟩ := List.append_of_mem ha
  obtain ⟨-, hafter, hdisjoint⟩ := List.nodup_append.mp hl
  have hbefore : before.filterMap f = [] := List.filterMap_eq_nil_iff.mpr fun x hx =>
    hne x (hdisjoint x hx a List.mem_cons_self)
  have hrest : after.filterMap f = [] := List.filterMap_eq_nil_iff.mpr fun x hx =>
    hne x fun hxa => (List.nodup_cons.mp hafter).1 (hxa ▸ hx)
  rw [List.filterMap_append, hbefore, List.filterMap_cons_some hb, hrest]
  rfl

/-- To queue a request is to file it, and no other. -/
theorem Cache.filings_enqueue {c : Cache g} {slot : g.Slot} (d : Direction) (i : g.Buffer)
    (b : Block) (hfree : c.requests.order? slot = none) :
    c.filings (c.enqueue d i b slot) = [(.ofBlock d b, i)] := by
  have horder (k : g.Slot) : (c.enqueue d i b slot).requests.order? k =
      if slot = k then some (.ofBlock d b, i) else c.requests.order? k :=
    RequestTable.order?_insert ..
  refine filterMap_eq_singleton (List.nodup_finRange _) (g.mem_allSlots slot) ?_ fun k hk => ?_
  · rw [horder, if_pos rfl, hfree, if_neg (Option.some_ne_none _)]
  · rw [horder, if_neg hk.symm, if_pos rfl]

namespace Machine

/-- The run leads from `m` to a later machine through machines for which `on` holds, and queues
the requests of the log on the way, in this order. -/
inductive Logs (on : Machine g → Prop) (m : Machine g) :
    List (Transfer × g.Buffer) → Machine g → Prop
  | refl : Logs on m [] m
  | tail {log : List (Transfer × g.Buffer)} {a b : Machine g} : Logs on m log a → on a →
      a.Moves b → Logs on m (log ++ a.world.cache.filings b.world.cache) b

variable {on on' : Machine g → Prop} {m a b : Machine g} {log log' : List (Transfer × g.Buffer)}

theorem Logs.leads (h : Logs on m log a) : Leads on m a := by
  induction h with
  | refl => exact .refl
  | tail _ hon hmove ih => exact ih.tail ⟨hon, hmove⟩

/-- Every run has its log. -/
theorem Leads.exists_log (h : Leads on m a) : ∃ log, Logs on m log a := by
  induction h with
  | refl => exact ⟨[], .refl⟩
  | tail _ hmove ih =>
    obtain ⟨log, hlog⟩ := ih
    exact ⟨_, hlog.tail hmove.1 hmove.2⟩

theorem Logs.trans (h : Logs on m log a) (h' : Logs on a log' b) : Logs on m (log ++ log') b := by
  induction h' with
  | refl =>
    rw [List.append_nil]
    exact h
  | tail _ hon hmove ih =>
    rw [← List.append_assoc]
    exact ih.tail hon hmove

/-- A move that leaves the requests alone. -/
theorem Logs.single (hon : on a) (hmove : a.Moves b)
    (hrequests : b.world.cache.requests = a.world.cache.requests) : Logs on a [] b := by
  have h : Logs on a ([] ++ a.world.cache.filings b.world.cache) b := .tail .refl hon hmove
  rw [Cache.filings_of_requests hrequests] at h
  exact h

end Machine
end BufferCache
