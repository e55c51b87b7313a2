import BufferCache.Proofs.Clients

/-!
# All calls keep their promises

The first step of every call keeps the promise of the call, and the step of a suspended
call the one that it makes, given that what it relies on was kept.  These are
`Call.begin_delivers` and `Frame.resume_delivers`, which put together what was shown of the
calls of the cache and of the commands of clients.

A call that does not give way leaves the image as it is.
-/

namespace BufferCache

variable {g : Geometry}

/-! ## Calls that begin -/

/-- Whether a call may begin at some stage of a change: a command if it is permitted, and
the end of a script if no block is being changed. -/
def Call.permitted {s : Shape} (stage : Stage) (w : World g) : Call g s → Bool
  | .perform command => stage.permits w command
  | .play [] => decide (stage = .idle)
  | _ => true

/-- The image once a call began. -/
def Call.image {s : Shape} (d : Call g s) (ledger : List Reference) (w : World g) (a : Image) :
    Image :=
  match d with
  | .perform command => a.begin ledger w command
  | _ => a

variable {s s' : Shape} {a : Image} {w : World g} {ledger : List Reference} {d : Call g s}
  {p : Promise g s} {asked : List Command}

/-- What is quiet does not change the image. -/
theorem Call.image_of_quiet (h : d.Keeps a w.cache p) (hp : p.quiet = true) :
    d.image ledger w a = a := by
  cases d with
  | perform command =>
    obtain ⟨-, rfl⟩ := h
    cases hp
  | _ => rfl

/-- A call asks for an answer only if it is to answer. -/
theorem Call.asked_of_keeps (h : d.Keeps a w.cache p) (hp : p.answers = false) :
    d.asked asked = asked := by
  cases d with
  | perform command =>
    obtain ⟨-, rfl⟩ := h
    cases hp
  | _ => rfl

/-- A call that is to answer asks for the answer. -/
theorem Call.heads_of_keeps (h : d.Keeps a w.cache p) : p.Heads (d.asked asked) := by
  cases p with
  | answer command =>
    cases d with
    | perform command' =>
      obtain ⟨-, hp⟩ := h
      cases hp
      rfl
    | drain m pattern upcoming ended => exact h.elim
  | _ => trivial

/-- The first step of a call keeps its promise. -/
theorem Call.begin_delivers (h : d.Keeps a w.cache p)
    (hpermitted : d.permitted a.stage w = true)
    (howned : ∀ r, d.demands w = some r → ∃ b i, w.cache.Owns ledger r b i)
    (hchained : w.cache.buffers.Chained fun _ => True) :
    (d.begin w).Delivers (d.image ledger w a) w.cache p := by
  cases d with
  | sleep q ticket =>
    obtain ⟨h, rfl⟩ := h
    exact World.sleep_delivers h q ticket
  | play script =>
    obtain ⟨h, rfl⟩ := h
    refine World.play_delivers h fun hend => ?_
    subst hend
    exact of_decide_eq_true hpermitted
  | awaitUnlock i =>
    obtain ⟨h, rfl⟩ := h
    exact World.awaitUnlock_delivers h i
  | lock i =>
    obtain ⟨h, rfl⟩ := h
    exact World.lock_delivers h i
  | lookUp b =>
    obtain ⟨h, rfl⟩ := h
    exact World.lookUp_delivers h b
  | acquire b =>
    obtain ⟨h, rfl⟩ := h
    exact World.acquire_delivers h b
  | obtain b =>
    obtain ⟨h, rfl⟩ := h
    exact World.call_delivers (.found b) ⟨h, rfl⟩ ⟨rfl, rfl⟩
  | release r =>
    obtain ⟨h, rfl⟩ := h
    exact World.release_delivers h r
  | fetch b =>
    obtain ⟨h, rfl⟩ := h
    exact World.call_delivers (.buffer b) ⟨h, rfl⟩ ⟨b, rfl, rfl⟩
  | fetchAhead b ahead =>
    obtain ⟨h, rfl⟩ := h
    exact World.call_delivers (.buffer b) ⟨h, rfl⟩ ⟨b, rfl, rfl⟩
  | readAhead t d ahead =>
    obtain ⟨h, b, rfl, hfresh⟩ := h
    exact World.readAhead_delivers h hfresh
  | settle t =>
    obtain ⟨h, b, rfl, hfresh⟩ := h
    exact World.call_delivers .still ⟨h, rfl⟩ ⟨b, rfl, rfl, hfresh⟩
  | fetchPage d numbers page =>
    obtain ⟨h, rfl⟩ := h
    exact World.fetchPage_delivers h d numbers page
  | gather d numbers held page =>
    obtain ⟨h, seen, rfl, hheld⟩ := h
    exact World.gather_delivers h hheld
  | collect held chunks failed page =>
    obtain ⟨h, d, seen, numbers, rfl, hheld, hcopied⟩ := h
    exact World.collect_delivers h hheld hcopied
  | issue op r => exact World.issue_delivers h
  | request op i =>
    obtain ⟨h, rfl⟩ := h
    exact World.request_delivers h op i
  | enqueue op i d number => exact h.elim
  | start m => exact World.start_delivers h
  | serve m => exact World.serve_delivers h hchained
  | flush scope =>
    obtain ⟨h, rfl⟩ := h
    exact World.goto_delivers rfl ⟨h, rfl, nofun⟩
  | flushRounds scope rounds writes =>
    obtain ⟨h, rfl, hswept⟩ := h
    exact World.flushRounds_delivers h hswept
  | flushBuffers scope rounds writes rest =>
    obtain ⟨h, rfl, hswept⟩ := h
    exact World.flushBuffers_delivers h hswept
  | discard d => exact h.elim
  | discardBuffers d rest => exact h.elim
  | checkMedium d =>
    obtain ⟨h, rfl⟩ := h
    exact World.checkMedium_delivers h d
  | perform command =>
    obtain ⟨h, rfl⟩ := h
    exact World.perform_delivers h hpermitted howned hchained
  | drain m pattern upcoming ended => exact h.elim

/-! ## Suspended calls -/

/-- What is given to a command whose answer is settled leaves the cache calm. -/
theorem Promise.Met.settled {p : Promise g .unit} {v : Unit} (h : p.Met a w v)
    (hp : ∀ i, p ≠ .claimed i) : w.cache.Settled a := by
  cases p with
  | resumed => exact h
  | still => exact h
  | claimed i => exact absurd rfl (hp i)
  | issued op i => exact h.1
  | flushed scope => exact h.1

/-- A block whose buffers were swept is on its disk. -/
theorem Cache.Settled.stored_of_swept {scope : Scope} (h : w.cache.Settled a)
    (hswept : w.cache.Swept scope []) {b : Block} (hb : scope.covers b.device = true)
    (hs : w.cache.Serves b) : w.cache.stored b = a.blocks b := by
  refine h.2.coherent.stored b hs nofun nofun fun i hi => hswept i List.not_mem_nil ?_
  have hdevice : (w.cache.header i).device = b.device := by
    rw [Header.device, hi]
  rw [hdevice]
  exact hb

variable {f : Frame g s s'} {p' : Promise g s'} {v : s.Value g} {client : Bool}
  {rest : Multiset (Stake g)}

/-- What is quiet does not change the blocks. -/
theorem Frame.image_of_quiet (h : f.Turns a.blocks w.cache p p') (hp : p'.quiet = true) :
    (f.image v w a).blocks = a.blocks := by
  cases f with
  | filling byte =>
    obtain ⟨b, -, rfl⟩ := h
    cases hp
  | _ => rfl

/-- The step of a suspended call keeps its promise. -/
theorem Frame.resume_delivers (hturns : f.Turns a.blocks w.cache p p') (h : p.Met a w v)
    (hchained : w.cache.buffers.Chained fun _ => True)
    (ha : Accounted ledger w.cache (stakeOf (s.hold? v) + (f.stakes client + rest))) :
    (f.resume v w).Delivers (f.image v w a) w.cache p' := by
  cases f with
  | sleeping q ticket =>
    obtain ⟨rfl, rfl⟩ := hturns
    exact World.goto_delivers rfl ⟨h, rfl⟩
  | playing script =>
    obtain rfl := hturns
    cases p with
    | answer command => exact World.goto_delivers rfl ⟨h.1, rfl⟩
  | awaitingUnlock i => exact hturns.elim
  | awaitingLock i => exact hturns.elim
  | mediumAnnouncing d => exact hturns.elim
  | pinning b i =>
    obtain ⟨rfl, rfl⟩ := hturns
    have hpin : .pin b i ∈ stakeOf (Shape.unit.hold? v) + ({.pin b i} + rest) :=
      Multiset.mem_add.mpr (.inr (Multiset.mem_add.mpr (.inl (Multiset.mem_singleton_self _))))
    exact World.pinned_delivers h (ha.references_of_counts hpin rfl)
  | lookingUp b =>
    obtain ⟨rfl, rfl⟩ := hturns
    exact World.lookedUp_delivers h.1 h
  | starving b =>
    obtain ⟨rfl, rfl⟩ := hturns
    exact World.goto_delivers rfl ⟨h, rfl⟩
  | awaitingVictim b i =>
    obtain ⟨rfl, rfl⟩ := hturns
    exact World.victimReady_delivers h b i
  | flushingVictim b i =>
    obtain ⟨⟨scope, rfl⟩, rfl⟩ := hturns
    exact World.call_delivers .still ⟨h.1, rfl⟩ ⟨rfl, rfl⟩
  | releasing r i =>
    obtain ⟨rfl, rfl⟩ := hturns
    exact World.released_delivers h i
  | fetching =>
    obtain ⟨b, rfl, rfl⟩ := hturns
    exact World.fetched_delivers h
  | fetchIssuing t =>
    obtain ⟨b, rfl, rfl, hcontent⟩ := hturns
    have hfresh := World.fresh_of_issued h rfl hcontent
    exact World.goto_delivers rfl ⟨h.1, b, rfl, hfresh⟩
  | settling t =>
    obtain ⟨b, rfl, rfl, hfresh⟩ := hturns
    exact World.settled_delivers h hfresh
  | unwinding e =>
    obtain ⟨b, rfl, rfl, hb⟩ := hturns
    exact World.unwound_delivers h hb
  | fetchingFirst d ahead =>
    obtain ⟨b, rfl, rfl⟩ := hturns
    exact World.firstFetched_delivers h
  | issuingFirst t d ahead =>
    obtain ⟨b, rfl, rfl, hcontent⟩ := hturns
    have hfresh := World.fresh_of_issued h rfl hcontent
    exact World.goto_delivers rfl ⟨h.1, b, rfl, hfresh⟩
  | fetchingAhead t d ahead =>
    obtain ⟨b, b', rfl, rfl, hfresh⟩ := hturns
    exact World.aheadFetched_delivers h hfresh
  | issuingAhead t t' d ahead =>
    obtain ⟨b, rfl, rfl, hfresh⟩ := hturns
    exact World.letGo_delivers h.1 hfresh
  | gathering d numbers held page =>
    obtain ⟨seen, n, rfl, rfl, hn, hheld⟩ := hturns
    exact World.gathered_delivers h hn hheld
  | gatherIssuing d numbers held page =>
    obtain ⟨seen, n, held', t, rfl, rfl, rfl, hn, hheld, hcontent⟩ := hturns
    exact World.gather_next_delivers h.1 hn hheld (World.fresh_of_issued h rfl hcontent)
  | collecting t held chunks failed page =>
    obtain ⟨d, seen, n, numbers, rfl, rfl, hn, hfresh, hheld, hcopied⟩ := hturns
    exact World.collected_delivers h hn hfresh hheld hcopied
  | collected held chunks failed page =>
    obtain ⟨d, seen, numbers, rfl, rfl, hheld, hcopied⟩ := hturns
    exact World.goto_delivers rfl ⟨h, d, seen, numbers, rfl, hheld, hcopied⟩
  | locking op i d =>
    obtain ⟨rfl, rfl, hd, hdriver⟩ := hturns
    exact World.locked_delivers h.1 h.2 hd hdriver
  | awaitingVacancy op i d number => exact hturns.elim
  | announcing scope rounds writes =>
    obtain ⟨rfl, rfl⟩ := hturns
    have hswept (_ : rounds = 0) : w.cache.Swept scope g.allBuffers :=
      fun i hi => absurd (g.mem_allBuffers i) hi
    exact World.goto_delivers rfl ⟨h, rfl, hswept⟩
  | flushAwaiting scope rounds writes i rest =>
    obtain ⟨rfl, rfl, hswept⟩ := hturns
    exact World.flushReady_delivers h hswept
  | flushWriting scope rounds writes rest =>
    obtain ⟨i, rfl, rfl, hswept⟩ := hturns
    exact World.flushWritten_delivers h hswept
  | discardAwaiting d i rest => exact hturns.elim
  | mediumDiscarding => exact hturns.elim
  | keepHold name =>
    obtain ⟨b, rfl, rfl⟩ := hturns
    refine World.answerHold_delivers h fun w' hw => ⟨v.handle, rfl, ?_⟩
    rw [hw]
    exact World.refers_of_buffer h
  | keepFound name =>
    obtain ⟨b, rfl, rfl⟩ := hturns
    cases v with
    | none => exact World.answer_delivers h.1.stands rfl (.inl rfl)
    | some t =>
      have hbuffer : Promise.Met a w (.buffer b) t := ⟨h.1, h.2 t rfl⟩
      refine World.answerHold_delivers hbuffer fun w' hw => .inr ⟨t.handle, rfl, ?_⟩
      rw [hw]
      exact World.refers_of_buffer hbuffer
  | keepFetched name =>
    obtain ⟨b, rfl, rfl | ⟨ahead, rfl⟩⟩ := hturns
    · exact World.answerFetched_delivers h (.inl rfl)
    · exact World.answerFetched_delivers h (.inr ⟨ahead, rfl⟩)
  | guardHold name =>
    obtain ⟨b, rfl, rfl⟩ := hturns
    exact World.guardHeld_delivers h
  | guardFetched name =>
    obtain ⟨b, rfl, rfl⟩ := hturns
    exact World.guardFetched_delivers h
  | filling byte =>
    obtain ⟨b, rfl, rfl⟩ := hturns
    exact World.fillHeld_delivers h hchained
  | touching =>
    obtain ⟨b, rfl, rfl⟩ := hturns
    exact World.call_delivers .still ⟨h.1, rfl⟩ ⟨nofun, _, rfl, .inl fun _ _ => trivial⟩
  | answering x =>
    obtain ⟨hp, command, rfl, hanswer | ⟨scope, rfl, rfl⟩⟩ := hturns
    · exact World.answer_delivers (h.settled hp).stands rfl (hanswer _ _)
    · refine World.answer_delivers h.1.stands rfl fun b hb hs => ?_
      exact h.1.stored_of_swept h.2 hb hs
  | answerFlag =>
    obtain ⟨d, rfl, rfl⟩ := hturns
    exact World.answer_delivers (h : w.cache.Settled a).stands rfl trivial
  | answerPage =>
    obtain ⟨d, numbers, length, fill, rfl, rfl⟩ := hturns
    refine World.answer_delivers h.1.stands rfl fun hlength hcount => ?_
    rw [← List.length_replicate (n := length) (a := fill)] at hlength
    obtain ⟨chunks, hpage, hshows, hresult⟩ := h.2 hlength hcount
    exact ⟨v.1, chunks, congrArg (Answer.page v.1) hpage, hshows, hresult⟩

end BufferCache
