import BufferCache.Proofs.Availability
import BufferCache.Proofs.Fetching

/-!
# Reading ahead

A read with others ahead starts transfers of further blocks on the way.  It does not wait for
these transfers, and where one could not be started at once, because the buffer is locked or no
slot is free, it is left out.  But before that the read gets a buffer for the block, as everybody
does, and that may have to be waited for: if the block is in a buffer that is locked, if there
are references to all buffers, or if the victim is locked or has to be written back.

`Reachable.readsAhead` says that these are the only places where a read waits for anything but
its own block; that it does wait there, in all cases but the last; and that it does not wait
for a block whose buffer is unlocked, or that is in no buffer if the victim is clean and unlocked.
-/

namespace BufferCache

variable {g : Geometry}

/-! ## What is started ahead of need does not wait -/

/-- The calls that are made to start an operation ahead of need. -/
def Call.Ahead {s : Shape} : Call g s → Prop
  | .issue op _ | .request op _ => op.ahead = true
  | .start _ | .serve _ | .play _ => True
  | _ => False

/-- The family of these calls.  None of them is ever suspended but on a script. -/
def Family.ahead (g : Geometry) : Family g where
  call := Call.Ahead
  frame := fun _ => False

section Ahead

variable {op : Operation} {i : g.Buffer} {d : DeviceNumber}

/-- A request is queued if a slot is free, and left out if not. -/
theorem World.enqueue_ahead (hop : op.ahead = true) (w : World g) (number : BlockNumber) :
    (w.enqueue op i d number).Ensures fun _ n => (Family.ahead g).Admits n := by
  unfold enqueue
  split
  · unfold file
    dsimp only
    split
    · exact Outcome.ensures_goto trivial
    · exact Outcome.ensures_done trivial
  · rw [if_pos hop]
    exact Outcome.ensures_done trivial

theorem World.request_ahead (hop : op.ahead = true) (w : World g) :
    (w.request op i).Ensures fun _ n => (Family.ahead g).Admits n := by
  unfold request
  dsimp only
  split
  · exact Outcome.ensures_fault
  rw [if_pos hop]
  split
  · exact Outcome.ensures_done trivial
  · unfold locked
    split
    · exact Outcome.ensures_done trivial
    · exact enqueue_ahead hop _ _

/-- When such a call begins. -/
theorem Call.Ahead.begin {s : Shape} {c : Call g s} (hc : c.Ahead) (w : World g) :
    (c.begin w).Ensures fun _ n => (Family.ahead g).Admits n := by
  cases c with
  | issue op h => exact Outcome.ensures_orFault fun i _ => Outcome.ensures_goto hc
  | request op i => exact World.request_ahead hc w
  | start m =>
    change (w.start m).Ensures fun _ n => (Family.ahead g).Admits n
    unfold World.start
    split
    · exact Outcome.ensures_done trivial
    split
    · exact Outcome.ensures_done trivial
    · exact Outcome.ensures_goto trivial
    · exact Outcome.ensures_goto trivial
    · exact Outcome.ensures_goto trivial
  | serve m =>
    change (w.serve m).Ensures fun _ n => (Family.ahead g).Admits n
    unfold World.serve
    split
    · exact Outcome.ensures_done trivial
    split
    · exact Outcome.ensures_done trivial
    · refine Outcome.ensures_orFault fun ended _ => ?_
      split
      · exact Outcome.ensures_goto trivial
      · exact Outcome.ensures_done trivial
  | play script =>
    cases script with
    | nil => exact Outcome.ensures_done trivial
    | cons command rest => exact Outcome.ensures_call (.inr rfl)
  | _ => exact hc.elim

theorem Family.ahead_closed : (Family.ahead g).Closed where
  begin hc hn := Call.Ahead.begin hc _ _ _ hn
  resume hf _ := hf.elim
  play _ := trivial

end Ahead

/-! ## Blocks whose bytes are there -/

/-- Taking a reference moves no block. -/
theorem Cache.locate_refer (c : Cache g) (i : g.Buffer) (b : Block) :
    (c.refer i).buffers.locate b = c.buffers.locate b := by
  have hnext : (fun j => ((c.refer i).buffers.header j).chainNext) =
      fun j => (c.buffers.header j).chainNext := by
    funext j
    change ((c.refer i).header j).chainNext = (c.header j).chainNext
    rw [Cache.header_refer]
    split <;> rfl
  have hholds : (fun j => ((c.refer i).buffers.header j).holds b) =
      fun j => (c.buffers.header j).holds b := by
    funext j
    change ((c.refer i).header j).holds b = (c.header j).holds b
    rw [Cache.header_refer]
    split <;> rfl
  rw [Buffers.locate, Buffers.locate, Buffers.chain, Buffers.chain, hnext, hholds]
  rfl

/-- A change of a header that is undone leaves the table as it was. -/
theorem Buffers.update_update_eq_self {s : Buffers g} {i : g.Buffer}
    {f f' : Header g.buffers → Header g.buffers} (hf : f' (f (s.header i)) = s.header i) :
    (s.update i f).update i f' = s := by
  have hheaders : (s.headers.set i (f s.headers[i])).set i
      (f' (s.headers.set i (f s.headers[i]))[i]) = s.headers := by
    change f' (f s.headers[i.val]) = s.headers[i.val] at hf
    simp [hf]
  unfold update
  rw [hheaders]

theorem Cache.buffers_unrefer (c : Cache g) (i : g.Buffer) : (c.unrefer i).buffers =
    c.buffers.update i fun h => { h with references := h.references - 1 } :=
  rfl

/-- A reference that is taken and given back leaves the buffers as they were. -/
theorem Cache.buffers_unrefer_refer (c : Cache g) (i : g.Buffer) :
    ((c.refer i).unrefer i).buffers = c.buffers := by
  have hrefer : (c.refer i).buffers =
      c.buffers.update i fun h => { h with references := h.references + 1 } := rfl
  rw [Cache.buffers_unrefer, hrefer]
  exact Buffers.update_update_eq_self rfl

/-- The block is in a buffer that is unlocked, and its bytes are there. -/
def Cache.Stocks (c : Cache g) (b : Block) : Prop :=
  ∃ i, c.buffers.locate b = some i ∧ (c.header i).locked = false ∧ (c.header i).valid = true

/-- The reference is good, and its buffer is unlocked and has the bytes of its block. -/
structure Cache.Readable (c : Cache g) (h : Hold g) : Prop where
  resolve : c.resolve h.handle = .ok h.buffer
  unlocked : (c.header h.buffer).locked = false
  valid : (c.header h.buffer).valid = true

section Stocks

variable {c c' : Cache g} {b : Block} {h : Hold g} {i : g.Buffer}

theorem Cache.Stocks.congr (hc : c.Stocks b) (h : c'.buffers = c.buffers) : c'.Stocks b := by
  unfold Cache.Stocks Cache.header
  rw [h]
  exact hc

theorem Cache.Stocks.refer (hc : c.Stocks b) (i : g.Buffer) : (c.refer i).Stocks b := by
  obtain ⟨j, hj, hlocked, hvalid⟩ := hc
  refine ⟨j, (c.locate_refer i b).trans hj, ?_, ?_⟩
  · rw [Cache.header_refer]
    split <;> exact hlocked
  · rw [Cache.header_refer]
    split <;> exact hvalid

theorem Cache.Readable.congr (hc : c.Readable h) (hbuffers : c'.buffers = c.buffers) :
    c'.Readable h := by
  have hheader : c'.header = c.header := by
    funext j
    rw [Cache.header, hbuffers]
    rfl
  refine ⟨?_, hheader ▸ hc.unlocked, hheader ▸ hc.valid⟩
  unfold Cache.resolve
  rw [hheader]
  exact hc.resolve

/-- A reference that was just taken is good. -/
theorem Cache.readable_refer (hlocked : (c.header i).locked = false)
    (hvalid : (c.header i).valid = true) : (c.refer i).Readable (c.hold i) := by
  have hheader : (c.refer i).header i =
      { c.header i with references := (c.header i).references + 1 } :=
    (Cache.header_refer c i i).trans (if_pos rfl)
  refine ⟨?_, ?_, ?_⟩
  · have hindex : (c.hold i).handle.index < g.buffers := i.isLt
    rw [Cache.resolve, dif_pos hindex]
    change (if ((c.refer i).header i).generation = (c.header i).generation then
      if ((c.refer i).header i).references = 0 then _ else Except.ok i else _) = _
    rw [hheader, if_pos rfl, if_neg (Nat.succ_ne_zero _)]
    rfl
  · change ((c.refer i).header i).locked = false
    rw [hheader]
    exact hlocked
  · change ((c.refer i).header i).valid = true
    rw [hheader]
    exact hvalid

theorem Cache.Readable.view (hc : c.Readable h) :
    c.view h.handle = .ok (c.header h.buffer).view := by
  rw [Cache.view, hc.resolve]
  rfl

end Stocks

section Reading

variable {w w' : World g} {b : Block} {h : Hold g} {d : DeviceNumber} {ahead : List BlockNumber}

/-- A block ahead whose bytes are there is left alone. -/
theorem World.aheadFetched_eq {t : Hold g} (ht : w.cache.Readable t) :
    w.aheadFetched h d ahead t = (w.mapCache (·.unrefer t.buffer)).goto (.readAhead h d ahead) := by
  have hvalid : (w.cache.header t.buffer).view.valid = true := ht.valid
  rw [aheadFetched, ht.view]
  change (if _ then w.letGo h t d ahead else _) = _
  rw [if_pos hvalid, letGo, ht.resolve]
  rfl

/-- A read whose own bytes are there goes on with the blocks ahead. -/
theorem World.firstFetched_eq (hh : w.cache.Readable h) :
    w.firstFetched d ahead h = w.goto (.readAhead h d ahead) := by
  have hvalid : (w.cache.header h.buffer).view.valid = true := hh.valid
  rw [firstFetched, hh.view]
  exact if_pos hvalid

/-- And it returns them in the end. -/
theorem World.settled_eq (hh : w.cache.Readable h) :
    w.settled h = w.done (s := .fetched) (.ok h) := by
  have hvalid : (w.cache.header h.buffer).view.valid = true := hh.valid
  rw [settled, hh.view]
  exact if_pos hvalid

/-- If the bytes of all blocks are there, nothing is left to wait for. -/
theorem Call.completes_readAhead_stocked (hdevice : d ≠ 0) (hh : w.cache.Readable h)
    (hahead : ∀ n ∈ ahead, w.cache.Stocks ⟨d, n⟩) : (Call.readAhead h d ahead).Completes True
      (fun _ (v : Shape.fetched.Value g) => v = .ok h) w := by
  induction ahead generalizing w with
  | nil =>
    refine completes_of_begin rfl (Outcome.completes_goto (completes_of_begin rfl ?_))
    refine Outcome.completes_call (completes_awaitUnlock fun _ => hh.unlocked) fun w' _ h' => ?_
    rw [h'.1]
    change (w.settled h).Completes _ _ _
    rw [World.settled_eq hh]
    exact Outcome.completes_done rfl
  | cons n ahead ih =>
    obtain ⟨i, hi, hlocked, hvalid⟩ := hahead n List.mem_cons_self
    refine completes_of_begin rfl (Outcome.completes_call
      (completes_acquire_present hdevice hi hlocked) fun w' t ht => ?_)
    obtain ⟨hbuffers, rfl⟩ := ht
    change (w'.aheadFetched h d ahead (w.cache.hold i)).Completes _ _ _
    rw [World.aheadFetched_eq ((Cache.readable_refer hlocked hvalid).congr hbuffers)]
    have hsame : (w'.cache.unrefer i).buffers = w.cache.buffers := by
      rw [Cache.buffers_unrefer, hbuffers, ← Cache.buffers_unrefer, Cache.buffers_unrefer_refer]
    exact Outcome.completes_goto (ih (hh.congr hsame) fun m hm =>
      (hahead m (List.mem_cons_of_mem n hm)).congr hsame)

/-- A read whose own bytes are there, and those of all blocks ahead, returns at once. -/
theorem Call.completes_fetchAhead_stocked (hdevice : b.device ≠ 0) (hb : w.cache.Stocks b)
    (hahead : g.buffers > 1 → ∀ n ∈ ahead, w.cache.Stocks ⟨b.device, n⟩) :
    (Call.fetchAhead b ahead).Completes True
      (fun _ (v : Shape.fetched.Value g) => ∃ h, v = .ok h) w := by
  obtain ⟨i, hi, hlocked, hvalid⟩ := hb
  refine completes_of_begin rfl (Outcome.completes_call
    (completes_acquire_present hdevice hi hlocked) fun w' h hh => ?_)
  obtain ⟨hbuffers, rfl⟩ := hh
  have hreadable := (Cache.readable_refer hlocked hvalid).congr hbuffers
  change (w'.firstFetched b.device _ (w.cache.hold i)).Completes _ _ _
  rw [World.firstFetched_eq hreadable]
  refine Outcome.completes_goto ((completes_readAhead_stocked hdevice hreadable fun n hn => ?_).post
    fun _ v hv => ⟨_, hv⟩)
  split at hn
  · exact ((hahead ‹_› n hn).refer i).congr hbuffers
  · cases hn

end Reading

/-! ## The steps of a read with others ahead -/

section Steps

variable (w : World g) (h t : Hold g) (d : DeviceNumber) (rest : List BlockNumber)

/-- The first buffer is there: the read goes on with the blocks ahead, once its own transfer is
started if that is needed. -/
theorem World.firstFetched_ensures : (w.firstFetched d rest h).Ensures fun _ next =>
    next = .goto (.readAhead h d rest) ∨
      next = .call (.issue .read h.handle) (.issuingFirst h d rest) := by
  refine Outcome.ensures_orFault fun v _ => ?_
  split
  · exact Outcome.ensures_goto (.inl rfl)
  · exact Outcome.ensures_call (.inr rfl)

theorem World.letGo_ensures : (w.letGo h t d rest).Ensures fun _ next =>
    next = .goto (.readAhead h d rest) :=
  Outcome.ensures_orFault fun _ _ => Outcome.ensures_goto rfl

/-- The buffer of a block ahead is there: that block is done with, once its transfer is started
if that is needed. -/
theorem World.aheadFetched_ensures : (w.aheadFetched h d rest t).Ensures fun _ next =>
    next = .goto (.readAhead h d rest) ∨
      next = .call (.issue .readAhead t.handle) (.issuingAhead h t d rest) := by
  refine Outcome.ensures_orFault fun v _ => ?_
  split
  · exact (w.letGo_ensures h t d rest).mono fun _ _ hnext => .inl hnext
  · exact Outcome.ensures_call (.inr rfl)

end Steps

namespace Machine

/-! ## Where a read with others ahead has come to -/

section ReadingAhead

variable {base : Stack g .fetched} {m n n' : Machine g} {d : DeviceNumber}
  {ahead : List BlockNumber} {h : Hold g}

/-- The read above `base` is suspended for the sake of its own block. -/
inductive ForItself (base : Stack g .fetched) (n : Machine g) : Prop
  /-- To get a buffer for it. -/
  | getting {d : DeviceNumber} {rest : List BlockNumber} :
      (Stack.push (.fetchingFirst d rest) base).Beneath n.stack → ForItself base n
  /-- To start its transfer. -/
  | starting {h : Hold g} {d : DeviceNumber} {rest : List BlockNumber} :
      (Stack.push (.issuingFirst h d rest) base).Beneath n.stack → ForItself base n
  /-- Until its transfer has ended. -/
  | settling {h : Hold g} : (Stack.push (.settling h) base).Beneath n.stack → ForItself base n
  /-- To give the buffer back, since the bytes are not there. -/
  | unwinding {f : Failure} : (Stack.push (.unwinding f) base).Beneath n.stack →
      ForItself base n

/-- What is done for a block ahead, the read does not do for its own. -/
theorem not_forItself_of_ahead {rest : List BlockNumber}
    (hn : (Stack.push (.fetchingAhead h d rest) base).Beneath n.stack) : ¬ ForItself base n := by
  intro hself
  cases hself with
  | getting hbeneath | starting hbeneath | settling hbeneath | unwinding hbeneath =>
    cases hn.eq_of_push hbeneath

/-- Where a read with blocks `ahead` above `base` has come to. -/
inductive ReadingAhead (d : DeviceNumber) (ahead : List BlockNumber) (base : Stack g .fetched)
    (m : Machine g) : Machine g → Prop
  | begins {w : World g} {number : BlockNumber} {given : List BlockNumber} :
      (if g.buffers > 1 then given else []) ⊆ ahead →
      ReadingAhead d ahead base m ⟨w, .fetched, .run (.fetchAhead ⟨d, number⟩ given), base⟩
  | gettingFirst {n : Machine g} {rest : List BlockNumber} : rest ⊆ ahead →
      (Stack.push (.fetchingFirst d rest) base).Beneath n.stack → ReadingAhead d ahead base m n
  | startingFirst {n : Machine g} {h : Hold g} {rest : List BlockNumber} : rest ⊆ ahead →
      (Stack.push (.issuingFirst h d rest) base).Beneath n.stack → ReadingAhead d ahead base m n
  | proceeds {w : World g} {h : Hold g} {rest : List BlockNumber} : rest ⊆ ahead →
      ReadingAhead d ahead base m ⟨w, .fetched, .run (.readAhead h d rest), base⟩
  | getting {n : Machine g} {w : World g} {h : Hold g} {number : BlockNumber}
      {rest : List BlockNumber} : number ∈ ahead → rest ⊆ ahead →
      Leads (¬ Returned base ·) m
        ⟨w, .hold, .run (.acquire ⟨d, number⟩), .push (.fetchingAhead h d rest) base⟩ →
      Leads (¬ Returned (.push (.fetchingAhead h d rest) base) ·)
        ⟨w, .hold, .run (.acquire ⟨d, number⟩), .push (.fetchingAhead h d rest) base⟩ n →
      ReadingAhead d ahead base m n
  | starting {n : Machine g} {w : World g} {h t : Hold g} {rest : List BlockNumber} :
      rest ⊆ ahead →
      Leads (¬ Returned (.push (.issuingAhead h t d rest) base) ·)
        ⟨w, .unit, .run (.issue .readAhead t.handle), .push (.issuingAhead h t d rest) base⟩ n →
      ReadingAhead d ahead base m n
  | settles {w : World g} {h : Hold g} :
      ReadingAhead d ahead base m ⟨w, .fetched, .run (.settle h), base⟩
  | settling {n : Machine g} {h : Hold g} : (Stack.push (.settling h) base).Beneath n.stack →
      ReadingAhead d ahead base m n
  | unwinding {n : Machine g} {f : Failure} : (Stack.push (.unwinding f) base).Beneath n.stack →
      ReadingAhead d ahead base m n
  | returned {w : World g} {v : Except Failure (Hold g)} :
      ReadingAhead d ahead base m ⟨w, .fetched, .give v, base⟩

/-- A move takes the read on. -/
theorem ReadingAhead.moves (h : ReadingAhead d ahead base m n)
    (hspan : Leads (¬ Returned base ·) m n) (hover : ¬ n.Returned base) (hmove : n.Moves n') :
    ReadingAhead d ahead base m n' := by
  cases h with
  | @begins w number given hgiven =>
    obtain ⟨w', next, hnext, rfl⟩ := moves_of_run hmove
    cases hnext
    exact .gettingFirst hgiven .here
  | @gettingFirst _ rest hrest hbeneath =>
    rcases resumes_or_beneath hbeneath hmove with ⟨w, v, w', next, rfl, hnext, rfl⟩ | hstill
    · rcases w.firstFetched_ensures v d rest w' next hnext with rfl | rfl
      · exact .proceeds hrest
      · exact .startingFirst hrest .here
    · exact .gettingFirst hrest hstill
  | @startingFirst _ h rest hrest hbeneath =>
    rcases resumes_or_beneath hbeneath hmove with ⟨w, v, w', next, rfl, hnext, rfl⟩ | hstill
    · cases hnext
      exact .proceeds hrest
    · exact .startingFirst hrest hstill
  | @proceeds w h rest hrest =>
    obtain ⟨w', next, hnext, rfl⟩ := moves_of_run hmove
    cases rest with
    | nil =>
      cases hnext
      exact .settles
    | cons number rest =>
      cases hnext
      obtain ⟨hnumber, hrest⟩ := List.cons_subset.mp hrest
      exact .getting hnumber hrest (hspan.tail ⟨hover, hmove⟩) .refl
  | @getting _ w₀ h number rest hnumber hrest hbegun hgetting =>
    by_cases hreturned : n.Returned (.push (.fetchingAhead h d rest) base)
    · obtain ⟨w, t, w', next, rfl, hnext, rfl⟩ := moves_of_returned hreturned hmove
      rcases w.aheadFetched_ensures h t d rest w' next hnext with rfl | rfl
      · exact .proceeds hrest
      · exact .starting hrest .refl
    · exact .getting hnumber hrest hbegun (hgetting.tail ⟨hreturned, hmove⟩)
  | @starting _ w₀ h t rest hrest hstarting =>
    by_cases hreturned : n.Returned (.push (.issuingAhead h t d rest) base)
    · obtain ⟨w, v, w', next, rfl, hnext, rfl⟩ := moves_of_returned hreturned hmove
      obtain rfl := w.letGo_ensures h t d rest w' next hnext
      exact .proceeds hrest
    · exact .starting hrest (hstarting.tail ⟨hreturned, hmove⟩)
  | settles =>
    obtain ⟨w', next, hnext, rfl⟩ := moves_of_run hmove
    cases hnext
    exact .settling .here
  | @settling _ h hbeneath =>
    rcases resumes_or_beneath hbeneath hmove with ⟨w, v, w', next, rfl, hnext, rfl⟩ | hstill
    · obtain ⟨rfl, -, ⟨-, rfl⟩ | ⟨-, rfl⟩⟩ := w.settled_ensures h w' next hnext
      · exact .returned
      · exact .unwinding .here
    · exact .settling hstill
  | @unwinding _ f hbeneath =>
    rcases resumes_or_beneath hbeneath hmove with ⟨w, v, w', next, rfl, hnext, rfl⟩ | hstill
    · cases hnext
      exact .returned
    · exact .unwinding hstill
  | returned => exact absurd ⟨_, _, rfl⟩ hover

/-- To start a transfer ahead of need does not give way. -/
theorem not_givesWay_of_ahead {a s : Shape} {f : Frame g a s} {base : Stack g s} {w : World g}
    {c : Call g a} (hc : c.Ahead)
    (hspan : Leads (¬ Returned (.push f base) ·) ⟨w, a, .run c, .push f base⟩ n)
    (hwork : n.AtWork base) : ¬ n.GivesWay := by
  intro hway
  have hmoves := Family.ahead_closed.moves_of_atWork hc (.push _ .here) hspan hwork
  match n, hway with
  | ⟨w, _, .run (.sleep q ticket), stack⟩, _ => exact hmoves.1

/-- The read gives way for its own block, or to get a buffer for one that is ahead. -/
theorem ReadingAhead.confined (h : ReadingAhead d ahead base m n) (hm : m.Reachable)
    (hwork : n.AtWork base) (hway : n.GivesWay) : ForItself base n ∨
      ∃ (h : Hold g) (number : BlockNumber) (rest : List BlockNumber), number ∈ ahead ∧
        Lacking ⟨d, number⟩ (.push (.fetchingAhead h d rest) base) n := by
  cases h with
  | begins | proceeds | settles | returned => exact hway.elim
  | gettingFirst _ hbeneath => exact .inl (.getting hbeneath)
  | startingFirst _ hbeneath => exact .inl (.starting hbeneath)
  | settling hbeneath => exact .inl (.settling hbeneath)
  | unwinding hbeneath => exact .inl (.unwinding hbeneath)
  | getting hnumber _ hbegun hgetting =>
    have hacquiring := Acquiring.of_leads (hm.leads hbegun) hgetting
    exact .inr ⟨_, _, _, hnumber, hacquiring.lacking hway⟩
  | @starting _ w h t rest _ hstarting =>
    have hissue : (Call.issue (g := g) .readAhead t.handle).Ahead := rfl
    exact absurd hway (not_givesWay_of_ahead hissue hstarting hwork)

theorem ReadingAhead.of_leads {w : World g} {number : BlockNumber} {given : List BlockNumber}
    (hgiven : (if g.buffers > 1 then given else []) ⊆ ahead)
    (hspan : Leads (¬ Returned base ·) ⟨w, .fetched, .run (.fetchAhead ⟨d, number⟩ given), base⟩
      n) : ReadingAhead d ahead base
      ⟨w, .fetched, .run (.fetchAhead ⟨d, number⟩ given), base⟩ n := by
  induction hspan with
  | refl => exact .begins hgiven
  | tail hpath hmove ih => exact ih.moves hpath hmove.1 hmove.2

/-- The read goes on with the blocks `rest` that are ahead. -/
def GoesOn (base : Stack g .fetched) (h : Hold g) (d : DeviceNumber) (rest : List BlockNumber)
    (n : Machine g) : Prop :=
  ∃ w, n = ⟨w, .fetched, .run (.readAhead h d rest), base⟩

/-- Where the handling of a block ahead has come to, if its buffer is got at once. -/
inductive Prompting (base : Stack g .fetched) (h : Hold g) (d : DeviceNumber)
    (rest : List BlockNumber) : Machine g → Prop
  | begins {w : World g} {number : BlockNumber} :
      (Call.acquire ⟨d, number⟩).Completes True (fun _ _ => True) w →
      Prompting base h d rest ⟨w, .fetched, .run (.readAhead h d (number :: rest)), base⟩
  | getting {n : Machine g} :
      n.Completes True (.push (.fetchingAhead h d rest) base) (fun _ => True) (fun _ _ => True) →
      Prompting base h d rest n
  | starting {n : Machine g} {w : World g} {t : Hold g} :
      Leads (¬ Returned (.push (.issuingAhead h t d rest) base) ·)
        ⟨w, .unit, .run (.issue .readAhead t.handle), .push (.issuingAhead h t d rest) base⟩ n →
      Prompting base h d rest n
  | goesOn {n : Machine g} : n.GoesOn base h d rest → Prompting base h d rest n

theorem Prompting.moves {rest : List BlockNumber} (hn : Prompting base h d rest n)
    (hover : ¬ n.GoesOn base h d rest) (hmove : n.Moves n') : Prompting base h d rest n' := by
  cases hn with
  | begins hcompletes =>
    obtain ⟨w', next, hnext, rfl⟩ := moves_of_run hmove
    cases hnext
    exact .getting (hcompletes.machine _)
  | getting hcompletes =>
    by_cases hreturned : n.Returned (.push (.fetchingAhead h d rest) base)
    · obtain ⟨w, t, w', next, rfl, hnext, rfl⟩ := moves_of_returned hreturned hmove
      rcases w.aheadFetched_ensures h t d rest w' next hnext with rfl | rfl
      · exact .goesOn ⟨_, rfl⟩
      · exact .starting .refl
    · exact .getting (hcompletes.leads (.single ⟨hreturned, hmove⟩))
  | @starting _ w t hstarting =>
    by_cases hreturned : n.Returned (.push (.issuingAhead h t d rest) base)
    · obtain ⟨w, v, w', next, rfl, hnext, rfl⟩ := moves_of_returned hreturned hmove
      obtain rfl := w.letGo_ensures h t d rest w' next hnext
      exact .goesOn ⟨_, rfl⟩
    · exact .starting (hstarting.tail ⟨hreturned, hmove⟩)
  | goesOn hgoes => exact absurd hgoes hover

theorem Prompting.not_givesWay {rest : List BlockNumber} (hn : Prompting base h d rest n)
    (hwork : n.AtWork base) : ¬ n.GivesWay := by
  cases hn with
  | begins _ => exact fun hway => hway.elim
  | getting hcompletes => exact hcompletes.not_givesWay
  | @starting _ w t hstarting =>
    have hissue : (Call.issue (g := g) .readAhead t.handle).Ahead := rfl
    exact not_givesWay_of_ahead hissue hstarting hwork
  | goesOn hgoes =>
    obtain ⟨w, rfl⟩ := hgoes
    exact fun hway => hway.elim

end ReadingAhead

/-! ## Every read with others ahead -/

/-- What a read with others ahead waits for. -/
structure ReadsAhead (m : Machine g) : Prop where
  /-- The read itself gives way on behalf of its own block, or to get a buffer for one of the
  blocks ahead, and nowhere else.  With a single buffer there are no blocks ahead. -/
  confined : ∀ {w b ahead n} {base : Stack g .fetched},
    m = ⟨w, .fetched, .run (.fetchAhead b ahead), base⟩ → Leads (¬ Returned base ·) m n →
    n.AtWork base → n.GivesWay → ForItself base n ∨
      g.buffers > 1 ∧ ∃ (h : Hold g) (number : BlockNumber) (rest : List BlockNumber),
        number ∈ ahead ∧
          Lacking ⟨b.device, number⟩ (.push (.fetchingAhead h b.device rest) base) n
  /-- Where a buffer for the next block ahead is lacking, the read does give way for it. -/
  waits : ∀ {w h d number rest} {base : Stack g .fetched},
    m = ⟨w, .fetched, .run (.readAhead h d (number :: rest)), base⟩ → d ≠ 0 →
    w.Lacks ⟨d, number⟩ → ∃ n, Leads (¬ Returned base ·) m n ∧ n.AtWork base ∧ n.GivesWay ∧
      Lacking ⟨d, number⟩ (.push (.fetchingAhead h d rest) base) n
  /-- Where a buffer for the next block ahead is offered, the read does not give way until it
  goes on with the rest, whether the transfer of the block could be started or not. -/
  prompt : ∀ {w h d number rest n} {base : Stack g .fetched},
    m = ⟨w, .fetched, .run (.readAhead h d (number :: rest)), base⟩ → d ≠ 0 →
    w.Offers ⟨d, number⟩ → Leads (¬ GoesOn base h d rest ·) m n → n.AtWork base → ¬ n.GivesWay
  /-- If all the bytes are there, also those of the blocks ahead, the read returns, and nothing
  gives way before. -/
  served : ∀ {w b ahead} {base : Stack g .fetched},
    m = ⟨w, .fetched, .run (.fetchAhead b ahead), base⟩ → b.device ≠ 0 → w.cache.Stocks b →
    (g.buffers > 1 → ∀ number ∈ ahead, w.cache.Stocks ⟨b.device, number⟩) →
      ∃ w' h, Leads (fun x => ¬ x.Returned base ∧ ¬ x.GivesWay) m
        ⟨w', .fetched, .give (.ok h), base⟩

/-- In every session, a read with others ahead waits for its own block, and to get buffers. -/
theorem Reachable.readsAhead {m : Machine g} (hm : m.Reachable) : m.ReadsAhead := by
  refine ⟨?_, ?_, ?_, ?_⟩
  · rintro w b ahead n base rfl hspan hwork hway
    have hreading := ReadingAhead.of_leads (List.Subset.refl _) hspan
    refine (hreading.confined hm hwork hway).imp_right ?_
    rintro ⟨h, number, rest, hnumber, hlacking⟩
    split at hnumber
    · exact ⟨‹_›, h, number, rest, hnumber, hlacking⟩
    · cases hnumber
  · rintro w h d number rest base rfl hdevice hlacks
    let stack : Stack g .hold := .push (.fetchingAhead h d rest) base
    obtain ⟨n, hspan, hwork, hway, hlacking⟩ := exists_givesWay_of_lacks hdevice hlacks stack
    have hbegin : (Call.readAhead h d (number :: rest)).begin w =
        .ok (w, .call (.acquire ⟨d, number⟩) (.fetchingAhead h d rest)) := rfl
    have hbegun : Leads (¬ Returned base ·)
        ⟨w, .fetched, .run (.readAhead h d (number :: rest)), base⟩
        ⟨w, .hold, .run (.acquire ⟨d, number⟩), stack⟩ := Leads.begin .refl hbegin
    exact ⟨n, hbegun.trans (hspan.of_push .here), hwork.of_push rfl, hway, hlacking⟩
  · rintro w h d number rest n base rfl hdevice hoffers hspan hwork
    -- Others may run in between; `Prompting` holds of their machines as well.
    suffices hprompting : Prompting base h d rest n from hprompting.not_givesWay hwork
    clear hwork
    induction hspan with
    | refl => exact .begins (hoffers.completes hm.chained hm.ringed hdevice)
    | tail _ hmove ih => exact ih.moves hmove.1 hmove.2
  · rintro w b ahead base rfl hdevice hb hahead
    have hcompletes := (Call.completes_fetchAhead_stocked hdevice hb hahead).machine base
    obtain ⟨w', v, hspan, h, rfl⟩ := hcompletes.exists_leads
    exact ⟨w', h, hspan⟩

/-- A client reads a block whose bytes are there, with another one ahead, which is just being
read for someone else.  The driver ends that transfer only when another task tells it to. -/
def readingBesides : Machine Geometry.small :=
  (((start ((World.initial Geometry.small).fresh []) (.register 1 ⟨1, .manual []⟩ [])).after
    20).commanded 20 [.acquire ⟨257, 3⟩ (some "f"), .markValid "f", .acquire ⟨257, 4⟩ (some "h"),
      .issue .read "h"]).next [[.finish 1 true]] (.fetchAhead ⟨257, 3⟩ [4] (some "x"))

theorem reachable_readingBesides (n : Nat) : (readingBesides.after n).Reachable :=
  ((((reachable_start [] _).after 20).commanded 20 _).next _ _).after n

/-- When the turn comes to the block ahead, a buffer for it is lacking. -/
theorem readsAhead_of_locked :
    ∃ (w : World Geometry.small) (h : Hold Geometry.small) (base : Stack Geometry.small .fetched),
      Reachable ⟨w, .fetched, .run (.readAhead h 257 [4]), base⟩ ∧ w.Lacks ⟨257, 4⟩ ∧
      ReadsAhead ⟨w, .fetched, .run (.readAhead h 257 [4]), base⟩ := by
  have hm := reachable_readingBesides 9
  have hlacks : (readingBesides.after 9).world.Lacks ⟨257, 4⟩ :=
    .locked (i := ⟨1, by decide⟩) (by decide) (by decide)
  exact ⟨(readingBesides.after 9).world, _, _, hm, hlacks, hm.readsAhead⟩

/-- The bytes of the block itself are there, in an unlocked buffer, and yet the read gives way:
it waits for the end of the transfer of the block ahead. -/
theorem givesWay_for_block_ahead :
    ∃ (w : World Geometry.small) (h : Hold Geometry.small) (base : Stack Geometry.small .fetched)
      (n : Machine Geometry.small),
      Reachable ⟨w, .fetched, .run (.fetchAhead ⟨257, 3⟩ [4]), base⟩ ∧
      w.cache.Stocks ⟨257, 3⟩ ∧
      Leads (¬ Returned base ·) ⟨w, .fetched, .run (.fetchAhead ⟨257, 3⟩ [4]), base⟩ n ∧
      n.AtWork base ∧ n.GivesWay ∧ ¬ ForItself base n ∧
      Lacking ⟨257, 4⟩ (.push (.fetchingAhead h 257 []) base) n := by
  let base : Stack Geometry.small .fetched := (readingBesides.after 1).stack
  have hbefore : ∀ u < 13, ((readingBesides.after 1).after u).gives .fetched = false := by decide
  obtain ⟨k, hspan, -⟩ := exists_turnover_after base hbefore
  have hstocks : (readingBesides.after 1).world.cache.Stocks ⟨257, 3⟩ :=
    ⟨⟨0, by decide⟩, by decide⟩
  have hwork : ((readingBesides.after 1).after 13).AtWork base :=
    ⟨.push rfl (.push rfl (.push rfl (.push rfl .here))), fun ⟨_, _, heq⟩ => nomatch heq⟩
  have hway : ((readingBesides.after 1).after 13).GivesWay := by
    change WaitQueue.holds _ _ = true
    decide
  have hlacking : Lacking ⟨257, 4⟩ (.push (.fetchingAhead ⟨⟨0, by decide⟩, 1⟩ 257 []) base)
      ((readingBesides.after 1).after 13) := .pinning (.push _ .here)
  exact ⟨_, _, base, _, reachable_readingBesides 1, hstocks, hspan.leads, hwork, hway,
    not_forItself_of_ahead hlacking.beneath, hlacking⟩

end Machine
end BufferCache
