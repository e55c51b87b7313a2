import BufferCache.Proofs.Fetching
import BufferCache.Proofs.Reads

/-!
# Where a page read has come to

A page read gets the buffers of all its blocks, one after the other, and then visits them in the
same order: it waits until the buffer is unlocked, takes the bytes if they are there, and gives the
buffer back.

`Gathering` and `Collecting` say where in this a page read is, and their step lemmas are all that is
needed of the calls in between.  `Paging` adds what has been on the way: `Holding`, for which of the
blocks it was given buffers, and `Copying`, what it has made of the buffers that it has visited.
-/

namespace BufferCache

variable {g : Geometry}

section Lists

variable {α : Type} {l l' : List α} {x y : α} {i : Nat}

/-- The last element of a list, or one of those before. -/
theorem getElem?_snoc (hy : (l ++ [x])[i]? = some y) :
    l[i]? = some y ∨ i = l.length ∧ y = x := by
  rw [List.getElem?_append] at hy
  split at hy
  · exact .inl hy
  · rw [List.getElem?_singleton] at hy
    split at hy
    · cases hy
      exact .inr ⟨by omega, rfl⟩
    · cases hy

theorem getElem?_of_isPrefix (hp : l <+: l') (hx : l[i]? = some x) : l'[i]? = some x := by
  obtain ⟨t, rfl⟩ := hp
  obtain ⟨hi, -⟩ := List.getElem?_eq_some_iff.mp hx
  rwa [List.getElem?_append_left hi]

end Lists

/-! ## Pages -/

/-- Part `i` of a page. -/
def part (i : Nat) (page : List UInt8) : List UInt8 :=
  (page.drop (i * blockSize)).take blockSize

/-- The page can hold the blocks, and the cache all that are distinct. -/
def Geometry.Accommodates (g : Geometry) (numbers : List BlockNumber) (page : List UInt8) : Prop :=
  blocksPerPage * blockSize ≤ page.length ∧ (numbers.toFinset.filter (· ≠ 0)).card ≤ g.buffers

namespace World

section Overlay

variable {chunks : List Page} {page : List UInt8} {p : Page} {i : Nat}

theorem length_chunks (chunks : List Page) :
    (chunks.flatMap (·.toList)).length = chunks.length * blockSize := by
  induction chunks with
  | nil => rfl
  | cons p chunks ih =>
    rw [List.flatMap_cons, List.length_append, ih, Vector.length_toList, List.length_cons,
      Nat.succ_mul, Nat.add_comm]

theorem part_overlay (h : chunks[i]? = some p) : part i (overlay chunks page) = p.toList := by
  unfold overlay
  generalize page.drop _ = rest
  induction chunks generalizing i with
  | nil => cases h
  | cons q chunks ih =>
    rw [List.flatMap_cons, List.append_assoc]
    cases i with
    | zero =>
      cases h
      rw [part, Nat.zero_mul, List.drop_zero]
      exact List.take_left' (Vector.length_toList ..)
    | succ i =>
      rw [part, Nat.succ_mul, Nat.add_comm, ← List.drop_drop,
        List.drop_left' (Vector.length_toList ..)]
      exact ih h

/-- What does not fit into the parts is left alone. -/
theorem drop_overlay (chunks : List Page) (page : List UInt8) :
    (overlay chunks page).drop (chunks.length * blockSize) =
      page.drop (chunks.length * blockSize) :=
  List.drop_left' (length_chunks chunks)

theorem length_overlay (h : chunks.length * blockSize ≤ page.length) :
    (overlay chunks page).length = page.length := by
  rw [overlay, List.length_append, length_chunks, List.length_drop]
  omega

end Overlay

/-! ## The steps of a page read -/

variable {w : World g} {d : DeviceNumber} {numbers : List BlockNumber} {page : List UInt8}

theorem fetchPage_of_accommodates (h : g.Accommodates numbers page) (w : World g)
    (d : DeviceNumber) : w.fetchPage d numbers page = w.goto (.gather d numbers [] page) := by
  obtain ⟨hlength, hcount⟩ := h
  rw [← distinctCount_eq_card] at hcount
  rw [fetchPage, if_neg (Nat.not_lt.mpr hlength), if_neg (Nat.not_lt.mpr hcount)]

/-- A page read that is refused is over at once. -/
theorem fetchPage_of_not_accommodates (h : ¬ g.Accommodates numbers page) (w : World g)
    (d : DeviceNumber) : ∃ f : Failure, f.kind = .invalidInput ∧
      w.fetchPage d numbers page = .ok (w, .done (.error f, page)) := by
  unfold fetchPage
  split
  · exact ⟨.pageTooShort, rfl, rfl⟩
  · rename_i hlength
    split
    · exact ⟨.tooFewBuffers, rfl, rfl⟩
    · rename_i hcount
      rw [distinctCount_eq_card] at hcount
      exact absurd ⟨Nat.not_lt.mp hlength, Nat.not_lt.mp hcount⟩ h

/-- What a page read does once it is given a buffer. -/
theorem gathered_ensures (w : World g) (d : DeviceNumber) (numbers : List BlockNumber)
    (held : Held g) (page : List UInt8) (h : Hold g) :
    (w.gathered d numbers held page h).Ensures fun _ next =>
      next = .goto (.gather d numbers (held ++ [some h]) page) ∨
        next = .call (.issue .read h.handle)
          (.gatherIssuing d numbers (held ++ [some h]) page) := by
  refine Outcome.ensures_orFault fun v _ => ?_
  split
  · exact Outcome.ensures_goto (.inl rfl)
  · exact Outcome.ensures_call (.inr rfl)

/-- What a page shows of buffer `i`: its bytes, if they are those of its block. -/
def shows (w : World g) (i : g.Buffer) : Page :=
  if (w.cache.header i).valid then w.cache.page i else Page.zero

/-- What a page read does when it visits a buffer. -/
theorem collected_ensures (w : World g) (h : Hold g) (held : Held g) (chunks : List Page)
    (failed : Bool) (page : List UInt8) :
    (w.collected h held chunks failed page).Ensures fun w' next =>
      w' = w ∧ w.cache.resolve h.handle = .ok h.buffer ∧
        next = .call (.release h.handle) (.collected held (chunks ++ [w.shows h.buffer])
          (failed || !(w.cache.header h.buffer).valid) page) := by
  refine Outcome.ensures_orFault fun v hv => ?_
  obtain ⟨hresolve, rfl⟩ := Cache.view_eq_ok hv
  change Outcome.Ensures (if (w.cache.header h.buffer).valid then _ else _) _
  unfold shows
  split
  · rename_i hvalid
    refine Outcome.ensures_call ⟨rfl, hresolve, ?_⟩
    rw [hvalid, Bool.not_true, Bool.or_false]
  · rename_i hinvalid
    refine Outcome.ensures_call ⟨rfl, hresolve, ?_⟩
    rw [Bool.eq_false_of_not_eq_true hinvalid, Bool.not_false, Bool.or_true]

end World

namespace Machine

variable {base : Stack g .page} {m n n' a b : Machine g} {d : DeviceNumber} {page : List UInt8}
  {held : Held g} {rest : List BlockNumber} {chunks : List Page} {failed : Bool} {h : Hold g}
  {i : Nat}

/-! ## Where a page read has come to -/

/-- The page read above `base` is given a buffer for its block number `i`. -/
def Receives (i : Nat) (h : Hold g) (base : Stack g .page) (m : Machine g) : Prop :=
  ∃ w d rest held page, List.length held = i ∧
    m = ⟨w, .hold, .give h, .push (.gathering d rest held page) base⟩

/-- The page read above `base` visits the buffer of its block number `i`. -/
def Visits (i : Nat) (h : Hold g) (base : Stack g .page) (m : Machine g) : Prop :=
  ∃ w held chunks failed page, List.length chunks = i ∧
    m = ⟨w, .unit, .give (), .push (.collecting h held chunks failed page) base⟩

/-- The page read above `base` has copied `chunks`, and failed or not, and has still to visit
`held`. -/
inductive Collecting (page : List UInt8) (base : Stack g .page) :
    Held g → List Page → Bool → Machine g → Prop
  | next {w : World g} {held : Held g} {chunks : List Page} {failed : Bool} :
      Collecting page base held chunks failed
        ⟨w, .page, .run (.collect held chunks failed page), base⟩
  | awaiting {h : Hold g} {held : Held g} {chunks : List Page} {failed : Bool} {n : Machine g} :
      (Stack.push (.collecting h held chunks failed page) base).Beneath n.stack →
      Collecting page base (some h :: held) chunks failed n
  | releasing {held : Held g} {chunks : List Page} {failed : Bool} {n : Machine g} :
      (Stack.push (.collected held chunks failed page) base).Beneath n.stack →
      Collecting page base held chunks failed n
  | returned {w : World g} {chunks : List Page} {failed : Bool} :
      Collecting page base [] chunks failed ⟨w, .page,
        .give (if failed then .error .pageUnread else .ok (), World.overlay chunks page), base⟩

/-- The page read above `base` has the buffers `held`, and has still to get those of the blocks
`rest`. -/
inductive Gathering (d : DeviceNumber) (page : List UInt8) (base : Stack g .page) :
    Held g → List BlockNumber → Machine g → Prop
  | next {w : World g} {held : Held g} {rest : List BlockNumber} :
      Gathering d page base held rest ⟨w, .page, .run (.gather d rest held page), base⟩
  | getting {w : World g} {held : Held g} {number : BlockNumber} {rest : List BlockNumber}
      {n : Machine g} : number ≠ 0 →
      Reachable ⟨w, .hold, .run (.acquire ⟨d, number⟩),
        .push (.gathering d rest held page) base⟩ →
      Leads (¬ Returned (.push (.gathering d rest held page) base) ·)
        ⟨w, .hold, .run (.acquire ⟨d, number⟩), .push (.gathering d rest held page) base⟩ n →
      Gathering d page base held (number :: rest) n
  | starting {held : Held g} {rest : List BlockNumber} {n : Machine g} :
      (Stack.push (.gatherIssuing d rest held page) base).Beneath n.stack →
      Gathering d page base held rest n

/-- A move leaves a page read that collects where it is, or takes it past a hole or a visit. -/
theorem Collecting.moves (hc : Collecting page base held chunks failed n)
    (hover : ¬ n.Returned base) (hmove : n.Moves n') :
    Collecting page base held chunks failed n' ∨
      (∃ held', held = none :: held' ∧
        Collecting page base held' (chunks ++ [Page.zero]) failed n') ∨
      ∃ h held', held = some h :: held' ∧ n.Visits chunks.length h base ∧
        n.generation h.buffer = h.generation ∧
        Collecting page base held' (chunks ++ [n.world.shows h.buffer])
          (failed || !n.valid h.buffer) n' := by
  cases hc with
  | @next w =>
    obtain ⟨w', next, hnext, rfl⟩ := moves_of_run hmove
    match held with
    | [] =>
      cases hnext
      exact .inl .returned
    | none :: held =>
      cases hnext
      exact .inr (.inl ⟨held, rfl, .next⟩)
    | some h :: held =>
      cases hnext
      exact .inl (.awaiting .here)
  | @awaiting h held _ _ _ hbeneath =>
    rcases resumes_or_beneath hbeneath hmove with ⟨w, v, w', next, rfl, hnext, rfl⟩ | hstill
    · obtain ⟨rfl, hresolve, rfl⟩ := w.collected_ensures h held chunks failed page w' next hnext
      exact .inr (.inr ⟨h, held, rfl, ⟨_, _, _, _, _, rfl, rfl⟩,
        (Cache.resolve_eq_ok hresolve).2.1, .releasing .here⟩)
    · exact .inl (.awaiting hstill)
  | releasing hbeneath =>
    rcases resumes_or_beneath hbeneath hmove with ⟨w, v, w', next, rfl, hnext, rfl⟩ | hstill
    · cases hnext
      exact .inl .next
    · exact .inl (.releasing hstill)
  | returned => exact absurd ⟨_, _, rfl⟩ hover

/-- A move leaves a page read that gathers where it is, takes it past a hole or a buffer that it is
given, or begins the visits. -/
theorem Gathering.moves (hg : Gathering d page base held rest n) (hn : n.Reachable)
    (hmove : n.Moves n') :
    Gathering d page base held rest n' ∨
      (∃ rest', rest = 0 :: rest' ∧ Gathering d page base (held ++ [none]) rest' n') ∨
      (∃ number rest' h, rest = number :: rest' ∧ number ≠ 0 ∧ n.Receives held.length h base ∧
        Gathering d page base (held ++ [some h]) rest' n') ∨
      rest = [] ∧ Collecting page base held [] false n' := by
  cases hg with
  | @next w =>
    obtain ⟨w', next, hnext, rfl⟩ := moves_of_run hmove
    cases rest with
    | nil =>
      cases hnext
      exact .inr (.inr (.inr ⟨rfl, .next⟩))
    | cons number rest =>
      change w.gather d (number :: rest) held page = _ at hnext
      rw [World.gather] at hnext
      split at hnext
      · rename_i hzero
        subst hzero
        cases hnext
        exact .inr (.inl ⟨rest, rfl, .next⟩)
      · rename_i hnumber
        cases hnext
        exact .inl (.getting hnumber (hn.moves hmove) .refl)
  | @getting w₀ _ number rest _ hnumber hbegun hspan =>
    by_cases hreturned : n.Returned (.push (.gathering d rest held page) base)
    · obtain ⟨w, h, w', next, rfl, hnext, rfl⟩ := moves_of_returned hreturned hmove
      have hreceives : Receives held.length h base
          ⟨w, .hold, .give h, .push (.gathering d rest held page) base⟩ :=
        ⟨_, _, _, _, _, rfl, rfl⟩
      refine .inr (.inr (.inl ⟨number, rest, h, rfl, hnumber, hreceives, ?_⟩))
      rcases w.gathered_ensures d rest held page h w' next hnext with rfl | rfl
      · exact .next
      · exact .starting .here
    · exact .inl (.getting hnumber hbegun (hspan.tail ⟨hreturned, hmove⟩))
  | starting hbeneath =>
    rcases resumes_or_beneath hbeneath hmove with ⟨w, v, w', next, rfl, hnext, rfl⟩ | hstill
    · cases hnext
      exact .inl .next
    · exact .inl (.starting hstill)

/-- A page read that is given a buffer has asked for it. -/
theorem Gathering.of_receives (hg : Gathering d page base held rest n)
    (hreceives : n.Receives i h base) : held.length = i ∧ ∃ number rest', rest = number :: rest' ∧
      number ≠ 0 ∧ Current ⟨d, number⟩ h n := by
  obtain ⟨w, d', rest', held', page', hlength, rfl⟩ := hreceives
  cases hg with
  | @getting w₀ _ number rest _ hnumber hbegun hspan =>
    have hpush := Stack.Beneath.eq_of_push (Leads.beneath hspan .here) .here
    cases hpush
    exact ⟨hlength, number, _, rfl, hnumber, (Acquiring.of_leads hbegun hspan).ended.2⟩
  | starting hbeneath => cases Stack.Beneath.eq_of_push hbeneath .here

/-- A visit copies what there is to be shown. -/
theorem Collecting.visit (hc : Collecting page base held chunks failed n)
    (hvisits : n.Visits i h base) (hmove : n.Moves n') : chunks.length = i ∧
      n.generation h.buffer = h.generation ∧ ∃ held',
        Collecting page base held' (chunks ++ [n.world.shows h.buffer])
          (failed || !n.valid h.buffer) n' := by
  obtain ⟨w, held', chunks', failed', page', hlength, rfl⟩ := hvisits
  cases hc with
  | awaiting hbeneath =>
    cases Stack.Beneath.eq_of_push hbeneath .here
    obtain ⟨w', next, hnext, rfl⟩ := moves_of_give hmove
    obtain ⟨rfl, hresolve, rfl⟩ := w.collected_ensures h _ _ _ _ w' next hnext
    exact ⟨hlength, (Cache.resolve_eq_ok hresolve).2.1, _, .releasing .here⟩
  | releasing hbeneath => cases Stack.Beneath.eq_of_push hbeneath .here

/-- From where a page read collects, it goes on to collect: what was copied stays, and a failure is
not forgotten. -/
theorem Collecting.leads (hc : Collecting page base held chunks failed m)
    (hspan : Leads (¬ Returned base ·) m n) : ∃ held' chunks' failed',
      Collecting page base held' chunks' failed' n ∧ chunks <+: chunks' ∧
        (failed = true → failed' = true) := by
  induction hspan with
  | refl => exact ⟨_, _, _, hc, List.prefix_rfl, id⟩
  | tail _ hmove ih =>
    obtain ⟨held', chunks', failed', hc', hprefix, hfailed⟩ := ih
    rcases hc'.moves hmove.1 hmove.2 with hstill | ⟨held'', -, hnext⟩ | ⟨h, held'', -, -, -, hnext⟩
    · exact ⟨_, _, _, hstill, hprefix, hfailed⟩
    · exact ⟨_, _, _, hnext, hprefix.trans (List.prefix_append _ _), hfailed⟩
    · refine ⟨_, _, _, hnext, hprefix.trans (List.prefix_append _ _), fun hf => ?_⟩
      rw [hfailed hf, Bool.true_or]

/-- A page read that collects and is over has visited all buffers. -/
theorem Collecting.ended {w : World g} {v : Except Failure Unit × List UInt8}
    (hc : Collecting page base held chunks failed ⟨w, .page, .give v, base⟩) :
    held = [] ∧ v = (if failed then .error .pageUnread else .ok (), World.overlay chunks page) := by
  cases hc with
  | awaiting hbeneath => exact absurd hbeneath (Stack.not_push_beneath _ _)
  | releasing hbeneath => exact absurd hbeneath (Stack.not_push_beneath _ _)
  | returned => exact ⟨rfl, rfl⟩

/-! ## Visits -/

/-- From `m` to `n`, the page read above `base` is given the buffer of `h` for its block number `i`
at `a`, and visits it at `b`. -/
structure Visited (on : Machine g → Prop) (i : Nat) (base : Stack g .page) (h : Hold g)
    (m a b n : Machine g) : Prop where
  /-- It comes to `a`. -/
  gets : Leads on m a
  /-- There it is given the buffer. -/
  received : a.Receives i h base
  /-- It goes on to `b`. -/
  waits : Leads on a b
  /-- There it visits the buffer. -/
  visits : b.Visits i h base
  /-- It goes on to `n`. -/
  ends : Leads on b n

/-- Up to `n`, the page read above `base` has got what it needs for its block number `i`: nothing for
a hole, and otherwise a buffer. -/
def Obtained (on : Machine g → Prop) (base : Stack g .page) (m n : Machine g) (i : Nat)
    (number : BlockNumber) (o : Option (Hold g)) : Prop :=
  number = 0 ∧ o = none ∨
    number ≠ 0 ∧ ∃ h a, o = some h ∧ Leads on m a ∧ a.Receives i h base ∧ Leads on a n

/-- Up to `n`, the page read above `base` has got `held` for the first of its blocks. -/
def Holding (on : Machine g → Prop) (base : Stack g .page) (m : Machine g)
    (numbers : List BlockNumber) (held : Held g) (n : Machine g) : Prop :=
  ∀ i o, held[i]? = some o → ∃ number, numbers[i]? = some number ∧
    Obtained on base m n i number o

/-- Up to `n`, the page read above `base` has copied `chunks` for `held`, and failed or not. -/
structure Copying (on : Machine g → Prop) (base : Stack g .page) (m : Machine g) (held : Held g)
    (chunks : List Page) (failed : Bool) (n : Machine g) : Prop where
  /-- Holes are filled with zeros. -/
  hole : ∀ i : Nat, held[i]? = some none → chunks[i]? = some Page.zero
  /-- Buffers were visited. -/
  visited : ∀ (i : Nat) (h : Hold g), held[i]? = some (some h) → ∃ a b, Visited on i base h m a b n
  /-- A failure was seen at one of the visits. -/
  failed : failed = true → ∃ i h a b, Visited on i base h m a b n ∧ b.valid h.buffer = false

section Evidence

variable {on : Machine g → Prop} {numbers : List BlockNumber} {number : BlockNumber}
  {o : Option (Hold g)}

theorem Visited.tail (hv : Visited on i base h m a b n) (hon : on n) (hmove : n.Moves n') :
    Visited on i base h m a b n' :=
  { hv with ends := hv.ends.tail ⟨hon, hmove⟩ }

theorem Visited.mono {on' : Machine g → Prop} (hv : Visited on i base h m a b n)
    (hon : ∀ x, on x → on' x) : Visited on' i base h m a b n where
  gets := Leads.mono hv.gets hon
  received := hv.received
  waits := Leads.mono hv.waits hon
  visits := hv.visits
  ends := Leads.mono hv.ends hon

theorem Obtained.tail (ho : Obtained on base m n i number o) (hon : on n) (hmove : n.Moves n') :
    Obtained on base m n' i number o := by
  rcases ho with hhole | ⟨hnumber, h, a, rfl, hspan, hreceives, hrest⟩
  · exact .inl hhole
  · exact .inr ⟨hnumber, h, a, rfl, hspan, hreceives, hrest.tail ⟨hon, hmove⟩⟩

theorem Holding.tail (hh : Holding on base m numbers held n) (hon : on n) (hmove : n.Moves n') :
    Holding on base m numbers held n' := by
  intro i o ho
  obtain ⟨number, hnumber, hobtained⟩ := hh i o ho
  exact ⟨number, hnumber, hobtained.tail hon hmove⟩

theorem Holding.nil : Holding on base m numbers [] n := by
  intro i o ho
  cases ho

theorem Holding.append (hh : Holding on base m numbers held n)
    (hnumber : numbers[held.length]? = some number)
    (ho : Obtained on base m n held.length number o) :
    Holding on base m numbers (held ++ [o]) n := by
  intro i o' ho'
  rcases getElem?_snoc ho' with hold | ⟨rfl, rfl⟩
  · exact hh i o' hold
  · exact ⟨number, hnumber, ho⟩

theorem Copying.nil : Copying on base m [] [] false n where
  hole i hi := by cases hi
  visited i h hi := by cases hi
  failed := nofun

theorem Copying.tail (hc : Copying on base m held chunks failed n) (hon : on n)
    (hmove : n.Moves n') : Copying on base m held chunks failed n' where
  hole := hc.hole
  visited i h hi := by
    obtain ⟨a, b, hv⟩ := hc.visited i h hi
    exact ⟨a, b, hv.tail hon hmove⟩
  failed hf := by
    obtain ⟨i, h, a, b, hv, hinvalid⟩ := hc.failed hf
    exact ⟨i, h, a, b, hv.tail hon hmove, hinvalid⟩

/-- A hole is passed. -/
theorem Copying.hollow (hc : Copying on base m held chunks failed n)
    (hlength : held.length = chunks.length) :
    Copying on base m (held ++ [none]) (chunks ++ [Page.zero]) failed n where
  hole i hi := by
    rcases getElem?_snoc hi with hold | ⟨rfl, -⟩
    · exact getElem?_of_isPrefix (List.prefix_append _ _) (hc.hole i hold)
    · rw [hlength]
      exact List.getElem?_concat_length
  visited i h hi := by
    rcases getElem?_snoc hi with hold | ⟨rfl, hh⟩
    · exact hc.visited i h hold
    · cases hh
  failed := hc.failed

/-- A visit is over. -/
theorem Copying.visit (hc : Copying on base m held chunks failed n) {p : Page} {valid : Bool}
    (hv : Visited on held.length base h m a b n) (hvalid : b.valid h.buffer = valid) :
    Copying on base m (held ++ [some h]) (chunks ++ [p]) (failed || !valid) n where
  hole i hi := by
    rcases getElem?_snoc hi with hold | ⟨-, hh⟩
    · exact getElem?_of_isPrefix (List.prefix_append _ _) (hc.hole i hold)
    · cases hh
  visited i t hi := by
    rcases getElem?_snoc hi with hold | ⟨rfl, hh⟩
    · exact hc.visited i t hold
    · cases hh
      exact ⟨a, b, hv⟩
  failed hf := by
    rw [Bool.or_eq_true] at hf
    rcases hf with hf | hinvalid
    · exact hc.failed hf
    · refine ⟨_, h, a, b, hv, ?_⟩
      cases valid with
      | true => cases hinvalid
      | false => exact hvalid

end Evidence

/-! ## Where a page read is as a whole -/

/-- Where the page read above `base` has come to that began at `m`. -/
inductive Paging (on : Machine g → Prop) (d : DeviceNumber) (numbers : List BlockNumber)
    (page : List UInt8) (base : Stack g .page) (m : Machine g) : Machine g → Prop
  | begins {w : World g} :
      Paging on d numbers page base m ⟨w, .page, .run (.fetchPage d numbers page), base⟩
  | gathers {seen rest : List BlockNumber} {held : Held g} {n : Machine g} :
      numbers = seen ++ rest → seen.length = held.length → Holding on base m numbers held n →
      Gathering d page base held rest n → Paging on d numbers page base m n
  | collects {past held : Held g} {chunks : List Page} {failed : Bool} {n : Machine g} :
      (past ++ held).length = numbers.length → past.length = chunks.length →
      Holding on base m numbers (past ++ held) n → Copying on base m past chunks failed n →
      Collecting page base held chunks failed n → Paging on d numbers page base m n

section Paging

variable {on : Machine g → Prop} {numbers : List BlockNumber} {number : BlockNumber}

theorem getElem?_middle {α : Type} {l r : List α} {x : α} : (l ++ x :: r)[l.length]? = some x := by
  rw [List.getElem?_append_right (Nat.le_refl _), Nat.sub_self]
  rfl

/-- A move takes a page read on. -/
theorem Paging.moves (hp : Paging on d numbers page base m n) (hm : m.Reachable)
    (hfits : g.Accommodates numbers page) (hspan : Leads on m n) (hon : on n)
    (hover : ¬ n.Returned base) (hmove : n.Moves n') : Paging on d numbers page base m n' := by
  cases hp with
  | begins =>
    obtain ⟨w', next, hnext, rfl⟩ := moves_of_run hmove
    change World.fetchPage _ _ _ _ = _ at hnext
    rw [World.fetchPage_of_accommodates hfits] at hnext
    cases hnext
    exact .gathers (List.nil_append _).symm rfl .nil .next
  | @gathers seen rest held _ hnumbers hlength hholding hgathering =>
    have hholding' := hholding.tail hon hmove
    rcases hgathering.moves (hm.leads hspan) hmove with hstill | ⟨rest', rfl, hnext⟩ |
      ⟨number, rest', h, rfl, hnumber, hreceives, hnext⟩ | ⟨rfl, hcollecting⟩
    · exact .gathers hnumbers hlength hholding' hstill
    · have hzero : numbers[held.length]? = some 0 := by
        rw [hnumbers, ← hlength]
        exact getElem?_middle
      refine .gathers (hnumbers.trans (List.append_cons ..)) ?_
        (hholding'.append hzero (.inl ⟨rfl, rfl⟩)) hnext
      rw [List.length_append, List.length_append, hlength]
      rfl
    · have hnext' : numbers[held.length]? = some number := by
        rw [hnumbers, ← hlength]
        exact getElem?_middle
      have hobtained : Obtained on base m n' held.length number (some h) :=
        .inr ⟨hnumber, h, n, rfl, hspan, hreceives, .single ⟨hon, hmove⟩⟩
      refine .gathers (hnumbers.trans (List.append_cons ..)) ?_
        (hholding'.append hnext' hobtained) hnext
      rw [List.length_append, List.length_append, hlength]
      rfl
    · rw [List.append_nil] at hnumbers
      have hsame : (([] : Held g) ++ held).length = numbers.length := hnumbers ▸ hlength.symm
      exact .collects hsame rfl hholding' .nil hcollecting
  | @collects past held chunks failed _ hlength hpast hholding hcopying hcollecting =>
    have hholding' := hholding.tail hon hmove
    have hcopying' := hcopying.tail hon hmove
    rcases hcollecting.moves hover hmove with hstill | ⟨held', rfl, hnext⟩ |
      ⟨h, held', rfl, hvisits, -, hnext⟩
    · exact .collects hlength hpast hholding' hcopying' hstill
    · rw [List.append_cons] at hlength hholding'
      refine .collects hlength ?_ hholding' (hcopying'.hollow hpast) hnext
      rw [List.length_append, List.length_append, hpast]
      rfl
    · obtain ⟨number, -, hobtained⟩ := hholding past.length (some h) getElem?_middle
      obtain ⟨-, hnone⟩ | ⟨-, t, a, heq, hgets, hreceives, hwaits⟩ := hobtained
      · cases hnone
      cases heq
      rw [← hpast] at hvisits
      have hvisited : Visited on past.length base h m a n n' :=
        ⟨hgets, hreceives, hwaits, hvisits, .single ⟨hon, hmove⟩⟩
      rw [List.append_cons] at hlength hholding'
      refine .collects hlength ?_ hholding' (hcopying'.visit hvisited rfl) hnext
      rw [List.length_append, List.length_append, hpast]
      rfl

theorem Paging.of_leads {w : World g}
    (hm : Reachable ⟨w, .page, .run (.fetchPage d numbers page), base⟩)
    (hfits : g.Accommodates numbers page) (hon : ∀ x, on x → ¬ x.Returned base)
    (hspan : Leads on ⟨w, .page, .run (.fetchPage d numbers page), base⟩ n) :
    Paging on d numbers page base ⟨w, .page, .run (.fetchPage d numbers page), base⟩ n := by
  induction hspan with
  | refl => exact .begins
  | tail hpath hmove ih => exact ih.moves hm hfits hpath hmove.1 (hon _ hmove.1) hmove.2

/-- A page read that is given a buffer has asked for it. -/
theorem Paging.of_receives (hp : Paging on d numbers page base m n)
    (hreceives : n.Receives i h base) :
    ∃ number, numbers[i]? = some number ∧ number ≠ 0 ∧ Current ⟨d, number⟩ h n := by
  cases hp with
  | begins =>
    obtain ⟨w, d', rest', held', page', -, heq⟩ := hreceives
    cases heq
  | gathers hnumbers hlength _ hgathering =>
    obtain ⟨rfl, number, rest', rfl, hnumber, hcurrent⟩ := hgathering.of_receives hreceives
    refine ⟨number, ?_, hnumber, hcurrent⟩
    rw [hnumbers, ← hlength]
    exact getElem?_middle
  | collects _ _ _ _ hcollecting =>
    obtain ⟨w, d', rest', held', page', -, rfl⟩ := hreceives
    cases hcollecting with
    | awaiting hbeneath => cases Stack.Beneath.eq_of_push hbeneath .here
    | releasing hbeneath => cases Stack.Beneath.eq_of_push hbeneath .here

/-- A page read that visits a buffer collects. -/
theorem Paging.of_visits (hp : Paging on d numbers page base m n) (hvisits : n.Visits i h base) :
    ∃ held chunks failed, Collecting page base held chunks failed n := by
  cases hp with
  | begins =>
    obtain ⟨w, held', chunks', failed', page', -, heq⟩ := hvisits
    cases heq
  | gathers _ _ _ hgathering =>
    obtain ⟨w, held', chunks', failed', page', -, rfl⟩ := hvisits
    cases hgathering with
    | getting _ _ hspan => cases Stack.Beneath.eq_of_push (Leads.beneath hspan .here) .here
    | starting hbeneath => cases Stack.Beneath.eq_of_push hbeneath .here
  | collects _ _ _ _ hcollecting => exact ⟨_, _, _, hcollecting⟩

/-- A page read that is over has visited all its buffers. -/
theorem Paging.ended {w : World g} {v : Except Failure Unit × List UInt8}
    (hp : Paging on d numbers page base m ⟨w, .page, .give v, base⟩) :
    ∃ held chunks failed, List.length held = numbers.length ∧ List.length chunks = numbers.length ∧
      Holding on base m numbers held ⟨w, .page, .give v, base⟩ ∧
      Copying on base m held chunks failed ⟨w, .page, .give v, base⟩ ∧
      v = (if failed then .error .pageUnread else .ok (), World.overlay chunks page) := by
  cases hp with
  | gathers _ _ _ hgathering =>
    cases hgathering with
    | getting _ _ hspan => exact absurd (Leads.beneath hspan .here) (Stack.not_push_beneath _ _)
    | starting hbeneath => exact absurd hbeneath (Stack.not_push_beneath _ _)
  | @collects past held chunks failed _ hlength hpast hholding hcopying hcollecting =>
    obtain ⟨rfl, hv⟩ := hcollecting.ended
    rw [List.append_nil] at hlength hholding
    exact ⟨past, chunks, failed, hlength, hpast.symm.trans hlength, hholding, hcopying, hv⟩

end Paging

end Machine
end BufferCache
