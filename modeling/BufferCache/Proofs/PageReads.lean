import Mathlib
import BufferCache.Proofs.Paging
import BufferCache.Proofs.Progress
import BufferCache.Proofs.Traffic

/-!
# What comes of reading a page

What a part of a page shows is told by the visit of its buffer, and the read fails just if the bytes
were not there at one of the visits.  What is known of a visit is read off the place of the read at
its two ends, where it was given the buffer and where it looks at it.  From there the parts that
were copied stay what they are; so each visit decides what is shown, however often others run.

Others cannot run while no call gives way.  Then nothing is changed between the visits of a page
read but the counts of references, and two visits for one block show the same.

That the buffer of a visit still holds its block is told by its generation, so it takes a proviso:
the generation did not come round since the buffer was received.  Clients that give back what they
do not have can make it do so, and then a part shows another block; the last section is a run in
which this happens.
-/

namespace BufferCache

variable {g : Geometry}

/-! ## Visits without others -/

/-- The calls that a page read makes for its visits. -/
def Call.Visiting {s : Shape} : Call g s → Prop
  | .sleep _ _ | .awaitUnlock _ | .release _ | .collect _ _ _ _ => True
  | _ => False

/-- The suspended ones among them. -/
def Frame.Visiting {a s : Shape} : Frame g a s → Prop
  | .awaitingUnlock _ | .releasing _ _ | .collecting _ _ _ _ _ | .collected _ _ _ _ => True
  | _ => False

/-- The family of these calls. -/
def Family.visiting (g : Geometry) : Family g where
  call := Call.Visiting
  frame := Frame.Visiting

/-- What comes next is made for a visit, and is not a script. -/
def Next.Visiting {s : Shape} : Next g s → Prop
  | .done _ => True
  | .goto c => c.Visiting
  | .call c f => c.Visiting ∧ f.Visiting

section Visiting

variable {a s : Shape} {w : World g}

/-- A call that is made for a visit changes nothing when it begins, unless it gives way. -/
theorem Call.Visiting.begin {c : Call g s} (hc : c.Visiting) {stack : Stack g s}
    (hway : ¬ Machine.GivesWay ⟨w, s, .run c, stack⟩) :
    (c.begin w).Ensures fun w' next => next.Visiting ∧ w.cache.Alike w'.cache := by
  cases c with
  | sleep q ticket =>
    change (w.sleep q ticket).Ensures _
    have hwoken : ¬ (w.cache.queue q).holds ticket = true := hway
    rw [World.sleep, if_neg hwoken]
    exact Outcome.ensures_done ⟨trivial, .refl _⟩
  | awaitUnlock i =>
    change (w.awaitUnlock i).Ensures _
    unfold World.awaitUnlock
    split
    · exact Outcome.ensures_call ⟨⟨trivial, trivial⟩, .refl _⟩
    · exact Outcome.ensures_done ⟨trivial, .refl _⟩
  | release h =>
    exact Outcome.ensures_orFault fun i _ =>
      Outcome.ensures_call ⟨⟨trivial, trivial⟩, .refl _⟩
  | collect held chunks failed page =>
    rcases held with _ | ⟨_ | h, held⟩
    · exact Outcome.ensures_done ⟨trivial, .refl _⟩
    · exact Outcome.ensures_goto ⟨trivial, .refl _⟩
    · exact Outcome.ensures_call ⟨⟨trivial, trivial⟩, .refl _⟩
  | _ => exact hc.elim

/-- When it is given a value, it takes back a reference at most. -/
theorem Frame.Visiting.resume {f : Frame g a s} (hf : f.Visiting) (v : a.Value g) (w : World g) :
    (f.resume v w).Ensures fun w' next => next.Visiting ∧ w.cache.Alike w'.cache := by
  cases f with
  | awaitingUnlock i => exact Outcome.ensures_goto ⟨trivial, .refl _⟩
  | releasing h i =>
    change (w.released i).Ensures _
    unfold World.released
    split
    · exact Outcome.ensures_fault
    · exact Outcome.ensures_done ⟨trivial, Cache.alike_unrefer _ _⟩
  | collecting h held chunks failed page =>
    refine (w.collected_ensures h held chunks failed page).mono fun w' next hn => ?_
    obtain ⟨rfl, -, rfl⟩ := hn
    exact ⟨⟨trivial, trivial⟩, .refl _⟩
  | collected held chunks failed page => exact Outcome.ensures_goto ⟨trivial, .refl _⟩
  | _ => exact hf.elim

theorem Family.visiting_next {base : Stack g a} {stack : Stack g s} {next : Next g s}
    (hnext : next.Visiting) (habove : (Family.visiting g).Above base stack) (w : World g) :
    (Family.visiting g).Moves base (next.machine w stack) := by
  cases next with
  | done v => exact habove
  | goto c => exact ⟨hnext, habove⟩
  | call c f =>
    obtain ⟨hc, hf⟩ := hnext
    refine ⟨hc, .push hf ?_ habove⟩
    cases f <;> first | rfl | exact hf.elim

end Visiting

namespace Machine

variable {base : Stack g .page} {m n n' a b : Machine g} {d : DeviceNumber} {page : List UInt8}
  {h : Hold g} {i : Nat}

/-- From one visit on, a page read that does not give way changes nothing but counts. -/
theorem Visits.alike (hv : n.Visits i h base)
    (hspan : Leads (fun x => ¬ x.Returned base ∧ ¬ x.GivesWay) n n') :
    (Family.visiting g).Moves base n' ∧ n.world.cache.Alike n'.world.cache := by
  induction hspan with
  | refl =>
    obtain ⟨w, held, chunks, failed, page, -, rfl⟩ := hv
    exact ⟨.push trivial rfl .here, .refl _⟩
  | tail _ hmove ih =>
    obtain ⟨⟨hover, hway⟩, hmove⟩ := hmove
    obtain ⟨hmoves, halike⟩ := ih
    cases hmoves.makes hover hmove with
    | begin hc habove hnext =>
      obtain ⟨hvisiting, hsame⟩ := Call.Visiting.begin hc hway _ _ hnext
      refine ⟨Family.visiting_next hvisiting habove _, halike.trans ?_⟩
      rw [world_next]
      exact hsame
    | resume hf habove hnext =>
      obtain ⟨hvisiting, hsame⟩ := Frame.Visiting.resume hf _ _ _ _ hnext
      refine ⟨Family.visiting_next hvisiting habove _, halike.trans ?_⟩
      rw [world_next]
      exact hsame

/-! ## Every page read -/

section Pages

variable {numbers : Vector BlockNumber blocksPerPage} {w w' : World g}
  {result : Except Failure Unit} {page' : List UInt8}

/-- From `m` to `n`, buffer `i` is not given so many blocks that its generation comes round. -/
def Outlasts (on : Machine g → Prop) (i : g.Buffer) (m n : Machine g) : Prop :=
  ∀ r, Reuses on i m r n → r < UInt32.size

/-- A reference to a buffer for block `b` was received at `m`, and at `n` the buffer is visited. -/
structure Attends (on : Machine g → Prop) (b : Block) (h : Hold g) (m n : Machine g) : Prop where
  /-- It was for the buffer that held the block, in its generation then. -/
  current : Current b h m
  /-- The buffer is unlocked now. -/
  unlocked : (n.world.cache.header h.buffer).locked = false
  /-- It is in the same generation. -/
  generation : n.generation h.buffer = h.generation
  /-- It still holds the block, provided that its generation has not come round. -/
  holds : Outlasts on h.buffer m n → n.content h.buffer = some b

/-- The page `page` was read above `base` from `m` to `n`, by which it became `page'`. -/
structure PageRead (d : DeviceNumber) (numbers : Vector BlockNumber blocksPerPage)
    (page : List UInt8) (base : Stack g .page) (m n : Machine g) (result : Except Failure Unit)
    (page' : List UInt8) : Prop where
  /-- A part for a hole is zero. -/
  hole : ∀ i : Fin blocksPerPage, numbers[i] = 0 → part i page' = Page.zero.toList
  /-- For any other part, a buffer was received and visited. -/
  visited : ∀ i : Fin blocksPerPage, numbers[i] ≠ 0 →
    ∃ h a b, Visited (¬ Returned base ·) i base h m a b n
  /-- It was that of the block. -/
  attends : ∀ {i : Fin blocksPerPage} {h a b}, Visited (¬ Returned base ·) i base h m a b n →
    Attends (¬ Returned base ·) ⟨d, numbers[i]⟩ h a b
  /-- If it was valid when it was visited the part has its bytes, and otherwise it is zero. -/
  shown : ∀ {i : Fin blocksPerPage} {h a b}, Visited (¬ Returned base ·) i base h m a b n →
    part i page' = (if b.valid h.buffer then b.world.cache.page h.buffer else Page.zero).toList
  /-- If some buffer was not valid the read failed, with the kind of failure of a device. -/
  failed : (∃ i h a b, Visited (¬ Returned base ·) i base h m a b n ∧ b.valid h.buffer = false) →
    ∃ f, result = .error f ∧ f.kind = .io
  /-- If all were valid it did not fail. -/
  succeeded : (∀ {i h a b}, Visited (¬ Returned base ·) i base h m a b n →
    b.valid h.buffer = true) → result = .ok ()
  /-- The page is as long as before. -/
  length : page'.length = page.length
  /-- What lies beyond the parts is as before. -/
  rest : page'.drop (blocksPerPage * blockSize) = page.drop (blocksPerPage * blockSize)

/-- What comes of reading a page. -/
structure ReadsPages (m : Machine g) : Prop where
  /-- If the page cannot hold the blocks, or the cache cannot hold those that are distinct, the read
  is over with the next step, which changes neither the world nor the page. -/
  refused : ∀ {w d} {numbers : Vector BlockNumber blocksPerPage} {page} {base : Stack g .page},
    m = ⟨w, .page, .run (.fetchPage d numbers.toList page), base⟩ →
    ¬ g.Accommodates numbers.toList page → ∃ f, f.kind = .invalidInput ∧
      m.step = .running ⟨w, .page, .give (.error f, page), base⟩
  /-- Otherwise, when it is over, the page shows the blocks. -/
  read : ∀ {w w' d} {numbers : Vector BlockNumber blocksPerPage} {page page' result}
    {base : Stack g .page}, m = ⟨w, .page, .run (.fetchPage d numbers.toList page), base⟩ →
    g.Accommodates numbers.toList page →
    Leads (¬ Returned base ·) m ⟨w', .page, .give (result, page'), base⟩ →
      PageRead d numbers page base m ⟨w', .page, .give (result, page'), base⟩ result page'
  /-- The read itself has given back all references that it took. -/
  added : ∀ {w w' d j t v} {numbers : Vector BlockNumber blocksPerPage} {page}
    {base : Stack g .page}, m = ⟨w, .page, .run (.fetchPage d numbers.toList page), base⟩ →
    Adds base j m t ⟨w', .page, .give v, base⟩ → t = 0
  /-- If no call gave way meanwhile, parts for the same block are the same; provided that no
  generation came round before a visit. -/
  alike : ∀ {w w' d} {numbers : Vector BlockNumber blocksPerPage} {page page' result}
    {base : Stack g .page}, m = ⟨w, .page, .run (.fetchPage d numbers.toList page), base⟩ →
    g.Accommodates numbers.toList page →
    Leads (fun x => ¬ x.Returned base ∧ ¬ x.GivesWay) m ⟨w', .page, .give (result, page'), base⟩ →
    (∀ {i h a b}, Visited (¬ Returned base ·) i base h m a b
      ⟨w', .page, .give (result, page'), base⟩ → Outlasts (¬ Returned base ·) h.buffer a b) →
    ∀ i j : Fin blocksPerPage, numbers[i] = numbers[j] → part i page' = part j page'

theorem getElem?_toList (numbers : Vector BlockNumber blocksPerPage) (i : Fin blocksPerPage) :
    numbers.toList[i.val]? = some numbers[i] := by
  rw [List.getElem?_eq_getElem (by rw [Vector.length_toList]; exact i.isLt)]
  exact congrArg some (Vector.getElem_toList ..)

/-- What is true when a buffer is visited. -/
theorem Visited.attends {numbers : List BlockNumber}
    (hv : Visited (¬ Returned base ·) i base h
      ⟨w, .page, .run (.fetchPage d numbers page), base⟩ a b
      ⟨w', .page, .give (result, page'), base⟩)
    (hm : Reachable ⟨w, .page, .run (.fetchPage d numbers page), base⟩)
    (hfits : g.Accommodates numbers page) : ∃ number, numbers[i]? = some number ∧ number ≠ 0 ∧
      Attends (¬ Returned base ·) ⟨d, number⟩ h a b ∧
      part i page' = (b.world.shows h.buffer).toList ∧
      (b.valid h.buffer = false → result = .error .pageUnread) := by
  have hb := hv.gets.trans hv.waits
  obtain ⟨number, hnumber, hne, hcurrent⟩ :=
    (Paging.of_leads hm hfits (fun _ hx => hx) hv.gets).of_receives hv.received
  obtain ⟨held, chunks, failed, hcollecting⟩ :=
    (Paging.of_leads hm hfits (fun _ hx => hx) hb).of_visits hv.visits
  have hunlocked : (b.world.cache.header h.buffer).locked = false := by
    have horderly := (hm.leads hb).consistent.orderly
    obtain ⟨w₁, held₁, chunks₁, failed₁, page₁, -, rfl⟩ := hv.visits
    exact horderly.1
  rcases hv.ends.cases_head with rfl | ⟨x, ⟨-, hmove⟩, hrest⟩
  · obtain ⟨w₁, held₁, chunks₁, failed₁, page₁, -, heq⟩ := hv.visits
    cases heq
  obtain ⟨rfl, hgeneration, held₁, hvisited⟩ := hcollecting.visit hv.visits hmove
  obtain ⟨held₂, chunks₂, failed₂, hended, hprefix, hfailed⟩ := hvisited.leads hrest
  obtain ⟨-, heq⟩ := hended.ended
  cases heq
  refine ⟨number, hnumber, hne, ⟨hcurrent, hunlocked, hgeneration, fun houtlasts => ?_⟩, ?_,
    fun hinvalid => if_pos (hfailed ?_)⟩
  · obtain ⟨r, hr⟩ := Reuses.exists_of_leads hv.waits h.buffer
    have hround := (hr.generation_eq_iff (hm.leads hv.gets)).mp
      (hgeneration.trans hcurrent.generation.symm)
    obtain rfl : r = 0 := Nat.eq_zero_of_dvd_of_lt hround (houtlasts r hr)
    exact hr.content_eq.trans hcurrent.holds
  · exact World.part_overlay (getElem?_of_isPrefix hprefix List.getElem?_concat_length)
  · rw [hinvalid, Bool.not_false, Bool.or_true]

/-- When a page read is over, each part is for a hole, or a buffer was visited for it. -/
theorem hole_or_visited {on : Machine g → Prop} {v : Except Failure Unit × List UInt8}
    (hm : Reachable ⟨w, .page, .run (.fetchPage d numbers.toList page), base⟩)
    (hfits : g.Accommodates numbers.toList page) (hon : ∀ x, on x → ¬ x.Returned base)
    (hspan : Leads on ⟨w, .page, .run (.fetchPage d numbers.toList page), base⟩
      ⟨w', .page, .give v, base⟩) (i : Fin blocksPerPage) :
    numbers[i] = 0 ∧ part i v.2 = Page.zero.toList ∨ numbers[i] ≠ 0 ∧ ∃ h a b,
      Visited on i base h ⟨w, .page, .run (.fetchPage d numbers.toList page), base⟩ a b
        ⟨w', .page, .give v, base⟩ := by
  obtain ⟨held, chunks, failed, hheld, -, hholding, hcopying, rfl⟩ :=
    (Paging.of_leads hm hfits hon hspan).ended
  have hi : i.val < held.length := by
    rw [hheld, Vector.length_toList]
    exact i.isLt
  have ho := List.getElem?_eq_getElem hi
  obtain ⟨number, hnumber, hobtained⟩ := hholding i _ ho
  cases (getElem?_toList numbers i).symm.trans hnumber
  rcases hobtained with ⟨hzero, hnone⟩ | ⟨hne, h, a, hsome, -⟩
  · rw [hnone] at ho
    exact .inl ⟨hzero, World.part_overlay (hcopying.hole i ho)⟩
  · rw [hsome] at ho
    exact .inr ⟨hne, h, hcopying.visited i h ho⟩

/-- What has been read when a page read is over. -/
theorem pageRead_of_leads
    (hm : Reachable ⟨w, .page, .run (.fetchPage d numbers.toList page), base⟩)
    (hfits : g.Accommodates numbers.toList page)
    (hspan : Leads (¬ Returned base ·) ⟨w, .page, .run (.fetchPage d numbers.toList page), base⟩
      ⟨w', .page, .give (result, page'), base⟩) :
    PageRead d numbers page base ⟨w, .page, .run (.fetchPage d numbers.toList page), base⟩
      ⟨w', .page, .give (result, page'), base⟩ result page' := by
  have hparts := hole_or_visited hm hfits (fun _ hx => hx) hspan
  obtain ⟨held, chunks, failed, -, hchunks, -, hcopying, heq⟩ :=
    (Paging.of_leads hm hfits (fun _ hx => hx) hspan).ended
  cases heq
  have hcount : chunks.length = blocksPerPage := hchunks.trans (Vector.length_toList ..)
  refine ⟨fun i hzero => ?_, fun i hne => ?_, fun {i} h a b hv => ?_, fun {i} h a b hv => ?_, ?_,
    fun hvalid => ?_, ?_, ?_⟩
  · rcases hparts i with ⟨-, hhole⟩ | ⟨hne, -⟩
    · exact hhole
    · exact absurd hzero hne
  · rcases hparts i with ⟨hzero, -⟩ | ⟨-, hvisited⟩
    · exact absurd hzero hne
    · exact hvisited
  · obtain ⟨number, hnumber, -, hattends, -⟩ := hv.attends hm hfits
    cases (getElem?_toList numbers i).symm.trans hnumber
    exact hattends
  · obtain ⟨-, -, -, -, hshown, -⟩ := hv.attends hm hfits
    exact hshown
  · rintro ⟨i, h, a, b, hv, hinvalid⟩
    obtain ⟨-, -, -, -, -, hfailed⟩ := hv.attends hm hfits
    exact ⟨.pageUnread, hfailed hinvalid, rfl⟩
  · refine if_neg fun hfailed => ?_
    obtain ⟨i, h, a, b, hv, hinvalid⟩ := hcopying.failed hfailed
    exact Bool.false_ne_true (hinvalid.symm.trans (hvalid hv))
  · exact World.length_overlay (hcount ▸ hfits.1)
  · rw [← hcount]
    exact World.drop_overlay chunks page

/-- Two visits for one block show the same, if no call gave way in between. -/
theorem shows_eq_of_alike {h' : Hold g} {i' : Nat} {a' b' : Machine g} {x : Block}
    (hm : Reachable m) (hv : Visited (fun x => ¬ x.Returned base ∧ ¬ x.GivesWay) i base h m a b n)
    (hv' : Visited (fun x => ¬ x.Returned base ∧ ¬ x.GivesWay) i' base h' m a' b' n)
    (hbase : base.Beneath m.stack) (hx : b.content h.buffer = some x)
    (hx' : b'.content h'.buffer = some x) :
    b.world.shows h.buffer = b'.world.shows h'.buffer := by
  have hb := hv.gets.trans hv.waits
  have hb' := hv'.gets.trans hv'.waits
  have hsame {c c' : Cache g} (hc : c.Alike c') (j : g.Buffer) :
      (if (c'.header j).valid then c'.page j else Page.zero) =
        if (c.header j).valid then c.page j else Page.zero := by
    rw [hc.valid, hc.page]
  unfold World.shows
  rcases Leads.comparable hb hb' hbase fun _ hx => hx.1 with hspan | hspan
  · have halike := (hv.visits.alike hspan).2
    rw [(hm.leads hb).eq_of_content hx ((halike.content h'.buffer).symm.trans hx')]
    exact (hsame halike _).symm
  · have halike := (hv'.visits.alike hspan).2
    rw [(hm.leads hb').eq_of_content ((halike.content h.buffer).symm.trans hx) hx']
    exact hsame halike _

/-- In every session, whatever clients and drivers do meanwhile, a page read shows what the buffers
that it received for its blocks contain when they are visited; and they still hold the blocks then,
provided that their generations did not come round. -/
theorem Reachable.readsPages (hm : m.Reachable) : m.ReadsPages where
  refused := by
    rintro w d numbers page base rfl hfits
    obtain ⟨f, hkind, hstep⟩ := World.fetchPage_of_not_accommodates hfits w d
    exact ⟨f, hkind, congrArg (advance base) hstep⟩
  read := by
    rintro w w' d numbers page page' result base rfl hfits hspan
    exact pageRead_of_leads hm hfits hspan
  added := by
    rintro w w' d j t v numbers page base rfl hadds
    have ht : t + ((0 : Nat) : Int) = 0 := hadds.eq_of_operates hm trivial
    rwa [Int.natCast_zero, Int.add_zero] at ht
  alike := by
    rintro w w' d numbers page page' result base rfl hfits hspan houtlasts i j hij
    have hread := pageRead_of_leads hm hfits (hspan.mono fun _ hx => hx.1)
    have hparts := hole_or_visited hm hfits (fun _ hx => hx.1) hspan
    rcases hparts i with ⟨hzero, -⟩ | ⟨hne, h, a, b, hv⟩
    · rw [hread.hole i hzero, hread.hole j (hij ▸ hzero)]
    rcases hparts j with ⟨hzero, -⟩ | ⟨-, h', a', b', hv'⟩
    · exact absurd (hij.trans hzero) hne
    have hmono := hv.mono fun _ hx => hx.1
    have hmono' := hv'.mono fun _ hx => hx.1
    have hx := (hread.attends hmono).holds (houtlasts hmono)
    have hx' := (hread.attends hmono').holds (houtlasts hmono')
    rw [← hij] at hx'
    rw [hread.shown hmono, hread.shown hmono']
    exact congrArg Vector.toList (shows_eq_of_alike hm hv hv' .here hx hx')

end Pages

/-- A page read that is accommodated begins to take references. -/
theorem moves_fetchPage {w : World g} {numbers : List BlockNumber}
    (hfits : g.Accommodates numbers page) :
    Moves ⟨w, .page, .run (.fetchPage d numbers page), base⟩
      ⟨w, .page, .run (.gather d numbers [] page), base⟩ :=
  .step (steps_of_step (congrArg (advance base) (World.fetchPage_of_accommodates hfits w d)))

/-- A page with two holes is to be read, and the block of its other parts is being read already.
The driver fails to deliver it twice, and then delivers it. -/
def readingPage : Machine Geometry.single :=
  (reading.next [[.finish 1 false], [.finish 1 false], [.finish 1 true]]
    (.fetchPage 257 ⟨#[3, 0, 3, 0], rfl⟩ 4096 0)).after 1

/-- The page is read. -/
theorem pageRead_of_reading :
    ∃ (w : World Geometry.single) (result : Except Failure Unit) (page : List UInt8),
      readingPage.Reachable ∧
      Leads (¬ Returned (.push .answerPage .bottom) ·) readingPage
        ⟨w, .page, .give (result, page), .push .answerPage .bottom⟩ ∧
      PageRead 257 ⟨#[3, 0, 3, 0], rfl⟩ (List.replicate 4096 0) (.push .answerPage .bottom)
        readingPage ⟨w, .page, .give (result, page), .push .answerPage .bottom⟩ result page := by
  have h : readingPage.Reachable := (reachable_reading.next _ _).after 1
  have hfits : Geometry.single.Accommodates [3, 0, 3, 0] (List.replicate 4096 0) := by
    refine ⟨?_, by decide⟩
    rw [List.length_replicate]
    decide
  have hbegun : readingPage = ⟨readingPage.world, .page,
      .run (.fetchPage 257 [3, 0, 3, 0] (List.replicate 4096 0)), .push .answerPage .bottom⟩ := rfl
  have hreturned (page : List UInt8) : Returned (.push .answerPage .bottom)
      (after 77 ⟨readingPage.world, .page, .run (.gather 257 [3, 0, 3, 0] [] page),
        .push .answerPage .bottom⟩) := ⟨_, _, rfl⟩
  obtain ⟨n, hspan, w, ⟨result, page⟩, rfl⟩ := exists_leads_of_after (hreturned _)
  have hleads := Relation.ReflTransGen.head ⟨not_returned_run, moves_fetchPage hfits⟩ hspan
  rw [← hbegun] at hleads
  exact ⟨w, result, page, h, hleads, h.readsPages.read rfl hfits hleads⟩

/-! ## A generation that comes round -/

/-- No valid buffer holds block `b`. -/
def Lacks (b : Block) (m : Machine g) : Prop :=
  ∀ i, m.content i = some b → m.valid i = false

/-- Whether no valid buffer holds block `b`. -/
def lacks (b : Block) (m : Machine g) : Bool :=
  g.allBuffers.all fun i => !((m.world.cache.header i).holds b && m.valid i)

theorem lacks_iff {b : Block} : m.lacks b = true ↔ m.Lacks b := by
  simp only [lacks, List.all_eq_true, Geometry.mem_allBuffers, true_implies, Header.holds,
    Bool.not_eq_true', Bool.and_eq_false_iff, beq_eq_false_iff_ne, Lacks, content]
  exact forall_congr' fun i => imp_iff_not_or.symm

/-- Whether the next step is that of a wait which gives way. -/
def waits : Machine g → Bool
  | ⟨w, _, .run (.sleep q ticket), _⟩ => (w.cache.queue q).holds ticket
  | _ => false

theorem GivesWay.waits (h : m.GivesWay) : m.waits = true := by
  unfold GivesWay at h
  split at h
  · exact h
  · exact h.elim

/-- The page read goes on without giving way, and block 3 is not there. -/
def GoesWithout (m : Machine g) : Prop :=
  ¬ m.Returned (.push .answerPage .bottom) ∧ ¬ m.GivesWay ∧ m.Lacks ⟨257, 3⟩

/-- Whether no page is handed over, nothing gives way, and block 3 is not there. -/
def goesWithout (m : Machine g) : Bool :=
  !m.gives .page && !m.waits && m.lacks ⟨257, 3⟩

theorem goesWithout_of_true (m : Machine g) (h : m.goesWithout = true) : m.GoesWithout := by
  simp only [goesWithout, Bool.and_eq_true, Bool.not_eq_true', lacks_iff] at h
  obtain ⟨⟨hgives, hwaits⟩, hlacks⟩ := h
  exact ⟨fun hreturned => Bool.false_ne_true (hgives.symm.trans (gives_of_returned hreturned)),
    fun hway => Bool.false_ne_true (hwaits.symm.trans hway.waits), hlacks⟩

theorem leads_of_after {n : Machine g} {k : Nat} (hchecks : m.checks goesWithout k = true)
    (hafter : m.after k = n) : Leads GoesWithout m n := by
  rw [← hafter]
  exact leads_of_checks goesWithout_of_true hchecks

/-- Blocks 3 and 6 take turns in a buffer, `n` times each.  Then a client keeps the buffer for
block 5, fills it, and marks the bytes as those of the block. -/
def turns : Nat → Script
  | 0 => [.acquire ⟨257, 5⟩ (some "h"), .fill "h" 255, .markValid "h"]
  | n + 1 => .touch ⟨257, 3⟩ :: .touch ⟨257, 6⟩ :: turns n

/-- What a client does when a flush is announced: it gives back a reference that it does not have,
and has the buffer given other blocks. -/
def meddling (n : Nat) : Script :=
  .release "h" :: .touch ⟨257, 6⟩ :: turns n

/-- The client had a reference to the buffer of block 3 and has given it back.  The two other
buffers are dirty.  The disk is too small for any block. -/
def meddled (n : Nat) : Machine Geometry.triple :=
  ((start ((World.initial Geometry.triple).fresh []) (.register 1 ⟨1, .disk (.blank 1 0)⟩
    [])).after 20).commanded 20 [.listen (some [meddling n]), .acquire ⟨257, 3⟩ (some "h"),
      .release "h", .put ⟨257, 8⟩ 1, .put ⟨257, 9⟩ 1]

/-- A page is to be read with block 3 in two parts, and between them block 4, for which there has
to be a flush. -/
def meddledPage (n : Nat) : Machine Geometry.triple :=
  ⟨(meddled n).world.fresh [], .page, .run (.fetchPage 257 [3, 4, 3, 0] (List.replicate 4096 0)),
    .push .answerPage .bottom⟩

theorem reachable_meddledPage (n : Nat) : (meddledPage n).Reachable := by
  have hm : (meddled n).Reachable := ((reachable_start [] _).after 20).commanded 20 _
  have hanswered : (meddled n).step = .answered (meddled n).world (.handle ⟨2, 1⟩) := by
    set_option maxRecDepth 100000 in
    cbv
  have hfetch (w : World Geometry.triple) :
      (start w (.fetchPage 257 ⟨#[3, 4, 3, 0], rfl⟩ 4096 0)).after 1 = ⟨w, .page,
        .run (.fetchPage 257 [3, 4, 3, 0] (List.replicate 4096 0)),
        .push .answerPage .bottom⟩ := rfl
  have hstart : (start ((meddled n).world.fresh [])
      (.fetchPage 257 ⟨#[3, 4, 3, 0], rfl⟩ 4096 0)).Reachable :=
    Conduct.Run.next [] _ hm trivial hanswered
  rw [meddledPage, ← hfetch]
  exact hstart.after 1

/-- What the run changes for good beside the buffers: the counters, the queues, and what was seen
and reported. -/
structure Trail where
  /-- The counters. -/
  statistics : Statistics
  /-- Who waits for a buffer to be unlocked. -/
  unlockWaits : Vector WaitQueue 3
  /-- Who waits for a reference to be given back. -/
  releaseWaits : WaitQueue
  /-- Who waits for a request slot to become free. -/
  vacancyWaits : WaitQueue
  /-- What was seen. -/
  events : Array Event
  /-- What was reported. -/
  notices : Array Notice

/-- That part of a world. -/
def trail (w : World Geometry.triple) : Trail :=
  ⟨w.cache.statistics, w.cache.unlockWaits, w.cache.releaseWaits, w.cache.vacancyWaits, w.events,
    w.notices⟩

/-- The world of the run, with these buffers, these scripts for flushes to come, and this trail. -/
def scene (buffers : Buffers Geometry.triple) (scripts : List Script) (x : Trail) :
    World Geometry.triple where
  cache :=
    { buffers := buffers
      pages := #v[Page.zero, Page.fill 1, Page.fill 1]
      requests := .initial _
      drivers := #v[none, some ⟨1, .disk (.blank 1 0)⟩, none, none, none, none, none]
      statistics := x.statistics
      unlockWaits := x.unlockWaits
      releaseWaits := x.releaseWaits
      vacancyWaits := x.vacancyWaits }
  handles := ⟨[("h", ⟨0, 1⟩)]⟩
  starts := [(1, [])]
  flushes := some scripts
  events := x.events
  notices := x.notices

/-- The buffers as the page read begins. -/
def beforeTurns : Buffers Geometry.triple :=
  let headers : Vector (Header 3) 3 := #v[
    { content := some ⟨257, 3⟩, generation := 1, chainPrev := some 1, ringPrev := some 2,
      ringNext := some 1 },
    { content := some ⟨257, 8⟩, valid := true, dirty := true, generation := 1,
      chainPrev := some 2, chainNext := some 0, ringPrev := some 0, ringNext := some 2 },
    { content := some ⟨257, 9⟩, valid := true, dirty := true, generation := 1,
      chainNext := some 1, ringPrev := some 1, ringNext := some 0 }]
  ⟨headers, #v[some (2 : Fin 3)], (0 : Fin 3)⟩

/-- The buffers between two turns. -/
def inTurn (generation : UInt32) : Buffers Geometry.triple :=
  let headers : Vector (Header 3) 3 := #v[
    { content := some ⟨257, 6⟩, generation := generation, chainNext := some 2,
      ringPrev := some 2, ringNext := some 1 },
    { content := some ⟨257, 8⟩, valid := true, dirty := true, generation := 1,
      chainPrev := some 2, ringPrev := some 0, ringNext := some 2 },
    { content := some ⟨257, 9⟩, valid := true, dirty := true, generation := 1,
      chainPrev := some 0, chainNext := some 1, ringPrev := some 1, ringNext := some 0 }]
  ⟨headers, #v[some (0 : Fin 3)], (1 : Fin 3)⟩

/-- The client has a script to carry out, while the page read has a reference to the first buffer
and waits for the flush. -/
def meddles (generation : UInt32) (x : Trail) (script : Script) : Machine Geometry.triple :=
  ⟨scene (inTurn generation) [] x, .unit, .run (.play script),
    .push (.announcing (.device 257) 1 0) <| .push (.flushingVictim ⟨257, 4⟩ (1 : Fin 3)) <|
      .push (.gathering 257 [3, 0] [some ⟨(0 : Fin 3), 1⟩] (List.replicate 4096 0)) <|
        .push .answerPage .bottom⟩

theorem exists_scene (n : Nat) :
    ∃ x, (meddled n).world.fresh [] = scene beforeTurns [meddling n] x := by
  refine ⟨trail ((meddled n).world.fresh []), ?_⟩
  set_option maxRecDepth 100000 in
  cbv

/-- The reference to the buffer of block 3 is taken and lost, and the buffer is given block 6. -/
theorem leads_gather (n : Nat) (x : Trail) : ∃ y, Leads GoesWithout
    ⟨scene beforeTurns [meddling n] x, .page,
      .run (.gather 257 [3, 4, 3, 0] [] (List.replicate 4096 0)), .push .answerPage .bottom⟩
    (meddles 2 y (turns n)) := by
  generalize hm : Machine.mk (scene beforeTurns [meddling n] x) .page
    (.run (.gather 257 [3, 4, 3, 0] [] (List.replicate 4096 0))) (.push .answerPage .bottom) = m
  have hchecks : m.checks goesWithout 45 = true := by
    subst hm
    set_option maxRecDepth 100000 in
    cbv
  have hafter : m.after 45 = meddles 2 (trail (m.after 45).world) (turns n) := by
    subst hm
    set_option maxRecDepth 100000 in
    cbv
  exact ⟨_, leads_of_after hchecks hafter⟩

theorem leads_meddledPage (n : Nat) :
    ∃ x, Leads GoesWithout (meddledPage n) (meddles 2 x (turns n)) := by
  obtain ⟨x, hx⟩ := exists_scene n
  obtain ⟨y, hspan⟩ := leads_gather n x
  have hfits : Geometry.triple.Accommodates [3, 4, 3, 0] (List.replicate 4096 0) := by
    refine ⟨?_, by decide⟩
    rw [List.length_replicate]
    decide
  have hlacks : lacks ⟨257, 3⟩ ⟨scene beforeTurns [meddling n] x, .page,
      .run (.fetchPage 257 [3, 4, 3, 0] (List.replicate 4096 0)), .push .answerPage .bottom⟩ =
        true := rfl
  refine ⟨y, ?_⟩
  rw [meddledPage, hx]
  exact .head ⟨⟨not_returned_run, id, lacks_iff.mp hlacks⟩, moves_fetchPage hfits⟩ hspan

/-- A turn of each block takes the generation on by two, and leaves the other buffers alone. -/
theorem leads_turn (generation : UInt32) (x : Trail) (script : Script) :
    ∃ y, Leads GoesWithout
      (meddles generation x (.touch ⟨257, 3⟩ :: .touch ⟨257, 6⟩ :: script))
      (meddles (generation + 1 + 1) y script) := by
  generalize hm : meddles generation x (.touch ⟨257, 3⟩ :: .touch ⟨257, 6⟩ :: script) = m
  have hchecks : m.checks goesWithout 28 = true := by
    subst hm
    set_option maxRecDepth 100000 in
    cbv
  have hafter : m.after 28 =
      meddles (generation + 1 + 1) (trail (m.after 28).world) script := by
    subst hm
    set_option maxRecDepth 100000 in
    cbv
  exact ⟨_, leads_of_after hchecks hafter⟩

theorem leads_turns (n : Nat) (generation : UInt32) (x : Trail) :
    ∃ y, Leads GoesWithout (meddles generation x (turns n))
      (meddles (generation + UInt32.ofNat (2 * n)) y (turns 0)) := by
  induction n generalizing generation x with
  | zero =>
    refine ⟨x, ?_⟩
    rw [show generation + UInt32.ofNat (2 * 0) = generation from UInt32.add_zero generation]
    exact .refl
  | succ n ih =>
    obtain ⟨y, hturn⟩ := leads_turn generation x (turns n)
    obtain ⟨z, hturns⟩ := ih (generation + 1 + 1) y
    have hgeneration : generation + 1 + 1 + UInt32.ofNat (2 * n) =
        generation + UInt32.ofNat (2 * (n + 1)) := by
      rw [Nat.mul_succ, Nat.add_comm, UInt32.ofNat_add, UInt32.add_assoc generation 1 1,
        UInt32.add_assoc]
      rfl
    rw [hgeneration] at hturns
    exact ⟨z, hturn.trans hturns⟩

/-- Once the generation has come round, the first buffer passes for that of block 3. -/
theorem leads_pageUnread (x : Trail) : ∃ w, Leads GoesWithout (meddles 0 x (turns 0))
      ⟨w, .page, .give (.error .pageUnread, (Page.fill 255).toList ++ List.replicate 3072 0),
        .push .answerPage .bottom⟩ ∧
    Lacks ⟨257, 3⟩ ⟨w, .page, .give (.error .pageUnread,
      (Page.fill 255).toList ++ List.replicate 3072 0), .push .answerPage .bottom⟩ := by
  generalize hm : meddles 0 x (turns 0) = m
  have hchecks : m.checks goesWithout 105 = true := by
    subst hm
    set_option maxRecDepth 100000 in
    cbv
  have hlacks : m.checks (lacks ⟨257, 3⟩) 106 = true := by
    subst hm
    set_option maxRecDepth 100000 in
    cbv
  have hafter : m.after 105 = ⟨(m.after 105).world, .page, .give (.error .pageUnread,
      (Page.fill 255).toList ++ List.replicate 3072 0), .push .answerPage .bottom⟩ := by
    subst hm
    set_option maxRecDepth 100000 in
    cbv
  refine ⟨_, leads_of_after hchecks hafter, ?_⟩
  rw [← hafter]
  exact lacks_iff.mp (checks_after hlacks (Nat.lt_succ_self 105))

/-- After as many blocks as there are generations, the page shows what it should not. -/
theorem exists_mistaken {n : Nat} (hround : 2 + UInt32.ofNat (2 * n) = 0) :
    ∃ (w : World Geometry.triple) (page : List UInt8),
      (meddledPage n).Reachable ∧
      Leads (fun m => ¬ m.Returned (.push .answerPage .bottom) ∧ ¬ m.GivesWay ∧
          m.Lacks ⟨257, 3⟩) (meddledPage n)
        ⟨w, .page, .give (.error .pageUnread, page), .push .answerPage .bottom⟩ ∧
      Lacks ⟨257, 3⟩ ⟨w, .page, .give (.error .pageUnread, page), .push .answerPage .bottom⟩ ∧
      part 0 page ≠ Page.zero.toList ∧ part 0 page ≠ part 2 page := by
  obtain ⟨x, hbegins⟩ := leads_meddledPage n
  obtain ⟨y, hturns⟩ := leads_turns n 2 x
  rw [hround] at hturns
  obtain ⟨w, hends, hlacks⟩ := leads_pageUnread y
  have hfirst : (part 0 ((Page.fill 255).toList ++ List.replicate 3072 0)).head? = some 255 := rfl
  have hthird : (part 2 ((Page.fill 255).toList ++ List.replicate 3072 0)).head? = some 0 := by
    have hlength : (Page.fill 255).toList.length = blockSize := Vector.length_toList ..
    rw [part, List.drop_append, List.drop_of_length_le (by rw [hlength]; decide), hlength,
      List.drop_replicate]
    rfl
  have hzero : Page.zero.toList.head? = some 0 := rfl
  refine ⟨w, _, reachable_meddledPage n, (hbegins.trans hturns).trans hends, hlacks,
    fun h => ?_, fun h => ?_⟩
  · rw [h, hzero] at hfirst
    cases hfirst
  · rw [h, hthird] at hfirst
    cases hfirst

/-- While the page is read, no call gives way, and no valid buffer holds block 3.  Yet the first part
is neither zero nor the same as the third: the buffer that was received for block 3 was given as
many blocks as there are generations, and holds block 5 when it is visited. -/
theorem mistaken_by_fetchPage :
    ∃ (w : World Geometry.triple) (page : List UInt8),
      (meddledPage (2 ^ 31 - 1)).Reachable ∧
      Leads (fun m => ¬ m.Returned (.push .answerPage .bottom) ∧ ¬ m.GivesWay ∧
          m.Lacks ⟨257, 3⟩) (meddledPage (2 ^ 31 - 1))
        ⟨w, .page, .give (.error .pageUnread, page), .push .answerPage .bottom⟩ ∧
      Lacks ⟨257, 3⟩ ⟨w, .page, .give (.error .pageUnread, page), .push .answerPage .bottom⟩ ∧
      part 0 page ≠ Page.zero.toList ∧ part 0 page ≠ part 2 page :=
  exists_mistaken (by decide)

end Machine
end BufferCache
