import BufferCache.Proofs.Retention
import BufferCache.Proofs.Tending
import BufferCache.Proofs.Arrivals

/-!
# Reading with and without others ahead

A block is read from the same world once by itself, and once with others ahead.  What is read ahead
may drive other blocks out, have them written back, and touch the block itself again; the question
is what of this shows in the result.

The two reads are the same call until the buffer is there and its transfer, if it needs one, is
over: `World.Fetches` describes the world in which they part.  From there the one only looks at the
buffer, `World.Settles`, while the other goes through its list before it does.  Each turn of the
list gives the reference that it took back, and as the buffer of the first block has a reference all
the while, it retains its block, `World.Stays`.

So the results are the same but for one case: the block was found in its buffer, with a change that
no disk takes.  It is `Stranded` there.  The plain read delivers it, but if the list needs a buffer
and the victim is dirty, the device is flushed, the write is refused, and with the change the
validity goes: the read with others ahead fails.
-/

namespace BufferCache

variable {g : Geometry}

/-! ## The result of a read -/

/-- What a read comes to that holds the reference `h`, once its transfer is over. -/
inductive World.Settles (h : Hold g) (w : World g) : World g → Except Failure (Hold g) → Prop
  /-- The bytes are there. -/
  | there : (w.cache.header h.buffer).valid = true → Settles h w w (.ok h)
  /-- They are not, and the reference is given back. -/
  | lacking : (w.cache.header h.buffer).valid = false →
      Settles h w (w.mapCache (·.unrefer h.buffer)) (.error .blockUnread)

/-- The references to all buffers are as before, but that a result counts at its own buffer. -/
def World.Accounts (w w' : World g) (v : Except Failure (Hold g)) : Prop :=
  ∀ i, (w'.cache.header i).references = (w.cache.header i).references +
    match v with
    | .ok h => if h.buffer = i then 1 else 0
    | .error _ => 0

/-- The block is in the cache, its bytes are there and were changed, and no disk takes the
change. -/
def Cache.Stranded (b : Block) (c : Cache g) : Prop :=
  ∃ i, c.buffers.locate b = some i ∧ (c.header i).valid = true ∧ (c.header i).dirty = true ∧
    ¬ c.Serves b

section Settling

variable {w w' u : World g} {h : Hold g} {hd : Handle} {v : Except Failure (Hold g)}

/-- What is seen through a good handle. -/
theorem Cache.exists_view_valid {c : Cache g} {i : g.Buffer} (hi : c.resolve hd = .ok i) :
    ∃ view, c.view hd = .ok view ∧ view.valid = (c.header i).valid := by
  rw [view, hi]
  exact ⟨_, rfl, rfl⟩

theorem Call.ends_release : (Call.release hd).Ends (fun w' _ =>
    ∃ i, w.cache.resolveRelease hd = .ok i ∧ w' = w.mapCache (·.unrefer i)) w := by
  refine ends_of_begin (Outcome.ends_orFault fun i hi => Outcome.ends_call ends_awaitUnlock
    fun w' _ h' => ?_)
  rw [h'.1]
  change (w.released i).Ends _
  rw [World.released]
  split
  · exact Outcome.ends_error
  · exact Outcome.ends_done ⟨i, hi, rfl⟩

theorem Call.ends_settle (hh : w.cache.resolve h.handle = .ok h.buffer) :
    (Call.settle h).Ends (fun w' (v : Shape.fetched.Value g) => w.Settles h w' v) w := by
  refine ends_of_begin (Outcome.ends_call ends_awaitUnlock fun w' _ h' => ?_)
  rw [h'.1]
  obtain ⟨view, hview, hvalid⟩ := Cache.exists_view_valid hh
  change (World.orFault (w.cache.view h.handle) _).Ends _
  rw [hview]
  change (if view.valid then _ else _ : Outcome g .fetched).Ends _
  split
  · rename_i hthere
    exact Outcome.ends_done (.there (hvalid.symm.trans hthere))
  · rename_i hlacking
    refine Outcome.ends_call ends_release fun w' _ ⟨i, hi, hw'⟩ => Outcome.ends_done ?_
    cases hi.symm.trans (World.resolveRelease_of_resolve hh)
    rw [hw']
    exact .lacking (hvalid.symm.trans (Bool.eq_false_of_not_eq_true hlacking))

/-- A reference is given back where one is out. -/
theorem Cache.references_unrefer_of_add {c₀ c : Cache g} {i : g.Buffer}
    (h : ∀ j, (c.header j).references = (c₀.header j).references + if i = j then 1 else 0)
    (j : g.Buffer) : ((c.unrefer i).header j).references = (c₀.header j).references := by
  rw [header_unrefer]
  have hj := h j
  split
  · rename_i hij
    rw [if_pos hij] at hj
    dsimp only
    omega
  · rename_i hij
    rw [if_neg hij] at hj
    exact hj

/-- A read that has taken one reference accounts for it. -/
theorem World.Settles.accounts_of_references (hsettles : u.Settles h w' v)
    (hreferences : ∀ i, (u.cache.header i).references =
      (w.cache.header i).references + if h.buffer = i then 1 else 0) : w.Accounts w' v := by
  intro i
  cases hsettles with
  | there _ => exact hreferences i
  | lacking _ => exact Cache.references_unrefer_of_add hreferences i

end Settling

/-! ## Where the reads part -/

/-- In `u`, a read of block `b` that began in `w` has its buffer, with the reference `h`, and the
transfer is over if it needed one. -/
structure World.Fetches (b : Block) (w u : World g) (h : Hold g) : Prop where
  /-- No request was left. -/
  calm : u.Calm
  /-- The reference is good. -/
  good : u.cache.resolve h.handle = .ok h.buffer
  /-- The buffer holds the block. -/
  content : (u.cache.header h.buffer).content = some b
  /-- It has one more reference. -/
  references : ∀ i, (u.cache.header i).references =
    (w.cache.header i).references + if h.buffer = i then 1 else 0
  /-- If the bytes are not there, no disk serves the block. -/
  refused : (u.cache.header h.buffer).valid = false → ¬ u.cache.Serves b
  /-- If they are there with a change that no disk takes, this was so before. -/
  stranded : (u.cache.header h.buffer).valid = true → (u.cache.header h.buffer).dirty = true →
    ¬ u.cache.Serves b → w.cache.Stranded b

section Fetching

variable {w w' u : World g} {b : Block} {h : Hold g} {v : Except Failure (Hold g)}

/-- The block is read no further if its bytes are there once the buffer is got. -/
theorem World.Secures.fetches_of_valid (hw : w.Calm) (hu : w.Secures b u h)
    (hvalid : (u.cache.header h.buffer).valid = true) : w.Fetches b u h where
  calm := hu.calm hw
  good := hu.toGets.resolve
  content := hu.content
  references := hu.references
  refused hinvalid := absurd (hinvalid.symm.trans hvalid) Bool.false_ne_true
  stranded _ hdirty hrefused := by
    obtain ⟨hlocate, hbefore, hdirty'⟩ := hu.found hvalid
    exact ⟨h.buffer, hlocate, hbefore, hdirty' hdirty, mt (hu.serves b).mpr hrefused⟩

/-- Otherwise it is read, and then it is there if a disk serves it. -/
theorem World.Secures.fetches_of_treats {u₀ : World g} (hw : w.Calm) (hu₀ : w.Secures b u₀ h)
    (hinvalid : (u₀.cache.header h.buffer).valid = false)
    (hu : u₀.Treats .read h.buffer u) : w.Fetches b u h := by
  have hsent := hu.sent rfl hinvalid b hu₀.content
  have hserves := hu.exchanges.serves b
  refine ⟨hu.exchanges.calm (hu₀.calm hw), ?_, ?_, fun i => ?_, fun hlacking hb => ?_,
    fun hthere _ hrefused => ?_⟩
  · exact (hu.exchanges.transfers.resolve _).trans hu₀.toGets.resolve
  · exact (hu.exchanges.transfers.content _).trans hu₀.content
  · rw [hu.exchanges.transfers.references]
    exact hu₀.references i
  · exact Bool.false_ne_true (hlacking.symm.trans (hsent.mpr (hserves.mp hb)))
  · exact absurd (hserves.mpr (hsent.mp hthere)) hrefused

/-- A read that comes to a result has come to its buffer before, and from there a read with others
ahead goes on with its list. -/
theorem Call.Gives.exists_fetches (hw : w.Calm) (hgives : (Call.fetch b).Gives w w' v) :
    ∃ u h, w.Fetches b u h ∧ u.Settles h w' v ∧
      ∀ {ahead : List BlockNumber} {w₂ : World g} {v₂ : Except Failure (Hold g)},
        (Call.fetchAhead b ahead).Gives w w₂ v₂ →
          (Call.readAhead h b.device (if g.buffers > 1 then ahead else [])).Gives u w₂ v₂ := by
  obtain ⟨u₀, h, hacquire, hfetched⟩ := Outcome.Gives.of_call hgives.2
  have hu₀ := ends_acquire hw u₀ h hacquire
  obtain ⟨view, hview, hvalid⟩ := Cache.exists_view_valid hu₀.toGets.resolve
  -- The read with others ahead gets the same buffer in the same world.
  have hfirst {ahead : List BlockNumber} {w₂ : World g} {v₂ : Except Failure (Hold g)}
      (hahead : (Call.fetchAhead b ahead).Gives w w₂ v₂) :
      (u₀.firstFetched b.device (if g.buffers > 1 then ahead else []) h).Gives w₂ v₂ := by
    obtain ⟨u₁, h₁, hacquire₁, hfirst⟩ := Outcome.Gives.of_call hahead.2
    obtain ⟨rfl, rfl⟩ := hacquire.unique hacquire₁
    exact hfirst
  change (u₀.fetched h).Gives w' v at hfetched
  simp only [World.fetched, World.firstFetched, hview, World.orFault] at hfetched hfirst
  cases hthere : view.valid with
  | true =>
    rw [hthere] at hfetched hfirst hvalid
    cases hfetched with
    | done => exact ⟨_, h, hu₀.fetches_of_valid hw hvalid.symm, .there hvalid.symm,
        fun hahead => (hfirst hahead).of_goto⟩
  | false =>
    rw [hthere] at hfetched hfirst hvalid
    obtain ⟨u, _, hissue, hsettle⟩ := Outcome.Gives.of_call hfetched
    have hu := ends_issue (hu₀.calm hw) hu₀.toGets.resolve u _ hissue
    have hfetches := hu₀.fetches_of_treats hw hvalid.symm hu
    refine ⟨u, h, hfetches, ends_settle hfetches.good w' v hsettle.of_goto, fun hahead => ?_⟩
    obtain ⟨u₁, _, hissue₁, hread⟩ := Outcome.Gives.of_call (hfirst hahead)
    obtain ⟨rfl, -⟩ := hissue.unique hissue₁
    exact hread.of_goto

end Fetching

/-! ## What happens ahead -/

/-- Buffer `i` goes on holding block `b` from `w` to `w'`, and all references are as before. -/
structure World.Stays (b : Block) (i : g.Buffer) (w w' : World g) : Prop where
  /-- The buffer retains its block. -/
  retains : w.cache.Retains b i w'.cache
  /-- It goes on holding it. -/
  content : (w'.cache.header i).content = (w.cache.header i).content
  /-- Handles of it remain good. -/
  generation : (w'.cache.header i).generation = (w.cache.header i).generation
  /-- References are as before. -/
  references : ∀ j, (w'.cache.header j).references = (w.cache.header j).references
  /-- No request was left. -/
  calm : w.Calm → w'.Calm
  /-- The block is served as before. -/
  serves : w'.cache.Serves b ↔ w.cache.Serves b

namespace World.Stays

variable {w w' w'' : World g} {b : Block} {i : g.Buffer}

theorem refl (w : World g) : w.Stays b i w :=
  ⟨Cache.retains_of_eq rfl rfl rfl, rfl, rfl, fun _ => rfl, id, Iff.rfl⟩

theorem trans (h : w.Stays b i w') (h' : w'.Stays b i w'') : w.Stays b i w'' where
  retains := h.retains.trans h'.retains h.serves
  content := h'.content.trans h.content
  generation := h'.generation.trans h.generation
  references j := (h'.references j).trans (h.references j)
  calm hw := h'.calm (h.calm hw)
  serves := h'.serves.trans h.serves

/-- A good handle of the buffer remains good. -/
theorem resolve {h : Hold g} (hstays : w.Stays b h.buffer w')
    (hh : w.cache.resolve h.handle = .ok h.buffer) :
    w'.cache.resolve h.handle = .ok h.buffer := by
  obtain ⟨-, hgeneration, hreferences⟩ := Cache.resolve_eq_ok hh
  have hold : h = w'.cache.hold h.buffer := by
    obtain ⟨i, generation⟩ := h
    rw [Cache.hold, hstays.generation]
    exact congrArg _ hgeneration.symm
  have hresolve := Cache.resolve_hold (c := w'.cache) (i := h.buffer) (by
    rw [hstays.references]
    exact hreferences)
  rwa [← hold] at hresolve

end World.Stays

section Ahead

variable {w u u' : World g} {b b' : Block} {i : g.Buffer} {h t : Hold g} {d : DeviceNumber}
  {ahead : List BlockNumber}

/-- A turn of the list: a buffer is got, bytes are exchanged, and the reference is given back. -/
theorem World.Secures.stays (hu : w.Secures b' u t) (hu' : u.Exchanges u')
    (hi : (w.cache.header i).references ≠ 0) (hb : (w.cache.header i).content = some b) :
    w.Stays b i (u'.mapCache (·.unrefer t.buffer)) := by
  have hheader : (u'.mapCache (·.unrefer t.buffer)).cache.header i =
      { u'.cache.header i with
        references := ((u'.mapCache (·.unrefer t.buffer)).cache.header i).references } := by
    change (u'.cache.unrefer t.buffer).header i = _
    rw [Cache.header_unrefer]
    change _ = { u'.cache.header i with
      references := ((u'.cache.unrefer t.buffer).header i).references }
    rw [Cache.header_unrefer]
    split <;> rfl
  have hkeeps := hu.keeps i hi
  have hserves := (hu'.serves b).trans (hu.serves b)
  refine ⟨?_, ?_, ?_, ?_, fun hw => ?_, hserves⟩
  · refine ((hu.retains i b hi hb).trans (hu'.retains i b (hkeeps.1.trans hb)) (hu.serves b)).trans
      (Cache.retains_of_eq ?_ ?_ rfl) hserves
    · rw [hheader]
    · rw [hheader]
  · rw [hheader]
    exact (hu'.transfers.content i).trans hkeeps.1
  · rw [hheader]
    exact (hu'.transfers.generation i).trans hkeeps.2
  · refine Cache.references_unrefer_of_add fun j => ?_
    rw [hu'.transfers.references]
    exact hu.references j
  · exact (hu'.calm (hu.calm hw)).of_eq rfl rfl id

/-- Whatever is read ahead of a block, its buffer stays until the read settles. -/
theorem Call.ends_readAhead (hw : w.Calm) (hh : w.cache.resolve h.handle = .ok h.buffer)
    (hb : (w.cache.header h.buffer).content = some b) : (Call.readAhead h d ahead).Ends
      (fun w' (v : Shape.fetched.Value g) => ∃ u, w.Stays b h.buffer u ∧ u.Settles h w' v) w := by
  induction ahead generalizing w with
  | nil =>
    exact ends_of_begin (Outcome.ends_goto ((ends_settle hh).post fun w' v hsettles =>
      ⟨w, .refl w, hsettles⟩))
  | cons n ahead ih =>
    refine ends_of_begin (Outcome.ends_call (ends_acquire hw) fun u t hu => ?_)
    have hgood := hu.toGets.resolve
    -- Once bytes were exchanged, the reference goes and the next turn begins.
    have hletGo {u' : World g} (hu' : u.Exchanges u') : (u'.letGo h t d ahead).Ends
        fun w' (v : Shape.fetched.Value g) => ∃ u, w.Stays b h.buffer u ∧ u.Settles h w' v := by
      have hstays := hu.stays hu' (Cache.references_of_resolve hh) hb
      refine Outcome.ends_orFault fun j hj => ?_
      cases hj.symm.trans ((hu'.transfers.resolve _).trans hgood)
      refine Outcome.ends_goto ((ih (hstays.calm hw) (hstays.resolve hh)
        (hstays.content.trans hb)).post fun w' v ⟨u, hrest, hsettles⟩ => ?_)
      exact ⟨u, hstays.trans hrest, hsettles⟩
    refine Outcome.ends_orFault fun view _ => ?_
    split
    · exact hletGo (.refl u)
    · exact Outcome.ends_call (ends_issue (hu.calm hw) hgood) fun u' _ hu' => hletGo hu'.exchanges

end Ahead

/-! ## The comparison -/

/-- A read of block `b` and one with others ahead, both from `w`, have come to `v₁` in `w₁` and to
`v₂` in `w₂`. -/
structure World.Compares (b : Block) (w w₁ : World g) (v₁ : Except Failure (Hold g))
    (w₂ : World g) (v₂ : Except Failure (Hold g)) : Prop where
  /-- The references are as before the read, but that a result counts. -/
  plain : w.Accounts w₁ v₁
  /-- The same with others ahead. -/
  ahead : w.Accounts w₂ v₂
  /-- What is delivered with others ahead is delivered without them: the same handle, for the same
  bytes. -/
  delivered : ∀ h, v₂ = .ok h → v₁ = .ok h ∧ w₂.cache.page h.buffer = w₁.cache.page h.buffer
  /-- The only failure is that the block could not be read. -/
  failed : ∀ f, v₁ = .error f ∨ v₂ = .error f → f = .blockUnread
  /-- The results are the same, unless the block was stranded. -/
  same : ¬ w.cache.Stranded b → v₂ = v₁

theorem World.Fetches.compares_of_settles {w u u' w₁ w₂ : World g} {b : Block} {h : Hold g}
    {v₁ v₂ : Except Failure (Hold g)} (hfetches : w.Fetches b u h) (h₁ : u.Settles h w₁ v₁)
    (hstays : u.Stays b h.buffer u') (h₂ : u'.Settles h w₂ v₂) : w.Compares b w₁ v₁ w₂ v₂ where
  plain := h₁.accounts_of_references hfetches.references
  ahead := h₂.accounts_of_references fun i => by
    rw [hstays.references]
    exact hfetches.references i
  delivered h' hv₂ := by
    cases h₂ with
    | lacking _ => cases hv₂
    | there hvalid' =>
      cases hv₂
      cases h₁ with
      | there hvalid => exact ⟨rfl, hstays.retains.page (.inl hvalid)⟩
      | lacking hinvalid =>
        have hlacking := hstays.retains.invalid hinvalid (hfetches.refused hinvalid)
        exact absurd (hlacking.symm.trans hvalid') Bool.false_ne_true
  failed f hf := by
    rcases hf with rfl | rfl
    · cases h₁
      rfl
    · cases h₂
      rfl
  same hstranded := by
    cases h₁ with
    | there hvalid =>
      have hvalid' := hstays.retains.valid hvalid fun hdirty =>
        by_contra fun hrefused => hstranded (hfetches.stranded hvalid hdirty hrefused)
      cases h₂ with
      | there _ => rfl
      | lacking hinvalid' => exact absurd (hinvalid'.symm.trans hvalid') Bool.false_ne_true
    | lacking hinvalid =>
      have hlacking := hstays.retains.invalid hinvalid (hfetches.refused hinvalid)
      cases h₂ with
      | there hvalid' => exact absurd (hlacking.symm.trans hvalid') Bool.false_ne_true
      | lacking _ => rfl

namespace Machine

variable {w : World g} {b : Block}

/-- Over disks in memory no request waits where a command is about to be carried out. -/
theorem Reachable.calm {c : Command} {stack : Stack g .reply}
    (h : Reachable ⟨w, .reply, .run (.perform c), stack⟩) (hdisks : w.cache.Disks)
    (hsilent : w.Silent) : w.Calm :=
  ⟨hdisks, hsilent, Cache.Attended.empty (h.onDisks hdisks).attended⟩

/-- In every session over disks in memory in which those who listen to flushes have nothing to do:
if a read of a block and one with others ahead both come to a result from the same world without
giving way, the results are the same and the same references are left, unless the block was
stranded. -/
theorem Reachable.compares {c : Command} {stack : Stack g .reply}
    (h : Reachable ⟨w, .reply, .run (.perform c), stack⟩) (hdisks : w.cache.Disks)
    (hsilent : w.Silent) {ahead : List BlockNumber} {base₁ base₂ : Stack g .fetched}
    {w₁ w₂ : World g} {v₁ v₂ : Except Failure (Hold g)}
    (h₁ : Leads (fun x => ¬ x.Returned base₁ ∧ ¬ x.GivesWay)
      ⟨w, .fetched, .run (.fetch b), base₁⟩ ⟨w₁, .fetched, .give v₁, base₁⟩)
    (h₂ : Leads (fun x => ¬ x.Returned base₂ ∧ ¬ x.GivesWay)
      ⟨w, .fetched, .run (.fetchAhead b ahead), base₂⟩ ⟨w₂, .fetched, .give v₂, base₂⟩) :
    w.Compares b w₁ v₁ w₂ v₂ := by
  obtain ⟨u, h', hfetches, hsettles, hahead⟩ :=
    (gives_of_run h₁).exists_fetches (h.calm hdisks hsilent)
  obtain ⟨u', hstays, hsettles'⟩ := Call.ends_readAhead hfetches.calm hfetches.good
    hfetches.content w₂ v₂ (hahead (gives_of_run h₂))
  exact hfetches.compares_of_settles hsettles hstays hsettles'

/-- Some steps, before each of which no value of the shape is handed over and nothing gives way. -/
theorem leads_after_undisturbed {m : Machine g} {s : Shape} (base : Stack g s) {n : Nat}
    (h : ∀ k < n, (m.after k).gives s = false ∧ (m.after k).Undisturbed) :
    Leads (fun x => ¬ x.Returned base ∧ ¬ x.GivesWay) m (m.after n) :=
  leads_after_of fun k hk => ⟨fun hreturned =>
    Bool.false_ne_true ((h k hk).1.symm.trans (gives_of_returned hreturned)),
    (h k hk).2.not_givesWay⟩

/-- Both buffers are dirty, and hold blocks behind the end of the disk.  The bytes of the one were
marked as valid and as changed, those of the other were put there. -/
def stranding : Machine Geometry.small :=
  ((start ((World.initial Geometry.small).fresh []) (.register 1 ⟨1, .disk (.blank 1 16384)⟩
    [])).after 20).commanded 20 [.acquire ⟨257, 100⟩ (some "h"), .markValid "h", .markDirty "h",
      .release "h", .put ⟨257, 50⟩ 7]

/-- The world in which the next command is carried out. -/
def stranded : World Geometry.small := stranding.world.fresh []

theorem reachable_stranded (c : Command) : (start stranded c).Reachable := by
  have hm : stranding.Reachable := ((reachable_start [] _).after 20).commanded 20 _
  have hanswered : stranding.step = .answered stranding.world (.handle ⟨1, 1⟩) := rfl
  exact Conduct.Run.next [] c hm trivial hanswered

theorem disks_stranded : stranded.cache.Disks := by decide

theorem silent_stranded : stranded.Silent := by
  have hnone : stranded.flushes = none := rfl
  intro script hscript
  rw [hnone] at hscript
  exact absurd hscript List.not_mem_nil

/-- A read of block `b` there. -/
def plainRead (b : Block) : Machine Geometry.small :=
  ⟨stranded, .fetched, .run (.fetch b), .push (.keepFetched none) .bottom⟩

/-- A read of block `b` with block `n` of the same device ahead. -/
def aheadRead (b : Block) (n : BlockNumber) : Machine Geometry.small :=
  ⟨stranded, .fetched, .run (.fetchAhead b [n]), .push (.keepFetched none) .bottom⟩

/-- The read without the flushes and the one with them have come to an end. -/
theorem given_of_flush :
    (plainRead ⟨257, 3⟩).after 55 = ⟨((plainRead ⟨257, 3⟩).after 55).world, .fetched,
      .give (.ok ⟨⟨0, by decide⟩, 2⟩), .push (.keepFetched none) .bottom⟩ ∧
    (aheadRead ⟨257, 3⟩ 60).after 69 = ⟨((aheadRead ⟨257, 3⟩ 60).after 69).world, .fetched,
      .give (.ok ⟨⟨0, by decide⟩, 2⟩), .push (.keepFetched none) .bottom⟩ := by
  set_option maxRecDepth 100000 in
  exact ⟨rfl, rfl⟩

/-- A block that is on the disk is read while both buffers are dirty: the changes are not taken, but
this does not show. -/
theorem compares_of_flush :
    ∃ (w₁ w₂ : World Geometry.small) (h : Hold Geometry.small)
      (base : Stack Geometry.small .fetched),
      (start stranded (.fetch ⟨257, 3⟩ none)).Reachable ∧ stranded.cache.Disks ∧
      stranded.Silent ∧
      Leads (fun x => ¬ x.Returned base ∧ ¬ x.GivesWay)
        ⟨stranded, .fetched, .run (.fetch ⟨257, 3⟩), base⟩ ⟨w₁, .fetched, .give (.ok h), base⟩ ∧
      Leads (fun x => ¬ x.Returned base ∧ ¬ x.GivesWay)
        ⟨stranded, .fetched, .run (.fetchAhead ⟨257, 3⟩ [60]), base⟩
          ⟨w₂, .fetched, .give (.ok h), base⟩ ∧
      stranded.Compares ⟨257, 3⟩ w₁ (.ok h) w₂ (.ok h) := by
  have hplain := leads_after_undisturbed (.push (.keepFetched none) .bottom)
    (m := plainRead ⟨257, 3⟩) (n := 55) (by decide +kernel)
  have hahead := leads_after_undisturbed (.push (.keepFetched none) .bottom)
    (m := aheadRead ⟨257, 3⟩ 60) (n := 69) (by decide +kernel)
  rw [given_of_flush.1] at hplain
  rw [given_of_flush.2] at hahead
  have hm := reachable_stranded (.fetch ⟨257, 3⟩ none)
  exact ⟨_, _, _, _, hm, disks_stranded, silent_stranded, hplain, hahead,
    hm.compares disks_stranded silent_stranded hplain hahead⟩

/-- The block that is read is behind the end of the disk, and its bytes are valid and changed. -/
theorem stranded_block : stranded.cache.Stranded ⟨257, 100⟩ := by
  refine ⟨⟨0, by decide⟩, by decide +kernel, by decide +kernel, by decide +kernel, ?_⟩
  rintro ⟨disk, hdisk, -, hsize⟩
  have hblank : stranded.cache.disk? 1 = some (.blank 1 16384) := rfl
  cases Option.some.inj (hblank.symm.trans hdisk)
  exact absurd hsize (by decide +kernel)

/-- The two reads of that block have come to an end. -/
theorem given_of_stranded :
    (plainRead ⟨257, 100⟩).after 8 = ⟨((plainRead ⟨257, 100⟩).after 8).world, .fetched,
      .give (.ok ⟨⟨0, by decide⟩, 1⟩), .push (.keepFetched none) .bottom⟩ ∧
    (aheadRead ⟨257, 100⟩ 60).after 66 = ⟨((aheadRead ⟨257, 100⟩ 60).after 66).world, .fetched,
      .give (.error .blockUnread), .push (.keepFetched none) .bottom⟩ := by
  set_option maxRecDepth 100000 in
  exact ⟨rfl, rfl⟩

/-- A stranded block: the plain read delivers it, the read with another block ahead fails. -/
theorem differs_of_stranded :
    ∃ (w₁ w₂ : World Geometry.small) (h : Hold Geometry.small)
      (base : Stack Geometry.small .fetched),
      (start stranded (.fetch ⟨257, 100⟩ none)).Reachable ∧ stranded.cache.Disks ∧
      stranded.Silent ∧ stranded.cache.Stranded ⟨257, 100⟩ ∧
      Leads (fun x => ¬ x.Returned base ∧ ¬ x.GivesWay)
        ⟨stranded, .fetched, .run (.fetch ⟨257, 100⟩), base⟩ ⟨w₁, .fetched, .give (.ok h), base⟩ ∧
      Leads (fun x => ¬ x.Returned base ∧ ¬ x.GivesWay)
        ⟨stranded, .fetched, .run (.fetchAhead ⟨257, 100⟩ [60]), base⟩
          ⟨w₂, .fetched, .give (.error .blockUnread), base⟩ := by
  have hplain := leads_after_undisturbed (.push (.keepFetched none) .bottom)
    (m := plainRead ⟨257, 100⟩) (n := 8) (by decide +kernel)
  have hahead := leads_after_undisturbed (.push (.keepFetched none) .bottom)
    (m := aheadRead ⟨257, 100⟩ 60) (n := 66) (by decide +kernel)
  rw [given_of_stranded.1] at hplain
  rw [given_of_stranded.2] at hahead
  exact ⟨_, _, _, _, reachable_stranded _, disks_stranded, silent_stranded, stranded_block, hplain,
    hahead⟩

end Machine
end BufferCache
