import BufferCache.Proofs.Acquisitions
import BufferCache.Proofs.Progress

/-!
# When a buffer is got at once

Whether the getting of a buffer has to wait can be told from the world in which it begins.  A
block that is in an unlocked buffer is got without giving way, and so is one that is in no
buffer if the victim is unlocked and clean: the world `Offers` a buffer for it.  If the buffer
of the block is locked, if there are references to all buffers, or if the victim is locked,
the world `Lacks` a buffer for it, and then the getting gives way for certain.

What remains is a dirty victim.  Its device is flushed, and whether that waits depends on all
the buffers of the device, and on the driver.
-/

namespace BufferCache

variable {g : Geometry}

/-! ## Buffers that are got at once -/

/-- To get a buffer for the block, its own buffer would have to be unlocked first, or a reference
given back, or a victim unlocked. -/
inductive World.Lacks (w : World g) (b : Block) : Prop
  | locked {i : g.Buffer} : w.cache.buffers.locate b = some i →
      (w.cache.header i).locked = true → Lacks w b
  | referenced : w.cache.buffers.locate b = none → w.cache.buffers.victim = .ok none → Lacks w b
  | victim {i : g.Buffer} : w.cache.buffers.locate b = none →
      w.cache.buffers.victim = .ok (some i) → (w.cache.header i).locked = true → Lacks w b

/-- The block is in a buffer that is unlocked, or it is in none and the victim is unlocked and
clean. -/
inductive World.Offers (w : World g) (b : Block) : Prop
  | present {i : g.Buffer} : w.cache.buffers.locate b = some i →
      (w.cache.header i).locked = false → Offers w b
  | victim {i : g.Buffer} : w.cache.buffers.locate b = none →
      w.cache.buffers.victim = .ok (some i) → (w.cache.header i).locked = false →
      (w.cache.header i).dirty = false → Offers w b

section Offers

variable {w : World g} {b : Block} {i : g.Buffer}

/-- A clean victim is given the block. -/
theorem World.completes_victim (hchained : w.cache.buffers.Chained fun _ => True)
    (hringed : w.cache.buffers.Ringed) (hdevice : b.device ≠ 0)
    (hnone : w.cache.buffers.locate b = none) (hvictim : w.cache.buffers.victim = .ok (some i))
    (hlocked : (w.cache.header i).locked = false) (hclean : (w.cache.header i).dirty = false) :
    (w.victimReady b i).Completes True (fun _ => True) fun w' (h : Shape.hold.Value g) =>
      h.buffer = i ∧
        ∃ s, (Effect.assign i b s).Fits w.cache ∧ w'.cache = w.cache.assign i s := by
  have hreferences := Buffers.references_of_victim hvictim
  obtain ⟨order, horder, hall⟩ := hringed
  obtain ⟨s, hs, -⟩ := horder.exists_reassign (hall i) hchained hdevice
    fun j => hchained.locate_eq_none_iff.mp hnone j trivial
  have hready : w.victimReady b i = w.replace b i := by
    have hfree : (w.cache.header i).references = 0 := hreferences
    simp [victimReady, hfree, hclean, hlocked, hnone, Cache.contains]
  rw [hready]
  refine Outcome.completes_orFault (fun s hs => Outcome.completes_done ⟨rfl, s, ?_, ?_⟩)
    fun _ => ⟨s, hs⟩
  · exact ⟨hreferences, hclean, hlocked, hnone, hs⟩
  · rw [cache_reportMiss]
    rfl

/-- A buffer that is unlocked is found without giving way, and has one more reference. -/
theorem Call.completes_present (hi : w.cache.buffers.locate b = some i)
    (hlocked : (w.cache.header i).locked = false) : (Call.lookUp b).Completes True
      (fun w' (found : Shape.found.Value g) =>
        w' = w.mapCache (·.refer i) ∧ found = some (w.cache.hold i)) w := by
  have hbegin : (Call.lookUp b).begin w =
      (w.mapCache (·.refer i)).call (.awaitUnlock i) (.pinning b i) := by
    change w.lookUp b = _
    rw [World.lookUp, hi]
  refine completes_of_begin rfl ?_
  rw [hbegin]
  refine Outcome.completes_call (completes_awaitUnlock fun _ => ?_) fun w' _ h' => ?_
  · change ((w.cache.refer i).header i).locked = false
    rw [Cache.header_refer, if_pos rfl]
    exact hlocked
  · rw [h'.1]
    change ((w.mapCache (·.refer i)).pinned b i).Completes _ _ _
    rw [World.pinned_eq hi]
    exact Outcome.completes_done ⟨rfl, rfl⟩

/-- That a block is in no buffer is found without giving way too. -/
theorem Call.completes_absent (hnone : w.cache.buffers.locate b = none) :
    (Call.lookUp b).Completes True
      (fun w' (found : Shape.found.Value g) => w' = w ∧ found = none) w := by
  have hbegin : (Call.lookUp b).begin w = w.done (s := .found) none := by
    change w.lookUp b = _
    rw [World.lookUp, hnone]
  refine completes_of_begin rfl ?_
  rw [hbegin]
  exact Outcome.completes_done ⟨rfl, rfl⟩

theorem Call.completes_acquire_of_obtain {Q : World g → Hold g → Prop} (hdevice : b.device ≠ 0)
    (h : (Call.obtain b).Completes True Q (w.mapCache (·.tick .access))) :
    (Call.acquire b).Completes True Q w := by
  refine completes_of_begin rfl ?_
  change (w.acquire b).Completes _ _ _
  rw [World.acquire, if_neg hdevice]
  exact Outcome.completes_goto h

/-- A block that is in an unlocked buffer is got without giving way. -/
theorem Call.completes_acquire_present (hdevice : b.device ≠ 0)
    (hi : w.cache.buffers.locate b = some i) (hlocked : (w.cache.header i).locked = false) :
    (Call.acquire b).Completes True (fun w' (h : Shape.hold.Value g) =>
      w'.cache.buffers = (w.cache.refer i).buffers ∧ h = w.cache.hold i) w := by
  refine completes_acquire_of_obtain hdevice (completes_of_begin rfl ?_)
  refine Outcome.completes_call (completes_present hi hlocked) fun w' found hfound => ?_
  obtain ⟨rfl, rfl⟩ := hfound
  exact Outcome.completes_done ⟨rfl, rfl⟩

/-- And so is one that is in no buffer, if the victim is unlocked and clean. -/
theorem Call.completes_acquire_victim (hchained : w.cache.buffers.Chained fun _ => True)
    (hringed : w.cache.buffers.Ringed) (hdevice : b.device ≠ 0)
    (hnone : w.cache.buffers.locate b = none) (hvictim : w.cache.buffers.victim = .ok (some i))
    (hlocked : (w.cache.header i).locked = false) (hclean : (w.cache.header i).dirty = false) :
    (Call.acquire b).Completes True (fun w' (h : Shape.hold.Value g) => h.buffer = i ∧
      ∃ s, (Effect.assign i b s).Fits (w.cache.tick .access) ∧
        w'.cache = (w.cache.tick .access).assign i s) w := by
  refine completes_acquire_of_obtain hdevice (completes_of_begin rfl ?_)
  refine Outcome.completes_call (completes_absent hnone) fun w' found hfound => ?_
  obtain ⟨rfl, rfl⟩ := hfound
  change (World.orFault w.cache.buffers.victim _).Completes _ _ _
  rw [hvictim]
  refine Outcome.completes_call (completes_awaitUnlock fun _ => hlocked) fun w'' _ h => ?_
  rw [h.1]
  exact World.completes_victim (w := w.mapCache (·.tick .access)) hchained hringed hdevice hnone
    hvictim hlocked hclean

/-- What is offered is got without giving way. -/
theorem World.Offers.completes (hoffers : w.Offers b)
    (hchained : w.cache.buffers.Chained fun _ => True) (hringed : w.cache.buffers.Ringed)
    (hdevice : b.device ≠ 0) : (Call.acquire b).Completes True (fun _ _ => True) w := by
  cases hoffers with
  | present hi hlocked =>
    exact (Call.completes_acquire_present hdevice hi hlocked).post fun _ _ _ => trivial
  | victim hnone hvictim hlocked hclean =>
    exact (Call.completes_acquire_victim hchained hringed hdevice hnone hvictim hlocked
      hclean).post fun _ _ _ => trivial

end Offers

namespace Machine

variable {s : Shape} {P : Next g s → Prop} {Q : World g → s.Value g → Prop}
  {m n x : Machine g}

/-- A call that completes without a stop does not give way. -/
theorem Completes.not_givesWay {base : Stack g s} (h : m.Completes True base P Q) :
    ¬ m.GivesWay := by
  intro hway
  obtain ⟨n, hspan, ⟨hstop, -⟩ | ⟨w, v, rfl, -⟩⟩ := h
  · exact hstop trivial
  · rcases hspan.cases_head with rfl | ⟨x, ⟨halone, hmove⟩, -⟩
    · exact hway
    · exact hway.not_moves halone.undisturbed hmove

/-- And it goes on so until it is over. -/
theorem Completes.leads {base : Stack g s} (h : m.Completes True base P Q)
    (hspan : Leads (¬ Returned base ·) m n) : n.Completes True base P Q := by
  induction hspan with
  | refl => exact h
  | @tail a n _ hmove ih =>
    have halone := ih.alone fun hcompleted => by
      obtain ⟨hstop, -⟩ | ⟨w, v, heq, -⟩ := hcompleted
      · exact hstop trivial
      · exact hmove.1 ⟨w, v, heq⟩
    exact ih.through (.single ⟨⟨hmove.1, halone.undisturbed⟩, hmove.2⟩)

/-- It comes to its end, and nothing gives way before. -/
theorem Completes.exists_leads {base : Stack g s} (h : m.Completes True base P Q) :
    ∃ w v, Leads (fun x => ¬ x.Returned base ∧ ¬ x.GivesWay) m ⟨w, s, .give v, base⟩ ∧ Q w v := by
  obtain ⟨n, hspan, ⟨hstop, -⟩ | ⟨w, v, rfl, hv⟩⟩ := h
  · exact absurd trivial hstop
  refine ⟨w, v, Relation.ReflTransGen.mono (fun x y hx => ?_) _ _ hspan, hv⟩
  exact ⟨⟨hx.1.running, fun hway => hway.not_moves hx.1.undisturbed hx.2⟩, hx.2⟩

/-- However it is led there, it returns what it completes with. -/
theorem Completes.of_returned {base : Stack g s} {w : World g} {v : s.Value g}
    (h : m.Completes True base P Q) (hspan : Leads (¬ Returned base ·) m ⟨w, s, .give v, base⟩) :
    Q w v := by
  obtain ⟨n, hrest, ⟨hstop, -⟩ | ⟨w', v', rfl, hv⟩⟩ := h.leads hspan
  · exact absurd trivial hstop
  rcases hrest.cases_head with heq | ⟨x, ⟨halone, -⟩, -⟩
  · cases heq
    exact hv
  · exact absurd ⟨w, v, rfl⟩ halone.running

end Machine

/-! ## Waiting for a buffer -/

namespace Machine

section Lacking

variable {w : World g} {b : Block} {m n : Machine g} {base : Stack g .hold}

/-- What the getting of a buffer for block `b` above `base` can wait for. -/
inductive Lacking (b : Block) (base : Stack g .hold) (n : Machine g) : Prop
  /-- For the buffer of the block to be unlocked. -/
  | pinning {i : g.Buffer} :
      (Stack.push (.pinning b i) (.push (.lookingUp b) base)).Beneath n.stack → Lacking b base n
  /-- For a reference to be given back. -/
  | starving : (Stack.push (.starving b) base).Beneath n.stack → Lacking b base n
  /-- For the victim to be unlocked. -/
  | awaiting {i : g.Buffer} : (Stack.push (.awaitingVictim b i) base).Beneath n.stack →
      Lacking b base n
  /-- For the device of the victim to be flushed. -/
  | flushing {i : g.Buffer} : (Stack.push (.flushingVictim b i) base).Beneath n.stack →
      Lacking b base n

theorem Lacking.beneath (h : Lacking b base n) : base.Beneath n.stack := by
  cases h with
  | pinning hbeneath => exact hbeneath.of_push.of_push
  | starving hbeneath => exact hbeneath.of_push
  | awaiting hbeneath => exact hbeneath.of_push
  | flushing hbeneath => exact hbeneath.of_push

/-- The getting of a buffer gives way nowhere else. -/
theorem Acquiring.lacking (h : Acquiring b base m n) (hn : n.GivesWay) : Lacking b base n := by
  cases h with
  | begins | attempts | looksUp | looked | returned => exact hn.elim
  | pinning hbeneath => exact .pinning hbeneath
  | starving hbeneath => exact .starving hbeneath
  | awaiting hbeneath => exact .awaiting hbeneath
  | flushing hbeneath => exact .flushing hbeneath

/-- A span goes on with what a call begins with. -/
theorem Leads.begin {a s : Shape} {base : Stack g s} {w' : World g} {c : Call g a}
    {stack : Stack g a} {next : Next g a}
    (h : Leads (¬ Returned base ·) m ⟨w, a, .run c, stack⟩)
    (hnext : c.begin w = .ok (w', next)) :
    Leads (¬ Returned base ·) m (next.machine w' stack) :=
  h.tail ⟨not_returned_run, .step (.begin stack hnext)⟩

/-- And so it does with what the call does once it is given its value. -/
theorem Leads.resume {a s : Shape} {base : Stack g s} {w' : World g} {f : Frame g a s}
    {v : a.Value g} {next : Next g s}
    (h : Leads (¬ Returned base ·) m ⟨w, a, .give v, .push f base⟩)
    (hnext : f.resume v w = .ok (w', next)) :
    Leads (¬ Returned base ·) m (next.machine w' base) := by
  have hover : ¬ Returned base ⟨w, a, .give v, .push f base⟩ := not_returned_of_beneath .here
  exact h.tail ⟨hover, .step (.resume base hnext)⟩

/-- A wait for the unlocking of a buffer that is locked sleeps. -/
theorem begin_awaitUnlock {i : g.Buffer} (hlocked : (w.cache.header i).locked = true) :
    (Call.awaitUnlock i).begin w = .ok (w, .call
      (.sleep (.unlock i) (w.cache.queue (.unlock i)).ticket) (.awaitingUnlock i)) := by
  change w.awaitUnlock i = _
  rw [World.awaitUnlock, if_pos hlocked]
  rfl

/-- The getting of a buffer for a block of a device begins with counting the access. -/
theorem begin_acquire (hdevice : b.device ≠ 0) (w : World g) : (Call.acquire b).begin w =
    .ok (w.mapCache (·.tick .access), .goto (.obtain b)) := by
  change w.acquire b = _
  rw [World.acquire, if_neg hdevice]
  rfl

/-- Then it comes to look for the block. -/
theorem leads_lookUp (hdevice : b.device ≠ 0) (w : World g) (base : Stack g .hold) :
    Leads (¬ Returned base ·) ⟨w, .hold, .run (.acquire b), base⟩
      ⟨w.mapCache (·.tick .access), .found, .run (.lookUp b), .push (.lookingUp b) base⟩ := by
  have hobtain : Leads (¬ Returned base ·) ⟨w, .hold, .run (.acquire b), base⟩
      ⟨w.mapCache (·.tick .access), .hold, .run (.obtain b), base⟩ :=
    Leads.begin .refl (begin_acquire hdevice w)
  exact hobtain.begin rfl

/-- If the block is in no buffer, that is found out. -/
theorem leads_absent (hdevice : b.device ≠ 0) (hnone : w.cache.buffers.locate b = none)
    (base : Stack g .hold) : Leads (¬ Returned base ·) ⟨w, .hold, .run (.acquire b), base⟩
      ⟨w.mapCache (·.tick .access), .found, .give none, .push (.lookingUp b) base⟩ := by
  have hlook : (Call.lookUp b).begin (w.mapCache (·.tick .access)) =
      .ok (w.mapCache (·.tick .access), .done none) := by
    change (w.mapCache (·.tick .access)).lookUp b = _
    rw [World.lookUp, show (w.mapCache (·.tick .access)).cache.buffers.locate b = none from hnone]
    rfl
  exact (leads_lookUp hdevice w base).begin hlook

/-- Where a buffer cannot be got at once, the getting gives way. -/
theorem exists_givesWay_of_lacks (hdevice : b.device ≠ 0) (hlacks : w.Lacks b)
    (base : Stack g .hold) : ∃ x : Machine g,
      Leads (¬ Returned base ·) ⟨w, .hold, .run (.acquire b), base⟩ x ∧ x.AtWork base ∧
        x.GivesWay ∧ Lacking b base x := by
  let w₁ := w.mapCache (·.tick .access)
  cases hlacks with
  | @locked i hi hlocked =>
    let w₂ := w₁.mapCache (·.refer i)
    have hlook : (Call.lookUp b).begin w₁ = .ok (w₂, .call (.awaitUnlock i) (.pinning b i)) := by
      change w₁.lookUp b = _
      rw [World.lookUp, show w₁.cache.buffers.locate b = some i from hi]
      rfl
    have hstill : (w₂.cache.header i).locked = true := by
      change ((w.cache.refer i).header i).locked = true
      rw [Cache.header_refer, if_pos rfl]
      exact hlocked
    have hspan := ((leads_lookUp hdevice w base).begin hlook).begin (begin_awaitUnlock hstill)
    exact ⟨_, hspan, ⟨.push rfl (.push rfl (.push rfl .here)), not_returned_run⟩,
      WaitQueue.holds_ticket _, .pinning (.push _ .here)⟩
  | referenced hnone hvictim =>
    let w₂ := w₁.note .allReferenced
    have hresume : (Frame.lookingUp b).resume none w₁ = .ok (w₂, .call
        (.sleep .release (w₂.cache.queue .release).ticket) (.starving b)) := by
      change World.orFault w₁.cache.buffers.victim _ = _
      rw [show w₁.cache.buffers.victim = .ok none from hvictim]
      rfl
    exact ⟨_, (leads_absent hdevice hnone base).resume hresume,
      ⟨.push rfl .here, not_returned_run⟩, WaitQueue.holds_ticket _, .starving .here⟩
  | @victim i hnone hvictim hlocked =>
    have hresume : (Frame.lookingUp b).resume none w₁ =
        .ok (w₁, .call (.awaitUnlock i) (.awaitingVictim b i)) := by
      change World.orFault w₁.cache.buffers.victim _ = _
      rw [show w₁.cache.buffers.victim = .ok (some i) from hvictim]
      rfl
    have hawait : Leads (¬ Returned base ·) ⟨w, .hold, .run (.acquire b), base⟩
        ⟨w₁, .unit, .run (.awaitUnlock i), .push (.awaitingVictim b i) base⟩ :=
      (leads_absent hdevice hnone base).resume hresume
    exact ⟨_, hawait.begin (begin_awaitUnlock hlocked),
      ⟨.push rfl (.push rfl .here), not_returned_run⟩, WaitQueue.holds_ticket _,
      .awaiting (.push _ .here)⟩

end Lacking

end Machine
end BufferCache
