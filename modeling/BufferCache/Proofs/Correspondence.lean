import BufferCache.Proofs.Dirtiness
import BufferCache.Proofs.Spans
import BufferCache.Proofs.Submissions
import Mathlib.Logic.Basic

/-!
# Locks correspond to requests

A transfer is under way in a buffer from when it is locked until its request ends.  What
this comes to, at every point of every session: each request that was queued and has not
ended stands in one chain, once; a locked buffer is waiting for just one transfer, whose
request is queued or waits for a slot; a request is for the block in its buffer, which it
keeps; and the end of a request unlocks its buffer.

`Reachable.corresponds` draws this from consistency.  Clients can act where a machine is
`Open`, and there the claims are those of calls that are suspended.
-/

namespace BufferCache

variable {g : Geometry}

/-! ## Where clients can act -/

/-- A call at whose beginning clients can act: a script, a command, or the wait in which a
call gives way to them. -/
def Call.Opens {s : Shape} : Call g s → Prop
  | .sleep _ _ | .play _ | .perform _ => True
  | _ => False

namespace Machine

/-- The machine has come to where one operation of a client ends or begins, or where a call
gives way to others. -/
def Open : Machine g → Prop
  | ⟨_, _, .run d, _⟩ => d.Opens
  | ⟨_, s, .give _, _⟩ => s = .reply

/-- Where clients can act, only suspended calls have claims. -/
theorem Open.claims_eq {m : Machine g} (h : m.Open) (i : g.Buffer) :
    m.claims i = m.stack.claims i := by
  obtain ⟨w, s, control, stack⟩ := m
  have hnone (o : Option g.Buffer) (ho : o = none) :
      one o i + stack.claims i = stack.claims i := by
    rw [ho]
    exact Nat.zero_add _
  cases control with
  | run d =>
    refine hnone _ ?_
    cases d <;> first | rfl | exact h.elim
  | give v =>
    refine hnone stack.wishes.claim? ?_
    obtain rfl : s = .reply := h
    cases stack with
    | bottom => rfl
    | push f rest => cases f; rfl

end Machine

/-! ## What the slots ask for -/

namespace RequestTable

variable {r : RequestTable g} {i : g.Buffer} {k : g.Slot} {t : Transfer}

theorem order?_eq_some_iff :
    r.order? k = some (t, i) ↔ ∃ q, r.request? k = some q ∧ q.transfer = t ∧ q.buffer = i := by
  rw [order?, Option.map_eq_some_iff]
  simp only [Request.order, Prod.mk.injEq]

theorem card_slotsFor_eq_one_iff : (r.slotsFor i).card = 1 ↔
    ∃! k, ∃ q, r.request? k = some q ∧ q.buffer = i := by
  have hmem (k : g.Slot) : k ∈ r.slotsFor i ↔ ∃ q, r.request? k = some q ∧ q.buffer = i := by
    rw [mem_slotsFor]
    constructor
    · rintro ⟨t, ht⟩
      obtain ⟨q, hq, -, hb⟩ := order?_eq_some_iff.mp ht
      exact ⟨q, hq, hb⟩
    · rintro ⟨q, hq, hb⟩
      exact ⟨q.transfer, order?_eq_some_iff.mpr ⟨q, hq, rfl, hb⟩⟩
  rw [Finset.card_eq_one, Finset.singleton_iff_unique_mem]
  exact existsUnique_congr hmem

end RequestTable

/-! ## How requests come and go -/

namespace Effect

variable {e : Effect g} {c : Cache g} {k : g.Slot} {o : Transfer × g.Buffer}

/-- What the request in a slot asks for changes only as it is queued or ends. -/
theorem order?_apply (hfits : e.Fits c) (ho : c.requests.order? k = some o) :
    (e.apply c).requests.order? k = some o ∨
      (e.apply c).requests.order? k = Option.none ∧
        ((e.apply c).header o.2).locked = false := by
  have hended (c : Cache g) (m : Nat) (q : Request g) (success : Bool)
      (hq : c.requests.request? k = some q) (ho : c.requests.order? k = some o) :
      ((c.conclude m k q success).header o.2).locked = false := by
    rw [RequestTable.order?, hq] at ho
    cases ho
    change ((c.conclude m k q success).header q.buffer).locked = false
    rw [Cache.header_conclude, if_pos rfl]
  cases e with
  | queue direct d i b slot =>
    have hslot : slot ≠ k := by
      rintro rfl
      have hfree := (RequestTable.freeSlot_eq_some hfits.1).1
      rw [← RequestTable.order?_eq_none_iff, ho] at hfree
      cases hfree
    refine .inl ?_
    cases direct with
    | false => exact (RequestTable.order?_insert ..).trans ((if_neg hslot).trans ho)
    | true => exact (RequestTable.order?_insert ..).trans ((if_neg hslot).trans ho)
  | finish m slot q success =>
    rw [apply, Cache.order?_conclude]
    split
    · rename_i hslot
      subst hslot
      exact .inr ⟨rfl, hended c m q success hfits.2 ho⟩
    · exact .inl ho
  | serve m d slot q =>
    rw [apply, Cache.order?_conclude]
    split
    · rename_i hslot
      subst hslot
      exact .inr ⟨rfl, hended (c.carryOut m d q) d.major q _ hfits.2.2 ho⟩
    · exact .inl ho
  | assign i b s =>
    rw [apply, Cache.requests_assign]
    exact .inl ho
  | edit i page valid dirty => cases page <;> cases valid <;> cases dirty <;> exact .inl ho
  | _ => exact .inl ho

/-- A request is not queued in the step in which a buffer is given another block. -/
theorem ne_assign_of_order? (hnone : c.requests.order? k = Option.none)
    (ho : (e.apply c).requests.order? k = some o) (i : g.Buffer) (b : Block) (s : Buffers g) :
    e ≠ .assign i b s := by
  rintro rfl
  rw [apply, Cache.requests_assign, hnone] at ho
  cases ho

end Effect

namespace Machine

variable {m m' m₁ m₂ : Machine g} {k : g.Slot} {o : Transfer × g.Buffer} {i : g.Buffer}

/-- What the request in a slot asks for. -/
def order? (m : Machine g) (k : g.Slot) : Option (Transfer × g.Buffer) :=
  m.world.cache.requests.order? k

/-- What a buffer is for: its block, and its generation. -/
def identity (m : Machine g) (i : g.Buffer) : Option Block × UInt32 :=
  ((m.world.cache.header i).content, (m.world.cache.header i).generation)

/-- The buffer of a request is locked. -/
theorem Reachable.locked_of_order? (h : m.Reachable) (ho : m.order? k = some o) :
    (m.world.cache.header o.2).locked = true :=
  h.consistent.tallies.locked_of_order? ho

/-- A move has an effect on the cache. -/
theorem Reachable.exists_effect (h : m.Reachable) (hm : m.Moves m') :
    ∃ e : Effect g, e.Fits m.world.cache ∧ m'.world.cache = e.apply m.world.cache := by
  cases hm with
  | next waiting c => exact ⟨.none, trivial, rfl⟩
  | step hs =>
    obtain ⟨⟨e, hfits, happly, -⟩, -⟩ := hs.affects h.aimed
    exact ⟨e, hfits, happly⟩

/-- In every session, no driver is registered for the devices that are none. -/
theorem Reachable.driver?_zero (h : m.Reachable) : m.world.cache.driver? 0 = none := by
  let Inv (m : Machine g) : Prop := m.Aimed ∧ m.world.cache.driver? 0 = none
  suffices hm : Inv m from hm.2
  refine h.invariant (fun waiting c => ?_) (fun m m' hm hs => ?_) fun w a waiting c hm => ?_
  · exact ⟨⟨trivial, trivial⟩, rfl⟩
  · obtain ⟨⟨e, hfits, happly, -⟩, haimed⟩ := hs.affects hm.1
    exact ⟨haimed, happly ▸ e.driver?_zero hfits hm.2⟩
  · exact ⟨⟨trivial, trivial⟩, hm.2⟩

theorem identity_of_keeps {e : Effect g} (happly : m'.world.cache = e.apply m.world.cache)
    (hkeeps : ((e.apply m.world.cache).header i).content = (m.world.cache.header i).content ∧
      ((e.apply m.world.cache).header i).generation = (m.world.cache.header i).generation) :
    m'.identity i = m.identity i := by
  unfold identity
  rw [happly]
  exact Prod.ext hkeeps.1 hkeeps.2

/-- A request stays as it is until it ends, and its buffer keeps its block meanwhile.  As it
ends its buffer is unlocked. -/
theorem Reachable.order?_of_moves (h : m.Reachable) (hm : m.Moves m')
    (ho : m.order? k = some o) : m'.identity o.2 = m.identity o.2 ∧
      (m'.order? k = some o ∨
        m'.order? k = none ∧ (m'.world.cache.header o.2).locked = false) := by
  obtain ⟨e, hfits, happly⟩ := h.exists_effect hm
  refine ⟨identity_of_keeps happly (Effect.keeps_of_locked hfits (h.locked_of_order? ho)), ?_⟩
  unfold order?
  rw [happly]
  exact Effect.order?_apply hfits ho

/-- A buffer keeps its block in the step in which a request is queued. -/
theorem Reachable.identity_of_queued (h : m.Reachable) (hm : m.Moves m')
    (hnone : m.order? k = none) (ho : m'.order? k = some o) :
    m'.identity i = m.identity i := by
  obtain ⟨e, hfits, happly⟩ := h.exists_effect hm
  unfold order? at ho
  rw [happly] at ho
  have hne := Effect.ne_assign_of_order? hnone ho
  exact identity_of_keeps happly (Effect.keeps_of_ne hfits fun b s => hne i b s)

/-- The same from the step in which a request is queued until it ends. -/
theorem Reachable.identity_of_leads (h : m₁.Reachable) (ho : m₁.order? k = some o)
    (hspan : Leads (fun n => n.order? k ≠ none) m₁ m₂) (htaken : m₂.order? k ≠ none) :
    m₂.order? k = some o ∧ m₂.identity o.2 = m₁.identity o.2 := by
  induction hspan with
  | refl => exact ⟨ho, rfl⟩
  | tail hpath hmove ih =>
    obtain ⟨hbefore, hidentity⟩ := ih hmove.1
    obtain ⟨hkept, hstill | ⟨hended, -⟩⟩ :=
      (h.leads hpath).order?_of_moves hmove.2 hbefore
    · exact ⟨hstill, hkept.trans hidentity⟩
    · exact absurd hended htaken

/-! ## The correspondence -/

/-- How locks and requests correspond. -/
structure Corresponds (m : Machine g) : Prop where
  /-- Following the links from the current request of a major number visits the slots of
  its chain, and then ends. -/
  linked : ∀ major, Linked m.world.cache.requests.next?
    (m.world.cache.requests.currentSlot major) (m.world.cache.requests.chain major)
  /-- No slot is on a chain twice. -/
  once : ∀ major, (m.world.cache.requests.chain major).Nodup
  /-- A slot is on the chain of a major number just if there is a request in it, for a
  device of that number. -/
  chained : ∀ major k, k ∈ m.world.cache.requests.chain major ↔
    ∃ q, m.world.cache.requests.request? k = some q ∧ q.transfer.device.major = major
  /-- Where clients can act, a buffer is locked just if either there is just one request for
  it, or just one call is suspended that waits for a slot to queue one. -/
  locked_iff : m.Open → ∀ i, (m.world.cache.header i).locked = true ↔
    Xor (∃! k, ∃ q, m.world.cache.requests.request? k = some q ∧ q.buffer = i)
      (m.stack.claims i = 1)
  /-- There are no two requests for a buffer. -/
  single : ∀ k k' q q', m.world.cache.requests.request? k = some q →
    m.world.cache.requests.request? k' = some q' → q.buffer = q'.buffer → k = k'
  /-- A request is for the two sectors of the block in its buffer. -/
  sectors : ∀ k q, m.world.cache.requests.request? k = some q → q.transfer.sectors = 2 ∧
    q.transfer.sector = 2 * (m.world.cache.header q.buffer).number.toNat
  /-- If clients keep what they submit, it is for the device of that block. -/
  devices : ∀ ledger, m.Keeping ledger → ∀ k q, m.world.cache.requests.request? k = some q →
    q.transfer.device = (m.world.cache.header q.buffer).device
  /-- A request that ends leaves its buffer unlocked, which was locked. -/
  ended : ∀ {m' k o}, m.Moves m' → m.order? k = some o → m'.order? k = none →
    (m.world.cache.header o.2).locked = true ∧ (m'.world.cache.header o.2).locked = false
  /-- From when a request is queued until it ends, its buffer keeps its block and stays in
  its generation. -/
  kept : ∀ {m₁ m₂ k o}, m.Moves m₁ → m.order? k = none → m₁.order? k = some o →
    Leads (fun n => n.order? k ≠ none) m₁ m₂ → m₂.order? k ≠ none →
      m₂.order? k = some o ∧ m₂.identity o.2 = m.identity o.2

/-- In every session, whatever clients, drivers and listeners do, locks and requests
correspond. -/
theorem Reachable.corresponds (h : m.Reachable) : m.Corresponds := by
  obtain ⟨-, htallies⟩ := h.consistent
  have horder {k : g.Slot} {q : Request g} (hq : m.world.cache.requests.request? k = some q) :
      m.world.cache.requests.order? k = some (q.transfer, q.buffer) :=
    RequestTable.order?_eq_some_iff.mpr ⟨q, hq, rfl, rfl⟩
  refine ⟨htallies.arranged.linked, htallies.arranged.nodup, fun major k => ?_, fun hopen i => ?_,
    fun k k' q q' hq hq' hb => ?_, fun k q hq => ?_, fun ledger hkeeping k q hq => ?_,
    fun hm ho hnone => ?_, fun hm hnone ho hspan htaken => ?_⟩
  · rw [htallies.arranged.mem_iff]
    constructor
    · rintro ⟨⟨t, i⟩, ho, hmajor⟩
      obtain ⟨q, hq, rfl, -⟩ := RequestTable.order?_eq_some_iff.mp ho
      exact ⟨q, hq, hmajor⟩
    · rintro ⟨q, hq, hmajor⟩
      exact ⟨_, horder hq, hmajor⟩
  · have hcounted := htallies.counted i
    rw [hopen.claims_eq] at hcounted
    rw [← RequestTable.card_slotsFor_eq_one_iff]
    cases hlocked : (m.world.cache.header i).locked with
    | true =>
      rw [hlocked, Bool.toNat_true] at hcounted
      refine iff_of_true rfl ?_
      by_cases hone : m.stack.claims i = 1
      · exact .inr ⟨hone, by omega⟩
      · exact .inl ⟨by omega, hone⟩
    | false =>
      rw [hlocked, Bool.toNat_false] at hcounted
      refine iff_of_false Bool.false_ne_true ?_
      rintro (⟨hone, -⟩ | ⟨hone, -⟩) <;> omega
  · have hle : (m.world.cache.requests.slotsFor q.buffer).card ≤ 1 := by
      have hcounted := htallies.counted q.buffer
      have hlocked := Bool.toNat_le (m.world.cache.header q.buffer).locked
      omega
    refine Finset.card_le_one.mp hle k ?_ k' ?_
    · exact RequestTable.mem_slotsFor.mpr ⟨q.transfer, horder hq⟩
    · exact RequestTable.mem_slotsFor.mpr ⟨q'.transfer, hb ▸ horder hq'⟩
  · obtain ⟨hsectors, hsector, -⟩ := htallies.placed k q.transfer q.buffer (horder hq)
    exact ⟨hsectors, hsector.trans (Nat.mul_comm ..)⟩
  · have hplaced := hkeeping.consistent.tallies.placed k q.transfer q.buffer (horder hq)
    exact hplaced.2.2 trivial
  · refine ⟨h.locked_of_order? ho, ?_⟩
    rcases (h.order?_of_moves hm ho).2 with hstill | ⟨-, hunlocked⟩
    · cases hstill.symm.trans hnone
    · exact hunlocked
  · obtain ⟨hstill, hidentity⟩ := (h.moves hm).identity_of_leads ho hspan htaken
    exact ⟨hstill, hidentity.trans (h.identity_of_queued hm hnone ho)⟩

/-- Once a read has been submitted to a manual driver, the buffer is locked and there is one
request. -/
theorem corresponds_of_submission :
    ∃ ledger, ∃ m : Machine Geometry.small, m.Keeping ledger ∧ m.Open ∧
      (m.world.cache.header Geometry.small.firstBuffer).locked = true ∧
      (m.world.cache.requests.chain 1).length = 1 ∧ m.Corresponds := by
  have hstart : Keeping [] (start ((World.initial Geometry.small).fresh [])
      (.register 1 ⟨1, .manual []⟩ [])) := .start [] _ ⟨rfl, rfl⟩
  have hacquired := ((hstart.after 20).following [] (.acquire ⟨257, 3⟩ (some "h"))).after 30
  have h : Keeping _ _ := (hacquired.following [] (.issue .read "h")).after 30
  have hreachable : Reachable _ := Conduct.Run.reachable (fun _ _ hw => hw.1) h
  exact ⟨_, _, h, rfl, by decide, by decide, hreachable.corresponds⟩

end Machine
end BufferCache
