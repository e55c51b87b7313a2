import BufferCache.Proofs.ChainOrder

/-!
# What the request slots hold

The chains of all major numbers together list the slots that are taken, each of them once.
So the transfers queued over all drivers are those in the slots, and whatever is to be counted
among the former can be counted among the latter, where it changes by one as a request is
queued or ends.
-/

namespace BufferCache

variable {g : Geometry}

/-- Whether a request is for this direction. -/
def Direction.asked (d : Direction) (o : Transfer × g.Buffer) : Bool :=
  decide (o.1.direction = d)

namespace RequestTable

variable {r : RequestTable g} {k : g.Slot}

/-- The slots on the chains of all major numbers, chain by chain. -/
def allChained (r : RequestTable g) : List g.Slot :=
  (List.range majorCount).flatMap r.chain

/-- A slot is on some chain just if there is a request in it. -/
theorem Arranged.mem_allChained_iff (h : r.Arranged) :
    k ∈ r.allChained ↔ ∃ o, r.order? k = some o := by
  rw [allChained, List.mem_flatMap]
  constructor
  · rintro ⟨m, -, hk⟩
    obtain ⟨o, ho, -⟩ := (h.mem_iff m k).mp hk
    exact ⟨o, ho⟩
  · rintro ⟨o, ho⟩
    have hk : k ∈ r.chain o.1.device.major := (h.mem_iff _ k).mpr ⟨o, ho, rfl⟩
    obtain ⟨first, l, hl⟩ := List.exists_cons_of_ne_nil (List.ne_nil_of_mem hk)
    have hcurrent : r.currentSlot o.1.device.major = some first := by
      rw [h.currentSlot_eq, hl, List.head?_cons]
    exact ⟨_, List.mem_range.mpr (lt_majorCount_of_currentSlot hcurrent), hk⟩

/-- No slot is on two chains, or on one twice. -/
theorem Arranged.nodup_allChained (h : r.Arranged) : r.allChained.Nodup := by
  refine List.nodup_flatMap.mpr ⟨fun m _ => h.nodup m, ?_⟩
  refine List.nodup_range.imp fun hne k hk hk' => ?_
  exact hne (h.eq_of_mem hk hk')

end RequestTable

/-- The transfers queued over all drivers are those in the slots that are taken. -/
theorem Cache.allQueued_eq (c : Cache g) :
    c.allQueued = c.requests.allChained.filterMap c.requests.transfer? := by
  have hqueued : c.requests.queued =
      fun m => (c.requests.chain m).filterMap c.requests.transfer? :=
    funext c.requests.queued_eq
  rw [allQueued, hqueued, RequestTable.allChained, List.filterMap_flatMap]

/-- How many transfers of a kind are queued over all drivers. -/
theorem Cache.countP_allQueued {c : Cache g} (h : c.requests.Arranged) (p : Transfer → Bool) :
    c.allQueued.countP p = (c.requests.slotsWith fun o => p o.1).card := by
  have hfilter : (c.requests.slotsWith fun o => p o.1) =
      (c.requests.allChained.filter fun k =>
        (c.requests.order? k).any fun o => p o.1).toFinset := by
    ext k
    rw [RequestTable.mem_slotsWith, List.mem_toFinset, List.mem_filter, h.mem_allChained_iff,
      Option.any_eq_true]
    exact ⟨fun ⟨o, ho, hp⟩ => ⟨⟨o, ho⟩, o, ho, hp⟩, fun hk => hk.2⟩
  rw [hfilter, List.toFinset_card_of_nodup (h.nodup_allChained.filter _),
    ← List.countP_eq_length_filter, allQueued_eq, List.countP_filterMap]
  refine List.countP_congr fun k _ => ?_
  rw [RequestTable.transfer?]
  cases c.requests.order? k <;> rfl

end BufferCache
