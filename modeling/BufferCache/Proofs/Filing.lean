import BufferCache.Proofs.ReadAhead
import BufferCache.Proofs.ServiceOrder

/-!
# How a request is filed

A request is filed in a free slot, and put into the chain of its driver.  `Cache.Filed` tells all
that this does to the cache, and all that it leaves alone; it holds for the filing as it is because
of the order in which the chains are kept.  `Handles` is all that an operation can do with a buffer
that it has locked: to give the lock up again, to file a request, or to wait for a slot.

What an operation does while it waits is nothing: the calls that sleep form a family, which changes
the cache only through the scripts that it lets run.
-/

namespace BufferCache

variable {g : Geometry}

/-! ## What is done to the cache -/

namespace RequestTable

variable {r : RequestTable g} {i : g.Slot} {t : Transfer} {b : g.Buffer}

/-- A request that is put into a free slot is put into its chain, and into no other. -/
theorem Arranged.chain_insert (h : r.Arranged) (hi : r.request? i = none)
    (h' : (r.insert t.device.major i t b).1.Arranged) (major : Nat) :
    (r.insert t.device.major i t b).1.chain major =
      if t.device.major = major then r.behind t i (r.chain major) else r.chain major := by
  have horder : (r.insert t.device.major i t b).1.order? i = some (t, b) :=
    (order?_insert ..).trans (if_pos rfl)
  have hfree := (r.order?_eq_none_iff i).mpr hi
  cases h.turns_insert hi h' with
  | rest hsame _ =>
    rw [hsame, hfree] at horder
    cases horder
  | queue j o _ hsame hchain =>
    rw [hsame] at horder
    split at horder
    · rename_i hij
      subst hij
      cases horder
      exact hchain major
    · rw [hfree] at horder
      cases horder
  | retire _ j _ hsame _ =>
    rw [hsame, hfree] at horder
    split at horder <;> cases horder

/-- A driver has to be started just if it has no current request. -/
theorem insert_snd_iff {major : Nat} :
    (r.insert major i t b).2 = true ↔ r.currentSlot major = none := by
  unfold insert
  split <;> simp_all

/-- That is so just if its chain is empty. -/
theorem Arranged.currentSlot_eq_none_iff (h : r.Arranged) (major : Nat) :
    r.currentSlot major = none ↔ r.chain major = [] := by
  rw [h.currentSlot_eq]
  exact List.head?_eq_none_iff

end RequestTable

/-- From `c` to `c'`, a request to move block `b` into or out of buffer `i` is filed in `slot`, and
nothing else is changed. -/
structure Cache.Filed (d : Direction) (i : g.Buffer) (b : Block) (slot : g.Slot)
    (c c' : Cache g) : Prop where
  /-- The slot is one that the request may use, and was free. -/
  free : slot.val < RequestTable.usable g d ∧ c.requests.order? slot = none
  /-- The request is in it.  All other slots are as before. -/
  order? : ∀ k, c'.requests.order? k =
    if slot = k then some (.ofBlock d b, i) else c.requests.order? k
  /-- The request is put into the chain of its driver.  All other chains are as before. -/
  chain : ∀ major, c'.requests.chain major =
    if b.device.major = major then c.requests.behind (.ofBlock d b) slot (c.requests.chain major)
    else c.requests.chain major
  /-- The buffer was locked before and stays so. -/
  locked : (c.header i).locked = true
  /-- The buffer is clean from then on, and everything else about it is as before.  All other
  buffers are as before. -/
  header : ∀ j, c'.header j =
    if i = j then { c.header j with dirty := false } else c.header j
  /-- The chains and the ring of the buffers begin where they did. -/
  entries : c'.buffers.buckets = c.buffers.buckets ∧ c'.buffers.ringHead = c.buffers.ringHead
  /-- The bytes are as before. -/
  pages : c'.pages = c.pages
  /-- So are the drivers. -/
  drivers : c'.drivers = c.drivers
  /-- One more request of the direction was queued. -/
  statistics : c'.statistics = c.statistics.tick (Cache.counterOf d)
  /-- Nobody is woken. -/
  queues : c'.queue = c.queue

section Filing

variable {c : Cache g} {d : Direction} {i : g.Buffer} {b : Block} {slot : g.Slot}

theorem Cache.filed_enqueue (hslot : c.requests.freeSlot d = some slot)
    (hlocked : (c.header i).locked = true) (h : c.requests.Arranged)
    (h' : (c.enqueue d i b slot).requests.Arranged) :
    c.Filed d i b slot (c.enqueue d i b slot) := by
  obtain ⟨hfree, husable⟩ := RequestTable.freeSlot_eq_some hslot
  exact {
    free := ⟨husable, (RequestTable.order?_eq_none_iff _ _).mpr hfree⟩
    order? := fun k => RequestTable.order?_insert ..
    chain := h.chain_insert (t := .ofBlock d b) hfree h'
    locked := hlocked
    header := fun j => c.header_enqueue i j d b slot
    entries := ⟨rfl, rfl⟩
    pages := rfl
    drivers := rfl
    statistics := rfl
    queues := rfl }

/-- To lock a buffer and unlock it at once is to wake those who wait for its unlocking. -/
theorem Cache.unlock_lock (hunlocked : (c.header i).locked = false) :
    (c.lock i).unlock i = c.wake (.unlock i) := by
  have hheader : ({ c.header i with locked := false } : Header g.buffers) = c.header i := by
    rw [← hunlocked]
  have hbuffers : ((c.buffers.update i fun h => { h with locked := true }).update i
      fun h => { h with locked := false }) = c.buffers := Buffers.update_update_eq_self hheader
  unfold unlock lock update wake
  dsimp only
  rw [hbuffers]

end Filing

/-! ## The steps of an operation -/

namespace World

/-- What an operation does with buffer `i` once that is locked, and there is something to do: it
gives up the lock, files a request, or waits for a slot. -/
inductive Handles (op : Operation) (i : g.Buffer) (d : DeviceNumber) (number : BlockNumber)
    (c : Cache g) : World g → Next g .unit → Prop
  | skip {w : World g} : op.ahead = true → c.requests.freeSlot op.direction = none →
      w.cache = c.unlock i → Handles op i d number c w (.done ())
  | file {w : World g} {slot : g.Slot} : c.requests.freeSlot op.direction = some slot →
      w.cache = c.enqueue op.direction i ⟨d, number⟩ slot →
      Handles op i d number c w
        (if c.requests.currentSlot d.major = none then .goto (.start d.major) else .done ())
  | wait {w : World g} {ticket : UInt64} : op.ahead = false → w.cache = c →
      Handles op i d number c w (.call (.sleep .vacancy ticket) (.awaitingVacancy op i d number))

variable (w : World g) (op : Operation) (i : g.Buffer) (d : DeviceNumber)

theorem enqueue_handles (number : BlockNumber) :
    (w.enqueue op i d number).Ensures fun w' next => Handles op i d number w.cache w' next := by
  unfold enqueue
  split
  · rename_i slot hslot
    have hfile {w' : World g} (hcache : w'.cache = w.cache.enqueue op.direction i ⟨d, number⟩ slot) :
        Handles op i d number w.cache w' (if w.cache.requests.currentSlot d.major = none then
          .goto (.start d.major) else .done ()) := .file hslot hcache
    unfold file
    dsimp only
    split
    · rename_i hstart
      rw [if_pos (RequestTable.insert_snd_iff.mp hstart)] at hfile
      exact Outcome.ensures_goto (hfile rfl)
    · rename_i hstart
      rw [if_neg (mt RequestTable.insert_snd_iff.mpr hstart)] at hfile
      exact Outcome.ensures_done (hfile rfl)
  · rename_i hnone
    split
    · rename_i hahead
      exact Outcome.ensures_done (.skip hahead hnone (cache_unlock _ i))
    · rename_i hahead
      exact Outcome.ensures_call (.wait (Bool.eq_false_of_not_eq_true hahead) rfl)

/-- A buffer that is locked is unlocked again if there is nothing to do. -/
theorem locked_handles : (w.locked op i d).Ensures fun w' next =>
    needless op (w.cache.header i) = true ∧ w'.cache = w.cache.unlock i ∧ next = .done () ∨
      needless op (w.cache.header i) = false ∧
        Handles op i d (w.cache.header i).number w.cache w' next := by
  unfold locked
  split
  · rename_i hneedless
    exact Outcome.ensures_done (.inl ⟨hneedless, cache_unlock w i, rfl⟩)
  · rename_i hneedless
    exact (w.enqueue_handles op i d _).mono fun w' next hn =>
      .inr ⟨Bool.eq_false_of_not_eq_true hneedless, hn⟩

/-- An operation that is ahead of need locks its buffer in its first step, or is dropped.  Any
other one asks for the lock. -/
theorem request_handles : (w.request op i).Ensures fun w' next =>
    op.ahead = true ∧ (w.cache.header i).locked = true ∧ w'.cache = w.cache ∧ next = .done () ∨
      op.ahead = true ∧ (w.cache.header i).locked = false ∧
        (needless op (w.cache.header i) = true ∧ w'.cache = (w.cache.lock i).unlock i ∧
            next = .done () ∨
          needless op (w.cache.header i) = false ∧
            Handles op i (w.cache.header i).device (w.cache.header i).number (w.cache.lock i) w'
              next) ∨
      op.ahead = false ∧ w'.cache = w.cache ∧
        next = .call (.lock i) (.locking op i (w.cache.header i).device) := by
  unfold request
  dsimp only
  split
  · exact Outcome.ensures_fault
  split
  · rename_i hahead
    split
    · rename_i hlocked
      exact Outcome.ensures_done (.inl ⟨hahead, hlocked, rfl, rfl⟩)
    · rename_i hlocked
      have hheader : (w.cache.lock i).header i = { w.cache.header i with locked := true } := by
        rw [Cache.header_lock, if_pos rfl]
      have hneedless : needless op ((w.cache.lock i).header i) =
          needless op (w.cache.header i) := by
        rw [hheader]
        rfl
      have hnumber : ((w.cache.lock i).header i).number = (w.cache.header i).number := by
        rw [hheader]
        rfl
      have hhandles := (w.mapCache (·.lock i)).locked_handles op i (w.cache.header i).device
      change (_ : Outcome g .unit).Ensures fun w' next =>
        needless op ((w.cache.lock i).header i) = true ∧ _ ∨
          needless op ((w.cache.lock i).header i) = false ∧
            Handles op i _ ((w.cache.lock i).header i).number _ w' next at hhandles
      rw [hneedless, hnumber] at hhandles
      exact hhandles.mono fun w' next hn =>
        .inr (.inl ⟨hahead, Bool.eq_false_of_not_eq_true hlocked, hn⟩)
  · rename_i hahead
    exact Outcome.ensures_call (.inr (.inr ⟨Bool.eq_false_of_not_eq_true hahead, rfl, rfl⟩))

end World

/-- The calls that are made to sleep in a queue, and to let a script run. -/
def Call.Sleeps {s : Shape} : Call g s → Prop
  | .sleep _ _ | .play _ => True
  | _ => False

/-- The suspended ones among them. -/
def Frame.Sleeps {a s : Shape} : Frame g a s → Prop
  | .sleeping _ _ => True
  | _ => False

/-- The family of these calls. -/
def Family.sleeps (g : Geometry) : Family g where
  call := Call.Sleeps
  frame := Frame.Sleeps

section Sleeps

variable {a s : Shape} {w w' : World g} {next : Next g s}

theorem Call.Sleeps.begin {c : Call g s} (hc : c.Sleeps) (hnext : c.begin w = .ok (w', next)) :
    w'.cache = w.cache ∧ (Family.sleeps g).Admits next := by
  cases c with
  | sleep q ticket =>
    change w.sleep q ticket = _ at hnext
    unfold World.sleep at hnext
    split at hnext
    · split at hnext
      · cases hnext
      · rename_i htake
        cases hnext
        exact ⟨(World.cache_takeWaiting htake).trans rfl, .inl ⟨trivial, trivial⟩⟩
    · cases hnext
      exact ⟨rfl, trivial⟩
  | play script =>
    cases script with
    | nil =>
      cases hnext
      exact ⟨rfl, trivial⟩
    | cons command rest =>
      cases hnext
      exact ⟨rfl, .inr rfl⟩
  | _ => exact hc.elim

theorem Frame.Sleeps.resume {f : Frame g a s} {v : a.Value g} (hf : f.Sleeps)
    (hnext : f.resume v w = .ok (w', next)) :
    w'.cache = w.cache ∧ (Family.sleeps g).Admits next := by
  cases f with
  | sleeping q ticket =>
    cases hnext
    exact ⟨rfl, trivial⟩
  | _ => exact hf.elim

theorem Family.sleeps_closed : (Family.sleeps g).Closed where
  begin hc hnext := (hc.begin hnext).2
  resume hf hnext := (hf.resume hnext).2
  play _ := trivial

end Sleeps

namespace Machine

/-- A call that sleeps above `base'` changes nothing itself. -/
theorem cache_of_asleep {s : Shape} {base : Stack g s} {base' : Stack g .unit} {w : World g}
    {q : Queue g} {ticket : UInt64} {n n' : Machine g} (hbase : base.Beneath base')
    (hspan : Leads (¬ Returned base' ·) ⟨w, .unit, .run (.sleep q ticket), base'⟩ n)
    (hover : ¬ n.Returned base') (hwork : n.AtWork base) (hmove : n.Moves n') :
    n'.world.cache = n.world.cache := by
  have hsleep : (Family.sleeps g).call (.sleep q ticket) := trivial
  have hmoves := Family.sleeps_closed.moves_of_atWork hsleep hbase hspan hwork
  cases hmoves.makes hover hmove with
  | begin hc _ hnext =>
    rw [world_next]
    exact (Call.Sleeps.begin hc hnext).1
  | resume hf _ hnext =>
    rw [world_next]
    exact (Frame.Sleeps.resume hf hnext).1

end Machine
end BufferCache
