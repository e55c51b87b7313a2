import BufferCache.Proofs.Storage
import BufferCache.Proofs.Deliveries
import BufferCache.Proofs.Filing
import BufferCache.Proofs.Reckoning
import BufferCache.Proofs.Availability

/-!
# The service of a disk

A disk in memory that is started serves the whole chain of its own major number, from the
current request on, before anything else happens.  The chain may hold requests for other units,
and for blocks that are not on the disk.

`MemoryDisk.Carries` says what comes of one transfer, byte by byte, and `Cache.ServesOne` what
becomes of the cache as a request is carried out and ended.  `Cache.ServesAll` strings these
together, with a log of the requests that have ended; so what is stored in the end is composed
of all transfers in the order of the chain.  What the log and the cache have in common at the
end is put together in `Cache.Clears`.

The disk that serves a chain need not be the driver to which the requests were submitted: a
driver serves the requests of its own major number, under whatever number it is registered.
This is how a chain of more than one request can come to a disk.
-/

namespace BufferCache

variable {g : Geometry}

/-! ## One transfer -/

namespace MemoryDisk

variable {disk disk' : MemoryDisk} {t : Transfer} {p p' : Page} {success : Bool}

/-- The transfer is for the unit that the disk is, and its bytes are all on the disk. -/
def Accepts (disk : MemoryDisk) (t : Transfer) : Prop :=
  t.device.minor = disk.minor ∧ sectorSize * t.sector + blockSize ≤ disk.size

theorem serves_eq_true_iff : disk.serves t = true ↔ disk.Accepts t := by
  rw [serves, Accepts, Bool.and_eq_true, beq_iff_eq, decide_eq_true_iff, Transfer.offset,
    Nat.mul_comm]

/-- What comes of transfer `t` on page `p`: whether it succeeds, and the disk and the page
afterwards. -/
inductive Carries (disk : MemoryDisk) (t : Transfer) (p : Page) : Bool → MemoryDisk → Page → Prop
  /-- It fails, and nothing changes. -/
  | refused : ¬ disk.Accepts t → Carries disk t p false disk p
  /-- The page becomes the bytes on the disk. -/
  | read {p' : Page} : disk.Accepts t → t.direction = .read →
      (∀ n < blockSize, p'[n]? = disk.storage[sectorSize * t.sector + n]?) →
      Carries disk t p true { disk with reads := disk.reads + 1 } p'
  /-- Just the bytes on the disk become the page. -/
  | written {storage : Array UInt8} : disk.Accepts t → t.direction = .write →
      storage.size = disk.storage.size →
      (∀ n < blockSize, storage[sectorSize * t.sector + n]? = p[n]?) →
      (∀ n, n < sectorSize * t.sector ∨ sectorSize * t.sector + blockSize ≤ n →
        storage[n]? = disk.storage[n]?) →
      Carries disk t p true { disk with storage := storage, writes := disk.writes + 1 } p

/-- A transfer that is read in. -/
theorem carries_readPage (h : disk.Accepts t) (hdir : t.direction = .read) :
    disk.Carries t p true { disk with reads := disk.reads + 1 } (disk.readPage t.offset) := by
  have hoffset : t.offset = sectorSize * t.sector := Nat.mul_comm _ _
  refine .read h hdir fun n hn => ?_
  have hbyte : sectorSize * t.sector + n < disk.storage.size :=
    Nat.lt_of_lt_of_le (Nat.add_lt_add_left hn _) h.2
  rw [hoffset, readPage, Vector.getElem?_ofFn, dif_pos hn, Array.getElem?_eq_getElem hbyte]
  rfl

/-- A transfer that is written out. -/
theorem carries_writePage (h : disk.Accepts t) (hdir : t.direction = .write) :
    disk.Carries t p true
      { disk with storage := disk.writePage t.offset p, writes := disk.writes + 1 } p := by
  have hoffset : t.offset = sectorSize * t.sector := Nat.mul_comm _ _
  rw [hoffset]
  refine .written h hdir (size_writePage ..) (fun n hn => ?_) fun n hn => ?_
  · have hbyte : sectorSize * t.sector + n < disk.storage.size :=
      Nat.lt_of_lt_of_le (Nat.add_lt_add_left hn _) h.2
    rw [getElem?_writePage, Array.getElem?_eq_getElem hbyte, Option.map_some,
      if_pos (Nat.le_add_right _ _), Nat.add_sub_cancel_left, Vector.getElem?_eq_getElem hn]
    rfl
  · rw [getElem?_writePage]
    have hkept (byte : UInt8) : (if sectorSize * t.sector ≤ n then
        (p[n - sectorSize * t.sector]?).getD byte else byte) = byte := by
      by_cases hle : sectorSize * t.sector ≤ n
      · have hbehind : blockSize ≤ n - sectorSize * t.sector := by omega
        rw [if_pos hle, Vector.getElem?_eq_none hbehind]
        rfl
      · rw [if_neg hle]
    simp only [hkept, Option.map_id']

/-- A driver of a disk carries a transfer out as the disk does. -/
theorem exists_carries {d : Driver} (hk : d.kind = .disk disk) (t : Transfer) (p : Page) :
    ∃ disk', (d.serve t p).driver = ⟨d.major, .disk disk'⟩ ∧
      disk.Carries t p (d.serve t p).success disk' (d.serve t p).page := by
  obtain ⟨major, kind⟩ := d
  cases hk
  by_cases haccepts : disk.Accepts t
  · have hserves := serves_eq_true_iff.mpr haccepts
    cases hdir : t.direction with
    | read =>
      have hout : disk.carryOut t p =
          some ({ disk with reads := disk.reads + 1 }, disk.readPage t.offset) := by
        rw [carryOut, if_pos hserves, hdir]
      simp only [Driver.serve, hout]
      exact ⟨_, rfl, carries_readPage haccepts hdir⟩
    | write =>
      have hout : disk.carryOut t p = some ({ disk with
          storage := disk.writePage t.offset p, writes := disk.writes + 1 }, p) := by
        rw [carryOut, if_pos hserves, hdir]
      simp only [Driver.serve, hout]
      exact ⟨_, rfl, carries_writePage haccepts hdir⟩
  · have hout : disk.carryOut t p = none := (carryOut_eq_none_iff disk t p).mpr
      (Bool.eq_false_iff.mpr (mt serves_eq_true_iff.mp haccepts))
    simp only [Driver.serve, hout]
    exact ⟨_, rfl, .refused haccepts⟩

/-- A transfer succeeds just if the disk accepts it. -/
theorem Carries.success_iff (h : disk.Carries t p success disk' p') :
    success = true ↔ disk.Accepts t := by
  cases h with
  | refused hrefused => exact iff_of_false Bool.false_ne_true hrefused
  | read haccepts => exact iff_of_true rfl haccepts
  | written haccepts => exact iff_of_true rfl haccepts

/-- Unit and size of a disk do not change. -/
theorem Carries.frame (h : disk.Carries t p success disk' p') :
    disk'.minor = disk.minor ∧ disk'.size = disk.size := by
  cases h with
  | refused => exact ⟨rfl, rfl⟩
  | read => exact ⟨rfl, rfl⟩
  | written _ _ hsize => exact ⟨rfl, hsize⟩

/-- What succeeds is counted. -/
theorem Carries.counts (h : disk.Carries t p success disk' p') :
    disk'.reads = disk.reads + (if success && t.direction == .read then 1 else 0) ∧
      disk'.writes = disk.writes + if success && t.direction == .write then 1 else 0 := by
  cases h with
  | refused => exact ⟨rfl, rfl⟩
  | read _ hdir =>
    rw [hdir]
    exact ⟨rfl, rfl⟩
  | written _ hdir =>
    rw [hdir]
    exact ⟨rfl, rfl⟩

/-- So the disk goes on accepting the same transfers. -/
theorem Carries.accepts_iff (h : disk.Carries t p success disk' p') (t' : Transfer) :
    disk'.Accepts t' ↔ disk.Accepts t' := by
  rw [Accepts, Accepts, h.frame.1, h.frame.2]

end MemoryDisk
/-! ## One request -/

/-- A request that has ended. -/
structure Completion (g : Geometry) where
  /-- The slot in which it stood. -/
  slot : g.Slot
  /-- The request. -/
  request : Request g
  /-- Whether it succeeded. -/
  success : Bool

/-- The disk registered under `k`, whose own major number is `m`, carries out the current request
and ends it: from `c` to `c'`, the disk going from `disk` to `disk'`. -/
structure Cache.ServesOne (k m : Nat) (x : Completion g) (c : Cache g) (disk : MemoryDisk)
    (c' : Cache g) (disk' : MemoryDisk) : Prop where
  /-- The request was the first of its chain and has left it. -/
  retired : c.requests.chain m = x.slot :: c'.requests.chain m
  /-- All other chains are as before. -/
  chains : ∀ m', m' ≠ m → c'.requests.chain m' = c.requests.chain m'
  /-- It is the request that stood in its slot. -/
  found : c.requests.request? x.slot = some x.request
  /-- The slot is free, and all others are as before. -/
  requests : ∀ j, c'.requests.request? j = if x.slot = j then none else c.requests.request? j
  /-- The transfer was carried out on the page of its buffer. -/
  carried : disk.Carries x.request.transfer (c.page x.request.buffer) x.success disk'
    (c'.page x.request.buffer)
  /-- No other page is changed. -/
  pages : ∀ j, j ≠ x.request.buffer → c'.page j = c.page j
  /-- The buffer is unlocked, and valid just if the transfer succeeded. -/
  headers : ∀ j, c'.header j =
    if x.request.buffer = j then { c.header j with valid := x.success, locked := false }
    else c.header j
  /-- The driver goes on with the disk as it is then. -/
  driver : c'.driver? k = some ⟨m, .disk disk'⟩
  /-- All other drivers are as before. -/
  drivers : ∀ k', k' ≠ k → c'.driver? k' = c.driver? k'
  /-- A failure is counted. -/
  statistics : c'.statistics = if x.success then c.statistics else c.statistics.tick .failure

section Turns

variable {k m : Nat} {c : Cache g} {disk : MemoryDisk} {slot : g.Slot} {q : Request g}
  {rest : List g.Slot} {w : World g}

/-- Carrying out the current request and ending it. -/
theorem Cache.exists_servesOne (harranged : c.requests.Arranged)
    (hd : c.driver? k = some ⟨m, .disk disk⟩) (hslot : c.requests.currentSlot m = some slot)
    (hq : c.requests.request? slot = some q) (success : Bool)
    (hsuccess : success = (Driver.serve ⟨m, .disk disk⟩ q.transfer (c.page q.buffer)).success) :
    ∃ disk', c.ServesOne k m ⟨slot, q, success⟩ disk
      ((c.carryOut k ⟨m, .disk disk⟩ q).conclude m slot q success) disk' := by
  subst hsuccess
  obtain ⟨disk', hdriver, hcarries⟩ :=
    MemoryDisk.exists_carries (d := ⟨m, .disk disk⟩) rfl q.transfer (c.page q.buffer)
  obtain ⟨-, hchains⟩ := harranged.retire hslot
  obtain ⟨rest, hchain, -⟩ := harranged.exists_cons hslot
  have hpage (j : g.Buffer) := page_carryOut c k ⟨m, .disk disk⟩ q j
  have hdrivers (k' : Nat) : ((c.carryOut k ⟨m, .disk disk⟩ q).conclude m slot q
      (Driver.serve ⟨m, .disk disk⟩ q.transfer (c.page q.buffer)).success).driver? k' =
        if k = k' then some ⟨m, .disk disk'⟩ else c.driver? k' := by
    have hset : (c.setDriver k ⟨m, .disk disk'⟩).driver? k' =
        if k = k' then some ⟨m, .disk disk'⟩ else c.driver? k' := by
      rw [driver?_setDriver]
      simp only [lt_majorCount_of_driver? hd, and_true]
    rw [← hset]
    refine driver?_congr ((drivers_conclude ..).trans ?_) k'
    rw [carryOut, hdriver]
    rfl
  refine ⟨disk', ?_, fun m' hm' => ?_, hq, fun j => ?_, ?_, fun j hj => ?_, fun j => ?_,
    (hdrivers k).trans (if_pos rfl), fun k' hk' => (hdrivers k').trans (if_neg (Ne.symm hk')),
    statistics_conclude ..⟩
  · rw [requests_conclude]
    change _ = slot :: (c.requests.retire m slot).1.chain m
    rw [hchains, if_pos rfl, hchain]
    rfl
  · rw [requests_conclude]
    change (c.requests.retire m slot).1.chain m' = _
    rw [hchains, if_neg (Ne.symm hm')]
  · rw [requests_conclude]
    exact RequestTable.request?_retire _ m slot j
  · rw [page_conclude, hpage, if_pos rfl]
    exact hcarries
  · rw [page_conclude, hpage, if_neg (Ne.symm hj)]
  · rw [header_conclude, header_carryOut]

/-- A disk whose chain is empty has nothing to do. -/
theorem World.serve_of_idle (hd : w.cache.driver? k = some ⟨m, .disk disk⟩)
    (hslot : w.cache.requests.currentSlot m = none) : w.serve k = w.done (s := .unit) () := by
  rw [serve, hd]
  dsimp only
  rw [RequestTable.currentRequest, hslot]
  rfl

/-- A disk that serves a request goes on as long as there is another one. -/
theorem World.exists_serve_of_chain (harranged : w.cache.requests.Arranged)
    (hd : w.cache.driver? k = some ⟨m, .disk disk⟩)
    (hchain : w.cache.requests.chain m = slot :: rest) :
    ∃ (x : Completion g) (w' : World g) (disk' : MemoryDisk),
      w.cache.ServesOne k m x disk w'.cache disk' ∧ w'.cache.requests.Arranged ∧
        w.serve k = if rest = [] then w'.done (s := .unit) () else w'.goto (.serve k) := by
  have hslot : w.cache.requests.currentSlot m = some slot := by
    rw [harranged.currentSlot_eq, hchain]
    rfl
  obtain ⟨q, hq⟩ := Option.ne_none_iff_exists'.mp
    (harranged.request?_ne_none (m := m) (k := slot) (hchain ▸ List.mem_cons_self))
  obtain ⟨rest', hchain', hlinked, -⟩ := harranged.exists_cons hslot
  obtain ⟨-, rfl⟩ := List.cons.inj (hchain.symm.trans hchain')
  let d : Driver := ⟨m, .disk disk⟩
  let carried := w.carryOut k d q
  let ended := carried.1.conclude m slot q carried.2
  have hrequests : carried.1.cache.requests = w.cache.requests := by
    change (w.carryOut k d q).1.cache.requests = _
    rw [cache_carryOut]
    rfl
  have hcache : ended.1.cache = (w.cache.carryOut k d q).conclude m slot q carried.2 := by
    rw [cache_conclude, cache_carryOut]
  obtain ⟨disk', hserves⟩ :=
    w.cache.exists_servesOne harranged hd hslot hq carried.2 (success_carryOut w k d q)
  rw [← hcache] at hserves
  refine ⟨⟨slot, q, carried.2⟩, ended.1, disk', hserves, ?_, ?_⟩
  · rw [hcache, Cache.requests_conclude]
    exact (harranged.retire hslot).1
  · have hfinish : carried.1.finish m carried.2 = .ok ended := by
      rw [finish, hrequests, hslot]
      dsimp only
      rw [hq]
    have hfollows : ended.2 = !rest.isEmpty := by
      rw [follows_conclude, hrequests]
      change (w.cache.requests.next? slot).isSome = _
      rw [hlinked.start_eq]
      cases rest <;> rfl
    have hserve : w.serve k = orFault (carried.1.finish m carried.2) fun ended =>
        if ended.2 then ended.1.goto (.serve k) else ended.1.done () := by
      rw [serve, hd]
      dsimp only
      rw [RequestTable.currentRequest, hslot, Option.bind_some, hq]
    rw [hserve, hfinish]
    change (if ended.2 then _ else _) = _
    rw [hfollows]
    cases rest <;> rfl

end Turns
/-! ## The whole chain -/

/-- The disk carries out and ends one request after the other, as logged. -/
inductive Cache.ServesAll (k m : Nat) :
    List (Completion g) → Cache g → MemoryDisk → Cache g → MemoryDisk → Prop
  | nil {c : Cache g} {disk : MemoryDisk} : ServesAll k m [] c disk c disk
  | cons {x : Completion g} {log : List (Completion g)} {c c₁ c' : Cache g}
      {disk disk₁ disk' : MemoryDisk} : c.ServesOne k m x disk c₁ disk₁ →
      ServesAll k m log c₁ disk₁ c' disk' → ServesAll k m (x :: log) c disk c' disk'

namespace Cache.ServesAll

variable {k m : Nat} {log : List (Completion g)} {c c' : Cache g} {disk disk' : MemoryDisk}
  {x : Completion g} {j : g.Buffer}

/-- What is logged was the chain, from the first request on. -/
theorem chain_eq (h : ServesAll k m log c disk c' disk') :
    c.requests.chain m = log.map Completion.slot ++ c'.requests.chain m := by
  induction h with
  | nil => rfl
  | cons hone _ ih => rw [hone.retired, ih, List.map_cons, List.cons_append]

theorem chain_of_ne (h : ServesAll k m log c disk c' disk') {m' : Nat} (hm' : m' ≠ m) :
    c'.requests.chain m' = c.requests.chain m' := by
  induction h with
  | nil => rfl
  | cons hone _ ih => exact ih.trans (hone.chains m' hm')

/-- The requests are those that stood in their slots from the beginning. -/
theorem found (h : ServesAll k m log c disk c' disk') (hx : x ∈ log) :
    c.requests.request? x.slot = some x.request := by
  induction h with
  | nil => cases hx
  | cons hone _ ih =>
    rcases List.mem_cons.mp hx with rfl | hrest
    · exact hone.found
    · have hlater := ih hrest
      rw [hone.requests] at hlater
      split at hlater
      · cases hlater
      · exact hlater

theorem request?_of_notMem (h : ServesAll k m log c disk c' disk') {slot : g.Slot}
    (hslot : slot ∉ log.map Completion.slot) :
    c'.requests.request? slot = c.requests.request? slot := by
  induction h with
  | nil => rfl
  | cons hone _ ih =>
    rw [List.map_cons, List.mem_cons, not_or] at hslot
    rw [ih hslot.2, hone.requests, if_neg (Ne.symm hslot.1)]

theorem frame (h : ServesAll k m log c disk c' disk') :
    disk'.minor = disk.minor ∧ disk'.size = disk.size := by
  induction h with
  | nil => exact ⟨rfl, rfl⟩
  | cons hone _ ih =>
    exact ⟨ih.1.trans hone.carried.frame.1, ih.2.trans hone.carried.frame.2⟩

/-- Which requests succeed is settled from the beginning. -/
theorem success_iff (h : ServesAll k m log c disk c' disk') (hx : x ∈ log) :
    x.success = true ↔ disk.Accepts x.request.transfer := by
  induction h with
  | nil => cases hx
  | cons hone _ ih =>
    rcases List.mem_cons.mp hx with rfl | hrest
    · exact hone.carried.success_iff
    · exact (ih hrest).trans (hone.carried.accepts_iff _)

/-- Buffers without a request are left alone. -/
theorem of_unnamed (h : ServesAll k m log c disk c' disk')
    (hj : j ∉ log.map fun x => x.request.buffer) :
    c'.header j = c.header j ∧ c'.page j = c.page j := by
  induction h with
  | nil => exact ⟨rfl, rfl⟩
  | cons hone _ ih =>
    rw [List.map_cons, List.mem_cons, not_or] at hj
    obtain ⟨hheader, hpage⟩ := ih hj.2
    refine ⟨hheader.trans ?_, hpage.trans (hone.pages j hj.1)⟩
    rw [hone.headers, if_neg (Ne.symm hj.1)]

/-- If no two requests are for one buffer, each buffer tells in the end what came of its own. -/
theorem header_eq (h : ServesAll k m log c disk c' disk')
    (hnodup : (log.map fun x => x.request.buffer).Nodup) (hx : x ∈ log) :
    c'.header x.request.buffer =
      { c.header x.request.buffer with valid := x.success, locked := false } := by
  induction h with
  | nil => cases hx
  | cons hone hrest ih =>
    rw [List.map_cons, List.nodup_cons] at hnodup
    rcases List.mem_cons.mp hx with rfl | hlater
    · rw [(hrest.of_unnamed hnodup.1).1, hone.headers, if_pos rfl]
    · have hne := fun heq => hnodup.1 (List.mem_map.mpr ⟨x, hlater, heq⟩)
      rw [ih hnodup.2 hlater, hone.headers, if_neg (Ne.symm hne)]

theorem drivers (h : ServesAll k m log c disk c' disk') {k' : Nat} (hk' : k' ≠ k) :
    c'.driver? k' = c.driver? k' := by
  induction h with
  | nil => rfl
  | cons hone _ ih => exact ih.trans (hone.drivers k' hk')

/-- Only failures are counted. -/
theorem statistics_eq (h : ServesAll k m log c disk c' disk') : c'.statistics =
    { c.statistics with
      failures := c.statistics.failures + log.countP fun x => !x.success } := by
  induction h with
  | nil => rfl
  | @cons x log _ _ _ _ _ _ hone _ ih =>
    rw [ih, hone.statistics, List.countP_cons]
    cases x.success with
    | true => rfl
    | false =>
      simp only [Bool.false_eq_true, if_false, Bool.not_false, if_true, Statistics.tick]
      congr 1
      omega

/-- The disk counts its reads and its writes. -/
theorem counts (h : ServesAll k m log c disk c' disk') :
    disk'.reads = disk.reads + log.countP (fun x =>
      x.success && x.request.transfer.direction == .read) ∧
    disk'.writes = disk.writes + log.countP (fun x =>
      x.success && x.request.transfer.direction == .write) := by
  induction h with
  | nil => exact ⟨rfl, rfl⟩
  | @cons x log _ _ _ _ _ _ hone _ ih =>
    obtain ⟨hreads, hwrites⟩ := hone.carried.counts
    rw [ih.1, ih.2, hreads, hwrites, List.countP_cons, List.countP_cons]
    omega

end Cache.ServesAll
/-- A disk that serves its chain comes to the end of it, without giving way. -/
theorem Call.completes_serve_chain {k m : Nat} {disk : MemoryDisk} {w : World g}
    (harranged : w.cache.requests.Arranged)
    (hd : w.cache.driver? k = some ⟨m, .disk disk⟩) :
    (Call.serve k).Completes True (fun w' _ => ∃ log disk',
      Cache.ServesAll k m log w.cache disk w'.cache disk' ∧
        w'.cache.requests.chain m = []) w := by
  refine completes_of_begin rfl ?_
  change (w.serve k).Completes _ _ _
  -- The induction is on what is left of the chain.
  induction hchain : w.cache.requests.chain m generalizing w disk with
  | nil =>
    rw [World.serve_of_idle hd ((harranged.currentSlot_eq_none_iff m).mpr hchain)]
    exact Outcome.completes_done ⟨[], disk, .nil, hchain⟩
  | cons slot rest ih =>
    obtain ⟨x, w₁, disk₁, hone, harranged₁, hserve⟩ :=
      World.exists_serve_of_chain harranged hd hchain
    have hrest : w₁.cache.requests.chain m = rest :=
      (List.cons.inj (hone.retired.symm.trans hchain)).2
    rw [hserve]
    split
    · rename_i hnil
      exact Outcome.completes_done ⟨[x], disk₁, .cons hone .nil, hrest.trans hnil⟩
    · refine Outcome.completes_goto (completes_of_begin rfl ?_)
      refine (ih harranged₁ hone.driver hrest).post fun w' _ hlater => ?_
      obtain ⟨log, disk', hall, hempty⟩ := hlater
      exact ⟨x :: log, disk', .cons hone hall, hempty⟩

/-- No two requests are for one buffer. -/
theorem Cache.Tallies.eq_of_order? {exact : Prop} {c : Cache g} {claims : g.Buffer → Nat}
    (h : c.Tallies exact claims) {slot slot' : g.Slot} {t t' : Transfer} {i : g.Buffer}
    (hslot : c.requests.order? slot = some (t, i))
    (hslot' : c.requests.order? slot' = some (t', i)) : slot = slot' := by
  have hcounted := h.counted i
  have hone : (c.requests.slotsFor i).card ≤ 1 := by
    have := Bool.toNat_le (c.header i).locked
    omega
  exact Finset.card_le_one.mp hone slot (RequestTable.mem_slotsFor.mpr ⟨t, hslot⟩) slot'
    (RequestTable.mem_slotsFor.mpr ⟨t', hslot'⟩)

/-- The bytes of a transfer that a disk computes with 64 bits: they make up a block, which begins
and ends where 64 bits can tell. -/
structure Transfer.Bounded (t : Transfer) : Prop where
  block : t.sectors * sectorSize = blockSize
  start : t.sector * sectorSize < UInt64.size
  stop : t.sector * sectorSize + t.sectors * sectorSize < UInt64.size

/-- The numbers of blocks have 32 bits, so there is no transfer of a block that is not bounded. -/
theorem Cache.Tallies.bounded {exact : Prop} {c : Cache g} {claims : g.Buffer → Nat}
    (h : c.Tallies exact claims) {slot : g.Slot} {t : Transfer} {i : g.Buffer}
    (hslot : c.requests.order? slot = some (t, i)) : t.Bounded := by
  obtain ⟨hsectors, hsector, -⟩ := h.placed slot t i hslot
  have hnumber : (c.blockOf i).number.toNat < UInt32.size := (c.blockOf i).number.toNat_lt
  have hblock : (c.blockOf i).sector = (c.blockOf i).number.toNat * sectorsPerBlock := rfl
  have hbytes : sectorsPerBlock * sectorSize = blockSize := rfl
  rw [← hsector] at hblock
  refine ⟨hsectors ▸ hbytes, ?_, ?_⟩
  all_goals
    simp only [hsectors, hblock, sectorsPerBlock, blockSize, sectorSize, UInt64.size] at hnumber ⊢
    simp only [UInt32.size] at hnumber
    omega

/-- What it is that a disk, registered under `k`, has done once it has served the chain of its own
major number `m`: the requests in the log have ended, and `c`, with `disk`, has become `c'`, with
`disk'`. -/
structure Cache.Clears (k m : Nat) (log : List (Completion g)) (c : Cache g) (disk : MemoryDisk)
    (c' : Cache g) (disk' : MemoryDisk) : Prop where
  /-- The requests were carried out and ended one after the other. -/
  served : Cache.ServesAll k m log c disk c' disk'
  /-- They are those of the chain, in its order. -/
  ordered : log.map Completion.slot = c.requests.chain m
  /-- None of them ended twice. -/
  once : (log.map Completion.slot).Nodup
  /-- The chain is empty. -/
  emptied : c'.requests.chain m = []
  /-- The chains of all other major numbers are as before. -/
  others : ∀ m', m' ≠ m → c'.requests.chain m' = c.requests.chain m'
  /-- And so are the requests in them. -/
  slots : ∀ slot, slot ∉ c.requests.chain m →
    c'.requests.request? slot = c.requests.request? slot
  /-- The requests are those that stood in the slots. -/
  found : ∀ x ∈ log, c.requests.request? x.slot = some x.request
  /-- A request succeeds just if it is for the unit of the disk and for bytes on it. -/
  success_iff : ∀ x ∈ log, x.success = true ↔ x.request.transfer.device.minor = disk.minor ∧
    sectorSize * x.request.transfer.sector + blockSize ≤ disk.size
  /-- The buffer of each is unlocked, and valid just if it succeeded; nothing else is changed in
  its header. -/
  unlocked : ∀ x ∈ log, c'.header x.request.buffer =
    { c.header x.request.buffer with valid := x.success, locked := false }
  /-- All other buffers are as before. -/
  unnamed : ∀ j, (∀ x ∈ log, x.request.buffer ≠ j) →
    c'.header j = c.header j ∧ c'.page j = c.page j
  /-- The failures are counted, and nothing else is. -/
  failures : c'.statistics = { c.statistics with
    failures := c.statistics.failures + log.countP fun x => !x.success }
  /-- The disk has its unit and its size. -/
  frame : disk'.minor = disk.minor ∧ disk'.size = disk.size
  /-- It has counted its reads and writes. -/
  counts : disk'.reads = disk.reads + log.countP (fun x =>
      x.success && x.request.transfer.direction == .read) ∧
    disk'.writes = disk.writes + log.countP (fun x =>
      x.success && x.request.transfer.direction == .write)
  /-- All other drivers are as before. -/
  drivers : ∀ k', k' ≠ k → c'.driver? k' = c.driver? k'
  /-- No offset is too large for 64 bits. -/
  bounded : ∀ x ∈ log, x.request.transfer.Bounded

namespace Machine

variable {m : Machine g} {k : Nat} {d : Driver} {disk : MemoryDisk}

/-- The requests of a session, once they are served. -/
theorem Reachable.clears_of_servesAll (h : m.Reachable) {n : Nat} {log : List (Completion g)}
    {c' : Cache g} {disk' : MemoryDisk}
    (hserves : Cache.ServesAll k n log m.world.cache disk c' disk')
    (hempty : c'.requests.chain n = []) : Cache.Clears k n log m.world.cache disk c' disk' := by
  have htallies := h.consistent.tallies
  have hordered : log.map Completion.slot = m.world.cache.requests.chain n := by
    rw [hserves.chain_eq, hempty, List.append_nil]
  have honce : (log.map Completion.slot).Nodup := hordered ▸ htallies.arranged.nodup n
  have horder {x : Completion g} (hx : x ∈ log) : m.world.cache.requests.order? x.slot =
      some (x.request.transfer, x.request.buffer) := by
    rw [RequestTable.order?, hserves.found hx]
    rfl
  have hbuffers : (log.map fun x => x.request.buffer).Nodup := by
    refine List.Nodup.map_on (fun x hx y hy hxy => ?_) honce.of_map
    refine List.inj_on_of_nodup_map honce hx hy ?_
    have hy' := horder hy
    rw [← hxy] at hy'
    exact htallies.eq_of_order? (horder hx) hy'
  refine ⟨hserves, hordered, honce, hempty, fun _ => hserves.chain_of_ne, fun slot hslot => ?_,
    fun _ => hserves.found, fun _ => hserves.success_iff, fun _ => hserves.header_eq hbuffers,
    fun j hj => ?_, hserves.statistics_eq, hserves.frame, hserves.counts,
    fun _ => hserves.drivers, fun _ hx => htallies.bounded (horder hx)⟩
  · exact hserves.request?_of_notMem (hordered ▸ hslot)
  · refine hserves.of_unnamed fun hmem => ?_
    obtain ⟨x, hx, rfl⟩ := List.mem_map.mp hmem
    exact hj x hx rfl

/-- In every session, a disk that is started serves the chain of its own major number to the end,
without giving way. -/
theorem Reachable.clears (h : m.Reachable) (hd : m.world.cache.driver? k = some d)
    (hk : d.kind = .disk disk) (base : Stack g .unit) :
    (∃ w' v, Leads (fun x => ¬ x.Returned base ∧ ¬ x.GivesWay)
      ⟨m.world, .unit, .run (.start k), base⟩ ⟨w', .unit, .give v, base⟩) ∧
    ∀ {w' v}, Leads (¬ Returned base ·) ⟨m.world, .unit, .run (.start k), base⟩
      ⟨w', .unit, .give v, base⟩ →
        ∃ log disk', Cache.Clears k d.major log m.world.cache disk w'.cache disk' := by
  obtain ⟨major, kind⟩ := d
  cases hk
  have hstart : m.world.start k = m.world.goto (.serve k) := by
    rw [World.start, hd]
  have hcompletes : (Call.start k).Completes True (fun w' _ => ∃ log disk',
      Cache.ServesAll k major log m.world.cache disk w'.cache disk' ∧
        w'.cache.requests.chain major = []) m.world := by
    have henters : (Call.start k).enters m.world = false := by
      simp only [Call.enters, hd]
    refine Call.completes_of_begin henters ?_
    change (m.world.start k).Completes _ _ _
    rw [hstart]
    exact Outcome.completes_goto (Call.completes_serve_chain h.arranged hd)
  obtain ⟨w', v, hspan, -⟩ := (hcompletes.machine base).exists_leads
  refine ⟨⟨w', v, hspan⟩, fun hspan => ?_⟩
  obtain ⟨log, disk', hserves, hempty⟩ := (hcompletes.machine base).of_returned hspan
  exact ⟨log, disk', h.clears_of_servesAll hserves hempty⟩

/-- Four requests wait for major 1, whose driver leaves them to others: reads of the first block
and of one behind the end of the disk, a read of another unit, and a write. -/
def fourWaiting : Machine Geometry.wide :=
  ((start ((World.initial Geometry.wide).fresh []) (.register 1 ⟨1, .manual []⟩ [])).after
    20).commanded 20
      [.register 2 ⟨1, .disk (.blank 1 4096)⟩ [], .acquire ⟨257, 1⟩ (some "written"),
        .fill "written" 7, .markDirty "written", .issue .write "written",
        .acquire ⟨257, 100⟩ (some "behind"), .issue .read "behind",
        .acquire ⟨258, 0⟩ (some "other"), .issue .read "other",
        .acquire ⟨257, 0⟩ (some "first"), .issue .read "first"]

theorem reachable_fourWaiting : fourWaiting.Reachable :=
  ((reachable_start [] _).after 20).commanded 20 _

/-- The disk under number 2 serves them all. -/
theorem clears_of_fourWaiting : ∃ (d : Driver) (disk : MemoryDisk),
    fourWaiting.Reachable ∧ fourWaiting.world.cache.driver? 2 = some d ∧
      d.kind = .disk disk ∧ d.major = 1 ∧
      (fourWaiting.world.cache.requests.chain 1).length = 4 ∧
      ∀ base : Stack Geometry.wide .unit, ∃ w' log disk',
        Leads (fun x => ¬ x.Returned base ∧ ¬ x.GivesWay)
          ⟨fourWaiting.world, .unit, .run (.start 2), base⟩ ⟨w', .unit, .give (), base⟩ ∧
        Cache.Clears 2 1 log fourWaiting.world.cache disk w'.cache disk' := by
  have hd : fourWaiting.world.cache.driver? 2 = some ⟨1, .disk (.blank 1 4096)⟩ := rfl
  refine ⟨_, _, reachable_fourWaiting, hd, rfl, rfl, by decide, fun base => ?_⟩
  obtain ⟨⟨w', v, hspan⟩, hends⟩ := reachable_fourWaiting.clears hd rfl base
  obtain ⟨log, disk', hclears⟩ := hends (hspan.mono fun _ hx => hx.1)
  exact ⟨w', log, disk', hspan, hclears⟩

end Machine
end BufferCache
