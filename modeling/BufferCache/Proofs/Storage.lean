import BufferCache.Proofs.StepEffects

/-!
# What is stored on the disks

Where every driver is a disk in memory that is registered under its own major, the
drivers taken together are an array of blocks: `Cache.Serves` says which blocks there
are, and `Cache.stored` what is in them.

A disk refuses what is not a block of its own, and then nothing changes.  Otherwise a
read delivers what is stored, and a write stores the page in that block and in no
other, since the blocks of a disk do not overlap.  `carryOut_refused`,
`carryOut_read` and `carryOut_write` are these three cases.
-/

namespace BufferCache

/-- Where a block begins on its device, in bytes. -/
def Block.offset (b : Block) : Nat :=
  b.number.toNat * blockSize

theorem Transfer.offset_ofBlock (d : Direction) (b : Block) :
    (Transfer.ofBlock d b).offset = b.offset := by
  show b.number.toNat * sectorsPerBlock * sectorSize = b.number.toNat * blockSize
  rw [Nat.mul_assoc]
  rfl

/-- A device is determined by its major and its minor number. -/
theorem DeviceNumber.eq_of_parts {d d' : DeviceNumber} (hmajor : d.major = d'.major)
    (hminor : d.minor = d'.minor) : d = d' := by
  apply UInt16.toNat_inj.mp
  rw [DeviceNumber.toNat_eq d, DeviceNumber.toNat_eq d', hmajor, hminor]

/-! ## Disks -/

namespace MemoryDisk

variable {d : MemoryDisk} {p : Page} {offset offset' : Nat}

/-- A write changes no block that it does not overlap. -/
theorem readPage_writePage_of_disjoint
    (h : offset + blockSize ≤ offset' ∨ offset' + blockSize ≤ offset) :
    { d with storage := d.writePage offset p }.readPage offset' = d.readPage offset' := by
  ext i hi
  have hnot : ¬ (offset ≤ offset' + i ∧ offset' + i - offset < blockSize) := by omega
  have hbyte (byte : UInt8) :
      (if offset ≤ offset' + i then (p[offset' + i - offset]?).getD byte else byte) = byte := by
    by_cases hle : offset ≤ offset' + i
    · rw [if_pos hle, Vector.getElem?_eq_none (Nat.not_lt.mp fun hlt => hnot ⟨hle, hlt⟩)]
      rfl
    · rw [if_neg hle]
  simp only [readPage, Vector.getElem_ofFn, getElem?_writePage, hbyte]
  cases d.storage[offset' + i]? <;> rfl

/-- The offsets of different blocks of a device are far enough apart. -/
theorem offset_disjoint {b b' : Block} (hdevice : b.device = b'.device) (hne : b ≠ b') :
    b.offset + blockSize ≤ b'.offset ∨ b'.offset + blockSize ≤ b.offset := by
  have hnumber : b.number.toNat ≠ b'.number.toNat := by
    intro h
    cases b
    cases b'
    cases hdevice
    cases UInt32.toNat_inj.mp h
    exact hne rfl
  simp only [Block.offset, blockSize]
  omega

end MemoryDisk

/-! ## Blocks on disks -/

variable {g : Geometry}

namespace Cache

variable {c : Cache g} {m : Nat} {b b' : Block}

/-- The disk that is registered under major `m`. -/
def disk? (c : Cache g) (m : Nat) : Option MemoryDisk :=
  (c.driver? m).bind Driver.disk?

/-- Every driver is a disk in memory, registered under its own major, which is not
zero. -/
def Disks (c : Cache g) : Prop :=
  ∀ m d, c.driver? m = some d → m ≠ 0 ∧ d.major = m ∧ ∃ disk, d.kind = .disk disk

/-- A block is served if the disk of its major is the unit that the block is on, and is
long enough. -/
def Serves (c : Cache g) (b : Block) : Prop :=
  ∃ disk, c.disk? b.device.major = some disk ∧ b.device.minor = disk.minor ∧
    (b.number.toNat + 1) * blockSize ≤ disk.size

/-- What is stored in a block. -/
def stored (c : Cache g) (b : Block) : Page :=
  ((c.disk? b.device.major).map fun disk => disk.readPage b.offset).getD Page.zero

theorem driver?_congr {c' : Cache g} (h : c'.drivers = c.drivers) (m : Nat) :
    c'.driver? m = c.driver? m := by
  rw [driver?, driver?, h]

theorem disk?_congr {c' : Cache g} (h : c'.drivers = c.drivers) (m : Nat) :
    c'.disk? m = c.disk? m := by
  rw [disk?, disk?, driver?_congr h]

theorem stored_congr {c' : Cache g} (h : c'.drivers = c.drivers) (b : Block) :
    c'.stored b = c.stored b := by
  rw [stored, stored, disk?_congr h]

theorem serves_congr {c' : Cache g} (h : c'.drivers = c.drivers) (b : Block) :
    c'.Serves b ↔ c.Serves b := by
  rw [Serves, Serves, disk?_congr h]

theorem Disks.congr {c' : Cache g} (hc : c.Disks) (h : c'.drivers = c.drivers) : c'.Disks := by
  intro m d hd
  rw [driver?_congr h] at hd
  exact hc m d hd

theorem driver?_setDriver (c : Cache g) (m : Nat) (d : Driver) (m' : Nat) :
    (c.setDriver m d).driver? m' =
      if m = m' ∧ m < majorCount then some d else c.driver? m' := by
  unfold setDriver driver?
  rw [Vector.getElem?_setIfInBounds]
  by_cases h : m = m'
  · subst h
    by_cases hm : m < majorCount
    · simp [hm]
    · simp [hm]
  · simp [h]

theorem lt_majorCount_of_driver? {d : Driver} (h : c.driver? m = some d) : m < majorCount := by
  refine Nat.lt_of_not_le fun hm => ?_
  rw [driver?, Vector.getElem?_eq_none hm] at h
  cases h

/-! ## Carrying out a transfer -/

variable {d : Driver} {disk : MemoryDisk} {q : Request g} {dir : Direction}

/-- The disk of the driver that carries out a transfer. -/
theorem disk?_of_driver? (hd : c.driver? m = some d) (hk : d.kind = .disk disk) :
    c.disk? m = some disk := by
  rw [disk?, hd, Option.bind_some, Driver.disk?, hk]

/-- A disk serves the transfers of the blocks that are served. -/
theorem serves_iff (hd : c.driver? b.device.major = some d) (hk : d.kind = .disk disk)
    (dir : Direction) : c.Serves b ↔ disk.serves (.ofBlock dir b) = true := by
  rw [Serves, disk?_of_driver? hd hk, MemoryDisk.serves, Transfer.offset_ofBlock]
  simp only [Option.some.injEq, Bool.and_eq_true, beq_iff_eq, decide_eq_true_eq]
  have hsize : (b.number.toNat + 1) * blockSize = b.offset + blockSize := by
    rw [Nat.add_mul, Nat.one_mul]
    rfl
  constructor
  · rintro ⟨_, rfl, hminor, hle⟩
    rw [hsize] at hle
    exact ⟨hminor, hle⟩
  · rintro ⟨hminor, hle⟩
    rw [← hsize] at hle
    exact ⟨disk, rfl, hminor, hle⟩

theorem stored_eq (hd : c.driver? b.device.major = some d) (hk : d.kind = .disk disk) :
    c.stored b = disk.readPage b.offset := by
  rw [stored, disk?_of_driver? hd hk]
  rfl

/-- A disk is registered under its own major. -/
theorem Disks.setDriver (hc : c.Disks) (hm : m ≠ 0) (hmajor : d.major = m)
    (hk : d.kind = .disk disk) : (c.setDriver m d).Disks := by
  intro m' d' hd'
  rw [driver?_setDriver] at hd'
  split at hd'
  · rename_i h
    cases hd'
    rw [← h.1]
    exact ⟨hm, hmajor, disk, hk⟩
  · exact hc m' d' hd'

/-- Replacing a disk. -/
theorem disks_setDriver {disk' : MemoryDisk} (hc : c.Disks) (hd : c.driver? m = some d) :
    (c.setDriver m { d with kind := .disk disk' }).Disks :=
  hc.setDriver (hc m d hd).1 (hc m d hd).2.1 rfl

theorem disk?_setDriver {disk' : MemoryDisk} (hd : c.driver? m = some d) (m' : Nat) :
    (c.setDriver m { d with kind := .disk disk' }).disk? m' =
      if m = m' then some disk' else c.disk? m' := by
  rw [disk?, driver?_setDriver]
  by_cases h : m = m'
  · rw [if_pos ⟨h, lt_majorCount_of_driver? hd⟩, if_pos h]
    rfl
  · rw [if_neg fun hm => h hm.1, if_neg h]
    rfl

theorem serves_setDriver {disk' : MemoryDisk} (hd : c.driver? m = some d)
    (hk : d.kind = .disk disk) (hminor : disk'.minor = disk.minor)
    (hsize : disk'.size = disk.size) (b : Block) :
    (c.setDriver m { d with kind := .disk disk' }).Serves b ↔ c.Serves b := by
  rw [Serves, Serves, disk?_setDriver hd]
  by_cases h : m = b.device.major
  · rw [if_pos h, ← h, disk?_of_driver? hd hk]
    constructor
    · rintro ⟨_, heq, hb⟩
      cases heq
      rw [hminor, hsize] at hb
      exact ⟨disk, rfl, hb⟩
    · rintro ⟨_, heq, hb⟩
      cases heq
      rw [← hminor, ← hsize] at hb
      exact ⟨disk', rfl, hb⟩
  · rw [if_neg h]

/-- What is stored after a disk was replaced. -/
theorem stored_setDriver {disk' : MemoryDisk} (hd : c.driver? m = some d) (b : Block) :
    (c.setDriver m { d with kind := .disk disk' }).stored b =
      if m = b.device.major then disk'.readPage b.offset else c.stored b := by
  rw [stored, disk?_setDriver hd]
  split
  · rfl
  · rfl

/-- Whatever a disk is told to do, it remains a disk of its unit and its size. -/
theorem exists_disk_of_serve (hk : d.kind = .disk disk) (t : Transfer) (p : Page) :
    ∃ disk', (d.serve t p).driver = { d with kind := .disk disk' } ∧
      disk'.minor = disk.minor ∧ disk'.size = disk.size := by
  cases d with
  | mk major kind =>
    cases hk
    unfold Driver.serve
    dsimp only
    unfold MemoryDisk.carryOut
    split
    · rename_i h
      split at h
      · split at h
        · cases h
          exact ⟨_, rfl, rfl, rfl⟩
        · cases h
          exact ⟨_, rfl, rfl, MemoryDisk.size_writePage ..⟩
      · cases h
    · exact ⟨disk, rfl, rfl, rfl⟩

theorem disks_carryOut (hc : c.Disks) (hd : c.driver? m = some d) (q : Request g) :
    (c.carryOut m d q).Disks := by
  obtain ⟨disk, hk⟩ := (hc m d hd).2.2
  obtain ⟨disk', hdriver, -, -⟩ := exists_disk_of_serve hk q.transfer (c.page q.buffer)
  have hset : (c.setDriver m { d with kind := .disk disk' }).Disks := disks_setDriver hc hd
  refine hset.congr ?_
  rw [carryOut, hdriver]
  rfl

/-- No transfer changes which blocks are served. -/
theorem serves_carryOut (hc : c.Disks) (hd : c.driver? m = some d) (q : Request g)
    (b : Block) : (c.carryOut m d q).Serves b ↔ c.Serves b := by
  obtain ⟨disk, hk⟩ := (hc m d hd).2.2
  obtain ⟨disk', hdriver, hminor, hsize⟩ :=
    exists_disk_of_serve hk q.transfer (c.page q.buffer)
  rw [← serves_setDriver hd hk hminor hsize b]
  refine serves_congr ?_ b
  rw [carryOut, hdriver]
  rfl

theorem page_carryOut (c : Cache g) (m : Nat) (d : Driver) (q : Request g) (j : g.Buffer) :
    (c.carryOut m d q).page j =
      if q.buffer = j then (d.serve q.transfer (c.page q.buffer)).page else c.page j :=
  page_setPage ..

/-- What is stored after a transfer that made the disk to `disk'`. -/
theorem stored_carryOut {disk' : MemoryDisk} (hd : c.driver? m = some d)
    (hdriver : (d.serve q.transfer (c.page q.buffer)).driver = { d with kind := .disk disk' })
    (b : Block) :
    (c.carryOut m d q).stored b =
      if m = b.device.major then disk'.readPage b.offset else c.stored b := by
  rw [← stored_setDriver hd b]
  refine stored_congr ?_ b
  rw [carryOut, hdriver]
  rfl

section Transfers

variable (hc : c.Disks) (hd : c.driver? b.device.major = some d)
  (hq : q.transfer = .ofBlock dir b)

include hc hd hq

/-- A transfer that is refused changes nothing. -/
theorem carryOut_refused (hb : ¬ c.Serves b) :
    (d.serve q.transfer (c.page q.buffer)).success = false ∧
      (∀ j, (c.carryOut b.device.major d q).page j = c.page j) ∧
      ∀ b', (c.carryOut b.device.major d q).stored b' = c.stored b' := by
  obtain ⟨disk, hk⟩ := (hc _ d hd).2.2
  have hrefuses : disk.carryOut q.transfer (c.page q.buffer) = none := by
    rw [MemoryDisk.carryOut_eq_none_iff, hq, ← Bool.not_eq_true, ← serves_iff hd hk dir]
    exact hb
  have hserve : d.serve q.transfer (c.page q.buffer) = ⟨false, d, c.page q.buffer⟩ := by
    unfold Driver.serve
    rw [hk]
    dsimp only
    rw [hrefuses]
  have hdriver : d = { d with kind := .disk disk } := by
    cases d
    cases hk
    rfl
  refine ⟨by rw [hserve], fun j => ?_, fun b' => ?_⟩
  · rw [page_carryOut, hserve]
    split
    · rename_i h
      rw [h]
    · rfl
  · rw [stored_carryOut hd (by rw [hserve]; exact hdriver)]
    split
    · rename_i h
      rw [h] at hd
      rw [stored_eq hd hk]
    · rfl

/-- A read delivers what is stored. -/
theorem carryOut_read (hb : c.Serves b) (hdir : dir = .read) :
    (d.serve q.transfer (c.page q.buffer)).success = true ∧
      (∀ j, (c.carryOut b.device.major d q).page j =
        if q.buffer = j then c.stored b else c.page j) ∧
      ∀ b', (c.carryOut b.device.major d q).stored b' = c.stored b' := by
  subst hdir
  obtain ⟨disk, hk⟩ := (hc _ d hd).2.2
  have hreads : disk.carryOut q.transfer (c.page q.buffer) =
      some ({ disk with reads := disk.reads + 1 }, disk.readPage b.offset) := by
    unfold MemoryDisk.carryOut
    rw [hq, if_pos ((serves_iff hd hk .read).mp hb), Transfer.offset_ofBlock]
    rfl
  have hserve : d.serve q.transfer (c.page q.buffer) =
      ⟨true, { d with kind := .disk { disk with reads := disk.reads + 1 } },
        disk.readPage b.offset⟩ := by
    unfold Driver.serve
    rw [hk]
    dsimp only
    rw [hreads]
  refine ⟨by rw [hserve], fun j => ?_, fun b' => ?_⟩
  · rw [page_carryOut, hserve, stored_eq hd hk]
  · rw [stored_carryOut hd (by rw [hserve])]
    split
    · rename_i h
      rw [h] at hd
      rw [stored_eq hd hk]
      rfl
    · rfl

/-- A write stores the page in its block, and changes no other block. -/
theorem carryOut_write (hb : c.Serves b) (hdir : dir = .write) :
    (d.serve q.transfer (c.page q.buffer)).success = true ∧
      (∀ j, (c.carryOut b.device.major d q).page j = c.page j) ∧
      ∀ b', c.Serves b' → (c.carryOut b.device.major d q).stored b' =
        if b' = b then c.page q.buffer else c.stored b' := by
  subst hdir
  obtain ⟨disk, hk⟩ := (hc _ d hd).2.2
  have hwrites : disk.carryOut q.transfer (c.page q.buffer) =
      some ({ disk with
        storage := disk.writePage b.offset (c.page q.buffer), writes := disk.writes + 1 },
        c.page q.buffer) := by
    unfold MemoryDisk.carryOut
    rw [hq, if_pos ((serves_iff hd hk .write).mp hb), Transfer.offset_ofBlock]
    rfl
  have hserve : d.serve q.transfer (c.page q.buffer) =
      ⟨true, { d with
        kind := .disk { disk with
          storage := disk.writePage b.offset (c.page q.buffer), writes := disk.writes + 1 } },
        c.page q.buffer⟩ := by
    unfold Driver.serve
    rw [hk]
    dsimp only
    rw [hwrites]
  obtain ⟨disk₀, hdisk₀, hminor, hsize⟩ := hb
  obtain rfl : disk = disk₀ := Option.some.inj ((disk?_of_driver? hd hk).symm.trans hdisk₀)
  refine ⟨by rw [hserve], fun j => ?_, fun b' hb' => ?_⟩
  · rw [page_carryOut, hserve]
    split
    · rename_i h
      rw [h]
    · rfl
  · rw [stored_carryOut hd (by rw [hserve])]
    by_cases hmajor : b.device.major = b'.device.major
    · rw [if_pos hmajor]
      by_cases heq : b' = b
      · rw [if_pos heq, heq]
        refine MemoryDisk.readPage_writePage disk b.offset (c.page q.buffer) ?_
        rwa [Nat.add_mul, Nat.one_mul] at hsize
      · rw [if_neg heq]
        obtain ⟨disk₁, hdisk₁, hminor₁, -⟩ := hb'
        rw [← hmajor, disk?_of_driver? hd hk] at hdisk₁
        obtain rfl : disk = disk₁ := Option.some.inj hdisk₁
        have hdevice : b.device = b'.device :=
          DeviceNumber.eq_of_parts hmajor (hminor.trans hminor₁.symm)
        rw [hmajor] at hd
        rw [stored_eq hd hk]
        exact MemoryDisk.readPage_writePage_of_disjoint
          (MemoryDisk.offset_disjoint hdevice (Ne.symm heq))
    · rw [if_neg hmajor, if_neg]
      rintro rfl
      exact hmajor rfl

end Transfers

end Cache
end BufferCache
