import BufferCache.Block
import BufferCache.Requests.Operation

/-!
# Transfers and the order of service

A `Transfer` is what a driver is told to do: the direction, the device, and a run
of sectors.  Transfers that wait for one driver are served by direction first,
reads before writes, then by device, then by sector, so that the sectors of one
device are visited in one sweep.
-/

namespace BufferCache

/-- The work that a request asks of a driver. -/
structure Transfer where
  /-- Which way the block moves. -/
  direction : Direction
  /-- The device. -/
  device : DeviceNumber
  /-- The first sector. -/
  sector : Nat
  /-- The number of sectors. -/
  sectors : Nat
  deriving DecidableEq

namespace Transfer

/-- The transfer that moves a whole block. -/
def ofBlock (direction : Direction) (b : Block) : Transfer where
  direction := direction
  device := b.device
  sector := b.sector
  sectors := sectorsPerBlock

/-- Where the transfer begins on its device, in bytes. -/
def offset (t : Transfer) : Nat :=
  t.sector * sectorSize

/-- Whether `a` is to be served strictly before `b`: by direction, then by
device, then by sector. -/
def Precedes (a b : Transfer) : Prop :=
  a.direction.rank < b.direction.rank ∨
    a.direction.rank = b.direction.rank ∧
      (a.device < b.device ∨ a.device = b.device ∧ a.sector < b.sector)

instance (a b : Transfer) : Decidable (a.Precedes b) := by
  unfold Precedes
  infer_instance

/-- No transfer is to be served before itself. -/
theorem not_precedes_self (a : Transfer) : ¬ a.Precedes a := by
  rintro (h | ⟨-, h | ⟨-, h⟩⟩)
  · exact Nat.lt_irrefl _ h
  · exact UInt16.lt_irrefl _ h
  · exact Nat.lt_irrefl _ h

/-- The order of service is transitive. -/
theorem Precedes.trans {a b c : Transfer} (hab : a.Precedes b) (hbc : b.Precedes c) :
    a.Precedes c := by
  simp only [Precedes, UInt16.lt_iff_toNat_lt, ← UInt16.toNat_inj] at *
  omega

/-- Of two transfers that neither is to be served before the other, direction,
device and sector are the same. -/
theorem eq_of_not_precedes {a b : Transfer} (hab : ¬ a.Precedes b) (hba : ¬ b.Precedes a) :
    a.direction = b.direction ∧ a.device = b.device ∧ a.sector = b.sector := by
  have hrank : a.direction.rank = b.direction.rank → a.direction = b.direction := by
    cases a.direction <;> cases b.direction <;> simp [Direction.rank]
  simp only [Precedes, UInt16.lt_iff_toNat_lt, ← UInt16.toNat_inj] at *
  refine ⟨hrank (by omega), by omega, by omega⟩

end Transfer
end BufferCache
