import BufferCache.Text.Hexadecimal

/-!
# Device numbers

A block device is named by a 16-bit number whose high byte, the *major* number,
selects the driver and whose low byte, the *minor* number, selects the unit that
the driver serves.  Number zero names no device: a buffer that was never given a
block carries it.
-/

namespace BufferCache

/-- The number of a block device; zero is no device. -/
abbrev DeviceNumber := UInt16

namespace DeviceNumber

/-- The index of the driver that serves the device: the high byte. -/
def major (d : DeviceNumber) : Nat :=
  d.toNat / 256

/-- The unit of the driver: the low byte. -/
def minor (d : DeviceNumber) : UInt8 :=
  UInt8.ofNat d.toNat

/-- The device of a given major and minor number. -/
def ofParts (major minor : UInt8) : DeviceNumber :=
  UInt16.ofNat (major.toNat * 256 + minor.toNat)

/-- How messages show a device. -/
def text (d : DeviceNumber) : String :=
  Text.hexadecimal d.toNat

theorem toNat_ofParts (major minor : UInt8) :
    (ofParts major minor).toNat = major.toNat * 256 + minor.toNat := by
  have := major.toNat_lt
  have := minor.toNat_lt
  rw [ofParts, UInt16.toNat_ofNat_of_lt' (by simp only [UInt16.size]; omega)]

@[simp] theorem major_ofParts (major minor : UInt8) :
    (ofParts major minor).major = major.toNat := by
  have := minor.toNat_lt
  rw [DeviceNumber.major, toNat_ofParts]
  omega

@[simp] theorem minor_ofParts (major minor : UInt8) :
    (ofParts major minor).minor = minor := by
  have := minor.toNat_lt
  rw [DeviceNumber.minor, toNat_ofParts]
  apply UInt8.toNat_inj.mp
  rw [UInt8.toNat_ofNat']
  omega

/-- A device is its major and its minor number. -/
theorem toNat_eq (d : DeviceNumber) : d.toNat = d.major * 256 + d.minor.toNat := by
  rw [major, minor, UInt8.toNat_ofNat']
  omega

end DeviceNumber
end BufferCache
