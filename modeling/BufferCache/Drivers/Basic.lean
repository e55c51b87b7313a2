import BufferCache.Drivers.MemoryDisk

/-!
# Drivers

A driver is started when the chain of its requests ceases to be empty.  What it
does then depends on its kind:

* a disk in memory serves all its requests at once;
* a *manual* driver leaves its requests to be finished later, by tasks of its
  own that may begin right when it is started;
* an *automatic* driver serves all its requests at once, with made-up contents,
  and fails on chosen sectors;
* an *idle* driver does nothing.

The table of drivers is indexed by major number.  A driver also knows a major
number of its own, whose requests it serves; it is the index under which it was
registered unless a client says otherwise.
-/

namespace BufferCache

/-- What a driver does when it is started. -/
inductive DriverKind where
  /-- It serves its requests from memory. -/
  | disk (disk : MemoryDisk)
  /-- It leaves its requests to tasks; the media of some units were changed. -/
  | manual (changed : List Nat)
  /-- It serves its requests with made-up contents, but fails on some sectors. -/
  | automatic (changed failing : List Nat)
  /-- It does nothing. -/
  | idle

/-- A driver. -/
structure Driver where
  /-- The major number whose requests the driver serves. -/
  major : Nat
  /-- What the driver does. -/
  kind : DriverKind

/-- What came of a transfer: whether it succeeded, the driver and the page. -/
structure Service where
  /-- Whether the transfer succeeded. -/
  success : Bool
  /-- The driver afterwards. -/
  driver : Driver
  /-- The page afterwards. -/
  page : Page

namespace Driver

/-- The name of a driver, the same for all of its kind. -/
def name (d : Driver) : String :=
  match d.kind with
  | .disk _ => "ramdisk"
  | .manual _ => "manual"
  | .automatic _ _ => "auto"
  | .idle => "plain"

/-- Whether the medium of a unit was changed. -/
def mediumChanged (d : Driver) (minor : UInt8) : Bool :=
  match d.kind with
  | .manual changed | .automatic changed _ => changed.contains minor.toNat
  | .disk _ | .idle => false

/-- The disk that the driver drives, if it drives one. -/
def disk? (d : Driver) : Option MemoryDisk :=
  match d.kind with
  | .disk disk => some disk
  | _ => none

/-- The page that an automatic driver makes up for a read: each sector is full of
its own number modulo 256. -/
def madeUp (sector : Nat) : Page :=
  Page.halves (UInt8.ofNat sector) (UInt8.ofNat (sector + 1))

/-- How the driver carries out a transfer of page `p`, once it has come to it. -/
def serve (d : Driver) (t : Transfer) (p : Page) : Service :=
  match d.kind with
  | .disk disk =>
      match disk.carryOut t p with
      | some (disk', p') => ⟨true, { d with kind := .disk disk' }, p'⟩
      | none => ⟨false, d, p⟩
  | .automatic _ failing =>
      if failing.contains t.sector then ⟨false, d, p⟩
      else ⟨true, d, match t.direction with | .read => madeUp t.sector | .write => p⟩
  | .manual _ | .idle => ⟨false, d, p⟩

end Driver
end BufferCache
