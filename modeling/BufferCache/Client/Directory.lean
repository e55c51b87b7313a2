/-!
# Directories

Clients keep handles under names.  A directory lists names with their values in
ascending order of the names, each name once.
-/

namespace BufferCache

/-- Values under names, in ascending order of the names. -/
structure Directory (α : Type) where
  /-- The names with their values. -/
  entries : List (String × α) := []

namespace Directory

variable {α : Type}

/-- The value under a name. -/
def find? (d : Directory α) (name : String) : Option α :=
  (d.entries.find? fun e => e.1 == name).map Prod.snd

/-- A list of entries with one more, in its place; an older one under the same
name gives way. -/
def insertEntry (name : String) (value : α) : List (String × α) → List (String × α)
  | [] => [(name, value)]
  | e :: rest =>
      if name < e.1 then (name, value) :: e :: rest
      else if name = e.1 then (name, value) :: rest
      else e :: insertEntry name value rest

/-- The directory with a value under a name. -/
def insert (d : Directory α) (name : String) (value : α) : Directory α :=
  ⟨insertEntry name value d.entries⟩

/-- The directory with a value under a name, if there is a name. -/
def insert? (d : Directory α) (name : Option String) (value : α) : Directory α :=
  match name with
  | some name => d.insert name value
  | none => d

/-- The directory without a name. -/
def erase (d : Directory α) (name : String) : Directory α :=
  ⟨d.entries.filter fun e => e.1 != name⟩

theorem find?_insertEntry_self (name : String) (value : α) (entries : List (String × α)) :
    ((insertEntry name value entries).find? fun e => e.1 == name) = some (name, value) := by
  induction entries with
  | nil => simp [insertEntry]
  | cons e rest ih =>
    unfold insertEntry
    split
    · simp
    · split
      · simp
      · rename_i h
        have he : (e.1 == name) = false := beq_eq_false_iff_ne.mpr fun he => h he.symm
        rw [List.find?_cons_of_neg (by simp [he])]
        exact ih

theorem find?_insertEntry_of_ne {name other : String} (h : name ≠ other) (value : α)
    (entries : List (String × α)) :
    ((insertEntry name value entries).find? fun e => e.1 == other) =
      entries.find? fun e => e.1 == other := by
  induction entries with
  | nil => simp [insertEntry, h]
  | cons e rest ih =>
    unfold insertEntry
    split
    · rw [List.find?_cons_of_neg (by simpa using h)]
    · split
      · rename_i he
        have hne : e.1 ≠ other := fun hc => h (he.trans hc)
        rw [List.find?_cons_of_neg (by simpa using h), List.find?_cons_of_neg (by simpa using hne)]
      · simp only [List.find?_cons, ih]

/-- What is put under a name is found there. -/
@[simp] theorem find?_insert_self (d : Directory α) (name : String) (value : α) :
    (d.insert name value).find? name = some value := by
  simp [find?, insert, find?_insertEntry_self]

/-- Putting something under a name changes nothing under others. -/
theorem find?_insert_of_ne {name other : String} (h : name ≠ other) (d : Directory α)
    (value : α) : (d.insert name value).find? other = d.find? other := by
  simp [find?, insert, find?_insertEntry_of_ne h]

/-- Nothing is found under a name that was erased. -/
@[simp] theorem find?_erase_self (d : Directory α) (name : String) :
    (d.erase name).find? name = none := by
  simp [find?, erase]

end Directory
end BufferCache
