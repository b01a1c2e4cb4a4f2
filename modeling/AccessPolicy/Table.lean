/-!
Finite maps with ordered keys, kept as lists of entries in ascending order of their keys. The view
of a table is `get?`: putting an entry changes the value at its key alone, and so does erasing one.
-/
namespace AccessPolicy

/-- Entries in ascending order of their keys, one entry per key. -/
abbrev Table (κ υ : Type) : Type := List (κ × υ)

namespace Table

variable {κ υ : Type}

def get? [DecidableEq κ] (table : Table κ υ) (key : κ) : Option υ :=
  match table with
  | [] => none
  | (held, value) :: rest => if held = key then some value else get? rest key

def contains [DecidableEq κ] (table : Table κ υ) (key : κ) : Bool :=
  (table.get? key).isSome

/-- Puts a value at a key, in place of the value that was there. -/
def put [DecidableEq κ] [LT κ] [DecidableLT κ] (table : Table κ υ) (key : κ) (value : υ) :
    Table κ υ :=
  match table with
  | [] => [(key, value)]
  | (held, old) :: rest =>
    if held = key then (key, value) :: rest
    else if key < held then (key, value) :: (held, old) :: rest
    else (held, old) :: put rest key value

def erase [DecidableEq κ] (table : Table κ υ) (key : κ) : Table κ υ :=
  table.filter (fun entry => entry.1 ≠ key)

def keys (table : Table κ υ) : List κ :=
  table.map Prod.fst

def values (table : Table κ υ) : List υ :=
  table.map Prod.snd

@[simp] theorem get?_put_self [DecidableEq κ] [LT κ] [DecidableLT κ] (table : Table κ υ) (key : κ)
    (value : υ) : (table.put key value).get? key = some value := by
  induction table with
  | nil => simp [put, get?]
  | cons entry rest ih =>
    obtain ⟨held, old⟩ := entry
    by_cases same : held = key
    · simp [put, get?, same]
    · by_cases before : key < held
      · simp [put, get?, same, before]
      · simpa [put, get?, same, before] using ih

theorem get?_put_of_ne [DecidableEq κ] [LT κ] [DecidableLT κ] (table : Table κ υ) (value : υ)
    {key other : κ} (distinct : other ≠ key) :
    (table.put key value).get? other = table.get? other := by
  induction table with
  | nil => simp [put, get?, Ne.symm distinct]
  | cons entry rest ih =>
    obtain ⟨held, old⟩ := entry
    by_cases same : held = key
    · simp [put, get?, same, Ne.symm distinct]
    · by_cases before : key < held
      · simp [put, get?, same, before, Ne.symm distinct]
      · by_cases found : held = other
        · subst found
          simp [put, get?, same, before]
        · simpa [put, get?, same, before, found] using ih

@[simp] theorem get?_erase_self [DecidableEq κ] (table : Table κ υ) (key : κ) :
    (table.erase key).get? key = none := by
  induction table with
  | nil => rfl
  | cons entry rest ih =>
    obtain ⟨held, old⟩ := entry
    by_cases same : held = key
    · simpa [erase, same] using ih
    · simpa [erase, get?, same] using ih

theorem get?_erase_of_ne [DecidableEq κ] (table : Table κ υ) {key other : κ}
    (distinct : other ≠ key) : (table.erase key).get? other = table.get? other := by
  induction table with
  | nil => rfl
  | cons entry rest ih =>
    obtain ⟨held, old⟩ := entry
    by_cases same : held = key
    · subst same
      simpa [erase, get?, Ne.symm distinct] using ih
    · by_cases found : held = other
      · simp [erase, get?, found, distinct]
      · simpa [erase, get?, same, found] using ih

end Table

end AccessPolicy
