import AccessPolicy.Json

/-!
Reading typed values out of JSON. A record is written as an object, whose unknown members are
ignored and whose known members come at most once, or as the array of its fields in order.
-/
namespace AccessPolicy.Json

/-- What a record holds for one of its fields. -/
inductive Slot where
  | value (value : Json)
  /-- The object has no such member. -/
  | missing
  /-- The array ended before this field. -/
  | cut

/-- The slots of a record by the names of its fields. -/
structure Record where
  slots : List (String × Slot)

namespace Record

def positional : List String → List Json → List (String × Slot)
  | [], _ => []
  | name :: names, [] => (name, .cut) :: positional names []
  | name :: names, item :: items => (name, .value item) :: positional names items

/-- The slot of one field of an object; none when the field comes twice. -/
def slotOf? (members : List (String × Json)) (name : String) : Option Slot :=
  match members.filter (fun entry => entry.1 = name) with
  | [] => some .missing
  | [(_, value)] => some (.value value)
  | _ => none

def named? (members : List (String × Json)) : List String → Option (List (String × Slot))
  | [] => some []
  | name :: names =>
    match slotOf? members name, named? members names with
    | some slot, some slots => some ((name, slot) :: slots)
    | _, _ => none

/-- Opens a value as a record with these fields. -/
def ofJson? (names : List String) : Json → Option Record
  | .obj members => (named? members names).map Record.mk
  | .arr items => if items.length ≤ names.length then some ⟨positional names items⟩ else none
  | _ => none

def slot (record : Record) (name : String) : Slot :=
  match record.slots.find? (fun entry => entry.1 = name) with
  | some entry => entry.2
  | none => .missing

variable {α : Type}

def required (record : Record) (name : String) (decode : Json → Option α) : Option α :=
  match record.slot name with
  | .value value => decode value
  | _ => none

/-- A field that may be null, or left out of an object. -/
def nullable (record : Record) (name : String) (decode : Json → Option α) : Option (Option α) :=
  match record.slot name with
  | .value .null => some none
  | .value value => (decode value).map some
  | .missing => some none
  | .cut => none

/-- A field with a value of its own when it is left out. -/
def defaulted (record : Record) (name : String) (decode : Json → Option α) (default : α) :
    Option α :=
  match record.slot name with
  | .value value => decode value
  | _ => some default

end Record

def bool? : Json → Option Bool
  | .bool value => some value
  | _ => none

def string? : Json → Option String
  | .str text => some text
  | _ => none

/-- A whole number that an unsigned 64-bit word holds. -/
def word? : Json → Option UInt64
  | .int value => if 0 ≤ value ∧ value < UInt64.size then some (UInt64.ofNat value.toNat) else none
  | _ => none

def option? {α : Type} (decode : Json → Option α) : Json → Option (Option α)
  | .null => some none
  | value => (decode value).map some

def list? {α : Type} (decode : Json → Option α) : Json → Option (List α)
  | .arr items => items.mapM decode
  | _ => none

/-- The name of a case without content: a string, or an object whose only member holds null. -/
def caseName? : Json → Option String
  | .str name => some name
  | .obj [(name, .null)] => some name
  | _ => none

/-- An object read as a table; a key that comes again takes the place of the earlier one. -/
def table? {α : Type} (decode : Json → Option α) : Json → Option (Table String α)
  | .obj members =>
    members.foldlM (fun table entry => (decode entry.2).map (table.put entry.1))
      ([] : Table String α)
  | _ => none

def ofWord (value : UInt64) : Json :=
  .int value.toNat

end AccessPolicy.Json
