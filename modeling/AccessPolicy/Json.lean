import AccessPolicy.Table

/-!
JSON values. An object keeps its members as they were written; `canonical` is the same value with
each key once, in ascending order, which is how free-form metadata is kept.
-/
namespace AccessPolicy

inductive Json where
  | null
  | bool (value : Bool)
  /-- A whole number that a signed or an unsigned 64-bit word holds. -/
  | int (value : Int)
  /-- Any other number, as it is written, with a fraction or an exponent. -/
  | real (literal : String)
  | str (text : String)
  | arr (items : List Json)
  | obj (members : List (String × Json))
deriving Inhabited, BEq

namespace Json

mutual

/-- Keeps the last member of each key and puts the keys in ascending order, at every depth. -/
def canonical : Json → Json
  | .arr items => .arr (canonicalItems items)
  | .obj members => .obj (canonicalMembers [] members)
  | value => value

def canonicalItems : List Json → List Json
  | [] => []
  | item :: rest => item.canonical :: canonicalItems rest

def canonicalMembers (table : Table String Json) : List (String × Json) → Table String Json
  | [] => table
  | (key, value) :: rest => canonicalMembers (table.put key value.canonical) rest

end

/-- The value of the last member with a key. -/
def member? (key : String) : Json → Option Json
  | .obj members => (members.reverse.find? (fun entry => entry.1 = key)).map Prod.snd
  | _ => none

def ofNat (value : Nat) : Json :=
  .int value

def ofOption {α : Type} (encode : α → Json) : Option α → Json
  | none => .null
  | some value => encode value

def ofStrings (texts : List String) : Json :=
  .arr (texts.map .str)

end Json

end AccessPolicy
