import AccessPolicy.Json

/-!
The tree that a JSON text spells. Some of its parts may have no value: a number out of range, or a
text with half a surrogate pair. `Tree.read?` gives the value of what a reader asks for and passes
over the rest, whatever it is and however deep it goes.
-/
namespace AccessPolicy.Json

inductive Tree where
  | leaf (value : Option Json)
  | arr (items : List Tree)
  | obj (members : List (Option String × Tree))

/-- What of a tree is asked for. -/
inductive Shape where
  | whole
  /-- The fields of a record, by name or by place. Every name of an object is read, to know it. -/
  | record (fields : List (String × Shape))

namespace Shape

/-- What is asked for of a member; none when it is passed over. -/
def member? : Shape → String → Option Shape
  | .whole, _ => some .whole
  | .record fields, name => (fields.find? (fun field => field.1 = name)).map Prod.snd

/-- What is asked for of an item. -/
def item : Shape → Nat → Shape
  | .whole, _ => .whole
  | .record fields, place => (fields[place]?.map Prod.snd).getD .whole

end Shape

namespace Tree

mutual

/-- The value of what is asked for; none when part of it has no value or is nested too deep. -/
def read? (depth : Nat) (shape : Shape) : Tree → Option Json
  | .leaf value => value
  | .arr items =>
    if depth = 0 then none else (readItems? (depth - 1) shape 0 items).map .arr
  | .obj members =>
    if depth = 0 then none else (readMembers? (depth - 1) shape members).map .obj

def readItems? (depth : Nat) (shape : Shape) (place : Nat) : List Tree → Option (List Json)
  | [] => some []
  | item :: rest =>
    match item.read? depth (shape.item place), readItems? depth shape (place + 1) rest with
    | some value, some values => some (value :: values)
    | _, _ => none

def readMembers? (depth : Nat) (shape : Shape) :
    List (Option String × Tree) → Option (List (String × Json))
  | [] => some []
  | (none, _) :: _ => none
  | (some name, item) :: rest =>
    match shape.member? name with
    | none => readMembers? depth shape rest
    | some shapeOfItem =>
      match item.read? depth shapeOfItem, readMembers? depth shape rest with
      | some value, some values => some ((name, value) :: values)
      | _, _ => none

end

end Tree

end AccessPolicy.Json
