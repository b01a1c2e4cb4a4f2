import AccessPolicy.Json.Parser

/-!
Values that are written as the text of another value. In a free-form value, an object whose first
key is `embeddedKey` stands for what the text under that key spells. `parse?` reads a whole text,
`free?` a free-form part of a value that has been read.
-/
namespace AccessPolicy.Json

/-- The first key of an object that stands for another value. -/
def embeddedKey : String :=
  "$serde_json::private::RawValue"

def isEmbedding : List (String × Json) → Bool
  | (key, _) :: _ => key == embeddedKey
  | [] => false

/-- The text in an object that stands for another value; nothing may follow it. -/
def embeddedText? : List (String × Json) → Option String
  | [(_, .str text)] => some text
  | _ => none

mutual

/-- Puts what embedded texts spell into their places; none when one of them spells nothing. -/
def expand? (read? : String → Option Json) : Json → Option Json
  | .arr items => (expandItems? read? items).map .arr
  | .obj members =>
    if isEmbedding members then (embeddedText? members).bind read?
    else (expandMembers? read? members).map .obj
  | value => some value

def expandItems? (read? : String → Option Json) : List Json → Option (List Json)
  | [] => some []
  | item :: rest =>
    match item.expand? read?, expandItems? read? rest with
    | some value, some values => some (value :: values)
    | _, _ => none

def expandMembers? (read? : String → Option Json) :
    List (String × Json) → Option (List (String × Json))
  | [] => some []
  | (key, item) :: rest =>
    match item.expand? read?, expandMembers? read? rest with
    | some value, some values => some ((key, value) :: values)
    | _, _ => none

end

/-- The value that a text denotes, with texts embedded in it less than so many deep. -/
def parseWithin? : Nat → String → Option Json
  | 0, _ => none
  | depth + 1, text => (parseAs? .whole text).bind (expand? (parseWithin? depth))

/-- The value that a text denotes. An embedded text is shorter than the one around it, so that the
length of the text bounds how deep they go. -/
def parse? (text : String) : Option Json :=
  parseWithin? (text.length + 1) text

/-- A free-form value, canonical, with what is embedded in its place. -/
def free? (value : Json) : Option Json :=
  (value.expand? parse?).map canonical

end AccessPolicy.Json
