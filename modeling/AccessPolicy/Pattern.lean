/-!
Patterns made of pieces. A piece is a set of characters and how many of them it takes, and a
pattern matches the texts that can be cut into parts its pieces take, in order.
`Pattern.accepts` decides this from the last piece to the first: for each piece it tabulates which
ends of the text the pieces from there on match.
-/
namespace AccessPolicy

inductive CharSet where
  | only (char : Char)
  | except (char : Char)
  | all
deriving DecidableEq, Repr

def CharSet.admits : CharSet → Char → Bool
  | .only expected, char => char == expected
  | .except excluded, char => char != excluded
  | .all, _ => true

inductive Count where
  | one
  /-- None or more. -/
  | any
  /-- One or more. -/
  | some
deriving DecidableEq, Repr

structure Piece where
  chars : CharSet
  count : Count
deriving DecidableEq, Repr

abbrev Pattern : Type := List Piece

namespace Pattern

/-- Entry `n` of a table says whether a text without its first `n` characters matches. -/
abbrev Ends : Type := List Bool

def start (ends : Ends) : Bool :=
  ends.headD false

/-- The table of one character of a set before what `ends` tabulates. -/
def one (chars : CharSet) : List Char → Ends → Ends
  | [], _ => [false]
  | char :: rest, ends => (chars.admits char && start ends.tail) :: one chars rest ends.tail

/-- The table of any number of characters of a set before what `ends` tabulates. -/
def any (chars : CharSet) : List Char → Ends → Ends
  | [], ends => [start ends]
  | char :: rest, ends =>
    let later := any chars rest ends.tail
    (start ends || (chars.admits char && start later)) :: later

def before (piece : Piece) (text : List Char) (ends : Ends) : Ends :=
  match piece.count with
  | .one => one piece.chars text ends
  | .any => any piece.chars text ends
  | .some => one piece.chars text (any piece.chars text ends)

/-- No piece is left: only the end of the text matches. -/
def atEnd : List Char → Ends
  | [] => [true]
  | _ :: rest => false :: atEnd rest

def ends (pattern : Pattern) (text : List Char) : Ends :=
  pattern.foldr (fun piece later => before piece text later) (atEnd text)

def accepts (pattern : Pattern) (text : List Char) : Bool :=
  start (pattern.ends text)

end Pattern

end AccessPolicy
