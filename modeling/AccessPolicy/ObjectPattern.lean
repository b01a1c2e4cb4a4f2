import AccessPolicy.Pattern

/-!
The object of a permission as a pattern over paths. After a slash, `*` takes any run of characters
of one line; elsewhere it repeats the character before it. A colon takes the characters up to the
next slash in the pattern and, in the object, one character or more that are no slash. A dot takes
any character but a line end. A star at the start lets the object begin with anything.
-/
namespace AccessPolicy

inductive PatternProblem where
  | unsupported (pattern : String) (char : Char)
  | doubleStar (pattern : String)
deriving DecidableEq, Repr

def PatternProblem.message : PatternProblem → String
  | .unsupported pattern char =>
    "object pattern \"" ++ pattern ++ "\" contains unsupported character '" ++ char.toString ++ "'"
  | .doubleStar pattern => "object pattern \"" ++ pattern ++ "\" contains \"**\""

namespace ObjectPattern

/-- The characters that no object pattern may contain. -/
def reserved : List Char :=
  ['[', ']', '(', ')', '\x7b', '\x7d', '\\', '^', '$', '|', '+', '?']

def hasDoubleStar : List Char → Bool
  | '*' :: '*' :: _ => true
  | _ :: rest => hasDoubleStar rest
  | [] => false

def problem? (pattern : String) : Option PatternProblem :=
  match pattern.toList.find? (reserved.contains ·) with
  | some char => some (.unsupported pattern char)
  | none => if hasDoubleStar pattern.toList then some (.doubleStar pattern) else none

/-- The characters that one character of a pattern takes. -/
def charsOf (char : Char) : CharSet :=
  if char = '.' then .except '\n' else .only char

/-- The pieces of a pattern. `inName` skips the name of a segment up to the next slash; a star after
a piece that is repeated already repeats nothing more. -/
def pieces (inName : Bool) : List Char → Pattern
  | [] => []
  | '/' :: '*' :: rest => ⟨.only '/', .one⟩ :: ⟨.except '\n', .any⟩ :: pieces false rest
  | '/' :: rest => ⟨.only '/', .one⟩ :: pieces false rest
  | char :: '*' :: rest =>
    if inName then pieces true rest
    else if char = ':' then ⟨.except '/', .some⟩ :: pieces true rest
    else if char = '*' then pieces false rest
    else ⟨charsOf char, .any⟩ :: pieces false rest
  | char :: rest =>
    if inName then pieces true rest
    else if char = ':' then ⟨.except '/', .some⟩ :: pieces true rest
    else if char = '*' then pieces false rest
    else ⟨charsOf char, .one⟩ :: pieces false rest

def parse : List Char → Pattern
  | '*' :: rest => ⟨.all, .any⟩ :: pieces false rest
  | chars => pieces false chars

def accepts (pattern object : String) : Bool :=
  (parse pattern.toList).accepts object.toList

end ObjectPattern

end AccessPolicy
