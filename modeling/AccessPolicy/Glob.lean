import AccessPolicy.Pattern

/-!
Globs over cache keys: `*` takes any run of characters, `?` takes one, and a backslash makes the
character after it stand for itself. `Glob.escape` writes a text that matches itself alone.
-/
namespace AccessPolicy.Glob

def star : Piece := ⟨.all, .any⟩

def wildcard : Piece := ⟨.all, .one⟩

def literal (char : Char) : Piece := ⟨.only char, .one⟩

/-- A backslash at the very end stands for itself. -/
def parse : List Char → Pattern
  | [] => []
  | '*' :: rest => star :: parse rest
  | '?' :: rest => wildcard :: parse rest
  | ['\\'] => [literal '\\']
  | '\\' :: char :: rest => literal char :: parse rest
  | char :: rest => literal char :: parse rest

def accepts (glob value : String) : Bool :=
  (parse glob.toList).accepts value.toList

/-- The characters that are escaped. -/
def isSpecial (char : Char) : Bool :=
  char == '*' || char == '?' || char == '[' || char == ']' || char == '\\'

def escapeChar (char : Char) : List Char :=
  if isSpecial char then ['\\', char] else [char]

def escape (segment : String) : String :=
  String.ofList (segment.toList.flatMap escapeChar)

end AccessPolicy.Glob
