import AccessPolicy.Json.Token
import AccessPolicy.Json.Tree

/-!
Reading JSON: a machine that takes one token at a time and keeps the open arrays and objects on a
stack.
-/
namespace AccessPolicy.Json

namespace Parser

/-- An open array, or an open object with the key of the member being read. -/
inductive Frame where
  | items (done : List Tree)
  | member (done : List (Option String × Tree)) (key : Option String)

/-- What may come next. Items and members already read are kept in reverse. -/
inductive State where
  | value (stack : List Frame)
  | firstItem (stack : List Frame)
  | afterItem (done : List Tree) (stack : List Frame)
  | firstKey (stack : List Frame)
  | key (done : List (Option String × Tree)) (stack : List Frame)
  | colon (done : List (Option String × Tree)) (key : Option String) (stack : List Frame)
  | afterMember (done : List (Option String × Tree)) (stack : List Frame)
  | finished (tree : Tree)

/-- A complete tree goes into the innermost open array or object. -/
def supply (tree : Tree) : List Frame → State
  | [] => .finished tree
  | .items done :: stack => .afterItem (tree :: done) stack
  | .member done key :: stack => .afterMember ((key, tree) :: done) stack

/-- The token at the start of a value. -/
def begin? (stack : List Frame) : Token → Option State
  | .atom value => some (supply (.leaf value) stack)
  | .str text => some (supply (.leaf (text.map .str)) stack)
  | .openArray => some (.firstItem stack)
  | .openObject => some (.firstKey stack)
  | _ => none

def step? : State → Token → Option State
  | .value stack, token => begin? stack token
  | .firstItem stack, .closeArray => some (supply (.arr []) stack)
  | .firstItem stack, token => begin? (.items [] :: stack) token
  | .afterItem done stack, .comma => some (.value (.items done :: stack))
  | .afterItem done stack, .closeArray => some (supply (.arr done.reverse) stack)
  | .firstKey stack, .closeObject => some (supply (.obj []) stack)
  | .firstKey stack, .str key => some (.colon [] key stack)
  | .key done stack, .str key => some (.colon done key stack)
  | .colon done key stack, .colon => some (.value (.member done key :: stack))
  | .afterMember done stack, .comma => some (.key done stack)
  | .afterMember done stack, .closeObject => some (supply (.obj done.reverse) stack)
  | _, _ => none

def run? (state : State) : List Token → Option State
  | [] => some state
  | token :: rest =>
    match step? state token with
    | none => none
    | some next => run? next rest

def ofTokens? (tokens : List Token) : Option Tree :=
  match run? (.value []) tokens with
  | some (.finished tree) => some tree
  | _ => none

end Parser

/-- The tree that a text spells; none when the text is not JSON. -/
def Tree.ofText? (text : String) : Option Tree :=
  (Token.scan text).bind Parser.ofTokens?

/-- What is read is nested at most this deep. -/
def depthLimit : Nat := 127

/-- The value of what is asked for of a text. -/
def parseAs? (shape : Shape) (text : String) : Option Json :=
  (Tree.ofText? text).bind (Tree.read? depthLimit shape)

end AccessPolicy.Json
