import AccessPolicy.Json.Number
import AccessPolicy.Text.Hex

/-!
The tokens of JSON text. `Token.scan` cuts a text into tokens one character at a time.
-/
namespace AccessPolicy.Json

open Text (hexDigit?)

inductive Token where
  | openArray
  | closeArray
  | openObject
  | closeObject
  | comma
  | colon
  /-- A text; none when half of a surrogate pair stands alone in it. -/
  | str (text : Option String)
  /-- A literal: a truth value, null or a number; none when the number is out of range. -/
  | atom (value : Option Json)

namespace Token

def isSpace (char : Char) : Bool :=
  char == ' ' || char == '\n' || char == '\t' || char == '\r'

def ofWord? (word : List Char) : Option Token :=
  if word = "null".toList then some (.atom (some .null))
  else if word = "true".toList then some (.atom (some (.bool true)))
  else if word = "false".toList then some (.atom (some (.bool false)))
  else (Number.ofWord? word).map (fun number => .atom (number.value? word))

def ofMark? : Char → Option Token
  | '[' => some .openArray
  | ']' => some .closeArray
  | '\x7b' => some .openObject
  | '\x7d' => some .closeObject
  | ',' => some .comma
  | ':' => some .colon
  | _ => none

def isHighSurrogate (code : Nat) : Bool :=
  0xD800 ≤ code && code ≤ 0xDBFF

def isLowSurrogate (code : Nat) : Bool :=
  0xDC00 ≤ code && code ≤ 0xDFFF

/-- The characters that codes stand for, two surrogates together for one. -/
def characters? : List Nat → Option (List Char)
  | [] => some []
  | [code] =>
    if isHighSurrogate code || isLowSurrogate code then none else some [Char.ofNat code]
  | code :: next :: rest =>
    if isHighSurrogate code && isLowSurrogate next then
      (characters? rest).map
        (Char.ofNat (0x10000 + (code - 0xD800) * 0x400 + (next - 0xDC00)) :: ·)
    else if isHighSurrogate code || isLowSurrogate code then none
    else (characters? (next :: rest)).map (Char.ofNat code :: ·)

/-- Where the scanner stands. What it has read of a word or a text is kept in reverse. -/
inductive Place where
  | between
  | inWord (word : List Char)
  | inString (codes : List Nat)
  | afterBackslash (codes : List Nat)
  /-- Inside a code of four hexadecimal digits, of which some are read. -/
  | inCode (codes : List Nat) (code : Nat) (digits : Nat)

/-- The character that a short escape stands for. -/
def unescape? : Char → Option Char
  | '"' => some '"'
  | '\\' => some '\\'
  | '/' => some '/'
  | 'b' => some '\x08'
  | 'f' => some '\x0c'
  | 'n' => some '\n'
  | 'r' => some '\r'
  | 't' => some '\t'
  | _ => none

/-- One character between tokens. -/
def enter? (char : Char) : Option (List Token × Place) :=
  if isSpace char then some ([], .between)
  else if char == '"' then some ([], .inString [])
  else match ofMark? char with
    | some token => some ([token], .between)
    | none => some ([], .inWord [char])

def endsWord (char : Char) : Bool :=
  isSpace char || char == '"' || (ofMark? char).isSome

/-- One character, from any place: the tokens it completes and the place after it. -/
def advance? (place : Place) (char : Char) : Option (List Token × Place) :=
  match place with
  | .between => enter? char
  | .inWord word =>
    if endsWord char then
      match ofWord? word.reverse, enter? char with
      | some token, some (tokens, next) => some (token :: tokens, next)
      | _, _ => none
    else some ([], .inWord (char :: word))
  | .inString codes =>
    if char == '"' then some ([.str ((characters? codes.reverse).map String.ofList)], .between)
    else if char == '\\' then some ([], .afterBackslash codes)
    else if char.toNat < 0x20 then none
    else some ([], .inString (char.toNat :: codes))
  | .afterBackslash codes =>
    if char == 'u' then some ([], .inCode codes 0 0)
    else (unescape? char).map (fun meant => ([], .inString (meant.toNat :: codes)))
  | .inCode codes code digits =>
    (hexDigit? char).map (fun digit =>
      let code := code * 16 + digit
      ([], if digits < 3 then .inCode codes code (digits + 1) else .inString (code :: codes)))

def scanFrom (place : Place) : List Char → Option (List Token)
  | [] =>
    match place with
    | .between => some []
    | .inWord word => (ofWord? word.reverse).map (fun token => [token])
    | _ => none
  | char :: rest =>
    match advance? place char with
    | none => none
    | some (tokens, next) => (scanFrom next rest).map (tokens ++ ·)

/-- The tokens of a text; none when the text does not split into tokens. -/
def scan (text : String) : Option (List Token) :=
  scanFrom .between text.toList

end Token

end AccessPolicy.Json
