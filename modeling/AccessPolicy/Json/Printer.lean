import AccessPolicy.Json
import AccessPolicy.Text.Hex
import AccessPolicy.Text.Number

/-!
Writing JSON without spaces.
-/
namespace AccessPolicy.Json

open Text (hexDigit)

namespace Printer

/-- Quotes, backslashes and control characters are escaped; every other character stands for
itself. -/
def escape (char : Char) : List Char :=
  if char = '"' then ['\\', '"']
  else if char = '\\' then ['\\', '\\']
  else if char = '\x08' then ['\\', 'b']
  else if char = '\x0c' then ['\\', 'f']
  else if char = '\n' then ['\\', 'n']
  else if char = '\r' then ['\\', 'r']
  else if char = '\t' then ['\\', 't']
  else if char.toNat < 0x20 then
    ['\\', 'u', '0', '0', hexDigit (char.toNat / 16), hexDigit (char.toNat % 16)]
  else [char]

def quote (text : String) : List Char :=
  '"' :: (text.toList.flatMap escape ++ ['"'])

def whole (value : Int) : List Char :=
  match value with
  | .ofNat size => Text.decimal size
  | .negSucc before => '-' :: Text.decimal (before + 1)

mutual

def chars : Json → List Char
  | .null => "null".toList
  | .bool true => "true".toList
  | .bool false => "false".toList
  | .int value => whole value
  | .real literal => literal.toList
  | .str text => quote text
  | .arr [] => ['[', ']']
  | .arr (item :: rest) => '[' :: (chars item ++ itemChars rest)
  | .obj [] => ['\x7b', '\x7d']
  | .obj ((key, value) :: rest) =>
    '\x7b' :: (quote key ++ ':' :: (chars value ++ memberChars rest))

/-- The items after the first, and the closing bracket. -/
def itemChars : List Json → List Char
  | [] => [']']
  | item :: rest => ',' :: (chars item ++ itemChars rest)

/-- The members after the first, and the closing brace. -/
def memberChars : List (String × Json) → List Char
  | [] => ['\x7d']
  | (key, value) :: rest => ',' :: (quote key ++ ':' :: (chars value ++ memberChars rest))

end

end Printer

def render (value : Json) : String :=
  String.ofList (Printer.chars value)

end AccessPolicy.Json
