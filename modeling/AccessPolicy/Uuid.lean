import AccessPolicy.Text.Hex

/-!
Universally unique identifiers and their texts. A text is 32 hexadecimal digits, plain or in groups
of 8, 4, 4, 4 and 12; the grouped form may stand in braces or after `urn:uuid:` in any case.
-/
namespace AccessPolicy

structure Uuid where
  value : BitVec 128
deriving DecidableEq, Repr

namespace Uuid

open Text (hexDigit hexDigit?)

/-- The number that hexadecimal digits denote, after a value already read. -/
def hexAfter? (value : Nat) : List Char → Option Nat
  | [] => some value
  | char :: rest =>
    match hexDigit? char with
    | none => none
    | some digit => hexAfter? (value * 16 + digit) rest

/-- So many lowercase digits of a number, the last digits first. -/
def hexReversed (value : Nat) : Nat → List Char
  | 0 => []
  | width + 1 => hexDigit (value % 16) :: hexReversed (value / 16) width

def hex (value width : Nat) : List Char :=
  (hexReversed value width).reverse

/-- The digits of a grouped text, without its hyphens. -/
def ungroup? (text : List Char) : Option (List Char) :=
  let hyphens := [text[8]?, text[13]?, text[18]?, text[23]?]
  if text.length = 36 ∧ hyphens.all (· == some '-') then
    some (text.take 8 ++ (text.drop 9).take 4 ++ (text.drop 14).take 4 ++ (text.drop 19).take 4 ++
      text.drop 24)
  else none

def digits? (text : List Char) : Option (List Char) :=
  if text.length = 32 then some text
  else if text.length = 38 then
    if text.head? = some '\x7b' ∧ text.getLast? = some '\x7d' then
      ungroup? ((text.drop 1).take 36)
    else none
  else if text.length = 45 then
    if (text.take 9).map Char.toLower = "urn:uuid:".toList then ungroup? (text.drop 9) else none
  else ungroup? text

def ofText? (text : String) : Option Uuid :=
  ((digits? text.toList).bind (hexAfter? 0)).map (fun value => ⟨BitVec.ofNat 128 value⟩)

def text (uuid : Uuid) : String :=
  let digits := hex uuid.value.toNat 32
  String.ofList (digits.take 8 ++ '-' :: (digits.drop 8).take 4 ++ '-' :: (digits.drop 12).take 4 ++
    '-' :: (digits.drop 16).take 4 ++ '-' :: digits.drop 20)

end Uuid

end AccessPolicy
