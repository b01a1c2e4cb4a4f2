import AccessPolicy.Json
import AccessPolicy.Text.Number

/-!
Numbers as JSON writes them. A whole number that a 64-bit word holds is exact. Every other number is
a real, which has a value only below 2^1024: `inRange` says how that is judged.
-/
namespace AccessPolicy.Json

open Text (isDigit digitsValue)

structure Number where
  negative : Bool
  /-- The digits before the point. -/
  whole : List Char
  /-- The digits after the point, if there is one. -/
  fraction : Option (List Char)
  /-- The power of ten, if one is given. -/
  exponent : Option Int
deriving DecidableEq, Repr

namespace Number

/-- One digit or more, as far as they go. -/
def digits? (chars : List Char) : Option (List Char × List Char) :=
  match chars.takeWhile isDigit with
  | [] => none
  | digits => some (digits, chars.dropWhile isDigit)

/-- A whole part: a zero alone, or digits that do not start with a zero. -/
def wholePart? (chars : List Char) : Option (List Char × List Char) :=
  match chars with
  | '0' :: rest => some (['0'], rest)
  | _ => digits? chars

/-- A point and digits, or neither. -/
def fraction? : List Char → Option (Option (List Char) × List Char)
  | '.' :: rest => (digits? rest).map (fun (digits, rest) => (some digits, rest))
  | rest => some (none, rest)

/-- The number that digits denote, when there are digits and nothing else. -/
def size? (chars : List Char) : Option Nat :=
  match digits? chars with
  | some (digits, []) => some (digitsValue digits)
  | _ => none

def signed? : List Char → Option Int
  | '-' :: rest => (size? rest).map (fun size => -(size : Int))
  | '+' :: rest => (size? rest).map Int.ofNat
  | rest => (size? rest).map Int.ofNat

/-- An exponent up to the end, or the end. -/
def exponent? : List Char → Option (Option Int)
  | [] => some none
  | mark :: rest => if mark = 'e' ∨ mark = 'E' then (signed? rest).map some else none

def ofUnsigned? (negative : Bool) (chars : List Char) : Option Number := do
  let (whole, rest) ← wholePart? chars
  let (fraction, rest) ← fraction? rest
  let exponent ← exponent? rest
  pure ⟨negative, whole, fraction, exponent⟩

def ofWord? : List Char → Option Number
  | '-' :: rest => ofUnsigned? true rest
  | rest => ofUnsigned? false rest

/-- Lengthens a number by digits while it fits an unsigned 64-bit word, and counts the digits that
are left. -/
def lengthen (number : Nat) : List Char → Nat × Nat
  | [] => (number, 0)
  | char :: rest =>
    let longer := number * 10 + (char.toNat - '0'.toNat)
    if longer < UInt64.size then lengthen longer rest else (number, rest.length + 1)

/-- The leading digits as one word, and the power of ten that goes with them. -/
def scientific (number : Number) : Nat × Int :=
  let fraction := number.fraction.getD []
  let (size, beyond) := lengthen 0 number.whole
  let (size, dropped) := lengthen size fraction
  (size, beyond + dropped - fraction.length + number.exponent.getD 0)

/-- The nearest number of 53 significant bits; of two, the one whose last bit is zero. -/
def round53 (size : Nat) : Nat :=
  let unit := 1 <<< (size.log2 - 52)
  let count := size / unit
  let rest := size % unit
  if unit < 2 * rest ∨ (unit = 2 * rest ∧ count % 2 = 1) then (count + 1) * unit
  else count * unit

/-- A real is its leading digits times a power of ten, both and then their product rounded to 53
bits. Dividing by a power of ten leaves no range. -/
def inRange (number : Number) : Bool :=
  let (size, exponent) := number.scientific
  size == 0 || exponent ≤ 308 &&
    decide (round53 (round53 size * round53 (Nat.pow 10 exponent.toNat)) < 1 <<< 1024)

/-- A real as it is written, with a fraction if it has neither that nor an exponent. -/
def real? (number : Number) (word : List Char) : Option Json :=
  let isWhole := number.fraction.isNone && number.exponent.isNone
  if number.inRange then some (.real (String.ofList (if isWhole then word ++ ['.', '0'] else word)))
  else none

/-- The value of a written number; minus zero is a real. -/
def value? (number : Number) (word : List Char) : Option Json :=
  if number.fraction.isSome || number.exponent.isSome then number.real? word
  else
    let size := digitsValue number.whole
    if number.negative then
      if size = 0 ∨ UInt64.size / 2 < size then number.real? word else some (.int (-(size : Int)))
    else if size < UInt64.size then some (.int size)
    else number.real? word

end Number

end AccessPolicy.Json
