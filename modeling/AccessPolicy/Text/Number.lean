/-!
Decimal numbers as text: reading 64-bit numbers, and writing numbers with a least width.
-/
namespace AccessPolicy.Text

inductive NumberError where
  | empty
  | invalidDigit
  | tooLarge
deriving DecidableEq, Repr

def NumberError.message : NumberError → String
  | .empty => "cannot parse integer from empty string"
  | .invalidDigit => "invalid digit found in string"
  | .tooLarge => "number too large to fit in target type"

def digit? (char : Char) : Option Nat :=
  if '0' ≤ char ∧ char ≤ '9' then some (char.toNat - '0'.toNat) else none

def isDigit (char : Char) : Bool :=
  (digit? char).isSome

/-- The number that decimal digits denote. -/
def digitsValue (digits : List Char) : Nat :=
  digits.foldl (fun value char => value * 10 + (char.toNat - '0'.toNat)) 0

/-- Digits after a value already read; the first fault from the left is the one reported. -/
def digitsAfter (value : Nat) : List Char → Except NumberError Nat
  | [] => .ok value
  | char :: rest =>
    match digit? char with
    | none => .error .invalidDigit
    | some digit =>
      if value * 10 + digit < UInt64.size then digitsAfter (value * 10 + digit) rest
      else .error .tooLarge

/-- A number below 2^64 in decimal digits, after at most one plus sign. -/
def readNumber (text : String) : Except NumberError UInt64 :=
  let digits (chars : List Char) : Except NumberError UInt64 :=
    match digitsAfter 0 chars with
    | .ok value => .ok (UInt64.ofNat value)
    | .error fault => .error fault
  match text.toList with
  | [] => .error .empty
  | ['+'] => .error .invalidDigit
  | '+' :: rest => digits rest
  | chars => digits chars

def decimal (value : Nat) : List Char :=
  Nat.toDigits 10 value

/-- The decimal digits of a number, with zeros in front up to a width. -/
def padded (width value : Nat) : List Char :=
  List.replicate (width - (decimal value).length) '0' ++ decimal value

end AccessPolicy.Text
