import AccessPolicy.Instant
import AccessPolicy.Instant.Date
import AccessPolicy.Text.Blank
import AccessPolicy.Text.Number

/-!
Reading an instant: a date, one separator, a time of day and a distance from universal time. Blanks
may stand before the numbers and their separators.
-/
namespace AccessPolicy.Instant

namespace Parser

open Text (isDigit digitsValue)

/-- Takes a value off the front of a text. -/
abbrev Reader (α : Type) : Type := StateT (List Char) Option α

def blanks : Reader Unit := fun text =>
  some ((), Text.trimStart text)

/-- One digit or more, and at most so many. -/
def digits (most : Nat) : Reader (List Char) := fun text =>
  match (text.take most).takeWhile isDigit with
  | [] => none
  | digits => some (digits, text.drop digits.length)

def literal (expected : Char) : Reader Unit := fun text =>
  match text with
  | char :: rest => if char = expected then some ((), rest) else none
  | [] => none

/-- A number of at most two digits within bounds. -/
def field (least most : Nat) : Reader Nat := do
  blanks
  let number := digitsValue (← digits 2)
  if least ≤ number ∧ number ≤ most then pure number else failure

/-- A year of at most four digits, or of any number of digits after a sign. -/
def year : Reader Int := do
  blanks
  match ← get with
  | '-' :: rest =>
    set rest
    let number := digitsValue (← digits rest.length)
    pure (-(number : Int))
  | '+' :: rest =>
    set rest
    let number := digitsValue (← digits rest.length)
    pure number
  | _ =>
    let number := digitsValue (← digits 4)
    pure number

def separator (mark : Char) : Reader Unit := do
  blanks
  literal mark

/-- A fraction of a second in nanoseconds; digits after the ninth are dropped. -/
def fraction : Reader Nat := fun text =>
  match text with
  | '.' :: rest =>
    match rest.takeWhile isDigit with
    | [] => none
    | digits =>
      let kept := digits.take 9
      some (digitsValue kept * Nat.pow 10 (9 - kept.length), rest.dropWhile isDigit)
  | _ => some (0, text)

def twoDigits : Reader Nat := fun text =>
  match text with
  | first :: second :: rest =>
    match Text.digit? first, Text.digit? second with
    | some tens, some ones => some (tens * 10 + ones, rest)
    | _, _ => none
  | _ => none

/-- Seconds east of universal time: `Z`, `UTC`, or a sign with hours and minutes. -/
def offset : Reader Int := do
  blanks
  match ← get with
  | 'Z' :: rest => set rest; pure 0
  | 'z' :: rest => set rest; pure 0
  | sign :: rest =>
    match rest with
    | second :: third :: after =>
      if [sign, second, third].map Char.toUpper = ['U', 'T', 'C'] then
        set after
        return 0
    | _ => pure ()
    set rest
    let hours ← twoDigits
    modify (List.dropWhile (fun char => char == ':' || Text.isBlank char))
    let minutes ← twoDigits
    let seconds : Int := hours * 3600 + minutes * 60
    if 59 < minutes ∨ 24 ≤ hours then failure
    else if sign = '+' then pure seconds
    else if sign = '-' ∨ sign = '\u2212' then pure (-seconds)
    else failure
  | [] => failure

def instant : Reader Instant := do
  let year ← year
  separator '-'
  let month ← field 1 12
  separator '-'
  let day ← field 1 31
  match ← get with
  | mark :: rest => if mark = 'T' ∨ mark = 't' ∨ mark = ' ' then set rest else failure
  | [] => failure
  let hour ← field 0 23
  separator ':'
  let minute ← field 0 59
  separator ':'
  let second ← field 0 60
  let nano ← fraction
  let east ← offset
  blanks
  let number ← ((Calendar.Date.mk year month day).number? : Option Int)
  let (second, nano) := if second = 60 then (59, nano + nanosPerSecond) else (second, nano)
  (ofParts? (number * 86400 + hour * 3600 + minute * 60 + second - east) nano : Option Instant)

end Parser

def ofText? (text : String) : Option Instant :=
  match Parser.instant text.toList with
  | some (instant, []) => some instant
  | _ => none

end AccessPolicy.Instant
