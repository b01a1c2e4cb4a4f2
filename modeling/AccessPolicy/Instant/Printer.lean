import AccessPolicy.Instant
import AccessPolicy.Instant.Date
import AccessPolicy.Text.Number

/-!
Writing an instant: the date, `T`, the time and `Z`, with the shortest of no, three, six or nine
digits of a second that is exact.
-/
namespace AccessPolicy.Instant

namespace Printer

/-- Four digits; a year outside 0 to 9999 has a sign. -/
def year (year : Int) : List Char :=
  if 0 ≤ year ∧ year ≤ 9999 then Text.padded 4 year.toNat
  else if year < 0 then '-' :: Text.padded 4 (-year).toNat
  else '+' :: Text.padded 4 year.toNat

def fraction (nano : Nat) : List Char :=
  if nano = 0 then []
  else if nano % 1000000 = 0 then '.' :: Text.padded 3 (nano / 1000000)
  else if nano % 1000 = 0 then '.' :: Text.padded 6 (nano / 1000)
  else '.' :: Text.padded 9 nano

def chars (instant : Instant) : List Char :=
  let date := Calendar.Date.ofNumber (instant.second / 86400)
  let time := instant.secondOfDay.toNat
  let (second, nano) :=
    if instant.isLeap then (time % 60 + 1, instant.nano - nanosPerSecond)
    else (time % 60, instant.nano)
  year date.year ++ '-' :: Text.padded 2 date.month ++ '-' :: Text.padded 2 date.day ++
    'T' :: Text.padded 2 (time / 3600) ++ ':' :: Text.padded 2 (time / 60 % 60) ++
    ':' :: Text.padded 2 second ++ fraction nano ++ ['Z']

end Printer

def text (instant : Instant) : String :=
  String.ofList (Printer.chars instant)

end AccessPolicy.Instant
