/-!
Instants of coordinated universal time with nanoseconds. A leap second is written into the last
second of its minute as nanoseconds from 10^9 on. The calendar is finite: the instant after its
last one does not exist.
-/
namespace AccessPolicy

namespace Calendar

/-- The first second of the calendar, -262143-01-01T00:00:00Z, counted from 1970. -/
def firstSecond : Int := -8334601228800

/-- The last second of the calendar, +262142-12-31T23:59:59Z. -/
def lastSecond : Int := 8210266876799

end Calendar

def nanosPerSecond : Nat := 1000000000

structure Instant where
  second : Int
  nano : Nat
  second_in_calendar : Calendar.firstSecond ≤ second ∧ second ≤ Calendar.lastSecond
  nano_lt : nano < 2 * nanosPerSecond
  leap_ends_minute : nanosPerSecond ≤ nano → second % 60 = 59
deriving DecidableEq

namespace Instant

/-- The instant with these parts, if the calendar has it. -/
def ofParts? (second : Int) (nano : Nat) : Option Instant :=
  if parts : (Calendar.firstSecond ≤ second ∧ second ≤ Calendar.lastSecond) ∧
      nano < 2 * nanosPerSecond ∧ (nanosPerSecond ≤ nano → second % 60 = 59) then
    some ⟨second, nano, parts.1, parts.2.1, parts.2.2⟩
  else none

def isLeap (instant : Instant) : Bool :=
  nanosPerSecond ≤ instant.nano

instance : LT Instant where
  lt earlier later :=
    earlier.second < later.second ∨ earlier.second = later.second ∧ earlier.nano < later.nano

instance : LE Instant where
  le earlier later :=
    earlier.second < later.second ∨ earlier.second = later.second ∧ earlier.nano ≤ later.nano

instance : DecidableLT Instant := fun earlier later =>
  inferInstanceAs (Decidable
    (earlier.second < later.second ∨ earlier.second = later.second ∧ earlier.nano < later.nano))

instance : DecidableLE Instant := fun earlier later =>
  inferInstanceAs (Decidable
    (earlier.second < later.second ∨ earlier.second = later.second ∧ earlier.nano ≤ later.nano))

theorem lt_def (earlier later : Instant) : earlier < later ↔
    earlier.second < later.second ∨ earlier.second = later.second ∧ earlier.nano < later.nano :=
  Iff.rfl

theorem le_def (earlier later : Instant) : earlier ≤ later ↔
    earlier.second < later.second ∨ earlier.second = later.second ∧ earlier.nano ≤ later.nano :=
  Iff.rfl

theorem not_lt {earlier later : Instant} : ¬ earlier < later ↔ later ≤ earlier := by
  rw [lt_def, le_def]
  omega

def earlier (one other : Instant) : Instant :=
  if one ≤ other then one else other

/-- The earlier of two bounds, where a missing bound is no bound. -/
def earlier? : Option Instant → Option Instant → Option Instant
  | none, bound => bound
  | bound, none => bound
  | some one, some other => some (one.earlier other)

/-- One nanosecond later. A leap second lasts until its own last nanosecond; the last nanosecond
of the calendar has no next one. -/
def next? (instant : Instant) : Option Instant :=
  if instant.nano = nanosPerSecond - 1 ∨ instant.nano = 2 * nanosPerSecond - 1 then
    ofParts? (instant.second + 1) 0
  else ofParts? instant.second (instant.nano + 1)

/-- Moves an instant by nanoseconds of either sign. Inside a leap second a shift that stays within
it keeps it; a shift that leaves it counts the leap second once. -/
def shift? (instant : Instant) (nanos : Int) : Option Instant :=
  let seconds := nanos.tdiv nanosPerSecond
  let fraction := nanos.tmod nanosPerSecond
  let settle (second nano : Int) : Option Instant :=
    ofParts? (second + nano / nanosPerSecond) (nano % nanosPerSecond).toNat
  if instant.isLeap then
    if 0 < seconds ∨ (0 < fraction ∧ 2 * nanosPerSecond - fraction ≤ instant.nano) then
      settle (instant.second + seconds) (instant.nano - nanosPerSecond + fraction)
    else if seconds < 0 then
      settle (instant.second + 1 + seconds) (instant.nano - nanosPerSecond + fraction)
    else ofParts? instant.second (instant.nano + fraction).toNat
  else settle (instant.second + seconds) (instant.nano + fraction)

def secondOfDay (instant : Instant) : Int :=
  instant.second % 86400

/-- Nanoseconds from one instant to another. A leap second at the start of the span is counted when
the other time of day is later than its own, and likewise at the end. -/
def nanosSince (later earlier : Instant) : Int :=
  let leap : Int :=
    if earlier.secondOfDay < later.secondOfDay ∧ earlier.isLeap then 1
    else if later.secondOfDay < earlier.secondOfDay ∧ later.isLeap then -1
    else 0
  (later.second - earlier.second + leap) * nanosPerSecond + (later.nano - earlier.nano)

end Instant

end AccessPolicy
