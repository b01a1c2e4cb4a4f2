import AccessPolicy.Instant.Codec
import AccessPolicy.Proofs.Instant.Calendar
import AccessPolicy.Proofs.Text.Number

/-!
An instant that is written reads back: every reader takes exactly what was written for it.
-/
namespace AccessPolicy.Instant

open Text (isDigit digitsValue)

namespace Parser

variable {α β : Type}

/-- The next character is neither a digit nor a blank. -/
def Parted (rest : List Char) : Prop :=
  ∃ char after, rest = char :: after ∧ isDigit char = false ∧ Text.isBlank char = false

theorem parted_cons {char : Char} (digit : isDigit char = false)
    (blank : Text.isBlank char = false) (after : List Char) : Parted (char :: after) :=
  ⟨char, after, rfl, digit, blank⟩

/-- A reader takes a value off the front of a text and leaves the rest. -/
def Takes (reader : Reader α) (text : List Char) (value : α) (rest : List Char) : Prop :=
  reader text = some (value, rest)

theorem Takes.bind {reader : Reader α} {next : α → Reader β} {text rest last : List Char}
    {value : α} {result : β} (first : Takes reader text value rest)
    (second : Takes (next value) rest result last) : Takes (reader >>= next) text result last := by
  unfold Takes at *
  change (reader text).bind (fun step => next step.1 step.2) = some (result, last)
  rw [first, Option.bind_some, second]

theorem takes_pure (value : α) (text : List Char) : Takes (pure value) text value text := rfl

theorem takes_get (text : List Char) : Takes (get : Reader (List Char)) text text text := rfl

theorem takes_set (text rest : List Char) : Takes (set rest : Reader Unit) text () rest := rfl

theorem isBlank_of_isDigit {char : Char} (digit : isDigit char) : Text.isBlank char = false := by
  rw [Text.isDigit_eq, Char.isDigit, Bool.and_eq_true, decide_eq_true_eq, decide_eq_true_eq] at digit
  have bounds : 48 ≤ char.toNat ∧ char.toNat ≤ 57 := digit
  simp only [Text.isBlank]
  grind

theorem takes_blanks {text : List Char} (plain : ∀ char ∈ text.head?, Text.isBlank char = false) :
    Takes blanks text () text := by
  cases text with
  | nil => rfl
  | cons char rest =>
    have kept := plain char (by simp)
    simp [Takes, blanks, Text.trimStart, kept]

theorem takes_literal (char : Char) (rest : List Char) :
    Takes (literal char) (char :: rest) () rest := by
  simp [Takes, literal]

theorem takes_separator {mark : Char} (plain : Text.isBlank mark = false) (rest : List Char) :
    Takes (separator mark) (mark :: rest) () rest :=
  (takes_blanks (by simpa using plain)).bind (takes_literal mark rest)

theorem Parted.ended {rest : List Char} (parted : Parted rest) :
    ∀ char ∈ rest.head?, isDigit char = false := by
  obtain ⟨char, after, rfl, digit, _⟩ := parted
  simpa using digit

theorem takes_digits {most : Nat} {number rest : List Char} (some_digit : number ≠ [])
    (all : ∀ char ∈ number, isDigit char) (short : number.length ≤ most) (parted : Parted rest) :
    Takes (digits most) (number ++ rest) number rest := by
  have ended : ∀ char ∈ (rest.take (most - number.length)).head?, isDigit char = false := by
    obtain ⟨char, after, rfl, digit, _⟩ := parted
    cases most - number.length with
    | zero => simp
    | succ more => simpa using digit
  have taken : ((number ++ rest).take most).takeWhile isDigit = number := by
    rw [List.take_append, List.take_of_length_le short, Text.takeWhile_digits all ended]
  unfold Takes digits
  rw [taken]
  cases number with
  | nil => exact absurd rfl some_digit
  | cons char others => simp

theorem padded_append (width value : Nat) (rest : List Char) : ∃ char after,
    Text.padded width value ++ rest = char :: after ∧ isDigit char = true := by
  cases padded : Text.padded width value with
  | nil => exact absurd padded (Text.padded_ne_nil width value)
  | cons char after =>
    have present : char ∈ Text.padded width value := by simp [padded]
    exact ⟨char, after ++ rest, rfl, Text.isDigit_of_mem_padded present⟩

theorem takes_blanks_padded (width value : Nat) (rest : List Char) :
    Takes blanks (Text.padded width value ++ rest) () (Text.padded width value ++ rest) := by
  obtain ⟨char, after, same, digit⟩ := padded_append width value rest
  rw [same]
  exact takes_blanks (by simpa using isBlank_of_isDigit digit)

theorem takes_padded {most width value : Nat} (short : (Text.padded width value).length ≤ most)
    {rest : List Char} (parted : Parted rest) :
    Takes (digits most) (Text.padded width value ++ rest) (Text.padded width value) rest :=
  takes_digits (Text.padded_ne_nil width value) (fun _ => Text.isDigit_of_mem_padded) short parted

theorem takes_field {least most value : Nat} (from_least : least ≤ value) (to_most : value ≤ most)
    (two : value < 100) {rest : List Char} (parted : Parted rest) :
    Takes (field least most) (Text.padded 2 value ++ rest) value rest := by
  have room : value < 10 ^ 2 := by omega
  have short := Nat.le_of_eq (Text.length_padded (by omega) room)
  refine (takes_blanks_padded 2 value rest).bind ((takes_padded short parted).bind ?_)
  rw [Text.digitsValue_padded, if_pos ⟨from_least, to_most⟩]
  exact takes_pure value rest

theorem takes_year (year : Int) {rest : List Char} (parted : Parted rest) :
    Takes Parser.year (Printer.year year ++ rest) year rest := by
  unfold Printer.year
  split
  · rename_i common
    refine (takes_blanks_padded 4 _ rest).bind ((takes_get _).bind ?_)
    obtain ⟨char, after, same, digit⟩ := padded_append 4 year.toNat rest
    have not_minus : char ≠ '-' := by
      rintro rfl
      exact absurd digit (by decide)
    have not_plus : char ≠ '+' := by
      rintro rfl
      exact absurd digit (by decide)
    have room : year.toNat < 10 ^ 4 := by omega
    have short := Nat.le_of_eq (Text.length_padded (by omega) room)
    have size : (year.toNat : Int) = year := by omega
    split
    · rename_i minus
      rw [same] at minus
      exact absurd (List.cons.inj minus).1 not_minus
    · rename_i plus
      rw [same] at plus
      exact absurd (List.cons.inj plus).1 not_plus
    · refine (takes_padded short parted).bind ?_
      dsimp only
      rw [Text.digitsValue_padded, size]
      exact takes_pure year rest
  · split
    · rename_i negative
      refine (takes_blanks (by simp; decide)).bind ((takes_get _).bind ?_)
      refine (takes_set _ _).bind ((takes_padded (by simp) parted).bind ?_)
      have size : -((-year).toNat : Int) = year := by omega
      dsimp only
      rw [Text.digitsValue_padded, size]
      exact takes_pure year rest
    · rename_i positive
      refine (takes_blanks (by simp; decide)).bind ((takes_get _).bind ?_)
      refine (takes_set _ _).bind ((takes_padded (by simp) parted).bind ?_)
      have size : (year.toNat : Int) = year := by omega
      dsimp only
      rw [Text.digitsValue_padded, size]
      exact takes_pure year rest

theorem takes_fraction_padded {width value : Nat} (wide : 0 < width) (short : width ≤ 9)
    (room : value < 10 ^ width) {rest : List Char} (parted : Parted rest) :
    Takes fraction ('.' :: (Text.padded width value ++ rest)) (value * 10 ^ (9 - width)) rest := by
  have all : ∀ char ∈ Text.padded width value, isDigit char := fun _ => Text.isDigit_of_mem_padded
  have length := Text.length_padded wide room
  have taken := Text.takeWhile_digits all parted.ended
  have dropped := Text.dropWhile_digits all parted.ended
  simp only [Takes, fraction, taken, dropped]
  split
  · rename_i empty
    exact absurd empty (Text.padded_ne_nil width value)
  · rw [List.take_of_length_le (by omega), Text.digitsValue_padded, length, Nat.pow_eq]

theorem takes_fraction {nano : Nat} (bound : nano < nanosPerSecond) (rest : List Char) :
    Takes fraction (Printer.fraction nano ++ 'Z' :: rest) nano ('Z' :: rest) := by
  have parted : Parted ('Z' :: rest) := parted_cons (by decide) (by decide) rest
  unfold nanosPerSecond at bound
  unfold Printer.fraction
  split
  · rename_i zero
    rw [zero]
    rfl
  · split
    · rename_i millis
      have room : nano / 1000000 < 10 ^ 3 := by omega
      have read := takes_fraction_padded (by omega) (by omega) room parted
      have same : nano / 1000000 * 10 ^ (9 - 3) = nano := by omega
      rwa [same] at read
    · split
      · rename_i micros
        have room : nano / 1000 < 10 ^ 6 := by omega
        have read := takes_fraction_padded (by omega) (by omega) room parted
        have same : nano / 1000 * 10 ^ (9 - 6) = nano := by omega
        rwa [same] at read
      · have room : nano < 10 ^ 9 := by omega
        have read := takes_fraction_padded (by omega) (by omega) room parted
        have same : nano * 10 ^ (9 - 9) = nano := by omega
        rwa [same] at read

theorem parted_fraction (nano : Nat) : Parted (Printer.fraction nano ++ ['Z']) := by
  unfold Printer.fraction
  split
  · exact parted_cons (by decide) (by decide) []
  · split
    · exact parted_cons (by decide) (by decide) _
    · split
      · exact parted_cons (by decide) (by decide) _
      · exact parted_cons (by decide) (by decide) _

theorem takes_offset : Takes offset ['Z'] 0 [] := rfl

theorem takes_option {value : α} {result : Option α} (known : result = some value)
    (text : List Char) : Takes (result : Reader α) text value text := by
  rw [known]
  rfl

/-- The second of a minute as it is written: a leap second is the sixtieth. -/
def writtenSecond (instant : Instant) : Nat × Nat :=
  if instant.isLeap then (instant.secondOfDay.toNat % 60 + 1, instant.nano - nanosPerSecond)
  else (instant.secondOfDay.toNat % 60, instant.nano)

theorem writtenSecond_bounds (instant : Instant) :
    (writtenSecond instant).1 ≤ 60 ∧ (writtenSecond instant).2 < nanosPerSecond := by
  have bound := instant.nano_lt
  unfold writtenSecond
  split
  · dsimp only
    omega
  · rename_i ordinary
    simp only [isLeap, decide_eq_true_eq] at ordinary
    dsimp only
    omega

theorem writtenSecond_meaning (instant : Instant) :
    (if (writtenSecond instant).1 = 60 then (59, (writtenSecond instant).2 + nanosPerSecond)
      else writtenSecond instant) = (instant.secondOfDay.toNat % 60, instant.nano) := by
  unfold writtenSecond
  split
  · rename_i leap
    simp only [isLeap, decide_eq_true_eq] at leap
    have last := instant.leap_ends_minute leap
    have second : instant.secondOfDay.toNat % 60 = 59 := by
      unfold secondOfDay
      omega
    simp only [second, if_true, Prod.mk.injEq, true_and]
    omega
  · rename_i ordinary
    have below : ¬ instant.secondOfDay.toNat % 60 = 60 := by omega
    rw [if_neg below]

theorem ofParts?_self (instant : Instant) :
    ofParts? instant.second instant.nano = some instant := by
  unfold ofParts?
  rw [dif_pos ⟨instant.second_in_calendar, instant.nano_lt, instant.leap_ends_minute⟩]

theorem ofParts?_parts (instant : Instant) :
    ofParts? (instant.second / 86400 * 86400 + (instant.secondOfDay.toNat / 3600 : Nat) * 3600 +
      (instant.secondOfDay.toNat / 60 % 60 : Nat) * 60 + (instant.secondOfDay.toNat % 60 : Nat) - 0)
      instant.nano = some instant := by
  have second : instant.second / 86400 * 86400 + (instant.secondOfDay.toNat / 3600 : Nat) * 3600 +
      (instant.secondOfDay.toNat / 60 % 60 : Nat) * 60 +
        (instant.secondOfDay.toNat % 60 : Nat) - 0 = instant.second := by
    unfold secondOfDay
    omega
  rw [second, ofParts?_self]

theorem takes_instant (instant : Instant) :
    Takes Parser.instant (Printer.chars instant) instant [] := by
  obtain ⟨first, last⟩ := Calendar.day_bounds instant
  obtain ⟨number, proper⟩ := Calendar.number?_ofNumber first last
  obtain ⟨month_pos, month_le, day_pos, day_le⟩ := proper
  obtain ⟨second_le, nano_lt⟩ := writtenSecond_bounds instant
  have meaning := writtenSecond_meaning instant
  have hours : instant.secondOfDay.toNat < 86400 := by
    unfold secondOfDay
    omega
  have written : (if instant.isLeap then
      (instant.secondOfDay.toNat % 60 + 1, instant.nano - nanosPerSecond)
      else (instant.secondOfDay.toNat % 60, instant.nano)) = writtenSecond instant := rfl
  simp only [Printer.chars, written, List.append_assoc, List.cons_append]
  generalize Calendar.Date.ofNumber (instant.second / 86400) = date at *
  refine (takes_year date.year (parted_cons (by decide) (by decide) _)).bind ?_
  refine (takes_separator (by decide) _).bind ?_
  refine (takes_field month_pos month_le (by omega) (parted_cons (by decide) (by decide) _)).bind ?_
  refine (takes_separator (by decide) _).bind ?_
  refine (takes_field day_pos day_le (by omega) (parted_cons (by decide) (by decide) _)).bind ?_
  refine (takes_get _).bind ?_
  refine (takes_set _ _).bind ?_
  refine (takes_field (Nat.zero_le _) (by omega) (by omega)
    (parted_cons (by decide) (by decide) _)).bind ?_
  refine (takes_separator (by decide) _).bind ?_
  refine (takes_field (Nat.zero_le _) (by omega) (by omega)
    (parted_cons (by decide) (by decide) _)).bind ?_
  refine (takes_separator (by decide) _).bind ?_
  refine (takes_field (Nat.zero_le _) second_le (by omega) (parted_fraction _)).bind ?_
  refine (takes_fraction nano_lt []).bind ?_
  refine takes_offset.bind ?_
  refine (takes_blanks (by simp)).bind ?_
  refine (takes_option number []).bind ?_
  simp only [meaning]
  exact takes_option (ofParts?_parts instant) []

end Parser

/-- An instant's text names that instant. -/
theorem ofText?_text (instant : Instant) : ofText? instant.text = some instant := by
  have read : Parser.instant (Printer.chars instant) = some (instant, []) :=
    Parser.takes_instant instant
  rw [ofText?, text, String.toList_ofList, read]

theorem ofJson?_toJson (instant : Instant) : ofJson? instant.toJson = some instant :=
  ofText?_text instant

end AccessPolicy.Instant
