import AccessPolicy.Text.Number
import Mathlib.Algebra.Group.Nat.Defs

/-!
Decimal digits as they are written: what they denote, how many there are, and that no number but
zero begins with a zero.
-/
namespace AccessPolicy.Text

theorem isDigit_eq (char : Char) : isDigit char = char.isDigit := by
  unfold isDigit digit? Char.isDigit
  by_cases within : '0' ≤ char ∧ char ≤ '9'
  · have bounds : char.val ≥ '0'.val ∧ char.val ≤ '9'.val := within
    simpa [within] using bounds
  · have bounds : ¬ (char.val ≥ '0'.val ∧ char.val ≤ '9'.val) := within
    simpa [within] using bounds

theorem digitsValue_eq (digits : List Char) :
    digitsValue digits = Nat.ofDigitChars 10 digits 0 := by
  simp only [digitsValue, Nat.ofDigitChars_eq_foldl, Nat.mul_comm]

@[simp] theorem digitsValue_decimal (value : Nat) : digitsValue (decimal value) = value := by
  rw [digitsValue_eq, decimal, Nat.ofDigitChars_ten_toDigits]

theorem decimal_injective {one other : Nat} (same : decimal one = decimal other) :
    one = other := by
  rw [← digitsValue_decimal one, same, digitsValue_decimal]

theorem isDigit_of_mem_decimal {value : Nat} {char : Char} (present : char ∈ decimal value) :
    isDigit char := by
  rw [isDigit_eq]
  exact Nat.isDigit_of_mem_toDigits (by omega) (by omega) present

theorem decimal_ne_nil (value : Nat) : decimal value ≠ [] :=
  Nat.toDigits_ne_nil

theorem decimal_zero : decimal 0 = ['0'] := rfl

/-- The first digit of a number that is not zero is not zero. -/
theorem decimal_ne_zero_cons {value : Nat} (positive : 0 < value) (rest : List Char) :
    decimal value ≠ '0' :: rest := by
  induction value using Nat.strongRecOn generalizing rest with
  | ind value ih =>
    by_cases small : value < 10
    · rw [decimal, Nat.toDigits_of_lt_base small]
      intro same
      have digit : ∀ n < 10, 0 < n → Nat.digitChar n ≠ '0' := by decide
      exact digit value small positive (List.cons.inj same).1
    · rw [decimal, Nat.toDigits_of_base_le (by omega) (by omega)]
      intro same
      cases front : Nat.toDigits 10 (value / 10) with
      | nil => exact decimal_ne_nil _ front
      | cons head tail =>
        rw [front, List.cons_append] at same
        have zero : head = '0' := (List.cons.inj same).1
        exact ih (value / 10) (by omega) (by omega) tail (by rw [decimal, front, zero])

theorem isDigit_of_mem_padded {width value : Nat} {char : Char}
    (present : char ∈ padded width value) : isDigit char := by
  rcases List.mem_append.mp present with zero | digit
  · rw [List.eq_of_mem_replicate zero]
    rfl
  · exact isDigit_of_mem_decimal digit

@[simp] theorem digitsValue_padded (width value : Nat) :
    digitsValue (padded width value) = value := by
  rw [digitsValue_eq, padded, Nat.ofDigitChars_append, Nat.ofDigitChars_replicate_zero,
    Nat.mul_zero, decimal, Nat.ofDigitChars_ten_toDigits]

theorem padded_ne_nil (width value : Nat) : padded width value ≠ [] := by
  simp [padded, decimal_ne_nil]

theorem length_padded {width value : Nat} (wide : 0 < width) (room : value < 10 ^ width) :
    (padded width value).length = width := by
  have short : (decimal value).length ≤ width :=
    (Nat.length_toDigits_le_iff (by omega) wide).mpr room
  simp only [padded, List.length_append, List.length_replicate]
  omega

theorem takeWhile_digits {digits rest : List Char} (all : ∀ char ∈ digits, isDigit char)
    (ended : ∀ char ∈ rest.head?, isDigit char = false) :
    (digits ++ rest).takeWhile isDigit = digits := by
  rw [List.takeWhile_append_of_pos all]
  cases rest with
  | nil => simp
  | cons char rest =>
    have stops := ended char (by simp)
    simp [stops]

theorem dropWhile_digits {digits rest : List Char} (all : ∀ char ∈ digits, isDigit char)
    (ended : ∀ char ∈ rest.head?, isDigit char = false) :
    (digits ++ rest).dropWhile isDigit = rest := by
  rw [List.dropWhile_append_of_pos all]
  cases rest with
  | nil => rfl
  | cons char rest =>
    have stops := ended char (by simp)
    simp [stops]

end AccessPolicy.Text
