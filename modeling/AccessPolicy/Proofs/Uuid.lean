import AccessPolicy.Uuid
import Mathlib.Algebra.Group.Nat.Defs

/-!
An identifier's text names that identifier.
-/
namespace AccessPolicy.Uuid

open Text (hexDigit hexDigit? hexDigit?_hexDigit)

theorem hexAfter?_append (value : Nat) (front rest : List Char) :
    hexAfter? value (front ++ rest) = (hexAfter? value front).bind fun read => hexAfter? read rest := by
  induction front generalizing value with
  | nil => rfl
  | cons char front ih =>
    rw [List.cons_append, hexAfter?, hexAfter?]
    cases hexDigit? char with
    | none => rfl
    | some digit => exact ih _

theorem hex_succ (value width : Nat) :
    hex value (width + 1) = hex (value / 16) width ++ [hexDigit (value % 16)] := by
  rw [hex, hexReversed, List.reverse_cons, hex]

theorem length_hex (value width : Nat) : (hex value width).length = width := by
  induction width generalizing value with
  | zero => rfl
  | succ width ih => rw [hex_succ, List.length_append, ih, List.length_singleton]

theorem hexAfter?_hex (before value width : Nat) :
    hexAfter? before (hex value width) = some (before * 16 ^ width + value % 16 ^ width) := by
  induction width generalizing value with
  | zero => simp [hex, hexReversed, hexAfter?, Nat.mod_one]
  | succ width ih =>
    have digit := hexDigit?_hexDigit (value % 16) (Nat.mod_lt _ (by decide))
    have whole : (before * 16 ^ width + value / 16 % 16 ^ width) * 16 + value % 16 =
        before * 16 ^ (width + 1) + value % 16 ^ (width + 1) := by
      rw [Nat.pow_succ', Nat.mod_mul, Nat.mul_left_comm]
      omega
    rw [hex_succ, hexAfter?_append, ih, Option.bind_some]
    simp only [hexAfter?, digit, whole]

/-- The hyphens of a grouped text are left out again. -/
theorem ungroup?_grouped {one two three four five : List Char} (first : one.length = 8)
    (second : two.length = 4) (third : three.length = 4) (fourth : four.length = 4)
    (last : five.length = 12) :
    ungroup? (one ++ '-' :: two ++ '-' :: three ++ '-' :: four ++ '-' :: five) =
      some (one ++ two ++ three ++ four ++ five) := by
  simp [ungroup?, List.drop_append, List.drop_of_length_le, first, second, third, fourth, last]

theorem digits?_of_length {text : List Char} (grouped : text.length = 36) :
    digits? text = ungroup? text := by
  simp [digits?, grouped]

theorem digits?_grouped {digits : List Char} (full : digits.length = 32) :
    digits? (digits.take 8 ++ '-' :: (digits.drop 8).take 4 ++ '-' :: (digits.drop 12).take 4 ++
      '-' :: (digits.drop 16).take 4 ++ '-' :: digits.drop 20) = some digits := by
  have joined : digits.take 8 ++ (digits.drop 8).take 4 ++ (digits.drop 12).take 4 ++
      (digits.drop 16).take 4 ++ digits.drop 20 = digits := by
    have split (from_here count : Nat) : (digits.drop from_here).take count ++
        digits.drop (from_here + count) = digits.drop from_here := by
      rw [← List.drop_drop, List.take_append_drop]
    rw [List.append_assoc _ _ (digits.drop 20), split 16 4, List.append_assoc _ _ (digits.drop 16),
      split 12 4, List.append_assoc _ _ (digits.drop 12), split 8 4, List.take_append_drop]
  rw [digits?_of_length (by simp [full]), ungroup?_grouped, joined]
  all_goals simp [full]

theorem ofText?_text (uuid : Uuid) : ofText? uuid.text = some uuid := by
  have full := length_hex uuid.value.toNat 32
  have small : uuid.value.toNat % 16 ^ 32 = uuid.value.toNat := Nat.mod_eq_of_lt uuid.value.isLt
  rw [ofText?, text, String.toList_ofList, digits?_grouped full, Option.bind_some, hexAfter?_hex, small]
  simp

end AccessPolicy.Uuid
