import AccessPolicy.Proofs.Glob

/-!
Globs written in a row. A backslash that ends a glob and has nothing to escape takes the first character
of whatever is written after it. Where there is none, two globs in a row match the values that can be
cut into a part for each, and an escaped segment between two globs matches itself alone.
-/
namespace AccessPolicy.Glob

section Backslashes

/-- How many backslashes the characters end in. -/
def backslashesAtEnd (chars : List Char) : Nat :=
  (chars.reverse.takeWhile (· == '\\')).length

/-- The last character is a backslash that has nothing to escape: of the backslashes at the end every
second one is escaped by the one before it, so they are odd in number. -/
def EndsUnpaired (glob : String) : Prop :=
  backslashesAtEnd glob.toList % 2 = 1

instance (glob : String) : Decidable (EndsUnpaired glob) :=
  inferInstanceAs (Decidable (_ = _))

theorem backslashesAtEnd_append (front chars : List Char) : backslashesAtEnd (front ++ chars) =
    if backslashesAtEnd chars = chars.length then chars.length + backslashesAtEnd front
    else backslashesAtEnd chars := by
  unfold backslashesAtEnd
  rw [List.reverse_append, List.takeWhile_append, apply_ite List.length, List.length_append,
    List.length_reverse]

/-- An even number of backslashes further left does not change whether the number at the end is odd. -/
theorem backslashesAtEnd_append_mod {front : List Char} (even : backslashesAtEnd front % 2 = 0)
    (chars : List Char) : backslashesAtEnd (front ++ chars) % 2 = backslashesAtEnd chars % 2 := by
  rw [backslashesAtEnd_append]
  split
  · omega
  · rfl

theorem backslashesAtEnd_plain {char : Char} (noBackslash : char ≠ '\\') :
    backslashesAtEnd [char] % 2 = 0 := by
  simp [backslashesAtEnd, noBackslash]

theorem backslashesAtEnd_escaped (char : Char) : backslashesAtEnd ['\\', char] % 2 = 0 := by
  by_cases same : char = '\\' <;> simp [backslashesAtEnd, same]

end Backslashes

/-- Where no backslash waits for what it escapes, the tokens are those of the two parts. -/
theorem parse_append_of_even {chars : List Char} (even : backslashesAtEnd chars % 2 = 0)
    (rest : List Char) : parse (chars ++ rest) = parse chars ++ parse rest := by
  -- Every token but a backslash on its own ends in an even number of them, so that what is after it
  -- ends in an even number too.
  induction chars using tokens_induction with
  | nil => rfl
  | star later ih =>
    rw [← List.singleton_append, backslashesAtEnd_append_mod (by decide)] at even
    rw [List.cons_append, parse, parse, ih even, List.cons_append]
  | wildcard later ih =>
    rw [← List.singleton_append, backslashesAtEnd_append_mod (by decide)] at even
    rw [List.cons_append, parse, parse, ih even, List.cons_append]
  | escaped char later ih =>
    have even := (backslashesAtEnd_append_mod (backslashesAtEnd_escaped char) later).symm.trans even
    rw [List.cons_append, List.cons_append, parse, parse, ih even, List.cons_append]
  | backslash => exact absurd even (by decide)
  | plain char later noStar noWildcard noBackslash ih =>
    rw [← List.singleton_append, backslashesAtEnd_append_mod (backslashesAtEnd_plain noBackslash)]
      at even
    rw [List.cons_append, parse_plain noStar noWildcard noBackslash,
      parse_plain noStar noWildcard noBackslash, ih even, List.cons_append]

section Values

variable {before after value : String}

/-- Two globs in a row match what can be cut into a part for each. -/
theorem accepts_append (paired : ¬ EndsUnpaired before) :
    accepts (before ++ after) value = true ↔ ∃ front back, value = front ++ back ∧
      accepts before front = true ∧ accepts after back = true := by
  have even : backslashesAtEnd before.toList % 2 = 0 := Nat.mod_two_ne_one.mp paired
  simp only [accepts, Pattern.accepts_iff]
  rw [String.toList_append, parse_append_of_even even, Pattern.matches_append]
  constructor
  · rintro ⟨front, back, same, first, later⟩
    refine ⟨String.ofList front, String.ofList back, ?_, ?_, ?_⟩
    · rw [← String.ofList_append, ← same, String.ofList_toList]
    · rwa [String.toList_ofList]
    · rwa [String.toList_ofList]
  · rintro ⟨front, back, rfl, first, later⟩
    exact ⟨front.toList, back.toList, String.toList_append, first, later⟩

/-- An escaped segment takes itself and leaves the rest to the glob after it. -/
theorem accepts_escape_append (segment : String) :
    accepts (escape segment ++ after) value = true ↔
      ∃ back, value = segment ++ back ∧ accepts after back = true := by
  have read : parse (escape segment ++ after).toList =
      segment.toList.map literal ++ parse after.toList := by
    rw [String.toList_append, escape, String.toList_ofList, parse_escape]
  rw [accepts_iff_of_literals read]
  simp only [accepts, Pattern.accepts_iff]
  constructor
  · rintro ⟨back, same, later⟩
    refine ⟨String.ofList back, ?_, ?_⟩
    · rw [← String.toList_inj, same, String.toList_append, String.toList_ofList]
    · rwa [String.toList_ofList]
  · rintro ⟨back, rfl, later⟩
    exact ⟨back.toList, String.toList_append, later⟩

end Values

/-- Between two globs, of which the first leaves no backslash unpaired, an escaped segment takes itself
alone: each of the globs matches what stands on its side of it. -/
theorem escaped_literal_anywhere (before segment after value : String)
    (paired : ¬ EndsUnpaired before) :
    accepts (before ++ escape segment ++ after) value = true ↔
      ∃ front back, value = front ++ segment ++ back ∧
        accepts before front = true ∧ accepts after back = true := by
  rw [String.append_assoc, accepts_append paired]
  simp only [accepts_escape_append]
  constructor
  · rintro ⟨front, _, rfl, first, back, rfl, later⟩
    exact ⟨front, back, (String.append_assoc ..).symm, first, later⟩
  · rintro ⟨front, back, rfl, first, later⟩
    exact ⟨front, segment ++ back, String.append_assoc .., first, back, rfl, later⟩

/-- The glob before the segment ends in a backslash, which is itself escaped. -/
theorem escaped_literal_after_backslashes :
    ¬ EndsUnpaired "a*\\\\" ∧
    accepts ("a*\\\\" ++ escape "*?\\" ++ "?") "abc\\*?\\z" = true ∧
    ¬ accepts ("a*\\\\" ++ escape "*?\\" ++ "?") "abc\\xyz" = true := by
  refine ⟨by decide, ?_, ?_⟩
  · exact (escaped_literal_anywhere "a*\\\\" "*?\\" "?" _ (by decide)).mpr
      ⟨"abc\\", "z", by decide, by decide, by decide⟩
  · intro accepted
    obtain ⟨front, back, cut, _⟩ :=
      (escaped_literal_anywhere "a*\\\\" "*?\\" "?" _ (by decide)).mp accepted
    have star : '*' ∈ "abc\\xyz".toList := by
      rw [cut]
      simp
    exact absurd star (by decide)

/-- An unpaired backslash takes the first character of the segment. -/
example : EndsUnpaired "\\" ∧ accepts ("\\" ++ escape "a") "a" = true ∧ ¬ accepts "\\" "" = true := by
  decide

end AccessPolicy.Glob
