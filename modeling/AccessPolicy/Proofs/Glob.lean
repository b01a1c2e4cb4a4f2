import AccessPolicy.Glob
import AccessPolicy.Proofs.Pattern

/-!
Which values a glob matches: what is escaped matches itself alone, and a star matches anything.
-/
namespace AccessPolicy.Glob

/-- What holds of no characters and is kept by a further token in front holds of every glob. -/
theorem tokens_induction {motive : List Char → Prop} (nil : motive [])
    (star : ∀ rest, motive rest → motive ('*' :: rest))
    (wildcard : ∀ rest, motive rest → motive ('?' :: rest))
    (escaped : ∀ char rest, motive rest → motive ('\\' :: char :: rest))
    (backslash : motive ['\\'])
    (plain : ∀ char rest, char ≠ '*' → char ≠ '?' → char ≠ '\\' → motive rest →
      motive (char :: rest)) (glob : List Char) : motive glob := by
  fun_induction parse glob with
  | case1 => exact nil
  | case2 rest ih => exact star rest ih
  | case3 rest ih => exact wildcard rest ih
  | case4 => exact backslash
  | case5 char rest ih => exact escaped char rest ih
  | case6 char rest noStar noWildcard noLast noEscape ih =>
    refine plain char rest noStar noWildcard ?_ ih
    rintro rfl
    cases rest with
    | nil => exact noLast rfl rfl
    | cons next rest => exact noEscape next rest rfl rfl

/-- A character that is neither a wildcard nor a backslash stands for itself. -/
theorem parse_plain {char : Char} (noStar : char ≠ '*') (noWildcard : char ≠ '?')
    (noBackslash : char ≠ '\\') (rest : List Char) :
    parse (char :: rest) = literal char :: parse rest := by
  rw [parse] <;> simp_all

theorem parse_cons {char : Char} (plain : isSpecial char = false) (rest : List Char) :
    parse (char :: rest) = literal char :: parse rest := by
  simp only [isSpecial, Bool.or_eq_false_iff, beq_eq_false_iff_ne] at plain
  obtain ⟨⟨⟨⟨noStar, noWildcard⟩, _⟩, _⟩, noBackslash⟩ := plain
  exact parse_plain noStar noWildcard noBackslash rest

theorem parse_escape (chars rest : List Char) :
    parse (chars.flatMap escapeChar ++ rest) = chars.map literal ++ parse rest := by
  induction chars with
  | nil => rfl
  | cons char chars ih =>
    rw [List.flatMap_cons, List.append_assoc, escapeChar]
    split
    · simp [parse, ih]
    · rename_i plain
      rw [List.singleton_append, parse_cons (by simpa using plain), ih]
      rfl

theorem parse_append {chars : List Char} (plain : ∀ char ∈ chars, isSpecial char = false)
    (rest : List Char) : parse (chars ++ rest) = chars.map literal ++ parse rest := by
  induction chars with
  | nil => rfl
  | cons char chars ih =>
    rw [List.cons_append, parse_cons (plain char (by simp)),
      ih (fun other present => plain other (List.mem_cons_of_mem _ present))]
    rfl

theorem matches_literals {chars text : List Char} {pattern : Pattern} :
    Pattern.Matches (chars.map literal ++ pattern) text ↔
      ∃ rest, text = chars ++ rest ∧ pattern.Matches rest :=
  Pattern.matches_literals

/-- A glob that begins with literals matches what begins with their characters and goes on as it does. -/
theorem accepts_iff_of_literals {glob value : String} {chars : List Char} {pattern : Pattern}
    (read : parse glob.toList = chars.map literal ++ pattern) :
    accepts glob value = true ↔ ∃ rest, value.toList = chars ++ rest ∧ pattern.Matches rest := by
  rw [accepts, Pattern.accepts_iff, read, matches_literals]

theorem matches_star {text : List Char} {pattern : Pattern} :
    Pattern.Matches (star :: pattern) text ↔ ∃ part rest, text = part ++ rest ∧
      pattern.Matches rest := by
  simp [Pattern.Matches, Piece.Takes, star, CharSet.admits]

end AccessPolicy.Glob
