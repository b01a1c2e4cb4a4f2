import Mathlib.Data.List.Forall2
import AccessPolicy.Pattern

/-!
What a pattern matches, said of texts and their parts. The tables that decide it tell exactly this.
The least text a pattern matches has as many characters of its own as the pattern has literals, and no
text it matches has fewer.
-/
namespace AccessPolicy

/-- A text is cut at its first separator in one way only. -/
theorem eq_of_append_separator {separator : Char} {first second rest tail : List Char}
    (plain : separator ∉ first) (plainToo : separator ∉ second)
    (same : first ++ separator :: rest = second ++ separator :: tail) : first = second := by
  have cut := congrArg (List.splitOn separator) same
  rw [List.splitOn_append_cons_self_of_not_mem plain,
    List.splitOn_append_cons_self_of_not_mem plainToo] at cut
  exact (List.cons.inj cut).1

/-- The parts of a text that one piece takes. -/
def Piece.Takes (piece : Piece) (part : List Char) : Prop :=
  (∀ char ∈ part, piece.chars.admits char = true) ∧
    match piece.count with
    | .one => part.length = 1
    | .any => True
    | .some => part ≠ []

namespace Pattern

/-- The text can be cut into parts that the pieces take, in order. -/
def Matches : Pattern → List Char → Prop
  | [], text => text = []
  | piece :: rest, text =>
    ∃ part others, text = part ++ others ∧ piece.Takes part ∧ Matches rest others

/-- A table tells of every end of a text whether it has a property. -/
def Tells (property : List Char → Prop) : List Char → Ends → Prop
  | [], ends => start ends = true ↔ property []
  | char :: rest, ends =>
    (start ends = true ↔ property (char :: rest)) ∧ Tells property rest ends.tail

theorem Tells.start {property : List Char → Prop} {text : List Char} {ends : Ends}
    (tells : Tells property text ends) : Pattern.start ends = true ↔ property text := by
  cases text with
  | nil => exact tells
  | cons char rest => exact tells.1

theorem tells_congr {property other : List Char → Prop} (same : ∀ text, property text ↔ other text)
    {text : List Char} {ends : Ends} (tells : Tells property text ends) : Tells other text ends := by
  induction text generalizing ends with
  | nil => exact tells.trans (same [])
  | cons char rest ih => exact ⟨tells.1.trans (same (char :: rest)), ih tells.2⟩

theorem tells_one {chars : CharSet} {property : List Char → Prop} {text : List Char} {ends : Ends}
    (tells : Tells property text ends) :
    Tells (fun text => ∃ char rest, text = char :: rest ∧ chars.admits char = true ∧ property rest)
      text (one chars text ends) := by
  induction text generalizing ends with
  | nil => simp [Tells, one, start]
  | cons char rest ih =>
    refine ⟨?_, ih tells.2⟩
    rw [one, start, List.headD_cons, Bool.and_eq_true, tells.2.start]
    constructor
    · rintro ⟨admitted, later⟩
      exact ⟨char, rest, rfl, admitted, later⟩
    · rintro ⟨_, _, same, admitted, later⟩
      cases same
      exact ⟨admitted, later⟩

theorem tells_any {chars : CharSet} {property : List Char → Prop} {text : List Char} {ends : Ends}
    (tells : Tells property text ends) :
    Tells (fun text => ∃ part others, text = part ++ others ∧
      (∀ char ∈ part, chars.admits char = true) ∧ property others) text (any chars text ends) := by
  induction text generalizing ends with
  | nil =>
    rw [any, Tells, start, List.headD_cons, tells.start]
    constructor
    · intro now
      exact ⟨[], [], rfl, by simp, now⟩
    · rintro ⟨part, others, same, _, later⟩
      obtain ⟨rfl, rfl⟩ := List.append_eq_nil_iff.mp same.symm
      exact later
  | cons char rest ih =>
    have after := ih tells.2
    refine ⟨?_, after⟩
    rw [any, start, List.headD_cons, Bool.or_eq_true, Bool.and_eq_true, tells.start, after.start]
    constructor
    · rintro (now | ⟨admitted, part, others, rfl, all, later⟩)
      · exact ⟨[], char :: rest, rfl, by simp, now⟩
      · exact ⟨char :: part, others, rfl, by simpa using ⟨admitted, all⟩, later⟩
    · rintro ⟨part, others, same, all, later⟩
      cases part with
      | nil =>
        rw [List.nil_append] at same
        exact Or.inl (by rwa [same])
      | cons head part =>
        cases same
        exact Or.inr ⟨all char (by simp), part, others, rfl,
          fun other present => all other (List.mem_cons_of_mem _ present), later⟩

theorem tells_before {piece : Piece} {property : List Char → Prop} {text : List Char} {ends : Ends}
    (tells : Tells property text ends) :
    Tells (fun text => ∃ part others, text = part ++ others ∧ piece.Takes part ∧ property others)
      text (before piece text ends) := by
  obtain ⟨chars, count⟩ := piece
  cases count with
  | one =>
    refine tells_congr (fun text => ?_) (tells_one tells)
    constructor
    · rintro ⟨char, rest, rfl, admitted, later⟩
      exact ⟨[char], rest, rfl, ⟨by simpa using admitted, rfl⟩, later⟩
    · rintro ⟨part, others, rfl, ⟨all, single⟩, later⟩
      obtain ⟨char, rfl⟩ := List.length_eq_one_iff.mp single
      exact ⟨char, others, rfl, all char (by simp), later⟩
  | any =>
    refine tells_congr (fun text => ?_) (tells_any tells)
    simp [Piece.Takes]
  | some =>
    refine tells_congr (fun text => ?_) (tells_one (tells_any tells))
    constructor
    · rintro ⟨char, _, rfl, admitted, part, others, rfl, all, later⟩
      exact ⟨char :: part, others, rfl, ⟨by simpa using ⟨admitted, all⟩, by simp⟩, later⟩
    · rintro ⟨part, others, rfl, ⟨all, nonempty⟩, later⟩
      cases part with
      | nil => exact absurd rfl nonempty
      | cons char part =>
        exact ⟨char, part ++ others, rfl, all char (by simp), part, others, rfl,
          fun other present => all other (List.mem_cons_of_mem _ present), later⟩

theorem tells_atEnd (text : List Char) : Tells (fun text => text = []) text (atEnd text) := by
  induction text with
  | nil => simp [Tells, atEnd, start]
  | cons char rest ih => exact ⟨by simp [atEnd, start], ih⟩

theorem tells_ends (pattern : Pattern) (text : List Char) :
    Tells pattern.Matches text (pattern.ends text) := by
  induction pattern with
  | nil => exact tells_atEnd text
  | cons piece rest ih => exact tells_before ih

theorem accepts_iff {pattern : Pattern} {text : List Char} :
    pattern.accepts text = true ↔ pattern.Matches text :=
  (tells_ends pattern text).start

section Parts

variable {pattern other : Pattern} {text : List Char}

theorem matches_append : Matches (pattern ++ other) text ↔
    ∃ part rest, text = part ++ rest ∧ pattern.Matches part ∧ other.Matches rest := by
  induction pattern generalizing text with
  | nil => simp [Matches]
  | cons piece pattern ih =>
    simp only [List.cons_append, Matches, ih]
    constructor
    · rintro ⟨part, _, rfl, takes, others, rest, rfl, matched, later⟩
      exact ⟨part ++ others, rest, (List.append_assoc ..).symm,
        ⟨part, others, rfl, takes, matched⟩, later⟩
    · rintro ⟨_, rest, rfl, ⟨part, others, rfl, takes, matched⟩, later⟩
      exact ⟨part, others ++ rest, List.append_assoc .., takes, others, rest, rfl, matched, later⟩

theorem matches_one {chars : CharSet} : Matches (⟨chars, .one⟩ :: pattern) text ↔
    ∃ char rest, text = char :: rest ∧ chars.admits char = true ∧ pattern.Matches rest := by
  constructor
  · rintro ⟨part, rest, rfl, ⟨admitted, single⟩, later⟩
    obtain ⟨char, rfl⟩ := List.length_eq_one_iff.mp single
    exact ⟨char, rest, rfl, admitted char (List.mem_singleton_self char), later⟩
  · rintro ⟨char, rest, rfl, admitted, later⟩
    exact ⟨[char], rest, rfl, ⟨by simpa using admitted, rfl⟩, later⟩

/-- Pieces that each take one given character match the text of these characters. -/
theorem matches_literals {chars : List Char} :
    Matches (chars.map (fun char => ⟨.only char, .one⟩) ++ pattern) text ↔
      ∃ rest, text = chars ++ rest ∧ pattern.Matches rest := by
  induction chars generalizing text with
  | nil => simp
  | cons char chars ih =>
    rw [List.map_cons, List.cons_append, matches_one]
    simp only [CharSet.admits, beq_iff_eq, ih]
    constructor
    · rintro ⟨_, _, rfl, rfl, rest, rfl, later⟩
      exact ⟨rest, rfl, later⟩
    · rintro ⟨rest, rfl, later⟩
      exact ⟨char, chars ++ rest, rfl, rfl, rest, rfl, later⟩

/-- What a piece takes of a text, another takes as well. -/
def YieldsOn (text : List Char) (one other : Piece) : Prop :=
  one.count = other.count ∧
    ∀ char ∈ text, one.chars.admits char = true → other.chars.admits char = true

theorem takes_mono {one other : Piece} (yields : YieldsOn text one other) {part : List Char}
    (within : part ⊆ text) (takes : one.Takes part) : other.Takes part := by
  obtain ⟨admitted, counted⟩ := takes
  refine ⟨fun char present => yields.2 char (within present) (admitted char present), ?_⟩
  rwa [← yields.1]

theorem matches_mono {whole : List Char} (yields : List.Forall₂ (YieldsOn whole) pattern other)
    (within : text ⊆ whole) (matched : pattern.Matches text) : other.Matches text := by
  induction yields generalizing text with
  | nil => exact matched
  | cons first _ ih =>
    obtain ⟨part, rest, rfl, takes, later⟩ := matched
    exact ⟨part, rest, rfl,
      takes_mono first (List.Subset.trans (List.subset_append_left part rest) within) takes,
      ih (List.Subset.trans (List.subset_append_right part rest) within) later⟩

end Parts

section Least

/-- A character of a set; the spare one where there is a choice. -/
def sample (spare : Char) : CharSet → Char
  | .only char => char
  | _ => spare

/-- The least text of a pattern: no character where none is needed, else one. -/
def least (spare : Char) (pattern : Pattern) : List Char :=
  pattern.flatMap fun piece =>
    if piece.count = .any then [] else [sample spare piece.chars]

/-- A piece that has to take a given character. -/
def isLiteral (piece : Piece) : Bool :=
  piece.count != .any &&
    match piece.chars with
    | .only _ => true
    | _ => false

variable {pattern : Pattern} {text : List Char} {spare : Char}

theorem isLiteral_iff {piece : Piece} :
    isLiteral piece = true ↔ piece.count ≠ .any ∧ ∃ char, piece.chars = .only char := by
  obtain ⟨chars, count⟩ := piece
  cases chars <;> simp [isLiteral]

theorem admits_sample {chars : CharSet} (fits : chars ≠ .except spare) :
    chars.admits (sample spare chars) = true := by
  cases chars with
  | only char => exact beq_self_eq_true char
  | except excluded => exact bne_iff_ne.mpr fun same => fits (congrArg CharSet.except same.symm)
  | all => rfl

theorem matches_least (fits : ∀ piece ∈ pattern, piece.chars ≠ .except spare) :
    pattern.Matches (pattern.least spare) := by
  induction pattern with
  | nil => rfl
  | cons piece rest ih =>
    have admitted := admits_sample (fits piece (List.mem_cons_self ..))
    refine ⟨_, _, List.flatMap_cons .., ⟨?_, ?_⟩,
      ih fun other present => fits other (List.mem_cons_of_mem _ present)⟩
    · split <;> simp [admitted]
    · obtain ⟨chars, count⟩ := piece
      cases count <;> simp

theorem countP_least_le (spare : Char) (pattern : Pattern) :
    (pattern.least spare).countP (· != spare) ≤ pattern.countP isLiteral := by
  induction pattern with
  | nil => exact Nat.le_refl 0
  | cons piece rest ih =>
    rw [least, List.flatMap_cons, List.countP_append, List.countP_cons, Nat.add_comm]
    refine Nat.add_le_add ih ?_
    obtain ⟨chars, count⟩ := piece
    cases count <;> cases chars <;> simp [sample, isLiteral, List.countP_cons] <;> split <;> omega

/-- What a literal takes has the character that it has to take. -/
theorem countP_of_takes {piece : Piece} (takes : piece.Takes text)
    (named : piece.chars ≠ .only spare) (literal : isLiteral piece = true) :
    0 < text.countP (· != spare) := by
  obtain ⟨admitted, counted⟩ := takes
  obtain ⟨needed, char, single⟩ := isLiteral_iff.mp literal
  have nonempty : text ≠ [] := by
    rintro rfl
    cases count : piece.count <;> simp_all
  obtain ⟨first, present⟩ := List.exists_mem_of_ne_nil text nonempty
  refine List.countP_pos_iff.mpr ⟨first, present, bne_iff_ne.mpr fun same => named ?_⟩
  have admitted := admitted first present
  rw [single] at admitted ⊢
  rw [← same, beq_iff_eq.mp admitted]

theorem le_countP_of_matches (named : ∀ piece ∈ pattern, piece.chars ≠ .only spare)
    (matched : pattern.Matches text) : pattern.countP isLiteral ≤ text.countP (· != spare) := by
  induction pattern generalizing text with
  | nil => exact Nat.zero_le _
  | cons piece rest ih =>
    obtain ⟨part, others, rfl, takes, later⟩ := matched
    have after := ih (fun other present => named other (List.mem_cons_of_mem _ present)) later
    rw [List.countP_cons, List.countP_append]
    by_cases literal : isLiteral piece = true
    · have here := countP_of_takes takes (named piece (List.mem_cons_self ..)) literal
      rw [if_pos literal]
      omega
    · rw [if_neg literal]
      omega

end Least

end Pattern

end AccessPolicy
