import AccessPolicy.Proofs.Glob

/-!
What a glob stands for, said of its own characters, and a search from left to right that decides it. The
search keeps only the latest star to go back to. This loses nothing: whatever an earlier star could
still take, the latest one can take as well.
-/
namespace AccessPolicy.Glob

/-- The text can be cut into parts that the tokens of a glob take in order. A star takes any run, a
question mark one character, a backslash makes the character after it stand for itself, and so do a
backslash at the very end and every other character. -/
inductive Spans : List Char → List Char → Prop where
  | nil : Spans [] []
  | star (run : List Char) {glob text : List Char} (later : Spans glob text) :
    Spans ('*' :: glob) (run ++ text)
  | wildcard (char : Char) {glob text : List Char} (later : Spans glob text) :
    Spans ('?' :: glob) (char :: text)
  | escaped (char : Char) {glob text : List Char} (later : Spans glob text) :
    Spans ('\\' :: char :: glob) (char :: text)
  | backslash : Spans ['\\'] ['\\']
  | plain {char : Char} (noStar : char ≠ '*') (noWildcard : char ≠ '?') (noBackslash : char ≠ '\\')
    {glob text : List Char} (later : Spans glob text) : Spans (char :: glob) (char :: text)

section Tokens

variable {char : Char} {pattern : Pattern} {glob text : List Char}

theorem matches_wildcard : Pattern.Matches (wildcard :: pattern) text ↔
    ∃ char rest, text = char :: rest ∧ pattern.Matches rest := by
  simp [wildcard, Pattern.matches_one, CharSet.admits]

theorem matches_literal : Pattern.Matches (literal char :: pattern) text ↔
    ∃ rest, text = char :: rest ∧ pattern.Matches rest :=
  @matches_literals [char] text pattern

theorem spans_of_matches (matched : (parse glob).Matches text) : Spans glob text := by
  induction glob using tokens_induction generalizing text with
  | nil =>
    cases matched
    exact .nil
  | star rest ih =>
    obtain ⟨run, others, rfl, later⟩ := matches_star.mp matched
    exact .star run (ih later)
  | wildcard rest ih =>
    obtain ⟨char, others, rfl, later⟩ := matches_wildcard.mp matched
    exact .wildcard char (ih later)
  | escaped char rest ih =>
    rw [parse] at matched
    obtain ⟨others, rfl, later⟩ := matches_literal.mp matched
    exact .escaped char (ih later)
  | backslash =>
    obtain ⟨others, rfl, later⟩ := matches_literal.mp matched
    cases later
    exact .backslash
  | plain char rest noStar noWildcard noBackslash ih =>
    rw [parse_plain noStar noWildcard noBackslash] at matched
    obtain ⟨others, rfl, later⟩ := matches_literal.mp matched
    exact .plain noStar noWildcard noBackslash (ih later)

theorem matches_of_spans (spans : Spans glob text) : (parse glob).Matches text := by
  induction spans with
  | nil => rfl
  | star run _ ih => exact matches_star.mpr ⟨run, _, rfl, ih⟩
  | wildcard char _ ih => exact matches_wildcard.mpr ⟨char, _, rfl, ih⟩
  | escaped char _ ih =>
    rw [parse]
    exact matches_literal.mpr ⟨_, rfl, ih⟩
  | backslash => exact matches_literal.mpr ⟨[], rfl, rfl⟩
  | plain noStar noWildcard noBackslash _ ih =>
    rw [parse_plain noStar noWildcard noBackslash]
    exact matches_literal.mpr ⟨_, rfl, ih⟩

theorem accepts_iff_spans (glob value : String) :
    accepts glob value = true ↔ Spans glob.toList value.toList :=
  Pattern.accepts_iff.trans ⟨spans_of_matches, matches_of_spans⟩

end Tokens

/-- Where a search stands: the pieces and the part of the text that are still to be taken. -/
structure Search where
  pieces : Pattern
  text : List Char
  /-- The pieces after the latest star, and the part of the text that they were last tried on. -/
  retry : Option (Pattern × List Char)

namespace Search

def start (glob value : String) : Search :=
  ⟨parse glob.toList, value.toList, none⟩

/-- The latest star takes one character more. Without a star the search has failed. -/
def goBack : Option (Pattern × List Char) → Search ⊕ Bool
  | some (pieces, text) => .inl ⟨pieces, text.tail, some (pieces, text.tail)⟩
  | none => .inr false

/-- The next place of a search, or its verdict. A star first takes nothing; at the end of the text only
stars may be left. -/
def step : Search → Search ⊕ Bool
  | ⟨pieces, [], _⟩ => .inr (pieces.all (· = star))
  | ⟨[], _ :: _, retry⟩ => goBack retry
  | ⟨piece :: pieces, char :: rest, retry⟩ =>
    if piece = star then .inl ⟨pieces, char :: rest, some (pieces, char :: rest)⟩
    else if piece.chars.admits char then .inl ⟨pieces, rest, retry⟩
    else goBack retry

/-- The verdict of a search that ends within so many steps. -/
def verdict? : Nat → Search → Option Bool
  | 0, _ => none
  | steps + 1, search =>
    match search.step with
    | .inl next => verdict? steps next
    | .inr verdict => some verdict

/-- The pieces match the text, or those after the latest star match an end of the text that they were
last tried on, beyond its first character. -/
def Finds (search : Search) : Prop :=
  search.pieces.Matches search.text ∨
    ∃ pieces text, search.retry = some (pieces, text) ∧
      ∃ rest, rest <:+ text.tail ∧ Pattern.Matches pieces rest

/-- Every piece is a star or takes one character. -/
def Globbed (pattern : Pattern) : Prop :=
  ∀ piece ∈ pattern, piece = star ∨ piece.count = .one

theorem globbed_parse (glob : List Char) : Globbed (parse glob) := by
  fun_induction parse glob with
  | case1 => simp [Globbed]
  | case2 rest ih => exact List.forall_mem_cons.mpr ⟨Or.inl rfl, ih⟩
  | case3 rest ih => exact List.forall_mem_cons.mpr ⟨Or.inr rfl, ih⟩
  | case4 => simp [Globbed, literal]
  | case5 char rest ih => exact List.forall_mem_cons.mpr ⟨Or.inr rfl, ih⟩
  | case6 char rest _ _ _ _ ih => exact List.forall_mem_cons.mpr ⟨Or.inr rfl, ih⟩

theorem length_parse_le (glob : List Char) : (parse glob).length ≤ glob.length := by
  fun_induction parse glob <;> simp only [List.length_cons, List.length_nil] at * <;> omega

section Ends

variable {pattern : Pattern} {text : List Char}

/-- A property of an end of a text is one of the text itself, or of an end beyond its first character. -/
theorem exists_suffix_iff {property : List Char → Prop} :
    (∃ rest, rest <:+ text ∧ property rest) ↔
      property text ∨ ∃ rest, rest <:+ text.tail ∧ property rest := by
  cases text with
  | nil => simp [List.suffix_nil]
  | cons char rest => simp [List.suffix_cons_iff, or_and_right, exists_or]

theorem matches_star_iff :
    Pattern.Matches (star :: pattern) text ↔ ∃ rest, rest <:+ text ∧ pattern.Matches rest := by
  rw [matches_star]
  constructor
  · rintro ⟨part, rest, rfl, later⟩
    exact ⟨rest, List.suffix_append part rest, later⟩
  · rintro ⟨rest, ⟨part, rfl⟩, later⟩
    exact ⟨part, rest, rfl, later⟩

theorem matches_single {piece : Piece} (single : piece.count = .one) :
    Pattern.Matches (piece :: pattern) text ↔
      ∃ char rest, text = char :: rest ∧ piece.chars.admits char = true ∧ pattern.Matches rest := by
  obtain ⟨chars, count⟩ := piece
  cases single
  exact Pattern.matches_one

/-- Pieces of one character each take as many characters as they are. -/
theorem length_of_matches (single : ∀ piece ∈ pattern, piece.count = .one)
    (matched : pattern.Matches text) : text.length = pattern.length := by
  induction pattern generalizing text with
  | nil =>
    cases matched
    rfl
  | cons piece rest ih =>
    obtain ⟨char, others, rfl, _, later⟩ := (matches_single (single piece (by simp))).mp matched
    have after := ih (fun other present => single other (List.mem_cons_of_mem _ present)) later
    rw [List.length_cons, List.length_cons, after]

theorem ne_star_of_single {piece : Piece} (single : piece.count = .one) : piece ≠ star := by
  rintro rfl
  cases single

/-- At the end of a text only stars match. -/
theorem matches_nil_iff (globbed : Globbed pattern) :
    pattern.Matches [] ↔ pattern.all (· = star) = true := by
  induction pattern with
  | nil => simp [Pattern.Matches]
  | cons piece rest ih =>
    obtain ⟨kind, others⟩ := List.forall_mem_cons.mp globbed
    rcases kind with rfl | single
    · simp [matches_star_iff, List.suffix_nil, ih others]
    · simp [matches_single single, ne_star_of_single single]

end Ends

/-- Of the pieces after the latest star some of one character each have taken a part of the text. -/
structure Since (pattern : Pattern) (whole : List Char) (pieces : Pattern) (text : List Char) :
    Prop where
  globbed : Globbed pattern
  passed : ∃ passed taken, pattern = passed ++ pieces ∧ whole = taken ++ text ∧
    taken.length = passed.length ∧ ∀ piece ∈ passed, piece.count = .one

/-- The search is for a glob of at most so many pieces. -/
structure Sound (most : Nat) (search : Search) : Prop where
  globbed : Globbed search.pieces
  few : search.pieces.length ≤ most
  since : ∀ pattern whole, search.retry = some (pattern, whole) →
    pattern.length ≤ most ∧ Since pattern whole search.pieces search.text

/-- How much text the latest star was last tried on; without a star, how much is left. -/
def room (search : Search) : Nat :=
  match search.retry with
  | some (_, whole) => whole.length
  | none => search.text.length

/-- Bounds the steps to come: every piece is tried once at most for each end of the text. -/
def bound (most : Nat) (search : Search) : Nat :=
  search.room * (most + 1) + search.pieces.length

/-- A step goes on with a search that finds the same and is nearer to its end, or gives the verdict. -/
def Leads (most : Nat) (search : Search) : Search ⊕ Bool → Prop
  | .inl next => next.Sound most ∧ next.bound most < search.bound most ∧ (next.Finds ↔ search.Finds)
  | .inr verdict => verdict = true ↔ search.Finds

section Step

variable {most : Nat} {search : Search} {pattern pieces : Pattern} {whole text : List Char}

theorem Sound.length_text_le (sound : search.Sound most) : search.text.length ≤ search.room := by
  unfold room
  split
  · rename_i pattern whole retry
    obtain ⟨_, taken, _, same, _, _⟩ := (sound.since pattern whole retry).2.passed
    rw [same, List.length_append]
    omega
  · exact Nat.le_refl _

/-- A search that starts again after the latest star finds what that star can still find. -/
theorem finds_again : (⟨pattern, text, some (pattern, text)⟩ : Search).Finds ↔
    ∃ rest, rest <:+ text ∧ pattern.Matches rest := by
  rw [exists_suffix_iff, Finds]
  simp

theorem sound_again (globbed : Globbed pattern) (few : pattern.length ≤ most) (text : List Char) :
    (⟨pattern, text, some (pattern, text)⟩ : Search).Sound most where
  globbed := globbed
  few := few
  since := by
    rintro _ _ ⟨rfl⟩
    exact ⟨few, globbed, [], [], rfl, rfl, rfl, by simp⟩

/-- Where the pieces do not match the text, only the latest star can still find something. -/
theorem leads_goBack (sound : search.Sound most) (unmatched : ¬ search.pieces.Matches search.text)
    (nonempty : 0 < search.text.length) : search.Leads most (goBack search.retry) := by
  cases retry : search.retry with
  | none => simp [goBack, Leads, Finds, unmatched, retry]
  | some latest =>
    obtain ⟨pattern, whole⟩ := latest
    obtain ⟨few, since⟩ := sound.since pattern whole retry
    refine ⟨sound_again since.globbed few _, ?_, ?_⟩
    · have fits := sound.length_text_le
      simp only [bound, room, retry, List.length_tail] at fits ⊢
      obtain ⟨rest, same⟩ := Nat.exists_eq_add_of_lt (Nat.lt_of_lt_of_le nonempty fits)
      simp only [same, Nat.zero_add, Nat.add_sub_cancel, Nat.succ_mul]
      omega
    · exact finds_again.trans (by simp [Finds, unmatched, retry])

/-- What an earlier star can still take, the next star can take as well. -/
theorem matches_star_of_since {rest : List Char} (since : Since pattern whole (star :: pieces) text)
    (suffix : rest <:+ whole.tail) (matched : pattern.Matches rest) :
    Pattern.Matches (star :: pieces) text := by
  obtain ⟨passed, taken, rfl, rfl, same, single⟩ := since.passed
  obtain ⟨part, others, rfl, before, later⟩ := Pattern.matches_append.mp matched
  obtain ⟨last, inside, found⟩ := matches_star_iff.mp later
  have length := length_of_matches single before
  have suffix := suffix.trans (List.tail_suffix _)
  have within : others <:+ taken ++ text := (List.suffix_append part others).trans suffix
  have short : others.length ≤ text.length := by
    have most := suffix.length_le
    simp only [List.length_append] at most
    omega
  have after := List.suffix_of_suffix_length_le within (List.suffix_append taken text) short
  exact matches_star_iff.mpr ⟨last, inside.trans after, found⟩

theorem Since.take {piece : Piece} {char : Char}
    (since : Since pattern whole (piece :: pieces) (char :: text)) (single : piece.count = .one) :
    Since pattern whole pieces text := by
  obtain ⟨globbed, passed, taken, rfl, rfl, same, others⟩ := since
  refine ⟨globbed, passed ++ [piece], taken ++ [char], by simp, by simp, by simp [same], ?_⟩
  simpa [or_imp, forall_and, single] using others

/-- Too little text is left for the latest star to take a character more. -/
theorem matches_nil_of_since {rest : List Char} (since : Since pattern whole pieces [])
    (suffix : rest <:+ whole.tail) (matched : pattern.Matches rest) : pieces.Matches [] := by
  obtain ⟨passed, taken, rfl, rfl, same, single⟩ := since.passed
  obtain ⟨part, others, rfl, before, later⟩ := Pattern.matches_append.mp matched
  have length := length_of_matches single before
  have short := suffix.length_le
  simp only [List.append_nil, List.length_append, List.length_tail] at short
  have empty : others = [] := List.eq_nil_of_length_eq_zero (by omega)
  rwa [empty] at later

/-- A star is tried with nothing first, and takes the place of the star before it. -/
theorem leads_star {retry : Option (Pattern × List Char)}
    (sound : (⟨star :: pieces, text, retry⟩ : Search).Sound most) :
    (⟨star :: pieces, text, retry⟩ : Search).Leads most
      (.inl ⟨pieces, text, some (pieces, text)⟩) := by
  have globbed : Globbed pieces := (List.forall_mem_cons.mp sound.globbed).2
  have few : pieces.length ≤ most := Nat.le_of_succ_le sound.few
  refine ⟨sound_again globbed few _, ?_, ?_⟩
  · have fits := Nat.mul_le_mul_right (most + 1) sound.length_text_le
    exact Nat.add_lt_add_of_le_of_lt fits (Nat.lt_succ_self _)
  · rw [finds_again, ← matches_star_iff, Finds]
    constructor
    · exact Or.inl
    · rintro (now | ⟨pattern, whole, rfl, rest, suffix, matched⟩)
      · exact now
      · exact matches_star_of_since (sound.since pattern whole rfl).2 suffix matched

/-- A piece of one character takes the next one, and the latest star stays as it is. -/
theorem leads_take {piece : Piece} {char : Char} {retry : Option (Pattern × List Char)}
    (sound : (⟨piece :: pieces, char :: text, retry⟩ : Search).Sound most)
    (single : piece.count = .one) (admitted : piece.chars.admits char = true) :
    (⟨piece :: pieces, char :: text, retry⟩ : Search).Leads most (.inl ⟨pieces, text, retry⟩) := by
  refine ⟨⟨(List.forall_mem_cons.mp sound.globbed).2, Nat.le_of_succ_le sound.few, ?_⟩, ?_, ?_⟩
  · intro pattern whole latest
    obtain ⟨few, since⟩ := sound.since pattern whole latest
    exact ⟨few, since.take single⟩
  · cases retry with
    | none =>
      simp only [bound, room, List.length_cons, Nat.succ_mul]
      omega
    | some latest => simp [bound, room]
  · simp [Finds, matches_single single, admitted]

/-- At the end of the text no star has anything left to take. -/
theorem leads_end {retry : Option (Pattern × List Char)}
    (sound : (⟨pieces, [], retry⟩ : Search).Sound most) :
    (⟨pieces, [], retry⟩ : Search).Leads most (.inr (pieces.all (· = star))) := by
  rw [Leads, ← matches_nil_iff sound.globbed, Finds]
  constructor
  · exact Or.inl
  · rintro (now | ⟨pattern, whole, rfl, rest, suffix, matched⟩)
    · exact now
    · exact matches_nil_of_since (sound.since pattern whole rfl).2 suffix matched

theorem leads_step (sound : search.Sound most) : search.Leads most search.step := by
  obtain ⟨pieces, text, retry⟩ := search
  cases text with
  | nil =>
    cases pieces <;> exact leads_end sound
  | cons char rest =>
    cases pieces with
    | nil => exact leads_goBack sound (by simp [Pattern.Matches]) (Nat.succ_pos _)
    | cons piece pieces =>
      rw [step]
      split
      · rename_i isStar
        subst isStar
        exact leads_star sound
      · rename_i notStar
        have single := (sound.globbed piece (List.mem_cons_self ..)).resolve_left notStar
        split
        · rename_i admitted
          exact leads_take sound single admitted
        · rename_i refused
          exact leads_goBack sound (by simp [matches_single single, refused]) (Nat.succ_pos _)

end Step

/-- A search ends within the bound for its steps, and its verdict is whether it finds anything. -/
theorem exists_verdict {most steps : Nat} {search : Search} (sound : search.Sound most)
    (enough : search.bound most < steps) :
    ∃ verdict, verdict? steps search = some verdict ∧ (verdict = true ↔ search.Finds) := by
  induction steps generalizing search with
  | zero => exact absurd enough (Nat.not_lt_zero _)
  | succ steps ih =>
    have leads := leads_step sound
    rw [verdict?]
    cases stepped : search.step with
    | inr verdict =>
      rw [stepped] at leads
      exact ⟨verdict, rfl, leads⟩
    | inl next =>
      rw [stepped] at leads
      obtain ⟨sound, nearer, same⟩ := leads
      obtain ⟨verdict, found, decides⟩ := ih sound (by omega)
      exact ⟨verdict, found, decides.trans same⟩

theorem sound_start (glob value : String) : (start glob value).Sound glob.length where
  globbed := globbed_parse glob.toList
  few := length_parse_le glob.toList
  since := by simp [start]

end Search

/-- A glob accepts exactly the values that can be cut into what its tokens take, and the search finds
out which in at most one step for every end of the value and every end of the glob. -/
theorem search_decides (glob value : String) :
    (accepts glob value = true ↔ Spans glob.toList value.toList) ∧
      Search.verdict? ((value.length + 1) * (glob.length + 1)) (Search.start glob value) =
        some (accepts glob value) := by
  refine ⟨accepts_iff_spans glob value, ?_⟩
  have enough : (Search.start glob value).bound glob.length <
      (value.length + 1) * (glob.length + 1) := by
    have few := Search.length_parse_le glob.toList
    rw [Nat.succ_mul]
    exact Nat.add_lt_add_left (Nat.lt_succ_of_le few) _
  obtain ⟨verdict, found, decides⟩ := Search.exists_verdict (Search.sound_start glob value) enough
  have finds : (Search.start glob value).Finds ↔ accepts glob value = true := by
    simp [Search.Finds, Search.start, accepts, Pattern.accepts_iff]
  rw [found, Bool.eq_iff_iff.mpr (decides.trans finds)]

end AccessPolicy.Glob
