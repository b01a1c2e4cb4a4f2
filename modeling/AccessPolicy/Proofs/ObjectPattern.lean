import AccessPolicy.Evaluator.Verdict
import AccessPolicy.Proofs.Pattern

/-!
What object patterns mean as paths, and what they match. A pattern is plain when a dot, a colon and a
star stand only where a path has them: a colon and a star at the start of a segment, a dot in the name
of a parameter. A plain pattern matches what it means, but that a star after a slash ends with the
line; any other pattern matches more.
-/
namespace AccessPolicy

namespace ObjectPattern

section Meaning

def slash : Piece := ⟨.only '/', .one⟩

/-- A star takes a run of characters of a set, and every other character takes itself. -/
def sign (star : CharSet) (char : Char) : Piece :=
  if char = '*' then ⟨star, .any⟩ else ⟨.only char, .one⟩

/-- A segment that starts with a colon is a parameter and takes a segment that is not empty. -/
def segment (star : CharSet) : List Char → Pattern
  | ':' :: _ => [⟨.except '/', .some⟩]
  | chars => chars.map (sign star)

/-- A pattern read segment by segment, with what a star takes in the first one and in the others. -/
def bySegments (read : CharSet → List Char → Pattern) (first later : CharSet) (chars : List Char) :
    Pattern :=
  match chars.splitOn '/' with
  | [] => []
  | chars :: others => read first chars ++ others.flatMap fun chars => slash :: read later chars

/-- What a pattern means as a path, where a star after a slash takes characters of a set. -/
def meaning (later : CharSet) (pattern : String) : Pattern :=
  bySegments segment .all later pattern.toList

def isOrdinary (char : Char) : Bool :=
  char != '.' && char != ':' && char != '*'

def isPlainSegment : List Char → Bool
  | ':' :: _ => true
  | '*' :: rest => rest.all isOrdinary
  | chars => chars.all isOrdinary

def isPlain (pattern : String) : Bool :=
  (pattern.toList.splitOn '/').all isPlainSegment

/-- A segment after a slash starts with a star. -/
def hasLaterStar (pattern : String) : Bool :=
  (pattern.toList.splitOn '/').tail.any (·.head? == some '*')

end Meaning

section Segments

variable {read : CharSet → List Char → Pattern} {first later : CharSet} {chars : List Char}

/-- A text is a segment, or a segment and a slash before another text. -/
theorem segments_induction {motive : List Char → Prop}
    (last : ∀ chars, '/' ∉ chars → motive chars)
    (step : ∀ chars rest, '/' ∉ chars → motive rest → motive (chars ++ '/' :: rest))
    (chars : List Char) : motive chars := by
  by_cases more : '/' ∈ chars
  · obtain ⟨first, rest, rfl, plain⟩ := List.eq_append_cons_of_mem more
    exact step first rest plain (segments_induction last step rest)
  · exact last chars more
termination_by chars.length
decreasing_by simp_all; omega

theorem bySegments_last (plain : '/' ∉ chars) : bySegments read first later chars = read first chars := by
  simp [bySegments, List.splitOn_eq_singleton plain]

theorem bySegments_append (plain : '/' ∉ chars) (rest : List Char) :
    bySegments read first later (chars ++ '/' :: rest) =
      read first chars ++ slash :: bySegments read later later rest := by
  simp only [bySegments, List.splitOn_append_cons_self_of_not_mem plain]
  cases cut : rest.splitOn '/' with
  | nil => exact absurd cut (List.splitOn_ne_nil '/' rest)
  | cons next others => rfl

end Segments

section Reading

/-- How a segment is read: a star at its start takes what a star takes there. -/
def readSegment (star : CharSet) : List Char → Pattern
  | '*' :: rest => ⟨star, .any⟩ :: pieces false rest
  | chars => pieces false chars

theorem readSegment_of_not_star {chars : List Char} (star : CharSet)
    (single : ∀ rest, chars = '*' :: rest → False) : readSegment star chars = pieces false chars := by
  rw [readSegment]
  exact single

theorem star_or_not (chars : List Char) :
    (∃ rest, chars = '*' :: rest) ∨ ∀ rest, chars = '*' :: rest → False := by
  rcases chars with _ | ⟨char, chars⟩
  · exact Or.inr (by simp)
  · by_cases starred : char = '*' <;> simp [starred]

theorem pieces_slash (named : Bool) (chars : List Char) :
    pieces named ('/' :: chars) = slash :: readSegment (.except '\n') chars := by
  rcases star_or_not chars with ⟨rest, rfl⟩ | single
  · rfl
  · rw [readSegment_of_not_star _ single, pieces]
    · rfl
    · exact single

theorem not_star_append {chars : List Char} (single : ∀ rest, chars = '*' :: rest → False)
    (rest : List Char) : ∀ others, chars ++ '/' :: rest ≠ '*' :: others := by
  rintro others same
  cases chars with
  | nil => simp at same
  | cons char chars => exact single chars (congrArg (· :: chars) (List.cons.inj same).1)

/-- A segment is read by itself: what comes after it begins with a slash, not with a star. -/
theorem pieces_append {named : Bool} {chars : List Char} (plain : '/' ∉ chars) (rest : List Char) :
    pieces named (chars ++ '/' :: rest) =
      pieces named chars ++ slash :: readSegment (.except '\n') rest := by
  fun_induction pieces named chars with
  | case1 named => exact pieces_slash named rest
  -- The cases that look one character ahead see the slash where the segment ends.
  | case8 char chars _ _ single =>
    have after := not_star_append single rest
    simp_all [pieces]
  | case9 named chars single =>
    have after := not_star_append single rest
    simp_all [pieces]
  | case10 named chars single =>
    have after := not_star_append single rest
    simp_all [pieces]
  | case11 named char chars _ _ single =>
    have after := not_star_append single rest
    simp_all [pieces]
  | _ => simp_all [pieces]

theorem readSegment_append {star : CharSet} {chars : List Char} (plain : '/' ∉ chars)
    (rest : List Char) : readSegment star (chars ++ '/' :: rest) =
      readSegment star chars ++ slash :: readSegment (.except '\n') rest := by
  rcases star_or_not chars with ⟨more, rfl⟩ | single
  · exact congrArg _ (pieces_append (List.not_mem_of_not_mem_cons plain) rest)
  · rw [readSegment_of_not_star _ single, readSegment_of_not_star _ (not_star_append single rest)]
    exact pieces_append plain rest

theorem readSegment_eq (star : CharSet) (chars : List Char) :
    readSegment star chars = bySegments readSegment star (.except '\n') chars := by
  induction chars using segments_induction generalizing star with
  | last chars plain => rw [bySegments_last plain]
  | step chars rest plain ih => rw [readSegment_append plain, bySegments_append plain, ih]

/-- A pattern is read segment by segment. -/
theorem parse_eq (chars : List Char) : parse chars = bySegments readSegment .all (.except '\n') chars := by
  rw [← readSegment_eq]
  rcases star_or_not chars with ⟨rest, rfl⟩ | single
  · rfl
  · rw [readSegment_of_not_star _ single, parse]
    exact single

end Reading

section Plain

variable {chars : List Char}

theorem hasDoubleStar_append (chars rest : List Char) :
    hasDoubleStar (chars ++ '/' :: rest) = (hasDoubleStar chars || hasDoubleStar rest) := by
  fun_induction hasDoubleStar chars with
  | case1 => rfl
  | case2 char chars single ih =>
    rw [List.cons_append, hasDoubleStar, ih]
    intro others star same
    exact not_star_append (fun tail => single tail star) rest others same
  | case3 => rfl

theorem pieces_true (plain : '/' ∉ chars) : pieces true chars = [] := by
  generalize inName : true = named
  fun_induction pieces named chars <;> simp_all

theorem pieces_colon (plain : '/' ∉ chars) :
    pieces false (':' :: chars) = [⟨.except '/', .some⟩] := by
  rcases chars with _ | ⟨char, chars⟩
  · rfl
  · by_cases starred : char = '*'
    · subst starred
      exact congrArg _ (pieces_true (List.not_mem_of_not_mem_cons plain))
    · have ended : pieces true (char :: chars) = [] := pieces_true plain
      simp [pieces, starred, ended]

theorem not_star_of_all (ordinary : chars.all isOrdinary = true) :
    ∀ rest, chars = '*' :: rest → False := by
  rintro rest rfl
  simp [isOrdinary] at ordinary

theorem ne_star_of_mem (ordinary : chars.all isOrdinary = true) {char : Char} (present : char ∈ chars) :
    char ≠ '*' := by
  rintro rfl
  have here := List.all_eq_true.mp ordinary _ present
  simp [isOrdinary] at here

theorem pieces_eq_map (star : CharSet) (plain : '/' ∉ chars) (ordinary : chars.all isOrdinary = true) :
    pieces false chars = chars.map (sign star) := by
  induction chars with
  | nil => rfl
  | cons char rest ih =>
    rw [List.all_cons, Bool.and_eq_true] at ordinary
    have single := not_star_of_all ordinary.2
    have later := ih (List.not_mem_of_not_mem_cons plain) ordinary.2
    have here := ordinary.1
    simp only [isOrdinary, Bool.and_eq_true, bne_iff_ne] at here
    have other : char ≠ '/' := fun same => plain (same ▸ List.mem_cons_self ..)
    rw [pieces, later]
    · simp [here, charsOf, sign]
    · exact fun _ _ => single _
    · exact other
    · exact single

/-- A plain segment is read as what it means. -/
theorem readSegment_eq_segment {star : CharSet} (plain : '/' ∉ chars)
    (asPath : isPlainSegment chars = true) : readSegment star chars = segment star chars := by
  unfold isPlainSegment at asPath
  split at asPath
  · exact pieces_colon (List.not_mem_of_not_mem_cons plain)
  · exact congrArg _ (pieces_eq_map star (List.not_mem_of_not_mem_cons plain) asPath)
  · rename_i parameter _
    rw [readSegment_of_not_star _ (not_star_of_all asPath), pieces_eq_map star plain asPath, segment]
    exact parameter

/-- A plain pattern is read as what it means, but that a star after a slash ends with the line. -/
theorem bySegments_readSegment_eq {first later : CharSet}
    (asPath : (chars.splitOn '/').all isPlainSegment = true) :
    bySegments readSegment first later chars = bySegments segment first later chars := by
  induction chars using segments_induction generalizing first with
  | last chars plain =>
    rw [List.splitOn_eq_singleton plain, List.all_cons, Bool.and_eq_true] at asPath
    rw [bySegments_last plain, bySegments_last plain, readSegment_eq_segment plain asPath.1]
  | step chars rest plain ih =>
    rw [List.splitOn_append_cons_self_of_not_mem plain, List.all_cons, Bool.and_eq_true] at asPath
    rw [bySegments_append plain, bySegments_append plain, readSegment_eq_segment plain asPath.1,
      ih asPath.2]

end Plain

section Literals

open Pattern (isLiteral)

variable {chars : List Char}

theorem countP_pieces_le (named : Bool) (chars : List Char) :
    (pieces named chars).countP isLiteral ≤ chars.countP (· != '*') := by
  fun_induction pieces named chars with
  | case11 named char chars _ _ _ _ _ other ih =>
    have here : (if isLiteral ⟨charsOf char, .one⟩ then 1 else 0) ≤ 1 := by split <;> omega
    simp only [List.countP_cons, bne_iff_ne, ne_eq, other, not_false_eq_true, if_true]
    omega
  | _ => simp_all [List.countP_cons, isLiteral] <;> omega

/-- Where a character is not read as itself, fewer characters are given. -/
theorem countP_pieces_lt (plain : '/' ∉ chars) (single : hasDoubleStar chars = false)
    (started : ∀ rest, chars = '*' :: rest → False) (odd : chars.all isOrdinary = false) :
    (pieces false chars).countP isLiteral < chars.countP (· != '*') := by
  generalize inName : false = named
  fun_induction pieces named chars with
  | case1 => simp at odd
  | case2 | case3 => simp at plain
  | case4 | case8 => cases inName
  | case6 | case10 => exact absurd rfl (started _)
  | case5 named chars =>
    simpa [isLiteral, Nat.lt_succ_iff] using countP_pieces_le true chars
  | case7 named char chars _ _ _ star =>
    simpa [isLiteral, star, Nat.lt_succ_iff] using countP_pieces_le false chars
  | case9 named chars =>
    simpa [isLiteral, Nat.lt_succ_iff] using countP_pieces_le true chars
  | case11 named char chars _ _ next _ colon star ih =>
    by_cases dot : char = '.'
    · simpa [isLiteral, charsOf, dot, Nat.lt_succ_iff] using countP_pieces_le false chars
    · have alone : hasDoubleStar chars = false := by
        rw [hasDoubleStar] at single
        · exact single
        · exact fun _ same => absurd same star
      have later := ih (List.not_mem_of_not_mem_cons plain) alone next
        (by simpa [isOrdinary, dot, colon, star] using odd) rfl
      simpa [isLiteral, charsOf, dot, star] using later

theorem countP_segment {star : CharSet} (noName : ∀ rest, chars = ':' :: rest → False) :
    (segment star chars).countP isLiteral = chars.countP (· != '*') := by
  rw [segment]
  · rw [List.countP_map]
    refine List.countP_congr fun char _ => ?_
    by_cases starred : char = '*' <;> simp [sign, starred, isLiteral]
  · exact noName

/-- A segment that is not plain gives fewer characters than it means. -/
theorem countP_readSegment_lt (star other : CharSet) (plain : '/' ∉ chars)
    (single : hasDoubleStar chars = false) (odd : isPlainSegment chars = false) :
    (readSegment star chars).countP isLiteral < (segment other chars).countP isLiteral := by
  unfold isPlainSegment at odd
  split at odd
  · cases odd
  · rename_i rest
    have next : ∀ more, rest = '*' :: more → False := by
      rintro more rfl
      cases single
    have alone : hasDoubleStar rest = false := by
      rw [hasDoubleStar] at single
      · exact single
      · exact fun more _ => next more
    have given := countP_pieces_lt (List.not_mem_of_not_mem_cons plain) alone next odd
    rw [countP_segment (by simp)]
    simpa [readSegment, isLiteral] using given
  · rename_i noName started
    rw [countP_segment noName, readSegment_of_not_star _ started]
    exact countP_pieces_lt plain single started odd

theorem countP_readSegment_le (star other : CharSet) (plain : '/' ∉ chars)
    (single : hasDoubleStar chars = false) :
    (readSegment star chars).countP isLiteral ≤ (segment other chars).countP isLiteral := by
  cases asPath : isPlainSegment chars with
  | true =>
    rw [readSegment_eq_segment plain asPath]
    by_cases name : ∃ rest, chars = ':' :: rest
    · obtain ⟨rest, rfl⟩ := name
      exact Nat.le_refl _
    · have noName : ∀ rest, chars = ':' :: rest → False := fun rest same => name ⟨rest, same⟩
      exact Nat.le_of_eq ((countP_segment noName).trans (countP_segment noName).symm)
  | false => exact Nat.le_of_lt (countP_readSegment_lt star other plain single asPath)

/-- A pattern gives no more characters than it means, and fewer if it is not plain. -/
theorem countP_bySegments (first later start next : CharSet)
    (single : hasDoubleStar chars = false) :
    (bySegments readSegment first later chars).countP isLiteral ≤
        (bySegments segment start next chars).countP isLiteral ∧
      ((chars.splitOn '/').all isPlainSegment = false →
        (bySegments readSegment first later chars).countP isLiteral <
          (bySegments segment start next chars).countP isLiteral) := by
  induction chars using segments_induction generalizing first start with
  | last chars plain =>
    rw [bySegments_last plain, bySegments_last plain, List.splitOn_eq_singleton plain]
    refine ⟨countP_readSegment_le first start plain single,
      fun odd => countP_readSegment_lt first start plain single ?_⟩
    simpa using odd
  | step chars rest plain ih =>
    rw [hasDoubleStar_append, Bool.or_eq_false_iff] at single
    rw [bySegments_append plain, bySegments_append plain,
      List.splitOn_append_cons_self_of_not_mem plain]
    simp only [List.countP_append, List.countP_cons, List.all_cons, Bool.and_eq_false_iff]
    have here := countP_readSegment_le first start plain single.1
    obtain ⟨le, lt⟩ := ih later next single.2
    refine ⟨by omega, ?_⟩
    rintro (odd | odd)
    · have fewer := countP_readSegment_lt first start plain single.1 odd
      omega
    · have fewer := lt odd
      omega

end Literals

section Least

variable {chars : List Char} {first later : CharSet} {piece : Piece}

/-- The pieces of a segment are stars, a parameter, and the characters of the segment. -/
theorem mem_segment {star : CharSet} (present : piece ∈ segment star chars) :
    piece = ⟨star, .any⟩ ∨ piece = ⟨.except '/', .some⟩ ∨
      ∃ char ∈ chars, piece = ⟨.only char, .one⟩ := by
  unfold segment at present
  split at present
  · exact Or.inr (Or.inl (List.mem_singleton.mp present))
  · obtain ⟨char, member, rfl⟩ := List.mem_map.mp present
    unfold sign
    split
    · exact Or.inl rfl
    · exact Or.inr (Or.inr ⟨char, member, rfl⟩)

theorem mem_bySegments (present : piece ∈ bySegments segment first later chars) :
    piece = ⟨first, .any⟩ ∨ piece = ⟨later, .any⟩ ∨ piece = ⟨.except '/', .some⟩ ∨
      ∃ char ∈ chars, piece = ⟨.only char, .one⟩ := by
  induction chars using segments_induction generalizing first with
  | last chars plain =>
    rw [bySegments_last plain] at present
    exact (mem_segment present).imp id Or.inr
  | step chars rest plain ih =>
    rw [bySegments_append plain, List.mem_append, List.mem_cons] at present
    rcases present with here | rfl | there
    · rcases mem_segment here with star | name | ⟨char, member, own⟩
      · exact Or.inl star
      · exact Or.inr (Or.inr (Or.inl name))
      · exact Or.inr (Or.inr (Or.inr ⟨char, List.mem_append_left _ member, own⟩))
    · exact Or.inr (Or.inr (Or.inr ⟨'/', by simp, rfl⟩))
    · rcases ih there with star | star | name | ⟨char, member, own⟩
      · exact Or.inr (Or.inl star)
      · exact Or.inr (Or.inl star)
      · exact Or.inr (Or.inr (Or.inl name))
      · exact Or.inr (Or.inr (Or.inr ⟨char, by simp [member], own⟩))

theorem fits_of_mem_pieces {named : Bool} (present : piece ∈ pieces named chars) :
    piece.chars ≠ .except '+' := by
  fun_induction pieces named chars <;> grind [charsOf]

theorem fits_of_mem_parse (present : piece ∈ parse chars) : piece.chars ≠ .except '+' := by
  unfold parse at present
  split at present
  · rcases List.mem_cons.mp present with rfl | later
    · simp
    · exact fits_of_mem_pieces later
  · exact fits_of_mem_pieces present

theorem of_accepted {pattern : String} (accepted : problem? pattern = none) :
    '+' ∉ pattern.toList ∧ hasDoubleStar pattern.toList = false := by
  unfold problem? at accepted
  split at accepted
  · cases accepted
  · rename_i unreserved
    split at accepted
    · cases accepted
    · rename_i single
      refine ⟨fun present => ?_, by simpa using single⟩
      exact absurd (List.find?_eq_none.mp unreserved '+' present) (by decide)

/-- A pattern that is not plain matches the least text that it is read as, which has fewer characters
than what it means. -/
theorem exists_widened {pattern : String} (accepted : problem? pattern = none)
    (odd : isPlain pattern = false) : ∃ object, accepts pattern object = true ∧
      ¬ (meaning .all pattern).Matches object.toList := by
  obtain ⟨unused, single⟩ := of_accepted accepted
  -- The plus sign stands for whatever is free: no accepted pattern contains it.
  refine ⟨String.ofList ((parse pattern.toList).least '+'), ?_, fun matched => ?_⟩
  · rw [accepts, Pattern.accepts_iff, String.toList_ofList]
    exact Pattern.matches_least fun piece => fits_of_mem_parse
  · have named : ∀ piece ∈ meaning .all pattern, piece.chars ≠ .only '+' := by
      intro piece present
      rcases mem_bySegments present with rfl | rfl | rfl | ⟨char, member, rfl⟩
      · simp
      · simp
      · simp
      · rintro same
        cases same
        exact unused member
    rw [String.toList_ofList, parse_eq] at matched
    have most := Pattern.le_countP_of_matches named matched
    have least := Pattern.countP_least_le '+' (bySegments readSegment .all (.except '\n') pattern.toList)
    exact absurd (Nat.le_trans most least) (Nat.not_le_of_lt ((countP_bySegments _ _ _ _ single).2 odd))

end Least

section Stars

variable {chars : List Char} {first later start next : CharSet}

theorem accepts_iff_of_plain {pattern : String} (asPath : isPlain pattern = true) (object : String) :
    accepts pattern object = true ↔ (meaning (.except '\n') pattern).Matches object.toList := by
  rw [accepts, Pattern.accepts_iff, parse_eq, bySegments_readSegment_eq asPath]
  rfl

theorem forall₂_segment {related : Piece → Piece → Prop} (same : ∀ piece, related piece piece)
    {star other : CharSet} (stars : related ⟨star, .any⟩ ⟨other, .any⟩) (chars : List Char) :
    List.Forall₂ related (segment star chars) (segment other chars) := by
  unfold segment
  split
  · exact List.forall₂_same.mpr fun piece _ => same piece
  · rw [List.forall₂_map_left_iff, List.forall₂_map_right_iff]
    refine List.forall₂_same.mpr fun char _ => ?_
    unfold sign
    split
    · exact stars
    · exact same _

/-- Two meanings of a pattern differ only in their stars. -/
theorem forall₂_bySegments {related : Piece → Piece → Prop} (same : ∀ piece, related piece piece)
    (firsts : related ⟨first, .any⟩ ⟨start, .any⟩) (laters : related ⟨later, .any⟩ ⟨next, .any⟩)
    (chars : List Char) : List.Forall₂ related (bySegments segment first later chars)
      (bySegments segment start next chars) := by
  induction chars using segments_induction generalizing first start with
  | last chars plain =>
    rw [bySegments_last plain, bySegments_last plain]
    exact forall₂_segment same firsts chars
  | step chars rest plain ih =>
    rw [bySegments_append plain, bySegments_append plain]
    exact List.rel_append (forall₂_segment same firsts chars) (List.Forall₂.cons (same slash) (ih laters))

/-- What a pattern matches with the stars of one set it matches with those of a larger one. -/
theorem matches_meaning_mono {pattern : String} {text : List Char}
    (larger : ∀ char ∈ text, later.admits char = true → next.admits char = true)
    (matched : (meaning later pattern).Matches text) : (meaning next pattern).Matches text :=
  Pattern.matches_mono
    (forall₂_bySegments (fun _ => ⟨rfl, fun _ _ => id⟩) ⟨rfl, fun _ _ => id⟩ ⟨rfl, larger⟩ _)
    (List.Subset.refl text) matched

theorem segment_eq_of_unstarred {star other : CharSet} (asPath : isPlainSegment chars = true)
    (unstarred : (chars.head? == some '*') = false) : segment star chars = segment other chars := by
  unfold isPlainSegment at asPath
  split at asPath
  · rfl
  · simp at unstarred
  · rename_i noName _
    rw [segment, segment]
    · refine List.map_congr_left fun char present => ?_
      simp [sign, ne_star_of_mem asPath present]
    · exact noName
    · exact noName

/-- Where no segment starts with a star, it does not matter what stars take. -/
theorem bySegments_eq_of_unstarred (asPath : (chars.splitOn '/').all isPlainSegment = true)
    (unstarred : (chars.splitOn '/').any (·.head? == some '*') = false) :
    bySegments segment first later chars = bySegments segment start next chars := by
  induction chars using segments_induction generalizing first start with
  | last chars plain =>
    rw [List.splitOn_eq_singleton plain, List.all_cons, Bool.and_eq_true] at asPath
    rw [List.splitOn_eq_singleton plain, List.any_cons, Bool.or_eq_false_iff] at unstarred
    rw [bySegments_last plain, bySegments_last plain,
      segment_eq_of_unstarred asPath.1 unstarred.1]
  | step chars rest plain ih =>
    rw [List.splitOn_append_cons_self_of_not_mem plain, List.all_cons, Bool.and_eq_true] at asPath
    rw [List.splitOn_append_cons_self_of_not_mem plain, List.any_cons, Bool.or_eq_false_iff]
      at unstarred
    rw [bySegments_append plain, bySegments_append plain,
      segment_eq_of_unstarred asPath.1 unstarred.1, ih asPath.2 unstarred.2]

theorem meaning_eq_of_unstarred {pattern : String} (asPath : isPlain pattern = true)
    (unstarred : hasLaterStar pattern = false) : meaning later pattern = meaning next pattern := by
  unfold meaning isPlain hasLaterStar at *
  by_cases more : '/' ∈ pattern.toList
  · obtain ⟨chars, rest, cut, plain⟩ := List.eq_append_cons_of_mem more
    rw [cut, List.splitOn_append_cons_self_of_not_mem plain] at asPath unstarred
    rw [List.all_cons, Bool.and_eq_true] at asPath
    rw [cut, bySegments_append plain, bySegments_append plain,
      bySegments_eq_of_unstarred asPath.2 unstarred]
  · rw [bySegments_last more, bySegments_last more]

theorem count_le_of_matches {text : List Char}
    (matched : (bySegments segment first later chars).Matches text) :
    chars.count '/' ≤ text.count '/' := by
  induction chars using segments_induction generalizing first text with
  | last chars plain =>
    rw [List.count_eq_zero.mpr plain]
    exact Nat.zero_le _
  | step chars rest plain ih =>
    rw [bySegments_append plain, Pattern.matches_append] at matched
    obtain ⟨part, _, rfl, _, cut⟩ := matched
    obtain ⟨char, others, rfl, slashed, later⟩ := Pattern.matches_one.mp cut
    cases beq_iff_eq.mp slashed
    have below := ih later
    rw [List.count_append, List.count_append, List.count_eq_zero.mpr plain, List.count_cons_self,
      List.count_cons_self]
    omega

/-- A text with no more slashes than the pattern is matched segment by segment. -/
theorem matches_append_iff {rest part text : List Char} (plain : '/' ∉ chars) (plainPart : '/' ∉ part)
    (few : text.count '/' ≤ rest.count '/') :
    (bySegments segment first later (chars ++ '/' :: rest)).Matches (part ++ '/' :: text) ↔
      (segment first chars).Matches part ∧ (bySegments segment later later rest).Matches text := by
  rw [bySegments_append plain, Pattern.matches_append]
  constructor
  · rintro ⟨taken, _, same, matched, cut⟩
    obtain ⟨char, others, rfl, slashed, below⟩ := Pattern.matches_one.mp cut
    cases beq_iff_eq.mp slashed
    have enough := count_le_of_matches below
    have counts := congrArg (List.count '/') same
    simp only [List.count_append, List.count_cons_self, List.count_eq_zero.mpr plainPart] at counts
    have plainTaken : '/' ∉ taken := List.count_eq_zero.mp (by omega)
    cases eq_of_append_separator plainPart plainTaken same
    cases List.append_cancel_left same
    exact ⟨matched, below⟩
  · rintro ⟨matched, below⟩
    exact ⟨part, _, rfl, matched, Pattern.matches_one.mpr ⟨'/', text, rfl, rfl, below⟩⟩

theorem count_append_le {part text rest : List Char} (unslashed : '/' ∉ part)
    (few : text.count '/' ≤ rest.count '/') :
    (part ++ '/' :: text).count '/' ≤ (chars ++ '/' :: rest).count '/' := by
  rw [List.count_append, List.count_append, List.count_eq_zero.mpr unslashed, List.count_cons_self,
    List.count_cons_self]
  omega

theorem exists_matched_segment (plain : '/' ∉ chars) :
    ∃ text, '/' ∉ text ∧ (segment .all chars).Matches text := by
  refine ⟨Pattern.least '+' (segment .all chars), fun slashed => ?_, Pattern.matches_least ?_⟩
  · obtain ⟨piece, present, sampled⟩ := List.mem_flatMap.mp slashed
    rcases mem_segment present with rfl | rfl | ⟨char, member, rfl⟩
    · cases sampled
    · exact absurd sampled (by decide)
    · cases List.mem_singleton.mp sampled
      exact plain member
  · intro piece present
    rcases mem_segment present with rfl | rfl | ⟨char, member, rfl⟩ <;> simp

theorem exists_matched (chars : List Char) : ∃ text, text.count '/' ≤ chars.count '/' ∧
    (bySegments segment .all .all chars).Matches text := by
  induction chars using segments_induction with
  | last chars plain =>
    obtain ⟨text, unslashed, matched⟩ := exists_matched_segment plain
    refine ⟨text, ?_, by rwa [bySegments_last plain]⟩
    rw [List.count_eq_zero.mpr unslashed]
    exact Nat.zero_le _
  | step chars rest plain ih =>
    obtain ⟨part, unslashed, matched⟩ := exists_matched_segment plain
    obtain ⟨text, few, below⟩ := ih
    refine ⟨part ++ '/' :: text, ?_, (matches_append_iff plain unslashed few).mpr ⟨matched, below⟩⟩
    exact count_append_le unslashed few

/-- A star takes a line end, unless it is one of the characters that it does not take. -/
theorem segment_missed {rest : List Char} (asPath : isPlainSegment ('*' :: rest) = true) :
    (segment .all ('*' :: rest)).Matches ('\n' :: rest) ∧
      ¬ (segment (.except '\n') ('*' :: rest)).Matches ('\n' :: rest) := by
  have literal (star : CharSet) : segment star ('*' :: rest) =
      ⟨star, .any⟩ :: (rest.map (fun char => ⟨.only char, .one⟩) ++ []) := by
    rw [List.append_nil]
    refine congrArg (List.cons _) (List.map_congr_left fun char present => ?_)
    simp [sign, ne_star_of_mem asPath present]
  rw [literal, literal]
  constructor
  · exact ⟨['\n'], rest, rfl, ⟨by simp [CharSet.admits], trivial⟩,
      Pattern.matches_literals.mpr ⟨[], (List.append_nil rest).symm, rfl⟩⟩
  · rintro ⟨part, _, same, ⟨admitted, _⟩, matched⟩
    obtain ⟨_, rfl, rfl⟩ := Pattern.matches_literals.mp matched
    rw [List.append_nil] at same
    have taken : ['\n'] = part := List.append_cancel_right same
    subst taken
    exact absurd (admitted '\n' (List.mem_singleton_self _)) (by decide)

theorem exists_missed_segment (plain : '/' ∉ chars) (asPath : isPlainSegment chars = true)
    (starred : (chars.head? == some '*') = true) : ∃ text, '/' ∉ text ∧
      (segment .all chars).Matches text ∧ ¬ (segment (.except '\n') chars).Matches text := by
  obtain ⟨rest, rfl⟩ := List.head?_eq_some_iff.mp (beq_iff_eq.mp starred)
  refine ⟨'\n' :: rest, ?_, segment_missed asPath⟩
  exact List.not_mem_cons_of_ne_of_not_mem (by decide) (List.not_mem_of_not_mem_cons plain)

/-- Where a segment starts with a star, an object may have a line end there. -/
theorem exists_missed (asPath : (chars.splitOn '/').all isPlainSegment = true)
    (starred : (chars.splitOn '/').any (·.head? == some '*') = true) :
    ∃ text, text.count '/' ≤ chars.count '/' ∧ (bySegments segment .all .all chars).Matches text ∧
      ¬ (bySegments segment (.except '\n') (.except '\n') chars).Matches text := by
  induction chars using segments_induction with
  | last chars plain =>
    rw [List.splitOn_eq_singleton plain, List.all_cons, Bool.and_eq_true] at asPath
    rw [List.splitOn_eq_singleton plain, List.any_cons, List.any_nil, Bool.or_false] at starred
    obtain ⟨text, unslashed, matched, missed⟩ := exists_missed_segment plain asPath.1 starred
    rw [bySegments_last plain, bySegments_last plain]
    exact ⟨text, by simp [List.count_eq_zero.mpr unslashed], matched, missed⟩
  | step chars rest plain ih =>
    rw [List.splitOn_append_cons_self_of_not_mem plain, List.all_cons, Bool.and_eq_true] at asPath
    rw [List.splitOn_append_cons_self_of_not_mem plain, List.any_cons, Bool.or_eq_true] at starred
    -- The line end goes where the star is; elsewhere any text that is meant will do, as long as it has no
    -- slash too many, so that segments are matched with segments.
    rcases starred with starred | starred
    · obtain ⟨part, unslashed, matched, missed⟩ := exists_missed_segment plain asPath.1 starred
      obtain ⟨text, few, below⟩ := exists_matched rest
      refine ⟨part ++ '/' :: text, count_append_le unslashed few, ?_, ?_⟩
      · exact (matches_append_iff plain unslashed few).mpr ⟨matched, below⟩
      · exact fun both => missed ((matches_append_iff plain unslashed few).mp both).1
    · obtain ⟨part, unslashed, matched⟩ := exists_matched_segment plain
      obtain ⟨text, few, below, missed⟩ := ih asPath.2 starred
      refine ⟨part ++ '/' :: text, count_append_le unslashed few, ?_, ?_⟩
      · exact (matches_append_iff plain unslashed few).mpr ⟨matched, below⟩
      · exact fun both => missed ((matches_append_iff plain unslashed few).mp both).2

/-- A plain pattern misses an object with a line end where a segment after a slash starts with a star. -/
theorem exists_missed_of_laterStar {pattern : String} (asPath : isPlain pattern = true)
    (starred : hasLaterStar pattern = true) : ∃ object : String,
      (meaning .all pattern).Matches object.toList ∧
        ¬ (meaning (.except '\n') pattern).Matches object.toList := by
  unfold meaning isPlain hasLaterStar at *
  by_cases more : '/' ∈ pattern.toList
  · obtain ⟨chars, rest, cut, plain⟩ := List.eq_append_cons_of_mem more
    rw [cut, List.splitOn_append_cons_self_of_not_mem plain] at asPath starred
    rw [List.all_cons, Bool.and_eq_true] at asPath
    obtain ⟨part, unslashed, matched⟩ := exists_matched_segment plain
    obtain ⟨text, few, below, missed⟩ := exists_missed asPath.2 starred
    refine ⟨String.ofList (part ++ '/' :: text), ?_, ?_⟩
    · rw [String.toList_ofList, cut]
      exact (matches_append_iff plain unslashed few).mpr ⟨matched, below⟩
    · rw [String.toList_ofList, cut]
      exact fun both => missed ((matches_append_iff plain unslashed few).mp both).2
  · rw [List.splitOn_eq_singleton more] at starred
    cases starred

end Stars

section Results

theorem coversObject_iff {grant : Grant} {object : String} :
    grant.coversObject object [] = true ↔ accepts grant.object object = true := by
  have any (written : grant.object = "*") : accepts grant.object object = true := by
    rw [written, accepts, Pattern.accepts_iff]
    exact ⟨object.toList, [], (List.append_nil _).symm, ⟨fun _ _ => rfl, trivial⟩, rfl⟩
  simp only [Grant.coversObject, List.contains_nil, Bool.or_false, Bool.or_eq_true, decide_eq_true_eq]
  exact ⟨fun either => either.elim any id, Or.inr⟩

/-- A plain pattern takes the objects that it means as a path, but that a star after a slash stays on its
line; no other pattern does. -/
theorem coversObject_exact (grant : Grant) (accepted : problem? grant.object = none) :
    (isPlain grant.object = true → ∀ object, grant.coversObject object [] = true ↔
      (meaning (.except '\n') grant.object).Matches object.toList) ∧
    (isPlain grant.object = true → ∀ object : String, '\n' ∉ object.toList →
      (grant.coversObject object [] = true ↔ (meaning .all grant.object).Matches object.toList)) ∧
    ((∀ object, grant.coversObject object [] = true →
      (meaning .all grant.object).Matches object.toList) ↔ isPlain grant.object = true) ∧
    ((∀ object, grant.coversObject object [] = true ↔
      (meaning .all grant.object).Matches object.toList) ↔
        isPlain grant.object = true ∧ hasLaterStar grant.object = false) := by
  simp only [coversObject_iff]
  have sound (asPath : isPlain grant.object = true) (object : String)
      (taken : accepts grant.object object = true) :
      (meaning .all grant.object).Matches object.toList :=
    matches_meaning_mono (fun _ _ _ => rfl) ((accepts_iff_of_plain asPath object).mp taken)
  have plain_of_sound (sound : ∀ object, accepts grant.object object = true →
      (meaning .all grant.object).Matches object.toList) : isPlain grant.object = true := by
    by_contra odd
    obtain ⟨object, taken, apart⟩ := exists_widened accepted (eq_false_of_ne_true odd)
    exact apart (sound object taken)
  refine ⟨accepts_iff_of_plain, fun asPath object oneLine => ⟨sound asPath object, fun meant => ?_⟩,
    ⟨plain_of_sound, sound⟩, fun exact => ?_, ?_⟩
  · refine (accepts_iff_of_plain asPath object).mpr (matches_meaning_mono ?_ meant)
    exact fun char present _ => bne_iff_ne.mpr fun same => oneLine (same ▸ present)
  · have asPath := plain_of_sound fun object => (exact object).mp
    refine ⟨asPath, eq_false_of_ne_true fun starred => ?_⟩
    obtain ⟨object, meant, missed⟩ := exists_missed_of_laterStar asPath starred
    exact missed ((accepts_iff_of_plain asPath object).mp ((exact object).mpr meant))
  · rintro ⟨asPath, unstarred⟩ object
    rw [accepts_iff_of_plain asPath, meaning_eq_of_unstarred asPath unstarred]

def readsOf (object : String) : Grant :=
  ⟨"ann", "cms", object, "read", .allow⟩

/-- A parameter and a star are read as documented, but that the star stays on its line. -/
theorem coversObject_exact_of_comments :
    problem? (readsOf "/docs/:id/comments/*").object = none ∧
    (readsOf "/docs/:id/comments/*").coversObject "/docs/7/comments/1/a.txt" [] = true ∧
    ¬ (readsOf "/docs/:id/comments/*").coversObject "/docs/7/8/comments/1" [] = true ∧
    ¬ ∀ object, (readsOf "/docs/:id/comments/*").coversObject object [] = true ↔
      (meaning .all "/docs/:id/comments/*").Matches object.toList := by
  obtain ⟨_, oneLine, _, always⟩ := coversObject_exact (readsOf "/docs/:id/comments/*") (by decide)
  refine ⟨by decide, ?_, ?_, fun exact => ?_⟩
  · exact (oneLine (by decide) _ (by decide)).mpr (Pattern.accepts_iff.mp (by decide))
  · intro taken
    have meant := (oneLine (by decide) _ (by decide)).mp taken
    exact absurd (Pattern.accepts_iff.mpr meant) (by decide)
  · exact absurd (always.mp exact).2 (by decide)

/-- Accepted patterns that take other objects than they mean: a dot and a colon within a segment take
any character, a star within a segment repeats what is before it, and one after a slash takes no line
end. -/
theorem coversObject_not_exact :
    (problem? "/docs/a.txt" = none ∧
      (readsOf "/docs/a.txt").coversObject "/docs/aXtxt" [] = true ∧
      ¬ (meaning .all "/docs/a.txt").Matches "/docs/aXtxt".toList) ∧
    (problem? "/docs/a:b" = none ∧
      (readsOf "/docs/a:b").coversObject "/docs/aX" [] = true ∧
      ¬ (meaning .all "/docs/a:b").Matches "/docs/aX".toList) ∧
    (problem? "/docs*" = none ∧
      (readsOf "/docs*").coversObject "/docs/7" [] = false ∧
      (meaning .all "/docs*").Matches "/docs/7".toList) ∧
    (problem? "/docs/*" = none ∧
      (readsOf "/docs/*").coversObject "/docs/7\n" [] = false ∧
      (meaning .all "/docs/*").Matches "/docs/7\n".toList) := by
  simp only [← Pattern.accepts_iff]
  decide

end Results

end ObjectPattern

end AccessPolicy
