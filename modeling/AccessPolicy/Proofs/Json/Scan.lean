import AccessPolicy.Json.Printer
import AccessPolicy.Json.Token
import AccessPolicy.Proofs.Text.Number

/-!
Cutting a written value into tokens gives the tokens that it was written from. A literal is only
known to be over at the next character, so that what follows a value has to end a word.
-/
namespace AccessPolicy.Json

/-- The whole number is one that a 64-bit word holds. -/
def fitsWord (value : Int) : Bool :=
  decide (-((UInt64.size / 2 : Nat) : Int) ≤ value ∧ value < UInt64.size)

mutual

/-- The value has no real number in it, and no whole number too large for a word. -/
def isPlain : Json → Bool
  | .int value => fitsWord value
  | .real _ => false
  | .arr items => arePlain items
  | .obj members => havePlain members
  | _ => true

def arePlain : List Json → Bool
  | [] => true
  | item :: rest => isPlain item && arePlain rest

def havePlain : List (String × Json) → Bool
  | [] => true
  | (_, value) :: rest => isPlain value && havePlain rest

end

mutual

def tokens : Json → List Token
  | .str text => [.str (some text)]
  | .arr [] => [.openArray, .closeArray]
  | .arr (item :: rest) => .openArray :: (tokens item ++ itemTokens rest)
  | .obj [] => [.openObject, .closeObject]
  | .obj ((key, value) :: rest) =>
    .openObject :: .str (some key) :: .colon :: (tokens value ++ memberTokens rest)
  | value => [.atom (some value)]

def itemTokens : List Json → List Token
  | [] => [.closeArray]
  | item :: rest => .comma :: (tokens item ++ itemTokens rest)

def memberTokens : List (String × Json) → List Token
  | [] => [.closeObject]
  | (key, value) :: rest =>
    .comma :: .str (some key) :: .colon :: (tokens value ++ memberTokens rest)

end

namespace Token

/-- Nothing more of a word follows. -/
def Ended (rest : List Char) : Prop :=
  ∀ char ∈ rest.head?, endsWord char = true

theorem enter?_isSome (char : Char) : ∃ step, enter? char = some step := by
  unfold enter?
  split
  · exact ⟨_, rfl⟩
  · split
    · exact ⟨_, rfl⟩
    · split <;> exact ⟨_, rfl⟩

theorem enter?_of_not_endsWord {char : Char} (inside : endsWord char = false) :
    enter? char = some ([], .inWord [char]) := by
  simp only [endsWord, Bool.or_eq_false_iff, Option.isSome_eq_false_iff, Option.isNone_iff_eq_none]
    at inside
  obtain ⟨⟨space, quote⟩, mark⟩ := inside
  simp [enter?, space, quote, mark]

theorem scanFrom_cons {place : Place} {char : Char} (tokens : List Token) (next : Place)
    (step : advance? place char = some (tokens, next)) (rest : List Char) :
    scanFrom place (char :: rest) = (scanFrom next rest).map (tokens ++ ·) := by
  simp [scanFrom, step]

theorem scanFrom_cons_nil {place : Place} {char : Char} (next : Place)
    (step : advance? place char = some ([], next)) (rest : List Char) :
    scanFrom place (char :: rest) = scanFrom next rest := by
  simp [scanFrom_cons [] next step]

theorem scanFrom_mark {char : Char} {token : Token} (plain : isSpace char = false)
    (quote : char ≠ '"') (mark : ofMark? char = some token) (rest : List Char) :
    scanFrom .between (char :: rest) = (scanFrom .between rest).map (token :: ·) := by
  rw [scanFrom_cons [token] .between]
  · rfl
  · simp [advance?, enter?, plain, quote, mark]

section Words

theorem scanFrom_inWord {word : List Char} (inside : ∀ char ∈ word, endsWord char = false)
    (read rest : List Char) :
    scanFrom (.inWord read) (word ++ rest) = scanFrom (.inWord (word.reverse ++ read)) rest := by
  induction word generalizing read with
  | nil => rfl
  | cons char word ih =>
    have continues := inside char (by simp)
    rw [List.cons_append, scanFrom_cons_nil (.inWord (char :: read)),
      ih (fun other present => inside other (List.mem_cons_of_mem _ present))]
    · simp
    · simp [advance?, continues]

theorem scanFrom_endWord {word : List Char} {token : Token}
    (known : ofWord? word = some token) {rest : List Char} (ended : Ended rest) :
    scanFrom (.inWord word.reverse) rest = (scanFrom .between rest).map (token :: ·) := by
  cases rest with
  | nil => simp [scanFrom, known]
  | cons char rest =>
    obtain ⟨⟨tokens, next⟩, entered⟩ := enter?_isSome char
    have ends := ended char (by simp)
    have step : advance? .between char = some (tokens, next) := entered
    rw [scanFrom_cons (token :: tokens) next, scanFrom_cons tokens next step]
    · simp [Option.map_map, Function.comp_def]
    · simp [advance?, ends, known, entered]

theorem scanFrom_word {word : List Char} {token : Token} (some_char : word ≠ [])
    (inside : ∀ char ∈ word, endsWord char = false) (known : ofWord? word = some token)
    {rest : List Char} (ended : Ended rest) :
    scanFrom .between (word ++ rest) = (scanFrom .between rest).map (token :: ·) := by
  cases word with
  | nil => exact absurd rfl some_char
  | cons char word =>
    have entered : advance? .between char = some ([], .inWord [char]) :=
      enter?_of_not_endsWord (inside char (by simp))
    rw [List.cons_append, scanFrom_cons_nil (.inWord [char]) entered,
      scanFrom_inWord (fun other present => inside other (List.mem_cons_of_mem _ present)),
      ← List.reverse_cons, scanFrom_endWord known ended]

end Words

section Texts

theorem characters?_cons (char : Char) (codes : List Nat) :
    characters? (char.toNat :: codes) = (characters? codes).map (char :: ·) := by
  have valid := char.valid
  have whole : (isHighSurrogate char.toNat || isLowSurrogate char.toNat) = false := by
    unfold isHighSurrogate isLowSurrogate
    change Nat.isValidChar char.toNat at valid
    unfold Nat.isValidChar at valid
    grind
  obtain ⟨high, low⟩ := Bool.or_eq_false_iff.mp whole
  cases codes with
  | nil => simp [characters?, high, low]
  | cons next rest => simp [characters?, high, low]

theorem characters?_map_toNat (chars : List Char) :
    characters? (chars.map Char.toNat) = some chars := by
  induction chars with
  | nil => rfl
  | cons char rest ih => rw [List.map_cons, characters?_cons, ih, Option.map_some]

theorem scanFrom_escape (char : Char) (codes : List Nat) (rest : List Char) :
    scanFrom (.inString codes) (Printer.escape char ++ rest) =
      scanFrom (.inString (char.toNat :: codes)) rest := by
  have short (mark meant : Char) (read : unescape? mark = some meant) (notCode : mark ≠ 'u') :
      scanFrom (.inString codes) ('\\' :: mark :: rest) =
        scanFrom (.inString (meant.toNat :: codes)) rest := by
    rw [scanFrom_cons_nil (.afterBackslash codes) (by simp [advance?]),
      scanFrom_cons_nil (.inString (meant.toNat :: codes))
        (by simp [advance?, notCode, read])]
  unfold Printer.escape
  split
  · rename_i quote
    subst quote
    exact short '"' '"' rfl (by decide)
  · rename_i not_quote
    split
    · rename_i backslash
      subst backslash
      exact short '\\' '\\' rfl (by decide)
    · rename_i not_backslash
      split
      · rename_i same
        subst same
        exact short 'b' '\x08' rfl (by decide)
      split
      · rename_i same
        subst same
        exact short 'f' '\x0c' rfl (by decide)
      split
      · rename_i same
        subst same
        exact short 'n' '\n' rfl (by decide)
      split
      · rename_i same
        subst same
        exact short 'r' '\r' rfl (by decide)
      split
      · rename_i same
        subst same
        exact short 't' '\t' rfl (by decide)
      split
      · rename_i control
        have high := Text.hexDigit?_hexDigit (char.toNat / 16) (by omega)
        have low := Text.hexDigit?_hexDigit (char.toNat % 16) (by omega)
        have zero : Text.hexDigit? '0' = some 0 := by decide
        have code : char.toNat / 16 * 16 + char.toNat % 16 = char.toNat := by omega
        simp only [List.cons_append, List.nil_append]
        rw [scanFrom_cons_nil (.afterBackslash codes) (by simp [advance?]),
          scanFrom_cons_nil (.inCode codes 0 0) (by simp [advance?]),
          scanFrom_cons_nil (.inCode codes 0 1) (by simp [advance?, zero]),
          scanFrom_cons_nil (.inCode codes 0 2) (by simp [advance?, zero]),
          scanFrom_cons_nil (.inCode codes (char.toNat / 16) 3)
            (by simp [advance?, high]),
          scanFrom_cons_nil (.inString (char.toNat :: codes))
            (by simp [advance?, low, code])]
      · rename_i printable
        exact scanFrom_cons_nil _ (by simp [advance?, not_quote, not_backslash, printable]) rest

theorem scanFrom_inString (chars : List Char) (codes : List Nat) (rest : List Char) :
    scanFrom (.inString codes) (chars.flatMap Printer.escape ++ rest) =
      scanFrom (.inString ((chars.map Char.toNat).reverse ++ codes)) rest := by
  induction chars generalizing codes with
  | nil => rfl
  | cons char chars ih =>
    rw [List.flatMap_cons, List.append_assoc, scanFrom_escape, ih]
    simp

theorem scanFrom_quote (text : String) (rest : List Char) :
    scanFrom .between (Printer.quote text ++ rest) =
      (scanFrom .between rest).map (.str (some text) :: ·) := by
  have read : characters? (text.toList.map Char.toNat) = some text.toList :=
    characters?_map_toNat text.toList
  simp only [Printer.quote, List.cons_append, List.append_assoc, List.nil_append]
  rw [scanFrom_cons_nil (.inString []) (by simp [advance?, enter?, isSpace]),
    scanFrom_inString, scanFrom_cons [.str (some text)] .between]
  · rfl
  · simp [advance?, read]

end Texts

section Literals

theorem endsWord_of_isDigit {char : Char} (digit : Text.isDigit char) : endsWord char = false := by
  rw [Text.isDigit_eq, Char.isDigit, Bool.and_eq_true, decide_eq_true_eq, decide_eq_true_eq] at digit
  have bounds : 48 ≤ char.toNat ∧ char.toNat ≤ 57 := digit
  have digits : ∀ code ≤ 57, 48 ≤ code → endsWord (Char.ofNat code) = false := by decide
  rw [← Char.ofNat_toNat char]
  exact digits char.toNat bounds.2 bounds.1

theorem endsWord_of_mem_whole {value : Int} {char : Char} (present : char ∈ Printer.whole value) :
    endsWord char = false := by
  cases value with
  | ofNat size => exact endsWord_of_isDigit (Text.isDigit_of_mem_decimal present)
  | negSucc before =>
    rcases List.mem_cons.mp present with rfl | digit
    · decide
    · exact endsWord_of_isDigit (Text.isDigit_of_mem_decimal digit)

theorem wholePart?_decimal (size : Nat) :
    Number.wholePart? (Text.decimal size) = some (Text.decimal size, []) := by
  have digits : Number.digits? (Text.decimal size) = some (Text.decimal size, []) := by
    have all (char : Char) (present : char ∈ Text.decimal size) : Text.isDigit char :=
      Text.isDigit_of_mem_decimal present
    have ended : ∀ char ∈ ([] : List Char).head?, Text.isDigit char = false := by simp
    have taken := Text.takeWhile_digits all ended
    have dropped := Text.dropWhile_digits all ended
    rw [List.append_nil] at taken dropped
    unfold Number.digits?
    rw [taken, dropped]
    split
    · rename_i empty
      exact absurd empty (Text.decimal_ne_nil size)
    · rfl
  unfold Number.wholePart?
  split
  · rename_i rest zero
    rcases Nat.eq_zero_or_pos size with rfl | positive
    · rw [Text.decimal_zero] at zero
      cases zero
      rfl
    · exact absurd zero (Text.decimal_ne_zero_cons positive rest)
  · exact digits

theorem ofUnsigned?_decimal (negative : Bool) (size : Nat) :
    Number.ofUnsigned? negative (Text.decimal size) =
      some ⟨negative, Text.decimal size, none, none⟩ := by
  simp [Number.ofUnsigned?, wholePart?_decimal, Number.fraction?, Number.exponent?]

theorem ofWord?_decimal (size : Nat) : Number.ofWord? (Text.decimal size) =
    some ⟨false, Text.decimal size, none, none⟩ := by
  unfold Number.ofWord?
  split
  · rename_i rest minus
    have present : '-' ∈ Text.decimal size := by simp [minus]
    exact absurd (Text.isDigit_of_mem_decimal present) (by decide)
  · exact ofUnsigned?_decimal false size

theorem value?_unsigned {digits : List Char} (word : List Char)
    (room : Text.digitsValue digits < UInt64.size) :
    (⟨false, digits, none, none⟩ : Number).value? word = some (.int (Text.digitsValue digits)) :=
  if_pos room

theorem value?_negative {digits : List Char} (word : List Char)
    (room : ¬ (Text.digitsValue digits = 0 ∨ UInt64.size / 2 < Text.digitsValue digits)) :
    (⟨true, digits, none, none⟩ : Number).value? word = some (.int (-(Text.digitsValue digits : Int))) :=
  if_neg room

theorem numberOfWord?_whole {value : Int} (fits : fitsWord value) :
    (Number.ofWord? (Printer.whole value)).map (fun number =>
      Token.atom (number.value? (Printer.whole value))) = some (.atom (some (.int value))) := by
  simp only [fitsWord, decide_eq_true_eq] at fits
  cases value with
  | ofNat size =>
    have room : size < UInt64.size := by
      have bound : (size : Int) < UInt64.size := fits.2
      omega
    have read : Text.digitsValue (Text.decimal size) = size := Text.digitsValue_decimal size
    rw [Printer.whole, ofWord?_decimal, Option.map_some, value?_unsigned _ (by omega), read]
    rfl
  | negSucc before =>
    have room : ¬ UInt64.size / 2 < before + 1 := by
      have bound : -((UInt64.size / 2 : Nat) : Int) ≤ Int.negSucc before := fits.1
      omega
    have read : Number.ofWord? ('-' :: Text.decimal (before + 1)) =
        some ⟨true, Text.decimal (before + 1), none, none⟩ := ofUnsigned?_decimal true (before + 1)
    have size : -((before : Int) + 1) = Int.negSucc before := rfl
    have value : Text.digitsValue (Text.decimal (before + 1)) = before + 1 :=
      Text.digitsValue_decimal (before + 1)
    rw [Printer.whole, read, Option.map_some, value?_negative _ (by omega), value]
    exact congrArg (fun value => some (Token.atom (some (Json.int value)))) size

theorem ofWord?_whole {value : Int} (fits : fitsWord value) :
    ofWord? (Printer.whole value) = some (.atom (some (.int value))) := by
  have number := numberOfWord?_whole fits
  have other (word : List Char) (char : Char) (letter : char ∈ word)
      (notDigit : Text.isDigit char = false) (notMinus : char ≠ '-') :
      Printer.whole value ≠ word := by
    rintro rfl
    cases value with
    | ofNat size => simp [Text.isDigit_of_mem_decimal letter] at notDigit
    | negSucc before =>
      rcases List.mem_cons.mp letter with minus | digit
      · exact notMinus minus
      · simp [Text.isDigit_of_mem_decimal digit] at notDigit
  have not_null := other "null".toList 'n' (by simp) (by decide) (by decide)
  have not_true := other "true".toList 't' (by simp) (by decide) (by decide)
  have not_false := other "false".toList 'f' (by simp) (by decide) (by decide)
  unfold ofWord?
  rw [if_neg not_null, if_neg not_true, if_neg not_false, number]

end Literals

section Values

/-- A text that is cut into tokens whatever follows, as long as it ends a word. -/
def CutsInto (text : List Char) (tokens : List Token) : Prop :=
  ∀ rest, Ended rest →
    scanFrom .between (text ++ rest) = (scanFrom .between rest).map (tokens ++ ·)

theorem cutsInto_word {word : List Char} {token : Token} (some_char : word ≠ [])
    (inside : ∀ char ∈ word, endsWord char = false) (known : ofWord? word = some token) :
    CutsInto word [token] :=
  fun _ ended => scanFrom_word some_char inside known ended

theorem cutsInto_literal {word : List Char} {token : Token} (some_char : word ≠ [])
    (inside : word.all (fun char => !endsWord char) = true) (known : ofWord? word = some token) :
    CutsInto word [token] := by
  refine cutsInto_word some_char (fun char present => ?_) known
  simpa using List.all_eq_true.mp inside char present

theorem ended_cons {char : Char} (ends : endsWord char = true) (rest : List Char) :
    Ended (char :: rest) := by
  intro other present
  cases present
  exact ends

theorem ended_itemChars (items : List Json) (rest : List Char) :
    Ended (Printer.itemChars items ++ rest) := by
  cases items with
  | nil => exact ended_cons (by decide) rest
  | cons item others => exact ended_cons (by decide) _

theorem ended_memberChars (members : List (String × Json)) (rest : List Char) :
    Ended (Printer.memberChars members ++ rest) := by
  cases members with
  | nil => exact ended_cons (by decide) rest
  | cons member others => exact ended_cons (by decide) _

theorem scanFrom_member {key : String} {text : List Char} {read : List Token}
    (cut : CutsInto text read) {rest : List Char} (ended : Ended rest) :
    scanFrom .between (Printer.quote key ++ ':' :: (text ++ rest)) =
      (scanFrom .between rest).map (.str (some key) :: .colon :: read ++ ·) := by
  rw [scanFrom_quote, scanFrom_mark (by decide) (by decide) rfl, cut rest ended]
  simp [Option.map_map, Function.comp_def]

mutual

/-- A written value is cut into its tokens. -/
theorem cutsInto_chars : ∀ value : Json, isPlain value = true →
    CutsInto (Printer.chars value) (Json.tokens value)
  | .null, _ => cutsInto_literal (by decide) (by decide) rfl
  | .bool true, _ => cutsInto_literal (by decide) (by decide) rfl
  | .bool false, _ => cutsInto_literal (by decide) (by decide) rfl
  | .int value, plain => by
    rw [isPlain] at plain
    refine cutsInto_word ?_ (fun _ present => endsWord_of_mem_whole present) (ofWord?_whole plain)
    cases value <;> simp [Printer.chars, Printer.whole, Text.decimal_ne_nil]
  | .real literal, plain => by
    rw [isPlain] at plain
    cases plain
  | .str text, _ => fun rest _ => scanFrom_quote text rest
  | .arr [], _ => fun rest _ => by
    simp only [Printer.chars, List.cons_append, List.nil_append, Json.tokens]
    rw [scanFrom_mark (by decide) (by decide) rfl, scanFrom_mark (by decide) (by decide) rfl]
    simp [Option.map_map, Function.comp_def]
  | .arr (item :: items), plain => fun rest ended => by
    rw [isPlain, arePlain, Bool.and_eq_true] at plain
    simp only [Printer.chars, List.cons_append, List.append_assoc, Json.tokens]
    rw [scanFrom_mark (by decide) (by decide) rfl,
      cutsInto_chars item plain.1 _ (ended_itemChars items rest),
      cutsInto_itemChars items plain.2 rest ended]
    simp [Option.map_map, Function.comp_def]
  | .obj [], _ => fun rest _ => by
    simp only [Printer.chars, List.cons_append, List.nil_append, Json.tokens]
    rw [scanFrom_mark (by decide) (by decide) rfl, scanFrom_mark (by decide) (by decide) rfl]
    simp [Option.map_map, Function.comp_def]
  | .obj ((key, value) :: members), plain => fun rest ended => by
    rw [isPlain, havePlain, Bool.and_eq_true] at plain
    simp only [Printer.chars, List.cons_append, List.append_assoc, Json.tokens]
    rw [scanFrom_mark (by decide) (by decide) rfl,
      scanFrom_member (cutsInto_chars value plain.1) (ended_memberChars members rest),
      cutsInto_memberChars members plain.2 rest ended]
    simp [Option.map_map, Function.comp_def]

theorem cutsInto_itemChars : ∀ items : List Json, arePlain items = true →
    CutsInto (Printer.itemChars items) (Json.itemTokens items)
  | [], _ => fun rest _ => scanFrom_mark (by decide) (by decide) rfl rest
  | item :: items, plain => fun rest ended => by
    rw [arePlain, Bool.and_eq_true] at plain
    simp only [Printer.itemChars, List.cons_append, List.append_assoc, Json.itemTokens]
    rw [scanFrom_mark (by decide) (by decide) rfl,
      cutsInto_chars item plain.1 _ (ended_itemChars items rest),
      cutsInto_itemChars items plain.2 rest ended]
    simp [Option.map_map, Function.comp_def]

theorem cutsInto_memberChars : ∀ members : List (String × Json), havePlain members = true →
    CutsInto (Printer.memberChars members) (Json.memberTokens members)
  | [], _ => fun rest _ => scanFrom_mark (by decide) (by decide) rfl rest
  | (key, value) :: members, plain => fun rest ended => by
    rw [havePlain, Bool.and_eq_true] at plain
    simp only [Printer.memberChars, List.cons_append, List.append_assoc, Json.memberTokens]
    rw [scanFrom_mark (by decide) (by decide) rfl,
      scanFrom_member (cutsInto_chars value plain.1) (ended_memberChars members rest),
      cutsInto_memberChars members plain.2 rest ended]
    simp [Option.map_map, Function.comp_def]

end

end Values

/-- A rendered value is cut into the tokens that it was written with. -/
theorem scan_render {value : Json} (plain : isPlain value) :
    scan (render value) = some (Json.tokens value) := by
  have cut := cutsInto_chars value plain [] (by simp [Ended])
  simpa [scan, render, scanFrom] using cut

end Token

end AccessPolicy.Json
