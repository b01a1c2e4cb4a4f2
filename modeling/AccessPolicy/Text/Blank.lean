/-!
Blank characters and trimming.
-/
namespace AccessPolicy.Text

/-- The characters with the Unicode property White_Space. -/
def isBlank (char : Char) : Bool :=
  let code := char.toNat
  (0x09 ≤ code && code ≤ 0x0D) || code == 0x20 || code == 0x85 || code == 0xA0 || code == 0x1680 ||
    (0x2000 ≤ code && code ≤ 0x200A) || code == 0x2028 || code == 0x2029 || code == 0x202F ||
    code == 0x205F || code == 0x3000

theorem isBlank_of_isWhitespace {char : Char} (blank : char.isWhitespace) : isBlank char := by
  simp only [Char.isWhitespace, Bool.or_eq_true, decide_eq_true_eq] at blank
  rcases blank with ((rfl | rfl) | rfl) | rfl <;> decide

def trimStart (text : List Char) : List Char :=
  text.dropWhile isBlank

def trimList (text : List Char) : List Char :=
  (trimStart (trimStart text).reverse).reverse

def trim (text : String) : String :=
  String.ofList (trimList text.toList)

/-- A text of blank characters alone, the empty one included. -/
def isBlankText (text : String) : Bool :=
  text.toList.all isBlank

end AccessPolicy.Text
