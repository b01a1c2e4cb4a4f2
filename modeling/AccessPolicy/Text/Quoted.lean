import AccessPolicy.Text.Printable

/-!
Texts in double quotes, with escapes for quotes, backslashes and characters that do not show.
-/
namespace AccessPolicy.Text

/-- An escape by the number of the character, in hexadecimal digits. -/
def numberEscape (char : Char) : List Char :=
  '\\' :: 'u' :: '\x7b' :: (Nat.toDigits 16 char.toNat ++ ['\x7d'])

def escapeChar (char : Char) : List Char :=
  match char with
  | '"' => ['\\', '"']
  | '\\' => ['\\', '\\']
  | '\n' => ['\\', 'n']
  | '\r' => ['\\', 'r']
  | '\t' => ['\\', 't']
  | '\x00' => ['\\', '0']
  | _ => if isPrintable char then [char] else numberEscape char

def quoted (text : String) : String :=
  String.ofList ('"' :: (text.toList.flatMap escapeChar ++ ['"']))

end AccessPolicy.Text
