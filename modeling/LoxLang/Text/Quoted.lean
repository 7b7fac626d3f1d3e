import LoxLang.Text.Extending
import LoxLang.Text.Printable

/-!
# Quoted text

Names and lexemes are shown in messages between double quotes. What would end the quotation, would
break the line or cannot be seen is escaped: the quote and the backslash by a backslash, the
common controls by their letters, and any other character that is not printable, or that would be
drawn onto its predecessor, by its code point in hexadecimal.
-/

namespace LoxLang.Text

/-- A character by its code point, as a backslash, a `u` and hexadecimal digits in braces. -/
def escapeCode (c : Char) : List Char :=
  ['\\', 'u', '\x7b'] ++ Nat.toDigits 16 c.toNat ++ ['\x7d']

/-- A character as it stands in a quotation. -/
def escape (c : Char) : List Char :=
  match c with
  | '"' => ['\\', '"']
  | '\\' => ['\\', '\\']
  | '\n' => ['\\', 'n']
  | '\r' => ['\\', 'r']
  | '\t' => ['\\', 't']
  | '\x00' => ['\\', '0']
  | c => if isExtending c || !isPrintable c then escapeCode c else [c]

/-- A text between double quotes. -/
def quoted (s : String) : String :=
  String.ofList ('"' :: s.toList.flatMap escape ++ ['"'])

end LoxLang.Text
