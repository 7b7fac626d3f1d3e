import LoxLang.Text.Ranges

/-!
# Blank characters

The white space of Unicode: the characters that separate words and lines. A text that holds
nothing else is blank.
-/

namespace LoxLang.Text

/-- Code points with the property White_Space. -/
def blankRanges : List (Nat × Nat) := [
  (0x9, 0xD), (0x20, 0x20), (0x85, 0x85), (0xA0, 0xA0), (0x1680, 0x1680), (0x2000, 0x200A),
  (0x2028, 0x2029), (0x202F, 0x202F), (0x205F, 0x205F), (0x3000, 0x3000)]

/-- Whether a character is white space. -/
def isBlank (c : Char) : Bool :=
  inRanges c.toNat blankRanges

/-- Whether a text holds white space only. -/
def allBlank (s : String) : Bool :=
  s.toList.all isBlank

end LoxLang.Text
