/-!
# Sets of characters as ranges of code points

A property of characters is kept as the list of its ranges, each with both ends included and in
ascending order. Order is what lets `inRanges` stop at the first range that starts beyond the
code point it looks for, so the common characters, which have small code points, are decided by
the first few entries of a table.
-/

namespace LoxLang.Text

/-- Whether `n` lies in one of the ranges, which are in ascending order. -/
def inRanges (n : Nat) : List (Nat × Nat) → Bool
  | [] => false
  | (lo, hi) :: rest => if n < lo then false else n ≤ hi || inRanges n rest

end LoxLang.Text
