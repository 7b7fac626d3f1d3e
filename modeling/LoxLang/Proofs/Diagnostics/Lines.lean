import LoxLang.Proofs.Texts
import LoxLang.Report

/-!
# The lines of places

The line of a place is one more than the number of line breaks before it (`lineOf_eq`). So it does
not change when more text follows, and where a text stands behind others it is the line in that text
and the line breaks of the others.
-/

namespace LoxLang

namespace Text

/-- The number of line breaks before `n` among characters that start at an offset. -/
def breaksFrom (offset n : Nat) (cs : List Char) : Nat :=
  (withOffsets offset cs).countP fun (i, c) ↦ i < n && c == '\n'

theorem breaksFrom_cons (offset n : Nat) (c : Char) (cs : List Char) :
    breaksFrom offset n (c :: cs) =
      breaksFrom (offset + c.utf8Size) n cs + if offset < n ∧ c = '\n' then 1 else 0 := by
  simp [breaksFrom, withOffsets, List.countP_cons]

/-- Characters that end before `n` have all their line breaks before it. -/
theorem breaksFrom_append {offset n : Nat} {cs : List Char} (h : offset + byteLength cs ≤ n)
    (ds : List Char) :
    breaksFrom offset n (cs ++ ds) = cs.count '\n' + breaksFrom (offset + byteLength cs) n ds := by
  induction cs generalizing offset with
  | nil => simp
  | cons c cs ih =>
    have hpos := c.utf8Size_pos
    rw [byteLength_cons, ← Nat.add_assoc] at h ⊢
    have hlt : offset < n := by omega
    rw [List.cons_append, breaksFrom_cons, ih h, List.count_cons]
    simp only [hlt, true_and, beq_iff_eq]
    omega

/-- Characters that start at `n` or behind it have no line breaks before it. -/
theorem breaksFrom_eq_zero {offset n : Nat} (h : n ≤ offset) (cs : List Char) :
    breaksFrom offset n cs = 0 := by
  induction cs generalizing offset with
  | nil => rfl
  | cons c cs ih =>
    rw [breaksFrom_cons, ih (Nat.le_add_right_of_le h)]
    simp [Nat.not_lt.2 h]

/-- The line breaks before an offset are those of the text up to there. -/
theorem breaksBefore_eq {text : String} {before after : List Char}
    (h : text.toList = before ++ after) :
    breaksBefore text (byteLength before) = before.count '\n' := by
  have hend : 0 + byteLength before = byteLength before := Nat.zero_add _
  show breaksFrom 0 (byteLength before) text.toList = _
  rw [h, breaksFrom_append (Nat.le_of_eq hend), breaksFrom_eq_zero (Nat.le_of_eq hend.symm)]
  rfl

end Text

open Text

/-- The line of a place is one more than the number of line breaks before it. -/
theorem lineOf_eq {source : String} {span : Span} {before after : List Char}
    (h : source.toList = before ++ after) (hstart : span.start = byteLength before) :
    lineOf source span = 1 + before.count '\n' := by
  have hle : span.start ≤ source.utf8ByteSize := by
    rw [← byteLength_toList, h, byteLength_append, hstart]
    exact Nat.le_add_right ..
  rw [lineOf, Nat.min_eq_left hle, hstart, breaksBefore_eq h, Nat.add_comm]

end LoxLang
