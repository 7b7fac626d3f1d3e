import LoxLang.Proofs.Relocation.Reading
import LoxLang.Proofs.Texts
import Mathlib.Logic.Function.Basic

/-!
# The same text at another offset

A text is cut into the same tokens wherever it is read, and so it is read as the same program, or
has the same faults, at places that are as far from the beginning of the text
(`Program.read_relocate`). All these places lie within the text, so it is enough to know what is
done to them (`Program.read_shift`).
-/

namespace LoxLang

/-! ### Tokens -/

namespace Lexeme

open Shape Text

variable {φ : Nat → Nat}

/-- The same characters are cut into the same lexemes at another offset, as far as the offsets in
them are moved alike. -/
theorem scan_relocate {offset offset' : Nat} {cs : List Char}
    (hφ : ∀ n ≤ byteLength cs, φ (offset + n) = offset' + n) :
    scan offset' cs = (scan offset cs).map (relocate (Span.map φ)) := by
  induction offset, cs using scan_induction generalizing offset' with
  | nil offset => rw [scan, scan, List.map_nil]
  | cons offset c cs ih =>
    have hlength := byteLength_take_add_drop (longest c cs).2 cs
    have hstart := hφ 0 (Nat.zero_le _)
    have hstop := hφ (byteLength (c :: cs.take (longest c cs).2)) (by
      rw [byteLength_cons, byteLength_cons]
      omega)
    have hmoves (n : Nat) (hn : n ≤ byteLength (cs.drop (longest c cs).2)) :
        φ (offset + byteLength (c :: cs.take (longest c cs).2) + n) =
          offset' + byteLength (c :: cs.take (longest c cs).2) + n := by
      rw [Nat.add_assoc, Nat.add_assoc]
      refine hφ _ ?_
      rw [byteLength_cons, byteLength_cons]
      omega
    have hrest := ih hmoves
    rw [scan_cons, scan_cons, List.map_append, hrest]
    congr 1
    cases (longest c cs).1.token? (c :: cs.take (longest c cs).2) with
    | none => rfl
    | some t =>
      simp only [Nat.add_zero] at hstart
      simp only [Option.map_some, Option.toList_some, List.map_cons, List.map_nil, relocate,
        Span.map, hstart, hstop]

/-- What is read of a text at one place, at another one. -/
def relocateItem (f : Span → Span) : Except Fault Lexeme → Except Fault Lexeme
  | .ok x => .ok (x.relocate f)
  | .error e => .error (e.relocate f)

/-- Whether two spans touch is kept by a function that tells offsets apart. -/
theorem meets_relocate (hφ : Function.Injective φ) (x y : Lexeme) :
    (x.relocate (Span.map φ)).span.meets (y.relocate (Span.map φ)).span =
      x.span.meets y.span := by
  show (φ x.span.stop == φ y.span.start) = (x.span.stop == y.span.start)
  rw [Bool.eq_iff_iff, beq_iff_eq, beq_iff_eq]
  exact hφ.eq_iff

/-- The same stretches of unknown text are reported, as the same lexemes touch. -/
theorem report_relocate (hφ : Function.Injective φ) (stretch : Option Lexeme)
    (xs : List Lexeme) :
    report (stretch.map (relocate (Span.map φ))) (xs.map (relocate (Span.map φ))) =
      (report stretch xs).map (relocateItem (Span.map φ)) := by
  induction xs generalizing stretch with
  | nil => cases stretch <;> rfl
  | cons x rest ih =>
    have hnone := ih none
    have hsome (y : Lexeme) := ih (some y)
    rw [Option.map_none] at hnone
    simp only [Option.map_some] at hsome
    have hunclosed : (x.relocate (Span.map φ)).isUnclosed = x.isUnclosed := rfl
    have hunknown : (x.relocate (Span.map φ)).token = x.token := rfl
    cases stretch with
    | none =>
      rw [Option.map_none, List.map_cons, report, report, hunclosed, hunknown]
      split
      · rw [List.map_cons, hnone]
        rfl
      · split
        · exact hsome x
        · rw [List.map_cons, hnone]
          rfl
    | some y =>
      rw [Option.map_some, List.map_cons, report, report, hunknown, meets_relocate hφ]
      split
      · exact hsome (y.join x)
      · rw [List.map_cons, List.map_cons, hnone]
        rfl

/-- The same text is read as the same items at another offset. -/
theorem read_relocate (hφ : Function.Injective φ) {offset offset' : Nat} {source : String}
    (hmoves : ∀ n ≤ source.utf8ByteSize, φ (offset + n) = offset' + n) :
    read source offset' = (read source offset).map (relocateItem (Span.map φ)) := by
  unfold read
  rw [← byteLength_toList] at hmoves
  rw [scan_relocate hmoves]
  exact report_relocate hφ none _

end Lexeme

/-! ### Programs -/

namespace Program

variable {φ : Nat → Nat}

/-- The faults among moved items are the moved faults. -/
theorem faultsOf_relocate (f : Span → Span) (items : List (Except Fault Lexeme)) :
    faultsOf (items.map (Lexeme.relocateItem f)) = (faultsOf items).map (Fault.relocate f) := by
  unfold faultsOf
  rw [List.filterMap_map, List.map_filterMap]
  congr 1
  funext item
  cases item <;> rfl

/-- The tokens among moved items are the moved tokens. -/
theorem lexemesOf_relocate (f : Span → Span) (items : List (Except Fault Lexeme)) :
    lexemesOf (items.map (Lexeme.relocateItem f)) =
      (lexemesOf items).map (Lexeme.relocate f) := by
  unfold lexemesOf
  rw [List.filterMap_map, List.map_filterMap]
  congr 1
  funext item
  cases item <;> rfl

/-- A text that is read elsewhere is read as the same program, or has the same faults. -/
theorem read_relocate (hφ : Function.Injective φ) {offset offset' : Nat} {source : String}
    (hmoves : ∀ n ≤ source.utf8ByteSize, φ (offset + n) = offset' + n) :
    read source offset' = relocateResult (Span.map φ) (read source offset) := by
  unfold read
  rw [Lexeme.read_relocate hφ hmoves]
  simp only [faultsOf_relocate, lexemesOf_relocate, ← hmoves _ (Nat.le_refl _),
    ofLexemes_relocate]
  cases ofLexemes (lexemesOf (Lexeme.read source offset))
      (offset + source.utf8ByteSize) with
  | ok p =>
    cases faultsOf (Lexeme.read source offset) <;> rfl
  | error faults =>
    simp only [relocateResult, List.map_append]

/-- The offsets between two bounds are kept, and all others are moved away. -/
def pinned (lo hi n : Nat) : Nat := if lo ≤ n ∧ n ≤ hi then n else n + hi + 1

/-- The offsets of a range are the only ones that are left where they are. -/
theorem pinned_eq_self {lo hi n : Nat} : pinned lo hi n = n ↔ lo ≤ n ∧ n ≤ hi := by
  unfold pinned
  split <;> omega

theorem pinned_injective (lo hi : Nat) : Function.Injective (pinned lo hi) := by
  intro m n h
  unfold pinned at h
  split at h <;> split at h <;> omega

/-- A text that is read further on is read as the same program, or has the same faults, with all
spans that far on. Only spans within the text matter. -/
theorem read_shift {f : Span → Span} {offset k : Nat} {source : String}
    (hf : ∀ s : Span, offset ≤ s.start → s.start ≤ offset + source.utf8ByteSize →
      offset ≤ s.stop → s.stop ≤ offset + source.utf8ByteSize → f s = s.shift k) :
    read source (offset + k) = relocateResult f (read source offset) := by
  have hshift : read source (offset + k) =
      relocateResult (Span.map (· + k)) (read source offset) :=
    read_relocate (fun _ _ ↦ Nat.add_right_cancel) fun n _ ↦ by omega
  have hpinned : relocateResult (Span.map (pinned offset (offset + source.utf8ByteSize)))
      (read source offset) = read source offset :=
    (read_relocate (pinned_injective _ _) fun n hn ↦ pinned_eq_self.2 (by omega)).symm
  rw [hshift]
  refine relocateResult_congr (fun s hs ↦ ?_) hpinned
  obtain ⟨hlo, hhi⟩ := pinned_eq_self.1 (congrArg Span.start hs)
  obtain ⟨hlo', hhi'⟩ := pinned_eq_self.1 (congrArg Span.stop hs)
  exact (hf s hlo hhi hlo' hhi').symm

end Program

end LoxLang
