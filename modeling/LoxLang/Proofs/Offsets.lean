import LoxLang.Proofs.Relocation.Names
import LoxLang.Proofs.Relocation.Texts

/-!
# Offsets

The offset at which a text is read is added to all of its places and to nothing else. So the tokens
and faults of a text at an offset, its program or the faults of its grammar, and the distances or
faults that the scopes of the program give, are those of the text at offset zero, moved by that much
(`Program.read_offset`).
-/

namespace LoxLang

/-- What the scopes of a program give, with each span replaced. -/
def Distances.relocateResult (f : Span → Span) :
    Except (List Fault) Distances → Except (List Fault) Distances
  | .ok table => .ok (table.relocate f)
  | .error faults => .error (faults.map (Fault.relocate f))

/-- Adding to both ends is moving. -/
theorem Span.map_add (k : Nat) : Span.map (· + k) = Span.shift k := rfl

namespace Lexeme

theorem read_shift (source : String) (offset k : Nat) :
    read source (offset + k) = (read source offset).map (relocateItem (Span.shift k)) := by
  rw [← Span.map_add]
  exact read_relocate (fun _ _ ↦ Nat.add_right_cancel) fun n _ ↦ Nat.add_right_comm offset n k

end Lexeme

namespace Program

/-- The scopes of a program give the same wherever the program stands. -/
theorem distances_shift (globals : List String) (k : Nat) (p : Program) :
    (p.relocate (Span.shift k)).distances globals =
      Distances.relocateResult (Span.shift k) (p.distances globals) := by
  rw [distances_relocate]
  cases p.distances globals <;> rfl

/-- At an offset `k` a text is cut into the same tokens and faults as at offset zero, is read as the
same program or refused for the same faults, and if it is read, the walk over the scopes finds the
same distances or the same faults: only that every span is moved by `k`, be it that of a token, a
fault, the end of the text, a node of the program, a name in it or a key of the distances. -/
theorem read_offset (source : String) (k : Nat) :
    Lexeme.read source k = (Lexeme.read source 0).map (Lexeme.relocateItem (Span.shift k)) ∧
    read source k = relocateResult (Span.shift k) (read source 0) ∧
    ∀ globals : List String,
      ((read source k).bind fun p ↦ p.distances globals) =
        Distances.relocateResult (Span.shift k)
          ((read source 0).bind fun p ↦ p.distances globals) := by
  have hitems := Lexeme.read_shift source 0 k
  have hread : read source (0 + k) = relocateResult (Span.shift k) (read source 0) :=
    read_shift fun _ _ _ _ _ ↦ rfl
  rw [Nat.zero_add] at hitems hread
  refine ⟨hitems, hread, fun globals ↦ ?_⟩
  rw [hread]
  cases read source 0 with
  | ok p => exact p.distances_shift globals k
  | error faults => rfl

end Program

end LoxLang
