import LoxLang.Proofs.Grammar.Else
import LoxLang.Proofs.Tokens

/-!
# The programs of texts

A text is a program exactly if it holds no unknown text and its tokens are derived from the grammar
(`read_eq_ok`). So the program of two texts with a line break between them is the program of the
first followed by that of the second (`read_append`).
-/

namespace LoxLang

namespace Grammar

variable {rule : ElseRule}

/-- A derivation does not look at what follows the tokens that it leaves. -/
theorem Derives.frame {s : Symbol} {ts us : List Lexeme} {t : s.Tree}
    (h : Derives rule s ts t us) (vs : List Lexeme) : Derives rule s (ts ++ vs) t (us ++ vs) := by
  induction h with
  | declStmt _ ihd => exact .declStmt ihd
  | initExpr _ hs ihv => exact .initExpr ihv hs
  | _ => constructor <;> assumption

/-- Declarations are followed by more declarations. -/
theorem Derives.decls_append {s : Symbol} {ts us vs : List Lexeme} {t : s.Tree} {ds : List Stmt}
    (h : Derives rule s ts t us) (hs : s = .decls) (hds : Derives rule .decls us ds vs) :
    Derives rule .decls ts ((cast (congrArg Symbol.Tree hs) t : List Stmt) ++ ds) vs := by
  induction h with
  | declsNil => exact hds
  | declsCons hd _ _ ihds => exact .declsCons hd (ihds rfl hds)
  | _ => cases hs

/-- Two programs one after the other are a program. -/
theorem IsProgram.append {ts us : List Lexeme} {p q : Program} (hp : IsProgram rule ts p)
    (hq : IsProgram rule us q) : IsProgram rule (ts ++ us) (p ++ q) :=
  (Derives.frame hp us).decls_append rfl hq

end Grammar

open Grammar Lexeme

theorem Text.byteLength_toList (s : String) : byteLength s.toList = s.utf8ByteSize := by
  obtain ⟨cs, rfl⟩ : ∃ cs, String.ofList cs = s := ⟨s.toList, String.ofList_toList⟩
  rw [String.toList_ofList]
  induction cs with
  | nil => rfl
  | cons c cs ih =>
    rw [byteLength_cons, ih, ← List.singleton_append, String.ofList_append,
      String.utf8ByteSize_append]
    congr 1
    exact (String.utf8ByteSize_singleton (c := c)).symm

namespace Program

theorem faultsOf_append (xs ys : List (Except Fault Lexeme)) :
    faultsOf (xs ++ ys) = faultsOf xs ++ faultsOf ys := List.filterMap_append

theorem lexemesOf_append (xs ys : List (Except Fault Lexeme)) :
    lexemesOf (xs ++ ys) = lexemesOf xs ++ lexemesOf ys := List.filterMap_append

theorem faultsOf_map_ok (xs : List Lexeme) : faultsOf (xs.map .ok) = [] := by
  simp [faultsOf, List.filterMap_map]

theorem lexemesOf_map_ok (xs : List Lexeme) : lexemesOf (xs.map .ok) = xs := by
  simp [lexemesOf, List.filterMap_map]

/-- A text is a program if all of it is known and its tokens are a program. -/
theorem read_eq_ok {source : String} {offset : Nat} {p : Program} :
    read source offset = .ok p ↔
      (∀ x ∈ scan offset source.toList, x.token.isUnknown = false) ∧
        IsProgram .nearest (scan offset source.toList) p := by
  constructor
  · intro h
    unfold read at h
    simp only at h
    split at h
    · rename_i q hq
      split at h
      · rename_i hnoted
        obtain rfl := Except.ok.inj h
        obtain ⟨heq, hknown⟩ := of_faultsOf_report (List.isEmpty_iff.1 hnoted)
        rw [Lexeme.read, heq, lexemesOf_map_ok] at hq
        exact ⟨hknown, isProgram_of_ofLexemes hq⟩
      · cases h
    · cases h
  · rintro ⟨hknown, hp⟩
    simp only [read, Lexeme.read, report_of_known hknown, lexemesOf_map_ok, faultsOf_map_ok,
      hp.ofLexemes]
    rfl

/-- The program of two texts with a line break between them. -/
theorem read_append {a b : String} {offset : Nat} {p q : Program} (hp : read a offset = .ok p)
    (hq : read b (offset + a.utf8ByteSize + 1) = .ok q) :
    read (a ++ "\n" ++ b) offset = .ok (p ++ q) := by
  obtain ⟨hknown, hp⟩ := read_eq_ok.1 hp
  obtain ⟨hknown', hq⟩ := read_eq_ok.1 hq
  have hscan := scan_append hknown b.toList
  rw [Text.byteLength_toList] at hscan
  have htext : (a ++ "\n" ++ b).toList = a.toList ++ '\n' :: b.toList := by simp
  rw [read_eq_ok, htext, hscan]
  refine ⟨fun x hx ↦ ?_, hp.append hq⟩
  rcases List.mem_append.1 hx with hx | hx
  · exact hknown x hx
  · exact hknown' x hx

end Program

end LoxLang
