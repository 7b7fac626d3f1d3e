import LoxLang.Program.Equality
import LoxLang.Proofs.Fragments.Scanning
import LoxLang.Proofs.Fragments.Segments

/-!
# Parts of a program read alone

The span of a node says exactly which part of the text the node is. The text under the span of an
expression, with a semicolon behind it, is read where it stands as that expression and nothing else,
with all of its spans; the text under the span of a statement is read as that statement
(`Program.read_slice`).

The node has tokens of its own, which derive it without those around them, and these tokens are
scanned as well from the text that they stand in.
-/

namespace LoxLang

open Grammar Lexeme Text

/-- A span leaves no choice of the text under it. -/
theorem Text.Slice.eq {offset : Nat} {cs u v : List Char} {s : Span} (hu : Slice offset cs s u)
    (hv : Slice offset cs s v) : u = v := by
  obtain ⟨before, after, hcs, hs⟩ := hu
  obtain ⟨before', after', hcs', hs'⟩ := hv
  obtain ⟨hstart, hstop⟩ := Span.mk.inj (hs.symm.trans hs')
  have hfront : before <+: cs := ⟨u ++ after, by rw [hcs, List.append_assoc]⟩
  have hfront' : before' <+: cs := ⟨v ++ after', by rw [hcs', List.append_assoc]⟩
  obtain rfl : before = before' := eq_of_front_of_byteLength hfront hfront' (by omega)
  have hboth : before ++ u = before ++ v :=
    eq_of_front_of_byteLength ⟨after, hcs.symm⟩ ⟨after', hcs'.symm⟩ (by
      rw [byteLength_append, byteLength_append]
      omega)
  exact List.append_cancel_left hboth

namespace Program

/-- The semicolon that makes a statement of an expression. -/
theorem scan_semicolon (offset : Nat) :
    scan offset [';'] = [place offset [';'] (.mark .semicolon)] :=
  scan_of_spelled (.sign (by decide)) rfl offset

variable {source : String} {offset : Nat} {p : Program}

/-- The tokens of a program that stand next to one another stand in a text, from which they are
scanned alone and with a semicolon behind it. -/
theorem exists_slice_of_segment (h : read source offset = .ok p) {pre seg post : List Lexeme}
    {s : Span} (hscan : scan offset source.toList = pre ++ (seg ++ post)) (hfits : Fits seg s) :
    (∀ x ∈ seg, x.token.isUnknown = false) ∧
      ∃ text : String, Slice offset source.toList s text.toList ∧
        scan s.start text.toList = seg ∧
        scan s.start (text ++ ";").toList = seg ++ [place s.stop [';'] (.mark .semicolon)] := by
  have hknown (x : Lexeme) (hx : x ∈ seg) : x.token.isUnknown = false :=
    (read_eq_ok.1 h).1 x (by simp [hscan, hx])
  obtain ⟨text, hslice, htail⟩ := exists_slice_of_scan hscan hknown hfits.1 hfits.2
  refine ⟨hknown, String.ofList text, ?_, ?_, ?_⟩
  · rwa [String.toList_ofList]
  · have halone := htail [] (.inl rfl)
    rwa [List.append_nil, scan, List.append_nil, ← String.toList_ofList (l := text)] at halone
  · rw [String.toList_append, String.toList_ofList, ← scan_semicolon]
    exact htail [';'] (.inr rfl)

/-- The span of a node reaches over a part of the text. The part under an expression, with a
semicolon behind it, is read where it stands as one statement, which is that expression, and the
part under a statement is read where it stands as that statement. -/
theorem read_slice (h : read source offset = .ok p) :
    (∀ e, Node.expr e ∈ (p.map Node.stmt).flatMap Node.nodes →
      (∃ text : String, Slice offset source.toList e.span text.toList) ∧
        ∀ text : String, Slice offset source.toList e.span text.toList →
          read (text ++ ";") e.span.start =
            .ok [.expression ⟨e.span.start, e.span.stop + 1⟩ e]) ∧
    ∀ d, Node.stmt d ∈ (p.map Node.stmt).flatMap Node.nodes →
      (∃ text : String, Slice offset source.toList d.span text.toList) ∧
        ∀ text : String, Slice offset source.toList d.span text.toList →
          read text d.span.start = .ok [d] := by
  have hprogram := (read_eq_ok.1 h).2
  refine ⟨fun e he ↦ ?_, fun d hd ↦ ?_⟩
  · obtain ⟨pre, seg, post, hscan, hfits, hderives⟩ := hprogram.exists_segment_expr he
    obtain ⟨hknown, text, hslice, -, hread⟩ := exists_slice_of_segment h hscan hfits
    refine ⟨⟨text, hslice⟩, fun other hother ↦ ?_⟩
    obtain rfl := String.toList_injective (hslice.eq hother)
    refine read_eq_ok.2 ⟨fun x hx ↦ ?_, ?_⟩
    · rw [hread] at hx
      rcases List.mem_append.1 hx with hx | hx
      · exact hknown x hx
      · rw [List.mem_singleton.1 hx]
        rfl
    · rw [hread]
      exact .declsCons (.declStmt (.exprStmt (hderives.frame _) rfl)) .declsNil
  · obtain ⟨pre, seg, post, hscan, hfits, hderives⟩ := hprogram.exists_segment_stmt hd
    obtain ⟨hknown, text, hslice, hread, -⟩ := exists_slice_of_segment h hscan hfits
    refine ⟨⟨text, hslice⟩, fun other hother ↦ ?_⟩
    obtain rfl := String.toList_injective (hslice.eq hother)
    rw [read_eq_ok, hread]
    exact ⟨hknown, .declsCons hderives .declsNil⟩

/-- The condition and the branch of a conditional. -/
theorem read_slice_conditional :
    (∃ p, read "if (x) y;" 3 = .ok p) ∧
      read ("x" ++ ";") 7 = .ok [.expression ⟨7, 9⟩ (.var ⟨7, 8⟩ "x")] ∧
      read "y;" 10 = .ok [.expression ⟨10, 12⟩ (.var ⟨10, 11⟩ "y")] := by
  let branch := Stmt.expression ⟨10, 12⟩ (.var ⟨10, 11⟩ "y")
  let whole := Node.stmt (.conditional ⟨3, 12⟩ (.var ⟨7, 8⟩ "x") branch none)
  have hread : read "if (x) y;" 3 = .ok [.conditional ⟨3, 12⟩ (.var ⟨7, 8⟩ "x") branch none] := by
    decide +kernel
  have hinside {n : Node} (hn : n ∈ whole.children) : n ∈ [whole].flatMap Node.nodes := by
    rw [List.flatMap_singleton]
    exact Node.mem_nodes_of_mem_children whole.mem_nodes_self hn
  obtain ⟨hexpr, hstmt⟩ := read_slice hread
  have hcondition := hexpr (.var ⟨7, 8⟩ "x") (hinside (.head _))
  have hbranch := hstmt branch (hinside (.tail _ (.head _)))
  refine ⟨⟨_, hread⟩, hcondition.2 "x" ?_, hbranch.2 "y;" ?_⟩
  · exact ⟨['i', 'f', ' ', '('], [')', ' ', 'y', ';'], rfl, rfl⟩
  · exact ⟨['i', 'f', ' ', '(', 'x', ')', ' '], [], rfl, rfl⟩

end Program

end LoxLang
