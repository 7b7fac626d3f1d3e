import LoxLang.Program.Equality
import LoxLang.Proofs.Fragments.Segments
import LoxLang.Proofs.Layers.Proper
import LoxLang.Proofs.Postfix.Spelling

/-!
# The postfix notation of programs

The words of an expression that is read from a text can come from a program, as its tokens were
scanned: a name is spelled like one and no keyword, a numeral has no sign, and a function without a
name has the name of all such functions (`Grammar.Derives.written`).

So the postfix notation of an expression tells the expression, without its places, its parentheses
and what is inside its functions, unless it can be read with a name in place of a negation or of an
infinite number (`Program.bare_eq_of_toPostfix_eq`).
-/

namespace LoxLang

open Shape PostfixWord

/-! ### The tokens of a text -/

namespace Lexeme

/-- What the token says can be written. -/
structure Plain (x : Lexeme) : Prop where
  identifier {n : String} : x.token = .identifier n → Identifier n
  number {v : Float} : x.token = .number v → Decimal.Unsigned v

/-- What is spelled as a token is plain. -/
theorem plain_of_spelled {shape : Shape} {text : List Char} {t : Token} {s : Span}
    (h : Spelled shape text) (ht : shape.token? text = some t) : Plain ⟨t, text, s⟩ := by
  cases h with
  | word hc hcs =>
    cases ht
    cases hword : Mark.ofWord? (_ :: _) with
    | none =>
      refine ⟨?_, nofun⟩
      rintro n ⟨⟩
      constructor
      · rw [String.toList_ofList]
        exact .word hc hcs
      · rw [String.toList_ofList]
        exact hword
    | some m => exact ⟨nofun, nofun⟩
  | whole | decimal =>
    cases ht
    refine ⟨nofun, ?_⟩
    rintro v ⟨⟩
    exact Decimal.unsigned_numeralValue _
  | sign | string =>
    cases ht
    exact ⟨nofun, nofun⟩
  | space | comment => cases ht

/-- The tokens that a text is cut into are plain. -/
theorem plain_of_cut {offset : Nat} {cs : List Char} {blanks : List Span} {xs : List Lexeme}
    (h : Cut offset cs blanks xs) : ∀ x ∈ xs, Plain x := by
  induction h with
  | nil => nofun
  | blank _ _ ih => exact ih
  | known hlongest ht _ ih =>
    exact List.forall_mem_cons.2 ⟨plain_of_spelled hlongest.spelled ht, ih⟩
  | stray _ _ _ ih => exact List.forall_mem_cons.2 ⟨⟨nofun, nofun⟩, ih⟩
  | unclosed => exact List.forall_mem_singleton.2 ⟨nofun, nofun⟩

/-- What the tokens of a text say can be written. -/
theorem plain_of_mem_scan {offset : Nat} {cs : List Char} {x : Lexeme}
    (hx : x ∈ scan offset cs) : Plain x := by
  obtain ⟨blanks, hcut⟩ := exists_cut offset cs
  exact plain_of_cut hcut x hx

end Lexeme

/-! ### Derived expressions -/

/-- What the tokens say can be written. -/
def PlainTokens (ts : List Lexeme) : Prop := ∀ x ∈ ts, x.Plain

namespace PlainTokens

variable {ts us : List Lexeme} {x : Lexeme}

theorem of_suffix (h : PlainTokens ts) (hus : us <:+ ts) : PlainTokens us :=
  fun x hx ↦ h x (hus.subset hx)

theorem tail (h : PlainTokens (x :: ts)) : PlainTokens ts := h.of_suffix (List.suffix_cons x ts)

theorem head (h : PlainTokens (x :: ts)) : x.Plain := h x List.mem_cons_self

end PlainTokens

namespace Grammar

variable {rule : ElseRule} {ts us : List Lexeme}

/-- The words of what the symbol derives can come from a program. -/
def WordsWritten : (s : Symbol) → s.Tree → Prop
  | .expr, e | .binary _, e | .unary, e | .call, e | .primary, e => ∀ w ∈ e.words, w.Written
  | .args, es => ∀ w ∈ wordsOf es, w.Written
  | _, _ => True

theorem written_append {ws ws' : List PostfixWord} (h : ∀ w ∈ ws, w.Written)
    (h' : ∀ w ∈ ws', w.Written) : ∀ w ∈ ws ++ ws', w.Written :=
  List.forall_mem_append.2 ⟨h, h'⟩

theorem written_snoc {ws : List PostfixWord} {v : PostfixWord} (h : ∀ w ∈ ws, w.Written)
    (hv : v.Written) : ∀ w ∈ ws ++ [v], w.Written :=
  written_append h (List.forall_mem_singleton.2 hv)

/-- A literal of one token can be written. -/
theorem written_literal {x : Lexeme} {v : Literal} (hx : x.Plain)
    (h : Denotes x.token v) : (PostfixWord.literal v).Written := by
  generalize ht : x.token = t at h
  cases h with
  | number => exact hx.number ht
  | false | true | nil | string => exact trivial

/-- The words of an expression that is derived from such tokens can come from a program. -/
theorem Derives.written {s : Symbol} {t : s.Tree} (h : Derives rule s ts t us)
    (hplain : PlainTokens ts) : WordsWritten s t := by
  induction h with
  | assign hx _ _ ihv => exact written_snoc (ihv hplain.tail.tail) (hplain.head.identifier hx)
  | setProperty he _ hx _ _ ihe ihv =>
    have hbehind := (hplain.of_suffix he.suffix).tail
    exact written_snoc (written_append (ihe hplain) (ihv hbehind.tail.tail))
      (hbehind.head.identifier hx)
  | operators _ ihe | tighter _ ihe | operand _ ihe | suffixed _ ihe | atom _ ihe =>
    exact ihe hplain
  | join hl _ _ _ ihl ihr =>
    have hright := (hplain.of_suffix hl.suffix).tail
    exact written_snoc (written_append (ihl hplain) (ihr hright)) trivial
  | not _ _ ihe | negate _ _ ihe => exact written_snoc (ihe hplain.tail) trivial
  | stepBefore _ hx => exact List.forall_mem_singleton.2 (hplain.tail.head.identifier hx)
  | callNone _ _ _ ihe => exact written_snoc (ihe hplain) trivial
  | callSome he _ _ _ _ ihe ihas =>
    have harguments := (hplain.of_suffix he.suffix).tail
    exact written_snoc (written_append (ihas harguments) (ihe hplain)) trivial
  | property he _ hx ihe =>
    have hbehind := (hplain.of_suffix he.suffix).tail
    exact written_snoc (ihe hplain) (hbehind.head.identifier hx)
  | arg _ ihe => exact written_append (ihe hplain) nofun
  | argThen he _ _ ihe ihes =>
    exact written_append (ihe hplain) (ihes (hplain.of_suffix he.suffix).tail)
  | literal hx => exact List.forall_mem_singleton.2 (written_literal hplain.head hx)
  | name hx | stepAfter hx _ => exact List.forall_mem_singleton.2 (hplain.head.identifier hx)
  | this => exact List.forall_mem_singleton.2 trivial
  | super _ _ hx => exact List.forall_mem_singleton.2 (hplain.tail.tail.head.identifier hx)
  | group _ _ _ ihe => exact ihe hplain.tail
  | lambda _ hf => exact List.forall_mem_singleton.2 hf.function_name
  | _ => exact trivial

end Grammar

/-! ### Programs of texts -/

namespace Program

variable {source source' : String} {offset offset' : Nat} {p p' : Program} {e e' : Expr}

/-- The words of an expression that is read from a text can come from a program. -/
theorem written_of_read (h : read source offset = .ok p)
    (he : Node.expr e ∈ (p.map Node.stmt).flatMap Node.nodes) : ∀ w ∈ e.words, w.Written := by
  obtain ⟨pre, seg, post, hts, -, hderives⟩ := (read_eq_ok.1 h).2.exists_segment_expr he
  have hplain : PlainTokens (pre ++ (seg ++ post)) := hts ▸ fun _ ↦ Lexeme.plain_of_mem_scan
  exact hderives.written fun x hx ↦ hplain x (by simp [hx])

/-- A numeral on a line of its own is a program. -/
theorem read_numeral {ds : List Char} (hds : Digits ds) :
    read (String.ofList (ds ++ ['\n', ';'])) 0 =
      .ok [.expression ⟨0, Text.byteLength ds + 2⟩
        (.literal ⟨0, Text.byteLength ds⟩ (.number (numeralValue ds)))] := by
  let numeral := Lexeme.place 0 ds (.number (numeralValue ds))
  let semicolon := Lexeme.place (0 + Text.byteLength ds + 1) [';'] (.mark .semicolon)
  have hnumeral : Lexeme.scan 0 ds = [numeral] := Lexeme.scan_of_spelled (.whole hds) rfl 0
  have hsemicolon : Lexeme.scan (0 + Text.byteLength ds + 1) [';'] = [semicolon] :=
    Lexeme.scan_of_spelled (.sign (by simp [signs])) rfl _
  have hscan : Lexeme.scan 0 (ds ++ ['\n', ';']) = [numeral, semicolon] := by
    rw [Lexeme.scan_append, hnumeral, hsemicolon]
    · rfl
    · rw [hnumeral]
      exact List.forall_mem_singleton.2 rfl
  rw [read_eq_ok, String.toList_ofList, hscan]
  refine ⟨List.forall_mem_cons.2 ⟨rfl, List.forall_mem_singleton.2 rfl⟩, ?_⟩
  have hexpr : Grammar.Derives .nearest .expr [numeral, semicolon]
      (.literal numeral.span (.number (numeralValue ds))) [semicolon] :=
    .of_primary (.literal (.number _))
  have hprogram := Grammar.Derives.declsCons (.declStmt (.exprStmt hexpr rfl)) .declsNil
  simp only [numeral, semicolon, Lexeme.place, Span.over, Expr.span, Span.through,
    Nat.zero_add] at hprogram ⊢
  exact hprogram

/-- A numeral of 310 digits is too large. -/
theorem isInf_numeralValue : (numeralValue ('1' :: List.replicate 309 '0')).isInf = true := by
  decide +kernel

/-- The expression of an expression statement is a node of its program. -/
theorem expr_mem_nodes {s : Span} (h : .expression s e ∈ p) :
    Node.expr e ∈ (p.map Node.stmt).flatMap Node.nodes := by
  refine List.mem_flatMap.2 ⟨_, List.mem_map_of_mem h, ?_⟩
  rw [Node.nodes_eq]
  refine List.mem_cons_of_mem _ ?_
  rw [Node.children, List.flatMap_singleton, Node.nodes_eq]
  exact List.mem_cons_self

/-- Two expressions of programs that have the same postfix notation are the same, but for their
places, their parentheses, and the parameters and bodies of functions: unless each of them has both
a name `neg` and a negation, or one a name `inf` and the other a numeral that is too large. -/
theorem bare_eq_of_toPostfix_eq (h : read source offset = .ok p)
    (h' : read source' offset' = .ok p')
    (he : Node.expr e ∈ (p.map Node.stmt).flatMap Node.nodes)
    (he' : Node.expr e' ∈ (p'.map Node.stmt).flatMap Node.nodes)
    (hneg : ¬ MixNeg e.words e.words) (hinf : ¬ MixInf e.words e'.words)
    (hinf' : ¬ MixInf e'.words e.words) (hsame : e.toPostfix = e'.toPostfix) :
    e.bare = e'.bare := by
  have halike : List.Forall₂ Alike e.words e'.words :=
    (Expr.toPostfix_eq_iff (written_of_read h he) (written_of_read h' he')).1 hsame
  exact Expr.bare_eq_of_words_eq (Expr.words_eq_of_alike halike hneg hinf hinf')

/-- The same expression on one line and on two, with other parentheses and another function. -/
theorem bare_eq_of_toPostfix_eq_grouped : ∃ (p p' : Program) (e e' : Expr),
    read "-a / b(fun () \x7b\x7d);" 0 = .ok p ∧
    read "(-a) /\n(b(fun (x) \x7b print x; \x7d));" 20 = .ok p' ∧
    Node.expr e ∈ (p.map Node.stmt).flatMap Node.nodes ∧
    Node.expr e' ∈ (p'.map Node.stmt).flatMap Node.nodes ∧
    ¬ MixNeg e.words e.words ∧ ¬ MixInf e.words e'.words ∧ ¬ MixInf e'.words e.words ∧
    e.toPostfix = e'.toPostfix ∧ e.bare = e'.bare := by
  have hread : read "-a / b(fun () \x7b\x7d);" 0 = .ok [.expression ⟨0, 18⟩ (.binary ⟨0, 17⟩ .divide
      (.unary ⟨0, 2⟩ .negate (.var ⟨1, 2⟩ "a"))
      (.call ⟨5, 17⟩ (.var ⟨5, 6⟩ "b") [.lambda (.mk ⟨7, 16⟩ "anonymous" [] [])]))] := by
    decide +kernel
  have hread' : read "(-a) /\n(b(fun (x) \x7b print x; \x7d));" 20 = .ok [.expression ⟨20, 53⟩
      (.binary ⟨20, 52⟩ .divide
        (.group ⟨20, 24⟩ (.unary ⟨21, 23⟩ .negate (.var ⟨22, 23⟩ "a")))
        (.group ⟨27, 52⟩ (.call ⟨28, 51⟩ (.var ⟨28, 29⟩ "b") [.lambda (.mk ⟨30, 50⟩ "anonymous"
          [⟨"x", ⟨35, 36⟩⟩] [.print ⟨40, 48⟩ (.var ⟨46, 47⟩ "x")])])))] := by
    decide +kernel
  let words : List PostfixWord :=
    [.name "a", .unary .negate, .function "anonymous", .name "b", .call 1, .binary .divide]
  have hneg : ¬ MixNeg words words := by simp [MixNeg, words]
  have hinf : ¬ MixInf words words := by simp [MixInf, words]
  have hmem {s : Span} {e : Expr} :
      Node.expr e ∈ ([Stmt.expression s e].map Node.stmt).flatMap Node.nodes :=
    expr_mem_nodes List.mem_cons_self
  exact ⟨_, _, _, _, hread, hread', hmem, hmem, hneg, hinf, hinf, rfl,
    bare_eq_of_toPostfix_eq hread hread' hmem hmem hneg hinf hinf rfl⟩

/-- Expressions that are not the same can have the same postfix notation: where a name `neg` stands
behind a negation or inside of one, and where a name `inf` or a numeral that is too large stands. -/
theorem not_bare_eq_of_toPostfix_eq :
    (∃ (p : Program) (e e' : Expr), read "-a - neg;a - -neg;" 0 = .ok p ∧
      Node.expr e ∈ (p.map Node.stmt).flatMap Node.nodes ∧
      Node.expr e' ∈ (p.map Node.stmt).flatMap Node.nodes ∧
      e.toPostfix = "a neg neg -" ∧ e'.toPostfix = "a neg neg -" ∧ e.bare ≠ e'.bare) ∧
    ∃ (p p' : Program) (e e' : Expr), read "inf;" 0 = .ok p ∧
      read (String.ofList (('1' :: List.replicate 309 '0') ++ ['\n', ';'])) 0 = .ok p' ∧
      Node.expr e ∈ (p.map Node.stmt).flatMap Node.nodes ∧
      Node.expr e' ∈ (p'.map Node.stmt).flatMap Node.nodes ∧
      e.toPostfix = "inf" ∧ e'.toPostfix = "inf" ∧ e.bare ≠ e'.bare := by
  constructor
  · have hread : read "-a - neg;a - -neg;" 0 = .ok [
        .expression ⟨0, 9⟩ (.binary ⟨0, 8⟩ .subtract (.unary ⟨0, 2⟩ .negate (.var ⟨1, 2⟩ "a"))
          (.var ⟨5, 8⟩ "neg")),
        .expression ⟨9, 18⟩ (.binary ⟨9, 17⟩ .subtract (.var ⟨9, 10⟩ "a")
          (.unary ⟨13, 17⟩ .negate (.var ⟨14, 17⟩ "neg")))] := by
      decide +kernel
    exact ⟨_, _, _, hread, expr_mem_nodes List.mem_cons_self,
      expr_mem_nodes (List.mem_cons_of_mem _ List.mem_cons_self), rfl, rfl, fun h ↦ by cases h⟩
  · have hread : read "inf;" 0 = .ok [.expression ⟨0, 4⟩ (.var ⟨0, 3⟩ "inf")] := by
      decide +kernel
    have hdigits : Digits ('1' :: List.replicate 309 '0') := by
      refine ⟨List.cons_ne_nil _ _, List.forall_mem_cons.2 ⟨rfl, fun c hc ↦ ?_⟩⟩
      rw [List.eq_of_mem_replicate hc]
      rfl
    have htext := text_inf (Decimal.unsigned_numeralValue _) isInf_numeralValue
    exact ⟨_, _, _, _, hread, read_numeral hdigits, expr_mem_nodes List.mem_cons_self,
      expr_mem_nodes List.mem_cons_self, rfl, htext, fun h ↦ by cases h⟩

end Program

end LoxLang
