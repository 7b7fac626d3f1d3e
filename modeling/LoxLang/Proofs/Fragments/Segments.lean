import LoxLang.Proofs.Nodes
import Mathlib.Tactic.CasesM

/-!
# The tokens of a node

Each expression and each statement of a program has tokens of its own: they stand next to one
another among the tokens of the program, its span reaches from the first to the last of them, and
they derive it without what stands around them (`Grammar.IsProgram.exists_segment_expr`,
`Grammar.IsProgram.exists_segment_stmt`).

The grammar is free of context, so what a symbol derives it also derives where the tokens behind it
are left out (`Derives.cut`) or are others (`Derives.frame`).
-/

namespace LoxLang

namespace Grammar

open Grammar.Symbol

variable {rule : ElseRule} {ts us vs post : List Lexeme}

/-! ### Leaving out what follows -/

/-- What stands in a list before an end of it. -/
def before (post ts : List Lexeme) : List Lexeme := ts.take (ts.length - post.length)

theorem before_append (ts post : List Lexeme) : before post (ts ++ post) = ts := by
  simp [before]

theorem before_cons {x : Lexeme} (h : post <:+ ts) :
    before post (x :: ts) = x :: before post ts := by
  rw [before, before, List.length_cons, Nat.succ_sub h.length_le, List.take_succ_cons]

/-- What a symbol leaves is an end of the tokens, and of that an end may be left out. -/
theorem Derives.cut {s : Symbol} {t : s.Tree} (h : Derives rule s ts t us) (hpost : post <:+ us) :
    post <:+ ts ∧ Derives rule s (before post ts) t (before post us) := by
  induction h with
  | declStmt _ ih =>
    obtain ⟨hts, hd⟩ := ih hpost
    exact ⟨hts, .declStmt hd⟩
  | initExpr _ hs ih =>
    obtain ⟨hts, hv⟩ := ih (hpost.trans (List.suffix_cons ..))
    rw [before_cons hpost] at hv
    exact ⟨hts, .initExpr hv hs⟩
  | _ =>
    simp_all only [List.suffix_cons_iff, or_true, before_cons, forall_const, true_and]
    try casesm* _ ∧ _
    constructor <;> assumption

/-- What a symbol derives are the tokens up to those that it leaves. -/
theorem Derives.exists_append {s : Symbol} {t : s.Tree} (h : Derives rule s ts t us) :
    ∃ seg, ts = seg ++ us ∧ Derives rule s seg t [] := by
  obtain ⟨⟨seg, rfl⟩, hcut⟩ := h.cut List.suffix_rfl
  refine ⟨seg, rfl, ?_⟩
  rw [before_append] at hcut
  rwa [before, Nat.sub_self, List.take_zero] at hcut

/-! ### The first and the last token -/

/-- What is derived from the symbol starts where its first token does. -/
def StartsAt : (s : Symbol) → List Lexeme → s.Tree → Prop
  | .expr, ts, e | .binary _, ts, e | .unary, ts, e | .call, ts, e | .primary, ts, e =>
    ∃ x vs, ts = x :: vs ∧ x.span.start = e.span.start
  | .decl, ts, d | .varDecl, ts, d | .stmt, ts, d =>
    ∃ x vs, ts = x :: vs ∧ x.span.start = d.span.start
  | .function start _, _, f => start = f.span.start
  | _, _, _ => True

/-- What is derived from the symbol ends where its last token does. -/
def StopsAt : (s : Symbol) → List Lexeme → s.Tree → List Lexeme → Prop
  | .expr, ts, e, us | .binary _, ts, e, us | .unary, ts, e, us | .call, ts, e, us
  | .primary, ts, e, us => ∃ z, z :: us <:+ ts ∧ z.span.stop = e.span.stop
  | .decl, ts, d, us | .varDecl, ts, d, us | .stmt, ts, d, us =>
    ∃ z, z :: us <:+ ts ∧ z.span.stop = d.span.stop
  | .function .., ts, f, us => ∃ z, z :: us <:+ ts ∧ z.span.stop = f.span.stop
  | _, _, _, _ => True

theorem Derives.startsAt {s : Symbol} {t : s.Tree} (h : Derives rule s ts t us) :
    StartsAt s ts t := by
  induction h with
  | operators _ ih | tighter _ ih | operand _ ih | suffixed _ ih | atom _ ih | declVar _ ih
  | declStmt _ ih => exact ih
  | setProperty _ _ _ _ _ ih | join _ _ _ _ ih | callNone _ _ _ ih | callSome _ _ _ _ _ ih
  | property _ _ _ ih | exprStmt _ _ ih => exact ih
  | lambda _ _ ih | funDecl _ _ _ ih => exact ⟨_, _, rfl, ih⟩
  | functionNone | functionSome => exact rfl
  | assign | not | negate | stepBefore | literal | name | stepAfter | this | super | group
  | classPlain | classInheriting | varNone | varSome | print | returns | block | ifOnly | ifElse
  | whileLoop | forLoop => exact ⟨_, _, rfl, rfl⟩
  | _ => trivial

theorem Derives.stopsAt {s : Symbol} {t : s.Tree} (h : Derives rule s ts t us) :
    StopsAt s ts t us := by
  induction h with
  | operators _ ih | tighter _ ih | operand _ ih | suffixed _ ih | atom _ ih | declVar _ ih
  | declStmt _ ih => exact ih
  -- the last token is that of the last part
  | not _ _ ih | negate _ _ ih | lambda _ _ ih =>
    obtain ⟨z, hz, hstop⟩ := ih
    exact ⟨z, hz.trans (List.suffix_cons ..), hstop⟩
  | assign _ _ _ ih | funDecl _ _ _ ih =>
    obtain ⟨z, hz, hstop⟩ := ih
    exact ⟨z, hz.trans (List.suffix_append [_, _] _), hstop⟩
  | setProperty he _ _ _ _ _ ih =>
    obtain ⟨z, hz, hstop⟩ := ih
    exact ⟨z, (hz.trans (List.suffix_append [_, _, _] _)).trans he.suffix, hstop⟩
  | join hl _ _ _ _ ih =>
    obtain ⟨z, hz, hstop⟩ := ih
    exact ⟨z, (hz.trans (List.suffix_cons ..)).trans hl.suffix, hstop⟩
  | ifOnly _ _ hc _ _ _ ih | whileLoop _ _ hc _ _ _ ih =>
    obtain ⟨z, hz, hstop⟩ := ih
    have hinside := (hz.trans (List.suffix_cons ..)).trans hc.suffix
    exact ⟨z, hinside.trans (List.suffix_append [_, _] _), hstop⟩
  | ifElse _ _ hc _ hyes _ _ _ _ _ ih =>
    obtain ⟨z, hz, hstop⟩ := ih
    have hbranch := (hz.trans (List.suffix_cons ..)).trans hyes.suffix
    have hinside := (hbranch.trans (List.suffix_cons ..)).trans hc.suffix
    exact ⟨z, hinside.trans (List.suffix_append [_, _] _), hstop⟩
  | forLoop _ _ hi hc _ hu _ _ _ _ _ ih =>
    obtain ⟨z, hz, hstop⟩ := ih
    have hbody := (hz.trans (List.suffix_cons ..)).trans hu.suffix
    have hinside := (hbody.trans (List.suffix_cons ..)).trans (hc.suffix.trans hi.suffix)
    exact ⟨z, hinside.trans (List.suffix_append [_, _] _), hstop⟩
  -- the last token is a mark or a name
  | exprStmt hv => exact ⟨_, hv.suffix, rfl⟩
  | callNone he | property he => exact ⟨_, (List.suffix_cons ..).trans he.suffix, rfl⟩
  | callSome he _ has => exact ⟨_, (has.suffix.trans (List.suffix_cons ..)).trans he.suffix, rfl⟩
  | literal | name | this => exact ⟨_, List.suffix_rfl, rfl⟩
  | stepBefore | stepAfter => exact ⟨_, List.suffix_cons .., rfl⟩
  | super | varNone => exact ⟨_, List.suffix_append [_, _] _, rfl⟩
  | group _ he | print _ he | returns _ he | block _ he =>
    exact ⟨_, he.suffix.trans (List.suffix_cons ..), rfl⟩
  | functionNone _ _ _ hbody | classPlain _ _ _ hbody | varSome _ _ _ hbody =>
    exact ⟨_, hbody.suffix.trans (List.suffix_append [_, _, _] _), rfl⟩
  | functionSome _ hps _ _ _ hbody =>
    have hinside := (hbody.suffix.trans (List.suffix_append [_, _] _)).trans hps.suffix
    exact ⟨_, hinside.trans (List.suffix_cons ..), rfl⟩
  | classInheriting _ _ _ _ _ hms =>
    exact ⟨_, hms.suffix.trans (List.suffix_append [_, _, _, _, _] _), rfl⟩
  | _ => trivial

/-! ### The nodes of a tree -/

/-- The node is derived by itself from tokens that stand next to one another in the list. A method
is a function behind its name, and a parameter is a single token. -/
def Sited (rule : ElseRule) (ts : List Lexeme) : Node → Prop
  | .expr e => ∃ us vs, us <:+ ts ∧ Derives rule expr us e vs
  | .stmt d => ∃ us vs, us <:+ ts ∧ Derives rule decl us d vs
  | .method f =>
    ∃ x n us vs, x :: us <:+ ts ∧ Derives rule (function x.span.start n) us f vs
  | .param n => ∃ x vs, x :: vs <:+ ts ∧ x.span = n.span

/-- All of these nodes, and those inside them at any depth, are derived by themselves. -/
def AllSited (rule : ElseRule) (ts : List Lexeme) (ns : List Node) : Prop :=
  ∀ n ∈ ns.flatMap Node.nodes, Sited rule ts n

namespace AllSited

variable {n : Node} {ns ms : List Node}

protected theorem nil : AllSited rule ts [] := nofun

protected theorem append (h : AllSited rule ts ns) (h' : AllSited rule ts ms) :
    AllSited rule ts (ns ++ ms) := by
  intro n hn
  rw [List.flatMap_append, List.mem_append] at hn
  exact hn.elim (h n) (h' n)

protected theorem cons (h : AllSited rule ts [n]) (h' : AllSited rule ts ns) :
    AllSited rule ts (n :: ns) :=
  h.append h'

/-- A node with the nodes inside it. -/
protected theorem node (h : Sited rule ts n) (inside : AllSited rule ts n.children) :
    AllSited rule ts [n] := by
  intro m hm
  rw [List.flatMap_singleton, Node.nodes_eq, List.mem_cons] at hm
  rcases hm with rfl | hm
  · exact h
  · exact inside m hm

end AllSited

/-- The nodes at the top of a tree of the symbol. -/
def Symbol.roots : (s : Symbol) → s.Tree → List Node
  | .expr, e | .binary _, e | .unary, e | .call, e | .primary, e => [.expr e]
  | .optExpr, e => e.toList.map .expr
  | .args, es => es.map .expr
  | .function .., f => Node.ofFunction f
  | .params, ps => ps.map .param
  | .methods, fs => fs.map .method
  | .decls, ds => ds.map .stmt
  | .decl, d | .varDecl, d | .stmt, d => [.stmt d]
  | .init, i => i.toList.map .stmt

/-- The operators of the symbol are those of expressions. -/
def Symbol.OfExpr : Symbol → Prop
  | .binary levels => levels <:+ precedence
  | _ => True

/-- What is an expression of operators that bind tightly is an expression. -/
theorem Derives.of_binary {levels : List (List (Mark × BinaryOp))} {e : Expr}
    (hlevels : levels <:+ precedence) (h : Derives rule (.binary levels) ts e us) :
    Derives rule expr ts e us := by
  obtain ⟨looser, hlooser⟩ := hlevels
  refine .operators ?_
  rw [← hlooser]
  clear hlooser
  induction looser with
  | nil => exact h
  | cons level looser ih => exact .tighter ih

theorem Derives.of_unary {e : Expr} (h : Derives rule unary ts e us) :
    Derives rule expr ts e us :=
  .of_binary List.nil_suffix (.operand h)

theorem Derives.of_call {e : Expr} (h : Derives rule call ts e us) : Derives rule expr ts e us :=
  .of_unary (.suffixed h)

theorem Derives.of_primary {e : Expr} (h : Derives rule primary ts e us) :
    Derives rule expr ts e us :=
  .of_call (.atom h)

/-- All nodes of a derived tree are derived by themselves. -/
theorem Derives.allSited {s : Symbol} {t : s.Tree} (h : Derives rule s ts t us) {all : List Lexeme}
    (hts : ts <:+ all) : s.OfExpr → AllSited rule all (s.roots t) := by
  induction h with
  -- expressions
  | assign hx heq hv ih =>
    have hvalue := (List.suffix_append [_, _] _).trans hts
    exact fun _ ↦ .node ⟨_, _, hts, .assign hx heq hv⟩ (ih hvalue trivial)
  | setProperty he hdot hx heq hv ihe ihv =>
    have hvalue := ((List.suffix_append [_, _, _] _).trans he.suffix).trans hts
    exact fun _ ↦ .node ⟨_, _, hts, .setProperty he hdot hx heq hv⟩
      (.cons (ihe hts trivial) (ihv hvalue trivial))
  | operators _ ih => exact fun _ ↦ ih hts List.suffix_rfl
  | join hl hop ho hr ihl ihr =>
    have hright := ((List.suffix_cons ..).trans hl.suffix).trans hts
    exact fun hs ↦ .node ⟨_, _, hts, .of_binary hs (.join hl hop ho hr)⟩
      (.cons (ihl hts hs) (ihr hright ((List.suffix_cons ..).trans hs)))
  | tighter _ ih => exact fun hs ↦ ih hts ((List.suffix_cons ..).trans hs)
  | operand _ ih | suffixed _ ih | atom _ ih | declVar _ ih | declStmt _ ih | initVar _ ih
  | arg _ ih | optSome _ ih => exact fun _ ↦ ih hts trivial
  | not ho he ih =>
    exact fun _ ↦ .node ⟨_, _, hts, .of_unary (.not ho he)⟩
      (ih ((List.suffix_cons ..).trans hts) trivial)
  | negate ho he ih =>
    exact fun _ ↦ .node ⟨_, _, hts, .of_unary (.negate ho he)⟩
      (ih ((List.suffix_cons ..).trans hts) trivial)
  | stepBefore ho hx => exact fun _ ↦ .node ⟨_, _, hts, .of_unary (.stepBefore ho hx)⟩ .nil
  | callNone he hl hr ih =>
    exact fun _ ↦ .node ⟨_, _, hts, .of_call (.callNone he hl hr)⟩ (ih hts trivial)
  | callSome he hl has hlimit hr ihe ihas =>
    have harguments := ((List.suffix_cons ..).trans he.suffix).trans hts
    exact fun _ ↦ .node ⟨_, _, hts, .of_call (.callSome he hl has hlimit hr)⟩
      (.cons (ihe hts trivial) (ihas harguments trivial))
  | property he hdot hx ih =>
    exact fun _ ↦ .node ⟨_, _, hts, .of_call (.property he hdot hx)⟩ (ih hts trivial)
  | argThen he hcomma hes ihe ihes =>
    have hothers := ((List.suffix_cons ..).trans he.suffix).trans hts
    exact fun _ ↦ .cons (ihe hts trivial) (ihes hothers trivial)
  | literal hx => exact fun _ ↦ .node ⟨_, _, hts, .of_primary (.literal hx)⟩ .nil
  | name hx => exact fun _ ↦ .node ⟨_, _, hts, .of_primary (.name hx)⟩ .nil
  | stepAfter hx ho => exact fun _ ↦ .node ⟨_, _, hts, .of_primary (.stepAfter hx ho)⟩ .nil
  | this hw => exact fun _ ↦ .node ⟨_, _, hts, .of_primary (.this hw)⟩ .nil
  | super hw hdot hx => exact fun _ ↦ .node ⟨_, _, hts, .of_primary (.super hw hdot hx)⟩ .nil
  | group hl he hr ih =>
    exact fun _ ↦ .node ⟨_, _, hts, .of_primary (.group hl he hr)⟩
      (ih ((List.suffix_cons ..).trans hts) trivial)
  | lambda hw hf ih =>
    exact fun _ ↦ .node ⟨_, _, hts, .of_primary (.lambda hw hf)⟩
      (ih ((List.suffix_cons ..).trans hts) trivial)
  | optNone | declsNil | methodsNil | initNone => exact fun _ ↦ .nil
  -- functions
  | functionNone _ _ _ _ _ ih =>
    exact fun _ ↦ ih ((List.suffix_append [_, _, _] _).trans hts) trivial
  | functionSome _ hps _ _ _ _ _ ihps ih =>
    have hparams := (List.suffix_cons ..).trans hts
    have hbody := ((List.suffix_append [_, _] _).trans hps.suffix).trans hparams
    exact fun _ ↦ .append (ihps hparams trivial) (ih hbody trivial)
  | param => exact fun _ ↦ .node ⟨_, _, hts, rfl⟩ .nil
  | paramThen _ _ _ ih =>
    have hothers := (List.suffix_append [_, _] _).trans hts
    exact fun _ ↦ .cons (.node ⟨_, _, hts, rfl⟩ .nil) (ih hothers trivial)
  -- declarations
  | declsCons hd _ ihd ihds =>
    exact fun _ ↦ .cons (ihd hts trivial) (ihds (hd.suffix.trans hts) trivial)
  | classPlain hw hx hb hms hz ih =>
    exact fun _ ↦ .node ⟨_, _, hts, .classPlain hw hx hb hms hz⟩
      (ih ((List.suffix_append [_, _, _] _).trans hts) trivial)
  | classInheriting hw hx hless hy hb hms hz ih =>
    have hparent := (List.suffix_append [_, _, _] _).trans hts
    exact fun _ ↦ .node ⟨_, _, hts, .classInheriting hw hx hless hy hb hms hz⟩
      (.cons (.node ⟨_, _, hparent, .of_primary (.name hy)⟩ .nil)
        (ih ((List.suffix_append [_, _] _).trans hparent) trivial))
  | methodsCons _ hf _ ih ihs =>
    have hfunction := (List.suffix_cons ..).trans hts
    exact fun _ ↦ .cons (.node ⟨_, _, _, _, hts, hf⟩ (ih hfunction trivial))
      (ihs (hf.suffix.trans hfunction) trivial)
  | funDecl hw hx hf ih =>
    exact fun _ ↦ .node ⟨_, _, hts, .funDecl hw hx hf⟩
      (ih ((List.suffix_append [_, _] _).trans hts) trivial)
  | varNone hw hx hs => exact fun _ ↦ .node ⟨_, _, hts, .declVar (.varNone hw hx hs)⟩ .nil
  | varSome hw hx heq hv hs ih =>
    exact fun _ ↦ .node ⟨_, _, hts, .declVar (.varSome hw hx heq hv hs)⟩
      (ih ((List.suffix_append [_, _, _] _).trans hts) trivial)
  -- statements
  | exprStmt hv hs ih | initExpr hv hs ih =>
    exact fun _ ↦ .node ⟨_, _, hts, .declStmt (.exprStmt hv hs)⟩ (ih hts trivial)
  | print hw hv hs ih =>
    exact fun _ ↦ .node ⟨_, _, hts, .declStmt (.print hw hv hs)⟩
      (ih ((List.suffix_cons ..).trans hts) trivial)
  | returns hw hv hs ih =>
    exact fun _ ↦ .node ⟨_, _, hts, .declStmt (.returns hw hv hs)⟩
      (ih ((List.suffix_cons ..).trans hts) trivial)
  | block hb hbody hz ih =>
    exact fun _ ↦ .node ⟨_, _, hts, .declStmt (.block hb hbody hz)⟩
      (ih ((List.suffix_cons ..).trans hts) trivial)
  | ifOnly hw hl hc hr hyes ihc ihyes =>
    have hcondition := (List.suffix_append [_, _] _).trans hts
    have hbranch := ((List.suffix_cons ..).trans hc.suffix).trans hcondition
    exact fun _ ↦ .node ⟨_, _, hts, .declStmt (.ifOnly hw hl hc hr hyes)⟩
      (.cons (ihc hcondition trivial) (.cons (ihyes hbranch trivial) .nil))
  | ifElse hw hl hc hr hyes he hnear hno ihc ihyes ihno =>
    have hcondition := (List.suffix_append [_, _] _).trans hts
    have hbranch := ((List.suffix_cons ..).trans hc.suffix).trans hcondition
    have hother := ((List.suffix_cons ..).trans hyes.suffix).trans hbranch
    exact fun _ ↦ .node ⟨_, _, hts, .declStmt (.ifElse hw hl hc hr hyes he hnear hno)⟩
      (.cons (ihc hcondition trivial) (.cons (ihyes hbranch trivial) (ihno hother trivial)))
  | whileLoop hw hl hc hr hbody ihc ihbody =>
    have hcondition := (List.suffix_append [_, _] _).trans hts
    have hinside := ((List.suffix_cons ..).trans hc.suffix).trans hcondition
    exact fun _ ↦ .node ⟨_, _, hts, .declStmt (.whileLoop hw hl hc hr hbody)⟩
      (.cons (ihc hcondition trivial) (ihbody hinside trivial))
  | forLoop hw hl hi hc hs hu hr hbody ihi ihc ihu ihbody =>
    have hinit := (List.suffix_append [_, _] _).trans hts
    have hcondition := hi.suffix.trans hinit
    have hstep := ((List.suffix_cons ..).trans hc.suffix).trans hcondition
    have hinside := ((List.suffix_cons ..).trans hu.suffix).trans hstep
    exact fun _ ↦ .node ⟨_, _, hts, .declStmt (.forLoop hw hl hi hc hs hu hr hbody)⟩
      (.append (.append (.append (ihi hinit trivial) (ihc hcondition trivial))
        (ihu hstep trivial)) (ihbody hinside trivial))

/-- The span reaches from the first to the last of these tokens. -/
def Fits (seg : List Lexeme) (s : Span) : Prop :=
  seg.head?.map (·.span.start) = some s.start ∧ seg.getLast?.map (·.span.stop) = some s.stop

theorem fits_of_ends {seg : List Lexeme} {s : Span}
    (hstart : ∃ x vs, seg = x :: vs ∧ x.span.start = s.start)
    (hstop : ∃ z, [z] <:+ seg ∧ z.span.stop = s.stop) : Fits seg s := by
  obtain ⟨x, vs, hseg, hx⟩ := hstart
  obtain ⟨z, ⟨front, hfront⟩, hz⟩ := hstop
  constructor
  · rw [hseg, List.head?_cons, Option.map_some, hx]
  · rw [← hfront, List.getLast?_append_of_ne_nil _ (List.cons_ne_nil z []), List.getLast?_singleton,
      Option.map_some, hz]

/-- An expression of a program has tokens of its own. -/
theorem IsProgram.exists_segment_expr {p : Program} (h : IsProgram rule ts p) {e : Expr}
    (he : Node.expr e ∈ (p.map Node.stmt).flatMap Node.nodes) :
    ∃ pre seg post, ts = pre ++ (seg ++ post) ∧ Fits seg e.span ∧ Derives rule expr seg e [] := by
  obtain ⟨us, vs, ⟨pre, rfl⟩, hderives⟩ := Derives.allSited h List.suffix_rfl trivial _ he
  obtain ⟨seg, rfl, hseg⟩ := hderives.exists_append
  exact ⟨pre, seg, vs, rfl, fits_of_ends hseg.startsAt hseg.stopsAt, hseg⟩

/-- A statement of a program has tokens of its own. -/
theorem IsProgram.exists_segment_stmt {p : Program} (h : IsProgram rule ts p) {d : Stmt}
    (hd : Node.stmt d ∈ (p.map Node.stmt).flatMap Node.nodes) :
    ∃ pre seg post, ts = pre ++ (seg ++ post) ∧ Fits seg d.span ∧ Derives rule decl seg d [] := by
  obtain ⟨us, vs, ⟨pre, rfl⟩, hderives⟩ := Derives.allSited h List.suffix_rfl trivial _ hd
  obtain ⟨seg, rfl, hseg⟩ := hderives.exists_append
  exact ⟨pre, seg, vs, rfl, fits_of_ends hseg.startsAt hseg.stopsAt, hseg⟩

end Grammar

end LoxLang
