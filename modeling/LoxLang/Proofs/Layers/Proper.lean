import LoxLang.Proofs.Layers
import LoxLang.Proofs.Texts

/-!
# Proper trees

What a program that was derived from tokens is sure of, whatever its names refer to: `this` and
`super` are never names, a branch or the body of a loop declares nothing of its own, and the first
clause of a `for` is an expression or a variable (`Grammar.Derives.proper`). Trees that come from
such a program by a rewriting have no derivation of their own, but they may still be proper.
-/

namespace LoxLang

open Grammar

/-- The statement may be the first clause of a `for`. -/
def Stmt.isClause : Stmt → Bool
  | expression .. | varDecl .. => true
  | _ => false

mutual

/-- The expression is proper. -/
def Expr.Proper : Expr → Prop
  | .literal _ _ | .var _ _ | .this _ | .super _ _ => True
  | .assign _ name value => IsName name ∧ value.Proper
  | .step _ _ _ name => IsName name
  | .group _ inner => inner.Proper
  | .unary _ _ operand => operand.Proper
  | .binary _ _ left right => left.Proper ∧ right.Proper
  | .call _ callee arguments => callee.Proper ∧ Expr.AllProper arguments
  | .property _ object _ => object.Proper
  | .setProperty _ object _ value => object.Proper ∧ value.Proper
  | .lambda f => f.Proper

/-- All of the expressions are proper. -/
def Expr.AllProper : List Expr → Prop
  | [] => True
  | e :: rest => e.Proper ∧ Expr.AllProper rest

/-- The expression is proper, if it is not missing. -/
def Expr.Proper? : Option Expr → Prop
  | none => True
  | some e => e.Proper

/-- The function is proper. -/
def FunDecl.Proper : FunDecl → Prop
  | .mk _ _ params body => (∀ p ∈ params, IsName p.text) ∧ Stmt.AllProper body

/-- All of the functions are proper. -/
def FunDecl.AllProper : List FunDecl → Prop
  | [] => True
  | f :: rest => f.Proper ∧ FunDecl.AllProper rest

/-- The statement is proper. -/
def Stmt.Proper : Stmt → Prop
  | .expression _ value | .print _ value => value.Proper
  | .varDecl _ name value => IsName name ∧ Expr.Proper? value
  | .funDecl f => IsName f.name ∧ f.Proper
  | .classDecl _ name _ methods => IsName name ∧ FunDecl.AllProper methods
  | .block _ body => Stmt.AllProper body
  | .conditional _ condition yes no =>
    condition.Proper ∧ (yes.Proper ∧ yes.declares = none) ∧
      Stmt.Proper? no ∧ no.bind Stmt.declares = none
  | .whileLoop _ condition body => condition.Proper ∧ body.Proper ∧ body.declares = none
  | .forLoop _ init condition step body =>
    (Stmt.Proper? init ∧ init.all Stmt.isClause) ∧ Expr.Proper? condition ∧ Expr.Proper? step ∧
      body.Proper ∧ body.declares = none
  | .returns _ value => Expr.Proper? value

/-- All of the statements are proper. -/
def Stmt.AllProper : List Stmt → Prop
  | [] => True
  | s :: rest => s.Proper ∧ Stmt.AllProper rest

/-- The statement is proper, if it is not missing. -/
def Stmt.Proper? : Option Stmt → Prop
  | none => True
  | some s => s.Proper

end

/-! ### Derived trees -/

/-- None of the names among the tokens is one that classes declare. -/
def NameTokens (ts : List Lexeme) : Prop := ∀ x ∈ ts, ∀ n, x.token = .identifier n → IsName n

namespace NameTokens

variable {ts us : List Lexeme} {x : Lexeme}

theorem of_suffix (h : NameTokens ts) (hus : us <:+ ts) : NameTokens us :=
  fun x hx ↦ h x (hus.subset hx)

theorem tail (h : NameTokens (x :: ts)) : NameTokens ts := h.of_suffix (List.suffix_cons x ts)

theorem head (h : NameTokens (x :: ts)) {n : String} (hx : x.token = .identifier n) : IsName n :=
  h x List.mem_cons_self n hx

end NameTokens

namespace Grammar

variable {rule : ElseRule} {ts us : List Lexeme}

/-- A function is derived with the name that its symbol has. -/
theorem Derives.function_name {start : Nat} {n : String} {f : FunDecl}
    (h : Derives rule (.function start n) ts f us) : f.name = n := by
  cases h <;> rfl

/-- A tree of the symbol is proper. -/
def SymbolProper : (s : Symbol) → s.Tree → Prop
  | .expr, e | .binary _, e | .unary, e | .call, e | .primary, e => e.Proper
  | .optExpr, e => Expr.Proper? e
  | .args, es => Expr.AllProper es
  | .function .., f => f.Proper
  | .params, ps => ∀ p ∈ ps, IsName p.text
  | .methods, ms => FunDecl.AllProper ms
  | .decls, ds => Stmt.AllProper ds
  | .decl, d => d.Proper
  | .varDecl, d => d.Proper ∧ d.isClause = true
  | .stmt, d => d.Proper ∧ d.declares = none
  | .init, i => Stmt.Proper? i ∧ i.all Stmt.isClause = true

/-- A tree that is derived from tokens is proper. -/
theorem Derives.proper {s : Symbol} {t : s.Tree} (h : Derives rule s ts t us)
    (hnames : NameTokens ts) : SymbolProper s t := by
  induction h with
  -- expressions
  | assign hx _ _ ihv => exact ⟨hnames.head hx, ihv hnames.tail.tail⟩
  | setProperty he _ _ _ _ ihe ihv =>
    exact ⟨ihe hnames, ihv (hnames.of_suffix he.suffix).tail.tail.tail⟩
  | operators _ ihe | tighter _ ihe | operand _ ihe | suffixed _ ihe | atom _ ihe =>
    exact ihe hnames
  | join hl _ _ _ ihl ihr => exact ⟨ihl hnames, ihr (hnames.of_suffix hl.suffix).tail⟩
  | not _ _ ihe | negate _ _ ihe | group _ _ _ ihe => exact ihe hnames.tail
  | stepBefore _ hx => exact hnames.tail.head hx
  | stepAfter hx _ => exact hnames.head hx
  | callNone _ _ _ ihe => exact ⟨ihe hnames, trivial⟩
  | callSome he _ _ _ _ ihe ihas => exact ⟨ihe hnames, ihas (hnames.of_suffix he.suffix).tail⟩
  | property _ _ _ ihe => exact ihe hnames
  | arg _ ihe => exact ⟨ihe hnames, trivial⟩
  | argThen he _ _ ihe ihes => exact ⟨ihe hnames, ihes (hnames.of_suffix he.suffix).tail⟩
  | literal | name | this | super | optNone => exact trivial
  | lambda _ _ ihf => exact ihf hnames.tail
  | optSome _ ihe => exact ihe hnames
  -- functions
  | functionNone _ _ _ _ _ ihbody => exact ⟨nofun, ihbody hnames.tail.tail.tail⟩
  | functionSome _ hps _ _ _ _ _ ihps ihbody =>
    exact ⟨ihps hnames.tail, ihbody (hnames.tail.of_suffix hps.suffix).tail.tail⟩
  | param hx => exact List.forall_mem_singleton.2 (hnames.head hx)
  | paramThen hx _ _ ihps =>
    exact List.forall_mem_cons.2 ⟨hnames.head hx, ihps hnames.tail.tail⟩
  -- declarations
  | declsNil | methodsNil => exact trivial
  | declsCons hd _ ihd ihds => exact ⟨ihd hnames, ihds (hnames.of_suffix hd.suffix)⟩
  | classPlain _ hx _ _ _ ihms => exact ⟨hnames.tail.head hx, ihms hnames.tail.tail.tail⟩
  | classInheriting _ hx _ _ _ _ _ ihms =>
    exact ⟨hnames.tail.head hx, ihms hnames.tail.tail.tail.tail.tail⟩
  | methodsCons _ hf _ ihf ihfs =>
    exact ⟨ihf hnames.tail, ihfs (hnames.tail.of_suffix hf.suffix)⟩
  | funDecl _ hx hf ihf =>
    refine ⟨?_, ihf hnames.tail.tail⟩
    rw [hf.function_name]
    exact hnames.tail.head hx
  | declVar _ ihd | declStmt _ ihd => exact (ihd hnames).1
  | varNone _ hx _ => exact ⟨⟨hnames.tail.head hx, trivial⟩, rfl⟩
  | varSome _ hx _ _ _ ihv => exact ⟨⟨hnames.tail.head hx, ihv hnames.tail.tail.tail⟩, rfl⟩
  -- statements
  | exprStmt _ _ ihv => exact ⟨ihv hnames, rfl⟩
  | print _ _ _ ihv | returns _ _ _ ihv => exact ⟨ihv hnames.tail, rfl⟩
  | block _ _ _ ihbody => exact ⟨ihbody hnames.tail, rfl⟩
  | ifOnly _ _ hc _ _ ihc ihyes =>
    exact ⟨⟨ihc hnames.tail.tail, ihyes (hnames.tail.tail.of_suffix hc.suffix).tail, trivial, rfl⟩,
      rfl⟩
  | ifElse _ _ hc _ hyes _ _ _ ihc ihyes ihno =>
    have hus := (hnames.tail.tail.of_suffix hc.suffix).tail
    exact ⟨⟨ihc hnames.tail.tail, ihyes hus, ihno (hus.of_suffix hyes.suffix).tail⟩, rfl⟩
  | whileLoop _ _ hc _ _ ihc ihbody =>
    exact ⟨⟨ihc hnames.tail.tail, ihbody (hnames.tail.tail.of_suffix hc.suffix).tail⟩, rfl⟩
  | forLoop _ _ hi hc _ hu _ _ ihi ihc ihu ihbody =>
    have hus := hnames.tail.tail.of_suffix hi.suffix
    have hvs := (hus.of_suffix hc.suffix).tail
    exact ⟨⟨ihi hnames.tail.tail, ihc hus, ihu hvs, ihbody (hvs.of_suffix hu.suffix).tail⟩, rfl⟩
  | initNone => exact ⟨trivial, rfl⟩
  | initVar _ ihd => exact ihd hnames
  | initExpr _ _ ihv => exact ⟨ihv hnames, rfl⟩

end Grammar

end LoxLang
