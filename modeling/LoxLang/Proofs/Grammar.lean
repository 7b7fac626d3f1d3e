import LoxLang.Program
import LoxLang.Token

/-!
# The grammar

The grammar of programs as derivations, without reference to how programs are read. A derivation
`Derives rule s ts t us` says that the symbol `s` derives the tokens at the front of `ts` with the
tree `t`, and that `us` is what it leaves of `ts`. A list is a program if the declarations derive
all of it (`IsProgram`).

Left recursion stands as it is written in a grammar: the operators of one level and the suffixes of
an operand associate to the left because their first part is again of the same symbol.

An `else` after two open `if`s can be given to either. `ElseRule.free` allows both readings, which
is the language; `ElseRule.nearest` forbids a branch before an `else` to end in an `if` that could
still take it, which is the tree that is meant.
-/

namespace LoxLang

/-- The mark of an operator that steps a variable. -/
def StepOp.mark : StepOp → Mark
  | increment => .plusPlus
  | decrement => .minusMinus

/-- Whether the statement ends in an `if` that has no `else` yet. -/
def Stmt.leavesIfOpen : Stmt → Bool
  | conditional _ _ _ none => true
  | conditional _ _ _ (some no) => no.leavesIfOpen
  | whileLoop _ _ body => body.leavesIfOpen
  | forLoop _ _ _ _ body => body.leavesIfOpen
  | _ => false

namespace Grammar

/-- To which `if` an `else` may belong. -/
inductive ElseRule where
  /-- To any that is still open. -/
  | free
  /-- To the nearest that is still open. -/
  | nearest
deriving DecidableEq

/-- The symbols of the grammar. -/
inductive Symbol where
  | expr
  /-- Operands joined by operators of these levels, the loosest first. -/
  | binary (levels : List (List (Mark × BinaryOp)))
  | unary
  | call
  | primary
  /-- One or more arguments. -/
  | args
  /-- The parameters and the body of a function that starts at an offset and has this name. -/
  | function (start : Nat) (name : String)
  /-- One or more parameters. -/
  | params
  /-- Any number of declarations. -/
  | decls
  | decl
  | varDecl
  /-- Any number of methods. -/
  | methods
  | stmt
  /-- The first clause of a `for`, with its semicolon. -/
  | init
  /-- An expression that may be missing. -/
  | optExpr

/-- What a symbol derives. -/
@[reducible]
def Symbol.Tree : Symbol → Type
  | expr | binary _ | unary | call | primary => Expr
  | args => List Expr
  | function .. => FunDecl
  | params => List Name
  | decls => List Stmt
  | decl | varDecl | stmt => Stmt
  | methods => List FunDecl
  | init => Option Stmt
  | optExpr => Option Expr

/-- The levels of the operators between operands, the loosest first. -/
def precedence : List (List (Mark × BinaryOp)) := [
  [(.orWord, .or)],
  [(.andWord, .and)],
  [(.equalEqual, .equal), (.bangEqual, .notEqual)],
  [(.greater, .greater), (.greaterEqual, .greaterEqual), (.less, .less), (.lessEqual, .lessEqual)],
  [(.plus, .add), (.minus, .subtract)],
  [(.star, .multiply), (.slash, .divide)]]

/-- The token is a literal, and this is what it stands for. -/
inductive Denotes : Token → Literal → Prop
  | false : Denotes (.mark .falseWord) (.bool false)
  | true : Denotes (.mark .trueWord) (.bool true)
  | nil : Denotes (.mark .nilWord) .nil
  | number (x : Float) : Denotes (.number x) (.number x)
  | string (content : String) : Denotes (.string content) (.string content)

open Grammar.Symbol

/-- The symbol derives the tokens at the front of a list, up to the second list. -/
inductive Derives (rule : ElseRule) : (s : Symbol) → List Lexeme → s.Tree → List Lexeme → Prop
  -- expressions
  | assign {x eq : Lexeme} {n : String} {v : Expr} {ts us : List Lexeme}
      (hx : x.token = .identifier n) (heq : eq.token = .mark .equal)
      (hv : Derives rule expr ts v us) :
      Derives rule expr (x :: eq :: ts) (Expr.assign (x.span.through v.span) n v) us
  | setProperty {dot x eq : Lexeme} {n : String} {e v : Expr} {ts us vs : List Lexeme}
      (he : Derives rule call ts e (dot :: x :: eq :: us)) (hdot : dot.token = .mark .dot)
      (hx : x.token = .identifier n) (heq : eq.token = .mark .equal)
      (hv : Derives rule expr us v vs) :
      Derives rule expr ts (Expr.setProperty (e.span.through v.span) e n v) vs
  | operators {e : Expr} {ts us : List Lexeme}
      (he : Derives rule (binary precedence) ts e us) : Derives rule expr ts e us
  | join {o : Lexeme} {m : Mark} {op : BinaryOp} {level : List (Mark × BinaryOp)}
      {tighter : List (List (Mark × BinaryOp))} {l r : Expr} {ts us vs : List Lexeme}
      (hl : Derives rule (binary (level :: tighter)) ts l (o :: us)) (hop : (m, op) ∈ level)
      (ho : o.token = .mark m) (hr : Derives rule (binary tighter) us r vs) :
      Derives rule (binary (level :: tighter)) ts (Expr.binary (l.span.through r.span) op l r) vs
  | tighter {level : List (Mark × BinaryOp)} {tighter : List (List (Mark × BinaryOp))} {e : Expr}
      {ts us : List Lexeme} (he : Derives rule (binary tighter) ts e us) :
      Derives rule (binary (level :: tighter)) ts e us
  | operand {e : Expr} {ts us : List Lexeme} (he : Derives rule unary ts e us) :
      Derives rule (binary []) ts e us
  | not {o : Lexeme} {e : Expr} {ts us : List Lexeme} (ho : o.token = .mark .bang)
      (he : Derives rule unary ts e us) :
      Derives rule unary (o :: ts) (Expr.unary (o.span.through e.span) .not e) us
  | negate {o : Lexeme} {e : Expr} {ts us : List Lexeme} (ho : o.token = .mark .minus)
      (he : Derives rule unary ts e us) :
      Derives rule unary (o :: ts) (Expr.unary (o.span.through e.span) .negate e) us
  | stepBefore {o x : Lexeme} {op : StepOp} {n : String} {ts : List Lexeme}
      (ho : o.token = .mark op.mark) (hx : x.token = .identifier n) :
      Derives rule unary (o :: x :: ts) (Expr.step (o.span.through x.span) .before op n) ts
  | suffixed {e : Expr} {ts us : List Lexeme} (he : Derives rule call ts e us) :
      Derives rule unary ts e us
  | callNone {l r : Lexeme} {e : Expr} {ts us : List Lexeme}
      (he : Derives rule call ts e (l :: r :: us)) (hl : l.token = .mark .leftParen)
      (hr : r.token = .mark .rightParen) :
      Derives rule call ts (Expr.call (e.span.through r.span) e []) us
  | callSome {l r : Lexeme} {e : Expr} {as : List Expr} {ts us vs : List Lexeme}
      (he : Derives rule call ts e (l :: us)) (hl : l.token = .mark .leftParen)
      (has : Derives rule args us as (r :: vs)) (hlimit : as.length ≤ 255)
      (hr : r.token = .mark .rightParen) :
      Derives rule call ts (Expr.call (e.span.through r.span) e as) vs
  | property {dot x : Lexeme} {n : String} {e : Expr} {ts us : List Lexeme}
      (he : Derives rule call ts e (dot :: x :: us)) (hdot : dot.token = .mark .dot)
      (hx : x.token = .identifier n) :
      Derives rule call ts (Expr.property (e.span.through x.span) e n) us
  | atom {e : Expr} {ts us : List Lexeme} (he : Derives rule primary ts e us) :
      Derives rule call ts e us
  | arg {e : Expr} {ts us : List Lexeme} (he : Derives rule expr ts e us) :
      Derives rule args ts [e] us
  | argThen {comma : Lexeme} {e : Expr} {es : List Expr} {ts us vs : List Lexeme}
      (he : Derives rule expr ts e (comma :: us)) (hcomma : comma.token = .mark .comma)
      (hes : Derives rule args us es vs) : Derives rule args ts (e :: es) vs
  | literal {x : Lexeme} {v : Literal} {ts : List Lexeme} (hx : Denotes x.token v) :
      Derives rule primary (x :: ts) (Expr.literal x.span v) ts
  | name {x : Lexeme} {n : String} {ts : List Lexeme} (hx : x.token = .identifier n) :
      Derives rule primary (x :: ts) (Expr.var x.span n) ts
  | stepAfter {x o : Lexeme} {op : StepOp} {n : String} {ts : List Lexeme}
      (hx : x.token = .identifier n) (ho : o.token = .mark op.mark) :
      Derives rule primary (x :: o :: ts) (Expr.step (x.span.through o.span) .after op n) ts
  | this {w : Lexeme} {ts : List Lexeme} (hw : w.token = .mark .thisWord) :
      Derives rule primary (w :: ts) (Expr.this w.span) ts
  | super {w dot x : Lexeme} {n : String} {ts : List Lexeme} (hw : w.token = .mark .superWord)
      (hdot : dot.token = .mark .dot) (hx : x.token = .identifier n) :
      Derives rule primary (w :: dot :: x :: ts) (Expr.super (w.span.through x.span) n) ts
  | group {l r : Lexeme} {e : Expr} {ts us : List Lexeme} (hl : l.token = .mark .leftParen)
      (he : Derives rule expr ts e (r :: us)) (hr : r.token = .mark .rightParen) :
      Derives rule primary (l :: ts) (Expr.group (l.span.through r.span) e) us
  | lambda {w : Lexeme} {f : FunDecl} {ts us : List Lexeme} (hw : w.token = .mark .funWord)
      (hf : Derives rule (function w.span.start FunDecl.anonymous) ts f us) :
      Derives rule primary (w :: ts) (Expr.lambda f) us
  | optNone {ts : List Lexeme} : Derives rule optExpr ts none ts
  | optSome {e : Expr} {ts us : List Lexeme} (he : Derives rule expr ts e us) :
      Derives rule optExpr ts (some e) us
  -- functions
  | functionNone {start : Nat} {n : String} {l r b z : Lexeme} {body : List Stmt}
      {ts us : List Lexeme} (hl : l.token = .mark .leftParen) (hr : r.token = .mark .rightParen)
      (hb : b.token = .mark .leftBrace) (hbody : Derives rule decls ts body (z :: us))
      (hz : z.token = .mark .rightBrace) :
      Derives rule (function start n) (l :: r :: b :: ts)
        (FunDecl.mk ⟨start, z.span.stop⟩ n [] body) us
  | functionSome {start : Nat} {n : String} {l r b z : Lexeme} {ps : List Name}
      {body : List Stmt} {ts us vs : List Lexeme} (hl : l.token = .mark .leftParen)
      (hps : Derives rule params ts ps (r :: b :: us)) (hlimit : ps.length ≤ 255)
      (hr : r.token = .mark .rightParen) (hb : b.token = .mark .leftBrace)
      (hbody : Derives rule decls us body (z :: vs)) (hz : z.token = .mark .rightBrace) :
      Derives rule (function start n) (l :: ts) (FunDecl.mk ⟨start, z.span.stop⟩ n ps body) vs
  | param {x : Lexeme} {n : String} {ts : List Lexeme} (hx : x.token = .identifier n) :
      Derives rule params (x :: ts) [(⟨n, x.span⟩ : Name)] ts
  | paramThen {x comma : Lexeme} {n : String} {ps : List Name} {ts us : List Lexeme}
      (hx : x.token = .identifier n) (hcomma : comma.token = .mark .comma)
      (hps : Derives rule params ts ps us) :
      Derives rule params (x :: comma :: ts) ((⟨n, x.span⟩ : Name) :: ps) us
  -- declarations
  | declsNil {ts : List Lexeme} : Derives rule decls ts ([] : List Stmt) ts
  | declsCons {d : Stmt} {ds : List Stmt} {ts us vs : List Lexeme}
      (hd : Derives rule decl ts d us) (hds : Derives rule decls us ds vs) :
      Derives rule decls ts (d :: ds) vs
  | classPlain {w x b z : Lexeme} {n : String} {ms : List FunDecl} {ts us : List Lexeme}
      (hw : w.token = .mark .classWord) (hx : x.token = .identifier n)
      (hb : b.token = .mark .leftBrace) (hms : Derives rule methods ts ms (z :: us))
      (hz : z.token = .mark .rightBrace) :
      Derives rule decl (w :: x :: b :: ts) (Stmt.classDecl (w.span.through z.span) n none ms) us
  | classInheriting {w x less y b z : Lexeme} {n m : String} {ms : List FunDecl}
      {ts us : List Lexeme} (hw : w.token = .mark .classWord) (hx : x.token = .identifier n)
      (hless : less.token = .mark .less) (hy : y.token = .identifier m)
      (hb : b.token = .mark .leftBrace) (hms : Derives rule methods ts ms (z :: us))
      (hz : z.token = .mark .rightBrace) :
      Derives rule decl (w :: x :: less :: y :: b :: ts)
        (Stmt.classDecl (w.span.through z.span) n (some ⟨m, y.span⟩) ms) us
  | methodsNil {ts : List Lexeme} : Derives rule methods ts ([] : List FunDecl) ts
  | methodsCons {x : Lexeme} {n : String} {f : FunDecl} {fs : List FunDecl}
      {ts us vs : List Lexeme} (hx : x.token = .identifier n)
      (hf : Derives rule (function x.span.start n) ts f us) (hfs : Derives rule methods us fs vs) :
      Derives rule methods (x :: ts) (f :: fs) vs
  | funDecl {w x : Lexeme} {n : String} {f : FunDecl} {ts us : List Lexeme}
      (hw : w.token = .mark .funWord) (hx : x.token = .identifier n)
      (hf : Derives rule (function w.span.start n) ts f us) :
      Derives rule decl (w :: x :: ts) (Stmt.funDecl f) us
  | declVar {d : Stmt} {ts us : List Lexeme} (hd : Derives rule varDecl ts d us) :
      Derives rule decl ts d us
  | declStmt {d : Stmt} {ts us : List Lexeme} (hd : Derives rule stmt ts d us) :
      Derives rule decl ts d us
  | varNone {w x s : Lexeme} {n : String} {ts : List Lexeme} (hw : w.token = .mark .varWord)
      (hx : x.token = .identifier n) (hs : s.token = .mark .semicolon) :
      Derives rule varDecl (w :: x :: s :: ts) (Stmt.varDecl (w.span.through s.span) n none) ts
  | varSome {w x eq s : Lexeme} {n : String} {v : Expr} {ts us : List Lexeme}
      (hw : w.token = .mark .varWord) (hx : x.token = .identifier n)
      (heq : eq.token = .mark .equal) (hv : Derives rule expr ts v (s :: us))
      (hs : s.token = .mark .semicolon) :
      Derives rule varDecl (w :: x :: eq :: ts)
        (Stmt.varDecl (w.span.through s.span) n (some v)) us
  -- statements
  | exprStmt {s : Lexeme} {v : Expr} {ts us : List Lexeme} (hv : Derives rule expr ts v (s :: us))
      (hs : s.token = .mark .semicolon) :
      Derives rule stmt ts (Stmt.expression (v.span.through s.span) v) us
  | print {w s : Lexeme} {v : Expr} {ts us : List Lexeme} (hw : w.token = .mark .printWord)
      (hv : Derives rule expr ts v (s :: us)) (hs : s.token = .mark .semicolon) :
      Derives rule stmt (w :: ts) (Stmt.print (w.span.through s.span) v) us
  | returns {w s : Lexeme} {v : Option Expr} {ts us : List Lexeme}
      (hw : w.token = .mark .returnWord) (hv : Derives rule optExpr ts v (s :: us))
      (hs : s.token = .mark .semicolon) :
      Derives rule stmt (w :: ts) (Stmt.returns (w.span.through s.span) v) us
  | block {b z : Lexeme} {body : List Stmt} {ts us : List Lexeme}
      (hb : b.token = .mark .leftBrace) (hbody : Derives rule decls ts body (z :: us))
      (hz : z.token = .mark .rightBrace) :
      Derives rule stmt (b :: ts) (Stmt.block ⟨b.span.start, z.span.stop⟩ body) us
  | ifOnly {w l r : Lexeme} {c : Expr} {yes : Stmt} {ts us vs : List Lexeme}
      (hw : w.token = .mark .ifWord) (hl : l.token = .mark .leftParen)
      (hc : Derives rule expr ts c (r :: us)) (hr : r.token = .mark .rightParen)
      (hyes : Derives rule stmt us yes vs) :
      Derives rule stmt (w :: l :: ts) (Stmt.conditional (w.span.through yes.span) c yes none) vs
  | ifElse {w l r e : Lexeme} {c : Expr} {yes no : Stmt} {ts us vs ws : List Lexeme}
      (hw : w.token = .mark .ifWord) (hl : l.token = .mark .leftParen)
      (hc : Derives rule expr ts c (r :: us)) (hr : r.token = .mark .rightParen)
      (hyes : Derives rule stmt us yes (e :: vs)) (he : e.token = .mark .elseWord)
      (hnear : rule = .nearest → yes.leavesIfOpen = false) (hno : Derives rule stmt vs no ws) :
      Derives rule stmt (w :: l :: ts)
        (Stmt.conditional (w.span.through no.span) c yes (some no)) ws
  | whileLoop {w l r : Lexeme} {c : Expr} {body : Stmt} {ts us vs : List Lexeme}
      (hw : w.token = .mark .whileWord) (hl : l.token = .mark .leftParen)
      (hc : Derives rule expr ts c (r :: us)) (hr : r.token = .mark .rightParen)
      (hbody : Derives rule stmt us body vs) :
      Derives rule stmt (w :: l :: ts) (Stmt.whileLoop (w.span.through body.span) c body) vs
  | forLoop {w l s r : Lexeme} {i : Option Stmt} {c u : Option Expr} {body : Stmt}
      {ts us vs ws xs : List Lexeme} (hw : w.token = .mark .forWord)
      (hl : l.token = .mark .leftParen) (hi : Derives rule init ts i us)
      (hc : Derives rule optExpr us c (s :: vs)) (hs : s.token = .mark .semicolon)
      (hu : Derives rule optExpr vs u (r :: ws)) (hr : r.token = .mark .rightParen)
      (hbody : Derives rule stmt ws body xs) :
      Derives rule stmt (w :: l :: ts) (Stmt.forLoop (w.span.through body.span) i c u body) xs
  | initNone {s : Lexeme} {ts : List Lexeme} (hs : s.token = .mark .semicolon) :
      Derives rule init (s :: ts) none ts
  | initVar {d : Stmt} {ts us : List Lexeme} (hd : Derives rule varDecl ts d us) :
      Derives rule init ts (some d) us
  | initExpr {s : Lexeme} {v : Expr} {ts us : List Lexeme} (hv : Derives rule expr ts v (s :: us))
      (hs : s.token = .mark .semicolon) :
      Derives rule init ts (some (Stmt.expression (v.span.through s.span) v)) us

/-- The whole list is a program with this tree. -/
def IsProgram (rule : ElseRule) (ts : List Lexeme) (p : Program) : Prop :=
  Derives rule decls ts p []

end Grammar

end LoxLang
