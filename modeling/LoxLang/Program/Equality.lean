import LoxLang.Program

/-!
# Equality of programs

Whether two trees are the same can be decided: they are walked together, and compared node by node
with their spans, names and values. So what a text is read as can be checked by evaluation.
-/

namespace LoxLang

mutual

/-- Whether two expressions are the same. -/
def Expr.same : Expr → Expr → Bool
  | .literal s v, .literal s' v' => s == s' && v == v'
  | .var s x, .var s' x' => s == s' && x == x'
  | .assign s x v, .assign s' x' v' => s == s' && x == x' && v.same v'
  | .step s side op x, .step s' side' op' x' => s == s' && side == side' && op == op' && x == x'
  | .group s e, .group s' e' => s == s' && e.same e'
  | .unary s op e, .unary s' op' e' => s == s' && op == op' && e.same e'
  | .binary s op l r, .binary s' op' l' r' => s == s' && op == op' && l.same l' && r.same r'
  | .call s f as, .call s' f' as' => s == s' && f.same f' && Expr.allSame as as'
  | .property s e x, .property s' e' x' => s == s' && e.same e' && x == x'
  | .setProperty s e x v, .setProperty s' e' x' v' => s == s' && e.same e' && x == x' && v.same v'
  | .this s, .this s' => s == s'
  | .super s x, .super s' x' => s == s' && x == x'
  | .lambda f, .lambda f' => f.same f'
  | _, _ => false

/-- Whether two lists of expressions are the same. -/
def Expr.allSame : List Expr → List Expr → Bool
  | [], [] => true
  | e :: es, e' :: es' => e.same e' && Expr.allSame es es'
  | _, _ => false

/-- Whether two expressions that may be missing are the same. -/
def Expr.same? : Option Expr → Option Expr → Bool
  | none, none => true
  | some e, some e' => e.same e'
  | _, _ => false

/-- Whether two functions are the same. -/
def FunDecl.same : FunDecl → FunDecl → Bool
  | .mk s x params body, .mk s' x' params' body' =>
    s == s' && x == x' && params == params' && Stmt.allSame body body'

/-- Whether two lists of functions are the same. -/
def FunDecl.allSame : List FunDecl → List FunDecl → Bool
  | [], [] => true
  | f :: fs, f' :: fs' => f.same f' && FunDecl.allSame fs fs'
  | _, _ => false

/-- Whether two statements are the same. -/
def Stmt.same : Stmt → Stmt → Bool
  | .expression s e, .expression s' e' => s == s' && e.same e'
  | .print s e, .print s' e' => s == s' && e.same e'
  | .varDecl s x v, .varDecl s' x' v' => s == s' && x == x' && Expr.same? v v'
  | .funDecl f, .funDecl f' => f.same f'
  | .classDecl s x above fs, .classDecl s' x' above' fs' =>
    s == s' && x == x' && above == above' && FunDecl.allSame fs fs'
  | .block s body, .block s' body' => s == s' && Stmt.allSame body body'
  | .conditional s e yes no, .conditional s' e' yes' no' =>
    s == s' && e.same e' && yes.same yes' && Stmt.same? no no'
  | .whileLoop s e body, .whileLoop s' e' body' => s == s' && e.same e' && body.same body'
  | .forLoop s init e step body, .forLoop s' init' e' step' body' =>
    s == s' && Stmt.same? init init' && Expr.same? e e' && Expr.same? step step' && body.same body'
  | .returns s v, .returns s' v' => s == s' && Expr.same? v v'
  | _, _ => false

/-- Whether two lists of statements are the same. -/
def Stmt.allSame : List Stmt → List Stmt → Bool
  | [], [] => true
  | s :: ss, s' :: ss' => s.same s' && Stmt.allSame ss ss'
  | _, _ => false

/-- Whether two statements that may be missing are the same. -/
def Stmt.same? : Option Stmt → Option Stmt → Bool
  | none, none => true
  | some s, some s' => s.same s'
  | _, _ => false

end

mutual

/-- Expressions are found to be the same just if they are. -/
theorem Expr.same_iff (a b : Expr) : a.same b = true ↔ a = b := by
  cases a <;> cases b <;>
    simp [Expr.same, Expr.same_iff, Expr.allSame_iff, FunDecl.same_iff, and_assoc]
termination_by structural a

theorem Expr.allSame_iff (as bs : List Expr) : Expr.allSame as bs = true ↔ as = bs := by
  cases as <;> cases bs <;> simp [Expr.allSame, Expr.same_iff, Expr.allSame_iff]
termination_by structural as

theorem Expr.same?_iff (a b : Option Expr) : Expr.same? a b = true ↔ a = b := by
  cases a <;> cases b <;> simp [Expr.same?, Expr.same_iff]
termination_by structural a

theorem FunDecl.same_iff (f g : FunDecl) : f.same g = true ↔ f = g := by
  cases f
  cases g
  simp [FunDecl.same, Stmt.allSame_iff, and_assoc]
termination_by structural f

theorem FunDecl.allSame_iff (fs gs : List FunDecl) : FunDecl.allSame fs gs = true ↔ fs = gs := by
  cases fs <;> cases gs <;> simp [FunDecl.allSame, FunDecl.same_iff, FunDecl.allSame_iff]
termination_by structural fs

/-- Statements are found to be the same just if they are. -/
theorem Stmt.same_iff (a b : Stmt) : a.same b = true ↔ a = b := by
  cases a <;> cases b <;>
    simp [Stmt.same, Expr.same_iff, Expr.same?_iff, FunDecl.same_iff, FunDecl.allSame_iff,
      Stmt.same_iff, Stmt.same?_iff, Stmt.allSame_iff, and_assoc]
termination_by structural a

theorem Stmt.allSame_iff (as bs : List Stmt) : Stmt.allSame as bs = true ↔ as = bs := by
  cases as <;> cases bs <;> simp [Stmt.allSame, Stmt.same_iff, Stmt.allSame_iff]
termination_by structural as

theorem Stmt.same?_iff (a b : Option Stmt) : Stmt.same? a b = true ↔ a = b := by
  cases a <;> cases b <;> simp [Stmt.same?, Stmt.same_iff]
termination_by structural a

end

instance : DecidableEq Expr := fun a b ↦ decidable_of_iff _ (Expr.same_iff a b)

instance : DecidableEq FunDecl := fun f g ↦ decidable_of_iff _ (FunDecl.same_iff f g)

instance : DecidableEq Stmt := fun a b ↦ decidable_of_iff _ (Stmt.same_iff a b)

end LoxLang
