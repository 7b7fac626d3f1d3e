import LoxLang.Program.Distances
import LoxLang.Proofs.Relocation

/-!
# Scopes of relocated programs

The walk that finds the distances of references copies spans and never looks at them. So what it
finds in a program whose spans are replaced is what it finds in the program, with the same spans
replaced (`Program.distances_relocate`).
-/

namespace LoxLang

/-- The finding at another place. -/
def Finding.relocate (f : Span → Span) : Finding → Finding
  | .distance span hops => .distance (f span) hops
  | .fault e => .fault (e.relocate f)

/-- The distances of the same references at other places. -/
def Distances.relocate (f : Span → Span) (table : Distances) : Distances :=
  table.map fun (span, hops) ↦ (f span, hops)

namespace Finding

section Places

variable (f : Span → Span) (cx : Surroundings) (s : Scopes) (span : Span) (name : String)

/-- A moved name refers to the same declaration. -/
theorem reference_relocate :
    reference s (f span) name = (reference s span name).map (relocate f) := by
  unfold reference
  cases s.hops? name <;> rfl

/-- What is found at a moved read is moved. -/
theorem reading_relocate :
    reading s (f span) name = (reading s span name).map (relocate f) := by
  unfold reading
  rw [List.map_append, reference_relocate]
  split <;> rfl

/-- A moved declaration changes the scopes alike, and its fault is moved. -/
theorem declaring_relocate :
    declaring s (f span) name =
      ((declaring s span name).1, (declaring s span name).2.map (relocate f)) := by
  unfold declaring Scopes.declarationFault?
  cases s.locals with
  | nil => rfl
  | cons scope rest =>
    dsimp only
    split <;> rfl

/-- A moved name is declared and finished alike, and its fault is moved. -/
theorem defining_relocate :
    defining s (f span) name =
      ((defining s span name).1, (defining s span name).2.map (relocate f)) := by
  unfold defining Scopes.declarationFault?
  cases s.locals with
  | nil => rfl
  | cons scope rest =>
    dsimp only
    split <;> rfl

/-- Moved parameters are declared alike, and their faults are moved. -/
theorem parameters_relocate (params : List Name) :
    parameters s (params.map (Name.relocate f)) =
      ((parameters s params).1, (parameters s params).2.map (relocate f)) := by
  induction params generalizing s with
  | nil => rfl
  | cons p rest ih =>
    rw [List.map_cons, parameters, parameters, Name.span_relocate, Name.text_relocate,
      defining_relocate]
    simp only [ih, List.map_append]

theorem superFaults_relocate :
    superFaults cx (f span) = (superFaults cx span).map (relocate f) := by
  unfold superFaults
  split
  · rfl
  · split <;> rfl

theorem thisFaults_relocate : thisFaults cx (f span) = (thisFaults cx span).map (relocate f) := by
  unfold thisFaults
  split <;> rfl

theorem returnFaults_relocate (hasValue : Bool) :
    returnFaults cx (f span) hasValue = (returnFaults cx span hasValue).map (relocate f) := by
  unfold returnFaults
  rw [List.map_append]
  congr 1 <;> split <;> rfl

/-- A moved superclass is read alike, and the faults are moved. -/
theorem superclass_relocate (parent : Name) :
    superclass s name (parent.relocate f) = (superclass s name parent).map (relocate f) := by
  unfold superclass
  rw [List.map_append, Name.span_relocate, Name.text_relocate, reading_relocate]
  congr 1
  split <;> rfl

end Places

variable (f : Span → Span)

mutual

/-- What is found in a moved expression is moved. -/
theorem ofExpr_relocate (cx : Surroundings) (s : Scopes) : ∀ e : Expr,
    ofExpr cx s (e.relocate f) = (ofExpr cx s e).map (relocate f)
  | .literal .. => rfl
  | .var span name => by rw [Expr.relocate, ofExpr, ofExpr, reading_relocate]
  | .step span _ _ name => by rw [Expr.relocate, ofExpr, ofExpr, reference_relocate]
  | .assign span name e => by
    rw [Expr.relocate, ofExpr, ofExpr, ofExpr_relocate cx s e, reference_relocate,
      List.map_append]
  | .group _ e | .unary _ _ e | .property _ e _ => by
    rw [Expr.relocate, ofExpr, ofExpr, ofExpr_relocate cx s e]
  | .binary _ _ a b | .setProperty _ b _ a => by
    rw [Expr.relocate, ofExpr, ofExpr, ofExpr_relocate cx s a, ofExpr_relocate cx s b,
      List.map_append]
  | .call _ callee arguments => by
    rw [Expr.relocate, ofExpr, ofExpr, ofExpr_relocate cx s callee,
      ofExprs_relocate cx s arguments, List.map_append]
  | .this span => by
    rw [Expr.relocate, ofExpr, ofExpr, thisFaults_relocate, reference_relocate, List.map_append]
  | .super span _ => by
    rw [Expr.relocate, ofExpr, ofExpr, superFaults_relocate, reference_relocate,
      List.map_append]
  | .lambda function => by
    rw [Expr.relocate, ofExpr, ofExpr, ofFunction_relocate cx s .plain function]

theorem ofExprs_relocate (cx : Surroundings) (s : Scopes) : ∀ es : List Expr,
    ofExprs cx s (Expr.relocateAll f es) = (ofExprs cx s es).map (relocate f)
  | [] => rfl
  | e :: rest => by
    rw [Expr.relocateAll, ofExprs, ofExprs, ofExpr_relocate cx s e, ofExprs_relocate cx s rest,
      List.map_append]

theorem ofExpr?_relocate (cx : Surroundings) (s : Scopes) : ∀ e : Option Expr,
    ofExpr? cx s (Expr.relocate? f e) = (ofExpr? cx s e).map (relocate f)
  | none => rfl
  | some e => by rw [Expr.relocate?, ofExpr?, ofExpr?, ofExpr_relocate cx s e]

/-- What is found in a moved function is moved. -/
theorem ofFunction_relocate (cx : Surroundings) (s : Scopes) (kind : FunctionKind) :
    ∀ function : FunDecl,
      ofFunction cx s kind (function.relocate f) = (ofFunction cx s kind function).map (relocate f)
  | .mk _ _ params body => by
    rw [FunDecl.relocate, ofFunction, ofFunction, parameters_relocate]
    simp only [ofStmts_relocate _ _ body, List.map_append]

theorem ofMethods_relocate (cx : Surroundings) (s : Scopes) : ∀ functions : List FunDecl,
    ofMethods cx s (FunDecl.relocateAll f functions) =
      (ofMethods cx s functions).map (relocate f)
  | [] => rfl
  | function :: rest => by
    have hkind : methodKind (function.relocate f) = methodKind function := by
      unfold methodKind
      rw [FunDecl.isInitializer_relocate]
    rw [FunDecl.relocateAll, ofMethods, ofMethods, hkind, ofFunction_relocate _ _ _ function,
      ofMethods_relocate cx s rest, List.map_append]

/-- A moved statement changes the scopes alike, and what is found in it is moved. -/
theorem ofStmt_relocate (cx : Surroundings) (s : Scopes) : ∀ stmt : Stmt,
    ofStmt cx s (stmt.relocate f) = ((ofStmt cx s stmt).1, (ofStmt cx s stmt).2.map (relocate f))
  | .expression _ e | .print _ e => by
    rw [Stmt.relocate, ofStmt, ofStmt, ofExpr_relocate cx s e]
  | .varDecl span name value => by
    rw [Stmt.relocate, ofStmt, ofStmt, declaring_relocate]
    simp only [ofExpr?_relocate _ _ value, List.map_append]
  | .funDecl function => by
    rw [Stmt.relocate, ofStmt, ofStmt, FunDecl.span_relocate, FunDecl.name_relocate,
      defining_relocate]
    simp only [ofFunction_relocate _ _ _ function, List.map_append]
  | .classDecl span name parent methods => by
    rw [Stmt.relocate, ofStmt, ofStmt, defining_relocate, Option.isSome_map]
    simp only [ofMethods_relocate _ _ methods, List.map_append]
    cases parent with
    | none => rfl
    | some n => simp only [Option.map_some, Option.elim, superclass_relocate]
  | .block _ body => by
    rw [Stmt.relocate, ofStmt, ofStmt, ofStmts_relocate _ _ body]
  | .conditional _ condition yes no => by
    rw [Stmt.relocate, ofStmt, ofStmt]
    simp only [ofExpr_relocate _ _ condition, ofStmt_relocate _ _ yes, ofStmt?_relocate _ _ no,
      List.map_append]
  | .whileLoop _ condition body => by
    rw [Stmt.relocate, ofStmt, ofStmt]
    simp only [ofExpr_relocate _ _ condition, ofStmt_relocate _ _ body, List.map_append]
  | .forLoop _ init condition step body => by
    rw [Stmt.relocate, ofStmt, ofStmt]
    simp only [ofStmt?_relocate _ _ init, ofExpr?_relocate _ _ condition,
      ofExpr?_relocate _ _ step, ofStmt_relocate _ _ body, List.map_append]
  | .returns span value => by
    have hvalue : (Expr.relocate? f value).isSome = value.isSome := by
      cases value <;> rfl
    rw [Stmt.relocate, ofStmt, ofStmt, hvalue, returnFaults_relocate, ofExpr?_relocate _ _ value,
      List.map_append]

theorem ofStmts_relocate (cx : Surroundings) (s : Scopes) : ∀ stmts : List Stmt,
    ofStmts cx s (Stmt.relocateAll f stmts) =
      ((ofStmts cx s stmts).1, (ofStmts cx s stmts).2.map (relocate f))
  | [] => rfl
  | stmt :: rest => by
    rw [Stmt.relocateAll, ofStmts, ofStmts]
    simp only [ofStmt_relocate _ _ stmt, ofStmts_relocate _ _ rest, List.map_append]

theorem ofStmt?_relocate (cx : Surroundings) (s : Scopes) : ∀ stmt : Option Stmt,
    ofStmt? cx s (Stmt.relocate? f stmt) =
      ((ofStmt? cx s stmt).1, (ofStmt? cx s stmt).2.map (relocate f))
  | none => rfl
  | some stmt => by rw [Stmt.relocate?, ofStmt?, ofStmt?, ofStmt_relocate _ _ stmt]

end

/-- The faults among moved findings are the moved faults. -/
theorem faults_relocate (found : List Finding) :
    faults (found.map (relocate f)) = (faults found).map (Fault.relocate f) := by
  unfold faults
  rw [List.filterMap_map, List.map_filterMap]
  congr 1
  funext finding
  cases finding <;> rfl

/-- The distances among moved findings are those of the moved references. -/
theorem distances_relocate (found : List Finding) :
    distances (found.map (relocate f)) = (distances found).relocate f := by
  unfold distances Distances.relocate
  rw [List.filterMap_map, List.map_filterMap]
  congr 1
  funext finding
  cases finding <;> rfl

end Finding

/-- The references of a relocated program have the same distances at their new places, or it has
the same faults there. -/
theorem Program.distances_relocate (f : Span → Span) (globals : List String) (p : Program) :
    (p.relocate f).distances globals =
      match p.distances globals with
      | .ok table => .ok (table.relocate f)
      | .error faults => .error (faults.map (Fault.relocate f)) := by
  unfold distances findings relocate
  rw [← Stmt.relocateAll_eq, Finding.ofStmts_relocate]
  simp only [Finding.faults_relocate, Finding.distances_relocate, List.isEmpty_map]
  split <;> rfl

end LoxLang
