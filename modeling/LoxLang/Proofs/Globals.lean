import LoxLang.Proofs.Layers.Resolved

/-!
# The names of the global scope

A program adds to the global scope just the names that its statements bind (`Stmt.binds`). For the
walk over the text they are finished once the program has been walked (`Scopes.Settled.ofStmts`).

Two walks that begin with related scopes find what is related, if that is so at each reference
(`Scopes.Kept.ofStmts`). So a walk that knows more names from the start finds the same, but for some
faults that it does not find (`Scopes.Precedes.ofStmts`): a name that is bound already can be read
in the initializer of its new declaration.
-/

namespace LoxLang

open Finding

/-! ### What statements bind -/

mutual

/-- The names that the statement may bind in the scope in which it stands. -/
def Stmt.binds : Stmt → List String
  | .varDecl _ x _ => [x]
  | .funDecl f => [f.name]
  | .classDecl _ x _ _ => [x]
  | .conditional _ _ yes no => yes.binds ++ Stmt.binds? no
  | .whileLoop _ _ body => body.binds
  | _ => []

@[inherit_doc Stmt.binds]
def Stmt.binds? : Option Stmt → List String
  | none => []
  | some s => s.binds

end

/-- The names that the program may bind in the global scope. -/
def Program.binds (p : Program) : List String := p.flatMap Stmt.binds

/-! ### The walk at the top of a program -/

namespace Scopes

variable {S T U : Scopes} {new new' : List String}

theorem lookup_cons (x y : String) (b : Bool) (scope : Scope) :
    List.lookup y ((x, b) :: scope) = if y = x then some b else scope.lookup y := by
  rw [List.lookup_cons]
  by_cases h : y = x
  · rw [if_pos h, h, BEq.rfl]
  · rw [if_neg h, beq_false_of_ne h]

/-- A global name that is declared stays finished if it was. -/
theorem lookup_declare (hS : S.locals = []) (x y : String) :
    (S.declare x).globals.lookup y =
      if y = x then some ((S.globals.lookup x).getD false) else S.globals.lookup y := by
  obtain ⟨locals, globals⟩ := S
  obtain rfl : locals = [] := hS
  unfold declare Scope.declares
  dsimp only
  cases hx : globals.lookup x with
  | none => exact lookup_cons ..
  | some b =>
    change globals.lookup y = _
    split
    · rename_i h
      rw [h, hx]
      rfl
    · rfl

/-- Among the global names only the one that is defined becomes finished. -/
theorem lookup_define (hS : S.locals = []) (x y : String) :
    (S.define x).globals.lookup y = if y = x then some true else S.globals.lookup y := by
  obtain ⟨locals, globals⟩ := S
  obtain rfl : locals = [] := hS
  exact lookup_cons ..

theorem locals_declare (hS : S.locals = []) (x : String) : (S.declare x).locals = [] := by
  obtain ⟨locals, globals⟩ := S
  obtain rfl : locals = [] := hS
  unfold declare
  dsimp only
  split <;> rfl

theorem locals_define (hS : S.locals = []) (x : String) : (S.define x).locals = [] := by
  obtain ⟨locals, globals⟩ := S
  obtain rfl : locals = [] := hS
  rfl

/-- Only the global scope is open, and all of its names are finished. -/
structure Settled (S : Scopes) : Prop where
  top : S.locals = []
  finished : ∀ x, S.globals.lookup x ≠ some false

/-- At the beginning of a program no local scope is open, and the known names are finished. -/
theorem Settled.ofGlobals (names : List String) : (Scopes.ofGlobals names).Settled := by
  refine ⟨rfl, fun x hx ↦ ?_⟩
  obtain ⟨_, _, h, -⟩ := List.lookup_eq_some_iff.1 hx
  have hmem : (x, false) ∈ (Scopes.ofGlobals names).globals := by rw [h]; simp
  simp [Scopes.ofGlobals] at hmem

/-- The names that are finished at the beginning are those that are known. -/
theorem lookup_ofGlobals {names : List String} {x : String} :
    (Scopes.ofGlobals names).globals.lookup x = some true ↔ x ∈ names := by
  unfold Scopes.ofGlobals
  induction names with
  | nil => simp
  | cons y names ih =>
    rw [List.map_cons, lookup_cons, List.mem_cons]
    split <;> simp_all

/-- The scopes `T` are settled, too; all names of `S` and the names in `new` are finished there. -/
structure Settles (S : Scopes) (new : List String) (T : Scopes) : Prop extends Settled T where
  keeps : ∀ x, S.globals.lookup x = some true → T.globals.lookup x = some true
  adds : ∀ x ∈ new, T.globals.lookup x = some true

theorem Settled.refl (h : S.Settled) : S.Settles [] S := ⟨h, fun _ ↦ id, nofun⟩

/-- What was settled in one part stays settled in the next. -/
theorem Settles.trans (h : S.Settles new T) (h' : T.Settles new' U) :
    S.Settles (new ++ new') U := by
  refine ⟨h'.toSettled, fun x hx ↦ h'.keeps x (h.keeps x hx), fun x hx ↦ ?_⟩
  rcases List.mem_append.1 hx with hx | hx
  · exact h'.keeps x (h.adds x hx)
  · exact h'.adds x hx

/-- A name is declared and then finished. -/
theorem Settled.define (h : S.Settled) (x : String) : S.Settles [x] ((S.declare x).define x) := by
  have hlookup (y : String) : ((S.declare x).define x).globals.lookup y =
      if y = x then some true else S.globals.lookup y := by
    rw [lookup_define (locals_declare h.top x), lookup_declare h.top]
    split <;> rfl
  refine ⟨⟨locals_define (locals_declare h.top x) x, fun y ↦ ?_⟩, fun y hy ↦ ?_, fun y hy ↦ ?_⟩
  · rw [hlookup]
    split
    · nofun
    · exact h.finished y
  · rw [hlookup]
    split
    · rfl
    · exact hy
  · rw [hlookup, if_pos (List.mem_singleton.1 hy)]

mutual

/-- After a statement of a program the names that it binds are finished. -/
theorem Settled.ofStmt {S : Scopes} (h : S.Settled) (cx : Surroundings) (s : Stmt) :
    S.Settles s.binds (Finding.ofStmt cx S s).1 :=
  match s with
  | .varDecl _ x _ => h.define x
  | .funDecl f => h.define f.name
  | .classDecl _ x _ _ => h.define x
  | .conditional _ _ yes no =>
    have hyes := h.ofStmt cx yes
    hyes.trans (hyes.toSettled.ofStmt? cx no)
  | .whileLoop _ _ body => h.ofStmt cx body
  | .expression _ _ | .print _ _ | .block _ _ | .forLoop _ _ _ _ _ | .returns _ _ => h.refl

theorem Settled.ofStmt? {S : Scopes} (h : S.Settled) (cx : Surroundings) (s : Option Stmt) :
    S.Settles (Stmt.binds? s) (Finding.ofStmt? cx S s).1 :=
  match s with
  | none => h.refl
  | some s => h.ofStmt cx s

end

/-- After a program the names that it binds are finished. -/
theorem Settled.ofStmts (h : S.Settled) (cx : Surroundings) (p : Program) :
    S.Settles p.binds (Finding.ofStmts cx S p).1 := by
  induction p generalizing S with
  | nil => exact h.refl
  | cons s rest ih =>
    have hs := h.ofStmt cx s
    exact hs.trans (ih hs.toSettled)

/-! ### Two walks -/

/-- The same local scopes are open wherever the scopes are related, what a walk does keeps the
relation, and the relation of findings holds of all that a walk finds if it holds of what is found
at each reference. -/
structure Kept (R : Scopes → Scopes → Prop) (F : List Finding → List Finding → Prop) : Prop where
  locals : ∀ {S T}, R S T → T.locals = S.locals
  push : ∀ {S T}, R S T → ∀ scope, R (S.push scope) (T.push scope)
  declare : ∀ {S T}, R S T → ∀ x, R (S.declare x) (T.declare x)
  define : ∀ {S T}, R S T → ∀ x, R (S.define x) (T.define x)
  refl : ∀ found, F found found
  append : ∀ {found found' others others'}, F found found' → F others others' →
    F (found ++ others) (found' ++ others')
  reading : ∀ {S T}, R S T → ∀ span x, F (Finding.reading T span x) (Finding.reading S span x)

/-- What a reference refers to depends on the local scopes only. -/
theorem reference_of_locals (h : T.locals = S.locals) (span : Span) (x : String) :
    Finding.reference T span x = Finding.reference S span x := by
  unfold Finding.reference hops?
  rw [h]

/-- Whether a name may be declared depends on the local scopes only. -/
theorem declarationFault?_of_locals (h : T.locals = S.locals) (x : String) (span : Span) :
    T.declarationFault? x span = S.declarationFault? x span := by
  unfold declarationFault?
  rw [h]

namespace Kept

variable {R : Scopes → Scopes → Prop} {F : List Finding → List Finding → Prop} (k : Kept R F)

include k

/-- A reference is resolved alike in both scopes. -/
theorem reference (h : R S T) (span : Span) (x : String) :
    F (Finding.reference T span x) (Finding.reference S span x) := by
  rw [reference_of_locals (k.locals h)]
  exact k.refl _

/-- A declaration keeps the relation, and has the same fault in both scopes if it has one. -/
theorem declaring (h : R S T) (span : Span) (x : String) :
    R (Finding.declaring S span x).1 (Finding.declaring T span x).1 ∧
      F (Finding.declaring T span x).2 (Finding.declaring S span x).2 := by
  refine ⟨k.declare h x, ?_⟩
  unfold Finding.declaring
  rw [declarationFault?_of_locals (k.locals h)]
  exact k.refl _

/-- A name that is declared and finished at once. -/
theorem defining (h : R S T) (span : Span) (x : String) :
    R (Finding.defining S span x).1 (Finding.defining T span x).1 ∧
      F (Finding.defining T span x).2 (Finding.defining S span x).2 := by
  have ⟨h', hfound⟩ := k.declaring h span x
  exact ⟨k.define h' x, hfound⟩

/-- The parameters of a function keep the relation. -/
theorem parameters (h : R S T) (ps : List Name) :
    R (Finding.parameters S ps).1 (Finding.parameters T ps).1 ∧
      F (Finding.parameters T ps).2 (Finding.parameters S ps).2 := by
  induction ps generalizing S T with
  | nil => exact ⟨h, k.refl _⟩
  | cons p ps ih =>
    obtain ⟨h', hfound⟩ := k.defining h p.span p.text
    obtain ⟨h'', hothers⟩ := ih h'
    exact ⟨h'', k.append hfound hothers⟩

/-- A superclass is read alike in both scopes. -/
theorem superclass (h : R S T) (x : String) (parent : Option Name) :
    F (parent.elim [] (Finding.superclass T x)) (parent.elim [] (Finding.superclass S x)) := by
  cases parent with
  | none => exact k.refl _
  | some parent => exact k.append (k.refl _) (k.reading h parent.span parent.text)

/-- The scopes around the methods of a class keep the relation. -/
theorem methodScopes (h : R S T) (inherits : Bool) :
    R (Finding.methodScopes S inherits) (Finding.methodScopes T inherits) := by
  unfold Finding.methodScopes
  cases inherits with
  | true => exact k.push (k.push h _) _
  | false => exact k.push h _

mutual

/-- The findings in an expression are related. -/
theorem ofExpr {S T : Scopes} (h : R S T) (cx : Surroundings) (e : Expr) :
    F (Finding.ofExpr cx T e) (Finding.ofExpr cx S e) :=
  match e with
  | .literal _ _ => k.refl _
  | .var span x => k.reading h span x
  | .assign span x value => k.append (ofExpr h cx value) (k.reference h span x)
  | .step span _ _ x => k.reference h span x
  | .group _ inner => ofExpr h cx inner
  | .unary _ _ operand => ofExpr h cx operand
  | .binary _ _ left right => k.append (ofExpr h cx left) (ofExpr h cx right)
  | .call _ callee arguments => k.append (ofExpr h cx callee) (ofExprs h cx arguments)
  | .property _ object _ => ofExpr h cx object
  | .setProperty _ object _ value => k.append (ofExpr h cx value) (ofExpr h cx object)
  | .this span => k.append (k.refl _) (k.reference h span "this")
  | .super span _ => k.append (k.refl _) (k.reference h span "super")
  | .lambda f => ofFunction h cx .plain f

theorem ofExprs {S T : Scopes} (h : R S T) (cx : Surroundings) (es : List Expr) :
    F (Finding.ofExprs cx T es) (Finding.ofExprs cx S es) :=
  match es with
  | [] => k.refl _
  | e :: rest => k.append (ofExpr h cx e) (ofExprs h cx rest)

theorem ofExpr? {S T : Scopes} (h : R S T) (cx : Surroundings) (e : Option Expr) :
    F (Finding.ofExpr? cx T e) (Finding.ofExpr? cx S e) :=
  match e with
  | none => k.refl _
  | some e => ofExpr h cx e

/-- The findings in a function are related. -/
theorem ofFunction {S T : Scopes} (h : R S T) (cx : Surroundings) (kind : FunctionKind)
    (f : FunDecl) : F (Finding.ofFunction cx T kind f) (Finding.ofFunction cx S kind f) :=
  match f with
  | .mk _ _ params body =>
    have ⟨h', hparams⟩ := k.parameters (k.push h []) params
    k.append hparams (ofStmts h' { cx with function := some kind } body).2

theorem ofMethods {S T : Scopes} (h : R S T) (cx : Surroundings) (fs : List FunDecl) :
    F (Finding.ofMethods cx T fs) (Finding.ofMethods cx S fs) :=
  match fs with
  | [] => k.refl _
  | f :: rest => k.append (ofFunction h cx (methodKind f) f) (ofMethods h cx rest)

/-- A statement keeps the relation, and its findings are related. -/
theorem ofStmt {S T : Scopes} (h : R S T) (cx : Surroundings) (s : Stmt) :
    R (Finding.ofStmt cx S s).1 (Finding.ofStmt cx T s).1 ∧
      F (Finding.ofStmt cx T s).2 (Finding.ofStmt cx S s).2 :=
  match s with
  | .expression _ value => ⟨h, ofExpr h cx value⟩
  | .print _ value => ⟨h, ofExpr h cx value⟩
  | .varDecl span x value =>
    have ⟨h', hfound⟩ := k.declaring h span x
    ⟨k.define h' x, k.append hfound (ofExpr? h' cx value)⟩
  | .funDecl f =>
    have ⟨h', hfound⟩ := k.defining h f.span f.name
    ⟨h', k.append hfound (ofFunction h' cx .plain f)⟩
  | .classDecl span x parent methods =>
    have ⟨h', hfound⟩ := k.defining h span x
    ⟨h', k.append (k.append hfound (k.superclass h' x parent))
      (ofMethods (k.methodScopes h' parent.isSome) _ methods)⟩
  | .block _ body => ⟨h, (ofStmts (k.push h []) cx body).2⟩
  | .conditional _ condition yes no =>
    have ⟨h', hyes⟩ := ofStmt h cx yes
    have ⟨h'', hno⟩ := ofStmt? h' cx no
    ⟨h'', k.append (k.append (ofExpr h cx condition) hyes) hno⟩
  | .whileLoop _ condition body =>
    have ⟨h', hbody⟩ := ofStmt h cx body
    ⟨h', k.append (ofExpr h cx condition) hbody⟩
  | .forLoop _ init condition step body =>
    have ⟨h', hinit⟩ := ofStmt? (k.push h []) cx init
    ⟨h, k.append (k.append (k.append hinit (ofExpr? h' cx condition)) (ofExpr? h' cx step))
      (ofStmt h' cx body).2⟩
  | .returns _ value => ⟨h, k.append (k.refl _) (ofExpr? h cx value)⟩

theorem ofStmts {S T : Scopes} (h : R S T) (cx : Surroundings) (ss : List Stmt) :
    R (Finding.ofStmts cx S ss).1 (Finding.ofStmts cx T ss).1 ∧
      F (Finding.ofStmts cx T ss).2 (Finding.ofStmts cx S ss).2 :=
  match ss with
  | [] => ⟨h, k.refl _⟩
  | s :: rest =>
    have ⟨h', hs⟩ := ofStmt h cx s
    have ⟨h'', hrest⟩ := ofStmts h' cx rest
    ⟨h'', k.append hs hrest⟩

theorem ofStmt? {S T : Scopes} (h : R S T) (cx : Surroundings) (s : Option Stmt) :
    R (Finding.ofStmt? cx S s).1 (Finding.ofStmt? cx T s).1 ∧
      F (Finding.ofStmt? cx T s).2 (Finding.ofStmt? cx S s).2 :=
  match s with
  | none => ⟨h, k.refl _⟩
  | some s => ofStmt h cx s

end

end Kept

/-! ### Knowing more names -/

/-- The same local scopes are open, and each global name is as far in `T` as in `S` or farther. -/
structure Precedes (S T : Scopes) : Prop where
  locals : T.locals = S.locals
  finished : ∀ x, S.globals.lookup x = some true → T.globals.lookup x = some true
  unfinished : ∀ x, T.globals.lookup x = some false → S.globals.lookup x = some false

/-- Every name that is known is finished there. -/
theorem Settled.precedes (h : T.Settled) (hS : S.locals = [])
    (hnames : ∀ x, S.globals.lookup x = some true → T.globals.lookup x = some true) :
    S.Precedes T :=
  ⟨h.top.trans hS.symm, hnames, fun x hx ↦ absurd hx (h.finished x)⟩

namespace Precedes

theorem push (h : S.Precedes T) (scope : Scope) : (S.push scope).Precedes (T.push scope) :=
  ⟨congrArg (scope :: ·) h.locals, h.finished, h.unfinished⟩

theorem declare (h : S.Precedes T) (x : String) : (S.declare x).Precedes (T.declare x) := by
  by_cases hS : S.locals = []
  · have hT := h.locals.trans hS
    refine ⟨by rw [locals_declare hS, locals_declare hT], fun y ↦ ?_, fun y ↦ ?_⟩
    · rw [lookup_declare hS, lookup_declare hT]
      split
      · have hx := h.finished x
        cases hSx : S.globals.lookup x <;> simp_all
      · exact h.finished y
    · rw [lookup_declare hS, lookup_declare hT]
      split
      · have hx := h.unfinished x
        have hx' := h.finished x
        cases hTx : T.globals.lookup x <;> cases hSx : S.globals.lookup x <;> simp_all
      · exact h.unfinished y
  · obtain ⟨scope, rest, hrest⟩ := List.exists_cons_of_ne_nil hS
    have hrest' := h.locals.trans hrest
    unfold Scopes.declare
    rw [hrest, hrest']
    exact ⟨rfl, h.finished, h.unfinished⟩

theorem define (h : S.Precedes T) (x : String) : (S.define x).Precedes (T.define x) := by
  by_cases hS : S.locals = []
  · have hT := h.locals.trans hS
    refine ⟨by rw [locals_define hS, locals_define hT], fun y ↦ ?_, fun y ↦ ?_⟩
    · rw [lookup_define hS, lookup_define hT]
      split
      · exact id
      · exact h.finished y
    · rw [lookup_define hS, lookup_define hT]
      split
      · exact id
      · exact h.unfinished y
  · obtain ⟨scope, rest, hrest⟩ := List.exists_cons_of_ne_nil hS
    have hrest' := h.locals.trans hrest
    unfold Scopes.define
    rw [hrest, hrest']
    exact ⟨rfl, h.finished, h.unfinished⟩

/-! ### Fewer faults -/

/-- All faults among the first findings are among the others. -/
def Fewer (found found' : List Finding) : Prop := (faults found).Sublist (faults found')

variable {found found' others others' : List Finding}

theorem Fewer.refl (found : List Finding) : Fewer found found := List.Sublist.refl _

/-- Findings are fewer if they are in each of two parts. -/
theorem Fewer.append (h : Fewer found found') (h' : Fewer others others') :
    Fewer (found ++ others) (found' ++ others') := by
  unfold Fewer
  rw [faults_append, faults_append]
  exact List.Sublist.append h h'

/-- A name that is unfinished in the later scopes is unfinished in the earlier ones. -/
theorem innermost_unfinished (h : S.Precedes T) {x : String} (hx : T.unfinished x = true) :
    S.unfinished x = true := by
  unfold Scopes.unfinished innermost at hx ⊢
  rw [h.locals] at hx
  -- the two differ only in the global scope, which is the innermost one outside of all blocks
  cases hS : S.locals with
  | nil =>
    rw [hS] at hx
    exact beq_iff_eq.2 (h.unfinished x (beq_iff_eq.1 hx))
  | cons scope rest => rwa [hS] at hx

/-- A read finds no more faults when more of the global names are finished. -/
theorem reading (h : S.Precedes T) (span : Span) (x : String) :
    Fewer (Finding.reading T span x) (Finding.reading S span x) := by
  refine Fewer.append ?_ (reference_of_locals h.locals span x ▸ .refl _)
  by_cases hx : T.unfinished x = true
  · rw [if_pos hx, if_pos (h.innermost_unfinished hx)]
    exact .refl _
  · rw [if_neg hx]
    exact List.nil_sublist _

/-- A walk keeps the one scopes before the others, and finds no more faults in the others. -/
theorem kept : Kept Precedes Fewer where
  locals := locals
  push := push
  declare := declare
  define := define
  refl := Fewer.refl
  append := Fewer.append
  reading := reading

/-- The faults of a program that starts with more finished names are among those that it has with
fewer. -/
theorem ofStmts (h : S.Precedes T) (cx : Surroundings) (ss : List Stmt) :
    (Finding.ofStmts cx S ss).1.Precedes (Finding.ofStmts cx T ss).1 ∧
      Fewer (Finding.ofStmts cx T ss).2 (Finding.ofStmts cx S ss).2 :=
  kept.ofStmts h cx ss

end Precedes

end Scopes

end LoxLang
