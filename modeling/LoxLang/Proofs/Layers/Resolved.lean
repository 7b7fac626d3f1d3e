import LoxLang.Proofs.Layers.Proper

/-!
# The distances of a proper program

What the walk over a program finds is compared with its layers: the distances that it finds are the
entries of the references, in the same order, and if it finds no fault then the program fits. Both
hold of proper programs only, since a declaration that is a branch or the body of a loop would get
into a scope that is not its own.
-/

namespace LoxLang

open Grammar

/-! ### Scopes and layers -/

/-- The scopes of the walk declare the same names as the layers. -/
def Mirrors (S : Scopes) (L : Layers) : Prop :=
  List.Forall₂ (fun (scope : Scope) (l : Layer) ↦ ∀ x, scope.declares x = l.names.contains x)
    S.locals L

/-- A name is found as many scopes up as it is layers up. -/
theorem Mirrors.hops? {S : Scopes} {L : Layers} (h : Mirrors S L) (x : String) :
    S.hops? x = L.hops? x := by
  obtain ⟨locals, globals⟩ := S
  unfold Scopes.hops? Layers.hops?
  replace h : List.Forall₂ _ locals L := h
  induction h with
  | nil => rfl
  | cons hl _ ih => simp only [List.findIdx?_cons, hl x, ih]

/-- A scope that declares the names of a layer may be opened on both sides. -/
theorem Mirrors.push {S : Scopes} {L : Layers} (h : Mirrors S L) {scope : Scope} {l : Layer}
    (hl : ∀ x, scope.declares x = l.names.contains x) : Mirrors (S.push scope) (l :: L) :=
  .cons hl h

theorem declares_cons (x : String) (b : Bool) (scope : Scope) (y : String) :
    Scope.declares ((x, b) :: scope) y = (y == x || scope.declares y) := by
  unfold Scope.declares
  rw [List.lookup_cons]
  cases y == x <;> rfl

/-- A name may be declared on both sides. -/
theorem Mirrors.declare {S : Scopes} {L : Layers} (h : Mirrors S L) (x : String) :
    Mirrors (S.declare x) (L.declare x) := by
  obtain ⟨locals, globals⟩ := S
  cases h with
  | nil =>
    unfold Scopes.declare
    simp only
    split <;> exact .nil
  | @cons scope l locals L hl hL =>
    refine .cons (fun y ↦ ?_) hL
    rw [declares_cons, hl y, List.contains_cons]

/-- A name that is declared already can be finished. -/
theorem Mirrors.define {S : Scopes} {L : Layers} {x : String} (h : Mirrors S (L.declare x)) :
    Mirrors (S.define x) (L.declare x) := by
  obtain ⟨locals, globals⟩ := S
  cases L with
  | nil =>
    cases h
    exact .nil
  | cons l L =>
    cases h with
    | @cons scope _ locals _ hl hL =>
      refine .cons (fun y ↦ ?_) hL
      rw [declares_cons, hl y]
      simp only [List.contains_cons]
      cases y == x <;> rfl

/-- A declaration without a fault is the first of its name in the innermost layer. -/
theorem Mirrors.free {S : Scopes} {L : Layers} (h : Mirrors S L) {x : String} {span : Span}
    (hfault : S.declarationFault? x span = none) : L.Free x := by
  obtain ⟨locals, globals⟩ := S
  cases h with
  | nil => trivial
  | @cons scope l locals L hl hL =>
    have hscope : scope.declares x = false := by simpa [Scopes.declarationFault?] using hfault
    rw [hl x] at hscope
    simpa [Layers.Free] using hscope

/-! ### Findings and references -/

namespace Finding

@[simp] theorem faults_append (a b : List Finding) : faults (a ++ b) = faults a ++ faults b :=
  List.filterMap_append

@[simp] theorem distances_append (a b : List Finding) :
    distances (a ++ b) = distances a ++ distances b :=
  List.filterMap_append

@[simp] theorem distances_misplaced (b : Prop) [Decidable b] (span : Span) (cause : Cause) :
    distances (if b then [misplaced span cause] else []) = [] := by
  split <;> rfl

@[simp] theorem faults_misplaced (b : Prop) [Decidable b] (span : Span) (cause : Cause) :
    faults (if b then [misplaced span cause] else []) = [] ↔ ¬ b := by
  split <;> simp_all [faults, misplaced]

@[simp] theorem distances_fault? (f : Option Fault) : distances (f.toList.map fault) = [] := by
  cases f <;> rfl

@[simp] theorem faults_fault? (f : Option Fault) : faults (f.toList.map fault) = f.toList := by
  cases f <;> rfl

/-- The branches are visited one after the other. -/
theorem ofStmt_conditional (cx : Surroundings) (S : Scopes) (span : Span) (c : Expr) (yes : Stmt)
    (no : Option Stmt) :
    ofStmt cx S (.conditional span c yes no) =
      ((ofStmt? cx (ofStmt cx S yes).1 no).1,
        ofExpr cx S c ++ (ofStmt cx S yes).2 ++ (ofStmt? cx (ofStmt cx S yes).1 no).2) :=
  rfl

end Finding

/-- The distances that are found are the entries of these references. Without a fault, and if every
reference is as it has to be, this fits. -/
structure Agrees (K : Reference → Prop) (found : List Finding) (refs : List Reference)
    (fits : Prop) : Prop where
  distances : Finding.distances found = refs.filterMap Reference.entry?
  fits : Finding.faults found = [] → (∀ r ∈ refs, K r) → fits

namespace Agrees

variable {K : Reference → Prop} {found found' : List Finding} {refs refs' : List Reference}
  {fits fits' : Prop}

/-- What the findings and references of a part amount to may be weakened. -/
theorem mono (h : Agrees K found refs fits) (himp : fits → fits') : Agrees K found refs fits' :=
  ⟨h.distances, fun hfaults hrefs ↦ himp (h.fits hfaults hrefs)⟩

/-- The findings and references of two parts amount to what both of them do. -/
theorem append (h : Agrees K found refs fits) (h' : Agrees K found' refs' fits') :
    Agrees K (found ++ found') (refs ++ refs') (fits ∧ fits') := by
  constructor
  · rw [Finding.distances_append, List.filterMap_append, h.distances, h'.distances]
  · intro hfaults hrefs
    rw [Finding.faults_append, List.append_eq_nil_iff] at hfaults
    exact ⟨h.fits hfaults.1 fun r hr ↦ hrefs r (List.mem_append_left _ hr),
      h'.fits hfaults.2 fun r hr ↦ hrefs r (List.mem_append_right _ hr)⟩

/-- Findings without distances are of no reference. -/
theorem check (hdistances : Finding.distances found = [])
    (hfits : Finding.faults found = [] → fits) : Agrees K found [] fits :=
  ⟨by rw [hdistances]; rfl, fun hfaults _ ↦ hfits hfaults⟩

/-- Before a part there may be findings that are no distances. -/
theorem before (h : Agrees K found refs fits) (hdistances : Finding.distances found' = [])
    (hfits : Finding.faults found' = [] → fits') :
    Agrees K (found' ++ found) refs (fits' ∧ fits) :=
  (check hdistances hfits).append h

/-- What is found at a reference is its distance, the number of layers up. -/
theorem reference {S : Scopes} {L : Layers} (h : Mirrors S L) (span : Span) (x : String) :
    Agrees K (Finding.reference S span x) [⟨span, x, L⟩] (K ⟨span, x, L⟩) := by
  constructor
  · unfold Finding.reference
    rw [h.hops? x]
    cases hx : L.hops? x <;> simp [Reference.entry?, hx, Finding.distances]
  · exact fun _ hrefs ↦ hrefs _ (List.mem_singleton_self _)

/-- What is found at a read is its distance, and perhaps a fault. -/
theorem reading {S : Scopes} {L : Layers} (h : Mirrors S L) (span : Span) (x : String) :
    Agrees K (Finding.reading S span x) [⟨span, x, L⟩] (K ⟨span, x, L⟩) :=
  ((reference h span x).before (Finding.distances_misplaced ..) fun _ ↦ trivial).mono And.right

end Agrees

/-! ### Trees of a symbol -/

/-- What the walk finds in a tree of the symbol agrees with the references of the tree. -/
def SymbolAgrees (K : Reference → Prop) : (s : Symbol) → s.Tree → Prop
  | .expr, e | .binary _, e | .unary, e | .call, e | .primary, e => ∀ cx S L, Mirrors S L →
    Agrees K (Finding.ofExpr cx S e) (Reference.ofExpr L e) (FitsExpr K cx L e)
  | .optExpr, e => ∀ cx S L, Mirrors S L →
    Agrees K (Finding.ofExpr? cx S e) (Reference.ofExpr? L e) (FitsExpr? K cx L e)
  | .args, es => ∀ cx S L, Mirrors S L →
    Agrees K (Finding.ofExprs cx S es) (Reference.ofExprs L es) (FitsExprs K cx L es)
  | .function .., f => ∀ cx kind S L, Mirrors S L →
    Agrees K (Finding.ofFunction cx S kind f) (Reference.ofFunction L f)
      (FitsFunction K cx L kind f)
  | .params, ps => (∀ p ∈ ps, IsName p.text) ∧ ∀ S place names L, Mirrors S (⟨place, names⟩ :: L) →
    Mirrors (Finding.parameters S ps).1 (⟨place, (ps.map (·.text)).reverse ++ names⟩ :: L) ∧
    Finding.distances (Finding.parameters S ps).2 = [] ∧
    (Finding.faults (Finding.parameters S ps).2 = [] →
      (ps.map (·.text)).Nodup ∧ ∀ p ∈ ps, p.text ∉ names)
  | .methods, ms => ∀ cx S L, Mirrors S L →
    Agrees K (Finding.ofMethods cx (S.push [("this", true)]) ms) (Reference.ofMethods L ms)
      (FitsMethods K cx L ms)
  | .decls, ds => ∀ cx S L, Mirrors S L →
    Agrees K (Finding.ofStmts cx S ds).2 (Reference.ofStmts L ds) (FitsStmts K cx L ds)
  | .decl, d | .varDecl, d => ∀ cx S L, Mirrors S L →
    Mirrors (Finding.ofStmt cx S d).1 (L.after d) ∧
    Agrees K (Finding.ofStmt cx S d).2 (Reference.ofStmt L d) (FitsStmt K cx L d)
  | .stmt, d => d.declares = none ∧ ∀ cx S L, Mirrors S L →
    (Finding.ofStmt cx S d).1 = S ∧
    Agrees K (Finding.ofStmt cx S d).2 (Reference.ofStmt L d) (FitsStmt K cx L d)
  | .init, i => ∀ cx S L, Mirrors S L →
    Mirrors (Finding.ofStmt? cx S i).1 (L.after? i) ∧
    Agrees K (Finding.ofStmt? cx S i).2 (Reference.ofStmt? L i) (FitsStmt? K cx L i)

namespace SymbolAgrees

variable {K : Reference → Prop}

/-! ### Declarations -/

/-- A name is declared and finished at once. -/
theorem defining {S : Scopes} {L : Layers} (h : Mirrors S L) (span : Span) (x : String) :
    Mirrors (Finding.defining S span x).1 (L.declare x) ∧
      Finding.distances (Finding.defining S span x).2 = [] ∧
      (Finding.faults (Finding.defining S span x).2 = [] → L.Free x) := by
  refine ⟨(h.declare x).define, Finding.distances_fault? _, fun hfaults ↦ ?_⟩
  have hfault : S.declarationFault? x span = none := by simpa [Finding.defining] using hfaults
  exact h.free hfault

/-- A parameter may stand before others that agree. -/
theorem paramsCons {n : Name} {ps : List Name} (hn : IsName n.text)
    (hps : SymbolAgrees K .params ps) : SymbolAgrees K .params (n :: ps) := by
  refine ⟨List.forall_mem_cons.2 ⟨hn, hps.1⟩, fun S place names L h ↦ ?_⟩
  obtain ⟨hmirrors, hdistances, hfree⟩ := defining h n.span n.text
  obtain ⟨hmirrors', hdistances', hfits⟩ := hps.2 _ place (n.text :: names) L hmirrors
  rw [Finding.parameters]
  refine ⟨by simpa using hmirrors', ?_, fun hfaults ↦ ?_⟩
  · simp only [Finding.distances_append, hdistances, hdistances', List.append_nil]
  · simp only [Finding.faults_append, List.append_eq_nil_iff] at hfaults
    obtain ⟨hnodup, hnames⟩ := hfits hfaults.2
    have hn := hfree hfaults.1
    refine ⟨?_, ?_⟩
    · rw [List.map_cons, List.nodup_cons]
      refine ⟨fun hmem ↦ ?_, hnodup⟩
      obtain ⟨p, hp, htext⟩ := List.mem_map.1 hmem
      exact hnames p hp (by rw [htext]; exact List.mem_cons_self)
    · refine List.forall_mem_cons.2 ⟨hn, fun p hp hmem ↦ ?_⟩
      exact hnames p hp (List.mem_cons_of_mem _ hmem)

/-- Without parameters. -/
theorem paramsNil : SymbolAgrees K .params ([] : List Name) :=
  ⟨nofun, fun _ _ _ _ h ↦ ⟨h, rfl, fun _ ↦ ⟨List.nodup_nil, nofun⟩⟩⟩

/-- Parameters may have any names. -/
theorem params (ps : List Name) (hps : ∀ p ∈ ps, IsName p.text) : SymbolAgrees K .params ps := by
  induction ps with
  | nil => exact .paramsNil
  | cons p ps ih =>
    obtain ⟨hp, hps⟩ := List.forall_mem_cons.1 hps
    exact .paramsCons hp (ih hps)

/-- A function agrees if its parameters and its body do. -/
theorem function {start : Nat} {n : String} {span : Span} {ps : List Name} {body : List Stmt}
    (hps : SymbolAgrees K .params ps) (hbody : SymbolAgrees K .decls body) :
    SymbolAgrees K (.function start n) (FunDecl.mk span n ps body) := by
  intro cx kind S L h
  have hpush : Mirrors (S.push []) (⟨.function span, []⟩ :: L) := h.push fun _ ↦ rfl
  obtain ⟨hmirrors, hdistances, hfits⟩ := hps.2 _ _ _ _ hpush
  rw [List.append_nil] at hmirrors
  rw [Finding.ofFunction, Reference.ofFunction]
  refine ((hbody { cx with function := some kind } _ _ hmirrors).before hdistances hfits).mono ?_
  rintro ⟨⟨hnodup, -⟩, hbody⟩
  exact ⟨hnodup, hps.1, hbody⟩

/-- The declaration of a variable agrees if its initializer does. -/
theorem varDecl {span : Span} {n : String} {v : Option Expr} (hn : IsName n)
    (hv : SymbolAgrees K .optExpr v) : SymbolAgrees K .varDecl (Stmt.varDecl span n v) := by
  intro cx S L h
  -- the first value is walked when the name is declared, but not finished
  have hdeclare := h.declare n
  refine ⟨hdeclare.define, ?_⟩
  refine ((hv cx _ _ hdeclare).before (Finding.distances_fault? _)
    (fun hfaults ↦ h.free (by simpa using hfaults))).mono ?_
  exact fun ⟨hfree, hv⟩ ↦ ⟨hfree, hn, hv⟩

/-- The declaration of a function agrees if the function does. -/
theorem funDecl {start : Nat} {n : String} {f : FunDecl} (hn : IsName f.name)
    (hf : SymbolAgrees K (.function start n) f) :
    SymbolAgrees K .decl (Stmt.funDecl f) := by
  intro cx S L h
  obtain ⟨hmirrors, hdistances, hfree⟩ := defining h f.span f.name
  refine ⟨hmirrors, ?_⟩
  refine ((hf cx .plain _ _ hmirrors).before hdistances hfree).mono ?_
  exact fun ⟨hfree, hf⟩ ↦ ⟨hfree, hn, hf⟩

/-- The superclass of a class is read in the layers that know the class. -/
theorem superclass {S : Scopes} {L : Layers} (h : Mirrors S L) (n : String)
    (parent : Option Name) :
    Agrees K (parent.elim [] (Finding.superclass S n))
      (parent.toList.map fun p ↦ ⟨p.span, p.text, L⟩) (∀ p ∈ parent, K ⟨p.span, p.text, L⟩) := by
  cases parent with
  | none => exact .check rfl fun _ ↦ nofun
  | some parent =>
    refine ((Agrees.reading h parent.span parent.text).before (Finding.distances_misplaced ..)
      fun _ ↦ trivial).mono ?_
    rintro ⟨-, hparent⟩ p ⟨⟩
    exact hparent

/-- A class agrees if its methods do. -/
theorem classDecl {span : Span} {n : String} {parent : Option Name} {ms : List FunDecl}
    (hn : IsName n) (hms : SymbolAgrees K .methods ms) :
    SymbolAgrees K .decl (Stmt.classDecl span n parent ms) := by
  intro cx S L h
  obtain ⟨hmirrors, hdistances, hfree⟩ := defining h span n
  refine ⟨hmirrors, ?_⟩
  -- the scope of `super` is opened only if there is a superclass
  have hclass : Mirrors
      (if parent.isSome then (Finding.defining S span n).1.push [("super", true)]
        else (Finding.defining S span n).1) ((L.declare n).ofClass parent) := by
    cases parent with
    | none => exact hmirrors
    | some p => exact hmirrors.push fun x ↦ by rw [declares_cons, List.contains_cons]; rfl
  have hmethods := hms { cx with cls := some ⟨n, parent.isSome⟩ } _ _ hclass
  have hparent := superclass (K := K) hmirrors n parent
  refine ((hparent.before hdistances hfree).append hmethods).mono ?_
  exact fun ⟨⟨hfree, hparent⟩, hms⟩ ↦ ⟨hfree, hn, hparent, hms⟩

/-- A method may stand before others that agree. -/
theorem methodsCons {start : Nat} {n : String} {f : FunDecl} {fs : List FunDecl}
    (hf : SymbolAgrees K (.function start n) f) (hfs : SymbolAgrees K .methods fs) :
    SymbolAgrees K .methods (f :: fs) := by
  intro cx S L h
  have hmethod : Mirrors (S.push [("this", true)]) (L.ofMethod f) :=
    h.push fun x ↦ by rw [declares_cons, List.contains_cons]; rfl
  exact (hf cx _ _ _ hmethod).append (hfs cx S L h)

/-- A declaration may stand before others that agree. -/
theorem declsCons {d : Stmt} {ds : List Stmt} (hd : SymbolAgrees K .decl d)
    (hds : SymbolAgrees K .decls ds) : SymbolAgrees K .decls (d :: ds) := by
  intro cx S L h
  obtain ⟨hmirrors, hd⟩ := hd cx S L h
  exact hd.append (hds cx _ _ hmirrors)

/-- A statement that declares nothing is a declaration, too. -/
theorem declStmt {d : Stmt} (hd : SymbolAgrees K .stmt d) : SymbolAgrees K .decl d := by
  intro cx S L h
  obtain ⟨hdeclares, hd⟩ := hd
  obtain ⟨hscopes, hd⟩ := hd cx S L h
  rw [hscopes, Layers.after, hdeclares]
  exact ⟨h, hd⟩

/-! ### Expressions -/

theorem this {span : Span} : SymbolAgrees K .primary (Expr.this span) := by
  intro cx S L h
  refine (Agrees.reference h span "this").before (Finding.distances_misplaced ..) fun hfaults ↦ ?_
  have hcls := (Finding.faults_misplaced ..).1 hfaults
  cases hcx : cx.cls with
  | none => simp [hcx] at hcls
  | some c => rfl

/-- A method of the superclass agrees: it refers to `super`, and is a fault where there is none. -/
theorem super {span : Span} {n : String} : SymbolAgrees K .primary (Expr.super span n) := by
  intro cx S L h
  refine (Agrees.reference h span "super").before ?_ fun hfaults ↦ ?_
  · unfold Finding.superFaults
    cases cx.cls with
    | none => rfl
    | some c => cases hc : c.inherits <;> simp [hc, Finding.distances, Finding.misplaced]
  · unfold Finding.superFaults at hfaults
    cases hcx : cx.cls with
    | none => simp [hcx, Finding.faults, Finding.misplaced] at hfaults
    | some c =>
      cases hc : c.inherits with
      | true => exact hc
      | false => simp [hcx, hc, Finding.faults, Finding.misplaced] at hfaults

/-! ### Statements -/

/-- A `return` agrees if its value does. -/
theorem returns {span : Span} {v : Option Expr} (hv : SymbolAgrees K .optExpr v) :
    SymbolAgrees K .stmt (Stmt.returns span v) := by
  refine ⟨rfl, fun cx S L h ↦ ⟨rfl, ?_⟩⟩
  have hdistances : Finding.distances (Finding.returnFaults cx span v.isSome) = [] := by
    simp only [Finding.returnFaults, Finding.distances_append, Finding.distances_misplaced]
    rfl
  have hfits (hfaults : Finding.faults (Finding.returnFaults cx span v.isSome) = []) :
      cx.function.isSome ∧ (v.isSome → cx.function ≠ some .initializer) := by
    simp only [Finding.returnFaults, Finding.faults_append, List.append_eq_nil_iff,
      Finding.faults_misplaced, Bool.and_eq_true, beq_iff_eq, not_and] at hfaults
    refine ⟨?_, hfaults.2⟩
    cases hcx : cx.function with
    | none => simp [hcx] at hfaults
    | some kind => rfl
  refine ((hv cx S L h).before hdistances hfits).mono ?_
  exact fun h ↦ ⟨h.1.1, h.1.2, h.2⟩

theorem block {span : Span} {body : List Stmt} (hbody : SymbolAgrees K .decls body) :
    SymbolAgrees K .stmt (Stmt.block span body) :=
  ⟨rfl, fun cx _ _ h ↦ ⟨rfl, hbody cx _ _ (h.push fun _ ↦ rfl)⟩⟩

/-- An `if` without an `else` agrees if its parts do. -/
theorem ifOnly {span : Span} {c : Expr} {yes : Stmt} (hc : SymbolAgrees K .expr c)
    (hyes : SymbolAgrees K .stmt yes) :
    SymbolAgrees K .stmt (Stmt.conditional span c yes none) := by
  refine ⟨rfl, fun cx S L h ↦ ?_⟩
  obtain ⟨hdeclares, hyes⟩ := hyes
  obtain ⟨hscopes, hyes⟩ := hyes cx S L h
  rw [Finding.ofStmt_conditional, hscopes]
  refine ⟨rfl, ?_⟩
  refine ((hc cx S L h).append hyes).append (.check rfl fun _ ↦ trivial) |>.mono ?_
  exact fun ⟨⟨hc, hyes⟩, _⟩ ↦ ⟨hc, ⟨hyes, hdeclares⟩, trivial, rfl⟩

/-- An `if` with an `else` agrees if its parts do. -/
theorem ifElse {span : Span} {c : Expr} {yes no : Stmt} (hc : SymbolAgrees K .expr c)
    (hyes : SymbolAgrees K .stmt yes) (hno : SymbolAgrees K .stmt no) :
    SymbolAgrees K .stmt (Stmt.conditional span c yes (some no)) := by
  refine ⟨rfl, fun cx S L h ↦ ?_⟩
  obtain ⟨hdeclares, hyes⟩ := hyes
  obtain ⟨hscopes, hyes⟩ := hyes cx S L h
  obtain ⟨hdeclares', hno⟩ := hno
  obtain ⟨hscopes', hno⟩ := hno cx S L h
  rw [Finding.ofStmt_conditional, hscopes]
  refine ⟨hscopes', ((hc cx S L h).append hyes).append hno |>.mono ?_⟩
  exact fun ⟨⟨hc, hyes⟩, hno⟩ ↦ ⟨hc, ⟨hyes, hdeclares⟩, hno, hdeclares'⟩

theorem whileLoop {span : Span} {c : Expr} {body : Stmt} (hc : SymbolAgrees K .expr c)
    (hbody : SymbolAgrees K .stmt body) :
    SymbolAgrees K .stmt (Stmt.whileLoop span c body) := by
  refine ⟨rfl, fun cx S L h ↦ ?_⟩
  obtain ⟨hdeclares, hbody⟩ := hbody
  obtain ⟨hscopes, hbody⟩ := hbody cx S L h
  exact ⟨hscopes, ((hc cx S L h).append hbody).mono fun ⟨hc, hbody⟩ ↦ ⟨hc, hbody, hdeclares⟩⟩

/-- A loop with clauses agrees if its parts do, in a layer of their own. -/
theorem forLoop {span : Span} {i : Option Stmt} {c u : Option Expr} {body : Stmt}
    (hi : SymbolAgrees K .init i) (hc : SymbolAgrees K .optExpr c)
    (hu : SymbolAgrees K .optExpr u) (hbody : SymbolAgrees K .stmt body) :
    SymbolAgrees K .stmt (Stmt.forLoop span i c u body) := by
  refine ⟨rfl, fun cx S L h ↦ ⟨rfl, ?_⟩⟩
  obtain ⟨hdeclares, hbody⟩ := hbody
  have hpush : Mirrors (S.push []) (⟨.loop span, []⟩ :: L) := h.push fun _ ↦ rfl
  obtain ⟨hmirrors, hi⟩ := hi cx _ _ hpush
  obtain ⟨-, hbody⟩ := hbody cx _ _ hmirrors
  refine (((hi.append (hc cx _ _ hmirrors)).append (hu cx _ _ hmirrors)).append hbody).mono ?_
  exact fun ⟨⟨⟨hi, hc⟩, hu⟩, hbody⟩ ↦ ⟨hi, hc, hu, hbody, hdeclares⟩

end SymbolAgrees

/-! ### All proper trees -/

section Proper

variable {K : Reference → Prop}

/-- A statement that declares nothing agrees in both ways. -/
theorem SymbolAgrees.ofStmt {s : Stmt} (h : SymbolAgrees K .stmt s) :
    SymbolAgrees K .decl s ∧ (s.declares = none → SymbolAgrees K .stmt s) :=
  ⟨.declStmt h, fun _ ↦ h⟩

/-- A declaration agrees in one way. -/
theorem SymbolAgrees.ofDecl {s : Stmt} (h : SymbolAgrees K .decl s) (hs : s.declares ≠ none) :
    SymbolAgrees K .decl s ∧ (s.declares = none → SymbolAgrees K .stmt s) :=
  ⟨h, fun hdeclares ↦ absurd hdeclares hs⟩

mutual

/-- A proper tree is resolved as its layers say. -/
theorem Expr.Proper.agrees {e : Expr} (h : e.Proper) : SymbolAgrees K .expr e :=
  match e, h with
  | .literal .., _ => fun _ _ _ _ ↦ .check rfl fun _ ↦ trivial
  | .var .., _ => fun _ _ _ h ↦ .reading h _ _
  | .assign .., ⟨hname, hvalue⟩ => fun cx S L h ↦
    ((Expr.Proper.agrees hvalue cx S L h).append (.reference h _ _)).mono
      fun ⟨hv, hr⟩ ↦ ⟨hv, hname, hr⟩
  | .step .., hname => fun _ _ _ h ↦ (Agrees.reference h _ _).mono fun hr ↦ ⟨hname, hr⟩
  | .group _ inner, h => Expr.Proper.agrees (e := inner) h
  | .unary _ _ operand, h => Expr.Proper.agrees (e := operand) h
  | .binary .., ⟨hl, hr⟩ => fun cx S L h ↦
    (Expr.Proper.agrees hl cx S L h).append (Expr.Proper.agrees hr cx S L h)
  | .call .., ⟨he, hes⟩ => fun cx S L h ↦
    (Expr.Proper.agrees he cx S L h).append (Expr.AllProper.agrees hes cx S L h)
  | .property _ object _, h => Expr.Proper.agrees (e := object) h
  | .setProperty .., ⟨he, hv⟩ => fun cx S L h ↦
    ((Expr.Proper.agrees hv cx S L h).append (Expr.Proper.agrees he cx S L h)).mono And.symm
  | .this _, _ => .this
  | .super _ _, _ => .super
  | .lambda f, h => fun cx S L ↦ FunDecl.Proper.agrees (f := f) h cx .plain S L

theorem Expr.AllProper.agrees {es : List Expr} (h : Expr.AllProper es) : SymbolAgrees K .args es :=
  match es, h with
  | [], _ => fun _ _ _ _ ↦ .check rfl fun _ ↦ trivial
  | _ :: _, ⟨he, hes⟩ => fun cx S L h ↦
    (Expr.Proper.agrees he cx S L h).append (Expr.AllProper.agrees hes cx S L h)

theorem Expr.Proper?.agrees {e : Option Expr} (h : Expr.Proper? e) : SymbolAgrees K .optExpr e :=
  match e, h with
  | none, _ => fun _ _ _ _ ↦ .check rfl fun _ ↦ trivial
  | some e, h => Expr.Proper.agrees (e := e) h

theorem FunDecl.Proper.agrees {f : FunDecl} (h : f.Proper) :
    SymbolAgrees K (.function f.span.start f.name) f :=
  match f, h with
  | .mk _ _ params _, ⟨hparams, hbody⟩ =>
    .function (SymbolAgrees.params params hparams) (Stmt.AllProper.agrees hbody)

theorem FunDecl.AllProper.agrees {fs : List FunDecl} (h : FunDecl.AllProper fs) :
    SymbolAgrees K .methods fs :=
  match fs, h with
  | [], _ => fun _ _ _ _ ↦ .check rfl fun _ ↦ trivial
  | _ :: _, ⟨hf, hfs⟩ => .methodsCons (FunDecl.Proper.agrees hf) (FunDecl.AllProper.agrees hfs)

/-- The findings of a statement agree with its references, whether it declares a name or not. -/
theorem Stmt.Proper.agrees {s : Stmt} (h : s.Proper) :
    SymbolAgrees K .decl s ∧ (s.declares = none → SymbolAgrees K .stmt s) :=
  match s, h with
  | .expression _ value, h =>
    SymbolAgrees.ofStmt ⟨rfl, fun cx S L hS ↦ ⟨rfl, Expr.Proper.agrees (e := value) h cx S L hS⟩⟩
  | .print _ value, h =>
    SymbolAgrees.ofStmt ⟨rfl, fun cx S L hS ↦ ⟨rfl, Expr.Proper.agrees (e := value) h cx S L hS⟩⟩
  | .varDecl .., ⟨hname, hvalue⟩ =>
    SymbolAgrees.ofDecl (.varDecl hname (Expr.Proper?.agrees hvalue)) nofun
  | .funDecl _, ⟨hname, hf⟩ =>
    SymbolAgrees.ofDecl (.funDecl hname (FunDecl.Proper.agrees hf)) nofun
  | .classDecl .., ⟨hname, hms⟩ =>
    SymbolAgrees.ofDecl (.classDecl hname (FunDecl.AllProper.agrees hms)) nofun
  | .block _ body, h =>
    have hbody : SymbolAgrees K .decls body := Stmt.AllProper.agrees h
    SymbolAgrees.ofStmt (.block hbody)
  | .conditional _ _ _ none, ⟨hc, ⟨hyes, hdeclares⟩, _, _⟩ =>
    SymbolAgrees.ofStmt (.ifOnly (Expr.Proper.agrees hc) ((Stmt.Proper.agrees hyes).2 hdeclares))
  | .conditional _ _ _ (some no), ⟨hc, ⟨hyes, hdeclares⟩, hno, hdeclares'⟩ =>
    SymbolAgrees.ofStmt (.ifElse (Expr.Proper.agrees hc) ((Stmt.Proper.agrees hyes).2 hdeclares)
      ((Stmt.Proper.agrees (s := no) hno).2 hdeclares'))
  | .whileLoop .., ⟨hc, hbody, hdeclares⟩ =>
    SymbolAgrees.ofStmt (.whileLoop (Expr.Proper.agrees hc)
      ((Stmt.Proper.agrees hbody).2 hdeclares))
  | .forLoop .., ⟨⟨hinit, _⟩, hc, hu, hbody, hdeclares⟩ =>
    SymbolAgrees.ofStmt (.forLoop (Stmt.Proper?.agrees hinit) (Expr.Proper?.agrees hc)
      (Expr.Proper?.agrees hu) ((Stmt.Proper.agrees hbody).2 hdeclares))
  | .returns _ value, h => SymbolAgrees.ofStmt (.returns (Expr.Proper?.agrees (e := value) h))

theorem Stmt.AllProper.agrees {ss : List Stmt} (h : Stmt.AllProper ss) :
    SymbolAgrees K .decls ss :=
  match ss, h with
  | [], _ => fun _ _ _ _ ↦ .check rfl fun _ ↦ trivial
  | _ :: _, ⟨hs, hss⟩ => .declsCons (Stmt.Proper.agrees hs).1 (Stmt.AllProper.agrees hss)

theorem Stmt.Proper?.agrees {s : Option Stmt} (h : Stmt.Proper? s) : SymbolAgrees K .init s :=
  match s, h with
  | none, _ => fun _ _ _ hS ↦ ⟨hS, .check rfl fun _ ↦ trivial⟩
  | some s, h => (Stmt.Proper.agrees (s := s) h).1

end

end Proper

/-! ### References start at different tokens -/

/-- As many references start at each offset as tokens do, at most. -/
def Covers (used : List Lexeme) (refs : List Reference) : Prop :=
  ∀ n, (refs.map (·.span.start)).count n ≤ (Lexeme.starts used).count n

namespace Covers

variable {used used' : List Lexeme} {refs refs' : List Reference}

theorem nil (used : List Lexeme) : Covers used [] := fun _ ↦ Nat.zero_le _

/-- The tokens of two parts are enough for the references of both. -/
theorem append (h : Covers used refs) (h' : Covers used' refs') :
    Covers (used ++ used') (refs ++ refs') := by
  intro n
  rw [List.map_append, List.count_append, Lexeme.starts, List.map_append, List.count_append]
  exact Nat.add_le_add (h n) (h' n)

theorem cons (h : Covers used refs) (x : Lexeme) : Covers (x :: used) refs :=
  (nil [x]).append h

theorem append_nil (h : Covers used refs) : Covers used (refs ++ []) := by
  rwa [List.append_nil]

/-- More tokens are enough, too. -/
theorem snoc (h : Covers used refs) (xs : List Lexeme) : Covers (used ++ xs) refs := by
  simpa using h.append (nil xs)

/-- The order of the references does not matter. -/
theorem perm (h : Covers used refs) (hperm : refs.Perm refs') : Covers used refs' := by
  intro n
  rw [← (hperm.map _).count_eq]
  exact h n

/-- A reference takes the token at which it starts. -/
theorem one {r : Reference} {x : Lexeme} (h : r.span.start = x.span.start) (used : List Lexeme) :
    Covers (x :: used) [r] := by
  have hone : Covers [x] [r] := by
    intro n
    rw [List.map_singleton, h]
    exact Nat.le_refl _
  simpa using hone.append (nil used)

end Covers

/-- The tokens cover the references of a tree of the symbol, whatever the layers around it. -/
def SymbolCovers (used : List Lexeme) : (s : Symbol) → s.Tree → Prop
  | .expr, e | .binary _, e | .unary, e | .call, e | .primary, e =>
    ∀ L, Covers used (Reference.ofExpr L e)
  | .optExpr, e => ∀ L, Covers used (Reference.ofExpr? L e)
  | .args, es => ∀ L, Covers used (Reference.ofExprs L es)
  | .function .., f => ∀ L, Covers used (Reference.ofFunction L f)
  | .params, _ => True
  | .methods, ms => ∀ L, Covers used (Reference.ofMethods L ms)
  | .decls, ds => ∀ L, Covers used (Reference.ofStmts L ds)
  | .decl, d | .varDecl, d | .stmt, d => ∀ L, Covers used (Reference.ofStmt L d)
  | .init, i => ∀ L, Covers used (Reference.ofStmt? L i)

/-- The tokens of a derivation cover the references of its tree. -/
theorem Grammar.Derives.covers {rule : ElseRule} {s : Symbol} {ts us : List Lexeme} {t : s.Tree}
    (h : Derives rule s ts t us) : ∃ used, ts = used ++ us ∧ SymbolCovers used s t := by
  induction h with
  -- expressions
  | @assign x eq _ _ _ _ _ _ _ ihv =>
    -- the value stands behind the name, but is referred to before it
    obtain ⟨used, rfl, hv⟩ := ihv
    refine ⟨x :: eq :: used, rfl, fun L ↦ ?_⟩
    exact ((Covers.one rfl []).append ((hv L).cons eq)).perm List.perm_append_comm
  | @setProperty dot x eq _ _ _ _ _ _ _ _ _ _ _ ihe ihv =>
    obtain ⟨object, rfl, he⟩ := ihe
    obtain ⟨value, rfl, hv⟩ := ihv
    refine ⟨object ++ dot :: x :: eq :: value, by simp, fun L ↦ ?_⟩
    exact ((he L).append ((((hv L).cons eq).cons x).cons dot)).perm List.perm_append_comm
  | operators _ ihe | tighter _ ihe | operand _ ihe | suffixed _ ihe | atom _ ihe => exact ihe
  | @join o _ _ _ _ _ _ _ _ _ _ _ _ _ ihl ihr =>
    obtain ⟨left, rfl, hl⟩ := ihl
    obtain ⟨right, rfl, hr⟩ := ihr
    exact ⟨left ++ o :: right, by simp, fun L ↦ (hl L).append ((hr L).cons o)⟩
  | @not o _ _ _ _ _ ihe | @negate o _ _ _ _ _ ihe =>
    obtain ⟨used, rfl, he⟩ := ihe
    exact ⟨o :: used, rfl, fun L ↦ (he L).cons o⟩
  | @stepBefore o x => exact ⟨[o, x], rfl, fun _ ↦ .one rfl _⟩
  | @stepAfter x o => exact ⟨[x, o], rfl, fun _ ↦ .one rfl _⟩
  | @callNone l r _ _ _ _ _ _ ihe =>
    obtain ⟨used, rfl, he⟩ := ihe
    exact ⟨used ++ [l, r], by simp, fun L ↦ ((he L).snoc [l, r]).append_nil⟩
  | @callSome l r _ _ _ _ _ _ _ _ _ _ ihe ihas =>
    obtain ⟨callee, rfl, he⟩ := ihe
    obtain ⟨args, rfl, has⟩ := ihas
    refine ⟨callee ++ l :: (args ++ [r]), by simp, fun L ↦ ?_⟩
    exact (he L).append (((has L).snoc [r]).cons l)
  | @property dot x _ _ _ _ _ _ _ ihe =>
    obtain ⟨used, rfl, he⟩ := ihe
    refine ⟨used ++ [dot, x], by simp, fun L ↦ ?_⟩
    exact (he L).snoc [dot, x]
  | arg _ ihe =>
    obtain ⟨used, rfl, he⟩ := ihe
    exact ⟨used, rfl, fun L ↦ (he L).append_nil⟩
  | @argThen comma _ _ _ _ _ _ _ _ ihe ihes =>
    obtain ⟨first, rfl, he⟩ := ihe
    obtain ⟨others, rfl, hes⟩ := ihes
    exact ⟨first ++ comma :: others, by simp, fun L ↦ (he L).append ((hes L).cons comma)⟩
  | @literal x => exact ⟨[x], rfl, fun _ ↦ .nil _⟩
  | @name x => exact ⟨[x], rfl, fun _ ↦ .one rfl _⟩
  | @this w => exact ⟨[w], rfl, fun _ ↦ .one rfl _⟩
  | @super w dot x => exact ⟨[w, dot, x], rfl, fun _ ↦ .one rfl _⟩
  | @group l r _ _ _ _ _ _ ihe =>
    obtain ⟨used, rfl, he⟩ := ihe
    refine ⟨l :: (used ++ [r]), by simp, fun L ↦ ?_⟩
    exact ((he L).snoc [r]).cons l
  | @lambda w _ _ _ _ _ ihf =>
    obtain ⟨used, rfl, hf⟩ := ihf
    exact ⟨w :: used, rfl, fun L ↦ (hf L).cons w⟩
  | optNone => exact ⟨[], rfl, fun _ ↦ .nil _⟩
  | optSome _ ihe => exact ihe
  -- functions
  | @functionNone _ _ l r b z _ _ _ _ _ _ _ _ ihbody =>
    obtain ⟨used, rfl, hbody⟩ := ihbody
    refine ⟨l :: r :: b :: (used ++ [z]), by simp, fun L ↦ ?_⟩
    exact ((((hbody _).snoc [z]).cons b).cons r).cons l
  | @functionSome _ _ l r b z _ _ _ _ _ _ _ _ _ _ _ _ ihps ihbody =>
    obtain ⟨params, rfl, -⟩ := ihps
    obtain ⟨used, rfl, hbody⟩ := ihbody
    refine ⟨l :: (params ++ r :: b :: (used ++ [z])), by simp, fun L ↦ ?_⟩
    exact (Covers.append (.nil params) ((((hbody _).snoc [z]).cons b).cons r)).cons l
  | @param x => exact ⟨[x], rfl, trivial⟩
  | @paramThen x comma _ _ _ _ _ _ _ ihps =>
    obtain ⟨used, rfl, -⟩ := ihps
    exact ⟨x :: comma :: used, rfl, trivial⟩
  -- declarations
  | declsNil => exact ⟨[], rfl, fun _ ↦ .nil _⟩
  | declsCons _ _ ihd ihds =>
    obtain ⟨first, rfl, hd⟩ := ihd
    obtain ⟨others, rfl, hds⟩ := ihds
    exact ⟨first ++ others, by simp, fun L ↦ (hd L).append (hds _)⟩
  | @classPlain w x b z _ _ _ _ _ _ _ _ _ ihms =>
    obtain ⟨used, rfl, hms⟩ := ihms
    refine ⟨w :: x :: b :: (used ++ [z]), by simp, fun L ↦ ?_⟩
    exact ((((hms _).snoc [z]).cons b).cons x).cons w
  | @classInheriting w x less y b z _ _ _ _ _ _ _ _ _ _ _ _ ihms =>
    obtain ⟨used, rfl, hms⟩ := ihms
    refine ⟨w :: x :: less :: y :: b :: (used ++ [z]), by simp, fun L ↦ ?_⟩
    have hclass (L : Layers) := ((hms L).snoc [z]).cons b
    refine Covers.cons (Covers.cons (Covers.cons ?_ less) x) w
    exact (Covers.one rfl []).append (hclass _)
  | methodsNil => exact ⟨[], rfl, fun _ ↦ .nil _⟩
  | @methodsCons x _ _ _ _ _ _ _ _ _ ihf ihfs =>
    obtain ⟨first, rfl, hf⟩ := ihf
    obtain ⟨others, rfl, hfs⟩ := ihfs
    exact ⟨x :: (first ++ others), by simp, fun L ↦ ((hf _).append (hfs L)).cons x⟩
  | @funDecl w x _ _ _ _ _ _ _ ihf =>
    obtain ⟨used, rfl, hf⟩ := ihf
    exact ⟨w :: x :: used, rfl, fun L ↦ ((hf _).cons x).cons w⟩
  | declVar _ ihd | declStmt _ ihd | initVar _ ihd => exact ihd
  | @varNone w x s => exact ⟨[w, x, s], rfl, fun _ ↦ .nil _⟩
  | @varSome w x eq s _ _ _ _ _ _ _ _ _ ihv =>
    obtain ⟨used, rfl, hv⟩ := ihv
    refine ⟨w :: x :: eq :: (used ++ [s]), by simp, fun L ↦ ?_⟩
    exact ((((hv _).snoc [s]).cons eq).cons x).cons w
  -- statements
  | @exprStmt s _ _ _ _ _ ihv | @initExpr s _ _ _ _ _ ihv =>
    obtain ⟨used, rfl, hv⟩ := ihv
    refine ⟨used ++ [s], by simp, fun L ↦ ?_⟩
    exact (hv L).snoc [s]
  | @print w s _ _ _ _ _ _ ihv | @returns w s _ _ _ _ _ _ ihv =>
    obtain ⟨used, rfl, hv⟩ := ihv
    refine ⟨w :: (used ++ [s]), by simp, fun L ↦ ?_⟩
    exact ((hv L).snoc [s]).cons w
  | @block b z _ _ _ _ _ _ ihbody =>
    obtain ⟨used, rfl, hbody⟩ := ihbody
    refine ⟨b :: (used ++ [z]), by simp, fun L ↦ ?_⟩
    exact ((hbody _).snoc [z]).cons b
  | @ifOnly w l r _ _ _ _ _ _ _ _ _ _ ihc ihyes =>
    obtain ⟨condition, rfl, hc⟩ := ihc
    obtain ⟨yes, rfl, hyes⟩ := ihyes
    refine ⟨w :: l :: (condition ++ r :: yes), by simp, fun L ↦ ?_⟩
    exact ((((hc L).append ((hyes L).cons r)).append_nil).cons l).cons w
  | @ifElse w l r e _ _ _ _ _ _ _ _ _ _ _ _ _ _ _ ihc ihyes ihno =>
    obtain ⟨condition, rfl, hc⟩ := ihc
    obtain ⟨yes, rfl, hyes⟩ := ihyes
    obtain ⟨no, rfl, hno⟩ := ihno
    refine ⟨w :: l :: (condition ++ r :: yes ++ e :: no), by simp, fun L ↦ ?_⟩
    exact ((((hc L).append ((hyes L).cons r)).append ((hno L).cons e)).cons l).cons w
  | @whileLoop w l r _ _ _ _ _ _ _ _ _ _ ihc ihbody =>
    obtain ⟨condition, rfl, hc⟩ := ihc
    obtain ⟨body, rfl, hbody⟩ := ihbody
    refine ⟨w :: l :: (condition ++ r :: body), by simp, fun L ↦ ?_⟩
    exact (((hc L).append ((hbody L).cons r)).cons l).cons w
  | @forLoop w l s r _ _ _ _ _ _ _ _ _ _ _ _ _ _ _ _ _ ihi ihc ihu ihbody =>
    obtain ⟨i, rfl, hi⟩ := ihi
    obtain ⟨c, rfl, hc⟩ := ihc
    obtain ⟨u, rfl, hu⟩ := ihu
    obtain ⟨body, rfl, hbody⟩ := ihbody
    refine ⟨w :: l :: (i ++ c ++ s :: u ++ r :: body), by simp, fun L ↦ ?_⟩
    have hclauses (L L' : Layers) := ((hi L).append (hc L')).append ((hu L').cons s)
    exact (((hclauses _ _).append ((hbody _).cons r)).cons l).cons w
  | @initNone s => exact ⟨[s], rfl, fun _ ↦ .nil _⟩

/-! ### Programs of texts -/

/-- What is no keyword is a name that a program can bind. -/
theorem isName_of_ofWord? {n : String} (h : Mark.ofWord? n.toList = none) : IsName n := by
  constructor <;> rintro rfl <;> cases h

/-- A program that is read of a text is proper. -/
theorem Program.proper_of_read {text : String} {offset : Nat} {p : Program}
    (h : Program.read text offset = .ok p) : Stmt.AllProper p :=
  (Program.read_eq_ok.1 h).2.proper fun _ hx _ hn ↦
    isName_of_ofWord? (Lexeme.ofWord?_of_mem_scan hx hn)

/-- The distances of a proper program are those of its layers. If it is not refused, it fits. -/
theorem Stmt.AllProper.walk {p : Program} (h : Stmt.AllProper p) (names : List String) :
    Finding.distances (p.findings names) = p.references.filterMap Reference.entry? ∧
      ∀ K : Reference → Prop, (Finding.faults (p.findings names)).isEmpty = true →
        (∀ r ∈ p.references, K r) → FitsStmts K {} [] p := by
  have hglobal : Mirrors (.ofGlobals names) [] := .nil
  refine ⟨(Stmt.AllProper.agrees (K := fun _ ↦ True) h {} _ _ hglobal).distances, ?_⟩
  intro K hfaults hrefs
  exact (Stmt.AllProper.agrees h {} _ _ hglobal).fits (List.isEmpty_iff.1 hfaults) hrefs

/-- The references of a program that is read of a text start at different offsets of the text. -/
theorem Program.of_read {text : String} {offset : Nat} {p : Program}
    (h : Program.read text offset = .ok p) :
    (p.references.map (·.span.start)).Nodup ∧
    ∀ r ∈ p.references, offset ≤ r.span.start ∧ r.span.start < offset + text.utf8ByteSize := by
  obtain ⟨-, hp⟩ := Program.read_eq_ok.1 h
  have hordered := Lexeme.ordered_scan offset text.toList
  rw [Text.byteLength_toList] at hordered
  obtain ⟨used, hused, hcovers⟩ := Derives.covers hp
  rw [List.append_nil] at hused
  replace hcovers := hcovers []
  rw [← hused] at hcovers
  -- no two tokens start at the same offset
  have hcount (n : Nat) : (p.references.map (·.span.start)).count n ≤ 1 :=
    Nat.le_trans (hcovers n) (List.nodup_iff_count.1 hordered.nodup n)
  refine ⟨List.nodup_iff_count.2 hcount, fun r hr ↦ ?_⟩
  refine hordered.start_mem (List.count_pos_iff.1 (Nat.lt_of_lt_of_le ?_ (hcovers r.span.start)))
  exact List.count_pos_iff.2 (List.mem_map_of_mem hr)

end LoxLang
