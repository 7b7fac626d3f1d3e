import LoxLang.Fault
import LoxLang.Program

/-!
# Programs in other places

A program says the same wherever it stands. Its spans tell its parts apart and give its faults
their places, and nothing is computed from them. So each of its spans may be replaced by another
one: `relocate` does so throughout, by a function of spans.
-/

namespace LoxLang

/-! ### Names and faults -/

/-- The name at another place. -/
def Name.relocate (f : Span → Span) (n : Name) : Name := { n with span := f n.span }

/-- The fault charged to another place. -/
def Fault.relocate (f : Span → Span) (e : Fault) : Fault := { e with span := f e.span }

@[simp] theorem Name.text_relocate (f : Span → Span) (n : Name) : (n.relocate f).text = n.text :=
  rfl

@[simp] theorem Name.span_relocate (f : Span → Span) (n : Name) :
    (n.relocate f).span = f n.span := rfl

/-! ### Programs -/

mutual

/-- The expression with each span replaced. -/
def Expr.relocate (f : Span → Span) : Expr → Expr
  | .literal span value => .literal (f span) value
  | .var span name => .var (f span) name
  | .assign span name value => .assign (f span) name (value.relocate f)
  | .step span side op name => .step (f span) side op name
  | .group span inner => .group (f span) (inner.relocate f)
  | .unary span op operand => .unary (f span) op (operand.relocate f)
  | .binary span op left right => .binary (f span) op (left.relocate f) (right.relocate f)
  | .call span callee arguments =>
    .call (f span) (callee.relocate f) (Expr.relocateAll f arguments)
  | .property span object name => .property (f span) (object.relocate f) name
  | .setProperty span object name value =>
    .setProperty (f span) (object.relocate f) name (value.relocate f)
  | .this span => .this (f span)
  | .super span name => .super (f span) name
  | .lambda function => .lambda (function.relocate f)

/-- Several expressions with each span replaced. -/
def Expr.relocateAll (f : Span → Span) : List Expr → List Expr
  | [] => []
  | e :: rest => e.relocate f :: Expr.relocateAll f rest

/-- An expression that may be missing, with each span replaced. -/
def Expr.relocate? (f : Span → Span) : Option Expr → Option Expr
  | none => none
  | some e => some (e.relocate f)

/-- The function with each span replaced. -/
def FunDecl.relocate (f : Span → Span) : FunDecl → FunDecl
  | .mk span name params body =>
    .mk (f span) name (params.map (Name.relocate f)) (Stmt.relocateAll f body)

/-- Several functions with each span replaced. -/
def FunDecl.relocateAll (f : Span → Span) : List FunDecl → List FunDecl
  | [] => []
  | function :: rest => function.relocate f :: FunDecl.relocateAll f rest

/-- The statement with each span replaced. -/
def Stmt.relocate (f : Span → Span) : Stmt → Stmt
  | .expression span value => .expression (f span) (value.relocate f)
  | .print span value => .print (f span) (value.relocate f)
  | .varDecl span name value => .varDecl (f span) name (Expr.relocate? f value)
  | .funDecl function => .funDecl (function.relocate f)
  | .classDecl span name superclass methods =>
    .classDecl (f span) name (superclass.map (Name.relocate f)) (FunDecl.relocateAll f methods)
  | .block span body => .block (f span) (Stmt.relocateAll f body)
  | .conditional span condition yes no =>
    .conditional (f span) (condition.relocate f) (yes.relocate f) (Stmt.relocate? f no)
  | .whileLoop span condition body =>
    .whileLoop (f span) (condition.relocate f) (body.relocate f)
  | .forLoop span init condition step body =>
    .forLoop (f span) (Stmt.relocate? f init) (Expr.relocate? f condition) (Expr.relocate? f step)
      (body.relocate f)
  | .returns span value => .returns (f span) (Expr.relocate? f value)

/-- Several statements with each span replaced. -/
def Stmt.relocateAll (f : Span → Span) : List Stmt → List Stmt
  | [] => []
  | stmt :: rest => stmt.relocate f :: Stmt.relocateAll f rest

/-- A statement that may be missing, with each span replaced. -/
def Stmt.relocate? (f : Span → Span) : Option Stmt → Option Stmt
  | none => none
  | some stmt => some (stmt.relocate f)

end

/-- The program with each span replaced. -/
def Program.relocate (f : Span → Span) (p : Program) : Program := p.map (Stmt.relocate f)

/-- What is read of a text, with each span replaced. -/
def Program.relocateResult (f : Span → Span) :
    Except (List Fault) Program → Except (List Fault) Program
  | .ok p => .ok (p.relocate f)
  | .error faults => .error (faults.map (Fault.relocate f))

section

variable (f : Span → Span)

@[simp] theorem Expr.relocateAll_eq (es : List Expr) :
    Expr.relocateAll f es = es.map (Expr.relocate f) := by
  induction es with
  | nil => rfl
  | cons e rest ih => exact congrArg (_ :: ·) ih

@[simp] theorem Expr.relocate?_eq (e : Option Expr) :
    Expr.relocate? f e = e.map (Expr.relocate f) := by
  cases e <;> rfl

@[simp] theorem FunDecl.relocateAll_eq (functions : List FunDecl) :
    FunDecl.relocateAll f functions = functions.map (FunDecl.relocate f) := by
  induction functions with
  | nil => rfl
  | cons function rest ih => exact congrArg (_ :: ·) ih

@[simp] theorem Stmt.relocateAll_eq (stmts : List Stmt) :
    Stmt.relocateAll f stmts = stmts.map (Stmt.relocate f) := by
  induction stmts with
  | nil => rfl
  | cons stmt rest ih => exact congrArg (_ :: ·) ih

@[simp] theorem Stmt.relocate?_eq (stmt : Option Stmt) :
    Stmt.relocate? f stmt = stmt.map (Stmt.relocate f) := by
  cases stmt <;> rfl

/-! What a relocated program is made of -/

@[simp] theorem FunDecl.span_relocate (function : FunDecl) :
    (function.relocate f).span = f function.span := by
  cases function
  rfl

@[simp] theorem FunDecl.name_relocate (function : FunDecl) :
    (function.relocate f).name = function.name := by
  cases function
  rfl

@[simp] theorem FunDecl.params_relocate (function : FunDecl) :
    (function.relocate f).params = function.params.map (Name.relocate f) := by
  cases function
  rfl

@[simp] theorem FunDecl.body_relocate (function : FunDecl) :
    (function.relocate f).body = function.body.map (Stmt.relocate f) := by
  cases function
  exact Stmt.relocateAll_eq f _

@[simp] theorem FunDecl.isInitializer_relocate (function : FunDecl) :
    (function.relocate f).isInitializer = function.isInitializer := by
  unfold FunDecl.isInitializer
  rw [FunDecl.name_relocate]

@[simp] theorem Expr.span_relocate (e : Expr) : (e.relocate f).span = f e.span := by
  cases e with
  | lambda function => exact function.span_relocate f
  | _ => rfl

@[simp] theorem Stmt.span_relocate (stmt : Stmt) : (stmt.relocate f).span = f stmt.span := by
  cases stmt with
  | funDecl function => exact function.span_relocate f
  | _ => rfl

end

/-! ### Functions of spans that agree -/

section

variable {f g h : Span → Span}

/-- A name is moved alike by functions that agree on its place. -/
theorem Name.relocate_congr (hfg : ∀ s, f s = s → g s = h s) {n : Name} (hn : n.relocate f = n) :
    n.relocate g = n.relocate h := by
  have hspan := hfg n.span (congrArg Name.span hn)
  unfold Name.relocate
  rw [hspan]

/-- A fault is moved alike by functions that agree on its place. -/
theorem Fault.relocate_congr (hfg : ∀ s, f s = s → g s = h s) {e : Fault}
    (he : e.relocate f = e) : e.relocate g = e.relocate h := by
  have hspan := hfg e.span (congrArg Fault.span he)
  unfold Fault.relocate
  rw [hspan]

theorem Fault.map_relocate_congr (hfg : ∀ s, f s = s → g s = h s) {faults : List Fault}
    (hfaults : faults.map (Fault.relocate f) = faults) :
    faults.map (Fault.relocate g) = faults.map (Fault.relocate h) := by
  induction faults with
  | nil => rfl
  | cons e rest ih =>
    obtain ⟨hhead, htail⟩ := List.cons.inj hfaults
    rw [List.map_cons, List.map_cons, Fault.relocate_congr hfg hhead, ih htail]

theorem Name.map_relocate_congr (hfg : ∀ s, f s = s → g s = h s) {names : List Name}
    (hn : names.map (Name.relocate f) = names) :
    names.map (Name.relocate g) = names.map (Name.relocate h) := by
  induction names with
  | nil => rfl
  | cons n rest ih =>
    obtain ⟨hhead, htail⟩ := List.cons.inj hn
    rw [List.map_cons, List.map_cons, Name.relocate_congr hfg hhead, ih htail]

mutual

/-- Two functions that agree on the spans which a third one keeps do the same to an expression that
the third one keeps. -/
theorem Expr.relocate_congr (hfg : ∀ s, f s = s → g s = h s) :
    ∀ e : Expr, e.relocate f = e → e.relocate g = e.relocate h
  | .literal span _, he | .var span _, he | .step span _ _ _, he | .this span, he
  | .super span _, he => by
    have hspan : f span = span := by simpa [Expr.relocate] using he
    simp only [Expr.relocate, hfg span hspan]
  | .assign span _ e, he | .group span e, he | .unary span _ e, he | .property span e _, he => by
    obtain ⟨hspan, hpart⟩ : f span = span ∧ e.relocate f = e := by
      simpa [Expr.relocate] using he
    simp only [Expr.relocate, hfg span hspan, Expr.relocate_congr hfg e hpart]
  | .binary span _ left right, he | .setProperty span left _ right, he => by
    obtain ⟨hspan, hleft, hright⟩ :
        f span = span ∧ left.relocate f = left ∧ right.relocate f = right := by
      simpa [Expr.relocate] using he
    simp only [Expr.relocate, hfg span hspan, Expr.relocate_congr hfg left hleft,
      Expr.relocate_congr hfg right hright]
  | .call span callee arguments, he => by
    obtain ⟨hspan, hcallee, harguments⟩ := Expr.call.inj he
    simp only [Expr.relocate, hfg span hspan, Expr.relocate_congr hfg callee hcallee,
      Expr.relocateAll_congr hfg arguments harguments]
  | .lambda function, he => by
    have hfunction := Expr.lambda.inj he
    simp only [Expr.relocate, FunDecl.relocate_congr hfg function hfunction]

/-- Expressions are moved alike by functions that agree on the places in them, which are those that
`f` leaves where they are. -/
theorem Expr.relocateAll_congr (hfg : ∀ s, f s = s → g s = h s) :
    ∀ es : List Expr, Expr.relocateAll f es = es →
    Expr.relocateAll g es = Expr.relocateAll h es
  | [], _ => rfl
  | e :: rest, he => by
    obtain ⟨hhead, htail⟩ := List.cons.inj he
    rw [Expr.relocateAll, Expr.relocateAll, Expr.relocate_congr hfg e hhead,
      Expr.relocateAll_congr hfg rest htail]

theorem Expr.relocate?_congr (hfg : ∀ s, f s = s → g s = h s) :
    ∀ e : Option Expr, Expr.relocate? f e = e →
    Expr.relocate? g e = Expr.relocate? h e
  | none, _ => rfl
  | some e, he => congrArg some (Expr.relocate_congr hfg e (Option.some.inj he))

theorem FunDecl.relocate_congr (hfg : ∀ s, f s = s → g s = h s) :
    ∀ function : FunDecl, function.relocate f = function →
    function.relocate g = function.relocate h
  | .mk span _ params body, he => by
    obtain ⟨hspan, -, hparams, hbody⟩ := FunDecl.mk.inj he
    rw [FunDecl.relocate, FunDecl.relocate, hfg span hspan, Name.map_relocate_congr hfg hparams,
      Stmt.relocateAll_congr hfg body hbody]

theorem FunDecl.relocateAll_congr (hfg : ∀ s, f s = s → g s = h s) :
    ∀ functions : List FunDecl,
    FunDecl.relocateAll f functions = functions →
    FunDecl.relocateAll g functions = FunDecl.relocateAll h functions
  | [], _ => rfl
  | function :: rest, he => by
    obtain ⟨hhead, htail⟩ := List.cons.inj he
    rw [FunDecl.relocateAll, FunDecl.relocateAll, FunDecl.relocate_congr hfg function hhead,
      FunDecl.relocateAll_congr hfg rest htail]

theorem Stmt.relocate_congr (hfg : ∀ s, f s = s → g s = h s) :
    ∀ stmt : Stmt, stmt.relocate f = stmt →
    stmt.relocate g = stmt.relocate h
  | .expression span e, he | .print span e, he => by
    obtain ⟨hspan, hpart⟩ : f span = span ∧ e.relocate f = e := by
      simpa [Stmt.relocate] using he
    simp only [Stmt.relocate, hfg span hspan, Expr.relocate_congr hfg e hpart]
  | .varDecl span _ value, he => by
    obtain ⟨hspan, -, hvalue⟩ := Stmt.varDecl.inj he
    simp only [Stmt.relocate, hfg span hspan, Expr.relocate?_congr hfg value hvalue]
  | .returns span value, he => by
    obtain ⟨hspan, hvalue⟩ := Stmt.returns.inj he
    simp only [Stmt.relocate, hfg span hspan, Expr.relocate?_congr hfg value hvalue]
  | .funDecl function, he => by
    have hfunction := Stmt.funDecl.inj he
    simp only [Stmt.relocate, FunDecl.relocate_congr hfg function hfunction]
  | .classDecl span _ parent methods, he => by
    obtain ⟨hspan, -, hparent, hmethods⟩ := Stmt.classDecl.inj he
    have hnames : parent.map (Name.relocate g) = parent.map (Name.relocate h) := by
      cases parent with
      | none => rfl
      | some n => exact congrArg some (Name.relocate_congr hfg (Option.some.inj hparent))
    simp only [Stmt.relocate, hfg span hspan, hnames,
      FunDecl.relocateAll_congr hfg methods hmethods]
  | .block span body, he => by
    obtain ⟨hspan, hbody⟩ := Stmt.block.inj he
    simp only [Stmt.relocate, hfg span hspan, Stmt.relocateAll_congr hfg body hbody]
  | .conditional span condition yes no, he => by
    obtain ⟨hspan, hcondition, hyes, hno⟩ := Stmt.conditional.inj he
    simp only [Stmt.relocate, hfg span hspan, Expr.relocate_congr hfg condition hcondition,
      Stmt.relocate_congr hfg yes hyes, Stmt.relocate?_congr hfg no hno]
  | .whileLoop span condition body, he => by
    obtain ⟨hspan, hcondition, hbody⟩ := Stmt.whileLoop.inj he
    simp only [Stmt.relocate, hfg span hspan, Expr.relocate_congr hfg condition hcondition,
      Stmt.relocate_congr hfg body hbody]
  | .forLoop span init condition step body, he => by
    obtain ⟨hspan, hinit, hcondition, hstep, hbody⟩ := Stmt.forLoop.inj he
    simp only [Stmt.relocate, hfg span hspan, Stmt.relocate?_congr hfg init hinit,
      Expr.relocate?_congr hfg condition hcondition, Expr.relocate?_congr hfg step hstep,
      Stmt.relocate_congr hfg body hbody]

theorem Stmt.relocateAll_congr (hfg : ∀ s, f s = s → g s = h s) :
    ∀ stmts : List Stmt, Stmt.relocateAll f stmts = stmts →
    Stmt.relocateAll g stmts = Stmt.relocateAll h stmts
  | [], _ => rfl
  | stmt :: rest, he => by
    obtain ⟨hhead, htail⟩ := List.cons.inj he
    rw [Stmt.relocateAll, Stmt.relocateAll, Stmt.relocate_congr hfg stmt hhead,
      Stmt.relocateAll_congr hfg rest htail]

theorem Stmt.relocate?_congr (hfg : ∀ s, f s = s → g s = h s) :
    ∀ stmt : Option Stmt, Stmt.relocate? f stmt = stmt →
    Stmt.relocate? g stmt = Stmt.relocate? h stmt
  | none, _ => rfl
  | some stmt, he => congrArg some (Stmt.relocate_congr hfg stmt (Option.some.inj he))

end

/-- Two functions that agree on the spans which a third one keeps do the same to a program that the
third one keeps. -/
theorem Program.relocate_congr (hfg : ∀ s, f s = s → g s = h s) {p : Program}
    (hp : p.relocate f = p) :
    p.relocate g = p.relocate h := by
  unfold Program.relocate at hp ⊢
  rw [← Stmt.relocateAll_eq] at hp
  rw [← Stmt.relocateAll_eq, ← Stmt.relocateAll_eq, Stmt.relocateAll_congr hfg p hp]

/-- What was read is moved alike by functions that agree on its places. -/
theorem Program.relocateResult_congr (hfg : ∀ s, f s = s → g s = h s)
    {r : Except (List Fault) Program} (hr : relocateResult f r = r) :
    relocateResult g r = relocateResult h r := by
  cases r with
  | ok p => exact congrArg Except.ok (relocate_congr hfg (Except.ok.inj hr))
  | error faults =>
    exact congrArg Except.error (Fault.map_relocate_congr hfg (Except.error.inj hr))

end

end LoxLang
