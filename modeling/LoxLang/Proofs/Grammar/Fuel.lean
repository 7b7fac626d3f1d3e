import LoxLang.Proofs.Grammar.Total

/-!
# Readers with more fuel

A reader that does not run out of fuel comes to the same value or the same fault, and to the same
place, with more fuel. Fuel is handed from one reader to the next, so this holds of all readers at
once: by induction on the fuel, each reader approximates itself with one more unit of it
(`approximatesAt`). What is read of a list therefore does not depend on how long the list is that
the fuel was measured by (`Program.ofLexemes_eq_program`).
-/

namespace LoxLang

namespace Reader

variable {α β : Type} {p q r : Reader α} {f g : α → Reader β}

/-- The second reader comes to what the first one comes to, unless the first runs out of fuel. -/
def Approximates (p q : Reader α) : Prop := ∀ c, p c = .exhausted ∨ q c = p c

namespace Approximates

protected theorem refl (p : Reader α) : Approximates p p := fun _ ↦ .inr rfl

protected theorem exhausted (p : Reader α) : Approximates exhausted p := fun _ ↦ .inl rfl

protected theorem trans (hp : Approximates p q) (hq : Approximates q r) : Approximates p r := by
  intro c
  rcases hp c with h | h
  · exact .inl h
  · rcases hq c with h' | h'
    · exact .inl (h ▸ h')
    · exact .inr (h'.trans h)

/-- A reader that does not run out of fuel is as good as any that it approximates. -/
theorem eq_of_ne {c : Cursor} (h : Approximates p q) (hp : p c ≠ .exhausted) : q c = p c :=
  (h c).resolve_left hp

/-- One reader after the other is approximated part by part. -/
protected theorem bind (hp : Approximates p q) (hf : ∀ a, Approximates (f a) (g a)) :
    Approximates (p >>= f) (q >>= g) := by
  intro c
  show Reader.bind p f c = _ ∨ Reader.bind q g c = Reader.bind p f c
  unfold Reader.bind
  rcases hp c with h | h
  · exact .inl (by rw [h])
  · rw [h]
    cases p c with
    | ok a d => exact hf a d
    | fault e d => exact .inr rfl
    | exhausted => exact .inl rfl
    | astray m => exact .inr rfl

/-- What is read first is read with the same fuel. -/
theorem after (p : Reader α) (hf : ∀ a, Approximates (f a) (g a)) :
    Approximates (p >>= f) (p >>= g) :=
  .bind (.refl p) hf

protected theorem map (k : α → β) (hp : Approximates p q) : Approximates (k <$> p) (k <$> q) :=
  .bind hp fun _ ↦ .refl _

/-- Of two readers that are tried unless a mark is ahead, the first approximates the second if it
does without the mark. -/
protected theorem unlessSees (m : Mark) (hp : Approximates p q) :
    Approximates (unlessSees m p) (unlessSees m q) := by
  refine .after _ fun b ↦ ?_
  split
  · exact .refl _
  · exact .bind hp fun a ↦ .refl _

/-- With recovery a reader still approximates the other, since there is none where the fuel ran
out. -/
protected theorem recovering (hp : Approximates p q) :
    Approximates (recovering p) (recovering q) := by
  intro c
  unfold Reader.recovering
  rcases hp c with h | h
  · exact .inl (by rw [h])
  · exact .inr (by rw [h])

end Approximates

end Reader

/-! ### Every reader -/

open Reader (Approximates)

/-- What holds of all readers with this much fuel. -/
structure ApproximatesAt (fuel : Nat) : Prop where
  expression : Approximates (Reader.expression fuel) (Reader.expression (fuel + 1))
  binary : ∀ levels, Approximates (Reader.binary fuel levels) (Reader.binary (fuel + 1) levels)
  chain : ∀ level tighter left, Approximates (Reader.chain fuel level tighter left)
    (Reader.chain (fuel + 1) level tighter left)
  unary : Approximates (Reader.unary fuel) (Reader.unary (fuel + 1))
  suffixes : ∀ e, Approximates (Reader.suffixes fuel e) (Reader.suffixes (fuel + 1) e)
  arguments : ∀ count, Approximates (Reader.arguments fuel count)
    (Reader.arguments (fuel + 1) count)
  primary : Approximates (Reader.primary fuel) (Reader.primary (fuel + 1))
  function : ∀ start name, Approximates (Reader.function fuel start name)
    (Reader.function (fuel + 1) start name)
  parameters : ∀ count, Approximates (Reader.parameters fuel count)
    (Reader.parameters (fuel + 1) count)
  blockBody : Approximates (Reader.blockBody fuel) (Reader.blockBody (fuel + 1))
  declaration : Approximates (Reader.declaration fuel) (Reader.declaration (fuel + 1))
  classDecl : Approximates (Reader.classDecl fuel) (Reader.classDecl (fuel + 1))
  methods : Approximates (Reader.methods fuel) (Reader.methods (fuel + 1))
  varDecl : Approximates (Reader.varDecl fuel) (Reader.varDecl (fuel + 1))
  expressionStmt : Approximates (Reader.expressionStmt fuel) (Reader.expressionStmt (fuel + 1))
  statement : Approximates (Reader.statement fuel) (Reader.statement (fuel + 1))
  forLoop : Approximates (Reader.forLoop fuel) (Reader.forLoop (fuel + 1))

namespace ApproximatesAt

variable {fuel : Nat}

/-! Expressions -/

/-- An expression is read in the same way with one more unit of fuel, since its operations are. -/
theorem expression_succ (ih : ApproximatesAt fuel) :
    Approximates (Reader.expression (fuel + 1)) (Reader.expression (fuel + 2)) := by
  rw [Reader.expression, Reader.expression]
  refine .bind (ih.binary _) fun target ↦ .after _ fun assigns ↦ ?_
  split
  · exact .after _ fun equals ↦ .bind ih.expression fun value ↦ .refl _
  · exact .refl _

/-- The operations of a level are read in the same way with one more unit of fuel, since their
operands are. -/
theorem binary_succ (ih : ApproximatesAt fuel) (levels : List (List (Mark × BinaryOp))) :
    Approximates (Reader.binary (fuel + 1) levels) (Reader.binary (fuel + 2) levels) := by
  cases levels with
  | nil =>
    rw [Reader.binary, Reader.binary]
    exact ih.unary
  | cons level tighter =>
    rw [Reader.binary, Reader.binary]
    exact .bind (ih.binary tighter) fun left ↦ ih.chain level tighter left

/-- A chain of operations of one level is read in the same way with one more unit of fuel, since its
operands are. -/
theorem chain_succ (ih : ApproximatesAt fuel) (level : List (Mark × BinaryOp))
    (tighter : List (List (Mark × BinaryOp))) (left : Expr) :
    Approximates (Reader.chain (fuel + 1) level tighter left)
      (Reader.chain (fuel + 2) level tighter left) := by
  rw [Reader.chain, Reader.chain]
  refine .after _ fun t ↦ ?_
  split
  · exact .after _ fun _ ↦ .bind (ih.binary tighter) fun right ↦ ih.chain level tighter _
  · exact .refl _

/-- An operand is read in the same way with one more unit of fuel, since what its operators and
suffixes stand at is. -/
theorem unary_succ (ih : ApproximatesAt fuel) :
    Approximates (Reader.unary (fuel + 1)) (Reader.unary (fuel + 2)) := by
  rw [Reader.unary, Reader.unary]
  refine .after _ fun t ↦ ?_
  split
  · exact .after _ fun sign ↦ .bind ih.unary fun operand ↦ .refl _
  · exact .after _ fun sign ↦ .bind ih.unary fun operand ↦ .refl _
  · split
    · exact .refl _
    · exact .bind ih.primary fun callee ↦ ih.suffixes callee

/-- The suffixes of an expression are read in the same way with one more unit of fuel, since their
arguments are. -/
theorem suffixes_succ (ih : ApproximatesAt fuel) (e : Expr) :
    Approximates (Reader.suffixes (fuel + 1) e) (Reader.suffixes (fuel + 2) e) := by
  rw [Reader.suffixes, Reader.suffixes]
  refine .after _ fun t ↦ ?_
  split
  · exact .after _ fun _ ↦ .bind (.unlessSees _ (ih.arguments 0)) fun args ↦
      .after _ fun close ↦ ih.suffixes _
  · exact .after _ fun _ ↦ .after _ fun name ↦ ih.suffixes _
  · exact .refl _

/-- Arguments are read in the same way with one more unit of fuel, since each expression is. -/
theorem arguments_succ (ih : ApproximatesAt fuel) (count : Nat) :
    Approximates (Reader.arguments (fuel + 1) count) (Reader.arguments (fuel + 2) count) := by
  have others (argument : Expr) : Approximates
      (Reader.accept .comma >>= fun more ↦ if more then do
        let others ← Reader.arguments fuel (count + 1)
        return argument :: others else return [argument])
      (Reader.accept .comma >>= fun more ↦ if more then do
        let others ← Reader.arguments (fuel + 1) (count + 1)
        return argument :: others else return [argument]) := by
    refine .after _ fun more ↦ ?_
    split
    · exact .bind (ih.arguments _) fun others ↦ .refl _
    · exact .refl _
  rw [Reader.arguments, Reader.arguments]
  refine .bind ih.expression fun argument ↦ ?_
  split
  · exact .after _ fun _ ↦ others argument
  · exact others argument

/-- A primary expression is read in the same way with one more unit of fuel, since a function or an
expression in parentheses is. -/
theorem primary_succ (ih : ApproximatesAt fuel) :
    Approximates (Reader.primary (fuel + 1)) (Reader.primary (fuel + 2)) := by
  rw [Reader.primary, Reader.primary]
  refine .after _ fun t ↦ ?_
  split
  · exact .refl _
  split
  · exact .refl _
  · exact .refl _
  · exact .refl _
  · exact .after _ fun opening ↦ .bind ih.expression fun inner ↦ .refl _
  · exact .after _ fun word ↦ .bind (ih.function word.start _) fun function ↦ .refl _
  · exact .refl _

/-! Functions -/

/-- A function is read in the same way with one more unit of fuel, since its parameters and its body
are. -/
theorem function_succ (ih : ApproximatesAt fuel) (start : Nat) (name : String) :
    Approximates (Reader.function (fuel + 1) start name)
      (Reader.function (fuel + 2) start name) := by
  rw [Reader.function, Reader.function]
  exact .after _ fun _ ↦ .bind (.unlessSees _ (ih.parameters 0)) fun params ↦
    .after _ fun _ ↦ .after _ fun _ ↦ .bind ih.blockBody fun body ↦ .refl _

/-- Parameters are read in the same way with one more unit of fuel, since those that follow are. -/
theorem parameters_succ (ih : ApproximatesAt fuel) (count : Nat) :
    Approximates (Reader.parameters (fuel + 1) count) (Reader.parameters (fuel + 2) count) := by
  have others (param : Name) : Approximates
      (Reader.accept .comma >>= fun more ↦ if more then do
        let others ← Reader.parameters fuel (count + 1)
        return param :: others else return [param])
      (Reader.accept .comma >>= fun more ↦ if more then do
        let others ← Reader.parameters (fuel + 1) (count + 1)
        return param :: others else return [param]) := by
    refine .after _ fun more ↦ ?_
    split
    · exact .bind (ih.parameters _) fun others ↦ .refl _
    · exact .refl _
  rw [Reader.parameters, Reader.parameters]
  refine .after _ fun param ↦ ?_
  split
  · exact .after _ fun _ ↦ others param
  · exact others param

/-- Methods are read in the same way with one more unit of fuel, since each function is. -/
theorem methods_succ (ih : ApproximatesAt fuel) :
    Approximates (Reader.methods (fuel + 1)) (Reader.methods (fuel + 2)) := by
  rw [Reader.methods, Reader.methods]
  refine .after _ fun closes ↦ .after _ fun ends ↦ ?_
  split
  · exact .refl _
  · exact .after _ fun name ↦ .bind (ih.function name.span.start _) fun first ↦
      .bind ih.methods fun others ↦ .refl _

/-! Statements -/

/-- A block is read in the same way with one more unit of fuel, since its declarations are. -/
theorem blockBody_succ (ih : ApproximatesAt fuel) :
    Approximates (Reader.blockBody (fuel + 1)) (Reader.blockBody (fuel + 2)) := by
  rw [Reader.blockBody, Reader.blockBody]
  refine .after _ fun closes ↦ .after _ fun ends ↦ ?_
  split
  · exact .refl _
  · exact .bind (.recovering ih.declaration) fun first ↦ .bind ih.blockBody fun others ↦ .refl _

/-- A declaration is read in the same way with one more unit of fuel, whichever it is. -/
theorem declaration_succ (ih : ApproximatesAt fuel) :
    Approximates (Reader.declaration (fuel + 1)) (Reader.declaration (fuel + 2)) := by
  rw [Reader.declaration, Reader.declaration]
  refine .after _ fun t ↦ ?_
  split
  · exact ih.classDecl
  · refine .after _ fun t ↦ ?_
    split
    · exact .after _ fun word ↦ .after _ fun name ↦
        .bind (ih.function word.start _) fun function ↦ .refl _
    · exact ih.statement
  · exact ih.varDecl
  · exact ih.statement

/-- A class is read in the same way with one more unit of fuel, since its methods are. -/
theorem classDecl_succ (ih : ApproximatesAt fuel) :
    Approximates (Reader.classDecl (fuel + 1)) (Reader.classDecl (fuel + 2)) := by
  have body (word : Span) (name : Name) (superclass : Option Name) : Approximates
      (Reader.expect .leftBrace >>= fun _ ↦ Reader.methods fuel >>= fun methods ↦
        Reader.expect .rightBrace >>= fun closing ↦
          pure (Stmt.classDecl (word.through closing) name.text superclass methods))
      (Reader.expect .leftBrace >>= fun _ ↦ Reader.methods (fuel + 1) >>= fun methods ↦
        Reader.expect .rightBrace >>= fun closing ↦
          pure (Stmt.classDecl (word.through closing) name.text superclass methods)) :=
    .after _ fun _ ↦ .bind ih.methods fun methods ↦ .refl _
  rw [Reader.classDecl, Reader.classDecl]
  refine .after _ fun word ↦ .after _ fun name ↦ .after _ fun inherits ↦ ?_
  split
  · exact .after _ fun superclass ↦ body word name superclass
  · exact .after _ fun superclass ↦ body word name superclass

/-- A variable is read in the same way with one more unit of fuel, since its initializer is. -/
theorem varDecl_succ (ih : ApproximatesAt fuel) :
    Approximates (Reader.varDecl (fuel + 1)) (Reader.varDecl (fuel + 2)) := by
  rw [Reader.varDecl, Reader.varDecl]
  refine .after _ fun word ↦ .after _ fun name ↦ .after _ fun hasValue ↦ ?_
  split
  · exact .bind (.map some ih.expression) fun value ↦ .refl _
  · exact .refl _

/-- An expression statement is read in the same way with one more unit of fuel, since the expression
is. -/
theorem expressionStmt_succ (ih : ApproximatesAt fuel) :
    Approximates (Reader.expressionStmt (fuel + 1)) (Reader.expressionStmt (fuel + 2)) := by
  rw [Reader.expressionStmt, Reader.expressionStmt]
  exact .bind ih.expression fun value ↦ .refl _

/-- A statement is read in the same way with one more unit of fuel, whichever it is. -/
theorem statement_succ (ih : ApproximatesAt fuel) :
    Approximates (Reader.statement (fuel + 1)) (Reader.statement (fuel + 2)) := by
  rw [Reader.statement, Reader.statement]
  refine .after _ fun t ↦ ?_
  split
  · exact ih.forLoop
  · -- `if`
    refine .after _ fun word ↦ .after _ fun _ ↦ .bind ih.expression fun condition ↦ ?_
    refine .after _ fun _ ↦ .bind ih.statement fun yes ↦ .after _ fun hasElse ↦ ?_
    split
    · exact .bind (.map some ih.statement) fun no ↦ .refl _
    · exact .refl _
  · -- a block
    exact .after _ fun opening ↦ .bind ih.blockBody fun body ↦ .refl _
  · -- `print`
    exact .after _ fun word ↦ .bind ih.expression fun value ↦ .refl _
  · -- `return`
    exact .after _ fun word ↦ .bind (.unlessSees _ ih.expression) fun value ↦ .refl _
  · -- `while`
    exact .after _ fun word ↦ .after _ fun _ ↦ .bind ih.expression fun condition ↦
      .after _ fun _ ↦ .bind ih.statement fun body ↦ .refl _
  · exact ih.expressionStmt

/-- A loop with clauses is read in the same way with one more unit of fuel, since its clauses and
its body are. -/
theorem forLoop_succ (ih : ApproximatesAt fuel) :
    Approximates (Reader.forLoop (fuel + 1)) (Reader.forLoop (fuel + 2)) := by
  have clauses (word : Span) (init : Option Stmt) : Approximates
      (Reader.unlessSees .semicolon (Reader.expression fuel) >>= fun condition ↦
        Reader.expect .semicolon >>= fun _ ↦
        Reader.unlessSees .rightParen (Reader.expression fuel) >>= fun step ↦
        Reader.expect .rightParen >>= fun _ ↦ Reader.statement fuel >>= fun body ↦
          pure (Stmt.forLoop (word.through body.span) init condition step body))
      (Reader.unlessSees .semicolon (Reader.expression (fuel + 1)) >>= fun condition ↦
        Reader.expect .semicolon >>= fun _ ↦
        Reader.unlessSees .rightParen (Reader.expression (fuel + 1)) >>= fun step ↦
        Reader.expect .rightParen >>= fun _ ↦ Reader.statement (fuel + 1) >>= fun body ↦
          pure (Stmt.forLoop (word.through body.span) init condition step body)) :=
    .bind (.unlessSees _ ih.expression) fun condition ↦ .after _ fun _ ↦
      .bind (.unlessSees _ ih.expression) fun step ↦ .after _ fun _ ↦
        .bind ih.statement fun body ↦ .refl _
  rw [Reader.forLoop, Reader.forLoop]
  refine .after _ fun word ↦ .after _ fun _ ↦ .after _ fun t ↦ ?_
  split
  · exact .after _ fun _ ↦ .after _ fun init ↦ clauses word init
  · exact .bind (.map some ih.varDecl) fun init ↦ clauses word init
  · exact .bind (.map some ih.expressionStmt) fun init ↦ clauses word init

end ApproximatesAt

/-- Every reader comes to the same with one more unit of fuel. -/
theorem approximatesAt (fuel : Nat) : ApproximatesAt fuel := by
  induction fuel with
  | zero => constructor <;> intros <;> exact .exhausted _
  | succ fuel ih =>
    exact {
      expression := ih.expression_succ
      binary := ih.binary_succ
      chain := ih.chain_succ
      unary := ih.unary_succ
      suffixes := ih.suffixes_succ
      arguments := ih.arguments_succ
      primary := ih.primary_succ
      function := ih.function_succ
      parameters := ih.parameters_succ
      blockBody := ih.blockBody_succ
      declaration := ih.declaration_succ
      classDecl := ih.classDecl_succ
      methods := ih.methods_succ
      varDecl := ih.varDecl_succ
      expressionStmt := ih.expressionStmt_succ
      statement := ih.statement_succ
      forLoop := ih.forLoop_succ }

/-! ### Programs -/

namespace Reader

/-- Declarations are read in the same way with any more fuel. -/
theorem approximates_declaration {depth depth' : Nat} (h : depth ≤ depth') :
    Approximates (declaration depth) (declaration depth') := by
  induction h with
  | refl => exact .refl _
  | step _ ih => exact ih.trans (approximatesAt _).declaration

/-- Programs are read in the same way with any more fuel, of both kinds. -/
theorem approximates_program {depth depth' fuel fuel' : Nat} (hdepth : depth ≤ depth')
    (hfuel : fuel ≤ fuel') : Approximates (program depth fuel) (program depth' fuel') := by
  induction fuel generalizing fuel' with
  | zero => exact .exhausted _
  | succ fuel ih =>
    obtain ⟨fuel', rfl⟩ : ∃ n, fuel' = n + 1 := ⟨fuel' - 1, by omega⟩
    rw [program, program]
    refine .after _ fun ends ↦ ?_
    split
    · exact .refl _
    · exact .bind (.recovering (approximates_declaration hdepth)) fun first ↦
        .bind (ih (by omega)) fun others ↦ .refl _

end Reader

namespace Program

/-- What comes of a program reader: the program, if no fault was noted. -/
def ofOutcome : Outcome Program → Except (List Fault) Program
  | .ok program c => if c.faults.isEmpty then .ok program else .error c.faults
  | .fault f c => .error (c.faults ++ [f])
  | .exhausted | .astray _ => .error []

/-- A program is read with as much fuel as the number of its tokens calls for. -/
theorem ofLexemes_eq (tokens : List Lexeme) (stop : Nat) :
    ofLexemes tokens stop = ofOutcome (Reader.program (fuelFor tokens.length)
      (fuelFor tokens.length) ⟨tokens, none, stop, []⟩) := rfl

/-- With more fuel than is measured by the list, the same is read. -/
theorem ofLexemes_eq_program (tokens : List Lexeme) (stop : Nat) {depth fuel : Nat}
    (hdepth : fuelFor tokens.length ≤ depth) (hfuel : fuelFor tokens.length ≤ fuel) :
    ofLexemes tokens stop =
      ofOutcome (Reader.program depth fuel ⟨tokens, none, stop, []⟩) := by
  obtain ⟨p, d, hread, -⟩ := exists_ofLexemes tokens stop
  rw [ofLexemes_eq, (Reader.approximates_program hdepth hfuel).eq_of_ne (by rw [hread]; nofun)]

end Program

end LoxLang
