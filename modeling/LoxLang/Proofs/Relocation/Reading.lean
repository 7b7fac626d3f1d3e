import LoxLang.Proofs.Reading
import LoxLang.Proofs.Relocation

/-!
# Reading at other places

A reader puts spans together from the ends of other spans, and looks at nothing but the tokens. So
if all offsets of a list of tokens are replaced, what is read of it is the same with all offsets
replaced (`Program.ofLexemes_relocate`).
-/

namespace LoxLang

/-- The span with both its ends replaced. -/
def Span.map (φ : Nat → Nat) (s : Span) : Span := ⟨φ s.start, φ s.stop⟩

/-- The lexeme at another place. -/
def Lexeme.relocate (f : Span → Span) (x : Lexeme) : Lexeme := { x with span := f x.span }

/-- The same place in the list of tokens whose offsets are replaced. -/
def Cursor.relocate (φ : Nat → Nat) (c : Cursor) : Cursor where
  rest := c.rest.map (Lexeme.relocate (Span.map φ))
  last := c.last.map (Lexeme.relocate (Span.map φ))
  stop := φ c.stop
  faults := c.faults.map (Fault.relocate (Span.map φ))

/-- What a reader comes to, when offsets are replaced: its value too is replaced. -/
def Outcome.relocate {α β : Type} (φ : Nat → Nat) (g : α → β) : Outcome α → Outcome β
  | .ok a c => .ok (g a) (c.relocate φ)
  | .fault e c => .fault (e.relocate (Span.map φ)) (c.relocate φ)
  | .exhausted => .exhausted
  | .astray m => .astray m

namespace Cursor

variable (φ : Nat → Nat) (c : Cursor)

/-- The token ahead is the same wherever it stands. -/
theorem head_relocate :
    (c.relocate φ).rest.head?.map (·.token) = c.rest.head?.map (·.token) := by
  simp [relocate, Lexeme.relocate, Function.comp_def]

/-- The token after the next is the same wherever it stands. -/
theorem second_relocate :
    (c.relocate φ).rest.tail.head?.map (·.token) = c.rest.tail.head?.map (·.token) := by
  simp [relocate, Lexeme.relocate, Function.comp_def]

theorem sees_relocate (m : Mark) :
    (c.relocate φ).rest.head?.any (·.token.isMark m) = c.rest.head?.any (·.token.isMark m) := by
  cases h : c.rest <;> simp [relocate, Lexeme.relocate, h]

theorem isEmpty_relocate : (c.relocate φ).rest.isEmpty = c.rest.isEmpty := by
  simp [relocate]

theorem advance_relocate : (c.relocate φ).advance = c.advance.relocate φ := by
  unfold advance
  cases h : c.rest <;> simp [relocate, h]

theorem note_relocate (e : Fault) :
    (c.relocate φ).note (e.relocate (Span.map φ)) = (c.note e).relocate φ := by
  simp [note, relocate]

/-- The end of the last token that was passed is moved with it. -/
theorem reached_relocate : (c.relocate φ).reached = φ c.reached := by
  unfold reached
  cases h : c.last <;> simp [relocate, h, Lexeme.relocate, Span.map]

/-- Whether a token begins a statement does not depend on where it stands. -/
theorem nextStatement_relocate (last : Option Lexeme) (ts : List Lexeme) :
    nextStatement (last.map (Lexeme.relocate (Span.map φ)))
        (ts.map (Lexeme.relocate (Span.map φ))) =
      ((nextStatement last ts).1.map (Lexeme.relocate (Span.map φ)),
        (nextStatement last ts).2.map (Lexeme.relocate (Span.map φ))) := by
  induction ts generalizing last with
  | nil => rfl
  | cons x ts ih =>
    have hlast : (last.map (Lexeme.relocate (Span.map φ))).any (·.token.isMark .semicolon) =
        last.any (·.token.isMark .semicolon) := by
      cases last <;> rfl
    rw [List.map_cons, nextStatement, nextStatement, hlast]
    have hx : (x.relocate (Span.map φ)).token = x.token := rfl
    rw [hx]
    split
    · rfl
    · exact ih (some x)

/-- After a fault the same tokens are skipped, wherever they stand. -/
theorem recover_relocate : (c.relocate φ).recover = c.recover.relocate φ := by
  unfold recover
  rw [advance_relocate]
  have h := nextStatement_relocate φ c.advance.last c.advance.rest
  simp only [relocate]
  rw [h]

/-- The fault of the token ahead is moved with it. -/
theorem unexpected_relocate (expected : List String) :
    (c.relocate φ).unexpected expected =
      (c.unexpected expected).relocate (Span.map φ) := by
  unfold unexpected
  cases h : c.rest <;> simp [relocate, h, Lexeme.relocate, Fault.relocate, Span.map, Span.point]

end Cursor

namespace Reader

variable {α α' β β' : Type} {φ : Nat → Nat} {g : α → α'} {h : β → β'} {p : Reader α}
  {q : Reader α'}

/-- What the first reader reads, the second one reads where the offsets are replaced, and its value
is replaced by `g`. -/
def Moves (φ : Nat → Nat) (g : α → α') (p : Reader α) (q : Reader α') : Prop :=
  ∀ c : Cursor, q (c.relocate φ) = (p c).relocate φ g

namespace Moves

protected theorem pure (a : α) : Moves φ g (pure a) (pure (g a)) := fun _ ↦ rfl

/-- The replaced value may be written in another way. -/
theorem value {a : α} {a' : α'} (ha : g a = a') : Moves φ g (pure a) (pure a') := by
  rw [← ha]
  exact .pure a

protected theorem exhausted : Moves φ g (exhausted : Reader α) exhausted := fun _ ↦ rfl

protected theorem astray (m : Misstep) : Moves φ g (astray m : Reader α) (astray m) := fun _ ↦ rfl

protected theorem unexpected (expected : List String) :
    Moves φ g (unexpected expected : Reader α) (unexpected expected) := by
  intro c
  unfold Reader.unexpected
  rw [c.unexpected_relocate φ]
  rfl

/-- If two readers move with the tokens, so does the one after the other. -/
protected theorem bind {k : α → Reader β} {k' : α' → Reader β'} (hp : Moves φ g p q)
    (hk : ∀ a, Moves φ h (k a) (k' (g a))) : Moves φ h (p >>= k) (q >>= k') := by
  intro c
  show Reader.bind q k' _ = (Reader.bind p k c).relocate φ h
  unfold Reader.bind
  rw [hp c]
  cases p c with
  | ok a d => exact hk a d
  | fault e d => rfl
  | exhausted => rfl
  | astray m => rfl

/-- A function of what was read moves with the tokens if it does so with what was read. -/
protected theorem map {k : α → β} {k' : α' → β'} (hp : Moves φ g p q)
    (hk : ∀ a, h (k a) = k' (g a)) : Moves φ h (k <$> p) (k' <$> q) :=
  hp.bind fun a ↦ by
    show Moves φ h (pure (k a)) (pure (k' (g a)))
    rw [← hk a]
    exact .pure (k a)

protected theorem some (hp : Moves φ g p q) : Moves φ (Option.map g) (some <$> p) (some <$> q) :=
  hp.map fun _ ↦ rfl

/-! Looking ahead -/

/-- What is read may depend on the token ahead, which is the same. -/
protected theorem peek {k : Option Token → Reader β} {k' : Option Token → Reader β'}
    (hk : ∀ t, Moves φ h (k t) (k' t)) : Moves φ h (peek >>= k) (peek >>= k') := by
  intro c
  rw [bind_peek, bind_peek, c.head_relocate φ]
  exact hk _ c

protected theorem peekSecond {k : Option Token → Reader β} {k' : Option Token → Reader β'}
    (hk : ∀ t, Moves φ h (k t) (k' t)) : Moves φ h (peekSecond >>= k) (peekSecond >>= k') := by
  intro c
  rw [bind_peekSecond, bind_peekSecond, c.second_relocate φ]
  exact hk _ c

protected theorem sees {m : Mark} {k : Bool → Reader β} {k' : Bool → Reader β'}
    (hk : ∀ b, Moves φ h (k b) (k' b)) : Moves φ h (sees m >>= k) (sees m >>= k') := by
  intro c
  rw [bind_sees, bind_sees, c.sees_relocate φ m]
  exact hk _ c

protected theorem atEnd {k : Bool → Reader β} {k' : Bool → Reader β'}
    (hk : ∀ b, Moves φ h (k b) (k' b)) : Moves φ h (atEnd >>= k) (atEnd >>= k') := by
  intro c
  rw [bind_atEnd, bind_atEnd, c.isEmpty_relocate φ]
  exact hk _ c

/-- The span of what was read since an offset is moved. -/
protected theorem spanFrom (start : Nat) :
    Moves φ (Span.map φ) (spanFrom start) (spanFrom (φ start)) := by
  intro c
  unfold Reader.spanFrom
  rw [c.reached_relocate φ]
  rfl

/-! Passing tokens -/

protected theorem take : Moves φ (Lexeme.relocate (Span.map φ)) take take := by
  intro c
  unfold Reader.take
  rw [c.advance_relocate φ]
  cases hrest : c.rest <;> simp [Cursor.relocate, hrest, Outcome.relocate]

protected theorem skip : Moves φ (Span.map φ) skip skip :=
  .bind .take fun x ↦ .pure x.span

/-- The fault that is noted is moved. -/
protected theorem note (e : Fault) : Moves φ id (note e) (note (e.relocate (Span.map φ))) := by
  intro c
  unfold Reader.note
  rw [c.note_relocate φ e]
  rfl

/-- A fault may be noted on the way. -/
theorem noteIf {b : Prop} [Decidable b] {e e' : Fault} {k : Unit → Reader β}
    {k' : Unit → Reader β'} (he : e.relocate (Span.map φ) = e')
    (hk : Moves φ h (k ()) (k' ())) :
    Moves φ h (if b then note e >>= k else k ()) (if b then note e' >>= k' else k' ()) := by
  split
  · rw [← he]
    exact (Moves.note e).bind fun _ ↦ hk
  · exact hk

/-- A mark that may be there is found at both places or at neither. -/
protected theorem accept (m : Mark) : Moves φ id (accept m) (accept m) := by
  refine .sees fun b ↦ ?_
  cases b with
  | true => exact .bind .skip fun _ ↦ .pure _
  | false => exact .pure _

/-- A mark that is expected is read at both places, or its fault is moved. -/
protected theorem expect (m : Mark) : Moves φ (Span.map φ) (expect m) (expect m) := by
  refine .sees fun b ↦ ?_
  cases b with
  | true => exact .skip
  | false => exact .unexpected _

/-- A name that is expected is read at both places, or its fault is moved. -/
protected theorem expectName (what : String) :
    Moves φ (Name.relocate (Span.map φ)) (expectName what) (expectName what) := by
  refine .peek fun t ↦ ?_
  split
  · refine .bind .take fun x ↦ ?_
    obtain ⟨token, span⟩ := x
    cases token with
    | identifier text => exact .pure _
    | mark | string | number | unknown => exact .astray _
  · exact .unexpected _

/-- A mark is looked for at both places alike. -/
protected theorem unlessSees (m : Mark) (hp : Moves φ g p q) :
    Moves φ (Option.map g) (unlessSees m p) (unlessSees m q) := by
  refine .sees fun b ↦ ?_
  cases b with
  | true => exact .pure _
  | false => exact .bind hp fun a ↦ .pure _

/-- After a fault, readers at both places go on behind the same tokens. -/
protected theorem recovering (hp : Moves φ g p q) :
    Moves φ (Option.map g) (recovering p) (recovering q) := by
  intro c
  unfold Reader.recovering
  rw [hp c]
  cases p c with
  | ok a d => rfl
  | fault e d =>
    simp only [Outcome.relocate]
    rw [d.note_relocate φ e, (d.note e).recover_relocate φ]
    rfl
  | exhausted => rfl
  | astray m => rfl

end Moves

end Reader

/-! ### Every reader -/

open Reader (Moves)

/-- The span of a node depends on the ends of its parts. -/
theorem Span.map_through (φ : Nat → Nat) (a b : Span) :
    (a.map φ).through (b.map φ) = (a.through b).map φ := rfl

/-- What holds of all readers with this much fuel. -/
structure MovesAt (φ : Nat → Nat) (fuel : Nat) : Prop where
  expression : Moves φ (Expr.relocate (Span.map φ)) (Reader.expression fuel)
    (Reader.expression fuel)
  binary : ∀ levels, Moves φ (Expr.relocate (Span.map φ)) (Reader.binary fuel levels)
    (Reader.binary fuel levels)
  chain : ∀ level tighter left, Moves φ (Expr.relocate (Span.map φ))
    (Reader.chain fuel level tighter left)
    (Reader.chain fuel level tighter (left.relocate (Span.map φ)))
  unary : Moves φ (Expr.relocate (Span.map φ)) (Reader.unary fuel) (Reader.unary fuel)
  suffixes : ∀ e, Moves φ (Expr.relocate (Span.map φ)) (Reader.suffixes fuel e)
    (Reader.suffixes fuel (e.relocate (Span.map φ)))
  arguments : ∀ count, Moves φ (List.map (Expr.relocate (Span.map φ)))
    (Reader.arguments fuel count) (Reader.arguments fuel count)
  primary : Moves φ (Expr.relocate (Span.map φ)) (Reader.primary fuel) (Reader.primary fuel)
  function : ∀ start name, Moves φ (FunDecl.relocate (Span.map φ))
    (Reader.function fuel start name) (Reader.function fuel (φ start) name)
  parameters : ∀ count, Moves φ (List.map (Name.relocate (Span.map φ)))
    (Reader.parameters fuel count) (Reader.parameters fuel count)
  blockBody : Moves φ (List.map (Stmt.relocate (Span.map φ))) (Reader.blockBody fuel)
    (Reader.blockBody fuel)
  declaration : Moves φ (Stmt.relocate (Span.map φ)) (Reader.declaration fuel)
    (Reader.declaration fuel)
  classDecl : Moves φ (Stmt.relocate (Span.map φ)) (Reader.classDecl fuel)
    (Reader.classDecl fuel)
  methods : Moves φ (List.map (FunDecl.relocate (Span.map φ))) (Reader.methods fuel)
    (Reader.methods fuel)
  varDecl : Moves φ (Stmt.relocate (Span.map φ)) (Reader.varDecl fuel) (Reader.varDecl fuel)
  expressionStmt : Moves φ (Stmt.relocate (Span.map φ)) (Reader.expressionStmt fuel)
    (Reader.expressionStmt fuel)
  statement : Moves φ (Stmt.relocate (Span.map φ)) (Reader.statement fuel)
    (Reader.statement fuel)
  forLoop : Moves φ (Stmt.relocate (Span.map φ)) (Reader.forLoop fuel) (Reader.forLoop fuel)

namespace MovesAt

variable {φ : Nat → Nat} {fuel : Nat}

/-! Expressions -/

/-- An assignment is made of moved parts as of the others; so is its fault. -/
theorem assignTo (target value : Expr) (equals : Span) :
    Moves φ (Expr.relocate (Span.map φ)) (Reader.assignTo target equals value)
      (Reader.assignTo (target.relocate (Span.map φ)) (equals.map φ)
        (value.relocate (Span.map φ))) := by
  cases target with
  | var span name | property span object name =>
    unfold Reader.assignTo
    simp only [Expr.relocate, Expr.span_relocate, Span.map_through]
    exact .pure _
  | _ => exact (Moves.note _).bind fun _ ↦ .pure _

/-- Moved tokens are read as the same expression, moved. -/
theorem expression_succ (ih : MovesAt φ fuel) :
    Moves φ (Expr.relocate (Span.map φ)) (Reader.expression (fuel + 1))
      (Reader.expression (fuel + 1)) := by
  rw [Reader.expression]
  refine .bind (ih.binary _) fun target ↦ .sees fun b ↦ ?_
  cases b with
  | true =>
    exact .bind .skip fun equals ↦ .bind ih.expression fun value ↦ assignTo target value equals
  | false => exact .pure _

/-- Moved tokens are read as the same operation of a level, moved. -/
theorem binary_succ (ih : MovesAt φ fuel) (levels : List (List (Mark × BinaryOp))) :
    Moves φ (Expr.relocate (Span.map φ)) (Reader.binary (fuel + 1) levels)
      (Reader.binary (fuel + 1) levels) := by
  cases levels with
  | nil =>
    rw [Reader.binary]
    exact ih.unary
  | cons level tighter =>
    rw [Reader.binary]
    exact .bind (ih.binary tighter) fun left ↦ ih.chain level tighter left

/-- A moved operand is continued by moved tokens as the operand is by the others. -/
theorem chain_succ (ih : MovesAt φ fuel) (level : List (Mark × BinaryOp))
    (tighter : List (List (Mark × BinaryOp))) (left : Expr) :
    Moves φ (Expr.relocate (Span.map φ)) (Reader.chain (fuel + 1) level tighter left)
      (Reader.chain (fuel + 1) level tighter (left.relocate (Span.map φ))) := by
  rw [Reader.chain, Reader.chain]
  refine .peek fun t ↦ ?_
  split
  · refine .bind .skip fun _ ↦ .bind (ih.binary tighter) fun right ↦ ?_
    rw [Expr.span_relocate, Expr.span_relocate, Span.map_through]
    exact ih.chain level tighter _
  · exact .pure _

/-- Moved tokens are read as the same operand, moved. -/
theorem unary_succ (ih : MovesAt φ fuel) :
    Moves φ (Expr.relocate (Span.map φ)) (Reader.unary (fuel + 1)) (Reader.unary (fuel + 1)) := by
  have operand (op : UnaryOp) : Moves φ (Expr.relocate (Span.map φ)) (do
      let sign ← Reader.skip
      let operand ← Reader.unary fuel
      return Expr.unary (sign.through operand.span) op operand) (do
      let sign ← Reader.skip
      let operand ← Reader.unary fuel
      return Expr.unary (sign.through operand.span) op operand) :=
    .bind .skip fun sign ↦ .bind ih.unary fun e ↦ .value (by
      rw [Expr.relocate, Expr.span_relocate, Span.map_through])
  rw [Reader.unary]
  refine .peek fun t ↦ ?_
  split
  · exact operand .not
  · exact operand .negate
  · split
    · exact .bind .skip fun sign ↦ .bind (.expectName _) fun name ↦ .pure _
    · exact .bind ih.primary fun callee ↦ ih.suffixes callee

/-- A moved expression gets the same suffixes, moved. -/
theorem suffixes_succ (ih : MovesAt φ fuel) (e : Expr) :
    Moves φ (Expr.relocate (Span.map φ)) (Reader.suffixes (fuel + 1) e)
      (Reader.suffixes (fuel + 1) (e.relocate (Span.map φ))) := by
  rw [Reader.suffixes, Reader.suffixes]
  refine .peek fun t ↦ ?_
  split
  · refine .bind .skip fun _ ↦ .bind (.unlessSees _ (ih.arguments 0)) fun args ↦ ?_
    refine .bind (.expect _) fun close ↦ ?_
    have hcall : (Expr.call (e.span.through close) e (args.getD [])).relocate (Span.map φ) =
        .call ((e.relocate (Span.map φ)).span.through (close.map φ)) (e.relocate (Span.map φ))
          ((args.map (List.map (Expr.relocate (Span.map φ)))).getD []) := by
      rw [Expr.relocate, Expr.relocateAll_eq, Expr.span_relocate, Span.map_through]
      cases args <;> rfl
    rw [← hcall]
    exact ih.suffixes _
  · refine .bind .skip fun _ ↦ .bind (.expectName _) fun name ↦ ?_
    rw [Expr.span_relocate, Name.span_relocate, Span.map_through]
    exact ih.suffixes (.property (e.span.through name.span) e name.text)
  · exact .pure _

/-- Moved tokens are read as the same arguments, moved. -/
theorem arguments_succ (ih : MovesAt φ fuel) (count : Nat) :
    Moves φ (List.map (Expr.relocate (Span.map φ))) (Reader.arguments (fuel + 1) count)
      (Reader.arguments (fuel + 1) count) := by
  rw [Reader.arguments]
  refine .bind ih.expression fun argument ↦ .noteIf ?_ (.bind (.accept _) fun more ↦ ?_)
  · rw [Expr.span_relocate]
    rfl
  · cases more with
    | true => exact .bind (ih.arguments _) fun others ↦ .pure (argument :: others)
    | false => exact .pure [argument]

/-- Moved tokens are read as the same primary expression, moved. -/
theorem primary_succ (ih : MovesAt φ fuel) :
    Moves φ (Expr.relocate (Span.map φ)) (Reader.primary (fuel + 1))
      (Reader.primary (fuel + 1)) := by
  rw [Reader.primary]
  refine .peek fun t ↦ ?_
  split
  · exact .bind .skip fun span ↦ .pure _
  split
  · refine .bind (.expectName _) fun name ↦ .peek fun t ↦ ?_
    split
    · exact .bind .skip fun sign ↦ .pure _
    · exact .pure _
  · exact .bind .skip fun span ↦ .pure _
  · exact .bind .skip fun word ↦ .bind (.expect _) fun _ ↦ .bind (.expectName _) fun name ↦
      .pure _
  · exact .bind .skip fun opening ↦ .bind ih.expression fun inner ↦
      .bind (.expect _) fun closing ↦ .pure _
  · exact .bind .skip fun word ↦ .bind (ih.function word.start _) fun function ↦ .pure _
  · exact .unexpected _

/-! Functions -/

/-- Moved tokens are read as the same function, which starts at the moved offset. -/
theorem function_succ (ih : MovesAt φ fuel) (start : Nat) (name : String) :
    Moves φ (FunDecl.relocate (Span.map φ)) (Reader.function (fuel + 1) start name)
      (Reader.function (fuel + 1) (φ start) name) := by
  rw [Reader.function, Reader.function]
  refine .bind (.expect _) fun _ ↦ .bind (.unlessSees _ (ih.parameters 0)) fun params ↦ ?_
  refine .bind (.expect _) fun _ ↦ .bind (.expect _) fun _ ↦ .bind ih.blockBody fun body ↦ ?_
  refine .bind (.spanFrom start) fun span ↦ .value ?_
  rw [FunDecl.relocate, Stmt.relocateAll_eq]
  cases params <;> rfl

/-- Moved tokens are read as the same parameters, moved. -/
theorem parameters_succ (ih : MovesAt φ fuel) (count : Nat) :
    Moves φ (List.map (Name.relocate (Span.map φ))) (Reader.parameters (fuel + 1) count)
      (Reader.parameters (fuel + 1) count) := by
  rw [Reader.parameters]
  refine .bind (.expectName _) fun param ↦ .noteIf rfl (.bind (.accept _) fun more ↦ ?_)
  cases more with
  | true => exact .bind (ih.parameters _) fun others ↦ .pure (param :: others)
  | false => exact .pure [param]

/-- Moved tokens are read as the same methods, moved. -/
theorem methods_succ (ih : MovesAt φ fuel) :
    Moves φ (List.map (FunDecl.relocate (Span.map φ))) (Reader.methods (fuel + 1))
      (Reader.methods (fuel + 1)) := by
  rw [Reader.methods]
  refine .sees fun closes ↦ .atEnd fun ends ↦ ?_
  split
  · exact .pure []
  · exact .bind (.expectName _) fun name ↦ .bind (ih.function name.span.start _) fun first ↦
      .bind ih.methods fun others ↦ .pure (first :: others)

/-! Statements -/

/-- Moved tokens are read as the same block, moved. -/
theorem blockBody_succ (ih : MovesAt φ fuel) :
    Moves φ (List.map (Stmt.relocate (Span.map φ))) (Reader.blockBody (fuel + 1))
      (Reader.blockBody (fuel + 1)) := by
  rw [Reader.blockBody]
  refine .sees fun closes ↦ .atEnd fun ends ↦ ?_
  split
  · exact .bind (.expect _) fun _ ↦ .pure []
  · refine .bind (.recovering ih.declaration) fun first ↦ .bind ih.blockBody fun others ↦ ?_
    refine .value ?_
    rw [List.map_append]
    cases first <;> rfl

/-- Moved tokens are read as the same declaration, moved. -/
theorem declaration_succ (ih : MovesAt φ fuel) :
    Moves φ (Stmt.relocate (Span.map φ)) (Reader.declaration (fuel + 1))
      (Reader.declaration (fuel + 1)) := by
  rw [Reader.declaration]
  refine .peek fun t ↦ ?_
  split
  · exact ih.classDecl
  · refine .peekSecond fun t ↦ ?_
    split
    · exact .bind .skip fun word ↦ .bind (.expectName _) fun name ↦
        .bind (ih.function word.start _) fun function ↦ .pure _
    · exact ih.statement
  · exact ih.varDecl
  · exact ih.statement

/-- The body of a class, and the class. -/
theorem classBody (ih : MovesAt φ fuel) (word : Span) (name : String) (parent : Option Name) :
    Moves φ (Stmt.relocate (Span.map φ)) (do
      let _ ← Reader.expect .leftBrace
      let methods ← Reader.methods fuel
      let closing ← Reader.expect .rightBrace
      return Stmt.classDecl (word.through closing) name parent methods) (do
      let _ ← Reader.expect .leftBrace
      let methods ← Reader.methods fuel
      let closing ← Reader.expect .rightBrace
      return Stmt.classDecl ((word.map φ).through closing) name
        (parent.map (Name.relocate (Span.map φ))) methods) := by
  refine .bind (.expect _) fun _ ↦ .bind ih.methods fun methods ↦ ?_
  refine .bind (.expect _) fun closing ↦ .value ?_
  rw [Stmt.relocate, FunDecl.relocateAll_eq, Span.map_through]

/-- Moved tokens are read as the same class, moved. -/
theorem classDecl_succ (ih : MovesAt φ fuel) :
    Moves φ (Stmt.relocate (Span.map φ)) (Reader.classDecl (fuel + 1))
      (Reader.classDecl (fuel + 1)) := by
  rw [Reader.classDecl]
  refine .bind .skip fun word ↦ .bind (.expectName _) fun name ↦ ?_
  refine .bind (.accept _) fun inherits ↦ ?_
  cases inherits with
  | true =>
    exact .bind (.some (.expectName _)) fun parent ↦ ih.classBody word name.text parent
  | false => exact ih.classBody word name.text none

/-- Moved tokens are read as the same variable, moved. -/
theorem varDecl_succ (ih : MovesAt φ fuel) :
    Moves φ (Stmt.relocate (Span.map φ)) (Reader.varDecl (fuel + 1))
      (Reader.varDecl (fuel + 1)) := by
  have closing (word : Span) (name : String) (value : Option Expr) :
      Moves φ (Stmt.relocate (Span.map φ)) (do
        let closing ← Reader.expect .semicolon
        return Stmt.varDecl (word.through closing) name value) (do
        let closing ← Reader.expect .semicolon
        return Stmt.varDecl ((word.map φ).through closing) name
          (value.map (Expr.relocate (Span.map φ)))) := by
    refine .bind (.expect _) fun closing ↦ .value ?_
    rw [Stmt.relocate, Expr.relocate?_eq, Span.map_through]
  rw [Reader.varDecl]
  refine .bind .skip fun word ↦ .bind (.expectName _) fun name ↦ ?_
  refine .bind (.accept _) fun hasValue ↦ ?_
  cases hasValue with
  | true => exact .bind (.some ih.expression) fun value ↦ closing word name.text value
  | false => exact closing word name.text none

theorem expressionStmt_succ (ih : MovesAt φ fuel) :
    Moves φ (Stmt.relocate (Span.map φ)) (Reader.expressionStmt (fuel + 1))
      (Reader.expressionStmt (fuel + 1)) := by
  rw [Reader.expressionStmt]
  refine .bind ih.expression fun e ↦ .bind (.expect _) fun closing ↦ .value ?_
  rw [Stmt.relocate, Expr.span_relocate, Span.map_through]

/-- Moved tokens are read as the same statement, moved. -/
theorem statement_succ (ih : MovesAt φ fuel) :
    Moves φ (Stmt.relocate (Span.map φ)) (Reader.statement (fuel + 1))
      (Reader.statement (fuel + 1)) := by
  rw [Reader.statement]
  refine .peek fun t ↦ ?_
  split
  · exact ih.forLoop
  · -- `if`
    refine .bind .skip fun word ↦ .bind (.expect _) fun _ ↦ .bind ih.expression fun condition ↦ ?_
    refine .bind (.expect _) fun _ ↦ .bind ih.statement fun yes ↦ .bind (.accept _) fun hasElse ↦ ?_
    cases hasElse with
    | true =>
      refine .bind (.some ih.statement) fun no ↦ .value ?_
      rw [Stmt.relocate, Stmt.relocate?_eq]
      cases no <;> simp [Span.map_through]
    | false =>
      refine .value (a := Stmt.conditional (word.through yes.span) condition yes none) ?_
      rw [Stmt.relocate, Stmt.relocate?_eq, ← Span.map_through,
        ← Stmt.span_relocate (Span.map φ) yes]
      rfl
  · -- a block
    refine .bind .skip fun opening ↦ .bind ih.blockBody fun body ↦ ?_
    refine .bind (.spanFrom _) fun span ↦ .value ?_
    rw [Stmt.relocate, Stmt.relocateAll_eq]
  · -- `print`
    refine .bind .skip fun word ↦ .bind ih.expression fun e ↦ .bind (.expect _) fun closing ↦ ?_
    exact .pure (Stmt.print (word.through closing) e)
  · -- `return`
    refine .bind .skip fun word ↦ .bind (.unlessSees _ ih.expression) fun value ↦ ?_
    refine .bind (.expect _) fun closing ↦ .value ?_
    rw [Stmt.relocate, Expr.relocate?_eq, Span.map_through]
  · -- `while`
    refine .bind .skip fun word ↦ .bind (.expect _) fun _ ↦ .bind ih.expression fun condition ↦ ?_
    refine .bind (.expect _) fun _ ↦ .bind ih.statement fun body ↦ .value ?_
    rw [Stmt.relocate, Stmt.span_relocate, Span.map_through]
  · exact ih.expressionStmt

/-- The clauses of a `for` after the first, and the body. -/
theorem clauses (ih : MovesAt φ fuel) (word : Span) (init : Option Stmt) :
    Moves φ (Stmt.relocate (Span.map φ)) (do
      let condition ← Reader.unlessSees .semicolon (Reader.expression fuel)
      let _ ← Reader.expect .semicolon
      let step ← Reader.unlessSees .rightParen (Reader.expression fuel)
      let _ ← Reader.expect .rightParen
      let body ← Reader.statement fuel
      return Stmt.forLoop (word.through body.span) init condition step body) (do
      let condition ← Reader.unlessSees .semicolon (Reader.expression fuel)
      let _ ← Reader.expect .semicolon
      let step ← Reader.unlessSees .rightParen (Reader.expression fuel)
      let _ ← Reader.expect .rightParen
      let body ← Reader.statement fuel
      return Stmt.forLoop ((word.map φ).through body.span)
        (init.map (Stmt.relocate (Span.map φ))) condition step body) := by
  refine .bind (.unlessSees _ ih.expression) fun condition ↦ .bind (.expect _) fun _ ↦ ?_
  refine .bind (.unlessSees _ ih.expression) fun step ↦ .bind (.expect _) fun _ ↦ ?_
  refine .bind ih.statement fun body ↦ .value ?_
  simp only [Stmt.relocate, Stmt.relocate?_eq, Expr.relocate?_eq, Stmt.span_relocate,
    Span.map_through]

/-- Moved tokens are read as the same loop, moved. -/
theorem forLoop_succ (ih : MovesAt φ fuel) :
    Moves φ (Stmt.relocate (Span.map φ)) (Reader.forLoop (fuel + 1))
      (Reader.forLoop (fuel + 1)) := by
  rw [Reader.forLoop]
  refine .bind .skip fun word ↦ .bind (.expect _) fun _ ↦ .peek fun t ↦ ?_
  split
  · exact .bind .skip fun _ ↦ ih.clauses word none
  · exact .bind (.some ih.varDecl) fun init ↦ ih.clauses word init
  · exact .bind (.some ih.expressionStmt) fun init ↦ ih.clauses word init

end MovesAt

/-- Every reader reads the same where the offsets are replaced. -/
theorem movesAt (φ : Nat → Nat) (fuel : Nat) : MovesAt φ fuel := by
  induction fuel with
  | zero => constructor <;> intros <;> exact .exhausted
  | succ fuel ih =>
    exact {
      expression := ih.expression_succ
      binary := ih.binary_succ
      chain := ih.chain_succ
      unary := ih.unary_succ
      suffixes := ih.suffixes_succ
      arguments := ih.arguments_succ
      primary := ih.primary_succ
      function := ih.function_succ
      parameters := ih.parameters_succ
      blockBody := ih.blockBody_succ
      declaration := ih.declaration_succ
      classDecl := ih.classDecl_succ
      methods := ih.methods_succ
      varDecl := ih.varDecl_succ
      expressionStmt := ih.expressionStmt_succ
      statement := ih.statement_succ
      forLoop := ih.forLoop_succ }

/-- Moved tokens are read as the same program, moved, with any fuel. -/
theorem Reader.moves_program (φ : Nat → Nat) (depth fuel : Nat) :
    Moves φ (Program.relocate (Span.map φ)) (program depth fuel) (program depth fuel) := by
  induction fuel with
  | zero => exact .exhausted
  | succ fuel ih =>
    rw [program]
    refine .atEnd fun ends ↦ ?_
    split
    · exact .pure []
    · refine .bind (.recovering (movesAt φ depth).declaration) fun first ↦ ?_
      refine .bind ih fun others ↦ .value ?_
      rw [Program.relocate, List.map_append]
      cases first <;> rfl

/-- A list of tokens whose offsets are replaced is read as the same program with its offsets
replaced, or has the same faults at the other offsets. -/
theorem Program.ofLexemes_relocate (φ : Nat → Nat) (tokens : List Lexeme) (stop : Nat) :
    ofLexemes (tokens.map (Lexeme.relocate (Span.map φ))) (φ stop) =
      relocateResult (Span.map φ) (ofLexemes tokens stop) := by
  have h := Reader.moves_program φ (fuelFor tokens.length) (fuelFor tokens.length)
    { rest := tokens, last := none, stop, faults := [] }
  unfold ofLexemes
  rw [List.length_map]
  simp only [Cursor.relocate, Option.map_none, List.map_nil] at h
  simp only [h]
  cases Reader.program (fuelFor tokens.length) (fuelFor tokens.length)
      { rest := tokens, last := none, stop, faults := [] } with
  | ok p c =>
    cases hfaults : c.faults <;>
      simp [Outcome.relocate, Cursor.relocate, relocateResult, hfaults]
  | fault e c => simp [Outcome.relocate, Cursor.relocate, relocateResult]
  | exhausted => rfl
  | astray m => rfl

end LoxLang
