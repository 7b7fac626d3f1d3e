import LoxLang.Proofs.Grammar.Soundness

/-!
# What is derived is read

A derivation in which every `else` belongs to the nearest `if` is found by the readers, provided
that what follows the derived tokens cannot continue them. A reader decides by the next token, or by
the next two, so the proof first settles with which tokens each symbol begins (`Derives.begins`) and
which tokens continue an operand (`Continues`).

The operators of one level and the suffixes of an operand are read in a loop, but derived by left
recursion. For them the statement is that whatever the loop makes of what follows the derived tokens
is what the reader makes of the whole.

The fuel that a reader needs depends on the number of tokens ahead: `32` for each, and a rank that
orders the readers which call one another before a token is passed.
-/

namespace LoxLang

namespace Grammar

open Cursor Reader Grammar.Symbol

variable {rule : ElseRule}

/-! ### The tokens of a symbol -/

/-- Whether the symbol derives nothing at all, too. -/
def Symbol.nullable : Symbol → Bool
  | decls | methods | optExpr => true
  | _ => false

/-- A derivation takes a token at least, unless the symbol may derive nothing. -/
theorem Derives.length {s : Symbol} {ts us : List Lexeme} {t : s.Tree}
    (h : Derives rule s ts t us) :
    us.length + (if s.nullable then 0 else 1) ≤ ts.length := by
  induction h <;>
    simp only [Symbol.nullable, List.length_cons, if_true, if_false, Bool.false_eq_true] at * <;>
    omega

theorem Derives.length_le {s : Symbol} {ts us : List Lexeme} {t : s.Tree}
    (h : Derives rule s ts t us) : us.length ≤ ts.length :=
  Nat.le_trans (Nat.le_add_right ..) h.length

/-- What a symbol derives that is not empty leaves fewer tokens. -/
theorem Derives.length_lt {s : Symbol} {ts us : List Lexeme} {t : s.Tree}
    (h : Derives rule s ts t us) (hs : s.nullable = false) : us.length < ts.length := by
  have hlength := h.length
  rw [hs] at hlength
  exact hlength

/-- The tokens that a derivation leaves stand at the end of the list. -/
theorem Derives.suffix {s : Symbol} {ts us : List Lexeme} {t : s.Tree}
    (h : Derives rule s ts t us) : us <:+ ts := by
  induction h <;> grind [List.IsSuffix.trans, List.suffix_cons, List.suffix_refl]

/-- Whether an operand without operators begins with this token. -/
def beginsPrimary : Token → Bool
  | .mark .falseWord | .mark .trueWord | .mark .nilWord | .mark .thisWord | .mark .superWord
  | .mark .leftParen | .mark .funWord | .identifier _ | .number _ | .string _ => true
  | _ => false

/-- Whether an expression begins with this token. -/
def beginsExpr : Token → Bool
  | .mark .bang | .mark .minus | .mark .plusPlus | .mark .minusMinus => true
  | t => beginsPrimary t

/-- Whether a statement that declares nothing begins with this token. -/
def beginsStmt : Token → Bool
  | .mark .forWord | .mark .ifWord | .mark .leftBrace | .mark .printWord | .mark .returnWord
  | .mark .whileWord => true
  | t => beginsExpr t

/-- Whether what the symbol derives begins with this token, if it is not empty. -/
def Symbol.begins : Symbol → Token → Bool
  | primary | call => beginsPrimary
  | unary | binary _ | expr | args | optExpr => beginsExpr
  | function .. => (·.isMark .leftParen)
  | params | methods => (·.isIdentifier)
  | varDecl => (·.isMark .varWord)
  | stmt => beginsStmt
  | init => fun t ↦ t.isMark .semicolon || t.isMark .varWord || beginsExpr t
  | decl | decls => fun t ↦
    t.isMark .classWord || t.isMark .funWord || t.isMark .varWord || beginsStmt t

/-- What begins an operand without operators begins an expression. -/
theorem beginsExpr_of_beginsPrimary {t : Token} (h : beginsPrimary t = true) :
    beginsExpr t = true := by
  unfold beginsExpr
  split <;> first | rfl | exact h

/-- What begins an expression begins a statement. -/
theorem beginsStmt_of_beginsExpr {t : Token} (h : beginsExpr t = true) : beginsStmt t = true := by
  unfold beginsStmt
  split <;> first | rfl | exact h

/-- Where an expression may be missing, it is not what follows that begins one. -/
theorem not_isMark_of_beginsExpr {t : Token} {m : Mark} (h : beginsExpr t = true)
    (hm : m = .rightParen ∨ m = .semicolon) : t.isMark m = false := by
  cases t with
  | mark n =>
    rcases hm with rfl | rfl <;> cases n <;> first | rfl | cases h
  | _ => rfl

/-- Where no declaration follows, what follows begins none. -/
theorem not_isMark_of_beginsDecl {t : Token} {m : Mark} (h : decl.begins t = true)
    (hm : m = .elseWord ∨ m = .rightBrace) : t.isMark m = false := by
  cases t with
  | mark n =>
    rcases hm with rfl | rfl <;> cases n <;> first | rfl | cases h
  | _ => rfl

/-- A literal is an operand. -/
theorem beginsPrimary_of_denotes {t : Token} {v : Literal} (h : Denotes t v) :
    beginsPrimary t = true := by
  cases h <;> rfl

/-- The list is not empty and begins with such a token. -/
def Starts (b : Token → Bool) (ts : List Lexeme) : Prop :=
  ∃ x vs, ts = x :: vs ∧ b x.token = true

theorem Starts.mono {b b' : Token → Bool} {ts : List Lexeme} (h : Starts b ts)
    (hb : ∀ t, b t = true → b' t = true) : Starts b' ts := by
  obtain ⟨x, vs, hts, hx⟩ := h
  exact ⟨x, vs, hts, hb _ hx⟩

/-- The first token of what is derived from a symbol that is not empty. -/
theorem Derives.begins {s : Symbol} {ts us : List Lexeme} {t : s.Tree}
    (h : Derives rule s ts t us) : s.nullable = false → Starts s.begins ts := by
  induction h with
  | declsNil | methodsNil | optNone => exact nofun
  | declsCons | methodsCons | optSome => exact nofun
  | operators _ ih | tighter _ ih | operand _ ih | arg _ ih | argThen _ _ _ ih | join _ _ _ _ ih
  | callNone _ _ _ ih | callSome _ _ _ _ _ ih | property _ _ _ ih | atom _ ih =>
    exact fun _ ↦ ih rfl
  | setProperty _ _ _ _ _ ih | suffixed _ ih =>
    exact fun _ ↦ (ih rfl).mono fun _ ↦ beginsExpr_of_beginsPrimary
  | exprStmt _ _ ih => exact fun _ ↦ (ih rfl).mono fun _ ↦ beginsStmt_of_beginsExpr
  | literal hx => exact fun _ ↦ ⟨_, _, rfl, beginsPrimary_of_denotes hx⟩
  | @stepBefore _ _ op _ _ ho =>
    refine fun _ ↦ ⟨_, _, rfl, ?_⟩
    rw [ho]
    cases op <;> rfl
  | declVar _ ih | declStmt _ ih | initVar _ ih | initExpr _ _ ih =>
    refine fun _ ↦ (ih rfl).mono fun t ht ↦ ?_
    simp_all [Symbol.begins]
  | assign h | not h | negate h | name h | stepAfter h | this h | super h | group h | lambda h
  | functionNone h | functionSome h | param h | paramThen h | classPlain h | classInheriting h
  | funDecl h | varNone h | varSome h | print h | returns h | block h | ifOnly h | ifElse h
  | whileLoop h | forLoop h | initNone h =>
    refine fun _ ↦ ⟨_, _, rfl, ?_⟩
    rw [h]
    rfl

/-- Whether what the symbol derives may begin with an expression. -/
def Symbol.isOpen : Symbol → Bool
  | expr | .binary _ | unary | call | primary | stmt => true
  | _ => false

/-- A keyword of functions that begins an expression is followed by the parameters. -/
theorem Derives.leftParen_of_funWord {s : Symbol} {ts us : List Lexeme} {t : s.Tree}
    (h : Derives rule s ts t us) : s.isOpen = true →
      ∀ w vs, ts = w :: vs → w.token = .mark .funWord → Starts (·.isMark .leftParen) vs := by
  induction h with
  | operators _ ih | tighter _ ih | operand _ ih | join _ _ _ _ ih | callNone _ _ _ ih
  | callSome _ _ _ _ _ ih | property _ _ _ ih | atom _ ih | setProperty _ _ _ _ _ ih
  | suffixed _ ih | exprStmt _ _ ih =>
    exact fun _ ↦ ih rfl
  | lambda hw hf =>
    rintro - w vs ⟨⟩ -
    exact hf.begins rfl
  | literal hx =>
    rintro - w vs ⟨⟩ hw
    rw [hw] at hx
    cases hx
  | @stepBefore _ _ op _ _ ho =>
    rintro - w vs ⟨⟩ hw
    rw [ho] at hw
    cases op <;> cases hw
  | assign h | not h | negate h | name h | stepAfter h | this h | super h | group h
  | print h | returns h | block h | ifOnly h | ifElse h | whileLoop h | forLoop h =>
    rintro - w vs ⟨⟩ hw
    rw [h] at hw
    cases hw
  | _ => exact nofun

/-- What follows a declaration among declarations is no `else`, if none follows them all. -/
theorem Derives.head_decls {ts us : List Lexeme} {t : List Stmt} (h : Derives rule decls ts t us) :
    ts = us ∨ Starts decl.begins ts := by
  cases h with
  | declsNil => exact .inl rfl
  | declsCons hd => exact .inr (hd.begins rfl)

/-! ### The tokens after a symbol -/

/-- The next token, if there is one, is no such token. -/
def Lacks (b : Token → Bool) (ts : List Lexeme) : Prop := ts.head?.any (b ·.token) = false

theorem lacks_cons {b : Token → Bool} {x : Lexeme} {t : Token} {ts : List Lexeme}
    (hx : x.token = t) (hb : b t = false) : Lacks b (x :: ts) := by
  rw [Lacks, List.head?_cons, Option.any_some, hx, hb]

theorem Lacks.mono {b b' : Token → Bool} {ts : List Lexeme} (h : Lacks b ts)
    (hb : ∀ t, b' t = true → b t = true) : Lacks b' ts := by
  unfold Lacks at *
  cases ts with
  | nil => rfl
  | cons x ts =>
    rw [List.head?_cons, Option.any_some] at *
    exact Bool.eq_false_iff.2 fun hx ↦ Bool.eq_false_iff.1 h (hb _ hx)

/-- A list does not begin with a token of one kind if it begins with one of another. -/
theorem Starts.lacks {b b' : Token → Bool} {ts : List Lexeme} (h : Starts b ts)
    (hb : ∀ t, b t = true → b' t = false) : Lacks b' ts := by
  obtain ⟨x, vs, rfl, hx⟩ := h
  exact lacks_cons rfl (hb _ hx)

/-- Whether a token is an operator that steps a variable. -/
def isStep (t : Token) : Bool := t.isMark .plusPlus || t.isMark .minusMinus

/-- The mark of an operator that steps variables is found to be this operator. -/
theorem stepOp?_mark (op : StepOp) : stepOp? (some (.mark op.mark)) = some op := by
  cases op <;> rfl

theorem stepOp?_eq_none {t : Token} (h : isStep t = false) : stepOp? (some t) = none := by
  cases t with
  | mark m => cases m <;> first | rfl | cases h
  | _ => rfl

/-- Whether a token after an operand begins a suffix, is an operator of one of these levels, or
would be read as an operator that steps the variable before it. -/
def continues (levels : List (List (Mark × BinaryOp))) (t : Token) : Bool :=
  isStep t || t.isMark .leftParen || t.isMark .dot ||
    levels.any fun level ↦ (BinaryOp.ofToken? level (some t)).isSome

/-- Whether a token after an expression is read with it. -/
def continuesExpr (t : Token) : Bool := t.isMark .equal || continues BinaryOp.levels t

/-- The marks of a level stand for its operators, and none of them continues an operand of the
level. The levels are few enough to be passed with the fuel for one token. -/
def Separated : List (List (Mark × BinaryOp)) → Prop
  | [] => True
  | level :: tighter =>
    tighter.length < 6 ∧ (∀ o ∈ level, BinaryOp.ofToken? level (some (.mark o.1)) = some o.2 ∧
      continues tighter (.mark o.1) = false) ∧ Separated tighter

/-- The levels of the operators are apart. -/
theorem separated_levels : Separated BinaryOp.levels := by
  simp only [BinaryOp.levels, Separated, List.forall_mem_cons, and_true]
  decide

/-! ### Readers of derivations -/

/-- The reader passes the tokens up to `z`, and stops just behind it. -/
def Closes {α : Type} (p : Reader α) (ts : List Lexeme) (a : α) (z : Lexeme) (us : List Lexeme) :
    Prop :=
  ∀ last stop faults, p ⟨ts, last, stop, faults⟩ = .ok a ⟨us, some z, stop, faults⟩

section Closes
variable {α β γ : Type} {p : Reader α} {f : α → Reader β} {a : α} {b : β} {z : Lexeme}
  {ts us vs : List Lexeme}

protected theorem Closes.pure (h : Closes p ts a z us) (g : α → β) :
    Closes (p >>= fun a ↦ pure (g a)) ts (g a) z us :=
  fun last stop faults ↦ bind_eq_ok.2 ⟨a, _, h last stop faults, rfl⟩

/-- What is read first leaves the tokens up to the same last one. -/
protected theorem Closes.bind (h : Reads p ts a us) (hf : Closes (f a) us b z vs) :
    Closes (p >>= f) ts b z vs := by
  intro last stop faults
  obtain ⟨last', h⟩ := h last stop faults
  exact bind_eq_ok.2 ⟨a, _, h, hf last' stop faults⟩

/-- An expected mark is itself the last token. -/
protected theorem Closes.expect {m : Mark} (hz : z.token = .mark m) (us : List Lexeme) :
    Closes (expect m) (z :: us) z.span z us :=
  fun _ _ _ ↦ expect_eq_ok.2 ⟨z, us, rfl, hz, rfl, rfl⟩

/-- Behind the last token of a text, the span of the text is known. -/
theorem Closes.spanFrom {k : α → Span → Reader β} (h : Closes p ts a z us) (start : Nat)
    (hk : Reads (k a ⟨start, z.span.stop⟩) us b vs) :
    Reads (p >>= fun a ↦ spanFrom start >>= k a) ts b vs := by
  intro last stop faults
  obtain ⟨last', hk⟩ := hk (some z) stop faults
  exact ⟨last', bind_eq_ok.2 ⟨a, _, h last stop faults, hk⟩⟩

end Closes

/-- What the readers make of the tokens that are derived from a symbol, given what follows them. -/
def Complete : (s : Symbol) → List Lexeme → s.Tree → List Lexeme → Prop
  | expr, ts, t, us => Lacks continuesExpr us →
    ∀ fuel, 32 * ts.length + 10 ≤ fuel → Reads (expression fuel) ts t us
  | .binary [], ts, t, us => Lacks (continues []) us →
    ∀ fuel, 32 * ts.length + 3 ≤ fuel → Reads (Reader.binary fuel []) ts t us
  | .binary (level :: tighter), ts, t, us => Separated (level :: tighter) →
    Lacks (continues tighter) us → ∀ fuel, 32 * ts.length + 4 + tighter.length ≤ fuel →
      ∃ fuel', 32 * us.length + 1 ≤ fuel' ∧ ∀ b vs, Reads (chain fuel' level tighter t) us b vs →
        Reads (Reader.binary fuel (level :: tighter)) ts b vs
  | .unary, ts, t, us => Lacks (continues []) us →
    ∀ fuel, 32 * ts.length + 2 ≤ fuel → Reads (Reader.unary fuel) ts t us
  | call, ts, t, us => Lacks isStep us → ∀ fuel, 32 * ts.length + 1 ≤ fuel →
    ∃ fuel', 32 * us.length + 1 ≤ fuel' ∧ ∀ b vs, Reads (suffixes fuel' t) us b vs →
      Reads (Reader.primary fuel >>= suffixes fuel) ts b vs
  | .primary, ts, t, us => Lacks isStep us →
    ∀ fuel, 32 * ts.length + 1 ≤ fuel → Reads (Reader.primary fuel) ts t us
  | args, ts, t, us => Starts (·.isMark .rightParen) us →
    ∀ fuel count, 32 * ts.length + 11 ≤ fuel → count + t.length ≤ 255 →
      Reads (arguments fuel count) ts t us
  | .function start n, ts, t, us =>
    ∀ fuel, 32 * ts.length + 1 ≤ fuel → Reads (Reader.function fuel start n) ts t us
  | params, ts, t, us => Starts (·.isMark .rightParen) us →
    ∀ fuel count, 32 * ts.length + 1 ≤ fuel → count + t.length ≤ 255 →
      Reads (parameters fuel count) ts t us
  | decls, ts, t, us =>
    (∀ z vs, us = z :: vs → z.token = .mark .rightBrace →
      ∀ fuel, 32 * ts.length + 14 ≤ fuel → Closes (blockBody fuel) ts t z vs) ∧
    (us = [] → ∀ depth fuel, 32 * ts.length + 13 ≤ depth → ts.length + 1 ≤ fuel →
      Reads (program depth fuel) ts t [])
  | decl, ts, t, us => Lacks (·.isMark .elseWord) us →
    ∀ fuel, 32 * ts.length + 13 ≤ fuel → Reads (declaration fuel) ts t us
  | .varDecl, ts, t, us =>
    ∀ fuel, 32 * ts.length + 1 ≤ fuel → Reads (Reader.varDecl fuel) ts t us
  | .methods, ts, t, us => Starts (·.isMark .rightBrace) us →
    ∀ fuel, 32 * ts.length + 1 ≤ fuel → Reads (Reader.methods fuel) ts t us
  | stmt, ts, t, us => (t.leavesIfOpen = true → Lacks (·.isMark .elseWord) us) →
    ∀ fuel, 32 * ts.length + 12 ≤ fuel → Reads (statement fuel) ts t us
  | init, ts, t, us =>
    (∃ s, ts = s :: us ∧ s.token = .mark .semicolon ∧ t = none) ∨
    (∃ d, t = some d ∧ Starts (·.isMark .varWord) ts ∧
      ∀ fuel, 32 * ts.length + 1 ≤ fuel → Reads (Reader.varDecl fuel) ts d us) ∨
    (∃ d, t = some d ∧ Starts beginsExpr ts ∧
      ∀ fuel, 32 * ts.length + 11 ≤ fuel → Reads (expressionStmt fuel) ts d us)
  | optExpr, ts, t, us => ∀ m, m = .semicolon ∨ m = .rightParen → Starts (·.isMark m) us →
    ∀ fuel, 32 * ts.length + 10 ≤ fuel → Reads (unlessSees m (expression fuel)) ts t us

namespace Complete

variable {ts us vs : List Lexeme}

/-! ### Operands -/

/-- A literal is read. -/
theorem literal {x : Lexeme} {v : Literal} (hx : Denotes x.token v) :
    Complete .primary (x :: ts) (Expr.literal x.span v) ts := by
  rintro - (- | fuel) hfuel
  · omega
  rw [Reader.primary]
  refine .peeking rfl ?_
  rw [literal?_eq_some_iff.2 hx]
  exact .bind (.skip x ts) (.pure _ _)

/-- What a name begins, if it is an operand, is settled by the token after it. -/
theorem reads_name {x : Lexeme} {n : String} {e : Expr} {fuel : Nat}
    (hx : x.token = .identifier n)
    (h : Reads (match stepOp? (ts.head?.map (·.token)) with
      | some op => do
        let sign ← skip
        return .step (x.span.through sign) .after op n
      | none => return .var x.span n) ts e us) :
    Reads (Reader.primary (fuel + 1)) (x :: ts) e us := by
  rw [Reader.primary]
  refine .peeking hx ?_
  exact .bind (.expectName _ hx ts) (.bind (.peek ts) h)

/-- A name is read as a variable. -/
theorem name {x : Lexeme} {n : String} (hx : x.token = .identifier n) :
    Complete .primary (x :: ts) (Expr.var x.span n) ts := by
  rintro hts (- | fuel) hfuel
  · omega
  have hstep : stepOp? (ts.head?.map (·.token)) = none := by
    cases ts with
    | nil => rfl
    | cons y ts => exact stepOp?_eq_none hts
  refine reads_name hx ?_
  rw [hstep]
  exact .pure _ _

/-- A name with a step operator behind it is read. -/
theorem stepAfter {x o : Lexeme} {op : StepOp} {n : String} (hx : x.token = .identifier n)
    (ho : o.token = .mark op.mark) :
    Complete .primary (x :: o :: ts) (Expr.step (x.span.through o.span) .after op n) ts := by
  rintro - (- | fuel) hfuel
  · omega
  refine reads_name hx ?_
  rw [List.head?_cons, Option.map_some, ho, stepOp?_mark]
  exact .bind (.skip o ts) (.pure _ _)

theorem this {w : Lexeme} (hw : w.token = .mark .thisWord) :
    Complete .primary (w :: ts) (Expr.this w.span) ts := by
  rintro - (- | fuel) hfuel
  · omega
  rw [Reader.primary]
  refine .peeking hw ?_
  exact .bind (.skip w ts) (.pure _ _)

/-- A method of the superclass is read. -/
theorem super {w dot x : Lexeme} {n : String} (hw : w.token = .mark .superWord)
    (hdot : dot.token = .mark .dot) (hx : x.token = .identifier n) :
    Complete .primary (w :: dot :: x :: ts) (Expr.super (w.span.through x.span) n) ts := by
  rintro - (- | fuel) hfuel
  · omega
  rw [Reader.primary]
  refine .peeking hw ?_
  exact .bind (.skip w _) (.bind (.expect hdot _) (.bind (.expectName _ hx ts) (.pure _ _)))

/-- An expression in parentheses is read. -/
theorem group {l r : Lexeme} {e : Expr} (hl : l.token = .mark .leftParen)
    (he : Complete expr ts e (r :: us)) (hr : r.token = .mark .rightParen) :
    Complete .primary (l :: ts) (Expr.group (l.span.through r.span) e) us := by
  rintro - (- | fuel) hfuel
  · omega
  rw [List.length_cons] at hfuel
  rw [Reader.primary]
  refine .peeking hl ?_
  exact .bind (.skip l ts) (.bind (he (lacks_cons hr (by decide)) fuel (by omega))
    (.bind (.expect hr us) (.pure _ _)))

/-- A function without a name is read. -/
theorem lambda {w : Lexeme} {f : FunDecl} (hw : w.token = .mark .funWord)
    (hf : Complete (.function w.span.start FunDecl.anonymous) ts f us) :
    Complete .primary (w :: ts) (Expr.lambda f) us := by
  rintro - (- | fuel) hfuel
  · omega
  rw [List.length_cons] at hfuel
  rw [Reader.primary]
  refine .peeking hw ?_
  exact .bind (.skip w ts) (.bind (hf fuel (by omega)) (.pure _ _))

/-! ### Suffixes -/

/-- An operand without suffixes is read. -/
theorem atom {e : Expr} (he : Complete .primary ts e us) (hlength : us.length ≤ ts.length) :
    Complete call ts e us :=
  fun hus fuel hfuel ↦ ⟨fuel, by omega, fun _ _ h ↦ .bind (he hus fuel hfuel) h⟩

/-- A property is read behind its object. -/
theorem property {dot x : Lexeme} {n : String} {e : Expr}
    (he : Complete call ts e (dot :: x :: us)) (hdot : dot.token = .mark .dot)
    (hx : x.token = .identifier n) :
    Complete call ts (Expr.property (e.span.through x.span) e n) us := by
  intro _ fuel hfuel
  obtain ⟨fuel', hfuel', hread⟩ := he (lacks_cons hdot (by decide)) fuel hfuel
  obtain - | fuel' := fuel'
  · omega
  rw [List.length_cons, List.length_cons] at hfuel'
  refine ⟨fuel', by omega, fun b vs h ↦ hread b vs ?_⟩
  rw [suffixes]
  refine .peeking hdot ?_
  exact .bind (.skip dot _) (.bind (.expectName _ hx us) h)

/-- A call is read if its arguments, with or without any, are read up to the closing bracket. -/
theorem callWith {l r : Lexeme} {e : Expr} {as : Option (List Expr)}
    (he : Complete call ts e (l :: us)) (hl : l.token = .mark .leftParen)
    (has : ∀ fuel, 32 * us.length + 12 ≤ fuel →
      Reads (unlessSees .rightParen (arguments fuel 0)) us as (r :: vs))
    (hr : r.token = .mark .rightParen) (hlength : vs.length < us.length) :
    Complete call ts (Expr.call (e.span.through r.span) e (as.getD [])) vs := by
  intro _ fuel hfuel
  obtain ⟨fuel', hfuel', hread⟩ := he (lacks_cons hl (by decide)) fuel hfuel
  obtain - | fuel' := fuel'
  · omega
  rw [List.length_cons] at hfuel'
  refine ⟨fuel', by omega, fun b ws h ↦ hread b ws ?_⟩
  rw [suffixes]
  refine .peeking hl ?_
  exact .bind (.skip l us) (.bind (has fuel' (by omega)) (.bind (.expect hr vs) h))

/-- A call without arguments is read behind its callee. -/
theorem callNone {l r : Lexeme} {e : Expr} (he : Complete call ts e (l :: r :: us))
    (hl : l.token = .mark .leftParen) (hr : r.token = .mark .rightParen) :
    Complete call ts (Expr.call (e.span.through r.span) e []) us := by
  have has (fuel : Nat) :
      Reads (unlessSees .rightParen (arguments fuel 0)) (r :: us) none (r :: us) :=
    .unlessSees_none (by simp [hr]) _
  exact he.callWith hl (fun fuel _ ↦ has fuel) hr (Nat.lt_succ_self _)

/-- A call with arguments, at most 255 of them, is read behind its callee. -/
theorem callSome {l r : Lexeme} {e : Expr} {as : List Expr} (he : Complete call ts e (l :: us))
    (hl : l.token = .mark .leftParen) (has : Complete args us as (r :: vs))
    (hstart : Starts beginsExpr us) (hlength : vs.length < us.length)
    (hlimit : as.length ≤ 255) (hr : r.token = .mark .rightParen) :
    Complete call ts (Expr.call (e.span.through r.span) e as) vs := by
  have hopen : Lacks (·.isMark .rightParen) us := hstart.lacks fun t ht ↦
    not_isMark_of_beginsExpr ht (.inl rfl)
  have hread (fuel : Nat) (hfuel : 32 * us.length + 12 ≤ fuel) :
      Reads (unlessSees .rightParen (arguments fuel 0)) us (some as) (r :: vs) :=
    .unlessSees_some hopen (has ⟨r, vs, rfl, by simp [hr]⟩ fuel 0 (by omega) (by omega))
  exact he.callWith hl hread hr hlength

/-! ### Operators -/

/-- Operands joined by operators of these levels are read if none of them follows. -/
theorem plain {levels : List (List (Mark × BinaryOp))} {t : Expr}
    (h : Complete (.binary levels) ts t us) (hlevels : Separated levels)
    (hus : Lacks (continues levels) us) (fuel : Nat)
    (hfuel : 32 * ts.length + 3 + levels.length ≤ fuel) :
    Reads (Reader.binary fuel levels) ts t us := by
  cases levels with
  | nil => exact h hus fuel hfuel
  | cons level tighter =>
    rw [List.length_cons] at hfuel
    have htighter : Lacks (continues tighter) us := hus.mono fun t ht ↦ by
      simp only [continues, List.any_cons, Bool.or_eq_true] at ht ⊢
      rcases ht with ht | ht
      · exact .inl ht
      · exact .inr (.inr ht)
    obtain ⟨fuel', hfuel', hread⟩ := h hlevels htighter fuel (by omega)
    refine hread _ _ ?_
    obtain - | fuel' := fuel'
    · omega
    -- what follows is no operator of this level, so the loop ends at once
    have hnone : BinaryOp.ofToken? level (us.head?.map (·.token)) = none := by
      cases us with
      | nil => simp [BinaryOp.ofToken?]
      | cons x us =>
        have hx : continues (level :: tighter) x.token = false := hus
        simp only [continues, List.any_cons, Bool.or_eq_false_iff, Option.isSome_eq_false_iff,
          Option.isNone_iff_eq_none] at hx
        exact hx.2.1
    rw [Reader.chain]
    refine .bind (.peek us) ?_
    rw [hnone]
    exact .pure _ _

/-- An expression that is no assignment is read. -/
theorem operators {t : Expr} (h : Complete (.binary BinaryOp.levels) ts t us) :
    Complete expr ts t us := by
  intro hus fuel hfuel
  obtain - | fuel := fuel
  · omega
  have hread := h.plain separated_levels
    (hus.mono fun t ht ↦ by simp [continuesExpr, ht]) fuel (by simp [BinaryOp.levels]; omega)
  have heq : Lacks (·.isMark .equal) us := hus.mono fun t ht ↦ by simp [continuesExpr, ht]
  rw [Reader.expression]
  refine .bind hread (.bind (.sees _ _) ?_)
  rw [show us.head?.any (·.token.isMark .equal) = false from heq]
  exact .pure _ _

/-- An operand of a level is read where nothing continues it. -/
theorem tighter {level : List (Mark × BinaryOp)} {tighter : List (List (Mark × BinaryOp))}
    {e : Expr} (he : Complete (.binary tighter) ts e us) (hlength : us.length < ts.length) :
    Complete (.binary (level :: tighter)) ts e us := by
  rintro ⟨-, -, htighter⟩ hus (- | fuel) hfuel
  · omega
  refine ⟨fuel, by omega, fun b vs h ↦ ?_⟩
  rw [Reader.binary]
  exact .bind (he.plain htighter hus fuel (by omega)) h

/-- An operation is read with the operations of its level to the left of it. -/
theorem join {o : Lexeme} {m : Mark} {op : BinaryOp} {level : List (Mark × BinaryOp)}
    {tighter : List (List (Mark × BinaryOp))} {l r : Expr}
    (hl : Complete (.binary (level :: tighter)) ts l (o :: us)) (hop : (m, op) ∈ level)
    (ho : o.token = .mark m) (hr : Complete (.binary tighter) us r vs)
    (hlength : vs.length ≤ us.length) :
    Complete (.binary (level :: tighter)) ts (Expr.binary (l.span.through r.span) op l r) vs := by
  intro hsep hvs fuel hfuel
  obtain ⟨hfew, hlevel, htighter⟩ := hsep
  obtain ⟨hfind, hbetween⟩ := hlevel _ hop
  obtain ⟨fuel', hfuel', hread⟩ := hl ⟨hfew, hlevel, htighter⟩ (lacks_cons ho hbetween) fuel hfuel
  obtain - | fuel' := fuel'
  · omega
  rw [List.length_cons] at hfuel'
  refine ⟨fuel', by omega, fun b ws h ↦ hread b ws ?_⟩
  rw [Reader.chain]
  refine .peeking ho ?_
  rw [hfind]
  exact .bind (.skip o us) (.bind (hr.plain htighter hvs fuel' (by omega)) h)

/-- Below the tightest level there are only operands with operators before them. -/
theorem operand {e : Expr} (he : Complete .unary ts e us) : Complete (.binary []) ts e us := by
  rintro hus (- | fuel) hfuel
  · omega
  rw [Reader.binary]
  exact he hus fuel (by omega)

/-- A negation of either kind is read. -/
theorem unary_sign {o : Lexeme} {m : Mark} {op : UnaryOp} {e : Expr} (ho : o.token = .mark m)
    (hop : m = .bang ∧ op = .not ∨ m = .minus ∧ op = .negate) (he : Complete .unary ts e us) :
    Complete .unary (o :: ts) (Expr.unary (o.span.through e.span) op e) us := by
  rintro hus (- | fuel) hfuel
  · omega
  rw [List.length_cons] at hfuel
  rw [Reader.unary]
  refine .peeking ho ?_
  rcases hop with ⟨rfl, rfl⟩ | ⟨rfl, rfl⟩ <;>
    exact .bind (.skip o ts) (.bind (he hus fuel (by omega)) (.pure _ _))

/-- A name with a step operator before it is read. -/
theorem stepBefore {o x : Lexeme} {op : StepOp} {n : String} (ho : o.token = .mark op.mark)
    (hx : x.token = .identifier n) :
    Complete .unary (o :: x :: ts) (Expr.step (o.span.through x.span) .before op n) ts := by
  rintro - (- | fuel) hfuel
  · omega
  rw [Reader.unary]
  refine .peeking ho ?_
  cases op <;> exact .bind (.skip o _) (.bind (.expectName _ hx ts) (.pure _ _))

/-- An operand that begins with no operator is read with its suffixes. -/
theorem suffixed {e : Expr} (he : Complete call ts e us) (hstart : Starts beginsPrimary ts) :
    Complete .unary ts e us := by
  rintro hus (- | fuel) hfuel
  · omega
  obtain ⟨fuel', hfuel', hread⟩ :=
    he (hus.mono fun t ht ↦ by simp [continues, ht]) fuel (by omega)
  -- what follows begins no suffix
  have hstop : Reads (suffixes fuel' e) us e us := by
    obtain - | fuel' := fuel'
    · omega
    rw [suffixes]
    refine .bind (.peek us) ?_
    rcases us with - | ⟨y, us⟩
    · exact .pure _ _
    have hy : continues [] y.token = false := hus
    rw [List.head?_cons, Option.map_some]
    split
    · rename_i hparen
      rw [Option.some.inj hparen] at hy
      cases hy
    · rename_i hdot
      rw [Option.some.inj hdot] at hy
      cases hy
    · exact .pure _ _
  obtain ⟨x, ts, rfl, hx⟩ := hstart
  rw [Reader.unary]
  refine .bind (.peek _) ?_
  rw [List.head?_cons, Option.map_some]
  cases ht : x.token with
  | mark m => rw [ht] at hx; cases m <;> first | exact hread _ _ hstop | cases hx
  | _ => exact hread _ _ hstop

/-- What is read as an operand is read as operands of any levels. -/
theorem levels {e : Expr} (he : Complete .unary ts e us) (hlength : us.length < ts.length)
    (levels : List (List (Mark × BinaryOp))) : Complete (.binary levels) ts e us := by
  induction levels with
  | nil => exact he.operand
  | cons level levels ih => exact ih.tighter hlength

/-- A target is read with the operands, up to the equals sign. -/
theorem assignTo {target v t : Expr} {eq : Lexeme}
    (htarget : Complete (.binary BinaryOp.levels) ts target (eq :: us))
    (heq : eq.token = .mark .equal) (hv : Complete expr us v vs)
    (hlength : us.length < ts.length)
    (ht : Reader.assignTo target eq.span v = (Pure.pure t : Reader Expr)) :
    Complete expr ts t vs := by
  rintro hvs (- | fuel) hfuel
  · omega
  have hread := htarget.plain separated_levels (lacks_cons heq (by decide)) fuel
    (by simp [BinaryOp.levels]; omega)
  rw [expression]
  refine .bind hread (.bind (.sees _ _) ?_)
  rw [show (eq :: us).head?.any (·.token.isMark .equal) = true by simp [heq], if_pos rfl]
  refine .bind (.skip eq us) (.bind (hv hvs fuel (by omega)) ?_)
  rw [ht]
  exact .pure _ _

/-- An assignment to a variable is read. -/
theorem assign {x eq : Lexeme} {n : String} {v : Expr} (hx : x.token = .identifier n)
    (heq : eq.token = .mark .equal) (hv : Complete expr ts v us) :
    Complete expr (x :: eq :: ts) (Expr.assign (x.span.through v.span) n v) us := by
  -- the equals sign shows only after the target has been read as an operand
  have hcall : Complete call (x :: eq :: ts) (Expr.var x.span n) (eq :: ts) :=
    (name hx).atom (Nat.le_succ _)
  have hunary := hcall.suffixed ⟨x, _, rfl, by rw [hx]; rfl⟩
  refine assignTo (hunary.levels (Nat.lt_succ_self _) _) heq hv ?_ rfl
  rw [List.length_cons, List.length_cons]
  omega

/-- An assignment to a property is read. -/
theorem setProperty {dot x eq : Lexeme} {n : String} {e v : Expr}
    (he : Complete call ts e (dot :: x :: eq :: us)) (hdot : dot.token = .mark .dot)
    (hx : x.token = .identifier n) (heq : eq.token = .mark .equal) (hv : Complete expr us v vs)
    (hstart : Starts beginsPrimary ts) (hlength : us.length + 3 ≤ ts.length) :
    Complete expr ts (Expr.setProperty (e.span.through v.span) e n v) vs := by
  have hunary := (he.property hdot hx).suffixed hstart
  refine assignTo (hunary.levels ?_ _) heq hv (by omega) rfl
  rw [List.length_cons]
  omega

/-! ### Functions -/

/-- The last argument is read. -/
theorem arg {e : Expr} (he : Complete expr ts e us) : Complete args ts [e] us := by
  rintro hus (- | fuel) count hfuel hcount
  · omega
  have hexpr : Lacks continuesExpr us := hus.lacks fun t ht ↦ by
    rw [isMark_iff.1 ht]
    decide
  have hcomma : Lacks (·.isMark .comma) us := hus.lacks fun t ht ↦ by
    rw [isMark_iff.1 ht]
    rfl
  rw [arguments]
  refine .bind (he hexpr fuel (by omega)) ?_
  rw [if_neg (show ¬ Cause.listLimit ≤ count from Nat.not_le.2 hcount)]
  exact .bind (.not_accept hcomma) (.pure _ _)

/-- An argument is read with those behind its comma. -/
theorem argThen {comma : Lexeme} {e : Expr} {es : List Expr}
    (he : Complete expr ts e (comma :: us)) (hcomma : comma.token = .mark .comma)
    (hes : Complete args us es vs) (hlength : us.length < ts.length) :
    Complete args ts (e :: es) vs := by
  rintro hvs (- | fuel) count hfuel hcount
  · omega
  rw [List.length_cons] at hcount
  rw [arguments]
  refine .bind (he (lacks_cons hcomma (by decide)) fuel (by omega)) ?_
  rw [if_neg (show ¬ Cause.listLimit ≤ count by rw [Cause.listLimit]; omega)]
  exact .bind (.accept hcomma us) (.bind (hes hvs fuel _ (by omega) (by omega)) (.pure _ _))

/-- The last parameter is read. -/
theorem param {x : Lexeme} {n : String} (hx : x.token = .identifier n) :
    Complete params (x :: ts) [(⟨n, x.span⟩ : Name)] ts := by
  rintro hts (- | fuel) count hfuel hcount
  · omega
  have hcomma : Lacks (·.isMark .comma) ts := hts.lacks fun t ht ↦ by
    rw [isMark_iff.1 ht]
    rfl
  rw [parameters]
  refine .bind (.expectName _ hx ts) ?_
  rw [if_neg (show ¬ Cause.listLimit ≤ count from Nat.not_le.2 hcount)]
  exact .bind (.not_accept hcomma) (.pure _ _)

/-- A parameter is read with those behind its comma. -/
theorem paramThen {x comma : Lexeme} {n : String} {ps : List Name}
    (hx : x.token = .identifier n) (hcomma : comma.token = .mark .comma)
    (hps : Complete params ts ps us) :
    Complete params (x :: comma :: ts) ((⟨n, x.span⟩ : Name) :: ps) us := by
  rintro hus (- | fuel) count hfuel hcount
  · omega
  rw [List.length_cons, List.length_cons] at hfuel
  rw [List.length_cons] at hcount
  rw [parameters]
  refine .bind (.expectName _ hx _) ?_
  rw [if_neg (show ¬ Cause.listLimit ≤ count by rw [Cause.listLimit]; omega)]
  exact .bind (.accept hcomma ts) (.bind (hps hus fuel _ (by omega) (by omega)) (.pure _ _))

/-- A function is read if its parameters, with or without any, are read up to the closing
bracket. -/
theorem functionWith {start : Nat} {n : String} {l r b z : Lexeme} {ps : Option (List Name)}
    {body : List Stmt} (hl : l.token = .mark .leftParen)
    (hps : ∀ fuel, 32 * ts.length + 1 ≤ fuel →
      Reads (unlessSees .rightParen (parameters fuel 0)) ts ps (r :: b :: us))
    (hr : r.token = .mark .rightParen) (hb : b.token = .mark .leftBrace)
    (hbody : Complete decls us body (z :: vs)) (hz : z.token = .mark .rightBrace)
    (hlength : us.length < ts.length) :
    Complete (.function start n) (l :: ts)
      (FunDecl.mk ⟨start, z.span.stop⟩ n (ps.getD []) body) vs := by
  rintro (- | fuel) hfuel
  · omega
  rw [List.length_cons] at hfuel
  rw [Reader.function]
  refine .bind (.expect hl ts) (.bind (hps fuel (by omega)) ?_)
  refine .bind (.expect hr _) (.bind (.expect hb us) ?_)
  exact (hbody.1 z vs rfl hz fuel (by omega)).spanFrom start (.pure _ _)

/-- A function without parameters is read. -/
theorem functionNone {start : Nat} {n : String} {l r b z : Lexeme} {body : List Stmt}
    (hl : l.token = .mark .leftParen) (hr : r.token = .mark .rightParen)
    (hb : b.token = .mark .leftBrace) (hbody : Complete decls ts body (z :: us))
    (hz : z.token = .mark .rightBrace) :
    Complete (.function start n) (l :: r :: b :: ts)
      (FunDecl.mk ⟨start, z.span.stop⟩ n [] body) us := by
  have hps (fuel : Nat) :
      Reads (unlessSees .rightParen (parameters fuel 0)) (r :: b :: ts) none (r :: b :: ts) :=
    .unlessSees_none (by simp [hr]) _
  refine functionWith hl (fun fuel _ ↦ hps fuel) hr hb hbody hz ?_
  rw [List.length_cons, List.length_cons]
  omega

/-- A function with parameters, at most 255 of them, is read. -/
theorem functionSome {start : Nat} {n : String} {l r b z : Lexeme} {ps : List Name}
    {body : List Stmt} (hl : l.token = .mark .leftParen)
    (hps : Complete params ts ps (r :: b :: us)) (hstart : Starts (·.isIdentifier) ts)
    (hlimit : ps.length ≤ 255) (hr : r.token = .mark .rightParen)
    (hb : b.token = .mark .leftBrace) (hbody : Complete decls us body (z :: vs))
    (hz : z.token = .mark .rightBrace) (hlength : us.length < ts.length) :
    Complete (.function start n) (l :: ts) (FunDecl.mk ⟨start, z.span.stop⟩ n ps body) vs := by
  have hopen : Lacks (·.isMark .rightParen) ts := hstart.lacks fun t ht ↦ by
    cases t <;> first | rfl | cases ht
  have hread (fuel : Nat) (hfuel : 32 * ts.length + 1 ≤ fuel) :
      Reads (unlessSees .rightParen (parameters fuel 0)) ts (some ps) (r :: b :: us) :=
    .unlessSees_some hopen (hps ⟨r, _, rfl, by simp [hr]⟩ fuel 0 hfuel (by omega))
  exact functionWith hl hread hr hb hbody hz hlength

/-- Where no declaration begins, none is read. -/
theorem declsNil : Complete decls ts ([] : List Stmt) ts := by
  constructor
  · rintro z us rfl hz (- | fuel) hfuel
    · omega
    rw [blockBody]
    refine .bind (.sees _ _) (.bind (.atEnd _) ?_)
    rw [if_pos (by simp [hz])]
    exact (Closes.expect hz us).pure _
  · rintro rfl depth (- | fuel) - hfuel
    · omega
    rw [program]
    exact .bind (.atEnd _) (.pure _ _)

/-- A declaration is read with those behind it. -/
theorem declsCons {d : Stmt} {ds : List Stmt} (hd : Complete decl ts d us)
    (hds : Complete decls us ds vs) (hstart : Starts decl.begins ts)
    (hus : us = vs ∨ Starts decl.begins us) (hlength : us.length < ts.length) :
    Complete decls ts (d :: ds) vs := by
  -- the first declaration is followed by the next one, or by what follows them all
  have helse (hvs : Lacks (·.isMark .elseWord) vs) : Lacks (·.isMark .elseWord) us := by
    rcases hus with rfl | hus
    · exact hvs
    · exact hus.lacks fun t ht ↦ not_isMark_of_beginsDecl ht (.inl rfl)
  have hopen : Lacks (·.isMark .rightBrace) ts :=
    hstart.lacks fun t ht ↦ not_isMark_of_beginsDecl ht (.inr rfl)
  have hend : ts.isEmpty = false := by
    obtain ⟨x, xs, rfl, -⟩ := hstart
    rfl
  constructor
  · rintro z ws rfl hz (- | fuel) hfuel
    · omega
    have hread := hd (helse (lacks_cons hz rfl)) fuel (by omega)
    rw [blockBody]
    refine .bind (.sees _ _) (.bind (.atEnd _) ?_)
    rw [show ts.head?.any (·.token.isMark .rightBrace) = false from hopen, hend]
    refine .bind (.recovering hread) ?_
    exact (hds.1 z ws rfl hz fuel (by omega)).pure _
  · rintro rfl depth (- | fuel) hdepth hfuel
    · omega
    have hread := hd (helse rfl) depth (by omega)
    rw [program]
    refine .bind (.atEnd _) ?_
    rw [hend]
    exact .bind (.recovering hread) (.bind (hds.2 rfl depth fuel (by omega) (by omega)) (.pure _ _))

/-! ### Declarations -/

/-- Where no method begins, none is read. -/
theorem methodsNil : Complete .methods ts ([] : List FunDecl) ts := by
  rintro ⟨z, us, rfl, hz⟩ (- | fuel) hfuel
  · omega
  rw [Reader.methods]
  refine .bind (.sees _ _) (.bind (.atEnd _) ?_)
  rw [if_pos (by simpa using hz)]
  exact .pure _ _

/-- A method is read with those behind it. -/
theorem methodsCons {x : Lexeme} {n : String} {f : FunDecl} {fs : List FunDecl}
    (hx : x.token = .identifier n) (hf : Complete (.function x.span.start n) ts f us)
    (hfs : Complete .methods us fs vs) (hlength : us.length < ts.length) :
    Complete .methods (x :: ts) (f :: fs) vs := by
  rintro hvs (- | fuel) hfuel
  · omega
  rw [List.length_cons] at hfuel
  rw [Reader.methods]
  refine .bind (.sees _ _) (.bind (.atEnd _) ?_)
  rw [if_neg (by simp [hx])]
  exact .bind (.expectName _ hx ts) (.bind (hf fuel (by omega))
    (.bind (hfs hvs fuel (by omega)) (.pure _ _)))

/-- The methods of a class in braces. -/
theorem reads_classBody {w b z : Lexeme} {n : String} {sup : Option Name} {ms : List FunDecl}
    {fuel : Nat} (hb : b.token = .mark .leftBrace) (hms : Complete .methods ts ms (z :: us))
    (hz : z.token = .mark .rightBrace) (hfuel : 32 * ts.length + 1 ≤ fuel) :
    Reads (do
      let _ ← expect .leftBrace
      let methods ← Reader.methods fuel
      let closing ← expect .rightBrace
      return Stmt.classDecl (w.span.through closing) n sup methods) (b :: ts)
      (Stmt.classDecl (w.span.through z.span) n sup ms) us :=
  .bind (.expect hb ts) (.bind (hms ⟨z, us, rfl, by simp [hz]⟩ fuel hfuel)
    (.bind (.expect hz us) (.pure _ _)))

/-- The keyword of classes selects the reader of a class. -/
theorem reads_declaration_class {w : Lexeme} {t : Stmt} {fuel : Nat}
    (hw : w.token = .mark .classWord) (h : Reads (classDecl fuel) (w :: ts) t us) :
    Reads (declaration (fuel + 1)) (w :: ts) t us := by
  rw [declaration]
  refine .peeking hw ?_
  exact h

/-- A class without a superclass is read. -/
theorem classPlain {w x b z : Lexeme} {n : String} {ms : List FunDecl}
    (hw : w.token = .mark .classWord) (hx : x.token = .identifier n)
    (hb : b.token = .mark .leftBrace) (hms : Complete .methods ts ms (z :: us))
    (hz : z.token = .mark .rightBrace) :
    Complete decl (w :: x :: b :: ts) (Stmt.classDecl (w.span.through z.span) n none ms) us := by
  rintro - (- | - | fuel) hfuel
  · omega
  · omega
  simp only [List.length_cons] at hfuel
  refine reads_declaration_class hw ?_
  rw [classDecl]
  refine .bind (.skip w _) (.bind (.expectName _ hx _) ?_)
  refine .bind (.not_accept (lacks_cons hb rfl)) (.bind (.pure none _) ?_)
  exact reads_classBody hb hms hz (by omega)

/-- A class with a superclass is read. -/
theorem classInheriting {w x less y b z : Lexeme} {n m : String} {ms : List FunDecl}
    (hw : w.token = .mark .classWord) (hx : x.token = .identifier n)
    (hless : less.token = .mark .less) (hy : y.token = .identifier m)
    (hb : b.token = .mark .leftBrace) (hms : Complete .methods ts ms (z :: us))
    (hz : z.token = .mark .rightBrace) :
    Complete decl (w :: x :: less :: y :: b :: ts)
      (Stmt.classDecl (w.span.through z.span) n (some ⟨m, y.span⟩) ms) us := by
  rintro - (- | - | fuel) hfuel
  · omega
  · omega
  simp only [List.length_cons] at hfuel
  refine reads_declaration_class hw ?_
  rw [classDecl]
  refine .bind (.skip w _) (.bind (.expectName _ hx _) ?_)
  refine .bind (.accept hless _) (.bind (.map some (.expectName _ hy _)) ?_)
  exact reads_classBody hb hms hz (by omega)

/-- A function with a name is read as a declaration. -/
theorem funDecl {w x : Lexeme} {n : String} {f : FunDecl} (hw : w.token = .mark .funWord)
    (hx : x.token = .identifier n) (hf : Complete (.function w.span.start n) ts f us) :
    Complete decl (w :: x :: ts) (Stmt.funDecl f) us := by
  rintro - (- | fuel) hfuel
  · omega
  simp only [List.length_cons] at hfuel
  rw [declaration]
  refine .peeking hw ?_
  refine .bind (.peekSecond _) ?_
  rw [if_pos (by simp [hx, Token.isIdentifier])]
  exact .bind (.skip w _) (.bind (.expectName _ hx ts) (.bind (hf fuel (by omega)) (.pure _ _)))

theorem declVar {d : Stmt} (hd : Complete .varDecl ts d us)
    (hstart : Starts (·.isMark .varWord) ts) : Complete decl ts d us := by
  rintro - (- | fuel) hfuel
  · omega
  obtain ⟨w, ts, rfl, hw⟩ := hstart
  rw [declaration]
  refine .peeking (isMark_iff.1 hw) ?_
  exact hd fuel (by omega)

/-- What begins like a statement is read as a statement; a function without a name is one. -/
theorem declStmt {d : Stmt} (hd : Complete stmt ts d us) (hstart : Starts beginsStmt ts)
    (hfun : ∀ w vs, ts = w :: vs → w.token = .mark .funWord → Starts (·.isMark .leftParen) vs) :
    Complete decl ts d us := by
  rintro hus (- | fuel) hfuel
  · omega
  have hread := hd (fun _ ↦ hus) fuel (by omega)
  obtain ⟨w, ts, rfl, hw⟩ := hstart
  rw [declaration]
  refine .bind (.peek _) ?_
  rw [List.head?_cons, Option.map_some]
  cases ht : w.token with
  | mark m =>
    rw [ht] at hw
    cases m with
    | funWord =>
      -- two tokens tell a function without a name from a declaration
      obtain ⟨l, vs, rfl, hl⟩ := hfun w ts rfl ht
      refine .bind (.peekSecond _) ?_
      rw [if_neg (by simp [isMark_iff.1 hl, Token.isIdentifier])]
      exact hread
    | _ => first | exact hread | cases hw
  | _ => exact hread

/-- A variable without an initializer is read. -/
theorem varNone {w x s : Lexeme} {n : String} (hx : x.token = .identifier n)
    (hs : s.token = .mark .semicolon) :
    Complete .varDecl (w :: x :: s :: ts) (Stmt.varDecl (w.span.through s.span) n none) ts := by
  rintro (- | fuel) hfuel
  · omega
  rw [Reader.varDecl]
  refine .bind (.skip w _) (.bind (.expectName _ hx _) ?_)
  refine .bind (.not_accept (lacks_cons hs rfl)) (.bind (.pure none _) ?_)
  exact .bind (.expect hs ts) (.pure _ _)

/-- A variable with an initializer is read. -/
theorem varSome {w x eq s : Lexeme} {n : String} {v : Expr} (hx : x.token = .identifier n)
    (heq : eq.token = .mark .equal) (hv : Complete expr ts v (s :: us))
    (hs : s.token = .mark .semicolon) :
    Complete .varDecl (w :: x :: eq :: ts)
      (Stmt.varDecl (w.span.through s.span) n (some v)) us := by
  rintro (- | fuel) hfuel
  · omega
  simp only [List.length_cons] at hfuel
  rw [Reader.varDecl]
  refine .bind (.skip w _) (.bind (.expectName _ hx _) ?_)
  refine .bind (.accept heq _) (.bind (.map some (hv (lacks_cons hs (by decide)) fuel ?_)) ?_)
  · omega
  · exact .bind (.expect hs us) (.pure _ _)

/-! ### Statements -/

/-- An expression is read as a statement up to its semicolon. -/
theorem reads_expressionStmt {s : Lexeme} {v : Expr} (hv : Complete expr ts v (s :: us))
    (hs : s.token = .mark .semicolon) {fuel : Nat} (hfuel : 32 * ts.length + 11 ≤ fuel) :
    Reads (expressionStmt fuel) ts (Stmt.expression (v.span.through s.span) v) us := by
  obtain - | fuel := fuel
  · omega
  rw [expressionStmt]
  exact .bind (hv (lacks_cons hs (by decide)) fuel (by omega)) (.bind (.expect hs us) (.pure _ _))

/-- What begins like an expression is read as an expression statement. -/
theorem exprStmt {s : Lexeme} {v : Expr} (hv : Complete expr ts v (s :: us))
    (hs : s.token = .mark .semicolon) (hstart : Starts beginsExpr ts) :
    Complete stmt ts (Stmt.expression (v.span.through s.span) v) us := by
  rintro - (- | fuel) hfuel
  · omega
  have hread := reads_expressionStmt hv hs (show 32 * ts.length + 11 ≤ fuel by omega)
  obtain ⟨x, ts, rfl, hx⟩ := hstart
  rw [statement]
  refine .bind (.peek _) ?_
  rw [List.head?_cons, Option.map_some]
  cases ht : x.token with
  | mark m => rw [ht] at hx; cases m <;> first | exact hread | cases hx
  | _ => exact hread

/-- An expression that may be missing is missing. -/
theorem optNone : Complete optExpr ts none ts := by
  rintro m - ⟨x, us, rfl, hx⟩ fuel hfuel
  exact .unlessSees_none (show (x :: us).head?.any (·.token.isMark m) = true from hx) _

/-- An expression that may be missing is there and is read. -/
theorem optSome {e : Expr} (he : Complete expr ts e us) (hstart : Starts beginsExpr ts) :
    Complete optExpr ts (some e) us := by
  rintro m hm hus fuel hfuel
  have hopen : Lacks (·.isMark m) ts := hstart.lacks fun t ht ↦
    not_isMark_of_beginsExpr ht (by rcases hm with rfl | rfl <;> simp)
  have hend : Lacks continuesExpr us := hus.lacks fun t ht ↦ by
    rw [isMark_iff.1 ht]
    rcases hm with rfl | rfl <;> decide
  exact .unlessSees_some hopen (he hend fuel hfuel)

theorem print {w s : Lexeme} {v : Expr} (hw : w.token = .mark .printWord)
    (hv : Complete expr ts v (s :: us)) (hs : s.token = .mark .semicolon) :
    Complete stmt (w :: ts) (Stmt.print (w.span.through s.span) v) us := by
  rintro - (- | fuel) hfuel
  · omega
  rw [List.length_cons] at hfuel
  rw [statement]
  refine .peeking hw ?_
  exact .bind (.skip w ts) (.bind (hv (lacks_cons hs (by decide)) fuel (by omega))
    (.bind (.expect hs us) (.pure _ _)))

/-- A `return` is read, with or without a value. -/
theorem returns {w s : Lexeme} {v : Option Expr} (hw : w.token = .mark .returnWord)
    (hv : Complete optExpr ts v (s :: us)) (hs : s.token = .mark .semicolon) :
    Complete stmt (w :: ts) (Stmt.returns (w.span.through s.span) v) us := by
  rintro - (- | fuel) hfuel
  · omega
  rw [List.length_cons] at hfuel
  rw [statement]
  refine .peeking hw ?_
  exact .bind (.skip w ts)
    (.bind (hv .semicolon (.inl rfl) ⟨s, us, rfl, by simp [hs]⟩ fuel (by omega))
      (.bind (.expect hs us) (.pure _ _)))

/-- A block is read up to the brace that closes it. -/
theorem block {b z : Lexeme} {body : List Stmt} (hb : b.token = .mark .leftBrace)
    (hbody : Complete decls ts body (z :: us)) (hz : z.token = .mark .rightBrace) :
    Complete stmt (b :: ts) (Stmt.block ⟨b.span.start, z.span.stop⟩ body) us := by
  rintro - (- | fuel) hfuel
  · omega
  rw [List.length_cons] at hfuel
  rw [statement]
  refine .peeking hb ?_
  refine .bind (.skip b ts) ?_
  exact (hbody.1 z us rfl hz fuel (by omega)).spanFrom b.span.start (.pure _ _)

/-- An expression in parentheses is read before what stands behind it. -/
theorem reads_parenthesized {l r : Lexeme} {c : Expr} {t : Stmt} {next : Expr → Reader Stmt}
    {fuel : Nat} (hl : l.token = .mark .leftParen) (hc : Complete expr ts c (r :: us))
    (hr : r.token = .mark .rightParen) (hfuel : 32 * ts.length + 10 ≤ fuel)
    (h : Reads (next c) us t vs) :
    Reads (do
      let _ ← expect .leftParen
      let condition ← expression fuel
      let _ ← expect .rightParen
      next condition) (l :: ts) t vs :=
  .bind (.expect hl ts) (.bind (hc (lacks_cons hr (by decide)) fuel hfuel)
    (.bind (.expect hr us) h))

/-- An `if` without an `else` is read, where no `else` follows. -/
theorem ifOnly {w l r : Lexeme} {c : Expr} {yes : Stmt} (hw : w.token = .mark .ifWord)
    (hl : l.token = .mark .leftParen) (hc : Complete expr ts c (r :: us))
    (hr : r.token = .mark .rightParen) (hyes : Complete stmt us yes vs)
    (hlength : us.length ≤ ts.length) :
    Complete stmt (w :: l :: ts)
      (Stmt.conditional (w.span.through yes.span) c yes none) vs := by
  rintro hvs (- | fuel) hfuel
  · omega
  simp only [List.length_cons] at hfuel
  replace hvs := hvs rfl
  rw [statement]
  refine .peeking hw ?_
  refine .bind (.skip w _) (reads_parenthesized hl hc hr (by omega) ?_)
  refine .bind (hyes (fun _ ↦ hvs) fuel (by omega)) (.bind (.not_accept hvs) ?_)
  exact .bind (.pure none _) (.pure _ _)

/-- An `if` with an `else` is read, as long as no `if` in its first branch takes the `else`. -/
theorem ifElse {w l r e : Lexeme} {c : Expr} {yes no : Stmt} {ws : List Lexeme}
    (hw : w.token = .mark .ifWord) (hl : l.token = .mark .leftParen)
    (hc : Complete expr ts c (r :: us)) (hr : r.token = .mark .rightParen)
    (hyes : Complete stmt us yes (e :: vs)) (he : e.token = .mark .elseWord)
    (hnear : yes.leavesIfOpen = false) (hno : Complete stmt vs no ws)
    (hus : us.length ≤ ts.length) (hvs : vs.length ≤ us.length) :
    Complete stmt (w :: l :: ts)
      (Stmt.conditional (w.span.through no.span) c yes (some no)) ws := by
  rintro hws (- | fuel) hfuel
  · omega
  simp only [List.length_cons] at hfuel
  rw [statement]
  refine .peeking hw ?_
  refine .bind (.skip w _) (reads_parenthesized hl hc hr (by omega) ?_)
  refine .bind (hyes (fun hopen ↦ ?_) fuel (by omega)) (.bind (.accept he vs) ?_)
  · -- no `if` in the first branch could take the `else`
    rw [hnear] at hopen
    cases hopen
  · exact .bind (.map some (hno hws fuel (by omega))) (.pure _ _)

theorem whileLoop {w l r : Lexeme} {c : Expr} {body : Stmt} (hw : w.token = .mark .whileWord)
    (hl : l.token = .mark .leftParen) (hc : Complete expr ts c (r :: us))
    (hr : r.token = .mark .rightParen) (hbody : Complete stmt us body vs)
    (hlength : us.length ≤ ts.length) :
    Complete stmt (w :: l :: ts) (Stmt.whileLoop (w.span.through body.span) c body) vs := by
  rintro hvs (- | fuel) hfuel
  · omega
  simp only [List.length_cons] at hfuel
  rw [statement]
  refine .peeking hw ?_
  refine .bind (.skip w _) (reads_parenthesized hl hc hr (by omega) ?_)
  exact .bind (hbody hvs fuel (by omega)) (.pure _ _)

/-- The first clause of a `for` may be empty. -/
theorem initNone {s : Lexeme} (hs : s.token = .mark .semicolon) :
    Complete .init (s :: ts) none ts :=
  .inl ⟨s, rfl, hs, rfl⟩

/-- The first clause of a `for` may declare a variable. -/
theorem initVar {d : Stmt} (hd : Complete .varDecl ts d us)
    (hstart : Starts (·.isMark .varWord) ts) : Complete .init ts (some d) us :=
  .inr (.inl ⟨d, rfl, hstart, hd⟩)

/-- The first clause of a `for` may be an expression. -/
theorem initExpr {s : Lexeme} {v : Expr} (hv : Complete expr ts v (s :: us))
    (hs : s.token = .mark .semicolon) (hstart : Starts beginsExpr ts) :
    Complete .init ts (some (Stmt.expression (v.span.through s.span) v)) us :=
  .inr (.inr ⟨_, rfl, hstart, fun _ hfuel ↦ reads_expressionStmt hv hs hfuel⟩)

/-- The clauses of a `for` after the first, and its body. -/
theorem reads_forClauses (w : Lexeme) (i : Option Stmt) {s r : Lexeme} {c u : Option Expr}
    {body : Stmt} {ws xs : List Lexeme} {fuel : Nat} (hc : Complete optExpr us c (s :: vs))
    (hs : s.token = .mark .semicolon) (hu : Complete optExpr vs u (r :: ws))
    (hr : r.token = .mark .rightParen) (hbody : Complete stmt ws body xs)
    (hxs : body.leavesIfOpen = true → Lacks (·.isMark .elseWord) xs)
    (hfuel : 32 * us.length + 12 ≤ fuel) (hvs : vs.length ≤ us.length)
    (hws : ws.length ≤ vs.length) :
    Reads (do
      let condition ← unlessSees .semicolon (expression fuel)
      let _ ← expect .semicolon
      let step ← unlessSees .rightParen (expression fuel)
      let _ ← expect .rightParen
      let body ← statement fuel
      return .forLoop (w.span.through body.span) i condition step body : Reader Stmt) us
      (Stmt.forLoop (w.span.through body.span) i c u body) xs := by
  refine .bind (hc .semicolon (.inl rfl) ⟨s, vs, rfl, by simp [hs]⟩ fuel (by omega)) ?_
  refine .bind (.expect hs vs) ?_
  refine .bind (hu .rightParen (.inr rfl) ⟨r, ws, rfl, by simp [hr]⟩ fuel (by omega)) ?_
  refine .bind (.expect hr ws) ?_
  exact .bind (hbody hxs fuel (by omega)) (.pure _ _)

/-- A `for` is read with all of its clauses. -/
theorem forLoop {w l s r : Lexeme} {i : Option Stmt} {c u : Option Expr} {body : Stmt}
    {ws xs : List Lexeme} (hw : w.token = .mark .forWord) (hl : l.token = .mark .leftParen)
    (hi : Complete .init ts i us) (hc : Complete optExpr us c (s :: vs))
    (hs : s.token = .mark .semicolon) (hu : Complete optExpr vs u (r :: ws))
    (hr : r.token = .mark .rightParen) (hbody : Complete stmt ws body xs)
    (hus : us.length ≤ ts.length) (hvs : vs.length ≤ us.length) (hws : ws.length ≤ vs.length) :
    Complete stmt (w :: l :: ts)
      (Stmt.forLoop (w.span.through body.span) i c u body) xs := by
  rintro hxs (- | - | fuel) hfuel
  · omega
  · omega
  simp only [List.length_cons] at hfuel
  have hfuel' : 32 * us.length + 12 ≤ fuel := by omega
  have hclauses := reads_forClauses w i hc hs hu hr hbody hxs hfuel' hvs hws
  rw [statement]
  refine .peeking hw ?_
  show Reads (Reader.forLoop (fuel + 1)) _ _ _
  rw [Reader.forLoop]
  refine .bind (.skip w _) (.bind (.expect hl ts) (.bind (.peek ts) ?_))
  rcases hi with ⟨s', rfl, hs', rfl⟩ | ⟨d, rfl, ⟨x, ts, rfl, hx⟩, hread⟩ |
    ⟨d, rfl, ⟨x, ts, rfl, hx⟩, hread⟩
  · rw [List.head?_cons, Option.map_some, hs']
    exact .bind (.skip s' us) (.bind (.pure none us) hclauses)
  · rw [List.head?_cons, Option.map_some, isMark_iff.1 hx]
    exact .bind (.map some (hread fuel (by omega))) hclauses
  · -- the token of an expression is neither a semicolon nor the keyword of variables
    have hinit := (hread fuel (by omega)).map some
    rw [List.head?_cons, Option.map_some]
    cases ht : x.token with
    | mark m => rw [ht] at hx; cases m <;> first | exact .bind hinit hclauses | cases hx
    | _ => exact .bind hinit hclauses

end Complete

/-! ### All derivations -/

/-- Every derivation is found, if what follows does not continue it. -/
theorem Derives.complete {s : Symbol} {ts us : List Lexeme} {t : s.Tree}
    (h : Derives .nearest s ts t us) : Complete s ts t us := by
  induction h with
  | assign hx heq _ ihv => exact .assign hx heq ihv
  | setProperty he hdot hx heq _ ihe ihv =>
    exact .setProperty ihe hdot hx heq ihv (he.begins rfl) he.length_le
  | operators _ ihe => exact .operators ihe
  | join _ hop ho hr ihl ihr => exact .join ihl hop ho ihr hr.length_le
  | tighter he ihe => exact .tighter ihe (he.length_lt rfl)
  | operand _ ihe => exact .operand ihe
  | not ho _ ihe => exact .unary_sign ho (.inl ⟨rfl, rfl⟩) ihe
  | negate ho _ ihe => exact .unary_sign ho (.inr ⟨rfl, rfl⟩) ihe
  | stepBefore ho hx => exact .stepBefore ho hx
  | suffixed he ihe => exact .suffixed ihe (he.begins rfl)
  | callNone _ hl hr ihe => exact .callNone ihe hl hr
  | callSome _ hl has hlimit hr ihe ihas =>
    exact .callSome ihe hl ihas (has.begins rfl) (Nat.lt_of_succ_lt (has.length_lt rfl)) hlimit hr
  | property _ hdot hx ihe => exact .property ihe hdot hx
  | atom he ihe => exact .atom ihe he.length_le
  | arg _ ihe => exact .arg ihe
  | argThen he hcomma _ ihe ihes =>
    exact .argThen ihe hcomma ihes (Nat.lt_of_succ_lt (he.length_lt rfl))
  | literal hx => exact .literal hx
  | name hx => exact .name hx
  | stepAfter hx ho => exact .stepAfter hx ho
  | this hw => exact .this hw
  | super hw hdot hx => exact .super hw hdot hx
  | group hl _ hr ihe => exact .group hl ihe hr
  | lambda hw _ ihf => exact .lambda hw ihf
  | optNone => exact .optNone
  | optSome he ihe => exact .optSome ihe (he.begins rfl)
  | functionNone hl hr hb _ hz ihbody => exact .functionNone hl hr hb ihbody hz
  | functionSome hl hps hlimit hr hb _ hz ihps ihbody =>
    have hlength := hps.length_lt rfl
    simp only [List.length_cons] at hlength
    exact .functionSome hl ihps (hps.begins rfl) hlimit hr hb ihbody hz (by omega)
  | param hx => exact .param hx
  | paramThen hx hcomma _ ihps => exact .paramThen hx hcomma ihps
  | declsNil => exact .declsNil
  | declsCons hd hds ihd ihds =>
    exact .declsCons ihd ihds (hd.begins rfl) hds.head_decls (hd.length_lt rfl)
  | classPlain hw hx hb _ hz ihms => exact .classPlain hw hx hb ihms hz
  | classInheriting hw hx hless hy hb _ hz ihms =>
    exact .classInheriting hw hx hless hy hb ihms hz
  | methodsNil => exact .methodsNil
  | methodsCons hx hf _ ihf ihfs => exact .methodsCons hx ihf ihfs (hf.length_lt rfl)
  | funDecl hw hx _ ihf => exact .funDecl hw hx ihf
  | declVar hd ihd => exact .declVar ihd (hd.begins rfl)
  | declStmt hd ihd => exact .declStmt ihd (hd.begins rfl) (hd.leftParen_of_funWord rfl)
  | varNone _ hx hs => exact .varNone hx hs
  | varSome _ hx heq _ hs ihv => exact .varSome hx heq ihv hs
  | exprStmt hv hs ihv => exact .exprStmt ihv hs (hv.begins rfl)
  | print hw _ hs ihv => exact .print hw ihv hs
  | returns hw _ hs ihv => exact .returns hw ihv hs
  | block hb _ hz ihbody => exact .block hb ihbody hz
  | ifOnly hw hl hc hr _ ihc ihyes =>
    exact .ifOnly hw hl ihc hr ihyes (Nat.le_of_succ_le hc.length_le)
  | ifElse hw hl hc hr hyes he hnear _ ihc ihyes ihno =>
    exact .ifElse hw hl ihc hr ihyes he (hnear rfl) ihno (Nat.le_of_succ_le hc.length_le)
      (Nat.le_of_succ_le hyes.length_le)
  | whileLoop hw hl hc hr _ ihc ihbody =>
    exact .whileLoop hw hl ihc hr ihbody (Nat.le_of_succ_le hc.length_le)
  | forLoop hw hl hi hc hs hu hr _ ihi ihc ihu ihbody =>
    exact .forLoop hw hl ihi ihc hs ihu hr ihbody hi.length_le
      (Nat.le_of_succ_le hc.length_le) (Nat.le_of_succ_le hu.length_le)
  | initNone hs => exact .initNone hs
  | initVar hd ihd => exact .initVar ihd (hd.begins rfl)
  | initExpr hv hs ihv => exact .initExpr ihv hs (hv.begins rfl)

/-- The program of a list that is derived with every `else` at the nearest `if` is read. -/
theorem IsProgram.ofLexemes {ts : List Lexeme} {p : Program} (h : IsProgram .nearest ts p)
    (stop : Nat) : Program.ofLexemes ts stop = .ok p := by
  have hdecls := (Derives.complete h).2 rfl (Program.fuelFor ts.length) (Program.fuelFor ts.length)
    (by rw [Program.fuelFor]; omega) (by rw [Program.fuelFor]; omega)
  obtain ⟨last, hread⟩ := hdecls none stop []
  rw [Program.ofLexemes, hread]
  rfl

end Grammar

end LoxLang
