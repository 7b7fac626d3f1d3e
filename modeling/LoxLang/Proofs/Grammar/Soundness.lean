import LoxLang.Proofs.Reading

/-!
# What is read is derived

A reader that comes to an end without a fault has passed tokens that its symbol derives, with the
tree that it gives. Faults are only ever added, so it is enough to look at them at the end: a
reader that ends without any has met none on the way, and in particular has never skipped ahead.

The readers call one another with less fuel, so the statements about all of them with one amount
of fuel are collected in `SoundAt`, and each reader is treated on its own from the statements with
one unit less.
-/

namespace LoxLang

namespace Grammar

open Cursor Reader Grammar.Symbol

/-- What the reader gives without a fault is derived from the symbol. -/
def Follows (s : Symbol) (p : Reader s.Tree) : Prop :=
  ∀ c t d, p c = .ok t d → d.faults = [] → c.faults = [] ∧ Derives .nearest s c.rest t d.rest

/-- The next token is an `else`. -/
def ElseAhead (c : Cursor) : Prop := ∃ x ts, c.rest = x :: ts ∧ x.token = .mark .elseWord

/-- A statement is read as far as it goes: it does not leave an `if` open before an `else`. -/
def FollowsStmt (p : Reader Stmt) : Prop :=
  ∀ c t d, p c = .ok t d → d.faults = [] →
    c.faults = [] ∧ Derives .nearest stmt c.rest t d.rest ∧ (t.leavesIfOpen → ¬ ElseAhead d)

/-- What holds of all readers with this much fuel. -/
structure SoundAt (fuel : Nat) : Prop where
  expression : Follows expr (Reader.expression fuel)
  binary : ∀ levels, Follows (binary levels) (Reader.binary fuel levels)
  /-- What has been read of a level before may be any derivation that ends here. -/
  chain : ∀ level tighter left c t d, Reader.chain fuel level tighter left c = .ok t d →
    d.faults = [] → c.faults = [] ∧
      ∀ ts, Derives .nearest (Symbol.binary (level :: tighter)) ts left c.rest →
        Derives .nearest (Symbol.binary (level :: tighter)) ts t d.rest
  unary : Follows unary (Reader.unary fuel)
  suffixes : ∀ e c t d, Reader.suffixes fuel e c = .ok t d → d.faults = [] →
    c.faults = [] ∧ ∀ ts, Derives .nearest call ts e c.rest → Derives .nearest call ts t d.rest
  arguments : ∀ count c t d, Reader.arguments fuel count c = .ok t d → d.faults = [] →
    c.faults = [] ∧ Derives .nearest args c.rest t d.rest ∧ count + t.length ≤ 255
  primary : Follows primary (Reader.primary fuel)
  function : ∀ start n, Follows (function start n) (Reader.function fuel start n)
  parameters : ∀ count c t d, Reader.parameters fuel count c = .ok t d → d.faults = [] →
    c.faults = [] ∧ Derives .nearest params c.rest t d.rest ∧ count + t.length ≤ 255
  blockBody : ∀ c t d, Reader.blockBody fuel c = .ok t d → d.faults = [] →
    c.faults = [] ∧ ∃ z, d.last = some z ∧ z.token = .mark .rightBrace ∧
      Derives .nearest decls c.rest t (z :: d.rest)
  declaration : Follows decl (Reader.declaration fuel)
  classDecl : ∀ w ts c t d, c.rest = w :: ts → w.token = .mark .classWord →
    Reader.classDecl fuel c = .ok t d → d.faults = [] →
    c.faults = [] ∧ Derives .nearest decl c.rest t d.rest
  methods : Follows methods (Reader.methods fuel)
  varDecl : ∀ w ts c t d, c.rest = w :: ts → w.token = .mark .varWord →
    Reader.varDecl fuel c = .ok t d → d.faults = [] →
    c.faults = [] ∧ Derives .nearest varDecl c.rest t d.rest
  expressionStmt : ∀ c t d, Reader.expressionStmt fuel c = .ok t d → d.faults = [] →
    c.faults = [] ∧ ∃ v s us, Derives .nearest expr c.rest v (s :: us) ∧
      s.token = .mark .semicolon ∧ t = .expression (v.span.through s.span) v ∧ d.rest = us
  statement : FollowsStmt (Reader.statement fuel)
  forLoop : ∀ w ts c t d, c.rest = w :: ts → w.token = .mark .forWord →
    Reader.forLoop fuel c = .ok t d → d.faults = [] →
    c.faults = [] ∧ Derives .nearest stmt c.rest t d.rest ∧ (t.leavesIfOpen → ¬ ElseAhead d)

/-- What is read up to a token that has to come is derived up to it. -/
theorem Follows.upTo {s : Symbol} {p : Reader s.Tree} (hp : Follows s p) {c c' d : Cursor}
    {t : s.Tree} {m : Mark} {closing : Span} (hread : p c = .ok t c')
    (hclose : expect m c' = .ok closing d) (hd : d.faults = []) :
    c.faults = [] ∧ ∃ z, Derives .nearest s c.rest t (z :: d.rest) ∧ z.token = .mark m ∧
      z.span = closing := by
  obtain ⟨z, hpassed, hz, hspan⟩ := passed_of_expect hclose
  obtain ⟨hc, ht⟩ := hp _ _ _ hread (hpassed.faults_eq_nil hd)
  rw [hpassed.rest] at ht
  exact ⟨hc, z, ht, hz, hspan⟩

/-- What is read between two tokens that have to come is derived between them. -/
theorem Follows.between {s : Symbol} {p : Reader s.Tree} (hp : Follows s p) {c c₁ c₂ d : Cursor}
    {t : s.Tree} {m m' : Mark} {opening closing : Span} (hopen : expect m c = .ok opening c₁)
    (hread : p c₁ = .ok t c₂) (hclose : expect m' c₂ = .ok closing d) (hd : d.faults = []) :
    c.faults = [] ∧ ∃ l ts z, c.rest = l :: ts ∧ l.token = .mark m ∧
      Derives .nearest s ts t (z :: d.rest) ∧ z.token = .mark m' ∧ z.span = closing := by
  obtain ⟨l, hpassed, hl, -⟩ := passed_of_expect hopen
  obtain ⟨hc₁, z, ht, hz, hspan⟩ := hp.upTo hread hclose hd
  exact ⟨hpassed.faults_eq_nil hc₁, l, c₁.rest, z, hpassed.rest, hl, ht, hz, hspan⟩

variable {fuel : Nat}

/-! ### Expressions -/

/-- Only a name is derived as a variable from operands. -/
theorem of_binary_var {levels : List (List (Mark × BinaryOp))} {ts us : List Lexeme} {s : Span}
    {n : String} (h : Derives .nearest (binary levels) ts (Expr.var s n) us) :
    ∃ x, ts = x :: us ∧ x.token = .identifier n ∧ x.span = s := by
  induction levels with
  | nil =>
    cases h with
    | operand h =>
      cases h with
      | suffixed h =>
        cases h with
        | atom h =>
          cases h with
          | name hx => exact ⟨_, rfl, hx, rfl⟩
  | cons level levels ih =>
    cases h with
    | tighter h => exact ih h

/-- Only a call and a name after a point are derived as a property from operands. -/
theorem of_binary_property {levels : List (List (Mark × BinaryOp))} {ts us : List Lexeme}
    {s : Span} {e : Expr} {n : String}
    (h : Derives .nearest (binary levels) ts (Expr.property s e n) us) :
    ∃ dot x, Derives .nearest call ts e (dot :: x :: us) ∧ dot.token = .mark .dot ∧
      x.token = .identifier n ∧ s = e.span.through x.span := by
  induction levels with
  | nil =>
    cases h with
    | operand h =>
      cases h with
      | suffixed h =>
        cases h with
        | property he hdot hx => exact ⟨_, _, he, hdot, hx, rfl⟩
        | atom h => cases h
  | cons level levels ih =>
    cases h with
    | tighter h => exact ih h

/-- An assignment without a fault has a variable or a property for its target. -/
theorem of_assignTo {target v t : Expr} {equals : Span} {c d : Cursor}
    (h : assignTo target equals v c = .ok t d) (hd : d.faults = []) :
    c = d ∧ ((∃ s n, target = .var s n ∧ t = .assign (s.through v.span) n v) ∨
      ∃ s e n, target = .property s e n ∧ t = .setProperty (s.through v.span) e n v) := by
  cases target with
  | var s n =>
    obtain ⟨rfl, rfl⟩ := pure_eq_ok.1 h
    exact ⟨rfl, .inl ⟨s, n, rfl, rfl⟩⟩
  | property s e n =>
    obtain ⟨rfl, rfl⟩ := pure_eq_ok.1 h
    exact ⟨rfl, .inr ⟨s, e, n, rfl, rfl⟩⟩
  | _ =>
    obtain ⟨-, rfl⟩ := pure_eq_ok.1 h
    simp at hd

/-- An expression that is read without a fault is derived: it is an operation, or an assignment to a
variable or a property. -/
theorem SoundAt.expression_succ (ih : SoundAt fuel) :
    Follows expr (Reader.expression (fuel + 1)) := by
  intro c t d h hd
  rw [Reader.expression] at h
  obtain ⟨target, c₁, htarget, h⟩ := bind_eq_ok.1 h
  rw [bind_sees, run_ite] at h
  split at h
  · rename_i hsees
    obtain ⟨eq, c₂, hpassed, heq, h⟩ := passed_of_skip (sees_iff.1 hsees) h
    obtain ⟨v, c₃, hv, h⟩ := bind_eq_ok.1 h
    -- without a fault the target was a variable or a property, and so were its tokens
    obtain ⟨rfl, htree⟩ := of_assignTo h hd
    obtain ⟨hc₂, hv⟩ := ih.expression _ _ _ hv hd
    obtain ⟨hc, htarget⟩ := ih.binary _ _ _ _ htarget (hpassed.faults_eq_nil hc₂)
    refine ⟨hc, ?_⟩
    rw [hpassed.rest] at htarget
    rcases htree with ⟨s, n, rfl, rfl⟩ | ⟨s, e, n, rfl, rfl⟩
    · obtain ⟨x, hx, hname, rfl⟩ := of_binary_var htarget
      rw [hx]
      exact .assign hname heq hv
    · obtain ⟨dot, x, he, hdot, hname, rfl⟩ := of_binary_property htarget
      exact .setProperty he hdot hname heq hv
  · obtain ⟨rfl, rfl⟩ := pure_eq_ok.1 h
    obtain ⟨hc, he⟩ := ih.binary _ _ _ _ htarget hd
    exact ⟨hc, .operators he⟩

/-- The operations of a level that are read are derived. -/
theorem SoundAt.binary_succ (ih : SoundAt fuel) (levels : List (List (Mark × BinaryOp))) :
    Follows (Symbol.binary levels) (Reader.binary (fuel + 1) levels) := by
  intro c t d h hd
  cases levels with
  | nil =>
    rw [Reader.binary] at h
    obtain ⟨hc, he⟩ := ih.unary _ _ _ h hd
    exact ⟨hc, .operand he⟩
  | cons level tighter =>
    rw [Reader.binary] at h
    obtain ⟨left, c₁, hleft, h⟩ := bind_eq_ok.1 h
    obtain ⟨hc₁, hchain⟩ := ih.chain _ _ _ _ _ _ h hd
    obtain ⟨hc, hleft⟩ := ih.binary _ _ _ _ hleft hc₁
    exact ⟨hc, hchain _ (.tighter hleft)⟩

/-- An operator of a level is found only at one of its marks. -/
theorem of_ofToken? {level : List (Mark × BinaryOp)} {t : Option Token} {op : BinaryOp}
    (h : BinaryOp.ofToken? level t = some op) : ∃ m, (m, op) ∈ level ∧ t = some (.mark m) := by
  obtain ⟨⟨m, op'⟩, hmem, hif⟩ := List.exists_of_findSome?_eq_some h
  cases t with
  | none => simp at hif
  | some t =>
    simp only [Option.any_some, isMark_iff, Option.ite_none_right_eq_some,
      Option.some.injEq] at hif
    obtain ⟨rfl, rfl⟩ := hif
    exact ⟨m, hmem, rfl⟩

/-- What a chain adds to an operation that is derived makes one that is derived. -/
theorem SoundAt.chain_succ (ih : SoundAt fuel) (level : List (Mark × BinaryOp))
    (tighter : List (List (Mark × BinaryOp))) (left : Expr) (c : Cursor) (t : Expr) (d : Cursor)
    (h : Reader.chain (fuel + 1) level tighter left c = .ok t d) (hd : d.faults = []) :
    c.faults = [] ∧
      ∀ ts, Derives .nearest (Symbol.binary (level :: tighter)) ts left c.rest →
        Derives .nearest (Symbol.binary (level :: tighter)) ts t d.rest := by
  rw [Reader.chain, bind_peek] at h
  replace h := run_eq h
  obtain ⟨q, hq, h⟩ := h
  split at hq <;> subst hq
  · rename_i op hop
    obtain ⟨m, hmem, hm⟩ := of_ofToken? hop
    obtain ⟨o, c₁, hpassed, ho, h⟩ := passed_of_skip (head_eq_some.1 hm) h
    obtain ⟨right, c₂, hright, h⟩ := bind_eq_ok.1 h
    obtain ⟨hc₂, hchain⟩ := ih.chain _ _ _ _ _ _ h hd
    obtain ⟨hc₁, hright⟩ := ih.binary _ _ _ _ hright hc₂
    refine ⟨hpassed.faults_eq_nil hc₁, fun ts hleft ↦ hchain ts ?_⟩
    rw [hpassed.rest] at hleft
    exact .join hleft hmem ho hright
  · obtain ⟨rfl, rfl⟩ := pure_eq_ok.1 h
    exact ⟨hd, fun ts hleft ↦ hleft⟩

/-- An operator that steps a variable is found only at its mark. -/
theorem of_stepOp? {t : Option Token} {op : StepOp} (h : stepOp? t = some op) :
    t = some (.mark op.mark) := by
  unfold stepOp? at h
  split at h <;> simp at h <;> subst h <;> rfl

/-- An operand that is read is derived. -/
theorem SoundAt.unary_succ (ih : SoundAt fuel) :
    Follows Symbol.unary (Reader.unary (fuel + 1)) := by
  intro c t d h hd
  rw [Reader.unary, bind_peek] at h
  replace h := run_eq h
  obtain ⟨q, hq, h⟩ := h
  split at hq <;> subst hq
  · rename_i hm
    obtain ⟨o, c₁, hpassed, ho, h⟩ := passed_of_skip (head_eq_some.1 hm) h
    obtain ⟨e, c₂, he, h⟩ := bind_eq_ok.1 h
    obtain ⟨rfl, rfl⟩ := pure_eq_ok.1 h
    obtain ⟨hc₁, he⟩ := ih.unary _ _ _ he hd
    rw [hpassed.rest]
    exact ⟨hpassed.faults_eq_nil hc₁, .not ho he⟩
  · rename_i hm
    obtain ⟨o, c₁, hpassed, ho, h⟩ := passed_of_skip (head_eq_some.1 hm) h
    obtain ⟨e, c₂, he, h⟩ := bind_eq_ok.1 h
    obtain ⟨rfl, rfl⟩ := pure_eq_ok.1 h
    obtain ⟨hc₁, he⟩ := ih.unary _ _ _ he hd
    rw [hpassed.rest]
    exact ⟨hpassed.faults_eq_nil hc₁, .negate ho he⟩
  · replace h := run_eq h
    obtain ⟨q, hq, h⟩ := h
    split at hq <;> subst hq
    · rename_i op hop
      obtain ⟨o, c₁, hpassed, ho, h⟩ := passed_of_skip (head_eq_some.1 (of_stepOp? hop)) h
      obtain ⟨n, c₂, hn, h⟩ := bind_eq_ok.1 h
      obtain ⟨rfl, rfl⟩ := pure_eq_ok.1 h
      obtain ⟨x, hpassed', hx, hspan⟩ := passed_of_expectName hn
      rw [hpassed.rest, hpassed'.rest, ← hspan]
      exact ⟨hpassed.faults_eq_nil (hpassed'.faults_eq_nil hd), .stepBefore ho hx⟩
    · rw [bind_eq_ok] at h
      obtain ⟨e, c₁, he, h⟩ := h
      obtain ⟨hc₁, hsuffixes⟩ := ih.suffixes _ _ _ _ h hd
      obtain ⟨hc, he⟩ := ih.primary _ _ _ he hc₁
      exact ⟨hc, .suffixed (hsuffixes _ (.atom he))⟩

/-- What suffixes add to a call that is derived makes one that is derived. -/
theorem SoundAt.suffixes_succ (ih : SoundAt fuel) (e : Expr) (c : Cursor) (t : Expr) (d : Cursor)
    (h : Reader.suffixes (fuel + 1) e c = .ok t d) (hd : d.faults = []) :
    c.faults = [] ∧
      ∀ ts, Derives .nearest call ts e c.rest → Derives .nearest call ts t d.rest := by
  rw [Reader.suffixes, bind_peek] at h
  replace h := run_eq h
  obtain ⟨q, hq, h⟩ := h
  split at hq <;> subst hq
  · rename_i hm
    obtain ⟨l, c₁, hpassed, hl, h⟩ := passed_of_skip (head_eq_some.1 hm) h
    obtain ⟨as, c₂, has, h⟩ := bind_eq_ok.1 h
    obtain ⟨close, c₃, hclose, h⟩ := bind_eq_ok.1 h
    obtain ⟨r, hpassed', hr, rfl⟩ := passed_of_expect hclose
    obtain ⟨hc₃, hsuffixes⟩ := ih.suffixes _ _ _ _ h hd
    have hc₂ := hpassed'.faults_eq_nil hc₃
    rw [unlessSees, bind_sees, run_ite] at has
    split at has
    · obtain ⟨rfl, rfl⟩ := pure_eq_ok.1 has
      refine ⟨hpassed.faults_eq_nil hc₂, fun ts he ↦ hsuffixes ts ?_⟩
      rw [hpassed.rest, hpassed'.rest] at he
      exact .callNone he hl hr
    · obtain ⟨as, c₄, hread, has⟩ := bind_eq_ok.1 has
      obtain ⟨rfl, rfl⟩ := pure_eq_ok.1 has
      obtain ⟨hc₁, has, hlimit⟩ := ih.arguments _ _ _ _ hread hc₂
      rw [hpassed'.rest] at has
      refine ⟨hpassed.faults_eq_nil hc₁, fun ts he ↦ hsuffixes ts ?_⟩
      rw [hpassed.rest] at he
      exact .callSome he hl has (by simpa using hlimit) hr
  · rename_i hm
    obtain ⟨dot, c₁, hpassed, hdot, h⟩ := passed_of_skip (head_eq_some.1 hm) h
    obtain ⟨n, c₂, hn, h⟩ := bind_eq_ok.1 h
    obtain ⟨x, hpassed', hx, hspan⟩ := passed_of_expectName hn
    obtain ⟨hc₂, hsuffixes⟩ := ih.suffixes _ _ _ _ h hd
    refine ⟨hpassed.faults_eq_nil (hpassed'.faults_eq_nil hc₂), fun ts he ↦ hsuffixes ts ?_⟩
    rw [hpassed.rest, hpassed'.rest] at he
    rw [← hspan]
    exact .property he hdot hx
  · obtain ⟨rfl, rfl⟩ := pure_eq_ok.1 h
    exact ⟨hd, fun ts he ↦ he⟩

/-- Arguments that are read are derived, and they are not too many. -/
theorem SoundAt.arguments_succ (ih : SoundAt fuel) (count : Nat) (c : Cursor) (t : List Expr)
    (d : Cursor) (h : Reader.arguments (fuel + 1) count c = .ok t d) (hd : d.faults = []) :
    c.faults = [] ∧ Derives .nearest args c.rest t d.rest ∧ count + t.length ≤ 255 := by
  rw [Reader.arguments] at h
  obtain ⟨e, c₁, he, h⟩ := bind_eq_ok.1 h
  rw [noteIf_apply, bind_eq_ok] at h
  obtain ⟨more, c₂, hmore, h⟩ := h
  obtain ⟨comma, hpassed, hcomma, rfl⟩ | ⟨-, rfl, rfl⟩ := passed_of_accept hmore
  · have hrest := hpassed.rest
    rw [rest_noteIf] at hrest
    obtain ⟨es, c₃, hes, h⟩ := bind_eq_ok.1 h
    obtain ⟨rfl, rfl⟩ := pure_eq_ok.1 h
    obtain ⟨hc₂, hes, hcount⟩ := ih.arguments _ _ _ _ hes hd
    obtain ⟨hc₁, -⟩ := of_faults_noteIf (hpassed.faults_eq_nil hc₂)
    obtain ⟨hc, he⟩ := ih.expression _ _ _ he hc₁
    rw [hrest] at he
    refine ⟨hc, .argThen he hcomma hes, ?_⟩
    rw [List.length_cons]
    omega
  · obtain ⟨rfl, rfl⟩ := pure_eq_ok.1 h
    obtain ⟨hc₁, hlimit⟩ := of_faults_noteIf hd
    obtain ⟨hc, he⟩ := ih.expression _ _ _ he hc₁
    rw [rest_noteIf]
    exact ⟨hc, .arg he, hlimit⟩

/-- A primary expression that is read is derived. -/
theorem SoundAt.primary_succ (ih : SoundAt fuel) :
    Follows Symbol.primary (Reader.primary (fuel + 1)) := by
  intro c t d h hd
  rw [Reader.primary, bind_peek] at h
  replace h := run_eq h
  obtain ⟨q, hq, h⟩ := h
  split at hq <;> subst hq
  · -- a literal
    rename_i v hv
    rcases hrest : c.rest with - | ⟨x, ts⟩
    · simp [hrest, literal?] at hv
    · rw [bind_skip hrest, pure_eq_ok] at h
      obtain ⟨rfl, rfl⟩ := h
      rw [hrest] at hv
      refine ⟨by simpa using hd, ?_⟩
      rw [rest_advance hrest]
      exact .literal (literal?_eq_some_iff.1 hv)
  · replace h := run_eq h
    obtain ⟨q, hq, h⟩ := h
    split at hq <;> subst hq
    · -- a name, and perhaps an operator after it
      obtain ⟨⟨n, s⟩, c₁, hn, h⟩ := bind_eq_ok.1 h
      obtain ⟨x, hpassed, hx, rfl⟩ := passed_of_expectName hn
      rw [bind_peek] at h
      replace h := run_eq h
      obtain ⟨q, hq, h⟩ := h
      split at hq <;> subst hq
      · rename_i op hop
        obtain ⟨o, c₂, hpassed', ho, h⟩ := passed_of_skip (head_eq_some.1 (of_stepOp? hop)) h
        obtain ⟨rfl, rfl⟩ := pure_eq_ok.1 h
        rw [hpassed.rest, hpassed'.rest]
        exact ⟨hpassed.faults_eq_nil (hpassed'.faults_eq_nil hd), .stepAfter hx ho⟩
      · obtain ⟨rfl, rfl⟩ := pure_eq_ok.1 h
        rw [hpassed.rest]
        exact ⟨hpassed.faults_eq_nil hd, .name hx⟩
    · -- `this`
      rename_i hm
      obtain ⟨w, c₁, hpassed, hw, h⟩ := passed_of_skip (head_eq_some.1 hm) h
      obtain ⟨rfl, rfl⟩ := pure_eq_ok.1 h
      rw [hpassed.rest]
      exact ⟨hpassed.faults_eq_nil hd, .this hw⟩
    · -- `super`
      rename_i hm
      obtain ⟨w, c₁, hpassed, hw, h⟩ := passed_of_skip (head_eq_some.1 hm) h
      obtain ⟨u, c₂, hpoint, h⟩ := bind_eq_ok.1 h
      obtain ⟨dot, hpassed₁, hdot, -⟩ := passed_of_expect hpoint
      obtain ⟨n, c₃, hn, h⟩ := bind_eq_ok.1 h
      obtain ⟨x, hpassed₂, hx, hspan⟩ := passed_of_expectName hn
      obtain ⟨rfl, rfl⟩ := pure_eq_ok.1 h
      rw [hpassed.rest, hpassed₁.rest, hpassed₂.rest, ← hspan]
      refine ⟨?_, .super hw hdot hx⟩
      exact hpassed.faults_eq_nil (hpassed₁.faults_eq_nil (hpassed₂.faults_eq_nil hd))
    · -- an expression in parentheses
      rename_i hm
      obtain ⟨l, c₁, hpassed, hl, h⟩ := passed_of_skip (head_eq_some.1 hm) h
      obtain ⟨e, c₂, he, h⟩ := bind_eq_ok.1 h
      obtain ⟨close, c₃, hclose, h⟩ := bind_eq_ok.1 h
      obtain ⟨rfl, rfl⟩ := pure_eq_ok.1 h
      obtain ⟨hc₁, r, he, hr, rfl⟩ := ih.expression.upTo he hclose hd
      rw [hpassed.rest]
      exact ⟨hpassed.faults_eq_nil hc₁, .group hl he hr⟩
    · -- a function
      rename_i hm
      obtain ⟨w, c₁, hpassed, hw, h⟩ := passed_of_skip (head_eq_some.1 hm) h
      obtain ⟨f, c₂, hf, h⟩ := bind_eq_ok.1 h
      obtain ⟨rfl, rfl⟩ := pure_eq_ok.1 h
      obtain ⟨hc₁, hf⟩ := ih.function _ _ _ _ _ hf hd
      rw [hpassed.rest]
      exact ⟨hpassed.faults_eq_nil hc₁, .lambda hw hf⟩
    · cases h

/-! ### Functions -/

/-- A function that is read is derived. -/
theorem SoundAt.function_succ (ih : SoundAt fuel) (start : Nat) (n : String) :
    Follows (Symbol.function start n) (Reader.function (fuel + 1) start n) := by
  intro c t d h hd
  rw [Reader.function] at h
  obtain ⟨u₁, c₁, hopen, h⟩ := bind_eq_ok.1 h
  obtain ⟨l, hpassed, hl, -⟩ := passed_of_expect hopen
  obtain ⟨ps, c₂, hps, h⟩ := bind_eq_ok.1 h
  obtain ⟨u₂, c₃, hclose, h⟩ := bind_eq_ok.1 h
  obtain ⟨r, hpassed₁, hr, -⟩ := passed_of_expect hclose
  obtain ⟨u₃, c₄, hbrace, h⟩ := bind_eq_ok.1 h
  obtain ⟨b, hpassed₂, hb, -⟩ := passed_of_expect hbrace
  obtain ⟨body, c₅, hread, h⟩ := bind_eq_ok.1 h
  rw [bind_spanFrom] at h
  obtain ⟨rfl, rfl⟩ := pure_eq_ok.1 h
  obtain ⟨hc₄, z, hlast, hz, hbody⟩ := ih.blockBody _ _ _ hread hd
  have hspan : c₅.reached = z.span.stop := by simp [Cursor.reached, hlast]
  have hc₂ := hpassed₁.faults_eq_nil (hpassed₂.faults_eq_nil hc₄)
  rw [hspan, hpassed.rest]
  rw [unlessSees, bind_sees, run_ite] at hps
  split at hps
  · obtain ⟨rfl, rfl⟩ := pure_eq_ok.1 hps
    rw [hpassed₁.rest, hpassed₂.rest]
    exact ⟨hpassed.faults_eq_nil hc₂, .functionNone hl hr hb hbody hz⟩
  · obtain ⟨ps, c₆, hlist, hps⟩ := bind_eq_ok.1 hps
    obtain ⟨rfl, rfl⟩ := pure_eq_ok.1 hps
    obtain ⟨hc₁, hps, hlimit⟩ := ih.parameters _ _ _ _ hlist hc₂
    rw [hpassed₁.rest, hpassed₂.rest] at hps
    refine ⟨hpassed.faults_eq_nil hc₁, ?_⟩
    exact .functionSome hl hps (by simpa using hlimit) hr hb hbody hz

/-- Parameters that are read are derived, and they are not too many. -/
theorem SoundAt.parameters_succ (ih : SoundAt fuel) (count : Nat) (c : Cursor) (t : List Name)
    (d : Cursor) (h : Reader.parameters (fuel + 1) count c = .ok t d) (hd : d.faults = []) :
    c.faults = [] ∧ Derives .nearest params c.rest t d.rest ∧ count + t.length ≤ 255 := by
  rw [Reader.parameters] at h
  obtain ⟨⟨n, s⟩, c₁, hn, h⟩ := bind_eq_ok.1 h
  obtain ⟨x, hpassed, hx, rfl⟩ := passed_of_expectName hn
  rw [noteIf_apply, bind_eq_ok] at h
  obtain ⟨more, c₂, hmore, h⟩ := h
  rw [hpassed.rest]
  obtain ⟨comma, hpassed', hcomma, rfl⟩ | ⟨-, rfl, rfl⟩ := passed_of_accept hmore
  · have hrest := hpassed'.rest
    rw [rest_noteIf] at hrest
    obtain ⟨ps, c₃, hps, h⟩ := bind_eq_ok.1 h
    obtain ⟨rfl, rfl⟩ := pure_eq_ok.1 h
    obtain ⟨hc₂, hps, hcount⟩ := ih.parameters _ _ _ _ hps hd
    obtain ⟨hc₁, -⟩ := of_faults_noteIf (hpassed'.faults_eq_nil hc₂)
    rw [hrest]
    refine ⟨hpassed.faults_eq_nil hc₁, .paramThen hx hcomma hps, ?_⟩
    rw [List.length_cons]
    omega
  · obtain ⟨rfl, rfl⟩ := pure_eq_ok.1 h
    obtain ⟨hc₁, hlimit⟩ := of_faults_noteIf hd
    rw [rest_noteIf]
    exact ⟨hpassed.faults_eq_nil hc₁, .param hx, hlimit⟩

/-- A statement that had to be given up has been noted. -/
theorem of_recovering {α : Type} {p : Reader α} {c d : Cursor} {o : Option α}
    (h : recovering p c = .ok o d) (hd : d.faults = []) :
    ∃ a, o = some a ∧ p c = .ok a d := by
  unfold recovering at h
  split at h
  · obtain ⟨rfl, rfl⟩ := Outcome.ok.inj h
    exact ⟨_, rfl, ‹_›⟩
  · obtain ⟨-, rfl⟩ := Outcome.ok.inj h
    rw [faults_recover] at hd
    simp at hd
  · cases h
  · cases h

/-- The declarations of a block are derived up to the brace that closes it. -/
theorem SoundAt.blockBody_succ (ih : SoundAt fuel) (c : Cursor) (t : List Stmt) (d : Cursor)
    (h : Reader.blockBody (fuel + 1) c = .ok t d) (hd : d.faults = []) :
    c.faults = [] ∧ ∃ z, d.last = some z ∧ z.token = .mark .rightBrace ∧
      Derives .nearest decls c.rest t (z :: d.rest) := by
  rw [Reader.blockBody, bind_sees, bind_atEnd, run_ite] at h
  split at h
  · obtain ⟨u, c₁, hclose, h⟩ := bind_eq_ok.1 h
    obtain ⟨z, hpassed, hz, -⟩ := passed_of_expect hclose
    obtain ⟨rfl, rfl⟩ := pure_eq_ok.1 h
    refine ⟨hpassed.faults_eq_nil hd, z, hpassed.last, hz, ?_⟩
    rw [hpassed.rest]
    exact .declsNil
  · obtain ⟨first, c₁, hfirst, h⟩ := bind_eq_ok.1 h
    obtain ⟨others, c₂, hothers, h⟩ := bind_eq_ok.1 h
    obtain ⟨rfl, rfl⟩ := pure_eq_ok.1 h
    obtain ⟨hc₁, z, hlast, hz, hothers⟩ := ih.blockBody _ _ _ hothers hd
    obtain ⟨stmt, rfl, hread⟩ := of_recovering hfirst hc₁
    obtain ⟨hc, hfirst⟩ := ih.declaration _ _ _ hread hc₁
    exact ⟨hc, z, hlast, hz, .declsCons hfirst hothers⟩

/-! ### Declarations -/

/-- Methods that are read are derived. -/
theorem SoundAt.methods_succ (ih : SoundAt fuel) :
    Follows Symbol.methods (Reader.methods (fuel + 1)) := by
  intro c t d h hd
  rw [Reader.methods, bind_sees, bind_atEnd, run_ite] at h
  split at h
  · obtain ⟨rfl, rfl⟩ := pure_eq_ok.1 h
    exact ⟨hd, .methodsNil⟩
  · obtain ⟨⟨n, s⟩, c₁, hn, h⟩ := bind_eq_ok.1 h
    obtain ⟨x, hpassed, hx, rfl⟩ := passed_of_expectName hn
    obtain ⟨f, c₂, hfirst, h⟩ := bind_eq_ok.1 h
    obtain ⟨fs, c₃, hothers, h⟩ := bind_eq_ok.1 h
    obtain ⟨rfl, rfl⟩ := pure_eq_ok.1 h
    obtain ⟨hc₂, hfs⟩ := ih.methods _ _ _ hothers hd
    obtain ⟨hc₁, hf⟩ := ih.function _ _ _ _ _ hfirst hc₂
    rw [hpassed.rest]
    exact ⟨hpassed.faults_eq_nil hc₁, .methodsCons hx hf hfs⟩

/-- A class that is read is derived. -/
theorem SoundAt.classDecl_succ (ih : SoundAt fuel) (w : Lexeme) (ts : List Lexeme) (c : Cursor)
    (t : Stmt) (d : Cursor) (hrest : c.rest = w :: ts) (hw : w.token = .mark .classWord)
    (h : Reader.classDecl (fuel + 1) c = .ok t d) (hd : d.faults = []) :
    c.faults = [] ∧ Derives .nearest decl c.rest t d.rest := by
  rw [Reader.classDecl] at h
  obtain ⟨w, c₁, hpassed, hw, h⟩ := passed_of_skip ⟨w, ts, hrest, hw⟩ h
  obtain ⟨⟨n, s⟩, c₂, hn, h⟩ := bind_eq_ok.1 h
  obtain ⟨x, hpassed₁, hx, rfl⟩ := passed_of_expectName hn
  obtain ⟨inherits, c₃, haccept, h⟩ := bind_eq_ok.1 h
  rw [hpassed.rest, hpassed₁.rest]
  suffices hdecl : c₂.faults = [] ∧ Derives .nearest decl (w :: x :: c₂.rest) t d.rest from
    ⟨hpassed.faults_eq_nil (hpassed₁.faults_eq_nil hdecl.1), hdecl.2⟩
  obtain ⟨less, hpassed₂, hless, rfl⟩ | ⟨-, rfl, rfl⟩ := passed_of_accept haccept
  · rw [if_pos rfl] at h
    obtain ⟨parent, c₄, hparent, h⟩ := bind_eq_ok.1 h
    obtain ⟨⟨m, s⟩, hm, rfl⟩ := map_eq_ok.1 hparent
    obtain ⟨y, hpassed₃, hy, rfl⟩ := passed_of_expectName hm
    obtain ⟨u₁, c₅, hopen, h⟩ := bind_eq_ok.1 h
    obtain ⟨ms, c₆, hmethods, h⟩ := bind_eq_ok.1 h
    obtain ⟨close, c₇, hclose, h⟩ := bind_eq_ok.1 h
    obtain ⟨rfl, rfl⟩ := pure_eq_ok.1 h
    obtain ⟨hc₄, b, us, z, hus, hb, hms, hz, rfl⟩ := ih.methods.between hopen hmethods hclose hd
    rw [hpassed₂.rest, hpassed₃.rest, hus]
    refine ⟨hpassed₂.faults_eq_nil (hpassed₃.faults_eq_nil hc₄), ?_⟩
    exact .classInheriting hw hx hless hy hb hms hz
  · rw [if_neg Bool.false_ne_true, Reader.bind_pure, bind_eq_ok] at h
    obtain ⟨u₁, c₄, hopen, h⟩ := h
    obtain ⟨ms, c₅, hmethods, h⟩ := bind_eq_ok.1 h
    obtain ⟨close, c₆, hclose, h⟩ := bind_eq_ok.1 h
    obtain ⟨rfl, rfl⟩ := pure_eq_ok.1 h
    obtain ⟨hc₃, b, us, z, hus, hb, hms, hz, rfl⟩ := ih.methods.between hopen hmethods hclose hd
    rw [hus]
    exact ⟨hc₃, .classPlain hw hx hb hms hz⟩

/-- The declaration of a variable that is read is derived. -/
theorem SoundAt.varDecl_succ (ih : SoundAt fuel) (w : Lexeme) (ts : List Lexeme) (c : Cursor)
    (t : Stmt) (d : Cursor) (hrest : c.rest = w :: ts) (hw : w.token = .mark .varWord)
    (h : Reader.varDecl (fuel + 1) c = .ok t d) (hd : d.faults = []) :
    c.faults = [] ∧ Derives .nearest Symbol.varDecl c.rest t d.rest := by
  rw [Reader.varDecl] at h
  obtain ⟨w, c₁, hpassed, hw, h⟩ := passed_of_skip ⟨w, ts, hrest, hw⟩ h
  obtain ⟨⟨n, s⟩, c₂, hn, h⟩ := bind_eq_ok.1 h
  obtain ⟨x, hpassed₁, hx, rfl⟩ := passed_of_expectName hn
  obtain ⟨hasValue, c₃, haccept, h⟩ := bind_eq_ok.1 h
  rw [hpassed.rest, hpassed₁.rest]
  suffices hdecl : c₂.faults = [] ∧
      Derives .nearest Symbol.varDecl (w :: x :: c₂.rest) t d.rest from
    ⟨hpassed.faults_eq_nil (hpassed₁.faults_eq_nil hdecl.1), hdecl.2⟩
  obtain ⟨eq, hpassed₂, heq, rfl⟩ | ⟨-, rfl, rfl⟩ := passed_of_accept haccept
  · rw [if_pos rfl] at h
    obtain ⟨value, c₄, hvalue, h⟩ := bind_eq_ok.1 h
    obtain ⟨v, hread, rfl⟩ := map_eq_ok.1 hvalue
    obtain ⟨close, c₅, hclose, h⟩ := bind_eq_ok.1 h
    obtain ⟨rfl, rfl⟩ := pure_eq_ok.1 h
    obtain ⟨hc₃, s, hv, hs, rfl⟩ := ih.expression.upTo hread hclose hd
    rw [hpassed₂.rest]
    exact ⟨hpassed₂.faults_eq_nil hc₃, .varSome hw hx heq hv hs⟩
  · rw [if_neg Bool.false_ne_true, Reader.bind_pure, bind_eq_ok] at h
    obtain ⟨close, c₄, hclose, h⟩ := h
    obtain ⟨s, hpassed₂, hs, rfl⟩ := passed_of_expect hclose
    obtain ⟨rfl, rfl⟩ := pure_eq_ok.1 h
    rw [hpassed₂.rest]
    exact ⟨hpassed₂.faults_eq_nil hd, .varNone hw hx hs⟩

/-- An expression statement is an expression that is derived, and a semicolon. -/
theorem SoundAt.expressionStmt_succ (ih : SoundAt fuel) (c : Cursor) (t : Stmt) (d : Cursor)
    (h : Reader.expressionStmt (fuel + 1) c = .ok t d) (hd : d.faults = []) :
    c.faults = [] ∧ ∃ v s us, Derives .nearest expr c.rest v (s :: us) ∧
      s.token = .mark .semicolon ∧ t = .expression (v.span.through s.span) v ∧ d.rest = us := by
  rw [Reader.expressionStmt] at h
  obtain ⟨v, c₁, hread, h⟩ := bind_eq_ok.1 h
  obtain ⟨close, c₂, hclose, h⟩ := bind_eq_ok.1 h
  obtain ⟨rfl, rfl⟩ := pure_eq_ok.1 h
  obtain ⟨hc, s, hv, hs, rfl⟩ := ih.expression.upTo hread hclose hd
  exact ⟨hc, v, s, c₂.rest, hv, hs, rfl, rfl⟩

/-- A declaration that is read is derived. -/
theorem SoundAt.declaration_succ (ih : SoundAt fuel) :
    Follows Symbol.decl (Reader.declaration (fuel + 1)) := by
  intro c t d h hd
  have stmtCase (h : Reader.statement fuel c = .ok t d) :
      c.faults = [] ∧ Derives .nearest Symbol.decl c.rest t d.rest := by
    obtain ⟨hc, ht, -⟩ := ih.statement _ _ _ h hd
    exact ⟨hc, .declStmt ht⟩
  rw [Reader.declaration, bind_peek] at h
  replace h := run_eq h
  obtain ⟨q, hq, h⟩ := h
  split at hq <;> subst hq
  · rename_i hm
    obtain ⟨w, ts, hrest, hw⟩ := head_eq_some.1 hm
    exact ih.classDecl w ts c t d hrest hw h hd
  · rename_i hm
    rw [bind_peekSecond, run_ite] at h
    split at h
    · obtain ⟨w, c₁, hpassed, hw, h⟩ := passed_of_skip (head_eq_some.1 hm) h
      obtain ⟨⟨n, s⟩, c₂, hn, h⟩ := bind_eq_ok.1 h
      obtain ⟨x, hpassed', hx, rfl⟩ := passed_of_expectName hn
      obtain ⟨f, c₃, hread, h⟩ := bind_eq_ok.1 h
      obtain ⟨rfl, rfl⟩ := pure_eq_ok.1 h
      obtain ⟨hc₂, hf⟩ := ih.function _ _ _ _ _ hread hd
      rw [hpassed.rest, hpassed'.rest]
      exact ⟨hpassed.faults_eq_nil (hpassed'.faults_eq_nil hc₂), .funDecl hw hx hf⟩
    · exact stmtCase h
  · rename_i hm
    obtain ⟨w, ts, hrest, hw⟩ := head_eq_some.1 hm
    obtain ⟨hc, ht⟩ := ih.varDecl w ts c t d hrest hw h hd
    exact ⟨hc, .declVar ht⟩
  · exact stmtCase h

/-! ### Statements -/

/-- An expression that may be missing is missing exactly if the token after it is ahead. -/
theorem SoundAt.optExpr (ih : SoundAt fuel) (m : Mark) :
    Follows Symbol.optExpr (unlessSees m (Reader.expression fuel)) := by
  intro c t d h hd
  rw [unlessSees, bind_sees, run_ite] at h
  split at h
  · obtain ⟨rfl, rfl⟩ := pure_eq_ok.1 h
    exact ⟨hd, .optNone⟩
  · obtain ⟨e, c₁, hread, h⟩ := bind_eq_ok.1 h
    obtain ⟨rfl, rfl⟩ := pure_eq_ok.1 h
    obtain ⟨hc, he⟩ := ih.expression _ _ _ hread hd
    exact ⟨hc, .optSome he⟩

/-- The three forms of the first clause of a `for` loop are followed by the same. -/
theorem SoundAt.clauses (ih : SoundAt fuel) {w l : Lexeme} {init : Option Stmt} {t : Stmt}
    {c c₁ d : Cursor} (hw : w.token = .mark .forWord) (hl : l.token = .mark .leftParen)
    (hinit : c₁.faults = [] → c.faults = [] ∧ Derives .nearest Symbol.init c.rest init c₁.rest)
    (h : (do
      let condition ← unlessSees .semicolon (Reader.expression fuel)
      let _ ← expect .semicolon
      let step ← unlessSees .rightParen (Reader.expression fuel)
      let _ ← expect .rightParen
      let body ← Reader.statement fuel
      return .forLoop (w.span.through body.span) init condition step body : Reader Stmt) c₁ =
        .ok t d) (hd : d.faults = []) :
    c.faults = [] ∧ Derives .nearest stmt (w :: l :: c.rest) t d.rest ∧
      (t.leavesIfOpen → ¬ ElseAhead d) := by
  obtain ⟨condition, c₂, hcondition, h⟩ := bind_eq_ok.1 h
  obtain ⟨u₁, c₃, hsemicolon, h⟩ := bind_eq_ok.1 h
  obtain ⟨step, c₄, hstep, h⟩ := bind_eq_ok.1 h
  obtain ⟨u₂, c₅, hclose, h⟩ := bind_eq_ok.1 h
  obtain ⟨body, c₆, hbody, h⟩ := bind_eq_ok.1 h
  obtain ⟨rfl, rfl⟩ := pure_eq_ok.1 h
  obtain ⟨hc₅, hbody, hnear⟩ := ih.statement _ _ _ hbody hd
  obtain ⟨hc₃, r, hstep, hr, -⟩ := (ih.optExpr _).upTo hstep hclose hc₅
  obtain ⟨hc₁, s, hcondition, hs, -⟩ := (ih.optExpr _).upTo hcondition hsemicolon hc₃
  obtain ⟨hc, hi⟩ := hinit hc₁
  exact ⟨hc, .forLoop hw hl hi hcondition hs hstep hr hbody, hnear⟩

/-- A loop with clauses that is read is derived, and it takes an `else` that follows if it can. -/
theorem SoundAt.forLoop_succ (ih : SoundAt fuel) (w : Lexeme) (ts : List Lexeme) (c : Cursor)
    (t : Stmt) (d : Cursor) (hrest : c.rest = w :: ts) (hw : w.token = .mark .forWord)
    (h : Reader.forLoop (fuel + 1) c = .ok t d) (hd : d.faults = []) :
    c.faults = [] ∧ Derives .nearest stmt c.rest t d.rest ∧
      (t.leavesIfOpen → ¬ ElseAhead d) := by
  rw [Reader.forLoop] at h
  obtain ⟨w, c₁, hpassed, hw, h⟩ := passed_of_skip ⟨w, ts, hrest, hw⟩ h
  obtain ⟨u₁, c₂, hopen, h⟩ := bind_eq_ok.1 h
  obtain ⟨l, hpassed₁, hl, -⟩ := passed_of_expect hopen
  rw [hpassed.rest, hpassed₁.rest]
  suffices hloop : c₂.faults = [] ∧ Derives .nearest stmt (w :: l :: c₂.rest) t d.rest ∧
      (t.leavesIfOpen → ¬ ElseAhead d) from
    ⟨hpassed.faults_eq_nil (hpassed₁.faults_eq_nil hloop.1), hloop.2⟩
  rw [bind_peek] at h
  replace h := run_eq h
  obtain ⟨q, hq, h⟩ := h
  split at hq <;> subst hq
  · rename_i hm
    obtain ⟨s, c₃, hpassed₂, hs, h⟩ := passed_of_skip (head_eq_some.1 hm) h
    rw [Reader.bind_pure] at h
    refine ih.clauses hw hl (fun hc₃ ↦ ⟨hpassed₂.faults_eq_nil hc₃, ?_⟩) h hd
    rw [hpassed₂.rest]
    exact .initNone hs
  · rename_i hm
    obtain ⟨v, us, hus, hv⟩ := head_eq_some.1 hm
    obtain ⟨i, c₃, hinit, h⟩ := bind_eq_ok.1 h
    obtain ⟨decl, hread, rfl⟩ := map_eq_ok.1 hinit
    refine ih.clauses hw hl (fun hc₃ ↦ ?_) h hd
    obtain ⟨hc₂, hdecl⟩ := ih.varDecl v us _ _ _ hus hv hread hc₃
    exact ⟨hc₂, .initVar hdecl⟩
  · obtain ⟨i, c₃, hinit, h⟩ := bind_eq_ok.1 h
    obtain ⟨value, hread, rfl⟩ := map_eq_ok.1 hinit
    refine ih.clauses hw hl (fun hc₃ ↦ ?_) h hd
    obtain ⟨hc₂, v, s, us, hv, hs, rfl, rfl⟩ := ih.expressionStmt _ _ _ hread hc₃
    exact ⟨hc₂, .initExpr hv hs⟩

/-- After the first branch of an `if`: an `else` is passed together with its branch, or there is
none. -/
theorem SoundAt.elseBranch (ih : SoundAt fuel) {c c₁ d : Cursor} {hasElse : Bool} {t : Stmt}
    {next : Option Stmt → Reader Stmt} (haccept : accept .elseWord c = .ok hasElse c₁)
    (h : (if hasElse then some <$> Reader.statement fuel >>= next else pure none >>= next) c₁ =
      .ok t d) :
    ∃ no c₂, next no c₂ = .ok t d ∧ (c₂.faults = [] → c.faults = [] ∧
      ((no = none ∧ c = c₂ ∧ ¬ ElseAhead c₂) ∨
        ∃ e ws other, no = some other ∧ c.rest = e :: ws ∧ e.token = .mark .elseWord ∧
          Derives .nearest stmt ws other c₂.rest ∧ (other.leavesIfOpen → ¬ ElseAhead c₂))) := by
  obtain ⟨e, hpassed, he, rfl⟩ | ⟨hnone, rfl, rfl⟩ := passed_of_accept haccept
  · rw [if_pos rfl] at h
    obtain ⟨no, c₂, hno, h⟩ := bind_eq_ok.1 h
    obtain ⟨other, hread, rfl⟩ := map_eq_ok.1 hno
    refine ⟨_, c₂, h, fun hc₂ ↦ ?_⟩
    obtain ⟨hc₁, hother, hopen⟩ := ih.statement _ _ _ hread hc₂
    exact ⟨hpassed.faults_eq_nil hc₁, .inr ⟨e, _, other, rfl, hpassed.rest, he, hother, hopen⟩⟩
  · rw [if_neg Bool.false_ne_true, Reader.bind_pure] at h
    exact ⟨none, c, h, fun hc ↦ ⟨hc, .inl ⟨rfl, rfl, hnone⟩⟩⟩

/-- A statement that is read is derived, and it takes an `else` that follows if it can. -/
theorem SoundAt.statement_succ (ih : SoundAt fuel) :
    FollowsStmt (Reader.statement (fuel + 1)) := by
  intro c t d h hd
  rw [Reader.statement, bind_peek] at h
  replace h := run_eq h
  obtain ⟨q, hq, h⟩ := h
  split at hq <;> subst hq
  · rename_i hm
    obtain ⟨w, ts, hrest, hw⟩ := head_eq_some.1 hm
    exact ih.forLoop w ts c t d hrest hw h hd
  · -- `if`
    rename_i hm
    obtain ⟨w, c₁, hpassed, hw, h⟩ := passed_of_skip (head_eq_some.1 hm) h
    obtain ⟨u₁, c₂, hopen, h⟩ := bind_eq_ok.1 h
    obtain ⟨condition, c₃, hcondition, h⟩ := bind_eq_ok.1 h
    obtain ⟨u₂, c₄, hclose, h⟩ := bind_eq_ok.1 h
    obtain ⟨yes, c₅, hyes, h⟩ := bind_eq_ok.1 h
    obtain ⟨hasElse, c₆, haccept, h⟩ := bind_eq_ok.1 h
    obtain ⟨no, c₇, h, hbranch⟩ := ih.elseBranch haccept h
    obtain ⟨rfl, rfl⟩ := pure_eq_ok.1 h
    obtain ⟨hc₅, hbranch⟩ := hbranch hd
    obtain ⟨hc₄, hyes, hnear⟩ := ih.statement _ _ _ hyes hc₅
    obtain ⟨hc₁, l, us, r, hus, hl, hcondition, hr, -⟩ :=
      ih.expression.between hopen hcondition hclose hc₄
    rw [hpassed.rest, hus]
    refine ⟨hpassed.faults_eq_nil hc₁, ?_⟩
    rcases hbranch with ⟨rfl, rfl, hnone⟩ | ⟨e, us', other, rfl, hws, he, hother, hopen⟩
    · exact ⟨.ifOnly hw hl hcondition hr hyes, fun _ ↦ hnone⟩
    · -- an open `if` in the first branch would have taken this `else` itself
      have hclosed : yes.leavesIfOpen = false :=
        Bool.eq_false_iff.2 fun hopen ↦ hnear hopen ⟨e, us', hws, he⟩
      rw [hws] at hyes
      exact ⟨.ifElse hw hl hcondition hr hyes he (fun _ ↦ hclosed) hother, hopen⟩
  · -- a block
    rename_i hm
    obtain ⟨b, c₁, hpassed, hb, h⟩ := passed_of_skip (head_eq_some.1 hm) h
    obtain ⟨body, c₂, hread, h⟩ := bind_eq_ok.1 h
    rw [bind_spanFrom] at h
    obtain ⟨rfl, rfl⟩ := pure_eq_ok.1 h
    obtain ⟨hc₁, z, hlast, hz, hbody⟩ := ih.blockBody _ _ _ hread hd
    have hspan : c₂.reached = z.span.stop := by simp [Cursor.reached, hlast]
    refine ⟨hpassed.faults_eq_nil hc₁, ?_, by simp [Stmt.leavesIfOpen]⟩
    rw [hpassed.rest, hspan]
    exact .block hb hbody hz
  · -- `print`
    rename_i hm
    obtain ⟨w, c₁, hpassed, hw, h⟩ := passed_of_skip (head_eq_some.1 hm) h
    obtain ⟨v, c₂, hread, h⟩ := bind_eq_ok.1 h
    obtain ⟨close, c₃, hclose, h⟩ := bind_eq_ok.1 h
    obtain ⟨rfl, rfl⟩ := pure_eq_ok.1 h
    obtain ⟨hc₁, s, hv, hs, rfl⟩ := ih.expression.upTo hread hclose hd
    refine ⟨hpassed.faults_eq_nil hc₁, ?_, by simp [Stmt.leavesIfOpen]⟩
    rw [hpassed.rest]
    exact .print hw hv hs
  · -- `return`
    rename_i hm
    obtain ⟨w, c₁, hpassed, hw, h⟩ := passed_of_skip (head_eq_some.1 hm) h
    obtain ⟨v, c₂, hread, h⟩ := bind_eq_ok.1 h
    obtain ⟨close, c₃, hclose, h⟩ := bind_eq_ok.1 h
    obtain ⟨rfl, rfl⟩ := pure_eq_ok.1 h
    obtain ⟨hc₁, s, hv, hs, rfl⟩ := (ih.optExpr _).upTo hread hclose hd
    refine ⟨hpassed.faults_eq_nil hc₁, ?_, by simp [Stmt.leavesIfOpen]⟩
    rw [hpassed.rest]
    exact .returns hw hv hs
  · -- `while`
    rename_i hm
    obtain ⟨w, c₁, hpassed, hw, h⟩ := passed_of_skip (head_eq_some.1 hm) h
    obtain ⟨u₁, c₂, hopen, h⟩ := bind_eq_ok.1 h
    obtain ⟨condition, c₃, hcondition, h⟩ := bind_eq_ok.1 h
    obtain ⟨u₂, c₄, hclose, h⟩ := bind_eq_ok.1 h
    obtain ⟨body, c₅, hbody, h⟩ := bind_eq_ok.1 h
    obtain ⟨rfl, rfl⟩ := pure_eq_ok.1 h
    obtain ⟨hc₄, hbody, hnear⟩ := ih.statement _ _ _ hbody hd
    obtain ⟨hc₁, l, us, r, hus, hl, hcondition, hr, -⟩ :=
      ih.expression.between hopen hcondition hclose hc₄
    refine ⟨hpassed.faults_eq_nil hc₁, ?_, hnear⟩
    rw [hpassed.rest, hus]
    exact .whileLoop hw hl hcondition hr hbody
  · -- an expression
    obtain ⟨hc, v, s, us, hv, hs, rfl, hus⟩ := ih.expressionStmt _ _ _ h hd
    refine ⟨hc, ?_, by simp [Stmt.leavesIfOpen]⟩
    rw [hus]
    exact .exprStmt hv hs

/-! ### All readers -/

theorem soundAt_zero : SoundAt 0 where
  expression _ _ _ h := nomatch h
  binary levels _ _ _ h := by
    rw [Reader.binary] at h
    cases h
  chain _ _ _ _ _ _ h := nomatch h
  unary _ _ _ h := nomatch h
  suffixes _ _ _ _ h := nomatch h
  arguments _ _ _ _ h := nomatch h
  primary _ _ _ h := nomatch h
  function _ _ _ _ _ h := nomatch h
  parameters _ _ _ _ h := nomatch h
  blockBody _ _ _ h := nomatch h
  declaration _ _ _ h := nomatch h
  classDecl _ _ _ _ _ _ _ h := nomatch h
  methods _ _ _ h := nomatch h
  varDecl _ _ _ _ _ _ _ h := nomatch h
  expressionStmt _ _ _ h := nomatch h
  statement _ _ _ h := nomatch h
  forLoop _ _ _ _ _ _ _ h := nomatch h

/-- What any reader gives without a fault is derived, with whatever fuel. -/
theorem soundAt (fuel : Nat) : SoundAt fuel := by
  induction fuel with
  | zero => exact soundAt_zero
  | succ fuel ih =>
    exact {
      expression := ih.expression_succ
      binary := ih.binary_succ
      chain := ih.chain_succ
      unary := ih.unary_succ
      suffixes := ih.suffixes_succ
      arguments := ih.arguments_succ
      primary := ih.primary_succ
      function := ih.function_succ
      parameters := ih.parameters_succ
      blockBody := ih.blockBody_succ
      declaration := ih.declaration_succ
      classDecl := ih.classDecl_succ
      methods := ih.methods_succ
      varDecl := ih.varDecl_succ
      expressionStmt := ih.expressionStmt_succ
      statement := ih.statement_succ
      forLoop := ih.forLoop_succ }

/-- All declarations up to the end of the text are derived, if no fault is noted. -/
theorem follows_program (depth fuel : Nat) (c : Cursor) (t : Program) (d : Cursor)
    (h : Reader.program depth fuel c = .ok t d) (hd : d.faults = []) :
    c.faults = [] ∧ Derives .nearest decls c.rest t [] := by
  induction fuel generalizing c t with
  | zero => cases h
  | succ fuel ih =>
    rw [Reader.program, bind_atEnd, run_ite] at h
    split at h
    · rename_i hend
      obtain ⟨rfl, rfl⟩ := pure_eq_ok.1 h
      rw [List.isEmpty_iff.1 hend]
      exact ⟨hd, .declsNil⟩
    · obtain ⟨first, c₁, hfirst, h⟩ := bind_eq_ok.1 h
      obtain ⟨others, c₂, hothers, h⟩ := bind_eq_ok.1 h
      obtain ⟨rfl, rfl⟩ := pure_eq_ok.1 h
      obtain ⟨hc₁, hothers⟩ := ih _ _ hothers
      obtain ⟨stmt, rfl, hread⟩ := of_recovering hfirst hc₁
      obtain ⟨hc, hstmt⟩ := (soundAt depth).declaration _ _ _ hread hc₁
      exact ⟨hc, .declsCons hstmt hothers⟩

/-- A program that is read is derived from its tokens. -/
theorem isProgram_of_ofLexemes {ts : List Lexeme} {stop : Nat} {p : Program}
    (h : Program.ofLexemes ts stop = .ok p) : IsProgram .nearest ts p := by
  unfold Program.ofLexemes at h
  simp only at h
  split at h
  · rename_i q c hread
    split at h
    · rename_i hempty
      obtain rfl := Except.ok.inj h
      exact (follows_program _ _ _ _ _ hread (List.isEmpty_iff.1 hempty)).2
    · cases h
  · cases h
  · cases h
  · cases h

end Grammar

end LoxLang
