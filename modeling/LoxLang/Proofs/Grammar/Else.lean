import LoxLang.Proofs.Grammar.Completeness

/-!
# Every program has the reading with the nearest `if`

If the declarations derive a list with some choice of the `if` that each `else` belongs to, then
they also derive it with every `else` at the nearest open `if`: an `else` that was given to an outer
`if` is attached to the statement before it (`Derives.attach`), and the outer `if` is left without
one. So the rule for `else` selects among the trees of a program, and does not reject any program.
-/

namespace LoxLang

namespace Grammar

open Grammar.Symbol

/-- Whether the symbol is a statement and its tree ends in an `if` without an `else`. -/
def Symbol.leavesIfOpen : (s : Symbol) → s.Tree → Bool
  | stmt, t => t.leavesIfOpen
  | _, _ => false

/-- An `else` after a statement that leaves an `if` open can be given to this `if`. -/
theorem Derives.attach {s : Symbol} {ts us vs ws : List Lexeme} {t : s.Tree} {e : Lexeme}
    {no : Stmt} (h : Derives .nearest s ts t us) (hopen : s.leavesIfOpen t = true)
    (hus : us = e :: vs) (he : e.token = .mark .elseWord) (hno : Derives .nearest stmt vs no ws) :
    ∃ t', Derives .nearest stmt ts t' ws := by
  induction h with
  | @ifOnly _ _ _ _ yes _ _ _ hw hl hc hr hyes _ ih =>
    subst hus
    cases hyesOpen : yes.leavesIfOpen with
    | true =>
      obtain ⟨yes', hyes'⟩ := ih hyesOpen rfl
      exact ⟨_, .ifOnly hw hl hc hr hyes'⟩
    | false => exact ⟨_, .ifElse hw hl hc hr hyes he (fun _ ↦ hyesOpen) hno⟩
  | ifElse hw hl hc hr hyes he' hnear _ _ _ ih =>
    obtain ⟨no', hno'⟩ := ih hopen hus
    exact ⟨_, .ifElse hw hl hc hr hyes he' hnear hno'⟩
  | whileLoop hw hl hc hr _ _ ih =>
    obtain ⟨body', hbody'⟩ := ih hopen hus
    exact ⟨_, .whileLoop hw hl hc hr hbody'⟩
  | forLoop hw hl hi hc hs hu hr _ _ _ _ ih =>
    obtain ⟨body', hbody'⟩ := ih hopen hus
    exact ⟨_, .forLoop hw hl hi hc hs hu hr hbody'⟩
  | _ => cases hopen

/-- Every derivation with each `else` at the nearest `if` is a derivation. -/
theorem Derives.free {s : Symbol} {ts us : List Lexeme} {t : s.Tree}
    (h : Derives .nearest s ts t us) : Derives .free s ts t us := by
  induction h with
  | ifElse hw hl _ hr _ he _ _ ihc ihyes ihno => exact .ifElse hw hl ihc hr ihyes he nofun ihno
  | declStmt _ ihd => exact .declStmt ihd
  | initExpr _ hs ihv => exact .initExpr ihv hs
  | _ => constructor <;> assumption

/-- How many arguments or parameters a tree of the symbol lists. -/
def Symbol.width : (s : Symbol) → s.Tree → Nat
  | args, t | params, t => t.length
  | _, _ => 0

/-- A derivation with any choice of the `if`s has a counterpart over the same tokens, with lists of
the same length, in which every `else` is at the nearest `if`. -/
theorem Derives.nearest {s : Symbol} {ts us : List Lexeme} {t : s.Tree}
    (h : Derives .free s ts t us) :
    ∃ t', Derives .nearest s ts t' us ∧ s.width t' = s.width t := by
  induction h with
  | assign hx heq _ ihv =>
    obtain ⟨v, hv, -⟩ := ihv
    exact ⟨_, .assign hx heq hv, rfl⟩
  | setProperty _ hdot hx heq _ ihe ihv =>
    obtain ⟨e, he, -⟩ := ihe
    obtain ⟨v, hv, -⟩ := ihv
    exact ⟨_, .setProperty he hdot hx heq hv, rfl⟩
  | operators _ ihe =>
    obtain ⟨e, he, -⟩ := ihe
    exact ⟨e, .operators he, rfl⟩
  | join _ hop ho _ ihl ihr =>
    obtain ⟨l, hl, -⟩ := ihl
    obtain ⟨r, hr, -⟩ := ihr
    exact ⟨_, .join hl hop ho hr, rfl⟩
  | tighter _ ihe =>
    obtain ⟨e, he, -⟩ := ihe
    exact ⟨e, .tighter he, rfl⟩
  | operand _ ihe =>
    obtain ⟨e, he, -⟩ := ihe
    exact ⟨e, .operand he, rfl⟩
  | not ho _ ihe =>
    obtain ⟨e, he, -⟩ := ihe
    exact ⟨_, .not ho he, rfl⟩
  | negate ho _ ihe =>
    obtain ⟨e, he, -⟩ := ihe
    exact ⟨_, .negate ho he, rfl⟩
  | stepBefore ho hx => exact ⟨_, .stepBefore ho hx, rfl⟩
  | suffixed _ ihe =>
    obtain ⟨e, he, -⟩ := ihe
    exact ⟨e, .suffixed he, rfl⟩
  | callNone _ hl hr ihe =>
    obtain ⟨e, he, -⟩ := ihe
    exact ⟨_, .callNone he hl hr, rfl⟩
  | callSome _ hl _ hlimit hr ihe ihas =>
    obtain ⟨e, he, -⟩ := ihe
    obtain ⟨as, has, hlength⟩ := ihas
    exact ⟨_, .callSome he hl has (Nat.le_trans (Nat.le_of_eq hlength) hlimit) hr, rfl⟩
  | property _ hdot hx ihe =>
    obtain ⟨e, he, -⟩ := ihe
    exact ⟨_, .property he hdot hx, rfl⟩
  | atom _ ihe =>
    obtain ⟨e, he, -⟩ := ihe
    exact ⟨e, .atom he, rfl⟩
  | arg _ ihe =>
    obtain ⟨e, he, -⟩ := ihe
    exact ⟨_, .arg he, rfl⟩
  | argThen _ hcomma _ ihe ihes =>
    obtain ⟨e, he, -⟩ := ihe
    obtain ⟨es, hes, hlength⟩ := ihes
    exact ⟨_, .argThen he hcomma hes, congrArg (· + 1) hlength⟩
  | literal hx => exact ⟨_, .literal hx, rfl⟩
  | name hx => exact ⟨_, .name hx, rfl⟩
  | stepAfter hx ho => exact ⟨_, .stepAfter hx ho, rfl⟩
  | this hw => exact ⟨_, .this hw, rfl⟩
  | super hw hdot hx => exact ⟨_, .super hw hdot hx, rfl⟩
  | group hl _ hr ihe =>
    obtain ⟨e, he, -⟩ := ihe
    exact ⟨_, .group hl he hr, rfl⟩
  | lambda hw _ ihf =>
    obtain ⟨f, hf, -⟩ := ihf
    exact ⟨_, .lambda hw hf, rfl⟩
  | optNone => exact ⟨_, .optNone, rfl⟩
  | optSome _ ihe =>
    obtain ⟨e, he, -⟩ := ihe
    exact ⟨_, .optSome he, rfl⟩
  | functionNone hl hr hb _ hz ihbody =>
    obtain ⟨body, hbody, -⟩ := ihbody
    exact ⟨_, .functionNone hl hr hb hbody hz, rfl⟩
  | functionSome hl _ hlimit hr hb _ hz ihps ihbody =>
    obtain ⟨ps, hps, hlength⟩ := ihps
    obtain ⟨body, hbody, -⟩ := ihbody
    exact ⟨_, .functionSome hl hps (Nat.le_trans (Nat.le_of_eq hlength) hlimit) hr hb hbody hz,
      rfl⟩
  | param hx => exact ⟨_, .param hx, rfl⟩
  | paramThen hx hcomma _ ihps =>
    obtain ⟨ps, hps, hlength⟩ := ihps
    exact ⟨_, .paramThen hx hcomma hps, congrArg (· + 1) hlength⟩
  | declsNil => exact ⟨_, .declsNil, rfl⟩
  | declsCons _ _ ihd ihds =>
    obtain ⟨d, hd, -⟩ := ihd
    obtain ⟨ds, hds, -⟩ := ihds
    exact ⟨_, .declsCons hd hds, rfl⟩
  | classPlain hw hx hb _ hz ihms =>
    obtain ⟨ms, hms, -⟩ := ihms
    exact ⟨_, .classPlain hw hx hb hms hz, rfl⟩
  | classInheriting hw hx hless hy hb _ hz ihms =>
    obtain ⟨ms, hms, -⟩ := ihms
    exact ⟨_, .classInheriting hw hx hless hy hb hms hz, rfl⟩
  | methodsNil => exact ⟨_, .methodsNil, rfl⟩
  | methodsCons hx _ _ ihf ihfs =>
    obtain ⟨f, hf, -⟩ := ihf
    obtain ⟨fs, hfs, -⟩ := ihfs
    exact ⟨_, .methodsCons hx hf hfs, rfl⟩
  | funDecl hw hx _ ihf =>
    obtain ⟨f, hf, -⟩ := ihf
    exact ⟨_, .funDecl hw hx hf, rfl⟩
  | declVar _ ihd =>
    obtain ⟨d, hd, -⟩ := ihd
    exact ⟨d, .declVar hd, rfl⟩
  | declStmt _ ihd =>
    obtain ⟨d, hd, -⟩ := ihd
    exact ⟨d, .declStmt hd, rfl⟩
  | varNone hw hx hs => exact ⟨_, .varNone hw hx hs, rfl⟩
  | varSome hw hx heq _ hs ihv =>
    obtain ⟨v, hv, -⟩ := ihv
    exact ⟨_, .varSome hw hx heq hv hs, rfl⟩
  | exprStmt _ hs ihv =>
    obtain ⟨v, hv, -⟩ := ihv
    exact ⟨_, .exprStmt hv hs, rfl⟩
  | print hw _ hs ihv =>
    obtain ⟨v, hv, -⟩ := ihv
    exact ⟨_, .print hw hv hs, rfl⟩
  | returns hw _ hs ihv =>
    obtain ⟨v, hv, -⟩ := ihv
    exact ⟨_, .returns hw hv hs, rfl⟩
  | block hb _ hz ihbody =>
    obtain ⟨body, hbody, -⟩ := ihbody
    exact ⟨_, .block hb hbody hz, rfl⟩
  | ifOnly hw hl _ hr _ ihc ihyes =>
    obtain ⟨c, hc, -⟩ := ihc
    obtain ⟨yes, hyes, -⟩ := ihyes
    exact ⟨_, .ifOnly hw hl hc hr hyes, rfl⟩
  | ifElse hw hl _ hr _ he _ _ ihc ihyes ihno =>
    obtain ⟨c, hc, -⟩ := ihc
    obtain ⟨yes, hyes, -⟩ := ihyes
    obtain ⟨no, hno, -⟩ := ihno
    cases hopen : Stmt.leavesIfOpen yes with
    | true =>
      obtain ⟨yes', hyes'⟩ := hyes.attach hopen rfl he hno
      exact ⟨_, .ifOnly hw hl hc hr hyes', rfl⟩
    | false => exact ⟨_, .ifElse hw hl hc hr hyes he (fun _ ↦ hopen) hno, rfl⟩
  | whileLoop hw hl _ hr _ ihc ihbody =>
    obtain ⟨c, hc, -⟩ := ihc
    obtain ⟨body, hbody, -⟩ := ihbody
    exact ⟨_, .whileLoop hw hl hc hr hbody, rfl⟩
  | forLoop hw hl _ _ hs _ hr _ ihi ihc ihu ihbody =>
    obtain ⟨i, hi, -⟩ := ihi
    obtain ⟨c, hc, -⟩ := ihc
    obtain ⟨u, hu, -⟩ := ihu
    obtain ⟨body, hbody, -⟩ := ihbody
    exact ⟨_, .forLoop hw hl hi hc hs hu hr hbody, rfl⟩
  | initNone hs => exact ⟨_, .initNone hs, rfl⟩
  | initVar _ ihd =>
    obtain ⟨d, hd, -⟩ := ihd
    exact ⟨_, .initVar hd, rfl⟩
  | initExpr _ hs ihv =>
    obtain ⟨v, hv, -⟩ := ihv
    exact ⟨_, .initExpr hv hs, rfl⟩

/-- A list of tokens is read as a program exactly if it is one, and then the tree that is read is
the one derivation of the list with every `else` at the nearest `if`. -/
theorem ofLexemes_iff_isProgram (ts : List Lexeme) (stop : Nat) :
    (∀ p, Program.ofLexemes ts stop = .ok p ↔ IsProgram .nearest ts p) ∧
      ((∃ p, Program.ofLexemes ts stop = .ok p) ↔ ∃ p, IsProgram .free ts p) := by
  have hnearest (p : Program) : Program.ofLexemes ts stop = .ok p ↔ IsProgram .nearest ts p :=
    ⟨isProgram_of_ofLexemes, fun h ↦ h.ofLexemes stop⟩
  refine ⟨hnearest, ?_, ?_⟩
  · rintro ⟨p, hp⟩
    exact ⟨p, Derives.free ((hnearest p).1 hp)⟩
  · rintro ⟨p, hp⟩
    obtain ⟨p', hp', -⟩ := Derives.nearest hp
    exact ⟨p', (hnearest p').2 hp'⟩

end Grammar

end LoxLang
