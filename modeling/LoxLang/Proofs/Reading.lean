import LoxLang.Program.OfTokens
import LoxLang.Proofs.Grammar

/-!
# How readers run

What a reader gives is worked out from its parts: `bind_eq_ok` takes a sequence apart, and each
elementary reader has one lemma that says when it succeeds and one that says which token it has
passed then (`Cursor.Passed`). In the other direction `Reads` says that a reader passes certain
tokens whatever came before them, and is put together in the same way.
-/

namespace LoxLang

namespace Cursor

theorem rest_advance {c : Cursor} {x : Lexeme} {ts : List Lexeme} (h : c.rest = x :: ts) :
    c.advance.rest = ts := by
  simp [advance, h]

theorem last_advance {c : Cursor} {x : Lexeme} {ts : List Lexeme} (h : c.rest = x :: ts) :
    c.advance.last = some x := by
  simp [advance, h]

@[simp] theorem faults_advance (c : Cursor) : c.advance.faults = c.faults := by
  unfold advance
  split <;> rfl

/-- From the first place to the second one token is passed, and no fault is noted. -/
structure Passed (c : Cursor) (x : Lexeme) (d : Cursor) : Prop where
  rest : c.rest = x :: d.rest
  last : d.last = some x
  faults : d.faults = c.faults

/-- If no fault is noted behind a token, none was noted before it. -/
theorem Passed.faults_eq_nil {c d : Cursor} {x : Lexeme} (h : c.Passed x d) (hd : d.faults = []) :
    c.faults = [] :=
  h.faults.symm.trans hd

/-- To advance is to pass the token ahead. -/
theorem passed_advance {c : Cursor} {x : Lexeme} {ts : List Lexeme} (h : c.rest = x :: ts) :
    c.Passed x c.advance where
  rest := by rw [h, rest_advance h]
  last := last_advance h
  faults := faults_advance c

@[simp] theorem faults_note (f : Fault) (c : Cursor) : (c.note f).faults = c.faults ++ [f] := rfl
@[simp] theorem rest_note (f : Fault) (c : Cursor) : (c.note f).rest = c.rest := rfl

/-- To recover skips tokens, but it notes no fault of its own. -/
theorem faults_recover (c : Cursor) : c.recover.faults = c.faults := by
  simp [recover]

end Cursor

namespace Reader
variable {α β : Type}

section Bind
variable (f : α → Reader β) (c : Cursor)

@[simp] protected theorem bind_pure (a : α) : ((pure a : Reader α) >>= f) c = f a c := rfl
@[simp] theorem bind_peek (f : Option Token → Reader β) :
    (peek >>= f) c = f (c.rest.head?.map (·.token)) c := rfl
@[simp] theorem bind_peekSecond (f : Option Token → Reader β) :
    (peekSecond >>= f) c = f (c.rest.tail.head?.map (·.token)) c := rfl
@[simp] theorem bind_sees (m : Mark) (f : Bool → Reader β) :
    (sees m >>= f) c = f (c.rest.head?.any (·.token.isMark m)) c := rfl
@[simp] theorem bind_atEnd (f : Bool → Reader β) : (atEnd >>= f) c = f c.rest.isEmpty c := rfl
@[simp] theorem bind_spanFrom (start : Nat) (f : Span → Reader β) :
    (spanFrom start >>= f) c = f ⟨start, c.reached⟩ c := rfl

/-- When a token is ahead, the rest of the reader goes on with it. -/
theorem bind_take {c : Cursor} {x : Lexeme} {ts : List Lexeme} (h : c.rest = x :: ts)
    (f : Lexeme → Reader β) : (take >>= f) c = f x c.advance := by
  show Reader.bind take f c = _
  simp [Reader.bind, take, h]

/-- When a token is ahead, the rest of the reader goes on with its place. -/
theorem bind_skip {c : Cursor} {x : Lexeme} {ts : List Lexeme} (h : c.rest = x :: ts)
    (f : Span → Reader β) : (skip >>= f) c = f x.span c.advance := by
  show Reader.bind (take >>= fun x ↦ pure x.span) f c = _
  unfold Reader.bind
  rw [bind_take h]
  rfl

end Bind

theorem take_cons {c : Cursor} {x : Lexeme} {ts : List Lexeme} (h : c.rest = x :: ts) :
    take c = .ok x c.advance := by
  simp [take, h]

theorem skip_cons {c : Cursor} {x : Lexeme} {ts : List Lexeme} (h : c.rest = x :: ts) :
    skip c = .ok x.span c.advance :=
  bind_take h _

/-- One reader after the other succeeds just if both do. -/
theorem bind_eq_ok {p : Reader α} {f : α → Reader β} {c d : Cursor} {b : β} :
    (p >>= f) c = .ok b d ↔ ∃ a c', p c = .ok a c' ∧ f a c' = .ok b d := by
  show Reader.bind p f c = _ ↔ _
  unfold Reader.bind
  cases p c with
  | ok a c' => simp [and_assoc]
  | fault => simp
  | exhausted => simp
  | astray => simp

@[simp] theorem pure_eq_ok {a b : α} {c d : Cursor} :
    (pure a : Reader α) c = .ok b d ↔ a = b ∧ c = d := by
  show Outcome.ok a c = _ ↔ _
  simp

/-- A function of what was read leaves the reader where it was. -/
theorem map_eq_ok {p : Reader α} {f : α → β} {c d : Cursor} {b : β} :
    (f <$> p) c = .ok b d ↔ ∃ a, p c = .ok a d ∧ f a = b := by
  show (p >>= fun a ↦ pure (f a)) c = _ ↔ _
  rw [bind_eq_ok]
  simp only [pure_eq_ok]
  constructor
  · rintro ⟨a, _, h, rfl, rfl⟩; exact ⟨a, h, rfl⟩
  · rintro ⟨a, h, rfl⟩; exact ⟨a, d, h, rfl, rfl⟩

@[simp] theorem run_ite (b : Prop) [Decidable b] (p q : Reader α) (c : Cursor) :
    (if b then p else q) c = if b then p c else q c := by
  split <;> rfl

/-- The token ahead is the first of those that are left. -/
theorem head_eq_some {c : Cursor} {t : Token} :
    c.rest.head?.map (·.token) = some t ↔ ∃ x ts, c.rest = x :: ts ∧ x.token = t := by
  cases h : c.rest <;> simp

@[simp] theorem isMark_iff {t : Token} {m : Mark} : t.isMark m = true ↔ t = .mark m := by
  cases t <;> simp only [Token.isMark, beq_iff_eq, Token.mark.injEq, reduceCtorEq]
  exact eq_comm

/-- A mark is seen just if the first token that is left is this mark. -/
theorem sees_iff {c : Cursor} {m : Mark} :
    c.rest.head?.any (·.token.isMark m) = true ↔ ∃ x ts, c.rest = x :: ts ∧ x.token = .mark m := by
  cases h : c.rest <;> simp

/-- The literal that a reader makes of a token is the one that the token denotes. -/
theorem literal?_eq_some_iff {t : Token} {v : Literal} :
    literal? (some t) = some v ↔ Grammar.Denotes t v := by
  constructor
  · intro h
    unfold literal? at h
    split at h <;> cases h
    case h_1 ht | h_2 ht | h_3 ht | h_4 ht | h_5 ht =>
      cases ht
      constructor
  · rintro (_ | _) <;> rfl

/-- Names the reader that comes to the outcome, so that it can be taken apart. -/
theorem run_eq {p : Reader α} {c : Cursor} {o : Outcome α} (h : p c = o) :
    ∃ q, p = q ∧ q c = o :=
  ⟨p, rfl, h⟩

/-- A mark that is expected is read just if it is ahead. -/
theorem expect_eq_ok {m : Mark} {c d : Cursor} {s : Span} :
    expect m c = .ok s d ↔
      ∃ x ts, c.rest = x :: ts ∧ x.token = .mark m ∧ x.span = s ∧ c.advance = d := by
  unfold expect
  rw [bind_sees, run_ite]
  cases hc : c.rest with
  | nil => simp [unexpected]
  | cons x ts => by_cases hx : x.token = .mark m <;> simp [skip_cons hc, unexpected, hx]

/-- A name that is expected is read just if an identifier is ahead. -/
theorem expectName_eq_ok {what : String} {c d : Cursor} {n : Name} :
    expectName what c = .ok n d ↔
      ∃ x ts, c.rest = x :: ts ∧ x.token = .identifier n.text ∧ x.span = n.span ∧
        c.advance = d := by
  obtain ⟨text, span⟩ := n
  unfold expectName
  simp only [bind_peek]
  cases hc : c.rest with
  | nil => simp [unexpected]
  | cons x ts => cases ht : x.token <;> simp [unexpected, bind_take hc, ht, and_assoc]

/-- A mark that may be there is read if it is ahead, and otherwise nothing is. -/
theorem accept_eq_ok {m : Mark} {c d : Cursor} {b : Bool} :
    accept m c = .ok b d ↔
      if c.rest.head?.any (·.token.isMark m) then b = true ∧ c.advance = d
      else b = false ∧ c = d := by
  unfold accept
  rw [bind_sees, run_ite]
  split
  · rename_i hsees
    obtain ⟨x, ts, hrest, -⟩ := sees_iff.1 hsees
    rw [bind_skip hrest, pure_eq_ok]
    exact and_congr_left' eq_comm
  · rw [pure_eq_ok]
    exact and_congr_left' eq_comm

/-- A token that is known to be ahead is passed. -/
theorem passed_of_skip {c d : Cursor} {t : Token} {f : Span → Reader β} {b : β}
    (ht : ∃ x ts, c.rest = x :: ts ∧ x.token = t) (h : (skip >>= f) c = .ok b d) :
    ∃ x c', c.Passed x c' ∧ x.token = t ∧ f x.span c' = .ok b d := by
  obtain ⟨x, ts, hrest, hx⟩ := ht
  rw [bind_skip hrest] at h
  exact ⟨x, _, Cursor.passed_advance hrest, hx, h⟩

/-- A mark that was expected and read has been passed. -/
theorem passed_of_expect {m : Mark} {c d : Cursor} {s : Span} (h : expect m c = .ok s d) :
    ∃ x, c.Passed x d ∧ x.token = .mark m ∧ x.span = s := by
  obtain ⟨x, ts, hrest, hx, hs, rfl⟩ := expect_eq_ok.1 h
  exact ⟨x, Cursor.passed_advance hrest, hx, hs⟩

/-- A name that was expected and read has been passed. -/
theorem passed_of_expectName {what : String} {c d : Cursor} {n : Name}
    (h : expectName what c = .ok n d) :
    ∃ x, c.Passed x d ∧ x.token = .identifier n.text ∧ x.span = n.span := by
  obtain ⟨x, ts, hrest, hx, hs, rfl⟩ := expectName_eq_ok.1 h
  exact ⟨x, Cursor.passed_advance hrest, hx, hs⟩

/-- Either the mark was ahead and has been passed, or it was not and nothing has happened. -/
theorem passed_of_accept {m : Mark} {c d : Cursor} {b : Bool} (h : accept m c = .ok b d) :
    (∃ x, c.Passed x d ∧ x.token = .mark m ∧ b = true) ∨
      (¬ ∃ x ts, c.rest = x :: ts ∧ x.token = .mark m) ∧ b = false ∧ c = d := by
  rw [accept_eq_ok] at h
  split at h
  · rename_i hsees
    obtain ⟨x, ts, hrest, hx⟩ := sees_iff.1 hsees
    obtain ⟨hb, rfl⟩ := h
    exact .inl ⟨x, Cursor.passed_advance hrest, hx, hb⟩
  · rename_i hsees
    exact .inr ⟨mt sees_iff.2 hsees, h⟩

/-- A fault that is noted under a condition changes nothing but the faults. -/
theorem noteIf_apply (b : Prop) [Decidable b] (e : Fault) (f : Unit → Reader β) (c : Cursor) :
    (if b then note e >>= f else f ()) c = f () (if b then c.note e else c) := by
  split <;> rfl

/-- A fault that is noted under a condition leaves the tokens alone. -/
theorem rest_noteIf (b : Prop) [Decidable b] (e : Fault) (c : Cursor) :
    (if b then c.note e else c).rest = c.rest := by
  split <;> rfl

/-- If no fault is noted, the list is not too long. -/
theorem of_faults_noteIf {n : Nat} {e : Fault} {c : Cursor}
    (h : (if Cause.listLimit ≤ n then c.note e else c).faults = []) :
    c.faults = [] ∧ n < 255 := by
  split at h
  · simp at h
  · rename_i hn
    exact ⟨h, Nat.lt_of_not_le hn⟩

/-! ### Passing tokens -/

/-- The reader passes the tokens at the front of a list with this value and stops at the second
list, from wherever it came and without noting a fault. -/
def Reads (p : Reader α) (ts : List Lexeme) (a : α) (us : List Lexeme) : Prop :=
  ∀ last stop faults, ∃ last', p ⟨ts, last, stop, faults⟩ = .ok a ⟨us, last', stop, faults⟩

namespace Reads

variable {ts us vs : List Lexeme} {a : α} {b : β} {p : Reader α} {f : α → Reader β} {x : Lexeme}
  {m : Mark}

protected theorem pure (a : α) (ts : List Lexeme) : Reads (pure a) ts a ts :=
  fun last _ _ ↦ ⟨last, rfl⟩

/-- What the first reader leaves is read by the second. -/
protected theorem bind (hp : Reads p ts a us) (hf : Reads (f a) us b vs) :
    Reads (p >>= f) ts b vs := by
  intro last stop faults
  obtain ⟨last₁, h₁⟩ := hp last stop faults
  obtain ⟨last₂, h₂⟩ := hf last₁ stop faults
  exact ⟨last₂, bind_eq_ok.2 ⟨a, _, h₁, h₂⟩⟩

protected theorem map (f : α → β) (hp : Reads p ts a us) : Reads (f <$> p) ts (f a) us :=
  hp.bind (.pure _ _)

/-- To look ahead passes nothing. -/
protected theorem peek (ts : List Lexeme) : Reads peek ts (ts.head?.map (·.token)) ts :=
  fun last _ _ ↦ ⟨last, rfl⟩

/-- What is read may depend on the token ahead, if that is known. -/
protected theorem peeking {t : Token} {x : Lexeme} {f : Option Token → Reader β}
    (hx : x.token = t) (hf : Reads (f (some t)) (x :: ts) b us) :
    Reads (peek >>= f) (x :: ts) b us := by
  refine .bind (.peek _) ?_
  rw [List.head?_cons, Option.map_some, hx]
  exact hf

protected theorem peekSecond (ts : List Lexeme) :
    Reads peekSecond ts (ts.tail.head?.map (·.token)) ts :=
  fun last _ _ ↦ ⟨last, rfl⟩

protected theorem sees (m : Mark) (ts : List Lexeme) :
    Reads (sees m) ts (ts.head?.any (·.token.isMark m)) ts :=
  fun last _ _ ↦ ⟨last, rfl⟩

protected theorem atEnd (ts : List Lexeme) : Reads atEnd ts ts.isEmpty ts :=
  fun last _ _ ↦ ⟨last, rfl⟩

protected theorem skip (x : Lexeme) (ts : List Lexeme) : Reads skip (x :: ts) x.span ts :=
  fun _ _ _ ↦ ⟨some x, rfl⟩

/-- An expected mark that is ahead is read. -/
protected theorem expect (hx : x.token = .mark m) (ts : List Lexeme) :
    Reads (expect m) (x :: ts) x.span ts :=
  fun _ _ _ ↦ ⟨some x, expect_eq_ok.2 ⟨x, ts, rfl, hx, rfl, rfl⟩⟩

/-- An expected name that is ahead is read. -/
protected theorem expectName {n : String} (what : String) (hx : x.token = .identifier n)
    (ts : List Lexeme) : Reads (expectName what) (x :: ts) ⟨n, x.span⟩ ts :=
  fun _ _ _ ↦ ⟨some x, expectName_eq_ok.2 ⟨x, ts, rfl, hx, rfl, rfl⟩⟩

/-- A mark that may be there is read if it is ahead. -/
protected theorem accept (hx : x.token = .mark m) (ts : List Lexeme) :
    Reads (accept m) (x :: ts) true ts :=
  fun _ _ _ ↦ ⟨some x, accept_eq_ok.2 (by simp [hx, Cursor.advance])⟩

/-- A mark that may be there is not read if something else is ahead. -/
theorem not_accept (h : ts.head?.any (·.token.isMark m) = false) : Reads (accept m) ts false ts :=
  fun last _ _ ↦ ⟨last, accept_eq_ok.2 (by simp [h])⟩

/-- Before the mark, the reader is not tried. -/
theorem unlessSees_none (h : ts.head?.any (·.token.isMark m) = true) (p : Reader α) :
    Reads (unlessSees m p) ts none ts :=
  (Reads.sees m ts).bind (by rw [h]; exact .pure _ _)

/-- Before anything else than the mark, the reader is tried. -/
theorem unlessSees_some (h : ts.head?.any (·.token.isMark m) = false) (hp : Reads p ts a us) :
    Reads (unlessSees m p) ts (some a) us :=
  (Reads.sees m ts).bind (by rw [h]; exact hp.bind (.pure _ _))

/-- A reader that succeeds needs no recovery. -/
protected theorem recovering (hp : Reads p ts a us) : Reads (recovering p) ts (some a) us := by
  intro last stop faults
  obtain ⟨last', h⟩ := hp last stop faults
  exact ⟨last', by simp only [Reader.recovering, h]⟩

end Reads

end Reader

end LoxLang
