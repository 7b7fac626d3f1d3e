import LoxLang.Proofs.Stretches

/-!
# Texts that need no more lines

A text needs no more lines if all of its strings are closed and each of its opening brackets is
closed by a later one of its kind (`Program.Closed`). Counting the brackets of both kinds together,
and looking at the end only, accepts every such text, and others: a closing bracket that closes
nothing makes up for an opening one that stands behind it or is of the other kind, and a string that
is never closed is overlooked where it is not reported. Without these, it accepts no others
(`Program.isComplete_closed`).
-/

namespace LoxLang

/-! ### Pairs in a list -/

section Answered

variable {α : Type} {a b x : α} {xs ys zs : List α}

/-- Each `a` of the list is answered by a `b` that stands behind it and answers no other. -/
inductive Answered (a b : α) : List α → Prop
  | nil : Answered a b []
  | other {x : α} {xs : List α} : x ≠ a → Answered a b xs → Answered a b (x :: xs)
  | answer (xs ys : List α) : Answered a b (xs ++ ys) → Answered a b (a :: (xs ++ b :: ys))

theorem suffix_append_cases (h : zs <:+ xs ++ ys) :
    zs <:+ ys ∨ ∃ ws, ws <:+ xs ∧ zs = ws ++ ys := by
  rcases List.suffix_or_suffix_of_suffix h (List.suffix_append xs ys) with h' | ⟨ws, rfl⟩
  · exact .inl h'
  · exact .inr ⟨ws, List.suffix_append_self_iff.1 h, rfl⟩

theorem suffix_append_cons_cases (h : zs <:+ xs ++ x :: ys) :
    zs <:+ ys ∨ ∃ ws, ws <:+ xs ∧ zs = ws ++ x :: ys := by
  rcases suffix_append_cases h with h | h
  · rcases List.suffix_cons_iff.1 h with rfl | h
    · exact .inr ⟨[], List.nil_suffix, rfl⟩
    · exact .inl h
  · exact .inr h

variable [DecidableEq α]

/-- No end of a list of which each `a` is answered holds more of `a` than of `b`. -/
theorem Answered.count_le (hne : a ≠ b) (h : Answered a b xs) :
    ∀ zs, zs <:+ xs → zs.count a ≤ zs.count b := by
  induction h with
  | nil =>
    intro zs hzs
    simp [List.suffix_nil.1 hzs]
  | @other x xs hx _ ih =>
    intro zs hzs
    rcases List.suffix_cons_iff.1 hzs with rfl | hzs
    · rw [List.count_cons_of_ne hx]
      exact Nat.le_trans (ih xs List.suffix_rfl) (List.count_le_count_cons ..)
    · exact ih zs hzs
  | @answer xs ys _ ih =>
    intro zs hzs
    rcases List.suffix_cons_iff.1 hzs with rfl | hzs
    · have hle := ih (xs ++ ys) List.suffix_rfl
      simp only [List.count_cons, List.count_append, beq_self_eq_true, if_true, beq_iff_eq,
        hne, hne.symm, if_false] at hle ⊢
      omega
    · rcases suffix_append_cons_cases hzs with hzs | ⟨ws, hws, rfl⟩
      · exact ih zs (List.suffix_append_of_suffix hzs)
      · have hle := ih (ws ++ ys) (List.suffix_append_self_iff.2 hws)
        simp only [List.count_cons, List.count_append, beq_self_eq_true, if_true, beq_iff_eq,
          hne.symm, if_false] at hle ⊢
        omega

/-- If no end of a list holds more of `a` than of `b`, then each `a` is answered: the first by the
`b` that is next behind it, the others without these two. -/
theorem answered_of_count_le (hne : a ≠ b) (h : ∀ zs, zs <:+ xs → zs.count a ≤ zs.count b) :
    Answered a b xs := by
  induction hlength : xs.length using Nat.strong_induction_on generalizing xs with
  | h n ih =>
    cases xs with
    | nil => exact .nil
    | cons x rest =>
      have hrest (zs : List α) (hzs : zs <:+ rest) := h zs (hzs.trans (List.suffix_cons x rest))
      by_cases hx : x = a
      · subst hx
        have hall := h (x :: rest) List.suffix_rfl
        rw [List.count_cons_self, List.count_cons_of_ne hne] at hall
        obtain ⟨ws, ys, rfl, hws⟩ := List.eq_append_cons_of_mem
          (List.count_pos_iff.1 (Nat.lt_of_lt_of_le (Nat.succ_pos _) hall))
        refine .answer ws ys (ih _ ?_ (fun zs hzs ↦ ?_) rfl)
        · simp only [← hlength, List.length_append, List.length_cons]
          omega
        · rcases suffix_append_cases hzs with hzs | ⟨vs, hvs, rfl⟩
          · exact hrest zs (hzs.trans ((List.suffix_cons b ys).trans (List.suffix_append ws _)))
          · -- the `b` that is taken was needed for the first `a`
            have hle := List.Sublist.count_le x hvs.sublist
            simp only [List.count_append, List.count_cons, List.count_eq_zero_of_not_mem hws,
              beq_self_eq_true, if_true, beq_iff_eq, hne.symm, if_false] at hall hle ⊢
            omega
      · exact .other hx (ih _ (by simp [← hlength]) hrest rfl)

/-- If each `b` answers some `a` and there are as many, then each `a` is answered. -/
theorem answered_of_reverse (hne : a ≠ b) (h : Answered b a xs.reverse)
    (hle : xs.count a ≤ xs.count b) : Answered a b xs := by
  refine answered_of_count_le hne fun zs hzs ↦ ?_
  obtain ⟨ws, rfl⟩ := hzs
  have hfront := h.count_le hne.symm ws.reverse (by simp)
  rw [List.count_reverse, List.count_reverse] at hfront
  rw [List.count_append, List.count_append] at hle
  omega

end Answered

/-! ### Brackets -/

/-- The kinds of brackets. -/
inductive Bracket where
  | parenthesis | brace

namespace Bracket

/-- The mark that opens. -/
def opener : Bracket → Mark
  | parenthesis => .leftParen
  | brace => .leftBrace

/-- The mark that closes. -/
def closer : Bracket → Mark
  | parenthesis => .rightParen
  | brace => .rightBrace

theorem opener_ne_closer (k : Bracket) : k.opener ≠ k.closer := by cases k <;> nofun

end Bracket

namespace Program

open Lexeme

/-- The marks among several tokens. -/
def marksOf (ts : List Token) : List Mark :=
  ts.filterMap fun | .mark m => some m | _ => none

/-- The marks of a text. -/
def marks (source : String) : List Mark :=
  marksOf ((lexemesOf (Lexeme.read source 0)).map (·.token))

/-- All strings of the text are closed, and each of its opening brackets is closed by one of its
kind that stands behind it and closes no other. Brackets of different kinds need not be nested, and
a closing bracket may close nothing. -/
structure Closed (source : String) : Prop where
  strings : ∀ x ∈ scan 0 source.toList, x.isUnclosed = false
  brackets : ∀ k : Bracket, Answered k.opener k.closer (marks source)

/-- Each closing bracket of the text closes one of the same kind that stands before it and is closed
by no other. -/
def Opened (source : String) : Prop :=
  ∀ k : Bracket, Answered k.closer k.opener (marks source).reverse

/-- How many brackets open something. -/
def openings (ms : List Mark) : Nat :=
  ms.count Bracket.parenthesis.opener + ms.count Bracket.brace.opener

/-- How many brackets close something. -/
def closings (ms : List Mark) : Nat :=
  ms.count Bracket.parenthesis.closer + ms.count Bracket.brace.closer

theorem openings_cons (m : Mark) (ms : List Mark) :
    openings (m :: ms) = openings [m] + openings ms := by
  simp only [openings, List.count_cons, List.count_nil]
  omega

theorem closings_cons (m : Mark) (ms : List Mark) :
    closings (m :: ms) = closings [m] + closings ms := by
  simp only [closings, List.count_cons, List.count_nil]
  omega

theorem opening_add_closings (m : Mark) :
    opening (.mark m) + closings [m] = openings [m] := by
  cases m <;> rfl

theorem balance_add_closings (ts : List Token) :
    balance ts + closings (marksOf ts) = openings (marksOf ts) := by
  induction ts with
  | nil => rfl
  | cons t ts ih =>
    cases t with
    | mark m =>
      have hm := opening_add_closings m
      show opening (.mark m) + balance ts + closings (m :: marksOf ts) =
        openings (m :: marksOf ts)
      rw [openings_cons, closings_cons]
      omega
    | _ =>
      show 0 + balance ts + closings (marksOf ts) = openings (marksOf ts)
      omega

theorem balance_le_iff (ts : List Token) :
    balance ts ≤ 0 ↔ openings (marksOf ts) ≤ closings (marksOf ts) := by
  have h := balance_add_closings ts
  omega

theorem mem_faultsOf {items : List (Except Fault Lexeme)} {e : Fault} :
    e ∈ faultsOf items ↔ .error e ∈ items := by
  unfold faultsOf
  rw [List.mem_filterMap]
  constructor
  · rintro ⟨item, hitem, he⟩
    cases item with
    | ok x => cases he
    | error f =>
      cases he
      exact hitem
  · exact fun h ↦ ⟨_, h, rfl⟩

/-- A text is taken to need no more lines exactly if no string is reported that is never closed, and
it has no more opening brackets than closing ones, both kinds counted together. -/
theorem isComplete_iff (source : String) :
    isComplete source = true ↔
      (∀ s, .error ⟨.unterminatedString, s⟩ ∉ Lexeme.read source 0) ∧
        openings (marks source) ≤ closings (marks source) := by
  unfold isComplete marks
  rw [Bool.and_eq_true_iff, decide_eq_true_iff, balance_le_iff]
  refine and_congr_left fun _ ↦ ?_
  simp only [Bool.not_eq_true', List.any_eq_false]
  constructor
  · exact fun h s hs ↦ h _ (mem_faultsOf.2 hs) rfl
  · rintro h ⟨cause, s⟩ he hcause
    obtain rfl : cause = .unterminatedString := eq_of_beq hcause
    exact h s (mem_faultsOf.1 he)

theorem Opened.count_le {source : String} (h : Opened source) (k : Bracket) :
    (marks source).count k.closer ≤ (marks source).count k.opener := by
  have hle := (h k).count_le k.opener_ne_closer.symm _ List.suffix_rfl
  rwa [List.count_reverse, List.count_reverse] at hle

theorem Closed.count_le {source : String} (h : Closed source) (k : Bracket) :
    (marks source).count k.opener ≤ (marks source).count k.closer :=
  (h.brackets k).count_le k.opener_ne_closer _ List.suffix_rfl

/-- A text, which is cut by the rule of the longest match, is taken to need no more lines exactly if
no string is reported that is never closed and it has no more opening brackets than closing ones,
both kinds counted together. So it is if all of its strings and brackets are closed. If it is
although they are not, then it has a closing bracket that closes nothing, or a string that is never
closed comes next behind unknown text. -/
theorem isComplete_closed (source : String) :
    (∃ blanks, Cut 0 source.toList blanks (scan 0 source.toList)) ∧
    (isComplete source = true ↔
      (∀ s, .error ⟨.unterminatedString, s⟩ ∉ Lexeme.read source 0) ∧
        openings (marks source) ≤ closings (marks source)) ∧
    (Closed source → isComplete source = true) ∧
    (isComplete source = true → Opened source → Unhidden (scan 0 source.toList) →
      Closed source) := by
  refine ⟨exists_cut .., isComplete_iff source, fun h ↦ ?_, fun h hopened hunhidden ↦ ?_⟩
  · refine (isComplete_iff source).2 ⟨fun s hs ↦ ?_, ?_⟩
    · obtain ⟨x, hx, hopen, -⟩ := exists_of_unterminated_mem_report hs
      exact absurd ((h.strings x hx).symm.trans hopen) Bool.false_ne_true
    · exact Nat.add_le_add (h.count_le .parenthesis) (h.count_le .brace)
  · obtain ⟨hstrings, hle⟩ := (isComplete_iff source).1 h
    constructor
    · refine fun x hx ↦ eq_false_of_ne_true fun hopen ↦ ?_
      exact hstrings x.span (unterminated_mem_report none (by simp) hunhidden x hx hopen)
    · intro k
      have hparenthesis := hopened.count_le .parenthesis
      have hbrace := hopened.count_le .brace
      refine answered_of_reverse k.opener_ne_closer (hopened k) ?_
      unfold openings closings at hle
      cases k with
      | parenthesis => omega
      | brace => omega

/-- Braces between parentheses are closed, and so are these. -/
theorem isComplete_closed_nested :
    isComplete "(\x7b\x7d)" = true ∧ Opened "(\x7b\x7d)" ∧
      Unhidden (scan 0 "(\x7b\x7d)".toList) ∧ Closed "(\x7b\x7d)" := by
  have hcomplete : isComplete "(\x7b\x7d)" = true := by decide +kernel
  have hmarks : marks "(\x7b\x7d)" = [.leftParen, .leftBrace, .rightBrace, .rightParen] := by
    decide +kernel
  have hscan : scan 0 "(\x7b\x7d)".toList = [place 0 ['('] (.mark .leftParen),
      place 1 ['\x7b'] (.mark .leftBrace), place 2 ['\x7d'] (.mark .rightBrace),
      place 3 [')'] (.mark .rightParen)] := by
    decide +kernel
  have hopened : Opened "(\x7b\x7d)" := by
    intro k
    rw [hmarks]
    cases k with
    | parenthesis =>
      refine .answer [Mark.rightBrace, .leftBrace] [] ?_
      exact .other (by decide) (.other (by decide) .nil)
    | brace =>
      refine .other (by decide) (.answer [] [Mark.leftParen] ?_)
      exact .other (by decide) .nil
  have hunhidden : Unhidden (scan 0 "(\x7b\x7d)".toList) := by
    rw [hscan]
    refine .cons_cons (fun _ ↦ rfl) (.cons_cons (fun _ ↦ rfl) ?_)
    exact .cons_cons (fun _ ↦ rfl) (.singleton _)
  exact ⟨hcomplete, hopened, hunhidden,
    (isComplete_closed "(\x7b\x7d)").2.2.2 hcomplete hopened hunhidden⟩

/-- A closing bracket makes up for an opening one behind it, and for one of the other kind. A string
that is never closed is overlooked behind unknown text. -/
theorem isComplete_not_closed :
    (isComplete ")(" = true ∧ ¬ Closed ")(") ∧
      (isComplete "\x7b)" = true ∧ ¬ Closed "\x7b)") ∧
      isComplete "@\"a" = true ∧ ¬ Closed "@\"a" := by
  have hbehind : marks ")(" = [.rightParen, .leftParen] := by decide +kernel
  have hother : marks "\x7b)" = [.leftBrace, .rightParen] := by decide +kernel
  have hscan : scan 0 "@\"a".toList =
      [place 0 ['@'] .unknown, place 1 ['"', 'a'] .unknown] := by
    decide +kernel
  refine ⟨⟨by decide +kernel, fun h ↦ ?_⟩, ⟨by decide +kernel, fun h ↦ ?_⟩,
    by decide +kernel, fun h ↦ ?_⟩
  · have hend : [.leftParen] <:+ marks ")(" := hbehind ▸ List.suffix_cons ..
    have hcount := (h.brackets .parenthesis).count_le (Bracket.opener_ne_closer _) _ hend
    exact absurd hcount (by decide)
  · have hcount := h.count_le .brace
    rw [hother] at hcount
    exact absurd hcount (by decide)
  · have hclosed := h.strings
    rw [hscan] at hclosed
    cases hclosed (place 1 ['"', 'a'] .unknown) (by simp)

end Program

end LoxLang
