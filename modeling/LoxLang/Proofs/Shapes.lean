import LoxLang.Proofs.Tokens
import Mathlib.Data.List.TakeWhile

/-!
# The longest lexeme

Which texts are lexemes is declared shape by shape, without a word about where a lexeme ends in a
longer text (`Shape.Spelled`). A text is cut by the rule of the longest match: at each place the
longest lexeme of any shape is taken, a character that begins none stands alone, and a quote that is
never closed takes all that follows (`Lexeme.Cut`). This is how texts are scanned
(`Lexeme.exists_cut`), and what it cuts off as a lexeme is the same lexeme when it is read alone
(`Lexeme.scan_of_spelled`).
-/

namespace LoxLang

namespace Shape

open Lexeme

/-! ### The texts of each shape -/

/-- The marks that are no words, as they are spelled. -/
def signs : List (List Char × Mark) := [
  (['('], .leftParen), ([')'], .rightParen), (['\x7b'], .leftBrace), (['\x7d'], .rightBrace),
  ([','], .comma), (['.'], .dot), (['-'], .minus), (['+'], .plus), ([';'], .semicolon),
  (['/'], .slash), (['*'], .star), (['!'], .bang), (['!', '='], .bangEqual), (['='], .equal),
  (['=', '='], .equalEqual), (['>'], .greater), (['>', '='], .greaterEqual), (['<'], .less),
  (['<', '='], .lessEqual), (['-', '-'], .minusMinus), (['+', '+'], .plusPlus)]

/-- At least one digit, and nothing else. -/
def Digits (cs : List Char) : Prop := cs ≠ [] ∧ ∀ c ∈ cs, c.isDigit = true

/-- The lexemes of each shape. -/
inductive Spelled : Shape → List Char → Prop
  | sign {text : List Char} {m : Mark} : (text, m) ∈ signs → Spelled (mark m) text
  | word {c : Char} {cs : List Char} : startsWord c = true → (∀ d ∈ cs, continuesWord d = true) →
      Spelled word (c :: cs)
  | string {cs : List Char} : '"' ∉ cs → Spelled string ('"' :: (cs ++ ['"']))
  | whole {ds : List Char} : Digits ds → Spelled numeral ds
  | decimal {ds es : List Char} : Digits ds → Digits es → Spelled numeral (ds ++ '.' :: es)
  | space {cs : List Char} : cs ≠ [] → (∀ c ∈ cs, isSpace c = true) → Spelled blank cs
  | comment {cs : List Char} : '\n' ∉ cs → Spelled blank ('/' :: '/' :: cs)

variable {shape : Shape} {text cs rest : List Char} {c : Char}

/-- No lexeme is empty. -/
theorem Spelled.ne_nil (h : Spelled shape text) : text ≠ [] := by
  cases h with
  | sign h =>
    rintro rfl
    revert h
    simp [signs]
  | whole h => exact h.1
  | decimal h _ => simp
  | space h _ => exact h
  | _ => exact List.cons_ne_nil _ _

/-! ### Runs -/

/-- A run goes on through characters that belong to it. -/
theorem runLength_append_of_forall {p : Char → Bool} (h : ∀ c ∈ cs, p c = true)
    (rest : List Char) : runLength p (cs ++ rest) = cs.length + runLength p rest := by
  unfold runLength
  rw [List.takeWhile_append_of_pos h, List.length_append]

/-- All characters of a run belong to it. -/
theorem of_mem_take_runLength {p : Char → Bool} (h : c ∈ cs.take (runLength p cs)) :
    p c = true := by
  unfold runLength at h
  rw [← List.prefix_iff_eq_take.1 (List.takeWhile_prefix p)] at h
  exact List.mem_takeWhile_imp h

/-- What stands behind a run does not belong to it. -/
theorem drop_runLength {p : Char → Bool} {d : Char} {ds : List Char}
    (h : cs.drop (runLength p cs) = d :: ds) : p d = false := by
  induction cs with
  | nil => simp at h
  | cons c cs ih =>
    simp only [runLength, List.takeWhile_cons] at h ih
    split at h
    · exact ih (by simpa using h)
    · rename_i hc
      simp only [List.length_nil, List.drop_zero, List.cons.injEq] at h
      rw [← h.1]
      simpa using hc

/-! ### What the first character decides -/

theorem isSpace_cases (h : isSpace c = true) :
    c = ' ' ∨ c = '\r' ∨ c = '\n' ∨ c = '\t' ∨ c = '\x0c' := by
  simpa only [isSpace, Bool.or_eq_true, beq_iff_eq, or_assoc] using h

/-- White space begins no word and no numeral. -/
theorem of_isSpace (h : isSpace c = true) : startsWord c = false ∧ c.isDigit = false := by
  rcases isSpace_cases h with rfl | rfl | rfl | rfl | rfl <;> decide

theorem startsWord_of_isDigit (hc : c.isDigit = true) : startsWord c = false := by
  by_contra h
  simp only [startsWord, Bool.not_eq_false, Bool.or_eq_true, beq_iff_eq] at h
  have hdigit : c.val ≤ '9'.val := of_decide_eq_true (Bool.and_eq_true_iff.1 hc).2
  rcases h with h | rfl
  · -- the letters stand behind the digits
    rcases Bool.or_eq_true_iff.1 h with h | h
    · have hupper : 'A'.val ≤ c.val := (of_decide_eq_true h).1
      exact absurd (UInt32.le_trans hupper hdigit) (by decide)
    · have hlower : 'a'.val ≤ c.val := of_decide_eq_true (Bool.and_eq_true_iff.1 h).1
      exact absurd (UInt32.le_trans hlower hdigit) (by decide)
  · exact absurd hc (by decide)

/-- A letter begins a word, with all that continues it. -/
theorem longest_of_startsWord (hc : startsWord c = true) (cs : List Char) :
    longest c cs = (word, runLength continuesWord cs) := by
  unfold longest
  split
  case h_17 =>
    have hspace : isSpace c = false := eq_false_of_ne_true fun h ↦ by
      simp [(of_isSpace h).1] at hc
    rw [hspace, hc]
    rfl
  all_goals exact absurd hc (by decide)

/-- A digit begins a numeral. -/
theorem longest_of_isDigit (hc : c.isDigit = true) (cs : List Char) :
    longest c cs = (numeral, numeralLength cs) := by
  unfold longest
  split
  case h_17 =>
    have hspace : isSpace c = false := eq_false_of_ne_true fun h ↦ by
      simp [(of_isSpace h).2] at hc
    rw [hspace, startsWord_of_isDigit hc, hc]
    rfl
  all_goals exact absurd hc (by decide)

/-- A quote begins a string if another one closes it. -/
theorem longest_of_closed (h : '"' ∉ cs) (rest : List Char) :
    longest '"' (cs ++ '"' :: rest) = (string, cs.length + 1) := by
  have hrun : runLength (· != '"') (cs ++ '"' :: rest) = cs.length := by
    rw [runLength_append_of_forall fun c hc ↦ by simpa using ne_of_mem_of_not_mem hc h]
    rfl
  have hlt : cs.length < (cs ++ '"' :: rest).length := by simp
  show (if runLength (· != '"') (cs ++ '"' :: rest) < (cs ++ '"' :: rest).length then _ else _) = _
  rw [hrun, if_pos hlt]

theorem mark_ne_unknown (m : Mark) : mark m ≠ unknown := nofun

/-- What may be one of two signs is one of them. -/
theorem either_ne_unknown (second : Char) (double single : Mark) (cs : List Char) :
    (either second double single cs).1 ≠ unknown := by
  unfold either
  split
  · split <;> simp
  · simp

/-! ### The lexeme that is cut off -/

theorem spelled_sign {m : Mark} (h : ([c], m) ∈ signs) (cs : List Char) :
    Spelled (mark m) (c :: cs.take 0) := .sign h

/-- What is cut off as one of two signs is spelled as this one. -/
theorem spelled_either {c second : Char} {double single : Mark}
    (hdouble : ([c, second], double) ∈ signs) (hsingle : ([c], single) ∈ signs)
    (cs : List Char) :
    Spelled (either second double single cs).1
      (c :: cs.take (either second double single cs).2) := by
  cases cs with
  | nil => exact .sign hsingle
  | cons d ds =>
    by_cases hd : d = second
    · subst hd
      simpa [either] using Spelled.sign hdouble
    · simpa [either, hd] using Spelled.sign hsingle

/-- What is cut off as a numeral is spelled as one. -/
theorem spelled_numeral (hc : c.isDigit = true) (cs : List Char) :
    Spelled numeral (c :: cs.take (numeralLength cs)) := by
  have hwhole : Digits (c :: cs.take (runLength Char.isDigit cs)) := by
    refine ⟨List.cons_ne_nil _ _, fun d hd ↦ ?_⟩
    rcases List.mem_cons.1 hd with rfl | hd
    · exact hc
    · exact of_mem_take_runLength hd
  simp only [numeralLength]
  split
  · rename_i d more hdrop
    split
    · rename_i hd
      -- the digits up to the point, the point, and a digit with those that follow it
      have htake : cs.take (runLength Char.isDigit cs + 2 + runLength Char.isDigit more) =
          cs.take (runLength Char.isDigit cs) ++
            '.' :: d :: more.take (runLength Char.isDigit more) := by
        rw [Nat.add_assoc, List.take_add, hdrop, Nat.add_comm 2]
        rfl
      rw [htake]
      refine .decimal hwhole ⟨List.cons_ne_nil _ _, fun e he ↦ ?_⟩
      rcases List.mem_cons.1 he with rfl | he
      · exact hd
      · exact of_mem_take_runLength he
    · exact .whole hwhole
  · exact .whole hwhole

/-- What is cut off as a string is spelled as one. -/
theorem spelled_string (h : runLength (· != '"') cs < cs.length) :
    Spelled string ('"' :: cs.take (runLength (· != '"') cs + 1)) := by
  obtain ⟨d, more, hdrop⟩ : ∃ d more, cs.drop (runLength (· != '"') cs) = d :: more :=
    List.exists_cons_of_ne_nil fun hnil ↦ by
      have hlength := congrArg List.length hnil
      rw [List.length_drop, List.length_nil] at hlength
      omega
  obtain rfl : d = '"' := by simpa using drop_runLength hdrop
  rw [List.take_add, hdrop]
  refine .string fun hmem ↦ ?_
  have hquote := of_mem_take_runLength hmem
  simp at hquote

/-- What is cut off is a lexeme, unless it is unknown text. -/
theorem spelled_longest (h : (longest c cs).1 ≠ unknown) :
    Spelled (longest c cs).1 (c :: cs.take (longest c cs).2) := by
  revert h
  unfold longest
  split
  all_goals intro hknown
  any_goals exact spelled_sign (by decide) cs
  any_goals exact spelled_either (by decide) (by decide) cs
  · -- a slash, or a comment
    split
    · rename_i more
      have hbreak : '\n' ∉ more.take (runLength (· != '\n') more) := fun hmem ↦ by
        have hbefore := of_mem_take_runLength hmem
        simp at hbefore
      exact .comment hbreak
    · exact spelled_sign (by decide) cs
  · -- a quote
    simp only at hknown ⊢
    split at hknown
    · rename_i hclosed
      rw [if_pos hclosed]
      exact spelled_string hclosed
    · exact absurd rfl hknown
  · -- anything else
    split at hknown
    · rename_i hspace
      rw [if_pos hspace]
      refine .space (List.cons_ne_nil _ _) fun d hd ↦ ?_
      rcases List.mem_cons.1 hd with rfl | hd
      · exact hspace
      · exact of_mem_take_runLength hd
    rename_i hspace
    split at hknown
    · rename_i hword
      rw [if_neg hspace, if_pos hword]
      exact .word hword fun d hd ↦ of_mem_take_runLength hd
    rename_i hword
    split at hknown
    · rename_i hdigit
      rw [if_neg hspace, if_neg hword, if_pos hdigit]
      exact spelled_numeral hdigit cs
    · exact absurd rfl hknown

/-! ### No longer lexeme -/

/-- A numeral is at least as long as its digits at the front. -/
theorem runLength_le_numeralLength (cs : List Char) :
    runLength Char.isDigit cs ≤ numeralLength cs := by
  simp only [numeralLength]
  split
  · split <;> omega
  · exact Nat.le_refl _

/-- A point belongs to a numeral if a digit follows it. -/
theorem numeralLength_of_point {ds es : List Char} {e : Char}
    (hds : ∀ d ∈ ds, d.isDigit = true) (he : e.isDigit = true) :
    numeralLength (ds ++ '.' :: e :: es) = ds.length + 2 + runLength Char.isDigit es := by
  have hrun : runLength Char.isDigit (ds ++ '.' :: e :: es) = ds.length :=
    runLength_append_of_forall hds _
  simp only [numeralLength, hrun, List.drop_left, he, if_true]

/-- A slash begins a sign or a comment. -/
theorem longest_slash_ne_unknown (rest : List Char) : (longest '/' rest).1 ≠ unknown := by
  rcases rest with - | ⟨d, rest⟩
  · simp [longest]
  · by_cases hd : d = '/' <;> simp [longest, hd]

/-- A sign is not cut short, and it is cut off as the mark that it is. -/
theorem longest_of_sign {m : Mark} (h : (c :: cs, m) ∈ signs) (rest : List Char) :
    (longest c (cs ++ rest)).1 ≠ unknown ∧ cs.length ≤ (longest c (cs ++ rest)).2 ∧
      (longest c cs).1 = mark m := by
  simp only [signs, List.mem_cons, Prod.mk.injEq, List.cons.injEq, List.not_mem_nil,
    or_false] at h
  casesm* _ ∨ _, _ ∧ _ <;> subst_vars
  all_goals refine ⟨?_, ?_, rfl⟩
  any_goals exact Nat.zero_le _
  any_goals exact Nat.le_refl _
  any_goals exact mark_ne_unknown _
  any_goals exact either_ne_unknown _ _ _ _
  exact longest_slash_ne_unknown rest

/-- Digits at the front are cut off as a numeral. -/
theorem longest_of_digits {ds : List Char} (h : Digits (c :: ds)) (rest : List Char) :
    longest c (ds ++ rest) = (numeral, numeralLength (ds ++ rest)) :=
  longest_of_isDigit (h.2 c List.mem_cons_self) _

/-- A comment goes to the end of its line. -/
theorem longest_comment (cs : List Char) :
    longest '/' ('/' :: cs) = (blank, 1 + runLength (· != '\n') cs) := by
  rw [Nat.add_comm]
  rfl

/-- A lexeme at the front of a text is not longer than the one that is cut off, and alone it is cut
off with its own shape. -/
theorem Spelled.le_longest (h : Spelled shape (c :: cs)) (rest : List Char) :
    (longest c (cs ++ rest)).1 ≠ unknown ∧ cs.length ≤ (longest c (cs ++ rest)).2 ∧
      (longest c cs).1 = shape := by
  generalize htext : c :: cs = text at h
  cases h with
  | sign hsign =>
    subst htext
    exact longest_of_sign hsign rest
  | @word d ds hd hds =>
    cases htext
    rw [longest_of_startsWord hd, longest_of_startsWord hd, runLength_append_of_forall hds]
    exact ⟨nofun, Nat.le_add_right .., rfl⟩
  | @string inside hinside =>
    cases htext
    rw [List.append_assoc, List.singleton_append, longest_of_closed hinside,
      longest_of_closed hinside, List.length_append]
    exact ⟨nofun, Nat.le_refl _, rfl⟩
  | whole hds =>
    subst htext
    have hrest (d : Char) (hd : d ∈ cs) := hds.2 d (List.mem_cons_of_mem _ hd)
    have hlength : cs.length ≤ numeralLength (cs ++ rest) := by
      refine Nat.le_trans ?_ (runLength_le_numeralLength _)
      rw [runLength_append_of_forall hrest]
      exact Nat.le_add_right ..
    rw [longest_of_digits hds, longest_of_isDigit (hds.2 c List.mem_cons_self)]
    exact ⟨nofun, hlength, rfl⟩
  | @decimal ds es hds hes =>
    obtain ⟨d, ds, rfl⟩ := List.exists_cons_of_ne_nil hds.1
    obtain ⟨e, es, rfl⟩ := List.exists_cons_of_ne_nil hes.1
    rw [List.cons_append] at htext
    obtain ⟨rfl, rfl⟩ := List.cons.inj htext
    have hrest (x : Char) (hx : x ∈ ds) := hds.2 x (List.mem_cons_of_mem _ hx)
    have hmore (x : Char) (hx : x ∈ es) := hes.2 x (List.mem_cons_of_mem _ hx)
    have he := hes.2 e List.mem_cons_self
    rw [List.append_assoc, longest_of_digits hds, longest_of_digits hds, List.cons_append,
      List.cons_append, numeralLength_of_point hrest he, runLength_append_of_forall hmore]
    refine ⟨nofun, ?_, rfl⟩
    simp only [List.length_append, List.length_cons]
    omega
  | space _ hspace =>
    subst htext
    have hrest (d : Char) (hd : d ∈ cs) := hspace d (List.mem_cons_of_mem _ hd)
    rw [longest_of_isSpace (hspace c List.mem_cons_self),
      longest_of_isSpace (hspace c List.mem_cons_self), runLength_append_of_forall hrest]
    exact ⟨nofun, Nat.le_add_right .., rfl⟩
  | @comment more hmore =>
    cases htext
    have hrest (d : Char) (hd : d ∈ more) : (d != '\n') = true := by
      simpa using ne_of_mem_of_not_mem hd hmore
    rw [List.cons_append, longest_comment, longest_comment, runLength_append_of_forall hrest]
    refine ⟨nofun, ?_, rfl⟩
    rw [List.length_cons]
    omega

/-- A lexeme alone is cut off whole. -/
theorem Spelled.longest_eq (h : Spelled shape (c :: cs)) :
    longest c cs = (shape, cs.length) := by
  have hlongest := h.le_longest []
  rw [List.append_nil] at hlongest
  exact Prod.ext hlongest.2.2 (Nat.le_antisymm (longest_le c cs) hlongest.2.1)

end Shape

/-- The place of a text that starts at an offset. -/
def Span.over (offset : Nat) (text : List Char) : Span := ⟨offset, offset + Text.byteLength text⟩

namespace Lexeme

open Shape Text

/-! ### Cutting a text -/

/-- The text that starts at an offset, read as this token. -/
def place (offset : Nat) (text : List Char) (t : Token) : Lexeme where
  token := t
  text := text
  span := .over offset text

/-- The first text is a lexeme of this shape, and where the second follows it no longer one, of any
shape, begins. -/
structure Longest (shape : Shape) (text rest : List Char) : Prop where
  spelled : Spelled shape text
  length_le : ∀ {other : Shape} {longer : List Char}, Spelled other longer →
    longer <+: text ++ rest → longer.length ≤ text.length

/-- Nothing at the front of the text is a lexeme. -/
def Barren (cs : List Char) : Prop :=
  ∀ {shape : Shape} {text : List Char}, Spelled shape text → ¬ text <+: cs

/-- The text that starts at an offset is cut by the rule of the longest match into blanks, which
stand at the first places, and the lexemes of the last list. -/
inductive Cut : Nat → List Char → List Span → List Lexeme → Prop
  | nil (offset : Nat) : Cut offset [] [] []
  | blank {offset : Nat} {text rest : List Char} {blanks : List Span} {xs : List Lexeme} :
      Longest .blank text rest → Cut (offset + byteLength text) rest blanks xs →
      Cut offset (text ++ rest) (.over offset text :: blanks) xs
  | known {offset : Nat} {shape : Shape} {text rest : List Char} {t : Token} {blanks : List Span}
      {xs : List Lexeme} : Longest shape text rest → shape.token? text = some t →
      Cut (offset + byteLength text) rest blanks xs →
      Cut offset (text ++ rest) blanks (place offset text t :: xs)
  /-- A character that begins no lexeme. -/
  | stray {offset : Nat} {c : Char} {rest : List Char} {blanks : List Span} {xs : List Lexeme} :
      Barren (c :: rest) → c ≠ '"' → Cut (offset + byteLength [c]) rest blanks xs →
      Cut offset (c :: rest) blanks (place offset [c] .unknown :: xs)
  /-- A quote that is never closed. -/
  | unclosed {offset : Nat} {cs : List Char} : '"' ∉ cs →
      Cut offset ('"' :: cs) [] [place offset ('"' :: cs) .unknown]

/-- What is cut off is the longest lexeme. -/
theorem longest_isLongest {c : Char} {cs : List Char} (h : (longest c cs).1 ≠ unknown) :
    Longest (longest c cs).1 (c :: cs.take (longest c cs).2) (cs.drop (longest c cs).2) where
  spelled := spelled_longest h
  length_le {other longer} hlonger hfront := by
    obtain ⟨d, ds, rfl⟩ := List.exists_cons_of_ne_nil hlonger.ne_nil
    rw [List.cons_append, List.take_append_drop] at hfront
    obtain ⟨rfl, rest, rfl⟩ := List.cons_prefix_cons.1 hfront
    have hle := (hlonger.le_longest rest).2.1
    rw [List.length_cons, List.length_cons, List.length_take_of_le (longest_le ..)]
    omega

/-- Unknown text that begins with no quote is one character. -/
theorem longest_of_stray {c : Char} {cs : List Char} (h : (longest c cs).1 = unknown)
    (hc : c ≠ '"') : (longest c cs).2 = 0 := by
  have hslash := longest_slash_ne_unknown cs
  unfold longest at h ⊢
  split at h
  case h_15 => exact absurd h hslash
  case h_16 => exact absurd rfl hc
  case h_17 =>
    split at h
    · cases h
    split at h
    · cases h
    split at h
    · cases h
    · rename_i hspace hword hdigit
      rw [if_neg hspace, if_neg hword, if_neg hdigit]
  any_goals cases h
  all_goals exact absurd h (either_ne_unknown _ _ _ _)

/-- Where unknown text is cut off, no lexeme begins. It is one character, or a quote and all that
follows it. -/
theorem of_longest_eq_unknown {c : Char} {cs : List Char} (h : (longest c cs).1 = unknown) :
    Barren (c :: cs) ∧
      (c ≠ '"' ∧ (longest c cs).2 = 0 ∨ c = '"' ∧ '"' ∉ cs ∧ (longest c cs).2 = cs.length) := by
  refine ⟨fun {shape text} htext hfront ↦ ?_, ?_⟩
  · obtain ⟨d, ds, rfl⟩ := List.exists_cons_of_ne_nil htext.ne_nil
    obtain ⟨rfl, rest, rfl⟩ := List.cons_prefix_cons.1 hfront
    exact (htext.le_longest rest).1 h
  · by_cases hc : c = '"'
    · subst hc
      have hinside : '"' ∉ cs := fun hmem ↦ by
        obtain ⟨as, bs, rfl, has⟩ := List.eq_append_cons_of_mem hmem
        rw [longest_of_closed has] at h
        cases h
      have hrun : runLength (· != '"') cs = cs.length := by
        unfold runLength
        rw [List.takeWhile_eq_self_iff.2 fun d hd ↦ by
          simpa using ne_of_mem_of_not_mem hd hinside]
      refine .inr ⟨rfl, hinside, ?_⟩
      simp only [longest, hrun, Nat.lt_irrefl, if_false]
    · exact .inl ⟨hc, longest_of_stray h hc⟩

/-- Only blanks are no tokens. -/
theorem of_token?_eq_none {shape : Shape} {text : List Char} (h : shape.token? text = none) :
    shape = .blank := by
  cases shape with
  | blank => rfl
  | _ => cases h

/-- A text is scanned by the rule of the longest match. -/
theorem exists_cut (offset : Nat) (cs : List Char) :
    ∃ blanks, Cut offset cs blanks (scan offset cs) := by
  induction offset, cs using scan_induction with
  | nil offset =>
    rw [scan]
    exact ⟨[], .nil offset⟩
  | cons offset c cs ih =>
    obtain ⟨blanks, ih⟩ := ih
    by_cases hshape : (longest c cs).1 = unknown
    · obtain ⟨hbarren, ⟨hc, hmore⟩ | ⟨rfl, hcs, hmore⟩⟩ := of_longest_eq_unknown hshape
      · rw [hmore] at ih
        rw [scan_cons, hshape, hmore]
        exact ⟨blanks, .stray hbarren hc ih⟩
      · rw [scan_cons, hshape, hmore, List.take_length, List.drop_length, scan]
        exact ⟨[], .unclosed hcs⟩
    · have hlongest := longest_isLongest hshape
      have hcs : c :: cs = (c :: cs.take (longest c cs).2) ++ cs.drop (longest c cs).2 := by
        rw [List.cons_append, List.take_append_drop]
      rw [scan_cons]
      cases htoken : (longest c cs).1.token? (c :: cs.take (longest c cs).2) with
      | some t =>
        nth_rewrite 1 [hcs]
        exact ⟨blanks, .known hlongest htoken ih⟩
      | none =>
        rw [of_token?_eq_none htoken] at hlongest
        nth_rewrite 1 [hcs]
        exact ⟨_, .blank hlongest ih⟩

/-! ### Lexemes alone -/

/-- A lexeme that is read alone is read as the same token. -/
theorem scan_of_spelled {shape : Shape} {text : List Char} {t : Token}
    (h : Spelled shape text) (ht : shape.token? text = some t) (offset : Nat) :
    scan offset text = [place offset text t] := by
  obtain ⟨c, cs, rfl⟩ := List.exists_cons_of_ne_nil h.ne_nil
  rw [scan_cons, h.longest_eq, List.take_length, List.drop_length, ht, scan]
  rfl

/-- The token of a lexeme is known. -/
theorem isUnknown_of_spelled {shape : Shape} {text : List Char} {t : Token}
    (h : Spelled shape text) (ht : shape.token? text = some t) : t.isUnknown = false := by
  cases h with
  | sign => cases ht; rfl
  | word =>
    cases ht
    cases Mark.ofWord? _ <;> rfl
  | string => cases ht; rfl
  | whole => cases ht; rfl
  | decimal => cases ht; rfl
  | space => cases ht
  | comment => cases ht

end Lexeme

end LoxLang
