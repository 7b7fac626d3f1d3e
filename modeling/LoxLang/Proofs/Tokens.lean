import LoxLang.Program.OfTokens
import Mathlib.Data.List.Basic

/-!
# The tokens of a text

The tokens of a text stand one after another, so no two of them start at one offset, and a name is
never spelled like a keyword. A line break ends every token and every comment: the tokens of two
texts with a line break between them are the tokens of the first and then those of the second.
-/

namespace LoxLang

namespace Lexeme

open Shape Text

/-- The lexemes stand one after another between two offsets, and none of them is empty. -/
def Ordered (lo hi : Nat) : List Lexeme → Prop
  | [] => lo ≤ hi
  | x :: xs => lo ≤ x.span.start ∧ x.span.start < x.span.stop ∧ Ordered x.span.stop hi xs

theorem Ordered.le {lo hi : Nat} {xs : List Lexeme} (h : Ordered lo hi xs) : lo ≤ hi := by
  induction xs generalizing lo with
  | nil => exact h
  | cons x xs ih =>
    obtain ⟨hlo, hx, hxs⟩ := h
    have hhi := ih hxs
    omega

theorem Ordered.mono {lo lo' hi : Nat} {xs : List Lexeme} (h : Ordered lo hi xs) (hlo : lo' ≤ lo) :
    Ordered lo' hi xs := by
  cases xs with
  | nil => exact Nat.le_trans hlo h
  | cons x xs => exact ⟨Nat.le_trans hlo h.1, h.2⟩

/-- Where the lexemes start. -/
def starts (xs : List Lexeme) : List Nat := xs.map (·.span.start)

theorem Ordered.start_mem {lo hi : Nat} {xs : List Lexeme} (h : Ordered lo hi xs) {n : Nat}
    (hn : n ∈ starts xs) : lo ≤ n ∧ n < hi := by
  induction xs generalizing lo with
  | nil => cases hn
  | cons x xs ih =>
    obtain ⟨hlo, hx, hxs⟩ := h
    have hhi := hxs.le
    rcases List.mem_cons.1 hn with hn | hn
    · simp only at hn
      omega
    · have hrest := ih hxs hn
      omega

/-- No two lexemes start at one offset. -/
theorem Ordered.nodup {lo hi : Nat} {xs : List Lexeme} (h : Ordered lo hi xs) :
    (starts xs).Nodup := by
  induction xs generalizing lo with
  | nil => exact List.nodup_nil
  | cons x xs ih =>
    obtain ⟨hlo, hx, hxs⟩ := h
    refine List.nodup_cons.2 ⟨fun hmem ↦ ?_, ih hxs⟩
    have hstart := hxs.start_mem hmem
    simp only at hstart
    omega

/-! ### Scanning -/

/-- What is left of a text is scanned after its first lexeme, which is dropped if it is blank. -/
theorem scan_cons (offset : Nat) (c : Char) (cs : List Char) :
    scan offset (c :: cs) =
      (((longest c cs).1.token? (c :: cs.take (longest c cs).2)).map fun t ↦
        { token := t, text := c :: cs.take (longest c cs).2,
          span := ⟨offset, offset + byteLength (c :: cs.take (longest c cs).2)⟩ : Lexeme }).toList
      ++ scan (offset + byteLength (c :: cs.take (longest c cs).2)) (cs.drop (longest c cs).2) := by
  rw [scan]
  obtain ⟨shape, more⟩ := longest c cs
  cases h : shape.token? (c :: cs.take more) <;> simp [h]

/-- What holds of the empty text, and of a text if it holds of what is left after its first lexeme,
holds of every text. -/
theorem scan_induction {P : Nat → List Char → Prop} (nil : ∀ offset, P offset [])
    (cons : ∀ offset c cs, P (offset + byteLength (c :: cs.take (longest c cs).2))
      (cs.drop (longest c cs).2) → P offset (c :: cs)) (offset : Nat) (cs : List Char) :
    P offset cs := by
  induction offset, cs using scan.induct with
  | case1 offset => exact nil offset
  | case2 offset c cs shape more h _ _ _ ih => exact cons offset c cs (by rw [h]; exact ih)
  | case3 offset c cs shape more h _ _ _ _ ih => exact cons offset c cs (by rw [h]; exact ih)

theorem byteLength_take_add_drop (n : Nat) (cs : List Char) :
    byteLength (cs.take n) + byteLength (cs.drop n) = byteLength cs := by
  rw [← byteLength_append, List.take_append_drop]

/-- The lexemes of a text stand in it one after another. -/
theorem ordered_scan (offset : Nat) (cs : List Char) :
    Ordered offset (offset + byteLength cs) (scan offset cs) := by
  induction offset, cs using scan_induction with
  | nil offset =>
    rw [scan]
    exact Nat.le_add_right ..
  | cons offset c cs ih =>
    have hsize := c.utf8Size_pos
    have hlength := byteLength_take_add_drop (longest c cs).2 cs
    rw [byteLength_cons] at *
    rw [scan_cons, show offset + (c.utf8Size + byteLength cs) = offset +
      (c.utf8Size + byteLength (cs.take (longest c cs).2)) +
        byteLength (cs.drop (longest c cs).2) by omega]
    cases (longest c cs).1.token? (c :: cs.take (longest c cs).2) with
    | none => exact ih.mono (Nat.le_add_right ..)
    | some t =>
      refine ⟨Nat.le_refl _, ?_, ih⟩
      show offset < offset + _
      rw [byteLength_cons]
      omega

/-- A name is not spelled like a keyword. -/
theorem ofWord?_of_mem_scan {offset : Nat} {cs : List Char} {x : Lexeme} {n : String}
    (hx : x ∈ scan offset cs) (hn : x.token = .identifier n) : Mark.ofWord? n.toList = none := by
  induction offset, cs using scan_induction with
  | nil offset =>
    rw [scan] at hx
    cases hx
  | cons offset c cs ih =>
    rw [scan_cons, List.mem_append] at hx
    rcases hx with hx | hx
    · simp only [Option.mem_toList, Option.map_eq_some_iff] at hx
      obtain ⟨t, ht, rfl⟩ := hx
      cases hshape : (longest c cs).1 with
      | word =>
        rw [hshape, token?, Option.some.injEq] at ht
        cases hword : Mark.ofWord? (c :: cs.take (longest c cs).2) with
        | none =>
          rw [hword] at ht
          obtain rfl : n = String.ofList _ := Token.identifier.inj (hn.symm.trans ht.symm)
          rw [String.toList_ofList]
          exact hword
        | some m =>
          rw [hword] at ht
          cases ht.trans hn
      | _ =>
        rw [hshape] at ht
        cases ht
        try cases hn
    · exact ih hx

/-! ### Two texts -/

theorem longest_of_isSpace {c : Char} (hc : isSpace c = true) (cs : List Char) :
    longest c cs = (blank, runLength isSpace cs) := by
  simp only [isSpace, Bool.or_eq_true, beq_iff_eq] at hc
  rcases hc with (((rfl | rfl) | rfl) | rfl) | rfl <;> rfl

/-- White space is scanned as well one character at a time. -/
theorem scan_space {c : Char} (hc : isSpace c = true) (offset : Nat) (cs : List Char) :
    scan offset (c :: cs) = scan (offset + c.utf8Size) cs := by
  rw [scan_cons, longest_of_isSpace hc]
  cases cs with
  | nil => rfl
  | cons d cs =>
    by_cases hd : isSpace d
    · rw [scan_cons _ d, longest_of_isSpace hd]
      simp [token?, runLength, hd, Nat.add_assoc]
    · simp [token?, runLength, hd]

theorem runLength_append {p : Char → Bool} {d : Char} (hd : p d = false) (cs ds : List Char) :
    runLength p (cs ++ d :: ds) = runLength p cs := by
  induction cs with
  | nil => simp [runLength, hd]
  | cons c cs ih =>
    simp only [runLength, List.cons_append, List.takeWhile_cons] at *
    split <;> simp [ih]

theorem runLength_append_of_lt {p : Char → Bool} {cs : List Char}
    (h : runLength p cs < cs.length) (ds : List Char) :
    runLength p (cs ++ ds) = runLength p cs := by
  induction cs with
  | nil => cases h
  | cons c cs ih =>
    simp only [runLength, List.cons_append, List.takeWhile_cons, List.length_cons] at *
    split
    · rename_i hc
      rw [if_pos hc, List.length_cons] at h
      rw [List.length_cons, List.length_cons, ih (by omega)]
    · rfl

theorem runLength_le (p : Char → Bool) (cs : List Char) : runLength p cs ≤ cs.length :=
  (List.takeWhile_sublist p).length_le

theorem numeralLength_append (cs ds : List Char) :
    numeralLength (cs ++ '\n' :: ds) = numeralLength cs := by
  simp only [numeralLength, runLength_append (p := Char.isDigit) (d := '\n') (by decide)]
  rw [List.drop_append_of_le_length (runLength_le _ cs)]
  rcases cs.drop (runLength Char.isDigit cs) with - | ⟨e, - | ⟨d, more⟩⟩
  · rfl
  · by_cases he : e = '.' <;> simp [he]
  · by_cases he : e = '.'
    · subst he
      simp only [List.cons_append, runLength_append (p := Char.isDigit) (d := '\n') (by decide)]
    · simp [he]

theorem either_append {second : Char} (h : second ≠ '\n') (double single : Mark)
    (cs ds : List Char) :
    either second double single (cs ++ '\n' :: ds) = either second double single cs := by
  cases cs with
  | nil => simp [either, h.symm]
  | cons c cs => rfl

/-- A line break ends every lexeme that is neither white space nor unknown text. -/
theorem longest_append {c : Char} {cs : List Char} (hspace : isSpace c = false)
    (hknown : (longest c cs).1 ≠ unknown) (ds : List Char) :
    longest c (cs ++ '\n' :: ds) = longest c cs := by
  unfold longest at *
  split
  any_goals rfl
  any_goals exact either_append (by decide) _ _ cs ds
  · rcases cs with - | ⟨e, cs⟩
    · rfl
    · by_cases he : e = '/'
      · subst he
        simp only [List.cons_append]
        rw [← List.cons_append, runLength_append (by decide)]
      · simp [he]
  · simp only at hknown ⊢
    split at hknown
    · rename_i hclosed
      rw [runLength_append_of_lt hclosed, if_pos hclosed, if_pos]
      rw [List.length_append]
      omega
    · cases hknown rfl
  · rw [hspace]
    simp only [Bool.false_eq_true, if_false]
    rw [runLength_append (by decide), numeralLength_append]

theorem numeralLength_le (cs : List Char) : numeralLength cs ≤ cs.length := by
  have hwhole := runLength_le Char.isDigit cs
  have hdrop : (cs.drop (runLength Char.isDigit cs)).length =
      cs.length - runLength Char.isDigit cs := List.length_drop
  simp only [numeralLength]
  split
  · rename_i d more heq
    have hmore := runLength_le Char.isDigit more
    rw [heq, List.length_cons, List.length_cons] at hdrop
    split <;> omega
  · exact hwhole

theorem either_le (second : Char) (double single : Mark) (cs : List Char) :
    (either second double single cs).2 ≤ cs.length := by
  unfold either
  split
  · split <;> simp
  · exact Nat.zero_le _

/-- A lexeme does not end after its text. -/
theorem longest_le (c : Char) (cs : List Char) : (longest c cs).2 ≤ cs.length := by
  unfold longest
  split
  any_goals exact Nat.zero_le _
  any_goals exact either_le _ _ _ cs
  · split
    · exact runLength_le _ _
    · exact Nat.zero_le _
  · simp only
    split
    · assumption
    · exact runLength_le _ cs
  · split
    · exact runLength_le _ cs
    · split
      · exact runLength_le _ cs
      · split
        · exact numeralLength_le cs
        · exact Nat.zero_le _

/-- A line break separates the lexemes before it from those after it. -/
theorem scan_append {offset : Nat} {cs : List Char}
    (hknown : ∀ x ∈ scan offset cs, x.token.isUnknown = false) (ds : List Char) :
    scan offset (cs ++ '\n' :: ds) =
      scan offset cs ++ scan (offset + byteLength cs + 1) ds := by
  induction hlength : cs.length using Nat.strongRecOn generalizing offset cs with
  | ind n ih =>
    cases cs with
    | nil =>
      rw [List.nil_append, scan_space rfl, scan]
      rfl
    | cons c cs =>
      rw [List.cons_append]
      by_cases hspace : isSpace c = true
      · rw [scan_space hspace] at hknown ⊢
        rw [scan_space hspace, ih cs.length (by simp [← hlength]) hknown rfl, byteLength_cons,
          ← Nat.add_assoc offset]
      · replace hspace : isSpace c = false := by simpa using hspace
        rw [scan_cons] at hknown
        have hshape : (longest c cs).1 ≠ unknown := by
          intro hunknown
          rw [hunknown] at hknown
          cases hknown _ (List.mem_append_left _ (List.mem_singleton_self _))
        have hle := longest_le c cs
        have hsize := byteLength_take_add_drop (longest c cs).2 cs
        rw [scan_cons, longest_append hspace hshape, List.take_append_of_le_length hle,
          List.drop_append_of_le_length hle,
          ih _ (by rw [← hlength, List.length_drop, List.length_cons]; omega)
            (fun x hx ↦ hknown x (List.mem_append_right _ hx)) rfl,
          scan_cons offset c cs, List.append_assoc, byteLength_cons, byteLength_cons]
        congr 3
        omega

/-! ### Faults -/

/-- A stretch of unknown text that is not reported yet will be. -/
theorem faultsOf_report_some (stretch : Lexeme) (xs : List Lexeme) :
    Program.faultsOf (report (some stretch) xs) ≠ [] := by
  induction xs generalizing stretch with
  | nil => simp [report, Program.faultsOf]
  | cons x xs ih =>
    rw [report]
    split
    · exact ih _
    · simp [Program.faultsOf]

/-- A text that is reported without a fault has no unknown text, and all its lexemes are tokens. -/
theorem of_faultsOf_report {xs : List Lexeme} (h : Program.faultsOf (report none xs) = []) :
    report none xs = xs.map .ok ∧ ∀ x ∈ xs, x.token.isUnknown = false := by
  induction xs with
  | nil => exact ⟨rfl, nofun⟩
  | cons x xs ih =>
    rw [report] at h ⊢
    split at h
    · simp [Program.faultsOf] at h
    · split at h
      · exact absurd h (faultsOf_report_some x xs)
      · rename_i hclosed hknown
        obtain ⟨heq, hxs⟩ := ih (by simpa [Program.faultsOf] using h)
        rw [if_neg hclosed, if_neg hknown, heq]
        refine ⟨rfl, fun y hy ↦ ?_⟩
        rcases List.mem_cons.1 hy with rfl | hy
        · simpa using hknown
        · exact hxs y hy

/-- Known lexemes are passed on, whatever follows them. -/
theorem report_append {xs : List Lexeme} (h : ∀ x ∈ xs, x.token.isUnknown = false)
    (ys : List Lexeme) : report none (xs ++ ys) = xs.map .ok ++ report none ys := by
  induction xs with
  | nil => rfl
  | cons x xs ih =>
    obtain ⟨hx, hxs⟩ := List.forall_mem_cons.1 h
    rw [List.cons_append, report, isUnclosed, hx, ih hxs]
    rfl

theorem report_of_known {xs : List Lexeme} (h : ∀ x ∈ xs, x.token.isUnknown = false) :
    report none xs = xs.map .ok := by
  have hreport := report_append h []
  rwa [List.append_nil, report, List.append_nil] at hreport

end Lexeme

end LoxLang
