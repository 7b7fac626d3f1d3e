import LoxLang.Text.Quoted
import Mathlib.Data.List.Basic

/-!
# Where a quotation ends

A quoted text is told from what is shown of it, and it is also told where the quotation ends: two
texts that begin with quotations are equal only if the quoted texts are equal and what stands behind
them is (`Text.quoted_append_inj`). A character is shown as itself, by a letter behind a backslash
or by its code (`Text.Escaped`); which of the three it is shows at the front, and a code ends with
its brace.
-/

namespace LoxLang

namespace Text

/-- A text is cut in one way only where a property of its characters ends. -/
theorem eq_of_append_eq_append {p : Char → Bool} {front front' rest rest' : List Char}
    (hfront : ∀ c ∈ front, p c = true) (hfront' : ∀ c ∈ front', p c = true)
    (hrest : ∀ c ∈ rest.head?, p c = false) (hrest' : ∀ c ∈ rest'.head?, p c = false)
    (h : front ++ rest = front' ++ rest') : front = front' ∧ rest = rest' := by
  induction front generalizing front' with
  | nil =>
    cases front' with
    | nil => exact ⟨rfl, h⟩
    | cons c front' =>
      rw [List.nil_append, List.cons_append] at h
      have hc := hrest c (h ▸ rfl)
      rw [hfront' c List.mem_cons_self] at hc
      cases hc
  | cons c front ih =>
    cases front' with
    | nil =>
      rw [List.nil_append, List.cons_append] at h
      have hc := hrest' c (h ▸ rfl)
      rw [hfront c List.mem_cons_self] at hc
      cases hc
    | cons c' front' =>
      obtain ⟨rfl, htail⟩ := List.cons.inj h
      obtain ⟨rfl, hrest⟩ := ih (fun d hd ↦ hfront d (List.mem_cons_of_mem _ hd))
        (fun d hd ↦ hfront' d (List.mem_cons_of_mem _ hd)) htail
      exact ⟨rfl, hrest⟩

/-! ### Hexadecimal digits -/

theorem digitChar_inj {m n : Nat} (hm : m < 16) (hn : n < 16) (h : m.digitChar = n.digitChar) :
    m = n := by
  have hall : ∀ m n : Fin 16, m.val.digitChar = n.val.digitChar → m = n := by decide
  exact congrArg Fin.val (hall ⟨m, hm⟩ ⟨n, hn⟩ h)

theorem toDigits_inj {m n : Nat} (h : Nat.toDigits 16 m = Nat.toDigits 16 n) : m = n := by
  induction m using Nat.strongRecOn generalizing n with
  | ind m ih =>
    rw [Nat.toDigits_eq_if (by decide), Nat.toDigits_eq_if (n := n) (by decide)] at h
    split at h <;> split at h
    · rename_i hm hn
      exact digitChar_inj hm hn (List.singleton_inj.1 h)
    · exact absurd (List.append_eq_singleton_iff.1 h.symm) (by simp [Nat.toDigits_ne_nil])
    · exact absurd (List.append_eq_singleton_iff.1 h) (by simp [Nat.toDigits_ne_nil])
    · rename_i hm hn
      obtain ⟨hfront, hlast⟩ := List.append_inj' h rfl
      have hdiv := ih (m / 16) (by omega) hfront
      have hmod := digitChar_inj (Nat.mod_lt _ (by decide)) (Nat.mod_lt _ (by decide))
        (List.singleton_inj.1 hlast)
      omega

/-- No digit is a closing brace. -/
theorem ne_brace_of_mem_toDigits {n : Nat} {c : Char} (h : c ∈ Nat.toDigits 16 n) :
    c ≠ '\x7d' := by
  have hdigit {k : Nat} (hk : k < 16) : k.digitChar ≠ '\x7d' := by
    have hall : ∀ m : Fin 16, m.val.digitChar ≠ '\x7d' := by decide
    exact hall ⟨k, hk⟩
  induction n using Nat.strongRecOn with
  | ind n ih =>
    rw [Nat.toDigits_eq_if (by decide)] at h
    split at h
    · rename_i hn
      rw [List.mem_singleton.1 h]
      exact hdigit hn
    · rcases List.mem_append.1 h with h | h
      · exact ih (n / 16) (by omega) h
      · rw [List.mem_singleton.1 h]
        exact hdigit (Nat.mod_lt _ (by decide))

/-! ### Escapes -/

/-- The characters that stand behind a backslash as letters, and the letters. -/
def letters : List (Char × Char) :=
  [('"', '"'), ('\\', '\\'), ('\n', 'n'), ('\r', 'r'), ('\t', 't'), ('\x00', '0')]

/-- How a character stands in a quotation. -/
inductive Escaped (c : Char) : List Char → Prop
  | letter {k : Char} (h : (c, k) ∈ letters) : Escaped c ['\\', k]
  | code : Escaped c (escapeCode c)
  | plain (hquote : c ≠ '"') (hbackslash : c ≠ '\\') : Escaped c [c]

theorem escaped_escape (c : Char) : Escaped c (escape c) := by
  fun_cases escape c with
  | case1 | case2 | case3 | case4 | case5 | case6 => exact .letter (by decide)
  | case7 => exact .code
  | case8 _ hquote hbackslash => exact .plain hquote hbackslash

variable {c d : Char} {cs ds u v : List Char}

theorem Escaped.head_ne (h : Escaped c cs) : (cs ++ u).head? ≠ some '"' := by
  cases h with
  | letter | code => simp [escapeCode]
  | plain hquote => simpa using hquote

theorem letters_inj {k : Char} (hc : (c, k) ∈ letters) (hd : (d, k) ∈ letters) : c = d := by
  have hall : ∀ p ∈ letters, ∀ q ∈ letters, p.2 = q.2 → p.1 = q.1 := by decide
  exact hall _ hc _ hd rfl

theorem ne_u_of_mem_letters {k : Char} (h : (c, k) ∈ letters) : k ≠ 'u' := by
  have hall : ∀ p ∈ letters, p.2 ≠ 'u' := by decide
  exact hall _ h

theorem escapeCode_append_inj (h : escapeCode c ++ u = escapeCode d ++ v) : c = d ∧ u = v := by
  have hbrace (c : Char) : ∀ x ∈ Nat.toDigits 16 c.toNat, decide (x ≠ '\x7d') = true :=
    fun x hx ↦ decide_eq_true (ne_brace_of_mem_toDigits hx)
  simp only [escapeCode, List.append_assoc] at h
  obtain ⟨hdigits, hrest⟩ := eq_of_append_eq_append (hbrace c) (hbrace d) (by simp) (by simp)
    (List.append_cancel_left h)
  exact ⟨Char.toNat_inj.1 (toDigits_inj hdigits), (List.cons.inj hrest).2⟩

/-- A character is told by how it stands in a quotation, whatever follows. -/
theorem Escaped.append_inj (hc : Escaped c cs) (hd : Escaped d ds) (h : cs ++ u = ds ++ v) :
    c = d ∧ u = v := by
  have hne {k : Char} {w w' : List Char} (hk : (c, k) ∈ letters ∨ (d, k) ∈ letters) :
      '\\' :: k :: w ≠ '\\' :: 'u' :: w' := by
    intro h
    obtain rfl := (List.cons.inj (List.cons.inj h).2).1
    exact hk.elim (fun h ↦ ne_u_of_mem_letters h rfl) fun h ↦ ne_u_of_mem_letters h rfl
  cases hc with
  | letter hk =>
    cases hd with
    | letter hk' =>
      obtain ⟨rfl, hrest⟩ := List.cons.inj (List.cons.inj h).2
      exact ⟨letters_inj hk hk', hrest⟩
    | code => exact absurd h (hne (.inl hk))
    | plain _ hbackslash => exact absurd (List.cons.inj h).1.symm hbackslash
  | code =>
    cases hd with
    | letter hk => exact absurd h.symm (hne (.inr hk))
    | code => exact escapeCode_append_inj h
    | plain _ hbackslash => exact absurd (List.cons.inj h).1.symm hbackslash
  | plain _ hbackslash =>
    cases hd with
    | letter | code => exact absurd (List.cons.inj h).1 hbackslash
    | plain => exact List.cons.inj h

theorem flatMap_escape_append_inj
    (h : cs.flatMap escape ++ '"' :: u = ds.flatMap escape ++ '"' :: v) : cs = ds ∧ u = v := by
  induction cs generalizing ds with
  | nil =>
    cases ds with
    | nil => exact ⟨rfl, (List.cons.inj h).2⟩
    | cons d ds =>
      rw [List.flatMap_cons, List.append_assoc] at h
      exact absurd (congrArg List.head? h).symm (escaped_escape d).head_ne
  | cons c cs ih =>
    rw [List.flatMap_cons, List.append_assoc] at h
    cases ds with
    | nil => exact absurd (congrArg List.head? h) (escaped_escape c).head_ne
    | cons d ds =>
      rw [List.flatMap_cons, List.append_assoc] at h
      obtain ⟨rfl, hrest⟩ := (escaped_escape c).append_inj (escaped_escape d) h
      obtain ⟨rfl, huv⟩ := ih hrest
      exact ⟨rfl, huv⟩

/-- A quotation tells its text and where it ends. -/
theorem quoted_append_inj {s t : String} (h : (quoted s).toList ++ u = (quoted t).toList ++ v) :
    s = t ∧ u = v := by
  unfold quoted at h
  simp only [String.toList_ofList, List.cons_append, List.append_assoc, List.nil_append] at h
  obtain ⟨hlist, huv⟩ := flatMap_escape_append_inj (List.cons.inj h).2
  exact ⟨String.toList_inj.1 hlist, huv⟩

end Text

end LoxLang
