import LoxLang.Proofs.Shapes
import Mathlib.Data.List.SplitBy

/-!
# Stretches of unknown text

A text may hold characters that begin no lexeme, and a string that is never closed. Each longest
stretch of such characters should be one fault, such a string another, and no token should stand for
unknown text. This is so exactly if no stretch, and no such string, comes right behind another
stretch (`Lexeme.read_reported_iff`). Otherwise the lexeme behind a stretch has been looked at
before the fault of the stretch is given, and it is either taken for more of the stretch or passed
on as a token.
-/

namespace LoxLang

/-- Whether the fault is that some text begins no token. -/
def Fault.isUnexpectedInput (e : Fault) : Bool :=
  match e.cause with
  | .unexpectedInput _ => true
  | _ => false

namespace Lexeme

open Shape Text

variable {offset lo hi : Nat} {cs : List Char} {blanks : List Span} {xs rest : List Lexeme}
  {x y : Lexeme}

/-! ### What should be reported -/

/-- Whether the lexeme is a character that begins no token, and not a string that is never
closed. -/
def isStray (x : Lexeme) : Bool := x.token.isUnknown && !x.isUnclosed

/-- The longest stretches of such characters that touch one another. -/
def stretches (xs : List Lexeme) : List (List Lexeme) :=
  (xs.filter isStray).splitBy fun x y ↦ x.span.meets y.span

/-- Lexemes that touch, as one of unknown text: from the first of them to the last. -/
def merged (xs : List Lexeme) : Lexeme where
  token := .unknown
  text := xs.flatMap (·.text)
  span := ⟨xs.head?.elim 0 (·.span.start), xs.getLast?.elim 0 (·.span.stop)⟩

/-- All unknown text among the lexemes is reported: each longest stretch of characters by one fault,
which names it, each string that is never closed by another, and none comes out as a token. -/
structure Reported (xs : List Lexeme) (items : List (Except Fault Lexeme)) : Prop where
  unexpected : (Program.faultsOf items).filter (·.isUnexpectedInput) =
    (stretches xs).map fun run ↦ (merged run).unexpected
  unterminated : ∀ x ∈ xs, x.isUnclosed = true → .error ⟨.unterminatedString, x.span⟩ ∈ items
  known : ∀ x, .ok x ∈ items → x.token.isUnknown = false

/-- If both lexemes are unknown text, they are of one stretch. -/
def Continues (x y : Lexeme) : Prop :=
  x.token.isUnknown = true → y.token.isUnknown = true →
    x.span.meets y.span = true ∧ y.isUnclosed = false

/-- Where unknown text follows unknown text, with nothing or only blanks between, it is more of the
same stretch. -/
def Separate (xs : List Lexeme) : Prop := xs.IsChain Continues

theorem continues_of_known_left (h : x.token.isUnknown = false) (y : Lexeme) : Continues x y :=
  fun hx ↦ absurd (h.symm.trans hx) Bool.false_ne_true

theorem continues_of_known_right (x : Lexeme) (h : y.token.isUnknown = false) : Continues x y :=
  fun _ hy ↦ absurd (h.symm.trans hy) Bool.false_ne_true

/-! ### Strings that are never closed -/

/-- Nothing follows a string that is never closed. -/
theorem Cut.isChain_not_unclosed (h : Cut offset cs blanks xs) :
    xs.IsChain fun x _ ↦ x.isUnclosed = false := by
  induction h with
  | nil => exact .nil
  | blank _ _ ih => exact ih
  | known hlongest ht _ ih =>
    refine List.isChain_cons.2 ⟨fun _ _ ↦ ?_, ih⟩
    unfold isUnclosed place
    rw [isUnknown_of_spelled hlongest.spelled ht]
    rfl
  | @stray offset c rest _ _ _ hc _ ih =>
    refine List.isChain_cons.2 ⟨fun _ _ ↦ ?_, ih⟩
    simpa [isUnclosed, place] using fun _ ↦ hc
  | unclosed => exact .singleton _

/-! ### One lexeme after another -/

/-- A lexeme is a string that is never closed, a character that begins no token, or known. -/
theorem kinds (x : Lexeme) :
    x.isUnclosed = true ∨ x.isStray = true ∨ x.token.isUnknown = false := by
  cases hclosed : x.isUnclosed <;> cases hknown : x.token.isUnknown <;> simp [isStray, *]

/-- A character that begins no token is unknown text, and it is no string that is never closed. -/
theorem isStray_iff : x.isStray = true ↔ x.token.isUnknown = true ∧ x.isUnclosed = false := by
  simp [isStray]

@[simp]
theorem isUnknown_join (x y : Lexeme) : (x.join y).token.isUnknown = true := rfl

theorem isUnclosed_of_known (h : x.token.isUnknown = false) : x.isUnclosed = false := by
  simp [isUnclosed, h]

/-- A string that is never closed is reported by itself if no stretch comes before it. -/
theorem report_unclosed (h : x.isUnclosed = true) (rest : List Lexeme) :
    report none (x :: rest) = .error ⟨.unterminatedString, x.span⟩ :: report none rest := by
  rw [report, if_pos h]

/-- A character that begins no token begins a stretch. -/
theorem report_stray (h : x.isStray = true) (rest : List Lexeme) :
    report none (x :: rest) = report (some x) rest := by
  obtain ⟨hunknown, hclosed⟩ := isStray_iff.1 h
  rw [report, hclosed, hunknown]
  rfl

/-- A token comes out if no stretch comes before it. -/
theorem report_known (h : x.token.isUnknown = false) (rest : List Lexeme) :
    report none (x :: rest) = .ok x :: report none rest := by
  rw [report, isUnclosed_of_known h, h]
  rfl

/-- Unknown text that touches a stretch is joined to it. -/
theorem report_touching (h : x.token.isUnknown = true) (hmeets : y.span.meets x.span = true)
    (rest : List Lexeme) : report (some y) (x :: rest) = report (some (y.join x)) rest := by
  rw [report, h, hmeets]
  rfl

/-- What does not touch a stretch comes out as a token behind the fault of the stretch. -/
theorem report_passed (h : x.token.isUnknown = true → y.span.meets x.span = false)
    (rest : List Lexeme) :
    report (some y) (x :: rest) = .error y.unexpected :: .ok x :: report none rest := by
  rw [report, if_neg]
  intro htouch
  obtain ⟨hunknown, hmeets⟩ := Bool.and_eq_true_iff.1 htouch
  exact absurd ((h hunknown).symm.trans hmeets) Bool.false_ne_true

/-! ### Where all is reported -/

/-- Every string that is never closed is reported, and no token is unknown text. -/
structure Told (xs : List Lexeme) (items : List (Except Fault Lexeme)) : Prop where
  unterminated : ∀ x ∈ xs, x.isUnclosed = true → .error ⟨.unterminatedString, x.span⟩ ∈ items
  known : ∀ x, .ok x ∈ items → x.token.isUnknown = false

theorem Told.tail {items : List (Except Fault Lexeme)} (h : Told (x :: xs) items) :
    Told xs items :=
  ⟨fun z hz ↦ h.unterminated z (List.mem_cons_of_mem _ hz), h.known⟩

/-- Items that report no string do not count. -/
theorem Told.afresh (first : List (Except Fault Lexeme)) {items : List (Except Fault Lexeme)}
    (h : Told xs (first ++ items))
    (hfirst : ∀ s, .error ⟨.unterminatedString, s⟩ ∉ first) : Told xs items where
  unterminated z hz hc := (List.mem_append.1 (h.unterminated z hz hc)).resolve_left (hfirst _)
  known z hz := h.known z (List.mem_append_right _ hz)

/-- Nothing stands behind a string that is never closed. -/
theorem eq_nil_of_isUnclosed (hchain : (x :: rest).IsChain fun x _ ↦ x.isUnclosed = false)
    (hopen : x.isUnclosed = true) : rest = [] := by
  cases rest with
  | nil => rfl
  | cons y _ =>
    have hclosed := (List.isChain_cons_cons.1 hchain).1
    exact absurd (hclosed.symm.trans hopen) Bool.false_ne_true

/-- A token keeps unknown text apart. -/
theorem Separate.cons_of_known (h : Separate xs) (hx : x.token.isUnknown = false) :
    Separate (x :: xs) :=
  List.isChain_cons.2 ⟨fun y _ ↦ continues_of_known_left hx y, h⟩

/-- If every string that is never closed is reported and no token is unknown text, then stretches do
not follow one another. A stretch that is not reported yet counts as one lexeme. -/
theorem separate_of_told (stretch : Option Lexeme)
    (hchain : xs.IsChain fun x _ ↦ x.isUnclosed = false)
    (hstretch : ∀ y ∈ stretch, y.token.isUnknown = true) (h : Told xs (report stretch xs)) :
    Separate (stretch.toList ++ xs) := by
  fun_induction report stretch xs with
  | case1 => exact .nil
  | case2 y => exact .singleton y
  | case3 x rest hopen _ =>
    rw [eq_nil_of_isUnclosed hchain hopen]
    exact .singleton x
  | case4 x rest _ hx ih =>
    exact ih (List.isChain_cons.1 hchain).2 (by simpa using hx) h.tail
  | case5 x rest _ hx ih =>
    have htold := h.tail.afresh [.ok x] (by simp)
    exact (ih (List.isChain_cons.1 hchain).2 (by simp) htold).cons_of_known (by simpa using hx)
  | case6 y x rest htouch ih =>
    obtain ⟨hx, hmeets⟩ := Bool.and_eq_true_iff.1 htouch
    have hclosed : x.isUnclosed = false := eq_false_of_ne_true fun hopen ↦ by
      rw [eq_nil_of_isUnclosed hchain hopen] at h
      have herror := h.unterminated x List.mem_cons_self hopen
      simp [report, unexpected] at herror
    have hjoin := ih (List.isChain_cons.1 hchain).2 (by simp) h.tail
    refine List.isChain_cons_cons.2 ⟨fun _ _ ↦ ⟨hmeets, hclosed⟩, ?_⟩
    -- the joined stretch ends where its last character does
    obtain ⟨hnext, htail⟩ := List.isChain_cons.1 hjoin
    exact List.isChain_cons.2 ⟨fun z hz _ hunknown ↦ hnext z hz rfl hunknown, htail⟩
  | case7 y x rest _ ih =>
    have hx : x.token.isUnknown = false := h.known x (by simp)
    have htold := h.tail.afresh [.error y.unexpected, .ok x] (by simp [unexpected])
    have hrest := (ih (List.isChain_cons.1 hchain).2 (by simp) htold).cons_of_known hx
    exact List.isChain_cons_cons.2 ⟨continues_of_known_right y hx, hrest⟩

/-- No string that is never closed comes next behind unknown text. -/
def Unhidden (xs : List Lexeme) : Prop :=
  xs.IsChain fun x y ↦ y.isUnclosed = true → x.token.isUnknown = false

/-- Where stretches do not follow one another, no string is hidden behind one. -/
theorem Separate.unhidden (h : Separate xs) : Unhidden xs :=
  List.IsChain.imp (fun x y hxy hopen ↦ eq_false_of_ne_true fun hx ↦ by
    have hclosed := (hxy hx (Bool.and_eq_true_iff.1 hopen).1).2
    exact absurd (hclosed.symm.trans hopen) Bool.false_ne_true) h

/-- A string that is never closed is reported if no unknown text stands next before it. -/
theorem unterminated_mem_report (stretch : Option Lexeme)
    (hstretch : ∀ y ∈ stretch, y.token.isUnknown = true) (h : Unhidden (stretch.toList ++ xs)) :
    ∀ x ∈ xs, x.isUnclosed = true → .error ⟨.unterminatedString, x.span⟩ ∈ report stretch xs := by
  fun_induction report stretch xs with
  | case1 | case2 => exact nofun
  | case3 x rest _ ih =>
    refine List.forall_mem_cons.2 ⟨fun _ ↦ List.mem_cons_self, fun z hz hopen ↦ ?_⟩
    exact List.mem_cons_of_mem _ (ih (by simp) (List.isChain_cons.1 h).2 z hz hopen)
  | case4 x rest hclosed hx ih =>
    exact List.forall_mem_cons.2 ⟨fun hopen ↦ absurd hopen hclosed, ih (by simpa using hx) h⟩
  | case5 x rest hclosed _ ih =>
    refine List.forall_mem_cons.2 ⟨fun hopen ↦ absurd hopen hclosed, fun z hz hopen ↦ ?_⟩
    exact List.mem_cons_of_mem _ (ih (by simp) (List.isChain_cons.1 h).2 z hz hopen)
  | case6 y x rest htouch ih =>
    obtain ⟨hnext, hrest⟩ := List.isChain_cons_cons.1 h
    refine List.forall_mem_cons.2 ⟨fun hopen ↦ ?_, ih (by simp) ?_⟩
    · exact absurd ((hnext hopen).symm.trans (hstretch y rfl)) Bool.false_ne_true
    · obtain ⟨hlater, htail⟩ := List.isChain_cons.1 hrest
      have hx := (Bool.and_eq_true_iff.1 htouch).1
      exact List.isChain_cons.2 ⟨fun z hz hopen ↦
        absurd ((hlater z hz hopen).symm.trans hx) Bool.false_ne_true, htail⟩
  | case7 y x rest _ ih =>
    obtain ⟨hnext, hrest⟩ := List.isChain_cons_cons.1 h
    refine List.forall_mem_cons.2 ⟨fun hopen ↦ ?_, fun z hz hopen ↦ ?_⟩
    · exact absurd ((hnext hopen).symm.trans (hstretch y rfl)) Bool.false_ne_true
    · have hmem := ih (by simp) (List.isChain_cons.1 hrest).2 z hz hopen
      exact List.mem_cons_of_mem _ (List.mem_cons_of_mem _ hmem)

/-- Only strings that are never closed are reported as such. -/
theorem exists_of_unterminated_mem_report {stretch : Option Lexeme} {s : Span}
    (h : .error ⟨.unterminatedString, s⟩ ∈ report stretch xs) :
    ∃ x ∈ xs, x.isUnclosed = true ∧ x.span = s := by
  fun_induction report stretch xs with
  | case1 => cases h
  | case2 => simp [unexpected] at h
  | case3 x rest hopen ih =>
    rcases List.mem_cons.1 h with h | h
    · cases h
      exact ⟨x, List.mem_cons_self, hopen, rfl⟩
    · exact (ih h).imp fun z hz ↦ ⟨List.mem_cons_of_mem _ hz.1, hz.2⟩
  | case4 x rest _ _ ih => exact (ih h).imp fun z hz ↦ ⟨List.mem_cons_of_mem _ hz.1, hz.2⟩
  | case5 x rest _ _ ih =>
    have hrest := (List.mem_cons.1 h).resolve_left nofun
    exact (ih hrest).imp fun z hz ↦ ⟨List.mem_cons_of_mem _ hz.1, hz.2⟩
  | case6 y x rest _ ih => exact (ih h).imp fun z hz ↦ ⟨List.mem_cons_of_mem _ hz.1, hz.2⟩
  | case7 y x rest _ ih =>
    have hrest : .error ⟨.unterminatedString, s⟩ ∈ report none rest := by
      simpa [unexpected] using h
    exact (ih hrest).imp fun z hz ↦ ⟨List.mem_cons_of_mem _ hz.1, hz.2⟩

/-- No token is unknown text if stretches do not follow one another. -/
theorem known_of_separate (stretch : Option Lexeme)
    (hstretch : ∀ y ∈ stretch, y.token.isUnknown = true) (h : Separate (stretch.toList ++ xs)) :
    ∀ z, .ok z ∈ report stretch xs → z.token.isUnknown = false := by
  fun_induction report stretch xs with
  | case1 | case2 => simp
  | case3 x rest _ ih => simpa using ih (by simp) (List.isChain_cons.1 h).2
  | case4 x rest _ hx ih => exact ih (by simpa using hx) h
  | case5 x rest _ hx ih => simpa [hx] using ih (by simp) (List.isChain_cons.1 h).2
  | case6 y x rest htouch ih =>
    obtain ⟨hlater, htail⟩ := List.isChain_cons.1 (List.isChain_cons_cons.1 h).2
    have hx := (Bool.and_eq_true_iff.1 htouch).1
    refine ih (by simp) ?_
    exact List.isChain_cons.2 ⟨fun z hz _ hunknown ↦ hlater z hz hx hunknown, htail⟩
  | case7 y x rest hpassed ih =>
    obtain ⟨hnext, hrest⟩ := List.isChain_cons_cons.1 h
    have hx : x.token.isUnknown = false := eq_false_of_ne_true fun hx ↦
      hpassed (Bool.and_eq_true_iff.2 ⟨hx, (hnext (hstretch y rfl) hx).1⟩)
    simpa [hx] using ih (by simp) (List.isChain_cons.1 hrest).2

/-! ### The stretches that are reported -/

theorem merged_append (hne : xs ≠ []) (x : Lexeme) : merged (xs ++ [x]) = (merged xs).join x := by
  simp [merged, join, Span.through, List.head?_append_of_ne_nil _ hne]

theorem merged_singleton (h : x.token.isUnknown = true) : merged [x] = x := by
  obtain ⟨t, text, span⟩ := x
  cases t with
  | unknown => simp [merged]
  | _ => cases h

/-- The faults of text that begins no token. -/
def unexpectedOf (items : List (Except Fault Lexeme)) : List Fault :=
  (Program.faultsOf items).filter (·.isUnexpectedInput)

theorem unexpectedOf_unexpected (x : Lexeme) (items : List (Except Fault Lexeme)) :
    unexpectedOf (.error x.unexpected :: items) = x.unexpected :: unexpectedOf items := rfl

theorem unexpectedOf_ok (x : Lexeme) (items : List (Except Fault Lexeme)) :
    unexpectedOf (.ok x :: items) = unexpectedOf items := rfl

theorem unexpectedOf_unterminated (s : Span) (items : List (Except Fault Lexeme)) :
    unexpectedOf (.error ⟨.unterminatedString, s⟩ :: items) = unexpectedOf items := rfl

/-- A stretch stops where its last character does. -/
theorem stop_merged (run : List Lexeme) {y : Lexeme} (hy : y ∈ run.getLast?) :
    (merged run).span.stop = y.span.stop := by
  rw [Option.mem_def] at hy
  simp [merged, hy]

/-- A stretch does not touch what stands behind a lexeme that follows it. -/
theorem not_meets_behind {run : List Lexeme} (h : Ordered lo hi (merged run :: x :: xs))
    (y : Lexeme) (hy : y ∈ run.getLast?) (z : Lexeme) (hz : z ∈ (xs.filter isStray).head?) :
    y.span.meets z.span = false := by
  obtain ⟨-, -, hle, hx, hxs⟩ := h
  have hstop := stop_merged run hy
  have hmem : z ∈ xs := (List.mem_filter.1 (List.mem_of_head? hz)).1
  have hstart := hxs.start_mem (List.mem_map_of_mem hmem)
  rw [Span.meets, beq_eq_false_iff_ne]
  omega

/-- If stretches do not follow one another, each of them is one fault. A stretch of which only the
first characters have been read is continued by those that follow. -/
theorem unexpectedOf_report :
    (Ordered lo hi xs → Separate xs →
      unexpectedOf (report none xs) = (stretches xs).map fun run ↦ (merged run).unexpected) ∧
    ∀ run : List Lexeme, run ≠ [] → run.IsChain (fun x y ↦ x.span.meets y.span = true) →
      Ordered lo hi (merged run :: xs) → Separate (merged run :: xs) →
      unexpectedOf (report (some (merged run)) xs) =
        ((run ++ xs.filter isStray).splitBy fun x y ↦ x.span.meets y.span).map fun run ↦
          (merged run).unexpected := by
  induction xs generalizing lo with
  | nil =>
    refine ⟨fun _ _ ↦ rfl, fun run hne hrun _ _ ↦ ?_⟩
    rw [List.filter_nil, List.append_nil, List.splitBy_of_isChain hne hrun]
    rfl
  | cons x rest ih =>
    constructor
    · intro hordered hseparate
      have hfirst := hordered
      obtain ⟨-, -, hrest⟩ := hordered
      have hnone := ih.1 hrest (List.isChain_cons.1 hseparate).2
      unfold stretches at hnone ⊢
      rcases x.kinds with hx | hx | hx
      · rw [report_unclosed hx, unexpectedOf_unterminated, hnone,
          List.filter_cons_of_neg (by simp [isStray, hx])]
      · have hmerged := merged_singleton (isStray_iff.1 hx).1
        have hrun := ih.2 [x] (List.cons_ne_nil _ _) (.singleton x)
          (by rwa [hmerged]) (by rwa [hmerged])
        rw [hmerged] at hrun
        rw [report_stray hx, hrun, List.filter_cons_of_pos hx, List.singleton_append]
      · rw [report_known hx, unexpectedOf_ok, hnone,
          List.filter_cons_of_neg (by simp [isStray, hx])]
    · intro run hne hrun hordered hseparate
      obtain ⟨hnext, htail⟩ := List.isChain_cons_cons.1 hseparate
      have hbehind := not_meets_behind hordered
      obtain ⟨hlo, hfirst, hle, hlast, hrest⟩ := hordered
      obtain ⟨hlater, hafter⟩ := List.isChain_cons.1 htail
      cases hx : x.token.isUnknown with
      | false =>
        have hnone := ih.1 hrest hafter
        unfold stretches at hnone
        rw [report_passed fun hunknown ↦ absurd (hx.symm.trans hunknown) Bool.false_ne_true,
          unexpectedOf_unexpected, unexpectedOf_ok, hnone,
          List.filter_cons_of_neg (by simp [isStray, hx]), List.splitBy_append hbehind,
          List.splitBy_of_isChain hne hrun]
        rfl
      | true =>
        obtain ⟨hmeets, hclosed⟩ := hnext rfl hx
        have hchain : (run ++ [x]).IsChain fun x y ↦ x.span.meets y.span = true :=
          List.isChain_append.2 ⟨hrun, .singleton x, fun y hy z hz ↦ by
            rw [← Option.some.inj hz]
            simpa only [Span.meets, stop_merged run hy] using hmeets⟩
        have hgrown := (@ih lo).2 (run ++ [x]) (List.concat_ne_nil x run) hchain
        rw [merged_append hne, List.append_assoc, List.singleton_append,
          ← List.filter_cons_of_pos (isStray_iff.2 ⟨hx, hclosed⟩)] at hgrown
        rw [report_touching hx hmeets]
        refine hgrown ⟨hlo, Nat.lt_of_lt_of_le hfirst ?_, hrest⟩ ?_
        · exact Nat.le_trans hle (Nat.le_of_lt hlast)
        · exact List.isChain_cons.2 ⟨fun z hz _ hunknown ↦ hlater z hz hx hunknown, hafter⟩

/-- A text is cut by the rule of the longest match. All of its unknown text is reported, each
longest stretch of characters that begin no token by one fault and each string that is never closed
by another, and none of it comes out as a token, exactly if no stretch and no such string comes next
behind a stretch, with nothing or only blanks between. -/
theorem read_reported_iff (source : String) (offset : Nat) :
    (∃ blanks, Cut offset source.toList blanks (scan offset source.toList)) ∧
      (Reported (scan offset source.toList) (read source offset) ↔
        Separate (scan offset source.toList)) := by
  obtain ⟨blanks, hcut⟩ := exists_cut offset source.toList
  have hordered := ordered_scan offset source.toList
  refine ⟨⟨blanks, hcut⟩, fun h ↦ ?_, fun h ↦ ?_⟩
  · exact separate_of_told none hcut.isChain_not_unclosed (by simp)
      ⟨h.unterminated, h.known⟩
  · exact {
      unexpected := unexpectedOf_report.1 hordered h
      unterminated := unterminated_mem_report none (by simp) h.unhidden
      known := known_of_separate none (by simp) h }

/-- Behind a blank, a character that begins no lexeme comes out as a token. A string that is never
closed is lost in the fault of the character that it touches. -/
theorem not_reported_behind_at_sign :
    ¬ Reported (scan 0 "@ @".toList) (read "@ @" 0) ∧
      ¬ Reported (scan 0 "@\"a".toList) (read "@\"a" 0) := by
  have hblank : read "@ @" 0 = [.error ⟨.unexpectedInput "@", ⟨0, 1⟩⟩,
      .ok { token := .unknown, text := ['@'], span := ⟨2, 3⟩ }] := by
    decide +kernel
  have hscan : scan 0 "@\"a".toList =
      [place 0 ['@'] .unknown, place 1 ['"', 'a'] .unknown] := by
    decide +kernel
  have htouch : read "@\"a" 0 = [.error ⟨.unexpectedInput "@\"a", ⟨0, 3⟩⟩] := by
    decide +kernel
  rw [hblank, hscan, htouch]
  constructor
  · intro h
    have hknown := h.known { token := .unknown, text := ['@'], span := ⟨2, 3⟩ } (by simp)
    cases hknown
  · intro h
    have herror := h.unterminated (place 1 ['"', 'a'] .unknown) (by simp) rfl
    simp at herror

end Lexeme

end LoxLang
