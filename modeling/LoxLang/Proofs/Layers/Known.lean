import LoxLang.Proofs.Layers.Resolved
import LoxLang.Session
import Mathlib.Data.List.Nodup

/-!
# The distances of a session

A session keeps the distances of all programs that it accepted in one table, by the spans of their
references. The programs stand one after another on one axis, so the entries of one never hide
those of another (`Knows.load`): in the table, every reference of an accepted program has the
distance that its layers give it, and a reference to a global variable has none.
-/

namespace LoxLang

/-- A key whose entries are all alike is found with what they hold. -/
theorem lookup_eq_of_mem_iff {α β : Type} [BEq α] [LawfulBEq α] {l : List (α × β)} {k : α}
    {o : Option β} (h : ∀ v, (k, v) ∈ l ↔ o = some v) : l.lookup k = o := by
  cases hl : l.lookup k with
  | some v =>
    obtain ⟨l₁, l₂, rfl, -⟩ := List.lookup_eq_some_iff.1 hl
    exact ((h v).1 (by simp)).symm
  | none =>
    cases o with
    | none => rfl
    | some v =>
      have hmem := List.lookup_eq_none_iff.1 hl _ ((h v).2 rfl)
      simp at hmem

/-- The entries of references are those of the local ones among them. -/
theorem Reference.of_mem_entries {refs : List Reference} {e : Span × Nat}
    (he : e ∈ refs.filterMap entry?) :
    ∃ r ∈ refs, r.span = e.1 ∧ r.layers.hops? r.name = some e.2 := by
  obtain ⟨r, hr, he⟩ := List.mem_filterMap.1 he
  unfold entry? at he
  obtain ⟨hops, hhops, rfl⟩ := Option.map_eq_some_iff.1 he
  exact ⟨r, hr, rfl, hhops⟩

/-- References that start at different places have their distances in a table that begins with their
entries, unless the rest of it has entries at the same place. -/
theorem Reference.lookup_entries {refs : List Reference} {r : Reference} {others : Distances}
    (hnodup : (refs.map (·.span.start)).Nodup) (hr : r ∈ refs)
    (hothers : ∀ e ∈ others, e.1 ≠ r.span) :
    ((refs.filterMap entry?).reverse ++ others).lookup r.span = r.layers.hops? r.name := by
  refine lookup_eq_of_mem_iff fun hops ↦ ?_
  rw [List.mem_append, List.mem_reverse]
  constructor
  · rintro (he | he)
    · obtain ⟨r', hr', hspan, hhops⟩ := of_mem_entries he
      have hsame : r' = r := List.inj_on_of_nodup_map hnodup hr' hr (congrArg Span.start hspan)
      rwa [hsame] at hhops
    · exact absurd rfl (hothers _ he)
  · intro hhops
    exact .inl (List.mem_filterMap.2 ⟨r, hr, by rw [Reference.entry?, hhops]; rfl⟩)

/-- The entries of references elsewhere change nothing. -/
theorem Reference.lookup_entries_of_ne {refs : List Reference} {span : Span}
    (hrefs : ∀ r ∈ refs, r.span ≠ span) (others : Distances) :
    ((refs.filterMap entry?).reverse ++ others).lookup span = others.lookup span := by
  have hnone : (refs.filterMap entry?).reverse.lookup span = none := by
    refine List.lookup_eq_none_iff.2 fun e he ↦ bne_iff_ne.2 fun heq ↦ ?_
    obtain ⟨r, hr, hspan, -⟩ := of_mem_entries (List.mem_reverse.1 he)
    exact hrefs r hr (hspan.trans heq.symm)
  rw [List.lookup_append, hnone, Option.none_or]

namespace Session

/-- The session has the distances of these references, and of no others that are still to come. -/
structure Knows (s : Session) (known : List Reference) : Prop where
  lookup : ∀ r ∈ known, s.distances.lookup r.span = r.layers.hops? r.name
  below : ∀ r ∈ known, r.span.start < s.source.utf8ByteSize
  entries : ∀ e ∈ s.distances, e.1.start < s.source.utf8ByteSize

/-- A new session has nothing to know. -/
theorem knows_new : Knows .new [] := ⟨nofun, nofun, nofun⟩

/-- Running a program changes no distances. -/
theorem Knows.withHeap {s : Session} {known : List Reference} (h : Knows s known) (heap : Heap) :
    Knows { s with heap } known :=
  ⟨h.lookup, h.below, h.entries⟩

/-- A source is kept with a line break after it. -/
theorem utf8ByteSize_source_load (s : Session) (text : String) :
    (s.load text).1.source.utf8ByteSize = s.source.utf8ByteSize + text.utf8ByteSize + 1 := by
  rw [source_load, String.utf8ByteSize_append, String.utf8ByteSize_append]
  rfl

/-- What a session accepts is a program whose walk finds no fault. -/
theorem load_eq_ok {s s' : Session} {text : String} {p : Program} :
    s.load text = (s', .ok p) ↔
      Program.read text s.source.utf8ByteSize = .ok p ∧
      (Finding.faults (p.findings s.globalNames)).isEmpty = true ∧
      s' = { source := s.source ++ text ++ "\n",
             distances := (Finding.distances (p.findings s.globalNames)).reverse ++ s.distances,
             heap := s.heap } := by
  constructor
  · intro h
    unfold load at h
    simp only at h
    split at h
    · cases h
    · rename_i program hread
      split at h
      · cases h
      · rename_i table htable
        obtain ⟨rfl, hp⟩ := Prod.mk.inj h
        obtain rfl := Except.ok.inj hp
        refine ⟨hread, ?_⟩
        unfold Program.distances at htable
        simp only at htable
        split at htable
        · rename_i hfaults
          obtain rfl := Except.ok.inj htable
          exact ⟨hfaults, rfl⟩
        · cases htable
  · rintro ⟨hread, hfaults, rfl⟩
    have htable : p.distances s.globalNames =
        .ok (Finding.distances (p.findings s.globalNames)) :=
      if_pos hfaults
    unfold load
    simp only [hread]
    split
    · rename_i faults h
      cases htable.symm.trans h
    · rename_i table h
      obtain rfl := Except.ok.inj (htable.symm.trans h)
      rfl

/-- A source that is refused adds nothing but itself. -/
theorem of_load_error {s s' : Session} {text : String} {faults : List Fault}
    (h : s.load text = (s', .error faults)) :
    s' = { s with source := s.source ++ text ++ "\n" } := by
  unfold load at h
  simp only at h
  split at h
  · exact (Prod.mk.inj h).1.symm
  · split at h
    · exact (Prod.mk.inj h).1.symm
    · cases h

/-- A source that is refused leaves what the session knows. -/
theorem Knows.refuse {s s' : Session} {known : List Reference} {text : String}
    {faults : List Fault} (h : Knows s known) (hload : s.load text = (s', .error faults)) :
    Knows s' known := by
  have hsize := utf8ByteSize_source_load s text
  rw [hload] at hsize
  simp only at hsize
  have hs' := of_load_error hload
  refine ⟨?_, fun r hr ↦ ?_, fun e he ↦ ?_⟩
  · rw [hs']
    exact h.lookup
  · have hlt := h.below r hr
    omega
  · rw [hs'] at he
    have hlt := h.entries e he
    omega

/-- A proper program without faults adds its references, if they start at different offsets behind
all sources so far, and it fits. -/
theorem Knows.accept {s : Session} {known : List Reference} {p : Program} (h : Knows s known)
    (hp : Stmt.AllProper p) (hnodup : (p.references.map (·.span.start)).Nodup) {source : String}
    (hrange : ∀ r ∈ p.references, s.source.utf8ByteSize ≤ r.span.start ∧
      r.span.start < source.utf8ByteSize)
    (hsource : s.source.utf8ByteSize ≤ source.utf8ByteSize) {names : List String}
    (hfaults : (Finding.faults (p.findings names)).isEmpty = true) (heap : Heap) :
    Knows ⟨source, (Finding.distances (p.findings names)).reverse ++ s.distances, heap⟩
        (p.references ++ known) ∧
      FitsStmts (· ∈ p.references ++ known) {} [] p := by
  obtain ⟨hdistances, hfits⟩ := hp.walk names
  rw [hdistances]
  refine ⟨⟨fun r hr ↦ ?_, fun r hr ↦ ?_, fun e he ↦ ?_⟩, ?_⟩
  · rcases List.mem_append.1 hr with hr | hr
    · refine Reference.lookup_entries hnodup hr fun e he heq ↦ ?_
      have hlt := h.entries e he
      have hge := (hrange r hr).1
      rw [heq] at hlt
      omega
    · refine (Reference.lookup_entries_of_ne (fun r' hr' heq ↦ ?_) _).trans (h.lookup r hr)
      have hlt := h.below r hr
      have hge := (hrange r' hr').1
      rw [heq] at hge
      omega
  · rcases List.mem_append.1 hr with hr | hr
    · exact (hrange r hr).2
    · exact Nat.lt_of_lt_of_le (h.below r hr) hsource
  · rcases List.mem_append.1 he with he | he
    · obtain ⟨r, hr, hspan, -⟩ := Reference.of_mem_entries (List.mem_reverse.1 he)
      exact hspan ▸ (hrange r hr).2
    · exact Nat.lt_of_lt_of_le (h.entries e he) hsource
  · exact hfits _ hfaults fun r hr ↦ List.mem_append_left _ hr

/-- A program that is accepted adds its references, and it fits. -/
theorem Knows.load {s s' : Session} {known : List Reference} {text : String} {p : Program}
    (h : Knows s known) (hload : s.load text = (s', .ok p)) :
    Knows s' (p.references ++ known) ∧ FitsStmts (· ∈ p.references ++ known) {} [] p := by
  have hsize := utf8ByteSize_source_load s text
  rw [source_load] at hsize
  obtain ⟨hread, hfaults, rfl⟩ := load_eq_ok.1 hload
  obtain ⟨hnodup, hrange⟩ := Program.of_read hread
  refine h.accept (Program.proper_of_read hread) hnodup (fun r hr ↦ ?_) ?_ hfaults s.heap
  · have hlt := (hrange r hr).2
    exact ⟨(hrange r hr).1, by omega⟩
  · omega

end Session

end LoxLang
