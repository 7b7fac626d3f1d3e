import LoxLang.Proofs.Fragments.Segments
import LoxLang.Proofs.Grammar.Total
import LoxLang.Proofs.Layout
import LoxLang.Proofs.Sites

/-!
# Where the faults of a text stand

Whatever is found wrong with a text is charged to a piece of it: to text that is no token, a token
that is not expected, the tokens from one to another, or a node of the program. Only a text that
ends too early is charged for nothing, at its end (`Program.standsIn_of_read_error`,
`Program.standsIn_of_distances_error`).

Tokens and nodes alike reach from the start of one token to the end of the same or a later one. The
tokens of a text stand in it one after another, so there is text in between
(`Lexeme.Lined.piece_of_extent`).
-/

namespace LoxLang

open Grammar Lexeme

/-! ### Pieces of a text -/

namespace Text

/-- Of a text that starts at an offset, a part that is not empty stands under the span. -/
def Piece (offset : Nat) (cs : List Char) (s : Span) : Prop :=
  ∃ text, text ≠ [] ∧ Slice offset cs s text

variable {offset : Nat} {cs u v : List Char} {s t : Span}

/-- A text that is not empty takes a place. -/
theorem Slice.start_lt_stop (h : Slice offset cs s u) (hu : u ≠ []) : s.start < s.stop := by
  obtain ⟨before, after, -, rfl⟩ := h
  have hlength := length_le_byteLength u
  have hpos := List.length_pos_of_ne_nil hu
  show offset + byteLength before < offset + byteLength before + byteLength u
  omega

/-- A part of a text stops within it. -/
theorem Slice.stop_le (h : Slice offset cs s u) : s.stop ≤ offset + byteLength cs := by
  obtain ⟨before, after, rfl, rfl⟩ := h
  simp only [Span.over, byteLength_append]
  omega

/-- From the start of a part to the end of a later one, there is text. -/
theorem Slice.piece_through (hs : Slice offset cs s u) (ht : Slice offset cs t v)
    (hlt : s.start < t.stop) : Piece offset cs (s.through t) := by
  obtain ⟨before, after, hcs, rfl⟩ := hs
  obtain ⟨before', after', hcs', rfl⟩ := ht
  have hfront : before <+: cs := ⟨u ++ after, by rw [hcs, List.append_assoc]⟩
  have hfront' : before' ++ v <+: cs := ⟨after', hcs'.symm⟩
  have hbytes : byteLength before < byteLength (before' ++ v) := by
    simp only [Span.over] at hlt
    rw [byteLength_append]
    omega
  obtain ⟨text, htext⟩ : before <+: before' ++ v := by
    refine (List.prefix_or_prefix_of_prefix hfront hfront').resolve_right ?_
    rintro ⟨more, hmore⟩
    rw [← hmore, byteLength_append] at hbytes
    omega
  have hne : text ≠ [] := by
    rintro rfl
    rw [← htext, List.append_nil] at hbytes
    exact Nat.lt_irrefl _ hbytes
  refine ⟨text, hne, before, after', by rw [hcs', htext], ?_⟩
  rw [← htext] at hcs'
  have hstop : byteLength before' + byteLength v = byteLength before + byteLength text := by
    rw [← byteLength_append, ← htext, byteLength_append]
  simp only [Span.through, Span.over]
  congr 1
  omega

end Text

open Text

/-- The fault is charged to a part of a text that starts at an offset. The part is empty only if the
text ends too early. -/
def Fault.StandsIn (offset : Nat) (cs : List Char) (f : Fault) : Prop :=
  ∃ text, Slice offset cs f.span text ∧
    (text = [] → ∃ expected, f.cause = .unexpectedEnd expected)

/-- A fault at a piece of a text stands in it. -/
theorem Fault.StandsIn.of_piece {offset : Nat} {cs : List Char} {f : Fault}
    (h : Piece offset cs f.span) : f.StandsIn offset cs := by
  obtain ⟨text, hne, hslice⟩ := h
  exact ⟨text, hslice, fun hnil ↦ absurd hnil hne⟩

/-- The end of a text is an empty part of it. -/
theorem Fault.standsIn_end (offset : Nat) (cs : List Char) (expected : List String) :
    StandsIn offset cs ⟨.unexpectedEnd expected, .point (offset + byteLength cs)⟩ :=
  ⟨[], ⟨cs, [], by simp, rfl⟩, fun _ ↦ ⟨expected, rfl⟩⟩

/-! ### Tokens of a text -/

namespace Lexeme

variable {offset : Nat} {cs : List Char} {ts : List Lexeme}

/-- Each of the tokens stands in the text, and ends before the next begins. -/
structure Lined (offset : Nat) (cs : List Char) (ts : List Lexeme) : Prop where
  piece : ∀ x ∈ ts, Piece offset cs x.span
  apart : ts.Pairwise fun x y ↦ x.span.stop ≤ y.span.start

/-- What is read of a text stands in it. -/
theorem piece_read (source : String) (offset : Nat) :
    ∀ item ∈ read source offset, Piece offset source.toList (spanOf item) := by
  obtain ⟨blanks, hcut⟩ := exists_cut offset source.toList
  exact fun item hitem ↦ (shows_report hcut item hitem).slice

/-- The tokens among what is read of a text stand in it one after another. -/
theorem lined_read (source : String) (offset : Nat) :
    Lined offset source.toList (Program.lexemesOf (read source offset)) := by
  refine ⟨fun x hx ↦ ?_, ?_⟩
  · obtain ⟨item, hitem, hx⟩ := List.mem_filterMap.1 hx
    cases item with
    | ok y =>
      obtain rfl := Option.some.inj hx
      exact piece_read source offset _ hitem
    | error f => cases hx
  · refine List.Pairwise.filterMap _ (fun a b hab x hx y hy ↦ ?_)
      (apart_report none (ordered_scan offset source.toList)).pairwise
    cases a <;> cases b <;> cases hx <;> cases hy
    exact hab

/-- There is text from one of the tokens to the same or a later one. -/
theorem Lined.piece_of_extent {L : Listing} {m n : Nat} {s : Span} (h : Lined offset cs L.tokens)
    (hs : L.Extent m n s) : Piece offset cs s := by
  obtain ⟨x, ts, hx, -, hstart, y, us, hy, hlength, -, hstop⟩ := hs
  obtain ⟨u, hu, hslice⟩ := h.piece x (hx.subset List.mem_cons_self)
  obtain ⟨v, hv, hslice'⟩ := h.piece y (hy.subset List.mem_cons_self)
  have hlater : y = x ∨ y ∈ ts := by
    have hsuffix : y :: us <:+ x :: ts :=
      List.suffix_of_suffix_length_le hy hx (Nat.succ_le_succ (Nat.le_of_lt_succ hlength))
    exact List.mem_cons.1 (hsuffix.subset List.mem_cons_self)
  have hlt : x.span.start < y.span.stop := by
    have hxlt := hslice.start_lt_stop hu
    have hylt := hslice'.start_lt_stop hv
    rcases hlater with rfl | hmem
    · exact hxlt
    · have hle := List.rel_of_pairwise_cons (h.apart.sublist hx.sublist) hmem
      omega
  have hs : s = x.span.through y.span := Span.eq_of_ends hstart.symm hstop.symm
  exact hs ▸ hslice.piece_through hslice' hlt

end Lexeme

/-! ### Faults of the grammar -/

/-- What is noted is charged to some of the tokens, or to the end of the text. -/
theorem Charged.extent_or_end {L : Listing} {n : Nat} {faults : List Fault} (h : Charged L n faults)
    (hnoted : L.noted = []) : ∀ f ∈ faults, L.Extent L.tokens.length 0 f.span ∨
      ∃ expected, f = ⟨.unexpectedEnd expected, .point L.stop⟩ := by
  induction h with
  | start =>
    rw [hnoted]
    exact nofun
  | marginal _ hf ih =>
    exact List.forall_mem_append.2 ⟨ih, List.forall_mem_singleton.2 (.inl hf.extent)⟩
  | token expected _ hx ih =>
    have hextent := (Listing.extent_span hx).all
    exact List.forall_mem_append.2 ⟨ih, List.forall_mem_singleton.2 (.inl hextent)⟩
  | ending expected _ ih =>
    exact List.forall_mem_append.2 ⟨ih, List.forall_mem_singleton.2 (.inr ⟨expected, rfl⟩)⟩
  | pass _ _ ih => exact ih

namespace Program

variable {source : String} {offset : Nat} {p : Program} {faults : List Fault}

/-- A text that is no program is refused for parts of it. -/
theorem standsIn_of_read_error (h : read source offset = .error faults) :
    ∀ f ∈ faults, f.StandsIn offset source.toList := by
  have hnoted : ∀ f ∈ faultsOf (Lexeme.read source offset), f.StandsIn offset source.toList := by
    intro f hf
    obtain ⟨item, hitem, hf⟩ := List.mem_filterMap.1 hf
    cases item with
    | ok x => cases hf
    | error e =>
      obtain rfl := Option.some.inj hf
      exact .of_piece (piece_read source offset _ hitem)
  unfold read at h
  simp only at h
  split at h
  · split at h
    · cases h
    · obtain rfl := Except.error.inj h
      exact hnoted
  · rename_i others hothers
    obtain rfl := Except.error.inj h
    obtain ⟨p, d, -, -, hd, heq⟩ := exists_ofLexemes (lexemesOf (Lexeme.read source offset))
      (offset + source.utf8ByteSize)
    rw [heq] at hothers
    split at hothers
    · cases hothers
    obtain rfl := Except.error.inj hothers
    refine List.forall_mem_append.2 ⟨hnoted, fun f hf ↦ ?_⟩
    rcases hd.charged.extent_or_end rfl f hf with hextent | ⟨expected, rfl⟩
    · exact .of_piece ((lined_read source offset).piece_of_extent hextent)
    · have hend := Fault.standsIn_end offset source.toList expected
      rwa [byteLength_toList] at hend

/-! ### Nodes -/

/-- A stretch of tokens is from its first token to its last. -/
theorem extent_of_ends {L : Listing} {us : List Lexeme} {s : Span} (hus : us <:+ L.tokens)
    (hstart : ∃ x vs, us = x :: vs ∧ x.span.start = s.start)
    (hstop : ∃ z vs, z :: vs <:+ us ∧ z.span.stop = s.stop) : L.Extent L.tokens.length 0 s := by
  obtain ⟨x, vs, rfl, hx⟩ := hstart
  obtain ⟨z, ws, hz, hstop⟩ := hstop
  exact ⟨x, vs, hus, hus.length_le, hx, z, ws, hz.trans hus, hz.length_le, Nat.zero_le _, hstop⟩

/-- A node has tokens from the start of its place to the end. -/
theorem extent_of_sited {rule : ElseRule} {L : Listing} {n : Node} (h : Sited rule L.tokens n) :
    L.Extent L.tokens.length 0 n.span := by
  cases n with
  | expr e =>
    obtain ⟨us, vs, hus, hderives⟩ := h
    obtain ⟨z, hz⟩ := hderives.stopsAt
    exact extent_of_ends hus hderives.startsAt ⟨z, vs, hz⟩
  | stmt d =>
    obtain ⟨us, vs, hus, hderives⟩ := h
    obtain ⟨z, hz⟩ := hderives.stopsAt
    exact extent_of_ends hus hderives.startsAt ⟨z, vs, hz⟩
  | method f =>
    obtain ⟨x, n, us, vs, hus, hderives⟩ := h
    obtain ⟨z, hz, hstop⟩ := hderives.stopsAt
    exact extent_of_ends hus ⟨x, us, rfl, hderives.startsAt⟩
      ⟨z, vs, hz.trans (List.suffix_cons ..), hstop⟩
  | param name =>
    obtain ⟨x, vs, hx, hspan⟩ := h
    have hextent := (Listing.extent_span hx).all
    rwa [hspan] at hextent

/-- Each node of a program stands under a piece of its text. -/
theorem piece_of_node (h : read source offset = .ok p) {n : Node}
    (hn : n ∈ (p.map Node.stmt).flatMap Node.nodes) : Piece offset source.toList n.span := by
  obtain ⟨hknown, hprogram⟩ := read_eq_ok.1 h
  have htokens : lexemesOf (Lexeme.read source offset) = scan offset source.toList := by
    rw [Lexeme.read, report_of_known hknown, lexemesOf_map_ok]
  have hlined := lined_read source offset
  rw [htokens] at hlined
  have hsited := Derives.allSited hprogram List.suffix_rfl trivial n hn
  let whole := Listing.whole (scan offset source.toList) (offset + source.utf8ByteSize)
  exact Lined.piece_of_extent (L := whole) hlined (extent_of_sited hsited)

/-! ### Faults of the scopes -/

/-- What is misplaced at a site is charged to the node, or to the superclass that it names. -/
theorem span_of_mem_misplaced {site : Site} {f : Fault} (hf : f ∈ site.misplaced) :
    f.span = site.node.span ∨ ∃ span name parent methods,
      site.node = .stmt (.classDecl span name (some parent) methods) ∧ f.span = parent.span := by
  unfold Site.misplaced Site.redeclared at hf
  grind [Node.span, Stmt.span, Expr.span]

/-- What is wrong at a site is charged to the node, or to one directly inside it. -/
theorem exists_node_of_mem_faults {globals : List String} {site : Site} {f : Fault}
    (hf : f ∈ site.faults globals) : ∃ n ∈ site.node :: site.node.children, f.span = n.span := by
  rcases List.mem_append.1 hf with hf | hf
  · rcases span_of_mem_misplaced hf with hspan | ⟨span, name, parent, methods, hnode, hspan⟩
    · exact ⟨_, List.mem_cons_self, hspan⟩
    · rw [hnode]
      exact ⟨.expr parent.toExpr, List.mem_cons_of_mem _ List.mem_cons_self, hspan⟩
  · refine ⟨_, List.mem_cons_self, ?_⟩
    unfold Site.readEarly at hf
    grind [Node.span, Expr.span]

/-- A program is refused for pieces of its text. -/
theorem standsIn_of_distances_error (h : read source offset = .ok p) {globals : List String}
    (hfaults : p.distances globals = .error faults) :
    ∀ f ∈ faults, f.StandsIn offset source.toList := by
  intro f hf
  have hrefusals : p.refusals globals = faults := by
    rw [refusals, hfaults]
  rw [← hrefusals, refusals_eq_sites (proper_of_read h)] at hf
  obtain ⟨site, hsite, hf⟩ := List.mem_flatMap.1 hf
  obtain ⟨n, hn, hspan⟩ := exists_node_of_mem_faults hf
  have hnode : site.node ∈ (p.map Node.stmt).flatMap Node.nodes :=
    p.nodes_sites.subset (List.mem_map_of_mem hsite)
  obtain ⟨stmt, hstmt, hnode⟩ := List.mem_flatMap.1 hnode
  refine .of_piece (hspan ▸ piece_of_node h (List.mem_flatMap.2 ⟨stmt, hstmt, ?_⟩))
  rcases List.mem_cons.1 hn with rfl | hn
  · exact hnode
  · exact Node.mem_nodes_of_mem_children hnode hn

end Program

end LoxLang
