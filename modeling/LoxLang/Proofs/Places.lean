import LoxLang.Proofs.Nodes
import LoxLang.Proofs.Sessions

/-!
# The places of references

The references of a program are nodes of it, so they have places of their own. The sources of a
session stand one after another on one axis; therefore the nodes of all its programs are nested as
those of a single one (`Session.nested_programs`), no entry in its table of distances hides another,
and no two references share an entry (`Session.spans_nodup`).
-/

namespace LoxLang

open Node (Nested)

namespace Node

/-- The place of a reference and its name, if the node is one. -/
def reference? : Node → Option (Span × String)
  | expr (.var span name) | expr (.assign span name _) | expr (.step span _ _ name) =>
    some (span, name)
  | expr (.this span) => some (span, "this")
  | expr (.super span _) => some (span, "super")
  | _ => none

/-- The references are nodes inside these ones. -/
def Show (ns : List Node) (refs : List Reference) : Prop :=
  ∀ r ∈ refs, ∃ n ∈ ns.flatMap nodes, n.reference? = some (r.span, r.name)

namespace Show

variable {n : Node} {ns ns' : List Node} {refs refs' : List Reference}

theorem nil : Show ns [] := nofun

theorem one {r : Reference} (h : n.reference? = some (r.span, r.name)) : Show [n] [r] := by
  intro r' hr'
  obtain rfl := List.mem_singleton.1 hr'
  exact ⟨n, by rw [List.flatMap_singleton, nodes_eq]; exact List.mem_cons_self, h⟩

/-- Nodes of two parts show the references of both. -/
theorem append (h : Show ns refs) (h' : Show ns' refs') : Show (ns ++ ns') (refs ++ refs') := by
  intro r hr
  rw [List.flatMap_append]
  rcases List.mem_append.1 hr with hr | hr
  · obtain ⟨n, hn, heq⟩ := h r hr
    exact ⟨n, List.mem_append_left _ hn, heq⟩
  · obtain ⟨n, hn, heq⟩ := h' r hr
    exact ⟨n, List.mem_append_right _ hn, heq⟩

/-- The same nodes may show more references. -/
theorem both (h : Show ns refs) (h' : Show ns refs') : Show ns (refs ++ refs') :=
  fun r hr ↦ (List.mem_append.1 hr).elim (h r) (h' r)

/-- The order of the references does not matter. -/
theorem swap (h : Show ns (refs ++ refs')) : Show ns (refs' ++ refs) :=
  fun r hr ↦ h r (List.mem_append.2 (List.mem_append.1 hr).symm)

/-- What the children of a node show, it shows itself. -/
theorem inside (h : Show n.children refs) : Show [n] refs := by
  intro r hr
  obtain ⟨m, hm, heq⟩ := h r hr
  exact ⟨m, by rw [List.flatMap_singleton, nodes_eq]; exact List.mem_cons_of_mem _ hm, heq⟩

end Show

mutual

/-- Each reference of an expression is shown by a node in it, which has its span and its name. -/
theorem show_ofExpr (L : Layers) : (e : Expr) → Show [.expr e] (Reference.ofExpr L e)
  | .literal .. => .nil
  | .var .. | .step .. | .this _ | .super .. => .one rfl
  | .assign _ _ value => .both (.inside (show_ofExpr L value)) (.one rfl)
  | .group _ inner => .inside (show_ofExpr L inner)
  | .unary _ _ operand => .inside (show_ofExpr L operand)
  | .binary _ _ left right => .inside ((show_ofExpr L left).append (show_ofExpr L right))
  | .call _ callee arguments => .inside ((show_ofExpr L callee).append (show_ofExprs L arguments))
  | .property _ object _ => .inside (show_ofExpr L object)
  | .setProperty _ object _ value =>
    .inside ((show_ofExpr L object).append (show_ofExpr L value)).swap
  | .lambda f => .inside (show_ofFunction L f)

theorem show_ofExprs (L : Layers) :
    (es : List Expr) → Show (es.map .expr) (Reference.ofExprs L es)
  | [] => .nil
  | e :: rest => (show_ofExpr L e).append (show_ofExprs L rest)

theorem show_ofExpr? (L : Layers) :
    (e : Option Expr) → Show (e.toList.map .expr) (Reference.ofExpr? L e)
  | none => .nil
  | some e => show_ofExpr L e

theorem show_ofFunction (L : Layers) :
    (f : FunDecl) → Show (ofFunction f) (Reference.ofFunction L f)
  | .mk _ _ params body => (Show.nil : Show (params.map .param) []).append (show_ofStmts _ body)

theorem show_ofMethods (L : Layers) :
    (fs : List FunDecl) → Show (fs.map .method) (Reference.ofMethods L fs)
  | [] => .nil
  | f :: rest =>
    have hf : Show [.method f] (Reference.ofFunction _ f) := .inside (show_ofFunction _ f)
    hf.append (show_ofMethods L rest)

theorem show_ofStmt (L : Layers) : (s : Stmt) → Show [.stmt s] (Reference.ofStmt L s)
  | .expression _ value | .print _ value => .inside (show_ofExpr L value)
  | .varDecl _ _ value => .inside (show_ofExpr? _ value)
  | .funDecl f => .inside (show_ofFunction _ f)
  | .classDecl _ name parent methods =>
    .inside (Show.append (by cases parent <;> first | exact .nil | exact .one rfl)
      (show_ofMethods _ methods))
  | .block _ body => .inside (show_ofStmts _ body)
  | .conditional _ condition yes no =>
    .inside (((show_ofExpr L condition).append (show_ofStmt L yes)).append (show_ofStmt? L no))
  | .whileLoop _ condition body => .inside ((show_ofExpr L condition).append (show_ofStmt L body))
  | .forLoop _ init condition step body =>
    .inside ((((show_ofStmt? _ init).append (show_ofExpr? _ condition)).append
      (show_ofExpr? _ step)).append (show_ofStmt _ body))
  | .returns _ value => .inside (show_ofExpr? L value)

theorem show_ofStmts (L : Layers) :
    (ss : List Stmt) → Show (ss.map .stmt) (Reference.ofStmts L ss)
  | [] => .nil
  | s :: rest => (show_ofStmt L s).append (show_ofStmts _ rest)

theorem show_ofStmt? (L : Layers) :
    (s : Option Stmt) → Show (s.toList.map .stmt) (Reference.ofStmt? L s)
  | none => .nil
  | some s => show_ofStmt L s

end

end Node

/-- The entries of references have the spans of some of them, in the same order. -/
theorem Reference.spans_entries_sublist (refs : List Reference) :
    ((refs.filterMap entry?).map (·.1)).Sublist (refs.map (·.span)) := by
  induction refs with
  | nil => exact List.nil_sublist _
  | cons r refs ih =>
    rw [List.filterMap_cons, List.map_cons]
    unfold entry?
    cases r.layers.hops? r.name with
    | none => exact ih.cons _
    | some hops => exact ih.cons_cons _

/-! ### Sessions -/

namespace Session

/-- The nodes of all programs that sources are read as. -/
def nodes (w : World) (s : Session) (sources : List (Nat × String)) : List Node :=
  ((s.programs w sources).flatten.map .stmt).flatMap Node.nodes

/-- The references of all programs that sources are read as. -/
def references (w : World) (s : Session) (sources : List (Nat × String)) : List Reference :=
  (s.programs w sources).flatMap Program.references

/-- The programs of a session are nested as one program after what the session has read before. -/
theorem nested_programs (w : World) (s : Session) (sources : List (Nat × String)) :
    ∃ hi, Nested s.source.utf8ByteSize hi ((s.programs w sources).flatten.map .stmt) := by
  induction sources generalizing w s with
  | nil => exact ⟨_, .nil (Nat.le_refl _)⟩
  | cons source rest ih =>
    obtain ⟨fuel, text⟩ := source
    obtain ⟨hi, hrest⟩ := ih (s.run fuel w text).2.1 (s.run fuel w text).2.2
    rw [utf8ByteSize_source_run] at hrest
    rw [programs, List.flatten_append, List.map_append]
    refine ⟨hi, .append ?_ hrest⟩
    cases hread : Program.read text s.source.utf8ByteSize with
    | error faults => exact .nil (by omega)
    | ok p =>
      have hp := Program.nested_of_read hread
      simpa [Except.toOption] using hp.mono (Nat.le_refl _) (Nat.le_succ _)

/-- The references of a session are nodes of its programs. -/
theorem exists_node_of_mem_references {w : World} {s : Session} {sources : List (Nat × String)}
    {r : Reference} (hr : r ∈ s.references w sources) :
    ∃ n ∈ s.nodes w sources, n.reference? = some (r.span, r.name) := by
  obtain ⟨p, hp, hr⟩ := List.mem_flatMap.1 hr
  obtain ⟨n, hn, heq⟩ := Node.show_ofStmts [] p r hr
  obtain ⟨m, hm, hn⟩ := List.mem_flatMap.1 hn
  obtain ⟨stmt, hstmt, rfl⟩ := List.mem_map.1 hm
  have hmem : stmt ∈ (s.programs w sources).flatten := List.mem_flatten.2 ⟨p, hp, hstmt⟩
  exact ⟨n, List.mem_flatMap.2 ⟨_, List.mem_map_of_mem hmem, hn⟩, heq⟩

/-- The references of a session are those of its first source and then those of the others. -/
theorem references_cons (w : World) (s : Session) (fuel : Nat) (text : String)
    (rest : List (Nat × String)) :
    s.references w ((fuel, text) :: rest) =
      (Program.read text s.source.utf8ByteSize).toOption.toList.flatMap Program.references ++
        (s.run fuel w text).2.2.references (s.run fuel w text).2.1 rest := by
  unfold references
  rw [programs, List.flatMap_append]

/-- No two references of a session start at one offset. -/
theorem references_nodup (w : World) (s : Session) (sources : List (Nat × String)) :
    (∀ r ∈ s.references w sources, s.source.utf8ByteSize ≤ r.span.start) ∧
      ((s.references w sources).map (·.span.start)).Nodup := by
  induction sources generalizing w s with
  | nil => exact ⟨nofun, List.nodup_nil⟩
  | cons source rest ih =>
    obtain ⟨fuel, text⟩ := source
    obtain ⟨hbelow, hnodup⟩ := ih (s.run fuel w text).2.1 (s.run fuel w text).2.2
    rw [utf8ByteSize_source_run] at hbelow
    rw [references_cons]
    cases hread : Program.read text s.source.utf8ByteSize with
    | error faults =>
      refine ⟨fun r hr ↦ ?_, hnodup⟩
      have hge := hbelow r hr
      omega
    | ok p =>
      obtain ⟨hp, hrange⟩ := Program.of_read hread
      have hrefs : [p].flatMap Program.references = p.references := List.flatMap_singleton ..
      simp only [Except.toOption, Option.toList, hrefs]
      refine ⟨fun r hr ↦ ?_, ?_⟩
      · rcases List.mem_append.1 hr with hr | hr
        · exact (hrange r hr).1
        · have hge := hbelow r hr
          omega
      · rw [List.map_append]
        refine List.nodup_append.2 ⟨hp, hnodup, fun a ha b hb heq ↦ ?_⟩
        obtain ⟨r, hr, rfl⟩ := List.mem_map.1 ha
        obtain ⟨r', hr', rfl⟩ := List.mem_map.1 hb
        have hlt := (hrange r hr).2
        have hge := hbelow r' hr'
        omega

/-- A source adds to the table the entries of references in its program. -/
theorem distances_load (s : Session) (text : String) :
    ∃ refs : List Reference, refs.Sublist
        ((Program.read text s.source.utf8ByteSize).toOption.toList.flatMap Program.references) ∧
      (s.load text).1.distances =
        (refs.filterMap Reference.entry?).reverse ++ s.distances := by
  rcases hload : s.load text with ⟨s', faults | p⟩
  · rw [of_load_error hload]
    exact ⟨[], List.nil_sublist _, rfl⟩
  · obtain ⟨hread, -, rfl⟩ := load_eq_ok.1 hload
    refine ⟨p.references, ?_, ?_⟩
    · rw [hread]
      exact (List.flatMap_singleton ..).symm ▸ List.Sublist.refl _
    · rw [((Program.proper_of_read hread).walk _).1]

/-- Several sources add to the table the entries of references in their programs. -/
theorem distances_replay (w : World) (s : Session) (sources : List (Nat × String)) :
    ∃ refs : List Reference, refs.Sublist (s.references w sources) ∧
      (s.replay w sources).2.distances =
        (refs.filterMap Reference.entry?).reverse ++ s.distances := by
  induction sources generalizing w s with
  | nil => exact ⟨[], List.nil_sublist _, rfl⟩
  | cons source rest ih =>
    obtain ⟨fuel, text⟩ := source
    obtain ⟨refs, hrefs, hload⟩ := distances_load s text
    obtain ⟨refs', hrefs', hreplay⟩ := ih (s.run fuel w text).2.1 (s.run fuel w text).2.2
    refine ⟨refs ++ refs', ?_, ?_⟩
    · rw [references_cons]
      exact hrefs.append hrefs'
    · rw [replay, hreplay, distances_run, hload, List.filterMap_append, List.reverse_append,
        List.append_assoc]

/-- A span tells a node apart from all others of a session, whatever sources it is given. No two
nodes of the programs that the sources are read as have the same span; the nodes directly inside a
node lie within its span, one after another in the order of the text; and a reference is a node. In
the table of distances every entry is that of a reference, and no two entries have the same span. -/
theorem spans_nodup (w : World) (sources : List (Nat × String)) :
    ((Session.new.nodes w sources).map Node.span).Nodup ∧
    (∀ n ∈ Session.new.nodes w sources,
      (∀ c ∈ n.children, n.span.start ≤ c.span.start ∧ c.span.start < c.span.stop ∧
        c.span.stop ≤ n.span.stop) ∧
      n.children.Pairwise fun a b ↦ a.span.stop ≤ b.span.start) ∧
    ((Session.new.references w sources).map (·.span)).Nodup ∧
    (∀ r ∈ Session.new.references w sources, ∃ n ∈ Session.new.nodes w sources,
      n.reference? = some (r.span, r.name)) ∧
    (((Session.new.replay w sources).2.distances.map (·.1)).Nodup ∧
      ∀ e ∈ (Session.new.replay w sources).2.distances,
        ∃ r ∈ Session.new.references w sources, r.entry? = some e) := by
  obtain ⟨hi, hnested⟩ := nested_programs w .new sources
  have hrefs : ((Session.new.references w sources).map (·.span)).Nodup := by
    refine List.Nodup.of_map Span.start ?_
    rw [List.map_map]
    exact (references_nodup w .new sources).2
  obtain ⟨refs, hsub, htable⟩ := distances_replay w .new sources
  replace htable : (Session.new.replay w sources).2.distances =
      (refs.filterMap Reference.entry?).reverse := by
    rw [htable]
    exact List.append_nil _
  refine ⟨hnested.nodup, fun n hn ↦ ?_, hrefs, fun r hr ↦ exists_node_of_mem_references hr, ?_,
    fun e he ↦ ?_⟩
  · have hinside := hnested.children hn
    exact ⟨fun c hc ↦ hinside.bounds hc, hinside.pairwise⟩
  · rw [htable, List.map_reverse, List.nodup_reverse]
    exact hrefs.sublist ((Reference.spans_entries_sublist refs).trans (hsub.map _))
  · rw [htable, List.mem_reverse] at he
    obtain ⟨r, hr, heq⟩ := List.mem_filterMap.1 he
    exact ⟨r, hsub.subset hr, heq⟩

end Session

end LoxLang
