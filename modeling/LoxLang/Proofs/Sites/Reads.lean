import LoxLang.Proofs.Sites

/-!
# Variables in their own initializers

The plain references in an expression, outside of the functions in it, are what is read while it is
evaluated (`Expr.reads`). In the initializer of a variable that is new to its scope, each of them
that has its name is a fault (`Program.mem_refusals_of_reads`). So in a program without faults no
local variable is read there, and a global one only if an earlier statement declares it or it was
bound from the start (`Program.Vetted`).
-/

namespace LoxLang

/-! ### Plain references -/

mutual

/-- The variables that an expression reads by plain references, outside of the functions in it. -/
def Expr.reads : Expr → List Name
  | .var span x => [⟨x, span⟩]
  | .literal _ _ | .step _ _ _ _ | .this _ | .super _ _ | .lambda _ => []
  | .assign _ _ value => value.reads
  | .group _ inner => inner.reads
  | .unary _ _ operand => operand.reads
  | .binary _ _ left right => left.reads ++ right.reads
  | .call _ callee arguments => callee.reads ++ Expr.allReads arguments
  | .property _ object _ => object.reads
  | .setProperty _ object _ value => object.reads ++ value.reads

@[inherit_doc Expr.reads]
def Expr.allReads : List Expr → List Name
  | [] => []
  | e :: es => e.reads ++ Expr.allReads es

end

namespace Visit

open Site

variable {path : List Visit} {v w : Visit} {s t : Site}

/-- A node is one of the sites in it. -/
theorem here_mem_sites (path : List Visit) (v : Visit) : ⟨v, path⟩ ∈ v.sites path := by
  rw [sites_eq]
  exact List.mem_cons_self

/-- What is inside a child is inside the node. -/
theorem mem_sites_of_child (hw : w ∈ each [] v.node.visited) (hs : s ∈ w.sites (v :: path)) :
    s ∈ v.sites path := by
  rw [sites_eq]
  exact List.mem_cons_of_mem _ (List.mem_flatMap.2 ⟨w, hw, hs⟩)

/-- What is inside a node inside a node is inside it. -/
theorem mem_sites_trans {path : List Visit} {v : Visit} (hs : s ∈ v.sites path)
    (hw : w ∈ each [] s.node.visited) (ht : t ∈ w.sites (s.toVisit :: s.path)) :
    t ∈ v.sites path := by
  rw [sites_eq] at hs
  rcases List.mem_cons.1 hs with rfl | hs
  · exact mem_sites_of_child hw ht
  · obtain ⟨u, hu, hs⟩ := List.mem_flatMap.1 hs
    exact mem_sites_of_child hu (mem_sites_trans hs hw ht)
termination_by sizeOf v.node
decreasing_by exact sizeOf_node hu

/-- Nothing inside a node stands alone. -/
theorem path_ne_nil {path : List Visit} {v : Visit} (hpath : path ≠ []) (hs : s ∈ v.sites path) :
    s.path ≠ [] := by
  rw [sites_eq] at hs
  rcases List.mem_cons.1 hs with rfl | hs
  · exact hpath
  · obtain ⟨u, hu, hs⟩ := List.mem_flatMap.1 hs
    exact path_ne_nil (List.cons_ne_nil _ _) hs
termination_by sizeOf v.node
decreasing_by exact sizeOf_node hu

/-- Each node of a row is visited, after those that stand before it. -/
theorem mem_each (earlier before : List Node) (n : Node) (rest : List Node) :
    ⟨n, earlier ++ before⟩ ∈ each earlier (before ++ n :: rest) := by
  induction before generalizing earlier with
  | nil =>
    rw [List.append_nil]
    exact List.mem_cons_self
  | cons m before ih =>
    have hmem := ih (earlier ++ [m])
    rw [List.append_assoc, List.singleton_append] at hmem
    exact List.mem_cons_of_mem _ hmem

/-- Each node of a row is visited. -/
theorem exists_mem_each {n : Node} {ns : List Node} (h : n ∈ ns) :
    ∃ v ∈ each [] ns, v.node = n := by
  rw [← map_each [] ns] at h
  exact List.mem_map.1 h

/-- The site is that of a plain reference to the variable, with the same initializers around it as
the place. -/
def IsRead (path : List Visit) (r : Name) (s : Site) : Prop :=
  s.node = .expr (.var r.span r.text) ∧ anchor? s.path = anchor? path

/-- A reference in an operand is one in the operation. -/
theorem exists_read_of_child {r : Name} (hw : w ∈ each [] v.node.visited)
    (hpath : anchor? (v :: path) = anchor? path)
    (h : ∃ s ∈ w.sites (v :: path), IsRead (v :: path) r s) :
    ∃ s ∈ v.sites path, IsRead path r s := by
  obtain ⟨s, hs, hnode, hanchor⟩ := h
  exact ⟨s, mem_sites_of_child hw hs, hnode, hanchor.trans hpath⟩

mutual

/-- Each plain reference of an expression has a site inside it. -/
theorem exists_read {e : Expr} {r : Name} (h : r ∈ e.reads) (path : List Visit)
    (earlier : List Node) : ∃ s ∈ sites path ⟨.expr e, earlier⟩, IsRead path r s :=
  match e, h with
  | .var span x, h => by
    obtain rfl := List.mem_singleton.1 h
    exact ⟨_, here_mem_sites _ _, rfl, rfl⟩
  | .assign _ _ value, h | .group _ value, h | .unary _ _ value, h | .property _ value _, h =>
    exists_read_of_child (w := ⟨.expr value, []⟩) List.mem_cons_self rfl
      (exists_read (e := value) h _ _)
  | .binary _ _ left right, h => by
    rcases List.mem_append.1 h with h | h
    · exact exists_read_of_child (w := ⟨.expr left, []⟩) List.mem_cons_self rfl
        (exists_read h _ _)
    · exact exists_read_of_child (w := ⟨.expr right, [.expr left]⟩)
        (List.mem_cons_of_mem _ List.mem_cons_self) rfl (exists_read h _ _)
  | .call _ callee arguments, h => by
    rcases List.mem_append.1 h with h | h
    · exact exists_read_of_child (w := ⟨.expr callee, []⟩) List.mem_cons_self rfl
        (exists_read h _ _)
    · obtain ⟨w, hw, hread⟩ := exists_read_of_mem h _ [.expr callee]
      exact exists_read_of_child (List.mem_cons_of_mem _ hw) rfl hread
  | .setProperty _ object _ value, h => by
    rcases List.mem_append.1 h with h | h
    · exact exists_read_of_child (w := ⟨.expr object, [.expr value]⟩)
        (List.mem_cons_of_mem _ List.mem_cons_self) rfl (exists_read h _ _)
    · exact exists_read_of_child (w := ⟨.expr value, []⟩) List.mem_cons_self rfl
        (exists_read h _ _)

/-- A variable that is read in one of some expressions is read at a site in them. -/
theorem exists_read_of_mem {es : List Expr} {r : Name} (h : r ∈ Expr.allReads es)
    (path : List Visit) (earlier : List Node) :
    ∃ w ∈ each earlier (es.map .expr), ∃ s ∈ w.sites path, IsRead path r s :=
  match es, h with
  | e :: es, h => by
    rcases List.mem_append.1 h with h | h
    · exact ⟨_, List.mem_cons_self, exists_read h path earlier⟩
    · obtain ⟨w, hw, hread⟩ := exists_read_of_mem h path (earlier ++ [.expr e])
      exact ⟨w, List.mem_cons_of_mem _ hw, hread⟩

end

end Visit

/-! ### Reads in initializers -/

open Site Visit

/-- In the initializer of a variable that is new to its scope, a plain reference to it is a
fault. -/
theorem Site.mem_faults_of_reads {globals : List String} {site : Site} {span : Span} {x : String}
    {e : Expr} (hnode : site.node = .stmt (.varDecl span x (some e)))
    (hnew : site.path = [] → isBound globals [] site.earlier x = false) {r : Name}
    (hr : r ∈ e.reads) (hx : r.text = x) {path : List Visit} {v : Visit}
    (hsite : site ∈ v.sites path) : ⟨.readInOwnInitializer x, r.span⟩ ∈ v.faults globals path := by
  obtain ⟨⟨node, earlier⟩, around⟩ := site
  obtain rfl : node = .stmt (.varDecl span x (some e)) := hnode
  obtain ⟨s, hs, hread, hanchor⟩ := exists_read hr
    (⟨.stmt (.varDecl span x (some e)), earlier⟩ :: around) []
  have hinitializes : initializes? globals s.path = some x := by
    unfold initializes?
    rw [hanchor]
    cases around with
    | nil => simpa [anchor?] using hnew rfl
    | cons _ _ => simp [anchor?]
  refine List.mem_flatMap.2 ⟨s, mem_sites_trans hsite List.mem_cons_self hs, ?_⟩
  refine List.mem_append_right _ ?_
  unfold readEarly
  rw [hread]
  simp [hinitializes, hx]

/-- Every plain reference to a variable in its own initializer is reported, if the variable is local
or is not bound globally. -/
theorem Program.mem_refusals_of_reads {p : Program} (h : Stmt.AllProper p) (globals : List String)
    {site : Site} (hsite : site ∈ p.sites) {span : Span} {x : String} {e : Expr}
    (hnode : site.node = .stmt (.varDecl span x (some e)))
    (hnew : site.path = [] → x ∉ globals ∧ x ∉ Node.declared site.earlier) {r : Name}
    (hr : r ∈ e.reads) (hx : r.text = x) :
    ⟨.readInOwnInitializer x, r.span⟩ ∈ p.refusals globals := by
  obtain ⟨v, hv, hsite⟩ := List.mem_flatMap.1 hsite
  rw [refusals_eq_sites h, sites, List.flatMap_assoc]
  refine List.mem_flatMap.2 ⟨v, hv, mem_faults_of_reads hnode (fun hpath ↦ ?_) hr hx hsite⟩
  obtain ⟨hglobals, hdeclared⟩ := hnew hpath
  simp [isBound, hglobals, hdeclared]

/-! ### Programs without faults -/

theorem Expr.AllProper.of_mem {es : List Expr} (h : Expr.AllProper es) {e : Expr} (he : e ∈ es) :
    e.Proper := by
  induction es with
  | nil => cases he
  | cons _ es ih =>
    rcases List.mem_cons.1 he with rfl | he
    · exact h.1
    · exact ih h.2 he

theorem FunDecl.AllProper.of_mem {fs : List FunDecl} (h : FunDecl.AllProper fs) {f : FunDecl}
    (hf : f ∈ fs) : f.Proper := by
  induction fs with
  | nil => cases hf
  | cons _ fs ih =>
    rcases List.mem_cons.1 hf with rfl | hf
    · exact h.1
    · exact ih h.2 hf

theorem Stmt.AllProper.of_mem {ss : List Stmt} (h : Stmt.AllProper ss) {s : Stmt} (hs : s ∈ ss) :
    s.Proper := by
  induction ss with
  | nil => cases hs
  | cons _ ss ih =>
    rcases List.mem_cons.1 hs with rfl | hs
    · exact h.1
    · exact ih h.2 hs

namespace Node

/-- The tree at the node is proper. -/
def Proper : Node → Prop
  | expr e => e.Proper
  | stmt s => s.Proper
  | method f => f.Proper
  | param p => IsName p.text

theorem proper_ofFunction {f : FunDecl} (h : f.Proper) {c : Node} (hc : c ∈ ofFunction f) :
    c.Proper := by
  obtain ⟨span, name, params, body⟩ := f
  rcases List.mem_append.1 hc with hc | hc <;> obtain ⟨x, hx, rfl⟩ := List.mem_map.1 hc
  · exact h.1 x hx
  · exact h.2.of_mem hx

theorem proper_toList {e : Option Expr} (h : Expr.Proper? e) {c : Node}
    (hc : c ∈ e.toList.map expr) : c.Proper := by
  cases e with
  | none => cases hc
  | some e =>
    obtain rfl := List.mem_singleton.1 hc
    exact h

theorem proper_toList_stmt {s : Option Stmt} (h : Stmt.Proper? s) {c : Node}
    (hc : c ∈ s.toList.map stmt) : c.Proper := by
  cases s with
  | none => cases hc
  | some s =>
    obtain rfl := List.mem_singleton.1 hc
    exact h

/-- What is inside a proper tree is proper. -/
theorem Proper.child {n c : Node} (h : n.Proper) (hc : c ∈ n.children) : c.Proper :=
  match n, h, hc with
  | expr (.assign ..), h, hc => List.mem_singleton.1 hc ▸ h.2
  | expr (.group ..), h, hc | expr (.unary ..), h, hc | expr (.property ..), h, hc
  | stmt (.expression ..), h, hc | stmt (.print ..), h, hc => by
    obtain rfl := List.mem_singleton.1 hc
    exact h
  | expr (.binary ..), h, hc | expr (.setProperty ..), h, hc => by
    rcases List.mem_pair.1 hc with rfl | rfl
    · exact h.1
    · exact h.2
  | expr (.call ..), h, hc => by
    rcases List.mem_cons.1 hc with rfl | hc
    · exact h.1
    · obtain ⟨e, he, rfl⟩ := List.mem_map.1 hc
      exact h.2.of_mem he
  | expr (.lambda _), h, hc | method _, h, hc => proper_ofFunction h hc
  | stmt (.funDecl _), h, hc => proper_ofFunction h.2 hc
  | stmt (.varDecl ..), h, hc => proper_toList h.2 hc
  | stmt (.returns ..), h, hc => proper_toList h hc
  | stmt (.classDecl ..), h, hc => by
    rcases List.mem_append.1 hc with hc | hc <;> obtain ⟨x, hx, rfl⟩ := List.mem_map.1 hc
    · exact trivial
    · exact h.2.of_mem hx
  | stmt (.block ..), h, hc => by
    obtain ⟨s, hs, rfl⟩ := List.mem_map.1 hc
    exact Stmt.AllProper.of_mem h hs
  | stmt (.conditional ..), ⟨hcondition, ⟨hyes, _⟩, hno, _⟩, hc => by
    rcases List.mem_cons.1 hc with rfl | hc
    · exact hcondition
    · rcases List.mem_cons.1 hc with rfl | hc
      · exact hyes
      · exact proper_toList_stmt hno hc
  | stmt (.whileLoop ..), ⟨hcondition, hbody, _⟩, hc => by
    rcases List.mem_pair.1 hc with rfl | rfl
    · exact hcondition
    · exact hbody
  | stmt (.forLoop ..), ⟨⟨hi, _⟩, hcondition, hu, hbody, _⟩, hc => by
    rcases List.mem_append.1 hc with hc | hc
    · rcases List.mem_append.1 hc with hc | hc
      · rcases List.mem_append.1 hc with hc | hc
        · exact proper_toList_stmt hi hc
        · exact proper_toList hcondition hc
      · exact proper_toList hu hc
    · obtain rfl := List.mem_singleton.1 hc
      exact hbody

/-- The tree is proper, and in it no variable is read in its own initializer, in whatever scope. -/
structure Sober (n : Node) : Prop where
  proper : n.Proper
  spares : ∀ m ∈ n.nodes, ∀ span x e, m = .stmt (.varDecl span x (some e)) →
    ∀ r ∈ e.reads, r.text ≠ x

/-- The children of a sober node are sober. -/
theorem Sober.child {n c : Node} (h : n.Sober) (hc : c ∈ n.children) : c.Sober := by
  refine ⟨h.proper.child hc, fun m hm ↦ h.spares m ?_⟩
  rw [nodes_eq]
  exact List.mem_cons_of_mem _ (List.mem_flatMap.2 ⟨c, hc, hm⟩)

end Node

/-- Nothing in the statement reads a local variable in its own initializer, and if the statement
declares a variable itself then the initializer may read that variable only if it is known. -/
structure Stmt.Vetted (known : String → Prop) (s : Stmt) : Prop where
  proper : s.Proper
  inside : ∀ c ∈ (Node.stmt s).children, c.Sober
  own : ∀ span x e, s = .varDecl span x (some e) → ∀ r ∈ e.reads, r.text = x → known x

/-- A sober statement is vetted, whatever names are known. -/
theorem Node.Sober.vetted {s : Stmt} (h : (Node.stmt s).Sober) (known : String → Prop) :
    s.Vetted known := by
  refine ⟨h.proper, fun c ↦ h.child, fun span x e hs r hr hx ↦ ?_⟩
  rw [hs] at h
  refine absurd hx (h.spares _ ?_ span x e rfl r hr)
  rw [nodes_eq]
  exact List.mem_cons_self

/-- A statement that is vetted is so with more known names. -/
theorem Stmt.Vetted.mono {known known' : String → Prop} {s : Stmt} (h : s.Vetted known)
    (hknown : ∀ x, known x → known' x) : s.Vetted known' :=
  ⟨h.proper, h.inside, fun span x e hs r hr hx ↦ hknown x (h.own span x e hs r hr hx)⟩

/-- In a program without faults, a variable that is read in its own initializer is a global one that
an earlier statement declares or that was bound from the start. -/
theorem Program.vetted {p : Program} (h : Stmt.AllProper p) {globals : List String}
    (hfaults : p.refusals globals = []) {before rest : List Stmt} {s : Stmt}
    (hp : p = before ++ s :: rest) :
    s.Vetted fun x ↦ x ∈ globals ∨ x ∈ Node.declared (before.map .stmt) := by
  let v : Visit := ⟨.stmt s, before.map .stmt⟩
  have hv : v ∈ Visit.each [] (p.map .stmt) := by
    rw [hp, List.map_append, List.map_cons]
    exact mem_each [] _ _ _
  have hs : s.Proper := h.of_mem (hp ▸ List.mem_append_right _ List.mem_cons_self)
  refine ⟨hs, fun c hc ↦ ⟨Node.Proper.child (n := .stmt s) hs hc, ?_⟩, ?_⟩
  · intro m hm span x e hme r hr hx
    obtain ⟨w, hw, rfl⟩ := exists_mem_each ((Node.visited_perm _).symm.subset hc)
    obtain ⟨site, hsite, rfl⟩ := List.mem_map.1 ((w.nodes_sites [v]).symm.subset hm)
    have hpath : site.path ≠ [] := path_ne_nil (List.cons_ne_nil _ _) hsite
    have hmem := mem_refusals_of_reads h globals
      (List.mem_flatMap.2 ⟨v, hv, mem_sites_of_child hw hsite⟩) hme (absurd · hpath) hr hx
    rw [hfaults] at hmem
    cases hmem
  · intro span x e hse r hr hx
    by_contra hknown
    obtain ⟨hglobals, hdeclared⟩ := not_or.1 hknown
    have hmem := mem_refusals_of_reads h globals
      (List.mem_flatMap.2 ⟨v, hv, here_mem_sites [] v⟩) (congrArg Node.stmt hse)
      (fun _ ↦ ⟨hglobals, hdeclared⟩) hr hx
    rw [hfaults] at hmem
    cases hmem

end LoxLang
