import LoxLang.Program.Equality
import LoxLang.Proofs.Alike.Faults
import LoxLang.Proofs.Globals
import LoxLang.Proofs.Nodes
import Mathlib.Data.List.Perm.Basic

/-!
# Where faults are found

The walk over a program carries what encloses a place and the scopes that are open there. Both can
be read off the tree: a site is a node together with the nodes around it and those before it, and
what is wrong at a site is decided by them alone (`Site.faults`). So the faults of a program are
those of its sites, one site after another in walking order (`Stmt.AllProper.faults_eq`), and every
node of the program is one of the sites (`Program.nodes_sites`).
-/

namespace LoxLang

/-! ### Sites -/

namespace Node

/-- The nodes directly inside a node, in walking order: a value is visited before the object whose
property it becomes, and everything else as it is written. -/
def visited : Node → List Node
  | expr (.setProperty _ object _ value) => [expr value, expr object]
  | n => n.children

/-- A node is visited with all of its children, perhaps in another order. -/
theorem visited_perm (n : Node) : n.visited.Perm n.children := by
  unfold visited
  split
  · exact .swap ..
  · rfl

/-- The name that a node declares in the scope in which it stands. -/
def declares? : Node → Option String
  | stmt s => s.declares
  | param p => some p.text
  | _ => none

/-- The node is a function, and what is inside it is its parameters and its body. -/
def isFunction : Node → Bool
  | expr (.lambda _) | stmt (.funDecl _) | method _ => true
  | _ => false

/-- The name and the superclass of a class, if the node is one. -/
def class? : Node → Option (String × Option Name)
  | stmt (.classDecl _ name parent _) => some (name, parent)
  | _ => none

end Node

/-- A node, and the nodes before it directly inside the same node. -/
structure Visit where
  /-- The node. -/
  node : Node
  /-- Those before it, in walking order. -/
  earlier : List Node

/-- A node with what is around it. -/
structure Site extends Visit where
  /-- The nodes around it, the innermost first. -/
  path : List Visit

namespace Visit

/-- Nodes in walking order, each with those before it. -/
def each (earlier : List Node) : List Node → List Visit
  | [] => []
  | n :: ns => ⟨n, earlier⟩ :: each (earlier ++ [n]) ns

theorem map_each (earlier ns : List Node) : (each earlier ns).map (·.node) = ns := by
  induction ns generalizing earlier with
  | nil => rfl
  | cons n ns ih => exact congrArg (n :: ·) (ih _)

/-- What is visited in a node is smaller than the node. -/
theorem sizeOf_node {n : Node} {v : Visit} (h : v ∈ each [] n.visited) :
    sizeOf v.node < sizeOf n := by
  refine Node.sizeOf_children (n.visited_perm.subset ?_)
  rw [← map_each [] n.visited]
  exact List.mem_map_of_mem h

/-- The site of a node and those of the nodes inside it, at any depth, in walking order. -/
def sites (path : List Visit) (v : Visit) : List Site :=
  ⟨v, path⟩ :: (each [] v.node.visited).attach.flatMap fun w ↦ sites (v :: path) w.1
termination_by sizeOf v.node
decreasing_by exact sizeOf_node w.2

/-- The sites in a node are itself, and then those in its children, as they are visited. -/
theorem sites_eq (path : List Visit) (v : Visit) :
    v.sites path = ⟨v, path⟩ :: (each [] v.node.visited).flatMap (sites (v :: path)) := by
  rw [sites]
  simp [List.flatMap_subtype]

/-- Each node inside a node has one site. -/
theorem nodes_sites (path : List Visit) (v : Visit) :
    ((v.sites path).map (·.node)).Perm v.node.nodes := by
  rw [sites_eq, Node.nodes_eq, List.map_cons, List.map_flatMap]
  refine List.Perm.cons _ ?_
  have hinner : ∀ w ∈ each [] v.node.visited,
      ((w.sites (v :: path)).map (·.node)).Perm w.node.nodes :=
    fun w hw ↦ w.nodes_sites (v :: path)
  refine (List.Perm.flatMap_left _ hinner).trans ?_
  rw [← List.flatMap_map, map_each]
  exact v.node.visited_perm.flatMap_right _
termination_by sizeOf v.node
decreasing_by exact sizeOf_node hw

end Visit

/-- The sites of a program, in walking order. -/
def Program.sites (p : Program) : List Site :=
  (Visit.each [] (p.map .stmt)).flatMap (Visit.sites [])

/-- Each node of a program has one site. -/
theorem Program.nodes_sites (p : Program) :
    (p.sites.map (·.node)).Perm ((p.map .stmt).flatMap Node.nodes) := by
  unfold Program.sites
  rw [List.map_flatMap]
  refine (List.Perm.flatMap_left _ fun v _ ↦ v.nodes_sites []).trans ?_
  rw [← List.flatMap_map, Visit.map_each]

/-! ### What is wrong at a site -/

/-- The names that the nodes declare in the scope in which they stand. -/
def Node.declared (nodes : List Node) : List String := nodes.filterMap Node.declares?

namespace Site

/-- The nearest function around a place. -/
def function? (path : List Visit) : Option Node := (path.map (·.node)).find? Node.isFunction

/-- The nearest class around a place: its name and its superclass. -/
def class? (path : List Visit) : Option (String × Option Name) :=
  path.findSome? fun v ↦ v.node.class?

/-- The nearest node around a place that is no expression or is a function. -/
def anchor? : List Visit → Option Site
  | [] => none
  | v :: path =>
    match v.node with
    | .expr (.lambda _) => some ⟨v, path⟩
    | .expr _ => anchor? path
    | _ => some ⟨v, path⟩

/-- The name is declared before a place, in the same scope. A scope that is not global consists of
the nodes directly inside one node; the global scope has names from the start. -/
def isBound (globals : List String) (path : List Visit) (earlier : List Node) (name : String) :
    Bool :=
  name ∈ Node.declared earlier || path.isEmpty && name ∈ globals

/-- The variable that is new to its scope, and in whose initializer a place stands, outside of the
functions in it. -/
def initializes? (globals : List String) (path : List Visit) : Option String :=
  (anchor? path).bind fun site ↦
    match site.node with
    | .stmt (.varDecl _ name _) =>
      if site.path.isEmpty && isBound globals [] site.earlier name then none else some name
    | _ => none

/-- A name must not be declared twice, unless it is global. -/
def redeclared (site : Site) (name : String) (span : Span) : List Fault :=
  if site.path.isEmpty = false ∧ name ∈ Node.declared site.earlier then
    [⟨.alreadyDefined name, span⟩]
  else []

/-- What is misplaced at a site. -/
def misplaced (site : Site) : List Fault :=
  match site.node with
  | .stmt (.returns span value) =>
    match function? site.path with
    | none => [⟨.returnOutsideFunction, span⟩]
    | some (.method f) =>
      if f.name = "init" ∧ value.isSome then [⟨.valueFromInitializer, span⟩] else []
    | some _ => []
  | .expr (.this span) => if (class? site.path).isNone then [⟨.thisOutsideClass, span⟩] else []
  | .expr (.super span _) =>
    match class? site.path with
    | none => [⟨.superOutsideClass, span⟩]
    | some (name, none) => [⟨.superWithoutSuperclass name, span⟩]
    | some (_, some _) => []
  | .stmt (.classDecl span name parent _) =>
    site.redeclared name span ++
      (parent.toList.filter (·.text == name)).map fun p ↦ ⟨.inheritsFromItself name, p.span⟩
  | .stmt (.varDecl span name _) => site.redeclared name span
  | .stmt (.funDecl f) => site.redeclared f.name f.span
  | .param p => site.redeclared p.text p.span
  | _ => []

/-- What is wrong with a variable that is read at a site. -/
def readEarly (globals : List String) (site : Site) : List Fault :=
  match site.node with
  | .expr (.var span name) =>
    if initializes? globals site.path = some name then [⟨.readInOwnInitializer name, span⟩] else []
  | _ => []

/-- All that is wrong at a site. -/
def faults (globals : List String) (site : Site) : List Fault :=
  site.misplaced ++ site.readEarly globals

end Site

/-! ### Scopes at a site -/

namespace Scopes

/-- In the innermost scope a declared name is unfinished, unless it is a global one that was
finished before. -/
theorem innermost_declare (S : Scopes) (x y : String) : (S.declare x).innermost.lookup y =
    if y = x then some (S.locals.isEmpty && (S.innermost.lookup x).getD false)
    else S.innermost.lookup y := by
  obtain ⟨_ | ⟨scope, rest⟩, globals⟩ := S
  · have htop : Scopes.locals ⟨[], globals⟩ = [] := rfl
    have hinner := lookup_declare htop x y
    unfold innermost
    rw [locals_declare htop]
    exact hinner
  · exact lookup_cons ..

/-- In the innermost scope a name that is defined is finished. -/
theorem innermost_define (S : Scopes) (x y : String) : (S.define x).innermost.lookup y =
    if y = x then some true else S.innermost.lookup y := by
  obtain ⟨_ | ⟨scope, rest⟩, globals⟩ := S <;> exact lookup_cons ..

theorem isEmpty_declare (S : Scopes) (x : String) :
    (S.declare x).locals.isEmpty = S.locals.isEmpty := by
  obtain ⟨_ | ⟨scope, rest⟩, globals⟩ := S
  · rw [locals_declare rfl]
  · rfl

theorem isEmpty_define (S : Scopes) (x : String) :
    (S.define x).locals.isEmpty = S.locals.isEmpty := by
  obtain ⟨_ | ⟨scope, rest⟩, globals⟩ := S <;> rfl

end Scopes

/-- The innermost scope has just the names that are declared before the place, all of them
finished, and it is global if nothing is around the place. -/
structure Site.Standing (globals : List String) (path : List Visit) (earlier : List Node)
    (S : Scopes) : Prop where
  top : S.locals.isEmpty = path.isEmpty
  lookup : ∀ x, S.innermost.lookup x = if isBound globals path earlier x then some true else none

namespace Site.Standing

variable {globals : List String} {n : Node} {earlier : List Node} {path : List Visit} {v : Visit}
  {S : Scopes} {x : String}

/-- At the beginning of a program the scopes are those of the known names. -/
theorem start (globals : List String) : Standing globals [] [] (.ofGlobals globals) := by
  refine ⟨rfl, fun x ↦ ?_⟩
  have hsettled := (Scopes.Settled.ofGlobals globals).finished x
  have hlookup : (Scopes.ofGlobals globals).globals.lookup x = some true ↔ x ∈ globals :=
    Scopes.lookup_ofGlobals
  change (Scopes.ofGlobals globals).globals.lookup x = if isBound globals [] [] x then _ else _
  have hbound : isBound globals [] [] x = true ↔ x ∈ globals := by
    simp [isBound, Node.declared]
  by_cases hx : x ∈ globals
  · rw [hlookup.2 hx, if_pos (hbound.2 hx)]
  · rw [if_neg (mt hbound.1 hx)]
    match h : (Scopes.ofGlobals globals).globals.lookup x with
    | none => rfl
    | some true => exact absurd (hlookup.1 h) hx
    | some false => exact absurd h hsettled

/-- In a new scope nothing stands before. -/
theorem push (globals : List String) (v : Visit) (path : List Visit) (S : Scopes) :
    Standing globals (v :: path) [] (S.push []) :=
  ⟨rfl, fun _ ↦ rfl⟩

/-- Nothing is unfinished between two nodes of a scope. -/
theorem finished (h : Standing globals path earlier S) (x : String) :
    S.unfinished x = false := by
  unfold Scopes.unfinished
  rw [h.lookup]
  split <;> rfl

/-- A name is bound after a node if it was bound before, or the node declares it. -/
theorem isBound_append (globals : List String) (path : List Visit) (earlier : List Node)
    (n : Node) (y : String) : isBound globals path (earlier ++ [n]) y =
      (isBound globals path earlier y || n.declares? == some y) := by
  unfold isBound Node.declared
  rw [List.filterMap_append]
  cases hn : n.declares? with
  | none => simp [hn]
  | some x => grind

/-- A node that declares nothing leaves the scopes as they stand. -/
theorem skip (h : Standing globals path earlier S) (hn : n.declares? = none) :
    Standing globals path (earlier ++ [n]) S := by
  refine ⟨h.top, fun y ↦ ?_⟩
  rw [h.lookup, isBound_append, hn]
  simp

/-- After a declaration the name is in the scopes, and finished. -/
theorem declare (h : Standing globals path earlier S) (hn : n.declares? = some x) :
    Standing globals path (earlier ++ [n]) ((S.declare x).define x) := by
  refine ⟨by rw [Scopes.isEmpty_define, Scopes.isEmpty_declare, h.top], fun y ↦ ?_⟩
  rw [Scopes.innermost_define, Scopes.innermost_declare, h.lookup, isBound_append, hn]
  by_cases hy : y = x
  · simp [hy]
  · simp [hy, Ne.symm hy, h.lookup]

/-- A declaration is refused exactly where the name has been declared before in the same local
scope. -/
theorem redeclared_eq (h : Standing globals path earlier S) (x : String) (span : Span) :
    (S.declarationFault? x span).toList =
      Site.redeclared ⟨⟨n, earlier⟩, path⟩ x span := by
  have htop := h.top
  have hlookup := h.lookup x
  unfold Site.redeclared
  obtain ⟨_ | ⟨scope, rest⟩, g⟩ := S
  · rw [if_neg (by simp [← htop])]
    rfl
  · have hpath : path.isEmpty = false := htop.symm
    change scope.lookup x = _ at hlookup
    simp only [Scopes.declarationFault?, Scope.declares, hlookup, isBound, hpath]
    by_cases hx : x ∈ Node.declared earlier <;> simp [hx]

/-- While its first value is computed, a variable is unfinished if it is new to its scope. -/
theorem unfinished_declare (h : Standing globals path earlier S) (span : Span) (x : String)
    (value : Option Expr) (y : String) : (S.declare x).unfinished y =
      (initializes? globals (⟨.stmt (.varDecl span x value), earlier⟩ :: path) == some y) := by
  unfold Scopes.unfinished
  rw [Scopes.innermost_declare, h.lookup, h.lookup, h.top]
  simp only [initializes?, anchor?, Option.bind_some]
  by_cases hy : y = x
  · cases path <;> cases isBound globals [] earlier x <;> simp [hy]
  · cases path <;> simp [hy, Ne.symm hy]

end Site.Standing

/-! ### The walk -/

/-- What a walk tells functions apart by. -/
def Node.functionKind : Node → FunctionKind
  | method f => Finding.methodKind f
  | _ => .plain

namespace Site

/-- What a walk knows of the nodes around a place. -/
def surroundings (path : List Visit) : Surroundings where
  function := (function? path).map Node.functionKind
  cls := (class? path).map fun c ↦ ⟨c.1, c.2.isSome⟩

/-- The variables that are unfinished are those in whose initializers the place stands. -/
def Reading (globals : List String) (path : List Visit) (S : Scopes) : Prop :=
  ∀ x, S.unfinished x = (initializes? globals path == some x)

end Site

namespace Visit

variable (globals : List String) (path : List Visit)

/-- What is wrong at the sites of a node and of those inside it. -/
def faults (v : Visit) : List Fault := (v.sites path).flatMap (Site.faults globals)

/-- What is wrong at the sites of nodes that follow others. -/
def allFaults (earlier ns : List Node) : List Fault :=
  (each earlier ns).flatMap (faults globals path)

/-- The faults in a node are its own, and then those in its children, as they are visited. -/
theorem faults_eq (v : Visit) : v.faults globals path =
    Site.faults globals ⟨v, path⟩ ++ allFaults globals (v :: path) [] v.node.visited := by
  unfold faults allFaults
  rw [sites_eq, List.flatMap_cons, List.flatMap_assoc]
  rfl

/-- A node at which nothing is wrong has the faults of the nodes inside it. -/
theorem faults_eq_of_nil {v : Visit} (h : Site.faults globals ⟨v, path⟩ = []) :
    v.faults globals path = allFaults globals (v :: path) [] v.node.visited := by
  rw [faults_eq, h, List.nil_append]

@[simp] theorem allFaults_nil (earlier : List Node) : allFaults globals path earlier [] = [] := rfl

@[simp] theorem allFaults_cons (earlier : List Node) (n : Node) (ns : List Node) :
    allFaults globals path earlier (n :: ns) =
      faults globals path ⟨n, earlier⟩ ++ allFaults globals path (earlier ++ [n]) ns :=
  rfl

/-- A node at which nothing is wrong and that has one node directly inside it has the faults of
that. -/
theorem faults_eq_child {v : Visit} {n : Node} (h : Site.faults globals ⟨v, path⟩ = [])
    (hv : v.node.visited = [n]) : v.faults globals path = faults globals (v :: path) ⟨n, []⟩ := by
  rw [faults_eq_of_nil globals path h, hv, allFaults_cons, allFaults_nil, List.append_nil]

/-- The faults in two rows of nodes are those in the first and then those in the second, which
stands behind the first. -/
theorem allFaults_append (earlier ns ms : List Node) :
    allFaults globals path earlier (ns ++ ms) =
      allFaults globals path earlier ns ++ allFaults globals path (earlier ++ ns) ms := by
  induction ns generalizing earlier with
  | nil => simp
  | cons n ns ih => simp [ih]

end Visit

section Walk

open Site Visit

variable {globals : List String} {path : List Visit} {S : Scopes}

@[simp] theorem Finding.faults_reading (hS : Reading globals path S) (span : Span) (x : String) :
    Finding.faults (Finding.reading S span x) =
      if initializes? globals path = some x then [⟨.readInOwnInitializer x, span⟩] else [] := by
  unfold Finding.reading
  rw [Finding.faults_append, Finding.faults_reference, hS x]
  by_cases h : initializes? globals path = some x
  · simp [h, Finding.faults, Finding.misplaced]
  · simp [h, Finding.faults]

/-- Where no initializer is being walked, nothing is unfinished. -/
theorem Site.Standing.reading {earlier : List Node} (h : Standing globals path earlier S)
    (hpath : initializes? globals path = none) : Reading globals path S := by
  intro x
  rw [h.finished x, hpath]
  rfl

/-- A statement that declares a name leaves the scopes with this name finished. -/
theorem Finding.ofStmt_fst_of_declares {cx : Surroundings} {s : Stmt} {x : String}
    (h : s.declares = some x) : (ofStmt cx S s).1 = (S.declare x).define x := by
  cases s with
  | varDecl | funDecl | classDecl =>
    obtain rfl := Option.some.inj h
    rfl
  | _ => cases h

/-- The scopes after a statement. -/
theorem Site.Standing.after {earlier : List Node} (h : Standing globals path earlier S) {s : Stmt}
    (hs : s.Proper) (cx : Surroundings) :
    Standing globals path (earlier ++ [.stmt s]) (Finding.ofStmt cx S s).1 := by
  cases hdeclares : s.declares with
  | none =>
    rw [Finding.ofStmt_fst hs hdeclares]
    exact h.skip hdeclares
  | some x =>
    rw [Finding.ofStmt_fst_of_declares hdeclares]
    exact h.declare hdeclares

/-- A clause leaves the scopes as they should stand behind it. -/
theorem Site.Standing.after? {earlier : List Node} (h : Standing globals path earlier S)
    {s : Option Stmt} (hs : Stmt.Proper? s) (cx : Surroundings) :
    Standing globals path (earlier ++ s.toList.map .stmt) (Finding.ofStmt? cx S s).1 := by
  cases s with
  | none =>
    rw [Option.toList_none, List.map_nil, List.append_nil]
    exact h
  | some s => exact h.after hs cx

/-- The faults of parameters are those of their sites, and the scopes after them. -/
theorem Site.Standing.parameters {earlier : List Node} (h : Standing globals path earlier S)
    (ps : List Name) :
    Standing globals path (earlier ++ ps.map .param) (Finding.parameters S ps).1 ∧
      Finding.faults (Finding.parameters S ps).2 =
        allFaults globals path earlier (ps.map .param) := by
  induction ps generalizing S earlier with
  | nil =>
    rw [List.map_nil, List.append_nil]
    exact ⟨h, rfl⟩
  | cons p ps ih =>
    obtain ⟨hstanding, hfaults⟩ := ih (h.declare (n := .param p) rfl)
    refine ⟨by rw [List.map_cons, ← List.append_cons] at *; exact hstanding, ?_⟩
    have hp : Finding.faults (Finding.defining S p.span p.text).2 =
        Visit.faults globals path ⟨.param p, earlier⟩ := by
      rw [Visit.faults_eq, Finding.defining, Finding.faults_fault?, h.redeclared_eq (n := .param p)]
      simp [Site.faults, misplaced, readEarly, Node.visited, Node.children]
    rw [List.map_cons, allFaults_cons, ← hp, ← hfaults, ← Finding.faults_append]
    rfl

/-- A receiver is refused exactly where there is none. -/
theorem Finding.faults_thisFaults (path : List Visit) (span : Span) (earlier : List Node) :
    faults (thisFaults (surroundings path) span) =
      Site.faults globals ⟨⟨.expr (.this span), earlier⟩, path⟩ := by
  unfold thisFaults Site.faults Site.misplaced surroundings
  rcases class? path with _ | c <;> simp [readEarly, faults, Finding.misplaced]

/-- A method of the superclass is refused exactly where there is no superclass. -/
theorem Finding.faults_superFaults (path : List Visit) (span : Span) (x : String)
    (earlier : List Node) : faults (superFaults (surroundings path) span) =
      Site.faults globals ⟨⟨.expr (.super span x), earlier⟩, path⟩ := by
  unfold superFaults Site.faults Site.misplaced surroundings
  rcases class? path with _ | ⟨name, _ | parent⟩ <;>
    simp [readEarly, faults, Finding.misplaced]

/-- Only a method with the name `init` is an initializer. -/
theorem Finding.methodKind_eq_initializer (f : FunDecl) :
    methodKind f = .initializer ↔ f.name = "init" := by
  unfold methodKind FunDecl.isInitializer FunDecl.initializer
  by_cases h : f.name = "init" <;> simp [h]

/-- A `return` is refused exactly at the top of a program, or with a value in an initializer. -/
theorem Finding.faults_returnFaults (path : List Visit) (span : Span) (value : Option Expr)
    (earlier : List Node) : faults (returnFaults (surroundings path) span value.isSome) =
      Site.faults globals ⟨⟨.stmt (.returns span value), earlier⟩, path⟩ := by
  unfold returnFaults Site.faults Site.misplaced surroundings
  rcases function? path with _ | n
  · simp [readEarly, faults, Finding.misplaced]
  · cases n with
    | method f =>
      by_cases hname : f.name = "init" <;> cases value <;>
        simp [hname, Node.functionKind, methodKind_eq_initializer, readEarly, faults,
          Finding.misplaced]
    | _ => simp [Node.functionKind, readEarly, faults]

/-- A superclass is read where nothing is unfinished. -/
theorem Finding.faults_superclass (hS : Reading globals path S)
    (hpath : initializes? globals path = none) (x : String) (parent : Option Name) :
    faults (parent.elim [] (superclass S x)) =
      (parent.toList.filter (·.text == x)).map (fun p ↦ ⟨.inheritsFromItself x, p.span⟩) ++
        allFaults globals path [] (parent.toList.map fun p ↦ .expr p.toExpr) := by
  cases parent with
  | none => rfl
  | some p =>
    have hread : allFaults globals path [] [.expr p.toExpr] = [] := by
      rw [allFaults_cons, Visit.faults_eq_of_nil _ _ (by
        simp [Site.faults, Site.misplaced, readEarly, Name.toExpr, hpath])]
      rfl
    change faults (superclass S x p) = _ ++ allFaults globals path [] [.expr p.toExpr]
    rw [superclass, faults_append, faults_reading hS, hpath, hread]
    by_cases hx : p.text = x <;> simp [hx, faults, Finding.misplaced]

mutual

/-- The faults of an expression are those of its sites. -/
theorem Expr.Proper.faults_eq {e : Expr} (h : e.Proper) (path : List Visit) {S : Scopes}
    (hS : Reading globals path S) (earlier : List Node) :
    Finding.faults (Finding.ofExpr (surroundings path) S e) =
      Visit.faults globals path ⟨.expr e, earlier⟩ :=
  match e, h with
  | .literal .., _ => by
    rw [Visit.faults_eq]
    rfl
  | .var .., _ => by
    rw [Visit.faults_eq, Finding.ofExpr, Finding.faults_reading hS]
    exact (List.append_nil _).symm
  | .assign span x value, h => by
    rw [Visit.faults_eq_child _ _ rfl rfl, Finding.ofExpr, Finding.faults_append,
      Finding.faults_reference, List.append_nil]
    exact Expr.Proper.faults_eq (e := value) h.2
      (⟨.expr (.assign span x value), earlier⟩ :: path) hS []
  | .step .., _ => by
    rw [Visit.faults_eq, Finding.ofExpr, Finding.faults_reference]
    rfl
  | .group span inner, h => by
    rw [Visit.faults_eq_child _ _ rfl rfl]
    exact Expr.Proper.faults_eq (e := inner) h (⟨.expr (.group span inner), earlier⟩ :: path) hS []
  | .unary span op operand, h => by
    rw [Visit.faults_eq_child _ _ rfl rfl]
    exact Expr.Proper.faults_eq (e := operand) h
      (⟨.expr (.unary span op operand), earlier⟩ :: path) hS []
  | .property span object x, h => by
    rw [Visit.faults_eq_child _ _ rfl rfl]
    exact Expr.Proper.faults_eq (e := object) h
      (⟨.expr (.property span object x), earlier⟩ :: path) hS []
  | .binary span op left right, h => by
    let around : List Visit := ⟨.expr (.binary span op left right), earlier⟩ :: path
    have hleft := Expr.Proper.faults_eq (e := left) h.1 around hS []
    have hright := Expr.Proper.faults_eq (e := right) h.2 around hS [.expr left]
    rw [Visit.faults_eq_of_nil _ _ rfl, Finding.ofExpr, Finding.faults_append]
    exact congrArg₂ (· ++ ·) hleft (hright.trans (List.append_nil _).symm)
  | .call span callee arguments, h => by
    let around : List Visit := ⟨.expr (.call span callee arguments), earlier⟩ :: path
    have hcallee := Expr.Proper.faults_eq (e := callee) h.1 around hS []
    have harguments : Expr.AllProper arguments := h.2
    have hargs := harguments.faults_eq around hS [.expr callee]
    rw [Visit.faults_eq_of_nil _ _ rfl, Finding.ofExpr, Finding.faults_append]
    exact congrArg₂ (· ++ ·) hcallee hargs
  | .setProperty span object x value, h => by
    let around : List Visit := ⟨.expr (.setProperty span object x value), earlier⟩ :: path
    have hvalue := Expr.Proper.faults_eq (e := value) h.2 around hS []
    have hobject := Expr.Proper.faults_eq (e := object) h.1 around hS [.expr value]
    rw [Visit.faults_eq_of_nil _ _ rfl, Finding.ofExpr, Finding.faults_append]
    exact congrArg₂ (· ++ ·) hvalue (hobject.trans (List.append_nil _).symm)
  | .this span, _ => by
    rw [Visit.faults_eq, Finding.ofExpr, Finding.faults_append, Finding.faults_reference]
    exact congrArg (· ++ []) (Finding.faults_thisFaults path span earlier)
  | .super span x, _ => by
    rw [Visit.faults_eq, Finding.ofExpr, Finding.faults_append, Finding.faults_reference]
    exact congrArg (· ++ []) (Finding.faults_superFaults path span x earlier)
  | .lambda f, h => by
    rw [Visit.faults_eq_of_nil _ _ rfl]
    exact FunDecl.Proper.faults_eq (f := f) h ⟨.expr (.lambda f), earlier⟩ path .plain S rfl

/-- The faults in a row of expressions are those of the sites in them, in order. -/
theorem Expr.AllProper.faults_eq {es : List Expr} (h : Expr.AllProper es) (path : List Visit)
    {S : Scopes} (hS : Reading globals path S) (earlier : List Node) :
    Finding.faults (Finding.ofExprs (surroundings path) S es) =
      allFaults globals path earlier (es.map .expr) :=
  match es, h with
  | [], _ => rfl
  | _ :: _, h => by
    rw [Finding.ofExprs, Finding.faults_append]
    exact congrArg₂ (· ++ ·) (h.1.faults_eq path hS earlier)
      (Expr.AllProper.faults_eq h.2 path hS _)

theorem Expr.Proper?.faults_eq {e : Option Expr} (h : Expr.Proper? e) (path : List Visit)
    {S : Scopes} (hS : Reading globals path S) (earlier : List Node) :
    Finding.faults (Finding.ofExpr? (surroundings path) S e) =
      allFaults globals path earlier (e.toList.map .expr) :=
  match e, h with
  | none, _ => rfl
  | some e, h => (Expr.Proper.faults_eq (e := e) h path hS earlier).trans (List.append_nil _).symm

/-- The faults of a function are those of the sites inside it. It has a scope of its own, so
nothing is required of the scopes around it. -/
theorem FunDecl.Proper.faults_eq {f : FunDecl} (h : f.Proper) (v : Visit) (path : List Visit)
    (kind : FunctionKind) (S : Scopes)
    (hv : surroundings (v :: path) = { surroundings path with function := some kind }) :
    Finding.faults (Finding.ofFunction (surroundings path) S kind f) =
      allFaults globals (v :: path) [] (Node.ofFunction f) :=
  match f, h with
  | .mk _ _ params body, h => by
    obtain ⟨hstanding, hparams⟩ := (Standing.push globals v path S).parameters params
    have hproper : Stmt.AllProper body := h.2
    have hbody := hproper.faults_eq hstanding
    rw [hv] at hbody
    rw [Finding.ofFunction, Finding.faults_append, Node.ofFunction, allFaults_append]
    exact congrArg₂ (· ++ ·) hparams hbody

/-- The faults in a row of methods are those of the sites in them, in order. -/
theorem FunDecl.AllProper.faults_eq {fs : List FunDecl} (h : FunDecl.AllProper fs)
    (path : List Visit) (S : Scopes) (earlier : List Node) :
    Finding.faults (Finding.ofMethods (surroundings path) S fs) =
      allFaults globals path earlier (fs.map .method) :=
  match fs, h with
  | [], _ => rfl
  | f :: fs, h => by
    have hf := h.1.faults_eq ⟨.method f, earlier⟩ path _ S rfl
    rw [Finding.ofMethods, Finding.faults_append, List.map_cons, allFaults_cons,
      Visit.faults_eq_of_nil _ _ rfl]
    exact congrArg₂ (· ++ ·) hf (FunDecl.AllProper.faults_eq h.2 path S _)

/-- The faults of a statement are those of its sites. The names of the scope matter only to a
statement that declares one. -/
theorem Stmt.Proper.faults_eq {s : Stmt} (h : s.Proper) (path : List Visit) (earlier : List Node)
    {S : Scopes} (hS : ∀ x, S.unfinished x = false)
    (hdeclares : s.declares = none ∨ Standing globals path earlier S) :
    Finding.faults (Finding.ofStmt (surroundings path) S s).2 =
      Visit.faults globals path ⟨.stmt s, earlier⟩ :=
  match s, h with
  | .expression span value, h => by
    rw [Visit.faults_eq_child _ _ rfl rfl]
    exact Expr.Proper.faults_eq (e := value) h
      (⟨.stmt (.expression span value), earlier⟩ :: path) hS []
  | .print span value, h => by
    rw [Visit.faults_eq_child _ _ rfl rfl]
    exact Expr.Proper.faults_eq (e := value) h (⟨.stmt (.print span value), earlier⟩ :: path) hS []
  | .varDecl span x value, h => by
    have hS := hdeclares.resolve_left (Option.some_ne_none _)
    have hvalue := Expr.Proper?.faults_eq (e := value) h.2
      (⟨.stmt (.varDecl span x value), earlier⟩ :: path) (hS.unfinished_declare span x value) []
    rw [Visit.faults_eq, Finding.ofStmt, Finding.faults_append, Finding.declaring,
      Finding.faults_fault?, hS.redeclared_eq (n := .stmt (.varDecl span x value))]
    exact congrArg₂ (· ++ ·) (List.append_nil _).symm hvalue
  | .funDecl f, h => by
    have hS := hdeclares.resolve_left (Option.some_ne_none _)
    have hf := h.2.faults_eq ⟨.stmt (.funDecl f), earlier⟩ path .plain
      ((S.declare f.name).define f.name) rfl
    rw [Visit.faults_eq, Finding.ofStmt, Finding.faults_append, Finding.defining,
      Finding.faults_fault?, hS.redeclared_eq (n := .stmt (.funDecl f))]
    exact congrArg₂ (· ++ ·) (List.append_nil _).symm hf
  | .classDecl span x parent methods, h => by
    have hS := hdeclares.resolve_left (Option.some_ne_none _)
    let around : List Visit := ⟨.stmt (.classDecl span x parent methods), earlier⟩ :: path
    have hread : Reading globals around ((S.declare x).define x) :=
      (hS.declare (n := .stmt (.classDecl span x parent methods)) rfl).finished
    have hmethods := FunDecl.AllProper.faults_eq h.2 around
      (Finding.methodScopes ((S.declare x).define x) parent.isSome)
    have hhere : Site.faults globals ⟨⟨.stmt (.classDecl span x parent methods), earlier⟩, path⟩ =
        Site.misplaced ⟨⟨.stmt (.classDecl span x parent methods), earlier⟩, path⟩ :=
      List.append_nil _
    rw [Visit.faults_eq, hhere, Finding.ofStmt, Finding.faults_append, Finding.faults_append,
      Finding.defining, Finding.faults_fault?,
      hS.redeclared_eq (n := .stmt (.classDecl span x parent methods)),
      Finding.faults_superclass hread rfl]
    simp only [Node.visited, Node.children, allFaults_append, misplaced, List.append_assoc]
    exact congrArg (_ ++ ·) (congrArg (_ ++ ·) (congrArg (_ ++ ·) (hmethods _)))
  | .block span body, h => by
    rw [Visit.faults_eq_of_nil _ _ rfl]
    have hproper : Stmt.AllProper body := h
    exact hproper.faults_eq
      (.push globals ⟨.stmt (.block span body), earlier⟩ path S)
  | .conditional span condition yes no, ⟨hc, ⟨hyes, hdeclares⟩, hno, hdeclares'⟩ => by
    let around : List Visit := ⟨.stmt (.conditional span condition yes no), earlier⟩ :: path
    have hc := hc.faults_eq around hS []
    have hyes' := hyes.faults_eq around [.expr condition] hS (.inl hdeclares)
    have hno := hno.faults_eq around [.expr condition, .stmt yes] hS (.inl hdeclares')
    rw [Visit.faults_eq_of_nil _ _ rfl, Finding.ofStmt_conditional,
      Finding.ofStmt_fst hyes hdeclares, Finding.faults_append, Finding.faults_append,
      List.append_assoc]
    exact congrArg₂ (· ++ ·) hc (congrArg₂ (· ++ ·) hyes' hno)
  | .whileLoop span condition body, ⟨hc, hbody, hdeclares⟩ => by
    let around : List Visit := ⟨.stmt (.whileLoop span condition body), earlier⟩ :: path
    have hc := hc.faults_eq around hS []
    have hbody := hbody.faults_eq around [.expr condition] hS (.inl hdeclares)
    rw [Visit.faults_eq_of_nil _ _ rfl, Finding.ofStmt, Finding.faults_append]
    exact congrArg₂ (· ++ ·) hc (hbody.trans (List.append_nil _).symm)
  | .forLoop span init condition step body, ⟨⟨hi, _⟩, hc, hu, hbody, hdeclares⟩ => by
    let v : Visit := ⟨.stmt (.forLoop span init condition step body), earlier⟩
    have hpush := Standing.push globals v path S
    have hinner := hpush.after? hi (surroundings path)
    have hread := hinner.reading rfl
    have hi := hi.faults_eq (v :: path) [] hpush.finished (.inr hpush)
    have hc := hc.faults_eq (v :: path) hread ([] ++ init.toList.map .stmt)
    have hu := hu.faults_eq (v :: path) hread
      ([] ++ init.toList.map .stmt ++ condition.toList.map .expr)
    have hbody := hbody.faults_eq (v :: path)
      ([] ++ init.toList.map .stmt ++ condition.toList.map .expr ++ step.toList.map .expr)
      hinner.finished (.inl hdeclares)
    rw [Visit.faults_eq_of_nil _ _ rfl, Finding.ofStmt]
    simp only [Finding.faults_append, Node.visited, Node.children, allFaults_append]
    exact congrArg₂ (· ++ ·) (congrArg₂ (· ++ ·) (congrArg₂ (· ++ ·) hi hc) hu)
      (hbody.trans (List.append_nil _).symm)
  | .returns span value, h => by
    have hvalue := Expr.Proper?.faults_eq (e := value) h
      (⟨.stmt (.returns span value), earlier⟩ :: path) hS []
    rw [Visit.faults_eq, Finding.ofStmt, Finding.faults_append]
    exact congrArg₂ (· ++ ·) (Finding.faults_returnFaults path span value earlier) hvalue

/-- The faults in a row of statements are those of the sites in them, in order. -/
theorem Stmt.AllProper.faults_eq {ss : List Stmt} (h : Stmt.AllProper ss) {path : List Visit}
    {S : Scopes} {earlier : List Node} (hS : Standing globals path earlier S) :
    Finding.faults (Finding.ofStmts (surroundings path) S ss).2 =
      allFaults globals path earlier (ss.map .stmt) :=
  match ss, h with
  | [], _ => rfl
  | s :: ss, h => by
    have hs := h.1.faults_eq path earlier hS.finished (.inr hS)
    have hss := Stmt.AllProper.faults_eq h.2 (hS.after h.1 (surroundings path))
    rw [Finding.ofStmts, Finding.faults_append]
    exact congrArg₂ (· ++ ·) hs hss

/-- The faults in a clause are those of the sites in it, in order. -/
theorem Stmt.Proper?.faults_eq {s : Option Stmt} (h : Stmt.Proper? s) (path : List Visit)
    (earlier : List Node) {S : Scopes} (hS : ∀ x, S.unfinished x = false)
    (hdeclares : s.bind Stmt.declares = none ∨ Standing globals path earlier S) :
    Finding.faults (Finding.ofStmt? (surroundings path) S s).2 =
      allFaults globals path earlier (s.toList.map .stmt) :=
  match s, h with
  | none, _ => rfl
  | some s, h =>
    (Stmt.Proper.faults_eq (s := s) h path earlier hS hdeclares).trans (List.append_nil _).symm

end

end Walk

/-! ### Programs -/

/-- The faults for which a program is refused. -/
def Program.refusals (globals : List String) (p : Program) : List Fault :=
  match p.distances globals with
  | .ok _ => []
  | .error faults => faults

/-- The faults of a program are those that the walk over it finds, in order. -/
theorem Program.refusals_eq (globals : List String) (p : Program) :
    p.refusals globals = Finding.faults (p.findings globals) := by
  unfold refusals distances
  cases hfaults : Finding.faults (p.findings globals) with
  | nil => simp [hfaults]
  | cons f fs => simp [hfaults]

/-- A proper program is refused for what is wrong at its sites. -/
theorem Program.refusals_eq_sites {p : Program} (h : Stmt.AllProper p) (globals : List String) :
    p.refusals globals = p.sites.flatMap (Site.faults globals) := by
  rw [refusals_eq, sites, List.flatMap_assoc]
  exact h.faults_eq (.start globals)

/-- The fault is that of a variable that is read in its own initializer. -/
def Fault.isEarlyRead (f : Fault) : Bool :=
  match f.cause with
  | .readInOwnInitializer _ => true
  | _ => false

namespace Site

variable {globals : List String} {site : Site} {f : Fault}

/-- What is refused as a read in an initializer is such a fault. -/
theorem isEarlyRead_of_mem (hf : f ∈ site.readEarly globals) : f.isEarlyRead = true := by
  unfold readEarly at hf
  grind [Fault.isEarlyRead]

/-- What is refused as misplaced is no read in an initializer. -/
theorem isEarlyRead_of_mem_misplaced (hf : f ∈ site.misplaced) : f.isEarlyRead = false := by
  unfold misplaced redeclared at hf
  grind [Fault.isEarlyRead]

/-- Without the reads in initializers, the faults of a site are those of being misplaced. -/
theorem filter_faults (globals : List String) (site : Site) :
    (site.faults globals).filter (!·.isEarlyRead) = site.misplaced := by
  unfold faults
  rw [List.filter_append, List.filter_eq_self.2, List.filter_eq_nil_iff.2, List.append_nil]
  · intro f hf
    simp [isEarlyRead_of_mem hf]
  · intro f hf
    simp [isEarlyRead_of_mem_misplaced hf]

end Site

/-- A program that is read of a text is refused for what is misplaced in it, in walking order, and
besides only for variables that are read in their own initializers. Every node is one of the sites,
and no two sites have the same place. -/
theorem Program.refusals_misplaced {text : String} {offset : Nat} {p : Program}
    (h : Program.read text offset = .ok p) (globals : List String) :
    (p.refusals globals).filter (!·.isEarlyRead) = p.sites.flatMap Site.misplaced ∧
      (p.sites.map (·.node)).Perm ((p.map .stmt).flatMap Node.nodes) ∧
      (p.sites.map (·.node.span)).Nodup := by
  refine ⟨?_, p.nodes_sites, ?_⟩
  · rw [refusals_eq_sites (proper_of_read h), List.filter_flatMap]
    simp only [Site.filter_faults]
  · have hnodup := (nested_of_read h).nodup
    have hperm := p.nodes_sites.map Node.span
    rw [List.map_map] at hperm
    exact hperm.nodup_iff.2 hnodup

/-- Misplaced words around and in a class that inherits from itself. -/
theorem Program.refusals_misplaced_class : ∃ (text : String) (p : Program),
    text = "return this; class A < A \x7b init(a, a) \x7b return super.a; \x7d \x7d" ∧
      Program.read text 0 = .ok p ∧
      p.sites.flatMap Site.misplaced =
        [⟨.returnOutsideFunction, ⟨0, 12⟩⟩, ⟨.thisOutsideClass, ⟨7, 11⟩⟩,
          ⟨.inheritsFromItself "A", ⟨23, 24⟩⟩, ⟨.alreadyDefined "a", ⟨35, 36⟩⟩,
          ⟨.valueFromInitializer, ⟨40, 55⟩⟩] := by
  have hread : Program.read
      "return this; class A < A \x7b init(a, a) \x7b return super.a; \x7d \x7d" 0 =
      .ok [.returns ⟨0, 12⟩ (some (.this ⟨7, 11⟩)),
        .classDecl ⟨13, 59⟩ "A" (some ⟨"A", ⟨23, 24⟩⟩)
          [.mk ⟨27, 57⟩ "init" [⟨"a", ⟨32, 33⟩⟩, ⟨"a", ⟨35, 36⟩⟩]
            [.returns ⟨40, 55⟩ (some (.super ⟨47, 54⟩ "a"))]]] := by
    decide +kernel
  refine ⟨_, _, rfl, hread, ?_⟩
  rw [← (Program.refusals_misplaced hread []).1]
  rfl

end LoxLang
