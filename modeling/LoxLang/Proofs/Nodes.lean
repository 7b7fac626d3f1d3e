import LoxLang.Proofs.Texts
import Mathlib.Data.List.Nodup

/-!
# The places of nodes

A node of a program is told apart from all others by its span alone. The nodes of a program that is
read from a text are nested (`Program.nested_of_read`): the children of a node stand one after
another inside it, in the order of the text, and leave at least one token to the node itself. So no
two nodes have the same span (`Node.Nested.nodup`).
-/

namespace LoxLang

open Grammar Lexeme

theorem Span.eq_of_ends {a b : Span} (hstart : a.start = b.start) (hstop : a.stop = b.stop) :
    a = b := by
  obtain ⟨start, stop⟩ := a
  obtain rfl : start = b.start := hstart
  obtain rfl : stop = b.stop := hstop
  rfl

/-! ### Nodes -/

/-- A part of a program with a place of its own. -/
inductive Node where
  | expr (e : Expr)
  | stmt (s : Stmt)
  /-- A method of a class. Any other function has the place of its statement or expression. -/
  | method (f : FunDecl)
  | param (name : Name)

namespace Node

/-- Where a node is written. -/
def span : Node → Span
  | expr e => e.span
  | stmt s => s.span
  | method f => f.span
  | param n => n.span

/-- The parameters of a function and the statements of its body. -/
def ofFunction (f : FunDecl) : List Node := f.params.map param ++ f.body.map stmt

/-- The nodes directly inside a node, in the order of the text. -/
def children : Node → List Node
  | expr (.assign _ _ value) => [expr value]
  | expr (.group _ inner) => [expr inner]
  | expr (.unary _ _ operand) => [expr operand]
  | expr (.binary _ _ left right) => [expr left, expr right]
  | expr (.call _ callee arguments) => expr callee :: arguments.map expr
  | expr (.property _ object _) => [expr object]
  | expr (.setProperty _ object _ value) => [expr object, expr value]
  | expr (.lambda f) => ofFunction f
  | expr _ => []
  | stmt (.expression _ value) => [expr value]
  | stmt (.print _ value) => [expr value]
  | stmt (.varDecl _ _ value) => value.toList.map expr
  | stmt (.funDecl f) => ofFunction f
  | stmt (.classDecl _ _ parent methods) =>
    parent.toList.map (fun p ↦ expr p.toExpr) ++ methods.map method
  | stmt (.block _ body) => body.map stmt
  | stmt (.conditional _ condition yes no) => expr condition :: stmt yes :: no.toList.map stmt
  | stmt (.whileLoop _ condition body) => [expr condition, stmt body]
  | stmt (.forLoop _ init condition step body) =>
    init.toList.map stmt ++ condition.toList.map expr ++ step.toList.map expr ++ [stmt body]
  | stmt (.returns _ value) => value.toList.map expr
  | method f => ofFunction f
  | param _ => []

theorem sizeOf_ofFunction {f : FunDecl} {n : Node} (h : n ∈ ofFunction f) :
    sizeOf n ≤ sizeOf f := by
  obtain ⟨span, name, params, body⟩ := f
  rcases List.mem_append.1 h with h | h <;> obtain ⟨x, hx, rfl⟩ := List.mem_map.1 h <;>
    have hlt := List.sizeOf_lt_of_mem hx
  · rw [FunDecl.params] at hlt
    rw [param.sizeOf_spec, FunDecl.mk.sizeOf_spec]
    omega
  · rw [FunDecl.body] at hlt
    rw [stmt.sizeOf_spec, FunDecl.mk.sizeOf_spec]
    omega

theorem sizeOf_toExpr (p : Name) : sizeOf p.toExpr = sizeOf p := by
  obtain ⟨text, span⟩ := p
  show sizeOf (Expr.var span text) = _
  rw [Expr.var.sizeOf_spec, Name.mk.sizeOf_spec]
  omega

theorem sizeOf_lt_of_mem_toList {α : Type} [SizeOf α] {o : Option α} {x : α} (h : x ∈ o.toList) :
    sizeOf x < sizeOf o := by
  obtain rfl := Option.mem_toList.1 h
  rw [Option.some.sizeOf_spec]
  omega

/-- What is inside a node is smaller than the node. -/
theorem sizeOf_children {n c : Node} (h : c ∈ n.children) : sizeOf c < sizeOf n := by
  unfold children at h
  split at h <;>
    grind [→ List.sizeOf_lt_of_mem, → sizeOf_lt_of_mem_toList, → sizeOf_ofFunction, sizeOf_toExpr]

/-- A node and all nodes inside it, at any depth. -/
def nodes (n : Node) : List Node := n :: n.children.attach.flatMap fun c ↦ nodes c.1
termination_by sizeOf n
decreasing_by exact sizeOf_children c.2

theorem nodes_eq (n : Node) : n.nodes = n :: n.children.flatMap nodes := by
  rw [nodes]
  simp [List.flatMap_subtype]

theorem mem_nodes_self (n : Node) : n ∈ n.nodes := by
  rw [nodes_eq]
  exact List.mem_cons_self

/-- What is directly inside one of the nodes of a node is one of them. -/
theorem mem_nodes_of_mem_children {m n c : Node} (hn : n ∈ m.nodes) (hc : c ∈ n.children) :
    c ∈ m.nodes := by
  rw [nodes_eq] at hn ⊢
  rcases List.mem_cons.1 hn with rfl | hn
  · exact List.mem_cons_of_mem _ (List.mem_flatMap.2 ⟨c, hc, c.mem_nodes_self⟩)
  · obtain ⟨d, hd, hn⟩ := List.mem_flatMap.1 hn
    have hinside := mem_nodes_of_mem_children hn hc
    exact List.mem_cons_of_mem _ (List.mem_flatMap.2 ⟨d, hd, hinside⟩)
termination_by sizeOf m
decreasing_by exact sizeOf_children hd

/-! ### Nodes inside nodes -/

/-- The nodes stand one after another between two offsets. The children of each stand in the same
way inside it, and none of them fills it. -/
inductive Nested : Nat → Nat → List Node → Prop
  | nil {lo hi : Nat} (h : lo ≤ hi) : Nested lo hi []
  | cons {lo hi : Nat} {n : Node} {ns : List Node} (hlo : lo ≤ n.span.start)
      (hpos : n.span.start < n.span.stop) (inside : Nested n.span.start n.span.stop n.children)
      (proper : ∀ c ∈ n.children, c.span ≠ n.span) (rest : Nested n.span.stop hi ns) :
      Nested lo hi (n :: ns)

namespace Nested

variable {lo lo' mid hi hi' : Nat} {n : Node} {ns ms : List Node}

theorem le (h : Nested lo hi ns) : lo ≤ hi := by
  induction h with
  | nil h => exact h
  | cons hlo hpos _ _ _ _ ih => omega

theorem mono (h : Nested lo hi ns) (hlo : lo' ≤ lo) (hhi : hi ≤ hi') : Nested lo' hi' ns := by
  induction h generalizing lo' with
  | nil h => exact .nil (by omega)
  | cons hlo' hpos inside proper _ _ ih =>
    exact .cons (by omega) hpos inside proper (ih (Nat.le_refl _) hhi)

theorem append (h : Nested lo mid ns) (h' : Nested mid hi ms) : Nested lo hi (ns ++ ms) := by
  induction h with
  | nil h => exact h'.mono h (Nat.le_refl _)
  | cons hlo hpos inside proper _ _ ih => exact .cons hlo hpos inside proper (ih h')

/-- The nodes lie between the two offsets, and none of them is empty. -/
theorem bounds (h : Nested lo hi ns) (hn : n ∈ ns) :
    lo ≤ n.span.start ∧ n.span.start < n.span.stop ∧ n.span.stop ≤ hi := by
  induction h with
  | nil => cases hn
  | cons hlo hpos _ _ rest _ ih =>
    have hhi := rest.le
    rcases List.mem_cons.1 hn with rfl | hn
    · omega
    · have hbounds := ih hn
      omega

theorem start_le (h : Nested lo hi (n :: ns)) : lo ≤ n.span.start :=
  (h.bounds List.mem_cons_self).1

theorem tighten (h : Nested lo hi (n :: ns)) : Nested n.span.start hi (n :: ns) := by
  cases h with
  | cons _ hpos inside proper rest => exact .cons (Nat.le_refl _) hpos inside proper rest

/-- Nodes before a token are nodes up to its end. -/
theorem upTo {start stop : Nat} (h : Nested lo mid ns) (hle : mid ≤ start) (hlt : start < stop) :
    Nested lo stop ns :=
  h.mono (Nat.le_refl _) (Nat.le_trans hle (Nat.le_of_lt hlt))

/-- Nodes behind a token are nodes from its start on, and from before that. -/
theorem after {start stop : Nat} (h : Nested stop hi ns) (hle : lo ≤ start)
    (hlt : start < stop) : Nested lo hi ns :=
  h.mono (Nat.le_trans hle (Nat.le_of_lt hlt)) (Nat.le_refl _)

/-- A node without nodes inside it. -/
theorem leaf (hlo : lo ≤ n.span.start) (hpos : n.span.start < n.span.stop)
    (hn : n.children = []) : Nested lo n.span.stop [n] := by
  refine .cons hlo hpos ?_ (by simp [hn]) (.nil (Nat.le_refl _))
  rw [hn]
  exact .nil (Nat.le_of_lt hpos)

/-- A node that starts with a token of its own. -/
theorem opening (hlo : lo ≤ n.span.start) (hlt : n.span.start < mid)
    (inside : Nested mid n.span.stop n.children) : Nested lo n.span.stop [n] := by
  have hle := inside.le
  refine .cons hlo (by omega) (inside.mono (Nat.le_of_lt hlt) (Nat.le_refl _)) (fun c hc heq ↦ ?_)
    (.nil (Nat.le_refl _))
  have hbounds := inside.bounds hc
  rw [heq] at hbounds
  omega

/-- A node that ends with a token of its own. -/
theorem closing (hlo : lo ≤ n.span.start) (hlt : mid < n.span.stop)
    (inside : Nested n.span.start mid n.children) : Nested lo n.span.stop [n] := by
  have hle := inside.le
  refine .cons hlo (by omega) (inside.mono (Nat.le_refl _) (Nat.le_of_lt hlt)) (fun c hc heq ↦ ?_)
    (.nil (Nat.le_refl _))
  have hbounds := inside.bounds hc
  rw [heq] at hbounds
  omega

/-- A node that consists of two others and a token between them. -/
theorem between {a b : Node} (hn : n.children = [a, b])
    (hspan : n.span = a.span.through b.span) (ha : Nested lo a.span.stop [a])
    (hlt : a.span.stop < mid) (hb : Nested mid b.span.stop [b]) : Nested lo n.span.stop [n] := by
  have ha' := ha.bounds List.mem_cons_self
  have hb' := hb.bounds List.mem_cons_self
  have hstart : n.span.start = a.span.start := by rw [hspan]; rfl
  have hstop : n.span.stop = b.span.stop := by rw [hspan]; rfl
  refine .cons (by omega) (by omega) ?_ (fun c hc heq ↦ ?_) (.nil (Nat.le_refl _))
  · rw [hn, hstart, hstop]
    cases ha with
    | cons _ hpos inside proper _ =>
      exact .cons (Nat.le_refl _) hpos inside proper (hb.mono (by omega) (Nat.le_refl _))
  · rw [hn] at hc
    rcases List.mem_cons.1 hc with rfl | hc
    · rw [heq] at hlt
      omega
    · obtain rfl := List.mem_singleton.1 hc
      rw [heq] at hb'
      omega

/-- What is inside a node of the list, at any depth, lies within it. -/
theorem within (h : Nested lo hi ns) {m : Node} (hn : n ∈ ns) (hm : m ∈ n.nodes) :
    n.span.start ≤ m.span.start ∧ m.span.start < m.span.stop ∧ m.span.stop ≤ n.span.stop := by
  induction h generalizing n with
  | nil => cases hn
  | @cons _ _ n' _ _ hpos inside _ _ ih ih' =>
    rcases List.mem_cons.1 hn with rfl | hn
    · rw [nodes_eq, List.mem_cons, List.mem_flatMap] at hm
      rcases hm with rfl | ⟨c, hc, hm⟩
      · omega
      · have hbounds := inside.bounds hc
        have hwithin := ih hc hm
        omega
    · exact ih' hn hm

/-- No two nodes have the same span. -/
theorem nodup (h : Nested lo hi ns) : ((ns.flatMap nodes).map span).Nodup := by
  induction h with
  | nil => exact List.nodup_nil
  | @cons _ _ n ns _ hpos inside proper rest ih ih' =>
    rw [List.flatMap_cons, nodes_eq, List.cons_append, List.map_cons, List.map_append,
      List.nodup_cons, List.nodup_append']
    have hlater {m : Node} (hm : m ∈ ns.flatMap nodes) : n.span.stop ≤ m.span.start := by
      obtain ⟨c, hc, hm⟩ := List.mem_flatMap.1 hm
      have hbounds := rest.bounds hc
      have hwithin := rest.within hc hm
      omega
    refine ⟨fun hmem ↦ ?_, ih, ih', fun span hspan hspan' ↦ ?_⟩
    · rw [← List.map_append] at hmem
      obtain ⟨m, hm, heq⟩ := List.mem_map.1 hmem
      rcases List.mem_append.1 hm with hm | hm
      · -- a child around the node would have its span
        obtain ⟨c, hc, hm⟩ := List.mem_flatMap.1 hm
        have hbounds := inside.bounds hc
        have hwithin := inside.within hc hm
        rw [heq] at hwithin
        exact proper c hc (Span.eq_of_ends (by omega) (by omega))
      · have hle := hlater hm
        rw [heq] at hle
        omega
    · obtain ⟨m, hm, rfl⟩ := List.mem_map.1 hspan
      obtain ⟨m', hm', heq⟩ := List.mem_map.1 hspan'
      obtain ⟨c, hc, hm⟩ := List.mem_flatMap.1 hm
      have hbounds := inside.bounds hc
      have hwithin := inside.within hc hm
      have hle := hlater hm'
      rw [heq] at hle
      omega

/-- The children of every node are nested in it. -/
theorem children (h : Nested lo hi ns) (hn : n ∈ ns.flatMap nodes) :
    Nested n.span.start n.span.stop n.children := by
  induction h with
  | nil => cases hn
  | cons _ _ inside _ _ ih ih' =>
    rw [List.flatMap_cons, nodes_eq, List.cons_append, List.mem_cons, List.mem_append] at hn
    rcases hn with rfl | hn | hn
    · exact inside
    · exact ih hn
    · exact ih' hn

/-- Each of the nodes ends before the next ones start. -/
theorem pairwise (h : Nested lo hi ns) :
    ns.Pairwise fun a b ↦ a.span.stop ≤ b.span.start := by
  induction h with
  | nil => exact .nil
  | cons _ _ _ _ rest _ ih => exact .cons (fun b hb ↦ (rest.bounds hb).1) ih

end Nested

end Node

/-! ### Derived trees -/

open Node (Nested)

/-- The nodes of a tree of the symbol are nested from the first offset on, and the tokens that are
left stand after them, up to the second offset. -/
def SymbolNested (lo hi : Nat) : (s : Symbol) → s.Tree → List Lexeme → Prop
  | .expr, e, us | .binary _, e, us | .unary, e, us | .call, e, us | .primary, e, us =>
    Nested lo e.span.stop [.expr e] ∧ Ordered e.span.stop hi us
  | .optExpr, e, us => ∃ mid, Nested lo mid (e.toList.map .expr) ∧ Ordered mid hi us
  | .args, es, us => ∃ mid, Nested lo mid (es.map .expr) ∧ Ordered mid hi us
  | .function start _, f, us =>
    f.span.start = start ∧ Nested lo f.span.stop (Node.ofFunction f) ∧ Ordered f.span.stop hi us
  | .params, ps, us => ∃ mid, Nested lo mid (ps.map .param) ∧ Ordered mid hi us
  | .methods, fs, us => ∃ mid, Nested lo mid (fs.map .method) ∧ Ordered mid hi us
  | .decls, ds, us => ∃ mid, Nested lo mid (ds.map .stmt) ∧ Ordered mid hi us
  | .decl, d, us | .varDecl, d, us | .stmt, d, us =>
    Nested lo d.span.stop [.stmt d] ∧ Ordered d.span.stop hi us
  | .init, i, us => ∃ mid, Nested lo mid (i.toList.map .stmt) ∧ Ordered mid hi us

/-- The nodes of a derived tree are nested. -/
theorem Grammar.Derives.nested {rule : ElseRule} {s : Symbol} {ts us : List Lexeme} {t : s.Tree}
    (h : Derives rule s ts t us) {lo hi : Nat} (hts : Ordered lo hi ts) :
    SymbolNested lo hi s t us := by
  induction h generalizing lo with
  -- expressions
  | assign _ _ _ ihv =>
    obtain ⟨hlo, hx, hstop, heq, hts⟩ := hts
    obtain ⟨hv, hus⟩ := ihv hts
    exact ⟨Nested.opening (n := .expr _) hlo (Nat.lt_of_lt_of_le hx (by omega)) hv, hus⟩
  | setProperty _ _ _ _ _ ihe ihv =>
    obtain ⟨he, hlo, hdot, hstop, hx, hstop', heq, hus⟩ := ihe hts
    obtain ⟨hv, hvs⟩ := ihv hus
    exact ⟨Nested.between (n := .expr _) rfl rfl he (Nat.lt_of_le_of_lt hlo (by omega)) hv, hvs⟩
  | operators _ ihe | tighter _ ihe | operand _ ihe | suffixed _ ihe | atom _ ihe => exact ihe hts
  | join _ _ _ _ ihl ihr =>
    obtain ⟨hl, hlo, ho, hus⟩ := ihl hts
    obtain ⟨hr, hvs⟩ := ihr hus
    exact ⟨Nested.between (n := .expr _) rfl rfl hl (Nat.lt_of_le_of_lt hlo ho) hr, hvs⟩
  | not _ _ ihe | negate _ _ ihe =>
    obtain ⟨hlo, ho, hts⟩ := hts
    obtain ⟨he, hus⟩ := ihe hts
    exact ⟨Nested.opening (n := .expr _) hlo ho he, hus⟩
  | stepBefore | stepAfter =>
    obtain ⟨hlo, hfirst, hstop, hlast, hts⟩ := hts
    exact ⟨Nested.leaf (n := .expr _) hlo
      (Nat.lt_trans hfirst (Nat.lt_of_le_of_lt hstop hlast)) rfl, hts⟩
  | callNone _ _ _ ihe =>
    obtain ⟨he, hlo, hl, hstop, hr, hus⟩ := ihe hts
    exact ⟨Nested.closing (n := .expr _) he.start_le
      (Nat.lt_trans (Nat.lt_of_le_of_lt hlo hl) (Nat.lt_of_le_of_lt hstop hr)) he.tighten, hus⟩
  | callSome _ _ _ _ _ ihe ihas =>
    obtain ⟨he, hlo, hl, hus⟩ := ihe hts
    obtain ⟨mid, has, hmid, hr, hvs⟩ := ihas hus
    exact ⟨Nested.closing (n := .expr _) he.start_le (Nat.lt_of_le_of_lt hmid hr)
      (he.tighten.append (has.after hlo hl)), hvs⟩
  | property _ _ _ ihe =>
    obtain ⟨he, hlo, hdot, hstop, hx, hus⟩ := ihe hts
    exact ⟨Nested.closing (n := .expr _) he.start_le
      (Nat.lt_trans (Nat.lt_of_le_of_lt hlo hdot) (Nat.lt_of_le_of_lt hstop hx)) he.tighten, hus⟩
  | arg _ ihe | optSome _ ihe =>
    obtain ⟨he, hus⟩ := ihe hts
    exact ⟨_, he, hus⟩
  | argThen _ _ _ ihe ihes =>
    obtain ⟨he, hlo, hcomma, hus⟩ := ihe hts
    obtain ⟨mid, hes, hvs⟩ := ihes hus
    exact ⟨mid, he.append (hes.after hlo hcomma), hvs⟩
  | literal | name | this =>
    obtain ⟨hlo, hx, hts⟩ := hts
    exact ⟨Nested.leaf (n := .expr _) hlo hx rfl, hts⟩
  | super =>
    obtain ⟨hlo, hw, hstop, hdot, hstop', hx, hts⟩ := hts
    exact ⟨Nested.leaf (n := .expr _) hlo
      (Nat.lt_trans (Nat.lt_trans hw (Nat.lt_of_le_of_lt hstop hdot))
        (Nat.lt_of_le_of_lt hstop' hx)) rfl, hts⟩
  | group _ _ _ ihe =>
    obtain ⟨hlo, hl, hts⟩ := hts
    obtain ⟨he, hstop, hr, hus⟩ := ihe hts
    exact ⟨Nested.opening (n := .expr _) hlo hl
      (he.upTo hstop hr), hus⟩
  | lambda _ _ ihf =>
    obtain ⟨hlo, hw, hts⟩ := hts
    obtain ⟨hstart, hf, hus⟩ := ihf hts
    exact ⟨Nested.opening (n := .expr (.lambda _)) (hstart ▸ hlo) (hstart ▸ hw) hf, hus⟩
  | optNone | declsNil | methodsNil => exact ⟨lo, .nil (Nat.le_refl _), hts⟩
  -- functions
  | functionNone _ _ _ _ _ ihbody =>
    obtain ⟨hlo, hl, hstop, hr, hstop', hb, hts⟩ := hts
    obtain ⟨mid, hbody, hmid, hz, hus⟩ := ihbody hts
    exact ⟨rfl, (((hbody.upTo hmid hz).after hstop' hb).after hstop hr).after hlo hl, hus⟩
  | functionSome _ _ _ _ _ _ _ ihps ihbody =>
    obtain ⟨hlo, hl, hts⟩ := hts
    obtain ⟨mid, hps, hmid, hr, hstop, hb, hus⟩ := ihps hts
    obtain ⟨mid', hbody, hmid', hz, hvs⟩ := ihbody hus
    exact ⟨rfl, (hps.after hlo hl).append
      (((hbody.upTo hmid' hz).after hstop hb).after hmid hr), hvs⟩
  | param =>
    obtain ⟨hlo, hx, hts⟩ := hts
    exact ⟨_, Nested.leaf (n := .param _) hlo hx rfl, hts⟩
  | paramThen _ _ _ ihps =>
    obtain ⟨hlo, hx, hstop, hcomma, hts⟩ := hts
    obtain ⟨mid, hps, hus⟩ := ihps hts
    exact ⟨mid, (Nested.leaf (n := .param ⟨_, _⟩) hlo hx rfl).append
      (hps.after hstop hcomma), hus⟩
  -- declarations
  | declsCons _ _ ihd ihds =>
    obtain ⟨hd, hus⟩ := ihd hts
    obtain ⟨mid, hds, hvs⟩ := ihds hus
    exact ⟨mid, hd.append hds, hvs⟩
  | classPlain _ _ _ _ _ ihms =>
    obtain ⟨hlo, hw, hstop, hx, hstop', hb, hts⟩ := hts
    obtain ⟨mid, hms, hmid, hz, hus⟩ := ihms hts
    exact ⟨Nested.opening (n := .stmt _) hlo hw
      (((hms.upTo hmid hz).after hstop' hb).after hstop hx), hus⟩
  | @classInheriting w x less y _ _ _ m _ _ _ _ _ _ _ _ _ _ ihms =>
    obtain ⟨hlo, hw, hx₁, hx, hless₁, hless, hy₁, hy, hb₁, hb, hts⟩ := hts
    obtain ⟨mid, hms, hmid, hz, hus⟩ := ihms hts
    have hparent := Nested.leaf (n := .expr (Name.toExpr ⟨m, y.span⟩)) hy₁ hy rfl
    exact ⟨Nested.opening (n := .stmt _) hlo hw (((hparent.after hless₁ hless).after hx₁ hx).append
      ((hms.upTo hmid hz).after hb₁ hb)), hus⟩
  | methodsCons _ _ _ ihf ihfs =>
    obtain ⟨hlo, hx, hts⟩ := hts
    obtain ⟨hstart, hf, hus⟩ := ihf hts
    obtain ⟨mid, hfs, hvs⟩ := ihfs hus
    exact ⟨mid, (Nested.opening (n := .method _) (hstart ▸ hlo) (hstart ▸ hx) hf).append hfs, hvs⟩
  | funDecl _ _ _ ihf =>
    obtain ⟨hlo, hw, hstop, hx, hts⟩ := hts
    obtain ⟨hstart, hf, hus⟩ := ihf hts
    exact ⟨Nested.opening (n := .stmt (.funDecl _)) (hstart ▸ hlo) (hstart ▸ hw)
      (hf.after hstop hx), hus⟩
  | declVar _ ihd | declStmt _ ihd => exact ihd hts
  | varNone =>
    obtain ⟨hlo, hw, hstop, hx, hstop', hs, hts⟩ := hts
    exact ⟨Nested.leaf (n := .stmt _) hlo
      (Nat.lt_trans (Nat.lt_trans hw (Nat.lt_of_le_of_lt hstop hx))
        (Nat.lt_of_le_of_lt hstop' hs)) rfl, hts⟩
  | varSome _ _ _ _ _ ihv =>
    obtain ⟨hlo, hw, hstop, hx, hstop', heq, hts⟩ := hts
    obtain ⟨hv, hv', hs, hus⟩ := ihv hts
    exact ⟨Nested.opening (n := .stmt _) hlo hw
      (((hv.upTo hv' hs).after hstop' heq).after hstop hx), hus⟩
  -- statements
  | exprStmt _ _ ihv =>
    obtain ⟨hv, hstop, hs, hus⟩ := ihv hts
    exact ⟨Nested.closing (n := .stmt _) hv.start_le (Nat.lt_of_le_of_lt hstop hs) hv.tighten, hus⟩
  | print _ _ _ ihv =>
    obtain ⟨hlo, hw, hts⟩ := hts
    obtain ⟨hv, hstop, hs, hus⟩ := ihv hts
    exact ⟨Nested.opening (n := .stmt _) hlo hw
      (hv.upTo hstop hs), hus⟩
  | returns _ _ _ ihv | block _ _ _ ihv =>
    obtain ⟨hlo, hw, hts⟩ := hts
    obtain ⟨mid, hv, hmid, hs, hus⟩ := ihv hts
    exact ⟨Nested.opening (n := .stmt _) hlo hw
      (hv.upTo hmid hs), hus⟩
  | ifOnly _ _ _ _ _ ihc ihyes | whileLoop _ _ _ _ _ ihc ihyes =>
    obtain ⟨hlo, hw, hstop, hl, hts⟩ := hts
    obtain ⟨hc, hstop', hr, hus⟩ := ihc hts
    obtain ⟨hyes, hvs⟩ := ihyes hus
    exact ⟨Nested.opening (n := .stmt _) hlo hw
      (((hc.upTo hstop' hr).after hstop hl).append hyes), hvs⟩
  | ifElse _ _ _ _ _ _ _ _ ihc ihyes ihno =>
    obtain ⟨hlo, hw, hstop, hl, hts⟩ := hts
    obtain ⟨hc, hstop', hr, hus⟩ := ihc hts
    obtain ⟨hyes, hstop'', he, hvs⟩ := ihyes hus
    obtain ⟨hno, hws⟩ := ihno hvs
    exact ⟨Nested.opening (n := .stmt _) hlo hw
      (((hc.upTo hstop' hr).after hstop hl).append
        ((hyes.upTo hstop'' he).append hno)), hws⟩
  | forLoop _ _ _ _ _ _ _ _ ihi ihc ihu ihbody =>
    obtain ⟨hlo, hw, hstop, hl, hts⟩ := hts
    obtain ⟨mi, hi, hus⟩ := ihi hts
    obtain ⟨mc, hc, hstop', hs, hvs⟩ := ihc hus
    obtain ⟨mu, hu, hstop'', hr, hws⟩ := ihu hvs
    obtain ⟨hbody, hxs⟩ := ihbody hws
    exact ⟨Nested.opening (n := .stmt _) hlo hw
      ((((hi.after hstop hl).append
        (hc.upTo hstop' hs)).append
        (hu.upTo hstop'' hr)).append hbody), hxs⟩
  | initNone =>
    obtain ⟨hlo, hs, hts⟩ := hts
    exact ⟨_, .nil (by omega), hts⟩
  | initVar _ ihd =>
    obtain ⟨hd, hus⟩ := ihd hts
    exact ⟨_, hd, hus⟩
  | initExpr _ _ ihv =>
    obtain ⟨hv, hstop, hs, hus⟩ := ihv hts
    exact ⟨_, Nested.closing (n := .stmt _) hv.start_le (Nat.lt_of_le_of_lt hstop hs) hv.tighten,
      hus⟩

/-- The statements of a program that is read from a text are nested in the place of the text. -/
theorem Program.nested_of_read {text : String} {offset : Nat} {p : Program}
    (h : Program.read text offset = .ok p) :
    Nested offset (offset + text.utf8ByteSize) (p.map .stmt) := by
  have hordered := ordered_scan offset text.toList
  rw [Text.byteLength_toList] at hordered
  obtain ⟨mid, hp, hmid⟩ := Derives.nested (Program.read_eq_ok.1 h).2 hordered
  exact hp.mono (Nat.le_refl _) hmid

end LoxLang
