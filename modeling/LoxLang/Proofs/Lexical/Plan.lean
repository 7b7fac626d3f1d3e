import LoxLang.Proofs.Layers
import LoxLang.Proofs.Lexical

/-!
# Frames and cells

A plan (`Plan`) says of every frame but the global one which scope it is the frame of, and which
cell the machine with lexical environments has for each variable of that scope that is declared so
far. A plan grows while a program runs: a new frame is added at its end (`Plan.enter`), and a
variable is added to a frame (`Plan.declare`).

Under a plan, a chain of frames and an environment belong to the same layers (`Plan.Sees`): the
frames are those of the layers, from the inside out, and the environment has the cells of their
names. So the distance of a name in the layers leads to the frame whose cell the environment has
(`Plan.Sees.of_hops?`).
-/

namespace LoxLang

/-- What a frame is for. -/
structure FrameInfo where
  /-- What opened its scope. -/
  place : Place
  /-- The cells of the variables declared in it so far, the latest first. -/
  cells : List (String × Nat)

/-- What each frame is for, from the second on. The first is the global one. -/
abbrev Plan := List FrameInfo

namespace Plan

/-- What a frame is for, unless it is the global one. -/
def info? (P : Plan) : FrameId → Option FrameInfo
  | 0 => none
  | f + 1 => P[f]?

/-- What opened the scope of a frame. -/
def place? (P : Plan) (f : FrameId) : Option Place := (P.info? f).map (·.place)

/-- The cell of a variable of a frame. -/
def cell? (P : Plan) (f : FrameId) (x : String) : Option Nat :=
  (P.info? f).bind (·.cells.lookup x)

/-- The places of all frames, in the order in which they were made. -/
def places (P : Plan) : List Place := P.map (·.place)

/-- A new frame without variables. -/
def enter (P : Plan) (place : Place) : Plan := P ++ [⟨place, []⟩]

/-- A variable of a frame gets a cell. -/
def declare (P : Plan) (f : FrameId) (x : String) (c : Nat) : Plan :=
  match f with
  | 0 => P
  | f + 1 => P.modify f fun i ↦ { i with cells := (x, c) :: i.cells }

variable {P P' P'' : Plan} {f g : Nat} {x y : String} {c : Nat} {place : Place}

@[simp] theorem places_enter : (P.enter place).places = P.places ++ [place] := by
  simp [places, enter]

@[simp] theorem length_enter : (P.enter place).length = P.length + 1 := by simp [enter]

@[simp] theorem length_declare : (P.declare f x c).length = P.length := by
  unfold declare
  split
  · rfl
  · rw [List.length_modify]

/-- A new frame leaves what is known of the others. -/
theorem info?_enter_of_le (h : g ≤ P.length) : (P.enter place).info? g = P.info? g := by
  cases g with
  | zero => rfl
  | succ g => exact List.getElem?_append_left (by omega)

@[simp] theorem info?_enter_self : (P.enter place).info? (P.length + 1) = some ⟨place, []⟩ := by
  simp [info?, enter]

/-- A declaration leaves what is known of other frames. -/
theorem info?_declare_of_ne (h : g ≠ f) : (P.declare f x c).info? g = P.info? g := by
  cases f with
  | zero => rfl
  | succ f =>
    cases g with
    | zero => rfl
    | succ g =>
      have hne : f ≠ g := fun heq ↦ h (heq ▸ rfl)
      simp [info?, declare, hne]

/-- A declaration adds the cell of a name to its frame. -/
theorem info?_declare_self {i : FrameInfo} (h : P.info? f = some i) :
    (P.declare f x c).info? f = some { i with cells := (x, c) :: i.cells } := by
  cases f with
  | zero => cases h
  | succ f =>
    rw [info?] at h
    simp [info?, declare, h]

@[simp] theorem place?_declare : (P.declare f x c).place? g = P.place? g := by
  by_cases hg : g = f
  · subst hg
    cases h : P.info? g with
    | some i => simp [place?, info?_declare_self h, h]
    | none =>
      cases g with
      | zero => rfl
      | succ g =>
        rw [info?] at h
        simp [place?, info?, declare, h]
  · rw [place?, info?_declare_of_ne hg, place?]

@[simp] theorem places_declare : (P.declare f x c).places = P.places := by
  refine List.ext_getElem? fun n ↦ ?_
  have h := place?_declare (P := P) (f := f) (x := x) (c := c) (g := n + 1)
  simpa [places, place?, info?] using h

/-- A frame that has a place can have a variable. -/
theorem cell?_declare_self (h : (P.place? f).isSome) : (P.declare f x c).cell? f x = some c := by
  obtain ⟨place, hplace⟩ := Option.isSome_iff_exists.1 h
  obtain ⟨i, hi, -⟩ := Option.map_eq_some_iff.1 hplace
  simp [cell?, info?_declare_self hi]

/-- A declaration leaves the cells of other names. -/
theorem cell?_declare_of_ne (h : ¬ (g = f ∧ y = x)) :
    (P.declare f x c).cell? g y = P.cell? g y := by
  by_cases hg : g = f
  · subst hg
    have hy : y ≠ x := fun hy ↦ h ⟨rfl, hy⟩
    cases hi : P.info? g with
    | some i =>
      simp [cell?, info?_declare_self hi, hi, List.lookup_cons, beq_false_of_ne hy]
    | none =>
      have hplace := place?_declare (P := P) (f := g) (x := x) (c := c) (g := g)
      rw [place?, place?, hi, Option.map_none, Option.map_eq_none_iff] at hplace
      rw [cell?, cell?, hplace, hi]
  · rw [cell?, info?_declare_of_ne hg, cell?]

/-- After a declaration, a variable with a cell is the new one, or it is another one and had it. -/
theorem of_cell?_declare (hf : (P.place? f).isSome) {d : Nat}
    (hd : (P.declare f x c).cell? g y = some d) :
    (g = f ∧ y = x ∧ d = c) ∨ (¬ (g = f ∧ y = x) ∧ P.cell? g y = some d) := by
  by_cases h : g = f ∧ y = x
  · rw [h.1, h.2, cell?_declare_self hf] at hd
    exact .inl ⟨h.1, h.2, (Option.some.inj hd).symm⟩
  · rw [cell?_declare_of_ne h] at hd
    exact .inr ⟨h, hd⟩

/-- A variable has a cell only if its frame has a place. -/
theorem place?_of_cell? (h : P.cell? f x = some c) : (P.place? f).isSome := by
  obtain ⟨i, hi, -⟩ := Option.bind_eq_some_iff.1 h
  rw [place?, hi]
  rfl

/-- The global frame was made at no place. -/
theorem ne_zero_of_place? (h : (P.place? f).isSome) : f ≠ 0 := by
  rintro rfl
  cases h

/-- A frame that was made at a place is one of those that there are. -/
theorem lt_of_place? (h : (P.place? f).isSome) : f < P.length + 1 := by
  cases f with
  | zero => exact Nat.succ_pos _
  | succ f =>
    rw [place?, Option.isSome_map, info?] at h
    have hlt := (List.getElem?_eq_some_iff.1 (Option.isSome_iff_exists.1 h).choose_spec).1
    omega

/-! ### Growing plans -/

/-- The second plan has all that the first has. -/
structure Le (P P' : Plan) : Prop where
  place {f : FrameId} {place : Place} : P.place? f = some place → P'.place? f = some place
  cell {f : FrameId} {x : String} {c : Nat} : P.cell? f x = some c → P'.cell? f x = some c

/-- The second plan grew from the first without a change below a frame. -/
structure Grows (f : Nat) (P P' : Plan) : Prop extends Le P P' where
  below : ∀ g < f, P'.info? g = P.info? g

theorem Le.refl (P : Plan) : P.Le P := ⟨id, id⟩

theorem Le.trans (h : P.Le P') (h' : P'.Le P'') : P.Le P'' :=
  ⟨fun hp ↦ h'.place (h.place hp), fun hc ↦ h'.cell (h.cell hc)⟩

theorem Grows.refl (f : Nat) (P : Plan) : P.Grows f P := ⟨.refl P, fun _ _ ↦ rfl⟩

theorem Grows.trans (h : P.Grows f P') (h' : P'.Grows f P'') : P.Grows f P'' :=
  ⟨h.toLe.trans h'.toLe, fun g hg ↦ (h'.below g hg).trans (h.below g hg)⟩

theorem Grows.mono (h : P.Grows f P') (hg : g ≤ f) : P.Grows g P' :=
  ⟨h.toLe, fun _ hlt ↦ h.below _ (Nat.lt_of_lt_of_le hlt hg)⟩

/-- A new frame leaves the cells of the others. -/
theorem cell?_enter_of_le (h : g ≤ P.length) : (P.enter place).cell? g y = P.cell? g y := by
  rw [cell?, info?_enter_of_le h, cell?]

@[simp] theorem cell?_enter_self : (P.enter place).cell? (P.length + 1) y = none := by
  simp [cell?]

@[simp] theorem place?_enter_self : (P.enter place).place? (P.length + 1) = some place := by
  simp [place?]

/-- A new frame changes nothing below it. -/
theorem grows_enter (h : f ≤ P.length + 1) (place : Place) : P.Grows f (P.enter place) := by
  refine ⟨⟨fun hp ↦ ?_, fun hc ↦ ?_⟩, fun g hg ↦ info?_enter_of_le (by omega)⟩
  · have hlt := lt_of_place? (Option.isSome_iff_exists.2 ⟨_, hp⟩)
    rwa [place?, info?_enter_of_le (by omega)]
  · have hlt := lt_of_place? (place?_of_cell? hc)
    rwa [cell?_enter_of_le (by omega)]

/-- A variable that is new in its frame changes nothing below that frame. -/
theorem grows_declare (h : P.cell? f x = none) (c : Nat) : P.Grows f (P.declare f x c) := by
  refine ⟨⟨fun hp ↦ place?_declare.trans hp, fun {g y c'} hc ↦ ?_⟩,
    fun g hg ↦ info?_declare_of_ne (by omega)⟩
  rw [cell?_declare_of_ne, hc]
  rintro ⟨rfl, rfl⟩
  rw [h] at hc
  cases hc

/-! ### Chains and environments -/

/-- The frames are those of the layers, and the names have the cells of their variables. -/
inductive Sees (P : Plan) : Layers → List FrameId → List (String × Nat) → Prop
  | globals : Sees P [] [0] []
  | layer (cells : List (String × Nat)) {l : Layer} {L : Layers} {f : FrameId}
      {frames : List FrameId} {names : List (String × Nat)} (hplace : P.place? f = some l.place)
      (hnames : cells.map (·.1) = l.names)
      (hcells : ∀ y c', cells.lookup y = some c' → P.cell? f y = some c')
      (h : Sees P L frames names) : Sees P (l :: L) (f :: frames) (cells ++ names)

namespace Sees

variable {L : Layers} {frames : List FrameId} {names : List (String × Nat)}

/-- What is seen is seen still when the plan has grown. -/
theorem mono (h : Sees P L frames names) (hP : P.Le P') : Sees P' L frames names := by
  induction h with
  | globals => exact .globals
  | layer cells hplace hnames hcells _ ih =>
    exact .layer cells (hP.place hplace) hnames (fun x c hc ↦ hP.cell (hcells x c hc)) ih

/-- There is one more frame than layers. -/
theorem length_eq (h : Sees P L frames names) : frames.length = L.length + 1 := by
  induction h with
  | globals => rfl
  | layer _ _ _ _ _ ih => rw [List.length_cons, ih, List.length_cons]

/-- A name without a cell is none of the names of the layer. -/
theorem lookup_eq_none {cells : List (String × Nat)} {l : List String}
    (h : cells.map (·.1) = l) {x : String} : cells.lookup x = none ↔ x ∉ l := by
  subst h
  simp only [List.lookup_eq_none_iff, bne_iff_ne, List.mem_map, not_exists, not_and]
  exact ⟨fun h p hp he ↦ h p hp he.symm, fun h p hp he ↦ h p hp he.symm⟩

/-- The distance of a name leads to a frame of the layer that declares it, and there to the cell
that the environment has. -/
theorem of_hops? (h : Sees P L frames names) {d : Nat} (hd : L.hops? x = some d) :
    ∃ f c l, frames[d]? = some f ∧ names.lookup x = some c ∧ P.cell? f x = some c ∧
      L[d]? = some l ∧ P.place? f = some l.place := by
  induction h generalizing d with
  | globals => cases hd
  | @layer cells l L f frames names hplace hnames hcells _ ih =>
    rw [Layers.hops?_cons] at hd
    rw [List.lookup_append]
    cases hc : cells.lookup x with
    | some c =>
      have hx : x ∈ l.names := Decidable.byContradiction fun hx ↦ by
        rw [(lookup_eq_none hnames).2 hx] at hc
        cases hc
      rw [if_pos hx] at hd
      obtain rfl := Option.some.inj hd
      exact ⟨f, c, l, rfl, rfl, hcells x c hc, rfl, hplace⟩
    | none =>
      rw [if_neg ((lookup_eq_none hnames).1 hc)] at hd
      obtain ⟨d', hd', rfl⟩ := Option.map_eq_some_iff.1 hd
      exact ih hd'

/-- A name without a distance is not in the environment. -/
theorem of_hops?_eq_none (h : Sees P L frames names) (hd : L.hops? x = none) :
    names.lookup x = none := by
  induction h with
  | globals => rfl
  | @layer cells l L f frames names hplace hnames hcells _ ih =>
    rw [Layers.hops?_cons] at hd
    have hx : x ∉ l.names := fun hx ↦ by simp [hx] at hd
    rw [if_neg hx, Option.map_eq_none_iff] at hd
    rw [List.lookup_append, (lookup_eq_none hnames).2 hx, ih hd]
    rfl

/-- Each layer has its frame. -/
theorem place_of_getElem? (h : Sees P L frames names) {d : Nat} {l : Layer}
    (hl : L[d]? = some l) : ∃ f, frames[d]? = some (f + 1) ∧ P.places[f]? = some l.place := by
  induction h generalizing d with
  | globals => cases hl
  | @layer _ _ _ f _ _ hplace _ _ _ ih =>
    cases d with
    | zero =>
      cases hl
      cases f with
      | zero => cases hplace
      | succ f => exact ⟨f, rfl, by rw [places, List.getElem?_map]; exact hplace⟩
    | succ d => exact ih hl

/-- The innermost frame has the place of the innermost layer. -/
theorem place_head {l : Layer} (h : Sees P (l :: L) (f :: frames) names) :
    P.place? f = some l.place := by
  cases h with
  | layer _ hplace _ _ _ => exact hplace

/-- A name that is declared in the innermost layer has its cell in the innermost frame. -/
theorem of_mem_head {l : Layer} (h : Sees P (l :: L) (f :: frames) names) (hx : x ∈ l.names) :
    ∃ c, names.lookup x = some c ∧ P.cell? f x = some c := by
  have hd : Layers.hops? (l :: L) x = some 0 := by
    rw [Layers.hops?_cons, if_pos hx]
  obtain ⟨g, c, -, hg, hc, hcell, -⟩ := h.of_hops? hd
  obtain rfl : f = g := by simpa using hg
  exact ⟨c, hc, hcell⟩

/-- A frame is entered. -/
theorem enter (h : Sees P L frames names) (place : Place) :
    Sees (P.enter place) (⟨place, []⟩ :: L) ((P.length + 1) :: frames) names :=
  .layer [] place?_enter_self rfl nofun
    (h.mono (grows_enter (Nat.zero_le _) place).toLe)

/-- A new variable is declared in the innermost frame. -/
theorem declare {l : Layer} (h : Sees P (l :: L) (f :: frames) names) (hx : P.cell? f x = none)
    (c : Nat) : Sees (P.declare f x c) (Layers.declare x (l :: L)) (f :: frames)
      ((x, c) :: names) := by
  have hP := (grows_declare hx c).toLe
  cases h with
  | @layer cells _ _ _ _ names hplace hnames hcells hL =>
    refine .layer ((x, c) :: cells) (hP.place hplace) ?_ (fun y c' hc ↦ ?_) (hL.mono hP)
    · rw [List.map_cons, hnames]
    · rw [List.lookup_cons] at hc
      by_cases hy : y = x
      · subst hy
        rw [beq_self_eq_true] at hc
        cases hc
        exact cell?_declare_self (Option.isSome_iff_exists.2 ⟨_, hplace⟩)
      · rw [beq_false_of_ne hy] at hc
        exact hP.cell (hcells y c' hc)

end Sees

end Plan

end LoxLang
