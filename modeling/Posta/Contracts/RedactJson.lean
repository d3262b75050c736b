import Posta.Contracts.RedactGraphPaths

/-!
# Redaction of JSON data

A payload that was parsed from a text is a tree in memory. The walk over the memory and the walk
over the data are the same there.

**Theorem (`redactForbiddenKeys_json`).** Where a graph holds JSON data as a tree, its redaction
shows the redacted data and lists the same keys.
-/

namespace Posta.ObjectGraph

open Js Js.Heap

/-! ## The data that a place holds -/

def Primitive.json : Primitive → Json
  | .null => .null
  | .bool b => .bool b
  | .num n => .num n
  | .str s => .str s

namespace Json

/-- The elements or the members of a value, with the steps to them. -/
def edges : Json → List (Step × Json)
  | .arr elements => elements.zipIdx.map fun e => (.index e.2, e.1)
  | .obj members => members.map fun e => (.key e.1, e.2)
  | _ => []

def shape : Json → Shape
  | .null => .prim .null
  | .bool b => .prim (.bool b)
  | .num n => .prim (.num n)
  | .str s => .prim (.str s)
  | .arr elements => .array elements.length
  | .obj members => .object (members.map Prod.fst)

/-- What the paths show at a value. -/
def view : Json → List Step → Option Shape
  | j, [] => some (shape j)
  | j, step :: steps => ((edges j).lookup step).bind fun j => view j steps

end Json

mutual
/-- The value is the data, place by place. -/
inductive Holds (m : Memory) : Value → Json → Prop
  | prim (p : Primitive) : Holds m (.prim p) (Primitive.json p)
  | ref {node : Nat} {j : Json} : (m.cell node).shape = Json.shape j →
      HoldsEach m (m.cell node).edges (Json.edges j) → Holds m (.ref node) j

inductive HoldsEach (m : Memory) : List (Step × Value) → List (Step × Json) → Prop
  | nil : HoldsEach m [] []
  | cons {step : Step} {v : Value} {j : Json} {edges : List (Step × Value)}
      {parts : List (Step × Json)} : Holds m v j → HoldsEach m edges parts →
      HoldsEach m ((step, v) :: edges) ((step, j) :: parts)
end

theorem HoldsEach.forall₂ {m : Memory} {edges : List (Step × Value)} {parts : List (Step × Json)}
    (h : HoldsEach m edges parts) :
    List.Forall₂ (fun e f => e.1 = f.1 ∧ Holds m e.2 f.2) edges parts := by
  induction parts generalizing edges with
  | nil =>
    cases h
    exact .nil
  | cons part parts ih =>
    cases h with
    | cons hv h => exact .cons ⟨rfl, hv⟩ (ih h)

/-! ## One level of the data -/

/-- What the walk over the data does with one element or member. -/
def redactEdge (path : JsString) (depth : Nat) (e : Step × Json) : Json × List JsString :=
  if isForbiddenStep e.1 then (.str secretRedactionPlaceholder, [stepPath path e.1])
  else Posta.redactNode e.2 (stepPath path e.1) depth

theorem redactElements_eq (elements : List Json) (path : JsString) (index depth : Nat) :
    redactElements elements path index depth =
      ((elements.zipIdx index).map fun e => (redactEdge path depth (.index e.2, e.1)).1,
        (elements.zipIdx index).flatMap fun e => (redactEdge path depth (.index e.2, e.1)).2) := by
  induction elements generalizing index with
  | nil => rfl
  | cons element elements ih =>
    rw [redactElements, ih]
    rfl

theorem redactMembers_eq (members : List (JsString × Json)) (path : JsString) (depth : Nat) :
    redactMembers members path depth =
      (members.map fun e => (e.1, (redactEdge path depth (.key e.1, e.2)).1),
        members.flatMap fun e => (redactEdge path depth (.key e.1, e.2)).2) := by
  induction members with
  | nil => rfl
  | cons member members ih =>
    obtain ⟨key, value⟩ := member
    rw [redactMembers, ih]
    by_cases hkey : isForbiddenKey key = true
    · have hedge : redactEdge path depth (.key key, value) =
          (.str secretRedactionPlaceholder, [buildPropertyPath path key]) := if_pos hkey
      simp only [if_pos hkey, List.map_cons, List.flatMap_cons, hedge, List.singleton_append]
    · have hedge : redactEdge path depth (.key key, value) =
          Posta.redactNode value (buildPropertyPath path key) depth := if_neg hkey
      simp only [if_neg hkey, List.map_cons, List.flatMap_cons, hedge]

theorem edges_arr (elements : List Json) :
    Json.edges (.arr elements) = elements.zipIdx.map fun e => (.index e.2, e.1) := rfl

theorem edges_obj (members : List (JsString × Json)) :
    Json.edges (.obj members) = members.map fun e => (.key e.1, e.2) := rfl

/-- The steps to the elements of a list are those to its image. -/
theorem zipIdx_map_zipIdx {α β : Type} (l : List α) (f : α × Nat → β) (n : Nat) :
    ((l.zipIdx n).map f).zipIdx n = (l.zipIdx n).map fun e => (f e, e.2) := by
  induction l generalizing n with
  | nil => rfl
  | cons a l ih => rw [List.zipIdx_cons, List.map_cons, List.zipIdx_cons, ih, List.map_cons]

/-- An array or an object above the cap. -/
theorem redactNode_level {j : Json} (path : JsString) {depth : Nat}
    (hdepth : depth < maxRedactionDepth) (hj : ∀ p, Json.shape j ≠ .prim p) :
    Json.shape (Posta.redactNode j path depth).1 = Json.shape j ∧
      Json.edges (Posta.redactNode j path depth).1 =
        (Json.edges j).map (fun e => (e.1, (redactEdge path (depth + 1) e).1)) ∧
      (Posta.redactNode j path depth).2 =
        (Json.edges j).flatMap fun e => (redactEdge path (depth + 1) e).2 := by
  cases j with
  | arr elements =>
    rw [Posta.redactNode, if_neg (not_le.mpr hdepth), redactElements_eq]
    refine ⟨by simp [Json.shape], ?_, ?_⟩
    · rw [edges_arr, edges_arr, zipIdx_map_zipIdx, List.map_map, List.map_map]
      rfl
    · rw [edges_arr, List.flatMap_map]
  | obj members =>
    rw [Posta.redactNode, if_neg (not_le.mpr hdepth), redactMembers_eq]
    refine ⟨by simp [Json.shape, Function.comp_def], ?_, ?_⟩
    · rw [edges_obj, edges_obj, List.map_map, List.map_map]
      rfl
    · rw [edges_obj, List.flatMap_map]
  | null | bool | num | str => exact absurd rfl (hj _)

/-! ## The two walks -/

section Walks

variable {m : Memory}

/-- What the walk over the memory shows at a step, and what it records there, is what the walk over
the data does. -/
def SameVisit (view : Value → List Step → Option Shape) (paths : Value → List (List Step))
    (path : JsString) (depth : Nat) (e : Step × Value) (f : Step × Json) : Prop :=
  e.1 = f.1 ∧ (∀ steps, stepView view e steps = Json.view (redactEdge path depth f).1 steps) ∧
    (stepPaths paths e).map (pathText path) = (redactEdge path depth f).2

theorem lookup_of_sameVisit {view : Value → List Step → Option Shape}
    {paths : Value → List (List Step)} {path : JsString} {depth : Nat}
    {edges : List (Step × Value)} {parts : List (Step × Json)}
    (h : List.Forall₂ (SameVisit view paths path depth) edges parts) (step : Step)
    (steps : List Step) :
    ((edges.lookup step).bind fun v => stepView view (step, v) steps) =
      ((parts.map fun e => (e.1, (redactEdge path depth e).1)).lookup step).bind fun j =>
        Json.view j steps := by
  induction h with
  | nil => rfl
  | @cons e f edges parts hhead _ ih =>
    obtain ⟨step₁, v⟩ := e
    obtain ⟨step₂, j⟩ := f
    obtain ⟨hstep, hview, -⟩ := hhead
    obtain rfl : step₁ = step₂ := hstep
    rw [List.map_cons, List.lookup_cons, List.lookup_cons]
    by_cases hstep : step = step₁
    · subst hstep
      rw [beq_self_eq_true]
      exact hview steps
    · rw [beq_false_of_ne hstep]
      exact ih

theorem flatMap_of_sameVisit {view : Value → List Step → Option Shape}
    {paths : Value → List (List Step)} {path : JsString} {depth : Nat}
    {edges : List (Step × Value)} {parts : List (Step × Json)}
    (h : List.Forall₂ (SameVisit view paths path depth) edges parts) :
    (edges.flatMap (stepPaths paths)).map (pathText path) =
      parts.flatMap fun e => (redactEdge path depth e).2 := by
  induction h with
  | nil => rfl
  | cons hhead _ ih =>
    rw [List.flatMap_cons, List.flatMap_cons, List.map_append, hhead.2.2, ih]

theorem view_json (p : Primitive) (steps : List Step) :
    Json.view (Primitive.json p) steps = p.view steps := by
  cases p <;> cases steps <;> rfl

theorem redactNode_json (p : Primitive) (path : JsString) (depth : Nat) :
    Posta.redactNode (Primitive.json p) path depth = (Primitive.json p, []) := by
  cases p <;> rfl

theorem shape_ne_prim (c : Cell) (p : Primitive) : c.shape ≠ .prim p := by
  cases c <;> exact Shape.noConfusion

/-- At the cap. -/
theorem redactNode_capped {j : Json} (path : JsString) (hj : ∀ p, Json.shape j ≠ .prim p) :
    Posta.redactNode j path maxRedactionDepth = (.str maxDepthExceededPlaceholder, []) := by
  cases j with
  | arr elements => rw [Posta.redactNode, if_pos le_rfl]
  | obj members => rw [Posta.redactNode, if_pos le_rfl]
  | null | bool | num | str => exact absurd rfl (hj _)

/-- A step to a part where the walks agree. -/
theorem sameVisit_of_part {view : Value → List Step → Option Shape}
    {paths : Value → List (List Step)} {path : JsString} {depth : Nat} {e : Step × Value}
    {f : Step × Json} (hstep : e.1 = f.1)
    (hview : ∀ steps, view e.2 steps =
      Json.view (Posta.redactNode f.2 (stepPath path e.1) depth).1 steps)
    (hpaths : (paths e.2).map (pathText (stepPath path e.1)) =
      (Posta.redactNode f.2 (stepPath path e.1) depth).2) : SameVisit view paths path depth e f := by
  rw [hstep] at hview hpaths
  refine ⟨hstep, fun steps => ?_, ?_⟩
  · rw [stepView, redactEdge, hstep]
    split_ifs
    · exact (view_json (.str secretRedactionPlaceholder) steps).symm
    · exact hview steps
  · rw [stepPaths, redactEdge, hstep]
    split_ifs
    · rfl
    · rw [List.map_map]
      exact hpaths

/-- On a tree, the way down from a node meets neither the node nor what was above it. -/
theorem not_mem_ancestors_below {node : Nat} {ancestors : List Nat} {step : Step} {v : Value}
    (hunshared : m.Unshared (.ref node)) (hedge : (m.cell node).edge step = some v)
    (hancestors : ∀ steps r, m.follow (.ref node) steps = some (.ref r) → r ∉ ancestors) :
    ∀ steps r, m.follow v steps = some (.ref r) → r ∉ node :: ancestors := by
  intro steps r hr hmem
  have hdown : m.follow (.ref node) (step :: steps) = some (.ref r) := by
    rw [Memory.follow_ref_cons, hedge]
    exact hr
  rcases List.mem_cons.mp hmem with heq | hmem
  · subst heq
    cases hunshared _ _ _ hdown (Memory.follow_nil m _)
  · exact hancestors (step :: steps) r hdown hmem

/-- **The walks agree** on a tree: what the paths show, and the keys that are listed. -/
theorem redactedView_json (hm : m.WellFormed) {levels depth : Nat} {ancestors : List Nat}
    {v : Value} {j : Json} (path : JsString) (hlevels : depth + levels = maxRedactionDepth)
    (hv : v.Below m.next) (hunshared : m.Unshared v)
    (hancestors : ∀ steps r, m.follow v steps = some (.ref r) → r ∉ ancestors)
    (hj : Holds m v j) :
    (∀ steps, redactedView m levels ancestors v steps =
        Json.view (Posta.redactNode j path depth).1 steps) ∧
      (forbiddenPaths m levels ancestors v).map (pathText path) =
        (Posta.redactNode j path depth).2 := by
  induction levels generalizing depth ancestors v j path with
  | zero =>
    cases hj with
    | prim p =>
      rw [redactNode_json]
      exact ⟨fun steps => (view_json p steps).symm, rfl⟩
    | ref hshape hparts =>
      obtain rfl : depth = maxRedactionDepth := hlevels
      rw [redactNode_capped path fun p hp => shape_ne_prim _ p (hshape.trans hp)]
      exact ⟨fun steps => (view_json (.str maxDepthExceededPlaceholder) steps).symm, rfl⟩
  | succ levels ih =>
    cases hj with
    | prim p =>
      rw [redactNode_json]
      exact ⟨fun steps => (view_json p steps).symm, rfl⟩
    | @ref node _ hshape hparts =>
      have hnode : node ∉ ancestors := hancestors [] node rfl
      obtain ⟨hshape', hedges, hkeys⟩ := redactNode_level path (by omega : depth < maxRedactionDepth)
        fun p hp => shape_ne_prim _ p (hshape.trans hp)
      obtain ⟨hlength, hzip⟩ := List.forall₂_iff_zip.mp hparts.forall₂
      have hsame : List.Forall₂ (SameVisit (redactedView m levels (node :: ancestors))
          (forbiddenPaths m levels (node :: ancestors)) path (depth + 1)) (m.cell node).edges
          (Json.edges j) := by
        refine List.forall₂_iff_zip.mpr ⟨hlength, fun {e f} hef => ?_⟩
        obtain ⟨hstep, hpart⟩ := hzip hef
        have he := (List.of_mem_zip hef).1
        have hedge : (m.cell node).edge e.1 = some e.2 := edge_of_mem (hm.distinct node hv) he
        have hnext : depth + 1 + levels = maxRedactionDepth := by omega
        obtain ⟨hview, hpaths⟩ := ih (stepPath path e.1) hnext (hm.closed node hv e he)
          (hunshared.edge hedge) (not_mem_ancestors_below hunshared hedge hancestors) hpart
        exact sameVisit_of_part hstep hview hpaths
      refine ⟨fun steps => ?_, ?_⟩
      · rw [redactedView_ref hnode]
        cases steps with
        | nil => rw [nodeView, Json.view, hshape', hshape]
        | cons step steps =>
          rw [nodeView, Json.view, hedges]
          exact lookup_of_sameVisit hsame step steps
      · rw [forbiddenPaths, if_neg hnode, hkeys]
        exact flatMap_of_sameVisit hsame

end Walks

/-- **Theorem (`redactForbiddenKeys_json`).** -/
theorem redactForbiddenKeys_json (g : Graph) (hunshared : g.memory.Unshared g.root) {j : Json}
    (hj : Holds g.memory g.root j) :
    (∀ steps, (redacted g).view steps = Json.view (Posta.redactForbiddenKeys j).1 steps) ∧
      redactedKeys g = (Posta.redactForbiddenKeys j).2 := by
  obtain ⟨hview, hkeys⟩ := redactedView_json g.wellFormed [] (Nat.zero_add maxRedactionDepth)
    g.below hunshared (fun _ _ _ => List.not_mem_nil) hj
  exact ⟨fun steps => (view_redacted g steps).trans (hview steps), (redactedKeys_eq g).trans hkeys⟩

end Posta.ObjectGraph
