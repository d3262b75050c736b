import Posta.Contracts.Redact
import Posta.Js.ObjectGraph

/-!
# Redaction of graphs

The payload of a dead letter is whatever the queue held: objects that share parts, and, as far as
the redaction can know, objects that contain themselves. The walk keeps the objects it is inside
of, stops at those and at the depth cap, and writes its result into new objects.
-/

namespace Posta.ObjectGraph

open Js Js.Heap

def circularReferencePlaceholder : JsString := lit "[CIRCULAR_REFERENCE]"

/-- The context of a redaction, with the memory it runs in. -/
structure RedactionState where
  memory : Memory
  ancestors : List Nat
  redactedKeys : List JsString

/-- `node.map(…)`: the elements of an array from `index` on, into the array at `result`. -/
def redactItems (visit : Value → JsString → RedactionState → Value × RedactionState)
    (result : Nat) (path : JsString) : Nat → List Value → RedactionState → RedactionState
  | _, [], s => s
  | index, item :: items, s =>
    let (value, s) := visit item (buildIndexPath path index) s
    redactItems visit result path (index + 1) items
      { s with memory := s.memory.put result (.index index) value }

/-- `for (const key of Object.keys(source))`, into the object at `result`. -/
def redactProperties (visit : Value → JsString → RedactionState → Value × RedactionState)
    (result : Nat) (path : JsString) : List (JsString × Value) → RedactionState → RedactionState
  | [], s => s
  | (key, value) :: members, s =>
    if isForbiddenKey key then
      redactProperties visit result path members
        { s with
          memory := s.memory.put result (.key key) (.prim (.str secretRedactionPlaceholder))
          redactedKeys := s.redactedKeys ++ [buildPropertyPath path key] }
    else
      let (value, s) := visit value (buildPropertyPath path key) s
      redactProperties visit result path members
        { s with memory := s.memory.put result (.key key) value }

/-- The levels are those that are left: `MAX_REDACTION_DEPTH - depth`. -/
def redactNode : Nat → Value → JsString → RedactionState → Value × RedactionState
  | _, .prim p, _, s => (.prim p, s)
  | 0, .ref _, _, s => (.prim (.str maxDepthExceededPlaceholder), s)
  | levels + 1, .ref node, path, s =>
    if node ∈ s.ancestors then (.prim (.str circularReferencePlaceholder), s)
    else
      let result := s.memory.next
      let s := { s with ancestors := node :: s.ancestors }
      let s := match s.memory.cell node with
        | .array items =>
          redactItems (redactNode levels) result path 0 items
            { s with memory := s.memory.alloc (.array []) }
        | .object members =>
          redactProperties (redactNode levels) result path members
            { s with memory := s.memory.alloc (.object []) }
      (.ref result, { s with ancestors := s.ancestors.erase node })

def redactForbiddenKeys (memory : Memory) (value : Value) : Value × RedactionState :=
  redactNode maxRedactionDepth value [] ⟨memory, [], []⟩

/-! ## What comes out -/

def isForbiddenStep : Step → Bool
  | .key key => isForbiddenKey key
  | .index _ => false

/-- The path of one step further. -/
def stepPath (path : JsString) : Step → JsString
  | .key key => buildPropertyPath path key
  | .index index => buildIndexPath path index

/-- The text of a path that starts after the text `path`. -/
def pathText (path : JsString) (steps : List Step) : JsString := steps.foldl stepPath path

/-- What the paths show at the value that one step writes. -/
def stepView (view : Value → List Step → Option Shape) (e : Step × Value) :
    List Step → Option Shape :=
  if isForbiddenStep e.1 then (Primitive.str secretRedactionPlaceholder).view else view e.2

/-- What they show at an object or array whose parts are written by such steps. -/
def nodeView (view : Value → List Step → Option Shape) (c : Cell) : List Step → Option Shape
  | [] => some c.shape
  | step :: steps => (c.edge step).bind fun v => stepView view (step, v) steps

/-- What the paths show at the result of redacting `v` inside the nodes `ancestors`. -/
def redactedView (m : Memory) : Nat → List Nat → Value → List Step → Option Shape
  | _, _, .prim p => p.view
  | 0, _, .ref _ => (Primitive.str maxDepthExceededPlaceholder).view
  | levels + 1, ancestors, .ref node =>
    if node ∈ ancestors then (Primitive.str circularReferencePlaceholder).view
    else nodeView (redactedView m levels (node :: ancestors)) (m.cell node)

/-- The paths to what is redacted through one step. -/
def stepPaths (paths : Value → List (List Step)) (e : Step × Value) : List (List Step) :=
  if isForbiddenStep e.1 then [[e.1]] else (paths e.2).map (e.1 :: ·)

/-- The paths to what is redacted below `v`, in the order of the walk. -/
def forbiddenPaths (m : Memory) : Nat → List Nat → Value → List (List Step)
  | _, _, .prim _ => []
  | 0, _, .ref _ => []
  | levels + 1, ancestors, .ref node =>
    if node ∈ ancestors then []
    else (m.cell node).edges.flatMap (stepPaths (forbiddenPaths m levels (node :: ancestors)))

/-! ## One step of the walk -/

/-- A step of either loop: the value it writes, and the state after it. -/
def visitStep (visit : Value → JsString → RedactionState → Value × RedactionState)
    (path : JsString) (e : Step × Value) (s : RedactionState) : Value × RedactionState :=
  if isForbiddenStep e.1 then
    (.prim (.str secretRedactionPlaceholder),
      { s with redactedKeys := s.redactedKeys ++ [stepPath path e.1] })
  else visit e.2 (stepPath path e.1) s

/-- Both loops at once. -/
def redactEdges (visit : Value → JsString → RedactionState → Value × RedactionState)
    (result : Nat) (path : JsString) : List (Step × Value) → RedactionState → RedactionState
  | [], s => s
  | e :: edges, s =>
    let (value, s) := visitStep visit path e s
    redactEdges visit result path edges { s with memory := s.memory.put result e.1 value }

section Loops

variable (visit : Value → JsString → RedactionState → Value × RedactionState) (result : Nat)
  (path : JsString)

theorem redactItems_eq (index : Nat) (items : List Value) (s : RedactionState) :
    redactItems visit result path index items s =
      redactEdges visit result path
        ((items.zipIdx index).map fun e => (Step.index e.2, e.1)) s := by
  induction items generalizing index s with
  | nil => rfl
  | cons item items ih =>
    rw [redactItems, List.zipIdx_cons, List.map_cons, redactEdges]
    exact ih _ _

theorem redactProperties_eq (members : List (JsString × Value)) (s : RedactionState) :
    redactProperties visit result path members s =
      redactEdges visit result path (members.map fun e => (Step.key e.1, e.2)) s := by
  induction members generalizing s with
  | nil => rfl
  | cons member members ih =>
    obtain ⟨key, value⟩ := member
    rw [redactProperties, List.map_cons, redactEdges, visitStep, isForbiddenStep, stepPath]
    by_cases hkey : isForbiddenKey key = true
    · rw [if_pos hkey, if_pos hkey]
      exact ih _
    · rw [if_neg hkey, if_neg hkey]
      exact ih _

end Loops

theorem redactNode_ref (levels node : Nat) (path : JsString) {s : RedactionState}
    (hnode : node ∉ s.ancestors) :
    redactNode (levels + 1) (.ref node) path s =
      let filled := redactEdges (redactNode levels) s.memory.next path (s.memory.cell node).edges
        { s with
          memory := s.memory.alloc (s.memory.cell node).empty
          ancestors := node :: s.ancestors }
      (.ref s.memory.next, { filled with ancestors := filled.ancestors.erase node }) := by
  rw [redactNode, if_neg hnode]
  cases hcell : s.memory.cell node with
  | array items =>
    simp only [hcell, redactItems_eq]
    rfl
  | object members =>
    simp only [hcell, redactProperties_eq]
    rfl

/-! ## What one visit leaves -/

/-- The memory `m` still has everything that was in `g`. -/
structure Extends (g m : Memory) : Prop where
  next_le : g.next ≤ m.next
  cell_eq : ∀ r < g.next, m.cell r = g.cell r

theorem Extends.trans {g m m' : Memory} (h : Extends g m) (h' : Extends m m') : Extends g m' where
  next_le := h.next_le.trans h'.next_le
  cell_eq r hr := (h'.cell_eq r (hr.trans_le h.next_le)).trans (h.cell_eq r hr)

/-- A visit at the text `path` wrote a tree into new places, which shows `view`, and recorded the
texts of `paths`. -/
structure Visited (view : List Step → Option Shape) (paths : List (List Step)) (path : JsString)
    (s : RedactionState) (out : Value × RedactionState) : Prop where
  extends_memory : Extends s.memory out.2.memory
  wellFormed : out.2.memory.WellFormed
  confined : out.2.memory.Confined s.memory.next out.2.memory.next out.1
  unshared : out.2.memory.Unshared out.1
  view_eq : ∀ steps, out.2.memory.view out.1 steps = view steps
  ancestors_eq : out.2.ancestors = s.ancestors
  redactedKeys_eq : out.2.redactedKeys = s.redactedKeys ++ paths.map (pathText path)

theorem visited_prim (p : Primitive) (path : JsString) {s : RedactionState}
    (hs : s.memory.WellFormed) : Visited p.view [] path s (.prim p, s) where
  extends_memory := ⟨le_rfl, fun _ _ => rfl⟩
  wellFormed := hs
  confined := Memory.confined_prim _ _ _ p
  unshared := Memory.unshared_prim _ p
  view_eq _ := by rw [Memory.view_prim]
  ancestors_eq := rfl
  redactedKeys_eq := (List.append_nil _).symm

theorem visited_visitStep {visit : Value → JsString → RedactionState → Value × RedactionState}
    {view : Value → List Step → Option Shape} {paths : Value → List (List Step)} {e : Step × Value}
    {path : JsString} {s : RedactionState} (hs : s.memory.WellFormed)
    (hvisit : Visited (view e.2) (paths e.2) (stepPath path e.1) s
      (visit e.2 (stepPath path e.1) s)) :
    Visited (stepView view e) (stepPaths paths e) path s (visitStep visit path e s) := by
  rw [visitStep, stepView, stepPaths]
  by_cases hstep : isForbiddenStep e.1 = true
  · rw [if_pos hstep, if_pos hstep, if_pos hstep]
    exact { visited_prim (.str secretRedactionPlaceholder) path hs with redactedKeys_eq := rfl }
  · rw [if_neg hstep, if_neg hstep, if_neg hstep]
    refine { hvisit with redactedKeys_eq := ?_ }
    rw [hvisit.redactedKeys_eq, List.map_map]
    rfl

/-! ## What a loop leaves -/

/-- The loop over `edges` wrote its values, in order, into the place `result`. -/
structure Filled (view : Value → List Step → Option Shape) (paths : Value → List (List Step))
    (path : JsString) (result : Nat) (edges : List (Step × Value)) (s s' : RedactionState)
    (es : List (Step × Value)) : Prop where
  next_le : s.memory.next ≤ s'.memory.next
  cell_eq : ∀ r < s.memory.next, r ≠ result → s'.memory.cell r = s.memory.cell r
  wellFormed : s'.memory.WellFormed
  cell_result : s'.memory.cell result =
    es.foldl (fun c e => c.put e.1 e.2) (s.memory.cell result)
  written : List.Forall₂ (fun e e' => e.1 = e'.1 ∧
    ∀ steps, s'.memory.view e'.2 steps = stepView view e steps) edges es
  forest : s'.memory.Forest s.memory.next s'.memory.next (es.map Prod.snd)
  ancestors_eq : s'.ancestors = s.ancestors
  redactedKeys_eq : s'.redactedKeys =
    s.redactedKeys ++ (edges.flatMap (stepPaths paths)).map (pathText path)

theorem Filled.cons {view : Value → List Step → Option Shape} {paths : Value → List (List Step)}
    {path : JsString} {result : Nat} {e : Step × Value} {edges : List (Step × Value)}
    {s s₁ s' : RedactionState} {value : Value} {es : List (Step × Value)}
    (hresult : result < s.memory.next)
    (hhead : Visited (stepView view e) (stepPaths paths e) path s (value, s₁))
    (htail : Filled view paths path result edges
      { s₁ with memory := s₁.memory.put result e.1 value } s' es) :
    Filled view paths path result (e :: edges) s s' ((e.1, value) :: es) := by
  have hnext : s.memory.next ≤ s₁.memory.next := hhead.extends_memory.next_le
  have hnext' : s₁.memory.next ≤ s'.memory.next := htail.next_le
  -- The rest of the loop writes to `result` and to places that come after the head's.
  have hcell : ∀ r < s₁.memory.next, r ≠ result → s'.memory.cell r = s₁.memory.cell r :=
    fun r hr hne =>
      (htail.cell_eq r hr hne).trans (Memory.cell_put_of_ne _ _ _ hne)
  have hhead' : ∀ r, s.memory.next ≤ r → r < s₁.memory.next →
      s'.memory.cell r = s₁.memory.cell r := fun r hle hr => hcell r hr (by omega)
  constructor
  · exact hnext.trans hnext'
  · intro r hr hne
    rw [hcell r (by omega) hne]
    exact hhead.extends_memory.cell_eq r hr
  · exact htail.wellFormed
  · have hold : s₁.memory.cell result = s.memory.cell result :=
      hhead.extends_memory.cell_eq result hresult
    rw [htail.cell_result, Memory.cell_put_self, hold, List.foldl_cons]
  · refine .cons ⟨rfl, fun steps => ?_⟩ htail.written
    rw [Memory.view_congr hhead' hhead.confined]
    exact hhead.view_eq steps
  · exact Memory.Forest.cons hnext hnext' (hhead.confined.congr hhead')
      (hhead.unshared.congr hhead' hhead.confined) htail.forest
  · exact htail.ancestors_eq.trans hhead.ancestors_eq
  · rw [htail.redactedKeys_eq, hhead.redactedKeys_eq, List.flatMap_cons, List.map_append,
      List.append_assoc]

theorem filled_redactEdges {g : Memory}
    {visit : Value → JsString → RedactionState → Value × RedactionState}
    {view : Value → List Step → Option Shape} {paths : Value → List (List Step)} (path : JsString)
    {result : Nat} (hg : g.next ≤ result) {edges : List (Step × Value)} {ancestors : List Nat}
    (hvisit : ∀ e ∈ edges, ∀ path s, s.ancestors = ancestors → Extends g s.memory →
      s.memory.WellFormed → Visited (view e.2) (paths e.2) path s (visit e.2 path s))
    (s : RedactionState) (hancestors : s.ancestors = ancestors) (hext : Extends g s.memory)
    (hwf : s.memory.WellFormed) (hresult : result < s.memory.next) :
    ∃ es, Filled view paths path result edges s (redactEdges visit result path edges s) es := by
  induction edges generalizing s with
  | nil =>
    exact ⟨[], le_rfl, fun _ _ _ => rfl, hwf, rfl, .nil, Memory.Forest.nil .., rfl,
      (List.append_nil _).symm⟩
  | cons e edges ih =>
    have hhead : Visited (stepView view e) (stepPaths paths e) path s (visitStep visit path e s) :=
      visited_visitStep hwf (hvisit e List.mem_cons_self _ s hancestors hext hwf)
    rw [redactEdges]
    generalize visitStep visit path e s = out at hhead
    obtain ⟨value, s₁⟩ := out
    have hwrite : Extends g (s₁.memory.put result e.1 value) := by
      have hext₁ := hext.trans hhead.extends_memory
      refine ⟨hext₁.next_le, fun r hr => ?_⟩
      rw [Memory.cell_put_of_ne _ _ _ (hr.trans_le hg).ne]
      exact hext₁.cell_eq r hr
    obtain ⟨es, htail⟩ := ih (fun e he => hvisit e (List.mem_cons_of_mem _ he))
      { s₁ with memory := s₁.memory.put result e.1 value }
      (hhead.ancestors_eq.trans hancestors) hwrite
      (hhead.wellFormed.put result e.1 hhead.confined.below)
      (hresult.trans_le hhead.extends_memory.next_le)
    exact ⟨_, Filled.cons hresult hhead htail⟩

/-! ## What a walk leaves -/

theorem lookup_of_forall₂ {view : Value → List Step → Option Shape} {m : Memory}
    {edges es : List (Step × Value)}
    (h : List.Forall₂ (fun e e' => e.1 = e'.1 ∧
      ∀ steps, m.view e'.2 steps = stepView view e steps) edges es) (step : Step)
    (steps : List Step) :
    ((es.lookup step).bind fun v => m.view v steps) =
      (edges.lookup step).bind fun v => stepView view (step, v) steps := by
  induction h with
  | nil => rfl
  | @cons e e' edges es hhead _ ih =>
    obtain ⟨step₁, v⟩ := e
    obtain ⟨step₂, v'⟩ := e'
    obtain ⟨hstep, hview⟩ := hhead
    obtain rfl : step₁ = step₂ := hstep
    by_cases hstep : step = step₁
    · subst hstep
      rw [List.lookup_cons_self, List.lookup_cons_self]
      exact hview steps
    · rw [List.lookup_cons, List.lookup_cons, beq_false_of_ne hstep]
      exact ih

theorem map_fst_of_forall₂ {view : Value → List Step → Option Shape} {m : Memory}
    {edges es : List (Step × Value)}
    (h : List.Forall₂ (fun e e' => e.1 = e'.1 ∧
      ∀ steps, m.view e'.2 steps = stepView view e steps) edges es) :
    es.map Prod.fst = edges.map Prod.fst := by
  induction h with
  | nil => rfl
  | cons hhead _ ih => rw [List.map_cons, List.map_cons, hhead.1, ih]

/-- The place that a loop filled along the steps of `c`. -/
theorem Filled.node {view : Value → List Step → Option Shape}
    {paths : Value → List (List Step)} {path : JsString} {c : Cell} {s s' : RedactionState}
    {es : List (Step × Value)} {node : Nat} (hc : (c.edges.map Prod.fst).Nodup)
    (h : Filled view paths path s.memory.next c.edges
      { s with memory := s.memory.alloc c.empty, ancestors := node :: s.ancestors } s' es) :
    Visited (nodeView view c) (c.edges.flatMap (stepPaths paths)) path s
      (.ref s.memory.next, { s' with ancestors := s'.ancestors.erase node }) := by
  have hnext : s.memory.next < s'.memory.next := h.next_le
  have hsteps : es.map Prod.fst = c.edges.map Prod.fst := map_fst_of_forall₂ h.written
  have hcell : s'.memory.cell s.memory.next = es.foldl (fun c e => c.put e.1 e.2) c.empty := by
    rw [h.cell_result, Memory.cell_alloc_next]
  obtain ⟨hedges, hshape⟩ := Cell.fill_empty hc hsteps
  rw [← hcell] at hedges hshape
  have hforest : s'.memory.Forest (s.memory.next + 1) s'.memory.next
      ((s'.memory.cell s.memory.next).edges.map Prod.snd) := hedges ▸ h.forest
  constructor
  · refine ⟨hnext.le, fun r hr => ?_⟩
    exact (h.cell_eq r (Nat.lt_succ_of_lt hr) hr.ne).trans (Memory.cell_alloc_of_ne _ _ hr.ne)
  · exact h.wellFormed
  · exact Memory.confined_ref hnext hforest
  · exact Memory.unshared_ref hforest
  · intro steps
    cases steps with
    | nil =>
      rw [Memory.view_nil, nodeView, ← hshape]
      rfl
    | cons step steps =>
      rw [Memory.view_ref_cons, nodeView, Cell.edge, Cell.edge, hedges]
      exact lookup_of_forall₂ h.written step steps
  · show s'.ancestors.erase node = s.ancestors
    rw [h.ancestors_eq, List.erase_cons_head]
  · exact h.redactedKeys_eq

/-- **Theorem (`visited_redactNode`).** -/
theorem visited_redactNode {g : Memory} (hg : g.WellFormed) {levels : Nat} {v : Value}
    (hv : v.Below g.next) (path : JsString) {s : RedactionState} (hext : Extends g s.memory)
    (hwf : s.memory.WellFormed) :
    Visited (redactedView g levels s.ancestors v) (forbiddenPaths g levels s.ancestors v) path s
      (redactNode levels v path s) := by
  induction levels generalizing v path s with
  | zero =>
    cases v with
    | prim p => exact visited_prim p path hwf
    | ref node => exact visited_prim (.str maxDepthExceededPlaceholder) path hwf
  | succ levels ih =>
    cases v with
    | prim p => exact visited_prim p path hwf
    | ref node =>
      by_cases hnode : node ∈ s.ancestors
      · rw [redactedView, forbiddenPaths, redactNode, if_pos hnode, if_pos hnode, if_pos hnode]
        exact visited_prim (.str circularReferencePlaceholder) path hwf
      · rw [redactedView, forbiddenPaths, redactNode_ref _ _ _ hnode, if_neg hnode, if_neg hnode,
          hext.cell_eq node hv]
        have halloc : Extends g (s.memory.alloc (g.cell node).empty) := by
          refine ⟨hext.next_le.trans (Nat.le_succ _), fun r hr => ?_⟩
          rw [Memory.cell_alloc_of_ne _ _ (hr.trans_le hext.next_le).ne]
          exact hext.cell_eq r hr
        have hvisit : ∀ e ∈ (g.cell node).edges, ∀ path s', s'.ancestors = node :: s.ancestors →
            Extends g s'.memory → s'.memory.WellFormed →
            Visited (redactedView g levels (node :: s.ancestors) e.2)
              (forbiddenPaths g levels (node :: s.ancestors) e.2) path s'
              (redactNode levels e.2 path s') := fun e he path s' hancestors hext' hwf' =>
          hancestors ▸ ih (hg.closed node hv e he) path hext' hwf'
        obtain ⟨es, hfilled⟩ := filled_redactEdges path hext.next_le hvisit
          { s with
            memory := s.memory.alloc (g.cell node).empty
            ancestors := node :: s.ancestors }
          rfl halloc (hwf.alloc_empty _) (Nat.lt_succ_self _)
        exact Filled.node (hg.distinct node hv) hfilled

end Posta.ObjectGraph
