import Posta.Contracts.RedactGraph

/-!
# What redaction hides, keeps and lists

The paths into the result of a redaction, against the paths into what was redacted.

**Theorem (`redaction_spec`).** For every graph of objects, arrays and primitives the walk ends
with the graph as it was and a new tree. In the tree every forbidden key holds the placeholder,
and every path below the cap, off the cycles and away from forbidden keys shows what it showed.
The recorded texts are those of the forbidden keys the walk reaches, each once, and a second
redaction finds the same keys and changes nothing.
-/

namespace Posta.ObjectGraph

open Js Js.Heap

/-! ## What the result shows -/

section Views

variable {m : Memory}

theorem redactedView_ref {levels node : Nat} {ancestors : List Nat} (hnode : node ∉ ancestors) :
    redactedView m (levels + 1) ancestors (.ref node) =
      nodeView (redactedView m levels (node :: ancestors)) (m.cell node) := by
  rw [redactedView, if_neg hnode]

theorem redactedView_prim (levels : Nat) (ancestors : List Nat) (p : Primitive) :
    redactedView m levels ancestors (.prim p) = p.view := by
  cases levels <;> rfl

/-- Only at a node that is walked do paths go on. -/
theorem redactedView_cons {levels : Nat} {ancestors : List Nat} {v : Value} {step : Step}
    {path : List Step} {shape : Shape}
    (h : redactedView m levels ancestors v (step :: path) = some shape) :
    ∃ levels' node w, levels = levels' + 1 ∧ v = .ref node ∧ node ∉ ancestors ∧
      (m.cell node).edge step = some w ∧
      stepView (redactedView m levels' (node :: ancestors)) (step, w) path = some shape := by
  cases v with
  | prim p =>
    rw [redactedView_prim] at h
    cases h
  | ref node =>
    cases levels with
    | zero => cases h
    | succ levels' =>
      by_cases hnode : node ∈ ancestors
      · rw [redactedView, if_pos hnode] at h
        cases h
      · rw [redactedView_ref hnode, nodeView] at h
        obtain ⟨w, hw, h⟩ := Option.bind_eq_some_iff.mp h
        exact ⟨levels', node, w, rfl, rfl, hnode, hw, h⟩

/-- What a forbidden key holds in the result. -/
theorem redactedView_hidden {levels : Nat} {ancestors : List Nat} {v : Value} {path : List Step}
    {step : Step} (hstep : isForbiddenStep step = true) {shape : Shape}
    (h : redactedView m levels ancestors v (path ++ [step]) = some shape) :
    shape = .prim (.str secretRedactionPlaceholder) := by
  induction path generalizing levels ancestors v with
  | nil =>
    obtain ⟨levels', node, w, -, -, -, -, h⟩ := redactedView_cons h
    rw [stepView, if_pos hstep] at h
    exact (Option.some.inj h).symm
  | cons first path ih =>
    obtain ⟨levels', node, w, -, -, -, -, h⟩ := redactedView_cons h
    by_cases hfirst : isForbiddenStep first = true
    · rw [stepView, if_pos hfirst] at h
      cases path <;> cases h
    · rw [stepView, if_neg hfirst] at h
      exact ih h

/-- Below the cap, off the cycles and away from forbidden keys, a path shows what it showed. -/
theorem redactedView_kept {levels : Nat} {ancestors : List Nat} {v : Value} {path : List Step}
    (hpath : ∀ step ∈ path, isForbiddenStep step = false) (hnodup : (m.trail v path).Nodup)
    (hancestors : ∀ r ∈ m.trail v path, r ∉ ancestors)
    (hlevels : (m.trail v path).length ≤ levels) :
    redactedView m levels ancestors v path = m.view v path := by
  induction path generalizing levels ancestors v with
  | nil =>
    cases v with
    | prim p => rw [redactedView_prim, Memory.view_prim]
    | ref node =>
      obtain ⟨levels', rfl⟩ : ∃ levels', levels = levels' + 1 :=
        Nat.exists_eq_add_of_le' hlevels
      rw [redactedView_ref (hancestors node List.mem_cons_self), Memory.view_nil]
      rfl
  | cons step path ih =>
    cases v with
    | prim p => rw [redactedView_prim, Memory.view_prim]
    | ref node =>
      rw [Memory.trail_ref_cons] at hnodup hancestors hlevels
      obtain ⟨levels', rfl⟩ : ∃ levels', levels = levels' + 1 :=
        Nat.exists_eq_add_of_le' ((Nat.le_add_left 1 _).trans hlevels)
      rw [redactedView_ref (hancestors node List.mem_cons_self), nodeView, Memory.view_ref_cons]
      cases hedge : (m.cell node).edge step with
      | none => rfl
      | some w =>
        rw [hedge, Option.map_some, Option.getD_some] at hnodup hancestors hlevels
        obtain ⟨hfresh, hnodup⟩ := List.nodup_cons.mp hnodup
        have hstep : ¬ isForbiddenStep step = true := by simp [hpath step List.mem_cons_self]
        simp only [Option.bind_some, stepView, if_neg hstep]
        apply ih (fun step hs => hpath step (List.mem_cons_of_mem _ hs)) hnodup
        · intro r hr hmem
          rcases List.mem_cons.mp hmem with rfl | hmem
          · exact hfresh hr
          · exact hancestors r (List.mem_cons_of_mem _ hr) hmem
        · exact Nat.le_of_succ_le_succ hlevels

/-- What is not a primitive lies above the cap. -/
theorem length_lt_of_redactedView {levels : Nat} {ancestors : List Nat} {v : Value}
    {path : List Step} {shape : Shape}
    (h : redactedView m levels ancestors v path = some shape) (hshape : ∀ p, shape ≠ .prim p) :
    path.length < levels := by
  induction path generalizing levels ancestors v with
  | nil =>
    cases levels with
    | succ levels => exact Nat.succ_pos levels
    | zero => cases v <;> exact absurd (Option.some.inj h).symm (hshape _)
  | cons step path ih =>
    obtain ⟨levels', node, w, rfl, -, -, -, h⟩ := redactedView_cons h
    by_cases hstep : isForbiddenStep step = true
    · rw [stepView, if_pos hstep] at h
      cases path with
      | nil => exact absurd (Option.some.inj h).symm (hshape _)
      | cons => cases h
    · rw [stepView, if_neg hstep] at h
      exact Nat.succ_lt_succ (ih h)

theorem length_le_of_redactedView {levels : Nat} {ancestors : List Nat} {v : Value}
    {path : List Step} {shape : Shape}
    (h : redactedView m levels ancestors v path = some shape) : path.length ≤ levels := by
  induction path generalizing levels ancestors v with
  | nil => exact Nat.zero_le levels
  | cons step path ih =>
    obtain ⟨levels', node, w, rfl, -, -, -, h⟩ := redactedView_cons h
    by_cases hstep : isForbiddenStep step = true
    · rw [stepView, if_pos hstep] at h
      cases path with
      | nil => exact Nat.le_add_left 1 levels'
      | cons => cases h
    · rw [stepView, if_neg hstep] at h
      exact Nat.succ_le_succ (ih h)

/-- A tree whose forbidden keys hold the placeholder is left as it is. -/
theorem redactedView_fixed {levels : Nat} {ancestors : List Nat} {v : Value}
    (hunshared : m.Unshared v)
    (hlevels : ∀ path r, m.follow v path = some (.ref r) → path.length < levels)
    (hancestors : ∀ path r, m.follow v path = some (.ref r) → r ∉ ancestors)
    (hhidden : ∀ path step shape, isForbiddenStep step = true →
      m.view v (path ++ [step]) = some shape → shape = .prim (.str secretRedactionPlaceholder))
    (path : List Step) : redactedView m levels ancestors v path = m.view v path := by
  induction path generalizing levels ancestors v with
  | nil =>
    cases v with
    | prim p => rw [redactedView_prim, Memory.view_prim]
    | ref node =>
      obtain ⟨levels', rfl⟩ : ∃ levels', levels = levels' + 1 :=
        Nat.exists_eq_add_of_le' (hlevels [] node rfl)
      rw [redactedView_ref (hancestors [] node rfl), Memory.view_nil]
      rfl
  | cons step path ih =>
    cases v with
    | prim p => rw [redactedView_prim, Memory.view_prim]
    | ref node =>
      obtain ⟨levels', rfl⟩ : ∃ levels', levels = levels' + 1 :=
        Nat.exists_eq_add_of_le' (hlevels [] node rfl)
      rw [redactedView_ref (hancestors [] node rfl), nodeView, Memory.view_ref_cons]
      cases hedge : (m.cell node).edge step with
      | none => rfl
      | some w =>
        have hcons : ∀ path, m.follow (.ref node) (step :: path) = m.follow w path := fun path => by
          rw [Memory.follow_ref_cons, hedge]
          rfl
        have hview : ∀ path, m.view (.ref node) (step :: path) = m.view w path := fun path => by
          rw [Memory.view_ref_cons, hedge]
          rfl
        rw [Option.bind_some, Option.bind_some, stepView]
        by_cases hstep : isForbiddenStep step = true
        · have hw : m.shape w = .prim (.str secretRedactionPlaceholder) :=
            hhidden [] step _ hstep (by rw [List.nil_append, hview, Memory.view_nil])
          rw [if_pos hstep]
          cases w with
          | prim p =>
            cases hw
            rw [Memory.view_prim]
          | ref q => cases hc : m.cell q <;> simp [Memory.shape, hc, Cell.shape] at hw
        · rw [if_neg hstep]
          apply ih (hunshared.edge hedge)
          · intro path r hr
            have hlen := hlevels (step :: path) r ((hcons path).trans hr)
            exact Nat.lt_of_succ_lt_succ hlen
          · intro path r hr hmem
            rcases List.mem_cons.mp hmem with rfl | hmem
            · cases hunshared _ _ r ((hcons path).trans hr) (Memory.follow_nil m _)
            · exact hancestors (step :: path) r ((hcons path).trans hr) hmem
          · intro path step' shape hstep' hshape
            exact hhidden (step :: path) step' shape hstep' ((hview _).trans hshape)

end Views

/-! ## The paths to what is redacted -/

section Paths

variable {m : Memory}

/-- The paths to the forbidden keys of a tree, from what its paths show. -/
def shapePaths : Nat → (List Step → Option Shape) → List (List Step)
  | 0, _ => []
  | levels + 1, view =>
    ((view []).map Shape.steps).getD [] |>.flatMap fun step =>
      if isForbiddenStep step then [[step]]
      else (shapePaths levels fun path => view (step :: path)).map (step :: ·)

theorem edge_of_mem {c : Cell} (hc : (c.edges.map Prod.fst).Nodup) {e : Step × Value}
    (he : e ∈ c.edges) : c.edge e.1 = some e.2 := by
  obtain ⟨l₁, l₂, hl⟩ := List.append_of_mem he
  refine List.lookup_eq_some_iff.mpr ⟨l₁, l₂, hl, fun e' he' => ?_⟩
  rw [hl, List.map_append, List.nodup_append] at hc
  have hne := hc.2.2 e'.1 (List.mem_map_of_mem he') e.1 (by simp)
  exact bne_iff_ne.mpr fun heq => hne heq.symm

theorem shapePaths_prim (levels : Nat) (p : Primitive) : shapePaths levels p.view = [] := by
  cases levels <;> rfl

/-- What is redacted can be read off the result. -/
theorem forbiddenPaths_eq (hm : m.WellFormed) {levels : Nat} {ancestors : List Nat} {v : Value}
    (hv : v.Below m.next) :
    forbiddenPaths m levels ancestors v = shapePaths levels (redactedView m levels ancestors v) := by
  induction levels generalizing ancestors v with
  | zero => cases v <;> rfl
  | succ levels ih =>
    cases v with
    | prim p => rw [redactedView_prim, shapePaths_prim, forbiddenPaths]
    | ref node =>
      rw [forbiddenPaths, redactedView]
      by_cases hnode : node ∈ ancestors
      · rw [if_pos hnode, if_pos hnode, shapePaths_prim]
      · rw [if_neg hnode, if_neg hnode, shapePaths, nodeView, Option.map_some, Option.getD_some,
          ← Cell.map_fst_edges, List.flatMap_map]
        apply List.flatMap_congr
        intro e he
        have hview : (fun path => nodeView (redactedView m levels (node :: ancestors))
            (m.cell node) (e.1 :: path)) =
              stepView (redactedView m levels (node :: ancestors)) e := by
          funext path
          rw [nodeView, edge_of_mem (hm.distinct node hv) he]
          rfl
        rw [hview, stepPaths, stepView]
        by_cases hstep : isForbiddenStep e.1 = true
        · rw [if_pos hstep, if_pos hstep]
        · rw [if_neg hstep, if_neg hstep, if_neg hstep, ih (hm.closed node hv e he)]

theorem mem_stepPaths {paths : Value → List (List Step)} {e : Step × Value} {path : List Step}
    (h : path ∈ stepPaths paths e) : ∃ rest, path = e.1 :: rest := by
  rw [stepPaths] at h
  split at h
  · exact ⟨[], List.mem_singleton.mp h⟩
  · obtain ⟨rest, -, rfl⟩ := List.mem_map.mp h
    exact ⟨rest, rfl⟩

theorem nodup_forbiddenPaths (hm : m.WellFormed) {levels : Nat} {ancestors : List Nat} {v : Value}
    (hv : v.Below m.next) : (forbiddenPaths m levels ancestors v).Nodup := by
  induction levels generalizing ancestors v with
  | zero => cases v <;> exact .nil
  | succ levels ih =>
    cases v with
    | prim p => exact .nil
    | ref node =>
      rw [forbiddenPaths]
      by_cases hnode : node ∈ ancestors
      · rw [if_pos hnode]
        exact .nil
      · rw [if_neg hnode, List.nodup_flatMap]
        refine ⟨fun e he => ?_, ?_⟩
        · rw [stepPaths]
          split
          · exact List.nodup_singleton _
          · exact (ih (hm.closed node hv e he)).map fun _ _ heq => (List.cons.inj heq).2
        · refine (List.pairwise_map.mp (hm.distinct node hv)).imp fun hne path hpath hpath' => ?_
          obtain ⟨rest, rfl⟩ := mem_stepPaths hpath
          obtain ⟨rest', heq⟩ := mem_stepPaths hpath'
          exact hne (List.cons.inj heq).1

/-- A path through walked nodes to a forbidden key. -/
def Walked (m : Memory) (levels : Nat) (ancestors : List Nat) (v : Value) (path : List Step) :
    Prop :=
  ∃ parent step, path = parent ++ [step] ∧ isForbiddenStep step = true ∧
    (∀ step ∈ parent, isForbiddenStep step = false) ∧ (m.follow v path).isSome ∧
    (m.trail v parent).Nodup ∧ (∀ r ∈ m.trail v parent, r ∉ ancestors) ∧
    (m.trail v parent).length ≤ levels

theorem not_walked_nil {levels : Nat} {ancestors : List Nat} {v : Value} :
    ¬ Walked m levels ancestors v [] := by
  rintro ⟨parent, step, hpath, -⟩
  exact List.append_ne_nil_of_right_ne_nil parent (List.cons_ne_nil _ _) hpath.symm

theorem walked_cons {levels : Nat} {ancestors : List Nat} {v : Value} {step : Step}
    {path : List Step} :
    Walked m levels ancestors v (step :: path) ↔
      ∃ levels' node w, levels = levels' + 1 ∧ v = .ref node ∧ node ∉ ancestors ∧
        (m.cell node).edge step = some w ∧
        if isForbiddenStep step = true then path = []
        else Walked m levels' (node :: ancestors) w path := by
  constructor
  · rintro ⟨parent, last, hpath, hlast, hparent, hfollow, hnodup, hancestors, hlevels⟩
    cases v with
    | prim p => cases hfollow
    | ref node =>
      obtain ⟨w, hw⟩ : ∃ w, (m.cell node).edge step = some w := by
        cases hedge : (m.cell node).edge step with
        | none => simp [Memory.follow_ref_cons, hedge] at hfollow
        | some w => exact ⟨w, rfl⟩
      cases parent with
      | nil =>
        obtain ⟨rfl, rfl⟩ := List.cons.inj hpath
        obtain ⟨levels', rfl⟩ := Nat.exists_eq_add_of_le' hlevels
        refine ⟨levels', node, w, rfl, rfl, hancestors node List.mem_cons_self, hw, ?_⟩
        rw [if_pos hlast]
      | cons first parent =>
        obtain ⟨rfl, rfl⟩ := List.cons.inj hpath
        rw [Memory.trail_ref_cons, hw, Option.map_some, Option.getD_some] at hnodup hancestors hlevels
        obtain ⟨levels', rfl⟩ := Nat.exists_eq_add_of_le' ((Nat.le_add_left 1 _).trans hlevels)
        obtain ⟨hfresh, hnodup⟩ := List.nodup_cons.mp hnodup
        have hstep : ¬ isForbiddenStep step = true := by simp [hparent step List.mem_cons_self]
        refine ⟨levels', node, w, rfl, rfl, hancestors node List.mem_cons_self, hw, ?_⟩
        rw [if_neg hstep]
        refine ⟨parent, last, rfl, hlast, fun step hs => hparent step (List.mem_cons_of_mem _ hs), ?_,
          hnodup, fun r hr hmem => ?_, Nat.le_of_succ_le_succ hlevels⟩
        · rwa [Memory.follow_ref_cons, hw] at hfollow
        · rcases List.mem_cons.mp hmem with rfl | hmem
          · exact hfresh hr
          · exact hancestors r (List.mem_cons_of_mem _ hr) hmem
  · rintro ⟨levels', node, w, rfl, rfl, hnode, hw, hrest⟩
    by_cases hstep : isForbiddenStep step = true
    · rw [if_pos hstep] at hrest
      subst hrest
      refine ⟨[], step, rfl, hstep, fun _ hs => absurd hs List.not_mem_nil, ?_,
        List.nodup_singleton _, fun r hr => ?_, Nat.le_add_left 1 _⟩
      · simp [Memory.follow_ref_cons, hw]
      · rwa [List.mem_singleton.mp hr]
    · rw [if_neg hstep] at hrest
      obtain ⟨parent, last, rfl, hlast, hparent, hfollow, hnodup, hancestors, hlevels⟩ := hrest
      have htrail : m.trail (.ref node) (step :: parent) = node :: m.trail w parent := by
        rw [Memory.trail_ref_cons, hw]
        rfl
      refine ⟨step :: parent, last, rfl, hlast, fun step' hs => ?_, ?_, ?_, fun r hr => ?_, ?_⟩
      · rcases List.mem_cons.mp hs with rfl | hs
        · exact Bool.eq_false_of_not_eq_true hstep
        · exact hparent step' hs
      · rw [Memory.follow_ref_cons, hw]
        exact hfollow
      · rw [htrail, List.nodup_cons]
        exact ⟨fun hmem => hancestors node hmem List.mem_cons_self, hnodup⟩
      · rcases List.mem_cons.mp (htrail ▸ hr) with rfl | hr
        · exact hnode
        · exact fun hmem => hancestors r hr (List.mem_cons_of_mem _ hmem)
      · rw [htrail]
        exact Nat.succ_le_succ hlevels

theorem mem_forbiddenPaths_cons (hm : m.WellFormed) {levels : Nat} {ancestors : List Nat}
    {v : Value} (hv : v.Below m.next) {step : Step} {path : List Step} :
    step :: path ∈ forbiddenPaths m levels ancestors v ↔
      ∃ levels' node w, levels = levels' + 1 ∧ v = .ref node ∧ node ∉ ancestors ∧
        (m.cell node).edge step = some w ∧
        if isForbiddenStep step = true then path = []
        else path ∈ forbiddenPaths m levels' (node :: ancestors) w := by
  have hcons : ∀ (paths : Value → List (List Step)) w,
      step :: path ∈ stepPaths paths (step, w) ↔
        if isForbiddenStep step = true then path = [] else path ∈ paths w := by
    intro paths w
    rw [stepPaths]
    split
    · simp
    · simp
  constructor
  · intro h
    cases v with
    | prim p => cases levels <;> cases h
    | ref node =>
      cases levels with
      | zero => cases h
      | succ levels =>
        rw [forbiddenPaths] at h
        split at h
        · cases h
        · rename_i hnode
          obtain ⟨e, he, hpath⟩ := List.mem_flatMap.mp h
          obtain ⟨rest, heq⟩ := mem_stepPaths hpath
          obtain ⟨rfl, rfl⟩ := List.cons.inj heq
          exact ⟨levels, node, e.2, rfl, rfl, hnode, edge_of_mem (hm.distinct node hv) he,
            (hcons _ _).mp hpath⟩
  · rintro ⟨levels', node, w, rfl, rfl, hnode, hw, hpath⟩
    rw [forbiddenPaths, if_neg hnode]
    exact List.mem_flatMap.mpr ⟨(step, w), Memory.edge_mem hw, (hcons _ _).mpr hpath⟩

theorem nil_notMem_forbiddenPaths {levels : Nat} {ancestors : List Nat} {v : Value} :
    [] ∉ forbiddenPaths m levels ancestors v := by
  intro h
  cases v with
  | prim p => cases levels <;> cases h
  | ref node =>
    cases levels with
    | zero => cases h
    | succ levels =>
      rw [forbiddenPaths] at h
      split at h
      · cases h
      · obtain ⟨e, -, hpath⟩ := List.mem_flatMap.mp h
        obtain ⟨rest, heq⟩ := mem_stepPaths hpath
        cases heq

theorem mem_forbiddenPaths (hm : m.WellFormed) {levels : Nat} {ancestors : List Nat} {v : Value}
    (hv : v.Below m.next) {path : List Step} :
    path ∈ forbiddenPaths m levels ancestors v ↔ Walked m levels ancestors v path := by
  induction path generalizing levels ancestors v with
  | nil => exact iff_of_false nil_notMem_forbiddenPaths not_walked_nil
  | cons step path ih =>
    rw [mem_forbiddenPaths_cons hm hv, walked_cons]
    refine exists_congr fun levels' => exists_congr fun node => exists_congr fun w => ?_
    refine and_congr_right fun _ => and_congr_right fun hnode => and_congr_right fun _ =>
      and_congr_right fun hw => ?_
    subst hnode
    split
    · exact Iff.rfl
    · exact ih (hm.edge hv hw)

end Paths

/-! ## Redacted graphs -/

theorem visited_redactForbiddenKeys (g : Graph) :
    Visited (redactedView g.memory maxRedactionDepth [] g.root)
      (forbiddenPaths g.memory maxRedactionDepth [] g.root) [] ⟨g.memory, [], []⟩
      (redactForbiddenKeys g.memory g.root) :=
  visited_redactNode (s := ⟨g.memory, [], []⟩) g.wellFormed g.below [] ⟨le_rfl, fun _ _ => rfl⟩
    g.wellFormed

/-- The graph that a redaction returns. -/
def redacted (g : Graph) : Graph where
  memory := (redactForbiddenKeys g.memory g.root).2.memory
  root := (redactForbiddenKeys g.memory g.root).1
  below := (visited_redactForbiddenKeys g).confined.below
  wellFormed := (visited_redactForbiddenKeys g).wellFormed

def redactedKeys (g : Graph) : List JsString :=
  (redactForbiddenKeys g.memory g.root).2.redactedKeys

/-- A path to a forbidden key that passes no other one, no place twice and at most as many places
as the cap allows. -/
def ReachesForbidden (g : Graph) (path : List Step) : Prop :=
  ∃ parent key, path = parent ++ [.key key] ∧ isForbiddenKey key = true ∧
    (∀ step ∈ parent, isForbiddenStep step = false) ∧ (g.follow path).isSome ∧
    (g.trail parent).Nodup ∧ (g.trail parent).length ≤ maxRedactionDepth

theorem view_redacted (g : Graph) (path : List Step) :
    (redacted g).view path = redactedView g.memory maxRedactionDepth [] g.root path :=
  (visited_redactForbiddenKeys g).view_eq path

theorem redactedKeys_eq (g : Graph) :
    redactedKeys g = (forbiddenPaths g.memory maxRedactionDepth [] g.root).map (pathText []) :=
  (visited_redactForbiddenKeys g).redactedKeys_eq

theorem walked_iff_reachesForbidden (g : Graph) (path : List Step) :
    Walked g.memory maxRedactionDepth [] g.root path ↔ ReachesForbidden g path := by
  constructor
  · rintro ⟨parent, step, hpath, hstep, hparent, hfollow, hnodup, -, hlevels⟩
    cases step with
    | index i => cases hstep
    | key key => exact ⟨parent, key, hpath, hstep, hparent, hfollow, hnodup, hlevels⟩
  · rintro ⟨parent, key, hpath, hkey, hparent, hfollow, hnodup, hlevels⟩
    exact ⟨parent, .key key, hpath, hkey, hparent, hfollow, hnodup,
      fun _ _ => List.not_mem_nil, hlevels⟩

theorem mem_forbiddenPaths_root (g : Graph) (path : List Step) :
    path ∈ forbiddenPaths g.memory maxRedactionDepth [] g.root ↔ ReachesForbidden g path :=
  (mem_forbiddenPaths g.wellFormed g.below).trans (walked_iff_reachesForbidden g path)

theorem redacted_hidden (g : Graph) {path : List Step} {key : JsString}
    (hkey : isForbiddenKey key = true) {shape : Shape}
    (h : (redacted g).view (path ++ [.key key]) = some shape) :
    shape = .prim (.str secretRedactionPlaceholder) := by
  have hstep : isForbiddenStep (.key key) = true := hkey
  exact redactedView_hidden hstep ((view_redacted g _).symm.trans h)

theorem follow_redacted_length (g : Graph) {path : List Step} {r : Nat}
    (h : (redacted g).follow path = some (.ref r)) : path.length < maxRedactionDepth := by
  have hview : (redacted g).view path = some (((redacted g).memory.cell r).shape) := by
    rw [Graph.view, Memory.view]
    exact congrArg (Option.map _) h
  rw [view_redacted] at hview
  apply length_lt_of_redactedView hview
  intro p hp
  cases hc : (redacted g).memory.cell r <;> simp [hc, Cell.shape] at hp

/-- The second redaction of a graph shows what the first one does. -/
theorem redactedView_redacted (g : Graph) (path : List Step) :
    redactedView (redacted g).memory maxRedactionDepth [] (redacted g).root path =
      (redacted g).view path := by
  apply redactedView_fixed (visited_redactForbiddenKeys g).unshared
  · exact fun path r hr => follow_redacted_length g hr
  · exact fun _ _ _ => List.not_mem_nil
  · intro path step shape hstep hshape
    cases step with
    | index i => cases hstep
    | key key => exact redacted_hidden g hstep hshape

theorem redactedKeys_redacted (g : Graph) : redactedKeys (redacted g) = redactedKeys g := by
  have hview : redactedView (redacted g).memory maxRedactionDepth [] (redacted g).root =
      redactedView g.memory maxRedactionDepth [] g.root := by
    funext path
    rw [redactedView_redacted, view_redacted]
  rw [redactedKeys_eq, redactedKeys_eq, forbiddenPaths_eq (redacted g).wellFormed (redacted g).below,
    forbiddenPaths_eq g.wellFormed g.below, hview]

/-- What a redaction promises of a graph. -/
structure Redaction (g : Graph) : Prop where
  /-- Nothing that was in memory is written. -/
  unchanged : ∀ r < g.memory.next, (redacted g).memory.cell r = g.memory.cell r
  /-- The result is made of new places only. -/
  fresh : ∀ path r, (redacted g).follow path = some (.ref r) → g.memory.next ≤ r
  /-- It shares none of them. -/
  tree : (redacted g).memory.Unshared (redacted g).root
  /-- No path into it is longer than the cap. -/
  finite : ∀ path, (redacted g).view path ≠ none → path.length ≤ maxRedactionDepth
  hidden : ∀ path key shape, isForbiddenKey key = true →
    (redacted g).view (path ++ [.key key]) = some shape →
      shape = .prim (.str secretRedactionPlaceholder)
  kept : ∀ path, (∀ step ∈ path, isForbiddenStep step = false) → (g.trail path).Nodup →
    (g.trail path).length ≤ maxRedactionDepth → (redacted g).view path = g.view path
  listed : ∃ paths : List (List Step), paths.Nodup ∧
    (∀ path, path ∈ paths ↔ ReachesForbidden g path) ∧ redactedKeys g = paths.map (pathText [])
  none_listed : redactedKeys g = [] ↔ ∀ path, ¬ ReachesForbidden g path
  idempotent : ∀ path, (redacted (redacted g)).view path = (redacted g).view path
  same_keys : redactedKeys (redacted g) = redactedKeys g

/-- **Theorem (`redaction_spec`).** -/
theorem redaction_spec (g : Graph) : Redaction g where
  unchanged := (visited_redactForbiddenKeys g).extends_memory.cell_eq
  fresh path r hr := ((visited_redactForbiddenKeys g).confined path r hr).1
  tree := (visited_redactForbiddenKeys g).unshared
  finite path hpath := by
    obtain ⟨shape, hshape⟩ := Option.ne_none_iff_exists'.mp hpath
    exact length_le_of_redactedView ((view_redacted g path).symm.trans hshape)
  hidden path key shape hkey hshape := redacted_hidden g hkey hshape
  kept path hpath hnodup hlength :=
    (view_redacted g path).trans
      (redactedView_kept hpath hnodup (fun _ _ => List.not_mem_nil) hlength)
  listed := ⟨_, nodup_forbiddenPaths g.wellFormed g.below, mem_forbiddenPaths_root g,
    redactedKeys_eq g⟩
  none_listed := by
    rw [redactedKeys_eq, List.map_eq_nil_iff, List.eq_nil_iff_forall_not_mem]
    exact forall_congr' fun path => not_congr (mem_forbiddenPaths_root g path)
  idempotent path := (view_redacted (redacted g) path).trans (redactedView_redacted g path)
  same_keys := redactedKeys_redacted g

end Posta.ObjectGraph
