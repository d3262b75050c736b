import Posta.Js.Json
import Mathlib.Data.List.Forall2
import Mathlib.Data.List.Nodup
import Mathlib.Data.List.Pairwise
import Mathlib.Logic.Function.Basic

/-!
# Objects in memory

JSON data as a program holds it: objects and arrays are places of a memory, and what they hold
are primitives and further places, so that a value may share parts and may contain itself. A path
is a list of steps, and two values are equal as data when every path shows the same at both.

**Theorem (`view_congr`).** What the paths show at a value does not change when places outside
those the value reaches are written.

**Theorem (`unshared_ref`).** A place whose parts are trees that share nothing is itself a tree.
-/

namespace Js.Heap

/-! ## Values, places and paths -/

/-- A value that is not an object. -/
inductive Primitive where
  | null
  | bool (b : Bool)
  | num (n : JsNumber)
  | str (s : JsString)

/-- A primitive, or the place of an object. -/
inductive Value where
  | prim (p : Primitive)
  | ref (r : Nat)

/-- A property of an object, or a position in an array. -/
inductive Step where
  | key (k : JsString)
  | index (i : Nat)
  deriving DecidableEq

/-- What a place holds: an array, or an object with its own properties in their order. -/
inductive Cell where
  | array (items : List Value)
  | object (members : List (JsString × Value))

/-- What can be seen at a value without following it. -/
inductive Shape where
  | prim (p : Primitive)
  | array (length : Nat)
  | object (keys : List JsString)

/-- What the paths show at a primitive. -/
def Primitive.view (p : Primitive) : List Step → Option Shape
  | [] => some (.prim p)
  | _ :: _ => none

namespace Cell

/-- The steps out of a place, in order, and where they lead. -/
def edges : Cell → List (Step × Value)
  | array items => items.zipIdx.map fun e => (.index e.2, e.1)
  | object members => members.map fun e => (.key e.1, e.2)

def edge (c : Cell) (step : Step) : Option Value := c.edges.lookup step

def shape : Cell → Shape
  | array items => .array items.length
  | object members => .object (members.map Prod.fst)

end Cell

/-- The steps that a shape allows. -/
def Shape.steps : Shape → List Step
  | prim _ => []
  | array length => (List.range length).map .index
  | object keys => keys.map .key

theorem Cell.map_fst_edges (c : Cell) : c.edges.map Prod.fst = c.shape.steps := by
  cases c with
  | array items =>
    simp only [edges, shape, Shape.steps, List.map_map, List.range_eq_range']
    rw [← List.zipIdx_map_snd 0 items, List.map_map]
    rfl
  | object members =>
    simp only [edges, shape, Shape.steps, List.map_map]
    rfl

/-! ## Memories -/

/-- The places below `next` are in use. -/
structure Memory where
  cell : Nat → Cell
  next : Nat

namespace Memory

/-- A new place. -/
def alloc (m : Memory) (c : Cell) : Memory :=
  { cell := Function.update m.cell m.next c, next := m.next + 1 }

def write (m : Memory) (r : Nat) (c : Cell) : Memory :=
  { m with cell := Function.update m.cell r c }

@[simp] theorem next_alloc (m : Memory) (c : Cell) : (m.alloc c).next = m.next + 1 := rfl

@[simp] theorem cell_alloc_next (m : Memory) (c : Cell) : (m.alloc c).cell m.next = c :=
  Function.update_self ..

theorem cell_alloc_of_ne (m : Memory) (c : Cell) {r : Nat} (hr : r ≠ m.next) :
    (m.alloc c).cell r = m.cell r := Function.update_of_ne hr ..

@[simp] theorem next_write (m : Memory) (r : Nat) (c : Cell) : (m.write r c).next = m.next := rfl

@[simp] theorem cell_write_self (m : Memory) (r : Nat) (c : Cell) : (m.write r c).cell r = c :=
  Function.update_self ..

theorem cell_write_of_ne (m : Memory) {q : Nat} (c : Cell) {r : Nat} (hr : r ≠ q) :
    (m.write q c).cell r = m.cell r := Function.update_of_ne hr ..

def shape (m : Memory) : Value → Shape
  | .prim p => .prim p
  | .ref r => (m.cell r).shape

/-- The value at the end of a path. -/
def follow (m : Memory) : Value → List Step → Option Value
  | v, [] => some v
  | .prim _, _ :: _ => none
  | .ref r, step :: steps => ((m.cell r).edge step).bind fun v => m.follow v steps

/-- What a path shows at its end. -/
def view (m : Memory) (v : Value) (path : List Step) : Option Shape :=
  (m.follow v path).map m.shape

/-- The places that a path passes, the one at its end included. -/
def trail (m : Memory) : Value → List Step → List Nat
  | .prim _, _ => []
  | .ref r, [] => [r]
  | .ref r, step :: steps =>
    r :: (((m.cell r).edge step).map fun v => m.trail v steps).getD []

@[simp] theorem follow_nil (m : Memory) (v : Value) : m.follow v [] = some v := by
  cases v <;> rfl

@[simp] theorem follow_prim_cons (m : Memory) (p : Primitive) (step : Step) (steps : List Step) :
    m.follow (.prim p) (step :: steps) = none := rfl

theorem follow_ref_cons (m : Memory) (r : Nat) (step : Step) (steps : List Step) :
    m.follow (.ref r) (step :: steps) =
      ((m.cell r).edge step).bind fun v => m.follow v steps := rfl

theorem view_prim (m : Memory) (p : Primitive) : m.view (.prim p) = p.view := by
  funext path
  cases path <;> rfl

theorem view_nil (m : Memory) (v : Value) : m.view v [] = some (m.shape v) := by simp [view]

theorem view_ref_cons (m : Memory) (r : Nat) (step : Step) (steps : List Step) :
    m.view (.ref r) (step :: steps) = ((m.cell r).edge step).bind fun v => m.view v steps := by
  rw [view, follow_ref_cons, Option.map_bind]
  rfl

/-- Every place that `v` leads to is one of those from `lo` up to `hi`. -/
def Confined (m : Memory) (lo hi : Nat) (v : Value) : Prop :=
  ∀ path r, m.follow v path = some (.ref r) → lo ≤ r ∧ r < hi

/-- No place is at the end of two paths. -/
def Unshared (m : Memory) (v : Value) : Prop :=
  ∀ path path' r, m.follow v path = some (.ref r) → m.follow v path' = some (.ref r) → path = path'

/-- No place is reached from both values. -/
def Separate (m : Memory) (v w : Value) : Prop :=
  ∀ path path' r, m.follow v path = some (.ref r) → m.follow w path' ≠ some (.ref r)

/-! ## What a write leaves alone -/

section Frame

variable {m m' : Memory} {lo hi : Nat}

theorem Confined.edge {r : Nat} (h : m.Confined lo hi (.ref r)) {step : Step} {v : Value}
    (hv : (m.cell r).edge step = some v) : m.Confined lo hi v := by
  intro path q hq
  apply h (step :: path) q
  rw [follow_ref_cons, hv]
  exact hq

theorem Confined.mono {v : Value} (h : m.Confined lo hi v) {lo' hi' : Nat} (hlo : lo' ≤ lo)
    (hhi : hi ≤ hi') : m.Confined lo' hi' v := fun path r hr =>
  ⟨hlo.trans (h path r hr).1, (h path r hr).2.trans_le hhi⟩

theorem confined_prim (m : Memory) (lo hi : Nat) (p : Primitive) : m.Confined lo hi (.prim p) := by
  intro path r hr
  cases path with
  | nil => cases hr
  | cons step path => cases hr

theorem unshared_prim (m : Memory) (p : Primitive) : m.Unshared (.prim p) := by
  intro path path' r hr
  cases path with
  | nil => cases hr
  | cons step path => cases hr

theorem follow_congr (hcell : ∀ r, lo ≤ r → r < hi → m'.cell r = m.cell r) {v : Value}
    (hv : m.Confined lo hi v) (path : List Step) : m'.follow v path = m.follow v path := by
  induction path generalizing v with
  | nil => rw [follow_nil, follow_nil]
  | cons step path ih =>
    cases v with
    | prim p => rfl
    | ref r =>
      obtain ⟨hlo, hhi⟩ := hv [] r (follow_nil m _)
      rw [follow_ref_cons, follow_ref_cons, hcell r hlo hhi]
      cases he : (m.cell r).edge step with
      | none => rfl
      | some w => exact ih (hv.edge he)

/-- **Theorem (`view_congr`).** -/
theorem view_congr (hcell : ∀ r, lo ≤ r → r < hi → m'.cell r = m.cell r) {v : Value}
    (hv : m.Confined lo hi v) (path : List Step) : m'.view v path = m.view v path := by
  rw [view, view, follow_congr hcell hv]
  cases hw : m.follow v path with
  | none => rfl
  | some w =>
    cases w with
    | prim p => rfl
    | ref r =>
      obtain ⟨hlo, hhi⟩ := hv path r hw
      simp only [Option.map_some, shape, hcell r hlo hhi]

theorem Confined.congr (hcell : ∀ r, lo ≤ r → r < hi → m'.cell r = m.cell r) {v : Value}
    (hv : m.Confined lo hi v) : m'.Confined lo hi v := by
  intro path r hr
  rw [follow_congr hcell hv] at hr
  exact hv path r hr

theorem Unshared.congr (hcell : ∀ r, lo ≤ r → r < hi → m'.cell r = m.cell r) {v : Value}
    (hv : m.Confined lo hi v) (h : m.Unshared v) : m'.Unshared v := by
  intro path path' r hr hr'
  rw [follow_congr hcell hv] at hr hr'
  exact h path path' r hr hr'

theorem Separate.congr (hcell : ∀ r, lo ≤ r → r < hi → m'.cell r = m.cell r) {v w : Value}
    (hv : m.Confined lo hi v) (hw : m.Confined lo hi w) (h : m.Separate v w) :
    m'.Separate v w := by
  intro path path' r hr hr'
  rw [follow_congr hcell hv] at hr
  rw [follow_congr hcell hw] at hr'
  exact h path path' r hr hr'

theorem Separate.symm {v w : Value} (h : m.Separate v w) : m.Separate w v :=
  fun path path' r hr hr' => h path' path r hr' hr

theorem separate_of_confined {mid : Nat} {v w : Value} (hv : m.Confined lo mid v)
    (hw : m.Confined mid hi w) : m.Separate v w := by
  intro path path' r hr hr'
  have := (hv path r hr).2
  have := (hw path' r hr').1
  omega

end Frame

/-! ## Forests and trees -/

/-- Trees that share nothing, all within the places from `lo` up to `hi`. -/
structure Forest (m : Memory) (lo hi : Nat) (vs : List Value) : Prop where
  confined : ∀ v ∈ vs, m.Confined lo hi v
  unshared : ∀ v ∈ vs, m.Unshared v
  separate : vs.Pairwise m.Separate

theorem Forest.nil (m : Memory) (lo hi : Nat) : m.Forest lo hi [] :=
  ⟨fun _ hv => absurd hv List.not_mem_nil, fun _ hv => absurd hv List.not_mem_nil, .nil⟩

/-- A further tree, within places that come before the others'. -/
theorem Forest.cons {m : Memory} {lo mid hi : Nat} {v : Value} {vs : List Value}
    (hlo : lo ≤ mid) (hhi : mid ≤ hi) (hv : m.Confined lo mid v) (hu : m.Unshared v)
    (h : m.Forest mid hi vs) : m.Forest lo hi (v :: vs) where
  confined := by
    intro w hw
    rcases List.mem_cons.mp hw with rfl | hw
    · exact hv.mono le_rfl hhi
    · exact (h.confined w hw).mono hlo le_rfl
  unshared := by
    intro w hw
    rcases List.mem_cons.mp hw with rfl | hw
    · exact hu
    · exact h.unshared w hw
  separate := List.pairwise_cons.mpr
    ⟨fun w hw => separate_of_confined hv (h.confined w hw), h.separate⟩

theorem edge_mem {c : Cell} {step : Step} {v : Value} (h : c.edge step = some v) :
    (step, v) ∈ c.edges := by
  obtain ⟨l₁, l₂, hl, -⟩ := List.lookup_eq_some_iff.mp h
  rw [hl]
  exact List.mem_append_right _ List.mem_cons_self

theorem Forest.edge {m : Memory} {lo hi : Nat} {c : Cell}
    (h : m.Forest lo hi (c.edges.map Prod.snd)) {step : Step} {v : Value}
    (hv : c.edge step = some v) : m.Confined lo hi v ∧ m.Unshared v :=
  have hmem := List.mem_map_of_mem (f := Prod.snd) (edge_mem hv)
  ⟨h.confined v hmem, h.unshared v hmem⟩

theorem Forest.separate_edges {m : Memory} {lo hi : Nat} {c : Cell}
    (h : m.Forest lo hi (c.edges.map Prod.snd)) {step step' : Step} {v v' : Value}
    (hv : c.edge step = some v) (hv' : c.edge step' = some v') (hne : step ≠ step') :
    m.Separate v v' := by
  have hpair : c.edges.Pairwise fun e e' => m.Separate e.2 e'.2 := List.pairwise_map.mp h.separate
  have hsymm : Std.Symm fun e e' : Step × Value => m.Separate e.2 e'.2 := ⟨fun _ _ hs => hs.symm⟩
  exact hpair.forall (edge_mem hv) (edge_mem hv') fun he => hne (congrArg Prod.fst he)

theorem confined_ref {m : Memory} {r hi : Nat} (hr : r < hi)
    (h : m.Forest (r + 1) hi ((m.cell r).edges.map Prod.snd)) : m.Confined r hi (.ref r) := by
  intro path q hq
  cases path with
  | nil =>
    cases hq
    exact ⟨le_rfl, hr⟩
  | cons step path =>
    obtain ⟨v, hv, hq⟩ := Option.bind_eq_some_iff.mp hq
    obtain ⟨hlo, hhi⟩ := (h.edge hv).1 path q hq
    exact ⟨by omega, hhi⟩

/-- **Theorem (`unshared_ref`).** -/
theorem unshared_ref {m : Memory} {r hi : Nat}
    (h : m.Forest (r + 1) hi ((m.cell r).edges.map Prod.snd)) : m.Unshared (.ref r) := by
  -- A part lies above `r`, so no path through a step comes back to `r` itself.
  have habove : ∀ step path q, m.follow (.ref r) (step :: path) = some (.ref q) → r < q := by
    intro step path q hq
    obtain ⟨v, hv, hq⟩ := Option.bind_eq_some_iff.mp hq
    exact ((h.edge hv).1 path q hq).1
  intro path path' q hq hq'
  cases path with
  | nil =>
    cases path' with
    | nil => rfl
    | cons step' path' =>
      cases hq
      exact absurd (habove step' path' r hq') (lt_irrefl r)
  | cons step path =>
    cases path' with
    | nil =>
      cases hq'
      exact absurd (habove step path r hq) (lt_irrefl r)
    | cons step' path' =>
      obtain ⟨v, hv, hq⟩ := Option.bind_eq_some_iff.mp hq
      obtain ⟨v', hv', hq'⟩ := Option.bind_eq_some_iff.mp hq'
      by_cases hstep : step = step'
      · subst hstep
        obtain rfl : v = v' := Option.some.inj (hv.symm.trans hv')
        rw [(h.edge hv).2 path path' q hq hq']
      · exact absurd hq' (h.separate_edges hv hv' hstep path path' q hq)

/-! ## The trail of a path in a tree -/

theorem trail_ref_cons (m : Memory) (r : Nat) (step : Step) (path : List Step) :
    m.trail (.ref r) (step :: path) =
      r :: (((m.cell r).edge step).map fun v => m.trail v path).getD [] := rfl

theorem Unshared.edge {m : Memory} {r : Nat} (h : m.Unshared (.ref r)) {step : Step} {v : Value}
    (hv : (m.cell r).edge step = some v) : m.Unshared v := by
  intro path path' q hq hq'
  have hcons : ∀ path, m.follow v path = some (.ref q) →
      m.follow (.ref r) (step :: path) = some (.ref q) := by
    intro path hq
    rw [follow_ref_cons, hv]
    exact hq
  exact (List.cons.inj (h _ _ q (hcons path hq) (hcons path' hq'))).2

end Memory

/-! ## Memories without dangling places -/

/-- A place that `v` is, is one of those below `n`. -/
def Value.Below (n : Nat) : Value → Prop
  | prim _ => True
  | ref r => r < n

/-- Every value is a primitive or a place in use, and no object has a key twice. -/
structure Memory.WellFormed (m : Memory) : Prop where
  closed : ∀ r < m.next, ∀ e ∈ (m.cell r).edges, e.2.Below m.next
  distinct : ∀ r < m.next, ((m.cell r).edges.map Prod.fst).Nodup

/-- A value in a memory. -/
structure Graph where
  memory : Memory
  root : Value
  below : root.Below memory.next
  wellFormed : memory.WellFormed

def Graph.follow (g : Graph) (path : List Step) : Option Value := g.memory.follow g.root path

def Graph.view (g : Graph) (path : List Step) : Option Shape := g.memory.view g.root path

def Graph.trail (g : Graph) (path : List Step) : List Nat := g.memory.trail g.root path

theorem Value.Below.mono {v : Value} {n n' : Nat} (h : v.Below n) (hn : n ≤ n') : v.Below n' := by
  cases v with
  | prim p => trivial
  | ref r => exact lt_of_lt_of_le (b := n) h hn

theorem Memory.Confined.below {m : Memory} {lo hi : Nat} {v : Value} (h : m.Confined lo hi v) :
    v.Below hi := by
  cases v with
  | prim p => trivial
  | ref r => exact (h [] r rfl).2

theorem Memory.WellFormed.edge {m : Memory} (h : m.WellFormed) {r : Nat} (hr : r < m.next)
    {step : Step} {v : Value} (hv : (m.cell r).edge step = some v) : v.Below m.next :=
  h.closed r hr _ (Memory.edge_mem hv)

theorem Memory.WellFormed.confined {m : Memory} (h : m.WellFormed) {v : Value}
    (hv : v.Below m.next) : m.Confined 0 m.next v := by
  intro path
  induction path generalizing v with
  | nil =>
    intro r hr
    cases hr
    exact ⟨Nat.zero_le r, hv⟩
  | cons step path ih =>
    intro r hr
    cases v with
    | prim p => cases hr
    | ref q =>
      obtain ⟨w, hw, hr⟩ := Option.bind_eq_some_iff.mp hr
      exact ih (h.edge hv hw) r hr

/-! ## Filling a place -/

namespace Cell

/-- The next element of an array, or a property of an object. -/
def put : Cell → Step → Value → Cell
  | array items, .index _, value => array (items ++ [value])
  | object members, .key key, value => object (setMember members key value)
  | c, _, _ => c

/-- A fresh place of the same kind. -/
def empty : Cell → Cell
  | array _ => array []
  | object _ => object []

@[simp] theorem edges_empty (c : Cell) : c.empty.edges = [] := by cases c <;> rfl

theorem edges_array_snd (items : List Value) : (array items).edges.map Prod.snd = items := by
  simp only [edges, List.map_map]
  exact List.zipIdx_map_fst 0 items

theorem put_object_of_notMem (members : List (JsString × Value)) {key : JsString}
    (hkey : key ∉ members.map Prod.fst) (value : Value) :
    (object members).put (.key key) value = object (members ++ [(key, value)]) := by
  rw [put, setMember, if_neg hkey]

theorem fill_array (items : List Value) {es : List (Step × Value)}
    (h : ∀ e ∈ es, ∃ i, e.1 = .index i) :
    es.foldl (fun c e => c.put e.1 e.2) (array items) = array (items ++ es.map Prod.snd) := by
  induction es generalizing items with
  | nil => simp
  | cons e es ih =>
    obtain ⟨i, hi⟩ := h e List.mem_cons_self
    rw [List.foldl_cons, hi, put, ih _ fun e he => h e (List.mem_cons_of_mem _ he)]
    simp

theorem fill_object (members es : List (JsString × Value))
    (h : ((members ++ es).map Prod.fst).Nodup) :
    (es.map fun e => (Step.key e.1, e.2)).foldl (fun c e => c.put e.1 e.2) (object members) =
      object (members ++ es) := by
  induction es generalizing members with
  | nil => simp
  | cons e es ih =>
    have hkey : e.1 ∉ members.map Prod.fst := by
      rw [List.map_append, List.nodup_append] at h
      exact fun hmem => h.2.2 _ hmem _ (List.mem_map_of_mem List.mem_cons_self) rfl
    have happ : members ++ [(e.1, e.2)] ++ es = members ++ e :: es := by simp
    rw [List.map_cons, List.foldl_cons, put_object_of_notMem _ hkey, ih _ (happ ▸ h), happ]

theorem exists_of_map_fst {es : List (Step × Value)} {keys : List JsString}
    (h : es.map Prod.fst = keys.map .key) :
    ∃ members : List (JsString × Value), members.map Prod.fst = keys ∧
      es = members.map fun e => (.key e.1, e.2) := by
  induction es generalizing keys with
  | nil =>
    cases keys with
    | nil => exact ⟨[], rfl, rfl⟩
    | cons key keys => cases h
  | cons e es ih =>
    obtain ⟨step, value⟩ := e
    cases keys with
    | nil => cases h
    | cons key keys =>
      obtain ⟨hstep, htail⟩ := List.cons.inj h
      obtain rfl : step = .key key := hstep
      obtain ⟨members, hkeys, rfl⟩ := ih htail
      exact ⟨(key, value) :: members, by rw [List.map_cons, hkeys], rfl⟩

/-- Filled step by step along the steps of `c`, a fresh place has the shape of `c` and the values
that were put. -/
theorem fill_empty {c : Cell} (hc : (c.edges.map Prod.fst).Nodup) {es : List (Step × Value)}
    (hes : es.map Prod.fst = c.edges.map Prod.fst) :
    (es.foldl (fun d e => d.put e.1 e.2) c.empty).edges = es ∧
      (es.foldl (fun d e => d.put e.1 e.2) c.empty).shape = c.shape := by
  have hlen : es.length = c.edges.length := by
    simpa only [List.length_map] using congrArg List.length hes
  rw [map_fst_edges] at hes hc
  cases c with
  | array items =>
    have hindex : ∀ e ∈ es, ∃ i, e.1 = .index i := by
      intro e he
      have hmem : e.1 ∈ es.map Prod.fst := List.mem_map_of_mem he
      rw [hes] at hmem
      obtain ⟨i, -, hi⟩ := List.mem_map.mp hmem
      exact ⟨i, hi.symm⟩
    have hitems : (es.map Prod.snd).length = items.length := by
      rw [List.length_map, hlen]
      simp [edges]
    rw [empty, fill_array [] hindex, List.nil_append]
    refine ⟨?_, by rw [shape, shape, hitems]⟩
    have hfst : (array (es.map Prod.snd)).edges.map Prod.fst = es.map Prod.fst := by
      rw [map_fst_edges, hes, shape, shape, hitems]
    rw [List.zip_of_prod hfst (edges_array_snd _), ← List.zip_of_prod rfl rfl]
  | object members =>
    obtain ⟨members', hkeys, rfl⟩ := exists_of_map_fst hes
    have hnodup : (members'.map Prod.fst).Nodup := hkeys ▸ hc.of_map _
    rw [empty, fill_object [] members' (by simpa using hnodup), List.nil_append]
    refine ⟨rfl, ?_⟩
    rw [shape, shape, hkeys]

theorem mem_edges_put {c : Cell} {step : Step} {value : Value} {e : Step × Value}
    (h : e ∈ (c.put step value).edges) : e.2 = value ∨ ∃ e' ∈ c.edges, e'.2 = e.2 := by
  cases c with
  | array items =>
    cases step with
    | key key => exact .inr ⟨e, h, rfl⟩
    | index i =>
      have hmem : e.2 ∈ items ++ [value] := by
        rw [← edges_array_snd (items ++ [value])]
        exact List.mem_map_of_mem h
      rcases List.mem_append.mp hmem with hold | hnew
      · rw [← edges_array_snd items] at hold
        obtain ⟨e', he', heq⟩ := List.mem_map.mp hold
        exact .inr ⟨e', he', heq⟩
      · exact .inl (List.mem_singleton.mp hnew)
  | object members =>
    cases step with
    | index i => exact .inr ⟨e, h, rfl⟩
    | key key =>
      obtain ⟨m, hm, rfl⟩ := List.mem_map.mp h
      have hold : m ∈ members → ∃ e' ∈ (object members).edges, e'.2 = m.2 := fun hm =>
        ⟨_, List.mem_map_of_mem hm, rfl⟩
      unfold setMember at hm
      split at hm
      · obtain ⟨m', hm', rfl⟩ := List.mem_map.mp hm
        by_cases hkey : m'.1 = key
        · exact .inl (by simp [hkey])
        · rw [if_neg hkey] at hold ⊢
          exact .inr (hold hm')
      · rcases List.mem_append.mp hm with hm | hm
        · exact .inr (hold hm)
        · obtain rfl := List.mem_singleton.mp hm
          exact .inl rfl

theorem nodup_keys_setMember {members : List (JsString × Value)} (key : JsString) (value : Value)
    (h : (members.map Prod.fst).Nodup) : ((setMember members key value).map Prod.fst).Nodup := by
  unfold setMember
  split
  · have hfst : (members.map fun e => if e.1 = key then (key, value) else e).map Prod.fst =
        members.map Prod.fst := by
      rw [List.map_map]
      apply List.map_congr_left
      intro e _
      by_cases he : e.1 = key
      · simp [he]
      · simp [he]
    rwa [hfst]
  · rename_i hkey
    rw [List.map_append, List.map_singleton, List.nodup_append]
    refine ⟨h, List.nodup_singleton _, fun k hk k' hk' heq => hkey ?_⟩
    obtain rfl : k' = key := List.mem_singleton.mp hk'
    exact heq ▸ hk

theorem nodup_put {c : Cell} (h : (c.edges.map Prod.fst).Nodup) (step : Step) (value : Value) :
    ((c.put step value).edges.map Prod.fst).Nodup := by
  cases c with
  | array items =>
    have harray : ∀ items, ((array items).edges.map Prod.fst).Nodup := fun items => by
      rw [map_fst_edges]
      exact List.nodup_range.map fun i j hij => Step.index.inj hij
    cases step with
    | key key => exact h
    | index i => exact harray _
  | object members =>
    cases step with
    | index i => exact h
    | key key =>
      have hkeys : (members.map Prod.fst).Nodup := by
        rw [map_fst_edges] at h
        exact h.of_map _
      rw [map_fst_edges]
      exact (nodup_keys_setMember key value hkeys).map fun i j hij => Step.key.inj hij

end Cell

namespace Memory

/-- What is at `r`, with one more value. -/
def put (m : Memory) (r : Nat) (step : Step) (value : Value) : Memory :=
  m.write r ((m.cell r).put step value)

@[simp] theorem next_put (m : Memory) (r : Nat) (step : Step) (value : Value) :
    (m.put r step value).next = m.next := rfl

@[simp] theorem cell_put_self (m : Memory) (r : Nat) (step : Step) (value : Value) :
    (m.put r step value).cell r = (m.cell r).put step value := cell_write_self ..

theorem cell_put_of_ne (m : Memory) {q : Nat} (step : Step) (value : Value) {r : Nat}
    (hr : r ≠ q) : (m.put q step value).cell r = m.cell r := cell_write_of_ne _ _ hr

theorem WellFormed.alloc_empty {m : Memory} (h : m.WellFormed) (c : Cell) :
    (m.alloc c.empty).WellFormed where
  closed := by
    intro r hr e he
    rw [next_alloc] at hr ⊢
    rcases Nat.lt_succ_iff_lt_or_eq.mp hr with hr | rfl
    · rw [cell_alloc_of_ne _ _ hr.ne] at he
      exact (h.closed r hr e he).mono (Nat.le_succ _)
    · rw [cell_alloc_next, Cell.edges_empty] at he
      cases he
  distinct := by
    intro r hr
    rw [next_alloc] at hr
    rcases Nat.lt_succ_iff_lt_or_eq.mp hr with hr | rfl
    · rw [cell_alloc_of_ne _ _ hr.ne]
      exact h.distinct r hr
    · rw [cell_alloc_next, Cell.edges_empty]
      exact .nil

theorem WellFormed.put {m : Memory} (h : m.WellFormed) (r : Nat) (step : Step) {value : Value}
    (hvalue : value.Below m.next) : (m.put r step value).WellFormed where
  closed := by
    intro q hq e he
    by_cases hqr : q = r
    · subst hqr
      rw [cell_put_self] at he
      rcases Cell.mem_edges_put he with heq | ⟨e', he', heq⟩
      · exact heq ▸ hvalue
      · exact heq ▸ h.closed q hq e' he'
    · rw [cell_put_of_ne _ _ _ hqr] at he
      exact h.closed q hq e he
  distinct := by
    intro q hq
    by_cases hqr : q = r
    · subst hqr
      rw [cell_put_self]
      exact Cell.nodup_put (h.distinct q hq) step value
    · rw [cell_put_of_ne _ _ _ hqr]
      exact h.distinct q hq

end Memory

end Js.Heap
