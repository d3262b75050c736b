import Mathlib.Data.List.Basic
import Posta.Interaction.Logic

/-!
# Programs on one event loop

Many programs share one world, and each of them runs without interruption until it awaits
something. The response to an operation that is awaited comes at any later time, or never.

**Loops** (`EventLoop`). Which operations are awaited, what the others do at once (`exec`), and
what it means for the world that an awaited one is issued (`issue`).

**Bursts** (`Burst`). What a program performs from one rest to the next.

**Theorem (`Reachable.invariant`).** A property of the world and one of each program with its
past hold in every state, if one burst keeps them: from a start, and from a response on.
-/

namespace Interaction

structure EventLoop (ι : Type) (ρ : ι → Type) (W : Type) where
  awaited : ι → Bool
  exec : (i : ι) → W → ρ i → W → Prop
  issue : ι → W → W

/-- What a program has performed, and the rest of it. -/
structure Task (ι : Type) (ρ : ι → Type) (α : Type) where
  past : List (Event ι ρ)
  rest : Prog ι ρ α

structure LoopState (ι : Type) (ρ : ι → Type) (α W : Type) where
  world : W
  tasks : List (Task ι ρ α)

/-- The operation a program performs next. -/
def Prog.next {ι : Type} {ρ : ι → Type} {α : Type} : Prog ι ρ α → Option ι
  | .done _ => none
  | .call i _ => some i

namespace EventLoop

variable {ι : Type} {ρ : ι → Type} {α W : Type}

/-- A program from the world it starts in to its next rest, with what it performs meanwhile. -/
inductive Burst (L : EventLoop ι ρ W) :
    Prog ι ρ α → W → List (Event ι ρ) → Prog ι ρ α → W → Prop
  | done (a : α) (w : W) : Burst L (.done a) w [] (.done a) w
  | await {i : ι} (k : ρ i → Prog ι ρ α) (w : W) (hi : L.awaited i = true) :
      Burst L (.call i k) w [] (.call i k) (L.issue i w)
  | sync {i : ι} {k : ρ i → Prog ι ρ α} {w w' w'' : W} {r : ρ i} {h : List (Event ι ρ)}
      {q : Prog ι ρ α} (hi : L.awaited i = false) (hexec : L.exec i w r w')
      (hrest : Burst L (k r) w' h q w'') : Burst L (.call i k) w (⟨i, r⟩ :: h) q w''

/-- A program is started, or an awaited operation settles. -/
inductive Step (L : EventLoop ι ρ W) (starts : Prog ι ρ α → Prop) :
    LoopState ι ρ α W → LoopState ι ρ α W → Prop
  | start {s : LoopState ι ρ α W} {p q : Prog ι ρ α} {h : List (Event ι ρ)} {w : W}
      (hp : starts p) (hburst : L.Burst p s.world h q w) : Step L starts s ⟨w, s.tasks ++ [⟨h, q⟩]⟩
  | settle {s : LoopState ι ρ α W} {n : Nat} {t : Task ι ρ α} {i : ι} {k : ρ i → Prog ι ρ α}
      {q : Prog ι ρ α} {h : List (Event ι ρ)} {w : W} (ht : s.tasks[n]? = some t)
      (hrest : t.rest = .call i k) (r : ρ i) (hburst : L.Burst (k r) s.world h q w) :
      Step L starts s ⟨w, s.tasks.set n ⟨t.past ++ ⟨i, r⟩ :: h, q⟩⟩

def Reachable (L : EventLoop ι ρ W) (starts : Prog ι ρ α → Prop) (w : W)
    (s : LoopState ι ρ α W) : Prop :=
  Relation.ReflTransGen (Step L starts) ⟨w, []⟩ s

variable {L : EventLoop ι ρ W} {starts : Prog ι ρ α → Prop}

theorem Burst.done_inv {a : α} {w w' : W} {h : List (Event ι ρ)} {q : Prog ι ρ α}
    (hb : L.Burst (.done a) w h q w') : h = [] ∧ q = .done a ∧ w' = w := by
  cases hb
  exact ⟨rfl, rfl, rfl⟩

theorem Burst.await_inv {i : ι} {k : ρ i → Prog ι ρ α} {w w' : W} {h : List (Event ι ρ)}
    {q : Prog ι ρ α} (hi : L.awaited i = true) (hb : L.Burst (.call i k) w h q w') :
    h = [] ∧ q = .call i k ∧ w' = L.issue i w := by
  cases hb with
  | await => exact ⟨rfl, rfl, rfl⟩
  | sync hi' => rw [hi] at hi'; cases hi'

theorem Burst.sync_inv {i : ι} {k : ρ i → Prog ι ρ α} {w w' : W} {h : List (Event ι ρ)}
    {q : Prog ι ρ α} (hi : L.awaited i = false) (hb : L.Burst (.call i k) w h q w') :
    ∃ r v h', h = ⟨i, r⟩ :: h' ∧ L.exec i w r v ∧ L.Burst (k r) v h' q w' := by
  cases hb with
  | await _ _ hi' => rw [hi] at hi'; cases hi'
  | sync _ hexec hrest => exact ⟨_, _, _, rfl, hexec, hrest⟩

/-- `I` of the world, and `T` of every program with its past. -/
def Everywhere (I : W → Prop) (T : List (Event ι ρ) → Prog ι ρ α → Prop)
    (s : LoopState ι ρ α W) : Prop :=
  I s.world ∧ ∀ t ∈ s.tasks, T t.past t.rest

/-- **Theorem (`Reachable.invariant`).** -/
theorem Reachable.invariant {I : W → Prop} {T : List (Event ι ρ) → Prog ι ρ α → Prop} {w₀ : W}
    (hinit : I w₀)
    (hstart : ∀ p w h q w', starts p → I w → L.Burst p w h q w' → T h q ∧ I w')
    (hsettle : ∀ past i k r w h q w', T past (.call i k) → I w → L.Burst (k r) w h q w' →
      T (past ++ ⟨i, r⟩ :: h) q ∧ I w')
    {s : LoopState ι ρ α W} (hs : L.Reachable starts w₀ s) :
    Everywhere I T s := by
  have hstep : ∀ s s' : LoopState ι ρ α W, Step L starts s s' → Everywhere I T s →
      Everywhere I T s' := by
    intro s s' h ⟨hI, hT⟩
    cases h with
    | @start p q h w hp hb =>
      obtain ⟨ht, hw⟩ := hstart _ _ _ _ _ hp hI hb
      refine ⟨hw, fun t htmem => ?_⟩
      obtain hold | hnew := List.mem_append.mp htmem
      · exact hT t hold
      · rw [List.mem_singleton] at hnew
        exact hnew ▸ ht
    | @settle n t i k q h w hmem hrest r hb =>
      have htT := hT t (List.mem_of_getElem? hmem)
      rw [hrest] at htT
      obtain ⟨ht, hw⟩ := hsettle _ _ _ r _ _ _ _ htT hI hb
      refine ⟨hw, fun u hu => ?_⟩
      obtain hold | hnew := List.mem_or_eq_of_mem_set hu
      · exact hT u hold
      · exact hnew ▸ ht
  have hempty : Everywhere I T (⟨w₀, []⟩ : LoopState ι ρ α W) := ⟨hinit, by simp⟩
  exact invariant_of_steps hstep hs hempty

end EventLoop

end Interaction
