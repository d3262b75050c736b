import Mathlib.Data.List.Basic
import Mathlib.Logic.Function.Basic

/-!
# Programs that interact with an environment

A program either has its result or performs an operation and goes on with the response.
Everything the environment may answer is a branch of the tree, so a statement about all
branches is a statement about every behaviour of the environment.

**Programs** (`Prog`). `done a` is the result `a`; `call i k` performs the operation `i`, whose
responses have the type `ρ i`, and continues with `k`. Programs are well founded: a loop of the
modelled code is a recursion of its embedding.

**Flows** (`Flow`). A program that may also fail, as an `async` function may reject: the result
is an `Except`. The `do` notation, `throw` and `try`/`catch` are those of `ExceptT`.

**Histories** (`Runs`). `Runs p h q`: performing the operations of `h` with the responses that
`h` records, `p` has become `q`. A prefix of a run is a run, so `Runs` speaks about programs
that have not finished, and about those that never will.

**Handlers** (`run`). An environment that answers from everything performed so far; a program
run under one always finishes.
-/

namespace Interaction

/-- A program over the operations `ι`, whose responses are given by `ρ`. -/
inductive Prog (ι : Type) (ρ : ι → Type) (α : Type) where
  | done (a : α)
  | call (i : ι) (k : ρ i → Prog ι ρ α)

/-- An operation performed, with the response it got. -/
abbrev Event (ι : Type) (ρ : ι → Type) := (i : ι) × ρ i

variable {ι : Type} {ρ : ι → Type} {ε α β γ : Type}

/-- A sequence that returned: both parts returned. -/
theorem except_bind_eq_ok {x : Except ε α} {f : α → Except ε β} {b : β} :
    x >>= f = .ok b ↔ ∃ a, x = .ok a ∧ f a = .ok b := by
  cases x with
  | error e =>
    constructor
    · intro h
      cases h
    · rintro ⟨a, ha, -⟩
      cases ha
  | ok a =>
    constructor
    · intro h
      exact ⟨a, rfl, h⟩
    · rintro ⟨a', ha, h⟩
      cases ha
      exact h

/-- A list whose head and tail are computed one after the other. -/
theorem except_cons_eq_ok {x : Except ε α} {y : Except ε (List α)} {l : List α} :
    (do let a ← x; let as ← y; return a :: as) = .ok l ↔
      ∃ a as, x = .ok a ∧ y = .ok as ∧ l = a :: as := by
  constructor
  · intro h
    obtain ⟨a, ha, h⟩ := except_bind_eq_ok.mp h
    obtain ⟨as, has, h⟩ := except_bind_eq_ok.mp h
    cases h
    exact ⟨a, as, ha, has, rfl⟩
  · rintro ⟨a, as, rfl, rfl, rfl⟩
    rfl

namespace Prog

/-- Go on with `f` once the program has its result. -/
def bind : Prog ι ρ α → (α → Prog ι ρ β) → Prog ι ρ β
  | done a, f => f a
  | call i k, f => call i fun r => (k r).bind f

/-- Perform one operation and return its response. -/
def await (i : ι) : Prog ι ρ (ρ i) := call i done

instance : Monad (Prog ι ρ) where
  pure := done
  bind := bind

@[simp] theorem done_bind (a : α) (f : α → Prog ι ρ β) : (done a).bind f = f a := rfl

@[simp] theorem call_bind (i : ι) (k : ρ i → Prog ι ρ α) (f : α → Prog ι ρ β) :
    (call i k).bind f = call i fun r => (k r).bind f := rfl

@[simp] theorem pure_eq (a : α) : (pure a : Prog ι ρ α) = done a := rfl

@[simp] theorem bind_eq (p : Prog ι ρ α) (f : α → Prog ι ρ β) : p >>= f = p.bind f := rfl

end Prog

/-! ## Flows -/

/-- A program that may fail with an `ε`. -/
abbrev Flow (ι : Type) (ρ : ι → Type) (ε α : Type) := ExceptT ε (Prog ι ρ) α

namespace Flow

/-- What follows a flow: `f` on a result, nothing on a failure. -/
def onOk (f : α → Flow ι ρ ε β) : Except ε α → Prog ι ρ (Except ε β)
  | .ok a => f a
  | .error e => .done (.error e)

/-- What follows a `try`: nothing on a result, the handler on a failure. -/
def onError (f : ε → Flow ι ρ ε α) : Except ε α → Prog ι ρ (Except ε α)
  | .ok a => .done (.ok a)
  | .error e => f e

theorem bind_eq (p : Flow ι ρ ε α) (f : α → Flow ι ρ ε β) :
    (p >>= f : Flow ι ρ ε β) = Prog.bind p (onOk f) := by
  refine congrArg (Prog.bind p) (funext fun r => ?_)
  cases r <;> rfl

theorem tryCatch_eq (p : Flow ι ρ ε α) (f : ε → Flow ι ρ ε α) :
    (tryCatch p f : Flow ι ρ ε α) = Prog.bind p (onError f) := by
  refine congrArg (Prog.bind p) (funext fun r => ?_)
  cases r <;> rfl

/-- A result that is already there. -/
def ofExcept (r : Except ε α) : Flow ι ρ ε α := Prog.done r

theorem ofExcept_ok_bind (a : α) (f : α → Flow ι ρ ε β) :
    (ofExcept (.ok a) >>= f : Flow ι ρ ε β) = f a := rfl

/-- `try … finally`: the second flow follows the first one in any case. -/
def tryFinally (p : Flow ι ρ ε α) (f : Flow ι ρ ε β) : Flow ι ρ ε α :=
  Prog.bind p fun r => Prog.bind f (onOk fun _ => ofExcept r)

/-- Perform an operation that cannot fail. -/
def perform (i : ι) : Flow ι ρ ε (ρ i) := .call i fun r => .done (.ok r)

end Flow

/-! ## Histories -/

/-- `Runs p h q`: after performing `h`, the program `p` has become `q`. -/
inductive Runs : Prog ι ρ α → List (Event ι ρ) → Prog ι ρ α → Prop
  | nil (p : Prog ι ρ α) : Runs p [] p
  | cons {i : ι} {k : ρ i → Prog ι ρ α} {r : ρ i} {h : List (Event ι ρ)} {q : Prog ι ρ α} :
      Runs (k r) h q → Runs (.call i k) (⟨i, r⟩ :: h) q

namespace Runs

theorem done_inv {a : α} {h : List (Event ι ρ)} {q : Prog ι ρ α}
    (hr : Runs (.done a) h q) : h = [] ∧ q = .done a := by
  cases hr
  exact ⟨rfl, rfl⟩

theorem done_eq {a b : α} {h : List (Event ι ρ)}
    (hr : Runs (.done a : Prog ι ρ α) h (.done b)) : h = [] ∧ b = a := by
  cases hr
  exact ⟨rfl, rfl⟩

theorem call_inv {i : ι} {k : ρ i → Prog ι ρ α} {h : List (Event ι ρ)} {q : Prog ι ρ α}
    (hr : Runs (.call i k) h q) :
    (h = [] ∧ q = .call i k) ∨ ∃ r h', h = ⟨i, r⟩ :: h' ∧ Runs (k r) h' q := by
  cases hr with
  | nil => exact Or.inl ⟨rfl, rfl⟩
  | cons hr => exact Or.inr ⟨_, _, rfl, hr⟩

theorem append {p q s : Prog ι ρ α} {h₁ h₂ : List (Event ι ρ)} (hp : Runs p h₁ q)
    (hq : Runs q h₂ s) : Runs p (h₁ ++ h₂) s := by
  induction hp with
  | nil => exact hq
  | cons _ ih => exact .cons (ih hq)

theorem bind_left {p q : Prog ι ρ α} {h : List (Event ι ρ)} (f : α → Prog ι ρ β)
    (hp : Runs p h q) : Runs (p.bind f) h (q.bind f) := by
  induction hp with
  | nil p => exact .nil _
  | cons _ ih => exact .cons ih

/-- **A run of a sequence** is a run of its first part that has not finished, or a finished run
of it followed by a run of the rest. -/
theorem bind_inv {p : Prog ι ρ α} {f : α → Prog ι ρ β} {h : List (Event ι ρ)} {q : Prog ι ρ β}
    (hr : Runs (p.bind f) h q) :
    (∃ p', Runs p h p' ∧ q = p'.bind f) ∨
      ∃ a h₁ h₂, h = h₁ ++ h₂ ∧ Runs p h₁ (.done a) ∧ Runs (f a) h₂ q := by
  induction p generalizing h with
  | done a => exact Or.inr ⟨a, [], h, rfl, .nil _, hr⟩
  | call i k ih =>
    rcases call_inv hr with ⟨rfl, rfl⟩ | ⟨r, h', rfl, hr'⟩
    · exact Or.inl ⟨.call i k, .nil _, rfl⟩
    · rcases ih r hr' with ⟨p', hp', rfl⟩ | ⟨a, h₁, h₂, rfl, hp, hf⟩
      · exact Or.inl ⟨p', .cons hp', rfl⟩
      · exact Or.inr ⟨a, ⟨i, r⟩ :: h₁, h₂, rfl, .cons hp, hf⟩

/-- A finished run of a sequence is a finished run of each part. -/
theorem bind_done_inv {p : Prog ι ρ α} {f : α → Prog ι ρ β} {h : List (Event ι ρ)} {b : β}
    (hr : Runs (p.bind f) h (.done b)) :
    ∃ a h₁ h₂, h = h₁ ++ h₂ ∧ Runs p h₁ (.done a) ∧ Runs (f a) h₂ (.done b) := by
  rcases bind_inv hr with ⟨p', hp', hq⟩ | h'
  · cases p' with
    | done a => exact ⟨a, h, [], by simp, hp', by rw [hq]; exact .nil _⟩
    | call i k => cases hq
  · exact h'

/-- A flow that returned, and then the rest of the sequence. -/
theorem bind_ok {x : Flow ι ρ ε α} {f : α → Flow ι ρ ε β} {a : α} {h₁ h₂ : List (Event ι ρ)}
    {q : Flow ι ρ ε β} (hx : Runs x h₁ (.done (.ok a))) (hf : Runs (f a) h₂ q) :
    Runs (x >>= f : Flow ι ρ ε β) (h₁ ++ h₂) q := by
  rw [Flow.bind_eq]
  exact (hx.bind_left (Flow.onOk f)).append hf

theorem perform_done_inv {i : ι} {h : List (Event ι ρ)} {b : Except ε (ρ i)}
    (hr : Runs (Flow.perform i : Flow ι ρ ε (ρ i)) h (.done b)) :
    ∃ r, h = [⟨i, r⟩] ∧ b = .ok r := by
  rcases call_inv hr with ⟨-, hq⟩ | ⟨r, h', rfl, hr'⟩
  · cases hq
  · obtain ⟨rfl, rfl⟩ := done_eq hr'
    exact ⟨r, rfl, rfl⟩

theorem await_done_inv {i : ι} {h : List (Event ι ρ)} {a : ρ i}
    (hr : Runs (.call i Prog.done : Prog ι ρ (ρ i)) h (.done a)) : h = [⟨i, a⟩] := by
  rcases call_inv hr with ⟨-, hq⟩ | ⟨r, h', rfl, hr'⟩
  · cases hq
  · obtain ⟨rfl, rfl⟩ := done_eq hr'
    rfl

/-- A finished run of a `try … finally` finished both flows; where the second one returned, the
outcome is that of the first. -/
theorem tryFinally_done_inv {x : Flow ι ρ ε α} {y : Flow ι ρ ε β} {h : List (Event ι ρ)}
    {r : Except ε α} (hr : Runs (Flow.tryFinally x y) h (.done r)) :
    ∃ a b h₁ h₂, h = h₁ ++ h₂ ∧ Runs x h₁ (.done a) ∧ Runs y h₂ (.done b) ∧
      ∀ c, b = .ok c → r = a := by
  obtain ⟨a, h₁, h₂, rfl, hx, hr⟩ := hr.bind_done_inv
  obtain ⟨b, h₃, h₄, rfl, hy, hr⟩ := hr.bind_done_inv
  cases b with
  | ok c =>
    obtain ⟨rfl, rfl⟩ := done_eq hr
    exact ⟨_, .ok c, h₁, h₃, by rw [List.append_nil], hx, hy, fun _ _ => rfl⟩
  | error e =>
    obtain ⟨rfl, -⟩ := done_eq hr
    exact ⟨_, .error e, h₁, h₃, by rw [List.append_nil], hx, hy, fun _ hc => by cases hc⟩

/-- Two runs of one program along one history end in the same place. -/
theorem det {p q q' : Prog ι ρ α} {h : List (Event ι ρ)} (h₁ : Runs p h q) (h₂ : Runs p h q') :
    q = q' := by
  induction h₁ with
  | nil => cases h₂; rfl
  | cons _ ih => cases h₂ with | cons h₂ => exact ih h₂

/-- A run that has performed `h₁ ++ h₂` had performed `h₁`. -/
theorem split {p q : Prog ι ρ α} {h₁ h₂ : List (Event ι ρ)} (hr : Runs p (h₁ ++ h₂) q) :
    ∃ s, Runs p h₁ s ∧ Runs s h₂ q := by
  induction h₁ generalizing p with
  | nil => exact ⟨p, .nil _, hr⟩
  | cons e h₁ ih =>
    cases hr with
    | cons hr =>
      obtain ⟨s, hs, hq⟩ := ih hr
      exact ⟨s, .cons hs, hq⟩

end Runs

/-! ## Handlers -/

/-- An environment: the response to an operation, given everything performed before. -/
abbrev Handler (ι : Type) (ρ : ι → Type) := List (Event ι ρ) → (i : ι) → ρ i

/-- Run a program under an environment, from the history `h`. -/
def run (env : Handler ι ρ) (h : List (Event ι ρ)) : Prog ι ρ α → List (Event ι ρ) × α
  | .done a => (h, a)
  | .call i k => run env (h ++ [⟨i, env h i⟩]) (k (env h i))

section Handlers

variable (env : Handler ι ρ)

@[simp] theorem run_done (h : List (Event ι ρ)) (a : α) : run env h (.done a) = (h, a) := rfl

@[simp] theorem run_call (h : List (Event ι ρ)) (i : ι) (k : ρ i → Prog ι ρ α) :
    run env h (.call i k) = run env (h ++ [⟨i, env h i⟩]) (k (env h i)) := rfl

/-- **A run under a handler is one of the program's runs**, and it finishes. -/
theorem runs_run (h : List (Event ι ρ)) (p : Prog ι ρ α) :
    ∃ h', (run env h p).1 = h ++ h' ∧ Runs p h' (.done (run env h p).2) := by
  induction p generalizing h with
  | done a => exact ⟨[], by simp, .nil _⟩
  | call i k ih =>
    obtain ⟨h', hh, hr⟩ := ih (env h i) (h ++ [⟨i, env h i⟩])
    exact ⟨⟨i, env h i⟩ :: h', by simp [hh], .cons hr⟩

/-- Every response in a run under a handler is the handler's answer to what came before. -/
theorem run_answers (h : List (Event ι ρ)) (p : Prog ι ρ α) {h₁ h₂ : List (Event ι ρ)}
    {e : Event ι ρ} (hrun : (run env h p).1 = h₁ ++ e :: h₂) (hlen : h.length ≤ h₁.length) :
    e.2 = env h₁ e.1 := by
  induction p generalizing h with
  | done a =>
    rw [run_done] at hrun
    have := congrArg List.length hrun
    simp only [List.length_append, List.length_cons] at this
    omega
  | call i k ih =>
    rw [run_call] at hrun
    by_cases hle : h.length + 1 ≤ h₁.length
    · exact ih (env h i) _ hrun (by simpa using hle)
    · obtain ⟨h', hh, -⟩ := runs_run env (h ++ [(⟨i, env h i⟩ : Event ι ρ)]) (k (env h i))
      rw [hh, List.append_assoc] at hrun
      have hl : h.length = h₁.length := by omega
      obtain ⟨rfl, hr⟩ := List.append_inj hrun hl
      rw [List.singleton_append, List.cons.injEq] at hr
      rw [← hr.1]

end Handlers

/-- Where every operation has some response, every program can be run to its end. -/
theorem exists_finish [∀ i, Nonempty (ρ i)] (p : Prog ι ρ α) :
    ∃ h a, Runs p h (.done a) := by
  induction p with
  | done a => exact ⟨[], a, .nil _⟩
  | call i k ih =>
    obtain ⟨r⟩ := (inferInstance : Nonempty (ρ i))
    obtain ⟨h, a, hr⟩ := ih r
    exact ⟨⟨i, r⟩ :: h, a, .cons hr⟩

end Interaction
