import Posta.Interaction.Prog

/-!
# Two runs of programs

Whether an observer can tell two programs apart is a question about pairs of runs. What the
observer sees of an operation and its response is a relation between events.

**Following** (`Prog.Follows`). `q` follows `p`: whatever `p` is answered, `q` performs an operation
that looks alike and may be answered so that it does, and from there on it follows `p` again; where
`p` has its result, `q` has one that is related to it.

**Theorem (`Follows.runs`).** Every run of a program has a run of the program that follows it that
looks alike, event by event.
-/

namespace Interaction

variable {ι : Type} {ρ : ι → Type} {ε α β α' β' : Type}

/-- Whatever `p` is answered, `q` may be answered alike, and goes on to follow `p`. -/
def Prog.Follows (T : Event ι ρ → Event ι ρ → Prop) (Q : α → α' → Prop) :
    Prog ι ρ α → Prog ι ρ α' → Prop
  | .done a, .done b => Q a b
  | .call i k, .call j l =>
    (∀ r, ∃ s, T ⟨i, r⟩ ⟨j, s⟩) ∧ ∀ r s, T ⟨i, r⟩ ⟨j, s⟩ → (k r).Follows T Q (l s)
  | _, _ => False

/-- Results that are both errors, or related. -/
def Flow.Agree (Q : α → α' → Prop) (R : ε → ε → Prop) : Except ε α → Except ε α' → Prop
  | .ok a, .ok b => Q a b
  | .error d, .error e => R d e
  | _, _ => False

namespace Prog.Follows

variable {T : Event ι ρ → Event ι ρ → Prop} {Q : α → α' → Prop}

theorem mono {Q' : α → α' → Prop} {p : Prog ι ρ α} {q : Prog ι ρ α'} (h : p.Follows T Q q)
    (hQ : ∀ a b, Q a b → Q' a b) : p.Follows T Q' q := by
  induction p generalizing q with
  | done a =>
    cases q with
    | done b => exact hQ a b h
    | call j l => exact h.elim
  | call i k ih =>
    cases q with
    | done b => exact h.elim
    | call j l => exact ⟨h.1, fun r s hrs => ih r (h.2 r s hrs)⟩

theorem bind {S : β → β' → Prop} {p : Prog ι ρ α} {q : Prog ι ρ α'} {f : α → Prog ι ρ β}
    {g : α' → Prog ι ρ β'} (h : p.Follows T Q q)
    (hfg : ∀ a b, Q a b → (f a).Follows T S (g b)) : (p.bind f).Follows T S (q.bind g) := by
  induction p generalizing q with
  | done a =>
    cases q with
    | done b => exact hfg a b h
    | call j l => exact h.elim
  | call i k ih =>
    cases q with
    | done b => exact h.elim
    | call j l => exact ⟨h.1, fun r s hrs => ih r (h.2 r s hrs)⟩

/-- A program follows itself where what is seen of a response tells the response. -/
theorem refl (hT : ∀ e, T e e) (hinj : ∀ i r s, T ⟨i, r⟩ ⟨i, s⟩ → r = s) (p : Prog ι ρ α) :
    p.Follows T Eq p := by
  induction p with
  | done a => rfl
  | call i k ih =>
    refine ⟨fun r => ⟨r, hT _⟩, fun r s hrs => ?_⟩
    rw [← hinj i r s hrs]
    exact ih r

variable {R : ε → ε → Prop} {S : β → β' → Prop}

theorem flow_bind {x : Flow ι ρ ε α} {y : Flow ι ρ ε α'} {f : α → Flow ι ρ ε β}
    {g : α' → Flow ι ρ ε β'} (h : Prog.Follows T (Flow.Agree Q R) x y)
    (hfg : ∀ a b, Q a b → Prog.Follows T (Flow.Agree S R) (f a) (g b)) :
    Prog.Follows T (Flow.Agree S R) (x >>= f : Flow ι ρ ε β) (y >>= g : Flow ι ρ ε β') := by
  rw [Flow.bind_eq, Flow.bind_eq]
  refine h.bind fun a b hab => ?_
  rcases a with d | a <;> rcases b with e | b
  · exact hab
  · exact hab.elim
  · exact hab.elim
  · exact hfg a b hab

theorem flow_tryCatch {R' : ε → ε → Prop} {x : Flow ι ρ ε α} {y : Flow ι ρ ε α'}
    {f : ε → Flow ι ρ ε α} {g : ε → Flow ι ρ ε α'} (h : Prog.Follows T (Flow.Agree Q R) x y)
    (hfg : ∀ d e, R d e → Prog.Follows T (Flow.Agree Q R') (f d) (g e)) :
    Prog.Follows T (Flow.Agree Q R') (tryCatch x f : Flow ι ρ ε α)
      (tryCatch y g : Flow ι ρ ε α') := by
  rw [Flow.tryCatch_eq, Flow.tryCatch_eq]
  refine h.bind fun a b hab => ?_
  rcases a with d | a <;> rcases b with e | b
  · exact hfg d e hab
  · exact hab.elim
  · exact hab.elim
  · exact hab

/-- A flow follows itself. -/
theorem flow_refl (hT : ∀ e, T e e) (hinj : ∀ i r s, T ⟨i, r⟩ ⟨i, s⟩ → r = s)
    (x : Flow ι ρ ε α) : Prog.Follows T (Flow.Agree Eq Eq) x x := by
  apply (refl hT hinj x).mono
  rintro a _ rfl
  cases a with
  | ok a => rfl
  | error e => rfl

/-- **A run of a program has one that looks alike of the program that follows it.** -/
theorem runs {p p' : Prog ι ρ α} {q : Prog ι ρ α'} {h : List (Event ι ρ)} (hf : p.Follows T Q q)
    (hr : Runs p h p') :
    ∃ h' q', Runs q h' q' ∧ List.Forall₂ T h h' ∧ p'.Follows T Q q' := by
  induction hr generalizing q with
  | nil p => exact ⟨[], q, .nil q, .nil, hf⟩
  | cons _ ih =>
    cases q with
    | done b => exact hf.elim
    | call j l =>
      obtain ⟨s, hs⟩ := hf.1 _
      obtain ⟨h', q', hr', hall, hq'⟩ := ih (hf.2 _ s hs)
      exact ⟨⟨j, s⟩ :: h', q', .cons hr', .cons hs hall, hq'⟩

end Prog.Follows

end Interaction
