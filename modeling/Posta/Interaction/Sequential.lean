import Posta.Interaction.Logic

/-!
# A program alone with its world

Where nothing else touches the world while a program runs, what an operation finds is what the
operation before it left, and a Hoare logic is enough.

**Interpretation** (`Interp`). `pre i w`: the program may perform `i` in `w`. `exec i w r w'`:
performing `i` in `w` may answer `r` and leave `w'`.

**Judgement** (`Interp.Wp`). `I.Wp post p w`: started in `w`, whatever is answered, `p` meets the
precondition of everything it performs, and its result satisfies `post` in the world it ends in.

**Kinds** (`Prog.Performs`). A program that performs only operations of a kind keeps what they keep.

**Runs** (`Interp.Execs`). The runs of a program with the worlds they pass through.

**Theorem (`Execs.wp`).** A judgement goes over to the rest of a run, and every operation of the
run met its precondition. **Monitors** (`monitor`) are the interpretations in which the world is a
summary of what was performed: every run of a program is a run of it there.
-/

namespace Interaction

variable {ι : Type} {ρ : ι → Type} {ε α β W : Type}

structure Interp (ι : Type) (ρ : ι → Type) (W : Type) where
  pre : ι → W → Prop
  exec : (i : ι) → W → ρ i → W → Prop

namespace Interp

variable {I : Interp ι ρ W}

def Wp (I : Interp ι ρ W) (post : α → W → Prop) : Prog ι ρ α → W → Prop
  | .done a, w => post a w
  | .call i k, w => I.pre i w ∧ ∀ r w', I.exec i w r w' → I.Wp post (k r) w'

section Rules

variable {post post' : α → W → Prop} {p : Prog ι ρ α} {w : W}

theorem Wp.mono (h : I.Wp post p w) (hpost : ∀ a v, post a v → post' a v) : I.Wp post' p w := by
  induction p generalizing w with
  | done a => exact hpost a w h
  | call i k ih => exact ⟨h.1, fun r w' hr => ih r (h.2 r w' hr)⟩

theorem wp_bind {post : β → W → Prop} {f : α → Prog ι ρ β}
    (h : I.Wp (fun a v => I.Wp post (f a) v) p w) : I.Wp post (p.bind f) w := by
  induction p generalizing w with
  | done a => exact h
  | call i k ih => exact ⟨h.1, fun r w' hr => ih r (h.2 r w' hr)⟩

/-- The judgement of a sequence by that of its first part and one of the rest. -/
theorem wp_seq {post : β → W → Prop} {mid : α → W → Prop} {f : α → Prog ι ρ β}
    (hp : I.Wp mid p w) (hf : ∀ a v, mid a v → I.Wp post (f a) v) : I.Wp post (p.bind f) w :=
  wp_bind (hp.mono hf)

end Rules

/-! ## Flows -/

/-- A flow that ends in `Q` when it returns and in `R` when it fails. -/
def Ensures (I : Interp ι ρ W) (Q : α → W → Prop) (R : ε → W → Prop) (x : Flow ι ρ ε α) (w : W) :
    Prop :=
  I.Wp (Env.Outcome Q R) x w

variable {Q Q' : α → W → Prop} {R R' : ε → W → Prop} {x : Flow ι ρ ε α} {w : W}

theorem Ensures.mono (h : I.Ensures Q R x w) (hQ : ∀ a v, Q a v → Q' a v)
    (hR : ∀ e v, R e v → R' e v) : I.Ensures Q' R' x w :=
  Wp.mono h fun r v hr => by
    cases r with
    | ok a => exact hQ a v hr
    | error e => exact hR e v hr

theorem ensures_pure {a : α} (h : Q a w) : I.Ensures Q R (pure a : Flow ι ρ ε α) w := h

theorem ensures_throw {e : ε} (h : R e w) : I.Ensures Q R (throw e : Flow ι ρ ε α) w := h

theorem ensures_bind {Q : β → W → Prop} {f : α → Flow ι ρ ε β}
    (h : I.Ensures (fun a v => I.Ensures Q R (f a) v) R x w) : I.Ensures Q R (x >>= f) w := by
  unfold Ensures
  rw [Flow.bind_eq]
  refine wp_seq h fun r v hr => ?_
  cases r with
  | ok a => exact hr
  | error e => exact hr

theorem ensures_tryCatch {f : ε → Flow ι ρ ε α}
    (h : I.Ensures Q (fun e v => I.Ensures Q R (f e) v) x w) :
    I.Ensures Q R (tryCatch x f) w := by
  unfold Ensures
  rw [Flow.tryCatch_eq]
  refine wp_seq h fun r v hr => ?_
  cases r with
  | ok a => exact hr
  | error e => exact hr

theorem ensures_seq {Q : β → W → Prop} {f : α → Flow ι ρ ε β} {mid : α → W → Prop}
    (hx : I.Ensures mid R x w) (hf : ∀ a v, mid a v → I.Ensures Q R (f a) v) :
    I.Ensures Q R (x >>= f) w :=
  ensures_bind (Ensures.mono hx hf fun _ _ h => h)

/-- An operation whose response is the flow's outcome. -/
theorem ensures_call {i : ι} {k : ρ i → Prog ι ρ (Except ε α)} (hpre : I.pre i w)
    (h : ∀ r w', I.exec i w r w' → I.Ensures Q R (k r) w') :
    I.Ensures Q R (.call i k : Prog ι ρ (Except ε α)) w := ⟨hpre, h⟩

/-- An operation that cannot fail. -/
theorem ensures_perform {i : ι} {Q : ρ i → W → Prop} (hpre : I.pre i w)
    (h : ∀ r w', I.exec i w r w' → Q r w') :
    I.Ensures Q R (Flow.perform i : Flow ι ρ ε (ρ i)) w := ⟨hpre, h⟩

/-! ## Programs of one kind of operations -/

end Interp

/-- Whatever is answered, the program performs only operations of a kind. -/
def Prog.Performs (K : ι → Prop) : Prog ι ρ α → Prop
  | .done _ => True
  | .call i k => K i ∧ ∀ r, (k r).Performs K

namespace Prog.Performs

variable {K : ι → Prop}

theorem bind {p : Prog ι ρ α} {f : α → Prog ι ρ β} (hp : p.Performs K)
    (hf : ∀ a, (f a).Performs K) : (p.bind f).Performs K := by
  induction p with
  | done a => exact hf a
  | call i k ih => exact ⟨hp.1, fun r => ih r (hp.2 r)⟩

theorem flow_bind {x : Flow ι ρ ε α} {f : α → Flow ι ρ ε β} (hx : Prog.Performs K x)
    (hf : ∀ a, Prog.Performs K (f a)) : Prog.Performs K (x >>= f : Flow ι ρ ε β) := by
  rw [Flow.bind_eq]
  refine hx.bind fun r => ?_
  cases r with
  | ok a => exact hf a
  | error e => trivial

theorem flow_tryCatch {x : Flow ι ρ ε α} {f : ε → Flow ι ρ ε α} (hx : Prog.Performs K x)
    (hf : ∀ e, Prog.Performs K (f e)) : Prog.Performs K (tryCatch x f : Flow ι ρ ε α) := by
  rw [Flow.tryCatch_eq]
  refine hx.bind fun r => ?_
  cases r with
  | ok a => trivial
  | error e => exact hf e

/-- What the watching environment allows is the kind of what is performed. -/
theorem of_watching {p : Prog ι ρ α} {post : α → Unit → Prop}
    (hp : (Env.watching K).Holds post p ()) : p.Performs K := by
  induction p with
  | done a => trivial
  | call i k ih =>
    obtain ⟨hi, hk⟩ := hp () trivial
    exact ⟨hi, fun r => ih r (hk r () trivial)⟩

/-- What a run performed is of the kind. -/
theorem of_runs {p q : Prog ι ρ α} {h : List (Event ι ρ)} (hp : p.Performs K) (hr : Runs p h q) :
    ∀ e ∈ h, K e.1 := by
  induction hr with
  | nil => exact fun e he => absurd he List.not_mem_nil
  | cons _ ih =>
    intro e he
    rcases List.mem_cons.mp he with rfl | he
    · exact hp.1
    · exact ih (hp.2 _) e he

end Prog.Performs

namespace Interp

variable {I : Interp ι ρ W} {w : W} {Q : α → W → Prop} {R : ε → W → Prop} {x : Flow ι ρ ε α}

/-- What the operations of a kind keep, a program of that kind keeps. -/
theorem wp_of_performs {K : ι → Prop} {P : W → Prop} {p : Prog ι ρ α} (hp : p.Performs K)
    (hpre : ∀ i w, K i → P w → I.pre i w)
    (hexec : ∀ i w r w', K i → I.exec i w r w' → P w → P w') (hw : P w) :
    I.Wp (fun _ => P) p w := by
  induction p generalizing w with
  | done a => exact hw
  | call i k ih =>
    exact ⟨hpre i w hp.1 hw, fun r w' hr => ih r (hp.2 r) (hexec i w r w' hp.1 hr hw)⟩

theorem ensures_of_performs {K : ι → Prop} {P : W → Prop} (hx : Prog.Performs K x)
    (hpre : ∀ i w, K i → P w → I.pre i w)
    (hexec : ∀ i w r w', K i → I.exec i w r w' → P w → P w') (hw : P w) :
    I.Ensures (fun _ => P) (fun _ => P) x w :=
  (wp_of_performs hx hpre hexec hw).mono fun r _ h => by
    cases r with
    | ok a => exact h
    | error e => exact h

/-! ## Runs -/

/-- A run with its worlds. -/
inductive Execs (I : Interp ι ρ W) :
    Prog ι ρ α → W → List (Event ι ρ) → Prog ι ρ α → W → Prop
  | nil (p : Prog ι ρ α) (w : W) : I.Execs p w [] p w
  | cons {i : ι} {k : ρ i → Prog ι ρ α} {r : ρ i} {w w₁ w' : W} {h : List (Event ι ρ)}
      {q : Prog ι ρ α} :
      I.exec i w r w₁ → I.Execs (k r) w₁ h q w' → I.Execs (.call i k) w (⟨i, r⟩ :: h) q w'

variable {post : α → W → Prop} {p q : Prog ι ρ α} {w' : W} {h : List (Event ι ρ)}

/-- **A judgement goes over to the rest of a run.** -/
theorem Execs.wp (he : I.Execs p w h q w') (hp : I.Wp post p w) : I.Wp post q w' := by
  induction he with
  | nil => exact hp
  | cons hr _ ih => exact ih (hp.2 _ _ hr)

/-- What a judgement demands of the worlds of a run, the world a run is in satisfies. -/
theorem Execs.invariant {K : W → Prop} (he : I.Execs p w h q w') (hp : I.Wp post p w)
    (hpre : ∀ i v, I.pre i v → K v) (hpost : ∀ a v, post a v → K v) : K w' := by
  have hq := he.wp hp
  cases q with
  | done a => exact hpost a w' hq
  | call i k => exact hpre i w' hq.1

/-- What every operation keeps, a run keeps. -/
theorem Execs.keeps {K : W → Prop} (he : I.Execs p w h q w')
    (hexec : ∀ i v r v', I.exec i v r v' → K v → K v') (hw : K w) : K w' := by
  induction he with
  | nil => exact hw
  | cons hr _ ih => exact ih (hexec _ _ _ _ hr hw)

/-- The runs depend on what the operations do only. -/
theorem Execs.of_exec {J : Interp ι ρ W} (he : I.Execs p w h q w')
    (hexec : ∀ i v r v', I.exec i v r v' → J.exec i v r v') : J.Execs p w h q w' := by
  induction he with
  | nil => exact .nil _ _
  | cons hr _ ih => exact .cons (hexec _ _ _ _ hr) ih

/-- A run of a sequence is a run of its first part that has not finished, or a finished run of it
followed by a run of the rest. -/
theorem Execs.bind_inv {f : α → Prog ι ρ β} {q : Prog ι ρ β}
    (he : I.Execs (p.bind f) w h q w') :
    (∃ i k, I.Execs p w h (.call i k) w' ∧ q = .call i fun r => (k r).bind f) ∨
      ∃ a h₁ h₂ w₁, h = h₁ ++ h₂ ∧ I.Execs p w h₁ (.done a) w₁ ∧ I.Execs (f a) w₁ h₂ q w' := by
  induction p generalizing h w with
  | done a => exact Or.inr ⟨a, [], h, w, rfl, .nil _ _, he⟩
  | call i k ih =>
    cases he with
    | nil => exact Or.inl ⟨i, k, .nil _ _, rfl⟩
    | cons hr he =>
      rcases ih _ he with ⟨j, l, hp', rfl⟩ | ⟨a, h₁, h₂, w₁, rfl, hp, hf⟩
      · exact Or.inl ⟨j, l, .cons hr hp', rfl⟩
      · exact Or.inr ⟨a, _, h₂, w₁, rfl, .cons hr hp, hf⟩

theorem Execs.done_inv {a : α} (he : I.Execs (.done a) w h q w') :
    h = [] ∧ q = .done a ∧ w' = w := by
  cases he
  exact ⟨rfl, rfl, rfl⟩

/-- A run of a sequence of flows: its first part has not finished, or has failed, or has returned
and the rest runs. -/
theorem Execs.flow_bind_inv {x : Flow ι ρ ε α} {f : α → Flow ι ρ ε β} {q : Flow ι ρ ε β}
    (he : I.Execs (x >>= f : Flow ι ρ ε β) w h q w') :
    (∃ i k k', I.Execs x w h (.call i k) w' ∧ q = .call i k') ∨
      (∃ e, I.Execs x w h (.done (.error e)) w' ∧ q = .done (.error e)) ∨
      ∃ a h₁ h₂ w₁, h = h₁ ++ h₂ ∧ I.Execs x w h₁ (.done (.ok a)) w₁ ∧
        I.Execs (f a) w₁ h₂ q w' := by
  rw [Flow.bind_eq] at he
  rcases he.bind_inv with ⟨i, k, hx, rfl⟩ | ⟨r, h₁, h₂, w₁, rfl, hx, hf⟩
  · exact Or.inl ⟨i, k, _, hx, rfl⟩
  · cases r with
    | error e =>
      obtain ⟨rfl, rfl, rfl⟩ := hf.done_inv
      rw [List.append_nil]
      exact Or.inr (Or.inl ⟨e, hx, rfl⟩)
    | ok a => exact Or.inr (Or.inr ⟨a, h₁, h₂, w₁, rfl, hx, hf⟩)

theorem Execs.runs (he : I.Execs p w h q w') : Runs p h q := by
  induction he with
  | nil => exact .nil _
  | cons _ _ ih => exact .cons ih

theorem Execs.bind_left {p q : Prog ι ρ α} {h : List (Event ι ρ)} (he : I.Execs p w h q w')
    (f : α → Prog ι ρ β) : I.Execs (p.bind f) w h (q.bind f) w' := by
  induction he with
  | nil => exact .nil _ _
  | cons hr _ ih => exact .cons hr ih

theorem Execs.append {p q s : Prog ι ρ α} {h h' : List (Event ι ρ)} (hp : I.Execs p w h q w')
    (hq : I.Execs q w' h' s w'') : I.Execs p w (h ++ h') s w'' := by
  induction hp with
  | nil => exact hq
  | cons hr _ ih => exact .cons hr (ih hq)

theorem Execs.bind_ok {x : Flow ι ρ ε α} {f : α → Flow ι ρ ε β} {a : α} {h h' : List (Event ι ρ)}
    {q : Flow ι ρ ε β} (hx : I.Execs x w h (.done (.ok a)) w') (hf : I.Execs (f a) w' h' q w'') :
    I.Execs (x >>= f : Flow ι ρ ε β) w (h ++ h') q w'' := by
  rw [Flow.bind_eq]
  exact (hx.bind_left _).append hf

/-- A `try` whose body returned. -/
theorem Execs.tryCatch_ok {x : Flow ι ρ ε α} {a : α} (hx : I.Execs x w h (.done (.ok a)) w')
    (f : ε → Flow ι ρ ε α) : I.Execs (tryCatch x f : Flow ι ρ ε α) w h (.done (.ok a)) w' := by
  rw [Flow.tryCatch_eq]
  exact hx.bind_left (Flow.onError f)

/-- Where every operation has some outcome, every program has a finished run. -/
theorem exists_execs_done (htotal : ∀ i w, ∃ r w', I.exec i w r w') (p : Prog ι ρ α) (w : W) :
    ∃ h a w', I.Execs p w h (.done a) w' := by
  induction p generalizing w with
  | done a => exact ⟨[], a, w, .nil _ _⟩
  | call i k ih =>
    obtain ⟨r, w₁, hr⟩ := htotal i w
    obtain ⟨h, a, w', he⟩ := ih r w₁
    exact ⟨_, a, w', .cons hr he⟩

/-! ## Monitors -/

/-- The world sums up what was performed. -/
def monitor (pre : ι → W → Prop) (step : W → Event ι ρ → W) : Interp ι ρ W where
  pre := pre
  exec i w r w' := w' = step w ⟨i, r⟩

variable {pre : ι → W → Prop} {step : W → Event ι ρ → W}

theorem wp_monitor {i : ι} {k : ρ i → Prog ι ρ α} (hpre : pre i w)
    (h : ∀ r, (monitor pre step).Wp post (k r) (step w ⟨i, r⟩)) :
    (monitor pre step).Wp post (.call i k) w := by
  refine ⟨hpre, ?_⟩
  rintro r w' rfl
  exact h r

theorem execs_monitor (hr : Runs p h q) :
    (monitor pre step).Execs p w h q (h.foldl step w) := by
  induction hr generalizing w with
  | nil => exact .nil _ _
  | cons _ ih => exact .cons rfl ih

/-- What every permitted operation keeps holds after every run. -/
theorem monitor_invariant {Inv : W → Prop}
    (hstep : ∀ w i r, pre i w → Inv w → Inv (step w ⟨i, r⟩))
    (hp : (monitor pre step).Wp post p w) (hr : Runs p h q) (hw : Inv w) :
    Inv (h.foldl step w) := by
  induction hr generalizing w with
  | nil => exact hw
  | cons _ ih => exact ih (hp.2 _ _ rfl) (hstep _ _ _ hp.1 hw)

/-- What a run performed, it performed where it was allowed to. -/
theorem pre_of_performed {h₁ h₂ : List (Event ι ρ)} {e : Event ι ρ}
    (hp : (monitor pre step).Wp post p w) (hr : Runs p (h₁ ++ e :: h₂) q) :
    pre e.1 (h₁.foldl step w) := by
  obtain ⟨s, hs, hq⟩ := hr.split
  have hexec : (monitor pre step).Execs p w h₁ s (h₁.foldl step w) := execs_monitor hs
  have hwp := hexec.wp hp
  cases hq with
  | cons _ => exact hwp.1

/-- The operation is performed right after `h₁`, or the run ends there waiting for it. -/
def IssuedAt (h : List (Event ι ρ)) (q : Prog ι ρ α) (h₁ : List (Event ι ρ)) (i : ι) : Prop :=
  (∃ r h₂, h = h₁ ++ ⟨i, r⟩ :: h₂) ∨ (h = h₁ ∧ ∃ k, q = .call i k)

/-- What a run issued, it issued where it was allowed to. -/
theorem pre_of_issued {h₁ : List (Event ι ρ)} {i : ι} (hp : (monitor pre step).Wp post p w)
    (hr : Runs p h q) (hi : IssuedAt h q h₁ i) : pre i (h₁.foldl step w) := by
  rcases hi with ⟨r, h₂, rfl⟩ | ⟨rfl, k, rfl⟩
  · exact pre_of_performed hp hr
  · exact ((execs_monitor hr).wp hp).1

end Interp

end Interaction
