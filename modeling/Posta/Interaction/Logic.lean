import Mathlib.Logic.Relation
import Posta.Interaction.Prog

/-!
# A rely–guarantee logic for interacting programs

Several programs run interleaved over one world. What one of them establishes must survive
what the others do meanwhile, so a world is only ever compared along a preorder of changes.

**Environment** (`Env`). `rely w w'`: the others may turn `w` into `w'`. `safe i w`: the program
may perform `i` in `w`. `exec i w r w'`: performing `i` in `w` may answer `r` and leave `w'`. What a safe
operation does, the others may have done as well (`exec_rely`), so the preorder covers every
change there is.

**Judgement** (`Env.Holds`). `E.Holds post p w`: started in `w`, whatever the others do and
whatever is answered, `p` performs safe operations only, and its result satisfies `post` then
and at every later time.

**Rules.** A postcondition may be weakened (`Holds.mono`), a judgement survives the others
(`Holds.rely`), and the judgement of a sequence is that of its first part with the rest as
postcondition (`holds_bind`). For flows, `Ensures` separates the two outcomes.

Main results: `holds_bind`, `Holds.answer` and the flow rules; `invariant_of_steps` for runs of
a transition relation.
-/

namespace Interaction

variable {ι : Type} {ρ : ι → Type} {ε α β W : Type}

/-- The world of a program: what the others may do to it, and what the operations do. -/
structure Env (ι : Type) (ρ : ι → Type) (W : Type) where
  rely : W → W → Prop
  safe : ι → W → Prop
  exec : (i : ι) → W → ρ i → W → Prop
  rely_refl : ∀ w, rely w w
  rely_trans : ∀ {w₁ w₂ w₃}, rely w₁ w₂ → rely w₂ w₃ → rely w₁ w₃
  exec_rely : ∀ {i w r w'}, safe i w → exec i w r w' → rely w w'

namespace Env

/-- Safe operations only, and a result that satisfies `post` from then on. -/
def Holds (E : Env ι ρ W) (post : α → W → Prop) : Prog ι ρ α → W → Prop
  | .done a, w => ∀ w', E.rely w w' → post a w'
  | .call i k, w => ∀ w', E.rely w w' →
      E.safe i w' ∧ ∀ r w'', E.exec i w' r w'' → E.Holds post (k r) w''

variable {E : Env ι ρ W} {post post' : α → W → Prop} {p : Prog ι ρ α} {w w' : W}

theorem Holds.rely (h : E.Holds post p w) (hw : E.rely w w') : E.Holds post p w' := by
  cases p with
  | done a => exact fun v hv => h v (E.rely_trans hw hv)
  | call i k => exact fun v hv => h v (E.rely_trans hw hv)

theorem Holds.mono (h : E.Holds post p w) (hpost : ∀ a v, post a v → post' a v) :
    E.Holds post' p w := by
  induction p generalizing w with
  | done a => exact fun v hv => hpost a v (h v hv)
  | call i k ih =>
    intro v hv
    obtain ⟨hsafe, hk⟩ := h v hv
    exact ⟨hsafe, fun r v' hr => ih r (hk r v' hr)⟩

/-- What a result satisfies, it satisfies from then on. -/
theorem Holds.stable (h : E.Holds post p w) :
    E.Holds (fun a v => ∀ v', E.rely v v' → post a v') p w := by
  induction p generalizing w with
  | done a => exact fun v hv v' hv' => h v' (E.rely_trans hv hv')
  | call i k ih =>
    intro v hv
    obtain ⟨hsafe, hk⟩ := h v hv
    exact ⟨hsafe, fun r v' hr => ih r (hk r v' hr)⟩

/-- The world a program ends in comes after the one it started in. -/
theorem Holds.frame (h : E.Holds post p w) :
    E.Holds (fun a v => post a v ∧ E.rely w v) p w := by
  have hgen : ∀ w₀, E.rely w₀ w → E.Holds (fun a v => post a v ∧ E.rely w₀ v) p w := by
    intro w₀ hw₀
    induction p generalizing w with
    | done a => exact fun v hv => ⟨h v hv, E.rely_trans hw₀ hv⟩
    | call i k ih =>
      intro v hv
      obtain ⟨hsafe, hk⟩ := h v hv
      have hv₀ := E.rely_trans hw₀ hv
      exact ⟨hsafe, fun r v' hr => ih r (hk r v' hr) (E.rely_trans hv₀ (E.exec_rely hsafe hr))⟩
  exact hgen w (E.rely_refl w)

theorem Holds.result {a : α} (h : E.Holds post (.done a) w) : post a w := h w (E.rely_refl w)

theorem Holds.safe {i : ι} {k : ρ i → Prog ι ρ α} (h : E.Holds post (.call i k) w) :
    E.safe i w := (h w (E.rely_refl w)).1

/-- **One answer.** The judgement goes over to the rest of the program. -/
theorem Holds.answer {i : ι} {k : ρ i → Prog ι ρ α} (h : E.Holds post (.call i k) w) {r : ρ i}
    (hr : E.exec i w r w') : E.Holds post (k r) w' := (h w (E.rely_refl w)).2 r w' hr

theorem holds_bind {post : β → W → Prop} {f : α → Prog ι ρ β}
    (h : E.Holds (fun a v => E.Holds post (f a) v) p w) : E.Holds post (p.bind f) w := by
  induction p generalizing w with
  | done a => exact h w (E.rely_refl w)
  | call i k ih =>
    intro v hv
    obtain ⟨hsafe, hk⟩ := h v hv
    exact ⟨hsafe, fun r v' hr => ih r (hk r v' hr)⟩

/-! ## Flows -/

/-- The outcome of a flow: `Q` of a result, `R` of a failure. -/
def Outcome (Q : α → W → Prop) (R : ε → W → Prop) : Except ε α → W → Prop
  | .ok a => Q a
  | .error e => R e

/-- A flow that ends in `Q` when it returns and in `R` when it fails. -/
def Ensures (E : Env ι ρ W) (Q : α → W → Prop) (R : ε → W → Prop) (p : Flow ι ρ ε α) (w : W) :
    Prop :=
  E.Holds (Outcome Q R) p w

variable {Q Q' : α → W → Prop} {R R' : ε → W → Prop} {x : Flow ι ρ ε α}

theorem Ensures.mono (h : E.Ensures Q R x w) (hQ : ∀ a v, Q a v → Q' a v)
    (hR : ∀ e v, R e v → R' e v) : E.Ensures Q' R' x w :=
  Holds.mono h fun r v hr => by
    cases r with
    | ok a => exact hQ a v hr
    | error e => exact hR e v hr

theorem Ensures.frame (h : E.Ensures Q R x w) :
    E.Ensures (fun a v => Q a v ∧ E.rely w v) (fun e v => R e v ∧ E.rely w v) x w :=
  Holds.mono (Holds.frame h) fun r v hr => by
    cases r with
    | ok a => exact hr
    | error e => exact hr

/-- No promise about either outcome. -/
abbrev Completes (E : Env ι ρ W) (x : Flow ι ρ ε α) (w : W) : Prop :=
  E.Ensures (fun _ _ => True) (fun _ _ => True) x w

theorem ensures_pure {a : α} (h : ∀ v, E.rely w v → Q a v) :
    E.Ensures Q R (pure a : Flow ι ρ ε α) w := h

theorem ensures_throw {e : ε} (h : ∀ v, E.rely w v → R e v) :
    E.Ensures Q R (throw e : Flow ι ρ ε α) w := h

theorem ensures_bind {Q : β → W → Prop} {f : α → Flow ι ρ ε β}
    (h : E.Ensures (fun a v => E.Ensures Q R (f a) v) R x w) : E.Ensures Q R (x >>= f) w := by
  unfold Ensures
  rw [Flow.bind_eq]
  refine holds_bind (Holds.mono (Holds.stable h) fun r v hr => ?_)
  cases r with
  | ok a => exact hr v (E.rely_refl v)
  | error e => exact hr

theorem ensures_tryCatch {f : ε → Flow ι ρ ε α}
    (h : E.Ensures Q (fun e v => E.Ensures Q R (f e) v) x w) :
    E.Ensures Q R (tryCatch x f) w := by
  unfold Ensures
  rw [Flow.tryCatch_eq]
  refine holds_bind (Holds.mono (Holds.stable h) fun r v hr => ?_)
  cases r with
  | ok a => exact hr
  | error e => exact hr v (E.rely_refl v)

/-- A sequence, its second part started somewhere after the start of the first. -/
theorem ensures_seq {Q : β → W → Prop} {f : α → Flow ι ρ ε β} {Q' : α → W → Prop}
    (hx : E.Ensures Q' R x w) (hf : ∀ a v, E.rely w v → Q' a v → E.Ensures Q R (f a) v) :
    E.Ensures Q R (x >>= f) w := by
  refine ensures_bind (Holds.mono (Holds.frame hx) fun r v hr => ?_)
  cases r with
  | ok a => exact hf a v hr.2 hr.1
  | error e => exact hr.1

/-- A `finally` that returns leaves the outcome as it was. -/
theorem ensures_tryFinally {y : Flow ι ρ ε β} (hx : E.Ensures Q R x w)
    (hy : ∀ v, E.rely w v → E.Ensures (fun _ _ => True) R y v) :
    E.Ensures Q R (Flow.tryFinally x y) w := by
  refine holds_bind (Holds.mono (Holds.frame (Holds.stable hx)) fun r v hr => ?_)
  refine holds_bind (Holds.mono (Holds.frame (Holds.stable (hy v hr.2))) fun s u hs => ?_)
  cases s with
  | ok b => exact fun u' hu' => hr.1 u' (E.rely_trans hs.2 hu')
  | error e => exact fun u' hu' => hs.1 u' hu'

/-- An operation whose response is the flow's outcome. -/
theorem ensures_call {i : ι} {k : ρ i → Prog ι ρ (Except ε α)}
    (hsafe : ∀ v, E.rely w v → E.safe i v)
    (h : ∀ v, E.rely w v → ∀ r v', E.exec i v r v' → E.Ensures Q R (k r) v') :
    E.Ensures Q R (.call i k : Prog ι ρ (Except ε α)) w :=
  fun v hv => ⟨hsafe v hv, fun r v' hr => h v hv r v' hr⟩

theorem completes_seq {f : α → Flow ι ρ ε β} (hx : E.Completes x w)
    (hf : ∀ a v, E.Completes (f a) v) : E.Completes (x >>= f) w :=
  ensures_seq hx fun a v _ _ => hf a v

theorem completes_pure (a : α) : E.Completes (pure a : Flow ι ρ ε α) w :=
  ensures_pure fun _ _ => trivial

theorem completes_tryCatch {f : ε → Flow ι ρ ε α} (hx : E.Completes x w)
    (hf : ∀ e v, E.Completes (f e) v) : E.Completes (tryCatch x f) w :=
  ensures_tryCatch (Ensures.mono hx (fun _ _ h => h) fun e v _ => hf e v)

/-- What was established stays established. -/
theorem ensures_kept {Q : W → Prop} (hQ : ∀ {v u}, E.rely v u → Q v → Q u)
    (hx : E.Completes x w) (h : Q w) : E.Ensures (fun _ u => Q u) (fun _ _ => True) x w :=
  Ensures.mono (Ensures.frame hx) (fun _ _ hu => hQ hu.2 h) fun _ _ _ => trivial

/-! ## Operations performed -/

/-- The environment that only watches which operations are performed. -/
def watching (P : ι → Prop) : Env ι ρ Unit where
  rely _ _ := True
  safe i _ := P i
  exec _ _ _ _ := True
  rely_refl _ := trivial
  rely_trans _ _ := trivial
  exec_rely _ _ := trivial

/-- A program that is safe for the watching environment performs operations of `P` only. -/
theorem performed_of_holds {P : ι → Prop} {post : α → Unit → Prop} {p q : Prog ι ρ α}
    {h : List (Event ι ρ)} (hp : (watching P).Holds post p ()) (hr : Runs p h q) :
    (∀ e ∈ h, P e.1) ∧ (watching P).Holds post q () := by
  induction hr with
  | nil p => exact ⟨by simp, hp⟩
  | @cons i k r h q _ ih =>
    obtain ⟨hsafe, hk⟩ := hp () trivial
    obtain ⟨hall, hq⟩ := ih (hk r () trivial)
    refine ⟨fun e he => ?_, hq⟩
    rcases List.mem_cons.mp he with rfl | he
    · exact hsafe
    · exact hall e he

end Env

/-! ## Runs of a transition relation -/

/-- An invariant that every step keeps holds after every run. -/
theorem invariant_of_steps {S : Type} {step : S → S → Prop} {I : S → Prop} {s s' : S}
    (hstep : ∀ s s', step s s' → I s → I s') (h : Relation.ReflTransGen step s s') (hI : I s) :
    I s' := by
  induction h with
  | refl => exact hI
  | tail _ hs ih => exact hstep _ _ hs ih

end Interaction
