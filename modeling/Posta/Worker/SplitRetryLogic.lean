import Posta.Worker.Bisection

/-!
# Rules for retry with bisection

What a flush that succeeds establishes for the events of its sub-batch, a call of
`retryWithSplit` that returns has established for every event that it does not report as
poison. The rules are stated for any environment in which the flush function, the timer and the
logger can run.
-/

namespace Posta

open Js Interaction Interaction.Env

variable {ι : Type} {ρ : ι → Type} {W : Type} {E : Env ι ρ W} {w : W}

theorem ensures_flushAttempts {flush : Flow ι ρ Thrown Unit} {sleep : Nat → Flow ι ρ Thrown Unit}
    {Q : W → Prop} (hQ : ∀ {v u}, E.rely v u → Q v → Q u)
    (hflush : ∀ v, E.rely w v → E.Ensures (fun _ u => Q u) (fun _ _ => True) flush v)
    (hsleep : ∀ ms v, E.rely w v → E.Completes (sleep ms) v) (m delay k : Nat) (e : Thrown) :
    E.Ensures (fun r u => r = none → Q u) (fun _ _ => True)
      (flushAttempts flush sleep m delay k e) w := by
  induction k generalizing w e with
  | zero => exact ensures_pure fun v _ h => by cases h
  | succ k ih =>
    rw [flushAttempts]
    have htry : E.Ensures (fun r u => r = none → Q u) (fun _ _ => True)
        (tryCatch (do flush; pure none) fun error => pure (some error)) w := by
      refine ensures_tryCatch (ensures_seq
        (Ensures.mono (hflush w (E.rely_refl w)) (fun _ _ h => h) fun e u _ => ?_)
        fun _ u hu hQu => ensures_pure fun v hv _ => hQ hv hQu)
      exact ensures_pure fun v _ h => by cases h
    refine ensures_seq htry fun r v hv hr => ?_
    cases r with
    | none => exact ensures_pure fun u hu _ => hQ hu (hr rfl)
    | some error =>
      have hrest : ∀ u, E.rely w u → E.Ensures (fun r u => r = none → Q u) (fun _ _ => True)
          (flushAttempts flush sleep m delay k error) u := fun u hu =>
        ih (fun v hv => hflush v (E.rely_trans hu hv))
          (fun ms v hv => hsleep ms v (E.rely_trans hu hv)) error
      show E.Ensures _ _ (if m - k < m then _ else _) v
      split_ifs
      · exact ensures_seq (hsleep _ v hv) fun _ u hu _ => hrest u (E.rely_trans hv hu)
      · exact hrest v hv

/-- What the parts of the environment have to guarantee from `w` on, for the sub-batches of one
batch: a flush that succeeds establishes `Q` for its events. -/
structure FlushesBatch (E : Env ι ρ W) (env : SplitRetryEnv ι ρ) (Q : CaptureEvent → W → Prop)
    (root : List CaptureEvent) (rootId : JsString) (w : W) : Prop where
  stable : ∀ {e v u}, E.rely v u → Q e v → Q e u
  flush : ∀ node v, E.rely w v → nodeEvents root node ≠ [] →
    E.Ensures (fun _ u => ∀ e ∈ nodeEvents root node, Q e u) (fun _ _ => True)
      (env.flushBatch node (nodeEvents root node) (nodeId rootId node)) v
  sleep : ∀ ms v, E.rely w v → E.Completes (env.sleep ms) v
  logError : ∀ message logMeta v, E.rely w v → E.Completes (env.logError message logMeta) v

section Rules

variable {env : SplitRetryEnv ι ρ} {Q : CaptureEvent → W → Prop} {root : List CaptureEvent}
  {rootId : JsString}

theorem FlushesBatch.rely {v : W} (h : FlushesBatch E env Q root rootId w) (hv : E.rely w v) :
    FlushesBatch E env Q root rootId v where
  stable := h.stable
  flush node u hu := h.flush node u (E.rely_trans hv hu)
  sleep ms u hu := h.sleep ms u (E.rely_trans hv hu)
  logError message logMeta u hu := h.logError message logMeta u (E.rely_trans hv hu)

/-- Every event is settled: it has `Q`, or it is reported as poison. -/
def Settled (Q : CaptureEvent → W → Prop) (events : List CaptureEvent)
    (poisonEvents : List PoisonedEvent) (u : W) : Prop :=
  ∀ e ∈ events, Q e u ∨ ∃ p ∈ poisonEvents, p.event = e

theorem Settled.mono {events : List CaptureEvent} {poisonEvents poisonEvents' : List PoisonedEvent}
    {v u : W} (hQ : ∀ {e}, Q e v → Q e u) (hsub : ∀ p ∈ poisonEvents, p ∈ poisonEvents')
    (h : Settled Q events poisonEvents v) : Settled Q events poisonEvents' u := by
  intro e he
  rcases h e he with h | ⟨p, hp, rfl⟩
  · exact Or.inl (hQ h)
  · exact Or.inr ⟨p, hsub p hp, rfl⟩

/-- **A sub-batch that returns has settled its events.** -/
theorem ensures_attemptBatch (m delay : Nat) (h : FlushesBatch E env Q root rootId w) (node : Node)
    {events : List CaptureEvent} (hevents : events = nodeEvents root node) (hne : events ≠ [])
    {batchId : JsString} (hid : batchId = nodeId rootId node) :
    E.Ensures (fun result u => Settled Q events result.poisonEvents u) (fun _ _ => True)
      (attemptBatch env m delay node events hne batchId) w := by
  induction hn : events.length using Nat.strong_induction_on
    generalizing node events batchId w with
  | _ n ih =>
    rw [attemptBatch]
    have hattempts := ensures_flushAttempts (Q := fun u => ∀ e ∈ events, Q e u)
      (fun huv hQ e he => h.stable huv (hQ e he))
      (fun v hv => by
        have := h.flush node v hv (hevents ▸ hne)
        rwa [← hevents, ← hid] at this)
      h.sleep m delay m noError
    refine ensures_seq hattempts fun r v hv hr => ?_
    cases r with
    | none => exact ensures_pure fun u hu e he => Or.inl (h.stable hu (hr rfl e he))
    | some lastError =>
      have hlog := fun message logMeta => h.logError message logMeta v hv
      show E.Ensures _ _ (ite _ _ _) v
      split_ifs with hclass hone
      · exact ensures_seq (hlog _ _) fun _ u _ _ => ensures_throw fun _ _ => trivial
      · refine ensures_seq (hlog _ _) fun _ u _ _ => ensures_pure fun _ _ e he => ?_
        obtain ⟨event, rfl⟩ := List.length_eq_one_iff.mp hone
        rw [List.mem_singleton.mp he]
        exact Or.inr ⟨_, List.mem_singleton_self _, rfl⟩
      · have hpos := List.length_pos_iff.mpr hne
        have hsize : 1 < events.length := by omega
        refine ensures_seq (hlog _ _) fun _ u hu _ => ?_
        have hwu := E.rely_trans hv hu
        refine ensures_seq (ih _ ?_ (h.rely hwu) (node ++ [false]) ?_ _ ?_ rfl)
          fun left u' hu' hleft => ?_
        · simp only [List.length_take, midpoint]
          omega
        · rw [nodeEvents_append, ← hevents]
          rfl
        · rw [nodeId_append, ← hid]
          rfl
        have hwu' := E.rely_trans hwu hu'
        refine ensures_seq (ih _ ?_ (h.rely hwu') (node ++ [true]) ?_ _ ?_ rfl)
          fun right v' hv' hright => ?_
        · simp only [List.length_drop, midpoint]
          omega
        · rw [nodeEvents_append, ← hevents]
          rfl
        · rw [nodeId_append, ← hid]
          rfl
        refine ensures_pure fun u₁ hu₁ e he => ?_
        rw [← List.take_append_drop (midpoint events.length) events] at he
        rcases List.mem_append.mp he with he | he
        · exact hleft.mono (h.stable (E.rely_trans hv' hu₁))
            (fun p hp => List.mem_append_left _ hp) e he
        · exact hright.mono (h.stable hu₁) (fun p hp => List.mem_append_right _ hp) e he

/-- **A call that returns has settled the batch.** -/
theorem ensures_retryWithSplit {options : SplitRetryOptions} (hid : options.batchId = some rootId)
    (h : FlushesBatch E env Q root rootId w) :
    E.Ensures (fun result u => Settled Q root result.poisonEvents u) (fun _ _ => True)
      (retryWithSplit env root options) w := by
  rw [retryWithSplit]
  have hvalid : E.Completes (Flow.ofExcept options.validate : Flow ι ρ Thrown Unit) w := by
    cases options.validate with
    | ok u => exact ensures_pure fun _ _ => trivial
    | error e => exact ensures_throw fun _ _ => trivial
  refine ensures_seq hvalid fun _ v hv _ => ?_
  show E.Ensures _ _ (dite _ _ _) v
  split_ifs with hne
  · exact ensures_pure fun _ _ e he => absurd (hne ▸ he) List.not_mem_nil
  · rw [hid]
    exact ensures_attemptBatch _ _ (h.rely hv) [] rfl hne (List.append_nil _).symm

/-- The poison is sent, one entry after the other. -/
theorem ensures_sendPoisonEventsToDlq {send : DlqSend ι ρ} {sendMeta : DlqSendMeta}
    {S : PoisonedEvent → W → Prop} (hS : ∀ p v u, E.rely v u → S p v → S p u)
    (poisonEvents : List PoisonedEvent)
    (hsend : ∀ p ∈ poisonEvents, ∀ v, E.rely w v → E.Ensures (fun _ u => S p u) (fun _ _ => True)
      (send .flushPoison p.event.toJson p.error sendMeta) v) :
    E.Ensures (fun _ u => ∀ p ∈ poisonEvents, S p u) (fun _ _ => True)
      (sendPoisonEventsToDlq send poisonEvents sendMeta) w := by
  induction poisonEvents generalizing w with
  | nil => exact ensures_pure fun _ _ p hp => absurd hp List.not_mem_nil
  | cons p ps ih =>
    refine ensures_seq (hsend p List.mem_cons_self w (E.rely_refl w)) fun _ v hv hp => ?_
    have hrest := ih fun q hq u hu => hsend q (List.mem_cons_of_mem _ hq) u (E.rely_trans hv hu)
    refine Ensures.mono (Ensures.frame hrest) (fun _ u hu q hq => ?_) fun _ _ _ => trivial
    rcases List.mem_cons.mp hq with rfl | hq
    · exact hS _ _ _ hu.2 hp
    · exact hu.1 q hq

/-- **The composed flush** settles a batch for good: every event has `Q`, or its dead-letter
entry was accepted. -/
theorem ensures_flushWithSplitRetryAndPoisonDlq {send : DlqSend ι ρ}
    {S : PoisonedEvent → W → Prop} (hS : ∀ p v u, E.rely v u → S p v → S p u)
    (h : FlushesBatch E env Q root rootId w)
    (hsend : ∀ p sendMeta v, E.rely w v → E.Ensures (fun _ u => S p u) (fun _ _ => True)
      (send .flushPoison p.event.toJson p.error sendMeta) v) :
    E.Ensures (fun _ u => ∀ e ∈ root, Q e u ∨ ∃ p, S p u ∧ p.event = e) (fun _ _ => True)
      (flushWithSplitRetryAndPoisonDlq env send root rootId) w := by
  rw [flushWithSplitRetryAndPoisonDlq]
  refine ensures_seq (ensures_retryWithSplit rfl h) fun result v hv hsettled => ?_
  have hdlq : E.Ensures (fun _ u => ∀ p ∈ result.poisonEvents, S p u) (fun _ _ => True)
      (sendPoisonEventsToDlq send result.poisonEvents
        { originalJobId := rootId, attemptsMade := splitRetryMaxAttemptsPerBatch }) v :=
    ensures_sendPoisonEventsToDlq hS _ fun p _ u hu => hsend p _ u (E.rely_trans hv hu)
  refine Ensures.mono (Ensures.frame hdlq) (fun _ u hu e he => ?_) fun _ _ _ => trivial
  rcases hsettled e he with hq | ⟨p, hp, rfl⟩
  · exact Or.inl (h.stable hu.2 hq)
  · exact Or.inr ⟨p, hu.1 p hp, rfl⟩

end Rules

end Posta
