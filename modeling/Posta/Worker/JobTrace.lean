import Posta.Interaction.Sequential
import Posta.Worker.Consumer

/-!
# What one job does

**Plain operations** (`WorkerOp.plain`). Everything but the count of jobs in flight and the
accumulator. The production flush performs plain operations only.

**Theorem (`process_traced`).** `process` counts its job once when it begins and discounts it as
its last operation; in between it adds its event at most once, and it settles as the promise of
that event does.
-/

namespace Posta

open Js Interaction

/-- An operation on neither the count of jobs nor the accumulator. -/
def WorkerOp.plain : WorkerOp → Bool
  | .countInFlightJob _ => false
  | .add _ => false
  | _ => true

/-! ## The production flush -/

section SplitRetry

variable {ι : Type} {ρ : ι → Type} {K : ι → Prop} {env : SplitRetryEnv ι ρ}

/-- What `attemptBatch` is given performs operations of a kind. -/
structure SplitRetryEnv.Performs (K : ι → Prop) (env : SplitRetryEnv ι ρ) : Prop where
  flushBatch : ∀ node events batchId, Prog.Performs K (env.flushBatch node events batchId)
  sleep : ∀ ms, Prog.Performs K (env.sleep ms)
  logError : ∀ message logMeta, Prog.Performs K (env.logError message logMeta)
  newId : Prog.Performs K env.newId

theorem performs_caught {x : Flow ι ρ Thrown Unit} (hx : Prog.Performs K x) :
    Prog.Performs K (tryCatch (do x; pure none) (fun error => pure (some error)) :
      Flow ι ρ Thrown (Option Thrown)) :=
  Prog.Performs.flow_tryCatch (Prog.Performs.flow_bind hx fun _ => trivial) fun _ => trivial

theorem performs_flushAttempts {flush : Flow ι ρ Thrown Unit} {sleep : Nat → Flow ι ρ Thrown Unit}
    (hflush : Prog.Performs K flush) (hsleep : ∀ ms, Prog.Performs K (sleep ms)) (m delay k : Nat)
    (e : Thrown) : Prog.Performs K (flushAttempts flush sleep m delay k e) := by
  induction k generalizing e with
  | zero => trivial
  | succ k ih =>
    rw [flushAttempts]
    refine Prog.Performs.flow_bind (performs_caught hflush) fun r => ?_
    cases r with
    | none => trivial
    | some error =>
      show Prog.Performs K (if m - k < m then _ else _)
      split_ifs
      · exact Prog.Performs.flow_bind (hsleep _) fun _ => ih error
      · exact ih error

theorem performs_attemptBatch (h : env.Performs K) (m delay : Nat) (node : Node)
    {events : List CaptureEvent} (hne : events ≠ []) (batchId : JsString) :
    Prog.Performs K (attemptBatch env m delay node events hne batchId) := by
  induction hn : events.length using Nat.strong_induction_on
    generalizing node events batchId with
  | _ n ih =>
    rw [attemptBatch]
    refine Prog.Performs.flow_bind
      (performs_flushAttempts (h.flushBatch _ _ _) h.sleep _ _ _ _) fun r => ?_
    cases r with
    | none => trivial
    | some lastError =>
      show Prog.Performs K (ite _ _ _)
      split_ifs with hclass hone
      · exact Prog.Performs.flow_bind (h.logError _ _) fun _ => trivial
      · exact Prog.Performs.flow_bind (h.logError _ _) fun _ => trivial
      · have hpos := List.length_pos_iff.mpr hne
        refine Prog.Performs.flow_bind (h.logError _ _) fun _ => ?_
        refine Prog.Performs.flow_bind (ih _ ?_ _ _ _ rfl) fun left => ?_
        · simp only [List.length_take, midpoint]
          omega
        refine Prog.Performs.flow_bind (ih _ ?_ _ _ _ rfl) fun right => trivial
        simp only [List.length_drop, midpoint]
        omega

theorem performs_sendPoisonEventsToDlq {send : DlqSend ι ρ}
    (hsend : ∀ reason payload error sendMeta, Prog.Performs K (send reason payload error sendMeta))
    (poisonEvents : List PoisonedEvent) (sendMeta : DlqSendMeta) :
    Prog.Performs K (sendPoisonEventsToDlq send poisonEvents sendMeta) := by
  induction poisonEvents with
  | nil => trivial
  | cons p ps ih => exact Prog.Performs.flow_bind (hsend _ _ _ _) fun _ => ih

theorem performs_flushWithSplitRetryAndPoisonDlq {send : DlqSend ι ρ} (h : env.Performs K)
    (hsend : ∀ reason payload error sendMeta, Prog.Performs K (send reason payload error sendMeta))
    (events : List CaptureEvent) (batchId : JsString) :
    Prog.Performs K (flushWithSplitRetryAndPoisonDlq env send events batchId) := by
  rw [flushWithSplitRetryAndPoisonDlq]
  refine Prog.Performs.flow_bind ?_ fun result => performs_sendPoisonEventsToDlq hsend _ _
  rw [retryWithSplit]
  refine Prog.Performs.flow_bind trivial fun _ => ?_
  show Prog.Performs K (dite _ _ _)
  split_ifs with hne
  · trivial
  · exact performs_attemptBatch h _ _ _ hne _

end SplitRetry

/-- A program that performs plain operations only. -/
abbrev Plain {α : Type} (x : WorkerFlow α) : Prop := Prog.Performs (fun op => op.plain = true) x

theorem plain_logError (message : JsString) (logMeta : LogMeta) : Plain (logError message logMeta) :=
  ⟨rfl, fun _ => trivial⟩

theorem plain_sleep (ms : Nat) : Plain (sleep ms) := ⟨rfl, fun _ => trivial⟩

theorem plain_ofExcept {α : Type} (r : Except Thrown α) : Plain (Flow.ofExcept r) := trivial

theorem plain_cleanAgedEntriesThrottled (P : Platform) (service : DlqService) :
    Plain (service.cleanAgedEntriesThrottled P) := by
  refine Prog.Performs.flow_bind ⟨rfl, fun _ => trivial⟩ fun now => ?_
  refine Prog.Performs.flow_bind ⟨rfl, fun _ => trivial⟩ fun last => ?_
  show Plain (ite _ _ _)
  split_ifs
  · trivial
  · refine Prog.Performs.flow_bind ⟨rfl, fun _ => trivial⟩ fun _ => ?_
    exact Prog.Performs.flow_tryCatch ⟨rfl, fun _ => trivial⟩ fun _ => ⟨rfl, fun _ => trivial⟩

theorem plain_send (P : Platform) (service : DlqService) (reason : DlqReason) (payload : Json)
    (error : Thrown) (sendMeta : DlqSendMeta) :
    Plain (service.send P reason payload error sendMeta) := by
  refine Prog.Performs.flow_bind ⟨rfl, fun _ => trivial⟩ fun now => ?_
  refine Prog.Performs.flow_bind ⟨rfl, fun _ => trivial⟩ fun _ => ?_
  exact plain_cleanAgedEntriesThrottled P service

theorem plain_putAttempts {put : WorkerFlow Unit} (hput : Plain put) (m delay k : Nat)
    (e : Thrown) : Plain (putAttempts put m delay k e) := by
  induction k generalizing e with
  | zero => exact Prog.Performs.flow_bind (plain_logError _ _) fun _ => trivial
  | succ k ih =>
    rw [putAttempts]
    refine Prog.Performs.flow_bind (performs_caught hput) fun r => ?_
    cases r with
    | none => trivial
    | some error =>
      show Plain (ite _ _ _)
      split_ifs
      · exact Prog.Performs.flow_bind (plain_logError _ _) fun _ => trivial
      · exact Prog.Performs.flow_bind (plain_sleep _) fun _ => ih error
      · exact ih error

theorem plain_putR2BatchWithRetry {put : WorkerFlow Unit} (hput : Plain put) (P : Platform)
    (service : DlqService) (events : List CaptureEvent) (batchId : JsString)
    (options : R2RetryOptions) :
    Plain (putR2BatchWithRetry put events batchId (service.send P) options) := by
  refine Prog.Performs.flow_bind ?_ fun outcome => ?_
  · exact Prog.Performs.flow_bind (plain_ofExcept _) fun _ => plain_putAttempts hput _ _ _ _
  · cases outcome with
    | succeeded n => trivial
    | failed error attempts =>
      exact Prog.Performs.flow_bind (plain_send _ _ _ _ _ _) fun _ => trivial

theorem plain_flushBatch (P : Platform) (service : DlqService) (maxAttempts initialDelayMs : Int)
    (events : List CaptureEvent) (batchId : JsString) :
    Plain (flushBatch P ⟨service.send P, maxAttempts, initialDelayMs⟩ events batchId) := by
  cases events with
  | nil => trivial
  | cons first rest =>
    refine Prog.Performs.flow_bind ⟨rfl, fun _ => trivial⟩ fun destinations => ?_
    refine Prog.Performs.flow_bind ?_ fun _ => ?_
    · unfold logUnresolvedDestinations
      show Plain (ite _ _ _)
      split_ifs
      · trivial
      · exact plain_logError _ _
    refine Prog.Performs.flow_bind (plain_ofExcept _) fun rows => ?_
    refine Prog.Performs.flow_bind (plain_putR2BatchWithRetry ?_ _ _ _ _ _) fun outcome => ?_
    · exact Prog.Performs.flow_bind (plain_ofExcept _) fun key => ⟨rfl, fun _ => trivial⟩
    · cases outcome with
      | succeeded n => exact ⟨rfl, fun _ => trivial⟩
      | failed error attempts => trivial

/-- **The production flush** leaves the count of jobs and the accumulator alone. -/
theorem plain_productionFlush (P : Platform) (service : DlqService) (events : List CaptureEvent)
    (batchId : JsString) : Plain (productionFlush P service events batchId) :=
  performs_flushWithSplitRetryAndPoisonDlq
    ⟨fun _ _ _ => plain_flushBatch _ _ _ _ _ _, plain_sleep, plain_logError,
      show Plain (Flow.perform WorkerOp.newId) from ⟨rfl, fun _ => trivial⟩⟩
    (plain_send P service) events batchId

/-! ## A job -/

/-- What a job has performed: whether anything, what it contributes to the count of jobs, and how
the promise of its event settled. -/
structure JobTrace where
  entered : Bool
  count : Int
  answer : Option (Except Thrown Unit)

namespace JobTrace

def start : JobTrace := ⟨false, 0, none⟩

def step (t : JobTrace) : WorkerEvent → JobTrace
  | ⟨.countInFlightJob change, _⟩ => { t with entered := true, count := t.count + change }
  | ⟨.add _, r⟩ => { t with entered := true, answer := some r }
  | _ => { t with entered := true }

/-- Where a job may perform an operation. -/
def Permits (job : Job) : WorkerOp → JobTrace → Prop
  | .countInFlightJob change, t =>
    (change = 1 ∧ t.entered = false ∧ t.count = 0) ∨ (change = -1 ∧ t.count = 1)
  | .add event, t =>
    CaptureEventSchema.safeParse job.data = some event ∧ t.count = 1 ∧ t.answer = none
  | _, t => t.count = 1

/-- What a job has performed when it settles. -/
def Settled (r : Except Thrown Unit) (t : JobTrace) : Prop :=
  t.count = 0 ∧ ∀ answer, t.answer = some answer → r = answer

/-- The rest of a job, as what it has performed permits. -/
def Traced (job : Job) (rest : WorkerFlow Unit) (t : JobTrace) : Prop :=
  (Interp.monitor (Permits job) step).Wp Settled rest t

theorem entered_step (t : JobTrace) (e : WorkerEvent) : (t.step e).entered = true := by
  obtain ⟨op, r⟩ := e
  cases op <;> rfl

theorem step_of_plain {op : WorkerOp} (hop : op.plain = true) (t : JobTrace) (r : op.Response) :
    t.step ⟨op, r⟩ = { t with entered := true } := by
  cases op with
  | countInFlightJob change => cases hop
  | add event => cases hop
  | _ => rfl

theorem answer_step {op : WorkerOp} (hop : ∀ event, op ≠ .add event) (t : JobTrace)
    (r : op.Response) : (t.step ⟨op, r⟩).answer = t.answer := by
  cases op with
  | add event => exact absurd rfl (hop event)
  | _ => rfl

theorem permits_of_plain {job : Job} {op : WorkerOp} (hop : op.plain = true) {t : JobTrace}
    (ht : t.count = 1) : Permits job op t := by
  cases op with
  | countInFlightJob change => cases hop
  | add event => cases hop
  | _ => exact ht

variable {job : Job} {t : JobTrace}

/-- Plain operations change nothing of what is kept. -/
theorem ensures_of_plain {α : Type} {x : WorkerFlow α} (hx : Plain x) (hcount : t.count = 1) :
    (Interp.monitor (Permits job) step).Ensures (fun _ u => u.count = 1 ∧ u.answer = t.answer)
      (fun _ u => u.count = 1 ∧ u.answer = t.answer) x t := by
  refine Interp.ensures_of_performs hx (fun op u hop hu => permits_of_plain hop hu.1) ?_
    ⟨hcount, rfl⟩
  rintro op u r u' hop rfl hu
  rw [step_of_plain hop]
  exact hu

end JobTrace

open JobTrace

namespace EventsConsumer

variable {consumer : EventsConsumer} {job : Job} {t : JobTrace}

theorem plain_safeLog (message : JsString) (logMeta : LogMeta) : Plain (safeLog message logMeta) :=
  Prog.Performs.flow_tryCatch (plain_logError _ _) fun _ => trivial

theorem plain_routeToDlq (error : ZodError) : Plain (consumer.routeToDlq job error) := by
  refine Prog.Performs.flow_bind (Prog.Performs.flow_tryCatch (plain_send _ _ _ _ _ _)
    fun dlqError => ?_) fun _ => plain_safeLog _ _
  exact Prog.Performs.flow_bind (plain_safeLog _ _) fun _ => trivial

/-- The logger does not fail. -/
theorem ensures_safeLog (message : JsString) (logMeta : LogMeta) (hcount : t.count = 1) :
    (Interp.monitor (Permits job) JobTrace.step).Ensures
      (fun _ u => u.count = 1 ∧ u.answer = t.answer) (fun _ _ => False) (safeLog message logMeta)
      t :=
  Interp.ensures_tryCatch (Interp.Ensures.mono (ensures_of_plain (plain_logError _ _) hcount)
    (fun _ _ h => h) fun _ _ hu => Interp.ensures_pure hu)

/-- **Theorem (`process_traced`).** -/
theorem process_traced (consumer : EventsConsumer) (job : Job) :
    Traced job (consumer.process job) JobTrace.start := by
  refine Interp.wp_monitor (Or.inl ⟨rfl, rfl, rfl⟩) fun _ => ?_
  show (Interp.monitor _ _).Wp _ (Flow.tryFinally _ _) _
  refine Interp.wp_seq (?_ : (Interp.monitor (Permits job) JobTrace.step).Wp (fun r u =>
    u.count = 1 ∧ ∀ answer, u.answer = some answer → r = answer) _ _) fun r u hu => ?_
  · cases hparse : CaptureEventSchema.safeParse job.data with
    | none =>
      refine Interp.Wp.mono (ensures_of_plain (plain_routeToDlq _) rfl) fun r u hu => ?_
      have hu : u.count = 1 ∧ u.answer = none := by
        cases r <;> exact hu
      exact ⟨hu.1, fun answer ha => by rw [hu.2] at ha; cases ha⟩
    | some event =>
      dsimp only
      rw [Flow.tryCatch_eq]
      refine Interp.wp_monitor ⟨hparse, rfl, rfl⟩ fun answer => ?_
      cases answer with
      | ok u => exact ⟨rfl, fun answer ha => by cases ha; rfl⟩
      | error error =>
        -- the logger has no part in the outcome
        have hrest : ∀ message logMeta u, u.count = 1 → u.answer = some (.error error) →
            (Interp.monitor (Permits job) JobTrace.step).Ensures (fun _ _ => False)
              (fun e v => e = error ∧ v.count = 1 ∧ v.answer = some (.error error))
              (do safeLog message logMeta; throw error : WorkerFlow Unit) u :=
          fun message logMeta u hcount hanswer => Interp.ensures_seq (Interp.Ensures.mono
            (ensures_safeLog message logMeta hcount) (fun _ _ h => h) fun _ _ h => h.elim)
            fun _ v hv => Interp.ensures_throw ⟨rfl, hv.1, hv.2.trans hanswer⟩
        refine Interp.Wp.mono (hrest _ _ _ rfl rfl) fun r u hu => ?_
        cases r with
        | ok a => exact hu.elim
        | error e =>
          obtain ⟨rfl, hcount, hanswer⟩ := hu
          exact ⟨hcount, fun answer ha => Option.some.inj (hanswer.symm.trans ha)⟩
  · refine Interp.wp_monitor (Or.inr ⟨rfl, hu.1⟩) fun _ => ⟨?_, hu.2⟩
    show u.count + -1 = 0
    rw [hu.1]
    rfl

end EventsConsumer

end Posta
