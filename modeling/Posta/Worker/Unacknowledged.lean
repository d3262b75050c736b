import Posta.Worker.AccumulatorRuns
import Posta.Worker.Consumer
import Posta.Worker.Infrastructure

/-!
# An outage never becomes poison

A failure of the infrastructure rejects the composed flush, the rejection reaches every promise
of the batch (`runFlush_outcome`), and the job behind each promise rejects with it
(`process_add`), so that it is not acknowledged.

**Theorem (`infrastructure_never_poison`).** All of this from any failing node; and in the other
direction, only a singleton that used up its attempts on a row fault becomes poison.
-/

namespace Posta

open Js Interaction

namespace EventsConsumer

variable {consumer : EventsConsumer} {job : Job} {event : CaptureEvent}

/-- What becomes of a job whose `add` was answered. -/
theorem runs_sink {answer r : Except Thrown Unit} {h : List WorkerEvent} {message : Thrown → JsString}
    {logMeta : LogMeta}
    (hr : Runs (Flow.onError (fun error => do
      safeLog (message error) logMeta
      throw error) answer : WorkerFlow Unit) h (.done r)) :
    r = answer ∧ ∀ e ∈ h, ∀ event answer', e ≠ ⟨.add event, answer'⟩ := by
  cases answer with
  | ok u =>
    obtain ⟨rfl, rfl⟩ := Runs.done_eq hr
    exact ⟨rfl, fun e he => absurd he List.not_mem_nil⟩
  | error error =>
    rcases hr.call_inv with ⟨-, hq⟩ | ⟨logged, h', rfl, hr'⟩
    · cases hq
    · have hdone : r = .error error ∧ h' = [] := by
        cases logged with
        | ok u =>
          obtain ⟨hnil, hres⟩ := Runs.done_eq hr'
          exact ⟨hres, hnil⟩
        | error e =>
          obtain ⟨hnil, hres⟩ := Runs.done_eq hr'
          exact ⟨hres, hnil⟩
      obtain ⟨rfl, rfl⟩ := hdone
      refine ⟨rfl, fun e he event answer' heq => ?_⟩
      rw [List.mem_singleton.mp he] at heq
      cases heq

/-- **A job settles as its `add` does.** -/
theorem process_add (hvalid : CaptureEventSchema.safeParse job.data = some event)
    {h : List WorkerEvent} {r answer : Except Thrown Unit}
    (hr : Runs (consumer.process job) h (.done r))
    (hadd : (⟨.add event, answer⟩ : WorkerEvent) ∈ h) : r = answer := by
  rcases Runs.call_inv (show Runs (Prog.call (.countInFlightJob 1) _) h (.done r) from hr) with
    ⟨-, hq⟩ | ⟨counted, h', rfl, hrest⟩
  · cases hq
  obtain ⟨result, b, h₁, h₂, rfl, hbody, hfinal, hresult⟩ := Runs.tryFinally_done_inv hrest
  -- the counter of jobs in flight has no part in the outcome
  have hdone : r = result ∧ ∀ e ∈ h₂, ∀ answer', e ≠ ⟨.add event, answer'⟩ := by
    obtain ⟨u, rfl, hb⟩ := Runs.perform_done_inv hfinal
    refine ⟨hresult u hb, fun e he answer' heq => ?_⟩
    rw [List.mem_singleton.mp he] at heq
    cases heq
  obtain ⟨rfl, hno⟩ := hdone
  rw [hvalid] at hbody
  dsimp only at hbody
  rw [Flow.tryCatch_eq] at hbody
  obtain ⟨answer', h₃, h₄, rfl, hadded, hcaught⟩ := hbody.bind_done_inv
  obtain ⟨rfl, hno'⟩ := runs_sink hcaught
  obtain rfl := Runs.await_done_inv hadded
  rcases List.mem_cons.mp hadd with heq | hadd
  · cases heq
  rcases List.mem_append.mp hadd with hadd | hadd
  · rcases List.mem_append.mp hadd with hadd | hadd
    · rw [List.mem_singleton] at hadd
      cases hadd
      rfl
    · exact absurd rfl (hno' _ hadd event answer)
  · exact absurd rfl (hno _ hadd answer)

end EventsConsumer

/-- Whatever comes next, the program ends with the error. -/
def RejectsWith {ι : Type} {ρ : ι → Type} {α : Type} (q : Flow ι ρ Thrown α) (error : Thrown) :
    Prop :=
  (∃ h', Runs q h' (.done (.error error))) ∧ ∀ h' r, Runs q h' (.done r) → r = .error error

/-- **Theorem (`infrastructure_never_poison`).** Once the last attempt of a node has failed with a
failure of the infrastructure, `retryWithSplit` rejects with that error and flushes no more; the
composed flush rejects with it, having sent nothing to the dead-letter queue; so do the promises of
the batch and the jobs that wait for them. And whatever is reported as poison used up the attempts
of a singleton of its own, the last one on a row fault. -/
theorem infrastructure_never_poison :
    (∀ (events : List CaptureEvent) (options : SplitRetryOptions) (h : List SplitEvent)
      (q : Flow SplitOp SplitOp.Response Thrown SplitRetryResult) (cs₁ cs₂ : List FlushCall)
      (c : FlushCall) (error : Thrown),
      Runs (retryWithSplit splitEnv events options) h q → flushCalls h = cs₁ ++ c :: cs₂ →
      InfrastructureFailure options.maxAttemptsPerBatch.toNat cs₁ c error →
      cs₂ = [] ∧ (∀ h' q', Runs q h' q' → flushCalls h' = []) ∧ RejectsWith q error.toError ∧
        (error.isError = true → error.toError = error)) ∧
    (∀ (events : List CaptureEvent) (batchId : JsString) (h : List SplitEvent)
      (q : Flow SplitOp SplitOp.Response Thrown Unit) (cs₁ cs₂ : List FlushCall)
      (c : FlushCall) (error : Thrown),
      Runs (flushWithSplitRetryAndPoisonDlq splitEnv splitDlq events batchId) h q →
      flushCalls h = cs₁ ++ c :: cs₂ →
      InfrastructureFailure splitRetryMaxAttemptsPerBatch cs₁ c error →
      RejectsWith q error.toError ∧ ∀ h' q', Runs q h' q' → ∀ e ∈ h ++ h', ¬IsDlqSend e.1) ∧
    (∀ (events : List CaptureEvent) (batchId : JsString) (waiters : List Nat)
      (h : List (Event (AccOp CaptureEvent) AccOp.Response)) (q : AccFlow CaptureEvent Unit)
      (error : Thrown), Runs (runFlush events batchId waiters) h q →
      (⟨.flush events batchId, .error error⟩ : Event (AccOp CaptureEvent) AccOp.Response) ∈ h →
      ∀ e ∈ h, ∀ w outcome, e.1.settlement = some (w, outcome) → outcome = .error error) ∧
    (∀ (consumer : EventsConsumer) (job : Job) (event : CaptureEvent) (h : List WorkerEvent)
      (r : Except Thrown Unit) (error : Thrown),
      CaptureEventSchema.safeParse job.data = some event →
      Runs (consumer.process job) h (.done r) →
      (⟨.add event, .error error⟩ : WorkerEvent) ∈ h → r = .error error) ∧
    (∀ (events : List CaptureEvent) (options : SplitRetryOptions) (h : List SplitEvent)
      (result : SplitRetryResult),
      Runs (retryWithSplit splitEnv events options) h (.done (.ok result)) →
      ∀ p ∈ result.poisonEvents,
        JustifiedPoison options.maxAttemptsPerBatch.toNat (flushCalls h) p) ∧
    (∀ (events : List CaptureEvent) (batchId : JsString) (h : List SplitEvent)
      (q : Flow SplitOp SplitOp.Response Thrown Unit) (reason : DlqReason) (payload : Json)
      (error : Thrown) (sendMeta : DlqSendMeta) (response : Except Thrown Unit),
      Runs (flushWithSplitRetryAndPoisonDlq splitEnv splitDlq events batchId) h q →
      (⟨.dlqSend reason payload error sendMeta, response⟩ : SplitEvent) ∈ h →
      ∃ p, JustifiedPoison splitRetryMaxAttemptsPerBatch (flushCalls h) p ∧
        reason = .flushPoison ∧ payload = p.event.toJson ∧ error = p.error) := by
  refine ⟨?_, ?_, ?_, ?_, ?_, ?_⟩
  · intro events options h q cs₁ cs₂ c error hr hcalls hf
    obtain ⟨hnil, hends, hall⟩ := retryWithSplit_infrastructure hr hcalls hf
    refine ⟨hnil, fun h' q' hq => ?_, ⟨hends, fun h' r hq => (hall h' r hq).2⟩,
      Thrown.toError_of_isError⟩
    obtain ⟨h'', r, hq'⟩ := exists_finish q'
    have hcalls' := (hall _ r (hq.append hq')).1
    rw [flushCalls_append] at hcalls'
    exact (List.append_eq_nil_iff.mp hcalls').1
  · intro events batchId h q cs₁ cs₂ c error hr hcalls hf
    obtain ⟨hends, hall⟩ := composed_infrastructure hr hcalls hf
    refine ⟨⟨hends, fun h' r hq => (hall h' r hq).1⟩, fun h' q' hq e he => ?_⟩
    obtain ⟨h'', r, hq'⟩ := exists_finish q'
    refine (hall _ r (hq.append hq')).2 e ?_
    rw [← List.append_assoc]
    exact List.mem_append_left _ he
  · intro events batchId waiters h q error hr hflush
    exact runFlush_outcome hr hflush
  · intro consumer job event h r error hvalid hr hadd
    exact EventsConsumer.process_add hvalid hr hadd
  · intro events options h result hr p hp
    exact justified_of_mem hr hp
  · intro events batchId h q reason payload error sendMeta response hr he
    exact composed_sends hr he

/-- One attempt, on an event that meets a lost connection. -/
theorem infrastructure_never_poison_outage :
    ∃ q, Runs (retryWithSplit splitEnv [.plain (lit "a")] ⟨1, 150, some (lit "batch")⟩)
        [⟨.flush [] [.plain (lit "a")] (lit "batch"), .error (.new (lit "ECONNREFUSED"))⟩] q ∧
      RejectsWith q (.new (lit "ECONNREFUSED")) := by
  let outage : Except Thrown Unit := .error (.new (lit "ECONNREFUSED"))
  have hfirst : ∃ q, Runs (retryWithSplit splitEnv [.plain (lit "a")] ⟨1, 150, some (lit "batch")⟩)
      [⟨.flush [] [.plain (lit "a")] (lit "batch"), outage⟩] q :=
    runs_first_flush (List.cons_ne_nil _ _) (by decide) (by decide) outage
  obtain ⟨q, hq⟩ := hfirst
  exact ⟨q, hq, (infrastructure_never_poison.1 _ _ _ q [] [] _ _ hq rfl
    ⟨rfl, rfl, by decide⟩).2.2.1⟩

end Posta
