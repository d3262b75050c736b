import Posta.Worker.Poison
import Posta.Worker.SplitRetryLogic

/-!
# A failure of the infrastructure rejects the call

Whatever the flush function does, and wherever in the recursion it happens: when the last
attempt of a node fails with an error of the infrastructure, the call makes no further flush
and rejects with that error, and the composed flush sends nothing to the dead-letter queue.

**Unfinished runs.** A run that has got as far as the failing attempt need not have finished.
Every way to finish it is a finished run with the same failing attempt, to which
`BatchRun.infrastructure_last` applies.
-/

namespace Posta

open Js Interaction Interaction.Env
open BatchRun (OwnSingleton sameNode infrastructure_last)

/-- The dead-letter queue of the bisection: an operation that may fail. -/
def splitDlq : DlqSend SplitOp SplitOp.Response := fun reason payload error sendMeta =>
  .call (.dlqSend reason payload error sendMeta) .done

/-- The last attempt of a node failed with `error`, a failure of the infrastructure; `earlier`
are the flush calls before it. -/
structure InfrastructureFailure (m : Nat) (earlier : List FlushCall) (c : FlushCall)
    (error : Thrown) : Prop where
  failed : c.outcome = .error error
  last : (sameNode c earlier).length + 1 = m
  infrastructure : classifyFlushError error = .infrastructure

variable {events : List CaptureEvent} {options : SplitRetryOptions} {batchId : JsString}
  {h : List SplitEvent} {cs₁ cs₂ : List FlushCall} {c : FlushCall} {error : Thrown}

theorem infrastructure_finished {r : Except Thrown SplitRetryResult}
    (hr : Runs (retryWithSplit splitEnv events options) h (.done r))
    (hcalls : flushCalls h = cs₁ ++ c :: cs₂)
    (hf : InfrastructureFailure options.maxAttemptsPerBatch.toNat cs₁ c error) :
    cs₂ = [] ∧ r = .error error.toError := by
  rcases runs_retryWithSplit hr with ⟨hnil, -⟩ | ⟨-, -, hnil, -⟩ | ⟨-, hne, batchId, -, hrun⟩
  · simp [hnil] at hcalls
  · simp [hnil] at hcalls
  · exact infrastructure_last hrun hcalls hf.failed hf.last hf.infrastructure

/-- **The call rejects.** It has made no flush call after the failing one, makes none in any
continuation, and every continuation ends in the error. -/
theorem retryWithSplit_infrastructure
    {q : Flow SplitOp SplitOp.Response Thrown SplitRetryResult}
    (hr : Runs (retryWithSplit splitEnv events options) h q)
    (hcalls : flushCalls h = cs₁ ++ c :: cs₂)
    (hf : InfrastructureFailure options.maxAttemptsPerBatch.toNat cs₁ c error) :
    cs₂ = [] ∧ (∃ h', Runs q h' (.done (.error error.toError))) ∧
      ∀ h' r, Runs q h' (.done r) → flushCalls h' = [] ∧ r = .error error.toError := by
  have hfinish : ∀ h' r, Runs q h' (.done r) →
      cs₂ ++ flushCalls h' = [] ∧ r = .error error.toError := fun h' r hq =>
    infrastructure_finished (hr.append hq)
      (by rw [flushCalls_append, hcalls, List.append_assoc, List.cons_append]) hf
  obtain ⟨h', r, hq⟩ := exists_finish q
  obtain ⟨hnil, rfl⟩ := hfinish h' r hq
  refine ⟨(List.append_eq_nil_iff.mp hnil).1, ⟨h', hq⟩, fun h'' r hq' => ?_⟩
  obtain ⟨hnil', hr'⟩ := hfinish h'' r hq'
  exact ⟨(List.append_eq_nil_iff.mp hnil').2, hr'⟩

/-! ## The composed flush -/

/-- An entry of the dead-letter queue. -/
def IsDlqSend : SplitOp → Prop
  | .dlqSend .. => True
  | _ => False

/-- An entry for one of these poisoned events. -/
def SplitOp.SendsPoison (poisonEvents : List PoisonedEvent) (sendMeta : DlqSendMeta) :
    SplitOp → Prop
  | .dlqSend reason payload error m =>
    reason = .flushPoison ∧ m = sendMeta ∧
      ∃ p ∈ poisonEvents, payload = p.event.toJson ∧ error = p.error
  | _ => False

/-- The bisection itself sends nothing to the dead-letter queue. -/
theorem retryWithSplit_sends_nothing
    {q : Flow SplitOp SplitOp.Response Thrown SplitRetryResult}
    (hid : options.batchId = some batchId)
    (hr : Runs (retryWithSplit splitEnv events options) h q) : ∀ e ∈ h, ¬IsDlqSend e.1 := by
  have hcall : ∀ {α : Type} {op : SplitOp} {k : op.Response → Flow SplitOp SplitOp.Response Thrown α},
      ¬IsDlqSend op → (∀ r, ∃ s, k r = Prog.done s) →
      (watching fun op => ¬IsDlqSend op).Completes (Prog.call op k : Flow _ _ _ _) () := by
    intro α op k hop hk
    refine ensures_call (fun _ _ => hop) fun _ _ r _ _ => ?_
    obtain ⟨s, hs⟩ := hk r
    rw [hs]
    cases s <;> exact fun _ _ => trivial
  have hbatch : FlushesBatch (watching fun op => ¬IsDlqSend op) splitEnv (fun _ _ => True) events
      batchId () :=
    { stable := fun _ _ => trivial
      flush := fun _ _ _ _ => Ensures.mono (hcall id fun r => ⟨r, rfl⟩) (fun _ _ _ _ _ => trivial)
        fun _ _ _ => trivial
      sleep := fun _ _ _ => hcall id fun r => ⟨_, rfl⟩
      logError := fun _ _ _ _ => hcall id fun r => ⟨_, rfl⟩ }
  exact (performed_of_holds (ensures_retryWithSplit hid hbatch) hr).1

/-- What the dead-letter phase sends. -/
theorem sendPoisonEventsToDlq_performs {poisonEvents : List PoisonedEvent} {sendMeta : DlqSendMeta}
    {q : Flow SplitOp SplitOp.Response Thrown Unit}
    (hr : Runs (sendPoisonEventsToDlq splitDlq poisonEvents sendMeta) h q) :
    ∀ e ∈ h, SplitOp.SendsPoison poisonEvents sendMeta e.1 := by
  let E : Env SplitOp SplitOp.Response Unit := watching (SplitOp.SendsPoison poisonEvents sendMeta)
  have hsend : ∀ p ∈ poisonEvents, ∀ v, E.rely () v → E.Ensures (fun _ _ => True)
      (fun _ _ => True) (splitDlq .flushPoison p.event.toJson p.error sendMeta) v := by
    intro p hp v _
    refine ensures_call (fun _ _ => ⟨rfl, rfl, p, hp, rfl, rfl⟩) fun _ _ r _ _ => ?_
    cases r <;> exact fun _ _ => trivial
  have hall := ensures_sendPoisonEventsToDlq (fun (_ : PoisonedEvent) _ _ _ (h : True) => h)
    poisonEvents hsend
  exact (performed_of_holds hall hr).1

theorem flushCalls_eq_nil {poisonEvents : List PoisonedEvent} {sendMeta : DlqSendMeta}
    (hall : ∀ e ∈ h, SplitOp.SendsPoison poisonEvents sendMeta e.1) : flushCalls h = [] := by
  rw [flushCalls, List.filterMap_eq_nil_iff]
  rintro ⟨op, response⟩ he
  cases op with
  | flush => exact (hall _ he).elim
  | _ => rfl

/-- The options of the composed flush. -/
abbrev composedOptions (batchId : JsString) : SplitRetryOptions :=
  ⟨splitRetryMaxAttemptsPerBatch, splitRetryInitialDelayMs, some batchId⟩

/-- A finished run of the composed flush: the bisection rejected, or it returned and its poison
was sent. -/
theorem runs_composed {u : Except Thrown Unit}
    (hr : Runs (flushWithSplitRetryAndPoisonDlq splitEnv splitDlq events batchId) h (.done u)) :
    (∃ e, u = .error e ∧
      Runs (retryWithSplit splitEnv events (composedOptions batchId)) h (.done (.error e))) ∨
    (∃ result h₁ h₂, h = h₁ ++ h₂ ∧
      Runs (retryWithSplit splitEnv events (composedOptions batchId)) h₁ (.done (.ok result)) ∧
      ∀ e ∈ h₂, SplitOp.SendsPoison result.poisonEvents
        { originalJobId := batchId, attemptsMade := splitRetryMaxAttemptsPerBatch } e.1) := by
  rw [flushWithSplitRetryAndPoisonDlq, Flow.bind_eq] at hr
  obtain ⟨a, h₁, h₂, rfl, hretry, hrest⟩ := hr.bind_done_inv
  cases a with
  | error e =>
    obtain ⟨rfl, rfl⟩ := Runs.done_eq hrest
    rw [List.append_nil]
    exact Or.inl ⟨e, rfl, hretry⟩
  | ok result =>
    exact Or.inr ⟨result, h₁, h₂, rfl, hretry, sendPoisonEventsToDlq_performs hrest⟩

theorem composed_finished {u : Except Thrown Unit}
    (hr : Runs (flushWithSplitRetryAndPoisonDlq splitEnv splitDlq events batchId) h (.done u))
    (hcalls : flushCalls h = cs₁ ++ c :: cs₂)
    (hf : InfrastructureFailure splitRetryMaxAttemptsPerBatch cs₁ c error) :
    cs₂ = [] ∧ u = .error error.toError ∧ ∀ e ∈ h, ¬IsDlqSend e.1 := by
  rcases runs_composed hr with ⟨e, rfl, hretry⟩ | ⟨result, h₁, h₂, rfl, hretry, hsends⟩
  · obtain ⟨hnil, he⟩ := infrastructure_finished hretry hcalls hf
    cases he
    exact ⟨hnil, rfl, retryWithSplit_sends_nothing rfl hretry⟩
  · rw [flushCalls_append, flushCalls_eq_nil hsends, List.append_nil] at hcalls
    cases (infrastructure_finished hretry hcalls hf).2

/-- **The composed flush rejects**, and the dead-letter queue receives nothing. -/
theorem composed_infrastructure {q : Flow SplitOp SplitOp.Response Thrown Unit}
    (hr : Runs (flushWithSplitRetryAndPoisonDlq splitEnv splitDlq events batchId) h q)
    (hcalls : flushCalls h = cs₁ ++ c :: cs₂)
    (hf : InfrastructureFailure splitRetryMaxAttemptsPerBatch cs₁ c error) :
    (∃ h', Runs q h' (.done (.error error.toError))) ∧
      ∀ h' u, Runs q h' (.done u) →
        u = .error error.toError ∧ ∀ e ∈ h ++ h', ¬IsDlqSend e.1 := by
  have hfinish : ∀ h' u, Runs q h' (.done u) →
      cs₂ ++ flushCalls h' = [] ∧ u = .error error.toError ∧ ∀ e ∈ h ++ h', ¬IsDlqSend e.1 :=
    fun h' u hq => composed_finished (hr.append hq)
      (by rw [flushCalls_append, hcalls, List.append_assoc, List.cons_append]) hf
  obtain ⟨h', u, hq⟩ := exists_finish q
  obtain ⟨-, rfl, -⟩ := hfinish h' u hq
  exact ⟨⟨h', hq⟩, fun h' u hq => (hfinish h' u hq).2⟩

/-- The event of the entry used up the attempts of its own sub-batch, and the last one failed with
an SQLSTATE of a class of row faults. -/
structure JustifiedPoison (m : Nat) (calls : List FlushCall) (p : PoisonedEvent) : Prop where
  own : ∃ node batchId errors, OwnSingleton m calls p node batchId errors
  sqlstate : ∃ sqlstate, extractSqlState p.error = some sqlstate ∧
    sqlstate.take 2 ∈ rowFaultSqlstateClasses

/-- **Poison only from row faults.** -/
theorem justified_of_mem {result : SplitRetryResult}
    (hr : Runs (retryWithSplit splitEnv events options) h (.done (.ok result)))
    {p : PoisonedEvent} (hp : p ∈ result.poisonEvents) :
    JustifiedPoison options.maxAttemptsPerBatch.toNat (flushCalls h) p := by
  rcases runs_retryWithSplit hr with ⟨-, e, -, he⟩ | ⟨-, -, -, hres⟩ | ⟨-, hne, batchId, -, hrun⟩
  · cases he
  · cases hres
    cases hp
  · obtain ⟨path, errors, own⟩ := hrun.ownSingleton_of_mem rfl hp
    exact ⟨⟨_, _, errors, own⟩, classifyFlushError_rowFault.mp own.rowFault⟩

/-- **Every dead-letter entry of the composed flush** is that of a justified poisoned event. -/
theorem composed_sends {q : Flow SplitOp SplitOp.Response Thrown Unit}
    (hr : Runs (flushWithSplitRetryAndPoisonDlq splitEnv splitDlq events batchId) h q)
    {reason : DlqReason} {payload : Json} {err : Thrown} {sendMeta : DlqSendMeta}
    {response : Except Thrown Unit}
    (he : (⟨.dlqSend reason payload err sendMeta, response⟩ : SplitEvent) ∈ h) :
    ∃ p, JustifiedPoison splitRetryMaxAttemptsPerBatch (flushCalls h) p ∧
      reason = .flushPoison ∧ payload = p.event.toJson ∧ err = p.error := by
  obtain ⟨h', u, hq⟩ := exists_finish q
  rcases runs_composed (hr.append hq) with ⟨e, -, hretry⟩ |
    ⟨result, h₁, h₂, hsplit, hretry, hsends⟩
  · exact (retryWithSplit_sends_nothing rfl hretry _ (List.mem_append_left _ he) trivial).elim
  · have hno := retryWithSplit_sends_nothing rfl hretry
    -- the entry is in the run so far, so the bisection is over
    rcases List.append_eq_append_iff.mp hsplit with ⟨t, rfl, -⟩ | ⟨t, rfl, rfl⟩
    · exact (hno _ (List.mem_append_left _ he) trivial).elim
    · rcases List.mem_append.mp he with he | he
      · exact (hno _ he trivial).elim
      · have hsends' := fun e he => hsends e (List.mem_append_left _ he)
        obtain ⟨hreason, -, p, hp, hpayload, herr⟩ := hsends' _ he
        refine ⟨p, ?_, hreason, hpayload, herr⟩
        rw [flushCalls_append, flushCalls_eq_nil hsends', List.append_nil]
        exact justified_of_mem hretry hp

end Posta
