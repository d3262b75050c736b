import Posta.Contracts.Capture
import Posta.Interaction.Logic
import Posta.Core.Platform
import Posta.Worker.ClassifyFlushError

/-!
# Retry with bisection

A batch that keeps failing is retried, and split in two when its last failure is a fault of its
rows; a single event that still fails is isolated as poison. A failure of the infrastructure is
never split: it rejects the whole call.

**Nodes** (`Node`). The sub-batches form a binary tree. A node is the path of halves from the
root, and the flush function is handed the node beside the arguments of the source: it is a
label for the statements, and no definition looks at it.

The embedding is over any set of operations; the flush function, the timer, the logger and the
classification are parameters, as they are in the source.
-/

namespace Posta

open Js Interaction

/-- The halves taken from the root: `false` for the left one, `true` for the right one. -/
abbrev Node := List Bool

structure PoisonedEvent where
  event : CaptureEvent
  error : Thrown

structure SplitRetryResult where
  committedEvents : List CaptureEvent
  poisonEvents : List PoisonedEvent

def natJson (n : Nat) : Json := .num (JsNumber.ofNat n)

/-- What `attemptBatch` is given besides the batch. -/
structure SplitRetryEnv (ι : Type) (ρ : ι → Type) where
  flushBatch : Node → List CaptureEvent → JsString → Flow ι ρ Thrown Unit
  sleep : Nat → Flow ι ρ Thrown Unit
  logError : JsString → LogMeta → Flow ι ρ Thrown Unit
  newId : Flow ι ρ Thrown JsString
  classify : Thrown → FlushErrorClassification

variable {ι : Type} {ρ : ι → Type}

/-- The attempts that remain of one sub-batch: `none` after a flush that succeeded, else the
last error. The delay doubles with each attempt, and none follows the last one. -/
def flushAttempts (flush : Flow ι ρ Thrown Unit) (sleep : Nat → Flow ι ρ Thrown Unit)
    (maxAttempts initialDelayMs : Nat) : Nat → Thrown → Flow ι ρ Thrown (Option Thrown)
  | 0, lastError => pure (some lastError)
  | remaining + 1, _ => do
    let attempt := maxAttempts - remaining
    match ← tryCatch (do flush; pure none) (fun error => pure (some error)) with
    | none => pure none
    | some error => do
      if attempt < maxAttempts then sleep (initialDelayMs * 2 ^ (attempt - 1))
      flushAttempts flush sleep maxAttempts initialDelayMs remaining error

def infrastructureMessage (size maxAttempts : Nat) (message : JsString) : JsString :=
  lit "retryWithSplit: sub-batch of " ++ natText size ++ lit " event(s) failed " ++
    natText maxAttempts ++ lit " attempt(s) with an infrastructure error, rejecting rather than " ++
    lit "splitting: " ++ message

def poisonMessage (eventId : JsString) (maxAttempts : Nat) (message : JsString) : JsString :=
  lit "retryWithSplit: isolated poison event " ++ eventId ++ lit " after " ++
    natText maxAttempts ++ lit " failed attempt(s): " ++ message

def splittingMessage (size maxAttempts : Nat) (message : JsString) : JsString :=
  lit "retryWithSplit: batch of " ++ natText size ++ lit " event(s) failed " ++
    natText maxAttempts ++ lit " attempt(s), splitting to isolate the failure: " ++ message

/-- `Math.ceil(n / 2)`. -/
def midpoint (n : Nat) : Nat := (n + 1) / 2

/-- `lastError` before the first attempt. -/
def noError : Thrown := .value (lit "undefined")

/-- One sub-batch. It is never called on an empty one, and its halves are not empty. -/
def attemptBatch (env : SplitRetryEnv ι ρ) (maxAttempts initialDelayMs : Nat) (node : Node)
    (events : List CaptureEvent) (hne : events ≠ []) (batchId : JsString) :
    Flow ι ρ Thrown SplitRetryResult := do
  match ← flushAttempts (env.flushBatch node events batchId) env.sleep maxAttempts initialDelayMs
      maxAttempts noError with
  | none => pure ⟨events, []⟩
  | some lastError =>
    let message := lastError.errorMessage
    if env.classify lastError = .infrastructure then do
      env.logError (infrastructureMessage events.length maxAttempts message)
        [(lit "batchSize", natJson events.length), (lit "attempts", natJson maxAttempts)]
      throw lastError.toError
    else if _h : events.length = 1 then do
      let poisonEvent := events.head hne
      env.logError (poisonMessage poisonEvent.eventId.1 maxAttempts message)
        [(lit "eventId", .str poisonEvent.eventId.1), (lit "attempts", natJson maxAttempts)]
      pure ⟨[], [⟨poisonEvent, lastError.toError⟩]⟩
    else do
      env.logError (splittingMessage events.length maxAttempts message)
        [(lit "batchSize", natJson events.length), (lit "attempts", natJson maxAttempts)]
      let mid := midpoint events.length
      have hlen : 0 < events.length := List.length_pos_iff.mpr hne
      have hleft : events.take mid ≠ [] := by
        rw [ne_eq, List.take_eq_nil_iff, not_or]
        exact ⟨by simp only [mid, midpoint]; omega, hne⟩
      have hright : events.drop mid ≠ [] := by
        rw [ne_eq, List.drop_eq_nil_iff]
        simp only [mid, midpoint]
        omega
      let leftResult ← attemptBatch env maxAttempts initialDelayMs (node ++ [false])
        (events.take mid) hleft (batchId ++ lit ".0")
      let rightResult ← attemptBatch env maxAttempts initialDelayMs (node ++ [true])
        (events.drop mid) hright (batchId ++ lit ".1")
      pure ⟨leftResult.committedEvents ++ rightResult.committedEvents,
        leftResult.poisonEvents ++ rightResult.poisonEvents⟩
termination_by events.length
decreasing_by
  · simp only [List.length_take, midpoint]
    omega
  · simp only [List.length_drop, midpoint]
    omega

structure SplitRetryOptions where
  maxAttemptsPerBatch : Int
  initialDelayMs : Int
  batchId : Option JsString

def SplitRetryOptions.validate (options : SplitRetryOptions) : Except Thrown Unit :=
  if options.maxAttemptsPerBatch ≤ 0 then
    .error (.new (lit "retryWithSplit maxAttemptsPerBatch must be a positive integer; received " ++
      intText options.maxAttemptsPerBatch))
  else if options.initialDelayMs < 0 then
    .error (.new (lit "retryWithSplit initialDelayMs must be a non-negative integer; received " ++
      intText options.initialDelayMs))
  else .ok ()

/-- Retry a batch, splitting it as far as its failures demand. -/
def retryWithSplit (env : SplitRetryEnv ι ρ) (events : List CaptureEvent)
    (options : SplitRetryOptions) : Flow ι ρ Thrown SplitRetryResult := do
  Flow.ofExcept options.validate
  if hne : events = [] then pure ⟨[], []⟩
  else do
    let batchId ← match options.batchId with
      | some batchId => pure batchId
      | none => env.newId
    attemptBatch env options.maxAttemptsPerBatch.toNat options.initialDelayMs.toNat [] events hne
      batchId

/-! ## Poison goes to the dead-letter queue -/

inductive DlqReason where
  | schemaValidationFailed
  | attemptsExhausted
  | flushPoison
  | r2PutFailed
deriving DecidableEq

structure EventsDlqIssue where
  path : JsString
  message : JsString
  code : JsString

structure DlqSendMeta where
  originalJobId : JsString
  attemptsMade : Nat
  issues : List EventsDlqIssue := []

/-- `send` of a dead-letter sink. -/
abbrev DlqSend (ι : Type) (ρ : ι → Type) :=
  DlqReason → Json → Thrown → DlqSendMeta → Flow ι ρ Thrown Unit

/-- One entry for each poisoned event, one after another. -/
def sendPoisonEventsToDlq (send : DlqSend ι ρ) : List PoisonedEvent → DlqSendMeta →
    Flow ι ρ Thrown Unit
  | [], _ => pure ()
  | poisoned :: poisonEvents, sendMeta => do
    send .flushPoison poisoned.event.toJson poisoned.error sendMeta
    sendPoisonEventsToDlq send poisonEvents sendMeta

def splitRetryMaxAttemptsPerBatch : Nat := 3

def splitRetryInitialDelayMs : Nat := 150

/-- The flush of the production accumulator: bisection, then the poison to the dead-letter
queue. -/
def flushWithSplitRetryAndPoisonDlq (env : SplitRetryEnv ι ρ) (send : DlqSend ι ρ)
    (events : List CaptureEvent) (batchId : JsString) : Flow ι ρ Thrown Unit := do
  let result ← retryWithSplit env events
    ⟨splitRetryMaxAttemptsPerBatch, splitRetryInitialDelayMs, some batchId⟩
  sendPoisonEventsToDlq send result.poisonEvents
    { originalJobId := batchId, attemptsMade := splitRetryMaxAttemptsPerBatch }

end Posta
