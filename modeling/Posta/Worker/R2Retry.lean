import Posta.Worker.Operations

/-!
# Retrying a write to the event log

A write that fails is retried as long as its error may pass. A batch that could not be written
goes to the dead-letter queue as a whole, and only if that works as well the call returns.
-/

namespace Posta

open Js Interaction

inductive R2ErrorClassification where
  | retryable
  | nonRetryable
deriving DecidableEq

def R2ErrorClassification.text : R2ErrorClassification → JsString
  | .retryable => lit "retryable"
  | .nonRetryable => lit "non-retryable"

def retryableTransportErrorNames : List JsString := [lit "TimeoutError"]

def retryableTransportErrorCodes : List JsString :=
  [lit "ECONNRESET", lit "EPIPE", lit "ETIMEDOUT", lit "ECONNREFUSED"]

def classifyR2Error : Thrown → R2ErrorClassification
  | .value _ => .nonRetryable
  | .error name _ code throttling httpStatusCode _ =>
    if retryableTransportErrorNames.contains name then .retryable
    else if code.any retryableTransportErrorCodes.contains then .retryable
    else if throttling then .retryable
    else match httpStatusCode with
      | some statusCode =>
        if statusCode = 429 ∨ (500 ≤ statusCode ∧ statusCode ≤ 599) then .retryable
        else .nonRetryable
      | none => .nonRetryable

structure R2RetryOptions where
  maxAttempts : Int
  initialDelayMs : Int

def R2RetryOptions.validate (options : R2RetryOptions) : Except Thrown Unit :=
  if options.maxAttempts ≤ 0 then
    .error (.new (lit "retryR2Put maxAttempts must be a positive integer; received " ++
      intText options.maxAttempts))
  else if options.initialDelayMs < 0 then
    .error (.new (lit "retryR2Put initialDelayMs must be a non-negative integer; received " ++
      intText options.initialDelayMs))
  else .ok ()

inductive R2PutOutcome where
  | succeeded (attempts : Nat)
  | failed (error : Thrown) (attempts : Nat)

def nonRetryableMessage (attempt : Nat) (message : JsString) : JsString :=
  lit "retryR2Put: non-retryable error on attempt " ++ natText attempt ++
    lit ", giving up without retrying: " ++ message

def exhaustedMessage (maxAttempts : Nat) (message : JsString) : JsString :=
  lit "retryR2Put: exhausted " ++ natText maxAttempts ++ lit " attempt(s), all retryable: " ++
    message

def logError (message : JsString) (logMeta : LogMeta) : WorkerFlow Unit :=
  Prog.call (.logError message logMeta) Prog.done

def sleep (ms : Nat) : WorkerFlow Unit := Flow.perform (WorkerOp.sleep ms)

/-- The attempts that remain, and what follows the last one. -/
def putAttempts (put : WorkerFlow Unit) (maxAttempts initialDelayMs : Nat) :
    Nat → Thrown → WorkerFlow R2PutOutcome
  | 0, lastError => do
    logError (exhaustedMessage maxAttempts lastError.errorMessage)
      [(lit "attempts", natJson maxAttempts)]
    pure (.failed lastError.toError maxAttempts)
  | remaining + 1, _ => do
    let attempt := maxAttempts - remaining
    match ← tryCatch (do put; pure none) (fun error => pure (some error)) with
    | none => pure (.succeeded attempt)
    | some error =>
      let retryDecision := classifyR2Error error
      if retryDecision = .nonRetryable then do
        logError (nonRetryableMessage attempt error.errorMessage)
          [(lit "attempt", natJson attempt), (lit "retryDecision", .str retryDecision.text)]
        pure (.failed error.toError attempt)
      else do
        if attempt < maxAttempts then sleep (initialDelayMs * 2 ^ (attempt - 1))
        putAttempts put maxAttempts initialDelayMs remaining error

def retryR2Put (put : WorkerFlow Unit) (options : R2RetryOptions) : WorkerFlow R2PutOutcome := do
  Flow.ofExcept options.validate
  putAttempts put options.maxAttempts.toNat options.initialDelayMs.toNat options.maxAttempts.toNat
    noError

/-- One entry for the whole batch. -/
def sendR2PutFailureToDlq (events : List CaptureEvent) (error : Thrown)
    (dlqSink : DlqSend WorkerOp WorkerOp.Response) (batchId : JsString) (attemptsMade : Nat) :
    WorkerFlow Unit :=
  dlqSink .r2PutFailed (.arr (events.map CaptureEvent.toJson)) error
    { originalJobId := batchId, attemptsMade }

def putR2BatchWithRetry (put : WorkerFlow Unit) (events : List CaptureEvent) (batchId : JsString)
    (dlqSink : DlqSend WorkerOp WorkerOp.Response) (options : R2RetryOptions) :
    WorkerFlow R2PutOutcome := do
  let outcome ← retryR2Put put options
  match outcome with
  | .succeeded _ => pure outcome
  | .failed error attempts => do
    sendR2PutFailureToDlq events error dlqSink batchId attempts
    pure outcome

end Posta
