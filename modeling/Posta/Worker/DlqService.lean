import Posta.Contracts.Redact
import Posta.Worker.Operations

/-!
# The dead-letter queue

An entry is added with its payload and its error message redacted. Then aged entries are cleaned
up, at most once in a while, and a failure of that is only logged.
-/

namespace Posta

open Js Interaction

structure DlqService where
  retentionWindowMs : Int := 7 * 24 * 60 * 60 * 1000
  retentionCleanLimit : Int := 1000
  cleanThrottleMs : Int := 60 * 60 * 1000

namespace DlqService

/-- `failedAt` is the time of the call. -/
def entry (P : Platform) (reason : DlqReason) (payload : Json) (error : Thrown)
    (sendMeta : DlqSendMeta) (now : Int) : EventsDlqJobPayload :=
  { reason
    rawPayload := (redactForbiddenKeys payload).1
    redactedKeys := (redactForbiddenKeys payload).2
    errorMessage := redactCredentialsFromMessage P error.errorMessage
    sqlstate := extractSqlState error
    issues := sendMeta.issues
    attemptsMade := sendMeta.attemptsMade
    originalJobId := sendMeta.originalJobId
    failedAt := isoText now }

def cleanFailedMessage (P : Platform) (retentionWindowMs : Int) (cleanError : Thrown) : JsString :=
  lit "DlqService retention clean() failed; DLQ entries older than " ++
    intText retentionWindowMs ++ lit "ms may persist " ++
    lit "past their intended retention window until the next successful sweep: " ++
    redactCredentialsFromMessage P cleanError.errorMessage

def intJson (z : Int) : Json := .num (JsNumber.normalise (z < 0) z.natAbs 0)

def cleanAgedEntriesThrottled (P : Platform) (service : DlqService) : WorkerFlow Unit := do
  let now : Int ← Flow.perform WorkerOp.now
  let lastCleanAttemptAtMs : Int ← Flow.perform WorkerOp.lastCleanAttemptAtMs
  if now - lastCleanAttemptAtMs < service.cleanThrottleMs then pure ()
  else do
    Flow.perform (WorkerOp.setLastCleanAttemptAtMs now)
    tryCatch
      (Prog.call (.cleanDlq service.retentionWindowMs service.retentionCleanLimit) Prog.done)
      fun cleanError =>
        Prog.call (.logError (cleanFailedMessage P service.retentionWindowMs cleanError)
          [(lit "retentionWindowMs", intJson service.retentionWindowMs),
            (lit "retentionCleanLimit", intJson service.retentionCleanLimit)]) Prog.done

/-- It returns only after the entry was accepted. -/
def send (P : Platform) (service : DlqService) : DlqSend WorkerOp WorkerOp.Response :=
  fun reason payload error sendMeta => do
    let now : Int ← Flow.perform WorkerOp.now
    Prog.call (.addDlqEntry (entry P reason payload error sendMeta now)) Prog.done
    cleanAgedEntriesThrottled P service

end DlqService

end Posta
