import Posta.Core.EventKeys
import Posta.Worker.DlqService
import Posta.Worker.R2Retry

/-!
# The flush of a batch

A batch is enriched with the destinations of its links as they are now, written to the event
log, and then inserted into Postgres. When the log refuses it, the batch has gone to the
dead-letter queue and nothing is inserted.
-/

namespace Posta

open Js Interaction

/-- An event with the destination its link has now. -/
def toLoggedEvent (P : Platform) (event : CaptureEvent) (destination : Option JsString) :
    LoggedEvent :=
  ⟨event, enrich P event.userAgent event.referer destination⟩

inductive UnresolvedReason where
  | notFound
  | tenantMismatch
deriving DecidableEq

structure ResolvedEvent where
  event : CaptureEvent
  destination : Option JsString
  reason : Option UnresolvedReason

def resolveDestination (destinationsByLinkId : JsString → Option LinkDestinationLookup)
    (event : CaptureEvent) : ResolvedEvent :=
  match destinationsByLinkId event.linkId.1 with
  | none => ⟨event, none, some .notFound⟩
  | some resolved =>
    if resolved.tenantId ≠ event.tenantId.1 then ⟨event, none, some .tenantMismatch⟩
    else ⟨event, some resolved.destination, none⟩

def unresolvedMessage (batchSize notFoundCount tenantMismatchCount : Nat) : JsString :=
  lit "flushBatch: " ++ natText (notFoundCount + tenantMismatchCount) ++ lit " of " ++
    natText batchSize ++ lit " event(s) in this batch did not resolve a " ++
    lit "destination (" ++ natText notFoundCount ++ lit " link_id not found, " ++
    natText tenantMismatchCount ++ lit " tenant mismatch) — dest_host " ++
    lit "stays null for these rows, nothing else in the row is affected."

def logUnresolvedDestinations (resolutions : List ResolvedEvent) (distinctLinkIdCount : Nat) :
    WorkerFlow Unit :=
  let notFoundCount := resolutions.countP fun r => r.reason = some .notFound
  let tenantMismatchCount := resolutions.countP fun r => r.reason = some .tenantMismatch
  let unresolvedCount := notFoundCount + tenantMismatchCount
  if unresolvedCount = 0 then pure ()
  else logError (unresolvedMessage resolutions.length notFoundCount tenantMismatchCount)
    [(lit "batchSize", natJson resolutions.length),
      (lit "distinctLinkIdCount", natJson distinctLinkIdCount),
      (lit "unresolvedCount", natJson unresolvedCount),
      (lit "notFoundCount", natJson notFoundCount),
      (lit "tenantMismatchCount", natJson tenantMismatchCount)]

/-- The sink of a flush that was given none. -/
def rejectingDlqSink : DlqSend WorkerOp WorkerOp.Response := fun _ _ _ _ =>
  throw (.new (lit "createFlushBatch: the R2 PUT failed and no real dlqSink was configured " ++
    lit "(CreateFlushBatchOptions.dlqSink) — the batch cannot be safely discarded, so this flush " ++
    lit "fails loudly instead of silently dropping it."))

structure CreateFlushBatchOptions where
  dlqSink : DlqSend WorkerOp WorkerOp.Response := rejectingDlqSink
  maxAttempts : Int := 5
  initialDelayMs : Int := 200

def putEventBatch (P : Platform) (batchId firstOccurredAt : JsString)
    (loggedEvents : List LoggedEvent) : WorkerFlow Unit := do
  let key ← Flow.ofExcept (eventBatchKey P batchId firstOccurredAt)
  Prog.call (.putObject key (serializeBatch loggedEvents)) Prog.done

/-- `loggedEvents.map(toNewEventRow)`. -/
def newEventRows (P : Platform) : List LoggedEvent → Except Thrown (List NewEvent)
  | [] => .ok []
  | e :: es => do
    let row ← toNewEventRow P e.get
    let rows ← newEventRows P es
    return row :: rows

/-- `createFlushBatch(options)`, applied to a batch. -/
def flushBatch (P : Platform) (options : CreateFlushBatchOptions) (events : List CaptureEvent)
    (batchId : JsString) : WorkerFlow Unit := do
  match events with
  | [] => pure ()
  | firstEvent :: _ => do
    let linkIds := (events.map fun event => event.linkId.1).eraseDups
    let destinationsByLinkId ← Prog.call (.resolveDestinationsByLinkIds linkIds) Prog.done
    let resolutions := events.map (resolveDestination destinationsByLinkId)
    logUnresolvedDestinations resolutions linkIds.length
    let loggedEvents := resolutions.map fun r => toLoggedEvent P r.event r.destination
    let rows ← Flow.ofExcept (newEventRows P loggedEvents)
    let outcome ← putR2BatchWithRetry
      (putEventBatch P batchId firstEvent.occurredAt.1 loggedEvents) events batchId options.dlqSink
      ⟨options.maxAttempts, options.initialDelayMs⟩
    match outcome with
    | .failed .. => pure ()
    | .succeeded _ => Prog.call (.insertEvents rows) Prog.done

/-- The flush as `retryWithSplit` calls it. -/
def splitRetryEnv (P : Platform) (options : CreateFlushBatchOptions) :
    SplitRetryEnv WorkerOp WorkerOp.Response where
  flushBatch _ events batchId := flushBatch P options events batchId
  sleep := sleep
  logError := logError
  newId := Flow.perform WorkerOp.newId
  classify := classifyFlushError

/-- `buildProductionFlush`: the dead-letter service takes both kinds of failures. -/
def productionFlush (P : Platform) (service : DlqService) (events : List CaptureEvent)
    (batchId : JsString) : WorkerFlow Unit :=
  flushWithSplitRetryAndPoisonDlq (splitRetryEnv P { dlqSink := service.send P }) (service.send P)
    events batchId

end Posta
