import Posta.Core.EventRow
import Posta.Worker.SplitRetry

/-!
# Operations of the worker

Everything the worker asks of something else: Postgres, the event log, the dead-letter queue,
the accumulator, the clock, the id generator, the loggers, and the two fields that its services
keep. What an operation does to the stores is the business of the world it runs in; here it only
has a type of responses. Whatever reaches the network, and every logger, may fail.
-/

namespace Posta

open Js Interaction

/-- An entry of the dead-letter queue. -/
structure EventsDlqJobPayload where
  reason : DlqReason
  rawPayload : Json
  redactedKeys : List JsString
  errorMessage : JsString
  sqlstate : Option JsString
  issues : List EventsDlqIssue
  attemptsMade : Nat
  originalJobId : JsString
  failedAt : JsString

/-- What a link points to. -/
structure LinkDestinationLookup where
  tenantId : JsString
  destination : JsString

inductive WorkerOp where
  | resolveDestinationsByLinkIds (linkIds : List JsString)
  | putObject (key body : JsString)
  | insertEvents (rows : List NewEvent)
  | addDlqEntry (entry : EventsDlqJobPayload)
  | cleanDlq (retentionWindowMs retentionCleanLimit : Int)
  | lastCleanAttemptAtMs
  | setLastCleanAttemptAtMs (time : Int)
  | countInFlightJob (change : Int)
  | add (event : CaptureEvent)
  | now
  | newId
  | sleep (ms : Nat)
  | logError (message : JsString) (logMeta : LogMeta)

/-- The destinations come as a map from link ids. -/
def WorkerOp.Response : WorkerOp → Type
  | .resolveDestinationsByLinkIds _ => Except Thrown (JsString → Option LinkDestinationLookup)
  | .putObject .. => Except Thrown Unit
  | .insertEvents _ => Except Thrown Unit
  | .addDlqEntry _ => Except Thrown Unit
  | .cleanDlq .. => Except Thrown Unit
  | .lastCleanAttemptAtMs => Int
  | .setLastCleanAttemptAtMs _ => Unit
  | .countInFlightJob _ => Unit
  | .add _ => Except Thrown Unit
  | .now => Int
  | .newId => JsString
  | .sleep _ => Unit
  | .logError .. => Except Thrown Unit

abbrev WorkerFlow (α : Type) := Flow WorkerOp WorkerOp.Response Thrown α

abbrev WorkerEvent := Event WorkerOp WorkerOp.Response

end Posta
