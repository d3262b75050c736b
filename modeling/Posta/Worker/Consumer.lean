import Posta.Worker.Flush

/-!
# The consumer of the events queue

A job that violates the contract goes to the dead-letter queue; any other job waits until the
batch of its event has been flushed. A job is acknowledged when `process` returns. A job that has
used up its attempts goes to the dead-letter queue as well.
-/

namespace Posta

open Js Interaction

/-- A job of the events queue. -/
structure Job where
  id : Option JsString
  data : Json
  attemptsMade : Nat
  attempts : Option Nat

/-- An issue that the schema library reports, its path as texts. -/
structure ZodIssue where
  path : List JsString
  message : JsString
  code : JsString

/-- What the schema library reports of data that the schema refuses. -/
structure ZodError where
  error : Thrown
  issues : List ZodIssue

/-- `texts.join('.')`. -/
def joinDots : List JsString → JsString
  | [] => []
  | [text] => text
  | text :: texts => text ++ lit "." ++ joinDots texts

def toDlqIssues (issues : List ZodIssue) : List EventsDlqIssue :=
  issues.map fun issue => ⟨joinDots issue.path, issue.message, issue.code⟩

structure EventsConsumer where
  platform : Platform
  dlq : DlqService
  /-- The error of `eventJobSchema.safeParse` on data it refuses. -/
  schemaError : Json → ZodError

namespace EventsConsumer

variable (consumer : EventsConsumer)

/-- A logger that throws is ignored. -/
def safeLog (message : JsString) (logMeta : LogMeta) : WorkerFlow Unit :=
  tryCatch (logError message logMeta) fun _ => pure ()

def originalJobId (job : Job) : JsString := job.id.getD (lit "(no id)")

def jobMeta (job : Job) : LogMeta :=
  match job.id with
  | some id => [(lit "jobId", .str id)]
  | none => []

def routeFailedMessage (job : Job) (dlqError : Thrown) : JsString :=
  lit "Job " ++ originalJobId job ++ lit " failed eventJobSchema validation AND failed to route to " ++
    lit "events-dlq: " ++ dlqError.errorMessage

def routedMessage (job : Job) (issueCount : Nat) : JsString :=
  lit "Job " ++ originalJobId job ++
    lit " failed eventJobSchema validation; routed to events-dlq " ++ lit "(" ++
    natText issueCount ++ lit " issue(s)), job acked with no retry"

def routeToDlq (job : Job) (error : ZodError) : WorkerFlow Unit := do
  let issues := toDlqIssues error.issues
  tryCatch
    (consumer.dlq.send consumer.platform .schemaValidationFailed job.data error.error
      { originalJobId := originalJobId job, attemptsMade := 1, issues })
    fun dlqError => do
      safeLog (redactCredentialsFromMessage consumer.platform (routeFailedMessage job dlqError))
        (jobMeta job)
      throw dlqError
  safeLog (routedMessage job issues.length) (jobMeta job)

def sinkFailedMessage (event : CaptureEvent) (error : Thrown) : JsString :=
  lit "Sink failed to handle event " ++ event.eventId.1 ++ lit ": " ++ error.errorMessage

/-- `sink.handle(event)`: the promise that the accumulator returns. -/
def handle (event : CaptureEvent) : WorkerFlow Unit := Prog.call (.add event) Prog.done

def process (job : Job) : WorkerFlow Unit := do
  Flow.perform (WorkerOp.countInFlightJob 1)
  Flow.tryFinally
    (match CaptureEventSchema.safeParse job.data with
      | none => consumer.routeToDlq job (consumer.schemaError job.data)
      | some event =>
        tryCatch (handle event) fun error => do
          safeLog (redactCredentialsFromMessage consumer.platform (sinkFailedMessage event error))
            [(lit "eventId", .str event.eventId.1), (lit "linkId", .str event.linkId.1),
              (lit "tenantId", .str event.tenantId.1)]
          throw error)
    (Flow.perform (WorkerOp.countInFlightJob (-1)))

def exhaustedMessage (job : Job) : JsString :=
  lit "Job " ++ originalJobId job ++ lit " exhausted all " ++ natText job.attemptsMade ++
    lit " attempt(s)"

/-- The handler of `failed`. It never throws. -/
def onFailed (job : Job) (error : Thrown) : WorkerFlow Unit :=
  if job.attemptsMade < job.attempts.getD 1 then pure ()
  else do
    let sent ← tryCatch
      (do
        match CaptureEventSchema.safeParse job.data with
        | some event =>
          consumer.dlq.send consumer.platform .attemptsExhausted event.toJson error
            { originalJobId := originalJobId job, attemptsMade := job.attemptsMade }
        | none =>
          consumer.dlq.send consumer.platform .schemaValidationFailed job.data error
            { originalJobId := originalJobId job, attemptsMade := job.attemptsMade,
              issues := toDlqIssues (consumer.schemaError job.data).issues }
        pure true)
      fun dlqError => do
        safeLog (redactCredentialsFromMessage consumer.platform (exhaustedMessage job ++
          lit " AND failed to route to " ++ lit "events-dlq: " ++ dlqError.errorMessage))
          (jobMeta job)
        pure false
    if sent then safeLog (exhaustedMessage job ++ lit "; routed to events-dlq") (jobMeta job)

end EventsConsumer

/-- A consumer on a platform that finds nothing. -/
def plainConsumer : EventsConsumer where
  platform := .plain
  dlq := {}
  schemaError _ := ⟨.new (lit "ZodError"), []⟩

end Posta
