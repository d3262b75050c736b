import Posta.Interaction.Logic
import Posta.Worker.SplitRetry

/-!
# The batch accumulator

Events are collected in one open batch. Its size, its timer or an explicit request hands it to
the flush function, under an id of its own, and every `add` settles as the flush of its batch
does.

**What runs** (`runFlush`). After a batch is handed over, `runFlush` waits for the flush and then
settles the promises of the batch. It is a program; any number of them run at once.

**The runtime** (`Accumulator`). Beside the fields of the class, a state records what the
statements are about: the events in the order they were added, the live timers, the ids taken
from `newId`, the batches handed over with the rest of their `runFlush`, and every settlement.
The promise of an `add` is named by the place of its event.

**Steps** (`Accumulator.Step`). Adding, the fire of a live timer, a request to flush, and one
operation of one `runFlush`, in any order. A flush function that throws at once is one that
settles before anything else happens.
-/

namespace Posta

open Js Interaction

variable {T : Type}

/-- The operations of `runFlush`. -/
inductive AccOp (T : Type) where
  | flush (events : List T) (batchId : JsString)
  | now
  | setLastFlushAt (time : Int)
  | logError (message : JsString) (logMeta : LogMeta)
  | resolve (waiter : Nat)
  | reject (waiter : Nat) (error : Thrown)

/-- The flush function and the logger may throw. -/
def AccOp.Response : AccOp T → Type
  | .flush .. => Except Thrown Unit
  | .now => Int
  | .setLastFlushAt _ => Unit
  | .logError .. => Except Thrown Unit
  | .resolve _ => Unit
  | .reject .. => Unit

abbrev AccFlow (T α : Type) := Flow (AccOp T) AccOp.Response Thrown α

def resolveWaiters : List Nat → AccFlow T Unit
  | [] => pure ()
  | waiter :: waiters => do
    Flow.perform (AccOp.resolve waiter)
    resolveWaiters waiters

def rejectWaiters (error : Thrown) : List Nat → AccFlow T Unit
  | [] => pure ()
  | waiter :: waiters => do
    Flow.perform (AccOp.reject waiter error)
    rejectWaiters error waiters

def flushFailedMessage (batchId : JsString) (size : Nat) (message : JsString) : JsString :=
  lit "BatchAccumulator flush failed for batch " ++ batchId ++ lit " (" ++ natText size ++
    lit " event(s)): " ++ message

/-- Flush a batch and settle its promises. -/
def runFlush (events : List T) (batchId : JsString) (waiters : List Nat) : AccFlow T Unit :=
  tryCatch
    (do
      Prog.call (AccOp.flush events batchId) Prog.done
      let now ← Flow.perform AccOp.now
      Flow.perform (AccOp.setLastFlushAt now)
      resolveWaiters waiters)
    fun error => do
      -- a logger that throws is ignored
      tryCatch
        (Prog.call (AccOp.logError
          (flushFailedMessage batchId events.length error.errorMessage)
          [(lit "batchId", .str batchId), (lit "eventCount", natJson events.length)]) Prog.done)
        fun _ => pure ()
      rejectWaiters error waiters
      throw error

structure OpenBatch (T : Type) where
  batchId : JsString
  events : List T
  waiters : List Nat
  timer : Nat

/-- A batch that was handed over, how its flush settled, and the rest of its `runFlush`. -/
structure Flight (T : Type) where
  batchId : JsString
  events : List T
  waiters : List Nat
  outcome : Option (Except Thrown Unit)
  rest : AccFlow T Unit

structure Accumulator (T : Type) where
  currentBatch : Option (OpenBatch T)
  lastFlushAt : Int
  added : List T
  timers : List Nat
  nextTimer : Nat
  batchIds : List JsString
  flights : List (Flight T)
  settled : List (Nat × Except Thrown Unit)

structure BatchAccumulatorOptions where
  batchSize : Int
  batchIntervalMs : Int

namespace Accumulator

/-- The constructor. -/
def new (options : BatchAccumulatorOptions) (now : Int) : Except Thrown (Accumulator T) :=
  if options.batchSize ≤ 0 then
    .error (.new (lit "BatchAccumulator batchSize must be a positive integer; received " ++
      intText options.batchSize))
  else if options.batchIntervalMs ≤ 0 then
    .error (.new (lit "BatchAccumulator batchIntervalMs must be a positive integer; received " ++
      intText options.batchIntervalMs))
  else .ok ⟨none, now, [], [], 0, [], [], []⟩

/-- Hand the open batch over. -/
def triggerFlush (s : Accumulator T) : Accumulator T :=
  match s.currentBatch with
  | none => s
  | some batch =>
    { s with
      timers := s.timers.erase batch.timer
      currentBatch := none
      flights := s.flights ++ [⟨batch.batchId, batch.events, batch.waiters, none,
        runFlush batch.events batch.batchId batch.waiters⟩] }

/-- A new batch with a timer of its own. -/
def startBatch (s : Accumulator T) (batchId : JsString) : OpenBatch T × Accumulator T :=
  (⟨batchId, [], [], s.nextTimer⟩,
    { s with
      timers := s.timers ++ [s.nextTimer]
      nextTimer := s.nextTimer + 1
      batchIds := s.batchIds ++ [batchId] })

/-- The batch an event goes to; `newId` is what the id generator returns if it is asked. -/
def openOrStart (s : Accumulator T) (newId : JsString) : OpenBatch T × Accumulator T :=
  match s.currentBatch with
  | some batch => (batch, s)
  | none => s.startBatch newId

def add (batchSize : Nat) (newId : JsString) (s : Accumulator T) (event : T) : Accumulator T :=
  let (openBatch, s) := s.openOrStart newId
  let events := openBatch.events ++ [event]
  let waiters := openBatch.waiters ++ [s.added.length]
  let s := { s with
    currentBatch := some { openBatch with events, waiters }
    added := s.added ++ [event] }
  if batchSize ≤ events.length then s.triggerFlush else s

/-- A live timer fires. -/
def fire (s : Accumulator T) (timer : Nat) : Accumulator T :=
  { s with timers := s.timers.erase timer }.triggerFlush

/-- `size()`. -/
def size (s : Accumulator T) : Nat :=
  match s.currentBatch with
  | some batch => batch.events.length
  | none => 0

/-- What an operation of a `runFlush` does to the rest of the state. -/
def perform (s : Accumulator T) : AccOp T → Accumulator T
  | .setLastFlushAt time => { s with lastFlushAt := time }
  | .resolve waiter => { s with settled := s.settled ++ [(waiter, .ok ())] }
  | .reject waiter error => { s with settled := s.settled ++ [(waiter, .error error)] }
  | _ => s

/-- How the flush of a batch settled, after the answer to an operation. -/
def outcomeAfter (outcome : Option (Except Thrown Unit)) :
    (op : AccOp T) → op.Response → Option (Except Thrown Unit)
  | .flush .., r => some r
  | _, _ => outcome

/-- The next operation of the flight at a place, answered. -/
def answer (s : Accumulator T) (i : Nat) (f : Flight T) (op : AccOp T)
    (k : op.Response → AccFlow T Unit) (r : op.Response) : Accumulator T :=
  { s.perform op with
    flights := s.flights.set i { f with outcome := outcomeAfter f.outcome op r, rest := k r } }

/-- One step of the runtime. An id that `newId` returns was never returned before, and a timer
that was cleared never fires. -/
inductive Step (batchSize : Nat) : Accumulator T → Accumulator T → Prop
  | add (s : Accumulator T) (event : T) (newId : JsString) (hfresh : newId ∉ s.batchIds) :
      Step batchSize s (s.add batchSize newId event)
  | fire (s : Accumulator T) (timer : Nat) (hlive : timer ∈ s.timers) :
      Step batchSize s (s.fire timer)
  | flushNow (s : Accumulator T) : Step batchSize s s.triggerFlush
  | flight (s : Accumulator T) (i : Nat) (f : Flight T) (hf : s.flights[i]? = some f)
      (op : AccOp T) (k : op.Response → AccFlow T Unit) (hrest : f.rest = .call op k)
      (r : op.Response) : Step batchSize s (s.answer i f op k r)

end Accumulator

end Posta
