import Posta.Worker.Accumulator
import Posta.Worker.FlushSystem
import Posta.Worker.JobTrace

/-!
# The whole worker

**Deliveries** (`Delivery`). The queue delivers any job at any time, and the same job any number
of times. A delivery runs `process`; an event of it that reaches the accumulator has a place
there, and the job goes on once the promise of that place has settled. A delivery whose
`process` has returned normally is acknowledged.

**Flushes** (`FlushRun`). The flush function of the accumulator is the production flush, under
the id of the batch.

**Shutdown** (`DrainPoint`). `drain` first stops the queue from fetching jobs; then it flushes
the open batch and waits, as long as a job is in flight or an event is in the open batch. Jobs
that were fetched before may still enter `process` at any time.

**Steps** (`WorkerSystem.Step`). One operation of one program, a timer, a request to flush, a
request that takes effect late, or a crash, after which the worker starts with a new accumulator.
-/

namespace Posta

open Js Interaction

/-- A delivery of a job: what its `process` has performed, the rest of it, the place of its event
in the accumulator, and whether the worker that runs it is still there. -/
structure Delivery where
  job : Job
  past : List WorkerEvent
  rest : WorkerFlow Unit
  place : Option Nat
  alive : Bool

namespace Delivery

/-- A job that was fetched. -/
def fetched (consumer : EventsConsumer) (job : Job) : Delivery :=
  ⟨job, [], consumer.process job, none, true⟩

/-- The next operation of the job, answered. -/
def answer (d : Delivery) (op : WorkerOp) (k : op.Response → WorkerFlow Unit) (r : op.Response) :
    Delivery :=
  { d with past := d.past ++ [⟨op, r⟩], rest := k r }

/-- What the job has performed, summed up. -/
def trace (d : Delivery) : JobTrace := d.past.foldl JobTrace.step JobTrace.start

theorem trace_answer (d : Delivery) (op : WorkerOp) (k : op.Response → WorkerFlow Unit)
    (r : op.Response) : (d.answer op k r).trace = d.trace.step ⟨op, r⟩ := by
  rw [trace, answer, List.foldl_append]
  rfl

/-- `process` has returned normally. -/
def Acknowledged (d : Delivery) : Prop := d.rest = .done (.ok ())

/-- `process` was called, and has not settled. -/
def Inside (d : Delivery) : Prop := d.alive = true ∧ d.past ≠ [] ∧ ∀ r, d.rest ≠ .done r

end Delivery

/-- The flush of the flight at a place. -/
structure FlushRun where
  flight : Nat
  thread : FlushThread

/-- Where `drain` stands. `flushing` waits for the `runFlush` of a flight, if one was started. -/
inductive DrainPoint where
  | idle
  | pausing
  | checking
  | flushing (flight : Option Nat)
  | polling
  | sleeping
  | resolved
  | rejected (error : Thrown)

structure WorkerSystem where
  world : World
  accumulator : Accumulator CaptureEvent
  issued : List Ulid
  deliveries : List Delivery
  flushes : List FlushRun
  drain : DrainPoint

namespace WorkerSystem

/-- A worker that has just started for the first time. -/
def started (accumulator : Accumulator CaptureEvent) : WorkerSystem :=
  ⟨World.empty, accumulator, [], [], [], .idle⟩

/-- `eventsConsumer.pendingJobCount`. -/
def pendingJobCount (s : WorkerSystem) : Int := s.world.inFlightJobCount

/-- The condition of the loop of `drain`. -/
def Undrained (s : WorkerSystem) : Prop := 0 < s.pendingJobCount ∨ 0 < s.accumulator.size

/-- One step of `drain`. -/
inductive DrainStep : WorkerSystem → WorkerSystem → Prop
  | start (s : WorkerSystem) (h : s.drain = .idle) : DrainStep s { s with drain := .pausing }
  | paused (s : WorkerSystem) (h : s.drain = .pausing) : DrainStep s { s with drain := .checking }
  | pauseFailed (s : WorkerSystem) (h : s.drain = .pausing) (error : Thrown) :
      DrainStep s { s with drain := .rejected error }
  | enter (s : WorkerSystem) (h : s.drain = .checking) (hmore : s.Undrained) :
      DrainStep s { s with
        accumulator := s.accumulator.triggerFlush
        drain := .flushing (s.accumulator.currentBatch.map fun _ => s.accumulator.flights.length) }
  | leave (s : WorkerSystem) (h : s.drain = .checking) (hdone : ¬s.Undrained) :
      DrainStep s { s with drain := .resolved }
  | nothingOpen (s : WorkerSystem) (h : s.drain = .flushing none) :
      DrainStep s { s with drain := .polling }
  | flushed (s : WorkerSystem) (i : Nat) (h : s.drain = .flushing (some i))
      (f : Flight CaptureEvent) (hf : s.accumulator.flights[i]? = some f)
      (hrest : f.rest = .done (.ok ())) : DrainStep s { s with drain := .polling }
  | flushFailed (s : WorkerSystem) (i : Nat) (h : s.drain = .flushing (some i))
      (f : Flight CaptureEvent) (hf : s.accumulator.flights[i]? = some f) (error : Thrown)
      (hrest : f.rest = .done (.error error)) : DrainStep s { s with drain := .rejected error }
  | sleep (s : WorkerSystem) (h : s.drain = .polling) (hpending : 0 < s.pendingJobCount) :
      DrainStep s { s with drain := .sleeping }
  | again (s : WorkerSystem) (h : s.drain = .polling) (hpending : ¬0 < s.pendingJobCount) :
      DrainStep s { s with drain := .checking }
  | wake (s : WorkerSystem) (h : s.drain = .sleeping) : DrainStep s { s with drain := .checking }

/-- An operation that was about to be performed when the worker crashed. -/
def Pending (s : WorkerSystem) (op : WorkerOp) : Prop :=
  op.plain = true ∧
    (op.harmless = true ∨ ∃ r ∈ s.flushes, ∃ k, r.thread.rest = .call op k)

/-- The worker crashed, and was started again with a new accumulator. -/
def crashed (s : WorkerSystem) (late : List WorkerOp) (accumulator : Accumulator CaptureEvent) :
    WorkerSystem where
  world := s.world.crash late
  accumulator
  issued := s.issued
  deliveries := s.deliveries.map fun d => { d with alive := false }
  flushes := []
  drain := .idle

/-- One step of the worker. An id that `newId` returns was never returned before. -/
inductive Step (pg : Postgres) (consumer : EventsConsumer) (options : BatchAccumulatorOptions) :
    WorkerSystem → WorkerSystem → Prop
  | deliver (s : WorkerSystem) (job : Job) :
      Step pg consumer options s
        { s with deliveries := s.deliveries ++ [.fetched consumer job] }
  | job (s : WorkerSystem) (i : Nat) (d : Delivery) (hd : s.deliveries[i]? = some d)
      (halive : d.alive = true) (op : WorkerOp) (k : op.Response → WorkerFlow Unit)
      (hrest : d.rest = .call op k) (r : op.Response) (w : World)
      (hexec : World.Exec pg op s.world r w) :
      Step pg consumer options s
        { s with world := w, deliveries := s.deliveries.set i (d.answer op k r) }
  | add (s : WorkerSystem) (i : Nat) (d : Delivery) (hd : s.deliveries[i]? = some d)
      (halive : d.alive = true) (event : CaptureEvent)
      (k : (WorkerOp.add event).Response → WorkerFlow Unit) (hrest : d.rest = .call (.add event) k)
      (hplace : d.place = none) (newId : Ulid) (hfresh : newId ∉ s.issued) :
      Step pg consumer options s
        { s with
          accumulator := s.accumulator.add options.batchSize.toNat newId.1 event
          issued := s.issued ++ [newId]
          deliveries := s.deliveries.set i { d with place := some s.accumulator.added.length } }
  | settle (s : WorkerSystem) (i : Nat) (d : Delivery) (hd : s.deliveries[i]? = some d)
      (halive : d.alive = true) (event : CaptureEvent)
      (k : (WorkerOp.add event).Response → WorkerFlow Unit) (hrest : d.rest = .call (.add event) k)
      (n : Nat) (hplace : d.place = some n) (outcome : Except Thrown Unit)
      (hsettled : (n, outcome) ∈ s.accumulator.settled) :
      Step pg consumer options s
        { s with deliveries := s.deliveries.set i (d.answer (.add event) k outcome) }
  | fire (s : WorkerSystem) (timer : Nat) (hlive : timer ∈ s.accumulator.timers) :
      Step pg consumer options s { s with accumulator := s.accumulator.fire timer }
  | flushNow (s : WorkerSystem) :
      Step pg consumer options s { s with accumulator := s.accumulator.triggerFlush }
  | flight (s : WorkerSystem) (i : Nat) (f : Flight CaptureEvent)
      (hf : s.accumulator.flights[i]? = some f) (op : AccOp CaptureEvent)
      (k : op.Response → AccFlow CaptureEvent Unit) (hrest : f.rest = .call op k)
      (hop : ∀ events batchId, op ≠ .flush events batchId) (r : op.Response) :
      Step pg consumer options s { s with accumulator := s.accumulator.answer i f op k r }
  | begin (s : WorkerSystem) (i : Nat) (f : Flight CaptureEvent)
      (hf : s.accumulator.flights[i]? = some f) (root : Ulid)
      (k : (AccOp.flush f.events root.1).Response → AccFlow CaptureEvent Unit)
      (hrest : f.rest = .call (.flush f.events root.1) k)
      (hnew : ∀ r ∈ s.flushes, r.flight ≠ i) :
      Step pg consumer options s
        { s with
          world := { s.world with batches := s.world.batches ++ [(root, f.events)] }
          flushes := s.flushes ++ [⟨i, (root, f.events),
            productionFlush consumer.platform consumer.dlq f.events root.1⟩] }
  | flush (s : WorkerSystem) (j : Nat) (run : FlushRun) (hrun : s.flushes[j]? = some run)
      (op : WorkerOp) (k : op.Response → WorkerFlow Unit) (hrest : run.thread.rest = .call op k)
      (r : op.Response) (w : World) (hexec : World.Exec pg op s.world r w) :
      Step pg consumer options s
        { s with
          world := w
          flushes := s.flushes.set j { run with thread := { run.thread with rest := k r } } }
  | flushed (s : WorkerSystem) (run : FlushRun) (hrun : run ∈ s.flushes)
      (outcome : Except Thrown Unit) (hdone : run.thread.rest = .done outcome)
      (f : Flight CaptureEvent) (hf : s.accumulator.flights[run.flight]? = some f)
      (events : List CaptureEvent) (batchId : JsString)
      (k : (AccOp.flush events batchId).Response → AccFlow CaptureEvent Unit)
      (hrest : f.rest = .call (.flush events batchId) k) :
      Step pg consumer options s
        { s with accumulator := s.accumulator.answer run.flight f (.flush events batchId) k outcome }
  | outside (s : WorkerSystem) (op : WorkerOp) (hop : op.harmless = true)
      (hplain : op.plain = true) (r : op.Response) (w : World)
      (hexec : World.Exec pg op s.world r w) : Step pg consumer options s { s with world := w }
  | land (s : WorkerSystem) (op : WorkerOp) (w : World) (hland : World.Lands pg op s.world w) :
      Step pg consumer options s { s with world := w }
  | crash (s : WorkerSystem) (late : List WorkerOp) (hlate : ∀ op ∈ late, s.Pending op)
      (now : Int) (accumulator : Accumulator CaptureEvent)
      (hnew : Accumulator.new options now = .ok accumulator) :
      Step pg consumer options s (s.crashed late accumulator)
  | drain (s s' : WorkerSystem) (h : DrainStep s s') : Step pg consumer options s s'

/-- A state that some run of the worker reaches. -/
def Reachable (pg : Postgres) (consumer : EventsConsumer) (options : BatchAccumulatorOptions)
    (s : WorkerSystem) : Prop :=
  ∃ now accumulator, Accumulator.new options now = .ok accumulator ∧
    Relation.ReflTransGen (Step pg consumer options) (started accumulator) s

end WorkerSystem

end Posta
