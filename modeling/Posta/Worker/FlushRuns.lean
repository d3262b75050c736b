import Posta.Worker.FlushSystem

/-!
# Particular runs of the flush

How the runs of a flush are put together: a single flush of which every operation but the
insertion succeeds (`runs_flushBatch`), the attempts of a batch, a batch whose only event is
isolated, and the steps of the system that such runs make (`steps_of_runs`).
-/

namespace Posta

open Js Interaction

/-! ## Attempts -/

section Attempts

variable {P : Platform} {flush : WorkerFlow Unit} {h : List WorkerEvent} {e error : Thrown}
  {m delay k : Nat}

/-- The error of an attempt. -/
def attemptError : Except Thrown Unit → Option Thrown
  | .ok _ => none
  | .error error => some error

theorem runs_try {r : Except Thrown Unit} (hr : Runs flush h (.done r)) :
    Runs (tryCatch (do flush; pure none) fun error => pure (some error) :
      WorkerFlow (Option Thrown)) h (.done (.ok (attemptError r))) := by
  rw [Flow.tryCatch_eq, Flow.bind_eq]
  have hruns := (hr.bind_left (Flow.onOk fun _ => (pure none : WorkerFlow (Option Thrown)))).bind_left
    (Flow.onError fun error => (pure (some error) : WorkerFlow (Option Thrown)))
  cases r <;> exact hruns

theorem runs_attempt_ok (hr : Runs flush h (.done (.ok ()))) :
    Runs (flushAttempts flush sleep m delay (k + 1) e) h (.done (.ok none)) := by
  rw [flushAttempts, ← List.append_nil h]
  exact (runs_try hr).bind_ok (.nil _)

/-- A failed attempt that is not the last one is followed by a pause. -/
theorem runs_attempt_error (hlt : m - k < m) (hr : Runs flush h (.done (.error error))) :
    Runs (flushAttempts flush sleep m delay (k + 1) e)
      (h ++ [⟨.sleep (delay * 2 ^ (m - k - 1)), ()⟩])
      (flushAttempts flush sleep m delay k error) := by
  rw [flushAttempts]
  refine (runs_try hr).bind_ok ?_
  show Runs (ite (m - k < m) _ _) _ _
  rw [if_pos hlt]
  exact .cons (.nil _)

/-- The last attempt fails. -/
theorem runs_attempt_last (hr : Runs flush h (.done (.error error))) :
    Runs (flushAttempts flush sleep m delay 1 e) h (.done (.ok (some error))) := by
  rw [flushAttempts, ← List.append_nil h]
  refine (runs_try hr).bind_ok ?_
  show Runs (ite (m - 0 < m) _ _) _ _
  rw [if_neg (by omega)]
  exact .nil _

end Attempts

/-! ## The production flush -/

section Production

variable {P : Platform} {service : DlqService} {events : List CaptureEvent} {batchId : JsString}
  {h : List WorkerEvent}

/-- The attempts of the root of a batch. -/
def rootAttempts (P : Platform) (service : DlqService) (events : List CaptureEvent)
    (batchId : JsString) : WorkerFlow (Option Thrown) :=
  flushAttempts (flushBatch P { dlqSink := service.send P } events batchId) sleep 3 150 3 noError

theorem retryWithSplit_root (hne : events ≠ []) :
    retryWithSplit (splitRetryEnv P { dlqSink := service.send P }) events
      ⟨splitRetryMaxAttemptsPerBatch, splitRetryInitialDelayMs, some batchId⟩ =
    attemptBatch (splitRetryEnv P { dlqSink := service.send P }) 3 150 [] events hne batchId :=
  dif_neg hne

/-- While the root is attempted, so is the batch. -/
theorem runs_production_start (hne : events ≠ []) {q : WorkerFlow (Option Thrown)}
    (hr : Runs (rootAttempts P service events batchId) h q) :
    ∃ q', Runs (productionFlush P service events batchId) h q' := by
  rw [productionFlush, flushWithSplitRetryAndPoisonDlq, retryWithSplit_root hne, attemptBatch,
    Flow.bind_eq, Flow.bind_eq]
  exact ⟨_, (hr.bind_left _).bind_left _⟩

/-- A batch whose root is flushed. -/
theorem runs_production_ok (hne : events ≠ [])
    (hr : Runs (rootAttempts P service events batchId) h (.done (.ok none))) :
    Runs (productionFlush P service events batchId) h (.done (.ok ())) := by
  have hroot : Runs (attemptBatch (splitRetryEnv P { dlqSink := service.send P }) 3 150 [] events
      hne batchId) h (.done (.ok ⟨events, []⟩)) := by
    rw [attemptBatch, ← List.append_nil h]
    exact hr.bind_ok (.nil _)
  rw [productionFlush, flushWithSplitRetryAndPoisonDlq, retryWithSplit_root hne,
    ← List.append_nil h]
  exact hroot.bind_ok (.nil _)

/-- A batch whose only event is isolated and sent to the dead-letter queue. -/
theorem runs_production_isolated {event : CaptureEvent} {error : Thrown} {h' : List WorkerEvent}
    (hr : Runs (rootAttempts P service [event] batchId) h (.done (.ok (some error))))
    (hclass : classifyFlushError error = .rowFault)
    (hsend : Runs (service.send P .flushPoison event.toJson error.toError
      { originalJobId := batchId, attemptsMade := 3 }) h' (.done (.ok ()))) :
    Runs (productionFlush P service [event] batchId)
      (h ++ [⟨.logError (poisonMessage event.eventId.1 3 error.errorMessage)
        [(lit "eventId", .str event.eventId.1), (lit "attempts", natJson 3)], .ok ()⟩] ++ h')
      (.done (.ok ())) := by
  have hroot : Runs (attemptBatch (splitRetryEnv P { dlqSink := service.send P }) 3 150 [] [event]
      (List.cons_ne_nil _ _) batchId)
      (h ++ [⟨.logError (poisonMessage event.eventId.1 3 error.errorMessage)
        [(lit "eventId", .str event.eventId.1), (lit "attempts", natJson 3)], .ok ()⟩])
      (.done (.ok ⟨[], [⟨event, error.toError⟩]⟩)) := by
    rw [attemptBatch]
    refine hr.bind_ok ?_
    show Runs (ite (classifyFlushError error = .infrastructure) _ _) _ _
    rw [if_neg (by rw [hclass]; decide)]
    have hone : [event].length = 1 := rfl
    rw [dif_pos hone]
    exact .cons (.nil _)
  rw [productionFlush, flushWithSplitRetryAndPoisonDlq, retryWithSplit_root (List.cons_ne_nil _ _)]
  have hdlq : Runs (sendPoisonEventsToDlq (service.send P) [⟨event, error.toError⟩]
      { originalJobId := batchId, attemptsMade := 3 }) (h' ++ []) (.done (.ok ())) :=
    hsend.bind_ok (.nil _)
  rw [List.append_nil] at hdlq
  exact hroot.bind_ok hdlq

/-- A send shortly after the last clean-up. -/
theorem runs_send (reason : DlqReason) (payload : Json) (error : Thrown) (sendMeta : DlqSendMeta)
    (hthrottle : 0 < service.cleanThrottleMs) :
    Runs (service.send P reason payload error sendMeta)
      [⟨.now, (0 : Int)⟩, ⟨.addDlqEntry (DlqService.entry P reason payload error sendMeta 0), .ok ()⟩,
        ⟨.now, (0 : Int)⟩, ⟨.lastCleanAttemptAtMs, (0 : Int)⟩] (.done (.ok ())) := by
  refine .cons (.cons (.cons (.cons ?_)))
  show Runs (ite ((0 : Int) - 0 < service.cleanThrottleMs) _ _) _ _
  rw [if_pos (by omega)]
  exact .nil _

/-! ## One flush -/

theorem eventBatchKey_event (P : Platform) (batchId : JsString) (e : CaptureEvent) :
    eventBatchKey P batchId e.occurredAt.1 = .ok (eventKey batchId e.occurredAt.time) :=
  eventBatchKey_ok.mpr ⟨e.occurredAt.time, P.date_time (Option.some_get _).symm, rfl⟩

/-- The operations of a flush whose destinations are found and whose object is written. -/
def flushOps (P : Platform) (f : JsString → Option LinkDestinationLookup) (key : JsString)
    (events : List CaptureEvent) (r : Except Thrown Unit) : List WorkerEvent :=
  [⟨.resolveDestinationsByLinkIds (events.map fun event => event.linkId.1).eraseDups, .ok f⟩,
    ⟨.putObject key (serializeBatch (loggedEventsOf P f events)), .ok ()⟩,
    ⟨.insertEvents ((loggedEventsOf P f events).map LoggedEvent.newEvent), r⟩]

theorem runs_flushBatch {f : JsString → Option LinkDestinationLookup} {first : CaptureEvent}
    {rest : List CaptureEvent}
    (hf : ∀ e ∈ first :: rest, (resolveDestination f e).reason = none) {key : JsString}
    (hkey : eventBatchKey P batchId first.occurredAt.1 = .ok key) (r : Except Thrown Unit) :
    Runs (flushBatch P { dlqSink := service.send P } (first :: rest) batchId)
      (flushOps P f key (first :: rest) r) (.done r) := by
  have hnone : ∀ reason, ((first :: rest).map (resolveDestination f)).countP
      (fun r => r.reason = some reason) = 0 := by
    intro reason
    rw [List.countP_eq_zero]
    intro resolved hresolved
    obtain ⟨e, he, rfl⟩ := List.mem_map.mp hresolved
    simp [hf e he]
  have hlog : Runs (logUnresolvedDestinations ((first :: rest).map (resolveDestination f))
      ((first :: rest).map fun event => event.linkId.1).eraseDups.length) [] (.done (.ok ())) := by
    unfold logUnresolvedDestinations
    show Runs (ite _ _ _) _ _
    rw [if_pos (by rw [hnone, hnone])]
    exact .nil _
  rw [flushBatch]
  refine .cons (hlog.bind_ok ?_)
  have hrows : Runs (Flow.ofExcept (newEventRows P (loggedEventsOf P f (first :: rest))) :
      WorkerFlow (List NewEvent)) []
      (.done (.ok ((loggedEventsOf P f (first :: rest)).map LoggedEvent.newEvent))) := by
    rw [newEventRows_eq]
    exact .nil _
  refine hrows.bind_ok ?_
  have hput : Runs (putEventBatch P batchId first.occurredAt.1
      (loggedEventsOf P f (first :: rest)))
      [⟨.putObject key (serializeBatch (loggedEventsOf P f (first :: rest))), .ok ()⟩]
      (.done (.ok ())) := by
    rw [putEventBatch, hkey]
    exact .cons (.nil _)
  have hretry : Runs (putR2BatchWithRetry (putEventBatch P batchId first.occurredAt.1
      (loggedEventsOf P f (first :: rest))) (first :: rest) batchId (service.send P) ⟨5, 200⟩)
      [⟨.putObject key (serializeBatch (loggedEventsOf P f (first :: rest))), .ok ()⟩]
      (.done (.ok (.succeeded 1))) := by
    have hattempt : Runs (retryR2Put (putEventBatch P batchId first.occurredAt.1
        (loggedEventsOf P f (first :: rest))) ⟨5, 200⟩)
        ([⟨.putObject key (serializeBatch (loggedEventsOf P f (first :: rest))), .ok ()⟩] ++ [])
        (.done (.ok (.succeeded 1))) := by
      show Runs (putAttempts _ 5 200 (4 + 1) noError) _ _
      rw [putAttempts]
      exact (runs_try hput).bind_ok (.nil _)
    exact hattempt.bind_ok (.nil _)
  exact hretry.bind_ok (.cons (.nil _))

/-- The operations of a root whose three insertions fail in the same way. -/
def isolatedOps (P : Platform) (f : JsString → Option LinkDestinationLookup) (key : JsString)
    (events : List CaptureEvent) (error : Thrown) : List WorkerEvent :=
  flushOps P f key events (.error error) ++ [⟨.sleep 150, ()⟩] ++
    (flushOps P f key events (.error error) ++ [⟨.sleep 300, ()⟩] ++
      flushOps P f key events (.error error))

theorem runs_rootAttempts_isolated {f : JsString → Option LinkDestinationLookup}
    {first : CaptureEvent} {rest : List CaptureEvent}
    (hf : ∀ e ∈ first :: rest, (resolveDestination f e).reason = none) {key : JsString}
    (hkey : eventBatchKey P batchId first.occurredAt.1 = .ok key) (error : Thrown) :
    Runs (rootAttempts P service (first :: rest) batchId)
      (isolatedOps P f key (first :: rest) error) (.done (.ok (some error))) := by
  have hr : Runs (flushBatch P { dlqSink := service.send P } (first :: rest) batchId)
      (flushOps P f key (first :: rest) (.error error)) (.done (.error error)) :=
    runs_flushBatch hf hkey (.error error)
  exact (runs_attempt_error (by omega) hr).append
    ((runs_attempt_error (by omega) hr).append (runs_attempt_last hr))

end Production

/-! ## Steps of the system -/

/-- The world after an object was written. -/
def World.written (w : World) (key body : JsString) : World :=
  { w with eventLog := w.eventLog.put key body }

/-- The operations of a history are performed one after another. -/
inductive World.Execs (pg : Postgres) : World → List WorkerEvent → World → Prop
  | nil (w : World) : Execs pg w [] w
  | cons {e : WorkerEvent} {h : List WorkerEvent} {w w' w'' : World}
      (he : World.Exec pg e.1 w e.2 w') (hrest : Execs pg w' h w'') : Execs pg w (e :: h) w''

namespace FlushSystem

variable {P : Platform} {pg : Postgres} {service : DlqService} {w w' w'' : World}

theorem execs_append {h h' : List WorkerEvent} (he : World.Execs pg w h w')
    (he' : World.Execs pg w' h' w'') : World.Execs pg w (h ++ h') w'' := by
  induction he with
  | nil => exact he'
  | cons he _ ih => exact .cons he (ih he')

/-- **A run of a program makes steps of the system.** -/
theorem steps_of_runs {p q : WorkerFlow Unit} {h : List WorkerEvent} (hr : Runs p h q)
    {threads : List FlushThread} {i : Nat} {b : RootBatch} (ht : threads[i]? = some ⟨b, p⟩)
    (he : World.Execs pg w h w') :
    Relation.ReflTransGen (Step P pg service) ⟨w, threads⟩ ⟨w', threads.set i ⟨b, q⟩⟩ := by
  induction hr generalizing w threads with
  | nil p =>
    cases he
    obtain ⟨hi, hget⟩ := List.getElem?_eq_some_iff.mp ht
    rw [← hget, List.set_getElem_self]
  | @cons op k r h q hr ih =>
    cases he with
    | cons hexec hrest =>
      have hstep : Step P pg service ⟨w, threads⟩ _ :=
        .exec ⟨w, threads⟩ i ⟨b, .call op k⟩ ht op k rfl r _ hexec
      have hi := (List.getElem?_eq_some_iff.mp ht).1
      have hget : (threads.set i ⟨b, k r⟩)[i]? = some ⟨b, k r⟩ := List.getElem?_set_self hi
      have hrest := ih hget hrest
      rw [List.set_set] at hrest
      exact .head hstep hrest

/-- A batch that is flushed in a reachable state. -/
theorem Reachable.flush {threads : List FlushThread} (hs : Reachable P pg service ⟨w, threads⟩)
    {b : RootBatch} (hne : b.2 ≠ []) (hfresh : b.1 ∉ w.batches.map Prod.fst)
    {q : WorkerFlow Unit} {h : List WorkerEvent}
    (hr : Runs (productionFlush P service b.2 b.1.1) h q)
    (he : World.Execs pg { w with batches := w.batches ++ [b] } h w') :
    ∃ threads', Reachable P pg service ⟨w', threads'⟩ := by
  have hspawn : Step P pg service ⟨w, threads⟩ _ := .spawn ⟨w, threads⟩ b hne hfresh
  have hlast : (threads ++ [⟨b, productionFlush P service b.2 b.1.1⟩])[threads.length]? =
      some ⟨b, productionFlush P service b.2 b.1.1⟩ := by simp
  exact ⟨_, (hs.tail hspawn).trans (steps_of_runs hr hlast he)⟩

/-- An operation that leaves the stores alone. -/
theorem execs_idle {op : WorkerOp} {r : op.Response} {h : List WorkerEvent}
    (hanswers : op.Answers w r) (he : w.effect pg op = some w) (hrest : World.Execs pg w h w') :
    World.Execs pg w (⟨op, r⟩ :: h) w' := .cons ⟨hanswers, Or.inl he⟩ hrest

theorem execs_flushOps {f : JsString → Option LinkDestinationLookup} {key : JsString}
    {events : List CaptureEvent} {r : Except Thrown Unit}
    (hinsert : World.Exec pg
      (.insertEvents ((loggedEventsOf P f events).map LoggedEvent.newEvent))
      (w.written key (serializeBatch (loggedEventsOf P f events))) r w') :
    World.Execs pg w (flushOps P f key events r) w' :=
  execs_idle trivial rfl (.cons ⟨trivial, Or.inl rfl⟩ (.cons hinsert (.nil _)))

/-- An insertion that is not rejected. -/
theorem exec_insert {logged : List LoggedEvent}
    (hall : ∀ l ∈ logged, pg.rejects (l.row pg) = false) (r : Except Thrown Unit) :
    World.Exec pg (.insertEvents (logged.map LoggedEvent.newEvent)) w r
      { w with events := w.events.insert (logged.map (LoggedEvent.row pg)) } := by
  have hinsert : insertEventsBatch pg w.events (logged.map LoggedEvent.newEvent) =
      .ok (w.events.insert (logged.map (LoggedEvent.row pg))) := by
    cases logged with
    | nil => rfl
    | cons l logged =>
      rw [insertEventsBatch, boundRows_newEvents]
      show insertRows pg w.events ((l :: logged).map (LoggedEvent.row pg)) = _
      rw [insertRows, if_neg]
      rw [List.any_eq_true]
      rintro ⟨r, hr, hrej⟩
      obtain ⟨l', hl', rfl⟩ := List.mem_map.mp hr
      rw [hall l' hl'] at hrej
      cases hrej
  refine ⟨trivial, Or.inl ?_⟩
  simp only [World.effect, hinsert]

/-- An insertion that failed without any effect. -/
theorem exec_insert_failed (rows : List NewEvent) (e : Thrown) :
    World.Exec pg (.insertEvents rows) w (.error e) w := ⟨trivial, Or.inr ⟨rfl, Or.inl rfl⟩⟩

/-- The object is written three times, and nothing else happens. -/
theorem execs_isolatedOps {f : JsString → Option LinkDestinationLookup} {key : JsString}
    {events : List CaptureEvent} (error : Thrown) (w : World) :
    World.Execs pg w (isolatedOps P f key events error)
      (((w.written key (serializeBatch (loggedEventsOf P f events))).written key
        (serializeBatch (loggedEventsOf P f events))).written key
          (serializeBatch (loggedEventsOf P f events))) := by
  have hflush : ∀ w : World, World.Execs pg w (flushOps P f key events (.error error))
      (w.written key (serializeBatch (loggedEventsOf P f events))) :=
    fun w => execs_flushOps (exec_insert_failed _ _)
  have hsleep : ∀ (ms : Nat) (w : World), World.Execs pg w [⟨.sleep ms, ()⟩] w :=
    fun ms w => execs_idle trivial rfl (.nil _)
  exact execs_append (execs_append (hflush _) (hsleep _ _))
    (execs_append (execs_append (hflush _) (hsleep _ _)) (hflush _))

/-- **A poison event runs through the system**: its object stays, and its entry is accepted. -/
theorem Reachable.isolated {threads : List FlushThread}
    (hs : Reachable P pg service ⟨w, threads⟩) {root : Ulid} {event : CaptureEvent}
    (hfresh : root ∉ w.batches.map Prod.fst) {f : JsString → Option LinkDestinationLookup}
    (hf : (resolveDestination f event).reason = none) {error : Thrown}
    (hclass : classifyFlushError error = .rowFault) (hthrottle : 0 < service.cleanThrottleMs)
    (hclean : w.lastCleanAttemptAtMs = 0) :
    ∃ s', Reachable P pg service s' ∧ s'.world.eventLog =
      ((w.eventLog.put (eventKey root.1 event.occurredAt.time)
        (serializeBatch (loggedEventsOf P f [event]))).put (eventKey root.1 event.occurredAt.time)
          (serializeBatch (loggedEventsOf P f [event]))).put (eventKey root.1 event.occurredAt.time)
            (serializeBatch (loggedEventsOf P f [event])) := by
  have hall : ∀ e ∈ [event], (resolveDestination f e).reason = none := by
    intro e he
    rw [List.mem_singleton.mp he]
    exact hf
  have hruns := runs_production_isolated
    (runs_rootAttempts_isolated hall (eventBatchKey_event P root.1 event) error) hclass
    (runs_send .flushPoison event.toJson error.toError ⟨root.1, 3, []⟩ hthrottle)
  have hsend : ∀ (w : World) (entry : EventsDlqJobPayload), w.lastCleanAttemptAtMs = 0 →
      World.Execs pg w [⟨.now, (0 : Int)⟩, ⟨.addDlqEntry entry, .ok ()⟩, ⟨.now, (0 : Int)⟩,
        ⟨.lastCleanAttemptAtMs, (0 : Int)⟩] { w with dlq := w.dlq ++ [entry] } :=
    fun w entry hclean => execs_idle trivial rfl (.cons ⟨trivial, Or.inl rfl⟩
      (execs_idle trivial rfl (execs_idle hclean.symm rfl (.nil _))))
  have hlog : ∀ (w : World) (message : JsString) (logMeta : LogMeta),
      World.Execs pg w [⟨.logError message logMeta, .ok ()⟩] w :=
    fun w message logMeta => execs_idle trivial rfl (.nil _)
  let b : RootBatch := (root, [event])
  have hne : b.2 ≠ [] := List.cons_ne_nil _ _
  obtain ⟨threads', hreach⟩ := hs.flush hne hfresh hruns
    (execs_append (execs_append (execs_isolatedOps error _) (hlog _ _ _)) (hsend _ _ hclean))
  exact ⟨_, hreach, rfl⟩

end FlushSystem

end Posta
