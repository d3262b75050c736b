import Posta.Worker.Consumer
import Posta.Worker.SplitRetryLogic
import Posta.Worker.World

/-!
# What a flush establishes

**Durability** (`World.Durable`). An event has a row in Postgres, or an accepted entry of the
dead-letter queue holds it.

**The environment** (`workerEnv`). Other programs of the worker, operations on their way and
crashes change the world only as `World.Grows` allows. Waiting for the accumulator is an
operation like any other here: its promise resolves only for a durable event.

**Theorem (`ensures_productionFlush`).** Started anywhere, a flush of the production pipeline that
returns has made every event of its batch durable, and on the way it performs safe operations
only. **Theorem (`ensures_process`)** says the same of a job.
-/

namespace Posta

open Js Interaction Interaction.Env

/-! ## Durability -/

/-- An entry of the flush that holds an event. -/
def EventsDlqJobPayload.HoldsEvent (entry : EventsDlqJobPayload) (e : CaptureEvent) : Prop :=
  (entry.reason = .flushPoison ∧ entry.rawPayload = e.toJson) ∨
    (entry.reason = .r2PutFailed ∧
      ∃ es : List CaptureEvent, e ∈ es ∧ entry.rawPayload = .arr (es.map CaptureEvent.toJson))

namespace World

def Durable (w : World) (e : CaptureEvent) : Prop :=
  (∃ r ∈ w.events.rows, r.key = e.key) ∨ ∃ entry ∈ w.dlq, entry.HoldsEvent e

/-- An accepted entry with this reason and payload, the payload redacted. -/
def Accepted (w : World) (reason : DlqReason) (payload : Json) : Prop :=
  ∃ entry ∈ w.dlq, entry.reason = reason ∧ entry.rawPayload = (redactForbiddenKeys payload).1

variable {P : Platform} {w w' : World}

theorem Durable.mono (hg : Grows P w w') {e : CaptureEvent} (h : w.Durable e) : w'.Durable e := by
  rcases h with ⟨r, hr, hk⟩ | ⟨entry, hentry, he⟩
  · exact Or.inl ⟨r, hg.rows hr, hk⟩
  · exact Or.inr ⟨entry, hg.dlq hentry, he⟩

theorem Accepted.mono (hg : Grows P w w') {reason : DlqReason} {payload : Json}
    (h : w.Accepted reason payload) : w'.Accepted reason payload := by
  obtain ⟨entry, hentry, h⟩ := h
  exact ⟨entry, hg.dlq hentry, h⟩

theorem Accepted.durable {e : CaptureEvent} (h : w.Accepted .flushPoison e.toJson) :
    w.Durable e := by
  obtain ⟨entry, hentry, hreason, hpayload⟩ := h
  rw [redactForbiddenKeys_event] at hpayload
  exact Or.inr ⟨entry, hentry, Or.inl ⟨hreason, hpayload⟩⟩

theorem Accepted.durable_of_mem {es : List CaptureEvent} {e : CaptureEvent} (he : e ∈ es)
    (h : w.Accepted .r2PutFailed (.arr (es.map CaptureEvent.toJson))) : w.Durable e := by
  obtain ⟨entry, hentry, hreason, hpayload⟩ := h
  rw [redactForbiddenKeys_events] at hpayload
  exact Or.inr ⟨entry, hentry, Or.inr ⟨hreason, es, he, hpayload⟩⟩

/-- A job is taken care of: its event is durable, or its data, which the schema refuses, was
accepted by the dead-letter queue. -/
def Secured (w : World) (job : Job) : Prop :=
  match CaptureEventSchema.safeParse job.data with
  | some event => w.Durable event
  | none => w.Accepted .schemaValidationFailed job.data

end World

/-! ## The environment of the worker's programs -/

/-- What an operation may do to the world, as a program sees it. -/
def workerExec (pg : Postgres) : (op : WorkerOp) → World → op.Response → World → Prop
  | .add event, w, r, w' => w' = w ∧ (r = .ok () → w.Durable event)
  | op, w, r, w' => World.Exec pg op w r w'

theorem workerExec_of_exec {pg : Postgres} {op : WorkerOp} {w w' : World} {r : op.Response}
    (h : World.Exec pg op w r w') : workerExec pg op w r w' := by
  cases op with
  | add event =>
    obtain ⟨-, he | ⟨hf, -⟩⟩ := h
    · cases he
    · cases hf
  | _ => exact h

def workerEnv (P : Platform) (pg : Postgres) : Env WorkerOp WorkerOp.Response World where
  rely w w' := w.Inv P → w'.Inv P ∧ World.Grows P w w'
  safe := World.Safe P
  exec := workerExec pg
  rely_refl w h := ⟨h, World.Grows.refl w⟩
  rely_trans h h' hinv := ⟨(h' (h hinv).1).1, (h hinv).2.trans (h' (h hinv).1).2⟩
  exec_rely {op w r w'} hs he hinv := by
    cases op with
    | add event =>
      obtain ⟨rfl, -⟩ := he
      exact ⟨hinv, World.Grows.refl _⟩
    | _ => exact World.exec_grows hs he hinv

section Rules

variable {P : Platform} {pg : Postgres} {w : World}

/-- An operation that writes neither to the log nor to the table. -/
def WorkerOp.harmless : WorkerOp → Bool
  | .putObject .. => false
  | .insertEvents _ => false
  | _ => true

theorem WorkerOp.safe_of_harmless {op : WorkerOp} (h : op.harmless = true) (w : World) :
    World.Safe P op w := by
  cases op with
  | putObject key body => cases h
  | insertEvents rows => cases h
  | _ => trivial

/-- Harmless operations may be performed. -/
class Permits {W : Type} (E : Env WorkerOp WorkerOp.Response W) : Prop where
  safe_of_harmless : ∀ {op : WorkerOp}, op.harmless = true → ∀ w, E.safe op w

instance : Permits (workerEnv P pg) := ⟨WorkerOp.safe_of_harmless⟩

section Permitted

variable {W : Type} {E : Env WorkerOp WorkerOp.Response W} [Permits E] {w : W}

theorem completes_call {α : Type} {op : WorkerOp}
    {k : op.Response → Prog WorkerOp WorkerOp.Response (Except Thrown α)}
    (hk : ∀ r, ∃ s, k r = .done s) (hop : op.harmless = true := by rfl) :
    E.Completes (Prog.call op k : WorkerFlow α) w := by
  refine ensures_call (fun v _ => Permits.safe_of_harmless hop v) fun v _ r v' _ => ?_
  obtain ⟨s, hs⟩ := hk r
  rw [hs]
  cases s <;> exact fun _ _ => trivial

theorem completes_logError (message : JsString) (logMeta : LogMeta) :
    E.Completes (logError message logMeta) w :=
  completes_call fun r => ⟨r, rfl⟩

theorem completes_sleep (ms : Nat) : E.Completes (sleep ms) w :=
  completes_call fun r => ⟨.ok r, rfl⟩

theorem completes_safeLog (message : JsString) (logMeta : LogMeta) :
    E.Completes (EventsConsumer.safeLog message logMeta) w :=
  completes_tryCatch (completes_logError message logMeta) fun _ _ => completes_pure ()

/-! ## The dead-letter queue -/

theorem completes_cleanAgedEntriesThrottled (service : DlqService) :
    E.Completes (service.cleanAgedEntriesThrottled P) w := by
  rw [DlqService.cleanAgedEntriesThrottled]
  refine completes_seq (completes_call fun r => ⟨.ok r, rfl⟩) fun now v => ?_
  refine completes_seq (completes_call fun r => ⟨.ok r, rfl⟩) fun last v => ?_
  split_ifs
  · exact completes_pure _
  · refine completes_seq (completes_call fun r => ⟨.ok r, rfl⟩) fun _ v => ?_
    refine completes_tryCatch (completes_call fun r => ⟨r, rfl⟩) fun e v => ?_
    exact completes_logError _ _

theorem ensures_putAttempts {put : WorkerFlow Unit} {Q : W → Prop}
    (hQ : ∀ {v u}, E.rely v u → Q v → Q u)
    (hput : ∀ v, E.rely w v →
      E.Ensures (fun _ u => Q u) (fun _ _ => True) put v) (m delay k : Nat)
    (e : Thrown) :
    E.Ensures (fun outcome u => ∀ n, outcome = .succeeded n → Q u)
      (fun _ _ => True) (putAttempts put m delay k e) w := by
  induction k generalizing w e with
  | zero =>
    rw [putAttempts]
    exact ensures_seq (completes_logError _ _) fun _ v _ _ => ensures_pure fun _ _ n h => by cases h
  | succ k ih =>
    rw [putAttempts]
    have htry : E.Ensures (fun r u => r = none → Q u) (fun _ _ => True)
        (tryCatch (do put; pure none) fun error => pure (some error) :
          WorkerFlow (Option Thrown)) w := by
      refine ensures_tryCatch (ensures_seq
        (Ensures.mono (hput w (E.rely_refl w)) (fun _ _ h => h) fun e u _ => ?_)
        fun _ u hu hQu => ensures_pure fun v hv _ => hQ hv hQu)
      exact ensures_pure fun v _ h => by cases h
    refine ensures_seq htry fun r v hv hr => ?_
    cases r with
    | none => exact ensures_pure fun u hu _ _ => hQ hu (hr rfl)
    | some error =>
      have hrest : ∀ u, E.rely w u → E.Ensures
          (fun outcome u => ∀ n, outcome = .succeeded n → Q u) (fun _ _ => True)
          (putAttempts put m delay k error) u := fun u hu =>
        ih (fun v hv => hput v (E.rely_trans hu hv)) error
      show E.Ensures _ _ (ite _ _ _) v
      split_ifs
      · exact ensures_seq (completes_logError _ _) fun _ u _ _ =>
          ensures_pure fun _ _ n h => by cases h
      · exact ensures_seq (completes_sleep _) fun _ u hu _ =>
          hrest u (E.rely_trans hv hu)
      · exact hrest v hv

end Permitted

/-- Something that holds of a world with the invariant. -/
abbrev Established (P : Platform) (Q : World → Prop) (w : World) : Prop := w.Inv P ∧ Q w

theorem Established.rely {Q : World → Prop} (hQ : ∀ {v u}, World.Grows P v u → Q v → Q u)
    {v u : World} (hu : (workerEnv P pg).rely v u) (h : Established P Q v) :
    Established P Q u :=
  ⟨(hu h.1).1, hQ (hu h.1).2 h.2⟩

/-- **A send that returns** has had its entry accepted. -/
theorem ensures_send (service : DlqService) (reason : DlqReason) (payload : Json) (error : Thrown)
    (sendMeta : DlqSendMeta) (hinv : w.Inv P) :
    (workerEnv P pg).Ensures (fun _ u => Established P (World.Accepted · reason payload) u)
      (fun _ _ => True) (service.send P reason payload error sendMeta) w := by
  have hstable : ∀ {v u}, (workerEnv P pg).rely v u →
      Established P (World.Accepted · reason payload) v →
      Established P (World.Accepted · reason payload) u := fun hu =>
    Established.rely (fun hg h => World.Accepted.mono hg h) hu
  have hadd : ∀ now v, (workerEnv P pg).rely w v →
      (workerEnv P pg).Ensures (fun _ u => Established P (World.Accepted · reason payload) u)
        (fun _ _ => True) (Prog.call (.addDlqEntry
          (DlqService.entry P reason payload error sendMeta now)) Prog.done : WorkerFlow Unit) v := by
    intro now v hv
    refine ensures_call (fun _ _ => trivial) fun v₁ hv₁ r v₂ hr => ?_
    cases r with
    | error e => exact fun _ _ => trivial
    | ok u =>
      have hinv₁ := (hv₁ (hv hinv).1).1
      have hinv₂ := (World.exec_grows (WorkerOp.safe_of_harmless rfl v₁) hr hinv₁).1
      obtain ⟨-, he | ⟨hf, -⟩⟩ := hr
      · cases he
        exact fun v₃ hv₃ => hstable hv₃
          ⟨hinv₂, _, List.mem_append_right _ (List.mem_singleton_self _), rfl, rfl⟩
      · cases hf
  rw [DlqService.send]
  refine ensures_seq (completes_call fun r => ⟨.ok r, rfl⟩) fun now v hv _ => ?_
  refine ensures_seq (hadd now v hv) fun _ u hu hacc => ?_
  exact ensures_kept hstable (completes_cleanAgedEntriesThrottled service) hacc

/-! ## The write to the log -/

/-- The batch is in the log, or in the dead-letter queue. -/
def Placed (P : Platform) (Q : World → Prop) (events : List CaptureEvent) (outcome : R2PutOutcome)
    (u : World) : Prop :=
  match outcome with
  | .succeeded _ => Established P Q u
  | .failed .. =>
    Established P (World.Accepted · .r2PutFailed (.arr (events.map CaptureEvent.toJson))) u

theorem ensures_putR2BatchWithRetry {put : WorkerFlow Unit} {Q : World → Prop}
    (hQ : ∀ {v u}, World.Grows P v u → Q v → Q u) (hinv : w.Inv P)
    (hput : ∀ v, (workerEnv P pg).rely w v →
      (workerEnv P pg).Ensures (fun _ u => Established P Q u) (fun _ _ => True) put v)
    (events : List CaptureEvent) (batchId : JsString) (service : DlqService)
    (options : R2RetryOptions) :
    (workerEnv P pg).Ensures (Placed P Q events) (fun _ _ => True)
      (putR2BatchWithRetry put events batchId (service.send P) options) w := by
  have hretry : (workerEnv P pg).Ensures
      (fun outcome u => ∀ n, outcome = .succeeded n → Established P Q u) (fun _ _ => True)
      (retryR2Put put options) w := by
    rw [retryR2Put]
    cases options.validate with
    | error e => exact fun _ _ => trivial
    | ok u => exact ensures_putAttempts (Established.rely hQ) hput _ _ _ _
  rw [putR2BatchWithRetry]
  refine ensures_seq hretry fun outcome v hv hout => ?_
  cases outcome with
  | succeeded n => exact ensures_pure fun u hu => Established.rely hQ hu (hout n rfl)
  | failed error attempts =>
    refine ensures_seq (ensures_send service .r2PutFailed _ _ _ (hv hinv).1) fun _ u hu hacc => ?_
    exact ensures_pure fun u' hu' =>
      Established.rely (fun hg h => World.Accepted.mono hg h) hu' hacc

/-! ## One flush -/

@[simp] theorem event_resolveDestination (f : JsString → Option LinkDestinationLookup)
    (event : CaptureEvent) : (resolveDestination f event).event = event := by
  unfold resolveDestination
  split
  · rfl
  · split_ifs <;> rfl

/-- The logged events of a batch, for the destinations found. -/
def loggedEventsOf (P : Platform) (f : JsString → Option LinkDestinationLookup)
    (events : List CaptureEvent) : List LoggedEvent :=
  (events.map (resolveDestination f)).map fun r => toLoggedEvent P r.event r.destination

theorem map_event_loggedEventsOf (f : JsString → Option LinkDestinationLookup)
    (events : List CaptureEvent) :
    (loggedEventsOf P f events).map LoggedEvent.event = events := by
  rw [loggedEventsOf, List.map_map, List.map_map]
  refine (List.map_congr_left fun e _ => ?_).trans (List.map_id _)
  exact event_resolveDestination f e

theorem enriched_loggedEventsOf (f : JsString → Option LinkDestinationLookup)
    (events : List CaptureEvent) :
    ∀ l ∈ loggedEventsOf P f events, ∃ destination, l = toLoggedEvent P l.event destination := by
  intro l hl
  obtain ⟨r, -, rfl⟩ := List.mem_map.mp hl
  exact ⟨r.destination, rfl⟩

theorem newEventRows_eq (logged : List LoggedEvent) :
    newEventRows P logged = .ok (logged.map LoggedEvent.newEvent) := by
  induction logged with
  | nil => rfl
  | cons l logged ih =>
    rw [newEventRows, toNewEventRow_get, ih]
    rfl

variable {b : RootBatch}

/-- All events of a node are in the log. -/
def NodeBacked (P : Platform) (b : RootBatch) (node : Node) (u : World) : Prop :=
  ∀ e ∈ nodeEvents b.2 node, u.Backed P e.key

theorem NodeBacked.mono {node : Node} {v u : World} (hg : World.Grows P v u)
    (h : NodeBacked P b node v) : NodeBacked P b node u := fun e he => hg.backed _ (h e he)

theorem ensures_putEventBatch (hinv : w.Inv P) (hb : b ∈ w.batches) (node : Node)
    (occurredAt : JsString) {logged : List LoggedEvent}
    (hevents : logged.map LoggedEvent.event = nodeEvents b.2 node)
    (henriched : ∀ l ∈ logged, ∃ destination, l = toLoggedEvent P l.event destination) :
    (workerEnv P pg).Ensures (fun _ u => Established P (NodeBacked P b node) u) (fun _ _ => True)
      (putEventBatch P (nodeId b.1.1 node) occurredAt logged) w := by
  rw [putEventBatch]
  cases hkey : eventBatchKey P (nodeId b.1.1 node) occurredAt with
  | error e => exact fun _ _ => trivial
  | ok key =>
    have hobj : World.NodeObject P b node key (serializeBatch logged) logged :=
      ⟨hevents, henriched, ⟨_, hkey⟩, rfl⟩
    have howned : ∀ v, (workerEnv P pg).rely w v → v.Owned P key (serializeBatch logged) :=
      fun v hv => ⟨b, (hv hinv).2.batches hb, node, logged, hobj⟩
    refine ensures_call howned fun v hv r v' hr => ?_
    cases r with
    | error e => exact fun _ _ => trivial
    | ok u =>
      have hsafe : World.Safe P (.putObject key (serializeBatch logged)) v := howned v hv
      have hinv' := (World.exec_grows hsafe hr (hv hinv).1).1
      have hbatch := (hv hinv).2.batches hb
      obtain ⟨-, he | ⟨hf, -⟩⟩ := hr
      · cases he
        refine fun v₃ hv₃ => Established.rely NodeBacked.mono hv₃ ⟨hinv', fun e he => ?_⟩
        exact ⟨_, Store.SortedStore.mem_put_self _ _ _, b, hbatch, node, logged, hobj, e, he, rfl⟩
      · cases hf

/-- All events are durable. -/
def AllDurable (events : List CaptureEvent) (u : World) : Prop := ∀ e ∈ events, u.Durable e

theorem AllDurable.mono {events : List CaptureEvent} {v u : World} (hg : World.Grows P v u)
    (h : AllDurable events v) : AllDurable events u := fun e he => (h e he).mono hg

theorem ensures_insertEvents (hinv : w.Inv P) {logged : List LoggedEvent}
    (henriched : ∀ l ∈ logged, ∃ destination, l = toLoggedEvent P l.event destination)
    (hback : ∀ l ∈ logged, w.Backed P l.event.key) :
    (workerEnv P pg).Ensures
      (fun _ u => Established P (AllDurable (logged.map LoggedEvent.event)) u) (fun _ _ => True)
      (Prog.call (.insertEvents (logged.map LoggedEvent.newEvent)) Prog.done : WorkerFlow Unit)
      w := by
  have hrows : ∀ v, (workerEnv P pg).rely w v →
      v.RowsBacked P (logged.map LoggedEvent.newEvent) := fun v hv =>
    ⟨logged, rfl, henriched, fun l hl => (hv hinv).2.backed _ (hback l hl)⟩
  refine ensures_call hrows fun v hv r v' hr => ?_
  cases r with
  | error e => exact fun _ _ => trivial
  | ok u =>
    have hsafe : World.Safe P (.insertEvents (logged.map LoggedEvent.newEvent)) v := hrows v hv
    have hinv' := (World.exec_grows hsafe hr (hv hinv).1).1
    obtain ⟨-, he | ⟨hf, -⟩⟩ := hr
    · refine fun v₃ hv₃ => Established.rely AllDurable.mono hv₃ ⟨hinv', fun e he' => ?_⟩
      simp only [World.effect] at he
      cases hi : insertEventsBatch pg v.events (logged.map LoggedEvent.newEvent) with
      | error e =>
        rw [hi] at he
        cases he
      | ok table =>
        rw [hi] at he
        cases he
        obtain ⟨l, hl, rfl⟩ := List.mem_map.mp he'
        obtain ⟨r, hr, hk⟩ := Store.KeyedTable.exists_key_insert v.events
          (List.mem_map_of_mem hl : l.row pg ∈ logged.map (LoggedEvent.row pg))
        rw [← World.insertEventsBatch_newEvents hi] at hr
        exact Or.inl ⟨r, hr, hk.trans (key_row pg l)⟩
    · cases hf

/-- **A flush of a node that returns** has made its events durable. -/
theorem ensures_flushBatch (service : DlqService) (maxAttempts initialDelayMs : Int)
    (hinv : w.Inv P) (hb : b ∈ w.batches) (node : Node) :
    (workerEnv P pg).Ensures (fun _ u => Established P (AllDurable (nodeEvents b.2 node)) u)
      (fun _ _ => True)
      (flushBatch P ⟨service.send P, maxAttempts, initialDelayMs⟩ (nodeEvents b.2 node)
        (nodeId b.1.1 node)) w := by
  cases hevents : nodeEvents b.2 node with
  | nil =>
    rw [flushBatch]
    exact ensures_pure fun v hv => ⟨(hv hinv).1, fun e he => absurd he List.not_mem_nil⟩
  | cons first rest =>
    rw [flushBatch, ← hevents]
    refine ensures_seq (completes_call fun r => ⟨r, rfl⟩) fun destinations v hv _ => ?_
    have hlogged := map_event_loggedEventsOf (P := P) destinations (nodeEvents b.2 node)
    have henriched := enriched_loggedEventsOf (P := P) destinations (nodeEvents b.2 node)
    have hlog : (workerEnv P pg).Completes (logUnresolvedDestinations
        ((nodeEvents b.2 node).map (resolveDestination destinations))
        ((nodeEvents b.2 node).map fun event => event.linkId.1).eraseDups.length) v := by
      unfold logUnresolvedDestinations
      show (workerEnv P pg).Ensures _ _ (ite _ _ _) v
      split_ifs
      · exact completes_pure _
      · exact completes_logError _ _
    refine ensures_seq hlog fun _ u hu _ => ?_
    show (workerEnv P pg).Ensures _ _ (Flow.ofExcept (newEventRows P
      (loggedEventsOf P destinations (nodeEvents b.2 node))) >>= _) u
    rw [newEventRows_eq, Flow.ofExcept_ok_bind]
    obtain ⟨hinv', hg⟩ := (workerEnv P pg).rely_trans hv hu hinv
    have hmono : ∀ {v u : World}, World.Grows P v u → NodeBacked P b node v →
        NodeBacked P b node u := fun hg h => h.mono hg
    refine ensures_seq (ensures_putR2BatchWithRetry hmono hinv' (fun v' hv' =>
      ensures_putEventBatch (hv' hinv').1 ((hv' hinv').2.batches (hg.batches hb)) node _ hlogged
        henriched) _ _ service _) fun outcome v' hv' hout => ?_
    cases outcome with
    | succeeded n =>
      have hback : ∀ l ∈ loggedEventsOf P destinations (nodeEvents b.2 node),
          v'.Backed P l.event.key := fun l hl => hout.2 _ (by
        rw [← hlogged]
        exact List.mem_map_of_mem hl)
      refine Ensures.mono (ensures_insertEvents hout.1 henriched hback) (fun _ u hu => ?_)
        fun _ _ h => h
      rw [hlogged] at hu
      exact hu
    | failed error attempts =>
      refine ensures_pure fun v₃ hv₃ => Established.rely AllDurable.mono hv₃ ⟨hout.1, ?_⟩
      exact fun e he => hout.2.durable_of_mem he

/-- **Theorem (`ensures_productionFlush`).** -/
theorem ensures_productionFlush (service : DlqService) (hinv : w.Inv P) (hb : b ∈ w.batches) :
    (workerEnv P pg).Ensures (fun _ u => Established P (AllDurable b.2) u) (fun _ _ => True)
      (productionFlush P service b.2 b.1.1) w := by
  have hbatch : FlushesBatch (workerEnv P pg)
      (splitRetryEnv P { dlqSink := service.send P })
      (fun e u => Established P (World.Durable · e) u) b.2 b.1.1 w := by
    refine ⟨?_, ?_, fun ms v _ => completes_sleep ms, fun m l v _ => completes_logError m l⟩
    · exact fun hu h => Established.rely (fun hg h => World.Durable.mono hg h) hu h
    · intro node v hv _
      refine Ensures.mono (ensures_flushBatch service _ _ (hv hinv).1 ((hv hinv).2.batches hb) node)
        (fun _ u hu e he => ⟨hu.1, hu.2 e he⟩) fun _ _ h => h
  have hflush := ensures_flushWithSplitRetryAndPoisonDlq
    (S := fun p u => Established P (World.Accepted · .flushPoison p.event.toJson) u)
    (fun p v u hu h => Established.rely (fun hg h => World.Accepted.mono hg h) hu h) hbatch
    fun p sendMeta v hv => ensures_send service .flushPoison p.event.toJson p.error sendMeta
      (hv hinv).1
  refine Ensures.mono (Ensures.frame hflush) (fun _ u hu => ⟨(hu.2 hinv).1, fun e he => ?_⟩)
    fun _ _ _ => trivial
  rcases hu.1 e he with h | ⟨p, h, rfl⟩
  · exact h.2
  · exact h.2.durable

/-! ## A job -/

variable {consumer : EventsConsumer} {job : Job}

theorem ensures_routeToDlq (error : ZodError) (hinv : w.Inv consumer.platform) :
    (workerEnv consumer.platform pg).Ensures
      (fun _ u => Established consumer.platform
        (World.Accepted · .schemaValidationFailed job.data) u)
      (fun _ _ => True) (consumer.routeToDlq job error) w := by
  rw [EventsConsumer.routeToDlq]
  refine ensures_seq (ensures_tryCatch (Ensures.mono
    (ensures_send consumer.dlq .schemaValidationFailed job.data error.error _ hinv)
    (fun _ _ h => h) fun dlqError u _ => ?_)) fun _ u hu hacc => ?_
  · exact ensures_seq (completes_safeLog _ _) fun _ _ _ _ => ensures_throw fun _ _ => trivial
  · exact ensures_kept
      (fun hv h => Established.rely (fun hg h => World.Accepted.mono hg h) hv h)
      (completes_safeLog _ _) hacc

theorem ensures_handle (event : CaptureEvent) (hinv : w.Inv P) :
    (workerEnv P pg).Ensures (fun _ u => Established P (World.Durable · event) u)
      (fun _ _ => True) (EventsConsumer.handle event) w := by
  refine ensures_call (fun _ _ => trivial) fun v hv r v' hr => ?_
  cases r with
  | error e => exact fun _ _ => trivial
  | ok u =>
    obtain ⟨rfl, hdurable⟩ := hr
    exact fun u hu => Established.rely (fun hg h => World.Durable.mono hg h) hu
      ⟨(hv hinv).1, hdurable rfl⟩

/-- **Theorem (`ensures_process`).** A job that returns normally is taken care of. -/
theorem ensures_process (hinv : w.Inv consumer.platform) :
    (workerEnv consumer.platform pg).Ensures
      (fun _ u => Established consumer.platform (World.Secured · job) u) (fun _ _ => True)
      (consumer.process job) w := by
  rw [EventsConsumer.process]
  refine ensures_seq (completes_call fun r => ⟨.ok r, rfl⟩) fun _ v hv _ => ?_
  refine ensures_tryFinally ?_ fun u _ => completes_call fun r => ⟨.ok r, rfl⟩
  have hinv' := (hv hinv).1
  unfold World.Secured
  cases CaptureEventSchema.safeParse job.data with
  | none => exact ensures_routeToDlq _ hinv'
  | some event =>
    refine ensures_tryCatch (Ensures.mono (ensures_handle event hinv') (fun _ _ h => h)
      fun error u _ => ?_)
    exact ensures_seq (completes_safeLog _ _) fun _ _ _ _ => ensures_throw fun _ _ => trivial

end Rules

end Posta
