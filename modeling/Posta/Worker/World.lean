import Posta.Worker.BatchIds
import Posta.Worker.Flush

/-!
# The stores the worker writes to

**The world** (`World`). The event log, the events table, the entries the dead-letter queue
accepted, and the operations that were sent but have not taken effect: a request may be carried
out after its sender has given up on it, or after it crashed.

**Operations** (`World.Exec`). A success means that the operation took effect. A failure means
nothing: it took effect, or it did not, or it is still on its way.

**Invariant** (`World.Inv`). Every object of the log was written for a node of a batch, and holds
the events of that node. Every row of the table is backed by such an object, and so are the rows
of every insertion on its way.

**Environment** (`workerEnv`). Programs that write objects of their nodes only, and insert rows
only when they are backed, keep the invariant; what is backed once is backed forever
(`exec_grows`).
-/

namespace Posta

open Js Interaction

/-- A batch that was handed to the flush, under its root id. -/
abbrev RootBatch := Ulid × List CaptureEvent

structure World where
  eventLog : EventStore
  events : EventTable
  dlq : List EventsDlqJobPayload
  inFlight : List WorkerOp
  batches : List RootBatch
  lastCleanAttemptAtMs : Int
  inFlightJobCount : Int

namespace World

def empty : World := ⟨.empty, .empty, [], [], [], 0, 0⟩

/-- What an operation does when it takes effect; `none` when it cannot. The entries that the
retention removes from the queue stay on record here. -/
def effect (pg : Postgres) (w : World) : WorkerOp → Option World
  | .putObject key body => some { w with eventLog := w.eventLog.put key body }
  | .insertEvents rows =>
    match insertEventsBatch pg w.events rows with
    | .ok table => some { w with events := table }
    | .error _ => none
  | .addDlqEntry entry => some { w with dlq := w.dlq ++ [entry] }
  | .setLastCleanAttemptAtMs time => some { w with lastCleanAttemptAtMs := time }
  | .countInFlightJob change => some { w with inFlightJobCount := w.inFlightJobCount + change }
  | .add _ => none
  | _ => some w

end World

/-- Whether a response reports a failure. -/
def WorkerOp.failed : (op : WorkerOp) → op.Response → Bool
  | .putObject .., .error _ => true
  | .insertEvents _, .error _ => true
  | .addDlqEntry _, .error _ => true
  | _, _ => false

/-- A response that the state of the services determines. -/
def WorkerOp.Answers (w : World) : (op : WorkerOp) → op.Response → Prop
  | .lastCleanAttemptAtMs, time => time = w.lastCleanAttemptAtMs
  | _, _ => True

namespace World

/-- An operation is answered. -/
def Exec (pg : Postgres) (op : WorkerOp) (w : World) (r : op.Response) (w' : World) : Prop :=
  op.Answers w r ∧ (w.effect pg op = some w' ∨
    (op.failed r = true ∧ (w' = w ∨ w' = { w with inFlight := op :: w.inFlight })))

/-- An operation on its way takes effect. -/
def Lands (pg : Postgres) (op : WorkerOp) (w w' : World) : Prop :=
  ∃ before after, w.inFlight = before ++ op :: after ∧
    { w with inFlight := before ++ after }.effect pg op = some w'

/-- The services are gone; what they were about to do may be on its way. -/
def crash (w : World) (late : List WorkerOp) : World :=
  { w with inFlight := w.inFlight ++ late, lastCleanAttemptAtMs := 0, inFlightJobCount := 0 }

/-! ## What the log holds -/

/-- The object of a node: the events of the node, enriched, under the key of the node. -/
structure NodeObject (P : Platform) (b : RootBatch) (node : Node) (key body : JsString)
    (logged : List LoggedEvent) : Prop where
  events : logged.map LoggedEvent.event = nodeEvents b.2 node
  enriched : ∀ l ∈ logged, ∃ destination, l = toLoggedEvent P l.event destination
  key : ∃ occurredAt, eventBatchKey P (nodeId b.1.1 node) occurredAt = .ok key
  body : body = serializeBatch logged

/-- The object was written for some node. -/
def Owned (P : Platform) (w : World) (key body : JsString) : Prop :=
  ∃ b ∈ w.batches, ∃ node logged, NodeObject P b node key body logged

/-- An object of the log holds an event with this key. -/
def Backed (P : Platform) (w : World) (k : EventKey) : Prop :=
  ∃ entry ∈ w.eventLog.entries, ∃ b ∈ w.batches, ∃ node logged,
    NodeObject P b node entry.1 entry.2 logged ∧ ∃ e ∈ nodeEvents b.2 node, e.key = k

/-- The rows of logged events that are backed. -/
def RowsBacked (P : Platform) (w : World) (rows : List NewEvent) : Prop :=
  ∃ logged : List LoggedEvent, rows = logged.map LoggedEvent.newEvent ∧
    (∀ l ∈ logged, ∃ destination, l = toLoggedEvent P l.event destination) ∧
      ∀ l ∈ logged, w.Backed P l.event.key

structure Inv (P : Platform) (w : World) : Prop where
  roots : (w.batches.map Prod.fst).Nodup
  objects : ∀ entry ∈ w.eventLog.entries, w.Owned P entry.1 entry.2
  puts : ∀ key body, .putObject key body ∈ w.inFlight → w.Owned P key body
  rows : ∀ r ∈ w.events.rows, w.Backed P r.key
  inserts : ∀ rows, .insertEvents rows ∈ w.inFlight → w.RowsBacked P rows

/-- What never goes away. -/
structure Grows (P : Platform) (w w' : World) : Prop where
  batches : w.batches ⊆ w'.batches
  dlq : w.dlq ⊆ w'.dlq
  rows : w.events.rows ⊆ w'.events.rows
  backed : ∀ k, w.Backed P k → w'.Backed P k

variable {P : Platform} {pg : Postgres} {w w' w₁ w₂ w₃ : World}

theorem Grows.refl (w : World) : Grows P w w :=
  ⟨fun _ h => h, fun _ h => h, fun _ h => h, fun _ h => h⟩

theorem Grows.trans (h : Grows P w₁ w₂) (h' : Grows P w₂ w₃) : Grows P w₁ w₃ :=
  ⟨fun _ hb => h'.batches (h.batches hb), fun _ hd => h'.dlq (h.dlq hd),
    fun _ hr => h'.rows (h.rows hr), fun k hk => h'.backed k (h.backed k hk)⟩

theorem Owned.mono (hb : w.batches ⊆ w'.batches) {key body : JsString} (h : w.Owned P key body) :
    w'.Owned P key body := by
  obtain ⟨b, hmem, h⟩ := h
  exact ⟨b, hb hmem, h⟩

theorem RowsBacked.mono (hg : Grows P w w') {rows : List NewEvent} (h : w.RowsBacked P rows) :
    w'.RowsBacked P rows := by
  obtain ⟨logged, hrows, henriched, h⟩ := h
  exact ⟨logged, hrows, henriched, fun l hl => hg.backed _ (h l hl)⟩

/-- **A key determines the node of its object**, and with it the events. -/
theorem NodeObject.unique (hroots : (w.batches.map Prod.fst).Nodup) {b b' : RootBatch}
    (hb : b ∈ w.batches) (hb' : b' ∈ w.batches) {node node' : Node}
    {key body body' : JsString} {logged logged' : List LoggedEvent}
    (h : NodeObject P b node key body logged) (h' : NodeObject P b' node' key body' logged') :
    b = b' ∧ node = node' := by
  obtain ⟨t, hkey⟩ := h.key
  obtain ⟨t', hkey'⟩ := h'.key
  have hid : nodeId b.1.1 node = nodeId b'.1.1 node' := by
    by_contra hne
    exact eventBatchKey_ne hne hkey hkey' rfl
  obtain ⟨hroot, hnode⟩ := nodeId_inj hid
  exact ⟨List.inj_on_of_nodup_map hroots hb hb' hroot, hnode⟩

/-! ## Operations keep the invariant -/

/-- An effect that leaves the log, the table and the batches alone. -/
theorem grows_of_same (hlog : w'.eventLog = w.eventLog) (hevents : w'.events = w.events)
    (hbatches : w'.batches = w.batches) (hdlq : w.dlq ⊆ w'.dlq) : Grows P w w' := by
  refine ⟨by rw [hbatches]; exact fun _ h => h, hdlq, by rw [hevents]; exact fun _ h => h, ?_⟩
  intro k hk
  unfold Backed at hk ⊢
  rwa [hlog, hbatches]

theorem Inv.of_same (h : w.Inv P) (hlog : w'.eventLog = w.eventLog)
    (hevents : w'.events = w.events) (hbatches : w'.batches = w.batches)
    (hdlq : w.dlq ⊆ w'.dlq)
    (hputs : ∀ key body, .putObject key body ∈ w'.inFlight → w.Owned P key body)
    (hinserts : ∀ rows, .insertEvents rows ∈ w'.inFlight → w.RowsBacked P rows) :
    w'.Inv P ∧ Grows P w w' := by
  have hg : Grows P w w' := grows_of_same hlog hevents hbatches hdlq
  refine ⟨⟨by rw [hbatches]; exact h.roots, ?_, ?_, ?_, ?_⟩, hg⟩
  · rw [hlog]
    exact fun entry he => (h.objects entry he).mono hg.batches
  · exact fun key body hm => (hputs key body hm).mono hg.batches
  · rw [hevents]
    exact fun r hr => hg.backed _ (h.rows r hr)
  · exact fun rows hm => (hinserts rows hm).mono hg

/-- **Writing an object.** It replaces only the object of its own node, which held the same
events. -/
theorem Inv.put (h : w.Inv P) {key body : JsString} (ho : w.Owned P key body) :
    { w with eventLog := w.eventLog.put key body }.Inv P ∧
      Grows P w { w with eventLog := w.eventLog.put key body } := by
  have hback : ∀ k, w.Backed P k →
      ({ w with eventLog := w.eventLog.put key body } : World).Backed P k := by
    rintro k ⟨entry, he, b, hb, node, logged, hobj, hk⟩
    by_cases hkey : entry.1 = key
    · obtain ⟨b', hb', node', logged', hobj'⟩ := ho
      have hobj : NodeObject P b node key entry.2 logged := hkey ▸ hobj
      obtain ⟨rfl, rfl⟩ := hobj.unique h.roots hb hb' hobj'
      exact ⟨(key, body), Store.SortedStore.mem_put_self _ _ _, b, hb, node, logged', hobj', hk⟩
    · exact ⟨entry, Store.SortedStore.mem_put_of_ne he hkey _, b, hb, node, logged, hobj, hk⟩
  have hg : Grows P w { w with eventLog := w.eventLog.put key body } :=
    ⟨fun _ hb => hb, fun _ hd => hd, fun _ hr => hr, hback⟩
  refine ⟨⟨h.roots, ?_, h.puts, fun r hr => hback _ (h.rows r hr),
    fun rows hm => (h.inserts rows hm).mono hg⟩, hg⟩
  intro entry he
  rcases Store.SortedStore.mem_put.mp he with rfl | ⟨he, -⟩
  · exact ho
  · exact h.objects entry he

/-- The rows an insertion adds. -/
theorem insertEventsBatch_newEvents {table table' : EventTable} {logged : List LoggedEvent}
    (h : insertEventsBatch pg table (logged.map LoggedEvent.newEvent) = .ok table') :
    table' = table.insert (logged.map (LoggedEvent.row pg)) := by
  cases logged with
  | nil =>
    cases h
    rfl
  | cons l logged =>
    rw [insertEventsBatch, boundRows_newEvents] at h
    have h : insertRows pg table ((l :: logged).map (LoggedEvent.row pg)) = .ok table' := h
    unfold insertRows at h
    split_ifs at h
    exact (Except.ok.inj h).symm

/-- **Inserting rows** that are backed. -/
theorem Inv.insert (h : w.Inv P) {rows : List NewEvent} (hb : w.RowsBacked P rows)
    {table : EventTable} (hi : insertEventsBatch pg w.events rows = .ok table) :
    { w with events := table }.Inv P ∧ Grows P w { w with events := table } := by
  obtain ⟨logged, rfl, -, hback⟩ := hb
  rw [insertEventsBatch_newEvents hi]
  refine ⟨⟨h.roots, h.objects, h.puts, ?_, h.inserts⟩,
    ⟨fun _ hb => hb, fun _ hd => hd, fun r hr => Store.KeyedTable.mem_insert_of_mem _ hr _,
      fun _ hk => hk⟩⟩
  intro r hr
  rcases Store.KeyedTable.mem_of_mem_insert _ hr with hr | hr
  · exact h.rows r hr
  · obtain ⟨l, hl, rfl⟩ := List.mem_map.mp hr
    have hbacked : w.Backed P (l.row pg).key := (key_row pg l).symm ▸ hback l hl
    exact hbacked

/-- What a program may perform: objects of nodes, and rows that are backed. -/
def Safe (P : Platform) : WorkerOp → World → Prop
  | .putObject key body, w => w.Owned P key body
  | .insertEvents rows, w => w.RowsBacked P rows
  | _, _ => True

theorem Inv.effect (h : w.Inv P) {op : WorkerOp} (hs : Safe P op w)
    (he : w.effect pg op = some w') : w'.Inv P ∧ Grows P w w' := by
  have hsame : ∀ v : World, w.eventLog = v.eventLog → w.events = v.events →
      w.batches = v.batches → w.dlq ⊆ v.dlq → w.inFlight = v.inFlight → v.Inv P ∧ Grows P w v :=
    fun v hlog hevents hbatches hdlq hflight =>
      h.of_same hlog.symm hevents.symm hbatches.symm hdlq
        (fun key body hm => h.puts key body (hflight ▸ hm))
        fun rows hm => h.inserts rows (hflight ▸ hm)
  cases op with
  | putObject key body =>
    cases he
    exact h.put hs
  | insertEvents rows =>
    simp only [World.effect] at he
    cases hi : insertEventsBatch pg w.events rows with
    | error e =>
      rw [hi] at he
      cases he
    | ok table =>
      rw [hi] at he
      cases he
      exact h.insert hs hi
  | addDlqEntry entry =>
    cases he
    exact hsame _ rfl rfl rfl (List.subset_append_left _ _) rfl
  | add event => cases he
  | _ =>
    cases he
    exact hsame _ rfl rfl rfl (fun _ hd => hd) rfl

/-- Sending safe operations off changes nothing yet. -/
theorem Inv.defer (h : w.Inv P) (ops : List WorkerOp) (hs : ∀ op ∈ ops, Safe P op w) (v : World)
    (hflight : ∀ op ∈ v.inFlight, op ∈ ops ∨ op ∈ w.inFlight) (hlog : v.eventLog = w.eventLog)
    (hevents : v.events = w.events) (hbatches : v.batches = w.batches) (hdlq : v.dlq = w.dlq) :
    v.Inv P ∧ Grows P w v := by
  refine h.of_same hlog hevents hbatches (by rw [hdlq]; exact fun _ hd => hd)
    (fun key body hm => ?_) fun rows hm => ?_
  · rcases hflight _ hm with hm | hm
    · exact hs _ hm
    · exact h.puts key body hm
  · rcases hflight _ hm with hm | hm
    · exact hs _ hm
    · exact h.inserts rows hm

/-- **A safe operation** keeps the invariant, and nothing goes away. -/
theorem exec_grows {op : WorkerOp} {r : op.Response} (hs : Safe P op w) (he : Exec pg op w r w')
    (h : w.Inv P) : w'.Inv P ∧ Grows P w w' := by
  obtain ⟨-, he | ⟨-, rfl | rfl⟩⟩ := he
  · exact h.effect hs he
  · exact ⟨h, Grows.refl _⟩
  · refine h.defer [op] (fun o ho => ?_) _ (fun o ho => ?_) rfl rfl rfl rfl
    · rw [List.mem_singleton.mp ho]
      exact hs
    · rcases List.mem_cons.mp ho with rfl | ho
      · exact Or.inl (List.mem_singleton_self _)
      · exact Or.inr ho

theorem Safe.mono {op : WorkerOp} (hg : Grows P w w') (h : Safe P op w) : Safe P op w' := by
  cases op with
  | putObject key body => exact Owned.mono hg.batches h
  | insertEvents rows => exact RowsBacked.mono hg h
  | _ => trivial

theorem Inv.safe_of_inFlight (h : w.Inv P) {op : WorkerOp} (hop : op ∈ w.inFlight) :
    Safe P op w := by
  cases op with
  | putObject key body => exact h.puts key body hop
  | insertEvents rows => exact h.inserts rows hop
  | _ => trivial

theorem lands_grows {op : WorkerOp} (hl : Lands pg op w w') (h : w.Inv P) :
    w'.Inv P ∧ Grows P w w' := by
  obtain ⟨before, after, hflight, he⟩ := hl
  have hs : Safe P op w := h.safe_of_inFlight (by rw [hflight]; simp)
  have hsub : ∀ o ∈ before ++ after, o ∈ ([] : List WorkerOp) ∨ o ∈ w.inFlight := by
    intro o ho
    rw [hflight]
    rcases List.mem_append.mp ho with ho | ho
    · exact Or.inr (List.mem_append_left _ ho)
    · exact Or.inr (List.mem_append_right _ (List.mem_cons_of_mem _ ho))
  obtain ⟨hinv, hg⟩ := h.defer [] (fun _ ho => absurd ho List.not_mem_nil)
    { w with inFlight := before ++ after } hsub rfl rfl rfl rfl
  obtain ⟨hinv', hg'⟩ := hinv.effect (hs.mono hg) he
  exact ⟨hinv', hg.trans hg'⟩

theorem crash_grows {late : List WorkerOp} (hs : ∀ op ∈ late, Safe P op w) (h : w.Inv P) :
    (w.crash late).Inv P ∧ Grows P w (w.crash late) := by
  refine h.defer late hs (w.crash late) (fun op ho => ?_) rfl rfl rfl rfl
  exact (List.mem_append.mp ho).symm

/-- A new batch under a fresh id. -/
theorem spawn_grows {b : RootBatch} (hfresh : b.1 ∉ w.batches.map Prod.fst) (h : w.Inv P) :
    { w with batches := w.batches ++ [b] }.Inv P ∧
      Grows P w { w with batches := w.batches ++ [b] } := by
  have hsub : w.batches ⊆ w.batches ++ [b] := List.subset_append_left _ _
  have hback : ∀ k, w.Backed P k →
      ({ w with batches := w.batches ++ [b] } : World).Backed P k := by
    rintro k ⟨entry, he, b', hb', h⟩
    exact ⟨entry, he, b', hsub hb', h⟩
  have hg : Grows P w { w with batches := w.batches ++ [b] } :=
    ⟨hsub, fun _ hd => hd, fun _ hr => hr, hback⟩
  refine ⟨⟨?_, fun entry he => (h.objects entry he).mono hsub,
    fun key body hm => (h.puts key body hm).mono hsub, fun r hr => hback _ (h.rows r hr),
    fun rows hm => (h.inserts rows hm).mono hg⟩, hg⟩
  show ((w.batches ++ [b]).map Prod.fst).Nodup
  rw [List.map_append, List.map_singleton, List.nodup_append]
  refine ⟨h.roots, List.nodup_singleton _, fun i hi j hj hij => hfresh ?_⟩
  rw [← List.mem_singleton.mp hj, ← hij]
  exact hi

theorem inv_empty : empty.Inv P :=
  ⟨List.nodup_nil, nofun, nofun, nofun, nofun⟩

end World

end Posta
