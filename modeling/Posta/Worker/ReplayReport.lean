import Posta.Worker.Consumer
import Posta.Worker.LogRows

/-!
# Replay with a report

A replay that validates every record first. What the schema refuses is counted by its reason and
left out; everything else is inserted, and the report says how many rows were new.

**Theorem (`replayWithReport_table`).** Its table is that of a plain replay whose filter is the
schema.
-/

namespace Posta

open Js

/-! ## The schema of a record -/

/-- `ReplayRecordSchema.safeParse(record).success`. -/
def replayRecordValid (record : LogRecord) : Bool :=
  (CaptureEventSchema.ulid (lookup record (lit "event_id"))).isSome &&
    (CaptureEventSchema.isoDatetime (lookup record (lit "occurred_at"))).isSome &&
    (CaptureEventSchema.nonEmpty (lookup record (lit "tenant_id"))).isSome &&
    (CaptureEventSchema.nonEmpty (lookup record (lit "link_id"))).isSome &&
    (CaptureEventSchema.nonEmpty (lookup record (lit "slug"))).isSome &&
    (CaptureEventSchema.nonEmpty (lookup record (lit "source_platform"))).isSome &&
    match lookup record (lit "is_in_app") with
    | some (.bool _) => true
    | _ => false

/-- A line is refused only for its source platform. -/
theorem replayRecordValid_toLogLine {l : LoggedEvent} {platform : JsString}
    (h : l.enrichment.sourcePlatform = .json (.str platform)) (hne : platform ≠ []) :
    replayRecordValid (toLogLine l) = true := by
  have hlookup : ∀ (f : LogField) (v : Json), l.get f = .json v →
      lookup (toLogLine l) f.name = some v := by
    intro f v hv
    have hget := get_toLogLine l f
    rw [hv, LogRecord.get] at hget
    cases hl : lookup (toLogLine l) f.name with
    | none =>
      rw [hl] at hget
      cases hget
    | some w =>
      rw [hl] at hget
      cases hget
      rfl
  have hplatform : CaptureEventSchema.nonEmpty (some (.str platform)) = some ⟨platform, hne⟩ :=
    CaptureEventSchema.nonEmpty_str ⟨platform, hne⟩
  have hulid := hlookup (.column .eventId) _ rfl
  have htime := hlookup .occurredAt _ rfl
  have htenant := hlookup (.column .tenantId) _ rfl
  have hlink := hlookup (.column .linkId) _ rfl
  have hslug := hlookup (.column .slug) _ rfl
  have hsource := hlookup (.column .sourcePlatform) _ h
  have happ := hlookup (.column .isInApp) _ rfl
  simp only [LogField.name, Column.name] at hulid htime htenant hlink hslug hsource happ
  simp only [replayRecordValid, hulid, htime, htenant, hlink, hslug, hsource, happ, hplatform,
    CaptureEventSchema.ulid_str, CaptureEventSchema.isoDatetime_str,
    CaptureEventSchema.nonEmpty_str, Option.isSome_some, Bool.and_self]

/-- `texts.join('; ')`. -/
def joinReasons : List JsString → JsString
  | [] => []
  | [text] => text
  | text :: texts => text ++ lit "; " ++ joinReasons texts

def describeRejection (issues : List ZodIssue) : JsString :=
  joinReasons (issues.map fun issue =>
    (if issue.path.isEmpty then lit "(root)" else joinDots issue.path) ++ lit ": " ++ issue.message)

/-- `rejectionCounts.set(reason, (rejectionCounts.get(reason) ?? 0) + 1)`. -/
def countReason (reason : JsString) : List (JsString × Nat) → List (JsString × Nat)
  | [] => [(reason, 1)]
  | entry :: counts =>
    if entry.1 = reason then (reason, entry.2 + 1) :: counts
    else entry :: countReason reason counts

/-! ## The replay -/

/-- `insertEventsBatchWithCounts`: the ids of the rows that were added, and the table. -/
def insertEventsBatchWithCounts (pg : Postgres) (table : EventTable) (rows : List NewEvent) :
    Except Thrown (List (Option JsString) × EventTable) := do
  let table' ← insertEventsBatch pg table rows
  return ((table'.rows.drop table.rows.length).map fun r => r.text .eventId, table')

structure ReplayReport where
  objectsRead : Nat
  recordsParsed : Nat
  rowsInserted : Nat
  rowsSkipped : Int
  rejectionReasons : List (JsString × Nat)
  rowsRejected : Nat
  reconciled : Bool
  exitCode : Nat

def exitOk : Nat := 0

def exitReconciliationMismatch : Nat := 3

def buildReplayReport (objectsRead recordsParsed rowsInserted : Nat) (rowsSkipped : Int)
    (rejectionReasons : List (JsString × Nat)) : ReplayReport :=
  let reconciled := (rowsInserted : Int) + rowsSkipped == recordsParsed
  { objectsRead, recordsParsed, rowsInserted, rowsSkipped, rejectionReasons
    rowsRejected := (rejectionReasons.map Prod.snd).sum
    reconciled
    exitCode := if reconciled then exitOk else exitReconciliationMismatch }

structure ReplayReportOptions where
  prefixes : List JsString
  batchSize : Int := 500

/-- What Zod reports of a record that the schema refuses. -/
abbrev RecordIssues := LogRecord → List ZodIssue

def replayReportMaxBatchSize : Int := 500

structure ReplayReportState where
  table : EventTable
  recordsParsed : Nat
  rowsInserted : Nat
  rowsSkipped : Int
  rejectionCounts : List (JsString × Nat)
  buffer : List NewEvent

namespace ReplayReportState

variable (P : Platform) (pg : Postgres)

def flushBuffer (s : ReplayReportState) : Except ReplayAborted ReplayReportState :=
  if s.buffer.isEmpty then .ok s
  else do
    let (insertedEventIds, table) ← abortWith s.table
      (insertEventsBatchWithCounts pg s.table s.buffer)
    return { s with
      table
      rowsInserted := s.rowsInserted + insertedEventIds.length
      rowsSkipped := s.rowsSkipped + (s.buffer.length - insertedEventIds.length)
      buffer := [] }

def replayRecord (issues : RecordIssues) (batchSize : Int) (s : ReplayReportState)
    (record : LogRecord) : Except ReplayAborted ReplayReportState :=
  if replayRecordValid record then do
    let s := { s with recordsParsed := s.recordsParsed + 1 }
    let row ← abortWith s.table (toNewEventRow P record.get)
    let s := { s with buffer := s.buffer ++ [row] }
    if batchSize ≤ s.buffer.length then s.flushBuffer pg else return s
  else
    return { s with
      rejectionCounts := countReason (describeRejection (issues record)) s.rejectionCounts }

def replayRecords (issues : RecordIssues) (batchSize : Int) :
    List LogRecord → ReplayReportState → Except ReplayAborted ReplayReportState
  | [], s => .ok s
  | record :: records, s => do
    let s ← s.replayRecord P pg issues batchSize record
    replayRecords issues batchSize records s

end ReplayReportState

def batchSizeError (batchSize : Int) : Thrown :=
  .error (lit "ReplayReportBatchSizeError")
    (lit "posta replay-report: batchSize " ++ intText batchSize ++ lit " exceeds the maximum of " ++
      intText replayReportMaxBatchSize ++ lit " " ++
      lit "(matches replay.ts's own --batch-size ceiling — apps/worker/src/cli/replay.ts's " ++
      lit "MAX_BATCH_SIZE) — refusing to run before any R2 read or Postgres write")
    none false none none

def replayWithReport (P : Platform) (pg : Postgres) (issues : RecordIssues)
    (options : ReplayReportOptions) (eventLog : EventStore) (table : EventTable) :
    Except ReplayAborted (ReplayReport × EventTable) :=
  if replayReportMaxBatchSize < options.batchSize then
    .error ⟨batchSizeError options.batchSize, table⟩
  else do
    let objectsRead := (listedObjects eventLog options.prefixes).length
    let stream := streamEventLog eventLog options.prefixes
    let s ← ReplayReportState.replayRecords P pg issues options.batchSize stream.records
      ⟨table, 0, 0, 0, [], []⟩
    match stream.error with
    | some error => throw ⟨error, s.table⟩
    | none => do
      let s ← s.flushBuffer pg
      return (buildReplayReport objectsRead s.recordsParsed s.rowsInserted s.rowsSkipped
        s.rejectionCounts, s.table)

/-! ## The table of a replay with a report -/

section Tables

variable {P : Platform} {pg : Postgres}

/-- The two loops have the same rows in the table and in the buffer. -/
def SameRows (s : ReplayReportState) (t : ReplayState) : Prop :=
  s.table = t.table ∧ s.buffer = t.buffer

/-- Both fail, or both go on with the same rows. -/
def SameOutcome : Except ReplayAborted ReplayReportState → Except ReplayAborted ReplayState → Prop
  | .ok s, .ok t => SameRows s t
  | .error e, .error e' => e = e'
  | _, _ => False

/-- Loops with the same outcome, followed by steps with the same outcomes. -/
theorem SameOutcome.bind {x : Except ReplayAborted ReplayReportState}
    {y : Except ReplayAborted ReplayState}
    {f : ReplayReportState → Except ReplayAborted ReplayReportState}
    {g : ReplayState → Except ReplayAborted ReplayState} (h : SameOutcome x y)
    (hfg : ∀ s t, SameRows s t → SameOutcome (f s) (g t)) : SameOutcome (x >>= f) (y >>= g) := by
  cases x with
  | error e =>
    cases y with
    | error e' => exact h
    | ok t => exact h.elim
  | ok s =>
    cases y with
    | error e' => exact h.elim
    | ok t => exact hfg s t h

theorem flushBuffer_same {s : ReplayReportState} {t : ReplayState} (h : SameRows s t) :
    SameOutcome (s.flushBuffer pg) (t.flushBuffer pg) := by
  obtain ⟨table, recordsParsed, rowsInserted, rowsSkipped, rejectionCounts, buffer⟩ := s
  obtain ⟨table', recordsRead, batchesWritten, buffer'⟩ := t
  obtain ⟨rfl, rfl⟩ : table = table' ∧ buffer = buffer' := h
  rw [ReplayReportState.flushBuffer, ReplayState.flushBuffer]
  split_ifs
  · exact ⟨rfl, rfl⟩
  · show SameOutcome (abortWith table (insertEventsBatchWithCounts pg table buffer) >>= _)
      (abortWith table (insertEventsBatch pg table buffer) >>= _)
    rw [insertEventsBatchWithCounts]
    cases insertEventsBatch pg table buffer with
    | error e => exact rfl
    | ok t => exact ⟨rfl, rfl⟩

/-- The options of the plain replay: the schema is its filter. -/
def ReplayReportOptions.driver (options : ReplayReportOptions) : ReplayDriverOptions :=
  { prefixes := options.prefixes, batchSize := options.batchSize,
    filter := some replayRecordValid }

theorem replayRecord_same (issues : RecordIssues) (options : ReplayReportOptions)
    {s : ReplayReportState} {t : ReplayState} (h : SameRows s t) (record : LogRecord) :
    SameOutcome (s.replayRecord P pg issues options.batchSize record)
      (t.replayRecord P pg options.driver record) := by
  obtain ⟨table, recordsParsed, rowsInserted, rowsSkipped, rejectionCounts, buffer⟩ := s
  obtain ⟨table', recordsRead, batchesWritten, buffer'⟩ := t
  obtain ⟨rfl, rfl⟩ : table = table' ∧ buffer = buffer' := h
  rw [ReplayReportState.replayRecord, ReplayState.replayRecord]
  show SameOutcome (ite (replayRecordValid record = true) _ _)
    (ite (replayRecordValid record = true) _ _)
  split_ifs
  · cases toNewEventRow P record.get with
    | error e => exact rfl
    | ok row =>
      show SameOutcome (ite (options.batchSize ≤ ((buffer ++ [row]).length : Int)) _ _)
        (ite (options.batchSize ≤ ((buffer ++ [row]).length : Int)) _ _)
      split_ifs
      · exact flushBuffer_same ⟨rfl, rfl⟩
      · exact ⟨rfl, rfl⟩
  · exact ⟨rfl, rfl⟩

theorem replayRecords_same (issues : RecordIssues) (options : ReplayReportOptions)
    (records : List LogRecord) {s : ReplayReportState} {t : ReplayState} (h : SameRows s t) :
    SameOutcome (ReplayReportState.replayRecords P pg issues options.batchSize records s)
      (ReplayState.replayRecords P pg options.driver records t) := by
  induction records generalizing s t with
  | nil => exact h
  | cons record records ih =>
    exact (replayRecord_same issues options h record).bind fun _ _ h' => ih h'

/-- The table in the end, or where the replay stopped. -/
def finalTable {α : Type} (x : Except ReplayAborted (α × EventTable)) :
    Except ReplayAborted EventTable :=
  x.map Prod.snd

theorem SameOutcome.finalTable {α β : Type} {x : Except ReplayAborted ReplayReportState}
    {y : Except ReplayAborted ReplayState}
    {f : ReplayReportState → Except ReplayAborted (α × EventTable)}
    {g : ReplayState → Except ReplayAborted (β × EventTable)} (h : SameOutcome x y)
    (hfg : ∀ s t, SameRows s t → finalTable (f s) = finalTable (g t)) :
    Posta.finalTable (x >>= f) = Posta.finalTable (y >>= g) := by
  cases x with
  | error e =>
    cases y with
    | error e' => exact congrArg Except.error h
    | ok t => exact h.elim
  | ok s =>
    cases y with
    | error e' => exact h.elim
    | ok t => exact hfg s t h

/-- **Theorem (`replayWithReport_table`).** -/
theorem replayWithReport_table (P : Platform) (pg : Postgres) (issues : RecordIssues)
    {options : ReplayReportOptions} (hsize : options.batchSize ≤ replayReportMaxBatchSize)
    (eventLog : EventStore) (table : EventTable) :
    finalTable (replayWithReport P pg issues options eventLog table) =
      finalTable (replayEventLog P pg options.driver eventLog table) := by
  rw [replayWithReport, if_neg (not_lt.mpr hsize), replayEventLog]
  refine (replayRecords_same issues options _ ⟨rfl, rfl⟩).finalTable fun s t h => ?_
  show finalTable (match (streamEventLog eventLog options.prefixes).error with
      | some error => throw ⟨error, s.table⟩
      | none => _) =
    finalTable (match (streamEventLog eventLog options.prefixes).error with
      | some error => throw ⟨error, t.table⟩
      | none => _)
  cases (streamEventLog eventLog options.prefixes).error with
  | some e =>
    have haborted : (⟨e, s.table⟩ : ReplayAborted) = ⟨e, t.table⟩ := by rw [h.1]
    exact congrArg Except.error haborted
  | none => exact (flushBuffer_same h).finalTable fun s' t' h' => congrArg Except.ok h'.1

theorem ok_iff_finalTable {α : Type} {x : Except ReplayAborted (α × EventTable)}
    {table : EventTable} : (∃ a, x = .ok (a, table)) ↔ finalTable x = .ok table := by
  cases x with
  | error e => exact ⟨fun ⟨_, h⟩ => (nomatch h), fun h => (nomatch h)⟩
  | ok p =>
    constructor
    · rintro ⟨a, h⟩
      cases h
      rfl
    · intro h
      cases h
      exact ⟨p.1, rfl⟩

theorem replayWithReport_ok_iff (issues : RecordIssues) {options : ReplayReportOptions}
    (hsize : options.batchSize ≤ replayReportMaxBatchSize) {eventLog : EventStore}
    {table table' : EventTable} :
    (∃ report, replayWithReport P pg issues options eventLog table = .ok (report, table')) ↔
      ∃ summary, replayEventLog P pg options.driver eventLog table = .ok (summary, table') := by
  rw [ok_iff_finalTable, ok_iff_finalTable, replayWithReport_table P pg issues hsize]

end Tables

end Posta
