import Posta.Worker.ReplayAccounting

/-!
# Lines that a replay with a report tolerates

`ReplayRecordSchema` checks seven fields of a line and leaves the others alone, so that lines of an
earlier column set pass. The projection then calls `includes` on eighteen columns that the schema
never looked at.

**Theorem (`replay_tolerates_iff`).** A replay over a log inserts the row of every line that
passes the schema and counts every other line exactly when each line is a JSON object and, for
each line that passes, the header columns are present as `null`, strings or arrays, and Postgres
takes the row.
-/

namespace Posta

open Js

/-- The lines of the objects under some prefixes, in the order in which they are read. -/
def logLines (eventLog : EventStore) (prefixes : List JsString) : List JsString :=
  (listedObjects eventLog prefixes).flatMap fun e => readLines e.2

/-- The lines that are JSON objects. -/
def logRecords (eventLog : EventStore) (prefixes : List JsString) : List LogRecord :=
  (logLines eventLog prefixes).filterMap recordOfLine

/-- With every batch size and from every table, the replay ends, has inserted the rows of all lines
that pass the schema and has counted all the others. -/
def Tolerates (P : Platform) (pg : Postgres) (issues : RecordIssues) (prefixes : List JsString)
    (eventLog : EventStore) : Prop :=
  ∀ batchSize ≤ replayReportMaxBatchSize, ∀ table : EventTable, ∃ report,
    replayWithReport P pg issues { prefixes, batchSize } eventLog table =
      .ok (report, table.insert
        ((parsedRecords (logRecords eventLog prefixes)).map (LogRecord.row pg))) ∧
    report.recordsParsed = (parsedRecords (logRecords eventLog prefixes)).length ∧
    report.rowsRejected = (refusedRecords (logRecords eventLog prefixes)).length

/-- The condition on the log. -/
structure Tolerable (pg : Postgres) (prefixes : List JsString) (eventLog : EventStore) : Prop where
  objects : ∀ line ∈ logLines eventLog prefixes, line ≠ [] → (recordOfLine line).isSome
  sanitizable : ∀ record ∈ logRecords eventLog prefixes, replayRecordValid record = true →
    record.Sanitizable
  taken : ∀ record ∈ logRecords eventLog prefixes, replayRecordValid record = true →
    pg.rejects (record.row pg) = false

theorem stream_error_iff (eventLog : EventStore) (prefixes : List JsString) :
    (streamEventLog eventLog prefixes).error = none ↔
      ∀ line ∈ logLines eventLog prefixes, line ≠ [] → (recordOfLine line).isSome :=
  (reads_streamObjects (listedObjects eventLog prefixes)).1

theorem stream_records {eventLog : EventStore} {prefixes : List JsString}
    (h : (streamEventLog eventLog prefixes).error = none) :
    (streamEventLog eventLog prefixes).records = logRecords eventLog prefixes :=
  (reads_streamObjects (listedObjects eventLog prefixes)).2 h

theorem tolerable_of_finishes {P : Platform} {pg : Postgres} {issues : RecordIssues}
    {options : ReplayReportOptions} {eventLog : EventStore} {table table' : EventTable}
    {report : ReplayReport}
    (h : replayWithReport P pg issues options eventLog table = .ok (report, table')) :
    Tolerable pg options.prefixes eventLog := by
  have hsize := (replayWithReport_ok h).1
  obtain ⟨herror, hall, -⟩ :=
    (replayWithReport_finishes_iff P pg issues hsize eventLog table table').mp ⟨report, h⟩
  rw [stream_records herror] at hall
  refine ⟨(stream_error_iff _ _).mp herror, fun record hrecord hvalid => ?_,
    fun record hrecord hvalid => ?_⟩
  · exact (hall record (List.mem_filter.mpr ⟨hrecord, hvalid⟩)).1
  · exact (hall record (List.mem_filter.mpr ⟨hrecord, hvalid⟩)).2

theorem tolerates_of_tolerable (P : Platform) {pg : Postgres} (issues : RecordIssues)
    {prefixes : List JsString} {eventLog : EventStore} (h : Tolerable pg prefixes eventLog) :
    Tolerates P pg issues prefixes eventLog := by
  intro batchSize hsize table
  have hsize' : ({ prefixes, batchSize } : ReplayReportOptions).batchSize ≤
    replayReportMaxBatchSize := hsize
  have herror := (stream_error_iff eventLog prefixes).mpr h.objects
  have hrecords := stream_records herror
  have hall : ∀ record ∈ parsedRecords (streamEventLog eventLog prefixes).records,
      record.Sanitizable ∧ pg.rejects (record.row pg) = false := by
    intro record hrecord
    rw [hrecords] at hrecord
    obtain ⟨hmem, hvalid⟩ := List.mem_filter.mp hrecord
    exact ⟨h.sanitizable record hmem hvalid, h.taken record hmem hvalid⟩
  obtain ⟨report, hreport⟩ :=
    (replayWithReport_finishes_iff P pg issues hsize' eventLog table _).mpr ⟨herror, hall, rfl⟩
  rw [hrecords] at hreport
  refine ⟨report, hreport, ?_, ?_⟩
  · rw [report_eq hreport, ← hrecords]
    rfl
  · rw [report_eq hreport, ← hrecords]
    refine (sum_countReasons _ []).trans ?_
    simp

/-- **Theorem (`replay_tolerates_iff`).** -/
theorem replay_tolerates_iff (P : Platform) (pg : Postgres) (issues : RecordIssues)
    (prefixes : List JsString) (eventLog : EventStore) :
    Tolerates P pg issues prefixes eventLog ↔ Tolerable pg prefixes eventLog := by
  constructor
  · intro h
    obtain ⟨report, hreport, -⟩ := h 500 (by decide) .empty
    exact tolerable_of_finishes hreport
  · exact tolerates_of_tolerable P issues

/-- A record of an earlier column set, without any header column. -/
def sparseRecord : LogRecord :=
  [(lit "event_id", .str (lit "01J00000000000000000000000")),
    (lit "occurred_at", .str (lit "2026-07-21T09:30:00.000Z")), (lit "tenant_id", .str (lit "tenant")),
    (lit "link_id", .str (lit "link")), (lit "slug", .str (lit "go")),
    (lit "source_platform", .str (lit "directo")), (lit "is_in_app", .bool false)]

/-- Its line, in an object of its own. -/
def sparseLog : EventStore :=
  Store.SortedStore.empty.put (lit "events/sparse") (stringify (.obj sparseRecord) ++ [10])

/-- **A line without header columns** passes the schema and aborts the replay. -/
theorem replay_tolerates_sparse :
    sparseRecord ∈ logRecords sparseLog [lit "events/"] ∧ replayRecordValid sparseRecord = true ∧
      ¬ Tolerates Platform.plain acceptingPostgres (fun _ => []) [lit "events/"] sparseLog := by
  have hdistinct : (Json.obj sparseRecord).Distinct := by
    refine ⟨by decide, ?_⟩
    exact ⟨trivial, trivial, trivial, trivial, trivial, trivial, trivial, trivial⟩
  have hline : recordOfLine (stringify (.obj sparseRecord)) = some sparseRecord := by
    rw [recordOfLine, parse_stringify hdistinct]
  have hvalid : replayRecordValid sparseRecord = true := by decide +kernel
  have hlines : logLines sparseLog [lit "events/"] = [stringify (.obj sparseRecord)] := by
    have hbody : logLines sparseLog [lit "events/"] =
        readLines (stringify (.obj sparseRecord) ++ [10]) := List.append_nil _
    have hall : ((stringify (.obj sparseRecord)).all fun c => !isLineBreak c) = true := by
      decide +kernel
    have hno : ∀ c ∈ stringify (.obj sparseRecord), isLineBreak c = false := by
      intro c hc
      simpa using List.all_eq_true.mp hall c hc
    have hreturn : ∀ l ∈ [stringify (.obj sparseRecord)], ∀ c ∈ l, c ≠ 13 := by
      intro l hl c hc
      rw [List.mem_singleton.mp hl] at hc
      exact ne_return_of_mem_stringify hc
    have hread := readLines_flatMap hreturn
    rw [hbody]
    simpa [pieces_of_no_break hno] using hread
  have hmem : sparseRecord ∈ logRecords sparseLog [lit "events/"] := by
    rw [logRecords, hlines]
    exact List.mem_filterMap.mpr ⟨_, List.mem_singleton_self _, hline⟩
  refine ⟨hmem, hvalid, fun h => ?_⟩
  obtain ⟨report, hreport, -⟩ := h 500 (by decide) .empty
  have hsanitizable := (tolerable_of_finishes hreport).sanitizable sparseRecord hmem hvalid
  have hagent : isSanitizable (LogRecord.get sparseRecord (.column .userAgent)) = true :=
    hsanitizable .userAgent (by decide)
  exact absurd hagent (by decide +kernel)

end Posta
