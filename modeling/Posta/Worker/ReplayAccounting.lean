import Posta.Core.EventLogRoundTrip
import Posta.Worker.RecordRows

/-!
# The numbers of a replay report

**One record** (`replayRecord_accounted`), **all records** (`replayRecords_accounted`). Every
record is counted as parsed or under the reason of its refusal; every parsed record waits in the
buffer until its batch is inserted, and is then counted as a new row or as one that was there.

**Theorem (`report_eq`).** So the report is determined by the records of the log and the table
before and after, whatever the batch size.

**Theorem (`replay_report_accounting`).** Its numbers add up, the new rows are as many as the
distinct keys that were free, and a second replay inserts nothing.
-/

namespace Posta

open Js

variable {P : Platform} {pg : Postgres} {issues : RecordIssues}

/-- The records that the schema accepts. -/
def parsedRecords (records : List LogRecord) : List LogRecord := records.filter replayRecordValid

def refusedRecords (records : List LogRecord) : List LogRecord :=
  records.filter fun record => !replayRecordValid record

/-- The reasons of refused records, counted in order. -/
def countReasons (issues : RecordIssues) (refused : List LogRecord)
    (counts : List (JsString × Nat)) : List (JsString × Nat) :=
  refused.foldl (fun counts record => countReason (describeRejection (issues record)) counts) counts

theorem sum_countReason (reason : JsString) (counts : List (JsString × Nat)) :
    ((countReason reason counts).map Prod.snd).sum = (counts.map Prod.snd).sum + 1 := by
  induction counts with
  | nil => rfl
  | cons entry counts ih =>
    rw [countReason]
    split_ifs with h
    · simp only [List.map_cons, List.sum_cons]
      omega
    · simp only [List.map_cons, List.sum_cons, ih]
      omega

/-- Every refused record is counted once. -/
theorem sum_countReasons (refused : List LogRecord) (counts : List (JsString × Nat)) :
    ((countReasons issues refused counts).map Prod.snd).sum =
      (counts.map Prod.snd).sum + refused.length := by
  induction refused generalizing counts with
  | nil => rfl
  | cons record refused ih =>
    rw [countReasons, List.foldl_cons]
    refine (ih _).trans ?_
    rw [sum_countReason, List.length_cons]
    omega

theorem length_parsed_add_refused (records : List LogRecord) :
    (parsedRecords records).length + (refusedRecords records).length = records.length := by
  induction records with
  | nil => rfl
  | cons record records ih =>
    rw [parsedRecords, refusedRecords, List.filter_cons, List.filter_cons] at *
    cases replayRecordValid record with
    | true =>
      simp only [Bool.not_true, Bool.false_eq_true, if_true, if_false, List.length_cons]
      omega
    | false =>
      simp only [Bool.not_false, Bool.false_eq_true, if_true, if_false, List.length_cons]
      omega

/-! ## The loop -/

/-- What the variables of the loop say after some records. -/
structure Accounted (issues : RecordIssues) (records : List LogRecord)
    (s s' : ReplayReportState) : Prop where
  parsed : s'.recordsParsed = s.recordsParsed + (parsedRecords records).length
  reasons : s'.rejectionCounts = countReasons issues (refusedRecords records) s.rejectionCounts
  inserted : s'.rowsInserted + s.table.rows.length = s.rowsInserted + s'.table.rows.length
  total : s'.rowsInserted + s'.rowsSkipped + s'.buffer.length =
    s.rowsInserted + s.rowsSkipped + s.buffer.length + (parsedRecords records).length

theorem Accounted.refl (s : ReplayReportState) : Accounted issues [] s s where
  parsed := rfl
  reasons := rfl
  inserted := rfl
  total := by simp [parsedRecords]

theorem Accounted.trans {r₁ r₂ : List LogRecord} {s₁ s₂ s₃ : ReplayReportState}
    (h₁ : Accounted issues r₁ s₁ s₂) (h₂ : Accounted issues r₂ s₂ s₃) :
    Accounted issues (r₁ ++ r₂) s₁ s₃ where
  parsed := by
    rw [h₂.parsed, h₁.parsed, parsedRecords, parsedRecords, parsedRecords, List.filter_append,
      List.length_append]
    omega
  reasons := by
    rw [h₂.reasons, h₁.reasons, refusedRecords, refusedRecords, refusedRecords,
      List.filter_append, countReasons, countReasons, countReasons, List.foldl_append]
  inserted := by
    have hi₁ := h₁.inserted
    have hi₂ := h₂.inserted
    omega
  total := by
    rw [h₂.total, h₁.total, parsedRecords, parsedRecords, parsedRecords, List.filter_append,
      List.length_append]
    push_cast
    omega

/-- The rows that `RETURNING` reports are those that were added. -/
theorem insertEventsBatchWithCounts_ok {table table' : EventTable} {news : List NewEvent}
    {ids : List (Option JsString)}
    (h : insertEventsBatchWithCounts pg table news = .ok (ids, table')) :
    ids.length + table.rows.length = table'.rows.length := by
  rw [insertEventsBatchWithCounts] at h
  cases hi : insertEventsBatch pg table news with
  | error e =>
    rw [hi] at h
    cases h
  | ok t =>
    rw [hi] at h
    cases h
    obtain ⟨rows, -, -, rfl⟩ := insertEventsBatch_ok_iff.mp hi
    have hle := (table.prefix_insert rows).length_le
    rw [List.length_map, List.length_drop]
    omega

theorem flushBuffer_accounted (issues : RecordIssues) {s s' : ReplayReportState}
    (h : s.flushBuffer pg = .ok s') :
    Accounted issues [] s s' ∧ s'.buffer = [] := by
  rw [ReplayReportState.flushBuffer] at h
  split_ifs at h with hempty
  · cases h
    exact ⟨Accounted.refl s, List.isEmpty_iff.mp hempty⟩
  · cases hi : insertEventsBatchWithCounts pg s.table s.buffer with
    | error e =>
      rw [hi] at h
      cases h
    | ok p =>
      obtain ⟨ids, table⟩ := p
      rw [hi] at h
      cases h
      have hlength := insertEventsBatchWithCounts_ok hi
      refine ⟨⟨rfl, rfl, ?_, ?_⟩, rfl⟩
      · dsimp only
        omega
      · simp only [parsedRecords, List.filter_nil, List.length_nil]
        push_cast
        omega

/-- **One record.** -/
theorem replayRecord_accounted {batchSize : Int} {s s' : ReplayReportState} {record : LogRecord}
    (h : s.replayRecord P pg issues batchSize record = .ok s') :
    Accounted issues [record] s s' := by
  rw [ReplayReportState.replayRecord] at h
  split_ifs at h with hvalid
  · cases hrow : toNewEventRow P record.get with
    | error e =>
      rw [hrow] at h
      cases h
    | ok row =>
      rw [hrow] at h
      have hparsed : parsedRecords [record] = [record] := by simp [parsedRecords, hvalid]
      have hrefused : refusedRecords [record] = [] := by simp [refusedRecords, hvalid]
      have hpushed : Accounted issues [record] s
          { s with recordsParsed := s.recordsParsed + 1, buffer := s.buffer ++ [row] } := by
        refine ⟨?_, ?_, rfl, ?_⟩
        · rw [hparsed]
          rfl
        · rw [hrefused]
          rfl
        · rw [hparsed, List.length_append]
          push_cast
          simp only [List.length_singleton]
          omega
      have hnext : (if batchSize ≤ ((s.buffer ++ [row]).length : Int) then
          ReplayReportState.flushBuffer pg
            { s with recordsParsed := s.recordsParsed + 1, buffer := s.buffer ++ [row] }
          else .ok { s with recordsParsed := s.recordsParsed + 1, buffer := s.buffer ++ [row] }) =
          .ok s' := h
      split_ifs at hnext
      · have hflushed := hpushed.trans (flushBuffer_accounted issues hnext).1
        rwa [List.append_nil] at hflushed
      · cases hnext
        exact hpushed
  · have hparsed : parsedRecords [record] = [] := by simp [parsedRecords, hvalid]
    have hrefused : refusedRecords [record] = [record] := by simp [refusedRecords, hvalid]
    cases h
    refine ⟨?_, ?_, rfl, ?_⟩
    · rw [hparsed]
      rfl
    · rw [hrefused]
      rfl
    · rw [hparsed, List.length_nil]
      simp

/-- **All records.** -/
theorem replayRecords_accounted {batchSize : Int} {s s' : ReplayReportState}
    {records : List LogRecord}
    (h : ReplayReportState.replayRecords P pg issues batchSize records s = .ok s') :
    Accounted issues records s s' := by
  induction records generalizing s with
  | nil =>
    cases h
    exact Accounted.refl _
  | cons record records ih =>
    rw [ReplayReportState.replayRecords] at h
    cases hone : s.replayRecord P pg issues batchSize record with
    | error e =>
      rw [hone] at h
      cases h
    | ok s₁ =>
      rw [hone] at h
      exact (replayRecord_accounted hone).trans (ih h)

/-! ## The report -/

/-- The report of a replay that took the table from one state to another. -/
def reportBetween (issues : RecordIssues) (prefixes : List JsString) (eventLog : EventStore)
    (table table' : EventTable) : ReplayReport :=
  let records := (streamEventLog eventLog prefixes).records
  let inserted := table'.rows.length - table.rows.length
  buildReplayReport (listedObjects eventLog prefixes).length (parsedRecords records).length
    inserted ((parsedRecords records).length - inserted)
    (countReasons issues (refusedRecords records) [])

/-- A replay that finishes: the loop, the end of the stream, and the last batch. -/
theorem replayWithReport_ok {options : ReplayReportOptions} {eventLog : EventStore}
    {table table' : EventTable} {report : ReplayReport}
    (h : replayWithReport P pg issues options eventLog table = .ok (report, table')) :
    options.batchSize ≤ replayReportMaxBatchSize ∧ ∃ s s',
      ReplayReportState.replayRecords P pg issues options.batchSize
        (streamEventLog eventLog options.prefixes).records ⟨table, 0, 0, 0, [], []⟩ = .ok s ∧
      (streamEventLog eventLog options.prefixes).error = none ∧ s.flushBuffer pg = .ok s' ∧
      report = buildReplayReport (listedObjects eventLog options.prefixes).length s'.recordsParsed
        s'.rowsInserted s'.rowsSkipped s'.rejectionCounts ∧ table' = s'.table := by
  rw [replayWithReport] at h
  split_ifs at h with hsize
  refine ⟨not_lt.mp hsize, ?_⟩
  dsimp only at h
  cases hloop : ReplayReportState.replayRecords P pg issues options.batchSize
      (streamEventLog eventLog options.prefixes).records ⟨table, 0, 0, 0, [], []⟩ with
  | error e =>
    rw [hloop] at h
    cases h
  | ok s =>
    rw [hloop] at h
    cases herror : (streamEventLog eventLog options.prefixes).error with
    | some e =>
      simp only [bind, Except.bind, herror] at h
      cases h
    | none =>
      simp only [bind, Except.bind, herror] at h
      cases hflush : s.flushBuffer pg with
      | error e =>
        simp only [hflush] at h
        cases h
      | ok s' =>
        simp only [hflush] at h
        cases h
        exact ⟨s, s', rfl, rfl, hflush, rfl, rfl⟩

/-- **Theorem (`report_eq`).** -/
theorem report_eq {options : ReplayReportOptions} {eventLog : EventStore}
    {table table' : EventTable} {report : ReplayReport}
    (h : replayWithReport P pg issues options eventLog table = .ok (report, table')) :
    report = reportBetween issues options.prefixes eventLog table table' := by
  obtain ⟨-, s, s', hloop, -, hflush, rfl, rfl⟩ := replayWithReport_ok h
  obtain ⟨hend, hempty⟩ := flushBuffer_accounted issues hflush
  have hall := (replayRecords_accounted hloop).trans hend
  rw [List.append_nil] at hall
  have hparsed := hall.parsed
  have hinserted := hall.inserted
  have htotal := hall.total
  rw [hempty] at htotal
  simp only [List.length_nil, Nat.zero_add] at hparsed hinserted htotal
  have hrows : s'.rowsInserted = s'.table.rows.length - table.rows.length := by omega
  have hskipped : s'.rowsSkipped =
      ((parsedRecords (streamEventLog eventLog options.prefixes).records).length : Int) -
        (s'.table.rows.length - table.rows.length : Nat) := by
    rw [← hrows]
    push_cast at htotal
    omega
  rw [reportBetween, hall.reasons, hparsed, hrows, hskipped]

/-! ## The table -/

theorem valid_of_parsed {records : List LogRecord} {record : LogRecord}
    (h : record ∈ parsedRecords records) : replayRecordValid record = true :=
  (List.mem_filter.mp h).2

/-- **A replay finishes** when the stream does and the row of every parsed record exists and is
taken; its table is the old one with these rows inserted. -/
theorem replayWithReport_finishes_iff (P : Platform) (pg : Postgres) (issues : RecordIssues)
    {options : ReplayReportOptions} (hsize : options.batchSize ≤ replayReportMaxBatchSize)
    (eventLog : EventStore) (table table' : EventTable) :
    (∃ report, replayWithReport P pg issues options eventLog table = .ok (report, table')) ↔
      (streamEventLog eventLog options.prefixes).error = none ∧
        (∀ record ∈ parsedRecords (streamEventLog eventLog options.prefixes).records,
          record.Sanitizable ∧ pg.rejects (record.row pg) = false) ∧
        table' = table.insert
          ((parsedRecords (streamEventLog eventLog options.prefixes).records).map
            (LogRecord.row pg)) := by
  have hkeeps : options.driver.keeps = replayRecordValid := rfl
  rw [replayWithReport_ok_iff issues hsize, replayEventLog_ok_iff, recordRows_insert_iff, hkeeps]
  show _ ∧ (∀ record ∈ parsedRecords (streamEventLog eventLog options.prefixes).records, _) ∧
    table' = table.insert (rowsOfRecords P pg
      (parsedRecords (streamEventLog eventLog options.prefixes).records)) ↔ _
  apply and_congr_right
  intro _
  constructor
  · rintro ⟨hall, htable⟩
    refine ⟨fun record hrecord => ?_, ?_⟩
    · exact (recordAccepted_of_valid (valid_of_parsed hrecord) P pg).mp (hall record hrecord)
    · rw [htable, rowsOfRecords_of_accepted (fun record => valid_of_parsed) hall]
  · rintro ⟨hall, htable⟩
    have haccepted : ∀ record ∈ parsedRecords (streamEventLog eventLog options.prefixes).records,
        RecordAccepted P pg record := fun record hrecord =>
      (recordAccepted_of_valid (valid_of_parsed hrecord) P pg).mpr (hall record hrecord)
    refine ⟨haccepted, ?_⟩
    rw [htable, rowsOfRecords_of_accepted (fun record => valid_of_parsed) haccepted]

/-- The keys of the rows are those of the records. -/
theorem keys_of_parsed (pg : Postgres) (records : List LogRecord) :
    ((parsedRecords records).map (LogRecord.row pg)).map EventRow.key =
      (parsedRecords records).map LogRecord.key := by
  rw [List.map_map]
  apply List.map_congr_left
  intro record hrecord
  exact key_row_of_valid (valid_of_parsed hrecord) pg

/-- The report of a replay that finished with the given table, whatever the batch size. -/
theorem replayWithReport_any_batchSize {prefixes : List JsString} {batchSize batchSize' : Int}
    {eventLog : EventStore} {table table' : EventTable} {report : ReplayReport}
    (h : replayWithReport P pg issues { prefixes, batchSize } eventLog table =
      .ok (report, table')) (hsize' : batchSize' ≤ replayReportMaxBatchSize) :
    replayWithReport P pg issues { prefixes, batchSize := batchSize' } eventLog table =
      .ok (report, table') := by
  have hsize := (replayWithReport_ok h).1
  have hfinishes :=
    (replayWithReport_finishes_iff P pg issues hsize eventLog table table').mp ⟨report, h⟩
  have hsize' : ({ prefixes, batchSize := batchSize' } : ReplayReportOptions).batchSize ≤
    replayReportMaxBatchSize := hsize'
  obtain ⟨report', h'⟩ :=
    (replayWithReport_finishes_iff P pg issues hsize' eventLog table table').mpr hfinishes
  rw [h', report_eq h, report_eq h']

/-! ## Accounting -/

/-- What the report of a finished replay says of the log and of the two tables. -/
structure ReplayAccounts (P : Platform) (pg : Postgres) (issues : RecordIssues)
    (options : ReplayReportOptions) (eventLog : EventStore) (table : EventTable)
    (report : ReplayReport) (table' : EventTable) : Prop where
  /-- Every streamed record is parsed or rejected. -/
  streamed : report.recordsParsed + report.rowsRejected =
    (streamEventLog eventLog options.prefixes).records.length
  parsed : report.rowsInserted + report.rowsSkipped = report.recordsParsed
  /-- The new rows are as many as the distinct keys that were free. -/
  inserted : report.rowsInserted =
    (((parsedRecords (streamEventLog eventLog options.prefixes).records).map
      LogRecord.key).toFinset \ (table.rows.map EventRow.key).toFinset).card
  /-- Nothing depends on the batch size. -/
  anyBatchSize : ∀ batchSize ≤ replayReportMaxBatchSize,
    replayWithReport P pg issues { options with batchSize } eventLog table = .ok (report, table')
  unchanged : table.rows <+: table'.rows
  /-- A second replay inserts nothing. -/
  again : ∃ report', replayWithReport P pg issues options eventLog table' = .ok (report', table') ∧
    report'.rowsInserted = 0

/-- **Theorem (`replay_report_accounting`).** -/
theorem replay_report_accounting (P : Platform) (pg : Postgres) (issues : RecordIssues)
    (options : ReplayReportOptions) (eventLog : EventStore) (table : EventTable)
    (report : ReplayReport) (table' : EventTable)
    (h : replayWithReport P pg issues options eventLog table = .ok (report, table')) :
    ReplayAccounts P pg issues options eventLog table report table' := by
  have hsize := (replayWithReport_ok h).1
  obtain ⟨herror, hall, htable⟩ :=
    (replayWithReport_finishes_iff P pg issues hsize eventLog table table').mp ⟨report, h⟩
  have hreport := report_eq h
  have hprefix : table.rows <+: table'.rows := by
    rw [htable]
    exact table.prefix_insert _
  have hlength := hprefix.length_le
  refine ⟨?_, ?_, ?_, fun batchSize hb => replayWithReport_any_batchSize h hb, hprefix, ?_⟩
  · rw [hreport]
    show _ + ((countReasons issues _ []).map Prod.snd).sum = _
    rw [sum_countReasons]
    simp only [List.map_nil, List.sum_nil, Nat.zero_add]
    exact length_parsed_add_refused _
  · rw [hreport]
    show ((table'.rows.length - table.rows.length : Nat) : Int) +
      (((parsedRecords (streamEventLog eventLog options.prefixes).records).length : Int) - _) =
      ((parsedRecords (streamEventLog eventLog options.prefixes).records).length : Int)
    omega
  · rw [hreport]
    show table'.rows.length - table.rows.length = _
    rw [htable, table.length_insert, keys_of_parsed]
    omega
  · have hsame : table' = table'.insert
        ((parsedRecords (streamEventLog eventLog options.prefixes).records).map
          (LogRecord.row pg)) := by
      rw [htable, Store.KeyedTable.insert_insert_self]
    obtain ⟨report', h'⟩ :=
      (replayWithReport_finishes_iff P pg issues hsize eventLog table' table').mpr
        ⟨herror, hall, hsame⟩
    refine ⟨report', h', ?_⟩
    rw [report_eq h']
    show table'.rows.length - table'.rows.length = 0
    omega

/-- A line that this version writes passes the sanitizer. -/
theorem sanitizable_toLogLine (e : LoggedEvent) : LogRecord.Sanitizable (toLogLine e) := by
  intro c hc
  obtain ⟨s, hs⟩ := get_sanitized e c hc
  rw [get_toLogLine, hs, readBack_ofNullable]
  cases s <;> rfl

/-- A click, stored twice. -/
def clicks : List LoggedEvent := List.replicate 2 (clickFrom (lit "Firefox"))

/-- A log with two objects: the click that is stored twice, and a line without any field. -/
def clickLog : EventStore :=
  (Store.SortedStore.empty.put (lit "events/click") (serializeBatch clicks)).put
    (lit "events/damaged") (lit "\x7b\x7d\n")

theorem listed_clickLog : [lit "events/"].flatMap (listObjectKeys clickLog) =
    [(lit "events/click", serializeBatch clicks), (lit "events/damaged", lit "\x7b\x7d\n")] := by
  rfl

theorem stream_clickLog :
    streamEventLog clickLog [lit "events/"] = ⟨clicks.map toLogLine ++ [[]], none⟩ := by
  have hflat : ∀ e ∈ clicks, e.enrichment.PlatformFlat := by
    intro e he
    rw [List.eq_of_mem_replicate he]
    exact enrich_platformFlat _ _ _ _
  have hreadable : ∀ e ∈ clicks, e.readable = true := by
    intro e he
    rw [List.eq_of_mem_replicate he]
    decide +kernel
  have hdamaged : streamRecordsFromObject (lit "events/damaged") (lit "\x7b\x7d\n") =
      ⟨[[]], none⟩ := by rfl
  rw [streamEventLog, listed_clickLog, streamObjects, streamObjects, hdamaged,
    stream_serializeBatch hflat hreadable]
  rfl

/-- The line without fields is refused. -/
theorem parsed_clickLog :
    parsedRecords (streamEventLog clickLog [lit "events/"]).records = clicks.map toLogLine := by
  have hclick : replayRecordValid (toLogLine (clickFrom (lit "Firefox"))) = true :=
    replayRecordValid_toLogLine rfl (by decide)
  have hempty : replayRecordValid [] = false := rfl
  rw [stream_clickLog, parsedRecords]
  simp [clicks, hclick, hempty]

/-- What the schema library reports of a line without fields. -/
def missingFields : RecordIssues := fun _ =>
  ([lit "event_id", lit "occurred_at", lit "tenant_id", lit "link_id", lit "slug",
      lit "source_platform"].map fun field =>
    ⟨[field], lit "Invalid input: expected string, received undefined", lit "invalid_type"⟩) ++
    [⟨[lit "is_in_app"], lit "Invalid input: expected boolean, received undefined",
      lit "invalid_type"⟩]

/-- **A click that is stored twice, and a damaged line**: one row, one that was there, one refused. -/
theorem replay_report_accounting_click : ∃ report table',
    ReplayAccounts Platform.plain acceptingPostgres missingFields { prefixes := [lit "events/"] }
      clickLog .empty report table' ∧
    report.recordsParsed = 2 ∧ report.rowsInserted = 1 ∧ report.rowsSkipped = 1 ∧
    report.rowsRejected = 1 := by
  have hsize : ({ prefixes := [lit "events/"] } : ReplayReportOptions).batchSize ≤
      replayReportMaxBatchSize := by decide
  have hall : ∀ record ∈ parsedRecords (streamEventLog clickLog [lit "events/"]).records,
      record.Sanitizable ∧ acceptingPostgres.rejects (record.row acceptingPostgres) = false := by
    intro record hrecord
    rw [parsed_clickLog] at hrecord
    obtain ⟨e, -, rfl⟩ := List.mem_map.mp hrecord
    exact ⟨sanitizable_toLogLine _, rfl⟩
  have herror : (streamEventLog clickLog [lit "events/"]).error = none := by rw [stream_clickLog]
  obtain ⟨report, h⟩ := (replayWithReport_finishes_iff Platform.plain acceptingPostgres
    missingFields hsize clickLog .empty _).mpr ⟨herror, hall, rfl⟩
  have haccounts := replay_report_accounting _ _ _ _ _ _ _ _ h
  have hparsed : report.recordsParsed = 2 := by
    rw [report_eq h, reportBetween, buildReplayReport, parsed_clickLog, List.length_map, clicks,
      List.length_replicate]
  have hinserted : report.rowsInserted = 1 := by
    have hfree : ((Store.KeyedTable.empty : EventTable).rows.map EventRow.key).toFinset = ∅ := rfl
    rw [haccounts.inserted, parsed_clickLog, hfree, Finset.sdiff_empty, clicks, List.map_replicate,
      List.map_replicate, List.toFinset_replicate_of_ne_zero two_ne_zero, Finset.card_singleton]
  have htotal := haccounts.parsed
  have hstreamed : report.recordsParsed + report.rowsRejected = 3 := by
    rw [haccounts.streamed, stream_clickLog]
    rfl
  exact ⟨report, _, haccounts, hparsed, hinserted, by omega, by omega⟩

end Posta
