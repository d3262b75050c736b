import Posta.Worker.ReplayReport

/-!
# Rows of records

What the schema checks of a record and what the projection needs of it are two things. The schema
looks at seven fields; the projection calls a method of every header column.

**Theorem (`rowOfRecord_of_valid`).** A record that passes the schema has a row exactly when every
header column is present and is `null`, a string or an array.
-/

namespace Posta

open Js

/-! ## Records that pass the schema -/

/-- Every header column is one that the projection can take. -/
def LogRecord.Sanitizable (record : LogRecord) : Prop :=
  ∀ c ∈ sanitizedColumns, isSanitizable (record.get (.column c)) = true

/-- The id of the event, as the schema reads it. -/
def LogRecord.eventId (record : LogRecord) : Option JsString :=
  (CaptureEventSchema.ulid (lookup record (lit "event_id"))).map Subtype.val

/-- The instant of the event; the record has one when it passes the schema. -/
def LogRecord.instant (record : LogRecord) : Int :=
  ((CaptureEventSchema.isoDatetime (lookup record (lit "occurred_at"))).map
    IsoDatetime.time).getD 0

/-- The key of a record. -/
def LogRecord.key (record : LogRecord) : EventKey := (record.eventId, record.instant)

/-- The row of a record: its instant, and the text of every column. -/
def LogRecord.row (pg : Postgres) (record : LogRecord) : EventRow :=
  ⟨record.instant, fun c => pg.bind (cleanedColumns record.get sanitizedColumns c)⟩

theorem isoDatetime_eq_some {v : Option Json} {t : IsoDatetime}
    (h : CaptureEventSchema.isoDatetime v = some t) : v = some (.str t.1) := by
  unfold CaptureEventSchema.isoDatetime at h
  split at h
  · split_ifs at h
    cases h
    rfl
  · cases h

theorem ulid_eq_some {v : Option Json} {u : Ulid} (h : CaptureEventSchema.ulid v = some u) :
    v = some (.str u.1) := by
  unfold CaptureEventSchema.ulid at h
  split at h
  · split_ifs at h
    cases h
    rfl
  · cases h

section Valid

variable {record : LogRecord} (h : replayRecordValid record = true)
include h

theorem exists_ulid_of_valid : ∃ u : Ulid, lookup record (lit "event_id") = some (.str u.1) := by
  simp only [replayRecordValid, Bool.and_eq_true] at h
  obtain ⟨u, hu⟩ := Option.isSome_iff_exists.mp h.1.1.1.1.1.1
  exact ⟨u, ulid_eq_some hu⟩

theorem exists_time_of_valid :
    ∃ t : IsoDatetime, lookup record (lit "occurred_at") = some (.str t.1) := by
  simp only [replayRecordValid, Bool.and_eq_true] at h
  obtain ⟨t, ht⟩ := Option.isSome_iff_exists.mp h.1.1.1.1.1.2
  exact ⟨t, isoDatetime_eq_some ht⟩

/-- The date of a record that passes the schema can be read. -/
theorem toDate_of_valid (P : Platform) :
    P.toDate (record.get .occurredAt) = some record.instant := by
  obtain ⟨t, ht⟩ := exists_time_of_valid h
  have hget : record.get .occurredAt = .json (.str t.1) := by
    rw [LogRecord.get, LogField.name, ht]
    rfl
  have hinstant : record.instant = t.time := by
    rw [LogRecord.instant, ht, CaptureEventSchema.isoDatetime_str]
    rfl
  rw [hget, hinstant]
  exact P.date_time (Option.some_get _).symm

/-- The key of the row is the key of the record. -/
theorem key_row_of_valid (pg : Postgres) : (record.row pg).key = record.key := by
  obtain ⟨u, hu⟩ := exists_ulid_of_valid h
  have hget : record.get (.column .eventId) = .json (.str u.1) := by
    rw [LogRecord.get, LogField.name, Column.name, hu]
    rfl
  have hnot : Column.eventId ∉ sanitizedColumns := by decide
  have hid : record.eventId = some u.1 := by
    rw [LogRecord.eventId, hu, CaptureEventSchema.ulid_str]
    rfl
  rw [LogRecord.key, hid]
  show (pg.bind (cleanedColumns record.get sanitizedColumns .eventId), record.instant) = _
  rw [cleanedColumns, if_neg hnot, hget, pg.bind_str]

/-- **Theorem (`rowOfRecord_of_valid`).** -/
theorem rowOfRecord_of_valid (P : Platform) (pg : Postgres) (row : EventRow) :
    rowOfRecord P pg record = .ok row ↔ record.Sanitizable ∧ row = record.row pg := by
  by_cases hs : record.Sanitizable
  · have hrow : rowOfRecord P pg record = .ok (record.row pg) := by
      rw [rowOfRecord, toNewEventRow, sanitizeColumns_of_sanitizable hs, toDate_of_valid h P]
      rfl
    rw [hrow]
    constructor
    · intro heq
      cases heq
      exact ⟨hs, rfl⟩
    · rintro ⟨-, rfl⟩
      rfl
  · have hbad : ∃ c ∈ sanitizedColumns, isSanitizable (record.get (.column c)) = false := by
      by_contra hnone
      apply hs
      intro c hc
      by_contra hfalse
      exact hnone ⟨c, hc, by simpa using hfalse⟩
    obtain ⟨e, he⟩ := sanitizeColumns_error hbad
    constructor
    · intro heq
      rw [rowOfRecord, toNewEventRow, he] at heq
      cases heq
    · rintro ⟨hs', -⟩
      exact absurd hs' hs

theorem recordAccepted_of_valid (P : Platform) (pg : Postgres) :
    RecordAccepted P pg record ↔ record.Sanitizable ∧ pg.rejects (record.row pg) = false := by
  constructor
  · rintro ⟨row, hrow, hrej⟩
    obtain ⟨hs, rfl⟩ := (rowOfRecord_of_valid h P pg row).mp hrow
    exact ⟨hs, hrej⟩
  · rintro ⟨hs, hrej⟩
    exact ⟨_, (rowOfRecord_of_valid h P pg _).mpr ⟨hs, rfl⟩, hrej⟩

end Valid

/-- The rows of records that are all accepted. -/
theorem rowsOfRecords_of_accepted {P : Platform} {pg : Postgres} {records : List LogRecord}
    (hvalid : ∀ record ∈ records, replayRecordValid record = true)
    (haccepted : ∀ record ∈ records, RecordAccepted P pg record) :
    rowsOfRecords P pg records = records.map (LogRecord.row pg) := by
  induction records with
  | nil => rfl
  | cons record records ih =>
    have hv := hvalid record List.mem_cons_self
    have hs := ((recordAccepted_of_valid hv P pg).mp (haccepted record List.mem_cons_self)).1
    have hrow := (rowOfRecord_of_valid hv P pg _).mpr ⟨hs, rfl⟩
    rw [rowsOfRecords_cons hrow, ih (fun r hr => hvalid r (List.mem_cons_of_mem _ hr))
      fun r hr => haccepted r (List.mem_cons_of_mem _ hr)]
    rfl

end Posta
