import Posta.Worker.Replay

/-!
# The rows of the event log

Every line of the log that can be read and projected is a row. A replay succeeds when every line
of the objects under its prefixes is accepted, and then inserts the rows of the log in the order
of the objects (`replay_iff`).

**Theorem (`objectRows_serializeBatch`).** The rows of an object that a flush wrote are those of
its events, when it can be read at all.
-/

namespace Posta

open Js Interaction

/-- The record on a line. -/
def recordOfLine (line : JsString) : Option LogRecord :=
  match parse line with
  | some (.obj members) => some members
  | _ => none

/-- The row of a record. -/
def rowOfRecord (P : Platform) (pg : Postgres) (record : LogRecord) : Except Thrown EventRow := do
  let row ← toNewEventRow P record.get
  row.bound pg

/-- A record whose row Postgres takes. -/
def RecordAccepted (P : Platform) (pg : Postgres) (record : LogRecord) : Prop :=
  ∃ row, rowOfRecord P pg record = .ok row ∧ pg.rejects row = false

/-- A line with a record, whose row Postgres takes when the record is kept. -/
def LineAccepted (P : Platform) (pg : Postgres) (keep : LogRecord → Bool) (line : JsString) : Prop :=
  ∃ record, recordOfLine line = some record ∧ (keep record = true → RecordAccepted P pg record)

/-- Every line of an object, empty ones aside, is accepted. -/
def ObjectAccepted (P : Platform) (pg : Postgres) (keep : LogRecord → Bool) (body : JsString) :
    Prop :=
  ∀ line ∈ readLines body, line ≠ [] → LineAccepted P pg keep line

def rowsOfRecords (P : Platform) (pg : Postgres) (records : List LogRecord) : List EventRow :=
  records.filterMap fun record => (rowOfRecord P pg record).toOption

/-- The rows of an object, in the order of its lines. -/
def objectRows (P : Platform) (pg : Postgres) (keep : LogRecord → Bool) (body : JsString) :
    List EventRow :=
  rowsOfRecords P pg (((readLines body).filterMap recordOfLine).filter keep)

/-- The objects under some prefixes, as they are listed. -/
def listedObjects (eventLog : EventStore) (prefixes : List JsString) :
    List (JsString × JsString) :=
  prefixes.flatMap (listObjectKeys eventLog)

def logRows (P : Platform) (pg : Postgres) (keep : LogRecord → Bool) (eventLog : EventStore)
    (prefixes : List JsString) : List EventRow :=
  (listedObjects eventLog prefixes).flatMap fun e => objectRows P pg keep e.2

/-! ## Streams -/

theorem parseLoggedEventLine_eq (line key : JsString) (n : Nat) :
    (∃ record, recordOfLine line = some record ∧ parseLoggedEventLine line key n = .ok record) ∨
      (recordOfLine line = none ∧ ∃ e, parseLoggedEventLine line key n = .error e) := by
  rw [recordOfLine, parseLoggedEventLine]
  cases parse line with
  | none => exact Or.inr ⟨rfl, _, rfl⟩
  | some v =>
    cases v with
    | obj members => exact Or.inl ⟨members, rfl, rfl⟩
    | _ => exact Or.inr ⟨rfl, _, rfl⟩

/-- A stream without an error yields the records of all lines; it has one when some line has no
record. -/
def Stream.Reads (s : Stream) (lines : List JsString) : Prop :=
  (s.error = none ↔ ∀ line ∈ lines, line ≠ [] → (recordOfLine line).isSome) ∧
    (s.error = none → s.records = lines.filterMap recordOfLine)

theorem Stream.Reads.append {s t : Stream} {lines lines' : List JsString} (h : s.Reads lines)
    (h' : t.Reads lines') : (s.append t).Reads (lines ++ lines') := by
  obtain ⟨records, error⟩ := s
  cases error with
  | some e =>
    refine ⟨⟨fun hn => (by cases hn), fun hall => ?_⟩, fun hn => (by cases hn)⟩
    have := h.1.mpr fun line hl => hall line (List.mem_append_left _ hl)
    cases this
  | none =>
    have hs := h.1.mp rfl
    refine ⟨⟨fun ht line hl => ?_, fun hall => ?_⟩, fun ht => ?_⟩
    · rcases List.mem_append.mp hl with hl | hl
      · exact hs line hl
      · exact h'.1.mp ht line hl
    · exact h'.1.mpr fun line hl => hall line (List.mem_append_right _ hl)
    · rw [List.filterMap_append, ← h.2 rfl, ← h'.2 ht]
      rfl

theorem reads_empty : Stream.empty.Reads [] :=
  ⟨⟨fun _ _ h => absurd h List.not_mem_nil, fun _ => rfl⟩, fun _ => rfl⟩

theorem reads_streamLines (key : JsString) (lines : List JsString) (n : Nat) :
    (streamLines key lines n).Reads lines := by
  induction lines generalizing n with
  | nil => exact reads_empty
  | cons line lines ih =>
    rw [streamLines]
    split_ifs with hnil
    · subst hnil
      refine ⟨⟨fun h l hl hne => ?_, fun hall => ?_⟩, fun h => ?_⟩
      · rcases List.mem_cons.mp hl with rfl | hl
        · exact absurd rfl hne
        · exact (ih (n + 1)).1.mp h l hl hne
      · exact (ih (n + 1)).1.mpr fun l hl => hall l (List.mem_cons_of_mem _ hl)
      · rw [(ih (n + 1)).2 h]
        rfl
    · rcases parseLoggedEventLine_eq line key n with ⟨record, hrecord, hparse⟩ | ⟨hrecord, e, hparse⟩
      · rw [hparse]
        have hone : (⟨[record], none⟩ : Stream).Reads [line] := by
          refine ⟨⟨fun _ l hl _ => ?_, fun _ => rfl⟩, fun _ => ?_⟩
          · rw [List.mem_singleton.mp hl, hrecord]
            rfl
          · rw [List.filterMap_cons, hrecord]
            rfl
        exact hone.append (ih (n + 1))
      · rw [hparse]
        refine ⟨⟨fun hn => (by cases hn), fun hall => ?_⟩, fun hn => (by cases hn)⟩
        have := hall line List.mem_cons_self hnil
        rw [hrecord] at this
        cases this

theorem reads_streamObjects (objects : List (JsString × JsString)) :
    (streamObjects objects).Reads (objects.flatMap fun e => readLines e.2) := by
  induction objects with
  | nil => exact reads_empty
  | cons e objects ih => exact (reads_streamLines e.1 (readLines e.2) 1).append ih

/-! ## Replays -/

section Replays

variable {P : Platform} {pg : Postgres}

theorem rowsOfRecords_cons {record : LogRecord} {row : EventRow}
    (h : rowOfRecord P pg record = .ok row) (records : List LogRecord) :
    rowsOfRecords P pg (record :: records) = row :: rowsOfRecords P pg records := by
  rw [rowsOfRecords, List.filterMap_cons, h]
  rfl

/-- Records whose rows are all taken: one insertion of the rows. -/
theorem recordRows_insert_iff {records : List LogRecord} {table table' : EventTable} :
    (∃ news, recordRows P records = .ok news ∧ insertEventsBatch pg table news = .ok table') ↔
      (∀ record ∈ records, RecordAccepted P pg record) ∧
        table' = table.insert (rowsOfRecords P pg records) := by
  induction records generalizing table with
  | nil =>
    constructor
    · rintro ⟨_, h, hi⟩
      cases h
      cases hi
      exact ⟨fun _ h => absurd h List.not_mem_nil, rfl⟩
    · rintro ⟨-, rfl⟩
      exact ⟨[], rfl, rfl⟩
  | cons record records ih =>
    rw [List.forall_mem_cons]
    constructor
    · rintro ⟨news, hnews, hi⟩
      obtain ⟨new, rest, hnew, hrest, rfl⟩ := recordRows_cons.mp hnews
      obtain ⟨t, ht, hrest'⟩ := (insertEventsBatch_append table [new] rest).mp hi
      obtain ⟨row, hbound, hrej, rfl⟩ := insertEventsBatch_singleton.mp ht
      obtain ⟨hall, rfl⟩ := ih.mp ⟨rest, hrest, hrest'⟩
      have hrow : rowOfRecord P pg record = .ok row := except_bind_eq_ok.mpr ⟨new, hnew, hbound⟩
      refine ⟨⟨⟨row, hrow, hrej⟩, hall⟩, ?_⟩
      rw [rowsOfRecords_cons hrow]
      rfl
    · rintro ⟨⟨⟨row, hrow, hrej⟩, hall⟩, htable⟩
      rw [rowsOfRecords_cons hrow] at htable
      obtain ⟨new, hnew, hbound⟩ := except_bind_eq_ok.mp hrow
      have htable : table' = (table.insert [row]).insert (rowsOfRecords P pg records) := htable
      obtain ⟨rest, hrest, hi⟩ := ih.mpr ⟨hall, htable⟩
      refine ⟨new :: rest, recordRows_cons.mpr ⟨new, rest, hnew, hrest, rfl⟩, ?_⟩
      exact (insertEventsBatch_append table [new] rest).mpr
        ⟨_, insertEventsBatch_singleton.mpr ⟨row, hbound, hrej, rfl⟩, hi⟩

theorem rowsOfRecords_flatMap {α : Type} (l : List α) (f : α → List LogRecord) :
    rowsOfRecords P pg (l.flatMap f) = l.flatMap fun a => rowsOfRecords P pg (f a) := by
  simp only [rowsOfRecords, List.filterMap_flatMap]

/-- **Theorem (`replay_iff`).** A replay succeeds exactly when every line under the prefixes is
accepted, and inserts the rows of the log. -/
theorem replay_iff {options : ReplayDriverOptions} {eventLog : EventStore}
    {table table' : EventTable} :
    (∃ summary, replayEventLog P pg options eventLog table = .ok (summary, table')) ↔
      (∀ e ∈ listedObjects eventLog options.prefixes, ObjectAccepted P pg options.keeps e.2) ∧
        table' = table.insert (logRows P pg options.keeps eventLog options.prefixes) := by
  have hreads := reads_streamObjects (listedObjects eventLog options.prefixes)
  rw [replayEventLog_ok_iff, recordRows_insert_iff]
  show (streamObjects (listedObjects eventLog options.prefixes)).error = none ∧ _ ↔ _
  have hrecords : (streamObjects (listedObjects eventLog options.prefixes)).error = none →
      (streamEventLog eventLog options.prefixes).records.filter options.keeps =
        (listedObjects eventLog options.prefixes).flatMap fun e =>
          ((readLines e.2).filterMap recordOfLine).filter options.keeps := by
    intro h
    rw [← List.filter_flatMap, ← List.filterMap_flatMap]
    exact congrArg _ (hreads.2 h)
  have hrows : (streamObjects (listedObjects eventLog options.prefixes)).error = none →
      rowsOfRecords P pg ((streamEventLog eventLog options.prefixes).records.filter options.keeps) =
        logRows P pg options.keeps eventLog options.prefixes := by
    intro h
    rw [hrecords h, rowsOfRecords_flatMap]
    rfl
  constructor
  · rintro ⟨herror, hall, rfl⟩
    refine ⟨fun e he line hline hne => ?_, by rw [hrows herror]⟩
    have hsome := hreads.1.mp herror line (List.mem_flatMap.mpr ⟨e, he, hline⟩) hne
    obtain ⟨record, hrecord⟩ := Option.isSome_iff_exists.mp hsome
    refine ⟨record, hrecord, fun hkeep => hall record ?_⟩
    rw [hrecords herror]
    exact List.mem_flatMap.mpr ⟨e, he, List.mem_filter.mpr
      ⟨List.mem_filterMap.mpr ⟨line, hline, hrecord⟩, hkeep⟩⟩
  · rintro ⟨hall, rfl⟩
    have herror := hreads.1.mpr fun line hline hne => by
      obtain ⟨e, he, hline⟩ := List.mem_flatMap.mp hline
      obtain ⟨record, hrecord, -⟩ := hall e he line hline hne
      rw [hrecord]
      rfl
    refine ⟨herror, fun record hrecord => ?_, by rw [hrows herror]⟩
    rw [hrecords herror] at hrecord
    obtain ⟨e, he, hrecord⟩ := List.mem_flatMap.mp hrecord
    obtain ⟨hrecord, hkeep⟩ := List.mem_filter.mp hrecord
    obtain ⟨line, hline, hrecord⟩ := List.mem_filterMap.mp hrecord
    have hne : line ≠ [] := by
      rintro rfl
      cases hrecord
    obtain ⟨record', hrecord', haccepted⟩ := hall e he line hline hne
    rw [hrecord, Option.some.injEq] at hrecord'
    exact hrecord' ▸ haccepted (hrecord' ▸ hkeep)

theorem replay_of_accepted {options : ReplayDriverOptions} {eventLog : EventStore}
    (h : ∀ e ∈ listedObjects eventLog options.prefixes, ObjectAccepted P pg options.keeps e.2)
    (table : EventTable) :
    ∃ summary, replayEventLog P pg options eventLog table =
      .ok (summary, table.insert (logRows P pg options.keeps eventLog options.prefixes)) :=
  replay_iff.mpr ⟨h, rfl⟩

/-! ## Objects that a flush wrote -/

variable {keep : LogRecord → Bool}

theorem rowOfRecord_toLogLine (l : LoggedEvent) :
    rowOfRecord P pg (toLogLine l) = .ok (l.replayedRow pg) := by
  rw [rowOfRecord, toNewEventRow_toLogLine]
  rfl

theorem readable_of_accepted {logged : List LoggedEvent}
    (hflat : ∀ l ∈ logged, l.enrichment.PlatformFlat)
    (h : ObjectAccepted P pg keep (serializeBatch logged)) : ∀ l ∈ logged, l.readable = true := by
  intro l hl
  by_contra hread
  refine stream_unreadable hflat ⟨l, hl, by simpa using hread⟩ [] ?_
  refine (reads_streamLines [] _ 1).1.mpr fun line hline hne => ?_
  obtain ⟨record, hrecord, -⟩ := h line hline hne
  rw [hrecord]
  rfl

theorem readLines_of_readable {logged : List LoggedEvent}
    (h : ∀ l ∈ logged, l.readable = true) :
    readLines (serializeBatch logged) = logged.map serializeEvent := by
  rw [readLines_serializeBatch, List.map_eq_flatMap]
  exact List.flatMap_congr fun l hl => pieces_of_readable (h l hl)

theorem recordOfLine_serializeEvent {l : LoggedEvent} (hl : l.enrichment.PlatformFlat) :
    recordOfLine (serializeEvent l) = some (toLogLine l) := by
  rw [recordOfLine, serializeEvent, parse_stringify (distinct_toLogLine hl)]

theorem filterMap_map_eq {α β γ : Type} {f : β → Option γ} {g : α → β} {k : α → γ} {l : List α}
    (h : ∀ a ∈ l, f (g a) = some (k a)) : (l.map g).filterMap f = l.map k := by
  induction l with
  | nil => rfl
  | cons a l ih =>
    rw [List.map_cons, List.filterMap_cons, h a List.mem_cons_self, List.map_cons,
      ih fun b hb => h b (List.mem_cons_of_mem _ hb)]

/-- The records of an object that can be read. -/
theorem records_serializeBatch {logged : List LoggedEvent}
    (hflat : ∀ l ∈ logged, l.enrichment.PlatformFlat) (h : ∀ l ∈ logged, l.readable = true) :
    (readLines (serializeBatch logged)).filterMap recordOfLine = logged.map toLogLine := by
  rw [readLines_of_readable h]
  exact filterMap_map_eq fun l hl => recordOfLine_serializeEvent (hflat l hl)

/-- **Theorem (`objectRows_serializeBatch`).** -/
theorem objectRows_serializeBatch {logged : List LoggedEvent}
    (hflat : ∀ l ∈ logged, l.enrichment.PlatformFlat) (h : ∀ l ∈ logged, l.readable = true) :
    objectRows P pg keep (serializeBatch logged) =
      (logged.filter fun l => keep (toLogLine l)).map (LoggedEvent.replayedRow pg) := by
  rw [objectRows, records_serializeBatch hflat h, List.filter_map, rowsOfRecords]
  refine filterMap_map_eq fun l _ => ?_
  rw [rowOfRecord_toLogLine]
  rfl

/-- An object is accepted when every event can be read back and its row is taken. -/
theorem objectAccepted_serializeBatch {logged : List LoggedEvent}
    (hflat : ∀ l ∈ logged, l.enrichment.PlatformFlat) :
    ObjectAccepted P pg keep (serializeBatch logged) ↔ ∀ l ∈ logged, l.readable = true ∧
      (keep (toLogLine l) = true → pg.rejects (l.replayedRow pg) = false) := by
  constructor
  · intro h l hl
    have hread := readable_of_accepted hflat h
    refine ⟨hread l hl, fun hkeep => ?_⟩
    obtain ⟨record, hrecord, haccepted⟩ := h (serializeEvent l) (by
      rw [readLines_of_readable hread]
      exact List.mem_map_of_mem hl) (serializeEvent_ne_nil l)
    rw [recordOfLine_serializeEvent (hflat l hl), Option.some.injEq] at hrecord
    obtain ⟨row, hrow, hrej⟩ := haccepted (hrecord ▸ hkeep)
    rw [← hrecord, rowOfRecord_toLogLine] at hrow
    cases hrow
    exact hrej
  · intro h line hline _
    rw [readLines_of_readable fun l hl => (h l hl).1] at hline
    obtain ⟨l, hl, rfl⟩ := List.mem_map.mp hline
    exact ⟨toLogLine l, recordOfLine_serializeEvent (hflat l hl), fun hkeep =>
      ⟨l.replayedRow pg, rowOfRecord_toLogLine l, (h l hl).2 hkeep⟩⟩

end Replays

end Posta
