import Posta.Core.EventRow
import Posta.Interaction.Prog

/-!
# Replay of the event log

The records under some prefixes are projected to rows and inserted in batches, in the order in
which they are streamed. The batches that were inserted stay when a later one fails.

**Theorem (`replayEventLog_ok_iff`).** Whatever the batch size, a replay that finishes is one
insertion of all rows, and it finishes exactly when that insertion does.
-/

namespace Posta

open Js Interaction

structure ReplaySummary where
  recordsRead : Nat
  batchesWritten : Nat
deriving DecidableEq

/-- The variables of the loop, and the table. -/
structure ReplayState where
  table : EventTable
  recordsRead : Nat
  batchesWritten : Nat
  buffer : List NewEvent

/-- What is returned in the end. -/
def ReplayState.result (s : ReplayState) : ReplaySummary × EventTable :=
  (⟨s.recordsRead, s.batchesWritten⟩, s.table)

/-- A replay that threw, with the table it left behind. -/
structure ReplayAborted where
  error : Thrown
  table : EventTable

structure ReplayDriverOptions where
  prefixes : List JsString
  batchSize : Int := 500
  filter : Option (LogRecord → Bool) := none

/-- Without a filter every record is kept. -/
def ReplayDriverOptions.keeps (options : ReplayDriverOptions) (record : LogRecord) : Bool :=
  options.filter.all fun keep => keep record

/-- Something that threw while the table was this one. -/
def abortWith {α : Type} (table : EventTable) : Except Thrown α → Except ReplayAborted α
  | .ok a => .ok a
  | .error e => .error ⟨e, table⟩

namespace ReplayState

variable (P : Platform) (pg : Postgres)

def flushBuffer (s : ReplayState) : Except ReplayAborted ReplayState :=
  if s.buffer.isEmpty then .ok s
  else do
    let table ← abortWith s.table (insertEventsBatch pg s.table s.buffer)
    return { s with table, batchesWritten := s.batchesWritten + 1, buffer := [] }

/-- The body of the loop. -/
def replayRecord (options : ReplayDriverOptions) (s : ReplayState) (record : LogRecord) :
    Except ReplayAborted ReplayState :=
  let s := { s with recordsRead := s.recordsRead + 1 }
  if options.keeps record then do
    let row ← abortWith s.table (toNewEventRow P record.get)
    let s := { s with buffer := s.buffer ++ [row] }
    if options.batchSize ≤ s.buffer.length then s.flushBuffer pg else return s
  else return s

def replayRecords (options : ReplayDriverOptions) :
    List LogRecord → ReplayState → Except ReplayAborted ReplayState
  | [], s => .ok s
  | record :: records, s => do
    let s ← s.replayRecord P pg options record
    replayRecords options records s

end ReplayState

/-- The stream fails where its generator does. -/
def replayEventLog (P : Platform) (pg : Postgres) (options : ReplayDriverOptions)
    (eventLog : EventStore) (table : EventTable) :
    Except ReplayAborted (ReplaySummary × EventTable) := do
  let stream := streamEventLog eventLog options.prefixes
  let s ← ReplayState.replayRecords P pg options stream.records ⟨table, 0, 0, []⟩
  match stream.error with
  | some error => throw ⟨error, s.table⟩
  | none => do
    let s ← s.flushBuffer pg
    return s.result

/-! ## Insertions -/

section Insertions

variable {P : Platform} {pg : Postgres}

theorem boundRows_cons {new : NewEvent} {news : List NewEvent} {rows : List EventRow} :
    boundRows pg (new :: news) = .ok rows ↔ ∃ row rest,
      new.bound pg = .ok row ∧ boundRows pg news = .ok rest ∧ rows = row :: rest :=
  except_cons_eq_ok

theorem boundRows_append (news news' : List NewEvent) (rows : List EventRow) :
    boundRows pg (news ++ news') = .ok rows ↔
      ∃ r r', boundRows pg news = .ok r ∧ boundRows pg news' = .ok r' ∧ rows = r ++ r' := by
  induction news generalizing rows with
  | nil =>
    constructor
    · intro h
      exact ⟨[], rows, rfl, h, rfl⟩
    · rintro ⟨r, r', hr, hr', rfl⟩
      cases hr
      exact hr'
  | cons new news ih =>
    rw [List.cons_append, boundRows_cons]
    constructor
    · rintro ⟨row, rest, hrow, hrest, rfl⟩
      obtain ⟨r, r', hr, hr', rfl⟩ := (ih rest).mp hrest
      exact ⟨row :: r, r', boundRows_cons.mpr ⟨row, r, hrow, hr, rfl⟩, hr', rfl⟩
    · rintro ⟨r, r', hr, hr', rfl⟩
      obtain ⟨row, rest, hrow, hrest, rfl⟩ := boundRows_cons.mp hr
      exact ⟨row, rest ++ r', hrow, (ih _).mpr ⟨rest, r', hrest, hr', rfl⟩, rfl⟩

theorem insertRows_ok_iff {table table' : EventTable} {rows : List EventRow} :
    insertRows pg table rows = .ok table' ↔
      (∀ r ∈ rows, pg.rejects r = false) ∧ table' = table.insert rows := by
  rw [insertRows]
  split_ifs with hrej
  · obtain ⟨r, hr, hbad⟩ := List.any_eq_true.mp hrej
    refine iff_of_false (fun h => by cases h) fun ⟨hall, _⟩ => ?_
    rw [hall r hr] at hbad
    cases hbad
  · have hall : ∀ r ∈ rows, pg.rejects r = false := by simpa using hrej
    rw [Except.ok.injEq, eq_comm]
    exact ⟨fun h => ⟨hall, h⟩, fun h => h.2⟩

/-- **An insertion** succeeds when every value can be bound and no row is rejected. -/
theorem insertEventsBatch_ok_iff {table table' : EventTable} {news : List NewEvent} :
    insertEventsBatch pg table news = .ok table' ↔
      ∃ rows, boundRows pg news = .ok rows ∧ (∀ r ∈ rows, pg.rejects r = false) ∧
        table' = table.insert rows := by
  cases news with
  | nil =>
    constructor
    · intro h
      cases h
      exact ⟨[], rfl, fun _ h => absurd h List.not_mem_nil, rfl⟩
    · rintro ⟨rows, hrows, -, rfl⟩
      cases hrows
      rfl
  | cons new news =>
    rw [insertEventsBatch]
    show (boundRows pg (new :: news) >>= fun bound => insertRows pg table bound) = _ ↔ _
    simp only [except_bind_eq_ok, insertRows_ok_iff]

/-- An insertion of one row. -/
theorem insertEventsBatch_singleton {table table' : EventTable} {new : NewEvent} :
    insertEventsBatch pg table [new] = .ok table' ↔ ∃ row,
      new.bound pg = .ok row ∧ pg.rejects row = false ∧ table' = table.insert [row] := by
  rw [insertEventsBatch_ok_iff]
  constructor
  · rintro ⟨rows, hrows, hall, rfl⟩
    obtain ⟨row, rest, hrow, hrest, rfl⟩ := boundRows_cons.mp hrows
    cases hrest
    exact ⟨row, hrow, hall row List.mem_cons_self, rfl⟩
  · rintro ⟨row, hrow, hrej, rfl⟩
    refine ⟨[row], boundRows_cons.mpr ⟨row, [], hrow, rfl, rfl⟩, fun r hr => ?_, rfl⟩
    rw [List.mem_singleton.mp hr]
    exact hrej

/-- Two insertions in a row are one. -/
theorem insertEventsBatch_append (table : EventTable) (news news' : List NewEvent)
    {table'' : EventTable} :
    insertEventsBatch pg table (news ++ news') = .ok table'' ↔
      ∃ table', insertEventsBatch pg table news = .ok table' ∧
        insertEventsBatch pg table' news' = .ok table'' := by
  simp only [insertEventsBatch_ok_iff]
  constructor
  · rintro ⟨rows, hrows, hall, rfl⟩
    obtain ⟨r, r', hr, hr', rfl⟩ := (boundRows_append news news' rows).mp hrows
    refine ⟨table.insert r, ⟨r, hr, fun x hx => hall x (List.mem_append_left _ hx), rfl⟩, r', hr',
      fun x hx => hall x (List.mem_append_right _ hx), ?_⟩
    exact table.insert_append r r'
  · rintro ⟨table', ⟨r, hr, hall, rfl⟩, r', hr', hall', rfl⟩
    refine ⟨r ++ r', (boundRows_append news news' _).mpr ⟨r, r', hr, hr', rfl⟩, ?_,
      (table.insert_append r r').symm⟩
    intro x hx
    rcases List.mem_append.mp hx with hx | hx
    · exact hall x hx
    · exact hall' x hx

/-! ## A replay is one insertion -/

/-- The rows of records, the records projected one after another. -/
def recordRows (P : Platform) : List LogRecord → Except Thrown (List NewEvent)
  | [] => .ok []
  | record :: records => do
    let row ← toNewEventRow P record.get
    let rows ← recordRows P records
    return row :: rows

theorem recordRows_cons {record : LogRecord} {records : List LogRecord} {rows : List NewEvent} :
    recordRows P (record :: records) = .ok rows ↔ ∃ row rest,
      toNewEventRow P record.get = .ok row ∧ recordRows P records = .ok rest ∧
        rows = row :: rest :=
  except_cons_eq_ok

theorem flushBuffer_ok_iff {s s' : ReplayState} :
    s.flushBuffer pg = .ok s' ↔ ∃ table, insertEventsBatch pg s.table s.buffer = .ok table ∧
      s' = { s with
        table
        batchesWritten := if s.buffer.isEmpty then s.batchesWritten else s.batchesWritten + 1
        buffer := [] } := by
  obtain ⟨table, recordsRead, batchesWritten, buffer⟩ := s
  cases buffer with
  | nil =>
    constructor
    · intro h
      cases h
      exact ⟨table, rfl, rfl⟩
    · rintro ⟨table', h, rfl⟩
      cases h
      rfl
  | cons new news =>
    rw [ReplayState.flushBuffer]
    show (abortWith table (insertEventsBatch pg table (new :: news)) >>= _) = _ ↔ _
    cases insertEventsBatch pg table (new :: news) with
    | error e =>
      constructor
      · intro h
        cases h
      · rintro ⟨_, h, _⟩
        cases h
    | ok table' =>
      constructor
      · intro h
        cases h
        exact ⟨table', rfl, rfl⟩
      · rintro ⟨_, h, rfl⟩
        cases h
        rfl

/-- The rows buffered so far, inserted. -/
def ReplayState.inserted (pg : Postgres) (s : ReplayState) (news : List NewEvent) :
    Except Thrown EventTable :=
  insertEventsBatch pg s.table (s.buffer ++ news)

/-- What is inserted in the end does not depend on when the buffer is flushed. -/
theorem inserted_flushBuffer {s s' : ReplayState} (h : s.flushBuffer pg = .ok s')
    (news : List NewEvent) (table : EventTable) :
    s'.inserted pg news = .ok table ↔ s.inserted pg news = .ok table := by
  obtain ⟨t, ht, rfl⟩ := flushBuffer_ok_iff.mp h
  rw [ReplayState.inserted, ReplayState.inserted, insertEventsBatch_append s.table, ht]
  constructor
  · intro hi
    exact ⟨t, rfl, hi⟩
  · rintro ⟨_, h', hi⟩
    cases h'
    exact hi

theorem flushBuffer_of_inserted {s : ReplayState} {news : List NewEvent} {table : EventTable}
    (h : s.inserted pg news = .ok table) : ∃ s', s.flushBuffer pg = .ok s' := by
  obtain ⟨t, ht, -⟩ := (insertEventsBatch_append _ _ _).mp h
  exact ⟨_, flushBuffer_ok_iff.mpr ⟨t, ht, rfl⟩⟩

/-- **One record** moves its row from the input to the buffer or the table. -/
theorem replayRecord_spec (options : ReplayDriverOptions) (s : ReplayState) (record : LogRecord)
    (records : List LogRecord) (table : EventTable) :
    (∃ news, recordRows P ((record :: records).filter options.keeps) = .ok news ∧
        s.inserted pg news = .ok table) ↔
      ∃ s', s.replayRecord P pg options record = .ok s' ∧
        ∃ news, recordRows P (records.filter options.keeps) = .ok news ∧
          s'.inserted pg news = .ok table := by
  rw [ReplayState.replayRecord, List.filter_cons]
  split_ifs with hkeep
  · simp only [recordRows_cons]
    cases toNewEventRow P record.get with
    | error e =>
      constructor
      · rintro ⟨_, ⟨_, _, h, _⟩, _⟩
        cases h
      · rintro ⟨_, h, _⟩
        cases h
    | ok row =>
      set s₁ : ReplayState :=
        { s with recordsRead := s.recordsRead + 1, buffer := s.buffer ++ [row] } with hs₁
      have hpush : ∀ news, s₁.inserted pg news = s.inserted pg (row :: news) := fun news => by
        rw [ReplayState.inserted, ReplayState.inserted, hs₁, List.append_assoc]
        rfl
      have hcons : (∃ news, (∃ r rest, Except.ok row = (.ok r : Except Thrown NewEvent) ∧
            recordRows P (records.filter options.keeps) = .ok rest ∧ news = r :: rest) ∧
            s.inserted pg news = .ok table) ↔
          ∃ news, recordRows P (records.filter options.keeps) = .ok news ∧
            s₁.inserted pg news = .ok table := by
        constructor
        · rintro ⟨_, ⟨_, rest, h, hrest, rfl⟩, hi⟩
          cases h
          exact ⟨rest, hrest, (hpush rest).trans hi⟩
        · rintro ⟨news, hnews, hi⟩
          exact ⟨_, ⟨row, news, rfl, hnews, rfl⟩, (hpush news).symm.trans hi⟩
      refine hcons.trans ?_
      show _ ↔ ∃ s', (if options.batchSize ≤ (s₁.buffer.length : Int) then s₁.flushBuffer pg
        else .ok s₁) = .ok s' ∧ _
      split_ifs
      · constructor
        · rintro ⟨news, hnews, hi⟩
          obtain ⟨s', hs'⟩ := flushBuffer_of_inserted hi
          exact ⟨s', hs', news, hnews, (inserted_flushBuffer hs' news table).mpr hi⟩
        · rintro ⟨s', hs', news, hnews, hi⟩
          exact ⟨news, hnews, (inserted_flushBuffer hs' news table).mp hi⟩
      · constructor
        · intro h
          exact ⟨s₁, rfl, h⟩
        · rintro ⟨_, h, h'⟩
          cases h
          exact h'
  · constructor
    · intro h
      exact ⟨_, rfl, h⟩
    · rintro ⟨_, h, h'⟩
      cases h
      exact h'

/-- **All records**: what is in the table and the buffer afterwards is their insertion. -/
theorem replayRecords_spec (P : Platform) (pg : Postgres) (options : ReplayDriverOptions)
    (records : List LogRecord) (s : ReplayState) (table : EventTable) :
    (∃ news, recordRows P (records.filter options.keeps) = .ok news ∧
        s.inserted pg news = .ok table) ↔
      ∃ s', ReplayState.replayRecords P pg options records s = .ok s' ∧
        s'.inserted pg [] = .ok table := by
  induction records generalizing s with
  | nil =>
    constructor
    · rintro ⟨_, h, hi⟩
      cases h
      exact ⟨s, rfl, hi⟩
    · rintro ⟨_, h, hi⟩
      cases h
      exact ⟨[], rfl, hi⟩
  | cons record records ih =>
    rw [replayRecord_spec]
    constructor
    · rintro ⟨s₁, hs₁, h⟩
      obtain ⟨s', hs', hi⟩ := (ih s₁).mp h
      exact ⟨s', except_bind_eq_ok.mpr ⟨s₁, hs₁, hs'⟩, hi⟩
    · rintro ⟨s', hs', hi⟩
      obtain ⟨s₁, hs₁, hs'⟩ := except_bind_eq_ok.mp hs'
      exact ⟨s₁, hs₁, (ih s₁).mpr ⟨s', hs', hi⟩⟩

/-- **Theorem (`replayEventLog_ok_iff`).** -/
theorem replayEventLog_ok_iff {options : ReplayDriverOptions} {eventLog : EventStore}
    {table table' : EventTable} :
    (∃ summary, replayEventLog P pg options eventLog table = .ok (summary, table')) ↔
      (streamEventLog eventLog options.prefixes).error = none ∧
        ∃ news,
          recordRows P ((streamEventLog eventLog options.prefixes).records.filter options.keeps) =
            .ok news ∧ insertEventsBatch pg table news = .ok table' := by
  have hspec := replayRecords_spec P pg options
    (streamEventLog eventLog options.prefixes).records ⟨table, 0, 0, []⟩ table'
  have hstart : (⟨table, 0, 0, []⟩ : ReplayState).inserted pg = insertEventsBatch pg table := rfl
  rw [hstart] at hspec
  rw [hspec, replayEventLog]
  cases ReplayState.replayRecords P pg options (streamEventLog eventLog options.prefixes).records
      ⟨table, 0, 0, []⟩ with
  | error e =>
    constructor
    · rintro ⟨_, h⟩
      cases h
    · rintro ⟨_, _, h, _⟩
      cases h
  | ok s =>
    cases (streamEventLog eventLog options.prefixes).error with
    | some e =>
      constructor
      · rintro ⟨_, h⟩
        cases h
      · rintro ⟨h, _⟩
        cases h
    | none =>
      constructor
      · rintro ⟨summary, h⟩
        have h : (s.flushBuffer pg >>= fun s => pure s.result) = .ok (summary, table') := h
        cases hflush : s.flushBuffer pg with
        | error e =>
          rw [hflush] at h
          cases h
        | ok s' =>
          rw [hflush] at h
          cases h
          obtain ⟨t, ht, rfl⟩ := flushBuffer_ok_iff.mp hflush
          refine ⟨rfl, s, rfl, ?_⟩
          rw [ReplayState.inserted, List.append_nil]
          exact ht
      · rintro ⟨-, _, h, hi⟩
        cases h
        rw [ReplayState.inserted, List.append_nil] at hi
        have hflush := flushBuffer_ok_iff.mpr ⟨table', hi, rfl⟩
        refine ⟨⟨s.recordsRead,
          if s.buffer.isEmpty then s.batchesWritten else s.batchesWritten + 1⟩, ?_⟩
        show (s.flushBuffer pg >>= fun s => pure s.result) = _
        rw [hflush]
        rfl

end Insertions

end Posta
