import Posta.Core.EventLogReading
import Posta.Store.KeyedTable

/-!
# Rows of the events table

**Projection** (`toNewEventRow`). A record becomes a row: its time a `Date`, every other field a
value, with the header texts that contain U+0000 set to `null`. It looks at the record through
its fields, so it is the same function for an event to be flushed and for a line read back.

**Insertion** (`insertEventsBatch`). The driver binds every value to a text. A batch with a row
that Postgres rejects inserts nothing; otherwise the rows whose key is free are added, in order.

**Theorem (`toNewEventRow_toLogLine`).** The row of a logged event is always defined
(`toNewEventRow_get`); that of its line is the same, up to the source platform that is not a
JSON value.
-/

namespace Posta

open Js

/-! ## Values as JavaScript converts them -/

mutual
/-- `String(value)`. -/
def Json.toText : Json → JsString
  | .null => lit "null"
  | .bool true => lit "true"
  | .bool false => lit "false"
  | .num n => n.text
  | .str s => s
  | .arr elements => Json.joinText elements
  | .obj _ => lit "[object Object]"

/-- `elements.join(',')`; `null` is the empty text. -/
def Json.joinText : List Json → JsString
  | [] => []
  | [.null] => []
  | [element] => Json.toText element
  | .null :: elements => lit "," ++ Json.joinText elements
  | element :: elements => Json.toText element ++ lit "," ++ Json.joinText elements
end

/-- The integer part of a number. -/
def JsNumber.truncate (n : JsNumber) : Int :=
  let size : Int := if 0 ≤ n.exponent then n.coeff * 10 ^ n.exponent.toNat
    else n.coeff / 10 ^ (-n.exponent).toNat
  if n.negative then -size else size

/-- `TimeClip`. -/
def timeClip (t : Int) : Option Int := if t.natAbs ≤ 8640000000000000 then some t else none

/-- `new Date(value)`, `none` for an invalid date. -/
def Platform.toDate (P : Platform) : JsValue → Option Int
  | .undefined => none
  | .objectConstructor => P.date (lit "function Object() { [native code] }")
  | .objectPrototype => P.date (lit "[object Object]")
  | .json .null => some 0
  | .json (.bool b) => some (if b then 1 else 0)
  | .json (.num n) => timeClip (JsNumber.truncate n)
  | .json v => P.date (Json.toText v)

def typeError (message : JsString) : Thrown := .error (lit "TypeError") message none false none none

/-- The code unit that Postgres text cannot hold. -/
def nul : CodeUnit := 0

/-- `sanitizeForPostgresText`, on whatever value it gets: arrays have an `includes` of their own,
everything else but strings and `null` has none. -/
def sanitizeForPostgresText : JsValue → Except Thrown JsValue
  | .json .null => .ok (.json .null)
  | .json (.str s) => .ok (if s.contains nul then .json .null else .json (.str s))
  | .json (.arr elements) =>
    let hit := elements.any fun element => match element with
      | .str s => s == [nul]
      | _ => false
    .ok (if hit then .json .null else .json (.arr elements))
  | .undefined => .error (typeError (lit "Cannot read properties of undefined (reading 'includes')"))
  | _ => .error (typeError (lit "value.includes is not a function"))

/-! ## Projection -/

/-- A row as it is handed to the driver; `none` is an invalid date. -/
structure NewEvent where
  occurredAt : Option Int
  value : Column → JsValue

/-- The columns that are sanitized, in the order of the object literal. -/
def sanitizedColumns : List Column :=
  [.visitorHash, .httpMethod, .userAgent, .referer, .accept, .acceptLanguage, .secFetchSite,
    .secFetchMode, .secFetchDest, .secFetchUser, .secPurpose, .secChUa, .secChUaMobile,
    .secChUaPlatform, .purpose, .xPurpose, .xMoz, .country]

/-- The values of all columns, some of them sanitized one after another. -/
def sanitizeColumns (get : LogField → JsValue) : List Column → Except Thrown (Column → JsValue)
  | [] => .ok fun c => get (.column c)
  | c :: cs => do
    let v ← sanitizeForPostgresText (get (.column c))
    let values ← sanitizeColumns get cs
    return fun c' => if c' = c then v else values c'

def toNewEventRow (P : Platform) (get : LogField → JsValue) : Except Thrown NewEvent := do
  let value ← sanitizeColumns get sanitizedColumns
  return ⟨P.toDate (get .occurredAt), value⟩

/-! ## Insertion -/

/-- A stored row: the instant, and the text of every other column. -/
structure EventRow where
  occurredAt : Int
  text : Column → Option JsString

/-- The primary key. -/
abbrev EventKey := Option JsString × Int

def EventRow.key (r : EventRow) : EventKey := (r.text .eventId, r.occurredAt)

/-- What the program uses of the driver and of Postgres: the text a value is bound to, a string to
itself, and the rows that an `INSERT` rejects. -/
structure Postgres where
  bind : JsValue → Option JsString
  bind_str : ∀ s, bind (.json (.str s)) = some s
  rejects : EventRow → Bool
  rejection : Thrown

/-- `toISOString()` of an invalid date. -/
def rangeError : Thrown :=
  .error (lit "RangeError") (lit "Invalid time value") none false none none

/-- The row the driver sends. -/
def NewEvent.bound (pg : Postgres) (r : NewEvent) : Except Thrown EventRow :=
  match r.occurredAt with
  | none => .error rangeError
  | some t => .ok ⟨t, fun c => pg.bind (r.value c)⟩

/-- The rows of a batch. -/
def boundRows (pg : Postgres) : List NewEvent → Except Thrown (List EventRow)
  | [] => .ok []
  | r :: rs => do
    let row ← r.bound pg
    let rows ← boundRows pg rs
    return row :: rows

abbrev EventTable := Store.KeyedTable EventRow.key

/-- One `INSERT … ON CONFLICT DO NOTHING`. -/
def insertRows (pg : Postgres) (table : EventTable) (rows : List EventRow) :
    Except Thrown EventTable :=
  if rows.any pg.rejects then .error pg.rejection else .ok (table.insert rows)

/-- `insertEventsBatch`, where nothing but the rows can make it fail. -/
def insertEventsBatch (pg : Postgres) (table : EventTable) (rows : List NewEvent) :
    Except Thrown EventTable :=
  if rows.isEmpty then .ok table
  else do
    let bound ← boundRows pg rows
    insertRows pg table bound

/-! ## Rows of logged events -/

/-- The sanitized value of a column of a logged event. -/
def LoggedEvent.columnValue (e : LoggedEvent) (c : Column) : JsValue :=
  match sanitizedColumns.contains c, e.get (.column c) with
  | true, .json (.str s) => if s.contains nul then .json .null else .json (.str s)
  | _, v => v

/-- What the driver is handed for a logged event. -/
def LoggedEvent.newEvent (e : LoggedEvent) : NewEvent :=
  ⟨some e.event.occurredAt.time, e.columnValue⟩

/-- What the driver is handed for its line. -/
def LoggedEvent.replayedEvent (e : LoggedEvent) : NewEvent :=
  ⟨some e.event.occurredAt.time, fun c => JsValue.readBack (e.columnValue c)⟩

/-- The row of a logged event. -/
def LoggedEvent.row (pg : Postgres) (e : LoggedEvent) : EventRow :=
  ⟨e.event.occurredAt.time, fun c => pg.bind (e.columnValue c)⟩

/-- The row of its line. -/
def LoggedEvent.replayedRow (pg : Postgres) (e : LoggedEvent) : EventRow :=
  ⟨e.event.occurredAt.time, fun c => pg.bind (JsValue.readBack (e.columnValue c))⟩

/-- The key of a captured event. -/
def CaptureEvent.key (e : CaptureEvent) : EventKey := (some e.eventId.1, e.occurredAt.time)

@[simp] theorem key_row (pg : Postgres) (e : LoggedEvent) : (e.row pg).key = e.event.key :=
  congrArg (·, e.event.occurredAt.time) (pg.bind_str e.event.eventId.1)

theorem key_replayedRow (pg : Postgres) (e : LoggedEvent) :
    (e.replayedRow pg).key = e.event.key :=
  congrArg (·, e.event.occurredAt.time) (pg.bind_str e.event.eventId.1)

@[simp] theorem bound_newEvent (pg : Postgres) (e : LoggedEvent) :
    e.newEvent.bound pg = .ok (e.row pg) := rfl

theorem boundRows_newEvents (pg : Postgres) (es : List LoggedEvent) :
    boundRows pg (es.map LoggedEvent.newEvent) = .ok (es.map (LoggedEvent.row pg)) := by
  induction es with
  | nil => rfl
  | cons e es ih =>
    rw [List.map_cons, boundRows, bound_newEvent, ih]
    rfl

/-! ## Sanitizing -/

/-- A value that `sanitizeForPostgresText` does not throw on. -/
def isSanitizable : JsValue → Bool
  | .json .null => true
  | .json (.str _) => true
  | .json (.arr _) => true
  | _ => false

/-- The element U+0000, alone. -/
def isNulElement : Json → Bool
  | .str s => s == [nul]
  | _ => false

/-- `null` in the place of a text that contains U+0000. -/
def cleaned : JsValue → JsValue
  | .json (.str s) => if s.contains nul then .json .null else .json (.str s)
  | .json (.arr elements) =>
    if elements.any isNulElement then .json .null else .json (.arr elements)
  | v => v

theorem sanitizeForPostgresText_of_sanitizable {v : JsValue} (h : isSanitizable v = true) :
    sanitizeForPostgresText v = .ok (cleaned v) := by
  cases v with
  | json v =>
    cases v with
    | null | str => rfl
    | arr elements =>
      refine congrArg (fun hit : Bool => Except.ok (if hit = true then JsValue.json .null
        else JsValue.json (.arr elements))) (congrArg elements.any (funext fun element => ?_))
      cases element <;> rfl
    | bool | num | obj => cases h
  | undefined | objectConstructor | objectPrototype => cases h

theorem sanitizeForPostgresText_error {v : JsValue} (h : isSanitizable v = false) :
    ∃ e, sanitizeForPostgresText v = .error e := by
  cases v with
  | json v =>
    cases v with
    | null | str | arr => cases h
    | bool | num | obj => exact ⟨_, rfl⟩
  | undefined | objectConstructor | objectPrototype => exact ⟨_, rfl⟩

/-- The values of all columns when nothing throws. -/
def cleanedColumns (get : LogField → JsValue) (cs : List Column) (c : Column) : JsValue :=
  if c ∈ cs then cleaned (get (.column c)) else get (.column c)

theorem sanitizeColumns_of_sanitizable {get : LogField → JsValue} {cs : List Column}
    (h : ∀ c ∈ cs, isSanitizable (get (.column c)) = true) :
    sanitizeColumns get cs = .ok (cleanedColumns get cs) := by
  induction cs with
  | nil => rfl
  | cons c cs ih =>
    rw [sanitizeColumns, sanitizeForPostgresText_of_sanitizable (h c List.mem_cons_self),
      ih fun d hd => h d (List.mem_cons_of_mem _ hd)]
    show Except.ok (fun c' => if c' = c then _ else _) = _
    congr 1
    funext d
    by_cases hd : d = c
    · subst hd
      rw [if_pos rfl, cleanedColumns, if_pos List.mem_cons_self]
    · rw [if_neg hd, cleanedColumns, cleanedColumns]
      simp only [List.mem_cons, hd, false_or]

theorem sanitizeColumns_error {get : LogField → JsValue} {cs : List Column}
    (h : ∃ c ∈ cs, isSanitizable (get (.column c)) = false) :
    ∃ e, sanitizeColumns get cs = .error e := by
  induction cs with
  | nil =>
    obtain ⟨c, hc, -⟩ := h
    cases hc
  | cons c cs ih =>
    rw [sanitizeColumns]
    cases hv : sanitizeForPostgresText (get (.column c)) with
    | error e => exact ⟨e, rfl⟩
    | ok v =>
      obtain ⟨d, hd, hbad⟩ := h
      rcases List.mem_cons.mp hd with rfl | hd
      · obtain ⟨e, he⟩ := sanitizeForPostgresText_error hbad
        rw [hv] at he
        cases he
      · obtain ⟨e, he⟩ := ih ⟨d, hd, hbad⟩
        exact ⟨e, by rw [he]; rfl⟩

/-! ## Rows of events and of their lines -/

theorem get_sanitized (e : LoggedEvent) : ∀ c ∈ sanitizedColumns, ∃ s,
    e.get (.column c) = .ofNullable s := by
  intro c hc
  simp only [sanitizedColumns, List.mem_cons, List.not_mem_nil, or_false] at hc
  rcases hc with rfl | rfl | rfl | rfl | rfl | rfl | rfl | rfl | rfl | rfl | rfl | rfl | rfl |
    rfl | rfl | rfl | rfl | rfl <;> exact ⟨_, rfl⟩

theorem readBack_ofNullable (s : Option JsString) :
    JsValue.readBack (.ofNullable s) = .ofNullable s := by
  cases s <;> rfl

theorem sanitizable_ofNullable (s : Option JsString) : isSanitizable (.ofNullable s) = true := by
  cases s <;> rfl

theorem cleanedColumns_get (e : LoggedEvent) :
    cleanedColumns e.get sanitizedColumns = e.columnValue := by
  funext c
  by_cases hc : c ∈ sanitizedColumns
  · obtain ⟨s, hs⟩ := get_sanitized e c hc
    have hcontains : sanitizedColumns.contains c = true := by simpa using hc
    rw [cleanedColumns, LoggedEvent.columnValue, if_pos hc, hs, hcontains]
    cases s <;> rfl
  · have hcontains : sanitizedColumns.contains c = false := by simpa using hc
    rw [cleanedColumns, LoggedEvent.columnValue, if_neg hc, hcontains]

theorem readBack_cleaned (s : Option JsString) :
    JsValue.readBack (cleaned (.ofNullable s)) = cleaned (.ofNullable s) := by
  cases s with
  | none => rfl
  | some s =>
    simp only [JsValue.ofNullable, cleaned]
    split_ifs <;> rfl

theorem cleanedColumns_toLogLine (e : LoggedEvent) :
    cleanedColumns (LogRecord.get (toLogLine e)) sanitizedColumns =
      fun c => JsValue.readBack (e.columnValue c) := by
  rw [← cleanedColumns_get]
  funext c
  by_cases hc : c ∈ sanitizedColumns
  · obtain ⟨s, hs⟩ := get_sanitized e c hc
    rw [cleanedColumns, cleanedColumns, if_pos hc, if_pos hc, get_toLogLine, hs,
      readBack_ofNullable, readBack_cleaned]
  · rw [cleanedColumns, cleanedColumns, if_neg hc, if_neg hc, get_toLogLine]

/-- **The row of a logged event** is always defined. -/
theorem toNewEventRow_get (P : Platform) (e : LoggedEvent) :
    toNewEventRow P e.get = .ok e.newEvent := by
  have hsanitizable : ∀ c ∈ sanitizedColumns, isSanitizable (e.get (.column c)) = true := by
    intro c hc
    obtain ⟨s, hs⟩ := get_sanitized e c hc
    rw [hs, sanitizable_ofNullable]
  have hdate : P.toDate (e.get .occurredAt) = some e.event.occurredAt.time :=
    P.date_time (Option.some_get _).symm
  rw [toNewEventRow, sanitizeColumns_of_sanitizable hsanitizable, hdate, cleanedColumns_get]
  rfl

/-- **The row of its line** is defined as well: the same values, read back. -/
theorem toNewEventRow_toLogLine (P : Platform) (e : LoggedEvent) :
    toNewEventRow P (LogRecord.get (toLogLine e)) = .ok e.replayedEvent := by
  have hsanitizable : ∀ c ∈ sanitizedColumns,
      isSanitizable (LogRecord.get (toLogLine e) (.column c)) = true := by
    intro c hc
    obtain ⟨s, hs⟩ := get_sanitized e c hc
    rw [get_toLogLine, hs, readBack_ofNullable, sanitizable_ofNullable]
  have hdate : P.toDate (LogRecord.get (toLogLine e) .occurredAt) =
      some e.event.occurredAt.time := by
    rw [get_toLogLine]
    exact P.date_time (Option.some_get _).symm
  rw [toNewEventRow, sanitizeColumns_of_sanitizable hsanitizable, hdate, cleanedColumns_toLogLine]
  rfl

/-! ## A driver -/

/-- A value is bound to its text, an object to its JSON text; `undefined` and `null` are bound to
`NULL`. -/
def boundText : JsValue → Option JsString
  | .undefined => none
  | .objectConstructor => some (lit "function Object() { [native code] }")
  | .objectPrototype => some (lit "{}")
  | .json .null => none
  | .json (.obj members) => some (stringify (.obj members))
  | .json v => some (Json.toText v)

/-- A Postgres that rejects some rows as a text with an invalid byte. -/
def Postgres.rejecting (bad : EventRow → Bool) : Postgres where
  bind := boundText
  bind_str _ := rfl
  rejects := bad
  rejection := .error (lit "error") (lit "invalid byte sequence for encoding \"UTF8\": 0x00")
    (some (lit "22021")) false none none

/-- A Postgres that takes every row. -/
def acceptingPostgres : Postgres := .rejecting fun _ => false

end Posta
