import Mathlib.Data.List.Lex
import Posta.Core.Enrichment
import Posta.Js.Lines
import Posta.Store.SortedStore

/-!
# The event log

One object of the log holds one batch, one record a line.

**Fields** (`LogField`). The names of a record's fields are those of the columns of the table,
beside the time of the event.

**Writing** (`serializeBatch`). A field whose value `JSON.stringify` leaves out is absent from the
line.

**Reading** (`streamEventLog`). Prefix by prefix, object by object in key order, line by line. The
stream ends early with an error at the first line that is not a JSON object.
-/

namespace Posta

open Js

/-- The columns of the events table beside `occurred_at`. -/
inductive Column where
  | eventId | tenantId | linkId | slug | visitorHash | httpMethod | userAgent | referer | accept
  | acceptLanguage | secFetchSite | secFetchMode | secFetchDest | secFetchUser | secPurpose
  | secChUa | secChUaMobile | secChUaPlatform | purpose | xPurpose | xMoz | country | asn | browser
  | browserVersion | os | deviceType | sourcePlatform | isInApp | destHost
deriving DecidableEq

def Column.name : Column → JsString
  | eventId => lit "event_id"
  | tenantId => lit "tenant_id"
  | linkId => lit "link_id"
  | slug => lit "slug"
  | visitorHash => lit "visitor_hash"
  | httpMethod => lit "http_method"
  | userAgent => lit "user_agent"
  | referer => lit "referer"
  | accept => lit "accept"
  | acceptLanguage => lit "accept_language"
  | secFetchSite => lit "sec_fetch_site"
  | secFetchMode => lit "sec_fetch_mode"
  | secFetchDest => lit "sec_fetch_dest"
  | secFetchUser => lit "sec_fetch_user"
  | secPurpose => lit "sec_purpose"
  | secChUa => lit "sec_ch_ua"
  | secChUaMobile => lit "sec_ch_ua_mobile"
  | secChUaPlatform => lit "sec_ch_ua_platform"
  | purpose => lit "purpose"
  | xPurpose => lit "x_purpose"
  | xMoz => lit "x_moz"
  | country => lit "country"
  | asn => lit "asn"
  | browser => lit "browser"
  | browserVersion => lit "browser_version"
  | os => lit "os"
  | deviceType => lit "device_type"
  | sourcePlatform => lit "source_platform"
  | isInApp => lit "is_in_app"
  | destHost => lit "dest_host"

/-- A field of a record. -/
inductive LogField where
  | occurredAt
  | column (c : Column)
deriving DecidableEq

def LogField.name : LogField → JsString
  | occurredAt => lit "occurred_at"
  | column c => c.name

/-- The fields of `EventLogLine`, in order. -/
def logFields : List LogField :=
  [.column .eventId, .occurredAt, .column .tenantId, .column .linkId, .column .slug,
    .column .visitorHash, .column .httpMethod, .column .userAgent, .column .referer,
    .column .accept, .column .acceptLanguage, .column .secFetchSite, .column .secFetchMode,
    .column .secFetchDest, .column .secFetchUser, .column .secPurpose, .column .secChUa,
    .column .secChUaMobile, .column .secChUaPlatform, .column .purpose, .column .xPurpose,
    .column .xMoz, .column .country, .column .asn, .column .browser, .column .browserVersion,
    .column .os, .column .deviceType, .column .sourcePlatform, .column .isInApp,
    .column .destHost]

theorem mem_logFields (f : LogField) : f ∈ logFields := by
  cases f with
  | occurredAt => decide
  | column c => cases c <;> decide

theorem nodup_logFields_names : (logFields.map LogField.name).Nodup := by decide +kernel

/-- An event with its enrichment. -/
structure LoggedEvent where
  event : CaptureEvent
  enrichment : EnrichmentResult

/-- The value of a field. -/
def LoggedEvent.get (e : LoggedEvent) : LogField → JsValue
  | .occurredAt => .json (.str e.event.occurredAt.1)
  | .column .eventId => .json (.str e.event.eventId.1)
  | .column .tenantId => .json (.str e.event.tenantId.1)
  | .column .linkId => .json (.str e.event.linkId.1)
  | .column .slug => .json (.str e.event.slug.1)
  | .column .visitorHash => .ofNullable e.event.visitorHash
  | .column .httpMethod => .ofNullable e.event.httpMethod
  | .column .userAgent => .ofNullable e.event.userAgent
  | .column .referer => .ofNullable e.event.referer
  | .column .accept => .ofNullable e.event.accept
  | .column .acceptLanguage => .ofNullable e.event.acceptLanguage
  | .column .secFetchSite => .ofNullable e.event.secFetchSite
  | .column .secFetchMode => .ofNullable e.event.secFetchMode
  | .column .secFetchDest => .ofNullable e.event.secFetchDest
  | .column .secFetchUser => .ofNullable e.event.secFetchUser
  | .column .secPurpose => .ofNullable e.event.secPurpose
  | .column .secChUa => .ofNullable e.event.secChUa
  | .column .secChUaMobile => .ofNullable e.event.secChUaMobile
  | .column .secChUaPlatform => .ofNullable e.event.secChUaPlatform
  | .column .purpose => .ofNullable e.event.purpose
  | .column .xPurpose => .ofNullable e.event.xPurpose
  | .column .xMoz => .ofNullable e.event.xMoz
  | .column .country => .ofNullable e.event.country
  | .column .asn => .json (CaptureEvent.nullableNumber e.event.asn)
  | .column .browser => .ofNullable e.enrichment.browser
  | .column .browserVersion => .ofNullable e.enrichment.browserVersion
  | .column .os => .ofNullable e.enrichment.os
  | .column .deviceType => .ofNullable e.enrichment.deviceType
  | .column .sourcePlatform => e.enrichment.sourcePlatform
  | .column .isInApp => .json (.bool e.enrichment.isInApp)
  | .column .destHost => .ofNullable e.enrichment.destHost

/-! ## Writing -/

/-- `JSON.stringify(toLogLine(event))`, as an object: the fields that are written. -/
def toLogLine (e : LoggedEvent) : List (JsString × Json) :=
  logFields.filterMap fun f => (e.get f).toJson?.map fun v => (f.name, v)

def serializeEvent (e : LoggedEvent) : JsString := stringify (.obj (toLogLine e))

def serializeBatch (events : List LoggedEvent) : JsString :=
  events.flatMap fun e => serializeEvent e ++ [10]

/-! ## Reading -/

/-- A record as it is read: any JSON object. -/
abbrev LogRecord := List (JsString × Json)

def LogRecord.get (record : LogRecord) (f : LogField) : JsValue := .ofOption (lookup record f.name)

/-- `typeof`, with `array` for arrays. -/
def Json.kind : Json → JsString
  | .null => lit "object"
  | .bool _ => lit "boolean"
  | .num _ => lit "number"
  | .str _ => lit "string"
  | .arr _ => lit "array"
  | .obj _ => lit "object"

def syntaxError : Thrown := .error (lit "SyntaxError") (lit "Unexpected token") none false none none

def parseLoggedEventLine (line key : JsString) (lineNumber : Nat) : Except Thrown LogRecord :=
  let place := lit "streamEventLog: line " ++ natText lineNumber ++ lit " of key \"" ++ key ++
    lit "\" "
  match parse line with
  | none =>
    .error (.error (lit "Error") (place ++ lit "is not valid JSON") none false none syntaxError)
  | some (.obj members) => .ok members
  | some v => .error (.new (place ++ lit "parsed to a JSON " ++ Json.kind v ++ lit ", not an object"))

/-- What a generator yields: records, and the error that ended it early. -/
structure Stream where
  records : List LogRecord
  error : Option Thrown

/-- `yield*` one generator, then go on. -/
def Stream.append (s t : Stream) : Stream :=
  match s.error with
  | some e => ⟨s.records, some e⟩
  | none => ⟨s.records ++ t.records, t.error⟩

def Stream.empty : Stream := ⟨[], none⟩

/-- The lines of an object; empty lines are counted and skipped. -/
def streamLines (key : JsString) : List JsString → Nat → Stream
  | [], _ => .empty
  | line :: lines, lineNumber =>
    if line = [] then streamLines key lines (lineNumber + 1)
    else match parseLoggedEventLine line key lineNumber with
      | .error e => ⟨[], some e⟩
      | .ok record => Stream.append ⟨[record], none⟩ (streamLines key lines (lineNumber + 1))

def streamRecordsFromObject (key body : JsString) : Stream := streamLines key (readLines body) 1

/-- The objects of the log, by key. -/
abbrev EventStore := Store.SortedStore JsString JsString

/-- The keys under a prefix, in lexicographic order. -/
def listObjectKeys (store : EventStore) (keyPrefix : JsString) : List (JsString × JsString) :=
  store.entries.filter fun e => keyPrefix.isPrefixOf e.1

def streamObjects : List (JsString × JsString) → Stream
  | [] => .empty
  | e :: es => (streamRecordsFromObject e.1 e.2).append (streamObjects es)

def streamEventLog (store : EventStore) (prefixes : List JsString) : Stream :=
  streamObjects (prefixes.flatMap (listObjectKeys store))

end Posta
