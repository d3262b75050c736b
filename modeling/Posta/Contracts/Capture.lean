import Mathlib.Data.List.Nodup
import Posta.Js.Date
import Posta.Js.Value

/-!
# The capture contract

A captured event, as the redirect service queues it and the worker reads it. The string formats
that the schema checks are subtypes, so an event that violates them cannot be built.

**Reading** (`CaptureEventSchema.safeParse`). The schema is strict: an unknown key is refused,
and so is a missing one, `null` being a value of its own for the nullable signals.
-/

namespace Posta

open Js

/-- `/^[0-9A-HJKMNP-TV-Z]$/`. -/
def isCrockford (c : CodeUnit) : Bool :=
  isDigit c || (65 ≤ c.toNat && c.toNat ≤ 72) || c == unit 'J' || c == unit 'K' ||
    c == unit 'M' || c == unit 'N' || (80 ≤ c.toNat && c.toNat ≤ 84) ||
    (86 ≤ c.toNat && c.toNat ≤ 90)

/-- `ULID_PATTERN`. -/
def isUlid (s : JsString) : Bool := s.length == 26 && s.all isCrockford

/-- A 26-character Crockford ULID. -/
abbrev Ulid := { s : JsString // isUlid s = true }

/-- `z.iso.datetime()`. -/
def isIsoDatetime (s : JsString) : Bool := (isoInstant s).isSome

abbrev IsoDatetime := { s : JsString // isIsoDatetime s = true }

/-- The instant of a date-time. -/
def IsoDatetime.time (s : IsoDatetime) : Int := (isoInstant s.1).get s.2

/-- `z.string().min(1)`. -/
abbrev NonEmptyString := { s : JsString // s ≠ [] }

structure CaptureEvent where
  eventId : Ulid
  occurredAt : IsoDatetime
  tenantId : NonEmptyString
  linkId : NonEmptyString
  slug : NonEmptyString
  httpMethod : Option JsString
  userAgent : Option JsString
  referer : Option JsString
  accept : Option JsString
  acceptLanguage : Option JsString
  secFetchSite : Option JsString
  secFetchMode : Option JsString
  secFetchDest : Option JsString
  secFetchUser : Option JsString
  secPurpose : Option JsString
  secChUa : Option JsString
  secChUaMobile : Option JsString
  secChUaPlatform : Option JsString
  purpose : Option JsString
  xPurpose : Option JsString
  xMoz : Option JsString
  country : Option JsString
  asn : Option JsNumber
  visitorHash : Option JsString
deriving DecidableEq

namespace CaptureEvent

/-- An event without any signal. -/
def bare (eventId : Ulid) (occurredAt : IsoDatetime) (tenantId linkId slug : NonEmptyString) :
    CaptureEvent :=
  { eventId, occurredAt, tenantId, linkId, slug, httpMethod := none, userAgent := none,
    referer := none, accept := none, acceptLanguage := none, secFetchSite := none,
    secFetchMode := none, secFetchDest := none, secFetchUser := none, secPurpose := none,
    secChUa := none, secChUaMobile := none, secChUaPlatform := none, purpose := none,
    xPurpose := none, xMoz := none, country := none, asn := none, visitorHash := none }

/-- An event of the link with the given slug. -/
def plain (slug : JsString) (hslug : slug ≠ [] := by decide) : CaptureEvent :=
  bare ⟨lit "01J00000000000000000000000", by decide⟩ ⟨lit "2026-07-21T09:30:00.000Z", by decide⟩
    ⟨lit "tenant", by decide⟩ ⟨lit "link", by decide⟩ ⟨slug, hslug⟩

/-- An event with an id and a time of its own. -/
def taken (eventId : Ulid) (occurredAt : IsoDatetime) : CaptureEvent :=
  { plain (lit "slug") with eventId, occurredAt }

/-- A nullable string as JSON. -/
def nullable : Option JsString → Json
  | none => .null
  | some s => .str s

def nullableNumber : Option JsNumber → Json
  | none => .null
  | some n => .num n

/-- The event as the object `safeParse` returns, in the order of the schema. -/
def toMembers (e : CaptureEvent) : List (JsString × Json) :=
  [(lit "event_id", .str e.eventId.1),
    (lit "occurred_at", .str e.occurredAt.1),
    (lit "tenant_id", .str e.tenantId.1),
    (lit "link_id", .str e.linkId.1),
    (lit "slug", .str e.slug.1),
    (lit "http_method", nullable e.httpMethod),
    (lit "user_agent", nullable e.userAgent),
    (lit "referer", nullable e.referer),
    (lit "accept", nullable e.accept),
    (lit "accept_language", nullable e.acceptLanguage),
    (lit "sec_fetch_site", nullable e.secFetchSite),
    (lit "sec_fetch_mode", nullable e.secFetchMode),
    (lit "sec_fetch_dest", nullable e.secFetchDest),
    (lit "sec_fetch_user", nullable e.secFetchUser),
    (lit "sec_purpose", nullable e.secPurpose),
    (lit "sec_ch_ua", nullable e.secChUa),
    (lit "sec_ch_ua_mobile", nullable e.secChUaMobile),
    (lit "sec_ch_ua_platform", nullable e.secChUaPlatform),
    (lit "purpose", nullable e.purpose),
    (lit "x_purpose", nullable e.xPurpose),
    (lit "x_moz", nullable e.xMoz),
    (lit "country", nullable e.country),
    (lit "asn", nullableNumber e.asn),
    (lit "visitor_hash", nullable e.visitorHash)]

def toJson (e : CaptureEvent) : Json := .obj e.toMembers

end CaptureEvent

namespace CaptureEventSchema

/-- The keys of the schema; every other key is refused. -/
def keys : List JsString :=
  [lit "event_id", lit "occurred_at", lit "tenant_id", lit "link_id", lit "slug",
    lit "http_method", lit "user_agent", lit "referer", lit "accept", lit "accept_language",
    lit "sec_fetch_site", lit "sec_fetch_mode", lit "sec_fetch_dest", lit "sec_fetch_user",
    lit "sec_purpose", lit "sec_ch_ua", lit "sec_ch_ua_mobile", lit "sec_ch_ua_platform",
    lit "purpose", lit "x_purpose", lit "x_moz", lit "country", lit "asn", lit "visitor_hash"]

/-- `z.string().regex(ULID_PATTERN)`. -/
def ulid : Option Json → Option Ulid
  | some (.str s) => if h : isUlid s = true then some ⟨s, h⟩ else none
  | _ => none

def isoDatetime : Option Json → Option IsoDatetime
  | some (.str s) => if h : isIsoDatetime s = true then some ⟨s, h⟩ else none
  | _ => none

def nonEmpty : Option Json → Option NonEmptyString
  | some (.str s) => if h : s ≠ [] then some ⟨s, h⟩ else none
  | _ => none

/-- `z.string().nullable()`. -/
def nullableSignal : Option Json → Option (Option JsString)
  | some (.str s) => some (some s)
  | some .null => some none
  | _ => none

/-- `z.number().nullable()`. -/
def nullableNumber : Option Json → Option (Option JsNumber)
  | some (.num n) => some (some n)
  | some .null => some none
  | _ => none

/-- The object of a strict schema, by its members. -/
def strictObject (ms : List (JsString × Json)) : Option (JsString → Option Json) :=
  if ms.all (fun m => keys.contains m.1) then some (lookup ms) else none

/-- `CaptureEventSchema.safeParse`, without its list of issues. -/
def safeParse : Json → Option CaptureEvent
  | .obj ms => do
    let get ← strictObject ms
    some {
      eventId := ← ulid (get (lit "event_id"))
      occurredAt := ← isoDatetime (get (lit "occurred_at"))
      tenantId := ← nonEmpty (get (lit "tenant_id"))
      linkId := ← nonEmpty (get (lit "link_id"))
      slug := ← nonEmpty (get (lit "slug"))
      httpMethod := ← nullableSignal (get (lit "http_method"))
      userAgent := ← nullableSignal (get (lit "user_agent"))
      referer := ← nullableSignal (get (lit "referer"))
      accept := ← nullableSignal (get (lit "accept"))
      acceptLanguage := ← nullableSignal (get (lit "accept_language"))
      secFetchSite := ← nullableSignal (get (lit "sec_fetch_site"))
      secFetchMode := ← nullableSignal (get (lit "sec_fetch_mode"))
      secFetchDest := ← nullableSignal (get (lit "sec_fetch_dest"))
      secFetchUser := ← nullableSignal (get (lit "sec_fetch_user"))
      secPurpose := ← nullableSignal (get (lit "sec_purpose"))
      secChUa := ← nullableSignal (get (lit "sec_ch_ua"))
      secChUaMobile := ← nullableSignal (get (lit "sec_ch_ua_mobile"))
      secChUaPlatform := ← nullableSignal (get (lit "sec_ch_ua_platform"))
      purpose := ← nullableSignal (get (lit "purpose"))
      xPurpose := ← nullableSignal (get (lit "x_purpose"))
      xMoz := ← nullableSignal (get (lit "x_moz"))
      country := ← nullableSignal (get (lit "country"))
      asn := ← nullableNumber (get (lit "asn"))
      visitorHash := ← nullableSignal (get (lit "visitor_hash")) }
  | _ => none

@[simp] theorem ulid_str (u : Ulid) : ulid (some (.str u.1)) = some u := by
  simp [ulid, u.2]

@[simp] theorem isoDatetime_str (t : IsoDatetime) : isoDatetime (some (.str t.1)) = some t := by
  simp [isoDatetime, t.2]

@[simp] theorem nonEmpty_str (s : NonEmptyString) : nonEmpty (some (.str s.1)) = some s := by
  simp [nonEmpty, s.2]

@[simp] theorem nullableSignal_nullable (s : Option JsString) :
    nullableSignal (some (CaptureEvent.nullable s)) = some s := by
  cases s <;> rfl

@[simp] theorem nullableNumber_nullableNumber (n : Option JsNumber) :
    nullableNumber (some (CaptureEvent.nullableNumber n)) = some n := by
  cases n <;> rfl

theorem keys_nodup : keys.Nodup := by decide

theorem map_fst_toMembers (e : CaptureEvent) : e.toMembers.map Prod.fst = keys := rfl

/-- A member with its key is found when the keys are distinct. -/
theorem lookup_of_mem {ms : List (JsString × Json)} (hd : (ms.map Prod.fst).Nodup) {k : JsString}
    {v : Json} (h : (k, v) ∈ ms) : lookup ms k = some v := by
  rw [lookup]
  cases hf : ms.find? fun m => m.1 = k with
  | none => exact absurd (List.find?_eq_none.mp hf _ h) (by simp)
  | some m =>
    have hm := List.mem_of_find?_eq_some hf
    have hk : m.1 = k := by simpa using List.find?_some hf
    have : m = (k, v) := List.inj_on_of_nodup_map hd hm h hk
    rw [this]
    rfl

theorem bind_of_some {α β : Type} {x : Option α} {a : α} {f : α → Option β} {r : Option β}
    (hx : x = some a) (hf : f a = r) : (x >>= f) = r := by
  rw [hx]
  exact hf

theorem strictObject_toMembers (e : CaptureEvent) :
    strictObject e.toMembers = some (lookup e.toMembers) := by
  rw [strictObject, if_pos]
  rw [List.all_eq_true]
  intro m hm
  have : m.1 ∈ keys := map_fst_toMembers e ▸ List.mem_map_of_mem hm
  simpa using this

theorem lookup_toMembers (e : CaptureEvent) (i : Fin 24) :
    lookup e.toMembers (keys.get i) = some (e.toMembers.get i).2 := by
  refine lookup_of_mem (by rw [map_fst_toMembers]; exact keys_nodup) ?_
  have h : keys.get i = (e.toMembers.get i).1 :=
    List.getElem_map (l := e.toMembers) (i := i.1) Prod.fst
  rw [h]
  exact List.get_mem _ _

/-- **An event is read back from its own object.** -/
theorem safeParse_toJson (e : CaptureEvent) : safeParse e.toJson = some e := by
  have hs := lookup_toMembers e
  refine bind_of_some (strictObject_toMembers e) ?_
  refine bind_of_some ((congrArg ulid (hs 0)).trans (ulid_str e.eventId)) ?_
  refine bind_of_some ((congrArg isoDatetime (hs 1)).trans (isoDatetime_str e.occurredAt)) ?_
  refine bind_of_some ((congrArg nonEmpty (hs 2)).trans (nonEmpty_str e.tenantId)) ?_
  refine bind_of_some ((congrArg nonEmpty (hs 3)).trans (nonEmpty_str e.linkId)) ?_
  refine bind_of_some ((congrArg nonEmpty (hs 4)).trans (nonEmpty_str e.slug)) ?_
  have hn : ∀ (i : Fin 24) (s : Option JsString), (e.toMembers.get i).2 = CaptureEvent.nullable s →
      nullableSignal (lookup e.toMembers (keys.get i)) = some s := fun i s h => by
    rw [hs i, h, nullableSignal_nullable]
  refine bind_of_some (hn 5 e.httpMethod rfl) ?_
  refine bind_of_some (hn 6 e.userAgent rfl) ?_
  refine bind_of_some (hn 7 e.referer rfl) ?_
  refine bind_of_some (hn 8 e.accept rfl) ?_
  refine bind_of_some (hn 9 e.acceptLanguage rfl) ?_
  refine bind_of_some (hn 10 e.secFetchSite rfl) ?_
  refine bind_of_some (hn 11 e.secFetchMode rfl) ?_
  refine bind_of_some (hn 12 e.secFetchDest rfl) ?_
  refine bind_of_some (hn 13 e.secFetchUser rfl) ?_
  refine bind_of_some (hn 14 e.secPurpose rfl) ?_
  refine bind_of_some (hn 15 e.secChUa rfl) ?_
  refine bind_of_some (hn 16 e.secChUaMobile rfl) ?_
  refine bind_of_some (hn 17 e.secChUaPlatform rfl) ?_
  refine bind_of_some (hn 18 e.purpose rfl) ?_
  refine bind_of_some (hn 19 e.xPurpose rfl) ?_
  refine bind_of_some (hn 20 e.xMoz rfl) ?_
  refine bind_of_some (hn 21 e.country rfl) ?_
  refine bind_of_some ((congrArg nullableNumber (hs 22)).trans
    (nullableNumber_nullableNumber e.asn)) ?_
  exact bind_of_some (hn 23 e.visitorHash rfl) rfl

end CaptureEventSchema

end Posta
