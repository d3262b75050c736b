import Posta.Contracts.Capture
import Posta.Contracts.Links
import Posta.Js.JsonRoundTrip

/-!
# The contract of the link cache

A cached link is the JSON text of an object with three members. Reading validates it again, so a
value that anyone wrote to the cache is a link with a valid destination, or is refused.

**Theorem (`parseCachedLink_stringify`).** What the schema returns is read back from its text.
-/

namespace Posta

open Js

def CachedLink.toJson (link : CachedLink) : Json :=
  .obj [(lit "link_id", .str link.linkId), (lit "tenant_id", .str link.tenantId),
    (lit "destination", .str link.destination)]

namespace CachedLinkSchema

variable {acceptsUrl : JsString → Bool}

/-- The keys of the schema; every other key is refused. -/
def keys : List JsString := [lit "link_id", lit "tenant_id", lit "destination"]

def destination (acceptsUrl : JsString → Bool) : Option Json → Option JsString
  | some (.str s) => zDestination acceptsUrl s
  | _ => none

/-- `CachedLinkSchema.safeParse`, without its list of issues. -/
def safeParse (acceptsUrl : JsString → Bool) : Json → Option CachedLink
  | .obj ms =>
    if ms.all fun m => keys.contains m.1 then do
      let linkId ← CaptureEventSchema.nonEmpty (lookup ms (lit "link_id"))
      let tenantId ← CaptureEventSchema.nonEmpty (lookup ms (lit "tenant_id"))
      let destination ← destination acceptsUrl (lookup ms (lit "destination"))
      some ⟨linkId.1, tenantId.1, destination⟩
    else none
  | _ => none

theorem safeParse_toJson (link : CachedLink) : safeParse acceptsUrl link.toJson = (do
    let linkId ← CaptureEventSchema.nonEmpty (some (.str link.linkId))
    let tenantId ← CaptureEventSchema.nonEmpty (some (.str link.tenantId))
    let destination ← zDestination acceptsUrl link.destination
    some ⟨linkId.1, tenantId.1, destination⟩) := rfl

theorem nonEmpty_str_of_ne {s : JsString} (h : s ≠ []) :
    CaptureEventSchema.nonEmpty (some (.str s)) = some ⟨s, h⟩ := dif_pos h

/-- What the schema makes of a link: the ids are kept, the destination is validated. -/
theorem safeParse_toJson_eq_some {link valid : CachedLink} :
    safeParse acceptsUrl link.toJson = some valid ↔ link.linkId ≠ [] ∧ link.tenantId ≠ [] ∧
      zDestination acceptsUrl link.destination = some valid.destination ∧
      valid.linkId = link.linkId ∧ valid.tenantId = link.tenantId := by
  rw [safeParse_toJson]
  by_cases hlink : link.linkId = []
  · simp [hlink, CaptureEventSchema.nonEmpty]
  by_cases htenant : link.tenantId = []
  · simp [htenant, CaptureEventSchema.nonEmpty]
  simp only [nonEmpty_str_of_ne hlink, nonEmpty_str_of_ne htenant, Option.bind_eq_bind,
    Option.bind_some, Option.bind_eq_some_iff, Option.some.injEq]
  constructor
  · rintro ⟨destination, h, rfl⟩
    exact ⟨hlink, htenant, h, rfl, rfl⟩
  · rintro ⟨-, -, h, hid, ht⟩
    refine ⟨valid.destination, h, ?_⟩
    rw [← hid, ← ht]

/-- What the schema returns it accepts as it is. -/
theorem safeParse_idem {link valid : CachedLink}
    (h : safeParse acceptsUrl link.toJson = some valid) :
    safeParse acceptsUrl valid.toJson = some valid := by
  obtain ⟨hlink, htenant, hd, hid, ht⟩ := safeParse_toJson_eq_some.1 h
  exact safeParse_toJson_eq_some.2 ⟨hid ▸ hlink, ht ▸ htenant, zDestination_idem hd, rfl, rfl⟩

/-- A link that the schema returns has a valid destination. -/
theorem destination_of_safeParse {v : Json} {link : CachedLink}
    (h : safeParse acceptsUrl v = some link) :
    zDestination acceptsUrl link.destination = some link.destination := by
  unfold safeParse at h
  split at h
  · next ms =>
    split_ifs at h
    simp only [Option.bind_eq_bind, Option.bind_eq_some_iff, Option.some.injEq] at h
    obtain ⟨linkId, -, tenantId, -, d, hd, rfl⟩ := h
    unfold destination at hd
    split at hd
    · exact zDestination_idem hd
    · cases hd
  · cases h

end CachedLinkSchema

/-- `none` is `null`. -/
def parseCachedLink (acceptsUrl : JsString → Bool) (raw : Option JsString) : Option CachedLink :=
  match raw with
  | none => none
  | some raw => (parse raw).bind (CachedLinkSchema.safeParse acceptsUrl)

variable {acceptsUrl : JsString → Bool}

theorem parseCachedLink_some (raw : JsString) : parseCachedLink acceptsUrl (some raw) =
    (parse raw).bind (CachedLinkSchema.safeParse acceptsUrl) := rfl

theorem destination_of_parseCachedLink {raw : Option JsString} {link : CachedLink}
    (h : parseCachedLink acceptsUrl raw = some link) :
    zDestination acceptsUrl link.destination = some link.destination := by
  cases raw with
  | none => cases h
  | some raw =>
    obtain ⟨v, -, hv⟩ := Option.bind_eq_some_iff.1 h
    exact CachedLinkSchema.destination_of_safeParse hv

theorem CachedLink.distinct_toJson (link : CachedLink) : link.toJson.Distinct := by
  have hkeys : CachedLinkSchema.keys.Nodup := by decide
  exact ⟨hkeys, trivial, trivial, trivial, trivial⟩

/-- **A link is read back from its text**, if the schema accepts it as it is. -/
theorem parseCachedLink_stringify {link valid : CachedLink}
    (h : CachedLinkSchema.safeParse acceptsUrl link.toJson = some valid) :
    parseCachedLink acceptsUrl (some (stringify valid.toJson)) = some valid := by
  rw [parseCachedLink_some, parse_stringify valid.distinct_toJson]
  exact CachedLinkSchema.safeParse_idem h

end Posta
