import Posta.Contracts.Capture
import Posta.Core.Platform
import Posta.Js.Strings

/-!
# Enrichment

What the worker derives from a captured event and the destination of its link: the parsed user
agent, the platform the visitor came from, and the host of the destination.

**The referer table** is an object literal, so a lookup by an arbitrary host also finds what every
object inherits. Hosts are in lower case, which leaves `constructor` and `__proto__`.

**Theorem (`inVocabulary_iff`).** The source platform is one of the six values, taken from the
host or from a marker of an in-app browser, exactly when the host is neither of the two.
-/

namespace Posta

open Js

def destHost (P : Platform) (destination : JsString) : Option JsString :=
  if destination = [] then none
  else match P.url destination with
    | none => none
    | some url =>
      -- the URL parser returns ASCII
      let hostname := url.hostname.map asciiLower
      if hostname = [] then none else some hostname

/-- `REFERER_HOST_PLATFORMS`. -/
def refererHostPlatforms : List (JsString × JsString) :=
  [(lit "instagram.com", lit "instagram"), (lit "www.instagram.com", lit "instagram"),
    (lit "l.instagram.com", lit "instagram"), (lit "facebook.com", lit "facebook"),
    (lit "www.facebook.com", lit "facebook"), (lit "m.facebook.com", lit "facebook"),
    (lit "l.facebook.com", lit "facebook"), (lit "lm.facebook.com", lit "facebook"),
    (lit "twitter.com", lit "x"), (lit "www.twitter.com", lit "x"), (lit "x.com", lit "x"),
    (lit "www.x.com", lit "x"), (lit "t.co", lit "x"), (lit "tiktok.com", lit "tiktok"),
    (lit "www.tiktok.com", lit "tiktok"), (lit "vm.tiktok.com", lit "tiktok"),
    (lit "wa.me", lit "whatsapp"), (lit "web.whatsapp.com", lit "whatsapp"),
    (lit "com.whatsapp", lit "whatsapp")]

/-- `REFERER_HOST_PLATFORMS[host]`, with what the object inherits. -/
def refererHostPlatform (host : JsString) : JsValue :=
  match refererHostPlatforms.find? fun p => p.1 = host with
  | some (_, platform) => .json (.str platform)
  | none =>
    if host = lit "constructor" then .objectConstructor
    else if host = lit "__proto__" then .objectPrototype
    else .undefined

/-- `UA_MARKER_PLATFORMS`. -/
def uaMarkerPlatforms : List (JsString × JsString) :=
  [(lit "Instagram", lit "instagram"), (lit "FBAN", lit "facebook"), (lit "FBAV", lit "facebook"),
    (lit "TikTok", lit "tiktok")]

/-- The platform of the user agent, and the fallback. -/
def platformFromUa (ua : Option JsString) : JsString :=
  match ua with
  | none => lit "directo"
  | some ua =>
    match uaMarkerPlatforms.find? fun p => ua.includes p.1 with
    | some (_, platform) => platform
    | none => lit "directo"

def resolveSourcePlatform (P : Platform) (referer ua : Option JsString) : JsValue :=
  match referer.bind (destHost P) with
  | some refererHost =>
    match refererHostPlatform refererHost with
    | .undefined => .json (.str (platformFromUa ua))
    | platform => platform
  | none => .json (.str (platformFromUa ua))

/-- `IN_APP_MARKERS`. -/
def inAppMarkers : List JsString :=
  [lit "Instagram", lit "FBAN", lit "FBAV", lit "TikTok", lit "BytedanceWebview", lit "Line"]

def isInApp : Option JsString → Bool
  | none => false
  | some ua => inAppMarkers.any fun marker => ua.includes marker

structure ParsedUserAgent where
  browser : Option JsString
  browserVersion : Option JsString
  os : Option JsString
  deviceType : Option JsString

def allNullResult : ParsedUserAgent := ⟨none, none, none, none⟩

def normaliseDeviceType (deviceType browserName : Option JsString) : Option JsString :=
  if deviceType = some (lit "mobile") ∨ deviceType = some (lit "tablet") then deviceType
  else if deviceType = none ∧ browserName ≠ none then some (lit "desktop")
  else none

def parseUserAgent (P : Platform) (ua : Option JsString) : ParsedUserAgent :=
  match ua with
  | none => allNullResult
  | some ua =>
    if ua = [] then allNullResult
    else match P.userAgent ua with
      | none => allNullResult
      | some r => ⟨r.browserName, r.browserVersion, r.osName,
          normaliseDeviceType r.deviceType r.browserName⟩

structure EnrichmentResult where
  browser : Option JsString
  browserVersion : Option JsString
  os : Option JsString
  deviceType : Option JsString
  sourcePlatform : JsValue
  isInApp : Bool
  destHost : Option JsString

def enrich (P : Platform) (userAgent referer destination : Option JsString) : EnrichmentResult :=
  let parsed := parseUserAgent P userAgent
  { browser := parsed.browser
    browserVersion := parsed.browserVersion
    os := parsed.os
    deviceType := parsed.deviceType
    sourcePlatform := resolveSourcePlatform P referer userAgent
    isInApp := isInApp userAgent
    destHost := destination.bind fun d => if d = [] then none else destHost P d }

/-! ## The vocabulary of the source platform -/

/-- The values of `SourcePlatformValue`. -/
def sourcePlatformValues : List JsString :=
  [lit "instagram", lit "whatsapp", lit "tiktok", lit "facebook", lit "x", lit "directo"]

theorem refererPlatform_mem_values : ∀ p ∈ refererHostPlatforms, p.2 ∈ sourcePlatformValues := by
  decide

theorem uaPlatform_mem_values : ∀ p ∈ uaMarkerPlatforms, p.2 ∈ sourcePlatformValues := by
  decide

/-- Each marker that names a platform is a marker of an in-app browser. -/
theorem uaMarker_mem_inAppMarkers : ∀ p ∈ uaMarkerPlatforms, p.1 ∈ inAppMarkers := by
  decide

theorem platformFromUa_mem_values (ua : Option JsString) :
    platformFromUa ua ∈ sourcePlatformValues := by
  cases ua with
  | none => decide
  | some ua =>
    cases h : uaMarkerPlatforms.find? fun p => ua.includes p.1 with
    | none =>
      simp only [platformFromUa, h]
      decide
    | some p =>
      simp only [platformFromUa, h]
      exact uaPlatform_mem_values p (List.mem_of_find?_eq_some h)

/-- A platform named by the user agent is that of an in-app browser. -/
theorem isInApp_of_platformFromUa {ua : Option JsString} (h : platformFromUa ua ≠ lit "directo") :
    isInApp ua = true := by
  cases ua with
  | none => exact absurd rfl h
  | some ua =>
    cases hfind : uaMarkerPlatforms.find? fun p => ua.includes p.1 with
    | none =>
      simp only [platformFromUa, hfind] at h
      exact absurd rfl h
    | some p =>
      have hmarker := uaMarker_mem_inAppMarkers p (List.mem_of_find?_eq_some hfind)
      have hincludes := List.find?_some hfind
      rw [isInApp, List.any_eq_true]
      exact ⟨p.1, hmarker, hincludes⟩

/-- A lookup finds an entry of the table, one of the two inherited properties, or nothing. -/
theorem refererHostPlatform_cases (host : JsString) :
    (∃ platform, (host, platform) ∈ refererHostPlatforms ∧
      refererHostPlatform host = .json (.str platform)) ∨
    (host = lit "constructor" ∧ refererHostPlatform host = .objectConstructor) ∨
    (host = lit "__proto__" ∧ refererHostPlatform host = .objectPrototype) ∨
    ((∀ platform, (host, platform) ∉ refererHostPlatforms) ∧ host ≠ lit "constructor" ∧
      host ≠ lit "__proto__" ∧ refererHostPlatform host = .undefined) := by
  cases h : refererHostPlatforms.find? fun p => p.1 = host with
  | some p =>
    have hhost : p.1 = host := by simpa using List.find?_some h
    refine Or.inl ⟨p.2, ?_, by simp only [refererHostPlatform, h]⟩
    rw [← hhost]
    exact List.mem_of_find?_eq_some h
  | none =>
    have hno : ∀ platform, (host, platform) ∉ refererHostPlatforms := fun platform hm => by
      simpa using List.find?_eq_none.mp h _ hm
    simp only [refererHostPlatform, h]
    by_cases hc : host = lit "constructor"
    · exact Or.inr (Or.inl ⟨hc, if_pos hc⟩)
    · rw [if_neg hc]
      by_cases hp : host = lit "__proto__"
      · exact Or.inr (Or.inr (Or.inl ⟨hp, if_pos hp⟩))
      · exact Or.inr (Or.inr (Or.inr ⟨hno, hc, hp, if_neg hp⟩))

/-- What the source platform is promised to be. -/
structure InVocabulary (P : Platform) (referer ua : Option JsString) : Prop where
  named : ∃ value ∈ sourcePlatformValues, resolveSourcePlatform P referer ua = .json (.str value)
  /-- An unlisted host is as no referer. -/
  unlisted : (∀ host platform, referer.bind (destHost P) = some host →
    (host, platform) ∉ refererHostPlatforms) →
      resolveSourcePlatform P referer ua = resolveSourcePlatform P none ua
  /-- A platform that is not that of the host is that of an in-app browser. -/
  marked : ∀ value, resolveSourcePlatform P referer ua = .json (.str value) →
    value ≠ lit "directo" →
    (∀ host, referer.bind (destHost P) = some host → (host, value) ∉ refererHostPlatforms) →
      isInApp ua = true

/-- A result taken from the user agent is in the vocabulary. -/
theorem inVocabulary_of_ua {P : Platform} {referer ua : Option JsString}
    (h : resolveSourcePlatform P referer ua = .json (.str (platformFromUa ua))) :
    InVocabulary P referer ua := by
  refine ⟨⟨_, platformFromUa_mem_values ua, h⟩, fun _ => h, fun value hvalue hdirecto _ => ?_⟩
  rw [h, JsValue.json.injEq, Json.str.injEq] at hvalue
  exact isInApp_of_platformFromUa (hvalue ▸ hdirecto)

/-- **Theorem (`inVocabulary_iff`).** The source platform keeps to its vocabulary exactly when the
host of the referer is not a name that the table inherits. -/
theorem inVocabulary_iff {P : Platform} {referer ua : Option JsString} :
    InVocabulary P referer ua ↔
      referer.bind (destHost P) ≠ some (lit "constructor") ∧
        referer.bind (destHost P) ≠ some (lit "__proto__") := by
  cases hhost : referer.bind (destHost P) with
  | none =>
    have hres : resolveSourcePlatform P referer ua = .json (.str (platformFromUa ua)) := by
      simp only [resolveSourcePlatform, hhost]
    exact iff_of_true (inVocabulary_of_ua hres) ⟨nofun, nofun⟩
  | some host =>
    simp only [ne_eq, Option.some.injEq]
    obtain ⟨platform, hmem, hlook⟩ | ⟨rfl, hlook⟩ | ⟨rfl, hlook⟩ | ⟨-, hc, hp, hlook⟩ :=
      refererHostPlatform_cases host
    · have hres : resolveSourcePlatform P referer ua = .json (.str platform) := by
        simp only [resolveSourcePlatform, hhost, hlook]
      refine iff_of_true ⟨⟨platform, refererPlatform_mem_values _ hmem, hres⟩, fun hno => ?_,
        fun value hvalue _ hno => ?_⟩ ⟨?_, ?_⟩
      · exact absurd hmem (hno host platform hhost)
      · rw [hres, JsValue.json.injEq, Json.str.injEq] at hvalue
        exact absurd (hvalue ▸ hmem) (hno host hhost)
      · rintro rfl
        cases hlook
      · rintro rfl
        cases hlook
    · refine iff_of_false (fun hv => ?_) fun h => h.1 rfl
      obtain ⟨value, -, hvalue⟩ := hv.named
      simp only [resolveSourcePlatform, hhost, hlook] at hvalue
      cases hvalue
    · refine iff_of_false (fun hv => ?_) fun h => h.2 rfl
      obtain ⟨value, -, hvalue⟩ := hv.named
      simp only [resolveSourcePlatform, hhost, hlook] at hvalue
      cases hvalue
    · have hres : resolveSourcePlatform P referer ua = .json (.str (platformFromUa ua)) := by
        simp only [resolveSourcePlatform, hhost, hlook]
      exact iff_of_true (inVocabulary_of_ua hres) ⟨hc, hp⟩

/-- A referer on the host `constructor` yields the constructor of objects. -/
theorem resolveSourcePlatform_constructor :
    ∃ P : Platform, (P.url (lit "http://constructor/")).map Url.hostname =
        some (lit "constructor") ∧
      resolveSourcePlatform P (some (lit "http://constructor/")) none = .objectConstructor ∧
      ¬ InVocabulary P (some (lit "http://constructor/")) none := by
  let referer := lit "http://constructor/"
  let url : Url := ⟨lit "http:", [], [], lit "constructor", lit "constructor", lit "/", [], []⟩
  let P : Platform := { Platform.plain with
    url := fun text => if text = referer then some url else none }
  have hres : resolveSourcePlatform P (some referer) none = .objectConstructor := rfl
  refine ⟨P, rfl, hres, fun h => ?_⟩
  obtain ⟨value, -, hvalue⟩ := h.named
  rw [hres] at hvalue
  cases hvalue

end Posta
