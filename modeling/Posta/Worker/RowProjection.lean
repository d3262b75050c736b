import Posta.Worker.Flush

/-!
# Rows that fit the events table

**Columns** (`ColumnType`). The types of `001_events.sql`. Text is any text without U+0000, an
integer has 32 bits.

**Theorem (`row_fits_iff`).** The row of a captured event fits the columns exactly when the ids
and the slug hold no U+0000, the network number is an integer of 32 bits, and the referer's host
is not the name of something that every object literal inherits.
-/

namespace Posta

open Js

/-! ## Columns -/

inductive ColumnType where
  | text
  | integer
  | boolean
deriving DecidableEq

/-- The type of a column in the `CREATE TABLE`. -/
def Column.type : Column → ColumnType
  | .asn => .integer
  | .isInApp => .boolean
  | _ => .text

/-- The columns declared `NOT NULL`, beside `occurred_at`. -/
def Column.notNull : Column → Bool
  | .eventId | .tenantId | .linkId | .slug => true
  | _ => false

/-- A value of Postgres's `integer`. -/
def JsNumber.isInt32 (n : JsNumber) : Bool :=
  n.isInteger && decide (-2147483648 ≤ JsNumber.truncate n ∧ JsNumber.truncate n ≤ 2147483647)

/-- A text without U+0000, or `null`. -/
def fitsText : JsValue → Bool
  | .json .null => true
  | .json (.str s) => !s.contains nul
  | _ => false

/-- An integer of 32 bits, or `null`. -/
def fitsInteger : JsValue → Bool
  | .json .null => true
  | .json (.num n) => JsNumber.isInt32 n
  | _ => false

def fitsBoolean : JsValue → Bool
  | .json (.bool _) => true
  | _ => false

def ColumnType.fits : ColumnType → JsValue → Bool
  | .text => fitsText
  | .integer => fitsInteger
  | .boolean => fitsBoolean

def isNull : JsValue → Bool
  | .json .null => true
  | _ => false

/-- The row fits the table, column by column. -/
structure NewEvent.Fits (r : NewEvent) : Prop where
  occurredAt : r.occurredAt ≠ none
  types : ∀ c : Column, c.type.fits (r.value c) = true
  notNull : ∀ c : Column, c.notNull = true → isNull (r.value c) = false

/-- What is assumed of the parsers: no text they return contains U+0000. -/
structure Platform.NulFree (P : Platform) : Prop where
  browserName : ∀ ua r s, P.userAgent ua = some r → r.browserName = some s → nul ∉ s
  browserVersion : ∀ ua r s, P.userAgent ua = some r → r.browserVersion = some s → nul ∉ s
  osName : ∀ ua r s, P.userAgent ua = some r → r.osName = some s → nul ∉ s
  hostname : ∀ text u, P.url text = some u → nul ∉ u.hostname

/-! ## Text columns -/

/-- A nullable text without U+0000. -/
def Clean (s : Option JsString) : Prop := ∀ t, s = some t → nul ∉ t

theorem fitsText_str {s : JsString} : fitsText (.json (.str s)) = true ↔ nul ∉ s := by
  simp [fitsText]

theorem fitsText_ofNullable {s : Option JsString} (h : Clean s) :
    fitsText (.ofNullable s) = true := by
  cases s with
  | none => rfl
  | some t => exact fitsText_str.mpr (h t rfl)

theorem clean_none : Clean none := by
  intro t h
  cases h

/-- Sanitizing makes any nullable text fit. -/
theorem fitsText_sanitized (e : LoggedEvent) {c : Column} (hc : c ∈ sanitizedColumns) :
    fitsText (e.columnValue c) = true := by
  obtain ⟨s, hs⟩ := get_sanitized e c hc
  have hcontains : sanitizedColumns.contains c = true := by simpa using hc
  rw [LoggedEvent.columnValue, hcontains, hs]
  cases s with
  | none => rfl
  | some t =>
    simp only [JsValue.ofNullable]
    split_ifs with hnul
    · rfl
    · simpa [fitsText] using hnul

/-- The other columns pass through. -/
theorem columnValue_of_not_sanitized (e : LoggedEvent) {c : Column} (hc : c ∉ sanitizedColumns) :
    e.columnValue c = e.get (.column c) := by
  have hcontains : sanitizedColumns.contains c = false := by simpa using hc
  rw [LoggedEvent.columnValue, hcontains]

theorem nul_not_mem_ulid (u : Ulid) : nul ∉ u.1 := by
  have hall : u.1.all isCrockford = true := (Bool.and_eq_true_iff.mp u.2).2
  intro hmem
  exact absurd (List.all_eq_true.mp hall nul hmem) (by decide)

/-! ## Enrichment -/

theorem nul_not_mem_lower {s : JsString} (h : nul ∉ s) : nul ∉ s.map asciiLower := by
  intro hmem
  obtain ⟨c, hc, hlower⟩ := List.mem_map.mp hmem
  have hspec := asciiLower_spec c
  rw [hlower, show nul.toNat = 0 from rfl] at hspec
  have hzero : c.toNat = 0 := by
    split_ifs at hspec
    exact hspec.symm
  have hnul : c = nul := UInt16.toNat_inj.mp hzero
  exact h (hnul ▸ hc)

theorem clean_destHost {P : Platform} (hP : P.NulFree) (text : JsString) :
    Clean (destHost P text) := by
  intro host hhost
  rw [destHost] at hhost
  split_ifs at hhost with hempty
  cases hurl : P.url text with
  | none =>
    rw [hurl] at hhost
    cases hhost
  | some u =>
    rw [hurl] at hhost
    dsimp only at hhost
    split_ifs at hhost with hnil
    cases hhost
    exact nul_not_mem_lower (hP.hostname text u hurl)

theorem clean_parseUserAgent {P : Platform} (hP : P.NulFree) (ua : Option JsString) :
    Clean (parseUserAgent P ua).browser ∧ Clean (parseUserAgent P ua).browserVersion ∧
      Clean (parseUserAgent P ua).os ∧ Clean (parseUserAgent P ua).deviceType := by
  have hnull : Clean allNullResult.browser ∧ Clean allNullResult.browserVersion ∧
      Clean allNullResult.os ∧ Clean allNullResult.deviceType :=
    ⟨clean_none, clean_none, clean_none, clean_none⟩
  cases ua with
  | none => exact hnull
  | some ua =>
    rw [parseUserAgent]
    split_ifs with hempty
    · exact hnull
    · cases hr : P.userAgent ua with
      | none => exact hnull
      | some r =>
        refine ⟨fun s => hP.browserName ua r s hr, fun s => hP.browserVersion ua r s hr,
          fun s => hP.osName ua r s hr, fun s hs => ?_⟩
        dsimp only at hs
        rw [normaliseDeviceType] at hs
        split_ifs at hs with hmobile hdesktop
        · rw [hs] at hmobile
          rcases hmobile with hmobile | hmobile <;> cases hmobile <;> decide
        · cases hs
          decide

theorem nul_not_mem_platformFromUa (ua : Option JsString) : nul ∉ platformFromUa ua := by
  have hmarkers : (uaMarkerPlatforms.all fun p => !p.2.contains nul) = true := by decide
  rw [platformFromUa.eq_def]
  cases ua with
  | none => decide
  | some ua =>
    dsimp only
    cases hfind : uaMarkerPlatforms.find? fun p => ua.includes p.1 with
    | none => decide
    | some p => simpa using List.all_eq_true.mp hmarkers p (List.mem_of_find?_eq_some hfind)

/-- A name that the referer table inherits rather than holds. -/
def isInherited (host : JsString) : Bool := host == lit "constructor" || host == lit "__proto__"

theorem fitsText_refererHostPlatform (host : JsString) :
    fitsText (refererHostPlatform host) = true ∨
      refererHostPlatform host = .undefined ∨ isInherited host = true := by
  have htable : (refererHostPlatforms.all fun p => !p.2.contains nul) = true := by decide
  rw [refererHostPlatform]
  cases hfind : refererHostPlatforms.find? fun p => p.1 = host with
  | some p =>
    left
    exact List.all_eq_true.mp htable p (List.mem_of_find?_eq_some hfind)
  | none =>
    dsimp only
    split_ifs with hconstructor hproto
    · right; right
      simp [isInherited, hconstructor]
    · right; right
      simp [isInherited, hproto]
    · right; left
      rfl

/-- An inherited name yields no text. -/
theorem refererHostPlatform_inherited {host : JsString} (h : isInherited host = true) :
    refererHostPlatform host = .objectConstructor ∨ refererHostPlatform host = .objectPrototype := by
  have hcases : host = lit "constructor" ∨ host = lit "__proto__" := by
    simpa [isInherited] using h
  rcases hcases with rfl | rfl
  · left
    rfl
  · right
    rfl

/-- The source platform is a text unless the referer's host is inherited. -/
theorem fitsText_resolveSourcePlatform_iff (P : Platform) (referer ua : Option JsString) :
    fitsText (resolveSourcePlatform P referer ua) = true ↔
      ∀ host, referer.bind (destHost P) = some host → isInherited host = false := by
  rw [resolveSourcePlatform]
  cases hhost : referer.bind (destHost P) with
  | none => simp [fitsText, nul_not_mem_platformFromUa]
  | some host =>
    dsimp only
    constructor
    · rintro hfits _ ⟨⟩
      by_contra hinherited
      have hinherited : isInherited host = true := by simpa using hinherited
      rcases refererHostPlatform_inherited hinherited with hp | hp
      · rw [hp] at hfits
        cases hfits
      · rw [hp] at hfits
        cases hfits
    · intro hnot
      rcases fitsText_refererHostPlatform host with hfits | hundefined | hinherited
      · cases hp : refererHostPlatform host <;> rw [hp] at hfits <;> first | exact hfits | cases hfits
      · rw [hundefined]
        exact fitsText_str.mpr (nul_not_mem_platformFromUa ua)
      · rw [hnot host rfl] at hinherited
        cases hinherited

/-! ## Rows -/

/-- The condition on the event. -/
structure CaptureEvent.Projectable (P : Platform) (e : CaptureEvent) : Prop where
  tenantId : nul ∉ e.tenantId.1
  linkId : nul ∉ e.linkId.1
  slug : nul ∉ e.slug.1
  asn : ∀ n, e.asn = some n → JsNumber.isInt32 n = true
  referer : ∀ host, e.referer.bind (destHost P) = some host → isInherited host = false

theorem fitsInteger_nullableNumber (n : Option JsNumber) :
    fitsInteger (.json (CaptureEvent.nullableNumber n)) = true ↔
      ∀ m, n = some m → JsNumber.isInt32 m = true := by
  cases n <;> simp [CaptureEvent.nullableNumber, fitsInteger]

/-- The row of the event fits the table. -/
def RowFits (P : Platform) (e : CaptureEvent) (destination : Option JsString) : Prop :=
  ∃ row, toNewEventRow P (toLoggedEvent P e destination).get = .ok row ∧ row.Fits

theorem rowFits_iff_newEvent (P : Platform) (e : CaptureEvent) (destination : Option JsString) :
    RowFits P e destination ↔ (toLoggedEvent P e destination).newEvent.Fits := by
  rw [RowFits, toNewEventRow_get]
  constructor
  · rintro ⟨_, hrow, hfits⟩
    cases hrow
    exact hfits
  · exact fun hfits => ⟨_, rfl, hfits⟩

theorem projectable_of_fits {P : Platform} {e : CaptureEvent} {destination : Option JsString}
    (h : (toLoggedEvent P e destination).newEvent.Fits) : e.Projectable P where
  tenantId := fitsText_str.mp (h.types .tenantId)
  linkId := fitsText_str.mp (h.types .linkId)
  slug := fitsText_str.mp (h.types .slug)
  asn := (fitsInteger_nullableNumber e.asn).mp (h.types .asn)
  referer := (fitsText_resolveSourcePlatform_iff P e.referer e.userAgent).mp
    (h.types .sourcePlatform)

theorem types_of_projectable {P : Platform} (hP : P.NulFree) {e : CaptureEvent}
    (h : e.Projectable P) (destination : Option JsString) (c : Column) :
    c.type.fits ((toLoggedEvent P e destination).columnValue c) = true := by
  obtain ⟨hbrowser, hversion, hos, hdevice⟩ := clean_parseUserAgent hP e.userAgent
  have hhost : Clean (enrich P e.userAgent e.referer destination).destHost := by
    cases destination with
    | none => exact clean_none
    | some d =>
      intro s hs
      simp only [enrich, Option.bind_some] at hs
      split_ifs at hs
      exact clean_destHost hP d s hs
  by_cases hc : c ∈ sanitizedColumns
  · have htype : c.type = .text := by revert hc; cases c <;> decide
    rw [htype]
    exact fitsText_sanitized _ hc
  · rw [columnValue_of_not_sanitized _ hc]
    cases c with
    | eventId => exact fitsText_str.mpr (nul_not_mem_ulid e.eventId)
    | tenantId => exact fitsText_str.mpr h.tenantId
    | linkId => exact fitsText_str.mpr h.linkId
    | slug => exact fitsText_str.mpr h.slug
    | asn => exact (fitsInteger_nullableNumber e.asn).mpr h.asn
    | browser => exact fitsText_ofNullable hbrowser
    | browserVersion => exact fitsText_ofNullable hversion
    | os => exact fitsText_ofNullable hos
    | deviceType => exact fitsText_ofNullable hdevice
    | sourcePlatform =>
      exact (fitsText_resolveSourcePlatform_iff P e.referer e.userAgent).mpr h.referer
    | isInApp => rfl
    | destHost => exact fitsText_ofNullable hhost
    | _ => exact absurd (by decide) hc

theorem fits_of_projectable {P : Platform} (hP : P.NulFree) {e : CaptureEvent}
    (h : e.Projectable P) (destination : Option JsString) :
    (toLoggedEvent P e destination).newEvent.Fits where
  occurredAt := by
    intro hnone
    cases hnone
  types := types_of_projectable hP h destination
  notNull c hc := by
    cases c <;> first | rfl | cases hc

/-- **Theorem (`row_fits_iff`).** -/
theorem row_fits_iff (P : Platform) (hP : P.NulFree) (e : CaptureEvent)
    (destination : Option JsString) : RowFits P e destination ↔ e.Projectable P := by
  rw [rowFits_iff_newEvent]
  exact ⟨projectable_of_fits, fun h => fits_of_projectable hP h destination⟩

/-- A browser inside an app, as it names itself. -/
def inAppUserAgent : JsString :=
  lit ("Mozilla/5.0 (iPhone; CPU iPhone OS 17_5 like Mac OS X) AppleWebKit/605.1.15 " ++
    "(KHTML, like Gecko) Mobile/15E148 Instagram 330.0.0")

/-- A platform whose parsers read one user agent and two URLs. -/
def inAppPlatform : Platform where
  otherDate _ := none
  url text :=
    if text = lit "https://l.instagram.com/" then
      some ⟨lit "https:", [], [], lit "l.instagram.com", lit "l.instagram.com", lit "/", [], []⟩
    else if text = lit "https://shop.example/boots" then
      some ⟨lit "https:", [], [], lit "shop.example", lit "shop.example", lit "/boots", [], []⟩
    else none
  userAgent text :=
    if text = inAppUserAgent then
      some ⟨some (lit "Instagram"), some (lit "330.0.0"), some (lit "iOS"), some (lit "mobile")⟩
    else none

theorem nulFree_inAppPlatform : inAppPlatform.NulFree where
  browserName ua r s hr hs := by
    obtain ⟨-, hr⟩ := Option.ite_none_right_eq_some.mp hr
    cases hr
    cases hs
    decide
  browserVersion ua r s hr hs := by
    obtain ⟨-, hr⟩ := Option.ite_none_right_eq_some.mp hr
    cases hr
    cases hs
    decide
  osName ua r s hr hs := by
    obtain ⟨-, hr⟩ := Option.ite_none_right_eq_some.mp hr
    cases hr
    cases hs
    decide
  hostname text u hu := by
    dsimp only [inAppPlatform] at hu
    split_ifs at hu <;> (cases hu; decide)

/-- A visit from the app, with the headers of its browser. -/
def inAppVisit : CaptureEvent :=
  { CaptureEvent.plain (lit "boots") with
    httpMethod := some (lit "GET")
    userAgent := some inAppUserAgent
    referer := some (lit "https://l.instagram.com/")
    accept := some (lit "text/html")
    acceptLanguage := some (lit "es-AR")
    secFetchSite := some (lit "cross-site")
    country := some (lit "AR")
    asn := some (JsNumber.ofNat 7303)
    visitorHash := some (lit "5f0c") }

theorem row_fits_inAppVisit :
    RowFits inAppPlatform inAppVisit (some (lit "https://shop.example/boots")) ∧
      resolveSourcePlatform inAppPlatform inAppVisit.referer inAppVisit.userAgent =
        .json (.str (lit "instagram")) :=
  ⟨(row_fits_iff inAppPlatform nulFree_inAppPlatform inAppVisit _).mpr
    { tenantId := by decide
      linkId := by decide
      slug := by decide
      asn := by
        intro n h
        obtain rfl := Option.some.inj h
        decide
      referer := by
        intro host h
        obtain rfl := Option.some.inj h
        decide }, by rfl⟩

theorem nulFree_plain : Platform.plain.NulFree where
  browserName _ _ _ h := by cases h
  browserVersion _ _ _ h := by cases h
  osName _ _ _ h := by cases h
  hostname _ _ h := by cases h

/-- **A slug with U+0000** is accepted by the schema and does not fit its column. -/
theorem row_fits_nul_slug : Platform.plain.NulFree ∧
    CaptureEventSchema.safeParse (CaptureEvent.plain [nul]).toJson =
      some (CaptureEvent.plain [nul]) ∧
    ¬ RowFits Platform.plain (CaptureEvent.plain [nul]) none := by
  refine ⟨nulFree_plain, CaptureEventSchema.safeParse_toJson _, ?_⟩
  rw [rowFits_iff_newEvent]
  intro hfits
  have hslug : nul ∉ (CaptureEvent.plain [nul]).slug.1 := (projectable_of_fits hfits).slug
  exact absurd hslug (by decide)

end Posta
