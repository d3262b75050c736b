import Posta.Contracts.Slugs
import Posta.Js.Value

/-!
# The hosts of a deployment

Every link lives below a handle, and every handle is a label directly below the domain. The host of
a URL is assembled here, and the handle of a host is read back here.

**Reading** (`parseHandleFromHost_iff`). A host has a handle exactly where it is, in lower case and
trimmed, a label of at most 63 code units that is not a reserved subdomain, then the domain, then at
most one dot and at most one numeric port.

**Theorem (`handle_round_trip_iff`).** A handle that a URL was built for is read back exactly where
it has at most 63 code units, which the builder does not check; a handle that was read can be built
for, and is read back.
-/

namespace Posta

open Js

inductive Protocol where
  | http
  | https

def Protocol.text : Protocol → JsString
  | http => lit "http"
  | https => lit "https"

/-- `lower` is `toLowerCase` of text that is not ASCII. -/
structure DomainConfig where
  domain : JsString
  protocol : Protocol
  appSubdomain : JsString
  apiSubdomain : JsString
  lower : JsString → JsString

def handleMaxLength : Nat := 63

/-- A `:port` suffix is stripped where it is numeric. -/
def stripPort (host : JsString) : JsString :=
  match splitAtLast (unit ':') host with
  | none => host
  | some (before, maybePort) =>
    if maybePort ≠ [] ∧ maybePort.all isDigit then before else host

/-- The dot of the DNS root. -/
def stripRootDot (host : JsString) : JsString :=
  if host.getLast? = some (unit '.') then host.dropLast else host

namespace DomainConfig

variable (config : DomainConfig)

def normalizeLabel (value : JsString) : JsString := toLowerCase config.lower (trim value)

/-- The normalized domain and subdomains. -/
def domainLabel : JsString := config.normalizeLabel config.domain

def domainSuffix : JsString := unit '.' :: config.domainLabel

def isReservedSubdomain (label : JsString) : Bool :=
  label = config.normalizeLabel config.appSubdomain ||
    label = config.normalizeLabel config.apiSubdomain

def assertClaimableHandle (handle : JsString) : Except Thrown JsString :=
  let normalized := config.normalizeLabel handle
  if !matchesLabel normalized then
    throw (.new (lit "Invalid handle: \"" ++ handle ++ lit "\""))
  else if config.isReservedSubdomain normalized then
    throw (.new (lit "Handle \"" ++ handle ++
      lit ("\" collides with this deployment's app/api host " ++
        "(POSTA_APP_SUBDOMAIN/POSTA_API_SUBDOMAIN) and cannot be used. " ++
        "This does not check the full reserved-handle list — that gate " ++
        "lives at handle creation time (S5.3).")))
  else pure normalized

def hostFor (label : JsString) : JsString := label ++ config.domainSuffix

def originFor (hostname : JsString) : JsString := config.protocol.text ++ lit "://" ++ hostname

def buildLinkUrl (handle slug : JsString) : Except Thrown JsString := do
  let normalizedHandle ← config.assertClaimableHandle handle
  let normalizedSlug := trim slug
  if normalizedSlug = [] then throw (.new (lit "slug must not be empty"))
  pure (config.originFor (config.hostFor normalizedHandle) ++ lit "/" ++ normalizedSlug)

def buildBioUrl (handle : JsString) : Except Thrown JsString := do
  let normalizedHandle ← config.assertClaimableHandle handle
  pure (config.originFor (config.hostFor normalizedHandle) ++ lit "/")

def parseHandleFromHost (rawHost : JsString) : Option JsString :=
  let host := stripRootDot (stripPort (config.normalizeLabel rawHost))
  if host = [] then none
  else if host = config.domainLabel then none
  else if ¬ config.domainSuffix.isSuffixOf host then none
  else
    let label := host.take (host.length - config.domainSuffix.length)
    if label = [] ∨ handleMaxLength < label.length then none
    else if !matchesLabel label then none
    else if config.isReservedSubdomain label then none
    else some label

end DomainConfig

/-! ## Names -/

/-- A letter, a digit or a dash. -/
def isDnsUnit (c : CodeUnit) : Bool := isLabelUnit (asciiLower c)

def IsDnsLabel (label : JsString) : Prop := label ≠ [] ∧ ∀ c ∈ label, isDnsUnit c = true

/-- Labels with a dot between them. -/
inductive IsDomainName : JsString → Prop
  | label {label : JsString} : IsDnsLabel label → IsDomainName label
  | dot {label name : JsString} : IsDnsLabel label → IsDomainName name →
      IsDomainName (label ++ unit '.' :: name)

/-- What may stand behind the name in a `Host` header: the dot of the root, and a port. -/
inductive IsHostSuffix : JsString → Prop
  | plain : IsHostSuffix []
  | dot : IsHostSuffix [unit '.']
  | port {digits : JsString} : digits ≠ [] → (∀ c ∈ digits, isDigit c = true) →
      IsHostSuffix (unit ':' :: digits)
  | dotPort {digits : JsString} : digits ≠ [] → (∀ c ∈ digits, isDigit c = true) →
      IsHostSuffix (unit '.' :: unit ':' :: digits)

/-- A label unit or a dot. -/
def isHostUnit (c : CodeUnit) : Bool := isLabelUnit c || c == unit '.'

theorem host_unit_cases {c : CodeUnit} (h : isHostUnit c = true) :
    isLabelUnit c = true ∨ c = unit '.' := by
  simpa [isHostUnit] using h

theorem plain_of_hostUnit {c : CodeUnit} (h : isHostUnit c = true) :
    isAscii c = true ∧ asciiLower c = c ∧ isWhiteSpace c = false ∧ c ≠ unit ':' := by
  rcases host_unit_cases h with h | rfl
  · refine ⟨ascii_of_label h, lower_of_label h, not_space_of_label h, ?_⟩
    rintro rfl
    cases h
  · decide

theorem dnsUnit_spec {c : CodeUnit} (h : isDnsUnit c = true) :
    isAscii c = true ∧ isWhiteSpace c = false := by
  unfold isDnsUnit at h
  rw [label_iff, asciiLower_spec] at h
  have hlt : 0x20 < c.toNat ∧ c.toNat < 0x80 := by
    split_ifs at h <;> omega
  exact ⟨decide_eq_true hlt.2, not_space_of_graphic hlt⟩

/-- A domain name in lower case is one for `parseHandleFromHost` as it stands. -/
structure PlainName (name : JsString) : Prop where
  units : ∀ c ∈ name, isHostUnit c = true
  not_dot : name.getLast? ≠ some (unit '.')
  ne_nil : name ≠ []

theorem plain_label {label : JsString} (h : IsDnsLabel label) :
    PlainName (label.map asciiLower) := by
  have hunits : ∀ c ∈ label.map asciiLower, isLabelUnit c = true := by
    intro c hc
    obtain ⟨d, hd, rfl⟩ := List.mem_map.1 hc
    exact h.2 d hd
  refine ⟨?_, ?_, by simpa using h.1⟩
  · intro c hc
    simp [isHostUnit, hunits c hc]
  · intro hlast
    have := hunits _ (List.mem_of_getLast? hlast)
    cases this

theorem PlainName.dot {label name : JsString} (hlabel : ∀ c ∈ label, isHostUnit c = true)
    (h : PlainName name) : PlainName (label ++ unit '.' :: name) := by
  refine ⟨?_, ?_, by simp⟩
  · intro c hc
    rcases List.mem_append.1 hc with hc | hc
    · exact hlabel c hc
    rcases List.mem_cons.1 hc with rfl | hc
    · rfl
    · exact h.units c hc
  · rw [List.getLast?_append_of_ne_nil _ (List.cons_ne_nil _ _),
      List.getLast?_cons_of_ne_nil h.ne_nil]
    exact h.not_dot

theorem plain_domain {name : JsString} (h : IsDomainName name) : PlainName (name.map asciiLower) := by
  induction h with
  | label hlabel => exact plain_label hlabel
  | dot hlabel _ ih =>
    rw [List.map_append, List.map_cons]
    exact .dot (plain_label hlabel).units ih

theorem dnsUnit_of_mem {name : JsString} (h : IsDomainName name) {c : CodeUnit} (hc : c ∈ name) :
    isAscii c = true ∧ isWhiteSpace c = false := by
  induction h with
  | label hlabel => exact dnsUnit_spec (hlabel.2 c hc)
  | dot hlabel _ ih =>
    rcases List.mem_append.1 hc with hc | hc
    · exact dnsUnit_spec (hlabel.2 c hc)
    rcases List.mem_cons.1 hc with rfl | hc
    · decide
    · exact ih hc

/-! ## Stripping -/

theorem stripPort_of_not_mem {host : JsString} (h : unit ':' ∉ host) : stripPort host = host := by
  rw [stripPort, splitAtLast_eq_none_iff.2 h]

theorem stripPort_port {host digits : JsString} (hne : digits ≠ [])
    (hdigits : ∀ c ∈ digits, isDigit c = true) : stripPort (host ++ unit ':' :: digits) = host := by
  have hmem : unit ':' ∉ digits := by
    intro hc
    cases hdigits _ hc
  rw [stripPort, splitAtLast_append host hmem]
  exact if_pos ⟨hne, List.all_eq_true.2 hdigits⟩

theorem stripPort_cases (host : JsString) : host = stripPort host ∨
    ∃ digits, digits ≠ [] ∧ (∀ c ∈ digits, isDigit c = true) ∧
      host = stripPort host ++ unit ':' :: digits := by
  unfold stripPort
  cases h : splitAtLast (unit ':') host with
  | none => exact .inl rfl
  | some p =>
    obtain ⟨before, maybePort⟩ := p
    dsimp only
    by_cases hport : maybePort ≠ [] ∧ maybePort.all isDigit
    · rw [if_pos hport]
      exact .inr ⟨maybePort, hport.1, List.all_eq_true.1 hport.2, (of_splitAtLast h).1⟩
    · rw [if_neg hport]
      exact .inl rfl

theorem stripRootDot_of_not {host : JsString} (h : host.getLast? ≠ some (unit '.')) :
    stripRootDot host = host := if_neg h

theorem stripRootDot_dot (host : JsString) : stripRootDot (host ++ [unit '.']) = host := by
  rw [stripRootDot, if_pos (by simp), List.dropLast_concat]

theorem stripRootDot_cases (host : JsString) :
    host = stripRootDot host ∨ host = stripRootDot host ++ [unit '.'] := by
  unfold stripRootDot
  by_cases h : host.getLast? = some (unit '.')
  · rw [if_pos h]
    exact .inr (List.dropLast_append_getLast? _ h).symm
  · rw [if_neg h]
    exact .inl rfl

/-- Stripping takes a suffix off, and nothing else. -/
theorem strip_iff {name host : JsString} (h : PlainName name) :
    stripRootDot (stripPort host) = name ↔ ∃ suffix, IsHostSuffix suffix ∧ host = name ++ suffix := by
  have hcolon : unit ':' ∉ name := fun hc => (plain_of_hostUnit (h.units _ hc)).2.2.2 rfl
  constructor
  · intro hname
    rcases stripPort_cases host with hport | ⟨digits, hne, hdigits, hport⟩ <;>
      rcases stripRootDot_cases (stripPort host) with hdot | hdot <;> rw [hname] at hdot <;>
        rw [hdot] at hport
    · exact ⟨[], .plain, by simpa using hport⟩
    · exact ⟨_, .dot, hport⟩
    · exact ⟨_, .port hne hdigits, hport⟩
    · exact ⟨_, .dotPort hne hdigits, by simpa using hport⟩
  · rintro ⟨suffix, hsuffix, rfl⟩
    cases hsuffix with
    | plain =>
      rw [List.append_nil, stripPort_of_not_mem hcolon, stripRootDot_of_not h.not_dot]
    | dot =>
      rw [stripPort_of_not_mem, stripRootDot_dot]
      simp [hcolon]
      decide
    | port hne hdigits => rw [stripPort_port hne hdigits, stripRootDot_of_not h.not_dot]
    | dotPort hne hdigits =>
      rw [← List.singleton_append, ← List.append_assoc, stripPort_port hne hdigits, stripRootDot_dot]

/-! ## Handles of hosts -/

namespace DomainConfig

variable {config : DomainConfig} {host handle : JsString}

/-- A label that may stand in front of the domain. -/
structure Claimable (config : DomainConfig) (handle : JsString) : Prop where
  label : matchesLabel handle = true
  free : config.isReservedSubdomain handle = false

theorem Claimable.units (h : config.Claimable handle) {c : CodeUnit} (hc : c ∈ handle) :
    isHostUnit c = true := by
  simp [isHostUnit, label_of_matches h.label hc]

theorem domainLabel_eq (hdomain : IsDomainName config.domain) :
    config.domainLabel = config.domain.map asciiLower := by
  unfold domainLabel normalizeLabel
  rw [trim_of_all fun c hc => (dnsUnit_of_mem hdomain hc).2]
  exact toLowerCase_ascii _ fun c hc => (dnsUnit_of_mem hdomain hc).1

theorem plain_host (hdomain : IsDomainName config.domain) (h : config.Claimable handle) :
    PlainName (config.hostFor handle) := by
  unfold hostFor domainSuffix
  rw [domainLabel_eq hdomain]
  exact .dot (fun c hc => h.units hc) (plain_domain hdomain)

/-- **What `parseHandleFromHost` reads.** -/
theorem parseHandleFromHost_iff (hdomain : IsDomainName config.domain) :
    config.parseHandleFromHost host = some handle ↔
      (∃ suffix, IsHostSuffix suffix ∧
        config.normalizeLabel host = config.hostFor handle ++ suffix) ∧
      config.Claimable handle ∧ handle.length ≤ handleMaxLength := by
  constructor
  · intro h
    unfold parseHandleFromHost at h
    dsimp only at h
    split_ifs at h with hnil hapex hsuffix hlength hlabel hfree
    obtain ⟨label, hlabel'⟩ := List.isSuffixOf_iff_suffix.1 hsuffix
    rw [← hlabel', List.length_append, Nat.add_sub_cancel, List.take_left] at hlength hlabel hfree h
    obtain rfl := Option.some.inj h
    have hclaimable : config.Claimable label := ⟨by simpa using hlabel, by simpa using hfree⟩
    refine ⟨?_, hclaimable, Nat.le_of_not_lt fun hlong => hlength (.inr hlong)⟩
    exact (strip_iff (plain_host hdomain hclaimable)).1 hlabel'.symm
  · rintro ⟨hsuffix, hclaimable, hlength⟩
    have hstrip := (strip_iff (plain_host hdomain hclaimable)).2 hsuffix
    have hne := ne_nil_of_matches hclaimable.label
    have hapex : config.hostFor handle ≠ config.domainLabel := by
      intro h
      have := congrArg List.length h
      simp only [hostFor, domainSuffix, List.length_append, List.length_cons] at this
      omega
    unfold parseHandleFromHost
    dsimp only
    rw [hstrip]
    unfold hostFor at hapex ⊢
    have hlabel : List.take ((handle ++ config.domainSuffix).length - config.domainSuffix.length)
        (handle ++ config.domainSuffix) = handle := by
      rw [List.length_append, Nat.add_sub_cancel, List.take_left]
    have hlength' : ¬ (handle = [] ∨ handleMaxLength < handle.length) := by
      rw [not_or]
      exact ⟨hne, Nat.not_lt_of_le hlength⟩
    rw [if_neg (by simp [hne]), if_neg hapex,
      if_neg (by simp [List.isSuffixOf_iff_suffix]), hlabel, if_neg hlength', hclaimable.label,
      hclaimable.free]
    rfl

/-! ## Built URLs -/

theorem assertClaimableHandle_ok {label : JsString} :
    config.assertClaimableHandle handle = .ok label ↔
      config.normalizeLabel handle = label ∧ config.Claimable label := by
  unfold assertClaimableHandle
  dsimp only
  by_cases hlabel : matchesLabel (config.normalizeLabel handle) = true
  · by_cases hfree : config.isReservedSubdomain (config.normalizeLabel handle) = true
    · rw [if_neg (by simp [hlabel]), if_pos hfree]
      constructor
      · intro h
        cases h
      · rintro ⟨rfl, h⟩
        cases hfree.symm.trans h.free
    · rw [if_neg (by simp [hlabel]), if_neg hfree]
      constructor
      · intro h
        obtain rfl := Except.ok.inj h
        exact ⟨rfl, hlabel, by simpa using hfree⟩
      · rintro ⟨rfl, -⟩
        rfl
  · rw [if_pos (by simpa using hlabel)]
    constructor
    · intro h
      cases h
    · rintro ⟨rfl, h⟩
      exact absurd h.label hlabel

end DomainConfig

def afterScheme (url : JsString) : JsString := (url.dropWhile fun c => c ≠ unit ':').drop 3

/-- What stands between the scheme and the path. -/
def urlHost (url : JsString) : JsString := (afterScheme url).takeWhile fun c => c ≠ unit '/'

def urlPath (url : JsString) : JsString := (afterScheme url).dropWhile fun c => c ≠ unit '/'

namespace DomainConfig

variable {config : DomainConfig} {handle : JsString}

theorem afterScheme_origin (config : DomainConfig) (rest : JsString) :
    afterScheme (config.originFor rest) = rest := by
  unfold originFor
  cases config.protocol <;> rfl

theorem slash_not_mem (hdomain : IsDomainName config.domain) (h : config.Claimable handle) :
    ∀ c ∈ config.hostFor handle, decide (c ≠ unit '/') = true := by
  intro c hc
  have := (plain_host hdomain h).units c hc
  rcases host_unit_cases this with hlabel | rfl
  · refine decide_eq_true ?_
    rintro rfl
    cases hlabel
  · decide

theorem originFor_append (config : DomainConfig) (host path : JsString) :
    config.originFor host ++ path = config.originFor (host ++ path) := by
  simp [originFor]

theorem urlHost_origin (hdomain : IsDomainName config.domain) (h : config.Claimable handle)
    (path : JsString) :
    urlHost (config.originFor (config.hostFor handle) ++ unit '/' :: path) =
      config.hostFor handle := by
  rw [originFor_append, urlHost, afterScheme_origin,
    List.takeWhile_append_of_pos (slash_not_mem hdomain h)]
  simp

theorem urlPath_origin (hdomain : IsDomainName config.domain) (h : config.Claimable handle)
    (path : JsString) :
    urlPath (config.originFor (config.hostFor handle) ++ unit '/' :: path) = unit '/' :: path := by
  rw [originFor_append, urlPath, afterScheme_origin,
    List.dropWhile_append_of_pos (slash_not_mem hdomain h)]
  simp

theorem assertClaimableHandle_cases (config : DomainConfig) (handle : JsString) :
    (config.assertClaimableHandle handle = .ok (config.normalizeLabel handle) ∧
      config.Claimable (config.normalizeLabel handle)) ∨
    (∃ error, config.assertClaimableHandle handle = .error error) ∧
      ¬ config.Claimable (config.normalizeLabel handle) := by
  cases h : config.assertClaimableHandle handle with
  | error error =>
    refine .inr ⟨⟨error, rfl⟩, fun hclaimable => ?_⟩
    cases h.symm.trans (assertClaimableHandle_ok.2 ⟨rfl, hclaimable⟩)
  | ok label =>
    obtain ⟨rfl, hclaimable⟩ := assertClaimableHandle_ok.1 h
    exact .inl ⟨rfl, hclaimable⟩

theorem buildBioUrl_ok {url : JsString} :
    config.buildBioUrl handle = .ok url ↔
      config.Claimable (config.normalizeLabel handle) ∧
        url = config.originFor (config.hostFor (config.normalizeLabel handle)) ++ lit "/" := by
  unfold buildBioUrl
  rcases assertClaimableHandle_cases config handle with ⟨h, hclaimable⟩ | ⟨⟨error, h⟩, hnot⟩
  · rw [h]
    constructor
    · intro h
      exact ⟨hclaimable, (Except.ok.inj h).symm⟩
    · intro h
      rw [h.2]
      rfl
  · rw [h]
    constructor
    · intro h
      cases h
    · intro h
      exact absurd h.1 hnot

theorem buildLinkUrl_ok {slug url : JsString} :
    config.buildLinkUrl handle slug = .ok url ↔
      config.Claimable (config.normalizeLabel handle) ∧ trim slug ≠ [] ∧
        url = config.originFor (config.hostFor (config.normalizeLabel handle)) ++ lit "/" ++
          trim slug := by
  unfold buildLinkUrl
  rcases assertClaimableHandle_cases config handle with ⟨h, hclaimable⟩ | ⟨⟨error, h⟩, hnot⟩
  · rw [h]
    dsimp only [bind, Except.bind]
    by_cases hslug : trim slug = []
    · rw [if_pos hslug]
      constructor
      · intro h
        cases h
      · intro h
        exact absurd hslug h.2.1
    · rw [if_neg hslug]
      constructor
      · intro h
        exact ⟨hclaimable, hslug, (Except.ok.inj h).symm⟩
      · intro h
        rw [h.2.2]
        rfl
  · rw [h]
    constructor
    · intro h
      cases h
    · intro h
      exact absurd h.1 hnot

theorem suffix_units {suffix : JsString} (h : IsHostSuffix suffix) {c : CodeUnit} (hc : c ∈ suffix) :
    c = unit ':' ∨ isHostUnit c = true := by
  have hdigit : ∀ c, isDigit c = true → isHostUnit c = true := by
    intro c hc
    simp [isHostUnit, isLabelUnit, isLowerAlnum, hc]
  cases h with
  | plain => cases hc
  | dot => exact .inr (List.mem_singleton.1 hc ▸ rfl)
  | port _ hdigits =>
    rcases List.mem_cons.1 hc with rfl | hc
    · exact .inl rfl
    · exact .inr (hdigit c (hdigits c hc))
  | dotPort _ hdigits =>
    rcases List.mem_cons.1 hc with rfl | hc
    · exact .inr rfl
    rcases List.mem_cons.1 hc with rfl | hc
    · exact .inl rfl
    · exact .inr (hdigit c (hdigits c hc))

/-- What a URL was built for is its own normal form with every suffix. -/
theorem normalizeLabel_host (hdomain : IsDomainName config.domain) (h : config.Claimable handle)
    {suffix : JsString} (hsuffix : IsHostSuffix suffix) :
    config.normalizeLabel (config.hostFor handle ++ suffix) = config.hostFor handle ++ suffix := by
  have hplain : ∀ c ∈ config.hostFor handle ++ suffix,
      isAscii c = true ∧ asciiLower c = c ∧ isWhiteSpace c = false := by
    intro c hc
    rcases List.mem_append.1 hc with hc | hc
    · obtain ⟨hascii, hlower, hspace, -⟩ := plain_of_hostUnit ((plain_host hdomain h).units c hc)
      exact ⟨hascii, hlower, hspace⟩
    · rcases suffix_units hsuffix hc with rfl | hunit
      · decide
      · obtain ⟨hascii, hlower, hspace, -⟩ := plain_of_hostUnit hunit
        exact ⟨hascii, hlower, hspace⟩
  unfold normalizeLabel
  rw [trim_of_all fun c hc => (hplain c hc).2.2]
  exact toLowerCase_of_lower _ fun c hc => ⟨(hplain c hc).1, (hplain c hc).2.1⟩

/-- The host of a URL that was built is read exactly where the handle is short enough. -/
theorem parse_host_iff (hdomain : IsDomainName config.domain) (h : config.Claimable handle) :
    (∀ suffix, IsHostSuffix suffix →
      config.parseHandleFromHost (config.hostFor handle ++ suffix) = some handle) ↔
    handle.length ≤ handleMaxLength := by
  constructor
  · intro hparse
    exact ((parseHandleFromHost_iff hdomain).1 (hparse [] .plain)).2.2
  · intro hlength suffix hsuffix
    refine (parseHandleFromHost_iff hdomain).2 ⟨⟨suffix, hsuffix, ?_⟩, h, hlength⟩
    exact normalizeLabel_host hdomain h hsuffix

theorem built_host (hdomain : IsDomainName config.domain) {url : JsString}
    (h : config.buildBioUrl handle = .ok url ∨ ∃ slug, config.buildLinkUrl handle slug = .ok url) :
    config.Claimable (config.normalizeLabel handle) ∧
      urlHost url = config.hostFor (config.normalizeLabel handle) := by
  rcases h with h | ⟨slug, h⟩
  · obtain ⟨hclaimable, rfl⟩ := buildBioUrl_ok.1 h
    exact ⟨hclaimable, urlHost_origin hdomain hclaimable []⟩
  · obtain ⟨hclaimable, -, rfl⟩ := buildLinkUrl_ok.1 h
    refine ⟨hclaimable, ?_⟩
    rw [List.append_assoc]
    exact urlHost_origin hdomain hclaimable (trim slug)

end DomainConfig

open DomainConfig in
/-- **Theorem (`handle_round_trip_iff`).** For every configuration whose domain is a list of labels:
the host of a URL that was built, with every port and trailing dot, is read as the handle, trimmed
and in lower case, if and only if that has at most 63 code units; and a URL can be built for every
handle that was read, with a host that is read as the handle. -/
theorem handle_round_trip_iff (config : DomainConfig) (hdomain : IsDomainName config.domain) :
    (∀ handle url,
      (config.buildBioUrl handle = .ok url ∨ ∃ slug, config.buildLinkUrl handle slug = .ok url) →
      ((∀ suffix, IsHostSuffix suffix → config.parseHandleFromHost (urlHost url ++ suffix) =
          some (config.normalizeLabel handle)) ↔
        (config.normalizeLabel handle).length ≤ handleMaxLength)) ∧
    ∀ host handle, config.parseHandleFromHost host = some handle →
      ∃ url, config.buildBioUrl handle = .ok url ∧
        config.parseHandleFromHost (urlHost url) = some handle := by
  constructor
  · intro handle url h
    obtain ⟨hclaimable, hhost⟩ := built_host hdomain h
    rw [hhost]
    exact parse_host_iff hdomain hclaimable
  · intro host handle h
    obtain ⟨-, hclaimable, hlength⟩ := (parseHandleFromHost_iff hdomain).1 h
    have hnormal : config.normalizeLabel handle = handle :=
      normalizeHandle_of_matches config.lower hclaimable.label
    have hbuilt := buildBioUrl_ok.2 ⟨hnormal.symm ▸ hclaimable, rfl⟩
    refine ⟨_, hbuilt, ?_⟩
    rw [(built_host hdomain (.inl hbuilt)).2, hnormal]
    have hparse := (parse_host_iff hdomain hclaimable).2 hlength [] .plain
    rwa [List.append_nil] at hparse

def exampleConfig : DomainConfig where
  domain := lit "example.test"
  protocol := .http
  appSubdomain := lit "app"
  apiSubdomain := lit "api"
  lower := id

theorem isDomainName_example : IsDomainName exampleConfig.domain := by
  have hexample : IsDnsLabel (lit "example") := ⟨by decide, List.all_eq_true.1 (by decide)⟩
  have htest : IsDomainName (lit "test") := .label ⟨by decide, List.all_eq_true.1 (by decide)⟩
  exact .dot hexample htest

/-- A handle of 64 letters has a URL that its host does not lead back from. -/
theorem handle_round_trip_long : ∃ handle url, exampleConfig.buildBioUrl handle = .ok url ∧
    exampleConfig.parseHandleFromHost (urlHost url) ≠ some (exampleConfig.normalizeLabel handle) := by
  refine ⟨List.replicate 64 (unit 'a'), _, rfl, ?_⟩
  decide +kernel

theorem handle_round_trip_juano : ∃ url, exampleConfig.buildBioUrl (lit " Juano") = .ok url ∧
    exampleConfig.parseHandleFromHost (urlHost url ++ lit ".:8080") = some (lit "juano") := by
  refine ⟨_, rfl, ?_⟩
  exact ((handle_round_trip_iff exampleConfig isDomainName_example).1 (lit " Juano") _ (.inl rfl)).2
    (by decide) _ (.dotPort (by decide) (List.all_eq_true.1 (by decide)))

end Posta
