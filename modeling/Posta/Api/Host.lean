import Posta.Api.Redirect
import Posta.Contracts.Domain
import Posta.Js.PercentDecoding

/-!
# What a request addresses

The host names the handle and the path the slug. Everything that can be refused without a lookup is
refused here: hosts that are not a handle's, reserved handles and paths, and paths that are no slug.

**Theorem (`request_target_iff`).** The parser finds a link exactly where the host is that of a
handle which is not reserved and the path is a slash and an encoding of a valid slug. So every link
that can be created is found at its URL, and the early check of the length costs no slug.
-/

namespace Posta.Api

open Js

def maxEncodedSlugLength : Nat := slugMaxLength * 3

/-- `/^\/+$/`. -/
def onlySlashes (path : JsString) : Bool := path ≠ [] && path.all fun c => c = unit '/'

def extractSlug (path : JsString) : Option JsString :=
  if path.head? ≠ some (unit '/') then none
  else
    let encoded := path.tail
    if encoded = [] then none
    else if maxEncodedSlugLength < encoded.length then none
    else if unit '/' ∈ encoded then none
    else match decodeURIComponent encoded with
      | none => none
      | some decoded => if unit '/' ∈ decoded then none else some decoded

structure RequestTargetParserConfig where
  urls : DomainConfig
  reservedHandles : List JsString

namespace RequestTargetParserConfig

variable (config : RequestTargetParserConfig)

def pathTarget (handle path : JsString) : RequestTarget :=
  match extractSlug path with
  | none => .invalidPath
  | some slug => if isValidSlug slug then .link handle slug else .invalidPath

def parseRequestTarget (host path : JsString) : RequestTarget :=
  match config.urls.parseHandleFromHost host with
  | none => .notOurs
  | some handle =>
    if isReservedHandle config.urls.lower handle config.reservedHandles then .reservedHandle handle
    else if path = [] ∨ path = lit "/" then .handleRoot handle
    else if onlySlashes path then .invalidPath
    else if isReservedPath config.urls.lower path then .reservedPath
    else pathTarget handle path

/-- The host of a handle that is not reserved. -/
structure IsLinkHost (host handle : JsString) : Prop where
  host : ∃ suffix, IsHostSuffix suffix ∧
    config.urls.normalizeLabel host = handle ++ unit '.' :: config.urls.domainLabel ++ suffix
  label : matchesLabel handle = true
  length_le : handle.length ≤ 63
  free : config.urls.isReservedSubdomain handle = false
  not_reserved : handle ∉ config.reservedHandles

/-- A slash and an encoding of a valid slug. -/
def IsLinkPath (path slug : JsString) : Prop :=
  ∃ encoded, path = unit '/' :: encoded ∧ PercentEncodes slug encoded ∧ isValidSlug slug = true

variable {config} {host path handle slug : JsString}

/-! ## Paths -/

theorem slug_unit (hslug : isValidSlug slug = true) {c : CodeUnit} (hc : c ∈ slug) :
    isLabelUnit c = true := label_of_matches (matchesLabel_of_valid hslug).1 hc

theorem slug_ascii (hslug : isValidSlug slug = true) : ∀ c ∈ slug, isAscii c = true :=
  fun _ hc => ascii_of_label (slug_unit hslug hc)

theorem slug_ne_nil (hslug : isValidSlug slug = true) : slug ≠ [] :=
  ne_nil_of_matches (matchesLabel_of_valid hslug).1

/-- The early check of the length refuses no encoding of a valid slug. -/
theorem length_encoded_le {encoded : JsString} (h : PercentEncodes slug encoded)
    (hslug : isValidSlug slug = true) : encoded.length ≤ maxEncodedSlugLength :=
  h.length_le.trans (Nat.mul_le_mul_right 3 (matchesLabel_of_valid hslug).2)

theorem toNat_of_hexValue {c : CodeUnit} (h : (hexValue c).isSome) :
    (48 ≤ c.toNat ∧ c.toNat ≤ 57) ∨ (97 ≤ c.toNat ∧ c.toNat ≤ 102) ∨
      (65 ≤ c.toNat ∧ c.toNat ≤ 70) := by
  unfold hexValue at h
  dsimp only at h
  split_ifs at h with h₁ h₂ h₃
  · exact .inl h₁
  · exact .inr (.inl h₂)
  · exact .inr (.inr h₃)
  · cases h

/-- A code unit of an encoded slug. -/
theorem encoded_unit {encoded : JsString} (h : PercentEncodes slug encoded)
    (hslug : isValidSlug slug = true) {c : CodeUnit} (hc : c ∈ encoded) :
    isAscii c = true ∧ isWhiteSpace c = false ∧ asciiLower c ≠ unit '/' ∧
      asciiLower c ≠ unit '.' := by
  have hnat : c.toNat = 37 ∨ c.toNat = 45 ∨ (48 ≤ c.toNat ∧ c.toNat ≤ 57) ∨
      (65 ≤ c.toNat ∧ c.toNat ≤ 70) ∨ (97 ≤ c.toNat ∧ c.toNat ≤ 122) := by
    rcases h.mem hc with hc | rfl | hc
    · have := label_iff.1 (slug_unit hslug hc)
      omega
    · exact .inl rfl
    · have := toNat_of_hexValue hc
      omega
  have hslash : (unit '/').toNat = 47 := rfl
  have hdot : (unit '.').toNat = 46 := rfl
  refine ⟨decide_eq_true (by omega), not_space_of_graphic (by omega), ?_, ?_⟩
  · intro hlower
    have := asciiLower_spec c
    rw [hlower, hslash] at this
    split_ifs at this <;> omega
  · intro hlower
    have := asciiLower_spec c
    rw [hlower, hdot] at this
    split_ifs at this <;> omega

theorem slash_not_mem_encoded {encoded : JsString} (h : PercentEncodes slug encoded)
    (hslug : isValidSlug slug = true) : unit '/' ∉ encoded :=
  fun hc => (encoded_unit h hslug hc).2.2.1 rfl

theorem slash_not_mem_slug (hslug : isValidSlug slug = true) : unit '/' ∉ slug := by
  intro hc
  cases slug_unit hslug hc

theorem encoded_ne_nil {encoded : JsString} (h : PercentEncodes slug encoded)
    (hslug : isValidSlug slug = true) : encoded ≠ [] := by
  rintro rfl
  cases h
  exact slug_ne_nil hslug rfl

theorem extractSlug_iff (hslug : isValidSlug slug = true) :
    extractSlug path = some slug ↔ IsLinkPath path slug := by
  constructor
  · intro h
    unfold extractSlug at h
    dsimp only at h
    split_ifs at h with hhead hnil hlong hslash
    obtain ⟨rest, rfl⟩ : ∃ rest, path = unit '/' :: rest :=
      ⟨_, (List.eq_cons_of_mem_head? (not_not.1 hhead))⟩
    cases hdecoded : decodeURIComponent (unit '/' :: rest).tail with
    | none =>
      rw [hdecoded] at h
      cases h
    | some decoded =>
      rw [hdecoded] at h
      dsimp only at h
      split_ifs at h
      obtain rfl := Option.some.inj h
      exact ⟨rest, rfl, (decodeURIComponent_iff (slug_ascii hslug)).1 hdecoded, hslug⟩
  · rintro ⟨encoded, rfl, h, -⟩
    unfold extractSlug
    rw [if_neg (by simp)]
    dsimp only [List.tail_cons]
    rw [if_neg (encoded_ne_nil h hslug), if_neg (Nat.not_lt_of_le (length_encoded_le h hslug)),
      if_neg (slash_not_mem_encoded h hslug), decodeURIComponent_of_encodes h]
    exact if_neg (slash_not_mem_slug hslug)

/-- The path of a link is no reserved path. -/
theorem not_reserved_of_link (h : IsLinkPath path slug) :
    isReservedPath config.urls.lower path = false := by
  obtain ⟨encoded, rfl, h, hslug⟩ := h
  have hne := encoded_ne_nil h hslug
  have hunit : ∀ c ∈ unit '/' :: encoded, isAscii c = true ∧ isWhiteSpace c = false := by
    intro c hc
    rcases List.mem_cons.1 hc with rfl | hc
    · decide
    · exact ⟨(encoded_unit h hslug hc).1, (encoded_unit h hslug hc).2.1⟩
  have hlower : normalizeReservedPath config.urls.lower (unit '/' :: encoded) =
      unit '/' :: encoded.map asciiLower := by
    unfold normalizeReservedPath
    rw [trim_of_all fun c hc => (hunit c hc).2, toLowerCase_ascii _ fun c hc => (hunit c hc).1]
    have hlength : 1 < ((unit '/' :: encoded).map asciiLower).length := by
      simpa using List.length_pos_iff.2 hne
    have hlast : ((unit '/' :: encoded).map asciiLower).getLast? ≠ some (unit '/') := by
      rw [List.map_cons, List.getLast?_cons_of_ne_nil (by simpa using hne)]
      intro hlast
      obtain ⟨c, hc, hslash⟩ := List.mem_map.1 (List.mem_of_getLast? hlast)
      exact (encoded_unit h hslug hc).2.2.1 hslash
    rw [if_neg (List.ne_nil_of_length_pos (Nat.lt_of_succ_lt hlength)), if_pos hlength, dropSlash,
      if_neg hlast]
    rfl
  cases hreserved : isReservedPath config.urls.lower (unit '/' :: encoded) with
  | false => rfl
  | true =>
    rcases dot_mem_of_reserved hreserved with hroot | hdot
    · rw [hlower] at hroot
      have : encoded.map asciiLower = [] := (List.cons.inj hroot).2
      exact absurd (List.map_eq_nil_iff.1 this) hne
    · rw [hlower] at hdot
      rcases List.mem_cons.1 hdot with hdot | hdot
      · cases hdot
      · obtain ⟨c, hc, hlower⟩ := List.mem_map.1 hdot
        exact absurd hlower (encoded_unit h hslug hc).2.2.2

/-! ## Targets -/

theorem isReservedHandle_iff {lower : JsString → JsString} {reserved : List JsString}
    (hlabel : matchesLabel handle = true) :
    isReservedHandle lower handle reserved = true ↔ handle ∈ reserved := by
  unfold isReservedHandle
  dsimp only
  rw [normalizeHandle_of_matches lower hlabel, if_neg (ne_nil_of_matches hlabel),
    List.contains_iff_mem]

theorem pathTarget_iff :
    pathTarget handle path = .link handle slug ↔ IsLinkPath path slug := by
  unfold pathTarget
  constructor
  · intro h
    cases hslug : extractSlug path with
    | none =>
      rw [hslug] at h
      cases h
    | some decoded =>
      rw [hslug] at h
      dsimp only at h
      split_ifs at h with hvalid
      obtain ⟨-, rfl⟩ := RequestTarget.link.inj h
      exact (extractSlug_iff hvalid).1 hslug
  · intro h
    obtain ⟨-, -, -, hvalid⟩ := id h
    rw [(extractSlug_iff hvalid).2 h]
    exact if_pos hvalid

theorem pathTarget_handle {handle' : JsString} (h : pathTarget handle path = .link handle' slug) :
    handle = handle' := by
  unfold pathTarget at h
  cases hslug : extractSlug path with
  | none =>
    rw [hslug] at h
    cases h
  | some decoded =>
    rw [hslug] at h
    dsimp only at h
    split_ifs at h
    exact (RequestTarget.link.inj h).1

/-- **What the parser takes for a link.** -/
theorem parseRequestTarget_iff (hdomain : IsDomainName config.urls.domain) :
    config.parseRequestTarget host path = .link handle slug ↔
      config.IsLinkHost host handle ∧ IsLinkPath path slug := by
  constructor
  · intro h
    unfold parseRequestTarget at h
    cases hhost : config.urls.parseHandleFromHost host with
    | none =>
      rw [hhost] at h
      cases h
    | some found =>
      rw [hhost] at h
      dsimp only at h
      split_ifs at h with hreserved
      obtain rfl := pathTarget_handle h
      obtain ⟨hsuffix, hclaimable, hlength⟩ := (DomainConfig.parseHandleFromHost_iff hdomain).1 hhost
      refine ⟨⟨hsuffix, hclaimable.label, hlength, hclaimable.free, ?_⟩, pathTarget_iff.1 h⟩
      rwa [isReservedHandle_iff hclaimable.label] at hreserved
  · rintro ⟨hhost, hpath⟩
    have hfound : config.urls.parseHandleFromHost host = some handle :=
      (DomainConfig.parseHandleFromHost_iff hdomain).2
        ⟨hhost.host, ⟨hhost.label, hhost.free⟩, hhost.length_le⟩
    have hreserved : isReservedPath config.urls.lower path = false := not_reserved_of_link hpath
    obtain ⟨encoded, hencoded, hslug, hvalid⟩ := id hpath
    have hne := encoded_ne_nil hslug hvalid
    have hroot : ¬ (path = [] ∨ path = lit "/") := by
      rw [hencoded]
      rintro (h | h)
      · cases h
      · exact hne (List.cons.inj h).2
    have hslashes : ¬ onlySlashes path = true := by
      intro h
      rw [hencoded] at h
      unfold onlySlashes at h
      obtain ⟨c, hc⟩ := List.exists_mem_of_ne_nil _ hne
      have hall := List.all_eq_true.1 (Bool.and_eq_true_iff.1 h).2 c (List.mem_cons_of_mem _ hc)
      have hc' : c = unit '/' := by simpa using hall
      exact slash_not_mem_encoded hslug hvalid (hc' ▸ hc)
    unfold parseRequestTarget
    rw [hfound]
    dsimp only
    rw [if_neg (by rw [isReservedHandle_iff hhost.label]; exact hhost.not_reserved), if_neg hroot,
      if_neg hslashes, hreserved]
    exact pathTarget_iff.2 hpath

end RequestTargetParserConfig

open RequestTargetParserConfig in
/-- **Theorem (`request_target_iff`).** For every configuration whose domain is a list of labels:
a handle and a slug that can be created are found at the host and the path of their URL; a host and
a path are taken for a link if and only if they are those of a handle that is not reserved and of an
encoding of a valid slug, and then for the link of that handle and slug; and no such encoding is
longer than what the early check lets pass. -/
theorem request_target_iff (config : RequestTargetParserConfig)
    (hdomain : IsDomainName config.urls.domain) :
    (∀ handle slug url, zHandle handle = true → handle ∉ config.reservedHandles →
      zSlug slug = true → config.urls.buildLinkUrl handle slug = .ok url →
      config.parseRequestTarget (urlHost url) (urlPath url) = .link handle slug) ∧
    (∀ host path handle slug, config.parseRequestTarget host path = .link handle slug ↔
      config.IsLinkHost host handle ∧ IsLinkPath path slug) ∧
    ∀ slug encoded, isValidSlug slug = true → PercentEncodes slug encoded →
      encoded.length ≤ maxEncodedSlugLength := by
  refine ⟨?_, fun _ _ _ _ => parseRequestTarget_iff hdomain, fun _ _ hslug h =>
    length_encoded_le h hslug⟩
  intro handle slug url hhandle hreserved hslug hurl
  rw [zSlug_eq] at hslug
  obtain ⟨hclaimable, -, rfl⟩ := DomainConfig.buildLinkUrl_ok.1 hurl
  simp only [zHandle, Bool.and_eq_true, decide_eq_true_eq] at hhandle
  have hnormal : config.urls.normalizeLabel handle = handle :=
    normalizeHandle_of_matches config.urls.lower hhandle.1.2
  rw [hnormal] at hclaimable ⊢
  have htrim : trim slug = slug := trim_of_all fun c hc => not_space_of_label (slug_unit hslug hc)
  rw [htrim, List.append_assoc]
  refine (parseRequestTarget_iff hdomain).2 ⟨⟨⟨[], .plain, ?_⟩, hclaimable.label, ?_,
    hclaimable.free, hreserved⟩, slug, ?_, ?_, hslug⟩
  · refine (congrArg _ (DomainConfig.urlHost_origin hdomain hclaimable slug)).trans ?_
    have hhost := DomainConfig.normalizeLabel_host hdomain hclaimable .plain
    rw [List.append_nil] at hhost ⊢
    exact hhost
  · omega
  · exact DomainConfig.urlPath_origin hdomain hclaimable slug
  · refine .refl fun hc => ?_
    cases slug_unit hslug hc

/-- A link is found at its URL, and under an encoding of its path on a host with a port. -/
theorem request_target_promo :
    (∃ url, exampleConfig.buildLinkUrl (lit "juano") (lit "promo") = .ok url ∧
      (RequestTargetParserConfig.mk exampleConfig reservedHandles).parseRequestTarget (urlHost url)
        (urlPath url) = .link (lit "juano") (lit "promo")) ∧
    (RequestTargetParserConfig.mk exampleConfig reservedHandles).parseRequestTarget
      (lit "Juano.example.test:3000") (lit "/%70romo") = .link (lit "juano") (lit "promo") := by
  have h := request_target_iff ⟨exampleConfig, reservedHandles⟩ isDomainName_example
  refine ⟨⟨_, rfl, h.1 _ _ _ (by decide) (by decide) (by decide) rfl⟩, (h.2.1 _ _ _ _).2 ⟨?_, ?_⟩⟩
  · exact ⟨⟨lit ":3000", .port (by decide) (List.all_eq_true.1 (by decide)), rfl⟩, by decide,
      by decide, by decide, by decide⟩
  · exact ⟨lit "%70romo", rfl, .octet rfl rfl (by decide) rfl (.refl (by decide)), by decide⟩

end Posta.Api
