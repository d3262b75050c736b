import Mathlib.Data.Set.Basic
import Posta.Api.RedirectProtocol
import Posta.Interaction.Relational

/-!
# The client's address

The address of a client is looked up and hashed, and goes nowhere else.

**What is seen** (`forgetAddress`). Every operation performed for a request and its response, without
the address that the lookup gets and the material that is hashed.

**Theorem (`address_private`).** Two requests that differ in the headers of the address only are
seen to do the same, whatever the dependencies answer and wherever one of them never answers: the
response, the log lines and the enqueued event depend on the address through what the lookup and the
hash answer.
-/

namespace Posta.Api

open Js Interaction

/-- What is seen of an operation and its response. -/
def forgetAddress : RedirectEvent → RedirectEvent
  | ⟨.lookupNetwork _ cfCountry, r⟩ => ⟨.lookupNetwork [] cfCountry, r⟩
  | ⟨.sha256Hex _, r⟩ => ⟨.sha256Hex [], r⟩
  | e => e

/-- Whether there is an address, and whether it contains the delimiter of the hash. -/
def addressKind (headers : IncomingHttpHeaders) : Option Bool :=
  (readClientIp headers).map fun ip => decide (visitorHashDelimiter ∈ ip)

/-- The requests differ in the headers of the address only, and both of these can be hashed or
neither. -/
structure SameButAddress (req req' : RedirectRequest) : Prop where
  path : req.path = req'.path
  method : req.method = req'.method
  headers : ∀ name, name ≠ lit "cf-connecting-ip" → name ≠ lit "x-forwarded-for" →
    req.headers name = req'.headers name
  kind : addressKind req.headers = addressKind req'.headers

/-- What may be seen of a request. -/
def observations (deps : RedirectMiddleware) (req : RedirectRequest) : Set (List RedirectEvent) :=
  {seen | ∃ h q, Runs (redirectMiddleware deps req) h q ∧ h.map forgetAddress = seen}

/-- The events are seen alike. -/
abbrev SeenAlike (e e' : RedirectEvent) : Prop := forgetAddress e = forgetAddress e'

/-! ## Requests that are seen alike -/

variable {deps : RedirectMiddleware} {req req' : RedirectRequest}

theorem SameButAddress.symm (h : SameButAddress req req') : SameButAddress req' req where
  path := h.path.symm
  method := h.method.symm
  headers name hip hforwarded := (h.headers name hip hforwarded).symm
  kind := h.kind.symm

theorem SameButAddress.readHeader (h : SameButAddress req req') {name : JsString}
    (hip : name ≠ lit "cf-connecting-ip") (hforwarded : name ≠ lit "x-forwarded-for") :
    readHeader req.headers name = readHeader req'.headers name := by
  unfold Api.readHeader
  rw [h.headers name hip hforwarded]

theorem SameButAddress.readSignals (h : SameButAddress req req') :
    readSignals req.toCaptureRequest = readSignals req'.toCaptureRequest := by
  unfold Api.readSignals
  simp (disch := decide) only [h.method, h.readHeader]

theorem response_eq {i : RedirectOp} {r s : i.Response}
    (h : (⟨i, r⟩ : RedirectEvent) = ⟨i, s⟩) : r = s := by
  cases h
  rfl

theorem seenAlike_response (i : RedirectOp) (r s : i.Response) (h : SeenAlike ⟨i, r⟩ ⟨i, s⟩) :
    r = s := by
  cases i with
  | lookupNetwork ip cfCountry => exact response_eq (i := .lookupNetwork [] cfCountry) h
  | sha256Hex material => exact response_eq (i := .sha256Hex []) h
  | _ => exact response_eq h

theorem follows_self {ε α : Type} (x : Flow RedirectOp RedirectOp.Response ε α) :
    Prog.Follows SeenAlike (Flow.Agree Eq Eq) x x := by
  have hself : ∀ e : RedirectEvent, SeenAlike e e := fun _ => rfl
  exact Prog.Follows.flow_refl hself seenAlike_response x

theorem agree_self {ε α : Type} (r : Except ε α) : Flow.Agree Eq Eq r r := by
  cases r <;> rfl

/-- Two lookups are seen alike, whatever the addresses. -/
theorem follows_lookupNetwork (ip ip' : JsString) (cfCountry : Option JsString) :
    Prog.Follows SeenAlike (Flow.Agree Eq Eq)
      (Prog.call (RedirectOp.lookupNetwork ip cfCountry) Prog.done : RedirectFlow NetworkLookup)
      (Prog.call (RedirectOp.lookupNetwork ip' cfCountry) Prog.done) := by
  refine ⟨fun r => ⟨r, rfl⟩, fun r s h => ?_⟩
  obtain rfl := response_eq (i := .lookupNetwork [] cfCountry) h
  exact agree_self r

theorem follows_computeVisitorHash {ip ip' : JsString} (userAgent : Option JsString)
    (salt : JsString) (hip : visitorHashDelimiter ∈ ip ↔ visitorHashDelimiter ∈ ip') :
    Prog.Follows SeenAlike (Flow.Agree Eq Eq) (computeVisitorHash ip userAgent salt)
      (computeVisitorHash ip' userAgent salt) := by
  have hmaterial : Flow.Agree (fun _ _ => True) Eq (hashMaterial ip userAgent salt)
      (hashMaterial ip' userAgent salt) := by
    unfold hashMaterial assertNoHashDelimiter
    dsimp only
    by_cases h : visitorHashDelimiter ∈ ip
    · rw [if_neg (not_not.mpr h), if_neg (not_not.mpr (hip.mp h))]
      rfl
    · rw [if_pos h, if_pos (mt hip.mpr h)]
      by_cases hagent : visitorHashDelimiter ∈ userAgent.getD []
      · rw [if_neg (not_not.mpr hagent)]
        rfl
      · rw [if_pos hagent]
        by_cases hsalt : visitorHashDelimiter ∈ salt
        · rw [if_neg (not_not.mpr hsalt)]
          rfl
        · rw [if_pos hsalt]
          trivial
  refine Prog.Follows.flow_bind hmaterial fun material material' _ => ?_
  refine Prog.Follows.flow_bind (Q := Eq) ⟨fun r => ⟨r, rfl⟩, fun r s h => ?_⟩ ?_
  · obtain rfl := response_eq (i := .sha256Hex []) h
    exact agree_self r
  · rintro digest _ rfl
    exact follows_self _

theorem follows_visitorHashOf (h : addressKind req.headers = addressKind req'.headers)
    (userAgent : Option JsString) (salt : JsString) :
    Prog.Follows SeenAlike (Flow.Agree Eq Eq)
      (visitorHashOf (readClientIp req.headers) userAgent salt)
      (visitorHashOf (readClientIp req'.headers) userAgent salt) := by
  unfold addressKind at h
  cases hip : readClientIp req.headers with
  | none =>
    rw [hip, Option.map_none, eq_comm, Option.map_eq_none_iff] at h
    rw [h]
    exact follows_self _
  | some ip =>
    cases hip' : readClientIp req'.headers with
    | none =>
      rw [hip, hip'] at h
      cases h
    | some ip' =>
      rw [hip, hip', Option.map_some, Option.map_some, Option.some.injEq, decide_eq_decide] at h
      refine Prog.Follows.flow_bind (follows_computeVisitorHash userAgent salt h) ?_
      rintro hash _ rfl
      exact follows_self _

/-- **The capture** of a click is seen alike. -/
theorem follows_capture (h : SameButAddress req req') (tenantId slug : JsString)
    (link : CachedLink) :
    Prog.Follows SeenAlike (Flow.Agree Eq Eq) (capture deps req.toCaptureRequest tenantId slug link)
      (capture deps req'.toCaptureRequest tenantId slug link) := by
  have hcountry : req.headers (lit "cf-ipcountry") = req'.headers (lit "cf-ipcountry") :=
    h.headers _ (by decide) (by decide)
  unfold capture
  apply Prog.Follows.flow_tryCatch
  · rw [h.readSignals, hcountry]
    refine Prog.Follows.flow_bind (follows_lookupNetwork _ _ _) ?_
    rintro network _ rfl
    refine Prog.Follows.flow_bind (follows_self _) ?_
    rintro salt _ rfl
    refine Prog.Follows.flow_bind (follows_visitorHashOf h.kind _ salt) ?_
    rintro visitorHash _ rfl
    exact follows_self _
  · rintro error _ rfl
    exact follows_self _

theorem follows_linkRequest (h : SameButAddress req req') (handle slug : JsString) :
    Prog.Follows SeenAlike (Flow.Agree Eq Eq) (linkRequest deps handle slug req.toCaptureRequest)
      (linkRequest deps handle slug req'.toCaptureRequest) := by
  refine Prog.Follows.flow_bind (Q := Eq) (Prog.Follows.flow_tryCatch (R := Eq) ?_ ?_) ?_
  · refine Prog.Follows.flow_bind (follows_self _) ?_
    rintro resolved _ rfl
    rcases resolved with - | ⟨tenantId, link⟩
    · exact follows_self _
    · refine Prog.Follows.flow_bind (follows_self _) ?_
      rintro redirected _ rfl
      cases redirected with
      | true => exact follows_capture h tenantId slug link
      | false => exact follows_self _
  · rintro error _ rfl
    exact follows_self _
  · rintro left _ rfl
    exact follows_self _

theorem follows_redirectMiddleware (h : SameButAddress req req') :
    Prog.Follows SeenAlike (Flow.Agree Eq Eq) (redirectMiddleware deps req)
      (redirectMiddleware deps req') := by
  unfold redirectMiddleware
  rw [h.readHeader (by decide) (by decide), h.path]
  cases deps.parseRequestTarget ((readHeader req'.headers (lit "host")).getD []) req'.path with
  | link handle slug => exact follows_linkRequest h handle slug
  | _ => exact follows_self _

theorem observations_subset (h : SameButAddress req req') :
    observations deps req ⊆ observations deps req' := by
  rintro seen ⟨history, p, hr, rfl⟩
  obtain ⟨history', q, hr', hall, -⟩ := (follows_redirectMiddleware h).runs hr
  have halike : List.Forall₂ Eq (history'.map forgetAddress) (history.map forgetAddress) :=
    List.forall₂_map_left_iff.mpr (List.forall₂_map_right_iff.mpr (hall.flip.imp fun _ _ => Eq.symm))
  exact ⟨history', q, hr', List.forall₂_eq_eq_eq ▸ halike⟩

/-- **Theorem (`address_private`).** -/
theorem address_private (deps : RedirectMiddleware) (req req' : RedirectRequest)
    (h : SameButAddress req req') : observations deps req = observations deps req' :=
  Set.Subset.antisymm (observations_subset h) (observations_subset h.symm)

/-- A request that came through a proxy from the given address. -/
def forwardedRequest (ip : JsString) : RedirectRequest where
  method := some (lit "GET")
  headers name := if name = lit "x-forwarded-for" then some (.text ip) else none
  path := lit "/promo"

theorem address_private_forwarded :
    observations promoMiddleware (forwardedRequest (lit "203.0.113.7")) =
      observations promoMiddleware (forwardedRequest (lit "198.51.100.20")) := by
  refine address_private _ _ _ ⟨rfl, rfl, fun name _ hforwarded => ?_, by decide⟩
  show (if name = _ then _ else _) = if name = _ then _ else _
  rw [if_neg hforwarded, if_neg hforwarded]

end Posta.Api
