import Posta.Api.Redirect
import Posta.Interaction.Sequential

/-!
# The redirect protocol

We watch the operations of a request through what they amount to (`Exchange`): the response as the
client sees it, whether the resolution has settled, the link it found, and how often an event was
enqueued. `permitted` says what may be performed when; every program of the request meets it.

**Theorem (`redirect_protocol`).** Whatever the dependencies answer, and wherever one of them never
answers: at most one response is sent, and exactly one once the resolution has settled, which it
has unless the request waits for it; the response is a redirect to the validated and encoded
destination of the resolved link, or a 404 where there is none; an event is enqueued at most once
and only after a redirect; and a response that was sent is not touched again.
-/

namespace Posta.Api

open Js Interaction

/-! ## What the client sees -/

/-- A response that was sent. -/
structure Sent where
  status : Nat
  headers : List (JsString × JsString)
  body : Option JsString
  deriving DecidableEq

/-- What the operations performed for a request amount to. -/
structure Exchange where
  status : Nat := 200
  headers : List (JsString × JsString) := []
  sent : List Sent := []
  /-- `resolveTenant` and, where it is called, `resolveLink` have settled. -/
  settled : Bool := false
  link : Option CachedLink := none
  enqueues : Nat := 0

namespace Exchange

def step (x : Exchange) : RedirectEvent → Exchange
  | ⟨.resolveTenant _, .ok (some _)⟩ => x
  | ⟨.resolveTenant _, _⟩ => { x with settled := true }
  | ⟨.resolveLink .., .ok link⟩ => { x with settled := true, link }
  | ⟨.resolveLink .., .error _⟩ => { x with settled := true }
  | ⟨.set name value, _⟩ =>
    { x with headers := (name, value) :: x.headers.filter fun header => header.1 ≠ name }
  | ⟨.status code, _⟩ => { x with status := code }
  | ⟨.endWith body, _⟩ => { x with sent := x.sent ++ [⟨x.status, x.headers, body⟩] }
  | ⟨.enqueueCapture _, _⟩ => { x with enqueues := x.enqueues + 1 }
  | _ => x

end Exchange

def exchange (h : List RedirectEvent) : Exchange := h.foldl Exchange.step {}

/-- The `Location` of a link: its destination, validated and encoded. -/
def redirectLocation (acceptsUrl : JsString → Bool) (link : Option CachedLink) : Option JsString :=
  link.bind fun link => (zDestination acceptsUrl link.destination).bind encodeDestinationForHeader

/-- A redirect where there is a location, and a 404 where there is none. -/
def Sent.Answers (s : Sent) : Option JsString → Prop
  | some location => s.status = 307 ∧ s.headers.lookup (lit "Location") = some location
  | none => s.status = 404 ∧ s.headers.lookup (lit "Location") = none

/-- What may be performed when. -/
def permitted (acceptsUrl : JsString → Bool) : RedirectOp → Exchange → Prop
  | .resolveTenant _, x => x.sent = [] ∧ x.settled = false
  | .resolveLink .., x => x.sent = [] ∧ x.settled = false
  | .set .., x => x.sent = []
  | .status _, x => x.sent = []
  | .endWith body, x => x.sent = [] ∧ x.settled = true ∧
      (Sent.mk x.status x.headers body).Answers (redirectLocation acceptsUrl x.link)
  | .enqueueCapture _, x => x.enqueues = 0 ∧ x.sent.map Sent.status = [307]
  | .lookupNetwork .., x => x.sent.length = 1
  | .getDailySalt, x => x.sent.length = 1
  | .sha256Hex _, x => x.sent.length = 1
  | .newId, x => x.sent.length = 1
  | .now, x => x.sent.length = 1
  | .enqueued _, x => x.sent.length = 1
  | _, _ => True

abbrev watched (acceptsUrl : JsString → Bool) :
    Interp RedirectOp RedirectOp.Response Exchange :=
  Interp.monitor (permitted acceptsUrl) Exchange.step

variable {deps : RedirectMiddleware} {x : Exchange}

/-- Nothing has been sent, and the link is resolved to the given location. -/
structure Exchange.Undecided (acceptsUrl : JsString → Bool) (location : Option JsString)
    (x : Exchange) : Prop where
  sent : x.sent = []
  headers : x.headers = []
  settled : x.settled = true
  location : redirectLocation acceptsUrl x.link = location
  enqueues : x.enqueues = 0

/-- One response was sent, and nothing enqueued. -/
def Exchange.Answered (status : Nat) (x : Exchange) : Prop :=
  x.sent.map Sent.status = [status] ∧ x.enqueues = 0

theorem ensures_sendNotFound {slug : JsString} (hx : x.Undecided deps.acceptsUrl none) :
    (watched deps.acceptsUrl).Ensures (fun _ => Exchange.Answered 404) (fun _ _ => False)
      (sendNotFound slug) x := by
  obtain ⟨hsent, hheaders, hsettled, hlocation, henqueues⟩ := hx
  refine Interp.wp_monitor hsent fun _ => ?_
  refine Interp.wp_monitor hsent fun _ => ?_
  refine Interp.wp_monitor hsent fun _ => ?_
  refine Interp.wp_monitor hsent fun _ => ?_
  refine Interp.wp_monitor hsent fun _ => ?_
  refine Interp.wp_monitor trivial fun _ => ?_
  refine Interp.wp_monitor ?_ fun _ => ?_
  · refine ⟨hsent, hsettled, ?_⟩
    show Sent.Answers _ (redirectLocation deps.acceptsUrl x.link)
    rw [hlocation]
    refine ⟨rfl, ?_⟩
    simp only [Exchange.step, hheaders]
    decide
  · refine ⟨?_, henqueues⟩
    show (x.sent ++ _).map Sent.status = _
    rw [hsent]
    rfl

theorem ensures_sendLinkRedirect {destination location : JsString}
    (hencode : encodeDestinationForHeader destination = some location)
    (hx : x.Undecided deps.acceptsUrl (some location)) :
    (watched deps.acceptsUrl).Ensures (fun redirected x => redirected = true ∧ x.Answered 307)
      (fun _ _ => False) (sendLinkRedirect destination) x := by
  obtain ⟨hsent, hheaders, hsettled, hlocation, henqueues⟩ := hx
  unfold sendLinkRedirect
  rw [hencode]
  refine Interp.wp_monitor hsent fun _ => ?_
  refine Interp.wp_monitor hsent fun _ => ?_
  refine Interp.wp_monitor hsent fun _ => ?_
  refine Interp.wp_monitor ?_ fun _ => ?_
  · refine ⟨hsent, hsettled, ?_⟩
    show Sent.Answers _ (redirectLocation deps.acceptsUrl x.link)
    rw [hlocation]
    exact ⟨rfl, rfl⟩
  · refine ⟨rfl, ?_, henqueues⟩
    show (x.sent ++ _).map Sent.status = _
    rw [hsent]
    rfl

theorem ensures_answer {slug : JsString} {link : CachedLink} (hlink : x.link = some link)
    (hx : x.Undecided deps.acceptsUrl (redirectLocation deps.acceptsUrl x.link)) :
    (watched deps.acceptsUrl).Ensures
      (fun redirected x => x.Answered (if redirected then 307 else 404)) (fun _ _ => False)
      (answer deps slug link) x := by
  rw [hlink] at hx
  unfold answer
  cases hdestination : zDestination deps.acceptsUrl link.destination with
  | none =>
    have hnone : redirectLocation deps.acceptsUrl (some link) = none := by
      simp [redirectLocation, hdestination]
    rw [hnone] at hx
    refine Interp.wp_monitor trivial fun _ => ?_
    refine Interp.wp_monitor trivial fun _ => ?_
    exact Interp.ensures_seq (ensures_sendNotFound hx) fun _ _ h => h
  | some destination =>
    cases hencode : encodeDestinationForHeader destination with
    | none =>
      have hnone : redirectLocation deps.acceptsUrl (some link) = none := by
        simp [redirectLocation, hdestination, hencode]
      rw [hnone] at hx
      simp only [sendLinkRedirect, hencode]
      exact Interp.ensures_seq (ensures_sendNotFound hx) fun _ _ h => h
    | some location =>
      have hsome : redirectLocation deps.acceptsUrl (some link) = some location := by
        simp [redirectLocation, hdestination, hencode]
      rw [hsome] at hx
      refine Interp.ensures_seq (ensures_sendLinkRedirect hencode hx) ?_
      rintro redirected x ⟨rfl, h⟩
      exact h

/-- A request that nothing has been done about. -/
structure Exchange.Fresh (x : Exchange) : Prop where
  sent : x.sent = []
  headers : x.headers = []
  settled : x.settled = false
  link : x.link = none
  enqueues : x.enqueues = 0

/-- What `resolveTarget` leaves: a 404, or a link to answer with. -/
def Exchange.Targets (acceptsUrl : JsString → Bool) (x : Exchange) :
    Option (JsString × CachedLink) → Prop
  | none => x.Answered 404
  | some (_, link) => x.link = some link ∧
      x.Undecided acceptsUrl (redirectLocation acceptsUrl x.link)

theorem ensures_resolveTarget {handle slug : JsString} (hx : x.Fresh) :
    (watched deps.acceptsUrl).Ensures (fun resolved x => x.Targets deps.acceptsUrl resolved)
      (fun _ _ => False) (resolveTarget deps handle slug) x := by
  have hnone {x : Exchange} (hsent : x.sent = []) (hheaders : x.headers = [])
      (hsettled : x.settled = true) (hlink : x.link = none) (henqueues : x.enqueues = 0) :
      (watched deps.acceptsUrl).Ensures (fun resolved x => x.Targets deps.acceptsUrl resolved)
        (fun _ _ => False) (sendNotFound slug >>= fun _ => pure none) x := by
    have hx : x.Undecided deps.acceptsUrl none :=
      ⟨hsent, hheaders, hsettled, by rw [hlink]; rfl, henqueues⟩
    exact Interp.ensures_seq (ensures_sendNotFound hx) fun _ _ h => h
  obtain ⟨hsent, hheaders, hsettled, hlink, henqueues⟩ := hx
  refine Interp.ensures_tryCatch (Interp.wp_monitor ⟨hsent, hsettled⟩ fun tenantId => ?_)
  rcases tenantId with error | - | tenantId
  · refine Interp.wp_monitor trivial fun _ => ?_
    exact hnone hsent hheaders rfl hlink henqueues
  · exact hnone hsent hheaders rfl hlink henqueues
  · refine Interp.wp_monitor ⟨hsent, hsettled⟩ fun link => ?_
    rcases link with error | - | link
    · refine Interp.wp_monitor trivial fun _ => ?_
      exact hnone hsent hheaders rfl hlink henqueues
    · exact hnone hsent hheaders rfl rfl henqueues
    · exact ⟨rfl, hsent, hheaders, rfl, rfl, henqueues⟩

theorem Exchange.Answered.one {status : Nat} (hx : x.Answered status) : x.sent.length = 1 := by
  simpa using congrArg List.length hx.1

section

variable {R : Thrown → Exchange → Prop} (hR : ∀ error x, x.Answered 307 → R error x)

include hR

theorem ensures_computeVisitorHash {ip salt : JsString} {userAgent : Option JsString}
    (hx : x.Answered 307) :
    (watched deps.acceptsUrl).Ensures (fun _ x => x.Answered 307) R
      (computeVisitorHash ip userAgent salt) x := by
  unfold computeVisitorHash
  cases hashMaterial ip userAgent salt with
  | error error => exact hR error x hx
  | ok material =>
    refine Interp.wp_monitor hx.one fun digest => ?_
    rcases digest with error | digest
    · exact hR error _ hx
    · exact hx

theorem ensures_visitorHashOf {ip userAgent : Option JsString} {salt : JsString}
    (hx : x.Answered 307) :
    (watched deps.acceptsUrl).Ensures (fun _ x => x.Answered 307) R
      (visitorHashOf ip userAgent salt) x := by
  cases ip with
  | none => exact hx
  | some ip => exact Interp.ensures_seq (ensures_computeVisitorHash hR hx) fun _ _ h => h

theorem ensures_buildCapturePayload {input : CapturePayloadInput} (hx : x.Answered 307) :
    (watched deps.acceptsUrl).Ensures (fun _ x => x.Answered 307) R
      (buildCapturePayload input) x := by
  refine Interp.wp_monitor hx.one fun eventId => ?_
  rcases eventId with error | eventId
  · exact hR error _ hx
  · exact Interp.wp_monitor hx.one fun _ => hx

end

/-- The capture sends nothing, and enqueues once. -/
theorem ensures_capture {req : CaptureRequest} {tenantId slug : JsString} {link : CachedLink}
    (hx : x.Answered 307) :
    (watched deps.acceptsUrl).Ensures (fun _ x => x.sent.length = 1) (fun _ _ => False)
      (capture deps req tenantId slug link) x := by
  have hcatch (error : Thrown) (x : Exchange) (hx : x.sent.length = 1) :
      (watched deps.acceptsUrl).Ensures (fun _ x => x.sent.length = 1) (fun _ _ => False)
        (do
          Flow.perform (RedirectOp.logError
            (lit "Capture failed; the redirect already succeeded, no analytics for this request")
            [(lit "errorType", .str (deps.errorType error)), (lit "tenantId", .str tenantId),
              (lit "slug", .str slug)])
          pure none : RedirectFlow (Option CapturePayload)) x :=
    Interp.wp_monitor trivial fun _ => hx
  have hR (error : Thrown) (x : Exchange) (hx : x.Answered 307) := hcatch error x hx.one
  refine Interp.ensures_tryCatch (Interp.wp_monitor hx.one fun network => ?_)
  rcases network with error | network
  · exact hR error _ hx
  refine Interp.wp_monitor hx.one fun salt => ?_
  rcases salt with error | salt
  · exact hR error _ hx
  refine Interp.ensures_seq (ensures_visitorHashOf hR hx) fun visitorHash x hx => ?_
  refine Interp.ensures_seq (ensures_buildCapturePayload hR hx) fun payload x hx => ?_
  refine Interp.wp_monitor ⟨hx.2, hx.1⟩ fun enqueued => ?_
  rcases enqueued with error | -
  · exact hcatch error _ hx.one
  · exact hx.one

theorem ensures_handleLinkTarget {handle slug : JsString} {req : CaptureRequest} (hx : x.Fresh) :
    (watched deps.acceptsUrl).Ensures (fun _ x => x.sent.length = 1) (fun _ _ => False)
      (handleLinkTarget deps handle slug req) x := by
  refine Interp.ensures_seq (ensures_resolveTarget hx) fun resolved x hx => ?_
  rcases resolved with - | ⟨tenantId, link⟩
  · exact hx.one
  refine Interp.ensures_seq (ensures_answer hx.1 hx.2) fun redirected x hx => ?_
  cases redirected with
  | true => exact ensures_capture hx
  | false => exact hx.one

theorem ensures_linkRequest {handle slug : JsString} {req : CaptureRequest} (hx : x.Fresh) :
    (watched deps.acceptsUrl).Ensures (fun _ x => x.sent.length = 1) (fun _ _ => False)
      (linkRequest deps handle slug req) x := by
  refine Interp.ensures_seq (Interp.ensures_tryCatch (Interp.Ensures.mono
    (ensures_handleLinkTarget hx) (fun _ _ h => h) fun _ _ h => h.elim)) fun left x hx => ?_
  cases left with
  | none => exact hx
  | some payload =>
    refine Interp.ensures_tryCatch (Interp.wp_monitor hx fun settled => ?_)
    rcases settled with error | -
    · exact Interp.wp_monitor trivial fun _ => hx
    · exact hx

/-! ## Runs -/

/-- A dependency, which may never answer. -/
def RedirectOp.isDependency : RedirectOp → Bool
  | .resolveTenant _ => true
  | .resolveLink .. => true
  | .lookupNetwork .. => true
  | .getDailySalt => true
  | .sha256Hex _ => true
  | .newId => true
  | .enqueueCapture _ => true
  | .enqueued _ => true
  | _ => false

def RedirectOp.isEnqueue : RedirectOp → Bool
  | .enqueueCapture _ => true
  | _ => false

/-- The program has finished, or waits for a dependency. -/
def AtRest {α : Type} : RedirectFlow α → Prop
  | .done _ => True
  | .call i _ => i.isDependency = true

/-- The program waits for the tenant or for the link. -/
def AwaitsResolution {α : Type} (q : RedirectFlow α) : Prop :=
  (∃ handle k, q = .call (.resolveTenant handle) k) ∨
    ∃ tenantId slug k, q = .call (.resolveLink tenantId slug) k

section

variable {acceptsUrl : JsString → Bool} {α : Type} {post : α → Exchange → Prop}

/-- At most one response was sent, after the resolution had settled, and it is the right one. -/
def Exchange.Proper (acceptsUrl : JsString → Bool) (x : Exchange) : Prop :=
  x.sent = [] ∨
    x.settled = true ∧ ∃ s, x.sent = [s] ∧ s.Answers (redirectLocation acceptsUrl x.link)

theorem Exchange.Proper.settled {x : Exchange} (hx : x.Proper acceptsUrl)
    (hsent : x.sent.length = 1) : x.settled = true := by
  rcases hx with hnil | ⟨hsettled, -⟩
  · rw [hnil] at hsent
    cases hsent
  · exact hsettled

theorem proper_step (x : Exchange) (i : RedirectOp) (r : i.Response)
    (hi : permitted acceptsUrl i x) (hx : x.Proper acceptsUrl) :
    (x.step ⟨i, r⟩).Proper acceptsUrl := by
  cases i with
  | resolveTenant handle =>
    refine .inl ?_
    rcases r with error | - | tenantId <;> exact hi.1
  | resolveLink tenantId slug =>
    refine .inl ?_
    rcases r with error | link <;> exact hi.1
  | set name value => exact .inl hi
  | status code => exact .inl hi
  | endWith body =>
    refine .inr ⟨hi.2.1, ⟨x.status, x.headers, body⟩, ?_, hi.2.2⟩
    show x.sent ++ _ = _
    rw [hi.1, List.nil_append]
  | _ => exact hx

/-- What was sent stays sent. -/
theorem sent_step {sent : List Sent} (hsent : sent ≠ []) (x : Exchange) (i : RedirectOp)
    (r : i.Response) (hi : permitted acceptsUrl i x) (hx : x.sent = sent) :
    (x.step ⟨i, r⟩).sent = sent := by
  cases i with
  | resolveTenant handle => rcases r with error | - | tenantId <;> exact hx
  | resolveLink tenantId slug => rcases r with error | link <;> exact hx
  | endWith body => exact absurd (hx.symm.trans hi.1) hsent
  | _ => exact hx

theorem enqueues_step (x : Exchange) (i : RedirectOp) (r : i.Response) :
    (x.step ⟨i, r⟩).enqueues = x.enqueues + (if i.isEnqueue then 1 else 0) := by
  cases i with
  | resolveTenant handle => rcases r with error | - | tenantId <;> rfl
  | resolveLink tenantId slug => rcases r with error | link <;> rfl
  | _ => rfl

theorem enqueues_foldl (h : List RedirectEvent) (x : Exchange) :
    (h.foldl Exchange.step x).enqueues =
      x.enqueues + h.countP fun e => e.1.isEnqueue := by
  induction h generalizing x with
  | nil => rfl
  | cons e h ih =>
    rw [List.foldl_cons, ih, enqueues_step, List.countP_cons]
    omega

/-- Where a request rests, it has been answered, or it waits for the resolution. -/
theorem sent_of_atRest {q : RedirectFlow Unit} {x : Exchange}
    (hq : (watched acceptsUrl).Ensures (fun _ x => x.sent.length = 1) (fun _ _ => False) q x)
    (hrest : AtRest q) : x.sent.length = 1 ∨ x.settled = false ∧ AwaitsResolution q := by
  cases q with
  | done r =>
    cases r with
    | ok u => exact .inl hq
    | error e => exact absurd hq id
  | call i k =>
    have hi : permitted acceptsUrl i x := hq.1
    cases i with
    | resolveTenant handle => exact .inr ⟨hi.2, .inl ⟨handle, k, rfl⟩⟩
    | resolveLink tenantId slug => exact .inr ⟨hi.2, .inr ⟨tenantId, slug, k, rfl⟩⟩
    | enqueueCapture payload => exact .inl (by simpa using congrArg List.length hi.2)
    | lookupNetwork ip cfCountry => exact .inl hi
    | getDailySalt => exact .inl hi
    | sha256Hex material => exact .inl hi
    | newId => exact .inl hi
    | enqueued payload => exact .inl hi
    | _ => exact absurd hrest Bool.false_ne_true

end

/-- **Theorem (`redirect_protocol`).** In every run of a request for a link: at most one response is
sent, and exactly one wherever the resolution has settled and the request waits or has finished;
where it waits or has finished, the resolution has settled or is what it waits for; the response is
the redirect to the location of the resolved link, or a 404 where there is none; an event is
enqueued at most once, after a 307; and what was sent is never touched again. -/
theorem redirect_protocol (deps : RedirectMiddleware) (req : RedirectRequest)
    (handle slug : JsString) (h : List RedirectEvent) (q : RedirectFlow Unit)
    (htarget : deps.parseRequestTarget ((readHeader req.headers (lit "host")).getD []) req.path =
      .link handle slug)
    (hr : Runs (redirectMiddleware deps req) h q) :
    (exchange h).sent.length ≤ 1 ∧
    (AtRest q → (exchange h).settled = true → (exchange h).sent.length = 1) ∧
    (AtRest q → (exchange h).settled = true ∨ AwaitsResolution q) ∧
    (∀ s ∈ (exchange h).sent, s.Answers (redirectLocation deps.acceptsUrl (exchange h).link)) ∧
    (∀ h₁ payload, Interp.IssuedAt h q h₁ (.enqueueCapture payload) →
      (∀ e ∈ h₁, ∀ earlier, e.1 ≠ .enqueueCapture earlier) ∧
        (exchange h₁).sent.map Sent.status = [307]) ∧
    ∀ h₁ h₂, h = h₁ ++ h₂ → (exchange h₁).sent ≠ [] → (exchange h).sent = (exchange h₁).sent := by
  unfold redirectMiddleware at hr
  rw [htarget] at hr
  have hfresh : Exchange.Fresh {} := ⟨rfl, rfl, rfl, rfl, rfl⟩
  have hp : (watched deps.acceptsUrl).Ensures (fun _ x => x.sent.length = 1) (fun _ _ => False)
      (linkRequest deps handle slug req.toCaptureRequest) {} := ensures_linkRequest hfresh
  have hq := (Interp.execs_monitor hr).wp hp
  have hproper : (exchange h).Proper deps.acceptsUrl :=
    Interp.monitor_invariant proper_step hp hr (.inl rfl)
  refine ⟨?_, ?_, ?_, ?_, ?_, ?_⟩
  · rcases hproper with hnil | ⟨-, s, hs, -⟩
    · simp [hnil]
    · simp [hs]
  · intro hrest hsettled
    rcases sent_of_atRest hq hrest with hsent | ⟨hopen, -⟩
    · exact hsent
    · exact absurd (hopen.symm.trans hsettled) Bool.false_ne_true
  · intro hrest
    exact (sent_of_atRest hq hrest).imp hproper.settled And.right
  · intro s hs
    rcases hproper with hnil | ⟨-, s', hs', hanswers⟩
    · rw [hnil] at hs
      exact absurd hs List.not_mem_nil
    · rw [hs', List.mem_singleton] at hs
      exact hs ▸ hanswers
  · intro h₁ payload hi
    obtain ⟨hnone, hsent⟩ := Interp.pre_of_issued hp hr hi
    refine ⟨?_, hsent⟩
    rw [enqueues_foldl, Nat.zero_add, List.countP_eq_zero] at hnone
    intro e he earlier hearlier
    exact hnone e he (by rw [hearlier]; rfl)
  · rintro h₁ h₂ rfl hsent
    obtain ⟨s, hs, hq⟩ := hr.split
    have hps := (Interp.execs_monitor hs).wp hp
    have := Interp.monitor_invariant (sent_step hsent) hps hq rfl
    rw [← this]
    simp [exchange]

/-! ## A redirect whose capture fails -/

def promoMiddleware : RedirectMiddleware where
  platform := .plain
  acceptsUrl t := (lit "https://").isPrefixOf t
  errorType _ := lit "Error"
  parseRequestTarget _ _ := .link (lit "ann") (lit "promo")

def promoRequest : RedirectRequest where
  method := some (lit "GET")
  headers _ := none
  path := lit "/promo"

/-- The link resolves, with blanks around its destination, and there is no salt. -/
def saltless : Handler RedirectOp RedirectOp.Response := fun _ i =>
  match i with
  | .resolveTenant _ => .ok (some (lit "t1"))
  | .resolveLink .. => .ok (some ⟨lit "l1", lit "t1", lit " https://example.com "⟩)
  | .lookupNetwork .. => .ok ⟨none, none⟩
  | .getDailySalt => .error (.new (lit "no salt"))
  | .sha256Hex material => .ok material
  | .newId => .ok (lit "01J00000000000000000000000")
  | .now => (0 : Int)
  | .enqueueCapture _ => .ok ()
  | .enqueued _ => .ok ()
  | .renderNotFound slug => slug
  | .logError .. => ()
  | .countHandleRootHit => ()
  | .countOpenRedirectRejected => ()
  | .set .. => ()
  | .status _ => ()
  | .endWith _ => ()
  | .next => ()

theorem redirect_protocol_saltless : ∃ h, Runs (redirectMiddleware promoMiddleware promoRequest) h
      (.done (.ok ())) ∧
    (exchange h).sent = [⟨307, [(lit "Location", lit "https://example.com"),
      (lit "Cache-Control", lit "no-store")], none⟩] ∧
    ∀ s ∈ (exchange h).sent,
      s.Answers (redirectLocation promoMiddleware.acceptsUrl (exchange h).link) := by
  obtain ⟨h, hh, hr⟩ := runs_run saltless [] (redirectMiddleware promoMiddleware promoRequest)
  rw [List.nil_append] at hh
  subst hh
  exact ⟨_, hr, by decide +kernel,
    (redirect_protocol promoMiddleware promoRequest _ _ _ _ rfl hr).2.2.2.1⟩

end Posta.Api
