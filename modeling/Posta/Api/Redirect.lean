import Posta.Api.Capture
import Posta.Api.RedirectResponse
import Posta.Contracts.Links
import Posta.Contracts.Redact

/-!
# The redirect middleware

A request for a link is answered by a redirect or a 404, and the click is captured afterwards. Its
dependencies, the response and the counters are operations; a dependency may fail, or never answer.
-/

namespace Posta.Api

open Js Interaction

structure NetworkLookup where
  asn : Option JsNumber
  country : Option JsString

inductive RedirectOp where
  | resolveTenant (handle : JsString)
  | resolveLink (tenantId slug : JsString)
  | lookupNetwork (ip : JsString) (cfCountry : Option JsString)
  | getDailySalt
  | sha256Hex (material : JsString)
  | newId
  | now
  /-- `queue.add` through `enqueueCapture`: it throws, or returns a promise. -/
  | enqueueCapture (payload : CapturePayload)
  /-- The promise of `enqueueCapture`. -/
  | enqueued (payload : CapturePayload)
  | renderNotFound (slug : JsString)
  | logError (message : JsString) (logMeta : LogMeta)
  | countHandleRootHit
  | countOpenRedirectRejected
  | set (name value : JsString)
  | status (code : Nat)
  | endWith (body : Option JsString)
  | next

/-- The response object, the not-found page, the counters, the clock and the loggers do not fail. -/
def RedirectOp.Response : RedirectOp → Type
  | .resolveTenant _ => Except Thrown (Option JsString)
  | .resolveLink .. => Except Thrown (Option CachedLink)
  | .lookupNetwork .. => Except Thrown NetworkLookup
  | .getDailySalt => Except Thrown JsString
  | .sha256Hex _ => Except Thrown JsString
  | .newId => Except Thrown JsString
  | .now => Int
  | .enqueueCapture _ => Except Thrown Unit
  | .enqueued _ => Except Thrown Unit
  | .renderNotFound _ => JsString
  | _ => Unit

abbrev RedirectFlow (α : Type) := Flow RedirectOp RedirectOp.Response Thrown α

abbrev RedirectEvent := Event RedirectOp RedirectOp.Response

structure RedirectRequest extends CaptureRequest where
  path : JsString

inductive RequestTarget where
  | link (handle slug : JsString)
  | handleRoot (handle : JsString)
  | reservedPath
  | reservedHandle (handle : JsString)
  | invalidPath
  | notOurs

structure RedirectMiddleware where
  platform : Platform
  /-- `z.url({ protocol: /^https?$/ })` on a trimmed text. -/
  acceptsUrl : JsString → Bool
  /-- `error instanceof Error ? error.constructor.name : typeof error`. -/
  errorType : Thrown → JsString
  parseRequestTarget : JsString → JsString → RequestTarget

/-! ## Responses -/

def notFoundCsp : JsString :=
  lit "default-src 'none'; style-src 'unsafe-inline'; frame-ancestors 'none'"

def sendNotFound (slug : JsString) : RedirectFlow Unit := do
  Flow.perform (RedirectOp.set (lit "Cache-Control") (lit "no-store"))
  Flow.perform (RedirectOp.set (lit "Content-Type") (lit "text/html; charset=utf-8"))
  Flow.perform (RedirectOp.set (lit "Content-Security-Policy") notFoundCsp)
  Flow.perform (RedirectOp.set (lit "X-Content-Type-Options") (lit "nosniff"))
  Flow.perform (RedirectOp.status 404)
  let body : JsString ← Flow.perform (RedirectOp.renderNotFound slug)
  Flow.perform (RedirectOp.endWith (some body))

/-- It leaves the response alone where the destination cannot be encoded. -/
def sendLinkRedirect (destination : JsString) : RedirectFlow Bool :=
  match encodeDestinationForHeader destination with
  | none => pure false
  | some encoded => do
    Flow.perform (RedirectOp.set (lit "Cache-Control") (lit "no-store"))
    Flow.perform (RedirectOp.set (lit "Location") encoded)
    Flow.perform (RedirectOp.status 307)
    Flow.perform (RedirectOp.endWith none)
    pure true

def describeRequestedPath (path : JsString) : JsString :=
  if lit "/" <+: path then path.drop 1 else path

/-! ## The rejected scheme -/

/-- The group of `SCHEME_PATTERN`, `/^([a-zA-Z][a-zA-Z0-9+.-]*):/`. -/
def schemeOf (destination : JsString) : Option JsString :=
  let scheme := destination.takeWhile isSchemeUnit
  match scheme, destination.drop scheme.length with
  | c :: _, d :: _ => if isLetter c && d == unit ':' then some scheme else none
  | _, _ => none

def rejectedSchemeMaxLength : Nat := 32

def describeRejectedScheme (destination : JsString) : JsString :=
  if lit "//" <+: destination then lit "(protocol-relative)"
  else match schemeOf destination with
    | none => lit "(no scheme)"
    | some scheme =>
      if scheme.length ≤ rejectedSchemeMaxLength then scheme
      else scheme.take rejectedSchemeMaxLength ++ lit "…"

/-! ## Capturing -/

def computeVisitorHash (ip : JsString) (userAgent : Option JsString) (salt : JsString) :
    RedirectFlow JsString := do
  let material ← Flow.ofExcept (hashMaterial ip userAgent salt)
  let digest ← Prog.call (RedirectOp.sha256Hex material) Prog.done
  pure (digest.take visitorHashLength)

/-- `ip ? computeVisitorHash(ip, userAgent, salt) : null`. -/
def visitorHashOf (ip : Option JsString) (userAgent : Option JsString) (salt : JsString) :
    RedirectFlow (Option JsString) :=
  match ip with
  | none => pure none
  | some ip => some <$> computeVisitorHash ip userAgent salt

def buildCapturePayload (input : CapturePayloadInput) : RedirectFlow CapturePayload := do
  let eventId ← Prog.call RedirectOp.newId Prog.done
  let now : Int ← Flow.perform RedirectOp.now
  pure { eventId, occurredAt := isoText now, tenantId := input.tenantId, linkId := input.linkId,
         slug := input.slug, signals := input.signals, country := input.country, asn := input.asn,
         visitorHash := input.visitorHash }

section

variable (deps : RedirectMiddleware)

def enqueueFailedMeta (payload : CapturePayload) (error : Thrown) : LogMeta :=
  [(lit "eventId", .str payload.eventId), (lit "tenantId", .str payload.tenantId),
    (lit "slug", .str payload.slug),
    (lit "errorName", .str (match error with
      | .error name .. => name
      | .value _ => deps.errorType error)),
    (lit "errorMessage", .str (redactCredentialsFromMessage deps.platform error.errorMessage))]

/-- `.catch((error) => logEnqueueFailure(error, context))` on the promise of `enqueueCapture`. -/
def catchEnqueueFailure (payload : CapturePayload) : RedirectFlow Unit :=
  tryCatch (Prog.call (RedirectOp.enqueued payload) Prog.done) fun error =>
    Flow.perform (RedirectOp.logError
      (lit "Enqueue failed; the redirect already succeeded, event dropped")
      (enqueueFailedMeta deps payload error))

/-- The payload whose enqueueing goes on, or `none` where the capture failed. -/
def capture (req : CaptureRequest) (tenantId slug : JsString) (link : CachedLink) :
    RedirectFlow (Option CapturePayload) :=
  tryCatch (do
    let ip := readClientIp req.headers
    let signals := readSignals req
    let cfCountry := match req.headers (lit "cf-ipcountry") with
      | some (.text value) => some value
      | _ => none
    let network ← Prog.call (RedirectOp.lookupNetwork (ip.getD []) cfCountry) Prog.done
    let salt ← Prog.call RedirectOp.getDailySalt Prog.done
    let visitorHash ← visitorHashOf ip signals.userAgent salt
    let payload ← buildCapturePayload
      { tenantId, linkId := link.linkId, slug, signals, visitorHash, asn := network.asn,
        country := network.country }
    Prog.call (RedirectOp.enqueueCapture payload) Prog.done
    pure (some payload))
    fun error => do
      Flow.perform (RedirectOp.logError
        (lit "Capture failed; the redirect already succeeded, no analytics for this request")
        [(lit "errorType", .str (deps.errorType error)), (lit "tenantId", .str tenantId),
          (lit "slug", .str slug)])
      pure none

/-! ## A request for a link -/

/-- The tenant and the link, or `none` where the request has been answered. -/
def resolveTarget (handle slug : JsString) : RedirectFlow (Option (JsString × CachedLink)) :=
  tryCatch (do
    let tenantId ← Prog.call (RedirectOp.resolveTenant handle) Prog.done
    match tenantId with
    | none => do
      sendNotFound slug
      pure none
    | some tenantId => do
      let link ← Prog.call (RedirectOp.resolveLink tenantId slug) Prog.done
      match link with
      | none => do
        sendNotFound slug
        pure none
      | some link => pure (some (tenantId, link)))
    fun error => do
      Flow.perform (RedirectOp.logError
        (lit "Link resolution failed; answering 404 rather than leaving the request hanging")
        [(lit "errorType", .str (deps.errorType error)), (lit "handle", .str handle),
          (lit "slug", .str slug)])
      sendNotFound slug
      pure none

/-- Whether the request was answered by a redirect; otherwise it was answered by a 404. -/
def answer (slug : JsString) (link : CachedLink) : RedirectFlow Bool :=
  match zDestination deps.acceptsUrl link.destination with
  | none => do
    Flow.perform (RedirectOp.logError
      (lit "Resolved destination failed the read-time open-redirect guard; refusing to redirect. " ++
        lit "A destination this deployment itself validates at write time should never reach " ++
        lit "here — this means a Redis or Postgres value was written to directly, bypassing " ++
        lit "every application-level check.")
      [(lit "linkId", .str link.linkId),
        (lit "rejectedScheme", .str (describeRejectedScheme link.destination))])
    Flow.perform RedirectOp.countOpenRedirectRejected
    sendNotFound slug
    pure false
  | some destination => do
    let redirected ← sendLinkRedirect destination
    if redirected then pure true
    else do
      sendNotFound slug
      pure false

/-- The payload whose enqueueing goes on after the handler has returned. -/
def handleLinkTarget (handle slug : JsString) (req : CaptureRequest) :
    RedirectFlow (Option CapturePayload) := do
  let resolved ← resolveTarget deps handle slug
  match resolved with
  | none => pure none
  | some (tenantId, link) => do
    let redirected ← answer deps slug link
    if redirected then capture deps req tenantId slug link else pure none

def handlerRejectedMessage : JsString :=
  lit "handleLinkTarget rejected unexpectedly — this should be structurally impossible; its " ++
    lit "own two try/catch blocks are meant to cover every throw. See this case's own comment."

/-- `void handleLinkTarget(…).catch(…)`, and what it leaves running. -/
def linkRequest (handle slug : JsString) (req : CaptureRequest) : RedirectFlow Unit := do
  let left ← tryCatch (handleLinkTarget deps handle slug req) fun error => do
    Flow.perform (RedirectOp.logError handlerRejectedMessage
      [(lit "errorType", .str (deps.errorType error))])
    pure none
  match left with
  | none => pure ()
  | some payload => catchEnqueueFailure deps payload

def handleRootMessage (handle : JsString) : JsString :=
  lit "Handle-root hit for \"" ++ handle ++
    lit "\" — \"/\" on a tenant handle host reached the " ++
    lit "API. The Cloudflare Origin Rule (path == \"/\" -> Next) is supposed to route this " ++
    lit "request to the bio page before it ever gets here; a real visitor is seeing a " ++
    lit "404 that should have been their bio page."

def redirectMiddleware (req : RedirectRequest) : RedirectFlow Unit :=
  match deps.parseRequestTarget ((readHeader req.headers (lit "host")).getD []) req.path with
  | .notOurs => Flow.perform RedirectOp.next
  | .handleRoot handle => do
    Flow.perform (RedirectOp.logError (handleRootMessage handle) [(lit "handle", .str handle)])
    Flow.perform RedirectOp.countHandleRootHit
    sendNotFound []
  | .link handle slug => linkRequest deps handle slug req.toCaptureRequest
  | .reservedPath => sendNotFound (describeRequestedPath req.path)
  | .invalidPath => sendNotFound (describeRequestedPath req.path)
  | .reservedHandle _ => sendNotFound []

end

end Posta.Api
