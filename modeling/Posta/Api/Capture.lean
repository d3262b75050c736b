import Posta.Core.Platform
import Posta.Interaction.Prog
import Posta.Js.Date
import Posta.Js.Strings

/-!
# What the redirect captures of a request

The signals are read from the headers by name, the client's address only to be hashed with the
salt of the day. The payload gets its id and its time when it is built.
-/

namespace Posta.Api

open Js Interaction

/-- The value of a request header: a text, or the texts of a repeated header. -/
inductive HeaderValue where
  | text (value : JsString)
  | texts (values : List JsString)

abbrev IncomingHttpHeaders := JsString → Option HeaderValue

structure CaptureRequest where
  method : Option JsString
  headers : IncomingHttpHeaders

structure HeaderSignals where
  httpMethod : Option JsString
  userAgent : Option JsString
  referer : Option JsString
  accept : Option JsString
  acceptLanguage : Option JsString
  secFetchSite : Option JsString
  secFetchMode : Option JsString
  secFetchDest : Option JsString
  secFetchUser : Option JsString
  secChUa : Option JsString
  secChUaMobile : Option JsString
  secChUaPlatform : Option JsString
  secPurpose : Option JsString
  purpose : Option JsString
  xPurpose : Option JsString
  xMoz : Option JsString
  deriving DecidableEq

def readHeader (headers : IncomingHttpHeaders) (name : JsString) : Option JsString :=
  match headers name with
  | some (.texts values) => values.head?
  | some (.text value) => some value
  | none => none

def readSignals (req : CaptureRequest) : HeaderSignals where
  httpMethod := req.method
  userAgent := readHeader req.headers (lit "user-agent")
  referer := readHeader req.headers (lit "referer")
  accept := readHeader req.headers (lit "accept")
  acceptLanguage := readHeader req.headers (lit "accept-language")
  secFetchSite := readHeader req.headers (lit "sec-fetch-site")
  secFetchMode := readHeader req.headers (lit "sec-fetch-mode")
  secFetchDest := readHeader req.headers (lit "sec-fetch-dest")
  secFetchUser := readHeader req.headers (lit "sec-fetch-user")
  secChUa := readHeader req.headers (lit "sec-ch-ua")
  secChUaMobile := readHeader req.headers (lit "sec-ch-ua-mobile")
  secChUaPlatform := readHeader req.headers (lit "sec-ch-ua-platform")
  secPurpose := readHeader req.headers (lit "sec-purpose")
  purpose := readHeader req.headers (lit "purpose")
  xPurpose := readHeader req.headers (lit "x-purpose")
  xMoz := readHeader req.headers (lit "x-moz")

def leftmostForwardedFor (value : JsString) : Option JsString :=
  let leading := trim (firstPart (unit ',') value)
  if leading = [] then none else some leading

def readClientIp (headers : IncomingHttpHeaders) : Option JsString :=
  match readHeader headers (lit "cf-connecting-ip") with
  | some (c :: ip) => some (c :: ip)
  | _ => (readHeader headers (lit "x-forwarded-for")).bind leftmostForwardedFor

/-! ## The visitor hash -/

def visitorHashLength : Nat := 32

def visitorHashDelimiter : CodeUnit := 0

def hashDelimiterMessage (field : JsString) : JsString :=
  lit "computeVisitorHash: " ++ field ++
    lit " contains the hash delimiter byte; refusing to hash rather " ++
    lit "than silently colliding at a field boundary. (The offending value is deliberately not " ++
    lit "included in this message — see capture.ts for why.)"

def assertNoHashDelimiter (value field : JsString) : Except Thrown Unit :=
  if visitorHashDelimiter ∉ value then .ok () else .error (.new (hashDelimiterMessage field))

/-- What is hashed: the address, the user agent and the salt, which contain no delimiter. -/
def hashMaterial (ip : JsString) (userAgent : Option JsString) (salt : JsString) :
    Except Thrown JsString := do
  let effectiveUserAgent := userAgent.getD []
  assertNoHashDelimiter ip (lit "ip")
  assertNoHashDelimiter effectiveUserAgent (lit "userAgent")
  assertNoHashDelimiter salt (lit "salt")
  return ip ++ [visitorHashDelimiter] ++ effectiveUserAgent ++ [visitorHashDelimiter] ++ salt

/-! ## The payload -/

/-- The event as it is enqueued. -/
structure CapturePayload where
  eventId : JsString
  occurredAt : JsString
  tenantId : JsString
  linkId : JsString
  slug : JsString
  signals : HeaderSignals
  country : Option JsString
  asn : Option JsNumber
  visitorHash : Option JsString
  deriving DecidableEq

structure CapturePayloadInput where
  tenantId : JsString
  linkId : JsString
  slug : JsString
  signals : HeaderSignals
  visitorHash : Option JsString
  asn : Option JsNumber
  country : Option JsString

end Posta.Api
