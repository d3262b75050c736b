import Posta.Js.Date
import Posta.Js.Value

/-!
# The platform

What the program uses and does not define: the reading of date texts that ECMAScript leaves to
the engine, the URL parser, and the user-agent parser. Nothing is assumed about them unless a
statement says so.
-/

namespace Posta

open Js

/-- The metadata of a log line. -/
abbrev LogMeta := List (JsString × Json)

/-- The parts of a parsed URL that the program reads. -/
structure Url where
  protocol : JsString
  username : JsString
  password : JsString
  host : JsString
  hostname : JsString
  pathname : JsString
  search : JsString
  hash : JsString

/-- What the user-agent parser reports; `none` where it reports `undefined`. -/
structure UaResult where
  browserName : Option JsString
  browserVersion : Option JsString
  osName : Option JsString
  deviceType : Option JsString

structure Platform where
  /-- `new Date(text)` of a text that is not a UTC date-time. -/
  otherDate : JsString → Option Int
  /-- `new URL(text)`, `none` where it throws. -/
  url : JsString → Option Url
  /-- `new UAParser(text).getResult()`, `none` where it throws. -/
  userAgent : JsString → Option UaResult

/-- `new Date(text)`, `none` for an invalid date. -/
def Platform.date (P : Platform) (text : JsString) : Option Int := parseDate P.otherDate text

theorem Platform.date_time (P : Platform) {text : JsString} {t : Int}
    (h : isoInstant text = some t) : P.date text = some t := parseDate_of_isoInstant h

/-- A platform whose engine reads no other date texts and whose parsers find nothing. -/
def Platform.plain : Platform where
  otherDate _ := none
  url _ := none
  userAgent _ := none

end Posta
