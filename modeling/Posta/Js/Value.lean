import Posta.Js.Json

/-!
# Values and exceptions

**Values** (`JsValue`). A property that the program reads is absent, a JSON value, or one of the
two builtins that a lookup by an arbitrary key finds on every object literal through its
prototype: the function `Object` under `constructor`, and `Object.prototype` under `__proto__`.

**Exceptions** (`Thrown`). Anything may be thrown. Of an `Error` the model keeps the properties
that the program looks at; anything else is known by its string.
-/

namespace Js

/-- What a property read yields. -/
inductive JsValue where
  | undefined
  | json (v : Json)
  | objectConstructor
  | objectPrototype

/-- The value of a property that is present. -/
def JsValue.ofOption : Option Json → JsValue
  | none => .undefined
  | some v => .json v

/-- A string or `null`. -/
def JsValue.ofNullable : Option JsString → JsValue
  | none => .json .null
  | some s => .json (.str s)

/-- What `JSON.stringify` writes for a property; `none` where it leaves the property out. -/
def JsValue.toJson? : JsValue → Option Json
  | .undefined => none
  | .json v => some v
  | .objectConstructor => none
  | .objectPrototype => some (.obj [])

/-- Lookup of an own property. -/
def lookup (ms : List (JsString × Json)) (k : JsString) : Option Json :=
  (ms.find? fun m => m.1 = k).map Prod.snd

/-- What was thrown: an `Error` with the properties the program reads, or any other value with
its string. `code` is kept when it is a string, `httpStatusCode` when it is a number. -/
inductive Thrown where
  | error (name message : JsString) (code : Option JsString) (throttling : Bool)
      (httpStatusCode : Option Int) (cause : Option Thrown)
  | value (text : JsString)

namespace Thrown

/-- `error instanceof Error`. -/
def isError : Thrown → Bool
  | .error .. => true
  | .value _ => false

/-- `new Error(message)`. -/
def new (message : JsString) : Thrown := .error (lit "Error") message none false none none

/-- `error instanceof Error ? error.message : String(error)`. -/
def errorMessage : Thrown → JsString
  | .error _ message .. => message
  | .value text => text

/-- `error instanceof Error ? error : new Error(errorMessage(error))`. -/
def toError : Thrown → Thrown
  | .error name message code throttling httpStatusCode cause =>
    .error name message code throttling httpStatusCode cause
  | .value text => .new text

@[simp] theorem toError_of_isError {e : Thrown} (h : e.isError = true) : e.toError = e := by
  cases e with
  | error => rfl
  | value => cases h

end Thrown

end Js
