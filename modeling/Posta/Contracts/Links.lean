import Posta.Js.Strings

/-!
# The contract of a link

A destination is trimmed, must be an absolute `http` or `https` URL, and is at most 2048 code units
long. Which texts are URLs is the schema library's business (`acceptsUrl`).
-/

namespace Posta

open Js

def destinationMaxLength : Nat := 2048

/-- `zDestination.safeParse(s)`: the trimmed text, or `none` where it is refused. `acceptsUrl` is
the check of `z.url({ protocol: /^https?$/ })` on a trimmed text. -/
def zDestination (acceptsUrl : JsString → Bool) (s : JsString) : Option JsString :=
  let trimmed := trim s
  if acceptsUrl trimmed && trimmed.length ≤ destinationMaxLength then some trimmed else none

theorem zDestination_eq_some {acceptsUrl : JsString → Bool} {s d : JsString} :
    zDestination acceptsUrl s = some d ↔
      trim s = d ∧ acceptsUrl d = true ∧ d.length ≤ destinationMaxLength := by
  simp only [zDestination, Option.ite_none_right_eq_some, Option.some.injEq, Bool.and_eq_true,
    decide_eq_true_eq]
  constructor
  · rintro ⟨h, rfl⟩
    exact ⟨rfl, h⟩
  · rintro ⟨rfl, h⟩
    exact ⟨h, rfl⟩

/-- What the schema returns it accepts as it is. -/
theorem zDestination_idem {acceptsUrl : JsString → Bool} {s d : JsString}
    (h : zDestination acceptsUrl s = some d) : zDestination acceptsUrl d = some d := by
  obtain ⟨rfl, hurl, hlen⟩ := zDestination_eq_some.1 h
  exact zDestination_eq_some.2 ⟨trim_trim s, hurl, hlen⟩

/-- A link as the cache holds it and as `resolveLink` answers it. -/
structure CachedLink where
  linkId : JsString
  tenantId : JsString
  destination : JsString
  deriving DecidableEq

end Posta
