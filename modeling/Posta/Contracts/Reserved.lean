import Posta.Js.Strings

/-!
# Reserved handles and paths

Handles that no tenant can claim, and paths that are no slug. A path is matched in lower case and
without one trailing slash; a prefix matches at the boundary of a segment.
-/

namespace Posta

open Js

def reservedHandles : List JsString :=
  [lit "app", lit "api", lit "www", lit "admin", lit "static", lit "assets", lit "cdn", lit "mail",
    lit "blog", lit "docs", lit "status"]

def reservedPaths : List JsString := [lit "/", lit "/favicon.ico", lit "/robots.txt"]

def reservedPathPrefixes : List JsString := [lit "/.well-known/"]

/-- `s.endsWith('/') ? s.slice(0, -1) : s`. -/
def dropSlash (s : JsString) : JsString := if s.getLast? = some (unit '/') then s.dropLast else s

section

variable (lower : JsString → JsString)

/-- `lower` is `toLowerCase` of text that is not ASCII. -/
def normalizeHandle (handle : JsString) : JsString := toLowerCase lower (trim handle)

def isReservedHandle (handle : JsString) (reserved : List JsString) : Bool :=
  let normalized := normalizeHandle lower handle
  if normalized = [] then false else reserved.contains normalized

def normalizeReservedPath (path : JsString) : JsString :=
  let trimmed := toLowerCase lower (trim path)
  if trimmed = [] then lit "/" else if 1 < trimmed.length then dropSlash trimmed else trimmed

def isReservedPath (path : JsString) : Bool :=
  let normalized := normalizeReservedPath lower path
  reservedPaths.contains normalized || reservedPathPrefixes.any fun reserved =>
    normalized = dropSlash reserved || reserved.isPrefixOf normalized

end

/-- Every reserved path but the root holds a dot. -/
theorem dot_mem_of_reserved {lower : JsString → JsString} {path : JsString}
    (h : isReservedPath lower path = true) :
    normalizeReservedPath lower path = lit "/" ∨ unit '.' ∈ normalizeReservedPath lower path := by
  unfold isReservedPath at h
  generalize normalizeReservedPath lower path = normalized at h ⊢
  simp only [Bool.or_eq_true, List.contains_iff_mem, List.any_eq_true, decide_eq_true_eq,
    List.isPrefixOf_iff_prefix, reservedPathPrefixes, List.mem_singleton, exists_eq_left] at h
  rcases h with h | rfl | h
  · simp only [reservedPaths, List.mem_cons, List.not_mem_nil, or_false] at h
    rcases h with rfl | rfl | rfl
    · exact .inl rfl
    · exact .inr (by decide)
    · exact .inr (by decide)
  · exact .inr (by decide)
  · exact .inr (h.subset (by decide))

end Posta
