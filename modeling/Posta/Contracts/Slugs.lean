import Posta.Contracts.Reserved

/-!
# Handles and slugs

Both are lower-case letters, digits and dashes, without a dash at either end. The path that a slug
is requested under is checked by the same rule that the slug was created by.

**Theorem (`zSlug_eq`).** A slug can be created exactly where it is valid for the redirect.
-/

namespace Posta

open Js

/-- `[a-z0-9]`. -/
def isLowerAlnum (c : CodeUnit) : Bool := isDigit c || (97 ≤ c.toNat && c.toNat ≤ 122)

/-- `[a-z0-9-]`. -/
def isLabelUnit (c : CodeUnit) : Bool := isLowerAlnum c || c == unit '-'

/-- `/^[a-z0-9]([a-z0-9-]*[a-z0-9])?$/`. -/
def matchesLabel (s : JsString) : Bool :=
  s.head?.any isLowerAlnum && s.getLast?.any isLowerAlnum && s.all isLabelUnit

def slugMaxLength : Nat := 64

/-- `/^[a-z0-9]([a-z0-9-]{0,62}[a-z0-9])?$/`. -/
def matchesSlug (s : JsString) : Bool := matchesLabel s && s.length ≤ 64

def isValidSlug (slug : JsString) : Bool :=
  if slug.length < 1 ∨ slugMaxLength < slug.length then false
  else if !matchesSlug slug then false
  else !reservedPaths.contains (lit "/" ++ slug)

/-- `zSlug.safeParse(slug).success`. -/
def zSlug (slug : JsString) : Bool :=
  1 ≤ slug.length && slug.length ≤ 64 && matchesSlug slug &&
    !reservedPaths.contains (lit "/" ++ slug)

/-- `zHandle.safeParse(handle).success`. -/
def zHandle (handle : JsString) : Bool :=
  3 ≤ handle.length && handle.length ≤ 30 && matchesLabel handle &&
    !reservedHandles.contains handle

theorem zSlug_eq (slug : JsString) : zSlug slug = isValidSlug slug := by
  unfold zSlug isValidSlug slugMaxLength
  by_cases hshort : slug.length < 1
  · simp [hshort]
  by_cases hlong : 64 < slug.length
  · simp [hlong, Nat.not_le_of_lt hlong]
  have h1 : 1 ≤ slug.length := by omega
  have h64 : slug.length ≤ 64 := by omega
  cases matchesSlug slug <;> simp [hshort, hlong, h1, h64]

/-! ## Labels -/

variable {s : JsString} {c : CodeUnit}

theorem label_of_matches (h : matchesLabel s = true) (hc : c ∈ s) : isLabelUnit c = true := by
  unfold matchesLabel at h
  rw [Bool.and_eq_true] at h
  exact List.all_eq_true.1 h.2 c hc

theorem ne_nil_of_matches (h : matchesLabel s = true) : s ≠ [] := by
  intro hs
  subst hs
  cases h

theorem matchesLabel_of_valid (h : isValidSlug s = true) :
    matchesLabel s = true ∧ s.length ≤ slugMaxLength := by
  rw [← zSlug_eq] at h
  unfold zSlug matchesSlug at h
  simp only [Bool.and_eq_true, decide_eq_true_eq] at h
  exact ⟨h.1.2.1, h.1.2.2⟩

/-- A code unit of a label is a digit, a lower-case letter or the dash. -/
theorem label_iff : isLabelUnit c = true ↔
    (48 ≤ c.toNat ∧ c.toNat ≤ 57) ∨ (97 ≤ c.toNat ∧ c.toNat ≤ 122) ∨ c.toNat = 45 := by
  have hdash : c = unit '-' ↔ c.toNat = 45 := by rw [← UInt16.toNat_inj]; rfl
  simp only [isLabelUnit, isLowerAlnum, isDigit, Bool.or_eq_true, Bool.and_eq_true,
    decide_eq_true_eq, beq_iff_eq, hdash, or_assoc]

theorem ascii_of_label (h : isLabelUnit c = true) : isAscii c = true := by
  rw [label_iff] at h
  simp only [isAscii, decide_eq_true_eq]
  omega

theorem lower_of_label (h : isLabelUnit c = true) : asciiLower c = c := by
  rw [label_iff] at h
  rw [← UInt16.toNat_inj, asciiLower_spec]
  split_ifs <;> omega

theorem not_space_of_label (h : isLabelUnit c = true) : isWhiteSpace c = false := by
  rw [label_iff] at h
  exact not_space_of_graphic (by omega)

/-- A label is its own normal form. -/
theorem normalizeHandle_of_matches (lower : JsString → JsString) (h : matchesLabel s = true) :
    normalizeHandle lower s = s := by
  unfold normalizeHandle
  rw [trim_of_all fun c hc => not_space_of_label (label_of_matches h hc)]
  apply toLowerCase_of_lower
  intro c hc
  have hlabel := label_of_matches h hc
  exact ⟨ascii_of_label hlabel, lower_of_label hlabel⟩

end Posta
