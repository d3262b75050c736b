import Mathlib.Data.List.DropRight
import Posta.Js.Json

/-!
# String operations

**Trimming** (`trim`). White space and line terminators go at both ends; trimming twice is
trimming once (`trim_trim`).

**Case** (`toLowerCase`). On text of ASCII the upper-case letters change and nothing else does.

**Searching** (`splitAtLast`). A text in front of and behind the last occurrence of a code unit.

**Characters** (`characters`). What iterating a string yields: a surrogate pair is one character,
any other code unit is one by itself. `encodeURIComponent` of a character is its UTF-8 text,
percent-encoded; a lone surrogate has none.
-/

namespace Js

/-! ## Trimming -/

/-- White space or a line terminator. -/
def isWhiteSpace (c : CodeUnit) : Bool :=
  (0x9 ≤ c.toNat && c.toNat ≤ 0xD) || (0x2000 ≤ c.toNat && c.toNat ≤ 0x200A) ||
    [0x20, 0xA0, 0x1680, 0x2028, 0x2029, 0x202F, 0x205F, 0x3000, 0xFEFF].contains c.toNat

/-- `s.trim()`. -/
def trim (s : JsString) : JsString := (s.dropWhile isWhiteSpace).rdropWhile isWhiteSpace

theorem trim_trim (s : JsString) : trim (trim s) = trim s := by
  have hfirst : (trim s).dropWhile isWhiteSpace = trim s := by
    cases ht : trim s with
    | nil => rfl
    | cons c t =>
      obtain ⟨u, hu⟩ : trim s <+: s.dropWhile isWhiteSpace := List.rdropWhile_prefix _ _
      have hc := List.head?_dropWhile_not isWhiteSpace s
      rw [← hu, ht] at hc
      rw [List.dropWhile_cons_of_neg]
      simpa using hc
  rw [trim, hfirst]
  exact List.rdropWhile_idempotent _ _

/-- `s.split(separator)[0]`, for a separator of one code unit. -/
def firstPart (separator : CodeUnit) (s : JsString) : JsString := s.takeWhile (· ≠ separator)

theorem not_space_of_graphic {c : CodeUnit} (h : 0x20 < c.toNat ∧ c.toNat < 0x80) :
    isWhiteSpace c = false := by
  simp only [isWhiteSpace, List.contains_cons, List.contains_nil, Bool.or_false,
    Bool.or_eq_false_iff, Bool.and_eq_false_iff, decide_eq_false_iff_not, beq_eq_false_iff_ne]
  omega

theorem trim_of_all {s : JsString} (h : ∀ c ∈ s, isWhiteSpace c = false) : trim s = s := by
  have hfirst : s.dropWhile isWhiteSpace = s := by
    cases s with
    | nil => rfl
    | cons c t => exact List.dropWhile_cons_of_neg (by simp [h c List.mem_cons_self])
  rw [trim, hfirst, List.rdropWhile_eq_self_iff]
  intro hne
  simp [h _ (List.getLast_mem hne)]

/-! ## Case -/

def isAscii (c : CodeUnit) : Bool := c.toNat < 128

def asciiLower (c : CodeUnit) : CodeUnit := if 65 ≤ c.toNat && c.toNat ≤ 90 then c + 32 else c

/-- `s.toLowerCase()`; `other` is what the engine makes of text that is not ASCII. -/
def toLowerCase (other : JsString → JsString) (s : JsString) : JsString :=
  if s.all isAscii then s.map asciiLower else other s

theorem asciiLower_spec (c : CodeUnit) :
    (asciiLower c).toNat = if 65 ≤ c.toNat ∧ c.toNat ≤ 90 then c.toNat + 32 else c.toNat := by
  unfold asciiLower
  by_cases h : 65 ≤ c.toNat ∧ c.toNat ≤ 90
  · have h32 : (32 : CodeUnit).toNat = 32 := rfl
    have hcond : (decide (65 ≤ c.toNat) && decide (c.toNat ≤ 90)) = true := by simpa using h
    rw [if_pos hcond, if_pos h, UInt16.toNat_add, h32, Nat.mod_eq_of_lt (by omega)]
  · have hcond : ¬ (decide (65 ≤ c.toNat) && decide (c.toNat ≤ 90)) = true := by simpa using h
    rw [if_neg hcond, if_neg h]

theorem toLowerCase_ascii (other : JsString → JsString) {s : JsString}
    (h : ∀ c ∈ s, isAscii c = true) : toLowerCase other s = s.map asciiLower :=
  if_pos (List.all_eq_true.2 h)

/-- Text of ASCII without upper-case letters. -/
theorem toLowerCase_of_lower (other : JsString → JsString) {s : JsString}
    (h : ∀ c ∈ s, isAscii c = true ∧ asciiLower c = c) : toLowerCase other s = s := by
  rw [toLowerCase_ascii other fun c hc => (h c hc).1]
  exact (List.map_congr_left fun c hc => (h c hc).2).trans (List.map_id s)

/-! ## Searching -/

def splitAtLast (separator : CodeUnit) : JsString → Option (JsString × JsString)
  | [] => none
  | c :: s =>
    match splitAtLast separator s with
    | some (before, behind) => some (c :: before, behind)
    | none => if c = separator then some ([], s) else none

theorem splitAtLast_eq_none_iff {separator : CodeUnit} {s : JsString} :
    splitAtLast separator s = none ↔ separator ∉ s := by
  induction s with
  | nil => simp [splitAtLast]
  | cons c s ih =>
    unfold splitAtLast
    cases hs : splitAtLast separator s with
    | none =>
      have hmem : separator ∉ s := ih.1 hs
      by_cases hc : c = separator
      · simp [hc]
      · simp [hc, hmem, Ne.symm hc]
    | some p =>
      have hmem : separator ∈ s := by
        by_contra hmem
        rw [ih.2 hmem] at hs
        cases hs
      simp [hmem]

theorem splitAtLast_append {separator : CodeUnit} (before : JsString) {behind : JsString}
    (h : separator ∉ behind) :
    splitAtLast separator (before ++ separator :: behind) = some (before, behind) := by
  induction before with
  | nil =>
    rw [List.nil_append, splitAtLast, splitAtLast_eq_none_iff.2 h]
    exact if_pos rfl
  | cons c before ih => rw [List.cons_append, splitAtLast, ih]

theorem of_splitAtLast {separator : CodeUnit} {s before behind : JsString}
    (h : splitAtLast separator s = some (before, behind)) :
    s = before ++ separator :: behind ∧ separator ∉ behind := by
  induction s generalizing before with
  | nil => cases h
  | cons c s ih =>
    unfold splitAtLast at h
    cases hs : splitAtLast separator s with
    | none =>
      rw [hs] at h
      obtain ⟨hc, h⟩ := Option.ite_none_right_eq_some.1 h
      obtain ⟨rfl, rfl⟩ := Prod.mk.inj (Option.some.inj h)
      exact ⟨congrArg (· :: s) hc, splitAtLast_eq_none_iff.1 hs⟩
    | some p =>
      rw [hs] at h
      obtain ⟨rfl, rfl⟩ := Prod.mk.inj (Option.some.inj h)
      obtain ⟨hs, hmem⟩ := ih hs
      exact ⟨congrArg (c :: ·) hs, hmem⟩

/-! ## Characters -/

def characters : JsString → List JsString
  | [] => []
  | [c] => [[c]]
  | c :: d :: s =>
    if isHighSurrogate c && isLowSurrogate d then [c, d] :: characters s
    else [c] :: characters (d :: s)

/-- `char.codePointAt(0)` of a character. -/
def codePoint : JsString → Nat
  | [c, d] => 0x10000 + (c.toNat - 0xD800) * 0x400 + (d.toNat - 0xDC00)
  | c :: _ => c.toNat
  | [] => 0

def utf8 (n : Nat) : List Nat :=
  if n < 0x80 then [n]
  else if n < 0x800 then [0xC0 + n / 64, 0x80 + n % 64]
  else if n < 0x10000 then [0xE0 + n / 4096, 0x80 + n / 64 % 64, 0x80 + n % 64]
  else [0xF0 + n / 262144, 0x80 + n / 4096 % 64, 0x80 + n / 64 % 64, 0x80 + n % 64]

/-- An upper-case hexadecimal digit. -/
def upperHexDigit (d : Nat) : CodeUnit := UInt16.ofNat (if d < 10 then 48 + d else 55 + d)

def percentByte (b : Nat) : JsString := [unit '%', upperHexDigit (b / 16), upperHexDigit (b % 16)]

/-- What `encodeURIComponent` leaves as it is. -/
def isUnreserved (c : CodeUnit) : Bool :=
  isDigit c || (65 ≤ c.toNat && c.toNat ≤ 90) || (97 ≤ c.toNat && c.toNat ≤ 122) ||
    (lit "-_.!~*'()").contains c

/-- `encodeURIComponent(char)` of a character, `none` where it throws. -/
def encodeURIComponent (char : JsString) : Option JsString :=
  match char with
  | [c] =>
    if isUnreserved c then some [c]
    else if isHighSurrogate c || isLowSurrogate c then none
    else some ((utf8 (codePoint char)).flatMap percentByte)
  | _ => some ((utf8 (codePoint char)).flatMap percentByte)

example : encodeURIComponent (lit "ñ") = some (lit "%C3%B1") := by decide

end Js
