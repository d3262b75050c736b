import Posta.Js.Utf16

/-!
# The header of a redirect

A destination goes into the `Location` header as it is where every code unit is header safe, and
otherwise with every other character percent-encoded. A lone surrogate cannot be encoded.

**Characters** (`encodeCodePoints_text`). The loop encodes the UTF-16 text of some characters one
by one; a header-safe character is kept, and any other becomes its UTF-8 text, percent-encoded.

**Theorem (`encodeDestinationForHeader_spec`).** The encoding fails exactly on an unpaired
surrogate. It is otherwise header safe, changes no header-safe text, and encoding it again changes
nothing.
-/

namespace Posta.Api

open Js

/-- A horizontal tab, printable ASCII, or a character of the Latin-1 supplement. -/
def isHeaderSafeCodePoint (codePoint : Nat) : Bool :=
  codePoint = 0x09 || (0x20 ≤ codePoint && codePoint ≤ 0x7e) ||
    (0x80 ≤ codePoint && codePoint ≤ 0xff)

/-- The class of `HEADER_SAFE_DESTINATION_PATTERN`. -/
def headerSafeRanges : List (Nat × Nat) := [(0x09, 0x09), (0x20, 0x7e), (0x80, 0xff)]

/-- `HEADER_SAFE_DESTINATION_PATTERN.test(destination)`. -/
def isHeaderSafe (destination : JsString) : Bool :=
  destination.all fun c => headerSafeRanges.any fun r => r.1 ≤ c.toNat && c.toNat ≤ r.2

def encodeCharacter (char : JsString) : Option JsString :=
  if isHeaderSafeCodePoint (codePoint char) then some char else encodeURIComponent char

def encodeDestinationForHeader (destination : JsString) : Option JsString :=
  if isHeaderSafe destination then some destination
  else ((characters destination).mapM encodeCharacter).map List.flatten

example : encodeDestinationForHeader (lit "https://a.co/ñ·→") =
    some (lit "https://a.co/ñ·%E2%86%92") := by
  decide

/-! ## Header-safe text -/

theorem isHeaderSafeCodePoint_iff {n : Nat} : isHeaderSafeCodePoint n = true ↔
    n = 0x09 ∨ (0x20 ≤ n ∧ n ≤ 0x7e) ∨ (0x80 ≤ n ∧ n ≤ 0xff) := by
  simp only [isHeaderSafeCodePoint, Bool.or_eq_true, Bool.and_eq_true, decide_eq_true_eq, or_assoc]

/-- The pattern and the test of a code point agree on every code unit. -/
theorem isHeaderSafe_iff {s : JsString} :
    isHeaderSafe s = true ↔ ∀ c ∈ s, isHeaderSafeCodePoint c.toNat = true := by
  rw [isHeaderSafe, List.all_eq_true]
  apply forall₂_congr
  intro c _
  simp only [headerSafeRanges, List.any_cons, List.any_nil, Bool.or_false, Bool.or_eq_true,
    Bool.and_eq_true, decide_eq_true_eq, isHeaderSafeCodePoint_iff]
  omega

theorem isHeaderSafe_percentByte : ∀ b < 256, isHeaderSafe (percentByte b) = true := by
  decide +kernel

theorem isHeaderSafeCodePoint_of_unreserved {c : CodeUnit} (h : isUnreserved c = true) :
    isHeaderSafeCodePoint c.toNat = true := by
  rw [isHeaderSafeCodePoint_iff]
  simp only [isUnreserved, isDigit, Bool.or_eq_true, Bool.and_eq_true, decide_eq_true_eq] at h
  obtain ((h | h) | h) | h := h
  · omega
  · omega
  · omega
  · have hall : ((lit "-_.!~*'()").all fun d => isHeaderSafeCodePoint d.toNat) = true := by decide
    exact isHeaderSafeCodePoint_iff.mp (List.all_eq_true.mp hall c (List.contains_iff_mem.mp h))

theorem not_headerSafe_of_surrogate {c : CodeUnit} (h : isSurrogate c = true) :
    isHeaderSafeCodePoint c.toNat = false := by
  rw [isSurrogate_iff] at h
  rw [← Bool.not_eq_true, isHeaderSafeCodePoint_iff]
  omega

/-! ## One character -/

/-- The UTF-8 text of a character, percent-encoded. -/
def percentEncode (c : Char) : JsString :=
  (String.utf8EncodeChar c).flatMap fun b => percentByte b.toNat

/-- What a character becomes in the header. -/
def headerText (c : Char) : JsString :=
  if isHeaderSafeCodePoint c.toNat then utf16 c else percentEncode c

theorem utf8_toNat (c : Char) : utf8 c.toNat = (String.utf8EncodeChar c).map UInt8.toNat := by
  have hvalid := char_valid c
  have hval : c.val.toNat = c.toNat := rfl
  have hbyte : ∀ n < 256, (UInt8.ofNat n).toNat = n := fun n hn => UInt8.toNat_ofNat_of_lt' hn
  have hle (n : Nat) : c.toNat ≤ n ↔ c.toNat < n + 1 := Nat.lt_succ_iff.symm
  simp only [utf8, String.utf8EncodeChar, hval, hle, Nat.reduceAdd]
  by_cases h₁ : c.toNat < 0x80
  · rw [if_pos h₁, if_pos h₁, List.map_singleton, hbyte _ (by omega)]
  rw [if_neg h₁, if_neg h₁]
  by_cases h₂ : c.toNat < 0x800
  · rw [if_pos h₂, if_pos h₂]
    simp only [List.map_cons, List.map_nil, List.cons.injEq, and_true]
    rw [hbyte _ (by omega), hbyte _ (by omega)]
    omega
  rw [if_neg h₂, if_neg h₂]
  by_cases h₃ : c.toNat < 0x10000
  · rw [if_pos h₃, if_pos h₃]
    simp only [List.map_cons, List.map_nil, List.cons.injEq, and_true]
    rw [hbyte _ (by omega), hbyte _ (by omega), hbyte _ (by omega)]
    omega
  · rw [if_neg h₃, if_neg h₃]
    simp only [List.map_cons, List.map_nil, List.cons.injEq, and_true]
    rw [hbyte _ (by omega), hbyte _ (by omega), hbyte _ (by omega), hbyte _ (by omega)]
    omega

theorem percentEncode_eq (c : Char) : percentEncode c = (utf8 c.toNat).flatMap percentByte := by
  rw [percentEncode, utf8_toNat, List.flatMap_map]

theorem encodeURIComponent_utf16 {c : Char} (h : isHeaderSafeCodePoint c.toNat = false) :
    encodeURIComponent (utf16 c) = some (percentEncode c) := by
  have hpoint := codePoint_utf16 c
  by_cases hbasic : c.toNat < 0x10000
  · obtain ⟨hc, hunit, hsurrogate⟩ := utf16_basic hbasic
    have hreserved : isUnreserved (UInt16.ofNat c.toNat) = false := by
      rw [← Bool.not_eq_true]
      intro hun
      have hsafe := isHeaderSafeCodePoint_of_unreserved hun
      rw [hunit, h] at hsafe
      cases hsafe
    rw [hc] at hpoint ⊢
    rw [encodeURIComponent, hreserved, if_neg Bool.false_ne_true, hpoint, percentEncode_eq]
    exact if_neg (by rw [← isSurrogate, hsurrogate]; exact Bool.false_ne_true)
  · obtain ⟨high, low, hc, -, -, -⟩ := utf16_supplementary hbasic
    rw [hc] at hpoint ⊢
    rw [percentEncode_eq, ← hpoint]
    rfl

theorem encodeCharacter_utf16 (c : Char) : encodeCharacter (utf16 c) = some (headerText c) := by
  rw [encodeCharacter, codePoint_utf16, headerText]
  cases h : isHeaderSafeCodePoint c.toNat with
  | true => rfl
  | false => exact encodeURIComponent_utf16 h

/-- A surrogate by itself cannot be encoded. -/
theorem encodeCharacter_surrogate {c : CodeUnit} (h : isSurrogate c = true) :
    encodeCharacter [c] = none := by
  have hsafe := not_headerSafe_of_surrogate h
  have hreserved : isUnreserved c = false := by
    rw [← Bool.not_eq_true]
    intro hun
    rw [isHeaderSafeCodePoint_of_unreserved hun] at hsafe
    cases hsafe
  have hpoint : codePoint [c] = c.toNat := rfl
  rw [encodeCharacter, hpoint, hsafe, if_neg Bool.false_ne_true, encodeURIComponent, hreserved,
    if_neg Bool.false_ne_true]
  exact if_pos h

theorem isHeaderSafe_headerText (c : Char) : isHeaderSafe (headerText c) = true := by
  rw [isHeaderSafe_iff, headerText]
  intro u hu
  split_ifs at hu with hc
  · have hbasic : c.toNat < 0x10000 := by
      rw [isHeaderSafeCodePoint_iff] at hc
      omega
    obtain ⟨hunits, hunit, -⟩ := utf16_basic hbasic
    rw [hunits, List.mem_singleton] at hu
    rw [hu, hunit]
    exact hc
  · obtain ⟨b, -, hb⟩ := List.mem_flatMap.mp hu
    exact isHeaderSafe_iff.mp (isHeaderSafe_percentByte b.toNat b.toNat_lt) u hb

/-! ## The loop -/

/-- The loop over the code points of a destination. -/
def encodeCodePoints (destination : JsString) : Option JsString :=
  ((characters destination).mapM encodeCharacter).map List.flatten

theorem encodeCodePoints_text (text : List Char) :
    encodeCodePoints (utf16Text text) = some (text.flatMap headerText) := by
  rw [encodeCodePoints, characters_utf16Text]
  have hall : (text.map utf16).mapM encodeCharacter = some (text.map headerText) := by
    induction text with
    | nil => rfl
    | cons c text ih => simp [List.mapM_cons, encodeCharacter_utf16, ih]
  rw [hall, Option.map_some, List.flatMap_def]

theorem mapM_eq_none_of_mem {α β : Type} {f : α → Option β} {l : List α} {a : α} (ha : a ∈ l)
    (hf : f a = none) : l.mapM f = none := by
  induction l with
  | nil => cases ha
  | cons b l ih =>
    rw [List.mapM_cons]
    cases ha with
    | head => rw [hf]; rfl
    | tail _ ha =>
      rw [ih ha]
      cases f b <;> rfl

theorem encodeCodePoints_lone {s : JsString} {c : CodeUnit} (hc : isSurrogate c = true)
    (h : [c] ∈ characters s) : encodeCodePoints s = none := by
  rw [encodeCodePoints, mapM_eq_none_of_mem h (encodeCharacter_surrogate hc)]
  rfl

/-- A character of header-safe units is header safe. -/
theorem headerText_of_safe {c : Char} (h : isHeaderSafe (utf16 c) = true) :
    headerText c = utf16 c := by
  rw [isHeaderSafe_iff] at h
  by_cases hbasic : c.toNat < 0x10000
  · obtain ⟨hunits, hunit, -⟩ := utf16_basic hbasic
    rw [hunits] at h
    have hsafe := h _ List.mem_cons_self
    rw [hunit] at hsafe
    exact if_pos hsafe
  · obtain ⟨high, low, hunits, hhigh, -, -⟩ := utf16_supplementary hbasic
    rw [hunits] at h
    have hsafe := h _ List.mem_cons_self
    rw [not_headerSafe_of_surrogate (by rw [isSurrogate, hhigh]; rfl)] at hsafe
    cases hsafe

/-- The loop keeps a header-safe text, so the pattern only saves its work. -/
theorem encodeDestinationForHeader_eq (s : JsString) :
    encodeDestinationForHeader s = encodeCodePoints s := by
  rw [encodeDestinationForHeader]
  cases h : isHeaderSafe s with
  | false => rfl
  | true =>
    rw [isHeaderSafe_iff] at h
    rw [if_pos rfl]
    obtain ⟨text, rfl⟩ | ⟨c, hc, hmem⟩ := text_or_lone s
    · have hkept : ∀ c ∈ text, headerText c = utf16 c := fun c hc =>
        headerText_of_safe (isHeaderSafe_iff.mpr fun u hu =>
          h u (List.mem_flatMap.mpr ⟨c, hc, hu⟩))
      rw [encodeCodePoints_text, List.flatMap_congr hkept, utf16Text]
    · have hsafe := h c (by
        rw [← flatten_characters s]
        exact List.mem_flatten.mpr ⟨[c], hmem, List.mem_cons_self⟩)
      rw [not_headerSafe_of_surrogate hc] at hsafe
      cases hsafe

/-- What an encoding is. -/
structure HeaderEncoding (s r : JsString) : Prop where
  /-- Character by character, the header-safe ones are kept and the others are encoded. -/
  characterwise : ∃ text, s = utf16Text text ∧ r = text.flatMap headerText
  safe : isHeaderSafe r = true
  unchanged : r = s ↔ isHeaderSafe s = true
  idempotent : encodeDestinationForHeader r = some r

theorem encodeDestinationForHeader_of_safe {s : JsString} (h : isHeaderSafe s = true) :
    encodeDestinationForHeader s = some s := if_pos h

theorem isHeaderSafe_flatMap (text : List Char) : isHeaderSafe (text.flatMap headerText) = true := by
  rw [isHeaderSafe_iff]
  intro u hu
  obtain ⟨c, -, hc⟩ := List.mem_flatMap.mp hu
  exact isHeaderSafe_iff.mp (isHeaderSafe_headerText c) u hc

/-- **Theorem (`encodeDestinationForHeader_spec`).** -/
theorem encodeDestinationForHeader_spec (s : JsString) :
    (encodeDestinationForHeader s = none ↔ HasUnpairedSurrogate s) ∧
      (∀ r, encodeDestinationForHeader s = some r → HeaderEncoding s r) ∧
      encodeDestinationForHeader s = encodeCodePoints s := by
  have hloop := encodeDestinationForHeader_eq s
  obtain ⟨text, rfl⟩ | ⟨c, hc, hmem⟩ := text_or_lone s
  · rw [encodeCodePoints_text] at hloop
    have hsafe := isHeaderSafe_flatMap text
    refine ⟨?_, fun r hr => ?_, by rw [hloop, encodeCodePoints_text]⟩
    · rw [hloop]
      exact iff_of_false (Option.some_ne_none _) (not_unpaired_utf16Text text)
    · rw [hloop, Option.some.injEq] at hr
      subst hr
      refine ⟨⟨text, rfl, rfl⟩, hsafe, ⟨fun heq => heq ▸ hsafe, fun h => ?_⟩,
        encodeDestinationForHeader_of_safe hsafe⟩
      rw [encodeDestinationForHeader_of_safe h, Option.some.injEq] at hloop
      exact hloop.symm
  · have hnone := encodeCodePoints_lone hc hmem
    rw [hnone] at hloop
    refine ⟨iff_of_true hloop (unpaired_of_mem_characters hc hmem), fun r hr => ?_,
      by rw [hloop, hnone]⟩
    rw [hloop] at hr
    cases hr

end Posta.Api
