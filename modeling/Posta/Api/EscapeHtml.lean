import Posta.Contracts.Slugs
import Posta.Js.Utf16

/-!
# Bounded HTML escaping

The slug shown on the page of a missing link: cut, escaped in one pass, and cut again.

**Escaping** (`escapeText`). Each of six characters becomes a character reference, which starts
with the only ampersand in it, so every ampersand of an escaped text starts a reference.

**Cutting** (`truncateAtCodePointBoundary`). What is kept is a number of whole characters, so a
surrogate is unpaired in it exactly where it already was (`unpaired_of_truncate`).

**Theorem (`escapeHtml_safe`).** The result cannot leave the text it is put into, is a prefix of
the escaped input within the cap, and has no unpaired surrogate of its own.
-/

namespace Posta.Api

open Js

/-- `ESCAPE_ENTITIES`. -/
def escapeEntities : List (CodeUnit × JsString) :=
  [(unit '&', lit "&amp;"), (unit '<', lit "&lt;"), (unit '>', lit "&gt;"),
    (unit '"', lit "&quot;"), (unit '\'', lit "&#x27;"), (unit '/', lit "&#x2F;")]

/-- The class of `ESCAPABLE_CHARACTERS`: the keys of the entities. -/
def escapableCharacters : List CodeUnit := escapeEntities.map Prod.fst

def maxInputLength : Nat := slugMaxLength * 2

def maxEscapedHtmlLength : Nat := slugMaxLength * 6

/-- What one match of the pattern is replaced by, and any other code unit. -/
def escapeUnit (c : CodeUnit) : JsString :=
  if c ∈ escapableCharacters then (escapeEntities.lookup c).getD [c] else [c]

/-- `s.replace(ESCAPABLE_CHARACTERS, (char) => ESCAPE_ENTITIES[char] ?? char)`. -/
def escapeText (s : JsString) : JsString := s.flatMap escapeUnit

/-- The loop of `truncateAtCodePointBoundary`. -/
def truncateLoop (maxLength : Nat) : List JsString → JsString → Nat → JsString
  | [], result, _ => result
  | codePoint :: rest, result, length =>
    if maxLength < length + codePoint.length then result
    else truncateLoop maxLength rest (result ++ codePoint) (length + codePoint.length)

def truncateAtCodePointBoundary (s : JsString) (maxLength : Nat) : JsString :=
  if s.length ≤ maxLength then s else truncateLoop maxLength (characters s) [] 0

def escapeHtml (s : JsString) : JsString :=
  truncateAtCodePointBoundary (escapeText (truncateAtCodePointBoundary s maxInputLength))
    maxEscapedHtmlLength

example : escapeHtml (lit "</script>") = lit "&lt;&#x2F;script&gt;" := by decide +kernel

/-! ## Cutting -/

/-- The loop keeps whole characters, within the limit. -/
theorem truncateLoop_spec (maxLength : Nat) (rest : List JsString) (result : JsString)
    (hresult : result.length ≤ maxLength) :
    (truncateLoop maxLength rest result result.length).length ≤ maxLength ∧
      ∃ front back, rest = front ++ back ∧
        truncateLoop maxLength rest result result.length = result ++ front.flatten := by
  induction rest generalizing result with
  | nil => exact ⟨hresult, [], [], rfl, by rw [truncateLoop, List.flatten_nil, List.append_nil]⟩
  | cons codePoint rest ih =>
    rw [truncateLoop]
    split_ifs with h
    · exact ⟨hresult, [], _, rfl, by rw [List.flatten_nil, List.append_nil]⟩
    · have hlength : (result ++ codePoint).length = result.length + codePoint.length :=
        List.length_append
      rw [← hlength] at h ⊢
      obtain ⟨hle, front, back, rfl, heq⟩ := ih (result ++ codePoint) (not_lt.mp h)
      exact ⟨hle, codePoint :: front, back, rfl, by rw [heq, List.flatten_cons, List.append_assoc]⟩

theorem truncate_length (s : JsString) (maxLength : Nat) :
    (truncateAtCodePointBoundary s maxLength).length ≤ maxLength := by
  rw [truncateAtCodePointBoundary]
  split_ifs with h
  · exact h
  · exact (truncateLoop_spec maxLength (characters s) [] (Nat.zero_le _)).1

/-- A cut divides the characters of a string. -/
theorem truncate_characters (s : JsString) (maxLength : Nat) :
    ∃ front back, characters s = front ++ back ∧
      truncateAtCodePointBoundary s maxLength = front.flatten := by
  rw [truncateAtCodePointBoundary]
  split_ifs with h
  · exact ⟨characters s, [], (List.append_nil _).symm, (flatten_characters s).symm⟩
  · exact (truncateLoop_spec maxLength (characters s) [] (Nat.zero_le _)).2

theorem prefix_truncate (s : JsString) (maxLength : Nat) :
    truncateAtCodePointBoundary s maxLength <+: s := by
  obtain ⟨front, back, hs, ht⟩ := truncate_characters s maxLength
  rw [ht]
  exact ⟨back.flatten, by rw [← List.flatten_append, ← hs, flatten_characters]⟩

/-- A surrogate that is unpaired behind a cut is unpaired without it. -/
theorem unpaired_of_truncate {s : JsString} {maxLength : Nat} {before after : JsString}
    {c : CodeUnit} (h : truncateAtCodePointBoundary s maxLength = before ++ c :: after)
    (hc : Unpaired before c after) :
    ∃ rest, s = before ++ c :: rest ∧ Unpaired before c rest := by
  obtain ⟨front, back, hs, ht⟩ := truncate_characters s maxLength
  have hcut := cut_of_characters hs
  have hwhole : s = before ++ c :: (after ++ back.flatten) := by
    rw [← flatten_characters s, hs, List.flatten_append, ← ht, h, List.append_assoc,
      List.cons_append]
  refine ⟨after ++ back.flatten, hwhole, ?_⟩
  cases hc with
  | inr hlow => exact Or.inr hlow
  | inl hhigh =>
    refine Or.inl ⟨hhigh.1, ?_⟩
    cases after with
    | cons d after => exact hhigh.2
    | nil =>
      -- The surrogate stands at the cut, which does not divide a pair.
      rw [← ht, h, List.getLast?_append_of_ne_nil _ (List.cons_ne_nil c []), List.getLast?_singleton,
        Option.any_some, hhigh.1] at hcut
      exact hcut.resolve_left Bool.noConfusion

/-! ## Escaping -/

/-- A character reference of the table. -/
def isReference (e : JsString) : Prop := e ∈ escapeEntities.map Prod.snd

/-- A code unit stands for itself or becomes a reference. -/
theorem escapeUnit_cases (c : CodeUnit) :
    (c ∉ escapableCharacters ∧ escapeUnit c = [c]) ∨
      (c ∈ escapableCharacters ∧ isReference (escapeUnit c)) := by
  have hall : (escapableCharacters.all fun c =>
      decide (escapeUnit c ∈ escapeEntities.map Prod.snd)) = true := by decide
  by_cases h : c ∈ escapableCharacters
  · have href : escapeUnit c ∈ escapeEntities.map Prod.snd :=
      of_decide_eq_true (List.all_eq_true.mp hall c h)
    exact Or.inr ⟨h, href⟩
  · exact Or.inl ⟨h, if_neg h⟩

/-- The characters that must not be in the page. -/
def unsafeCharacters : List CodeUnit := [unit '<', unit '>', unit '"', unit '\'', unit '/']

theorem reference_units {e : JsString} (he : isReference e) {u : CodeUnit} (hu : u ∈ e) :
    u ∉ unsafeCharacters ∧ isSurrogate u = false := by
  have hall : ((escapeEntities.map Prod.snd).all fun e => e.all fun u =>
      decide (u ∉ unsafeCharacters ∧ isSurrogate u = false)) = true := by decide +kernel
  exact of_decide_eq_true (List.all_eq_true.mp (List.all_eq_true.mp hall e he) u hu)

theorem reference_ampersand {e : JsString} (he : isReference e) :
    e.head? = some (unit '&') ∧ unit '&' ∉ e.tail := by
  have hall : ((escapeEntities.map Prod.snd).all fun e =>
      decide (e.head? = some (unit '&') ∧ unit '&' ∉ e.tail)) = true := by decide +kernel
  exact of_decide_eq_true (List.all_eq_true.mp hall e he)

theorem escapeText_append (s t : JsString) : escapeText (s ++ t) = escapeText s ++ escapeText t :=
  List.flatMap_append

theorem prefix_escapeText {s t : JsString} (h : s <+: t) : escapeText s <+: escapeText t := by
  obtain ⟨u, rfl⟩ := h
  rw [escapeText_append]
  exact List.prefix_append _ _

theorem escapeText_no_unsafe {s : JsString} {u : CodeUnit} (h : u ∈ escapeText s) :
    u ∉ unsafeCharacters := by
  obtain ⟨c, -, hu⟩ := List.mem_flatMap.mp h
  obtain ⟨hc, heq⟩ | ⟨-, href⟩ := escapeUnit_cases c
  · rw [heq, List.mem_singleton] at hu
    have hall : unsafeCharacters ⊆ escapableCharacters := by
      rw [escapableCharacters, escapeEntities]
      simp [unsafeCharacters]
    exact fun hm => hc (hu ▸ hall hm)
  · exact (reference_units href hu).1

/-- An ampersand of one escaped code unit starts a reference. -/
theorem escapeUnit_ampersand {c : CodeUnit} {before after : JsString}
    (h : escapeUnit c = before ++ unit '&' :: after) :
    before = [] ∧ isReference (unit '&' :: after) := by
  obtain ⟨hc, heq⟩ | ⟨-, href⟩ := escapeUnit_cases c
  · rw [heq] at h
    cases before with
    | nil =>
      obtain ⟨rfl, -⟩ := List.cons.inj h
      exact absurd (by decide) hc
    | cons d before => simp at h
  · cases before with
    | nil =>
      rw [h] at href
      exact ⟨rfl, href⟩
    | cons d before =>
      have htail := (reference_ampersand href).2
      rw [h] at htail
      exact absurd (by simp) htail

/-- An ampersand of an escaped text starts a reference. -/
theorem escapeText_ampersand {s before after : JsString}
    (h : escapeText s = before ++ unit '&' :: after) :
    ∃ e, isReference e ∧ e <+: unit '&' :: after := by
  induction s generalizing before with
  | nil => simp [escapeText] at h
  | cons c s ih =>
    obtain ⟨t, -, hs⟩ | ⟨t, hunit, rfl⟩ := append_cons_cases h
    · exact ih hs
    · exact ⟨_, (escapeUnit_ampersand hunit).2, List.prefix_append (unit '&' :: t) _⟩

/-- A surrogate of an escaped text is one of the text, in its place. -/
theorem escapeText_surrogate {s before after : JsString} {c : CodeUnit} (hc : isSurrogate c = true)
    (h : escapeText s = before ++ c :: after) :
    ∃ before' after', s = before' ++ c :: after' ∧ before = escapeText before' ∧
      after = escapeText after' := by
  induction s generalizing before with
  | nil => simp [escapeText] at h
  | cons d s ih =>
    obtain ⟨t, rfl, hs⟩ | ⟨t, hunit, rfl⟩ := append_cons_cases h
    · obtain ⟨before', after', rfl, rfl, rfl⟩ := ih hs
      exact ⟨d :: before', after', rfl, rfl, rfl⟩
    · obtain ⟨-, heq⟩ | ⟨-, href⟩ := escapeUnit_cases d
      · rw [heq] at hunit
        cases before with
        | nil =>
          obtain ⟨rfl, rfl⟩ := List.cons.inj hunit
          exact ⟨[], s, rfl, rfl, rfl⟩
        | cons e before => simp at hunit
      · have hunits := (reference_units href (u := c) (by rw [hunit]; simp)).2
        rw [hc] at hunits
        cases hunits

theorem escapeUnit_surrogate {c : CodeUnit} (hc : isSurrogate c = true) : escapeUnit c = [c] := by
  have hall : (escapableCharacters.all fun d => !isSurrogate d) = true := by decide
  refine if_neg fun hm => ?_
  have hnot := List.all_eq_true.mp hall c hm
  rw [hc] at hnot
  cases hnot

/-- Escaping does not come between the two surrogates of a pair. -/
theorem unpaired_of_escapeText {before after : JsString} {c : CodeUnit}
    (h : Unpaired (escapeText before) c (escapeText after)) : Unpaired before c after := by
  cases h with
  | inl h =>
    refine Or.inl ⟨h.1, ?_⟩
    cases after with
    | nil => rfl
    | cons d after =>
      rw [← Bool.not_eq_true]
      intro hd
      have hsurrogate : isSurrogate d = true := by
        rw [isSurrogate, Bool.or_eq_true]
        exact Or.inr hd
      have hhead := h.2
      rw [escapeText, List.flatMap_cons, escapeUnit_surrogate hsurrogate] at hhead
      exact Bool.false_ne_true (hhead.symm.trans hd)
  | inr h =>
    refine Or.inr ⟨h.1, ?_⟩
    obtain rfl | ⟨front, d, rfl⟩ := List.eq_nil_or_concat before
    · rfl
    · rw [List.concat_eq_append] at h ⊢
      rw [List.getLast?_concat, Option.any_some, ← Bool.not_eq_true]
      intro hd
      have hsurrogate : isSurrogate d = true := by
        rw [isSurrogate, Bool.or_eq_true]
        exact Or.inl hd
      have hlast := h.2
      rw [escapeText_append, escapeText, escapeText, List.flatMap_singleton,
        escapeUnit_surrogate hsurrogate, List.getLast?_concat] at hlast
      exact Bool.false_ne_true (hlast.symm.trans hd)

/-- What an escaped text promises the page it is put into. -/
structure InjectionSafe (s r : JsString) : Prop where
  no_unsafe : ∀ u ∈ r, u ∉ unsafeCharacters
  /-- Every ampersand begins a reference of the table, which may be cut at the end. -/
  ampersand : ∀ before after, r = before ++ unit '&' :: after →
    ∃ e, isReference e ∧ (e <+: unit '&' :: after ∨ unit '&' :: after <+: e)
  bounded : r.length ≤ maxEscapedHtmlLength
  initial : r <+: escapeText s
  /-- A surrogate is unpaired only where the input has it unpaired. -/
  unpaired : ∀ before c after, r = before ++ c :: after → Unpaired before c after →
    ∃ before' after', s = before' ++ c :: after' ∧ Unpaired before' c after' ∧
      before = escapeText before'

/-- **Theorem (`escapeHtml_safe`).** -/
theorem escapeHtml_safe (s : JsString) : InjectionSafe s (escapeHtml s) := by
  have hinitial : escapeHtml s <+: escapeText s :=
    (prefix_truncate _ _).trans (prefix_escapeText (prefix_truncate s _))
  refine ⟨fun u hu => escapeText_no_unsafe (hinitial.subset hu), fun before after hr => ?_,
    truncate_length _ _, hinitial, fun before c after hr hc => ?_⟩
  · obtain ⟨rest, hrest⟩ := hinitial
    rw [hr, List.append_assoc, List.cons_append] at hrest
    obtain ⟨e, he, hpre⟩ := escapeText_ampersand hrest.symm
    have hafter : unit '&' :: after <+: unit '&' :: (after ++ rest) := List.prefix_append _ _
    exact ⟨e, he, List.prefix_or_prefix_of_prefix hpre hafter⟩
  · obtain ⟨after₁, hescaped, hc₁⟩ := unpaired_of_truncate hr hc
    obtain ⟨before', after₂, hinput, rfl, rfl⟩ := escapeText_surrogate hc.isSurrogate hescaped
    obtain ⟨after', hs, hc'⟩ := unpaired_of_truncate hinput (unpaired_of_escapeText hc₁)
    exact ⟨before', after', hs, hc', rfl⟩

end Posta.Api
