import Posta.Js.Strings
import Posta.Lists.Csv

/-!
# The upstream list of datacenter networks

`parseCsvLine` reads a line of the upstream file in one loop with the current field and a flag
for quotes. A quote in the middle of a bare field is refused.

**What is accepted** (`LooseField`, `LooseLast`). Text behind a closing quote is taken into the
field, and a quoted field need not be closed at the end of the line; neither is refused.

**Theorem (`parseCsvLine_eq_ok`).** The lines accepted and the fields they are read as.

**Lines that are absorbed** (`Absorbed`). The malformed ones among them.

**Theorem (`parseCsvLine_exact`).** A line is read as the grammar `Csv.Line` says exactly when it
is not absorbed; every list of fields is read back from the line that quotes it.

**Files** (`parseCsv_csvFile`, `parseCsv_refused`). A file of quoted lines is read back, and a
file with a line that is not accepted is not read at all.
-/

namespace Posta

open Js

def csvQuote : CodeUnit := unit '"'

def csvComma : CodeUnit := unit ','

/-- The error of a quote in the middle of a field. -/
def quoteMidField (i : Nat) (line : JsString) : JsString :=
  lit "parseCsvLine: unexpected quote mid-field at position " ++ natText i ++
    lit " in line: " ++ line

/-- The loop of `parseCsvLine` from position `i` on. -/
def parseCsvChars (line : JsString) :
    Nat → List JsString → JsString → Bool → JsString → Except JsString (List JsString)
  | _, fields, current, _, [] => .ok (fields ++ [current])
  -- there is no `line[i + 1]` here, so the quote is not a doubled one
  | i, fields, current, true, [char] =>
    if char = csvQuote then parseCsvChars line (i + 1) fields current false []
    else parseCsvChars line (i + 1) fields (current ++ [char]) true []
  | i, fields, current, true, char :: next :: rest =>
    if char = csvQuote ∧ next = csvQuote then
      parseCsvChars line (i + 2) fields (current ++ [csvQuote]) true rest
    else if char = csvQuote then parseCsvChars line (i + 1) fields current false (next :: rest)
    else parseCsvChars line (i + 1) fields (current ++ [char]) true (next :: rest)
  | i, fields, current, false, char :: rest =>
    if char = csvQuote then
      if 0 < current.length then .error (quoteMidField i line)
      else parseCsvChars line (i + 1) fields current true rest
    else if char = csvComma then parseCsvChars line (i + 1) (fields ++ [current]) [] false rest
    else parseCsvChars line (i + 1) fields (current ++ [char]) false rest

def parseCsvLine (line : JsString) : Except JsString (List JsString) :=
  parseCsvChars line 0 [] [] false line

/-! ## The loop -/

variable {line current text value rest : JsString} {fields values : List JsString} {i : Nat}

theorem comma_ne_quote : csvComma ≠ csvQuote := by decide

theorem parseCsvChars_bare (char : CodeUnit) :
    parseCsvChars line i fields current false (char :: rest) =
      if char = csvQuote then
        if 0 < current.length then .error (quoteMidField i line)
        else parseCsvChars line (i + 1) fields current true rest
      else if char = csvComma then parseCsvChars line (i + 1) (fields ++ [current]) [] false rest
      else parseCsvChars line (i + 1) fields (current ++ [char]) false rest := by
  rw [parseCsvChars]

theorem parseCsvChars_inQuotes (char next : CodeUnit) :
    parseCsvChars line i fields current true (char :: next :: rest) =
      if char = csvQuote ∧ next = csvQuote then
        parseCsvChars line (i + 2) fields (current ++ [csvQuote]) true rest
      else if char = csvQuote then parseCsvChars line (i + 1) fields current false (next :: rest)
      else parseCsvChars line (i + 1) fields (current ++ [char]) true (next :: rest) := by
  rw [parseCsvChars]

theorem parseCsvChars_comma : parseCsvChars line i fields current false (csvComma :: rest) =
    parseCsvChars line (i + 1) (fields ++ [current]) [] false rest := by
  rw [parseCsvChars_bare, if_neg comma_ne_quote, if_pos rfl]

theorem parseCsvChars_open : parseCsvChars line i fields [] false (csvQuote :: rest) =
    parseCsvChars line (i + 1) fields [] true rest := by
  rw [parseCsvChars_bare, if_pos rfl, if_neg (by simp)]

theorem parseCsvChars_midField (h : current ≠ []) :
    parseCsvChars line i fields current false (csvQuote :: rest) =
      .error (quoteMidField i line) := by
  rw [parseCsvChars_bare, if_pos rfl, if_pos (List.length_pos_iff.mpr h)]

/-- Outside quotes, a plain text goes to the current field. -/
theorem parseCsvChars_plain (h : Csv.Plain csvQuote csvComma text) :
    parseCsvChars line i fields current false (text ++ rest) =
      parseCsvChars line (i + text.length) fields (current ++ text) false rest := by
  induction text generalizing i current with
  | nil => simp
  | cons c text ih =>
    have hquote : c ≠ csvQuote := fun hc => h.1 (by simp [hc])
    have hcomma : c ≠ csvComma := fun hc => h.2 (by simp [hc])
    have htext : Csv.Plain csvQuote csvComma text :=
      ⟨fun hc => h.1 (by simp [hc]), fun hc => h.2 (by simp [hc])⟩
    rw [List.cons_append, parseCsvChars_bare, if_neg hquote, if_neg hcomma, ih htext,
      List.append_assoc, List.length_cons, Nat.add_right_comm, Nat.add_assoc]
    rfl

/-- Inside quotes, a doubled text goes to the current field with its quotes halved. -/
theorem parseCsvChars_doubled : parseCsvChars line i fields current true
      (Csv.double csvQuote value ++ rest) =
    parseCsvChars line (i + (Csv.double csvQuote value).length) fields (current ++ value) true
      rest := by
  induction value generalizing i current with
  | nil => simp
  | cons c value ih =>
    by_cases hc : c = csvQuote
    · subst hc
      have hlength : i + (Csv.double csvQuote (csvQuote :: value)).length =
          i + 2 + (Csv.double csvQuote value).length := by
        simp
        omega
      rw [hlength, Csv.double_cons_quote, List.cons_append, List.cons_append,
        parseCsvChars_inQuotes, if_pos ⟨rfl, rfl⟩, ih, List.append_assoc]
      rfl
    · have hlength : i + (Csv.double csvQuote (c :: value)).length =
          i + 1 + (Csv.double csvQuote value).length := by
        rw [Csv.double_cons_of_ne hc, List.length_cons]
        omega
      have hstep : parseCsvChars line i fields current true
            (c :: (Csv.double csvQuote value ++ rest)) =
          parseCsvChars line (i + 1) fields (current ++ [c]) true
            (Csv.double csvQuote value ++ rest) := by
        cases Csv.double csvQuote value ++ rest with
        | nil => simp [parseCsvChars, hc]
        | cons d rest => rw [parseCsvChars_inQuotes, if_neg fun h => hc h.1, if_neg hc]
      rw [hlength, Csv.double_cons_of_ne hc, List.cons_append, hstep, ih, List.append_assoc]
      rfl

/-- A quote that is not followed by another one closes. -/
theorem parseCsvChars_close (h : rest.head? ≠ some csvQuote) :
    parseCsvChars line i fields current true (csvQuote :: rest) =
      parseCsvChars line (i + 1) fields current false rest := by
  cases rest with
  | nil => simp [parseCsvChars]
  | cons d rest =>
    have hd : d ≠ csvQuote := by simpa using h
    rw [parseCsvChars_inQuotes, if_neg fun h => hd h.2, if_pos rfl]

/-! ## Lines that are accepted -/

/-- A field as the loop reads it: what stands behind the closing quote goes to the value. -/
inductive LooseField : JsString → JsString → Prop
  | bare {text : JsString} (h : Csv.Plain csvQuote csvComma text) : LooseField text text
  | quoted (value : JsString) {tail : JsString} (h : Csv.Plain csvQuote csvComma tail) :
      LooseField (Csv.quoted csvQuote value ++ tail) (value ++ tail)

/-- The last field of a line: its quote may stay open. -/
inductive LooseLast : JsString → JsString → Prop
  | field {text value : JsString} (h : LooseField text value) : LooseLast text value
  | unclosed (value : JsString) : LooseLast (csvQuote :: Csv.double csvQuote value) value

abbrev LooseLine : JsString → List JsString → Prop :=
  Csv.Separated csvComma LooseField LooseLast

theorem looseField_of_field (h : Csv.Field csvQuote csvComma text value) :
    LooseField text value := by
  cases h with
  | bare h => exact .bare h
  | quoted value =>
    have htail : Csv.Plain csvQuote csvComma [] := ⟨by simp, by simp⟩
    simpa using LooseField.quoted value htail

theorem looseLine_of_line (h : Csv.Line csvQuote csvComma line values) : LooseLine line values :=
  h.mono (fun _ _ => looseField_of_field) fun _ _ h => .field (looseField_of_field h)

theorem head_plain_ne (h : Csv.Plain csvQuote csvComma text) (hrest : rest.head? ≠ some csvQuote) :
    (text ++ rest).head? ≠ some csvQuote := by
  cases text with
  | nil => exact hrest
  | cons c text =>
    have hc : csvQuote ≠ c := fun hc => h.1 (by simp [hc])
    simpa using Ne.symm hc

/-- A quoted field with the text behind it. -/
theorem parseCsvChars_quoted {tail : JsString} (htail : Csv.Plain csvQuote csvComma tail)
    (hhead : (tail ++ rest).head? ≠ some csvQuote) : ∃ j,
    parseCsvChars line i fields [] false (Csv.quoted csvQuote value ++ tail ++ rest) =
      parseCsvChars line j fields (value ++ tail) false rest := by
  have htext : Csv.quoted csvQuote value ++ tail ++ rest =
      csvQuote :: (Csv.double csvQuote value ++ csvQuote :: (tail ++ rest)) := by
    simp [Csv.quoted]
  rw [htext, parseCsvChars_open, parseCsvChars_doubled, List.nil_append,
    parseCsvChars_close hhead, parseCsvChars_plain htail]
  exact ⟨_, rfl⟩

theorem parseCsvChars_looseField (h : LooseField text value) (hrest : rest.head? ≠ some csvQuote) :
    ∃ j, parseCsvChars line i fields [] false (text ++ rest) =
      parseCsvChars line j fields value false rest := by
  cases h with
  | bare h =>
    rw [parseCsvChars_plain h]
    exact ⟨_, rfl⟩
  | quoted value h => exact parseCsvChars_quoted h (head_plain_ne h hrest)

/-- The values of a loose line are what the loop returns. -/
theorem parseCsvChars_of_looseLine (h : LooseLine rest values) :
    parseCsvChars line i fields [] false rest = .ok (fields ++ values) := by
  induction h generalizing i fields with
  | @last text value h =>
    cases h with
    | field h =>
      obtain ⟨j, hj⟩ : ∃ j, parseCsvChars line i fields [] false (text ++ []) =
          parseCsvChars line j fields value false [] := parseCsvChars_looseField h (by simp)
      rw [List.append_nil] at hj
      rw [hj, parseCsvChars]
    | unclosed value =>
      have htext : Csv.double csvQuote value = Csv.double csvQuote value ++ [] := by simp
      rw [parseCsvChars_open, htext, parseCsvChars_doubled, parseCsvChars]
      rfl
  | @cons text value rest values h _ ih =>
    have hhead : (csvComma :: rest).head? ≠ some csvQuote := by simp [comma_ne_quote]
    obtain ⟨j, hj⟩ : ∃ j, parseCsvChars line i fields [] false (text ++ csvComma :: rest) =
        parseCsvChars line j fields value false (csvComma :: rest) :=
      parseCsvChars_looseField h hhead
    rw [hj, parseCsvChars_comma, ih, List.append_assoc]
    rfl

/-- A text starts with a loose field that a separator or the end follows, is one whose quote
stays open, or has a quote behind a loose field that is not empty. -/
theorem exists_looseField (text : JsString) :
    (∃ value, text = csvQuote :: Csv.double csvQuote value) ∨
    ∃ field value rest, LooseField field value ∧ text = field ++ rest ∧
      (rest = [] ∨ (∃ r, rest = csvComma :: r) ∨
        ∃ r, rest = csvQuote :: r ∧ ∀ line i fields, ∃ j,
          parseCsvChars line i fields [] false text = .error (quoteMidField j line)) := by
  obtain ⟨t, ht, h | ⟨r, h⟩ | ⟨r, h⟩⟩ := Csv.exists_plain csvQuote csvComma text
  · exact Or.inr ⟨t, t, [], .bare ht, by simp [h], Or.inl rfl⟩
  · exact Or.inr ⟨t, t, csvComma :: r, .bare ht, h, Or.inr (Or.inl ⟨r, rfl⟩)⟩
  by_cases hne : t = []
  · subst hne
    obtain ⟨value, hr | ⟨s, hr, hs⟩⟩ := Csv.exists_doubled csvQuote r
    · exact Or.inl ⟨value, by simp [h, hr]⟩
    obtain ⟨tail, htail, hend⟩ := Csv.exists_plain csvQuote csvComma s
    have htext : text = Csv.quoted csvQuote value ++ s := by simp [h, hr, Csv.quoted]
    refine Or.inr ⟨Csv.quoted csvQuote value ++ tail, value ++ tail, ?_⟩
    obtain hend | ⟨u, hend⟩ | ⟨u, hend⟩ := hend
    · exact ⟨[], .quoted value htail, by simp [htext, hend], Or.inl rfl⟩
    · exact ⟨csvComma :: u, .quoted value htail, by simp [htext, hend], Or.inr (Or.inl ⟨u, rfl⟩)⟩
    · have hne : tail ≠ [] := by
        intro hnil
        exact hs (by simp [hend, hnil])
      refine ⟨csvQuote :: u, .quoted value htail, by simp [htext, hend],
        Or.inr (Or.inr ⟨u, rfl, fun line i fields => ?_⟩)⟩
      obtain ⟨j, hj⟩ : ∃ j, parseCsvChars line i fields [] false
            (Csv.quoted csvQuote value ++ tail ++ csvQuote :: u) =
          parseCsvChars line j fields (value ++ tail) false (csvQuote :: u) :=
        parseCsvChars_quoted htail (hend ▸ hs)
      rw [htext, hend, ← List.append_assoc, hj, parseCsvChars_midField (by simp [hne])]
      exact ⟨_, rfl⟩
  · refine Or.inr ⟨t, t, csvQuote :: r, .bare ht, h,
      Or.inr (Or.inr ⟨r, rfl, fun line i fields => ?_⟩)⟩
    rw [h, parseCsvChars_plain ht, parseCsvChars_midField (by simpa using hne)]
    exact ⟨_, rfl⟩

/-- From the start of a field on, either the text is a loose line or the loop throws. -/
theorem looseLine_or_error (line text : JsString) (i : Nat) (fields : List JsString) :
    (∃ values, LooseLine text values) ∨
      ∃ j, parseCsvChars line i fields [] false text = .error (quoteMidField j line) := by
  induction hn : text.length using Nat.strong_induction_on generalizing text i fields with
  | _ n ih =>
    obtain ⟨value, h⟩ | ⟨field, value, rest, hfield, htext, hend⟩ := exists_looseField text
    · exact Or.inl ⟨[value], by rw [h]; exact .last (.unclosed value)⟩
    obtain hend | ⟨r, hend⟩ | ⟨r, -, herror⟩ := hend
    · rw [hend, List.append_nil] at htext
      exact Or.inl ⟨[value], by rw [htext]; exact .last (.field hfield)⟩
    · have hlength : r.length < n := by
        rw [← hn, htext, hend, List.length_append, List.length_cons]
        omega
      have hhead : rest.head? ≠ some csvQuote := by simp [hend, comma_ne_quote]
      obtain ⟨j, hj⟩ : ∃ j, parseCsvChars line i fields [] false (field ++ rest) =
          parseCsvChars line j fields value false rest := parseCsvChars_looseField hfield hhead
      obtain ⟨values, hvalues⟩ | ⟨k, hk⟩ := ih r.length hlength r (j + 1) (fields ++ [value]) rfl
      · exact Or.inl ⟨value :: values, by rw [htext, hend]; exact .cons hfield hvalues⟩
      · refine Or.inr ⟨k, ?_⟩
        rw [htext, hj, hend, parseCsvChars_comma, hk]
    · exact Or.inr (herror line i fields)

/-- **Theorem.** The lines that are accepted, and the fields they are read as. -/
theorem parseCsvLine_eq_ok (line : JsString) (values : List JsString) :
    parseCsvLine line = .ok values ↔ LooseLine line values := by
  constructor
  · intro h
    obtain ⟨values', hvalues⟩ | ⟨j, hj⟩ := looseLine_or_error line line 0 []
    · have h' : parseCsvLine line = .ok values' := parseCsvChars_of_looseLine hvalues
      rw [h, Except.ok.injEq] at h'
      exact h' ▸ hvalues
    · rw [parseCsvLine, hj] at h
      cases h
  · exact fun h => parseCsvChars_of_looseLine h

/-- A line that is not accepted is refused for a quote in the middle of a field. -/
theorem parseCsvLine_eq_error {line : JsString} (h : ¬∃ values, LooseLine line values) :
    ∃ j, parseCsvLine line = .error (quoteMidField j line) := by
  obtain hline | herror := looseLine_or_error line line 0 []
  · exact absurd hline h
  · exact herror

/-! ## Lines that are absorbed -/

/-- A malformed line that is not refused: somewhere text stands behind a closing quote, or the
last quote stays open, and nothing else is wrong. -/
inductive Absorbed : JsString → Prop
  | unclosed (value : JsString) : Absorbed (csvQuote :: Csv.double csvQuote value)
  | trailing (value : JsString) {tail : JsString} (h : Csv.Plain csvQuote csvComma tail)
      (hne : tail ≠ []) : Absorbed (Csv.quoted csvQuote value ++ tail)
  | trailingThen (value : JsString) {tail rest : JsString} {values : List JsString}
      (h : Csv.Plain csvQuote csvComma tail) (hne : tail ≠ []) (hrest : LooseLine rest values) :
      Absorbed (Csv.quoted csvQuote value ++ tail ++ csvComma :: rest)
  | later {text value rest : JsString} (h : LooseField text value) (hrest : Absorbed rest) :
      Absorbed (text ++ csvComma :: rest)

theorem ends_nil : Csv.Ends csvComma [] := by simp [Csv.Ends]

theorem ends_comma (rest : JsString) : Csv.Ends csvComma (csvComma :: rest) := by
  simp [Csv.Ends]

theorem head_of_ends (h : Csv.Ends csvComma rest) : rest.head? ≠ some csvQuote := fun hq =>
  comma_ne_quote (h csvQuote hq).symm

theorem field_absorbed (h : LooseField text value) :
    Csv.Field csvQuote csvComma text value ∨
      ∃ v tail, text = Csv.quoted csvQuote v ++ tail ∧ Csv.Plain csvQuote csvComma tail ∧
        tail ≠ [] := by
  cases h with
  | bare h => exact Or.inl (.bare h)
  | @quoted value tail h =>
    by_cases hne : tail = []
    · subst hne
      rw [List.append_nil, List.append_nil]
      exact Or.inl (.quoted value)
    · exact Or.inr ⟨value, tail, rfl, h, hne⟩

/-- A loose line is a line, or one that is absorbed. -/
theorem line_or_absorbed (h : LooseLine line values) :
    (∃ values, Csv.Line csvQuote csvComma line values) ∨ Absorbed line := by
  induction h with
  | @last text value h =>
    cases h with
    | unclosed value => exact Or.inr (.unclosed value)
    | field h =>
      obtain h | ⟨v, tail, rfl, htail, hne⟩ := field_absorbed h
      · exact Or.inl ⟨_, .last h⟩
      · exact Or.inr (.trailing v htail hne)
  | @cons text value rest values h hrest ih =>
    obtain hf | ⟨v, tail, rfl, htail, hne⟩ := field_absorbed h
    · obtain ⟨values, hline⟩ | habsorbed := ih
      · exact Or.inl ⟨_, .cons hf hline⟩
      · exact Or.inr (.later h habsorbed)
    · exact Or.inr (.trailingThen v htail hne hrest)

theorem looseLine_of_absorbed (h : Absorbed line) : ∃ values, LooseLine line values := by
  induction h with
  | unclosed value => exact ⟨_, .last (.unclosed value)⟩
  | trailing value h _ => exact ⟨_, .last (.field (.quoted value h))⟩
  | trailingThen value h _ hrest => exact ⟨_, .cons (.quoted value h) hrest⟩
  | later h _ ih =>
    obtain ⟨values, hvalues⟩ := ih
    exact ⟨_, .cons h hvalues⟩

/-- Where the first field of a line ends is decided by the line. -/
theorem looseField_append_inj {text' value' rest' : JsString} (h : LooseField text value)
    (h' : LooseField text' value') (hrest : Csv.Ends csvComma rest)
    (hrest' : Csv.Ends csvComma rest') (heq : text ++ rest = text' ++ rest') :
    text = text' ∧ rest = rest' := by
  have hne : ∀ {t r s : JsString}, Csv.Plain csvQuote csvComma t → Csv.Ends csvComma r →
      t ++ r ≠ csvQuote :: s := fun {t r s} ht hr heq =>
    head_plain_ne ht (head_of_ends hr) (by rw [heq]; rfl)
  cases h with
  | bare h =>
    cases h' with
    | bare h' => exact Csv.plain_append_inj h h' hrest hrest' heq
    | quoted v h' =>
      refine absurd heq ?_
      rw [Csv.quoted, List.cons_append, List.cons_append]
      exact hne h hrest
  | quoted v h =>
    cases h' with
    | bare h' =>
      refine absurd heq.symm ?_
      rw [Csv.quoted, List.cons_append, List.cons_append]
      exact hne h' hrest'
    | quoted v' h' =>
      simp only [Csv.quoted, List.cons_append, List.append_assoc, List.cons.injEq, true_and,
        List.nil_append] at heq
      obtain ⟨hv, htails⟩ := Csv.double_append_inj (head_plain_ne h (head_of_ends hrest))
        (head_plain_ne h' (head_of_ends hrest')) heq
      obtain ⟨htail, hr⟩ := Csv.plain_append_inj h h' hrest hrest' htails
      exact ⟨by rw [hv, htail], hr⟩

/-- What the grammar makes of a line that starts with a loose field. -/
theorem line_append_inv (h : LooseField text value) (hrest : Csv.Ends csvComma rest)
    (hline : Csv.Line csvQuote csvComma (text ++ rest) values) :
    (∃ v, Csv.Field csvQuote csvComma text v) ∧
      ∀ r, rest = csvComma :: r → ∃ vs, Csv.Line csvQuote csvComma r vs := by
  generalize hl : text ++ rest = line at hline
  cases hline with
  | last hf =>
    have hl' : text ++ rest = line ++ [] := by rw [hl, List.append_nil]
    obtain ⟨ht, hr⟩ := looseField_append_inj h (looseField_of_field hf) hrest ends_nil hl'
    refine ⟨⟨_, ht ▸ hf⟩, fun r hr' => ?_⟩
    rw [hr] at hr'
    cases hr'
  | cons hf htail =>
    obtain ⟨ht, hr⟩ := looseField_append_inj h (looseField_of_field hf) hrest (ends_comma _) hl
    refine ⟨⟨_, ht ▸ hf⟩, fun r hr' => ?_⟩
    rw [hr, List.cons.injEq] at hr'
    exact ⟨_, hr'.2 ▸ htail⟩

theorem not_field_trailing {tail : JsString} (h : Csv.Plain csvQuote csvComma tail)
    (hne : tail ≠ []) : ¬∃ v, Csv.Field csvQuote csvComma (Csv.quoted csvQuote value ++ tail) v := by
  intro ⟨v, hf⟩
  generalize ht : Csv.quoted csvQuote value ++ tail = text at hf
  cases hf with
  | bare hb => exact hb.1 (by simp [← ht, Csv.quoted])
  | quoted v =>
    have hlast : tail.getLast? = some csvQuote := by
      have hl := congrArg List.getLast? ht
      rw [List.getLast?_append_of_ne_nil _ hne] at hl
      rw [hl, Csv.quoted, ← List.cons_append]
      exact List.getLast?_concat
    exact h.1 (List.mem_of_getLast? hlast)

theorem not_line_unclosed :
    ¬∃ values, Csv.Line csvQuote csvComma (csvQuote :: Csv.double csvQuote value) values := by
  intro ⟨values, hline⟩
  generalize hl : csvQuote :: Csv.double csvQuote value = line at hline
  cases hline with
  | last hf =>
    cases hf with
    | bare h => exact h.1 (by simp [← hl])
    | quoted v =>
      exact Csv.double_ne_append_quote (by simp) (List.cons.inj hl).2
  | cons hf _ =>
    cases hf with
    | bare h => exact head_plain_ne h (head_of_ends (ends_comma _)) (by rw [← hl]; rfl)
    | quoted v =>
      rw [Csv.quoted, List.cons_append, List.append_assoc, List.singleton_append] at hl
      exact Csv.double_ne_append_quote (head_of_ends (ends_comma _)) (List.cons.inj hl).2

/-- An absorbed line is malformed. -/
theorem not_line_of_absorbed (h : Absorbed line) :
    ¬∃ values, Csv.Line csvQuote csvComma line values := by
  induction h with
  | unclosed value => exact not_line_unclosed
  | trailing value h hne =>
    intro ⟨values, hline⟩
    have hf := LooseField.quoted value h
    rw [← List.append_nil (Csv.quoted _ _ ++ _)] at hline
    exact not_field_trailing h hne (line_append_inv hf ends_nil hline).1
  | trailingThen value h hne _ =>
    intro ⟨values, hline⟩
    have hf := LooseField.quoted value h
    exact not_field_trailing h hne (line_append_inv hf (ends_comma _) hline).1
  | later h _ ih =>
    intro ⟨values, hline⟩
    exact ih ((line_append_inv h (ends_comma _) hline).2 _ rfl)

/-- The line is read as the grammar says: its fields if it has any, an error otherwise. -/
def ReadExactly (line : JsString) : Prop :=
  (∀ values, Csv.Line csvQuote csvComma line values → parseCsvLine line = .ok values) ∧
    ((¬∃ values, Csv.Line csvQuote csvComma line values) →
      ∃ error, parseCsvLine line = .error error)

theorem not_readExactly_of_absorbed (h : Absorbed line) : ¬ReadExactly line := by
  intro ⟨_, herror⟩
  obtain ⟨error, he⟩ := herror (not_line_of_absorbed h)
  obtain ⟨values, hvalues⟩ := looseLine_of_absorbed h
  rw [(parseCsvLine_eq_ok line values).mpr hvalues] at he
  cases he

/-- **Theorem.** A line is read as the grammar says unless it is absorbed. Every list of fields
is read back from the line that quotes it. -/
theorem parseCsvLine_exact (line value : JsString) (values : List JsString) :
    (ReadExactly line ↔ ¬Absorbed line) ∧
      parseCsvLine (Csv.quotedLine csvQuote csvComma (value :: values)) = .ok (value :: values) := by
  refine ⟨⟨fun h habsorbed => ?_, fun h => ⟨fun values hvalues => ?_, fun hline => ?_⟩⟩, ?_⟩
  · exact not_readExactly_of_absorbed habsorbed h
  · exact (parseCsvLine_eq_ok line values).mpr (looseLine_of_line hvalues)
  · have hloose : ¬∃ values, LooseLine line values := by
      intro ⟨values, hvalues⟩
      obtain hl | habsorbed := line_or_absorbed hvalues
      · exact hline hl
      · exact h habsorbed
    obtain ⟨j, hj⟩ := parseCsvLine_eq_error hloose
    exact ⟨_, hj⟩
  · have hline := Csv.line_quotedLine csvQuote csvComma value values
    exact (parseCsvLine_eq_ok _ _).mpr (looseLine_of_line hline)

/-- Text behind a closing quote, and a quote that stays open. -/
theorem malformed_lines_read :
    ¬ReadExactly (lit "\"Foo\"Bar") ∧ ¬ReadExactly (lit "\"Foo") := by
  have htrailing : Absorbed (Csv.quoted csvQuote (lit "Foo") ++ lit "Bar") :=
    .trailing (lit "Foo") ⟨by decide, by decide⟩ (by decide)
  have hunclosed : Absorbed (csvQuote :: Csv.double csvQuote (lit "Foo")) := .unclosed (lit "Foo")
  exact ⟨not_readExactly_of_absorbed htrailing, not_readExactly_of_absorbed hunclosed⟩

/-! ## The file -/

/-- The lines of the file that are not blank. -/
def csvLines (csvText : JsString) : List JsString :=
  (csvText.splitOn (unit '\n')).filter fun line => 0 < (trim line).length

def expectedHeader : JsString := lit "ASN,Entity"

/-- The error of another first line. -/
def unexpectedHeader (header : Option JsString) : JsString :=
  lit "parseCsv: expected the CSV header to be \"" ++ expectedHeader ++ lit "\", got \"" ++
    header.getD (lit "(empty file)") ++ lit "\" — " ++
    lit "the upstream format may have changed; update this parser before trusting the output."

/-- `rawRow` makes a row of the first two fields of a line. -/
def parseCsv {ρ : Type} (rawRow : JsString → Option JsString → ρ) (csvText : JsString) :
    Except JsString (List ρ) :=
  match csvLines csvText with
  | [] => .error (unexpectedHeader none)
  | header :: rows =>
    if header = expectedHeader then
      rows.mapM fun line => do
        let fields ← parseCsvLine line
        pure (rawRow (fields.headD []) fields[1]?)
    else .error (unexpectedHeader (some header))

theorem length_trim_pos {c : CodeUnit} (hc : c ∈ line) (hspace : isWhiteSpace c = false) :
    0 < (trim line).length := by
  refine List.length_pos_iff.mpr fun h => ?_
  have hdrop : line.dropWhile isWhiteSpace = [] := by
    rw [trim, List.rdropWhile_eq_nil_iff] at h
    cases hd : line.dropWhile isWhiteSpace with
    | nil => rfl
    | cons d rest =>
      have hfirst := List.head?_dropWhile_not isWhiteSpace line
      rw [hd] at h hfirst
      have hspace : isWhiteSpace d = true := h d (by simp)
      simp [hspace] at hfirst
  have h := List.dropWhile_eq_nil_iff.mp hdrop c hc
  rw [hspace] at h
  cases h

/-- A file with a line for each list of fields. -/
def csvFile (rows : List (JsString × List JsString)) : JsString :=
  List.intercalate [unit '\n']
    (expectedHeader :: rows.map fun row => Csv.quotedLine csvQuote csvComma (row.1 :: row.2))

theorem csvLines_csvFile {rows : List (JsString × List JsString)}
    (h : ∀ row ∈ rows, ∀ value ∈ row.1 :: row.2, unit '\n' ∉ value) :
    csvLines (csvFile rows) =
      expectedHeader :: rows.map fun row => Csv.quotedLine csvQuote csvComma (row.1 :: row.2) := by
  have hlines : ∀ line ∈ expectedHeader :: rows.map fun row =>
      Csv.quotedLine csvQuote csvComma (row.1 :: row.2), unit '\n' ∉ line := by
    intro line hline
    obtain hline | hline := List.mem_cons.mp hline
    · rw [hline]
      decide
    · obtain ⟨row, hrow, rfl⟩ := List.mem_map.mp hline
      intro hmem
      obtain hc | hc | ⟨value, hvalue, hc⟩ := Csv.mem_quotedLine hmem
      · exact absurd hc (by decide)
      · exact absurd hc (by decide)
      · exact h row hrow value hvalue hc
  rw [csvLines, csvFile, List.splitOn_intercalate _ hlines (List.cons_ne_nil _ _),
    List.filter_eq_self]
  intro line hline
  obtain hline | hline := List.mem_cons.mp hline
  · rw [hline]
    decide
  · obtain ⟨row, -, rfl⟩ := List.mem_map.mp hline
    have hquote : csvQuote ∈ Csv.quotedLine csvQuote csvComma (row.1 :: row.2) := by
      cases row.2 with
      | nil => simp [Csv.quotedLine, Csv.quoted]
      | cons next values => simp [Csv.quotedLine_cons_cons, Csv.quoted]
    exact decide_eq_true (length_trim_pos hquote (by decide))

/-- **Theorem.** A file of quoted lines behind the header is read back, a row for each line. -/
theorem parseCsv_csvFile {ρ : Type} (rawRow : JsString → Option JsString → ρ)
    {rows : List (JsString × List JsString)}
    (h : ∀ row ∈ rows, ∀ value ∈ row.1 :: row.2, unit '\n' ∉ value) :
    parseCsv rawRow (csvFile rows) = .ok (rows.map fun row => rawRow row.1 row.2.head?) := by
  rw [parseCsv, csvLines_csvFile h]
  dsimp only
  rw [if_pos rfl]
  induction rows with
  | nil => rfl
  | cons row rows ih =>
    obtain ⟨value, values⟩ := row
    have hline := looseLine_of_line (Csv.line_quotedLine csvQuote csvComma value values)
    have ih := ih fun r hr => h r (by simp [hr])
    rw [List.map_cons, List.mapM_cons, ih, (parseCsvLine_eq_ok _ _).mpr hline]
    cases values <;> rfl

/-- **Theorem.** A file with a line that is not accepted is refused. -/
theorem parseCsv_refused {ρ : Type} (rawRow : JsString → Option JsString → ρ)
    {csvText header : JsString} {rows : List JsString} (hfile : csvLines csvText = header :: rows)
    (hline : line ∈ rows) (h : ¬∃ values, LooseLine line values) :
    ∃ error, parseCsv rawRow csvText = .error error := by
  rw [parseCsv, hfile]
  dsimp only
  by_cases hheader : header = expectedHeader
  · rw [if_pos hheader]
    clear hfile
    induction rows with
    | nil => cases hline
    | cons row rows ih =>
      rw [List.mapM_cons]
      obtain hline | hline := List.mem_cons.mp hline
      · obtain ⟨j, hj⟩ := parseCsvLine_eq_error h
        rw [← hline, hj]
        exact ⟨_, rfl⟩
      · obtain ⟨error, he⟩ := ih hline
        rw [he]
        cases parseCsvLine row with
        | error e => exact ⟨e, rfl⟩
        | ok fields => exact ⟨error, rfl⟩
  · rw [if_neg hheader]
    exact ⟨_, rfl⟩

end Posta
