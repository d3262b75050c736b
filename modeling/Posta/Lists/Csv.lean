import Mathlib.Data.List.Basic
import Mathlib.Tactic.ByContra

/-!
# Separated lists of quoted fields

A line is a list of fields with a separator between them. A field is written bare, or between two
quotes with every quote inside doubled.

**Doubling** (`double`). Where the quote at the end of a quoted field stands is decided by the
text alone: `exists_doubled` finds the doubled part of any text.

**Lines** (`Separated`). The grammar of the fields is a parameter, that of the last field apart,
so that a reader that is laxer about some fields is described by the same relation.
-/

namespace Csv

variable {α : Type}

/-- A text without quotes and separators. -/
def Plain (quote comma : α) (text : List α) : Prop := quote ∉ text ∧ comma ∉ text

/-- Every quote of a text doubled. -/
def double [DecidableEq α] (quote : α) (text : List α) : List α :=
  text.flatMap fun c => if c = quote then [quote, quote] else [c]

/-- A value between quotes. -/
def quoted [DecidableEq α] (quote : α) (value : List α) : List α :=
  quote :: (double quote value ++ [quote])

/-- A field with its value: free of quotes, or wholly quoted. -/
inductive Field [DecidableEq α] (quote comma : α) : List α → List α → Prop
  | bare {text : List α} (h : Plain quote comma text) : Field quote comma text text
  | quoted (value : List α) : Field quote comma (quoted quote value) value

/-- Fields with separators between them, and their values. -/
inductive Separated (comma : α) (field last : List α → List α → Prop) :
    List α → List (List α) → Prop
  | last {text value : List α} (h : last text value) : Separated comma field last text [value]
  | cons {text value rest : List α} {values : List (List α)} (h : field text value)
      (hrest : Separated comma field last rest values) :
      Separated comma field last (text ++ comma :: rest) (value :: values)

/-- A line of fields that are bare or quoted. -/
abbrev Line [DecidableEq α] (quote comma : α) : List α → List (List α) → Prop :=
  Separated comma (Field quote comma) (Field quote comma)

/-- The line that quotes every field. -/
def quotedLine [DecidableEq α] (quote comma : α) (values : List (List α)) : List α :=
  List.intercalate [comma] (values.map (quoted quote))

/-! ## Plain texts -/

section Plain

variable {quote comma : α} {text : List α}

/-- Nothing follows, or a separator does. -/
def Ends (comma : α) (rest : List α) : Prop := ∀ c ∈ rest.head?, c = comma

/-- Where a plain text in front of a separator ends. -/
theorem plain_append_inj {text' rest rest' : List α} (ht : Plain quote comma text)
    (ht' : Plain quote comma text') (hrest : Ends comma rest) (hrest' : Ends comma rest')
    (h : text ++ rest = text' ++ rest') : text = text' ∧ rest = rest' := by
  induction text generalizing text' with
  | nil =>
    cases text' with
    | nil => exact ⟨rfl, h⟩
    | cons d text' =>
      have hd : d = comma := hrest d (by rw [← List.nil_append rest, h]; rfl)
      exact absurd (by simp [hd]) ht'.2
  | cons c text ih =>
    cases text' with
    | nil =>
      have hc : c = comma := hrest' c (by rw [← List.nil_append rest', ← h]; rfl)
      exact absurd (by simp [hc]) ht.2
    | cons d text' =>
      obtain ⟨hcd, htail⟩ := List.cons.inj h
      have hp : Plain quote comma text :=
        ⟨fun hm => ht.1 (List.mem_cons_of_mem _ hm), fun hm => ht.2 (List.mem_cons_of_mem _ hm)⟩
      have hp' : Plain quote comma text' :=
        ⟨fun hm => ht'.1 (List.mem_cons_of_mem _ hm), fun hm => ht'.2 (List.mem_cons_of_mem _ hm)⟩
      obtain ⟨heq, hr⟩ := ih hp hp' htail
      exact ⟨by rw [hcd, heq], hr⟩

end Plain

/-! ## Doubled quotes -/

section Doubling

variable [DecidableEq α] {quote comma c : α} {text value : List α}

@[simp] theorem double_nil : double quote ([] : List α) = [] := rfl

@[simp] theorem double_cons_quote : double quote (quote :: text) =
    quote :: quote :: double quote text := by simp [double]

theorem double_cons_of_ne (hc : c ≠ quote) : double quote (c :: text) = c :: double quote text := by
  simp [double, hc]

theorem mem_of_mem_double (h : c ∈ double quote text) : c ∈ text := by
  obtain ⟨d, hd, hc⟩ := List.mem_flatMap.mp h
  by_cases hquote : d = quote
  · rw [if_pos hquote, ← hquote] at hc
    obtain rfl : c = d := by simpa using hc
    exact hd
  · rw [if_neg hquote, List.mem_singleton] at hc
    exact hc ▸ hd

/-- **Theorem.** Any text is doubled to its end, or up to a quote that stands alone. -/
theorem exists_doubled (quote : α) : ∀ text : List α, ∃ value,
    text = double quote value ∨
      ∃ rest, text = double quote value ++ quote :: rest ∧ rest.head? ≠ some quote
  | [] => ⟨[], Or.inl rfl⟩
  | [c] => by
    by_cases hc : c = quote
    · exact ⟨[], Or.inr ⟨[], by simp [hc], by simp⟩⟩
    · exact ⟨[c], Or.inl (by simp [double, hc])⟩
  | c :: d :: text => by
    by_cases hc : c = quote
    · by_cases hd : d = quote
      · obtain ⟨value, h | ⟨rest, h, hrest⟩⟩ := exists_doubled quote text
        · exact ⟨quote :: value, Or.inl (by simp [hc, hd, h])⟩
        · exact ⟨quote :: value, Or.inr ⟨rest, by simp [hc, hd, h], hrest⟩⟩
      · exact ⟨[], Or.inr ⟨d :: text, by simp [hc], by simp [hd]⟩⟩
    · obtain ⟨value, h | ⟨rest, h, hrest⟩⟩ := exists_doubled quote (d :: text)
      · exact ⟨c :: value, Or.inl (by rw [double_cons_of_ne hc, h])⟩
      · exact ⟨c :: value, Or.inr ⟨rest, by rw [double_cons_of_ne hc, h]; rfl, hrest⟩⟩

/-- The doubled part of a text, with its quotes halved, and what follows it. -/
def undouble (quote : α) : List α → List α × List α
  | [] => ([], [])
  | [c] => if c = quote then ([], [c]) else ([c], [])
  | c :: d :: text =>
    if c = quote then
      if d = quote then (quote :: (undouble quote text).1, (undouble quote text).2)
      else ([], c :: d :: text)
    else (c :: (undouble quote (d :: text)).1, (undouble quote (d :: text)).2)

theorem undouble_cons_of_ne (hc : c ≠ quote) (text : List α) : undouble quote (c :: text) =
    (c :: (undouble quote text).1, (undouble quote text).2) := by
  cases text with
  | nil => simp [undouble, hc]
  | cons d text => rw [undouble, if_neg hc]

/-- Where the doubled part of a text ends is decided by the text. -/
theorem undouble_double (value : List α) {rest : List α} (h : undouble quote rest = ([], rest)) :
    undouble quote (double quote value ++ rest) = (value, rest) := by
  induction value with
  | nil => exact h
  | cons c value ih =>
    by_cases hc : c = quote
    · rw [hc, double_cons_quote, List.cons_append, List.cons_append, undouble, if_pos rfl,
        if_pos rfl, ih]
    · rw [double_cons_of_ne hc, List.cons_append, undouble_cons_of_ne hc, ih]

theorem undouble_quote {rest : List α} (h : rest.head? ≠ some quote) :
    undouble quote (quote :: rest) = ([], quote :: rest) := by
  cases rest with
  | nil => simp [undouble]
  | cons d rest =>
    have hd : d ≠ quote := by simpa using h
    rw [undouble, if_pos rfl, if_neg hd]

theorem double_append_inj {value value' rest rest' : List α} (hrest : rest.head? ≠ some quote)
    (hrest' : rest'.head? ≠ some quote)
    (h : double quote value ++ quote :: rest = double quote value' ++ quote :: rest') :
    value = value' ∧ rest = rest' := by
  have hv := undouble_double value (undouble_quote hrest)
  rw [h, undouble_double value' (undouble_quote hrest'), Prod.mk.injEq, List.cons.injEq] at hv
  exact ⟨hv.1.symm, hv.2.2.symm⟩

theorem double_ne_append_quote {value value' rest : List α} (hrest : rest.head? ≠ some quote) :
    double quote value ≠ double quote value' ++ quote :: rest := by
  intro h
  have hv := undouble_double value (show undouble quote [] = ([], []) from rfl)
  rw [List.append_nil, h, undouble_double value' (undouble_quote hrest), Prod.mk.injEq] at hv
  cases hv.2

/-- **Theorem.** Any text is plain up to its end, a separator or a quote. -/
theorem exists_plain (quote comma : α) (text : List α) : ∃ t, Plain quote comma t ∧
    (text = t ∨ (∃ rest, text = t ++ comma :: rest) ∨ ∃ rest, text = t ++ quote :: rest) := by
  induction text with
  | nil => exact ⟨[], by simp [Plain], Or.inl rfl⟩
  | cons c text ih =>
    by_cases hcomma : c = comma
    · exact ⟨[], by simp [Plain], Or.inr (Or.inl ⟨text, by simp [hcomma]⟩)⟩
    by_cases hquote : c = quote
    · exact ⟨[], by simp [Plain], Or.inr (Or.inr ⟨text, by simp [hquote]⟩)⟩
    obtain ⟨t, ht, h⟩ := ih
    refine ⟨c :: t, ⟨?_, ?_⟩, ?_⟩
    · simpa [Ne.symm hquote] using ht.1
    · simpa [Ne.symm hcomma] using ht.2
    · simpa using h

end Doubling

/-! ## Lines -/

variable {comma : α} {field field' last last' : List α → List α → Prop} {line : List α}
  {values : List (List α)}

/-- A line stays one where more is accepted as a field. -/
theorem Separated.mono (h : Separated comma field last line values)
    (hfield : ∀ text value, field text value → field' text value)
    (hlast : ∀ text value, last text value → last' text value) :
    Separated comma field' last' line values := by
  induction h with
  | last h => exact .last (hlast _ _ h)
  | cons h _ ih => exact .cons (hfield _ _ h) ih

theorem quotedLine_cons_cons [DecidableEq α] (quote comma : α) (value next : List α)
    (values : List (List α)) : quotedLine quote comma (value :: next :: values) =
      quoted quote value ++ comma :: quotedLine quote comma (next :: values) := by
  simp [quotedLine, List.intercalate]

/-- What a quoted line consists of. -/
theorem mem_quotedLine [DecidableEq α] {quote comma c : α} {value : List α}
    (h : c ∈ quotedLine quote comma (value :: values)) :
    c = quote ∨ c = comma ∨ ∃ v ∈ value :: values, c ∈ v := by
  have hvalue : ∀ {v : List α}, c ∈ quoted quote v → c = quote ∨ c ∈ v := fun {v} hc => by
    simp only [quoted, List.mem_cons, List.mem_append, List.not_mem_nil, or_false] at hc
    obtain hc | hc | hc := hc
    · exact Or.inl hc
    · exact Or.inr (mem_of_mem_double hc)
    · exact Or.inl hc
  induction values generalizing value with
  | nil =>
    have hq : quotedLine quote comma [value] = quoted quote value := by simp [quotedLine]
    rw [hq] at h
    obtain h | h := hvalue h
    · exact Or.inl h
    · exact Or.inr (Or.inr ⟨value, by simp, h⟩)
  | cons next values ih =>
    rw [quotedLine_cons_cons, List.mem_append, List.mem_cons] at h
    obtain h | h | h := h
    · obtain h | h := hvalue h
      · exact Or.inl h
      · exact Or.inr (Or.inr ⟨value, by simp, h⟩)
    · exact Or.inr (Or.inl h)
    · obtain h | h | ⟨v, hv, h⟩ := ih h
      · exact Or.inl h
      · exact Or.inr (Or.inl h)
      · exact Or.inr (Or.inr ⟨v, List.mem_cons_of_mem _ hv, h⟩)

/-- **Theorem.** Quoting a list of fields gives a line with these values. -/
theorem line_quotedLine [DecidableEq α] (quote comma : α) (value : List α)
    (values : List (List α)) :
    Line quote comma (quotedLine quote comma (value :: values)) (value :: values) := by
  induction values generalizing value with
  | nil =>
    have h : quotedLine quote comma [value] = quoted quote value := by simp [quotedLine]
    rw [h]
    exact .last (.quoted value)
  | cons next values ih =>
    rw [quotedLine_cons_cons]
    exact .cons (.quoted value) (ih next)

end Csv
