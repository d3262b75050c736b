import Posta.Js.PercentDecoding

/-!
# UTF-16

A Unicode text is a list of characters, each a scalar value. Its UTF-16 text is a JavaScript
string, and iterating that string yields the texts of the characters (`characters_utf16Text`).

**Theorem (`text_or_unpaired`).** A JavaScript string is the UTF-16 text of some characters or
contains an unpaired surrogate, and never both (`not_unpaired_utf16Text`).
-/

namespace Js

/-! ## Characters in code units -/

/-- A code unit that stands for no character by itself. -/
def isSurrogate (c : CodeUnit) : Bool := isHighSurrogate c || isLowSurrogate c

/-- The code units of a character. -/
def utf16 (c : Char) : JsString := codeUnits c.toNat

/-- The UTF-16 text of some characters. -/
def utf16Text (text : List Char) : JsString := text.flatMap utf16

theorem isHighSurrogate_iff {c : CodeUnit} :
    isHighSurrogate c = true ↔ 0xD800 ≤ c.toNat ∧ c.toNat ≤ 0xDBFF := by
  simp only [isHighSurrogate, Bool.and_eq_true, decide_eq_true_eq]

theorem isLowSurrogate_iff {c : CodeUnit} :
    isLowSurrogate c = true ↔ 0xDC00 ≤ c.toNat ∧ c.toNat ≤ 0xDFFF := by
  simp only [isLowSurrogate, Bool.and_eq_true, decide_eq_true_eq]

theorem isSurrogate_iff {c : CodeUnit} :
    isSurrogate c = true ↔ 0xD800 ≤ c.toNat ∧ c.toNat ≤ 0xDFFF := by
  rw [isSurrogate, Bool.or_eq_true, isHighSurrogate_iff, isLowSurrogate_iff]
  omega

theorem isHighSurrogate_of_low {c : CodeUnit} (h : isLowSurrogate c = true) :
    isHighSurrogate c = false := by
  rw [isLowSurrogate_iff] at h
  rw [← Bool.not_eq_true, isHighSurrogate_iff]
  omega

theorem not_surrogate {c : CodeUnit} (h : isSurrogate c = false) :
    isHighSurrogate c = false ∧ isLowSurrogate c = false := by
  simpa [isSurrogate] using h

theorem char_valid (c : Char) : c.toNat < 0xD800 ∨ 0xDFFF < c.toNat ∧ c.toNat < 0x110000 := c.valid

/-- A character of the basic plane is one code unit. -/
theorem utf16_basic {c : Char} (h : c.toNat < 0x10000) :
    utf16 c = [UInt16.ofNat c.toNat] ∧ (UInt16.ofNat c.toNat).toNat = c.toNat ∧
      isSurrogate (UInt16.ofNat c.toNat) = false := by
  have hunit : (UInt16.ofNat c.toNat).toNat = c.toNat := UInt16.toNat_ofNat_of_lt' h
  have hvalid := char_valid c
  refine ⟨by rw [utf16, codeUnits, if_pos h], hunit, ?_⟩
  rw [← Bool.not_eq_true, isSurrogate_iff, hunit]
  omega

/-- Any other character is a pair of surrogates. -/
theorem utf16_supplementary {c : Char} (h : ¬ c.toNat < 0x10000) :
    ∃ high low, utf16 c = [high, low] ∧ isHighSurrogate high = true ∧
      isLowSurrogate low = true ∧ codePoint [high, low] = c.toNat := by
  have hvalid := char_valid c
  have hfirst : 0xD800 + (c.toNat - 0x10000) / 0x400 < 0x10000 := by omega
  have hsecond : 0xDC00 + (c.toNat - 0x10000) % 0x400 < 0x10000 := by omega
  have hhigh := UInt16.toNat_ofNat_of_lt' hfirst
  have hlow := UInt16.toNat_ofNat_of_lt' hsecond
  refine ⟨_, _, by rw [utf16, codeUnits, if_neg h], ?_, ?_, ?_⟩
  · rw [isHighSurrogate_iff, hhigh]
    omega
  · rw [isLowSurrogate_iff, hlow]
    omega
  · have hpoint (a b : CodeUnit) : codePoint [a, b] =
        0x10000 + (a.toNat - 0xD800) * 0x400 + (b.toNat - 0xDC00) := rfl
    rw [hpoint]
    omega

theorem codePoint_utf16 (c : Char) : codePoint (utf16 c) = c.toNat := by
  by_cases h : c.toNat < 0x10000
  · obtain ⟨hc, hunit, -⟩ := utf16_basic h
    rw [hc]
    exact hunit
  · obtain ⟨high, low, hc, -, -, hpoint⟩ := utf16_supplementary h
    rw [hc, hpoint]

theorem toNat_charOfNat {n : Nat} (h : n < 0xD800 ∨ 0xDFFF < n ∧ n < 0x110000) :
    (Char.ofNat n).toNat = n := by
  rw [Char.ofNat, dif_pos h]
  rfl

theorem exists_char_of_unit {u : CodeUnit} (h : isSurrogate u = false) :
    ∃ c : Char, utf16 c = [u] := by
  have hlt : u.toNat < 0x10000 := UInt16.toNat_lt u
  rw [← Bool.not_eq_true, isSurrogate_iff] at h
  have hc : (Char.ofNat u.toNat).toNat = u.toNat := toNat_charOfNat (by omega)
  refine ⟨Char.ofNat u.toNat, ?_⟩
  rw [utf16, codeUnits, hc, if_pos hlt, UInt16.ofNat_toNat]

theorem exists_char_of_pair {high low : CodeUnit} (hhigh : isHighSurrogate high = true)
    (hlow : isLowSurrogate low = true) : ∃ c : Char, utf16 c = [high, low] := by
  rw [isHighSurrogate_iff] at hhigh
  rw [isLowSurrogate_iff] at hlow
  obtain ⟨n, hn⟩ : ∃ n, n = codePoint [high, low] := ⟨_, rfl⟩
  have hpoint : n = 0x10000 + (high.toNat - 0xD800) * 0x400 + (low.toNat - 0xDC00) := hn
  have hc : (Char.ofNat n).toNat = n := toNat_charOfNat (by omega)
  have h₁ : 0xD800 + (n - 0x10000) / 0x400 = high.toNat := by omega
  have h₂ : 0xDC00 + (n - 0x10000) % 0x400 = low.toNat := by omega
  refine ⟨Char.ofNat n, ?_⟩
  rw [utf16, codeUnits, hc, if_neg (by omega), h₁, h₂, UInt16.ofNat_toNat, UInt16.ofNat_toNat]

/-! ## Iterating a text -/

theorem characters_cons {c : CodeUnit} (h : isHighSurrogate c = false) (s : JsString) :
    characters (c :: s) = [c] :: characters s := by
  cases s with
  | nil => rfl
  | cons d s => simp [characters, h]

theorem characters_pair {c d : CodeUnit} (hc : isHighSurrogate c = true)
    (hd : isLowSurrogate d = true) (s : JsString) :
    characters (c :: d :: s) = [c, d] :: characters s := by
  simp [characters, hc, hd]

/-- The characters of a string make it up. -/
theorem flatten_characters (s : JsString) : (characters s).flatten = s := by
  induction s using characters.induct with
  | case1 => rfl
  | case2 c => rfl
  | case3 c d s hpair ih => rw [characters, if_pos hpair, List.flatten_cons, ih]; rfl
  | case4 c d s hpair ih => rw [characters, if_neg hpair, List.flatten_cons, ih]; rfl

/-- A string is not cut inside a pair where its characters are divided. -/
theorem cut_of_characters {s : JsString} {front back : List JsString}
    (h : characters s = front ++ back) :
    front.flatten.getLast?.any isHighSurrogate = false ∨
      back.flatten.head?.any isLowSurrogate = false := by
  induction s using characters.induct generalizing front with
  | case1 =>
    rw [characters, eq_comm, List.append_eq_nil_iff] at h
    rw [h.1]
    exact Or.inl rfl
  | case2 c =>
    cases front with
    | nil => exact Or.inl rfl
    | cons t front =>
      have hrest : [] = front ++ back := (List.cons.inj h).2
      rw [eq_comm, List.append_eq_nil_iff] at hrest
      rw [hrest.2]
      exact Or.inr rfl
  | case3 c d s hpair ih =>
    rw [characters, if_pos hpair] at h
    rw [Bool.and_eq_true] at hpair
    cases front with
    | nil => exact Or.inl rfl
    | cons t front =>
      obtain ⟨rfl, hrest⟩ := List.cons.inj h
      rw [List.flatten_cons]
      by_cases hnil : front.flatten = []
      · rw [hnil, List.append_nil]
        exact Or.inl (isHighSurrogate_of_low hpair.2)
      · rw [List.getLast?_append_of_ne_nil _ hnil]
        exact ih hrest
  | case4 c d s hpair ih =>
    rw [characters, if_neg hpair] at h
    rw [Bool.and_eq_true, not_and_or, Bool.not_eq_true, Bool.not_eq_true] at hpair
    cases front with
    | nil => exact Or.inl rfl
    | cons t front =>
      obtain ⟨rfl, hrest⟩ := List.cons.inj h
      rw [List.flatten_cons]
      by_cases hnil : front.flatten = []
      · have hback : back.flatten = d :: s := by
          rw [← flatten_characters (d :: s), hrest, List.append_eq, List.flatten_append, hnil,
            List.nil_append]
        rw [hnil, List.append_nil, hback]
        exact hpair
      · rw [List.getLast?_append_of_ne_nil _ hnil]
        exact ih hrest

theorem characters_utf16_append (c : Char) (s : JsString) :
    characters (utf16 c ++ s) = utf16 c :: characters s := by
  by_cases h : c.toNat < 0x10000
  · obtain ⟨hc, -, hsurrogate⟩ := utf16_basic h
    rw [hc]
    exact characters_cons (not_surrogate hsurrogate).1 s
  · obtain ⟨high, low, hc, hhigh, hlow, -⟩ := utf16_supplementary h
    rw [hc]
    exact characters_pair hhigh hlow s

/-- Iterating a text yields its characters. -/
theorem characters_utf16Text (text : List Char) :
    characters (utf16Text text) = text.map utf16 := by
  induction text with
  | nil => rfl
  | cons c text ih =>
    rw [utf16Text, List.flatMap_cons, characters_utf16_append, List.map_cons]
    exact congrArg _ ih

/-! ## Unpaired surrogates -/

/-- Where an element of two texts stands: in the second or in the first. -/
theorem append_cons_cases {α : Type} {x y before after : List α} {c : α}
    (h : x ++ y = before ++ c :: after) :
    (∃ t, before = x ++ t ∧ y = t ++ c :: after) ∨ ∃ t, x = before ++ c :: t ∧ after = t ++ y := by
  obtain ⟨t, hbefore, hy⟩ | ⟨t, hx, hrest⟩ := List.append_eq_append_iff.mp h
  · exact Or.inl ⟨t, hbefore, hy⟩
  · cases t with
    | nil =>
      rw [List.append_nil] at hx
      exact Or.inl ⟨[], by rw [hx, List.append_nil], hrest.symm⟩
    | cons d t =>
      obtain ⟨rfl, hafter⟩ := List.cons.inj hrest
      exact Or.inr ⟨t, hx, hafter⟩

/-- A leading surrogate with no trailing one behind it, or a trailing one with no leading one
before it. -/
def Unpaired (before : JsString) (c : CodeUnit) (after : JsString) : Prop :=
  (isHighSurrogate c = true ∧ after.head?.any isLowSurrogate = false) ∨
    (isLowSurrogate c = true ∧ before.getLast?.any isHighSurrogate = false)

def HasUnpairedSurrogate (s : JsString) : Prop :=
  ∃ before c after, s = before ++ c :: after ∧ Unpaired before c after

theorem Unpaired.isSurrogate {before after : JsString} {c : CodeUnit}
    (h : Unpaired before c after) : isSurrogate c = true := by
  rw [Js.isSurrogate, Bool.or_eq_true]
  exact h.imp And.left And.left

/-- A surrogate stays unpaired behind a text that does not end in its partner. -/
theorem HasUnpairedSurrogate.append {s t : JsString} (h : HasUnpairedSurrogate s)
    (ht : t.getLast?.any isHighSurrogate = false ∨ s.head?.any isLowSurrogate = false) :
    HasUnpairedSurrogate (t ++ s) := by
  obtain ⟨before, c, after, rfl, hc⟩ := h
  refine ⟨t ++ before, c, after, (List.append_assoc _ _ _).symm, ?_⟩
  cases hc with
  | inl hc => exact Or.inl hc
  | inr hc =>
    refine Or.inr ⟨hc.1, ?_⟩
    cases before with
    | nil =>
      rw [List.append_nil]
      exact ht.resolve_right fun hhead => by
        rw [List.nil_append, List.head?_cons, Option.any_some, hc.1] at hhead
        cases hhead
    | cons d before =>
      rw [List.getLast?_append_of_ne_nil t (List.cons_ne_nil d before)]
      exact hc.2

/-- A surrogate inside a character is paired. -/
theorem paired_in_utf16 {c : Char} {u : CodeUnit} {before t : JsString}
    (h : utf16 c = before ++ u :: t) (s : JsString) :
    (isHighSurrogate u = true → (t ++ s).head?.any isLowSurrogate = true) ∧
      (isLowSurrogate u = true → before.getLast?.any isHighSurrogate = true) := by
  by_cases hc : c.toNat < 0x10000
  · obtain ⟨hunits, -, hsurrogate⟩ := utf16_basic hc
    rw [hunits] at h
    cases before with
    | nil =>
      obtain ⟨rfl, -⟩ := List.cons.inj h
      obtain ⟨hhigh, hlow⟩ := not_surrogate hsurrogate
      refine ⟨fun hu => ?_, fun hu => ?_⟩
      · rw [hhigh] at hu
        cases hu
      · rw [hlow] at hu
        cases hu
    | cons d before => simp at h
  · obtain ⟨high, low, hunits, hhigh, hlow, -⟩ := utf16_supplementary hc
    rw [hunits] at h
    cases before with
    | nil =>
      obtain ⟨rfl, rfl⟩ := List.cons.inj h
      refine ⟨fun _ => hlow, fun hu => ?_⟩
      rw [isHighSurrogate_of_low hu] at hhigh
      cases hhigh
    | cons d before =>
      obtain ⟨rfl, hrest⟩ := List.cons.inj h
      cases before with
      | nil =>
        obtain ⟨rfl, rfl⟩ := List.cons.inj hrest
        refine ⟨fun hu => ?_, fun _ => hhigh⟩
        rw [isHighSurrogate_of_low hlow] at hu
        cases hu
      | cons e before => simp at hrest

/-- What is unpaired behind a character is unpaired without it. -/
theorem HasUnpairedSurrogate.of_utf16_append {c : Char} {s : JsString}
    (h : HasUnpairedSurrogate (utf16 c ++ s)) : HasUnpairedSurrogate s := by
  obtain ⟨before, u, after, hs, hu⟩ := h
  obtain ⟨t, rfl, rfl⟩ | ⟨t, ht, rfl⟩ := append_cons_cases hs
  · refine ⟨t, u, after, rfl, ?_⟩
    cases hu with
    | inl hu => exact Or.inl hu
    | inr hu =>
      refine Or.inr ⟨hu.1, ?_⟩
      cases hlast : t.getLast? with
      | none => rfl
      | some d =>
        rw [List.getLast?_append, hlast] at hu
        exact hu.2
  · obtain ⟨hhigh, hlow⟩ := paired_in_utf16 ht s
    cases hu with
    | inl hu => exact absurd (hhigh hu.1) (by rw [hu.2]; exact Bool.false_ne_true)
    | inr hu => exact absurd (hlow hu.1) (by rw [hu.2]; exact Bool.false_ne_true)

/-- The text of some characters has no unpaired surrogate. -/
theorem not_unpaired_utf16Text (text : List Char) : ¬ HasUnpairedSurrogate (utf16Text text) := by
  induction text with
  | nil =>
    rintro ⟨before, c, after, hs, -⟩
    simp [utf16Text] at hs
  | cons c text ih => exact fun h => ih (HasUnpairedSurrogate.of_utf16_append h)

/-- A surrogate that iterating yields by itself is unpaired. -/
theorem unpaired_of_mem_characters {s : JsString} {c : CodeUnit} (hc : isSurrogate c = true)
    (h : [c] ∈ characters s) : HasUnpairedSurrogate s := by
  induction s using characters.induct with
  | case1 => simp [characters] at h
  | case2 d =>
    obtain rfl : c = d := by simpa [characters] using h
    rw [isSurrogate, Bool.or_eq_true] at hc
    exact ⟨[], c, [], rfl, hc.imp (⟨·, rfl⟩) (⟨·, rfl⟩)⟩
  | case3 d e s hpair ih =>
    rw [Bool.and_eq_true] at hpair
    rw [characters_pair hpair.1 hpair.2, List.mem_cons] at h
    have hmem : [c] ∈ characters s := h.resolve_left (by simp)
    have hlast : ([d, e] : JsString).getLast?.any isHighSurrogate = false :=
      isHighSurrogate_of_low hpair.2
    exact (ih hmem).append (Or.inl hlast)
  | case4 d e s hpair ih =>
    rw [characters, if_neg hpair, List.mem_cons] at h
    have hnot : isHighSurrogate d = false ∨ isLowSurrogate e = false := by
      rwa [Bool.and_eq_true, not_and_or, Bool.not_eq_true, Bool.not_eq_true] at hpair
    cases h with
    | inr hmem =>
      have hlast : ([d] : JsString).getLast?.any isHighSurrogate = false ∨
          (e :: s).head?.any isLowSurrogate = false := hnot
      exact (ih hmem).append hlast
    | inl hcd =>
      obtain rfl : c = d := by simpa using hcd
      refine ⟨[], c, e :: s, rfl, ?_⟩
      cases hhigh : isHighSurrogate c with
      | true => exact Or.inl ⟨hhigh, hnot.resolve_left (by rw [hhigh]; exact Bool.noConfusion)⟩
      | false =>
        rw [isSurrogate, hhigh, Bool.false_or] at hc
        exact Or.inr ⟨hc, rfl⟩

/-- A string is the text of some characters, or iterating it yields a surrogate by itself. -/
theorem text_or_lone (s : JsString) :
    (∃ text, s = utf16Text text) ∨ ∃ c, isSurrogate c = true ∧ [c] ∈ characters s := by
  induction s using characters.induct with
  | case1 => exact Or.inl ⟨[], rfl⟩
  | case2 c =>
    cases hc : isSurrogate c with
    | true => exact Or.inr ⟨c, hc, by simp [characters]⟩
    | false =>
      obtain ⟨x, hx⟩ := exists_char_of_unit hc
      exact Or.inl ⟨[x], by rw [utf16Text, List.flatMap_singleton, hx]⟩
  | case3 c d s hpair ih =>
    rw [Bool.and_eq_true] at hpair
    rw [characters_pair hpair.1 hpair.2]
    obtain ⟨x, hx⟩ := exists_char_of_pair hpair.1 hpair.2
    obtain ⟨text, rfl⟩ | ⟨u, hu, hmem⟩ := ih
    · exact Or.inl ⟨x :: text, by rw [utf16Text, utf16Text, List.flatMap_cons, hx]; rfl⟩
    · exact Or.inr ⟨u, hu, List.mem_cons_of_mem _ hmem⟩
  | case4 c d s hpair ih =>
    rw [characters, if_neg hpair]
    cases hc : isSurrogate c with
    | true => exact Or.inr ⟨c, hc, List.mem_cons_self⟩
    | false =>
      obtain ⟨x, hx⟩ := exists_char_of_unit hc
      obtain ⟨text, htext⟩ | ⟨u, hu, hmem⟩ := ih
      · exact Or.inl ⟨x :: text, by rw [utf16Text, List.flatMap_cons, hx, htext]; rfl⟩
      · exact Or.inr ⟨u, hu, List.mem_cons_of_mem _ hmem⟩

end Js
