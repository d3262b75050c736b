import Posta.Js.Text
import Mathlib.Tactic.IntervalCases

/-!
# JavaScript numbers and their text

A finite `Number` is identified with the decimal that `Number::toString` prints for it: sign,
digits and power of ten, with no trailing zero among the digits. Distinct numbers print distinct
decimals, and reading a decimal back yields the number it was printed for, so the rounding of a
literal to the nearest double never shows on text that a program wrote. `-0` prints as `0` and
is not told apart from it; `NaN` and the infinities are not JSON.

**Text** (`JsNumber.text`). The cases of `Number::toString`, through the parts of a numeric
literal (`Literal`).

**Reading** (`parseNumber`). The number production of JSON.

**Theorem (`parseNumber_text`).** Reading the text of a number gives the number.
-/

namespace Js

/-- `coeff * 10 ^ exponent`, with its sign; no trailing zero in `coeff`. -/
structure JsNumber where
  negative : Bool
  coeff : Nat
  exponent : Int
  canonical : coeff % 10 ≠ 0 ∨ (coeff = 0 ∧ exponent = 0 ∧ negative = false)
deriving DecidableEq

/-- Drop the trailing zeros of a coefficient. -/
def strip : Nat → Nat → Int → Nat × Int
  | 0, c, e => (c, e)
  | fuel + 1, c, e => if c % 10 = 0 then strip fuel (c / 10) (e + 1) else (c, e)

theorem strip_mod (fuel c : Nat) (e : Int) (hc : 0 < c) (hf : c ≤ fuel) :
    (strip fuel c e).1 % 10 ≠ 0 := by
  induction fuel generalizing c e with
  | zero => omega
  | succ fuel ih =>
    rw [strip]
    split
    · exact ih _ _ (by omega) (by omega)
    · assumption

theorem strip_of_canonical {fuel c : Nat} {e : Int} (hc : c % 10 ≠ 0) :
    strip fuel c e = (c, e) := by
  cases fuel with
  | zero => rfl
  | succ fuel => rw [strip, if_neg hc]

theorem strip_mul_pow (k fuel c : Nat) (e : Int) (hc : c % 10 ≠ 0) (hf : k ≤ fuel) :
    strip fuel (c * 10 ^ k) e = (c, e + k) := by
  induction k generalizing fuel e with
  | zero => simpa using strip_of_canonical hc
  | succ k ih =>
    obtain ⟨fuel, rfl⟩ : ∃ f, fuel = f + 1 := ⟨fuel - 1, by omega⟩
    have hq : c * 10 ^ (k + 1) = c * 10 ^ k * 10 := by ring
    rw [strip, if_pos (by omega), hq, Nat.mul_div_cancel _ (by decide), ih _ _ (by omega)]
    simp only [Prod.mk.injEq, true_and]
    omega

namespace JsNumber

/-- The number `± c * 10 ^ e`. -/
def normalise (negative : Bool) (c : Nat) (e : Int) : JsNumber :=
  if h : c = 0 then ⟨false, 0, 0, Or.inr ⟨rfl, rfl, rfl⟩⟩
  else ⟨negative, (strip c c e).1, (strip c c e).2,
    Or.inl (strip_mod c c e (Nat.pos_of_ne_zero h) (Nat.le_refl c))⟩

def ofNat (n : Nat) : JsNumber := normalise false n 0

/-- `Number.isInteger(n)`. -/
def isInteger (n : JsNumber) : Bool := 0 ≤ n.exponent

theorem normalise_self (n : JsNumber) : normalise n.negative n.coeff n.exponent = n := by
  obtain ⟨b, c, e, h⟩ := n
  rcases h with h | ⟨rfl, rfl, rfl⟩
  · have hc : c ≠ 0 := by omega
    simp only [normalise, hc, dite_false, strip_of_canonical h]
  · rfl

theorem normalise_mul_pow (b : Bool) (c k : Nat) (e : Int) (hc : c % 10 ≠ 0) :
    normalise b (c * 10 ^ k) e = ⟨b, c, e + k, Or.inl hc⟩ := by
  have hpos : 0 < 10 ^ k := Nat.pow_pos (by decide)
  have hc0 : c * 10 ^ k ≠ 0 := Nat.mul_ne_zero (by omega) (by omega)
  have hk : k ≤ c * 10 ^ k := by
    have h1 : k < 10 ^ k := Nat.lt_pow_self (by decide)
    have h2 : 10 ^ k ≤ c * 10 ^ k := Nat.le_mul_of_pos_left _ (by omega)
    omega
  simp only [normalise, hc0, dite_false, strip_mul_pow k _ c e hc hk]

end JsNumber

/-! ## Numeric literals -/

/-- The parts of a numeric literal: integer digits, fraction digits, exponent. -/
structure Literal where
  negative : Bool
  int : JsString
  frac : JsString
  exp : Option Int

namespace Literal

/-- `e+5`, `e-7`. -/
def expText : Option Int → JsString
  | none => []
  | some z => unit 'e' :: (if 0 ≤ z then unit '+' else unit '-') :: natText z.natAbs

def fracText (frac : JsString) : JsString := if frac = [] then [] else unit '.' :: frac

def text (l : Literal) : JsString :=
  (if l.negative then [unit '-'] else []) ++ l.int ++ fracText l.frac ++ expText l.exp

/-- The number a literal denotes. -/
def value (l : Literal) : JsNumber :=
  JsNumber.normalise l.negative (natValue (l.int ++ l.frac)) (l.exp.getD 0 - l.frac.length)

end Literal

/-- The literal that `Number::toString` prints. -/
def JsNumber.literal (n : JsNumber) : Literal :=
  let s := natText n.coeff
  let k : Int := s.length
  let m : Int := k + n.exponent
  if k ≤ m ∧ m ≤ 21 then
    ⟨n.negative, s ++ List.replicate n.exponent.toNat (unit '0'), [], none⟩
  else if 0 < m ∧ m ≤ 21 then
    ⟨n.negative, s.take m.toNat, s.drop m.toNat, none⟩
  else if -6 < m ∧ m ≤ 0 then
    ⟨n.negative, lit "0", List.replicate (-m).toNat (unit '0') ++ s, none⟩
  else if k = 1 then
    ⟨n.negative, s, [], some (m - 1)⟩
  else
    ⟨n.negative, s.take 1, s.drop 1, some (m - 1)⟩

/-- `String(n)`. -/
def JsNumber.text (n : JsNumber) : JsString := n.literal.text

/-! ## Reading a number -/

/-- The digits a text starts with, and the rest. -/
def takeDigits (s : JsString) : JsString × JsString := s.span isDigit

/-- The optional fraction: at least one digit after the point. -/
def parseFraction : JsString → Option (JsString × JsString)
  | c :: s =>
    if c = unit '.' then
      if (takeDigits s).1 = [] then none else some (takeDigits s)
    else some ([], c :: s)
  | [] => some ([], [])

/-- The digits of an exponent, with the sign already read. -/
def parseExponentDigits (negative : Bool) (s : JsString) : Option (Option Int × JsString) :=
  if (takeDigits s).1 = [] then none
  else
    let z : Int := natValue (takeDigits s).1
    some (some (if negative then -z else z), (takeDigits s).2)

/-- The optional exponent: a sign or none, and at least one digit. -/
def parseExponent : JsString → Option (Option Int × JsString)
  | c :: s =>
    if c = unit 'e' ∨ c = unit 'E' then
      match s with
      | d :: s' =>
        if d = unit '+' then parseExponentDigits false s'
        else if d = unit '-' then parseExponentDigits true s'
        else parseExponentDigits false s
      | [] => none
    else some (none, c :: s)
  | [] => some (none, [])

/-- The number production, after its sign. A leading zero stands alone. -/
def parseUnsigned (negative : Bool) (s : JsString) : Option (JsNumber × JsString) := do
  let int := (takeDigits s).1
  if int = [] ∨ (int.head? = some (unit '0') ∧ int.length ≠ 1) then none
  else
    let (frac, s) ← parseFraction (takeDigits s).2
    let (exp, s) ← parseExponent s
    some (Literal.value ⟨negative, int, frac, exp⟩, s)

/-- The number production of JSON. -/
def parseNumber : JsString → Option (JsNumber × JsString)
  | c :: s => if c = unit '-' then parseUnsigned true s else parseUnsigned false (c :: s)
  | [] => none

/-! ## Round trip -/

/-- What may follow a number: nothing that would extend it. -/
def EndsNumber (r : JsString) : Prop :=
  ∀ c ∈ r.head?, isDigit c = false ∧ c ≠ unit '.' ∧ c ≠ unit 'e' ∧ c ≠ unit 'E'

theorem takeDigits_append {ds r : JsString} (hd : ∀ c ∈ ds, isDigit c = true)
    (hr : ∀ c ∈ r.head?, isDigit c = false) : takeDigits (ds ++ r) = (ds, r) := by
  rw [takeDigits, List.span_eq_takeWhile_dropWhile, List.takeWhile_append_of_pos hd,
    List.dropWhile_append_of_pos hd]
  cases r with
  | nil => simp
  | cons c r =>
    have hc : isDigit c = false := hr c (by simp)
    simp [hc]

theorem EndsNumber.not_digit {r : JsString} (h : EndsNumber r) :
    ∀ c ∈ r.head?, isDigit c = false := fun c hc => (h c hc).1

namespace Literal

/-- The parts of a literal are digits where JSON wants digits. -/
structure WellFormed (l : Literal) : Prop where
  int_digits : ∀ c ∈ l.int, isDigit c = true
  int_ne_nil : l.int ≠ []
  int_zero : l.int.head? = some (unit '0') → l.int.length = 1
  frac_digits : ∀ c ∈ l.frac, isDigit c = true

variable {l : Literal} {r : JsString}

theorem parseExponent_expText (e : Option Int) (hr : EndsNumber r) :
    parseExponent (expText e ++ r) = some (e, r) := by
  cases e with
  | none =>
    cases r with
    | nil => rfl
    | cons c r =>
      obtain ⟨-, -, he, hE⟩ := hr c (by simp)
      simp [expText, parseExponent, he, hE]
  | some z =>
    have hspan :=
      takeDigits_append (fun c hc => isDigit_of_mem_natText (n := z.natAbs) hc) hr.not_digit
    by_cases hz : 0 ≤ z
    · have hv : ((z.natAbs : Nat) : Int) = z := Int.natAbs_of_nonneg hz
      simp [expText, parseExponent, parseExponentDigits, hz, hspan, natText_ne_nil, hv]
    · have hv : -|z| = z := by rw [abs_of_neg (by omega), neg_neg]
      have hne : unit '-' ≠ unit '+' := by decide
      simp [expText, parseExponent, parseExponentDigits, hz, hspan, natText_ne_nil, hv, hne]

theorem expText_head_not_digit (e : Option Int) (hr : EndsNumber r) :
    ∀ c ∈ (expText e ++ r).head?, isDigit c = false ∧ c ≠ unit '.' := by
  cases e with
  | none => exact fun c hc => ⟨(hr c hc).1, (hr c hc).2.1⟩
  | some z =>
    intro c hc
    have : c = unit 'e' := by simpa [expText, eq_comm] using hc
    subst this
    decide

theorem parseFraction_fracText (frac : JsString) (e : Option Int) (hr : EndsNumber r)
    (hfrac : ∀ c ∈ frac, isDigit c = true) :
    parseFraction (fracText frac ++ (expText e ++ r)) = some (frac, expText e ++ r) := by
  have hhead := expText_head_not_digit e hr
  by_cases hf : frac = []
  · subst hf
    generalize expText e ++ r = s at hhead
    cases s with
    | nil => rfl
    | cons c s =>
      have hc : c ≠ unit '.' := (hhead c (by simp)).2
      simp [fracText, parseFraction, hc]
  · have hspan := takeDigits_append hfrac fun c hc => (hhead c hc).1
    simp [fracText, hf, parseFraction, hspan]

theorem head_not_digit (frac : JsString) (e : Option Int) (hr : EndsNumber r) :
    ∀ c ∈ (fracText frac ++ (expText e ++ r)).head?, isDigit c = false := by
  by_cases hf : frac = []
  · subst hf
    exact fun c hc => (expText_head_not_digit e hr c hc).1
  · intro c hc
    have : c = unit '.' := by simpa [fracText, hf, eq_comm] using hc
    subst this
    decide

theorem parseUnsigned_text (b : Bool) (hl : l.WellFormed) (hr : EndsNumber r) :
    parseUnsigned b (l.int ++ (fracText l.frac ++ (expText l.exp ++ r))) =
      some (Literal.value ⟨b, l.int, l.frac, l.exp⟩, r) := by
  have hspan := takeDigits_append hl.int_digits (head_not_digit l.frac l.exp hr)
  have hzero : ¬(l.int = [] ∨ (l.int.head? = some (unit '0') ∧ l.int.length ≠ 1)) := by
    rintro (h | ⟨h, h'⟩)
    · exact hl.int_ne_nil h
    · exact h' (hl.int_zero h)
  simp only [parseUnsigned, hspan, if_neg hzero]
  rw [parseFraction_fracText l.frac l.exp hr hl.frac_digits]
  simp only [Option.bind_eq_bind, Option.bind_some, parseExponent_expText l.exp hr]

theorem parseNumber_text (hl : l.WellFormed) (hr : EndsNumber r) :
    parseNumber (l.text ++ r) = some (l.value, r) := by
  obtain ⟨b, int, frac, exp⟩ := l
  cases b with
  | true =>
    simpa [text, parseNumber] using parseUnsigned_text true hl hr
  | false =>
    cases int with
    | nil => exact absurd rfl hl.int_ne_nil
    | cons c int =>
      have hc : isDigit c = true := hl.int_digits c (by simp)
      have hne : c ≠ unit '-' := by
        rintro rfl
        exact absurd hc (by decide)
      simpa [text, parseNumber, hne] using parseUnsigned_text false hl hr

end Literal

namespace JsNumber

variable (n : JsNumber)

theorem zeros_digits (k : Nat) : ∀ c ∈ List.replicate k (unit '0'), isDigit c = true := by
  intro c hc
  rw [List.eq_of_mem_replicate hc]
  decide

theorem natText_zero_length (m : Nat) (h : (natText m).head? = some (unit '0')) : m = 0 := by
  by_contra hm
  exact head_natText_ne_zero m (Nat.pos_of_ne_zero hm) h

theorem exponent_of_coeff_zero (h : n.coeff = 0) : n.exponent = 0 := by
  rcases n.canonical with h' | h'
  · omega
  · exact h'.2.1

theorem literal_wellFormed : n.literal.WellFormed := by
  have hdig := fun c (hc : c ∈ natText n.coeff) => isDigit_of_mem_natText hc
  have hne := natText_ne_nil n.coeff
  have hlen : 0 < (natText n.coeff).length := List.length_pos_iff.mpr hne
  have hzero : (natText n.coeff).head? = some (unit '0') →
      (natText n.coeff).length = 1 ∧ n.exponent = 0 := by
    intro h
    have hc := natText_zero_length n.coeff h
    exact ⟨by rw [hc]; rfl, n.exponent_of_coeff_zero hc⟩
  rw [literal]
  split_ifs with h₁ h₂ h₃ h₄
  · refine ⟨?_, by simp [hne], ?_, by simp⟩
    · intro c hc
      rcases List.mem_append.mp hc with hc | hc
      · exact hdig c hc
      · exact zeros_digits _ c hc
    · intro h
      rw [List.head?_append_of_ne_nil _ hne] at h
      simp [hzero h]
  · refine ⟨fun c hc => hdig c (List.mem_of_mem_take hc), ?_, ?_,
      fun c hc => hdig c (List.mem_of_mem_drop hc)⟩
    · simp only [ne_eq, List.take_eq_nil_iff, hne, or_false]
      omega
    · intro h
      rw [List.head?_take, if_neg (by omega)] at h
      obtain ⟨h1, h2⟩ := hzero h
      omega
  · have h0 : ∀ c ∈ lit "0", isDigit c = true := List.all_eq_true.mp (by decide)
    refine ⟨h0, List.cons_ne_nil _ _, fun _ => rfl, ?_⟩
    intro c hc
    rcases List.mem_append.mp hc with hc | hc
    · exact zeros_digits _ c hc
    · exact hdig c hc
  · exact ⟨hdig, hne, fun h => (hzero h).1, by simp⟩
  · refine ⟨fun c hc => hdig c (List.mem_of_mem_take hc), by simp [hne], fun _ => ?_,
      fun c hc => hdig c (List.mem_of_mem_drop hc)⟩
    rw [List.length_take]
    omega

theorem literal_value : n.literal.value = n := by
  have hlen : 0 < (natText n.coeff).length := List.length_pos_iff.mpr (natText_ne_nil n.coeff)
  rw [literal]
  split_ifs with h₁ h₂ h₃ h₄
  · have hv : natValue (natText n.coeff ++ List.replicate n.exponent.toNat (unit '0')) =
        n.coeff * 10 ^ n.exponent.toNat := by
      rw [natValue_append, natValue_zeros, natValue_natText, List.length_replicate]
      ring
    rcases n.canonical with hc | hc
    · have he : ((0 : Int) + (n.exponent.toNat : Nat)) = n.exponent := by omega
      simp only [Literal.value, List.append_nil, hv, Option.getD_none, List.length_nil,
        Nat.cast_zero, sub_zero, normalise_mul_pow n.negative n.coeff _ 0 hc, he]
    · have hv0 := hv.trans (by rw [hc.1, Nat.zero_mul] : _ = 0)
      simp only [Literal.value, List.append_nil, hv0]
      conv_rhs => rw [← normalise_self n, hc.1]
      rfl
  · have hl : ((natText n.coeff).drop ((natText n.coeff).length + n.exponent).toNat).length =
        (-n.exponent).toNat := by
      rw [List.length_drop]
      omega
    simp only [Literal.value, List.take_append_drop, natValue_natText, Option.getD_none, hl]
    conv_rhs => rw [← normalise_self n]
    congr 1
    omega
  · have hv : natValue (lit "0" ++ (List.replicate (-((natText n.coeff).length + n.exponent)).toNat
        (unit '0') ++ natText n.coeff)) = n.coeff := by
      simp [natValue_append, show natValue (lit "0") = 0 from rfl]
    simp only [Literal.value, hv, Option.getD_none, List.length_append, List.length_replicate]
    conv_rhs => rw [← normalise_self n]
    congr 1
    omega
  · simp only [Literal.value, List.append_nil, natValue_natText, Option.getD_some,
      List.length_nil, Nat.cast_zero, sub_zero]
    conv_rhs => rw [← normalise_self n]
    congr 1
    omega
  · simp only [Literal.value, List.take_append_drop, natValue_natText, Option.getD_some,
      List.length_drop]
    conv_rhs => rw [← normalise_self n]
    congr 1
    omega

/-- **Theorem (`parseNumber_text`).** Reading the text of a number gives the number. -/
theorem parseNumber_text {r : JsString} (hr : EndsNumber r) :
    parseNumber (n.text ++ r) = some (n, r) := by
  rw [text, Literal.parseNumber_text n.literal_wellFormed hr, literal_value]

end JsNumber

end Js
