import Mathlib.Data.List.Infix
import Mathlib.Order.Defs.LinearOrder
import Mathlib.Tactic.Ring

/-!
# JavaScript strings

A JavaScript string is a list of 16-bit code units, lone surrogates included; it need not be
the text of any Unicode string.

**Literals** (`lit`). The code units of a Lean literal. The literals used here lie in the basic
plane, where a character is one code unit.

**Decimal text** (`natText`, `intText`). `String(n)` of an integer, with `natValue` its inverse.
-/

namespace Js

/-- A UTF-16 code unit. -/
abbrev CodeUnit := UInt16

instance : LinearOrder CodeUnit where
  le_refl := UInt16.le_refl
  le_trans _ _ _ := UInt16.le_trans
  lt_iff_le_not_ge a b := by
    rw [UInt16.lt_iff_toNat_lt, UInt16.le_iff_toNat_le, UInt16.le_iff_toNat_le]
    omega
  le_antisymm _ _ := UInt16.le_antisymm
  le_total := UInt16.le_total
  toDecidableLE := inferInstance
  toDecidableLT := inferInstance
  min_def _ _ := rfl
  max_def _ _ := rfl

/-- A JavaScript string. -/
abbrev JsString := List CodeUnit

/-- The code unit of a character of the basic plane. -/
def unit (c : Char) : CodeUnit := UInt16.ofNat c.toNat

/-- The code units of a literal. -/
def lit (s : String) : JsString := s.toList.map unit

/-- `s.includes(t)`. -/
def JsString.includes (s t : JsString) : Bool := decide (t <:+: s)

/-! ## Digits -/

def isDigit (c : CodeUnit) : Bool := 48 ≤ c.toNat && c.toNat ≤ 57

def isLetter (c : CodeUnit) : Bool :=
  (65 ≤ c.toNat && c.toNat ≤ 90) || (97 ≤ c.toNat && c.toNat ≤ 122)

/-- The value of a digit. -/
def digitValue (c : CodeUnit) : Nat := c.toNat - 48

/-- `String(n)` of a natural number. -/
def natText (n : Nat) : JsString := (Nat.toDigits 10 n).map unit

/-- The number a list of digits denotes. -/
def natValue (s : JsString) : Nat := s.foldl (fun n c => 10 * n + digitValue c) 0

/-- `String(z)` of an integer. -/
def intText : Int → JsString
  | .ofNat n => natText n
  | .negSucc n => lit "-" ++ natText (n + 1)

/-- `s.padStart(length, '0')`. -/
def padStartZero (length : Nat) (s : JsString) : JsString :=
  List.replicate (length - s.length) (unit '0') ++ s

theorem toNat_unit_of_isDigit {c : Char} (h : c.isDigit) : (unit c).toNat = c.toNat := by
  have hc : c.toNat ≤ 57 := (Char.isDigit_iff_toNat.mp h).2
  exact UInt16.toNat_ofNat_of_lt' (Nat.lt_of_le_of_lt hc (by decide))

theorem isDigit_unit {c : Char} (h : c.isDigit) : isDigit (unit c) = true := by
  have hc : 48 ≤ c.toNat ∧ c.toNat ≤ 57 := Char.isDigit_iff_toNat.mp h
  simp [isDigit, toNat_unit_of_isDigit h, hc]

theorem natText_ne_nil (n : Nat) : natText n ≠ [] := by
  simp [natText, Nat.toDigits_ne_nil]

theorem isDigit_of_mem_natText {n : Nat} {c : CodeUnit} (h : c ∈ natText n) :
    isDigit c = true := by
  obtain ⟨d, hd, rfl⟩ := List.mem_map.mp h
  exact isDigit_unit (Nat.isDigit_of_mem_toDigits (by decide) (by decide) hd)

theorem foldl_digits_unit (cs : List Char) (h : ∀ c ∈ cs, c.isDigit) (n : Nat) :
    (cs.map unit).foldl (fun n c => 10 * n + digitValue c) n = Nat.ofDigitChars 10 cs n := by
  induction cs generalizing n with
  | nil => rfl
  | cons c cs ih =>
    have hc : digitValue (unit c) = c.toNat - 48 := by
      rw [digitValue, toNat_unit_of_isDigit (h c (by simp))]
    simp only [List.map_cons, List.foldl_cons, Nat.ofDigitChars_cons, hc]
    exact ih (fun d hd => h d (by simp [hd])) _

@[simp] theorem natValue_natText (n : Nat) : natValue (natText n) = n := by
  rw [natValue, natText, foldl_digits_unit, Nat.ofDigitChars_ten_toDigits]
  exact fun c hc => Nat.isDigit_of_mem_toDigits (by decide) (by decide) hc

theorem unit_digitChar_ne_zero : ∀ d < 10, 0 < d → unit (Nat.digitChar d) ≠ unit '0' := by
  decide

/-- A positive number does not start with a zero. -/
theorem head_natText_ne_zero (n : Nat) (hn : 0 < n) : (natText n).head? ≠ some (unit '0') := by
  induction n using Nat.strong_induction_on with
  | _ n ih =>
    by_cases h : n < 10
    · simpa [natText, Nat.toDigits_of_lt_base h] using unit_digitChar_ne_zero n h hn
    · have hq : 0 < n / 10 := by omega
      have hd : natText n = natText (n / 10) ++ [unit (n % 10).digitChar] := by
        rw [natText, Nat.toDigits_of_base_le (by decide) (by omega), List.map_append]
        rfl
      rw [hd, List.head?_append_of_ne_nil _ (natText_ne_nil (n / 10))]
      exact ih (n / 10) (by omega) hq

theorem natText_injective : Function.Injective natText := fun a b h => by
  rw [← natValue_natText a, h, natValue_natText]

theorem foldl_digits_eq (s : JsString) (n : Nat) :
    s.foldl (fun n c => 10 * n + digitValue c) n = 10 ^ s.length * n + natValue s := by
  induction s generalizing n with
  | nil => simp [natValue]
  | cons c s ih =>
    simp only [List.foldl_cons, natValue, List.length_cons]
    rw [ih, ih (10 * 0 + digitValue c), pow_succ]
    ring

theorem natValue_append (s t : JsString) :
    natValue (s ++ t) = 10 ^ t.length * natValue s + natValue t := by
  rw [natValue, List.foldl_append, foldl_digits_eq]
  rfl

@[simp] theorem natValue_zeros (k : Nat) : natValue (List.replicate k (unit '0')) = 0 := by
  induction k with
  | zero => rfl
  | succ k ih =>
    rw [List.replicate_succ', natValue_append, ih]
    rfl

end Js
