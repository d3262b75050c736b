import Posta.Js.Strings

/-!
# Percent-decoding

**Decoding** (`decodeURIComponent`). A percent sign must stand before two hexadecimal digits, and the
octets that stand together must be UTF-8; every other code unit stands for itself.

**Encodings** (`PercentEncodes`). A text of ASCII may stand for itself or be encoded, unit by unit.

**Theorem (`decodeURIComponent_iff`).** The encodings of a text of ASCII are what is decoded to it.
-/

namespace Js

/-- A code unit that stands for itself, or an octet. -/
inductive PercentToken where
  | raw (c : CodeUnit)
  | octet (b : Nat)

def percentTokens : JsString → Option (List PercentToken)
  | [] => some []
  | [c] => if c = unit '%' then none else some [.raw c]
  | [c, d] => if c = unit '%' ∨ d = unit '%' then none else some [.raw c, .raw d]
  | c :: h :: l :: s =>
    if c = unit '%' then do
      let high ← hexValue h
      let low ← hexValue l
      let tokens ← percentTokens s
      some (.octet (16 * high + low) :: tokens)
    else (percentTokens (h :: l :: s)).map (.raw c :: ·)

/-- The code units of a code point. -/
def codeUnits (n : Nat) : JsString :=
  if n < 0x10000 then [UInt16.ofNat n]
  else [UInt16.ofNat (0xD800 + (n - 0x10000) / 0x400), UInt16.ofNat (0xDC00 + (n - 0x10000) % 0x400)]

/-- The value of an octet that goes on a sequence. -/
def continuation : PercentToken → Option Nat
  | .octet b => if 0x80 ≤ b ∧ b < 0xC0 then some (b - 0x80) else none
  | .raw _ => none

/-- The code point of a sequence of two, three or four octets, without overlong forms and
surrogates. -/
def sequenceValue (b : Nat) : List PercentToken → Option Nat
  | [t] => do
    let x ← continuation t
    if 0xC2 ≤ b ∧ b < 0xE0 then some ((b - 0xC0) * 0x40 + x) else none
  | [t, u] => do
    let x ← continuation t
    let y ← continuation u
    let n := (b - 0xE0) * 0x1000 + x * 0x40 + y
    if 0xE0 ≤ b ∧ b < 0xF0 ∧ 0x800 ≤ n ∧ ¬ (0xD800 ≤ n ∧ n < 0xE000) then some n else none
  | [t, u, v] => do
    let x ← continuation t
    let y ← continuation u
    let z ← continuation v
    let n := (b - 0xF0) * 0x40000 + x * 0x1000 + y * 0x40 + z
    if 0xF0 ≤ b ∧ b < 0xF8 ∧ 0x10000 ≤ n ∧ n < 0x110000 then some n else none
  | _ => none

def decodeTokens : List PercentToken → Option JsString
  | [] => some []
  | .raw c :: s => (decodeTokens s).map (c :: ·)
  | .octet b :: s =>
    if b < 0x80 then (decodeTokens s).map (UInt16.ofNat b :: ·)
    else match s with
      | t :: s =>
        if b < 0xE0 then do
          let n ← sequenceValue b [t]
          (decodeTokens s).map (codeUnits n ++ ·)
        else match s with
          | u :: s =>
            if b < 0xF0 then do
              let n ← sequenceValue b [t, u]
              (decodeTokens s).map (codeUnits n ++ ·)
            else match s with
              | v :: s => do
                let n ← sequenceValue b [t, u, v]
                (decodeTokens s).map (codeUnits n ++ ·)
              | [] => none
          | [] => none
      | [] => none

/-- `decodeURIComponent(s)`, `none` where it throws. -/
def decodeURIComponent (s : JsString) : Option JsString := (percentTokens s).bind decodeTokens

example : decodeURIComponent (lit "a%C3%B1%F0%9F%98%80") = some [97, 0xF1, 0xD83D, 0xDE00] := by
  decide +kernel

example : decodeURIComponent (lit "%C0%AF") = none := by decide

/-! ## Text of ASCII -/

/-- A code unit of ASCII stands for itself, unless it is the percent sign, or is encoded. -/
inductive PercentEncodes : JsString → JsString → Prop
  | nil : PercentEncodes [] []
  | raw {c : CodeUnit} {s e : JsString} : c ≠ unit '%' → PercentEncodes s e →
      PercentEncodes (c :: s) (c :: e)
  | octet {c h l : CodeUnit} {high low : Nat} {s e : JsString} : hexValue h = some high →
      hexValue l = some low → 16 * high + low < 0x80 → c = UInt16.ofNat (16 * high + low) →
      PercentEncodes s e → PercentEncodes (c :: s) (unit '%' :: h :: l :: e)

theorem percentTokens_raw {c : CodeUnit} (hc : c ≠ unit '%') (s : JsString) :
    percentTokens (c :: s) = (percentTokens s).map (.raw c :: ·) := by
  match s with
  | [] => simp [percentTokens, hc]
  | [d] =>
    by_cases hd : d = unit '%'
    · simp [percentTokens, hd]
    · simp [percentTokens, hc, hd]
  | h :: l :: s => rw [percentTokens, if_neg hc]

theorem percentTokens_octet {h l : CodeUnit} {high low : Nat} (hh : hexValue h = some high)
    (hl : hexValue l = some low) (s : JsString) :
    percentTokens (unit '%' :: h :: l :: s) =
      (percentTokens s).map (.octet (16 * high + low) :: ·) := by
  rw [percentTokens, if_pos rfl, hh, hl]
  cases percentTokens s <;> rfl

/-- A percent sign stands before two hexadecimal digits. -/
theorem percentTokens_percent {s : JsString} {ts : List PercentToken}
    (h : percentTokens (unit '%' :: s) = some ts) : ∃ h l high low s' ts', s = h :: l :: s' ∧
      hexValue h = some high ∧ hexValue l = some low ∧ percentTokens s' = some ts' ∧
      ts = .octet (16 * high + low) :: ts' := by
  match s with
  | [] => simp [percentTokens] at h
  | [d] => simp [percentTokens] at h
  | h' :: l :: s =>
    rw [percentTokens, if_pos rfl] at h
    simp only [Option.bind_eq_bind, Option.bind_eq_some_iff, Option.some.injEq] at h
    obtain ⟨high, hh, low, hl, ts', hs, rfl⟩ := h
    exact ⟨h', l, high, low, s, ts', rfl, hh, hl, hs, rfl⟩

/-- The token stands for a code unit of ASCII. -/
def PercentToken.Reads (t : PercentToken) (c : CodeUnit) : Prop :=
  t = .raw c ∨ ∃ b < 0x80, t = .octet b ∧ c = UInt16.ofNat b

theorem continuation_lt {t : PercentToken} {x : Nat} (h : continuation t = some x) : x < 0x40 := by
  cases t with
  | raw c => cases h
  | octet b =>
    obtain ⟨hb, hx⟩ := Option.ite_none_right_eq_some.1 h
    have hx := Option.some.inj hx
    omega

theorem sequenceValue_ge {b n : Nat} {ts : List PercentToken} (h : sequenceValue b ts = some n) :
    0x80 ≤ n ∧ n < 0x110000 := by
  unfold sequenceValue at h
  split at h
  · simp only [Option.bind_eq_bind, Option.bind_eq_some_iff, Option.ite_none_right_eq_some,
      Option.some.injEq] at h
    obtain ⟨x, hx, hb, rfl⟩ := h
    have := continuation_lt hx
    omega
  · simp only [Option.bind_eq_bind, Option.bind_eq_some_iff, Option.ite_none_right_eq_some,
      Option.some.injEq] at h
    obtain ⟨x, hx, y, hy, hb, rfl⟩ := h
    have := continuation_lt hx
    have := continuation_lt hy
    omega
  · simp only [Option.bind_eq_bind, Option.bind_eq_some_iff, Option.ite_none_right_eq_some,
      Option.some.injEq] at h
    obtain ⟨x, hx, y, hy, z, hz, hb, rfl⟩ := h
    omega
  · cases h

/-- The first code unit of a code point beyond ASCII is beyond ASCII. -/
theorem codeUnits_beyond {n : Nat} (hn : 0x80 ≤ n) (hlt : n < 0x110000) :
    ∃ c cs, codeUnits n = c :: cs ∧ isAscii c = false := by
  unfold codeUnits
  by_cases h : n < 0x10000
  · rw [if_pos h]
    refine ⟨_, _, rfl, ?_⟩
    have hc : (UInt16.ofNat n).toNat = n := UInt16.toNat_ofNat_of_lt' h
    simp [isAscii, hc, hn]
  · rw [if_neg h]
    refine ⟨_, _, rfl, ?_⟩
    have hc : (UInt16.ofNat (0xD800 + (n - 0x10000) / 0x400)).toNat =
        0xD800 + (n - 0x10000) / 0x400 :=
      UInt16.toNat_ofNat_of_lt' (show _ < 65536 by omega)
    simp only [isAscii, hc, decide_eq_false_iff_not]
    omega

theorem beyond_of_sequence {b : Nat} {ts : List PercentToken} {rest : Option JsString} {s : JsString}
    (h : (do let n ← sequenceValue b ts; rest.map (codeUnits n ++ ·)) = some s) :
    ∃ c ∈ s, isAscii c = false := by
  simp only [Option.bind_eq_bind, Option.bind_eq_some_iff, Option.map_eq_some_iff] at h
  obtain ⟨n, hn, s, -, rfl⟩ := h
  obtain ⟨hge, hlt⟩ := sequenceValue_ge hn
  obtain ⟨c, cs, hcs, hc⟩ := codeUnits_beyond hge hlt
  rw [hcs]
  exact ⟨c, List.mem_cons_self, hc⟩

theorem decodeTokens_ascii {b : Nat} (hb : b < 0x80) (ts : List PercentToken) :
    decodeTokens (.octet b :: ts) = (decodeTokens ts).map (UInt16.ofNat b :: ·) := by
  rw [decodeTokens.eq_def]
  exact if_pos hb

theorem decodeTokens_beyond {b : Nat} (hb : ¬ b < 0x80) {ts : List PercentToken} {s : JsString}
    (h : decodeTokens (.octet b :: ts) = some s) : ∃ c ∈ s, isAscii c = false := by
  rw [decodeTokens.eq_def] at h
  dsimp only at h
  rw [if_neg hb] at h
  split at h
  · next t ts =>
    by_cases hb₂ : b < 0xE0
    · rw [if_pos hb₂] at h
      exact beyond_of_sequence h
    rw [if_neg hb₂] at h
    split at h
    · next u ts =>
      by_cases hb₃ : b < 0xF0
      · rw [if_pos hb₃] at h
        exact beyond_of_sequence h
      rw [if_neg hb₃] at h
      split at h
      · exact beyond_of_sequence h
      · cases h
    · cases h
  · cases h

/-- Text of ASCII is decoded token by token. -/
theorem reads_of_decodeTokens {ts : List PercentToken} {s : JsString}
    (h : decodeTokens ts = some s) (hs : ∀ c ∈ s, isAscii c = true) :
    List.Forall₂ PercentToken.Reads ts s := by
  induction ts generalizing s with
  | nil =>
    cases h
    exact .nil
  | cons t ts ih =>
    cases t with
    | raw c =>
      rw [decodeTokens] at h
      obtain ⟨s, hts, rfl⟩ := Option.map_eq_some_iff.1 h
      exact .cons (.inl rfl) (ih hts (List.forall_mem_cons.1 hs).2)
    | octet b =>
      by_cases hb : b < 0x80
      · rw [decodeTokens_ascii hb] at h
        obtain ⟨s, hts, rfl⟩ := Option.map_eq_some_iff.1 h
        exact .cons (.inr ⟨b, hb, rfl, rfl⟩) (ih hts (List.forall_mem_cons.1 hs).2)
      · obtain ⟨c, hc, hbeyond⟩ := decodeTokens_beyond hb h
        cases (hs c hc).symm.trans hbeyond

theorem percentEncodes_of_reads {e s : JsString} {ts : List PercentToken}
    (h : percentTokens e = some ts) (hr : List.Forall₂ PercentToken.Reads ts s) :
    PercentEncodes s e := by
  induction hn : e.length using Nat.strong_induction_on generalizing e s ts with
  | _ n ih =>
    subst hn
    cases e with
    | nil =>
      cases h
      cases hr
      exact .nil
    | cons c e =>
      by_cases hc : c = unit '%'
      · subst hc
        obtain ⟨x, y, high, low, e, ts, rfl, hx, hy, he, rfl⟩ := percentTokens_percent h
        cases hr with
        | cons hread hr =>
          rcases hread with hread | ⟨b, hb, hread, rfl⟩
          · cases hread
          · cases hread
            exact .octet hx hy hb rfl (ih _ (by simp only [List.length_cons]; omega) he hr rfl)
      · rw [percentTokens_raw hc] at h
        obtain ⟨ts, he, rfl⟩ := Option.map_eq_some_iff.1 h
        cases hr with
        | cons hread hr =>
          rcases hread with hread | ⟨b, -, hread, -⟩
          · cases hread
            exact .raw hc (ih _ (Nat.lt_succ_self _) he hr rfl)
          · cases hread

theorem decodeURIComponent_of_encodes {s e : JsString} (h : PercentEncodes s e) :
    decodeURIComponent e = some s := by
  unfold decodeURIComponent
  induction h with
  | nil => rfl
  | raw hc _ ih =>
    obtain ⟨ts, he, hs⟩ := Option.bind_eq_some_iff.1 ih
    rw [percentTokens_raw hc, he, Option.map_some, Option.bind_some, decodeTokens, hs]
    rfl
  | octet hh hl hb hc _ ih =>
    obtain ⟨ts, he, hs⟩ := Option.bind_eq_some_iff.1 ih
    rw [percentTokens_octet hh hl, he, Option.map_some, Option.bind_some, decodeTokens_ascii hb, hs,
      hc]
    rfl

/-- **Theorem (`decodeURIComponent_iff`).** -/
theorem decodeURIComponent_iff {s : JsString} (hs : ∀ c ∈ s, isAscii c = true) {e : JsString} :
    decodeURIComponent e = some s ↔ PercentEncodes s e := by
  constructor
  · intro h
    obtain ⟨ts, he, hts⟩ := Option.bind_eq_some_iff.1 h
    exact percentEncodes_of_reads he (reads_of_decodeTokens hts hs)
  · exact decodeURIComponent_of_encodes

/-- An encoding is at most three times as long. -/
theorem PercentEncodes.length_le {s e : JsString} (h : PercentEncodes s e) :
    e.length ≤ s.length * 3 := by
  induction h with
  | nil => exact Nat.le_refl _
  | raw _ _ ih =>
    simp only [List.length_cons]
    omega
  | octet _ _ _ _ _ ih =>
    simp only [List.length_cons]
    omega

/-- Every code unit of an encoding is one of the text, the percent sign or a hexadecimal digit. -/
theorem PercentEncodes.mem {s e : JsString} (h : PercentEncodes s e) {c : CodeUnit} (hc : c ∈ e) :
    c ∈ s ∨ c = unit '%' ∨ (hexValue c).isSome := by
  induction h with
  | nil => cases hc
  | raw _ _ ih =>
    rcases List.mem_cons.1 hc with rfl | hc
    · exact .inl List.mem_cons_self
    · exact (ih hc).imp_left (List.mem_cons_of_mem _)
  | octet hh hl _ _ _ ih =>
    rcases List.mem_cons.1 hc with rfl | hc
    · exact .inr (.inl rfl)
    rcases List.mem_cons.1 hc with rfl | hc
    · exact .inr (.inr (by rw [hh]; rfl))
    rcases List.mem_cons.1 hc with rfl | hc
    · exact .inr (.inr (by rw [hl]; rfl))
    · exact (ih hc).imp_left (List.mem_cons_of_mem _)

/-- A text without percent signs encodes itself. -/
theorem PercentEncodes.refl {s : JsString} (h : unit '%' ∉ s) : PercentEncodes s s := by
  induction s with
  | nil => exact .nil
  | cons c s ih =>
    rw [List.mem_cons, not_or] at h
    exact .raw (Ne.symm h.1) (ih h.2)

end Js
