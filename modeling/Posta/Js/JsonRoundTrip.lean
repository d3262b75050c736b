import Posta.Js.Json

/-!
# Reading back what was written

**Strings** (`parseString_quote`). Every string comes back, whatever its code units.

**Values** (`parse_stringify`). A value whose objects have distinct keys comes back. The
induction is over the value, with the bound on the depth of the reader kept above `readCost`.
-/

namespace Js

/-! ## Strings -/

theorem hexValue_hexDigit : ∀ d < 16, hexValue (hexDigit d) = some d := by decide

theorem parseString_plain {c : CodeUnit} (h₁ : c ≠ unit '"') (h₂ : c ≠ unit '\\')
    (h₃ : ¬c.toNat < 32) (s : JsString) :
    parseString (c :: s) = (parseString s).map fun p => (c :: p.1, p.2) := by
  rw [parseString_cons, if_neg h₁, if_neg h₂, if_neg h₃]

theorem parseString_backslash (s : JsString) :
    parseString (unit '\\' :: s) = readString .escaped s := by
  have hne : unit '\\' ≠ unit '"' := by decide
  rw [parseString_cons, if_neg hne, if_pos rfl]

theorem parseString_escape {e c : CodeUnit} (he : e ≠ unit 'u') (hc : unescape e = some c)
    (s : JsString) :
    parseString ([unit '\\', e] ++ s) = (parseString s).map fun p => (c :: p.1, p.2) := by
  rw [List.cons_append, parseString_backslash, List.cons_append, readString_escaped,
    if_neg he, hc]
  rfl

theorem readString_hex_succ {d : Nat} (hd : d < 16) (left acc : Nat) (s : JsString) :
    readString (.hex (left + 1) acc) (hexDigit d :: s) = readString (.hex left (16 * acc + d)) s := by
  rw [readString_hex, hexValue_hexDigit d hd]

theorem readString_hex_zero {d : Nat} (hd : d < 16) (acc : Nat) (s : JsString) :
    readString (.hex 0 acc) (hexDigit d :: s) =
      (parseString s).map fun p => (UInt16.ofNat (16 * acc + d) :: p.1, p.2) := by
  rw [readString_hex, hexValue_hexDigit d hd]

theorem parseString_unicodeEscape (c : CodeUnit) (s : JsString) :
    parseString (unicodeEscape c ++ s) = (parseString s).map fun p => (c :: p.1, p.2) := by
  have hc : c.toNat < 65536 := c.toNat_lt
  have hn : 16 * (16 * (16 * (16 * 0 + c.toNat / 4096) + c.toNat / 256 % 16) +
      c.toNat / 16 % 16) + c.toNat % 16 = c.toNat := by omega
  rw [unicodeEscape, List.cons_append, parseString_backslash, List.cons_append,
    readString_escaped, if_pos rfl]
  simp only [List.cons_append, List.nil_append]
  rw [readString_hex_succ (by omega), readString_hex_succ (by omega),
    readString_hex_succ (by omega), readString_hex_zero (by omega), hn, UInt16.ofNat_toNat]

theorem parseString_escapeUnit (c : CodeUnit) (s : JsString) :
    parseString (escapeUnit c ++ s) = (parseString s).map fun p => (c :: p.1, p.2) := by
  unfold escapeUnit
  split_ifs with h₁ h₂ h₃ h₄ h₅ h₆ h₇ h₈
  · subst h₁
    exact parseString_escape (by decide) (by decide) s
  · subst h₂
    exact parseString_escape (by decide) (by decide) s
  · subst h₃
    exact parseString_escape (by decide) (by decide) s
  · subst h₄
    exact parseString_escape (by decide) (by decide) s
  · subst h₅
    exact parseString_escape (by decide) (by decide) s
  · subst h₆
    exact parseString_escape (by decide) (by decide) s
  · subst h₇
    exact parseString_escape (by decide) (by decide) s
  · exact parseString_unicodeEscape c s
  · exact parseString_plain h₁ h₂ (fun h => h₈ (Or.inl h)) s

theorem plain_of_surrogate {c : CodeUnit} (h : isHighSurrogate c ∨ isLowSurrogate c) :
    c ≠ unit '"' ∧ c ≠ unit '\\' ∧ ¬c.toNat < 32 := by
  have hc : 0xD800 ≤ c.toNat := by
    rcases h with h | h
    · simp only [isHighSurrogate, Bool.and_eq_true, decide_eq_true_eq] at h
      exact h.1
    · simp only [isLowSurrogate, Bool.and_eq_true, decide_eq_true_eq] at h
      omega
  refine ⟨?_, ?_, by omega⟩
  · rintro rfl
    exact absurd hc (by decide)
  · rintro rfl
    exact absurd hc (by decide)

theorem parseString_nil (r : JsString) : parseString (unit '"' :: r) = some ([], r) := by
  rw [parseString_cons, if_pos rfl]

/-- **Strings come back.** -/
theorem parseString_quote (s r : JsString) :
    parseString (escape s ++ unit '"' :: r) = some (s, r) := by
  induction s using escape.induct with
  | case1 => rw [escape, List.nil_append, parseString_nil]
  | case2 c => rw [escape, parseString_escapeUnit, parseString_nil, Option.map_some]
  | case3 c d s h ih =>
    obtain ⟨h₁, h₂, h₃⟩ := plain_of_surrogate (c := c) (Or.inl h.1)
    obtain ⟨h₁', h₂', h₃'⟩ := plain_of_surrogate (c := d) (Or.inr h.2)
    rw [escape, if_pos h, List.cons_append, List.cons_append, parseString_plain h₁ h₂ h₃,
      parseString_plain h₁' h₂' h₃', ih]
    rfl
  | case4 c d s h ih =>
    rw [escape, if_neg h, List.append_assoc, parseString_escapeUnit, ih]
    rfl

/-! ## Values -/

mutual
/-- Every object inside the value has distinct keys. -/
def Json.Distinct : Json → Prop
  | .arr xs => DistinctElements xs
  | .obj ms => (ms.map Prod.fst).Nodup ∧ DistinctMembers ms
  | _ => True

def DistinctElements : List Json → Prop
  | [] => True
  | x :: xs => x.Distinct ∧ DistinctElements xs

def DistinctMembers : List (JsString × Json) → Prop
  | [] => True
  | (_, v) :: ms => v.Distinct ∧ DistinctMembers ms
end

mutual
/-- The depth the reader needs for the text of a value. -/
def Json.readCost : Json → Nat
  | .arr [] => 1
  | .arr (x :: xs) => 2 + x.readCost + elementsCost xs
  | .obj [] => 1
  | .obj ((_, v) :: ms) => 2 + v.readCost + membersCost ms
  | _ => 1

def elementsCost : List Json → Nat
  | [] => 0
  | x :: xs => 1 + x.readCost + elementsCost xs

def membersCost : List (JsString × Json) → Nat
  | [] => 0
  | (_, v) :: ms => 1 + v.readCost + membersCost ms
end

theorem setMember_of_not_mem {ms : List (JsString × Json)} {k : JsString} {v : Json}
    (h : k ∉ ms.map Prod.fst) : setMember ms k v = ms ++ [(k, v)] := by
  rw [setMember, if_neg h]

theorem foldl_setMember (acc ms : List (JsString × Json))
    (h : ((acc ++ ms).map Prod.fst).Nodup) :
    ms.foldl (fun acc m => setMember acc m.1 m.2) acc = acc ++ ms := by
  induction ms generalizing acc with
  | nil => simp
  | cons m ms ih =>
    have hm : m.1 ∉ acc.map Prod.fst := by
      intro hm
      rw [List.map_append, List.nodup_append] at h
      exact h.2.2 m.1 hm m.1 (by simp) rfl
    rw [List.foldl_cons, setMember_of_not_mem hm, ih _ (by simpa using h)]
    simp

/-- Distinct keys stay as they are written. -/
theorem objectOf_of_nodup {ms : List (JsString × Json)} (h : (ms.map Prod.fst).Nodup) :
    objectOf ms = ms := by
  rw [objectOf, foldl_setMember [] ms (by simpa using h)]
  rfl

theorem skipSpace_cons {c : CodeUnit} (h : isSpace c = false) (s : JsString) :
    skipSpace (c :: s) = c :: s := by
  simp [skipSpace, h]

theorem expect_append (t s : JsString) : expect t (t ++ s) = some s := by
  simp [expect]

/-- The first code unit of a number, with what it is not. -/
theorem head_number (n : JsNumber) :
    ∃ c s, n.text = c :: s ∧ isSpace c = false ∧ c ≠ unit '"' ∧ c ≠ unit '[' ∧ c ≠ unit ']' ∧
      c ≠ unit '{' ∧ c ≠ unit '}' ∧ c ≠ unit 'n' ∧ c ≠ unit 't' ∧ c ≠ unit 'f' := by
  have hwf := n.literal_wellFormed
  rw [JsNumber.text, Literal.text]
  cases hb : n.literal.negative with
  | true => exact ⟨unit '-', _, rfl, by decide⟩
  | false =>
    obtain ⟨c, int, hint⟩ : ∃ c int, n.literal.int = c :: int :=
      List.exists_cons_of_ne_nil hwf.int_ne_nil
    have hc : isDigit c = true := hwf.int_digits c (by rw [hint]; simp)
    refine ⟨c, _, by rw [hint]; rfl, ?_⟩
    have hd : 48 ≤ c.toNat ∧ c.toNat ≤ 57 := by simpa [isDigit] using hc
    refine ⟨?_, ?_, ?_, ?_, ?_, ?_, ?_, ?_, ?_⟩
    · simp only [isSpace, Bool.or_eq_false_iff, beq_eq_false_iff_ne]
      refine ⟨⟨⟨?_, ?_⟩, ?_⟩, ?_⟩ <;> rintro rfl <;> exact absurd hd (by decide)
    all_goals
      rintro rfl
      exact absurd hd (by decide)

theorem quote_cons (s : JsString) : quote s = unit '"' :: (escape s ++ [unit '"']) := rfl

/-- No value starts with whitespace, nor with what closes an array or an object. -/
theorem head_stringify (v : Json) :
    ∃ c s, stringify v = c :: s ∧ isSpace c = false ∧ c ≠ unit ']' ∧ c ≠ unit '}' := by
  cases v with
  | null => exact ⟨unit 'n', lit "ull", by rw [stringify]; rfl, by decide⟩
  | bool b =>
    cases b with
    | true => exact ⟨unit 't', lit "rue", by rw [stringify]; rfl, by decide⟩
    | false => exact ⟨unit 'f', lit "alse", by rw [stringify]; rfl, by decide⟩
  | num n =>
    obtain ⟨c, s, h, hs, -, -, h₁, -, h₂, -⟩ := head_number n
    exact ⟨c, s, by rw [stringify, h], hs, h₁, h₂⟩
  | str s => exact ⟨unit '"', _, by rw [stringify, quote_cons], by decide⟩
  | arr xs =>
    cases xs with
    | nil => exact ⟨unit '[', [unit ']'], by rw [stringify]; rfl, by decide⟩
    | cons x xs => exact ⟨unit '[', _, by rw [stringify], by decide⟩
  | obj ms =>
    cases ms with
    | nil => exact ⟨unit '{', [unit '}'], by rw [stringify]; rfl, by decide⟩
    | cons m ms => exact ⟨unit '{', _, by rw [stringify], by decide⟩

theorem endsNumber_cons {c : CodeUnit} {r : JsString} (h : isDigit c = false ∧ c ≠ unit '.' ∧
    c ≠ unit 'e' ∧ c ≠ unit 'E') : EndsNumber (c :: r) := by
  intro d hd
  have : d = c := by simpa [eq_comm] using hd
  exact this ▸ h

theorem endsNumber_elements (xs : List Json) (r : JsString) :
    EndsNumber (stringifyElements xs ++ r) := by
  cases xs with
  | nil => exact endsNumber_cons (by decide)
  | cons x xs => exact endsNumber_cons (by decide)

theorem endsNumber_members (ms : List (JsString × Json)) (r : JsString) :
    EndsNumber (stringifyMembers ms ++ r) := by
  cases ms with
  | nil => exact endsNumber_cons (by decide)
  | cons m ms => exact endsNumber_cons (by decide)

theorem expect_quote (k r : JsString) :
    expect [unit '"'] (skipSpace (quote k ++ r)) = some (escape k ++ unit '"' :: r) := by
  rw [quote_cons, List.cons_append, skipSpace_cons (by decide)]
  simp [expect]

theorem expect_colon (r : JsString) :
    expect [unit ':'] (skipSpace (unit ':' :: r)) = some r := by
  rw [skipSpace_cons (by decide)]
  simp [expect]

theorem parseValue_str (fuel : Nat) (s r : JsString) :
    parseValue (fuel + 1) (quote s ++ r) = some (.str s, r) := by
  rw [quote_cons, List.cons_append, List.append_assoc, parseValue, skipSpace_cons (by decide)]
  simp only [if_true, List.singleton_append, parseString_quote, Option.map_some]

theorem parseValue_num (fuel : Nat) (n : JsNumber) {r : JsString} (hr : EndsNumber r) :
    parseValue (fuel + 1) (n.text ++ r) = some (.num n, r) := by
  obtain ⟨c, s, h, hs, h₁, h₂, -, h₃, -, h₄, h₅, h₆⟩ := head_number n
  have hn := n.parseNumber_text hr
  rw [h, List.cons_append] at hn ⊢
  rw [parseValue, skipSpace_cons hs]
  simp only [if_neg h₁, if_neg h₂, if_neg h₃, if_neg h₄, if_neg h₅, if_neg h₆, hn, Option.map_some]

theorem parseValue_arr (fuel : Nat) {s r : JsString} {c : CodeUnit} {xs : List Json}
    (hs : isSpace c = false) (hc : c ≠ unit ']')
    (h : parseElements fuel (c :: s) = some (xs, r)) :
    parseValue (fuel + 1) (unit '[' :: c :: s) = some (.arr xs, r) := by
  have h₁ : unit '[' ≠ unit '"' := by decide
  rw [parseValue, skipSpace_cons (by decide)]
  simp only [if_neg h₁, if_true, skipSpace_cons hs, if_neg hc, h, Option.map_some]

theorem parseValue_obj (fuel : Nat) {s r : JsString} {ms : List (JsString × Json)}
    (hd : (ms.map Prod.fst).Nodup) (h : parseMembers fuel (unit '"' :: s) = some (ms, r)) :
    parseValue (fuel + 1) (unit '{' :: unit '"' :: s) = some (.obj ms, r) := by
  have h₁ : unit '{' ≠ unit '"' := by decide
  have h₂ : unit '{' ≠ unit '[' := by decide
  have h₃ : unit '"' ≠ unit '}' := by decide
  rw [parseValue, skipSpace_cons (by decide)]
  simp only [if_neg h₁, if_neg h₂, if_true, skipSpace_cons (show isSpace (unit '"') = false by decide),
    if_neg h₃, h, Option.map_some, objectOf_of_nodup hd]

mutual
/-- A value is read back, whatever follows it. -/
theorem parseValue_stringify : ∀ (v : Json) (fuel : Nat) (r : JsString), v.Distinct →
    v.readCost ≤ fuel → EndsNumber r → parseValue fuel (stringify v ++ r) = some (v, r)
  | .null, fuel + 1, r, _, _, _ => by
    rw [stringify, parseValue]
    rfl
  | .bool true, fuel + 1, r, _, _, _ => by
    rw [stringify, parseValue]
    rfl
  | .bool false, fuel + 1, r, _, _, _ => by
    rw [stringify, parseValue]
    rfl
  | .num n, fuel + 1, r, _, _, hr => by rw [stringify, parseValue_num fuel n hr]
  | .str s, fuel + 1, r, _, _, _ => by rw [stringify, parseValue_str]
  | .arr [], fuel + 1, r, _, _, _ => by
    rw [stringify, parseValue]
    rfl
  | .arr (x :: xs), fuel + 1, r, hd, hf, _ => by
    rw [Json.Distinct, DistinctElements] at hd
    rw [Json.readCost] at hf
    have hx := parseElements_stringify x xs fuel r hd.1 hd.2 (by omega)
    obtain ⟨c, s, h, hs, hc, -⟩ := head_stringify x
    rw [stringify, List.cons_append, List.append_assoc, h, List.cons_append]
    rw [h, List.cons_append] at hx
    exact parseValue_arr fuel hs hc hx
  | .obj [], fuel + 1, r, _, _, _ => by
    rw [stringify, parseValue]
    rfl
  | .obj ((k, v) :: ms), fuel + 1, r, hd, hf, _ => by
    rw [Json.Distinct, DistinctMembers] at hd
    rw [Json.readCost] at hf
    have hm := parseMembers_stringify k v ms fuel r hd.2.1 hd.2.2 (by omega)
    rw [quote_cons, List.cons_append] at hm
    simp only [stringify, quote_cons, List.cons_append, List.append_assoc] at hm ⊢
    exact parseValue_obj fuel hd.1 hm
  | .null, 0, _, _, hf, _ | .bool _, 0, _, _, hf, _ | .num _, 0, _, _, hf, _
  | .str _, 0, _, _, hf, _ | .arr [], 0, _, _, hf, _ | .arr (_ :: _), 0, _, _, hf, _
  | .obj [], 0, _, _, hf, _ | .obj (_ :: _), 0, _, _, hf, _ => by
    simp [Json.readCost] at hf

theorem parseElements_stringify : ∀ (x : Json) (xs : List Json) (fuel : Nat) (r : JsString),
    x.Distinct → DistinctElements xs → 1 + x.readCost + elementsCost xs ≤ fuel →
    parseElements fuel (stringify x ++ (stringifyElements xs ++ r)) = some (x :: xs, r)
  | _, _, 0, _, _, _, hf => by omega
  | x, [], fuel + 1, r, hx, _, hf => by
    have hv := parseValue_stringify x fuel (stringifyElements [] ++ r) hx
      (by simp only [elementsCost] at hf; omega) (endsNumber_elements [] r)
    rw [parseElements, hv]
    rfl
  | x, y :: ys, fuel + 1, r, hx, hxs, hf => by
    rw [DistinctElements] at hxs
    rw [elementsCost] at hf
    have hv := parseValue_stringify x fuel (stringifyElements (y :: ys) ++ r) hx
      (by omega) (endsNumber_elements (y :: ys) r)
    have hys := parseElements_stringify y ys fuel r hxs.1 hxs.2 (by omega)
    have hne : unit ',' ≠ unit ']' := by decide
    rw [parseElements, hv]
    simp only [Option.bind_eq_bind, Option.bind_some, stringifyElements, List.cons_append,
      List.append_assoc, skipSpace_cons (show isSpace (unit ',') = false by decide), if_neg hne,
      if_true, hys]

theorem parseMembers_stringify : ∀ (k : JsString) (v : Json) (ms : List (JsString × Json))
    (fuel : Nat) (r : JsString), v.Distinct → DistinctMembers ms →
    1 + v.readCost + membersCost ms ≤ fuel →
    parseMembers fuel (quote k ++ unit ':' :: (stringify v ++ (stringifyMembers ms ++ r))) =
      some ((k, v) :: ms, r)
  | _, _, _, 0, _, _, _, hf => by omega
  | k, v, [], fuel + 1, r, hv, _, hf => by
    have hv := parseValue_stringify v fuel (stringifyMembers [] ++ r) hv
      (by simp only [membersCost] at hf; omega) (endsNumber_members [] r)
    simp only [parseMembers, expect_quote, parseString_quote, expect_colon, hv,
      Option.bind_eq_bind, Option.bind_some]
    rfl
  | k, v, (k', v') :: ms, fuel + 1, r, hv, hms, hf => by
    rw [DistinctMembers] at hms
    rw [membersCost] at hf
    have hv := parseValue_stringify v fuel (stringifyMembers ((k', v') :: ms) ++ r) hv
      (by omega) (endsNumber_members _ r)
    have hms := parseMembers_stringify k' v' ms fuel r hms.1 hms.2 (by omega)
    have hne : unit ',' ≠ unit '}' := by decide
    simp only [parseMembers, expect_quote, parseString_quote, expect_colon, hv,
      Option.bind_eq_bind, Option.bind_some]
    simp only [stringifyMembers, List.cons_append, List.append_assoc,
      skipSpace_cons (show isSpace (unit ',') = false by decide), if_neg hne, if_true, hms,
      Option.bind_some]
end

mutual
theorem readCost_le_length : ∀ v : Json, v.readCost ≤ 2 * (stringify v).length
  | .null | .bool true | .bool false => by simp [Json.readCost, stringify, lit]
  | .num n => by
    obtain ⟨c, s, h, -⟩ := head_number n
    simp [Json.readCost, stringify, h]
    omega
  | .str s => by simp [Json.readCost, stringify, quote]; omega
  | .arr [] | .obj [] => by simp [Json.readCost, stringify, lit]
  | .arr (x :: xs) => by
    have hx := readCost_le_length x
    have hxs := elementsCost_le_length xs
    simp only [Json.readCost, stringify, List.length_cons, List.length_append]
    omega
  | .obj ((k, v) :: ms) => by
    have hv := readCost_le_length v
    have hms := membersCost_le_length ms
    simp only [Json.readCost, stringify, List.length_cons, List.length_append]
    omega

theorem elementsCost_le_length : ∀ xs : List Json,
    elementsCost xs ≤ 2 * (stringifyElements xs).length
  | [] => by simp [elementsCost]
  | x :: xs => by
    have hx := readCost_le_length x
    have hxs := elementsCost_le_length xs
    simp only [elementsCost, stringifyElements, List.length_cons, List.length_append]
    omega

theorem membersCost_le_length : ∀ ms : List (JsString × Json),
    membersCost ms ≤ 2 * (stringifyMembers ms).length
  | [] => by simp [membersCost]
  | (k, v) :: ms => by
    have hv := readCost_le_length v
    have hms := membersCost_le_length ms
    simp only [membersCost, stringifyMembers, List.length_cons, List.length_append]
    omega
end

/-- **Theorem (`parse_stringify`).** A value whose objects have distinct keys comes back. -/
theorem parse_stringify {v : Json} (hv : v.Distinct) : parse (stringify v) = some v := by
  have hr : EndsNumber [] := by simp [EndsNumber]
  have hcost := readCost_le_length v
  have h := parseValue_stringify v (2 * (stringify v).length + 1) [] hv (by omega) hr
  rw [List.append_nil] at h
  rw [parse, h]
  rfl

end Js
