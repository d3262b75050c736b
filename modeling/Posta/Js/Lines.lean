import Posta.Js.JsonPrefix
import Mathlib.Tactic.Tauto

/-!
# Lines of a text, as Node's `readline` cuts them

A line ends at `\n`, `\r\n`, a lone `\r`, U+2028 or U+2029; what follows the last break is a
line of its own unless it is empty. JSON text contains neither `\n` nor `\r`, but it contains
U+2028 and U+2029 wherever a string does, so a line of JSON may be cut into pieces.

**Theorem (`readLines_flatMap`).** Texts without `\n` and `\r`, each ended by `\n`, are read as
the pieces of the texts, in order.

**Theorem (`mem_stringify_of_break`).** The breaks in the text of a value are the separators in
its strings.
-/

namespace Js

/-- U+2028 or U+2029. -/
def isSeparator (c : CodeUnit) : Bool := c == 0x2028 || c == 0x2029

/-- A line break of `readline`. -/
def isLineBreak (c : CodeUnit) : Bool := c == 10 || c == 13 || isSeparator c

/-- Put a code unit in front of the first piece. -/
def consPiece (c : CodeUnit) : List JsString → List JsString
  | [] => [[c]]
  | p :: ps => (c :: p) :: ps

/-- The pieces of a text between its line breaks, the empty ones included. -/
def pieces : JsString → List JsString
  | [] => [[]]
  | [c] => if isLineBreak c then [[], []] else [[c]]
  | c :: d :: s =>
    if c = 13 ∧ d = 10 then [] :: pieces s
    else if isLineBreak c then [] :: pieces (d :: s)
    else consPiece c (pieces (d :: s))

/-- The lines `readline` reports. -/
def readLines (s : JsString) : List JsString :=
  if (pieces s).getLast? = some [] then (pieces s).dropLast else pieces s

theorem consPiece_ne_nil (c : CodeUnit) (ps : List JsString) : consPiece c ps ≠ [] := by
  cases ps <;> simp [consPiece]

theorem pieces_ne_nil (s : JsString) : pieces s ≠ [] := by
  match s with
  | [] => simp [pieces]
  | [c] => rw [pieces]; split <;> simp
  | c :: d :: s =>
    rw [pieces]
    split_ifs
    · exact List.cons_ne_nil _ _
    · exact List.cons_ne_nil _ _
    · exact consPiece_ne_nil c _

theorem pieces_cons {c : CodeUnit} (hc : c ≠ 13) (s : JsString) :
    pieces (c :: s) =
      if isLineBreak c then [] :: pieces s else consPiece c (pieces s) := by
  cases s with
  | nil => rw [pieces]; rfl
  | cons d s => rw [pieces, if_neg fun h => hc h.1]

theorem consPiece_append (c : CodeUnit) {ps : List JsString} (h : ps ≠ []) (qs : List JsString) :
    consPiece c (ps ++ qs) = consPiece c ps ++ qs := by
  cases ps with
  | nil => exact absurd rfl h
  | cons p ps => rfl

/-- A `\n` behind a text without `\r` ends its last piece. -/
theorem pieces_append_newline {l : JsString} (hl : ∀ c ∈ l, c ≠ 13) (s : JsString) :
    pieces (l ++ 10 :: s) = pieces l ++ pieces s := by
  induction l with
  | nil =>
    rw [List.nil_append, pieces_cons (by decide), if_pos (by decide)]
    rfl
  | cons c l ih =>
    have hc : c ≠ 13 := hl c (by simp)
    have ih := ih fun d hd => hl d (by simp [hd])
    rw [List.cons_append, pieces_cons hc, pieces_cons hc, ih]
    split
    · rfl
    · exact consPiece_append c (pieces_ne_nil l) _

theorem pieces_flatMap {ls : List JsString} (hls : ∀ l ∈ ls, ∀ c ∈ l, c ≠ 13) :
    pieces (ls.flatMap fun l => l ++ [10]) = ls.flatMap pieces ++ [[]] := by
  induction ls with
  | nil => rfl
  | cons l ls ih =>
    rw [List.flatMap_cons, List.append_assoc, List.singleton_append,
      pieces_append_newline (hls l (by simp)), ih fun l' hl' => hls l' (by simp [hl']),
      List.flatMap_cons, List.append_assoc]

/-- **Theorem (`readLines_flatMap`).** -/
theorem readLines_flatMap {ls : List JsString} (hls : ∀ l ∈ ls, ∀ c ∈ l, c ≠ 13) :
    readLines (ls.flatMap fun l => l ++ [10]) = ls.flatMap pieces := by
  rw [readLines, pieces_flatMap hls, if_pos (by simp), List.dropLast_concat]

theorem pieces_of_no_break {l : JsString} (hl : ∀ c ∈ l, isLineBreak c = false) :
    pieces l = [l] := by
  induction l with
  | nil => rfl
  | cons c l ih =>
    have hc : isLineBreak c = false := hl c (by simp)
    have hne : c ≠ 13 := by
      rintro rfl
      exact absurd hc (by decide)
    rw [pieces_cons hne, ih fun d hd => hl d (by simp [hd]), hc]
    rfl

/-- A break cuts off a proper prefix as the first piece. -/
theorem pieces_of_break {l : JsString} (hl : ∃ c ∈ l, isLineBreak c = true)
    (hcr : ∀ c ∈ l, c ≠ 13) :
    ∃ p ps t, pieces l = p :: ps ∧ p ++ t = l ∧ t ≠ [] ∧ ∀ c ∈ t.head?, isLineBreak c = true := by
  induction l with
  | nil => simp at hl
  | cons c l ih =>
    rw [pieces_cons (hcr c (by simp))]
    by_cases hc : isLineBreak c = true
    · exact ⟨[], pieces l, c :: l, if_pos hc, rfl, List.cons_ne_nil _ _, by simpa using hc⟩
    · obtain ⟨d, hd, hb⟩ := hl
      have hd : d ∈ l := by
        rcases List.mem_cons.mp hd with rfl | hd
        · exact absurd hb hc
        · exact hd
      obtain ⟨p, ps, t, hp, ht, hne, hh⟩ := ih ⟨d, hd, hb⟩ fun d hd => hcr d (by simp [hd])
      refine ⟨c :: p, ps, t, ?_, by rw [List.cons_append, ht], hne, hh⟩
      rw [if_neg hc, hp]
      rfl

/-! ## Breaks in JSON text -/

mutual
/-- Every key and every string inside a value satisfies `P`. -/
def Json.AllStrings (P : JsString → Prop) : Json → Prop
  | .str s => P s
  | .arr xs => AllElements P xs
  | .obj ms => AllMembers P ms
  | _ => True

def AllElements (P : JsString → Prop) : List Json → Prop
  | [] => True
  | x :: xs => x.AllStrings P ∧ AllElements P xs

def AllMembers (P : JsString → Prop) : List (JsString × Json) → Prop
  | [] => True
  | (k, v) :: ms => P k ∧ v.AllStrings P ∧ AllMembers P ms
end

/-- The text of numbers and keywords holds no break. -/
theorem not_break_of_mem_text {n : JsNumber} {c : CodeUnit} (h : c ∈ n.text) :
    isLineBreak c = false := by
  have hdigit : ∀ {c : CodeUnit}, isDigit c = true → isLineBreak c = false := by
    intro c hc
    have hd : 48 ≤ c.toNat ∧ c.toNat ≤ 57 := by simpa [isDigit] using hc
    simp only [isLineBreak, isSeparator, Bool.or_eq_false_iff, beq_eq_false_iff_ne]
    refine ⟨⟨?_, ?_⟩, ?_, ?_⟩ <;> rintro rfl <;> exact absurd hd (by decide)
  have hwf := n.literal_wellFormed
  rw [JsNumber.text, Literal.text] at h
  simp only [List.mem_append] at h
  rcases h with ((h | h) | h) | h
  · split_ifs at h
    · rw [List.mem_singleton.mp h]; decide
    · cases h
  · exact hdigit (hwf.int_digits c h)
  · rw [Literal.fracText] at h
    split_ifs at h
    · cases h
    · rcases List.mem_cons.mp h with rfl | h
      · decide
      · exact hdigit (hwf.frac_digits c h)
  · cases he : n.literal.exp with
    | none => simp [he, Literal.expText] at h
    | some z =>
      simp only [he, Literal.expText, List.mem_cons] at h
      rcases h with rfl | rfl | h
      · decide
      · split_ifs <;> decide
      · exact hdigit (isDigit_of_mem_natText h)

theorem hexDigit_not_break : ∀ d < 16, isLineBreak (hexDigit d) = false := by decide

theorem isLineBreak_cases {d : CodeUnit} (hd : isLineBreak d = true) :
    d = 10 ∨ d = 13 ∨ d = 0x2028 ∨ d = 0x2029 := by
  simpa [isLineBreak, isSeparator, or_assoc] using hd

theorem not_mem_unicodeEscape {c d : CodeUnit} (hd : isLineBreak d = true) :
    d ∉ unicodeEscape c := by
  intro h
  have hc : c.toNat < 65536 := c.toNat_lt
  have hex : ∀ n < 16, d ≠ hexDigit n := by
    rintro n hn rfl
    exact absurd hd (by rw [hexDigit_not_break n hn]; decide)
  simp only [unicodeEscape, List.mem_cons, List.not_mem_nil, or_false] at h
  rcases h with rfl | rfl | h | h | h | h
  · exact absurd hd (by decide)
  · exact absurd hd (by decide)
  · exact hex _ (by omega) h
  · exact hex _ (by omega) h
  · exact hex _ (by omega) h
  · exact hex _ (by omega) h

/-- Escaping leaves the separators of a string and no other break. -/
theorem mem_escapeUnit_of_break {c d : CodeUnit} (hd : isLineBreak d = true) :
    d ∈ escapeUnit c ↔ d = c ∧ isSeparator d = true := by
  have hcases := isLineBreak_cases hd
  unfold escapeUnit
  split_ifs with h₁ h₂ h₃ h₄ h₅ h₆ h₇ h₈
  · subst h₁
    rcases hcases with rfl | rfl | rfl | rfl <;> decide
  · subst h₂
    rcases hcases with rfl | rfl | rfl | rfl <;> decide
  · subst h₃
    rcases hcases with rfl | rfl | rfl | rfl <;> decide
  · subst h₄
    rcases hcases with rfl | rfl | rfl | rfl <;> decide
  · subst h₅
    rcases hcases with rfl | rfl | rfl | rfl <;> decide
  · subst h₆
    rcases hcases with rfl | rfl | rfl | rfl <;> decide
  · subst h₇
    rcases hcases with rfl | rfl | rfl | rfl <;> decide
  · simp only [not_mem_unicodeEscape hd, false_iff]
    rintro ⟨rfl, -⟩
    revert h₈
    rcases hcases with rfl | rfl | rfl | rfl
    · exact absurd rfl h₅
    · exact absurd rfl h₆
    · decide
    · decide
  · rw [List.mem_singleton]
    refine ⟨?_, fun h => h.1⟩
    rintro rfl
    refine ⟨rfl, ?_⟩
    rcases hcases with rfl | rfl | rfl | rfl
    · exact absurd rfl h₅
    · exact absurd rfl h₆
    · decide
    · decide

theorem mem_escape_of_break {s : JsString} {d : CodeUnit} (hd : isLineBreak d = true) :
    d ∈ escape s ↔ d ∈ s ∧ isSeparator d = true := by
  induction s using escape.induct with
  | case1 => simp [escape]
  | case2 c => rw [escape, mem_escapeUnit_of_break hd, List.mem_singleton]
  | case3 c e s h ih =>
    have hpair : d = c ∨ d = e → isSeparator d = true := by
      have := isLineBreak_cases hd
      rintro (rfl | rfl)
      · exact absurd h.1 (by rcases this with rfl | rfl | rfl | rfl <;> decide)
      · exact absurd h.2 (by rcases this with rfl | rfl | rfl | rfl <;> decide)
    rw [escape, if_pos h, List.mem_cons, List.mem_cons, ih, List.mem_cons, List.mem_cons]
    tauto
  | case4 c e s h ih =>
    rw [escape, if_neg h, List.mem_append, mem_escapeUnit_of_break hd, ih, List.mem_cons (b := c)]
    tauto

theorem mem_quote_of_break {s : JsString} {d : CodeUnit} (hd : isLineBreak d = true) :
    d ∈ quote s ↔ d ∈ s ∧ isSeparator d = true := by
  have hq : d ≠ unit '"' := by
    rintro rfl
    exact absurd hd (by decide)
  simp [quote_cons, hq, mem_escape_of_break hd]

theorem not_mem_of_break {t : JsString} (ht : ∀ c ∈ t, isLineBreak c = false) {d : CodeUnit}
    (hd : isLineBreak d = true) : d ∉ t := fun h => absurd hd (by rw [ht d h]; decide)

theorem not_mem_text_of_break {t : JsString} (ht : t.any isLineBreak = false) {d : CodeUnit}
    (hd : isLineBreak d = true) : d ∉ t :=
  not_mem_of_break (fun c hc => by simpa using List.any_eq_false.mp ht c hc) hd

theorem ne_unit_of_break {c : CodeUnit} (hc : isLineBreak c = false) {d : CodeUnit}
    (hd : isLineBreak d = true) : d ≠ c := by
  rintro rfl
  exact absurd hd (by rw [hc]; decide)

mutual
/-- **Theorem (`mem_stringify_of_break`).** A break in the text of a value is a separator in one
of its strings. -/
theorem mem_stringify_of_break {d : CodeUnit} (hd : isLineBreak d = true) : ∀ v : Json,
    d ∈ stringify v ↔ isSeparator d = true ∧ ¬v.AllStrings fun s => d ∉ s
  | .null => by
    simp [stringify, Json.AllStrings, not_mem_text_of_break (t := lit "null") (by decide) hd]
  | .bool true => by
    simp [stringify, Json.AllStrings, not_mem_text_of_break (t := lit "true") (by decide) hd]
  | .bool false => by
    simp [stringify, Json.AllStrings, not_mem_text_of_break (t := lit "false") (by decide) hd]
  | .num n => by
    simp [stringify, Json.AllStrings, not_mem_of_break (fun c => not_break_of_mem_text) hd]
  | .str s => by
    simp [stringify, Json.AllStrings, mem_quote_of_break hd, and_comm]
  | .arr [] => by
    simp [stringify, Json.AllStrings, AllElements,
      not_mem_text_of_break (t := lit "[]") (by decide) hd]
  | .obj [] => by
    simp [stringify, Json.AllStrings, AllMembers,
      not_mem_text_of_break (t := lit "{}") (by decide) hd]
  | .arr (x :: xs) => by
    have h₁ : d ≠ unit '[' := ne_unit_of_break (by decide) hd
    simp only [stringify, Json.AllStrings, AllElements, List.mem_cons, List.mem_append, h₁,
      false_or, mem_stringify_of_break hd x, mem_elements_of_break hd xs]
    tauto
  | .obj ((k, v) :: ms) => by
    have h₁ : d ≠ unit '{' := ne_unit_of_break (by decide) hd
    have h₂ : d ≠ unit ':' := ne_unit_of_break (by decide) hd
    simp only [stringify, Json.AllStrings, AllMembers, List.mem_cons, List.mem_append, h₁, h₂,
      false_or, mem_quote_of_break hd, mem_stringify_of_break hd v, mem_members_of_break hd ms]
    tauto

theorem mem_elements_of_break {d : CodeUnit} (hd : isLineBreak d = true) : ∀ xs : List Json,
    d ∈ stringifyElements xs ↔ isSeparator d = true ∧ ¬AllElements (fun s => d ∉ s) xs
  | [] => by
    have h₁ : d ≠ unit ']' := ne_unit_of_break (by decide) hd
    simp [stringifyElements, AllElements, h₁]
  | x :: xs => by
    have h₁ : d ≠ unit ',' := ne_unit_of_break (by decide) hd
    simp only [stringifyElements, AllElements, List.mem_cons, List.mem_append, h₁,
      false_or, mem_stringify_of_break hd x, mem_elements_of_break hd xs]
    tauto

theorem mem_members_of_break {d : CodeUnit} (hd : isLineBreak d = true) :
    ∀ ms : List (JsString × Json),
    d ∈ stringifyMembers ms ↔ isSeparator d = true ∧ ¬AllMembers (fun s => d ∉ s) ms
  | [] => by
    have h₁ : d ≠ unit '}' := ne_unit_of_break (by decide) hd
    simp [stringifyMembers, AllMembers, h₁]
  | (k, v) :: ms => by
    have h₁ : d ≠ unit ',' := ne_unit_of_break (by decide) hd
    have h₂ : d ≠ unit ':' := ne_unit_of_break (by decide) hd
    simp only [stringifyMembers, AllMembers, List.mem_cons, List.mem_append, h₁, h₂,
      false_or, mem_quote_of_break hd, mem_stringify_of_break hd v, mem_members_of_break hd ms]
    tauto
end

end Js
