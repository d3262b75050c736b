import Posta.Js.JsonRoundTrip

/-!
# A text cut short is no JSON

The reader never looks past the value it reads, except at the digit that would extend a number.
So what it makes of a text it also makes of every continuation (`parseValue_append`), and a
proper prefix of the text of an object cannot be read (`parse_prefix_of_object`): with the rest
put back, the reader would stop before the end of a text that it is known to read in full.
-/

namespace Js

/-! ## The parts of a number -/

theorem takeDigits_append_right {s : JsString} (h : (takeDigits s).2 ≠ []) (t : JsString) :
    takeDigits (s ++ t) = ((takeDigits s).1, (takeDigits s).2 ++ t) := by
  induction s with
  | nil => exact absurd rfl h
  | cons c s ih =>
    simp only [takeDigits, List.span_eq_takeWhile_dropWhile] at h ih ⊢
    by_cases hc : isDigit c = true
    · simp only [List.cons_append, List.takeWhile_cons_of_pos hc, List.dropWhile_cons_of_pos hc,
        Prod.mk.injEq, List.cons.injEq, true_and] at h ih ⊢
      exact ih h
    · simp only [List.cons_append, List.takeWhile_cons_of_neg hc, List.dropWhile_cons_of_neg hc]

theorem parseExponentDigits_append {b : Bool} {s r : JsString} {e : Option Int} (t : JsString)
    (h : parseExponentDigits b s = some (e, r)) (hr : r ≠ []) :
    parseExponentDigits b (s ++ t) = some (e, r ++ t) := by
  unfold parseExponentDigits at h ⊢
  split at h
  · cases h
  · rename_i hne
    simp only [Option.some.injEq, Prod.mk.injEq] at h
    obtain ⟨rfl, rfl⟩ := h
    simp only [takeDigits_append_right hr t, if_neg hne]

theorem parseExponent_append {s r : JsString} {e : Option Int} (t : JsString)
    (h : parseExponent s = some (e, r)) (hr : r ≠ []) :
    parseExponent (s ++ t) = some (e, r ++ t) := by
  cases s with
  | nil =>
    simp only [parseExponent, Option.some.injEq, Prod.mk.injEq] at h
    exact absurd h.2.symm hr
  | cons c s =>
    by_cases hc : c = unit 'e' ∨ c = unit 'E'
    · cases s with
      | nil => simp [parseExponent, hc] at h
      | cons d s =>
        simp only [parseExponent, if_pos hc, List.cons_append] at h ⊢
        split_ifs at h ⊢ <;> exact parseExponentDigits_append t h hr
    · simp only [parseExponent, if_neg hc, Option.some.injEq, Prod.mk.injEq,
        List.cons_append] at h ⊢
      exact ⟨h.1, by rw [← h.2]; rfl⟩

theorem parseFraction_append {s r frac : JsString} (t : JsString)
    (h : parseFraction s = some (frac, r)) (hr : r ≠ []) :
    parseFraction (s ++ t) = some (frac, r ++ t) := by
  cases s with
  | nil =>
    simp only [parseFraction, Option.some.injEq, Prod.mk.injEq] at h
    exact absurd h.2.symm hr
  | cons c s =>
    simp only [parseFraction, List.cons_append] at h ⊢
    by_cases hc : c = unit '.'
    · rw [if_pos hc] at h ⊢
      by_cases hd : (takeDigits s).1 = []
      · simp [hd] at h
      · rw [if_neg hd, Option.some.injEq] at h
        rw [takeDigits_append_right (by rw [h]; exact hr), if_neg hd, h]
    · rw [if_neg hc] at h ⊢
      simp only [Option.some.injEq, Prod.mk.injEq] at h ⊢
      exact ⟨h.1, by rw [← h.2]; rfl⟩

theorem parseUnsigned_append {b : Bool} {s r : JsString} {n : JsNumber} (t : JsString)
    (h : parseUnsigned b s = some (n, r)) (hr : r ≠ []) :
    parseUnsigned b (s ++ t) = some (n, r ++ t) := by
  simp only [parseUnsigned] at h
  by_cases hint : (takeDigits s).1 = [] ∨
      ((takeDigits s).1.head? = some (unit '0') ∧ (takeDigits s).1.length ≠ 1)
  · simp [if_pos hint] at h
  · simp only [if_neg hint, Option.bind_eq_bind, Option.bind_eq_some_iff, Prod.exists,
      Option.some.injEq, Prod.mk.injEq] at h
    obtain ⟨frac, s', hfrac, exp, s'', hexp, hn, rfl⟩ := h
    have hs' : s' ≠ [] := by
      rintro rfl
      simp only [parseExponent, Option.some.injEq, Prod.mk.injEq] at hexp
      exact hr hexp.2.symm
    have hs : (takeDigits s).2 ≠ [] := by
      intro hs
      simp only [hs, parseFraction, Option.some.injEq, Prod.mk.injEq] at hfrac
      exact hs' hfrac.2.symm
    simp only [parseUnsigned, takeDigits_append_right hs, if_neg hint,
      parseFraction_append t hfrac hs', Option.bind_eq_bind, Option.bind_some,
      parseExponent_append t hexp hr, hn]

theorem parseNumber_append {s r : JsString} {n : JsNumber} (t : JsString)
    (h : parseNumber s = some (n, r)) (hr : r ≠ []) : parseNumber (s ++ t) = some (n, r ++ t) := by
  cases s with
  | nil => cases h
  | cons c s =>
    simp only [parseNumber, List.cons_append] at h ⊢
    split_ifs at h ⊢
    · exact parseUnsigned_append t h hr
    · exact parseUnsigned_append t h hr

/-! ## Strings, spaces and fixed text -/

theorem readString_append {m : StringMode} {s r u : JsString} (t : JsString)
    (h : readString m s = some (u, r)) : readString m (s ++ t) = some (u, r ++ t) := by
  have hmap : ∀ {s : JsString} {c : CodeUnit} {u : JsString},
      (∀ {u}, readString .plain s = some (u, r) → readString .plain (s ++ t) = some (u, r ++ t)) →
      (readString .plain s).map (fun p => (c :: p.1, p.2)) = some (u, r) →
      (readString .plain (s ++ t)).map (fun p => (c :: p.1, p.2)) = some (u, r ++ t) := by
    intro s c u ih h
    obtain ⟨⟨u', r'⟩, hp, heq⟩ := Option.map_eq_some_iff.mp h
    simp only [Prod.mk.injEq] at heq
    obtain ⟨rfl, rfl⟩ := heq
    rw [ih hp, Option.map_some]
  induction s generalizing m u with
  | nil => cases m <;> simp [readString] at h
  | cons c s ih =>
    cases m with
    | plain =>
      simp only [readString, List.cons_append] at h ⊢
      split_ifs at h ⊢
      · simp only [Option.some.injEq, Prod.mk.injEq] at h ⊢
        exact ⟨h.1, by rw [h.2]⟩
      · exact ih h
      · exact hmap (fun h => ih h) h
    | escaped =>
      simp only [readString, List.cons_append] at h ⊢
      split_ifs at h ⊢
      · exact ih h
      · cases hu : unescape c with
        | none => simp [hu] at h
        | some u' =>
          simp only [hu] at h ⊢
          exact hmap (fun h => ih h) h
    | hex left acc =>
      simp only [readString, List.cons_append] at h ⊢
      cases hd : hexValue c with
      | none => simp [hd] at h
      | some d =>
        cases left with
        | zero =>
          simp only [hd] at h ⊢
          exact hmap (fun h => ih h) h
        | succ left =>
          simp only [hd] at h ⊢
          exact ih h

theorem parseString_append {s r u : JsString} (t : JsString) (h : parseString s = some (u, r)) :
    parseString (s ++ t) = some (u, r ++ t) := readString_append t h

theorem skipSpace_append {s : JsString} (h : skipSpace s ≠ []) (t : JsString) :
    skipSpace (s ++ t) = skipSpace s ++ t := by
  induction s with
  | nil => exact absurd rfl h
  | cons c s ih =>
    by_cases hc : isSpace c = true
    · simp only [skipSpace, List.cons_append, List.dropWhile_cons_of_pos hc] at h ih ⊢
      exact ih h
    · simp only [skipSpace, List.cons_append, List.dropWhile_cons_of_neg hc]

theorem expect_append_right {p s r : JsString} (t : JsString) (h : expect p s = some r) :
    expect p (s ++ t) = some (r ++ t) := by
  unfold expect at h
  split at h
  · rename_i hp
    obtain ⟨s', rfl⟩ := hp
    simp only [List.drop_left, Option.some.injEq] at h
    rw [List.append_assoc, expect_append, h]
  · cases h

/-! ## Values -/

/-- A text in which there is something to read, and what that starts with. -/
theorem skipSpace_append_cons {s s' : JsString} {c : CodeUnit} (h : skipSpace s = c :: s')
    (t : JsString) : skipSpace (s ++ t) = c :: (s' ++ t) := by
  rw [skipSpace_append (by rw [h]; exact List.cons_ne_nil _ _), h, List.cons_append]

theorem ne_nil_of_skipSpace {s s' : JsString} {c : CodeUnit} (h : skipSpace s = c :: s') :
    s ≠ [] := by
  rintro rfl
  cases h

/-- Up to depth `n`, a value is read in the same way from every longer text, with no smaller
bound on the depth. A number at the very end is the exception: the longer text may continue it. -/
def ValueAppends (n : Nat) : Prop :=
  ∀ {s r : JsString} {v : Json} {m : Nat} (t : JsString), parseValue n s = some (v, r) → n ≤ m →
    (r ≠ [] ∨ ∀ k, v ≠ .num k) → parseValue m (s ++ t) = some (v, r ++ t)

def ElementsAppends (n : Nat) : Prop :=
  ∀ {s r : JsString} {xs : List Json} {m : Nat} (t : JsString),
    parseElements n s = some (xs, r) → n ≤ m → parseElements m (s ++ t) = some (xs, r ++ t)

def MembersAppends (n : Nat) : Prop :=
  ∀ {s r : JsString} {ms : List (JsString × Json)} {m : Nat} (t : JsString),
    parseMembers n s = some (ms, r) → n ≤ m → parseMembers m (s ++ t) = some (ms, r ++ t)

theorem map_append {α β : Type} {x y : Option (α × JsString)} {f : α → β} {b : β}
    {r t : JsString} (h : x.map (fun p => (f p.1, p.2)) = some (b, r))
    (hxy : ∀ a, x = some (a, r) → y = some (a, r ++ t)) :
    y.map (fun p => (f p.1, p.2)) = some (b, r ++ t) := by
  obtain ⟨⟨a, r'⟩, hx, heq⟩ := Option.map_eq_some_iff.mp h
  simp only [Prod.mk.injEq] at heq
  obtain ⟨rfl, rfl⟩ := heq
  rw [hxy a hx, Option.map_some]

theorem expect_map_append {p s r : JsString} {v w : Json} (t : JsString)
    (h : (expect p s).map (fun r => (v, r)) = some (w, r)) :
    (expect p (s ++ t)).map (fun r => (v, r)) = some (w, r ++ t) := by
  obtain ⟨r', hr, heq⟩ := Option.map_eq_some_iff.mp h
  simp only [Prod.mk.injEq] at heq
  obtain ⟨rfl, rfl⟩ := heq
  rw [expect_append_right t hr, Option.map_some]

theorem elementsAppends_succ {n : Nat} (hv : ValueAppends n) (he : ElementsAppends n) :
    ElementsAppends (n + 1) := by
  intro s r xs m t h hm
  obtain ⟨m, rfl⟩ : ∃ k, m = k + 1 := ⟨m - 1, by omega⟩
  simp only [parseElements, Option.bind_eq_bind, Option.bind_eq_some_iff, Prod.exists] at h
  obtain ⟨x, s₁, hx, h⟩ := h
  cases hs : skipSpace s₁ with
  | nil => simp [hs] at h
  | cons c s₂ =>
    have hx' := hv t hx (show n ≤ m by omega) (Or.inl (ne_nil_of_skipSpace hs))
    simp only [hs] at h
    simp only [parseElements, hx', Option.bind_eq_bind, Option.bind_some,
      skipSpace_append_cons hs t]
    split_ifs at h ⊢
    · simp only [Option.some.injEq, Prod.mk.injEq] at h ⊢
      exact ⟨h.1, by rw [h.2]⟩
    · simp only [Option.bind_eq_some_iff, Prod.exists, Option.some.injEq, Prod.mk.injEq] at h
      obtain ⟨ys, s₃, hys, rfl, rfl⟩ := h
      rw [he t hys (show n ≤ m by omega), Option.bind_some]

theorem expect_skipSpace_append {c : CodeUnit} {s r : JsString} (t : JsString)
    (h : expect [c] (skipSpace s) = some r) : expect [c] (skipSpace (s ++ t)) = some (r ++ t) := by
  have hne : skipSpace s ≠ [] := by
    intro hs
    rw [hs] at h
    simp [expect] at h
  rw [skipSpace_append hne, expect_append_right t h]

theorem membersAppends_succ {n : Nat} (hv : ValueAppends n) (hms : MembersAppends n) :
    MembersAppends (n + 1) := by
  intro s r ms m t h hm
  obtain ⟨m, rfl⟩ : ∃ k, m = k + 1 := ⟨m - 1, by omega⟩
  simp only [parseMembers, Option.bind_eq_bind, Option.bind_eq_some_iff, Prod.exists] at h
  obtain ⟨s₁, h₁, k, s₂, hk, s₃, h₃, v, s₄, hval, h⟩ := h
  cases hs : skipSpace s₄ with
  | nil => simp [hs] at h
  | cons c s₅ =>
    have hval' := hv t hval (show n ≤ m by omega) (Or.inl (ne_nil_of_skipSpace hs))
    simp only [hs] at h
    simp only [parseMembers, expect_skipSpace_append t h₁, parseString_append t hk,
      expect_skipSpace_append t h₃, hval', Option.bind_eq_bind, Option.bind_some,
      skipSpace_append_cons hs t]
    split_ifs at h ⊢
    · simp only [Option.some.injEq, Prod.mk.injEq] at h ⊢
      exact ⟨h.1, by rw [h.2]⟩
    · simp only [Option.bind_eq_some_iff, Prod.exists, Option.some.injEq, Prod.mk.injEq] at h
      obtain ⟨ms', s₆, hms', rfl, rfl⟩ := h
      rw [hms t hms' (show n ≤ m by omega), Option.bind_some]

theorem valueAppends_succ {n : Nat} (he : ElementsAppends n) (hms : MembersAppends n) :
    ValueAppends (n + 1) := by
  intro s r v m t h hm hr
  obtain ⟨m, rfl⟩ : ∃ k, m = k + 1 := ⟨m - 1, by omega⟩
  have hle : n ≤ m := by omega
  rw [parseValue] at h ⊢
  cases hs : skipSpace s with
  | nil => simp [hs] at h
  | cons c s' =>
    rw [skipSpace_append_cons hs t]
    simp only [hs] at h ⊢
    split_ifs at h ⊢
    · exact map_append h fun a ha => parseString_append t ha
    · cases hs' : skipSpace s' with
      | nil => simp [hs'] at h
      | cons d s'' =>
        simp only [hs', skipSpace_append_cons hs' t] at h ⊢
        split_ifs at h ⊢
        · simp only [Option.some.injEq, Prod.mk.injEq] at h ⊢
          exact ⟨h.1, by rw [h.2]⟩
        · exact map_append h fun a ha => he t ha hle
    · cases hs' : skipSpace s' with
      | nil => simp [hs'] at h
      | cons d s'' =>
        simp only [hs', skipSpace_append_cons hs' t] at h ⊢
        split_ifs at h ⊢
        · simp only [Option.some.injEq, Prod.mk.injEq] at h ⊢
          exact ⟨h.1, by rw [h.2]⟩
        · exact map_append (f := fun ms => Json.obj (objectOf ms)) h fun a ha => hms t ha hle
    · exact expect_map_append t h
    · exact expect_map_append t h
    · exact expect_map_append t h
    · refine map_append h fun k hk => ?_
      rcases hr with hr | hr
      · exact parseNumber_append t hk hr
      · rw [hk, Option.map_some, Option.some.injEq, Prod.mk.injEq] at h
        exact absurd h.1.symm (hr k)

theorem read_append (n : Nat) : ValueAppends n ∧ ElementsAppends n ∧ MembersAppends n := by
  induction n with
  | zero =>
    refine ⟨?_, ?_, ?_⟩
    · intro s r v m t h
      simp [parseValue] at h
    · intro s r xs m t h
      simp [parseElements] at h
    · intro s r ms m t h
      simp [parseMembers] at h
  | succ n ih =>
    obtain ⟨hv, he, hms⟩ := ih
    exact ⟨valueAppends_succ he hms, elementsAppends_succ hv he, membersAppends_succ hv hms⟩

theorem parseValue_brace {fuel : Nat} {s r : JsString} {v : Json}
    (h : parseValue fuel (unit '{' :: s) = some (v, r)) (k : JsNumber) : v ≠ .num k := by
  rintro rfl
  have h₁ : unit '{' ≠ unit '"' := by decide
  have h₂ : unit '{' ≠ unit '[' := by decide
  cases fuel with
  | zero => simp [parseValue] at h
  | succ fuel =>
    rw [parseValue, skipSpace_cons (by decide)] at h
    simp only [if_neg h₁, if_neg h₂, if_true] at h
    split at h
    · split at h
      · simp at h
      · simp [Option.map_eq_some_iff] at h
    · cases h

/-- **Theorem (`parse_prefix_of_object`).** A proper prefix of the text of an object is no JSON. -/
theorem parse_prefix_of_object {ms : List (JsString × Json)} (hd : (Json.obj ms).Distinct)
    {p t : JsString} (h : p ++ t = stringify (.obj ms)) (ht : t ≠ []) : parse p = none := by
  cases hp : parse p with
  | none => rfl
  | some w =>
    rw [parse] at hp
    simp only [Option.bind_eq_bind, Option.bind_eq_some_iff, Prod.exists] at hp
    obtain ⟨w', r, hw, -⟩ := hp
    have hnum : ∀ k, w' ≠ .num k := by
      cases p with
      | nil => simp [parseValue, skipSpace] at hw
      | cons c p =>
        have hc : c = unit '{' := by
          cases ms with
          | nil => rw [stringify] at h; exact (List.cons.inj h).1
          | cons m ms => rw [stringify] at h; exact (List.cons.inj h).1
        subst hc
        exact parseValue_brace hw
    have hlong := (read_append _).1 (m := 2 * (p ++ t).length + 1) t hw
      (by rw [List.length_append]; omega) (Or.inr hnum)
    have hcost := readCost_le_length (Json.obj ms)
    have hfull := parseValue_stringify (.obj ms) (2 * (p ++ t).length + 1) [] hd
      (by rw [h]; omega) (by simp [EndsNumber])
    rw [List.append_nil, ← h, hlong] at hfull
    simp only [Option.some.injEq, Prod.mk.injEq, List.append_eq_nil_iff] at hfull
    exact absurd hfull.2.2 ht

end Js
