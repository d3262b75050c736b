import Mathlib.Data.List.Basic

/-!
# Conditions of SQL

**Truth values** (`Truth`). True, false, or unknown. A `WHERE` keeps a row where its condition is
true.

**Texts** (`Token`). A condition is a list of operands, connectives and parentheses, and its
meaning is what the grammar reads: `NOT` binds tighter than `AND`, and `AND` tighter than `OR`.
The connectives are associative, so the reader may nest them to the right.

**Theorem (`parse_and_parens`).** A condition in parentheses behind an `AND` is read as one
operand, whatever it is. Without the parentheses an `OR` in it would take the `AND` apart.
-/

namespace Sql

/-- True, false, or unknown. -/
abbrev Truth := Option Bool

namespace Truth

def not : Truth → Truth
  | none => none
  | some b => some !b

def and : Truth → Truth → Truth
  | some false, _ => some false
  | _, some false => some false
  | some true, some true => some true
  | _, _ => none

def or (a b : Truth) : Truth := (a.not.and b.not).not

theorem and_eq_true {a b : Truth} : a.and b = some true ↔ a = some true ∧ b = some true := by
  rcases a with - | (- | -) <;> rcases b with - | (- | -) <;> simp [and]

end Truth

inductive Token (α : Type) where
  | atom (a : α)
  | not
  | and
  | or
  | lparen
  | rparen

inductive Condition (α : Type) where
  | atom (a : α)
  | not (c : Condition α)
  | and (c d : Condition α)
  | or (c d : Condition α)

variable {α : Type}

namespace Condition

def eval (v : α → Truth) : Condition α → Truth
  | atom a => v a
  | not c => (c.eval v).not
  | and c d => (c.eval v).and (d.eval v)
  | or c d => (c.eval v).or (d.eval v)

end Condition

/-! ## Reading a condition -/

/-- A reader takes a condition off the front of a text. -/
abbrev Reader (α : Type) := List (Token α) → Option (Condition α × List (Token α))

/-- A first part, and a rest behind a connective where one follows. -/
def chain (connective : Token α → Bool) (combine : Condition α → Condition α → Condition α)
    (first rest : Reader α) : Reader α := fun ts =>
  match first ts with
  | some (c, t :: ts') =>
    if connective t then (rest ts').map fun (d, ts'') => (combine c d, ts'')
    else some (c, t :: ts')
  | r => r

/-- `NOT` and its operand, an operand, or a condition in parentheses. -/
def unit (negated whole : Reader α) : Reader α
  | .not :: ts => (negated ts).map fun (c, ts') => (.not c, ts')
  | .atom a :: ts => some (.atom a, ts)
  | .lparen :: ts =>
    match whole ts with
    | some (c, .rparen :: ts') => some (c, ts')
    | _ => none
  | _ => none

mutual
def parseOr : Nat → Reader α
  | 0 => fun _ => none
  | n + 1 => chain (fun t => t matches .or) .or (parseAnd n) (parseOr n)

def parseAnd : Nat → Reader α
  | 0 => fun _ => none
  | n + 1 => chain (fun t => t matches .and) .and (parseUnit n) (parseAnd n)

def parseUnit : Nat → Reader α
  | 0 => fun _ => none
  | n + 1 => unit (parseUnit n) (parseOr n)
end

/-- The condition that a text denotes. -/
def parse (ts : List (Token α)) : Option (Condition α) :=
  match parseOr (3 * ts.length + 3) ts with
  | some (c, []) => some c
  | _ => none

example (a b c : α) : parse [.atom a, .and, .atom b, .or, .atom c] =
    some (.or (.and (.atom a) (.atom b)) (.atom c)) := rfl

/-! ## More fuel -/

/-- What the first reader takes, the second takes too. -/
def Extends (p q : Reader α) : Prop := ∀ ts r, p ts = some r → q ts = some r

theorem chain_cases {connective : Token α → Bool}
    {combine : Condition α → Condition α → Condition α} {first rest : Reader α}
    {ts : List (Token α)} {c : Condition α} {us : List (Token α)}
    (h : chain connective combine first rest ts = some (c, us)) :
    (first ts = some (c, us) ∧ ∀ t us', us = t :: us' → connective t = false) ∨
    ∃ d e t ts', first ts = some (d, t :: ts') ∧ connective t = true ∧
      rest ts' = some (e, us) ∧ c = combine d e := by
  unfold chain at h
  split at h
  · next d t ts' hf =>
    by_cases ht : connective t = true
    · rw [if_pos ht, Option.map_eq_some_iff] at h
      obtain ⟨⟨e, us'⟩, hr, he⟩ := h
      simp only [Prod.mk.injEq] at he
      exact .inr ⟨d, e, t, ts', hf, ht, by rw [hr, he.2], he.1.symm⟩
    · rw [if_neg ht] at h
      cases h
      refine .inl ⟨hf, fun t' us' hu => ?_⟩
      cases hu
      simpa using ht
  · next hn =>
    refine .inl ⟨h, fun t us' hu => ?_⟩
    subst hu
    exact absurd h (hn c t us')

theorem chain_of_first {connective : Token α → Bool}
    {combine : Condition α → Condition α → Condition α} {first rest : Reader α}
    {ts us : List (Token α)} {c : Condition α} (h : first ts = some (c, us))
    (hu : ∀ t us', us = t :: us' → connective t = false) :
    chain connective combine first rest ts = some (c, us) := by
  unfold chain
  rw [h]
  cases us with
  | nil => rfl
  | cons t us' => simp [hu t us' rfl]

theorem chain_of_both {connective : Token α → Bool}
    {combine : Condition α → Condition α → Condition α} {first rest : Reader α}
    {ts ts' us : List (Token α)} {c d : Condition α} {t : Token α}
    (h : first ts = some (c, t :: ts')) (ht : connective t = true)
    (hr : rest ts' = some (d, us)) :
    chain connective combine first rest ts = some (combine c d, us) := by
  simp [chain, h, ht, hr]

theorem Extends.chain {connective : Token α → Bool}
    {combine : Condition α → Condition α → Condition α} {first first' rest rest' : Reader α}
    (hf : Extends first first') (hr : Extends rest rest') :
    Extends (chain connective combine first rest) (chain connective combine first' rest') := by
  intro ts ⟨c, us⟩ h
  rcases chain_cases h with ⟨h, hu⟩ | ⟨d, e, t, ts', hd, ht, he, rfl⟩
  · exact chain_of_first (hf _ _ h) hu
  · exact chain_of_both (hf _ _ hd) ht (hr _ _ he)

theorem Extends.unit {negated negated' whole whole' : Reader α} (hn : Extends negated negated')
    (hw : Extends whole whole') : Extends (unit negated whole) (unit negated' whole') := by
  intro ts r h
  unfold Sql.unit at h ⊢
  split at h
  · rw [Option.map_eq_some_iff] at h ⊢
    obtain ⟨x, hx, rfl⟩ := h
    exact ⟨x, hn _ _ hx, rfl⟩
  · exact h
  · next ts' =>
    split at h
    · next c us hc => simpa [hw _ _ hc] using h
    · cases h
  · cases h

theorem parse_succ (n : Nat) : Extends (parseOr (α := α) n) (parseOr (n + 1)) ∧
    Extends (parseAnd (α := α) n) (parseAnd (n + 1)) ∧
    Extends (parseUnit (α := α) n) (parseUnit (n + 1)) := by
  induction n with
  | zero =>
    refine ⟨?_, ?_, ?_⟩ <;> intro ts r h <;> cases h
  | succ n ih =>
    obtain ⟨ho, ha, hu⟩ := ih
    exact ⟨ha.chain ho, hu.chain ha, hu.unit ho⟩

theorem parseOr_mono {m n : Nat} (h : m ≤ n) : Extends (parseOr (α := α) m) (parseOr n) := by
  induction h with
  | refl => exact fun _ _ h => h
  | step _ ih => exact fun ts r hr => (parse_succ _).1 _ _ (ih ts r hr)

/-! ## What follows a condition -/

/-- A reader stops at a closing parenthesis that is not its own. -/
def StopsAtParen (p : Reader α) : Prop := ∀ ts c us vs, p ts = some (c, us) →
  p (ts ++ .rparen :: vs) = some (c, us ++ .rparen :: vs)

theorem StopsAtParen.chain {connective : Token α → Bool}
    {combine : Condition α → Condition α → Condition α} {first rest : Reader α}
    (hc : connective .rparen = false) (hf : StopsAtParen first) (hr : StopsAtParen rest) :
    StopsAtParen (chain connective combine first rest) := by
  intro ts c us vs h
  rcases chain_cases h with ⟨h, hu⟩ | ⟨d, e, t, ts', hd, ht, he, rfl⟩
  · refine chain_of_first (hf _ _ _ _ h) fun t us' hus => ?_
    cases us with
    | nil => cases hus; exact hc
    | cons u us => cases hus; exact hu _ _ rfl
  · exact chain_of_both (hf _ _ _ _ hd) ht (hr _ _ _ _ he)

theorem StopsAtParen.unit {negated whole : Reader α} (hn : StopsAtParen negated)
    (hw : StopsAtParen whole) : StopsAtParen (unit negated whole) := by
  intro ts c us vs h
  unfold Sql.unit at h
  split at h
  · rw [Option.map_eq_some_iff] at h
    obtain ⟨⟨d, us'⟩, hd, he⟩ := h
    simp only [Prod.mk.injEq] at he
    obtain ⟨rfl, rfl⟩ := he
    simp [Sql.unit, hn _ _ _ vs hd]
  · cases h
    simp [Sql.unit]
  · split at h
    · next d us' hd =>
      cases h
      simp [Sql.unit, hw _ _ _ vs hd]
    · cases h
  · cases h

theorem parse_stops (n : Nat) : StopsAtParen (parseOr (α := α) n) ∧
    StopsAtParen (parseAnd (α := α) n) ∧ StopsAtParen (parseUnit (α := α) n) := by
  induction n with
  | zero =>
    refine ⟨?_, ?_, ?_⟩ <;> intro ts c us vs h <;> cases h
  | succ n ih =>
    obtain ⟨ho, ha, hu⟩ := ih
    exact ⟨ha.chain rfl ho, hu.chain rfl ha, hu.unit ho⟩

theorem parseOr_of_parse {ts : List (Token α)} {c : Condition α} (h : parse ts = some c) :
    parseOr (3 * ts.length + 3) ts = some (c, []) := by
  unfold parse at h
  split at h
  · next d hd => cases h; exact hd
  · cases h

theorem parse_atom (a : α) : parse [.atom a] = some (.atom a) := rfl

/-- The whole of a condition in parentheses is one operand of the `AND` before it. -/
theorem parse_and_parens (a : α) {ts : List (Token α)} {c : Condition α}
    (h : parse ts = some c) :
    parse (.lparen :: .atom a :: .and :: .lparen :: (ts ++ [.rparen, .rparen])) =
      some (.and (.atom a) c) := by
  let n := 3 * ts.length + 14
  have hc : parseOr n (ts ++ [.rparen, .rparen]) = some (c, [.rparen, .rparen]) :=
    (parse_stops n).1 _ _ _ [.rparen] (parseOr_mono (by omega) _ _ (parseOr_of_parse h))
  have hextra : parseAnd (n + 2) (.lparen :: (ts ++ [.rparen, .rparen])) =
      some (c, [.rparen]) := by
    rw [parseAnd, parseUnit]
    refine chain_of_first (by simp only [unit, hc]) fun t us h => ?_
    cases h; rfl
  have hboth : parseOr (n + 4) (.atom a :: .and :: .lparen :: (ts ++ [.rparen, .rparen])) =
      some (.and (.atom a) c, [.rparen]) := by
    rw [parseOr, parseAnd, parseUnit]
    refine chain_of_first (chain_of_both rfl rfl hextra) fun t us h => ?_
    cases h; rfl
  have hall : parseOr (n + 7)
      (.lparen :: .atom a :: .and :: .lparen :: (ts ++ [.rparen, .rparen])) =
      some (.and (.atom a) c, []) := by
    rw [parseOr, parseAnd, parseUnit]
    refine chain_of_first (chain_of_first ?_ fun t us h => by cases h) fun t us h => by cases h
    simp only [unit, hboth]
  have hn : 3 * (Token.lparen :: .atom a :: .and :: .lparen ::
      (ts ++ [.rparen, .rparen])).length + 3 = n + 7 := by
    simp only [List.length_cons, List.length_append, List.length_nil]
    omega
  simp only [parse, hn, hall]

end Sql
