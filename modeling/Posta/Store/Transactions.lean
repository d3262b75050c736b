import Mathlib.Logic.Basic

/-!
# Transactions on one connection

A database commits whole transactions. What a transaction does it does to a copy, which takes the
place of the database when it commits and is dropped otherwise.

**Answers** (`Answers`). Every command may fail, and a failure says little about what happened: the
command was refused, or was carried out and only its acknowledgement is lost, or the transaction is
now in a failed state, or the server has ended the session.

**Commands** (`Begun`, `Done`, `Committed`, `RolledBack`). What a command that succeeds does. Outside
a transaction a statement commits by itself. In a failed transaction nothing but its end succeeds,
and committing it drops it.

Only a commit, and a statement outside a transaction, changes what is committed
(`committed_of_done`, `committed_of_rolledBack`, `committed_of_begun`, `committed_of_committed`).
-/

namespace Store

variable {δ ρ ε : Type}

/-- What a session is in: no transaction, one with its copy of the database, or a failed one. -/
inductive Session (δ : Type) where
  | idle
  | transaction (copy : δ)
  | failed

structure Connection (δ : Type) where
  committed : δ
  session : Session δ

/-- What a command may answer and leave, by what it does where it succeeds. -/
inductive Answers (done : Connection δ → ρ → Connection δ → Prop) :
    Connection δ → Except ε ρ → Connection δ → Prop
  | ok {c r c'} : done c r c' → Answers done c (.ok r) c'
  | lost {c r c'} (error : ε) : done c r c' → Answers done c (.error error) c'
  | refused {c} (error : ε) : Answers done c (.error error) c
  | failed {d copy} (error : ε) :
      Answers done ⟨d, .transaction copy⟩ (.error error) ⟨d, .failed⟩
  | dropped {d s} (error : ε) : Answers done ⟨d, s⟩ (.error error) ⟨d, .idle⟩

/-! ## Commands that succeed -/

/-- `BEGIN`, which a transaction that is open ignores. -/
inductive Begun : Connection δ → Unit → Connection δ → Prop
  | idle (d : δ) : Begun ⟨d, .idle⟩ () ⟨d, .transaction d⟩
  | again (d copy : δ) : Begun ⟨d, .transaction copy⟩ () ⟨d, .transaction copy⟩

/-- A statement with its effect; `settle` is what outlives the transaction. -/
inductive Done (settle : δ → δ) (effect : δ → ρ → δ → Prop) :
    Connection δ → ρ → Connection δ → Prop
  | alone {d r d'} : effect d r d' → Done settle effect ⟨d, .idle⟩ r ⟨settle d', .idle⟩
  | within {d copy r copy'} : effect copy r copy' →
      Done settle effect ⟨d, .transaction copy⟩ r ⟨d, .transaction copy'⟩

inductive Committed (settle : δ → δ) : Connection δ → Unit → Connection δ → Prop
  | idle (d : δ) : Committed settle ⟨d, .idle⟩ () ⟨d, .idle⟩
  | transaction (d copy : δ) :
      Committed settle ⟨d, .transaction copy⟩ () ⟨settle copy, .idle⟩
  | failed (d : δ) : Committed settle ⟨d, .failed⟩ () ⟨d, .idle⟩

inductive RolledBack : Connection δ → Unit → Connection δ → Prop
  | intro (d : δ) (s : Session δ) : RolledBack ⟨d, s⟩ () ⟨d, .idle⟩

/-! ## What is committed -/

variable {done : Connection δ → ρ → Connection δ → Prop} {settle : δ → δ}
  {effect : δ → ρ → δ → Prop} {c c' : Connection δ} {r : Except ε ρ}

/-- What a failure leaves is what was there before, or what success leaves. -/
theorem committed_of_error {error : ε} (h : Answers done c (.error error) c') :
    c'.committed = c.committed ∨ ∃ r, done c r c' := by
  cases h with
  | lost _ hd => exact Or.inr ⟨_, hd⟩
  | refused => exact Or.inl rfl
  | failed => exact Or.inl rfl
  | dropped => exact Or.inl rfl

theorem done_of_ok {v : ρ} (h : Answers done c (.ok v : Except ε ρ) c') : done c v c' := by
  cases h with
  | ok hd => exact hd

/-- A command that commits nothing where it succeeds commits nothing. -/
theorem committed_of_answers (hdone : ∀ c v c', done c v c' → c'.committed = c.committed)
    (h : Answers done c r c') : c'.committed = c.committed := by
  cases r with
  | ok v => exact hdone _ _ _ (done_of_ok h)
  | error error =>
    rcases committed_of_error h with h | ⟨v, hd⟩
    · exact h
    · exact hdone _ _ _ hd

theorem committed_of_begun (c : Connection δ) (v : Unit) (c' : Connection δ) (h : Begun c v c') :
    c'.committed = c.committed := by
  cases h <;> rfl

theorem committed_of_rolledBack (c : Connection δ) (v : Unit) (c' : Connection δ)
    (h : RolledBack c v c') : c'.committed = c.committed := by
  cases h
  rfl

/-- **Within a transaction** a statement commits nothing, and goes on with the copy where it
succeeds. -/
theorem within_transaction {d copy : δ}
    (h : Answers (Done settle effect) ⟨d, .transaction copy⟩ r c') :
    c'.committed = d ∧
      ∀ v, r = .ok v → ∃ copy', effect copy v copy' ∧ c' = ⟨d, .transaction copy'⟩ := by
  cases h with
  | ok hd =>
    cases hd with
    | within he =>
      refine ⟨rfl, fun v hv => ?_⟩
      cases hv
      exact ⟨_, he, rfl⟩
  | lost error hd =>
    cases hd with
    | within he => exact ⟨rfl, fun v hv => by cases hv⟩
  | refused => exact ⟨rfl, fun v hv => by cases hv⟩
  | failed => exact ⟨rfl, fun v hv => by cases hv⟩
  | dropped => exact ⟨rfl, fun v hv => by cases hv⟩

/-- **The end of a transaction.** Its copy is committed where the commit succeeds; where it fails,
the copy is committed or is not. -/
theorem end_transaction {d copy : δ} {r : Except ε Unit}
    (h : Answers (Committed settle) ⟨d, .transaction copy⟩ r c') :
    (c'.committed = d ∨ c'.committed = settle copy) ∧
      ∀ v, r = .ok v → c' = ⟨settle copy, .idle⟩ := by
  cases h with
  | ok hd =>
    cases hd with
    | transaction => exact ⟨Or.inr rfl, fun _ _ => rfl⟩
  | lost error hd =>
    cases hd with
    | transaction => exact ⟨Or.inr rfl, fun v hv => by cases hv⟩
  | refused => exact ⟨Or.inl rfl, fun v hv => by cases hv⟩
  | failed => exact ⟨Or.inl rfl, fun v hv => by cases hv⟩
  | dropped => exact ⟨Or.inl rfl, fun v hv => by cases hv⟩

/-- **Outside a transaction** a statement leaves what was committed or what it does to it. -/
theorem outside_transaction {d : δ} (h : Answers (Done settle effect) ⟨d, .idle⟩ r c') :
    c'.session = .idle ∧
      (c'.committed = d ∨ ∃ v d', effect d v d' ∧ c'.committed = settle d') ∧
      ∀ v, r = .ok v → ∃ d', effect d v d' ∧ c' = ⟨settle d', .idle⟩ := by
  cases h with
  | ok hd =>
    cases hd with
    | alone he =>
      refine ⟨rfl, Or.inr ⟨_, _, he, rfl⟩, fun v hv => ?_⟩
      cases hv
      exact ⟨_, he, rfl⟩
  | lost error hd =>
    cases hd with
    | alone he => exact ⟨rfl, Or.inr ⟨_, _, he, rfl⟩, fun v hv => by cases hv⟩
  | refused => exact ⟨rfl, Or.inl rfl, fun v hv => by cases hv⟩
  | dropped => exact ⟨rfl, Or.inl rfl, fun v hv => by cases hv⟩

end Store
