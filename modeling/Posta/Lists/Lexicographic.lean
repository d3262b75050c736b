import Mathlib.Data.Bool.Basic
import Mathlib.Data.List.Lex
import Mathlib.Order.BooleanAlgebra.Basic

/-!
# The lexicographic order of lists

What stands behind two lists of one length does not change their order, and what comes before an
extension of a list comes before the list or extends it.

**Paths.** A path of a binary tree is a list of booleans. Their order is that of a walk which
visits a node first, then what is below its left child, then what is below its right child.
-/

namespace Lists

variable {α : Type} [LinearOrder α] {a b l m : List α} {c d : α}

theorem append_lt_append (h : a < b) (hlen : a.length = b.length) (l m : List α) :
    a ++ l < b ++ m := by
  induction a generalizing b with
  | nil =>
    cases b with
    | nil => exact absurd h (lt_irrefl _)
    | cons d b => cases hlen
  | cons c a ih =>
    cases b with
    | nil => cases hlen
    | cons d b =>
      rw [List.cons_append, List.cons_append, List.cons_lt_cons_iff]
      obtain h | ⟨h, hab⟩ := List.cons_lt_cons_iff.mp h
      · exact Or.inl h
      · exact Or.inr ⟨h, ih hab (Nat.succ.inj hlen)⟩

theorem lt_append_of_ne_nil (a : List α) (hl : l ≠ []) : a < a ++ l := by
  have hnil : [] < l := by
    cases l with
    | nil => exact absurd rfl hl
    | cons c l => exact List.nil_lt_cons c l
  have h : a ++ [] < a ++ l := List.append_left_lt hnil
  rwa [List.append_nil] at h

theorem lt_or_prefix_of_lt_append (h : l < a ++ m) : l < a ∨ a <+: l := by
  induction a generalizing l with
  | nil => exact Or.inr List.nil_prefix
  | cons c a ih =>
    cases l with
    | nil => exact Or.inl (List.nil_lt_cons c a)
    | cons d l =>
      obtain hlt | ⟨rfl, hlt⟩ := List.cons_lt_cons_iff.mp h
      · exact Or.inl (List.cons_lt_cons_iff.mpr (Or.inl hlt))
      · obtain hl | hl := ih hlt
        · exact Or.inl (List.cons_lt_cons_iff.mpr (Or.inr ⟨rfl, hl⟩))
        · exact Or.inr ((List.prefix_cons_inj d).mpr hl)

/-! ## Paths -/

variable {p q : List Bool}

/-- What is below a left child comes before the right one. -/
theorem left_lt_right (h : p ++ [false] <+: q) : q < p ++ [true] := by
  obtain ⟨r, rfl⟩ := h
  rw [List.append_assoc]
  exact List.append_left_lt (List.cons_lt_cons_iff.mpr (Or.inl (by decide)))

/-- A path comes before those that extend it, and those that turn right where it turns left. -/
theorem lt_path_iff : p < q ↔ (p <+: q ∧ p ≠ q) ∨
    ∃ r p' q', p = r ++ false :: p' ∧ q = r ++ true :: q' := by
  constructor
  · intro h
    induction p generalizing q with
    | nil => exact Or.inl ⟨List.nil_prefix, fun hq => absurd h (hq ▸ lt_irrefl _)⟩
    | cons c p ih =>
      cases q with
      | nil => exact absurd h (List.not_lt_nil _)
      | cons d q =>
        obtain hlt | ⟨rfl, hlt⟩ := List.cons_lt_cons_iff.mp h
        · obtain ⟨rfl, rfl⟩ : c = false ∧ d = true := Bool.lt_iff.mp hlt
          exact Or.inr ⟨[], p, q, rfl, rfl⟩
        · obtain ⟨hpre, hne⟩ | ⟨r, p', q', rfl, rfl⟩ := ih hlt
          · exact Or.inl ⟨(List.prefix_cons_inj c).mpr hpre, fun heq => hne (List.cons.inj heq).2⟩
          · exact Or.inr ⟨c :: r, p', q', rfl, rfl⟩
  · rintro (⟨⟨r, rfl⟩, hne⟩ | ⟨r, p', q', rfl, rfl⟩)
    · exact lt_append_of_ne_nil p fun hr => hne (by rw [hr, List.append_nil])
    · exact List.append_left_lt (List.cons_lt_cons_iff.mpr (Or.inl (by decide)))

end Lists
