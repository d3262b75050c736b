import Mathlib.Data.List.Nodup
import Mathlib.Order.Lattice

/-!
# Stores listed in key order

A store maps keys to values and lists its entries in increasing key order. Writing a key
replaces the whole value.
-/

namespace Store

variable {κ β : Type} [LinearOrder κ]

/-- Entries in strictly increasing key order. -/
structure SortedStore (κ β : Type) [LinearOrder κ] where
  entries : List (κ × β)
  sorted : entries.Pairwise fun a b => a.1 < b.1

namespace SortedStore

def empty : SortedStore κ β := ⟨[], List.Pairwise.nil⟩

/-- Write an entry in its place. -/
def putEntries (k : κ) (v : β) : List (κ × β) → List (κ × β)
  | [] => [(k, v)]
  | e :: es =>
    if k < e.1 then (k, v) :: e :: es
    else if k = e.1 then (k, v) :: es
    else e :: putEntries k v es

theorem mem_putEntries {k : κ} {v : β} {es : List (κ × β)} {e : κ × β}
    (h : e ∈ putEntries k v es) : e = (k, v) ∨ (e ∈ es ∧ (es.Pairwise (fun a b => a.1 < b.1) →
      e.1 ≠ k)) := by
  induction es with
  | nil => exact Or.inl (List.mem_singleton.mp h)
  | cons d es ih =>
    rw [putEntries] at h
    split_ifs at h with h₁ h₂
    · rcases List.mem_cons.mp h with h | h
      · exact Or.inl h
      · refine Or.inr ⟨h, fun hs => ?_⟩
        rcases List.mem_cons.mp h with rfl | h
        · exact ne_of_gt h₁
        · exact ne_of_gt (lt_trans h₁ (List.rel_of_pairwise_cons hs h))
    · rcases List.mem_cons.mp h with h | h
      · exact Or.inl h
      · exact Or.inr ⟨List.mem_cons_of_mem _ h, fun hs =>
          h₂ ▸ ne_of_gt (List.rel_of_pairwise_cons hs h)⟩
    · rcases List.mem_cons.mp h with rfl | h
      · exact Or.inr ⟨List.mem_cons_self, fun _ => fun hk => h₂ hk.symm⟩
      · rcases ih h with h | ⟨h, hne⟩
        · exact Or.inl h
        · exact Or.inr ⟨List.mem_cons_of_mem _ h, fun hs => hne hs.of_cons⟩

theorem putEntries_sorted {k : κ} {v : β} {es : List (κ × β)}
    (hs : es.Pairwise fun a b => a.1 < b.1) :
    (putEntries k v es).Pairwise fun a b => a.1 < b.1 := by
  induction es with
  | nil => exact List.pairwise_singleton _ _
  | cons d es ih =>
    rw [putEntries]
    split_ifs with h₁ h₂
    · refine List.pairwise_cons.mpr ⟨fun e he => ?_, hs⟩
      rcases List.mem_cons.mp he with rfl | he
      · exact h₁
      · exact lt_trans h₁ (List.rel_of_pairwise_cons hs he)
    · refine List.pairwise_cons.mpr ⟨fun e he => ?_, hs.of_cons⟩
      exact h₂ ▸ List.rel_of_pairwise_cons hs he
    · refine List.pairwise_cons.mpr ⟨fun e he => ?_, ih hs.of_cons⟩
      rcases mem_putEntries he with rfl | ⟨he, -⟩
      · exact lt_of_le_of_ne (not_lt.mp h₁) fun h => h₂ h.symm
      · exact List.rel_of_pairwise_cons hs he

/-- Write a value under a key. -/
def put (s : SortedStore κ β) (k : κ) (v : β) : SortedStore κ β :=
  ⟨putEntries k v s.entries, putEntries_sorted s.sorted⟩

variable {s : SortedStore κ β} {k : κ} {v : β} {e : κ × β}

theorem mem_put_self (s : SortedStore κ β) (k : κ) (v : β) : (k, v) ∈ (s.put k v).entries := by
  have h : ∀ es : List (κ × β), (k, v) ∈ putEntries k v es := by
    intro es
    induction es with
    | nil => simp [putEntries]
    | cons d es ih =>
      rw [putEntries]
      split_ifs <;> simp [ih]
  exact h s.entries

/-- An entry of another key stays. -/
theorem mem_put_of_ne (he : e ∈ s.entries) (hk : e.1 ≠ k) (v : β) : e ∈ (s.put k v).entries := by
  have h : ∀ es : List (κ × β), e ∈ es → e ∈ putEntries k v es := by
    intro es
    induction es with
    | nil => exact fun h => absurd h List.not_mem_nil
    | cons d es ih =>
      intro h
      rw [putEntries]
      split_ifs with h₁ h₂
      · exact List.mem_cons_of_mem _ h
      · rcases List.mem_cons.mp h with rfl | h
        · exact absurd h₂.symm hk
        · exact List.mem_cons_of_mem _ h
      · rcases List.mem_cons.mp h with rfl | h
        · exact List.mem_cons_self
        · exact List.mem_cons_of_mem _ (ih h)
  exact h s.entries he

/-- **The entries after a write**: the new one, and the old ones of other keys. -/
theorem mem_put : e ∈ (s.put k v).entries ↔ e = (k, v) ∨ (e ∈ s.entries ∧ e.1 ≠ k) := by
  constructor
  · intro h
    rcases mem_putEntries h with h | ⟨h, hne⟩
    · exact Or.inl h
    · exact Or.inr ⟨h, hne s.sorted⟩
  · rintro (rfl | ⟨h, hne⟩)
    · exact mem_put_self s k v
    · exact mem_put_of_ne h hne v

/-- There is one entry for a key. -/
theorem eq_of_key_eq {d : κ × β} (hd : d ∈ s.entries) (he : e ∈ s.entries) (h : d.1 = e.1) :
    d = e := by
  have hnodup : (s.entries.map Prod.fst).Nodup :=
    List.pairwise_map.mpr (s.sorted.imp fun h => ne_of_lt h)
  exact List.inj_on_of_nodup_map hnodup hd he h

end SortedStore

end Store
