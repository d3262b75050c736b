import Mathlib.Data.Finset.Card
import Mathlib.Data.List.Nodup

/-!
# Tables keyed by a unique column

A table holds at most one row for each key. Inserting a row whose key is taken does nothing, so
the first writer of a key decides its row; within one insertion the rows are taken in order.

**Theorem (`find_insert`).** After an insertion, the row of a key is the one it had, and
otherwise the first inserted row with that key. Everything else follows: rows stay
(`mem_insert_of_mem`), nothing is invented (`mem_of_mem_insert`), every inserted key is present
(`exists_key_insert`), insertions compose (`insert_append`), and as many rows are added as
distinct keys were free (`length_insert`).
-/

namespace Store

variable {α κ : Type} [DecidableEq κ] {key : α → κ}

/-- Rows with distinct keys. -/
structure KeyedTable (key : α → κ) where
  rows : List α
  nodup : (rows.map key).Nodup

namespace KeyedTable

def empty : KeyedTable key := ⟨[], List.nodup_nil⟩

/-- The row of a key. -/
def find (t : KeyedTable key) (k : κ) : Option α := t.rows.find? fun r => key r = k

/-- Insert one row unless its key is taken. -/
def insertOne (t : KeyedTable key) (r : α) : KeyedTable key :=
  if h : key r ∈ t.rows.map key then t
  else ⟨t.rows ++ [r], by
    rw [List.map_append, List.map_singleton, List.nodup_append]
    refine ⟨t.nodup, List.nodup_singleton _, fun a ha b hb hab => h ?_⟩
    rw [List.mem_singleton] at hb
    rw [← hb, ← hab]
    exact ha⟩

/-- Insert rows in order. -/
def insert (t : KeyedTable key) (rs : List α) : KeyedTable key := rs.foldl insertOne t

variable (t : KeyedTable key)

@[simp] theorem insert_cons (r : α) (rs : List α) :
    t.insert (r :: rs) = (t.insertOne r).insert rs := rfl

theorem insert_append (rs rs' : List α) : t.insert (rs ++ rs') = (t.insert rs).insert rs' :=
  List.foldl_append

theorem find_insertOne (r : α) (k : κ) :
    (t.insertOne r).find k = (t.find k).or (if key r = k then some r else none) := by
  unfold insertOne
  split
  · rename_i h
    split
    · rename_i hk
      obtain ⟨r', hr', hkey⟩ := List.mem_map.mp h
      have hsome : (t.find k).isSome := by
        rw [find, List.find?_isSome]
        exact ⟨r', hr', by simp [hkey, hk]⟩
      rw [Option.or_of_isSome hsome]
    · rw [Option.or_none]
  · simp only [find, List.find?_append, List.find?_singleton, decide_eq_true_eq]

/-- **Theorem (`find_insert`).** The first writer of a key decides its row. -/
theorem find_insert (rs : List α) (k : κ) :
    (t.insert rs).find k = (t.find k).or (rs.find? fun r => key r = k) := by
  induction rs generalizing t with
  | nil => exact Option.or_none.symm
  | cons r rs ih =>
    rw [insert_cons, ih, find_insertOne, Option.or_assoc, List.find?_cons]
    by_cases h : key r = k <;> simp [h]

theorem mem_iff_find (r : α) : r ∈ t.rows ↔ t.find (key r) = some r := by
  constructor
  · intro h
    rw [find, List.find?_eq_some_iff_append]
    obtain ⟨as, bs, hab⟩ := List.append_of_mem h
    refine ⟨by simp, as, bs, hab, fun a ha => ?_⟩
    have hnd := t.nodup
    rw [hab, List.map_append, List.nodup_append] at hnd
    simpa using hnd.2.2 (key a) (List.mem_map_of_mem ha) (key r) (by simp)
  · intro h
    exact List.mem_of_find?_eq_some h

theorem key_of_find {r : α} {k : κ} (h : t.find k = some r) : key r = k := by
  simpa using List.find?_some h

theorem mem_of_find {r : α} {k : κ} (h : t.find k = some r) : r ∈ t.rows :=
  List.mem_of_find?_eq_some h

theorem find_insert_of_find {r : α} {k : κ} (h : t.find k = some r) (rs : List α) :
    (t.insert rs).find k = some r := by
  rw [find_insert, h]
  rfl

theorem mem_insert_of_mem {r : α} (h : r ∈ t.rows) (rs : List α) : r ∈ (t.insert rs).rows := by
  rw [mem_iff_find] at h ⊢
  exact t.find_insert_of_find h rs

theorem mem_of_mem_insert {r : α} {rs : List α} (h : r ∈ (t.insert rs).rows) :
    r ∈ t.rows ∨ r ∈ rs := by
  rw [mem_iff_find, find_insert, Option.or_eq_some_iff] at h
  rcases h with h | ⟨-, h⟩
  · exact Or.inl (t.mem_of_find h)
  · exact Or.inr (List.mem_of_find?_eq_some h)

/-- Every inserted key is present afterwards. -/
theorem exists_key_insert {r : α} {rs : List α} (h : r ∈ rs) :
    ∃ r' ∈ (t.insert rs).rows, key r' = key r := by
  have hsome : ((t.insert rs).find (key r)).isSome := by
    rw [find_insert, Option.isSome_or, Bool.or_eq_true]
    refine Or.inr ?_
    rw [List.find?_isSome]
    exact ⟨r, h, by simp⟩
  obtain ⟨r', hr'⟩ := Option.isSome_iff_exists.mp hsome
  exact ⟨r', mem_of_find _ hr', key_of_find _ hr'⟩

theorem key_mem_insert (rs : List α) (k : κ) :
    k ∈ (t.insert rs).rows.map key ↔ k ∈ t.rows.map key ∨ k ∈ rs.map key := by
  constructor
  · intro h
    obtain ⟨r, hr, rfl⟩ := List.mem_map.mp h
    rcases t.mem_of_mem_insert hr with hr | hr
    · exact Or.inl (List.mem_map_of_mem hr)
    · exact Or.inr (List.mem_map_of_mem hr)
  · rintro (h | h)
    · obtain ⟨r, hr, rfl⟩ := List.mem_map.mp h
      exact List.mem_map_of_mem (t.mem_insert_of_mem hr rs)
    · obtain ⟨r, hr, rfl⟩ := List.mem_map.mp h
      obtain ⟨r', hr', hk⟩ := t.exists_key_insert hr
      exact hk ▸ List.mem_map_of_mem hr'

/-- The rows that are added are as many as the distinct keys that were free. -/
theorem length_insert (rs : List α) :
    (t.insert rs).rows.length =
      t.rows.length + ((rs.map key).toFinset \ (t.rows.map key).toFinset).card := by
  have hkeys : ((t.insert rs).rows.map key).toFinset =
      (t.rows.map key).toFinset ∪ ((rs.map key).toFinset \ (t.rows.map key).toFinset) := by
    rw [Finset.union_sdiff_self_eq_union]
    ext k
    rw [Finset.mem_union, List.mem_toFinset, List.mem_toFinset, List.mem_toFinset]
    exact t.key_mem_insert rs k
  have hcard := congrArg Finset.card hkeys
  rw [Finset.card_union_of_disjoint Finset.disjoint_sdiff,
    List.toFinset_card_of_nodup (t.insert rs).nodup, List.toFinset_card_of_nodup t.nodup,
    List.length_map, List.length_map] at hcard
  exact hcard

/-- Rows stay where they are. -/
theorem prefix_insert (rs : List α) : t.rows <+: (t.insert rs).rows := by
  induction rs generalizing t with
  | nil => exact List.prefix_rfl
  | cons r rs ih =>
    refine List.IsPrefix.trans ?_ (ih (t.insertOne r))
    unfold insertOne
    split
    · exact List.prefix_rfl
    · exact List.prefix_append _ _

/-- Rows whose keys are taken change nothing. -/
theorem insert_of_taken {rs : List α} (h : ∀ r ∈ rs, key r ∈ t.rows.map key) :
    t.insert rs = t := by
  induction rs with
  | nil => rfl
  | cons r rs ih =>
    have hone : t.insertOne r = t := by
      rw [insertOne, dif_pos (h r List.mem_cons_self)]
    rw [insert_cons, hone, ih fun r' hr' => h r' (List.mem_cons_of_mem _ hr')]

/-- A second insertion of the same rows changes nothing. -/
theorem insert_insert_self (rs : List α) : (t.insert rs).insert rs = t.insert rs := by
  apply insert_of_taken
  intro r hr
  exact (t.key_mem_insert rs (key r)).mpr (Or.inr (List.mem_map_of_mem hr))

theorem mem_insertOne_of_free {r r' : α} (h : key r ∉ t.rows.map key) :
    r' ∈ (t.insertOne r).rows ↔ r' ∈ t.rows ∨ r' = r := by
  rw [insertOne, dif_neg h, List.mem_append, List.mem_singleton]

/-- Delete the row of a key. -/
def delete (k : κ) : KeyedTable key :=
  ⟨t.rows.filter fun r => key r ≠ k, t.nodup.sublist (List.filter_sublist.map key)⟩

@[simp] theorem mem_delete {r : α} {k : κ} : r ∈ (t.delete k).rows ↔ r ∈ t.rows ∧ key r ≠ k := by
  simp [delete]

/-- There is one row for a key. -/
theorem eq_of_key_eq {r r' : α} (h : r ∈ t.rows) (h' : r' ∈ t.rows) (hk : key r = key r') :
    r = r' := by
  rw [mem_iff_find] at h h'
  rw [hk, h', Option.some.injEq] at h
  exact h.symm

@[simp] theorem find_empty (k : κ) : (empty : KeyedTable key).find k = none := rfl

end KeyedTable

end Store
