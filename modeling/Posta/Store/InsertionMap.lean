import Mathlib.Data.List.Nodup

/-!
# Maps that forget their oldest key

A map remembers its keys in the order in which they were first set. Setting a key that is present
keeps its place; one that is absent goes to the end. `remember` makes room before it sets a new key
in a full map: the oldest key goes.

**Facts.** The key just remembered has its value (`get_remember`); every other entry was there
before (`get_of_get_remember`); a bound on the size is kept (`size_remember_le`).
-/

namespace Store

variable {κ ν : Type} [DecidableEq κ]

structure InsertionMap (κ ν : Type) where
  entries : List (κ × ν)
  nodup : (entries.map Prod.fst).Nodup

namespace InsertionMap

def empty : InsertionMap κ ν := ⟨[], List.nodup_nil⟩

def keys (m : InsertionMap κ ν) : List κ := m.entries.map Prod.fst

def size (m : InsertionMap κ ν) : Nat := m.entries.length

/-- The value of a key. -/
def get (m : InsertionMap κ ν) (k : κ) : Option ν := (m.entries.find? fun e => e.1 = k).map Prod.snd

/-- Without the oldest key. -/
def dropOldest (m : InsertionMap κ ν) : InsertionMap κ ν :=
  ⟨m.entries.tail, by rw [List.map_tail]; exact m.nodup.tail⟩

def set (m : InsertionMap κ ν) (k : κ) (v : ν) : InsertionMap κ ν :=
  if h : k ∈ m.keys then
    ⟨m.entries.map fun e => if e.1 = k then (k, v) else e, by
      have : (m.entries.map fun e => if e.1 = k then (k, v) else e).map Prod.fst =
          m.entries.map Prod.fst := by
        rw [List.map_map]
        refine List.map_congr_left fun e _ => ?_
        by_cases he : e.1 = k <;> simp [he]
      rw [this]
      exact m.nodup⟩
  else
    ⟨m.entries ++ [(k, v)], by
      rw [List.map_append, List.map_singleton, ← List.concat_eq_append]
      exact m.nodup.concat h⟩

/-- Set a key in a map of at most `max` keys. -/
def remember (m : InsertionMap κ ν) (max : Nat) (k : κ) (v : ν) : InsertionMap κ ν :=
  if max ≤ m.size ∧ k ∉ m.keys then m.dropOldest.set k v else m.set k v

variable {m : InsertionMap κ ν} {k k' : κ} {v v' : ν} {max : Nat}

theorem get_eq_some : m.get k = some v ↔ (k, v) ∈ m.entries := by
  unfold get
  rw [Option.map_eq_some_iff]
  constructor
  · rintro ⟨e, he, rfl⟩
    have hk : e.1 = k := by simpa using List.find?_some he
    rw [← hk]
    exact List.mem_of_find?_eq_some he
  · intro h
    obtain ⟨e, he⟩ : ∃ e, m.entries.find? (fun e => e.1 = k) = some e :=
      Option.isSome_iff_exists.1 (List.find?_isSome.2 ⟨(k, v), h, decide_eq_true rfl⟩)
    refine ⟨e, he, ?_⟩
    have hk : e.1 = k := by simpa using List.find?_some he
    have := List.inj_on_of_nodup_map m.nodup (List.mem_of_find?_eq_some he) h hk
    rw [this]

theorem mem_set {e : κ × ν} : e ∈ (m.set k v).entries ↔
    e = (k, v) ∨ (e ∈ m.entries ∧ e.1 ≠ k) := by
  unfold set
  split
  · next h =>
    simp only [List.mem_map]
    constructor
    · rintro ⟨e', he', rfl⟩
      by_cases hk : e'.1 = k
      · simp [hk]
      · simp [hk, he']
    · rintro (rfl | ⟨he, hk⟩)
      · obtain ⟨e, he, hk⟩ := List.mem_map.1 h
        exact ⟨e, he, by simp [hk]⟩
      · exact ⟨e, he, by simp [hk]⟩
  · next h =>
    simp only [List.mem_append, List.mem_singleton]
    constructor
    · rintro (he | he)
      · refine .inr ⟨he, fun hk => h ?_⟩
        rw [← hk]
        exact List.mem_map_of_mem he
      · exact .inl he
    · rintro (he | ⟨he, -⟩)
      · exact .inr he
      · exact .inl he

theorem get_set : (m.set k v).get k = some v := get_eq_some.2 (mem_set.2 (.inl rfl))

theorem size_set_le : (m.set k v).size ≤ if k ∈ m.keys then m.size else m.size + 1 := by
  unfold set size
  split <;> simp

theorem get_remember : (m.remember max k v).get k = some v := by
  unfold remember
  split <;> exact get_set

/-- What is remembered besides the key was there before. -/
theorem get_of_get_remember (h : (m.remember max k v).get k' = some v') :
    (k' = k ∧ v' = v) ∨ m.get k' = some v' := by
  rw [get_eq_some] at h
  unfold remember at h
  split at h
  · rcases mem_set.1 h with h | ⟨h, -⟩
    · exact .inl (Prod.mk.inj h)
    · exact .inr (get_eq_some.2 (List.mem_of_mem_tail h))
  · rcases mem_set.1 h with h | ⟨h, -⟩
    · exact .inl (Prod.mk.inj h)
    · exact .inr (get_eq_some.2 h)

theorem size_remember_le (hmax : 0 < max) (hm : m.size ≤ max) : (m.remember max k v).size ≤ max := by
  unfold remember
  split
  · next h =>
    refine Nat.le_trans size_set_le ?_
    have : m.dropOldest.size = m.size - 1 := List.length_tail
    split <;> omega
  · next h =>
    refine Nat.le_trans size_set_le ?_
    split
    · exact hm
    · next hk =>
      rw [not_and_or, not_not] at h
      rcases h with h | h
      · omega
      · exact absurd h hk

end InsertionMap

end Store
