import Mathlib.Algebra.BigOperators.Group.List.Basic
import Mathlib.Data.List.Basic
import Mathlib.Data.List.Count

/-!
# One element of a list replaced

What is computed from the elements one by one changes by what the element contributes.
-/

namespace Lists

variable {α β : Type} {l : List α} {i : Nat} {a b : α}

theorem map_set_of_eq {g : α → β} (ha : l[i]? = some a) (hg : g b = g a) :
    (l.set i b).map g = l.map g := by
  rw [List.map_set, hg]
  refine List.ext_getElem? fun j => ?_
  rw [List.getElem?_set]
  split_ifs with hij hlen
  · rw [← hij, List.getElem?_map, ha]
    rfl
  · rw [← hij, List.getElem?_eq_none (Nat.le_of_not_lt hlen)]
  · rfl

theorem flatMap_set_of_eq {g : α → List β} (ha : l[i]? = some a) (hg : g b = g a) :
    (l.set i b).flatMap g = l.flatMap g := by
  rw [List.flatMap_def, List.flatMap_def, map_set_of_eq ha hg]

/-- An element other than the one replaced is still there. -/
theorem mem_set_of_ne (hb : b ∈ l) (ha : l[i]? = some a) (hne : b ≠ a) (c : α) : b ∈ l.set i c := by
  obtain ⟨j, hj⟩ := List.mem_iff_getElem?.mp hb
  have hij : i ≠ j := by
    rintro rfl
    rw [ha, Option.some.injEq] at hj
    exact hne hj.symm
  exact List.mem_iff_getElem?.mpr ⟨j, (List.getElem?_set_ne hij).trans hj⟩

theorem countP_set_of_eq {p : α → Bool} (ha : l[i]? = some a) (hp : p b = p a) :
    (l.set i b).countP p = l.countP p := by
  have h := congrArg (List.countP id) (map_set_of_eq (g := p) ha hp)
  rwa [List.countP_map, List.countP_map] at h

theorem sum_map_set {G : Type} [AddCommGroup G] {g : α → G} (ha : l[i]? = some a) :
    ((l.set i b).map g).sum = (l.map g).sum - g a + g b := by
  obtain ⟨hi, rfl⟩ := List.getElem?_eq_some_iff.1 ha
  have hlen : i < (l.map g).length := by rwa [List.length_map]
  rw [List.map_set, List.sum_set', dif_pos hlen, List.getElem_map, ← add_assoc, ← sub_eq_add_neg]

/-- An element that counted no longer counts. -/
theorem countP_set_of_not {p : α → Bool} (ha : l[i]? = some a) (hpa : p a = true)
    (hpb : p b = false) : (l.set i b).countP p + 1 = l.countP p := by
  obtain ⟨hi, rfl⟩ := List.getElem?_eq_some_iff.1 ha
  have hpos : 0 < l.countP p := List.countP_pos_iff.2 ⟨_, List.getElem_mem hi, hpa⟩
  rw [List.countP_set hi, if_pos hpa, hpb]
  simp only [Bool.false_eq_true, if_false]
  omega

end Lists
