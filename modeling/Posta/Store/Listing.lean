import Posta.Store.SortedStore

/-!
# Listings of a sorted store

A listing goes through a list of conditions on keys, and for each of them lists the entries that
meet it, in key order. An entry comes first where its first condition does.

**Theorem (`findSome?_listing`).** What a listing finds first is found in an entry that is listed,
and in no entry that comes before it.

**Theorem (`listing_eq_iff`).** Where no key meets two conditions, a listing of all entries is in
a given order exactly when that order goes by conditions and then by keys.
-/

namespace Store

variable {κ β γ : Type} [LinearOrder κ]

/-- The first element of a sorted list at which a function has a value. -/
theorem findSome?_sorted {l : List (κ × β)} (hl : l.Pairwise fun a b => a.1 < b.1)
    {g : κ × β → Option γ} {c : γ} :
    l.findSome? g = some c ↔ ∃ e ∈ l, g e = some c ∧ ∀ e' ∈ l, e'.1 < e.1 → g e' = none := by
  induction l with
  | nil => simp
  | cons d l ih =>
    have hd := List.pairwise_cons.mp hl
    rw [List.findSome?_cons]
    cases hg : g d with
    | some b =>
      constructor
      · intro h
        cases h
        refine ⟨d, List.mem_cons_self, hg, fun e' he' hlt => ?_⟩
        rcases List.mem_cons.mp he' with rfl | he'
        · exact absurd hlt (lt_irrefl _)
        · exact absurd hlt (hd.1 e' he').asymm
      · rintro ⟨e, he, hge, hbefore⟩
        rcases List.mem_cons.mp he with rfl | he
        · exact hg.symm.trans hge
        · have hnone := hbefore d List.mem_cons_self (hd.1 e he)
          rw [hg] at hnone
          cases hnone
    | none =>
      refine (ih hd.2).trans ?_
      constructor
      · rintro ⟨e, he, hge, hbefore⟩
        refine ⟨e, List.mem_cons_of_mem _ he, hge, fun e' he' hlt => ?_⟩
        rcases List.mem_cons.mp he' with rfl | he'
        · exact hg
        · exact hbefore e' he' hlt
      · rintro ⟨e, he, hge, hbefore⟩
        rcases List.mem_cons.mp he with rfl | he
        · rw [hg] at hge
          cases hge
        · exact ⟨e, he, hge, fun e' he' => hbefore e' (List.mem_cons_of_mem _ he')⟩

namespace SortedStore

/-- The entries that meet the conditions, one condition after another. -/
def listing (s : SortedStore κ β) (ps : List (κ → Bool)) : List (κ × β) :=
  ps.flatMap fun p => s.entries.filter fun e => p e.1

/-- The place of the first condition that a key meets. -/
def rank (ps : List (κ → Bool)) (k : κ) : Nat := ps.findIdx fun p => p k

/-- The key is listed first. -/
def Before (ps : List (κ → Bool)) (k k' : κ) : Prop :=
  rank ps k < rank ps k' ∨ (rank ps k = rank ps k' ∧ k < k')

variable {s : SortedStore κ β} {p : κ → Bool} {ps : List (κ → Bool)} {k k' k'' : κ}
  {g : κ × β → Option γ} {c : γ}

omit [LinearOrder κ] in
theorem rank_cons_of_true (h : p k = true) : rank (p :: ps) k = 0 := by
  rw [rank, List.findIdx_cons, h]
  rfl

omit [LinearOrder κ] in
theorem rank_cons_of_false (h : p k = false) : rank (p :: ps) k = rank ps k + 1 := by
  rw [rank, List.findIdx_cons, h]
  rfl

theorem Before.irrefl : ¬Before ps k k := by
  intro h
  rcases h with h | ⟨-, h⟩
  · exact absurd h (Nat.lt_irrefl _)
  · exact absurd h (lt_irrefl _)

theorem Before.trans (h : Before ps k k') (h' : Before ps k' k'') : Before ps k k'' := by
  unfold Before at *
  rcases h with h | ⟨h, hk⟩ <;> rcases h' with h' | ⟨h', hk'⟩
  · exact Or.inl (by omega)
  · exact Or.inl (by omega)
  · exact Or.inl (by omega)
  · exact Or.inr ⟨by omega, hk.trans hk'⟩

theorem Before.total (h : k ≠ k') : Before ps k k' ∨ Before ps k' k := by
  unfold Before
  rcases lt_trichotomy (rank ps k) (rank ps k') with hr | hr | hr
  · exact Or.inl (Or.inl hr)
  · rcases lt_or_gt_of_ne h with hk | hk
    · exact Or.inl (Or.inr ⟨hr, hk⟩)
    · exact Or.inr (Or.inr ⟨hr.symm, hk⟩)
  · exact Or.inr (Or.inl hr)

/-- Among the keys of the first condition the order is that of the keys. -/
theorem before_cons_of_true (hk' : p k' = true) : Before (p :: ps) k k' ↔ p k = true ∧ k < k' := by
  unfold Before
  rw [rank_cons_of_true hk']
  cases hk : p k with
  | true =>
    rw [rank_cons_of_true hk]
    simp
  | false =>
    rw [rank_cons_of_false hk]
    simp

/-- The keys of the first condition come before all others. -/
theorem before_cons_of_false (hk' : p k' = false) :
    Before (p :: ps) k k' ↔ p k = true ∨ Before ps k k' := by
  unfold Before
  rw [rank_cons_of_false hk']
  cases hk : p k with
  | true =>
    rw [rank_cons_of_true hk]
    simp
  | false =>
    rw [rank_cons_of_false hk]
    simp

/-- **Theorem (`findSome?_listing`).** -/
theorem findSome?_listing : (s.listing ps).findSome? g = some c ↔
    ∃ e ∈ s.entries, (∃ p ∈ ps, p e.1 = true) ∧ g e = some c ∧
      ∀ e' ∈ s.entries, (∃ p ∈ ps, p e'.1 = true) → Before ps e'.1 e.1 → g e' = none := by
  induction ps with
  | nil => simp [listing]
  | cons p ps ih =>
    have hfirst : (s.entries.filter fun e => p e.1).findSome? g = some c ↔
        ∃ e ∈ s.entries.filter fun e => p e.1, g e = some c ∧
          ∀ e' ∈ s.entries.filter fun e => p e.1, e'.1 < e.1 → g e' = none :=
      findSome?_sorted (s.sorted.filter _)
    rw [listing, List.flatMap_cons, List.findSome?_append, Option.or_eq_some_iff, hfirst,
      List.findSome?_eq_none_iff]
    constructor
    · rintro (⟨e, he, hge, hbefore⟩ | ⟨hnone, hrest⟩)
      · obtain ⟨he, hpe⟩ := List.mem_filter.mp he
        refine ⟨e, he, ⟨p, List.mem_cons_self, hpe⟩, hge, fun e' he' _ hb => ?_⟩
        obtain ⟨hpe', hlt⟩ := (before_cons_of_true hpe).mp hb
        exact hbefore e' (List.mem_filter.mpr ⟨he', hpe'⟩) hlt
      · obtain ⟨e, he, ⟨p', hp', hpe⟩, hge, hbefore⟩ := ih.mp hrest
        have hfalse : p e.1 = false := by
          by_contra hpe
          have hnone := hnone e (List.mem_filter.mpr ⟨he, by simpa using hpe⟩)
          rw [hge] at hnone
          cases hnone
        refine ⟨e, he, ⟨p', List.mem_cons_of_mem _ hp', hpe⟩, hge, fun e' he' hlisted hb => ?_⟩
        by_cases hpe' : p e'.1 = true
        · exact hnone e' (List.mem_filter.mpr ⟨he', hpe'⟩)
        · obtain ⟨p'', hp'', hpe''⟩ := hlisted
          rcases List.mem_cons.mp hp'' with rfl | hp''
          · exact absurd hpe'' hpe'
          · refine hbefore e' he' ⟨p'', hp'', hpe''⟩ ?_
            exact ((before_cons_of_false hfalse).mp hb).resolve_left hpe'
    · rintro ⟨e, he, ⟨p', hp', hpe⟩, hge, hbefore⟩
      by_cases htrue : p e.1 = true
      · refine Or.inl ⟨e, List.mem_filter.mpr ⟨he, htrue⟩, hge, fun e' he' hlt => ?_⟩
        obtain ⟨he', hpe'⟩ := List.mem_filter.mp he'
        exact hbefore e' he' ⟨p, List.mem_cons_self, hpe'⟩
          ((before_cons_of_true htrue).mpr ⟨hpe', hlt⟩)
      · have hfalse : p e.1 = false := by simpa using htrue
        refine Or.inr ⟨fun e' he' => ?_, ih.mpr ⟨e, he, ?_, hge, fun e' he' hlisted hb => ?_⟩⟩
        · obtain ⟨he', hpe'⟩ := List.mem_filter.mp he'
          exact hbefore e' he' ⟨p, List.mem_cons_self, hpe'⟩
            ((before_cons_of_false hfalse).mpr (Or.inl hpe'))
        · rcases List.mem_cons.mp hp' with rfl | hp'
          · exact absurd hpe htrue
          · exact ⟨p', hp', hpe⟩
        · obtain ⟨p'', hp'', hpe''⟩ := hlisted
          exact hbefore e' he' ⟨p'', List.mem_cons_of_mem _ hp'', hpe''⟩
            ((before_cons_of_false hfalse).mpr (Or.inr hb))

theorem mem_listing {e : κ × β} : e ∈ s.listing ps ↔ e ∈ s.entries ∧ ∃ p ∈ ps, p e.1 = true := by
  simp only [listing, List.mem_flatMap, List.mem_filter]
  constructor
  · rintro ⟨p, hp, he, hpe⟩
    exact ⟨he, p, hp, hpe⟩
  · rintro ⟨he, p, hp, hpe⟩
    exact ⟨p, hp, he, hpe⟩

/-- No key meets two of the conditions. -/
def Apart (ps : List (κ → Bool)) : Prop := ps.Pairwise fun p q => ∀ k, p k = true → q k = false

theorem listing_pairwise (hapart : Apart ps) :
    (s.listing ps).Pairwise fun e e' => Before ps e.1 e'.1 := by
  induction ps with
  | nil => exact List.Pairwise.nil
  | cons p ps ih =>
    obtain ⟨hp, hps⟩ := List.pairwise_cons.mp hapart
    have hfalse : ∀ e ∈ s.listing ps, p e.1 = false := by
      intro e he
      obtain ⟨-, q, hq, hqe⟩ := mem_listing.mp he
      by_contra hpe
      have h := hp q hq e.1 (by simpa using hpe)
      rw [hqe] at h
      cases h
    have hlisting : s.listing (p :: ps) = (s.entries.filter fun e => p e.1) ++ s.listing ps := rfl
    rw [hlisting, List.pairwise_append]
    refine ⟨?_, ?_, fun e he e' he' => ?_⟩
    · refine (s.sorted.filter _).imp_of_mem fun {e e'} he he' hlt => ?_
      exact (before_cons_of_true (List.mem_filter.mp he').2).mpr ⟨(List.mem_filter.mp he).2, hlt⟩
    · refine (ih hps).imp_of_mem fun {e e'} _ he' hb => ?_
      exact (before_cons_of_false (hfalse e' he')).mpr (Or.inr hb)
    · exact (before_cons_of_false (hfalse e' he')).mpr (Or.inl (List.mem_filter.mp he).2)

/-- **Theorem (`listing_eq_iff`).** -/
theorem listing_eq_iff (hapart : Apart ps) {order : List κ} (hnodup : order.Nodup)
    (hmem : ∀ k, k ∈ order ↔ k ∈ s.entries.map Prod.fst)
    (hlisted : ∀ k ∈ order, ∃ p ∈ ps, p k = true) :
    (s.listing ps).map Prod.fst = order ↔ order.Pairwise (Before ps) := by
  have hsorted : ((s.listing ps).map Prod.fst).Pairwise (Before ps) :=
    List.pairwise_map.mpr (listing_pairwise hapart)
  refine ⟨fun h => h ▸ hsorted, fun h => ?_⟩
  have hperm : ((s.listing ps).map Prod.fst).Perm order := by
    have hnodup' : ((s.listing ps).map Prod.fst).Nodup := by
      apply List.Pairwise.imp _ hsorted
      rintro k k' hb rfl
      exact Before.irrefl hb
    refine (List.perm_ext_iff_of_nodup hnodup' hnodup).mpr fun k => ?_
    rw [hmem]
    simp only [List.mem_map, mem_listing]
    constructor
    · rintro ⟨e, ⟨he, -⟩, rfl⟩
      exact ⟨e, he, rfl⟩
    · rintro ⟨e, he, rfl⟩
      have hk : e.1 ∈ order := (hmem e.1).mpr (List.mem_map.mpr ⟨e, he, rfl⟩)
      exact ⟨e, ⟨he, hlisted _ hk⟩, rfl⟩
  refine hperm.eq_of_pairwise (fun a b _ _ hab hba => ?_) hsorted h
  exact absurd (hab.trans hba) Before.irrefl

end SortedStore

end Store
