import Posta.Core.EventKeys

/-!
# The prefixes of a range against the keys of the log

The writer turns one instant into a key, the reader turns a range of days into prefixes.

**Prefixes.** A prefix of the list starts the keys of one hour of one day; no prefix starts
another, and the hours come in order of time (`mem_hourPrefixes`, `hourPrefixes_sorted`).

**Bounds.** `Date.UTC` moves an instant of the years 0 to 99 by nineteen centuries, and no other
instant (`rangeDay_eq_iff`).

**Theorem (`inverse_iff`).** The prefixes of an accepted range are the inverse of the writer
exactly when neither bound falls in one of the years 0 to 99.
-/

namespace Posta

open Js

/-! ## Days and hours -/

/-- The prefixes of the hours of the days from `first` to `last`. -/
def hourPrefixes (first last : Int) : List JsString := (daysUpTo first last).flatMap dayPrefixes

theorem mem_hourPrefixes {first last : Int} {p : JsString} :
    p ∈ hourPrefixes first last ↔ ∃ d hour, (first ≤ d ∧ d ≤ last) ∧ hour < 24 ∧
      p = partitionPrefix (civilOfDay d) hour := by
  simp only [hourPrefixes, List.mem_flatMap, mem_daysUpTo, dayPrefixes, List.mem_map,
    List.mem_range]
  constructor
  · rintro ⟨d, hd, hour, hhour, hp⟩
    exact ⟨d, hour, hd, hhour, hp.symm⟩
  · rintro ⟨d, hour, hd, hhour, hp⟩
    exact ⟨d, hd, hour, hhour, hp.symm⟩

theorem length_hourPrefixes (first last : Int) :
    (hourPrefixes first last).length = 24 * (last - first + 1).toNat := by
  have hday : ∀ d, (dayPrefixes d).length = 24 := fun d => by
    rw [dayPrefixes, List.length_map, List.length_range]
  rw [hourPrefixes, List.length_flatMap, funext hday, List.map_const',
    List.sum_replicate_nat, daysUpTo, List.length_map, List.length_range, mul_comm]

/-- The first instant of an hour of a day. -/
def hourStart (d : Int) (hour : Nat) : Int := d * msPerDay + hour * 3600000

theorem dayOfTime_hourStart (d : Int) {hour : Nat} (hhour : hour < 24) :
    dayOfTime (hourStart d hour) = d := by
  unfold dayOfTime hourStart msPerDay
  omega

theorem hourOfTime_hourStart (d : Int) {hour : Nat} (hhour : hour < 24) :
    hourOfTime (hourStart d hour) = hour := by
  unfold hourOfTime hourStart msPerDay
  omega

/-- No prefix of an hour starts the prefix of another. -/
theorem partitionPrefix_prefix {d d' : Int} {hour hour' : Nat} (hhour : hour' < 24)
    (h : partitionPrefix (civilOfDay d) hour <+: partitionPrefix (civilOfDay d') hour') :
    d = d' ∧ hour = hour' := by
  have hkey : partitionPrefix (civilOfDay d') hour' <+: eventKey [] (hourStart d' hour') :=
    partitionPrefix_starts.mpr
      ⟨(dayOfTime_hourStart d' hhour).symm, (hourOfTime_hourStart d' hhour).symm⟩
  obtain ⟨hd, hh⟩ := partitionPrefix_starts.mp (h.trans hkey)
  exact ⟨hd.trans (dayOfTime_hourStart d' hhour), hh.trans (hourOfTime_hourStart d' hhour)⟩

/-! ## Order -/

theorem lt_of_day_lt {t t' : Int} (h : dayOfTime t < dayOfTime t') : t < t' := by
  unfold dayOfTime msPerDay at h
  omega

theorem lt_of_hour_lt {t t' : Int} (hday : dayOfTime t = dayOfTime t')
    (h : hourOfTime t < hourOfTime t') : t < t' := by
  unfold dayOfTime msPerDay at hday
  unfold hourOfTime msPerDay at h
  omega

/-- Whatever is stored under `p` happened before what is stored under `p'`. -/
def Earlier (p p' : JsString) : Prop :=
  ∀ batchId batchId' t t', p <+: eventKey batchId t → p' <+: eventKey batchId' t' → t < t'

theorem dayPrefixes_sorted (d : Int) : (dayPrefixes d).Pairwise Earlier := by
  rw [dayPrefixes, List.pairwise_map]
  apply List.Pairwise.imp _ List.pairwise_lt_range
  intro hour hour' hlt batchId batchId' t t' h h'
  obtain ⟨hd, hh⟩ := partitionPrefix_starts.mp h
  obtain ⟨hd', hh'⟩ := partitionPrefix_starts.mp h'
  exact lt_of_hour_lt (hd.symm.trans hd') (by omega)

theorem daysUpTo_sorted (first last : Int) : (daysUpTo first last).Pairwise (· < ·) := by
  rw [daysUpTo, List.pairwise_map]
  apply List.Pairwise.imp _ List.pairwise_lt_range
  intro i j hlt
  omega

theorem hourPrefixes_sorted (first last : Int) : (hourPrefixes first last).Pairwise Earlier := by
  rw [hourPrefixes, List.pairwise_flatMap]
  refine ⟨fun d _ => dayPrefixes_sorted d, ?_⟩
  apply List.Pairwise.imp _ (daysUpTo_sorted first last)
  intro d d' hlt p hp p' hp' batchId batchId' t t' h h'
  obtain ⟨hour, -, rfl⟩ := List.mem_map.mp hp
  obtain ⟨hour', -, rfl⟩ := List.mem_map.mp hp'
  obtain ⟨hd, -⟩ := partitionPrefix_starts.mp h
  obtain ⟨hd', -⟩ := partitionPrefix_starts.mp h'
  exact lt_of_day_lt (by omega)

theorem nodup_hourPrefixes (first last : Int) : (hourPrefixes first last).Nodup := by
  apply List.Pairwise.imp_of_mem _ (hourPrefixes_sorted first last)
  intro p p' hp hp' hlt heq
  obtain ⟨d, hour, -, hhour, rfl⟩ := mem_hourPrefixes.mp hp
  have hkey : partitionPrefix (civilOfDay d) hour <+: eventKey [] (hourStart d hour) :=
    partitionPrefix_starts.mpr
      ⟨(dayOfTime_hourStart d hhour).symm, (hourOfTime_hourStart d hhour).symm⟩
  exact lt_irrefl _ (hlt [] [] _ _ hkey (heq ▸ hkey))

/-! ## The days of the bounds -/

/-- The instant falls in one of the UTC years 0 to 99. -/
def twoDigitYear (t : Int) : Prop :=
  0 ≤ (civilOfDay (dayOfTime t)).year ∧ (civilOfDay (dayOfTime t)).year ≤ 99

instance (t : Int) : Decidable (twoDigitYear t) := inferInstanceAs (Decidable (_ ∧ _))

theorem daysBeforeMonth_le_succ (leap leap' : Bool) (m : Nat) :
    daysBeforeMonth leap m ≤ daysBeforeMonth leap' m + 1 := by
  unfold daysBeforeMonth
  split_ifs <;> omega

theorem daysBeforeYear_add_1900 (y : Int) :
    daysBeforeYear y + 600000 < daysBeforeYear (1900 + y) := by
  unfold daysBeforeYear
  omega

theorem rangeDay_of_not_twoDigitYear {t : Int} (h : ¬ twoDigitYear t) :
    rangeDay t = dayOfTime t := by
  rw [twoDigitYear] at h
  rw [rangeDay, dateUtc, if_neg h, dayOfCivil_civilOfDay]

theorem dayOfTime_lt_rangeDay {t : Int} (h : twoDigitYear t) : dayOfTime t < rangeDay t := by
  have hd := dayOfCivil_civilOfDay (dayOfTime t)
  rw [twoDigitYear] at h
  rw [rangeDay, dateUtc, if_pos h]
  unfold dayOfCivil at hd ⊢
  have hyear := daysBeforeYear_add_1900 (civilOfDay (dayOfTime t)).year
  have hmonth := daysBeforeMonth_le_succ (isLeapYear (civilOfDay (dayOfTime t)).year)
    (isLeapYear (1900 + (civilOfDay (dayOfTime t)).year)) (civilOfDay (dayOfTime t)).month
  dsimp only
  omega

theorem dayOfTime_le_rangeDay (t : Int) : dayOfTime t ≤ rangeDay t := by
  by_cases h : twoDigitYear t
  · exact (dayOfTime_lt_rangeDay h).le
  · exact (rangeDay_of_not_twoDigitYear h).ge

/-- `Date.UTC` gives the day of an instant back outside the years 0 to 99. -/
theorem rangeDay_eq_iff {t : Int} : rangeDay t = dayOfTime t ↔ ¬ twoDigitYear t :=
  ⟨fun h hy => (dayOfTime_lt_rangeDay hy).ne' h, rangeDay_of_not_twoDigitYear⟩

/-! ## Writer and reader -/

/-- The writer names the object of a batch by `key` at an instant. -/
def WritesAt (P : Platform) (batchId : JsString) (t : Int) (key : JsString) : Prop :=
  ∃ occurredAt, P.date occurredAt = some t ∧ eventBatchKey P batchId occurredAt = .ok key

/-- The prefixes read back what the writer stores from the day of `t₁` to the day of `t₂`. -/
structure Inverse (P : Platform) (t₁ t₂ : Int) (prefixes : List JsString) : Prop where
  /-- One prefix, and no other, starts the key of an instant of the range. -/
  covered : ∀ batchId t key, WritesAt P batchId t key →
    dayOfTime t₁ ≤ dayOfTime t → dayOfTime t ≤ dayOfTime t₂ → ∃! p, p ∈ prefixes ∧ p <+: key
  /-- No prefix starts the key of another instant. -/
  outside : ∀ batchId t key, WritesAt P batchId t key →
    ¬ (dayOfTime t₁ ≤ dayOfTime t ∧ dayOfTime t ≤ dayOfTime t₂) → ∀ p ∈ prefixes, ¬ p <+: key
  distinct : prefixes.Nodup
  separate : ∀ p ∈ prefixes, ∀ p' ∈ prefixes, p <+: p' → p = p'
  count : (prefixes.length : Int) = 24 * (dayOfTime t₂ - dayOfTime t₁ + 1)
  chronological : prefixes.Pairwise Earlier

theorem eventPrefixes_ok {P : Platform} {range_from range_to : JsString} {t₁ t₂ : Int}
    {prefixes : List JsString} (h₁ : P.date range_from = some t₁)
    (h₂ : P.date range_to = some t₂) (h : eventPrefixes P range_from range_to = .ok prefixes) :
    rangeDay t₁ ≤ rangeDay t₂ ∧ prefixes = hourPrefixes (rangeDay t₁) (rangeDay t₂) := by
  simp only [eventPrefixes, parseInstant, h₁, h₂] at h
  dsimp only [bind, Except.bind] at h
  split_ifs at h with horder hlimit
  cases h
  exact ⟨not_lt.mp horder, rfl⟩

theorem writesAt_iff {P : Platform} {batchId key : JsString} {t : Int} :
    WritesAt P batchId t key ↔ (∃ text, P.date text = some t) ∧ key = eventKey batchId t := by
  constructor
  · rintro ⟨occurredAt, ht, hkey⟩
    obtain ⟨t', ht', hkey⟩ := eventBatchKey_ok.mp hkey
    rw [ht, Option.some.injEq] at ht'
    exact ⟨⟨occurredAt, ht⟩, ht' ▸ hkey⟩
  · rintro ⟨⟨text, ht⟩, hkey⟩
    exact ⟨text, ht, eventBatchKey_ok.mpr ⟨t, ht, hkey⟩⟩

theorem inverse_hourPrefixes (P : Platform) {t₁ t₂ : Int} (h : dayOfTime t₁ ≤ dayOfTime t₂) :
    Inverse P t₁ t₂ (hourPrefixes (dayOfTime t₁) (dayOfTime t₂)) := by
  refine ⟨fun batchId t key hw hlo hhi => ?_, fun batchId t key hw hout p hp hpre => ?_,
    nodup_hourPrefixes _ _, fun p hp p' hp' hpre => ?_, ?_, hourPrefixes_sorted _ _⟩
  · obtain ⟨-, rfl⟩ := writesAt_iff.mp hw
    refine ⟨partitionPrefix (civilOfDay (dayOfTime t)) (hourOfTime t),
      ⟨mem_hourPrefixes.mpr ⟨_, _, ⟨hlo, hhi⟩, hourOfTime_lt t, rfl⟩,
        partitionPrefix_starts.mpr ⟨rfl, rfl⟩⟩, fun p hp => ?_⟩
    obtain ⟨d, hour, -, -, rfl⟩ := mem_hourPrefixes.mp hp.1
    obtain ⟨rfl, rfl⟩ := partitionPrefix_starts.mp hp.2
    rfl
  · obtain ⟨-, rfl⟩ := writesAt_iff.mp hw
    obtain ⟨d, hour, hd, -, rfl⟩ := mem_hourPrefixes.mp hp
    obtain ⟨rfl, -⟩ := partitionPrefix_starts.mp hpre
    exact hout hd
  · obtain ⟨d, hour, -, -, rfl⟩ := mem_hourPrefixes.mp hp
    obtain ⟨d', hour', -, hhour', rfl⟩ := mem_hourPrefixes.mp hp'
    obtain ⟨rfl, rfl⟩ := partitionPrefix_prefix hhour' hpre
    rfl
  · rw [length_hourPrefixes]
    omega

/-- **Theorem (`inverse_iff`).** The prefixes of an accepted range are the inverse of the writer
exactly when neither bound falls in one of the years 0 to 99. -/
theorem inverse_iff {P : Platform} {range_from range_to : JsString} {t₁ t₂ : Int}
    {prefixes : List JsString} (h₁ : P.date range_from = some t₁)
    (h₂ : P.date range_to = some t₂) (h : eventPrefixes P range_from range_to = .ok prefixes) :
    Inverse P t₁ t₂ prefixes ↔ ¬ twoDigitYear t₁ ∧ ¬ twoDigitYear t₂ := by
  obtain ⟨horder, rfl⟩ := eventPrefixes_ok h₁ h₂ h
  constructor
  · intro hinv
    -- The count fixes the length of the range, and the key of `t₁` its beginning.
    have hcount := hinv.count
    rw [length_hourPrefixes] at hcount
    have hwrites : WritesAt P [] t₁ (eventKey [] t₁) :=
      writesAt_iff.mpr ⟨⟨range_from, h₁⟩, rfl⟩
    obtain ⟨p, ⟨hp, hpre⟩, -⟩ := hinv.covered [] t₁ _ hwrites le_rfl (by omega)
    obtain ⟨d, hour, hd, -, rfl⟩ := mem_hourPrefixes.mp hp
    obtain ⟨rfl, -⟩ := partitionPrefix_starts.mp hpre
    have hfrom : rangeDay t₁ = dayOfTime t₁ := le_antisymm hd.1 (dayOfTime_le_rangeDay t₁)
    have hto : rangeDay t₂ = dayOfTime t₂ := by omega
    exact ⟨rangeDay_eq_iff.mp hfrom, rangeDay_eq_iff.mp hto⟩
  · rintro ⟨hfrom, hto⟩
    rw [rangeDay_of_not_twoDigitYear hfrom, rangeDay_of_not_twoDigitYear hto] at horder ⊢
    exact inverse_hourPrefixes P horder

theorem inverse_iff_leapDay :
    ∃ t₁ t₂ prefixes, Platform.plain.date (lit "2024-02-28T10:00Z") = some t₁ ∧
      Platform.plain.date (lit "2024-03-01T09:00Z") = some t₂ ∧
      eventPrefixes Platform.plain (lit "2024-02-28T10:00Z") (lit "2024-03-01T09:00Z") =
        .ok prefixes ∧
      (Inverse Platform.plain t₁ t₂ prefixes ↔ ¬ twoDigitYear t₁ ∧ ¬ twoDigitYear t₂) := by
  have h₁ : Platform.plain.date (lit "2024-02-28T10:00Z") = some 1709114400000 := by decide +kernel
  have h₂ : Platform.plain.date (lit "2024-03-01T09:00Z") = some 1709283600000 := by decide +kernel
  have h := eventPrefixes_of_date h₁ h₂ (by decide +kernel) (by decide +kernel)
  exact ⟨_, _, _, h₁, h₂, h, inverse_iff h₁ h₂ h⟩

/-- A range of one day of the year 50 is accepted, and its keys are under none of its prefixes. -/
theorem not_inverse_first_century :
    ∃ t prefixes key, Platform.plain.date (lit "0050-01-01T00:00:00.000Z") = some t ∧
      eventPrefixes Platform.plain (lit "0050-01-01T00:00:00.000Z")
        (lit "0050-01-01T00:00:00.000Z") = .ok prefixes ∧
      eventBatchKey Platform.plain (lit "01J") (lit "0050-01-01T00:00:00.000Z") = .ok key ∧
      (∀ p ∈ prefixes, ¬ p <+: key) ∧ ¬ Inverse Platform.plain t t prefixes := by
  have ht : Platform.plain.date (lit "0050-01-01T00:00:00.000Z") = some (-60589296000000) := by
    decide +kernel
  have h := eventPrefixes_of_date ht ht (by decide +kernel) (by decide +kernel)
  have hkey := eventBatchKey_ok.mpr ⟨_, ht, (rfl : eventKey (lit "01J") _ = _)⟩
  have hnone : ∀ p ∈ (daysUpTo (rangeDay (-60589296000000)) (rangeDay (-60589296000000))).flatMap
      dayPrefixes, ¬ p <+: eventKey (lit "01J") (-60589296000000) := by
    intro p hp hpre
    obtain ⟨d, hour, hd, -, rfl⟩ := mem_hourPrefixes.mp hp
    obtain ⟨rfl, -⟩ := partitionPrefix_starts.mp hpre
    exact absurd hd.1 (by decide +kernel)
  refine ⟨_, _, _, ht, h, hkey, hnone, fun hinv => ?_⟩
  obtain ⟨p, ⟨hp, hpre⟩, -⟩ := hinv.covered _ _ _ ⟨_, ht, hkey⟩ le_rfl le_rfl
  exact hnone p hp hpre

end Posta
