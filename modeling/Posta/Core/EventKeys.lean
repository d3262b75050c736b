import Posta.Core.Platform

/-!
# Keys of the event log

An object of the log is named by the UTC day and hour of one event of its batch and by the id of
the batch: `events/dt=YYYY-MM-DD/hour=HH/<batchId>.ndjson`.

**Reading a key back.** Neither the day nor the hour contains a slash, and month, date and hour
take two digits, so a key determines all its parts (`eventKey_inj`), and a day and an hour are
told by their prefix (`partition_prefix`).

**Ranges** (`eventPrefixes`). The prefixes of all hours of the UTC days of a range. `Date.UTC`
reads the years 0 to 99 as 1900 to 1999, and with it this function.
-/

namespace Posta

open Js

/-- `zeroPad`. -/
def zeroPad (value length : Nat) : JsString := padStartZero length (natText value)

/-- `parseInstant`: the date, or the error that names the function and its parameter. -/
def parseInstant (P : Platform) (value fnName paramName : JsString) : Except Thrown Int :=
  match P.date value with
  | some t => .ok t
  | none => .error (.new (fnName ++ lit ": " ++ paramName ++
      lit " is not a valid ISO-8601 timestamp: \"" ++ value ++ lit "\""))

/-- `YYYY-MM-DD`; the year is not padded. -/
def dateText (c : Civil) : JsString :=
  intText c.year ++ (lit "-" ++ zeroPad (c.month + 1) 2) ++ (lit "-" ++ zeroPad c.date 2)

/-- The prefix of a day and an hour. -/
def partitionPrefix (c : Civil) (hour : Nat) : JsString :=
  lit "events/dt=" ++ dateText c ++ (lit "/hour=" ++ zeroPad hour 2 ++ lit "/")

/-- The key of a batch at an instant. -/
def eventKey (batchId : JsString) (t : Int) : JsString :=
  partitionPrefix (civilOfDay (dayOfTime t)) (hourOfTime t) ++ (batchId ++ lit ".ndjson")

def eventBatchKey (P : Platform) (batchId occurredAt : JsString) : Except Thrown JsString := do
  let parsed ← parseInstant P occurredAt (lit "eventBatchKey") (lit "occurredAt")
  return eventKey batchId parsed

/-- `Date.UTC(year, month, date)` of a civil date, in days. -/
def dateUtc (c : Civil) : Int :=
  dayOfCivil (if 0 ≤ c.year ∧ c.year ≤ 99 then { c with year := 1900 + c.year } else c)

/-- The day at which a range bound is read. -/
def rangeDay (t : Int) : Int := dateUtc (civilOfDay (dayOfTime t))

def maxRangeDays : Int := 3660

/-- The prefixes of the hours of a day. -/
def dayPrefixes (d : Int) : List JsString :=
  (List.range 24).map fun hour => partitionPrefix (civilOfDay d) hour

/-- The days from `first` to `last`. -/
def daysUpTo (first last : Int) : List Int :=
  (List.range (last - first + 1).toNat).map fun (i : Nat) => first + (i : Int)

def eventPrefixes (P : Platform) (range_from range_to : JsString) :
    Except Thrown (List JsString) := do
  let fromParsed ← parseInstant P range_from (lit "eventPrefixes") (lit "from")
  let toParsed ← parseInstant P range_to (lit "eventPrefixes") (lit "to")
  let fromDay := rangeDay fromParsed
  let toDay := rangeDay toParsed
  if toDay < fromDay then
    throw (.new (lit "eventPrefixes: from (\"" ++ range_from ++
      lit "\") falls on a UTC calendar day after to (\"" ++ range_to ++ lit "\")"))
  let rangeDays := toDay - fromDay + 1
  if maxRangeDays < rangeDays then
    throw (.new (lit "eventPrefixes: range from \"" ++ range_from ++ lit "\" to \"" ++ range_to ++
      lit "\" spans " ++ intText rangeDays ++ lit " UTC days, which exceeds the " ++
      intText maxRangeDays ++ lit "-day maximum (check for a typo in the year or century)"))
  return (daysUpTo fromDay toDay).flatMap dayPrefixes

theorem eventPrefixes_of_date {P : Platform} {range_from range_to : JsString} {t₁ t₂ : Int}
    (h₁ : P.date range_from = some t₁) (h₂ : P.date range_to = some t₂)
    (horder : rangeDay t₁ ≤ rangeDay t₂)
    (hlimit : rangeDay t₂ - rangeDay t₁ + 1 ≤ maxRangeDays) :
    eventPrefixes P range_from range_to =
      .ok ((daysUpTo (rangeDay t₁) (rangeDay t₂)).flatMap dayPrefixes) := by
  simp only [eventPrefixes, parseInstant, h₁, h₂]
  dsimp only [bind, Except.bind]
  rw [if_neg (not_lt.mpr horder), if_neg (not_lt.mpr hlimit)]
  rfl

/-! ## Reading a key back -/

theorem length_zeroPad_two : ∀ n < 100, (zeroPad n 2).length = 2 := by decide +kernel

theorem zeroPad_injective (length : Nat) : Function.Injective fun n => zeroPad n length :=
  fun a b h => by
  have := congrArg natValue h
  simpa [zeroPad, padStartZero, natValue_append] using this

theorem slash_not_mem_natText (n : Nat) : unit '/' ∉ natText n := fun h => by
  have := isDigit_of_mem_natText h
  exact absurd this (by decide)

theorem slash_not_mem_zeroPad (n length : Nat) : unit '/' ∉ zeroPad n length := by
  rw [zeroPad, padStartZero, List.mem_append, not_or]
  refine ⟨fun h => ?_, slash_not_mem_natText n⟩
  exact absurd (List.eq_of_mem_replicate h) (by decide)

theorem slash_not_mem_intText (z : Int) : unit '/' ∉ intText z := by
  cases z with
  | ofNat n => exact slash_not_mem_natText n
  | negSucc n =>
    rw [intText, List.mem_append, not_or]
    exact ⟨by decide, slash_not_mem_natText _⟩

theorem slash_not_mem_dateText (c : Civil) : unit '/' ∉ dateText c := by
  simp only [dateText, List.mem_append, not_or]
  exact ⟨⟨slash_not_mem_intText _, by decide, slash_not_mem_zeroPad _ _⟩, by decide,
    slash_not_mem_zeroPad _ _⟩

theorem intText_injective : Function.Injective intText := by
  intro a b h
  have hminus : ∀ n m, natText n ≠ lit "-" ++ natText m := fun n m h => by
    have hmem : unit '-' ∈ natText n := h ▸ List.mem_cons_self
    exact absurd (isDigit_of_mem_natText hmem) (by decide)
  cases a with
  | ofNat a =>
    cases b with
    | ofNat b => rw [natText_injective h]
    | negSucc b => exact absurd h (hminus _ _)
  | negSucc a =>
    cases b with
    | ofNat b => exact absurd h.symm (hminus _ _)
    | negSucc b =>
      have := natText_injective (List.append_cancel_left h)
      rw [Nat.succ_injective this]

/-- What stands before the first slash is determined. -/
theorem eq_of_append_slash {x x' r r' : JsString} (hx : unit '/' ∉ x) (hx' : unit '/' ∉ x')
    (h : x ++ unit '/' :: r = x' ++ unit '/' :: r') : x = x' ∧ r = r' := by
  induction x generalizing x' with
  | nil =>
    cases x' with
    | nil => exact ⟨rfl, by simpa using h⟩
    | cons c x' =>
      rw [List.nil_append, List.cons_append, List.cons.injEq] at h
      exact absurd (h.1 ▸ List.mem_cons_self) hx'
  | cons c x ih =>
    cases x' with
    | nil =>
      rw [List.nil_append, List.cons_append, List.cons.injEq] at h
      exact absurd (h.1 ▸ List.mem_cons_self) hx
    | cons d x' =>
      rw [List.cons_append, List.cons_append, List.cons.injEq] at h
      obtain ⟨rfl, rfl⟩ := ih (fun hm => hx (List.mem_cons_of_mem _ hm))
        (fun hm => hx' (List.mem_cons_of_mem _ hm)) h.2
      exact ⟨by rw [h.1], rfl⟩

/-- A calendar date with the two-digit fields of a real one. -/
def Civil.TwoDigits (c : Civil) : Prop := c.month < 99 ∧ c.date < 100

theorem civilOfDay_twoDigits (d : Int) : Civil.TwoDigits (civilOfDay d) := by
  obtain ⟨hm, -, hd, -⟩ := civilOfDay_spec d
  exact ⟨by omega, by omega⟩

theorem dateText_inj {c c' : Civil} (hc : Civil.TwoDigits c) (hc' : Civil.TwoDigits c')
    (h : dateText c = dateText c') : c = c' := by
  have hlen : ∀ n < 100, (lit "-" ++ zeroPad n 2).length = 3 := fun n hn => by
    rw [List.length_append, length_zeroPad_two n hn]
    rfl
  obtain ⟨h₁, hdate⟩ := List.append_inj' h (by rw [hlen _ hc.2, hlen _ hc'.2])
  obtain ⟨hyear, hmonth⟩ := List.append_inj' h₁
    (by rw [hlen _ (by have := hc.1; omega), hlen _ (by have := hc'.1; omega)])
  have hm := zeroPad_injective 2 (List.append_cancel_left hmonth)
  have hd := zeroPad_injective 2 (List.append_cancel_left hdate)
  cases c
  cases c'
  simp only [Civil.mk.injEq]
  exact ⟨intText_injective hyear, by simpa using hm, hd⟩

/-- **A day and an hour are determined by their prefix**, and so is what follows it. -/
theorem partitionPrefix_inj {c c' : Civil} {hour hour' : Nat} {r r' : JsString}
    (hc : Civil.TwoDigits c) (hc' : Civil.TwoDigits c')
    (h : partitionPrefix c hour ++ r = partitionPrefix c' hour' ++ r') :
    c = c' ∧ hour = hour' ∧ r = r' := by
  simp only [partitionPrefix, List.append_assoc] at h
  have h : dateText c ++ unit '/' :: (lit "hour=" ++ (zeroPad hour 2 ++ (lit "/" ++ r))) =
      dateText c' ++ unit '/' :: (lit "hour=" ++ (zeroPad hour' 2 ++ (lit "/" ++ r'))) :=
    List.append_cancel_left h
  obtain ⟨hdate, h⟩ := eq_of_append_slash (slash_not_mem_dateText c) (slash_not_mem_dateText c') h
  have h := List.append_cancel_left h
  obtain ⟨hhour, hr⟩ := eq_of_append_slash (slash_not_mem_zeroPad _ _) (slash_not_mem_zeroPad _ _) h
  exact ⟨dateText_inj hc hc' hdate, zeroPad_injective 2 hhour, hr⟩

/-- **A key determines the id of its batch**, and the day and hour of its instant. -/
theorem eventKey_inj {batchId batchId' : JsString} {t t' : Int}
    (h : eventKey batchId t = eventKey batchId' t') :
    dayOfTime t = dayOfTime t' ∧ hourOfTime t = hourOfTime t' ∧ batchId = batchId' := by
  obtain ⟨hday, hhour, hid⟩ := partitionPrefix_inj (civilOfDay_twoDigits _)
    (civilOfDay_twoDigits _) h
  exact ⟨civilOfDay_injective hday, hhour, List.append_cancel_right hid⟩

theorem eventBatchKey_ok {P : Platform} {batchId occurredAt key : JsString} :
    eventBatchKey P batchId occurredAt = .ok key ↔
      ∃ t, P.date occurredAt = some t ∧ key = eventKey batchId t := by
  simp only [eventBatchKey, parseInstant]
  cases h : P.date occurredAt with
  | none => exact ⟨nofun, nofun⟩
  | some t =>
    refine ⟨fun h => ⟨t, rfl, ?_⟩, fun ⟨t', ht', hk⟩ => ?_⟩
    · cases h
      rfl
    · cases ht'
      rw [hk]
      rfl

/-- The keys of two batches differ, whatever their instants are. -/
theorem eventBatchKey_ne {P : Platform} {batchId batchId' occurredAt occurredAt' key key' : JsString}
    (hne : batchId ≠ batchId') (h : eventBatchKey P batchId occurredAt = .ok key)
    (h' : eventBatchKey P batchId' occurredAt' = .ok key') : key ≠ key' := by
  obtain ⟨t, -, rfl⟩ := eventBatchKey_ok.mp h
  obtain ⟨t', -, rfl⟩ := eventBatchKey_ok.mp h'
  exact fun hk => hne (eventKey_inj hk).2.2

/-! ## Coverage of a range -/

theorem mem_daysUpTo {first last d : Int} : d ∈ daysUpTo first last ↔ first ≤ d ∧ d ≤ last := by
  simp only [daysUpTo, List.mem_map, List.mem_range]
  constructor
  · rintro ⟨i, hi, rfl⟩
    omega
  · intro h
    exact ⟨(d - first).toNat, by omega, by omega⟩

/-- The prefix of a day and an hour starts a key of that day and hour, and no other. -/
theorem events_prefix_eventKey (batchId : JsString) (t : Int) :
    lit "events/" <+: eventKey batchId t := by
  rw [eventKey, partitionPrefix]
  exact ⟨_, by simp only [List.append_assoc]; rfl⟩

theorem partitionPrefix_starts {d : Int} {hour : Nat} {batchId : JsString} {t : Int} :
    partitionPrefix (civilOfDay d) hour <+: eventKey batchId t ↔
      d = dayOfTime t ∧ hour = hourOfTime t := by
  constructor
  · rintro ⟨r, hr⟩
    obtain ⟨hday, hhour, -⟩ := partitionPrefix_inj (civilOfDay_twoDigits _)
      (civilOfDay_twoDigits _) hr
    exact ⟨civilOfDay_injective hday, hhour⟩
  · rintro ⟨rfl, rfl⟩
    exact List.prefix_append _ _

/-- **A key lies under the prefixes of a range** exactly when its day lies in the range, the
bounds read by `Date.UTC`. -/
theorem covered_iff {P : Platform} {range_from range_to : JsString} {prefixes : List JsString}
    (h : eventPrefixes P range_from range_to = .ok prefixes) :
    ∃ t₁ t₂, P.date range_from = some t₁ ∧ P.date range_to = some t₂ ∧
      rangeDay t₁ ≤ rangeDay t₂ ∧ ∀ batchId t,
        (∃ p ∈ prefixes, p <+: eventKey batchId t) ↔
          rangeDay t₁ ≤ dayOfTime t ∧ dayOfTime t ≤ rangeDay t₂ := by
  simp only [eventPrefixes, parseInstant] at h
  cases h₁ : P.date range_from with
  | none => rw [h₁] at h; cases h
  | some t₁ =>
    rw [h₁] at h
    cases h₂ : P.date range_to with
    | none => rw [h₂] at h; cases h
    | some t₂ =>
      rw [h₂] at h
      dsimp only [bind, Except.bind] at h
      split_ifs at h with horder hlimit
      cases h
      refine ⟨t₁, t₂, rfl, rfl, not_lt.mp horder, fun batchId t => ?_⟩
      constructor
      · rintro ⟨p, hp, hpre⟩
        obtain ⟨d, hd, hp⟩ := List.mem_flatMap.mp hp
        obtain ⟨hour, -, rfl⟩ := List.mem_map.mp hp
        obtain ⟨rfl, -⟩ := partitionPrefix_starts.mp hpre
        exact mem_daysUpTo.mp hd
      · intro hd
        refine ⟨partitionPrefix (civilOfDay (dayOfTime t)) (hourOfTime t), ?_,
          partitionPrefix_starts.mpr ⟨rfl, rfl⟩⟩
        exact List.mem_flatMap.mpr ⟨dayOfTime t, mem_daysUpTo.mpr hd, List.mem_map.mpr
          ⟨hourOfTime t, List.mem_range.mpr (hourOfTime_lt t), rfl⟩⟩

example : eventKey (lit "01J") 1784678399500 =
    lit "events/dt=2026-07-21/hour=23/01J.ndjson" := by decide

end Posta
