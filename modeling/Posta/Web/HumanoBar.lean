import Mathlib.Algebra.BigOperators.Ring.List
import Mathlib.Algebra.Order.BigOperators.Group.List
import Mathlib.Algebra.Order.Field.Rat
import Mathlib.Tactic.FieldSimp
import Mathlib.Tactic.Linarith
import Mathlib.Tactic.NormNum
import Mathlib.Tactic.Ring

/-!
# Widths of the segments of a bar

Four counts are drawn as the segments of one bar. A segment that would be too small to see is
raised to a floor, and the others pay for it in proportion to their own share. The arithmetic is
that of exact rationals.

**Donors** (`segmentWidths_donor`). All segments that are not raised are scaled by one factor
below 1, so a segment at or just above the floor falls below it.

**Theorem (`honestWidths_iff`).** The widths are honest exactly when no count lies between the
floor and the floor divided by that factor.
-/

namespace Posta.Web

inductive SegmentKey where
  | humano | bot | unfurler | prefetch
deriving DecidableEq

/-- `keys`, in the order of `SEGMENTS`. -/
def segmentKeys : List SegmentKey := [.humano, .bot, .unfurler, .prefetch]

structure HumanoBarProps (α : Type) where
  humano : α
  bot : α
  unfurler : α
  prefetch : α

/-- `props[key]`. -/
def HumanoBarProps.get {α : Type} (props : HumanoBarProps α) : SegmentKey → α
  | .humano => props.humano
  | .bot => props.bot
  | .unfurler => props.unfurler
  | .prefetch => props.prefetch

/-- A number; a finite one is exact. -/
inductive ExactNumber where
  | finite (value : ℚ)
  | nan
  | infinity (negative : Bool)

def minVisiblePct : ℚ := 3 / 2

def sanitizeCount : ExactNumber → ℚ
  | .finite value => if 0 < value then value else 0
  | .nan => 0
  | .infinity _ => 0

def sanitizeHumanoBarProps (rawProps : HumanoBarProps ExactNumber) : HumanoBarProps ℚ where
  humano := sanitizeCount rawProps.humano
  bot := sanitizeCount rawProps.bot
  unfurler := sanitizeCount rawProps.unfurler
  prefetch := sanitizeCount rawProps.prefetch

/-- `keys.reduce((sum, key) => sum + f(key), 0)`. -/
def sumOver (keys : List SegmentKey) (f : SegmentKey → ℚ) : ℚ :=
  keys.foldl (fun sum key => sum + f key) 0

def total (props : SegmentKey → ℚ) : ℚ := sumOver segmentKeys props

/-- The share of a count, in percent. -/
def raw (props : SegmentKey → ℚ) (key : SegmentKey) : ℚ := props key / total props * 100

def flooredKeys (props : SegmentKey → ℚ) : List SegmentKey :=
  segmentKeys.filter fun key => 0 < props key ∧ raw props key < minVisiblePct

def deficit (props : SegmentKey → ℚ) : ℚ :=
  sumOver (flooredKeys props) fun key => minVisiblePct - raw props key

def donorKeys (props : SegmentKey → ℚ) : List SegmentKey :=
  segmentKeys.filter fun key => key ∉ flooredKeys props

def donorTotal (props : SegmentKey → ℚ) : ℚ := sumOver (donorKeys props) (raw props)

/-- The widths of sanitized counts. -/
def segmentWidths (props : SegmentKey → ℚ) (key : SegmentKey) : ℚ :=
  if total props ≤ 0 then 0
  else if key ∈ flooredKeys props then minVisiblePct
  else if 0 < donorTotal props then
    raw props key - deficit props * (raw props key / donorTotal props)
  else raw props key

def computeSegmentWidths (rawProps : HumanoBarProps ExactNumber) : SegmentKey → ℚ :=
  segmentWidths (sanitizeHumanoBarProps rawProps).get

/-! ## Sums over keys -/

theorem foldl_add_eq (keys : List SegmentKey) (f : SegmentKey → ℚ) (start : ℚ) :
    keys.foldl (fun sum key => sum + f key) start = start + (keys.map f).sum := by
  induction keys generalizing start with
  | nil => simp
  | cons key keys ih => rw [List.foldl_cons, ih, List.map_cons, List.sum_cons, add_assoc]

theorem sumOver_eq (keys : List SegmentKey) (f : SegmentKey → ℚ) :
    sumOver keys f = (keys.map f).sum := by
  rw [sumOver, foldl_add_eq, zero_add]

theorem sumOver_mul (keys : List SegmentKey) (f : SegmentKey → ℚ) (c : ℚ) :
    sumOver keys (fun key => f key * c) = sumOver keys f * c := by
  rw [sumOver_eq, sumOver_eq, List.sum_map_mul_right]

theorem sumOver_congr {keys : List SegmentKey} {f g : SegmentKey → ℚ}
    (h : ∀ key ∈ keys, f key = g key) : sumOver keys f = sumOver keys g := by
  rw [sumOver_eq, sumOver_eq, List.map_congr_left h]

theorem sumOver_const (keys : List SegmentKey) (c : ℚ) :
    sumOver keys (fun _ => c) = keys.length * c := by
  rw [sumOver_eq, List.map_const', List.sum_replicate, nsmul_eq_mul]

theorem sumOver_sub (keys : List SegmentKey) (f g : SegmentKey → ℚ) :
    sumOver keys (fun key => f key - g key) = sumOver keys f - sumOver keys g := by
  simp only [sumOver_eq]
  induction keys with
  | nil => simp
  | cons key keys ih =>
    simp only [List.map_cons, List.sum_cons, ih]
    ring

/-- A sum over some keys and one over the others. -/
theorem sumOver_partition (keys : List SegmentKey) (p : SegmentKey → Prop) [DecidablePred p]
    (f : SegmentKey → ℚ) :
    sumOver (keys.filter p) f + sumOver (keys.filter fun key => ¬ p key) f = sumOver keys f := by
  simp only [sumOver_eq]
  induction keys with
  | nil => simp
  | cons key keys ih =>
    by_cases h : p key
    · simp only [List.filter_cons, h, decide_true, if_true, not_true, decide_false, if_false,
        List.map_cons, List.sum_cons, add_assoc, ih, Bool.false_eq_true]
    · simp only [List.filter_cons, h, decide_false, if_false, not_false_eq_true, decide_true,
        if_true, List.map_cons, List.sum_cons, Bool.false_eq_true]
      rw [add_left_comm, ih]

theorem mem_segmentKeys (key : SegmentKey) : key ∈ segmentKeys := by
  cases key <;> decide

/-! ## Shares -/

variable {props : SegmentKey → ℚ}

theorem mem_flooredKeys {key : SegmentKey} :
    key ∈ flooredKeys props ↔ 0 < props key ∧ raw props key < minVisiblePct := by
  rw [flooredKeys, List.mem_filter, decide_eq_true_eq]
  exact and_iff_right (mem_segmentKeys key)

theorem sumOver_raw (keys : List SegmentKey) :
    sumOver keys (raw props) = sumOver keys props * (100 / total props) := by
  rw [← sumOver_mul]
  apply sumOver_congr
  intro key _
  rw [raw]
  ring

theorem sum_raw (htotal : 0 < total props) : sumOver segmentKeys (raw props) = 100 := by
  rw [sumOver_raw, ← total]
  field_simp

/-- The segments that are raised, and the donors. -/
theorem sumOver_floored_add_donors (props f : SegmentKey → ℚ) :
    sumOver (flooredKeys props) f + sumOver (donorKeys props) f = sumOver segmentKeys f := by
  have hfloored : (segmentKeys.filter fun key => key ∈ flooredKeys props) = flooredKeys props := by
    apply List.filter_congr
    intro key _
    exact decide_eq_decide.mpr mem_flooredKeys
  have hpart := sumOver_partition segmentKeys (fun key => key ∈ flooredKeys props) f
  rw [hfloored] at hpart
  exact hpart

theorem donorTotal_eq (htotal : 0 < total props) :
    donorTotal props = 100 - sumOver (flooredKeys props) (raw props) := by
  rw [donorTotal, ← sum_raw htotal, ← sumOver_floored_add_donors props (raw props)]
  ring

theorem deficit_eq : deficit props =
    (flooredKeys props).length * minVisiblePct - sumOver (flooredKeys props) (raw props) := by
  rw [deficit, sumOver_sub, sumOver_const]

theorem length_flooredKeys_le (props : SegmentKey → ℚ) :
    ((flooredKeys props).length : ℚ) ≤ 4 := by
  have h : (flooredKeys props).length ≤ segmentKeys.length := List.length_filter_le _ _
  exact_mod_cast h

/-- What is left for the segments that are not raised. -/
def donorShare (props : SegmentKey → ℚ) : ℚ := 100 - (flooredKeys props).length * minVisiblePct

theorem donorShare_pos : 0 < donorShare props := by
  have hlength := length_flooredKeys_le props
  rw [donorShare, minVisiblePct]
  linarith

theorem sumOver_floored_le (props : SegmentKey → ℚ) :
    sumOver (flooredKeys props) (raw props) ≤ (flooredKeys props).length * minVisiblePct := by
  rw [← sumOver_const, sumOver_eq, sumOver_eq]
  apply List.sum_le_sum
  intro key hkey
  exact (mem_flooredKeys.mp hkey).2.le

theorem donorShare_le_donorTotal (htotal : 0 < total props) :
    donorShare props ≤ donorTotal props := by
  have hle := sumOver_floored_le props
  rw [donorTotal_eq htotal, donorShare]
  linarith

theorem donorTotal_pos (htotal : 0 < total props) : 0 < donorTotal props :=
  donorShare_pos.trans_le (donorShare_le_donorTotal htotal)

theorem segmentWidths_floored (htotal : 0 < total props) {key : SegmentKey}
    (hkey : key ∈ flooredKeys props) : segmentWidths props key = minVisiblePct := by
  rw [segmentWidths, if_neg (not_le.mpr htotal), if_pos hkey]

/-- Every other segment is scaled by the same factor. -/
theorem segmentWidths_donor (htotal : 0 < total props) {key : SegmentKey}
    (hkey : key ∉ flooredKeys props) :
    segmentWidths props key = raw props key * (donorShare props / donorTotal props) := by
  have hpos := donorTotal_pos htotal
  have hshare : donorTotal props - deficit props = donorShare props := by
    rw [donorTotal_eq htotal, deficit_eq, donorShare]
    ring
  rw [segmentWidths, if_neg (not_le.mpr htotal), if_neg hkey, if_pos hpos, ← hshare]
  field_simp

/-! ## Honest widths -/

/-- What the widths of a bar promise about its counts. -/
structure HonestWidths (props widths : SegmentKey → ℚ) : Prop where
  nonneg : ∀ key, 0 ≤ widths key
  sum : widths .humano + widths .bot + widths .unfurler + widths .prefetch = 100
  zero : ∀ key, props key = 0 → widths key = 0
  visible : ∀ key, props key ≠ 0 → minVisiblePct ≤ widths key
  monotone : ∀ key key', props key < props key' → widths key ≤ widths key'

theorem sum_segmentWidths (htotal : 0 < total props) :
    sumOver segmentKeys (segmentWidths props) = 100 := by
  have hpos := donorTotal_pos htotal
  have hfloored : sumOver (flooredKeys props) (segmentWidths props) =
      (flooredKeys props).length * minVisiblePct := by
    rw [← sumOver_const]
    exact sumOver_congr fun key hkey => segmentWidths_floored htotal hkey
  have hdonors : sumOver (donorKeys props) (segmentWidths props) = donorShare props := by
    have hscaled : sumOver (donorKeys props) (segmentWidths props) = sumOver (donorKeys props)
        fun key => raw props key * (donorShare props / donorTotal props) :=
      sumOver_congr fun key hkey => segmentWidths_donor htotal
        (of_decide_eq_true (List.mem_filter.mp hkey).2)
    rw [hscaled, sumOver_mul, ← donorTotal]
    field_simp
  rw [← sumOver_floored_add_donors props, hfloored, hdonors, donorShare]
  ring

/-- The counts below the floor, but not zero. -/
def smallKeys (props : SegmentKey → ℚ) : List SegmentKey :=
  segmentKeys.filter fun key => 0 < props key ∧ 200 * props key < 3 * total props

/-- No count that reaches the floor is below the floor of what the small counts leave. -/
def NoCountInBand (props : SegmentKey → ℚ) : Prop :=
  ∀ key, 3 * total props ≤ 200 * props key →
    3 * (total props - sumOver (smallKeys props) props) ≤
      (200 - 3 * (smallKeys props).length) * props key

theorem raw_lt_iff (htotal : 0 < total props) {key : SegmentKey} :
    raw props key < minVisiblePct ↔ 200 * props key < 3 * total props := by
  rw [raw, minVisiblePct, div_mul_eq_mul_div, div_lt_iff₀ htotal]
  constructor
  · intro h
    linarith
  · intro h
    linarith

theorem smallKeys_eq (htotal : 0 < total props) : smallKeys props = flooredKeys props := by
  apply List.filter_congr
  intro key _
  rw [decide_eq_decide, raw_lt_iff htotal]

theorem donor_visible_iff (htotal : 0 < total props) {key : SegmentKey} :
    minVisiblePct ≤ raw props key * (donorShare props / donorTotal props) ↔
      3 * (total props - sumOver (smallKeys props) props) ≤
        (200 - 3 * (smallKeys props).length) * props key := by
  have hrest : donorTotal props =
      (total props - sumOver (smallKeys props) props) * (100 / total props) := by
    rw [donorTotal_eq htotal, sumOver_raw, smallKeys_eq htotal]
    field_simp
  have hpos := donorTotal_pos htotal
  rw [hrest] at hpos
  have hleft : 0 < total props - sumOver (smallKeys props) props :=
    (mul_pos_iff_of_pos_right (div_pos (by norm_num) htotal)).mp hpos
  have hwidth : raw props key * (donorShare props / donorTotal props) =
      props key * donorShare props / (total props - sumOver (smallKeys props) props) := by
    rw [hrest, raw]
    field_simp
  rw [hwidth, le_div_iff₀ hleft, minVisiblePct, donorShare, ← smallKeys_eq htotal, minVisiblePct]
  constructor
  · intro h
    linarith
  · intro h
    linarith

theorem raw_mono (htotal : 0 < total props) {key key' : SegmentKey}
    (h : props key ≤ props key') : raw props key ≤ raw props key' := by
  rw [raw, raw]
  gcongr

/-- **Theorem (`honestWidths_iff`)**, for sanitized counts. -/
theorem honest_segmentWidths_iff (hprops : ∀ key, 0 ≤ props key) (htotal : 0 < total props) :
    HonestWidths props (segmentWidths props) ↔ NoCountInBand props := by
  have hfactor : 0 < donorShare props / donorTotal props :=
    div_pos donorShare_pos (donorTotal_pos htotal)
  constructor
  · intro h key hkey
    have hpositive : 0 < props key := by linarith
    have hdonor : key ∉ flooredKeys props := fun hm =>
      absurd ((raw_lt_iff htotal).mp (mem_flooredKeys.mp hm).2) (not_lt.mpr hkey)
    have hvisible := h.visible key hpositive.ne'
    rw [segmentWidths_donor htotal hdonor] at hvisible
    exact (donor_visible_iff htotal).mp hvisible
  · intro hband
    have hvisible : ∀ key, props key ≠ 0 → minVisiblePct ≤ segmentWidths props key := by
      intro key hne
      by_cases hkey : key ∈ flooredKeys props
      · exact (segmentWidths_floored htotal hkey).ge
      · rw [segmentWidths_donor htotal hkey]
        refine (donor_visible_iff htotal).mpr (hband key (not_lt.mp fun hlt => hkey ?_))
        exact mem_flooredKeys.mpr ⟨lt_of_le_of_ne (hprops key) hne.symm, (raw_lt_iff htotal).mpr hlt⟩
    have hdonor_of_zero : ∀ key, props key = 0 → segmentWidths props key = 0 := by
      intro key hzero
      have hdonor : key ∉ flooredKeys props := fun hm => by
        have := (mem_flooredKeys.mp hm).1
        linarith
      rw [segmentWidths_donor htotal hdonor, raw, hzero, zero_div, zero_mul, zero_mul]
    refine ⟨fun key => ?_, ?_, hdonor_of_zero, hvisible, fun key key' hlt => ?_⟩
    · by_cases hzero : props key = 0
      · exact (hdonor_of_zero key hzero).ge
      · exact le_trans (by norm_num [minVisiblePct]) (hvisible key hzero)
    · have hsum := sum_segmentWidths htotal
      rw [sumOver_eq] at hsum
      simp only [segmentKeys, List.map_cons, List.map_nil, List.sum_cons, List.sum_nil] at hsum
      linarith
    · have hpositive : 0 < props key' := lt_of_le_of_lt (hprops key) hlt
      by_cases hkey : key ∈ flooredKeys props
      · rw [segmentWidths_floored htotal hkey]
        exact hvisible key' hpositive.ne'
      · by_cases hkey' : key' ∈ flooredKeys props
        · -- A donor below a small count is zero.
          have hsmall := (mem_flooredKeys.mp hkey').2
          have hzero : props key = 0 := by
            by_contra hne
            exact hkey (mem_flooredKeys.mpr ⟨lt_of_le_of_ne (hprops key) (Ne.symm hne),
              lt_of_le_of_lt (raw_mono htotal hlt.le) hsmall⟩)
          rw [hdonor_of_zero key hzero, segmentWidths_floored htotal hkey']
          norm_num [minVisiblePct]
        · rw [segmentWidths_donor htotal hkey, segmentWidths_donor htotal hkey']
          exact mul_le_mul_of_nonneg_right (raw_mono htotal hlt.le) hfactor.le

theorem sanitizeCount_nonneg (value : ExactNumber) : 0 ≤ sanitizeCount value := by
  cases value with
  | finite value =>
    rw [sanitizeCount]
    split_ifs with h
    · exact h.le
    · exact le_rfl
  | nan => exact le_rfl
  | infinity negative => exact le_rfl

theorem sanitized_nonneg (rawProps : HumanoBarProps ExactNumber) (key : SegmentKey) :
    0 ≤ (sanitizeHumanoBarProps rawProps).get key := by
  cases key <;> exact sanitizeCount_nonneg _

/-- **Theorem (`honestWidths_iff`).** -/
theorem honestWidths_iff (rawProps : HumanoBarProps ExactNumber)
    (htotal : 0 < total (sanitizeHumanoBarProps rawProps).get) :
    HonestWidths (sanitizeHumanoBarProps rawProps).get (computeSegmentWidths rawProps) ↔
      NoCountInBand (sanitizeHumanoBarProps rawProps).get :=
  honest_segmentWidths_iff (sanitized_nonneg rawProps) htotal

theorem honestWidths_iff_small :
    0 < total (sanitizeHumanoBarProps ⟨.finite 9999, .finite 1, .nan, .finite (-3)⟩).get ∧
      (HonestWidths (sanitizeHumanoBarProps ⟨.finite 9999, .finite 1, .nan, .finite (-3)⟩).get
          (computeSegmentWidths ⟨.finite 9999, .finite 1, .nan, .finite (-3)⟩) ↔
        NoCountInBand (sanitizeHumanoBarProps ⟨.finite 9999, .finite 1, .nan, .finite (-3)⟩).get) := by
  have htotal : 0 < total
      (sanitizeHumanoBarProps ⟨.finite 9999, .finite 1, .nan, .finite (-3)⟩).get := by
    decide +kernel
  exact ⟨htotal, honestWidths_iff _ htotal⟩

/-- Three bots of two hundred clicks are exactly at the floor, and one unfurler is below it. -/
theorem not_honest_at_floor :
    0 < total (sanitizeHumanoBarProps ⟨.finite 196, .finite 3, .finite 1, .finite 0⟩).get ∧
      computeSegmentWidths ⟨.finite 196, .finite 3, .finite 1, .finite 0⟩ .bot <
        computeSegmentWidths ⟨.finite 196, .finite 3, .finite 1, .finite 0⟩ .unfurler ∧
      ¬ HonestWidths (sanitizeHumanoBarProps ⟨.finite 196, .finite 3, .finite 1, .finite 0⟩).get
        (computeSegmentWidths ⟨.finite 196, .finite 3, .finite 1, .finite 0⟩) := by
  refine ⟨by decide +kernel, by decide +kernel, fun h => ?_⟩
  have hvisible := h.visible .bot (by decide +kernel)
  exact absurd hvisible (by decide +kernel)

end Posta.Web
