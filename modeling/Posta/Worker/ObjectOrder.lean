import Posta.Core.EventLog
import Posta.Core.EventPrefixes
import Posta.Lists.Lexicographic
import Posta.Store.Listing
import Posta.Worker.BatchIds

/-!
# The order of the objects of the log

**Objects** (`LogObject`). An object is that of a sub-batch, filed under the hour of its first
event.

**Walk** (`Precedes`). Batch after batch, and within a batch every sub-batch before its halves.

**Keys.** Within an hour, the keys of the walk increase, with one exception (`key_lt_of_inside`):
the extension `.ndjson` comes after `.0` and `.1`, so a sub-batch has a greater key than its
halves. Keys are made of ASCII characters, for which the order of code units is that of bytes.

**Theorem (`before_key_iff`).** Through the prefixes of a range of days, objects are listed by
hour, and then by key.
-/

namespace Posta

open Js Store.SortedStore

structure LogObject where
  root : Ulid
  node : Node
  time : Int

namespace LogObject

def key (o : LogObject) : JsString := eventKey (nodeId o.root.1 o.node) o.time

/-- The hour, counted from the epoch. -/
def hour (o : LogObject) : Int := o.time / 3600000

/-- The object comes first in a walk through batches and sub-batches. -/
def Precedes (o o' : LogObject) : Prop :=
  o.root.1 < o'.root.1 ∨ (o.root = o'.root ∧ o.node < o'.node)

/-- The second object is that of a part of the first one's batch. -/
def Inside (o o' : LogObject) : Prop := o.root = o'.root ∧ o.node <+: o'.node

variable {o o' : LogObject}

theorem hour_eq_iff : o.hour = o'.hour ↔
    dayOfTime o.time = dayOfTime o'.time ∧ hourOfTime o.time = hourOfTime o'.time := by
  unfold hour dayOfTime hourOfTime msPerDay
  omega

theorem hour_le_of_time_lt (h : o.time < o'.time) : o.hour ≤ o'.hour := by
  unfold hour
  omega

/-- A key determines the sub-batch and the hour. -/
theorem key_inj (h : o.key = o'.key) : o.hour = o'.hour ∧ o.root = o'.root ∧ o.node = o'.node := by
  obtain ⟨hday, hhour, hid⟩ := eventKey_inj h
  exact ⟨hour_eq_iff.mpr ⟨hday, hhour⟩, nodeId_inj hid⟩

/-! ## Keys of one hour -/

/-- A half's suffix comes before the extension. -/
theorem suffix_lt_extension (b : Bool) (node : Node) :
    nodeSuffix (b :: node) ++ lit ".ndjson" < lit ".ndjson" := by
  have hext : lit ".ndjson" = lit ".n" ++ lit "djson" := by decide
  cases b with
  | false =>
    have h : lit ".0" < lit ".n" := by decide
    rw [nodeSuffix, List.append_assoc]
    exact hext ▸ Lists.append_lt_append h rfl _ _
  | true =>
    have h : lit ".1" < lit ".n" := by decide
    rw [nodeSuffix, List.append_assoc]
    exact hext ▸ Lists.append_lt_append h rfl _ _

theorem suffix_left_lt_right (p q : Node) (extension : JsString) :
    nodeSuffix (false :: p) ++ extension < nodeSuffix (true :: q) ++ extension := by
  have h : lit ".0" < lit ".1" := by decide
  rw [nodeSuffix, nodeSuffix, List.append_assoc, List.append_assoc]
  exact Lists.append_lt_append h rfl _ _

/-- Within an hour, keys are compared by their ids and the extension. -/
theorem key_lt_of_id (hhour : o.hour = o'.hour)
    (h : nodeId o.root.1 o.node ++ lit ".ndjson" < nodeId o'.root.1 o'.node ++ lit ".ndjson") :
    o.key < o'.key := by
  obtain ⟨hday, hhour⟩ := hour_eq_iff.mp hhour
  rw [key, key, eventKey, eventKey, hday, hhour]
  exact List.append_left_lt h

/-- The halves of a sub-batch have smaller keys than the sub-batch. -/
theorem key_lt_of_inside (hhour : o.hour = o'.hour) (h : Inside o o') (hne : o.node ≠ o'.node) :
    o'.key < o.key := by
  obtain ⟨hroot, r, hr⟩ := h
  cases r with
  | nil => exact absurd (by rw [← hr, List.append_nil]) hne
  | cons b r =>
    refine key_lt_of_id hhour.symm ?_
    have hid : nodeId o'.root.1 o'.node = nodeId o.root.1 o.node ++ nodeSuffix (b :: r) := by
      rw [← hroot, ← hr, nodeId_append]
      rfl
    rw [hid, List.append_assoc]
    exact List.append_left_lt (suffix_lt_extension b r)

/-- Otherwise the keys increase along the walk. -/
theorem key_lt_of_precedes (hhour : o.hour = o'.hour) (h : Precedes o o') (hout : ¬Inside o o') :
    o.key < o'.key := by
  refine key_lt_of_id hhour ?_
  obtain h | ⟨hroot, h⟩ := h
  · have hlen : o.root.1.length = o'.root.1.length := by rw [length_root, length_root]
    rw [nodeId, nodeId, List.append_assoc, List.append_assoc]
    exact Lists.append_lt_append h hlen _ _
  · obtain ⟨hpre, -⟩ | ⟨r, p, q, hp, hq⟩ := Lists.lt_path_iff.mp h
    · exact absurd ⟨hroot, hpre⟩ hout
    · have hid : ∀ node node', nodeId o'.root.1 (node ++ node') =
          nodeId o'.root.1 node ++ nodeSuffix node' := fun node node' => by
        rw [nodeId_append]
        rfl
      rw [hroot, hp, hq, hid, hid, List.append_assoc, List.append_assoc]
      exact List.append_left_lt (suffix_left_lt_right p q _)

/-! ## Listings -/

/-- The conditions on keys that prefixes stand for. -/
def prefixTests (prefixes : List JsString) : List (JsString → Bool) :=
  prefixes.map fun p k => p.isPrefixOf k

theorem listing_prefixTests (store : EventStore) (prefixes : List JsString) :
    store.listing (prefixTests prefixes) = prefixes.flatMap (listObjectKeys store) := by
  rw [listing, prefixTests, List.flatMap_map]
  rfl

/-- The prefixes of hours, in order of time. -/
structure HourPrefixes (prefixes : List JsString) : Prop where
  hours : ∀ p ∈ prefixes, ∃ d hour, hour < 24 ∧ p = partitionPrefix (civilOfDay d) hour
  sorted : prefixes.Pairwise Earlier

theorem hourPrefixes_hours (first last : Int) : HourPrefixes (hourPrefixes first last) where
  hours p hp := by
    obtain ⟨d, hour, -, hhour, rfl⟩ := mem_hourPrefixes.mp hp
    exact ⟨d, hour, hhour, rfl⟩
  sorted := hourPrefixes_sorted first last

variable {p : JsString} {prefixes : List JsString}

theorem HourPrefixes.tail (h : HourPrefixes (p :: prefixes)) : HourPrefixes prefixes :=
  ⟨fun q hq => h.hours q (List.mem_cons_of_mem _ hq), h.sorted.of_cons⟩

theorem HourPrefixes.ne_nil (h : HourPrefixes prefixes) :
    ∀ p ∈ prefixes, p ≠ [] := by
  intro p hp
  obtain ⟨d, hour, -, rfl⟩ := h.hours p hp
  simp [partitionPrefix, lit]

/-- The objects under a prefix are those of one hour. -/
theorem hour_eq_of_under {d : Int} {hour : Nat}
    (ho : partitionPrefix (civilOfDay d) hour <+: o.key) :
    partitionPrefix (civilOfDay d) hour <+: o'.key ↔ o.hour = o'.hour := by
  obtain ⟨hd, hh⟩ := partitionPrefix_starts.mp ho
  rw [key, partitionPrefix_starts, hour_eq_iff, ← hd, ← hh]

/-- **Theorem (`before_key_iff`).** -/
theorem before_key_iff (h : HourPrefixes prefixes) (ho : ∃ p ∈ prefixes, p <+: o.key)
    (ho' : ∃ p ∈ prefixes, p <+: o'.key) :
    Before (prefixTests prefixes) o.key o'.key ↔
      o.hour < o'.hour ∨ (o.hour = o'.hour ∧ o.key < o'.key) := by
  induction prefixes with
  | nil => simp at ho
  | cons p ps ih =>
    obtain ⟨d, hour, -, rfl⟩ := h.hours p List.mem_cons_self
    have hearlier := (List.pairwise_cons.mp h.sorted).1
    have hrest : ∀ {o : LogObject}, (∃ q ∈ partitionPrefix (civilOfDay d) hour :: ps, q <+: o.key) →
        ¬partitionPrefix (civilOfDay d) hour <+: o.key → ∃ q ∈ ps, q <+: o.key := by
      rintro o ⟨q, hq, hqo⟩ hpo
      obtain rfl | hq := List.mem_cons.mp hq
      · exact absurd hqo hpo
      · exact ⟨q, hq, hqo⟩
    rw [prefixTests, List.map_cons, ← prefixTests]
    by_cases hpo' : partitionPrefix (civilOfDay d) hour <+: o'.key
    · rw [before_cons_of_true (List.isPrefixOf_iff_prefix.mpr hpo'), List.isPrefixOf_iff_prefix]
      constructor
      · exact fun ⟨hpo, hlt⟩ => Or.inr ⟨(hour_eq_of_under hpo).mp hpo', hlt⟩
      · rintro (hlt | ⟨heq, hlt⟩)
        · by_cases hpo : partitionPrefix (civilOfDay d) hour <+: o.key
          · exact absurd ((hour_eq_of_under hpo).mp hpo') hlt.ne
          · obtain ⟨q, hq, hqo⟩ := hrest ho hpo
            have hle := hour_le_of_time_lt (hearlier q hq _ _ _ _ hpo' hqo)
            exact absurd hlt (not_lt.mpr hle)
        · exact ⟨(hour_eq_of_under hpo').mpr heq.symm, hlt⟩
    · have hfalse : (partitionPrefix (civilOfDay d) hour).isPrefixOf o'.key = false := by
        rw [← Bool.not_eq_true, List.isPrefixOf_iff_prefix]
        exact hpo'
      rw [before_cons_of_false hfalse, List.isPrefixOf_iff_prefix]
      by_cases hpo : partitionPrefix (civilOfDay d) hour <+: o.key
      · obtain ⟨q, hq, hqo'⟩ := hrest ho' hpo'
        have hle := hour_le_of_time_lt (hearlier q hq _ _ _ _ hpo hqo')
        have hne : o.hour ≠ o'.hour := fun heq => hpo' ((hour_eq_of_under hpo).mpr heq)
        exact ⟨fun _ => Or.inl (lt_of_le_of_ne hle hne), fun _ => Or.inl hpo⟩
      · rw [or_iff_right hpo]
        exact ih h.tail (hrest ho hpo) (hrest ho' hpo')

/-- No key has two of the prefixes. -/
theorem apart_prefixTests (h : HourPrefixes prefixes) : Apart (prefixTests prefixes) := by
  rw [Apart, prefixTests, List.pairwise_map]
  refine h.sorted.imp_of_mem fun {p q} hp hq hearlier k hpk => ?_
  obtain ⟨d, hour, hhour, rfl⟩ := h.hours p hp
  obtain ⟨d', hour', hhour', rfl⟩ := h.hours q hq
  rw [← Bool.not_eq_true, List.isPrefixOf_iff_prefix]
  intro hqk
  have hsame : d = d' ∧ hour = hour' := by
    obtain hpq | hqp := List.prefix_or_prefix_of_prefix (List.isPrefixOf_iff_prefix.mp hpk) hqk
    · exact partitionPrefix_prefix hhour' hpq
    · obtain ⟨hd, hh⟩ := partitionPrefix_prefix hhour hqp
      exact ⟨hd.symm, hh.symm⟩
  obtain ⟨rfl, rfl⟩ := hsame
  have hkey : partitionPrefix (civilOfDay d) hour <+: eventKey [] (hourStart d hour) :=
    partitionPrefix_starts.mpr
      ⟨(dayOfTime_hourStart d hhour).symm, (hourOfTime_hourStart d hhour).symm⟩
  exact lt_irrefl _ (hearlier [] [] _ _ hkey hkey)

end LogObject

end Posta
