import Posta.Core.EventLogReading

/-!
# Writing a batch and reading it back

**Encoder and reader.** `JSON.stringify` escapes no separator, and `readline` breaks lines at both
of them. A line stays whole when no string of its event contains one
(`readable_iff_separatorFree`).

**Theorem (`log_round_trip_iff`).** A batch is read back, event for event, exactly when none of its
strings contains U+2028 or U+2029 and every source platform is data.
-/

namespace Posta

open Js

/-! ## Lines without separators -/

/-- No string of the event contains U+2028 or U+2029. -/
def LoggedEvent.SeparatorFree (e : LoggedEvent) : Prop :=
  ∀ f s, e.get f = .json (.str s) → ∀ c ∈ s, isSeparator c = false

theorem isLineBreak_of_isSeparator {c : CodeUnit} (h : isSeparator c = true) :
    isLineBreak c = true := by
  rw [isLineBreak, h, Bool.or_true]

/-- The only string in a flat value is the value itself. -/
theorem allStrings_of_isFlat {Q : JsString → Prop} {v : Json} (hv : IsFlat v) :
    v.AllStrings Q ↔ ∀ s, v = .str s → Q s := by
  cases v with
  | str s => simp [Json.AllStrings]
  | arr xs =>
    rw [show xs = [] from hv]
    simp [Json.AllStrings, AllElements]
  | obj ms =>
    rw [show ms = [] from hv]
    simp [Json.AllStrings, AllMembers]
  | _ => simp [Json.AllStrings]

theorem allMembers_iff {Q : JsString → Prop} (ms : List (JsString × Json)) :
    AllMembers Q ms ↔ ∀ m ∈ ms, Q m.1 ∧ m.2.AllStrings Q := by
  induction ms with
  | nil => simp [AllMembers]
  | cons m ms ih =>
    obtain ⟨k, v⟩ := m
    rw [AllMembers, ih, List.forall_mem_cons, and_assoc]

theorem separator_not_mem_name {c : CodeUnit} (hc : isSeparator c = true) (f : LogField) :
    c ∉ f.name := by
  have hnames : (logFields.all fun f => f.name.all fun c => !isSeparator c) = true := by decide
  have hname := List.all_eq_true.1 hnames f (mem_logFields f)
  intro hmem
  have hfree := List.all_eq_true.1 hname c hmem
  rw [hc] at hfree
  cases hfree

/-- The written fields that are strings. -/
theorem toJson?_eq_str {v : JsValue} {s : JsString} (h : v.toJson? = some (.str s)) :
    v = .json (.str s) := by
  cases v <;> cases h
  rfl

theorem separator_mem_serializeEvent {e : LoggedEvent} (he : e.enrichment.PlatformFlat)
    {c : CodeUnit} (hc : isSeparator c = true) :
    c ∈ serializeEvent e ↔ ∃ f s, e.get f = .json (.str s) ∧ c ∈ s := by
  have hbreak := isLineBreak_of_isSeparator hc
  rw [serializeEvent, mem_stringify_of_break hbreak, Json.AllStrings, allMembers_iff]
  constructor
  · rintro ⟨-, hstring⟩
    by_contra hnone
    apply hstring
    intro m hm
    obtain ⟨f, -, hf⟩ := List.mem_filterMap.mp hm
    obtain ⟨v, hv, rfl⟩ := Option.map_eq_some_iff.mp hf
    refine ⟨separator_not_mem_name hc f, (allStrings_of_isFlat (isFlat_get he f v hv)).mpr ?_⟩
    rintro s rfl hmem
    exact hnone ⟨f, s, toJson?_eq_str hv, hmem⟩
  · rintro ⟨f, s, hf, hmem⟩
    refine ⟨hc, fun hall => ?_⟩
    have hm : (f.name, Json.str s) ∈ toLogLine e :=
      List.mem_filterMap.mpr ⟨f, mem_logFields f, by rw [hf]; rfl⟩
    exact (hall _ hm).2 hmem

/-- **Lines stay whole** exactly when the strings hold no separator. -/
theorem readable_iff_separatorFree {e : LoggedEvent} (he : e.enrichment.PlatformFlat) :
    e.readable = true ↔ e.SeparatorFree := by
  rw [LoggedEvent.readable, List.all_eq_true]
  constructor
  · intro hline f s hf c hc
    by_contra hsep
    have hsep : isSeparator c = true := by simpa using hsep
    have hmem : c ∈ serializeEvent e := (separator_mem_serializeEvent he hsep).mpr ⟨f, s, hf, hc⟩
    have hfree := hline c hmem
    rw [isLineBreak_of_isSeparator hsep] at hfree
    cases hfree
  · intro hfree c hc
    by_contra hbreak
    have hbreak : isLineBreak c = true := by simpa using hbreak
    have hsep := ((mem_stringify_of_break hbreak _).mp hc).1
    obtain ⟨f, s, hf, hmem⟩ := (separator_mem_serializeEvent he hsep).mp hc
    have hno := hfree f s hf c hmem
    rw [hsep] at hno
    cases hno

/-! ## The round trip -/

/-- The value is data, not one of the builtins that a lookup inherits. -/
def JsValue.IsData : JsValue → Prop
  | .objectConstructor | .objectPrototype => False
  | .undefined | .json _ => True

theorem readBack_eq_self_iff (v : JsValue) : JsValue.readBack v = v ↔ JsValue.IsData v := by
  cases v <;> simp [JsValue.readBack, JsValue.IsData]

/-- Every other field of an event is data. -/
theorem isData_get {e : LoggedEvent} (he : JsValue.IsData e.enrichment.sourcePlatform)
    (f : LogField) :
    JsValue.IsData (e.get f) := by
  have hnullable : ∀ s, JsValue.IsData (.ofNullable s) := by
    intro s
    cases s <;> trivial
  cases f with
  | occurredAt => trivial
  | column c =>
    cases c with
    | sourcePlatform => exact he
    | eventId | tenantId | linkId | slug | asn | isInApp => trivial
    | _ => exact hnullable _

/-- The object of the batch is read to its end, and its records are the events, field by field. -/
def RoundTrips (key : JsString) (events : List LoggedEvent) : Prop :=
  let stream := streamRecordsFromObject key (serializeBatch events)
  stream.error = none ∧ stream.records.map LogRecord.get = events.map LoggedEvent.get

theorem get_toLogLine_of_isData {e : LoggedEvent} (he : JsValue.IsData e.enrichment.sourcePlatform) :
    LogRecord.get (toLogLine e) = e.get := by
  funext f
  rw [get_toLogLine, (readBack_eq_self_iff _).mpr (isData_get he f)]

theorem isData_of_get_toLogLine {e : LoggedEvent} (h : LogRecord.get (toLogLine e) = e.get) :
    JsValue.IsData e.enrichment.sourcePlatform := by
  have hplatform := congrFun h (.column .sourcePlatform)
  rw [get_toLogLine] at hplatform
  exact (readBack_eq_self_iff _).mp hplatform

/-- **Theorem (`log_round_trip_iff`).** A batch is read back as it was written exactly when no
string of it contains a separator and every source platform is data. -/
theorem log_round_trip_iff (key : JsString) (events : List LoggedEvent)
    (hflat : ∀ e ∈ events, e.enrichment.PlatformFlat) :
    RoundTrips key events ↔
      ∀ e ∈ events, e.SeparatorFree ∧ JsValue.IsData e.enrichment.sourcePlatform := by
  constructor
  · rintro ⟨herror, hrecords⟩
    have hreadable : ∀ e ∈ events, e.readable = true := by
      intro e he
      by_contra hcut
      have hcut : e.readable = false := by simpa using hcut
      exact stream_unreadable hflat ⟨e, he, hcut⟩ key herror
    rw [stream_serializeBatch hflat hreadable, List.map_map] at hrecords
    intro e he
    refine ⟨(readable_iff_separatorFree (hflat e he)).mp (hreadable e he), ?_⟩
    exact isData_of_get_toLogLine (List.map_inj_left.mp hrecords e he)
  · intro hall
    have hreadable : ∀ e ∈ events, e.readable = true := fun e he =>
      (readable_iff_separatorFree (hflat e he)).mpr (hall e he).1
    rw [RoundTrips, stream_serializeBatch hflat hreadable, List.map_map]
    exact ⟨rfl, List.map_inj_left.mpr fun e he => get_toLogLine_of_isData (hall e he).2⟩

/-- A captured click with the given user agent, enriched without a parser. -/
def clickFrom (userAgent : JsString) : LoggedEvent where
  event := { CaptureEvent.plain (lit "go") with userAgent := some userAgent }
  enrichment := enrich Platform.plain (some userAgent) none none

theorem log_round_trip_firefox : RoundTrips (lit "events/") [clickFrom (lit "Firefox")] := by
  have hflat : ∀ e ∈ [clickFrom (lit "Firefox")], e.enrichment.PlatformFlat := by
    intro e he
    rw [List.mem_singleton.mp he]
    exact enrich_platformFlat _ _ _ _
  apply (log_round_trip_iff (lit "events/") _ hflat).mpr
  intro e he
  refine ⟨(readable_iff_separatorFree (hflat e he)).mp ?_, ?_⟩
  · rw [List.mem_singleton.mp he]
    decide +kernel
  · rw [List.mem_singleton.mp he]
    trivial

/-- **A user agent that contains U+2028** cuts its line. -/
theorem log_round_trip_cut : ¬ RoundTrips (lit "events/") [clickFrom [0x2028]] := by
  rintro ⟨herror, -⟩
  have hflat : ∀ e ∈ [clickFrom [0x2028]], e.enrichment.PlatformFlat := by
    intro e he
    rw [List.mem_singleton.mp he]
    exact enrich_platformFlat _ _ _ _
  have hnot : ¬ (clickFrom [0x2028]).SeparatorFree := by
    intro hfree
    have hsep := hfree (.column .userAgent) [0x2028] rfl 0x2028 (List.mem_singleton_self _)
    exact absurd hsep (by decide)
  have hcut : (clickFrom [0x2028]).readable = false := by
    rw [← Bool.not_eq_true, readable_iff_separatorFree (hflat _ (List.mem_singleton_self _))]
    exact hnot
  exact stream_unreadable hflat ⟨_, List.mem_singleton_self _, hcut⟩ _ herror

end Posta
