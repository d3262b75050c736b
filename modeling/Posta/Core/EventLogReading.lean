import Posta.Core.EventLog

/-!
# Reading the log back

**Theorem (`stream_serializeBatch`).** The object of a batch is read back as the lines of its
events, if no string of any of them contains U+2028 or U+2029.

**Theorem (`stream_unreadable`).** Otherwise the stream ends with an error: the line is cut at the
separator, and the first piece of it is no JSON.

Both follow from the line of an event being the text of an object with distinct keys.
-/

namespace Posta

open Js

/-- The line of the event is one line for `readline` as well. -/
def LoggedEvent.readable (e : LoggedEvent) : Bool := (serializeEvent e).all fun c => !isLineBreak c

theorem toLogLine_sublist (e : LoggedEvent) :
    ((toLogLine e).map Prod.fst).Sublist (logFields.map LogField.name) := by
  rw [toLogLine]
  generalize logFields = fs
  induction fs with
  | nil => exact List.Sublist.refl _
  | cons f fs ih =>
    cases hv : (e.get f).toJson? with
    | none =>
      rw [List.filterMap_cons_none (by rw [hv]; rfl)]
      exact ih.cons _
    | some v =>
      rw [List.filterMap_cons_some (by rw [hv]; rfl)]
      exact ih.cons_cons _

theorem nodup_toLogLine (e : LoggedEvent) : ((toLogLine e).map Prod.fst).Nodup :=
  nodup_logFields_names.sublist (toLogLine_sublist e)

/-- A value with nothing nested in it. -/
def IsFlat : Json → Prop
  | .arr xs => xs = []
  | .obj ms => ms = []
  | _ => True

theorem distinct_of_isFlat {v : Json} (h : IsFlat v) : v.Distinct := by
  cases v with
  | arr xs =>
    rw [show xs = [] from h]
    trivial
  | obj ms =>
    rw [show ms = [] from h]
    exact ⟨List.nodup_nil, trivial⟩
  | _ => trivial

/-- The source platform is a string or one of the inherited values. -/
def EnrichmentResult.PlatformFlat (r : EnrichmentResult) : Prop :=
  ∀ v, r.sourcePlatform.toJson? = some v → IsFlat v

theorem isFlat_nullable (s : Option JsString) (v : Json)
    (h : (JsValue.ofNullable s).toJson? = some v) : IsFlat v := by
  cases s <;> cases h <;> trivial

theorem isFlat_get {e : LoggedEvent} (he : e.enrichment.PlatformFlat) (f : LogField) (v : Json)
    (h : (e.get f).toJson? = some v) : IsFlat v := by
  cases f with
  | occurredAt =>
    cases h
    trivial
  | column c =>
    cases c with
    | sourcePlatform => exact he v h
    | asn =>
      cases hasn : e.event.asn <;> simp only [LoggedEvent.get, hasn] at h <;> cases h <;> trivial
    | isInApp =>
      cases h
      trivial
    | eventId =>
      cases h
      trivial
    | tenantId =>
      cases h
      trivial
    | linkId =>
      cases h
      trivial
    | slug =>
      cases h
      trivial
    | _ => exact isFlat_nullable _ v h

theorem distinct_toLogLine {e : LoggedEvent} (he : e.enrichment.PlatformFlat) :
    (Json.obj (toLogLine e)).Distinct := by
  refine ⟨nodup_toLogLine e, ?_⟩
  have hall : ∀ m ∈ toLogLine e, m.2.Distinct := by
    intro m hm
    obtain ⟨f, -, hf⟩ := List.mem_filterMap.mp hm
    obtain ⟨v, hv, rfl⟩ := Option.map_eq_some_iff.mp hf
    exact distinct_of_isFlat (isFlat_get he f v hv)
  generalize toLogLine e = ms at hall
  induction ms with
  | nil => trivial
  | cons m ms ih =>
    exact ⟨hall m List.mem_cons_self, ih fun m hm => hall m (List.mem_cons_of_mem _ hm)⟩

/-- What the enrichment finds is flat. -/
theorem enrich_platformFlat (P : Platform) (userAgent referer destination : Option JsString) :
    (enrich P userAgent referer destination).PlatformFlat := by
  intro v hv
  have hcases : ∀ x : JsValue, x = resolveSourcePlatform P referer userAgent →
      x.toJson? = some v → IsFlat v := by
    intro x hx hv
    cases x with
    | undefined => cases hv
    | objectConstructor => cases hv
    | objectPrototype =>
      cases hv
      rfl
    | json w =>
      cases hv
      rw [resolveSourcePlatform] at hx
      cases hr : referer.bind (destHost P) with
      | none =>
        rw [hr] at hx
        cases hx
        trivial
      | some host =>
        rw [hr] at hx
        dsimp only at hx
        have hplatform : refererHostPlatform host = .json v → IsFlat v := by
          intro h
          unfold refererHostPlatform at h
          split at h
          · cases h
            trivial
          · split_ifs at h
        split at hx
        · cases hx
          trivial
        · exact hplatform hx.symm
  exact hcases _ rfl hv

/-! ## Lines -/

theorem ne_return_of_mem_stringify {v : Json} {c : CodeUnit} (h : c ∈ stringify v) : c ≠ 13 := by
  rintro rfl
  have := (mem_stringify_of_break (by decide) v).mp h
  exact absurd this.1 (by decide)

theorem readLines_serializeBatch (es : List LoggedEvent) :
    readLines (serializeBatch es) = es.flatMap fun e => pieces (serializeEvent e) := by
  have hreturn : ∀ l ∈ es.map serializeEvent, ∀ c ∈ l, c ≠ 13 := by
    intro l hl c hc
    obtain ⟨e, -, rfl⟩ := List.mem_map.mp hl
    exact ne_return_of_mem_stringify hc
  have h := readLines_flatMap hreturn
  rw [List.flatMap_map, List.flatMap_map] at h
  exact h

theorem pieces_of_readable {e : LoggedEvent} (h : e.readable = true) :
    pieces (serializeEvent e) = [serializeEvent e] :=
  pieces_of_no_break fun c hc => by simpa using List.all_eq_true.mp h c hc

theorem serializeEvent_ne_nil (e : LoggedEvent) : serializeEvent e ≠ [] := by
  rw [serializeEvent]
  cases toLogLine e <;> simp [stringify, lit]

theorem parseLoggedEventLine_serializeEvent {e : LoggedEvent} (he : e.enrichment.PlatformFlat)
    (key : JsString) (n : Nat) :
    parseLoggedEventLine (serializeEvent e) key n = .ok (toLogLine e) := by
  rw [parseLoggedEventLine, serializeEvent, parse_stringify (distinct_toLogLine he)]

theorem streamLines_cons_readable {e : LoggedEvent} (he : e.enrichment.PlatformFlat)
    (key : JsString) (lines : List JsString) (n : Nat) :
    streamLines key (serializeEvent e :: lines) n =
      Stream.append ⟨[toLogLine e], none⟩ (streamLines key lines (n + 1)) := by
  rw [streamLines, if_neg (serializeEvent_ne_nil e), parseLoggedEventLine_serializeEvent he]

/-- **Theorem (`stream_serializeBatch`).** -/
theorem stream_serializeBatch {es : List LoggedEvent} (hes : ∀ e ∈ es, e.enrichment.PlatformFlat)
    (h : ∀ e ∈ es, e.readable = true) (key : JsString) :
    streamRecordsFromObject key (serializeBatch es) = ⟨es.map toLogLine, none⟩ := by
  rw [streamRecordsFromObject, readLines_serializeBatch]
  generalize 1 = n
  induction es generalizing n with
  | nil => rfl
  | cons e es ih =>
    rw [List.flatMap_cons, pieces_of_readable (h e List.mem_cons_self), List.singleton_append,
      streamLines_cons_readable (hes e List.mem_cons_self),
      ih (fun e he => hes e (List.mem_cons_of_mem _ he)) fun e he => h e (List.mem_cons_of_mem _ he)]
    rfl

/-- The first piece of a line that was cut is no JSON. -/
theorem streamLines_cut {e : LoggedEvent} (he : e.enrichment.PlatformFlat)
    (h : e.readable = false) (key : JsString) (lines : List JsString) (n : Nat) :
    (streamLines key (pieces (serializeEvent e) ++ lines) n).error ≠ none := by
  have hbreak : ∃ c ∈ serializeEvent e, isLineBreak c = true := by
    obtain ⟨c, hc, hb⟩ := List.all_eq_false.mp h
    exact ⟨c, hc, by simpa using hb⟩
  obtain ⟨p, ps, t, hp, ht, hne, hhead⟩ := pieces_of_break hbreak
    fun c hc => ne_return_of_mem_stringify hc
  have hpne : p ≠ [] := by
    rintro rfl
    rw [List.nil_append] at ht
    subst ht
    have hbrace : (serializeEvent e).head? = some (unit '{') := by
      rw [serializeEvent]
      cases toLogLine e <;> rfl
    exact absurd (hhead _ hbrace) (by decide)
  have hnone : parse p = none := parse_prefix_of_object (distinct_toLogLine he) ht hne
  rw [hp, List.cons_append, streamLines, if_neg hpne, parseLoggedEventLine, hnone]
  simp

/-- **Theorem (`stream_unreadable`).** -/
theorem stream_unreadable {es : List LoggedEvent} (hes : ∀ e ∈ es, e.enrichment.PlatformFlat)
    (h : ∃ e ∈ es, e.readable = false) (key : JsString) :
    (streamRecordsFromObject key (serializeBatch es)).error ≠ none := by
  rw [streamRecordsFromObject, readLines_serializeBatch]
  generalize 1 = n
  induction es generalizing n with
  | nil =>
    obtain ⟨e, he, -⟩ := h
    cases he
  | cons e es ih =>
    rw [List.flatMap_cons]
    by_cases hr : e.readable = true
    · rw [pieces_of_readable hr, List.singleton_append,
        streamLines_cons_readable (hes e List.mem_cons_self)]
      refine ih (fun e he => hes e (List.mem_cons_of_mem _ he)) ?_ (n + 1)
      obtain ⟨d, hd, hdr⟩ := h
      rcases List.mem_cons.mp hd with rfl | hd
      · rw [hr] at hdr
        cases hdr
      · exact ⟨d, hd, hdr⟩
    · exact streamLines_cut (hes e List.mem_cons_self) (by simpa using hr) key _ n

/-! ## Records -/

/-- What a field becomes in the log. -/
def JsValue.readBack : JsValue → JsValue
  | .objectConstructor => .undefined
  | .objectPrototype => .json (.obj [])
  | v => v

/-- The fields of a line read back. -/
theorem get_toLogLine (e : LoggedEvent) (f : LogField) :
    LogRecord.get (toLogLine e) f = JsValue.readBack (e.get f) := by
  rw [LogRecord.get]
  have hname : ∀ g, g.name = f.name → g = f := fun g h =>
    List.inj_on_of_nodup_map nodup_logFields_names (mem_logFields g) (mem_logFields f) h
  cases hv : (e.get f).toJson? with
  | none =>
    have hlookup : lookup (toLogLine e) f.name = none := by
      rw [lookup, Option.map_eq_none_iff, List.find?_eq_none]
      intro m hm
      obtain ⟨g, -, hg⟩ := List.mem_filterMap.mp hm
      obtain ⟨v, hgv, rfl⟩ := Option.map_eq_some_iff.mp hg
      intro h
      rw [hname g (by simpa using h), hv] at hgv
      cases hgv
    rw [hlookup]
    cases hx : e.get f <;> rw [hx] at hv <;> first | rfl | cases hv
  | some v =>
    have hmem : (f.name, v) ∈ toLogLine e :=
      List.mem_filterMap.mpr ⟨f, mem_logFields f, by rw [hv]; rfl⟩
    rw [CaptureEventSchema.lookup_of_mem (nodup_toLogLine e) hmem]
    cases hx : e.get f <;> rw [hx] at hv <;> cases hv <;> rfl

end Posta
