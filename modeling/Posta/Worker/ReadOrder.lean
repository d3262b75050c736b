import Posta.Core.LogPages
import Posta.Worker.WriteOrder

/-!
# The order in which the log is read

**Displaced** (`Displaced`). An object is displaced by one that was written before it and is read
after it: one of a later hour, or one of its own hour that holds its batch. The first happens where
a batch holds an older event, the second where a batch was stored as a whole and then in halves.

**Theorem (`read_order_iff`).** Through prefixes that cover the run, the log is read in the order
in which it was written exactly when no object is displaced.

**An older event** in a later batch is read first (`older_read_first`).
-/

namespace Posta

open Js Interaction Interaction.Interp LogObject LogWorld

variable {P : Platform} {service : DlqService} {w : LogWorld}

/-- The second object was filed under an earlier hour than the first, or under the same hour as a
part of the first one's batch. -/
def LogObject.DisplacedBy (o o' : LogObject) : Prop :=
  o'.hour < o.hour ∨ (o'.hour = o.hour ∧ o.Inside o')

/-- `DisplacedBy`, of the keys. -/
def Displaced (k k' : JsString) : Prop :=
  ∃ o o' : LogObject, k = o.key ∧ k' = o'.key ∧ o.DisplacedBy o'

theorem displaced_key_iff {o o' : LogObject} : Displaced o.key o'.key ↔ o.DisplacedBy o' := by
  constructor
  · rintro ⟨x, x', hx, hx', h⟩
    obtain ⟨hhour, hroot, hnode⟩ := key_inj hx
    obtain ⟨hhour', hroot', hnode'⟩ := key_inj hx'
    unfold LogObject.DisplacedBy LogObject.Inside at *
    rw [hhour, hhour', hroot, hroot', hnode, hnode']
    exact h
  · exact fun h => ⟨o, o', rfl, rfl, h⟩

/-- Of two objects in the order of the walk, the first one is read first unless the second is
displaced. -/
theorem before_iff_of_precedes {prefixes : List JsString} {o o' : LogObject}
    (hp : HourPrefixes prefixes) (ho : ∃ p ∈ prefixes, p <+: o.key)
    (ho' : ∃ p ∈ prefixes, p <+: o'.key) (h : o.Precedes o') :
    Store.SortedStore.Before (prefixTests prefixes) o.key o'.key ↔ ¬o.DisplacedBy o' := by
  have hne : o.Inside o' → o.node ≠ o'.node := by
    intro hinside heq
    obtain hlt | ⟨-, hlt⟩ := h
    · exact lt_irrefl _ (hinside.1 ▸ hlt)
    · exact lt_irrefl _ (heq ▸ hlt)
  rw [before_key_iff hp ho ho', LogObject.DisplacedBy, not_or, not_and, not_lt]
  constructor
  · rintro (hlt | ⟨heq, hlt⟩)
    · exact ⟨hlt.le, fun hhour => absurd hhour hlt.ne'⟩
    · exact ⟨heq.le, fun hhour hinside => lt_asymm hlt (key_lt_of_inside heq hinside (hne hinside))⟩
  · rintro ⟨hle, hout⟩
    obtain hlt | heq := hle.lt_or_eq
    · exact Or.inl hlt
    · exact Or.inr ⟨heq, key_lt_of_precedes heq h (hout heq.symm)⟩

/-! ## Particular logs -/

/-- The log after an operation, where only what succeeds has an effect. -/
def LogWorld.after (w : LogWorld) : WorkerEvent → LogWorld
  | ⟨.putObject key body, .ok _⟩ => w.put key body
  | _ => w

theorem execs_after {p q : WorkerFlow Unit} {h : List WorkerEvent} (hr : Runs p h q)
    (w : LogWorld) : logInterp.Execs p w h q (h.foldl LogWorld.after w) := by
  have hmonitor : (monitor (fun _ _ => True) LogWorld.after).Execs p w h q
      (h.foldl LogWorld.after w) := execs_monitor hr
  refine hmonitor.of_exec fun op v r v' hexec => ?_
  obtain rfl : v' = v.after ⟨op, r⟩ := hexec
  cases op with
  | putObject key body =>
    cases r with
    | ok u => rfl
    | error e => exact Or.inl rfl
  | _ => rfl

/-- The log after a batch of one event was stored. -/
def LogWorld.stored (w : LogWorld) (P : Platform) (f : JsString → Option LinkDestinationLookup)
    (batchId : JsString) (event : CaptureEvent) : LogWorld :=
  w.put (eventKey batchId event.occurredAt.time) (serializeBatch (loggedEventsOf P f [event]))

section Stored

variable {f : JsString → Option LinkDestinationLookup} {root : Ulid} {event : CaptureEvent}

/-- A batch of one event that is stored and inserted. -/
theorem execs_single (hf : (resolveDestination f event).reason = none) (w : LogWorld) :
    ∃ h, logInterp.Execs (productionFlush P service [event] root.1) w h (.done (.ok ()))
      (w.stored P f root.1 event) := by
  have hall : ∀ e ∈ [event], (resolveDestination f e).reason = none := by simpa using hf
  have hflush : Runs (flushBatch P { dlqSink := service.send P } [event] root.1) _ _ :=
    runs_flushBatch hall (eventBatchKey_event P root.1 event) (.ok ())
  have hroot : Runs (rootAttempts P service [event] root.1) _ _ := runs_attempt_ok hflush
  exact ⟨_, execs_after (runs_production_ok (List.cons_ne_nil _ _) hroot) w⟩

end Stored

/-- A lookup that finds every destination. -/
def foundDestination (_linkId : JsString) : Option LinkDestinationLookup := some ⟨lit "tenant", []⟩

def firstRoot : Ulid := ⟨lit "01J0000000000000000000000A", by decide⟩

def secondRoot : Ulid := ⟨lit "01J0000000000000000000000B", by decide⟩

/-- Two batches, the events in order of time. -/
def orderedLog : LogWorld :=
  (LogWorld.empty.stored .plain foundDestination firstRoot.1 lateEvent).stored .plain
    foundDestination secondRoot.1 earlyEvent

/-- Two batches, the second one of an older event. -/
def olderLog : LogWorld :=
  (LogWorld.empty.stored .plain foundDestination firstRoot.1 earlyEvent).stored .plain
    foundDestination secondRoot.1 lateEvent

theorem reached_two {event event' : CaptureEvent}
    (hf : (resolveDestination foundDestination event).reason = none)
    (hf' : (resolveDestination foundDestination event').reason = none) :
    LogReached .plain {} ((LogWorld.empty.stored .plain foundDestination firstRoot.1
      event).stored .plain foundDestination secondRoot.1 event') := by
  obtain ⟨h, hfirst⟩ : ∃ h, logInterp.Execs (productionFlush .plain {} [event] firstRoot.1) _ h
      (.done (.ok ())) _ := execs_single hf .empty
  obtain ⟨h', hsecond⟩ := execs_single hf' _
  have hflushed : Flushed .plain {} [firstRoot] _ := .flush .start (by simp) hfirst
  have hroots : ∀ v ∈ [firstRoot], v.1 < secondRoot.1 := by
    intro v hv
    rw [List.mem_singleton.mp hv]
    decide
  exact ⟨_, _, secondRoot, _, _, _, hflushed, hroots, hsecond⟩

/-- The hours of the two days. -/
def twoDays : List JsString := hourPrefixes 20655 20656

theorem eventPrefixes_twoDays : eventPrefixes .plain (lit "2026-07-21T00:00:00.000Z")
    (lit "2026-07-22T23:59:59.999Z") = .ok twoDays := by
  have h₁ : Platform.plain.date (lit "2026-07-21T00:00:00.000Z") = some 1784592000000 := by decide
  have h₂ : Platform.plain.date (lit "2026-07-22T23:59:59.999Z") = some 1784764799999 := by decide
  exact eventPrefixes_of_date h₁ h₂ (by decide) (by decide)

/-- Every listing in one page. -/
def onePage (store : EventStore) (keyPrefix : JsString) : List ListObjectsPage :=
  [⟨(listObjectKeys store keyPrefix).map Prod.fst, false, none⟩]

theorem cut_onePage (store : EventStore) (prefixes : List JsString) :
    ∀ p ∈ prefixes, Cut ((listObjectKeys store p).map Prod.fst) (onePage store p) :=
  fun _ _ => .last _ _

/-- Objects of the two days. -/
theorem covered_twoDays {w : LogWorld} {objects : List LogObject}
    (horder : w.order = objects.map LogObject.key)
    (hobjects : ∀ o ∈ objects, 20655 ≤ dayOfTime o.time ∧ dayOfTime o.time ≤ 20656) :
    ∀ k ∈ w.order, ∃ p ∈ twoDays, p <+: k := by
  intro k hk
  rw [horder] at hk
  obtain ⟨o, ho, rfl⟩ := List.mem_map.mp hk
  exact ⟨_, mem_hourPrefixes.mpr ⟨_, _, hobjects o ho, hourOfTime_lt _, rfl⟩,
    partitionPrefix_starts.mpr ⟨rfl, rfl⟩⟩

/-! ## Reading -/

/-- **Theorem.** What is read through prefixes of hours is in the order of the first writes exactly
when no object is displaced. -/
theorem listing_order_iff (h : LogReached P service w) {prefixes : List JsString}
    (hp : HourPrefixes prefixes) (hcovers : ∀ k ∈ w.order, ∃ p ∈ prefixes, p <+: k) :
    (prefixes.flatMap (listObjectKeys w.store)).map Prod.fst = w.order ↔
      w.order.Pairwise fun k k' => ¬Displaced k k' := by
  obtain ⟨objects, horder, hwalk, -⟩ := h.written
  have hlisted : ∀ k ∈ w.order, ∃ p ∈ prefixTests prefixes, p k = true := by
    intro k hk
    obtain ⟨p, hpmem, hpk⟩ := hcovers k hk
    exact ⟨_, List.mem_map.mpr ⟨p, hpmem, rfl⟩, List.isPrefixOf_iff_prefix.mpr hpk⟩
  have hcovered : ∀ o ∈ objects, ∃ p ∈ prefixes, p <+: o.key := by
    intro o ho
    apply hcovers
    rw [horder]
    exact List.mem_map.mpr ⟨o, ho, rfl⟩
  rw [← listing_prefixTests, Store.SortedStore.listing_eq_iff (apart_prefixTests hp)
    h.recorded.nodup h.recorded.mem hlisted, horder, List.pairwise_map, List.pairwise_map]
  have hiff : ∀ {o o' : LogObject}, o ∈ objects → o' ∈ objects → o.Precedes o' →
      (Store.SortedStore.Before (prefixTests prefixes) o.key o'.key ↔
        ¬Displaced o.key o'.key) := by
    intro o o' ho ho' hpre
    rw [before_iff_of_precedes hp (hcovered o ho) (hcovered o' ho') hpre, displaced_key_iff]
  constructor
  · intro hbefore
    refine (hwalk.and hbefore).imp_of_mem fun {o o'} ho ho' hboth => ?_
    exact (hiff ho ho' hboth.1).mp hboth.2
  · intro hnone
    refine (hwalk.and hnone).imp_of_mem fun {o o'} ho ho' hboth => ?_
    exact (hiff ho ho' hboth.1).mpr hboth.2

theorem hourPrefixes_of_eventPrefixes {range_from range_to : JsString} {prefixes : List JsString}
    (h : eventPrefixes P range_from range_to = .ok prefixes) : HourPrefixes prefixes := by
  cases h₁ : P.date range_from with
  | none =>
    rw [eventPrefixes, parseInstant, h₁] at h
    cases h
  | some t₁ =>
    cases h₂ : P.date range_to with
    | none =>
      rw [eventPrefixes, parseInstant, parseInstant, h₁, h₂] at h
      cases h
    | some t₂ =>
      obtain ⟨-, rfl⟩ := eventPrefixes_ok h₁ h₂ h
      exact hourPrefixes_hours _ _

/-- **Theorem (`read_order_iff`).** -/
theorem read_order_iff (h : LogReached P service w) {range_from range_to : JsString}
    {prefixes : List JsString} (hprefixes : eventPrefixes P range_from range_to = .ok prefixes)
    (hcovers : ∀ k ∈ w.order, ∃ p ∈ prefixes, p <+: k)
    {pages : JsString → List ListObjectsPage}
    (hpages : ∀ p ∈ prefixes, Cut ((listObjectKeys w.store p).map Prod.fst) (pages p)) :
    listPrefixes pages prefixes = ⟨w.order, none⟩ ↔
      w.order.Pairwise fun k k' => ¬Displaced k k' := by
  have hp := hourPrefixes_of_eventPrefixes hprefixes
  rw [listPrefixes_cut hp.ne_nil hpages, ← listing_order_iff h hp hcovers, KeyStream.mk.injEq]
  simp

/-- Two batches in order of time are read in that order. -/
theorem read_order_ordered : ∃ (w : LogWorld) (prefixes : List JsString)
    (pages : JsString → List ListObjectsPage),
    w.order = [lit "events/dt=2026-07-21/hour=23/01J0000000000000000000000A.ndjson",
      lit "events/dt=2026-07-22/hour=00/01J0000000000000000000000B.ndjson"] ∧
    listPrefixes pages prefixes = ⟨w.order, none⟩ := by
  have horder : orderedLog.order = [⟨firstRoot, [], lateEvent.occurredAt.time⟩,
      ⟨secondRoot, [], earlyEvent.occurredAt.time⟩].map LogObject.key := by decide
  have hobjects : ∀ o ∈ [(⟨firstRoot, [], lateEvent.occurredAt.time⟩ : LogObject),
      ⟨secondRoot, [], earlyEvent.occurredAt.time⟩],
      20655 ≤ dayOfTime o.time ∧ dayOfTime o.time ≤ 20656 := by decide
  have hreached : LogReached .plain {} orderedLog := reached_two rfl rfl
  have hiff := read_order_iff hreached eventPrefixes_twoDays (covered_twoDays horder hobjects)
    (cut_onePage _ _)
  refine ⟨orderedLog, twoDays, onePage orderedLog.store, by decide, hiff.mpr ?_⟩
  rw [horder, List.map_cons, List.map_cons, List.map_nil]
  refine List.pairwise_pair.mpr fun hdisplaced => ?_
  obtain hhour | ⟨hhour, -⟩ := displaced_key_iff.mp hdisplaced
  · exact absurd hhour (by decide)
  · exact absurd hhour (by decide)

/-- A log of the two days in which an object is displaced by the one before it. -/
theorem read_otherwise {w : LogWorld} (h : LogReached .plain {} w) {objects : List LogObject}
    (horder : w.order = objects.map LogObject.key)
    (hobjects : ∀ o ∈ objects, 20655 ≤ dayOfTime o.time ∧ dayOfTime o.time ≤ 20656)
    {o o' : LogObject} {rest : List LogObject} (hfirst : objects = o :: o' :: rest)
    (hdisplaced : o.DisplacedBy o') :
    listPrefixes (onePage w.store) twoDays ≠ ⟨w.order, none⟩ := by
  have hp : HourPrefixes twoDays := hourPrefixes_hours _ _
  rw [listPrefixes_cut hp.ne_nil (cut_onePage w.store twoDays)]
  intro heq
  have hread := (KeyStream.mk.injEq _ _ _ _ ▸ heq).1
  have hnone := (listing_order_iff h hp (covered_twoDays horder hobjects)).mp hread
  rw [horder, hfirst] at hnone
  exact (List.pairwise_cons.mp hnone).1 o'.key (by simp) (displaced_key_iff.mpr hdisplaced)

/-- **An older event in a later batch is read first.** -/
theorem older_read_first : ∃ (w : LogWorld) (prefixes : List JsString)
    (pages : JsString → List ListObjectsPage), LogReached .plain {} w ∧
    eventPrefixes .plain (lit "2026-07-21T00:00:00.000Z") (lit "2026-07-22T23:59:59.999Z") =
      .ok prefixes ∧
    (∀ k ∈ w.order, ∃ p ∈ prefixes, p <+: k) ∧
    (∀ p ∈ prefixes, Cut ((listObjectKeys w.store p).map Prod.fst) (pages p)) ∧
    w.order = [lit "events/dt=2026-07-22/hour=00/01J0000000000000000000000A.ndjson",
      lit "events/dt=2026-07-21/hour=23/01J0000000000000000000000B.ndjson"] ∧
    listPrefixes pages prefixes ≠ ⟨w.order, none⟩ := by
  have horder : olderLog.order = [⟨firstRoot, [], earlyEvent.occurredAt.time⟩,
      ⟨secondRoot, [], lateEvent.occurredAt.time⟩].map LogObject.key := by decide
  have hobjects : ∀ o ∈ [(⟨firstRoot, [], earlyEvent.occurredAt.time⟩ : LogObject),
      ⟨secondRoot, [], lateEvent.occurredAt.time⟩],
      20655 ≤ dayOfTime o.time ∧ dayOfTime o.time ≤ 20656 := by decide
  have hreached : LogReached .plain {} olderLog := reached_two rfl rfl
  refine ⟨olderLog, twoDays, onePage olderLog.store, hreached, eventPrefixes_twoDays,
    covered_twoDays horder hobjects, cut_onePage _ _, by decide, ?_⟩
  exact read_otherwise hreached horder hobjects rfl (Or.inl (by decide))

end Posta
