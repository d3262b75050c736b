import Posta.Worker.R2Superset
import Posta.Worker.ReplayReport

/-!
# Rebuilding the table from the log

The live path isolates an event that Postgres refuses, but the object that held it was written
before and stays in the log. A replay has no bisection.

**Theorem (`rebuild_complete_iff`).** For the log of any reachable state, a replay of everything
ends and has every committed row exactly when every line of the log is accepted: it can be read
back, and Postgres takes its row.
-/

namespace Posta

open Js Interaction

namespace FlushSystem

variable {P : Platform} {pg : Postgres} {service : DlqService} {s : FlushSystem}
  {prefixes : List JsString} {keep : LogRecord → Bool}

/-- Every object of the log lies under some prefix. -/
def Covers (prefixes : List JsString) (eventLog : EventStore) : Prop :=
  ∀ e ∈ eventLog.entries, ∃ p ∈ prefixes, p <+: e.1

theorem mem_listedObjects {eventLog : EventStore} {e : JsString × JsString} :
    e ∈ listedObjects eventLog prefixes ↔ e ∈ eventLog.entries ∧ ∃ p ∈ prefixes, p <+: e.1 := by
  simp only [listedObjects, listObjectKeys, List.mem_flatMap, List.mem_filter,
    List.isPrefixOf_iff_prefix]
  constructor
  · rintro ⟨p, hp, he, hpre⟩
    exact ⟨he, p, hp, hpre⟩
  · rintro ⟨he, p, hp, hpre⟩
    exact ⟨p, hp, he, hpre⟩

theorem mem_listedObjects_of_covers {eventLog : EventStore} (h : Covers prefixes eventLog)
    {e : JsString × JsString} : e ∈ listedObjects eventLog prefixes ↔ e ∈ eventLog.entries := by
  rw [mem_listedObjects]
  exact ⟨And.left, fun he => ⟨he, h e he⟩⟩

theorem platformFlat_of_enriched {logged : List LoggedEvent}
    (h : ∀ l ∈ logged, ∃ destination, l = toLoggedEvent P l.event destination) :
    ∀ l ∈ logged, l.enrichment.PlatformFlat := by
  intro l hl
  obtain ⟨destination, hd⟩ := h l hl
  rw [hd]
  exact enrich_platformFlat P _ _ _

/-- Every committed key is present. -/
def HasCommitted (w : World) (table : EventTable) : Prop :=
  ∀ r ∈ w.events.rows, ∃ r' ∈ table.rows, r'.key = r.key

/-- A replay of everything ends, with any batch size and from any table, and every committed key
is present afterwards. -/
def Restores (P : Platform) (pg : Postgres) (prefixes : List JsString) (w : World) : Prop :=
  ∀ (batchSize : Int) (table : EventTable), ∃ summary table',
    replayEventLog P pg { prefixes, batchSize } w.eventLog table = .ok (summary, table') ∧
      HasCommitted w table'

/-- The same of a replay with a report, which refuses batches of more than 500 rows. -/
def RestoresWithReport (P : Platform) (pg : Postgres) (issues : RecordIssues)
    (prefixes : List JsString) (w : World) : Prop :=
  ∀ batchSize ≤ replayReportMaxBatchSize, ∀ table : EventTable, ∃ report table',
    replayWithReport P pg issues { prefixes, batchSize } w.eventLog table = .ok (report, table') ∧
      HasCommitted w table'

/-- Every line of the log is accepted. -/
def LogAccepted (P : Platform) (pg : Postgres) (keep : LogRecord → Bool) (eventLog : EventStore) :
    Prop :=
  ∀ e ∈ eventLog.entries, ObjectAccepted P pg keep e.2

/-- Every committed key has a line that is kept. -/
def CommittedKept (P : Platform) (pg : Postgres) (keep : LogRecord → Bool) (w : World) : Prop :=
  ∀ r ∈ w.events.rows, ∃ e ∈ w.eventLog.entries, ∃ r' ∈ objectRows P pg keep e.2, r'.key = r.key

/-- In a reachable state every committed key has a line, if the log can be read. -/
theorem committedKept_of_accepted (h : Reachable P pg service s)
    (hall : LogAccepted P pg (fun _ => true) s.world.eventLog) :
    CommittedKept P pg (fun _ => true) s.world := by
  intro r hr
  obtain ⟨entry, hentry, b, -, node, logged, hobj, e, he, hk⟩ := h.inv.world.rows r hr
  have hflat := platformFlat_of_enriched hobj.enriched
  have haccepted := hall entry hentry
  rw [hobj.body] at haccepted
  have hread := readable_of_accepted hflat haccepted
  rw [← hobj.events] at he
  obtain ⟨l, hl, rfl⟩ := List.mem_map.mp he
  refine ⟨entry, hentry, l.replayedRow pg, ?_, (key_replayedRow pg l).trans hk⟩
  rw [hobj.body, objectRows_serializeBatch hflat hread]
  exact List.mem_map_of_mem (List.mem_filter.mpr ⟨hl, rfl⟩)

/-- Rows of the log are present after their insertion. -/
theorem hasCommitted_of_kept (hcovers : Covers prefixes s.world.eventLog)
    (hkept : CommittedKept P pg keep s.world) (table : EventTable) :
    HasCommitted s.world (table.insert (logRows P pg keep s.world.eventLog prefixes)) := by
  intro r hr
  obtain ⟨e, he, r', hr', hk⟩ := hkept r hr
  have hmem : r' ∈ logRows P pg keep s.world.eventLog prefixes :=
    List.mem_flatMap.mpr ⟨e, (mem_listedObjects_of_covers hcovers).mpr he, hr'⟩
  obtain ⟨r'', hr'', hk'⟩ := table.exists_key_insert hmem
  exact ⟨r'', hr'', hk'.trans hk⟩

/-- What an insertion into the empty table holds was inserted. -/
theorem kept_of_hasCommitted
    (h : HasCommitted s.world
      (Store.KeyedTable.empty.insert (logRows P pg keep s.world.eventLog prefixes))) :
    CommittedKept P pg keep s.world := by
  intro r hr
  obtain ⟨r', hr', hk⟩ := h r hr
  rcases Store.KeyedTable.mem_of_mem_insert _ hr' with hr' | hr'
  · cases hr'
  · obtain ⟨e, he, hr'⟩ := List.mem_flatMap.mp hr'
    exact ⟨e, (mem_listedObjects.mp he).1, r', hr', hk⟩

theorem restores_iff (h : Reachable P pg service s) (hcovers : Covers prefixes s.world.eventLog) :
    Restores P pg prefixes s.world ↔ LogAccepted P pg (fun _ => true) s.world.eventLog := by
  constructor
  · intro hrestores e he
    obtain ⟨summary, table', hreplay, -⟩ := hrestores 500 .empty
    exact (replay_iff.mp ⟨summary, hreplay⟩).1 e ((mem_listedObjects_of_covers hcovers).mpr he)
  · intro hall batchSize table
    have hlisted : ∀ e ∈ listedObjects s.world.eventLog prefixes,
        ObjectAccepted P pg (fun _ => true) e.2 := fun e he => hall e (mem_listedObjects.mp he).1
    have hreplays : ∃ summary, replayEventLog P pg { prefixes, batchSize } s.world.eventLog table =
        .ok (summary, table.insert (logRows P pg (fun _ => true) s.world.eventLog prefixes)) :=
      replay_of_accepted hlisted table
    obtain ⟨summary, hreplay⟩ := hreplays
    exact ⟨summary, _, hreplay,
      hasCommitted_of_kept hcovers (committedKept_of_accepted h hall) table⟩

theorem restoresWithReport_iff (issues : RecordIssues)
    (hcovers : Covers prefixes s.world.eventLog) :
    RestoresWithReport P pg issues prefixes s.world ↔
      LogAccepted P pg replayRecordValid s.world.eventLog ∧
        CommittedKept P pg replayRecordValid s.world := by
  have hreplay : ∀ batchSize ≤ replayReportMaxBatchSize, ∀ table table' : EventTable,
      (∃ report, replayWithReport P pg issues { prefixes, batchSize } s.world.eventLog table =
        .ok (report, table')) ↔
      (∀ e ∈ listedObjects s.world.eventLog prefixes, ObjectAccepted P pg replayRecordValid e.2) ∧
        table' = table.insert (logRows P pg replayRecordValid s.world.eventLog prefixes) :=
    fun batchSize hsize table table' => (replayWithReport_ok_iff issues hsize).trans replay_iff
  constructor
  · intro hrestores
    obtain ⟨report, table', hok, hhas⟩ := hrestores 500 (le_refl _) .empty
    obtain ⟨hall, rfl⟩ := (hreplay 500 (le_refl _) _ _).mp ⟨report, hok⟩
    exact ⟨fun e he => hall e ((mem_listedObjects_of_covers hcovers).mpr he),
      kept_of_hasCommitted hhas⟩
  · rintro ⟨hall, hkept⟩ batchSize hsize table
    obtain ⟨report, hok⟩ := (hreplay batchSize hsize table _).mpr
      ⟨fun e he => hall e (mem_listedObjects.mp he).1, rfl⟩
    exact ⟨report, _, hok, hasCommitted_of_kept hcovers hkept table⟩

/-- The poison event of the counterexample: its slug holds U+0000. -/
def poison : CaptureEvent := CaptureEvent.plain [nul]

/-- A Postgres that rejects a slug with U+0000. -/
def nulRejecting : Postgres := Postgres.rejecting fun r => r.text .slug = some [nul]

/-- The object of the poison event, without a destination host. -/
def poisonObject : JsString × JsString :=
  (eventKey (lit "01J00000000000000000000001") poison.occurredAt.time,
    serializeBatch [toLoggedEvent Platform.plain poison (some [])])

/-- The poison event is isolated, and its object is all the log has. -/
theorem poison_reachable : ∃ s : FlushSystem, Reachable Platform.plain nulRejecting {} s ∧
    Covers [lit "events/"] s.world.eventLog ∧ poisonObject ∈ s.world.eventLog.entries := by
  let root : Ulid := ⟨lit "01J00000000000000000000001", by decide⟩
  let f : JsString → Option LinkDestinationLookup := fun _ => some ⟨poison.tenantId.1, []⟩
  have hinit : Reachable Platform.plain nulRejecting {} ⟨World.empty, []⟩ := .refl
  have hfresh : root ∉ World.empty.batches.map Prod.fst := List.not_mem_nil
  have hf : (resolveDestination f poison).reason = none := rfl
  have hclass : classifyFlushError nulRejecting.rejection = .rowFault := by decide
  obtain ⟨s, hreach, hlog⟩ := hinit.isolated hfresh hf hclass (by decide) rfl
  have hlog : s.world.eventLog = ((Store.SortedStore.empty.put poisonObject.1 poisonObject.2).put
      poisonObject.1 poisonObject.2).put poisonObject.1 poisonObject.2 := hlog
  refine ⟨s, hreach, fun e he => ?_, by rw [hlog]; exact Store.SortedStore.mem_put_self _ _ _⟩
  rw [hlog, Store.SortedStore.mem_put, Store.SortedStore.mem_put, Store.SortedStore.mem_put] at he
  have hone : e = poisonObject := by
    rcases he with rfl | ⟨rfl | ⟨rfl | ⟨he, -⟩, -⟩, -⟩
    · rfl
    · rfl
    · rfl
    · cases he
  rw [hone]
  exact ⟨_, List.mem_singleton_self _, events_prefix_eventKey _ _⟩

/-- No filter that keeps its line accepts the log. -/
theorem not_logAccepted_poison {s : FlushSystem} (h : poisonObject ∈ s.world.eventLog.entries)
    {keep : LogRecord → Bool}
    (hkeep : keep (toLogLine (toLoggedEvent Platform.plain poison (some []))) = true) :
    ¬ LogAccepted Platform.plain nulRejecting keep s.world.eventLog := by
  intro hall
  have hflat : ∀ l ∈ [toLoggedEvent Platform.plain poison (some [])], l.enrichment.PlatformFlat :=
    platformFlat_of_enriched fun l hl => by
      rw [List.mem_singleton.mp hl]
      exact ⟨some [], rfl⟩
  have hbody : ObjectAccepted Platform.plain nulRejecting keep poisonObject.2 := hall _ h
  have haccepted := (objectAccepted_serializeBatch hflat).mp hbody
  have hrejects := (haccepted _ (List.mem_singleton_self _)).2 hkeep
  cases hrejects

/-- **Theorem (`rebuild_complete_iff`).** With a report, only the lines that the schema keeps have
to be accepted, and every committed event must have one. -/
theorem rebuild_complete_iff (h : Reachable P pg service s) (issues : RecordIssues)
    (hcovers : Covers prefixes s.world.eventLog) :
    (Restores P pg prefixes s.world ↔ LogAccepted P pg (fun _ => true) s.world.eventLog) ∧
      (RestoresWithReport P pg issues prefixes s.world ↔
        LogAccepted P pg replayRecordValid s.world.eventLog ∧
          CommittedKept P pg replayRecordValid s.world) :=
  ⟨restores_iff h hcovers, restoresWithReport_iff issues hcovers⟩

theorem rebuild_complete_poison : ∃ s : FlushSystem, poisonObject ∈ s.world.eventLog.entries ∧
    (Restores Platform.plain nulRejecting [lit "events/"] s.world ↔
      LogAccepted Platform.plain nulRejecting (fun _ => true) s.world.eventLog) := by
  obtain ⟨s, hreach, hcovers, hmem⟩ := poison_reachable
  exact ⟨s, hmem, (rebuild_complete_iff hreach (fun _ => []) hcovers).1⟩

/-- **The poison stays in the log.** An event that Postgres refuses is isolated and sent to the
dead-letter queue, and its object makes every later replay fail. -/
theorem poison_stays : ∃ s : FlushSystem, Reachable Platform.plain nulRejecting {} s ∧
    Covers [lit "events/"] s.world.eventLog ∧
      ¬ Restores Platform.plain nulRejecting [lit "events/"] s.world ∧
        ∀ issues,
          ¬ RestoresWithReport Platform.plain nulRejecting issues [lit "events/"] s.world := by
  obtain ⟨s, hreach, hcovers, hmem⟩ := poison_reachable
  refine ⟨s, hreach, hcovers, fun h => ?_, fun issues h => ?_⟩
  · exact not_logAccepted_poison hmem rfl ((restores_iff hreach hcovers).mp h)
  · have hdirect : (toLoggedEvent Platform.plain poison (some [])).enrichment.sourcePlatform =
        .json (.str (lit "directo")) := rfl
    have hvalid := replayRecordValid_toLogLine hdirect (by decide)
    exact not_logAccepted_poison hmem hvalid ((restoresWithReport_iff issues hcovers).mp h).1

end FlushSystem

end Posta
