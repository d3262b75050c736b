import Posta.Store.Listing
import Posta.Worker.RebuildCompleteness

/-!
# What a rebuild restores

The row of an event is decided by the insertion that commits first; the restored row by the object
that is streamed first. The destination of a link is looked up again by every attempt, and an
attempt replaces the object of the one before.

**Deciding objects** (`Decides`). The row that the log decides for a key is the first one with that
key in the first object, in the order of the stream, that has one.

**Theorem (`rebuild_fidelity`).** In a run where every write to the log agrees with the rows that
are committed already, and every insertion commits the rows that the log decides
(`FaithfulStep`), the log restores exactly the committed rows, at every point of the run. No other
step keeps a faithful state faithful.
-/

namespace Posta

open Js Interaction Store

variable {P : Platform} {pg : Postgres} {prefixes : List JsString}

/-! ## The deciding object -/

/-- The first row of an object with a key. -/
def firstRow (P : Platform) (pg : Postgres) (body : JsString) (k : EventKey) : Option EventRow :=
  (objectRows P pg (fun _ => true) body).find? fun r => r.key = k

/-- The order in which the objects are streamed. -/
def StreamedBefore (prefixes : List JsString) : JsString → JsString → Prop :=
  SortedStore.Before (prefixes.map List.isPrefixOf)

/-- The log decides this row for its key. -/
def Decides (P : Platform) (pg : Postgres) (prefixes : List JsString) (eventLog : EventStore)
    (r : EventRow) : Prop :=
  ∃ e ∈ eventLog.entries, firstRow P pg e.2 r.key = some r ∧
    ∀ e' ∈ eventLog.entries, StreamedBefore prefixes e'.1 e.1 → firstRow P pg e'.2 r.key = none

theorem listedObjects_eq (eventLog : EventStore) :
    listedObjects eventLog prefixes = eventLog.listing (prefixes.map List.isPrefixOf) := by
  rw [listedObjects, SortedStore.listing, List.flatMap_map]
  rfl

theorem find_logRows (eventLog : EventStore) (k : EventKey) :
    (logRows P pg (fun _ => true) eventLog prefixes).find? (fun r => r.key = k) =
      (eventLog.listing (prefixes.map List.isPrefixOf)).findSome? fun e => firstRow P pg e.2 k := by
  rw [logRows, List.find?_flatMap, listedObjects_eq]
  rfl

namespace FlushSystem

variable {service : DlqService} {s s' : FlushSystem} {w w' : World}

theorem decides_iff {eventLog : EventStore} (hcovers : Covers prefixes eventLog) {r : EventRow} :
    (logRows P pg (fun _ => true) eventLog prefixes).find? (fun r' => r'.key = r.key) = some r ↔
      Decides P pg prefixes eventLog r := by
  have hlisted : ∀ e ∈ eventLog.entries, ∃ p ∈ prefixes.map List.isPrefixOf, p e.1 = true := by
    intro e he
    obtain ⟨p, hp, hpre⟩ := hcovers e he
    exact ⟨_, List.mem_map_of_mem hp, List.isPrefixOf_iff_prefix.mpr hpre⟩
  rw [find_logRows, SortedStore.findSome?_listing]
  constructor
  · rintro ⟨e, he, -, hfirst, hbefore⟩
    exact ⟨e, he, hfirst, fun e' he' hb => hbefore e' he' (hlisted e' he') hb⟩
  · rintro ⟨e, he, hfirst, hbefore⟩
    exact ⟨e, he, hlisted e he, hfirst, fun e' he' _ hb => hbefore e' he' hb⟩

/-! ## Faithful states -/

/-- A replay of everything into an empty table ends, and has every committed row. -/
def Faithful (P : Platform) (pg : Postgres) (prefixes : List JsString) (w : World) : Prop :=
  ∀ batchSize : Int, ∃ summary table,
    replayEventLog P pg { prefixes, batchSize } w.eventLog .empty = .ok (summary, table) ∧
      ∀ r ∈ w.events.rows, r ∈ table.rows

theorem faithful_iff (hcovers : Covers prefixes w.eventLog) : Faithful P pg prefixes w ↔
    LogAccepted P pg (fun _ => true) w.eventLog ∧
      ∀ r ∈ w.events.rows, Decides P pg prefixes w.eventLog r := by
  have hmem : ∀ r, r ∈ (KeyedTable.empty.insert
      (logRows P pg (fun _ => true) w.eventLog prefixes) : EventTable).rows ↔
        Decides P pg prefixes w.eventLog r := by
    intro r
    rw [KeyedTable.mem_iff_find, KeyedTable.find_insert, KeyedTable.find_empty, Option.none_or]
    exact decides_iff hcovers
  constructor
  · intro h
    obtain ⟨summary, table, hreplay, hrows⟩ := h 500
    obtain ⟨hall, htable⟩ := replay_iff.mp ⟨summary, hreplay⟩
    refine ⟨fun e he => hall e ((mem_listedObjects_of_covers hcovers).mpr he), fun r hr => ?_⟩
    rw [htable] at hrows
    exact (hmem r).mp (hrows r hr)
  · rintro ⟨hall, hdecides⟩ batchSize
    have hlisted : ∀ e ∈ listedObjects w.eventLog prefixes,
        ObjectAccepted P pg (fun _ => true) e.2 := fun e he => hall e (mem_listedObjects.mp he).1
    have hreplays : ∃ summary, replayEventLog P pg { prefixes, batchSize } w.eventLog .empty =
        .ok (summary, KeyedTable.empty.insert
          (logRows P pg (fun _ => true) w.eventLog prefixes)) := replay_of_accepted hlisted .empty
    obtain ⟨summary, hreplay⟩ := hreplays
    exact ⟨summary, _, hreplay, fun r hr => (hmem r).mpr (hdecides r hr)⟩

theorem Faithful.decides (h : Faithful P pg prefixes w) (hcovers : Covers prefixes w.eventLog) :
    ∀ r ∈ w.events.rows, Decides P pg prefixes w.eventLog r := ((faithful_iff hcovers).mp h).2

/-! ## Faithful steps -/

/-- A write to the log that agrees with the committed rows: its lines are accepted, and where it
is the first object with a row of a committed key, that row is the committed one. -/
structure PutFaithful (P : Platform) (pg : Postgres) (prefixes : List JsString) (w : World)
    (key body : JsString) : Prop where
  accepted : ObjectAccepted P pg (fun _ => true) body
  first : ∀ r ∈ w.events.rows,
    (∀ e ∈ w.eventLog.entries, StreamedBefore prefixes e.1 key → firstRow P pg e.2 r.key = none) →
      ∀ r', firstRow P pg body r.key = some r' → r' = r

/-- The row is one that an insertion adds. -/
def AddsRow (pg : Postgres) (table : EventTable) (rows : List NewEvent) (r : EventRow) : Prop :=
  table.find r.key = none ∧
    ∃ bound, boundRows pg rows = .ok bound ∧ bound.find? (fun r' => r'.key = r.key) = some r

/-- An insertion that adds the rows the log decides. -/
def InsertFaithful (P : Platform) (pg : Postgres) (prefixes : List JsString) (w : World)
    (rows : List NewEvent) : Prop :=
  ∀ r, AddsRow pg w.events rows r → Decides P pg prefixes w.eventLog r

/-- What a step does to the log and the table. -/
inductive Change (pg : Postgres) (w w' : World) : Prop
  | same (hlog : w'.eventLog = w.eventLog) (hevents : w'.events = w.events)
  | put (key body : JsString) (hlog : w'.eventLog = w.eventLog.put key body)
      (hevents : w'.events = w.events)
  | insert (rows : List NewEvent) (hlog : w'.eventLog = w.eventLog)
      (hevents : insertEventsBatch pg w.events rows = .ok w'.events)

/-- A step that keeps a faithful state faithful. -/
inductive FaithfulStep (P : Platform) (pg : Postgres) (prefixes : List JsString) (w w' : World) :
    Prop
  | same (hlog : w'.eventLog = w.eventLog) (hevents : w'.events = w.events)
  | put (key body : JsString) (hlog : w'.eventLog = w.eventLog.put key body)
      (hevents : w'.events = w.events) (hfaithful : PutFaithful P pg prefixes w key body)
  | insert (rows : List NewEvent) (hlog : w'.eventLog = w.eventLog)
      (hevents : insertEventsBatch pg w.events rows = .ok w'.events)
      (hfaithful : InsertFaithful P pg prefixes w rows)

theorem change_of_effect {op : WorkerOp} (h : w.effect pg op = some w') : Change pg w w' := by
  cases op with
  | putObject key body =>
    cases h
    exact .put key body rfl rfl
  | insertEvents rows =>
    simp only [World.effect] at h
    cases hi : insertEventsBatch pg w.events rows with
    | error e =>
      rw [hi] at h
      cases h
    | ok table =>
      rw [hi] at h
      cases h
      exact .insert rows rfl hi
  | add event => cases h
  | _ =>
    cases h
    exact .same rfl rfl

theorem change_of_exec {op : WorkerOp} {r : op.Response} (h : World.Exec pg op w r w') :
    Change pg w w' := by
  obtain ⟨-, h | ⟨-, rfl | rfl⟩⟩ := h
  · exact change_of_effect h
  · exact .same rfl rfl
  · exact .same rfl rfl

theorem change_of_step (h : Step P pg service s s') : Change pg s.world s'.world := by
  cases h with
  | spawn b hne hfresh => exact .same rfl rfl
  | exec i t ht op k hrest r w hexec => exact change_of_exec hexec
  | outside op hop r w hexec => exact change_of_exec hexec
  | land op w hland =>
    obtain ⟨before, after, -, he⟩ := hland
    cases change_of_effect he with
    | same hlog hevents => exact .same hlog hevents
    | put key body hlog hevents => exact .put key body hlog hevents
    | insert rows hlog hevents => exact .insert rows hlog hevents
  | crash late hlate => exact .same rfl rfl

/-! ## Writes -/

/-- An accepted object has rows for the keys of its node. -/
theorem firstRow_isSome_iff {b : RootBatch} {node : Node} {key body : JsString}
    {logged : List LoggedEvent} (hobj : World.NodeObject P b node key body logged)
    (haccepted : ObjectAccepted P pg (fun _ => true) body) {k : EventKey} :
    (firstRow P pg body k).isSome ↔ ∃ e ∈ nodeEvents b.2 node, e.key = k := by
  have hflat := platformFlat_of_enriched hobj.enriched
  rw [hobj.body] at haccepted
  have hread := readable_of_accepted hflat haccepted
  rw [firstRow, hobj.body, objectRows_serializeBatch hflat hread, List.filter_true,
    List.find?_isSome, ← hobj.events]
  constructor
  · rintro ⟨r, hr, hk⟩
    obtain ⟨l, hl, rfl⟩ := List.mem_map.mp hr
    exact ⟨l.event, List.mem_map_of_mem hl,
      (key_replayedRow pg l).symm.trans (of_decide_eq_true hk)⟩
  · rintro ⟨e, he, hk⟩
    obtain ⟨l, hl, rfl⟩ := List.mem_map.mp he
    exact ⟨l.replayedRow pg, List.mem_map_of_mem hl,
      decide_eq_true ((key_replayedRow pg l).trans hk)⟩

/-- An object is replaced by one with rows for the same keys. -/
theorem firstRow_of_replaced (hinv : w.Inv P) (hinv' : w'.Inv P) (hb : w.batches ⊆ w'.batches)
    {key old body : JsString} (hold : (key, old) ∈ w.eventLog.entries)
    (hnew : (key, body) ∈ w'.eventLog.entries)
    (hacc : ObjectAccepted P pg (fun _ => true) old)
    (hacc' : ObjectAccepted P pg (fun _ => true) body) {k : EventKey}
    (h : (firstRow P pg old k).isSome) : (firstRow P pg body k).isSome := by
  obtain ⟨b, hbatch, node, logged, hobj⟩ := hinv.objects _ hold
  obtain ⟨b', hbatch', node', logged', hobj'⟩ := hinv'.objects _ hnew
  obtain ⟨rfl, rfl⟩ := hobj.unique hinv'.roots (hb hbatch) hbatch' hobj'
  exact (firstRow_isSome_iff hobj' hacc').mpr ((firstRow_isSome_iff hobj hacc).mp h)

theorem decides_put (hinv : w.Inv P) (hinv' : w'.Inv P) (hb : w.batches ⊆ w'.batches)
    {key body : JsString} (hlog : w'.eventLog = w.eventLog.put key body)
    (hall : LogAccepted P pg (fun _ => true) w.eventLog)
    (hput : PutFaithful P pg prefixes w key body) {r : EventRow} (hr : r ∈ w.events.rows)
    (hd : Decides P pg prefixes w.eventLog r) : Decides P pg prefixes w'.eventLog r := by
  obtain ⟨e, he, hfirst, hbefore⟩ := hd
  have hself : (key, body) ∈ w'.eventLog.entries := by
    rw [hlog]
    exact SortedStore.mem_put_self _ _ _
  have hmem : ∀ {e' : JsString × JsString}, e' ∈ w'.eventLog.entries →
      e' = (key, body) ∨ (e' ∈ w.eventLog.entries ∧ e'.1 ≠ key) := by
    intro e' he'
    rw [hlog] at he'
    exact SortedStore.mem_put.mp he'
  -- the written object decides when no other one does before it
  have hwritten : (∀ e' ∈ w.eventLog.entries, StreamedBefore prefixes e'.1 key →
      firstRow P pg e'.2 r.key = none) → (firstRow P pg body r.key).isSome →
        Decides P pg prefixes w'.eventLog r := by
    intro hnone hsome
    obtain ⟨r', hr'⟩ := Option.isSome_iff_exists.mp hsome
    have hrow := hput.first r hr hnone r' hr'
    subst hrow
    refine ⟨(key, body), hself, hr', fun e' he' hb' => ?_⟩
    rcases hmem he' with rfl | ⟨he', -⟩
    · exact absurd hb' SortedStore.Before.irrefl
    · exact hnone e' he' hb'
  by_cases hkey : e.1 = key
  · obtain ⟨ekey, old⟩ := e
    obtain rfl : ekey = key := hkey
    refine hwritten hbefore ?_
    exact firstRow_of_replaced hinv hinv' hb he hself (hall _ he) hput.accepted
      (by rw [hfirst]; rfl)
  · by_cases hfirst' : StreamedBefore prefixes key e.1 ∧ (firstRow P pg body r.key).isSome
    · exact hwritten (fun e' he' hb' => hbefore e' he' (hb'.trans hfirst'.1)) hfirst'.2
    · refine ⟨e, by rw [hlog]; exact SortedStore.mem_put_of_ne he hkey _, hfirst, ?_⟩
      intro e' he' hb'
      rcases hmem he' with rfl | ⟨he', -⟩
      · by_contra hsome
        exact hfirst' ⟨hb', Option.isSome_iff_ne_none.mpr hsome⟩
      · exact hbefore e' he' hb'

/-! ## Insertions -/

theorem mem_of_insertEventsBatch {table table' : EventTable} {rows : List NewEvent}
    (h : insertEventsBatch pg table rows = .ok table') {r : EventRow} :
    r ∈ table'.rows ↔ r ∈ table.rows ∨ AddsRow pg table rows r := by
  obtain ⟨bound, hbound, -, rfl⟩ := insertEventsBatch_ok_iff.mp h
  rw [KeyedTable.mem_iff_find, KeyedTable.mem_iff_find, KeyedTable.find_insert,
    Option.or_eq_some_iff, AddsRow]
  constructor
  · rintro (hr | ⟨hnone, hr⟩)
    · exact Or.inl hr
    · exact Or.inr ⟨hnone, bound, hbound, hr⟩
  · rintro (hr | ⟨hnone, bound', hbound', hr⟩)
    · exact Or.inl hr
    · rw [hbound, Except.ok.injEq] at hbound'
      exact Or.inr ⟨hnone, hbound' ▸ hr⟩

/-! ## Runs -/

/-- What a faithful step keeps. -/
structure Agrees (P : Platform) (pg : Postgres) (prefixes : List JsString) (w : World) : Prop where
  accepted : LogAccepted P pg (fun _ => true) w.eventLog
  decides : ∀ r ∈ w.events.rows, Decides P pg prefixes w.eventLog r

theorem agrees_step (hinv : s.Inv P pg) (hstep : Step P pg service s s')
    (hfaithful : FaithfulStep P pg prefixes s.world s'.world)
    (h : Agrees P pg prefixes s.world) : Agrees P pg prefixes s'.world := by
  obtain ⟨hinv', hgrows⟩ := step_inv hstep hinv
  cases hfaithful with
  | same hlog hevents =>
    refine ⟨?_, ?_⟩
    · rw [hlog]
      exact h.accepted
    · rw [hlog, hevents]
      exact h.decides
  | put key body hlog hevents hput =>
    refine ⟨fun e he => ?_, fun r hr => ?_⟩
    · rw [hlog] at he
      rcases SortedStore.mem_put.mp he with rfl | ⟨he, -⟩
      · exact hput.accepted
      · exact h.accepted e he
    · rw [hevents] at hr
      exact decides_put hinv.world hinv'.world hgrows.batches hlog h.accepted hput hr
        (h.decides r hr)
  | insert rows hlog hevents hinsert =>
    refine ⟨by rw [hlog]; exact h.accepted, fun r hr => ?_⟩
    rw [hlog]
    rcases (mem_of_insertEventsBatch hevents).mp hr with hr | hr
    · exact h.decides r hr
    · exact hinsert r hr

/-- A run whose steps are all faithful. -/
def FaithfulRun (P : Platform) (pg : Postgres) (service : DlqService) (prefixes : List JsString)
    (s : FlushSystem) : Prop :=
  Relation.ReflTransGen
    (fun s s' => Step P pg service s s' ∧ FaithfulStep P pg prefixes s.world s'.world) init s

theorem FaithfulRun.reachable (h : FaithfulRun P pg service prefixes s) :
    Reachable P pg service s := Relation.ReflTransGen.mono (fun _ _ h => h.1) _ _ h

theorem FaithfulRun.agrees (h : FaithfulRun P pg service prefixes s) :
    Agrees P pg prefixes s.world := by
  induction h with
  | refl => exact ⟨fun e he => absurd he List.not_mem_nil, fun r hr => absurd hr List.not_mem_nil⟩
  | tail hrun hstep ih =>
    have hreach : Reachable P pg service _ := FaithfulRun.reachable hrun
    exact agrees_step hreach.inv hstep.1 hstep.2 ih

/-- A step between faithful states is faithful. -/
theorem faithfulStep_of_faithful (hstep : Step P pg service s s')
    (hcovers : Covers prefixes s'.world.eventLog) (h : Faithful P pg prefixes s'.world) :
    FaithfulStep P pg prefixes s.world s'.world := by
  obtain ⟨hall, hdecides⟩ := (faithful_iff hcovers).mp h
  cases change_of_step hstep with
  | same hlog hevents => exact .same hlog hevents
  | put key body hlog hevents =>
    have hself : (key, body) ∈ s'.world.eventLog.entries := by
      rw [hlog]
      exact SortedStore.mem_put_self _ _ _
    refine .put key body hlog hevents ⟨hall _ hself, fun r hr hnone r' hr' => ?_⟩
    obtain ⟨e, he, hfirst, hbefore⟩ := hdecides r (by rw [hevents]; exact hr)
    have hnone' : ∀ e' ∈ s'.world.eventLog.entries, StreamedBefore prefixes e'.1 key →
        firstRow P pg e'.2 r.key = none := by
      intro e' he' hb'
      rw [hlog] at he'
      rcases SortedStore.mem_put.mp he' with rfl | ⟨he', -⟩
      · exact absurd hb' SortedStore.Before.irrefl
      · exact hnone e' he' hb'
    by_cases hkey : e.1 = key
    · have hsame : e = (key, body) := SortedStore.eq_of_key_eq he hself hkey
      rw [hsame, hr'] at hfirst
      exact Option.some.inj hfirst
    · rcases SortedStore.Before.total hkey with hb | hb
      · rw [hnone' e he hb] at hfirst
        cases hfirst
      · rw [hbefore _ hself hb] at hr'
        cases hr'
  | insert rows hlog hevents =>
    refine .insert rows hlog hevents fun r hr => ?_
    rw [← hlog]
    exact hdecides r ((mem_of_insertEventsBatch hevents).mpr (Or.inr hr))

/-- **Theorem (`rebuild_fidelity`).** -/
theorem rebuild_fidelity :
    (∀ s, FaithfulRun P pg service prefixes s → Covers prefixes s.world.eventLog →
      Faithful P pg prefixes s.world) ∧
    ∀ s s', Step P pg service s s' → Covers prefixes s'.world.eventLog →
      Faithful P pg prefixes s'.world → FaithfulStep P pg prefixes s.world s'.world := by
  constructor
  · intro s hrun hcovers
    have hagrees := hrun.agrees
    exact (faithful_iff hcovers).mpr ⟨hagrees.accepted, hagrees.decides⟩
  · intro s s' hstep hcovers h
    exact faithfulStep_of_faithful hstep hcovers h

/-! ## A faithful run -/

/-- Operations that are performed one after another, with faithful steps only. -/
inductive FaithfulExecs (P : Platform) (pg : Postgres) (prefixes : List JsString) :
    World → List WorkerEvent → World → Prop
  | nil (w : World) : FaithfulExecs P pg prefixes w [] w
  | cons {e : WorkerEvent} {h : List WorkerEvent} {w w' w'' : World}
      (he : World.Exec pg e.1 w e.2 w') (hfaithful : FaithfulStep P pg prefixes w w')
      (hrest : FaithfulExecs P pg prefixes w' h w'') : FaithfulExecs P pg prefixes w (e :: h) w''

theorem FaithfulRun.runs {p q : WorkerFlow Unit} {h : List WorkerEvent} (hr : Runs p h q)
    {threads : List FlushThread} {i : Nat} {b : RootBatch} (ht : threads[i]? = some ⟨b, p⟩)
    (hrun : FaithfulRun P pg service prefixes ⟨w, threads⟩)
    (he : FaithfulExecs P pg prefixes w h w') :
    ∃ threads', FaithfulRun P pg service prefixes ⟨w', threads'⟩ := by
  induction hr generalizing w threads with
  | nil p =>
    cases he
    exact ⟨threads, hrun⟩
  | @cons op k r h q hr ih =>
    cases he with
    | cons hexec hfaithful hrest =>
      have hstep : Step P pg service ⟨w, threads⟩ _ :=
        .exec ⟨w, threads⟩ i ⟨b, .call op k⟩ ht op k rfl r _ hexec
      have hi := (List.getElem?_eq_some_iff.mp ht).1
      have hget : (threads.set i ⟨b, k r⟩)[i]? = some ⟨b, k r⟩ := List.getElem?_set_self hi
      exact ih hget (hrun.tail ⟨hstep, hfaithful⟩) hrest

/-- The object of one event. -/
theorem firstRow_single {l : LoggedEvent} (hflat : l.enrichment.PlatformFlat)
    (hread : l.readable = true) {k : EventKey} {r : EventRow}
    (h : firstRow P pg (serializeBatch [l]) k = some r) : r = l.replayedRow pg := by
  have hflats : ∀ l' ∈ [l], l'.enrichment.PlatformFlat := fun l' hl' =>
    List.mem_singleton.mp hl' ▸ hflat
  have hreads : ∀ l' ∈ [l], l'.readable = true := fun l' hl' => List.mem_singleton.mp hl' ▸ hread
  rw [firstRow, objectRows_serializeBatch hflats hreads, List.filter_true] at h
  exact List.mem_singleton.mp (List.mem_of_find?_eq_some h)

/-- The URL of a host. -/
def hostUrl (host : JsString) : Url := ⟨lit "https:", [], [], host, host, lit "/", [], []⟩

/-- A platform that reads the URLs of two hosts. -/
def twoHosts : Platform :=
  { Platform.plain with
    url := fun text =>
      if text = lit "https://a.example/" then some (hostUrl (lit "a.example"))
      else if text = lit "https://b.example/" then some (hostUrl (lit "b.example"))
      else none }

/-- The click of the examples, and the batch that holds it alone. -/
def click : CaptureEvent := CaptureEvent.plain (lit "a")

def clickBatch : RootBatch := (⟨lit "01J00000000000000000000001", by decide⟩, [click])

/-- The link of the click leads to this destination. -/
def leadsTo (destination : JsString) (_linkId : JsString) : Option LinkDestinationLookup :=
  some ⟨click.tenantId.1, destination⟩

theorem resolves (destination : JsString) : ∀ e ∈ [click],
    (resolveDestination (leadsTo destination) e).reason = none := by
  intro e he
  rw [List.mem_singleton.mp he]
  rfl

def clickKey : JsString := eventKey clickBatch.1.1 click.occurredAt.time

/-- The click, logged with a destination. -/
def loggedClick (destination : JsString) : LoggedEvent :=
  toLoggedEvent twoHosts click (some destination)

theorem covers_click {eventLog : EventStore} (h : ∀ e ∈ eventLog.entries, e.1 = clickKey) :
    Covers [lit "events/"] eventLog := by
  intro e he
  rw [h e he]
  exact ⟨_, List.mem_singleton_self _, events_prefix_eventKey _ _⟩

theorem forall_key_put {eventLog : EventStore} (h : ∀ e ∈ eventLog.entries, e.1 = clickKey)
    {body : JsString} : ∀ e ∈ (eventLog.put clickKey body).entries, e.1 = clickKey := by
  intro e he
  rcases SortedStore.mem_put.mp he with rfl | ⟨he, -⟩
  · rfl
  · exact h e he

theorem flat_click (destination : JsString) : (loggedClick destination).enrichment.PlatformFlat :=
  enrich_platformFlat _ _ _ _

/-- The row of an event is that of its line when its source platform is a text. -/
theorem replayedRow_eq_row {l : LoggedEvent} {v : Json}
    (h : l.enrichment.sourcePlatform = .json v) : l.replayedRow pg = l.row pg := by
  have hget : ∀ c, ∃ v, l.get (.column c) = .json v := by
    have hnullable : ∀ s : Option JsString, ∃ v, JsValue.ofNullable s = .json v := by
      intro s
      cases s <;> exact ⟨_, rfl⟩
    intro c
    cases c with
    | sourcePlatform => exact ⟨v, h⟩
    | eventId => exact ⟨_, rfl⟩
    | tenantId => exact ⟨_, rfl⟩
    | linkId => exact ⟨_, rfl⟩
    | slug => exact ⟨_, rfl⟩
    | asn => exact ⟨_, rfl⟩
    | isInApp => exact ⟨_, rfl⟩
    | _ => exact hnullable _
  have hvalue : ∀ c, JsValue.readBack (l.columnValue c) = l.columnValue c := by
    intro c
    obtain ⟨v, hv⟩ := hget c
    rw [LoggedEvent.columnValue, hv]
    split
    · split_ifs <;> rfl
    · rfl
  rw [LoggedEvent.replayedRow, LoggedEvent.row]
  congr 1
  funext c
  rw [hvalue c]

/-- Its object is accepted, and its first row is that of the click. -/
theorem accepted_click (destination : JsString) (hread : (loggedClick destination).readable = true) :
    ObjectAccepted twoHosts acceptingPostgres (fun _ => true)
      (serializeBatch [loggedClick destination]) := by
  have hflats : ∀ l ∈ [loggedClick destination], l.enrichment.PlatformFlat := fun l hl =>
    List.mem_singleton.mp hl ▸ flat_click destination
  refine (objectAccepted_serializeBatch hflats).mpr fun l hl => ⟨?_, fun _ => rfl⟩
  rw [List.mem_singleton.mp hl]
  exact hread

theorem firstRow_click (destination : JsString) (hread : (loggedClick destination).readable = true) :
    firstRow twoHosts acceptingPostgres (serializeBatch [loggedClick destination]) click.key =
      some ((loggedClick destination).replayedRow acceptingPostgres) := by
  have hsome : (firstRow twoHosts acceptingPostgres (serializeBatch [loggedClick destination])
      click.key).isSome := by
    have hobj : World.NodeObject twoHosts clickBatch [] clickKey
        (serializeBatch [loggedClick destination]) [loggedClick destination] :=
      ⟨rfl, fun l hl => by rw [List.mem_singleton.mp hl]; exact ⟨some destination, rfl⟩,
        ⟨_, eventBatchKey_event _ _ click⟩, rfl⟩
    exact (firstRow_isSome_iff hobj (accepted_click destination hread)).mpr
      ⟨click, List.mem_singleton_self _, rfl⟩
  obtain ⟨r, hr⟩ := Option.isSome_iff_exists.mp hsome
  rw [hr, firstRow_single (flat_click destination) hread hr]

theorem FaithfulExecs.append {w w' w'' : World} {h h' : List WorkerEvent}
    (he : FaithfulExecs P pg prefixes w h w') (he' : FaithfulExecs P pg prefixes w' h' w'') :
    FaithfulExecs P pg prefixes w (h ++ h') w'' := by
  induction he with
  | nil => exact he'
  | cons hexec hfaithful _ ih => exact .cons hexec hfaithful (ih he')

/-- The pause after an attempt. -/
theorem faithfulExecs_sleep (ms : Nat) (w : World) :
    FaithfulExecs P pg prefixes w [⟨.sleep ms, ()⟩] w :=
  .cons ⟨trivial, Or.inl rfl⟩ (.same rfl rfl) (.nil _)

/-- An attempt at the click. -/
theorem faithfulExecs_click {destination : JsString} {r : Except Thrown Unit}
    (hput : PutFaithful twoHosts acceptingPostgres prefixes w clickKey
      (serializeBatch [loggedClick destination]))
    (hexec : World.Exec acceptingPostgres
      (.insertEvents ([loggedClick destination].map LoggedEvent.newEvent))
      (w.written clickKey (serializeBatch [loggedClick destination])) r w')
    (hfaithful : FaithfulStep twoHosts acceptingPostgres prefixes
      (w.written clickKey (serializeBatch [loggedClick destination])) w') :
    FaithfulExecs twoHosts acceptingPostgres prefixes w
      (flushOps twoHosts (leadsTo destination) clickKey [click] r) w' :=
  .cons ⟨trivial, Or.inl rfl⟩ (.same rfl rfl)
    (.cons ⟨trivial, Or.inl rfl⟩ (.put clickKey _ rfl rfl hput) (.cons hexec hfaithful (.nil _)))

/-- What an attempt at the click performs. -/
theorem runs_click (destination : JsString) (r : Except Thrown Unit) :
    Runs (flushBatch twoHosts { dlqSink := DlqService.send twoHosts {} } [click] clickBatch.1.1)
      (flushOps twoHosts (leadsTo destination) clickKey [click] r) (.done r) :=
  runs_flushBatch (resolves destination) (eventBatchKey_event _ _ _) r

theorem readable_click : (loggedClick (lit "https://a.example/")).readable = true ∧
    (loggedClick (lit "https://b.example/")).readable = true := by
  decide +kernel

/-- The first row of the object is the row of the insertion. -/
theorem firstRow_row {destination : JsString} (hread : (loggedClick destination).readable = true) :
    firstRow twoHosts acceptingPostgres (serializeBatch [loggedClick destination])
        ((loggedClick destination).row acceptingPostgres).key =
      some ((loggedClick destination).row acceptingPostgres) := by
  have hkey : ((loggedClick destination).row acceptingPostgres).key = click.key := key_row _ _
  have hplatform : (loggedClick destination).enrichment.sourcePlatform =
      .json (.str (lit "directo")) := rfl
  rw [hkey, firstRow_click destination hread, replayedRow_eq_row hplatform]

theorem addsRow_click {destination : JsString} {table : EventTable} {r : EventRow}
    (h : AddsRow acceptingPostgres table ([loggedClick destination].map LoggedEvent.newEvent) r) :
    r = (loggedClick destination).row acceptingPostgres := by
  obtain ⟨-, bound, hbound, hfind⟩ := h
  rw [boundRows_newEvents, Except.ok.injEq] at hbound
  rw [← hbound] at hfind
  exact List.mem_singleton.mp (List.mem_of_find?_eq_some hfind)

/-- The object of the click may be written while its row is not there. -/
theorem putFaithful_click {destination : JsString}
    (hread : (loggedClick destination).readable = true) (hempty : w.events.rows = []) :
    PutFaithful twoHosts acceptingPostgres prefixes w clickKey
      (serializeBatch [loggedClick destination]) :=
  ⟨accepted_click destination hread, fun _ hr => absurd (hempty ▸ hr) List.not_mem_nil⟩

/-- The click may be inserted right after its object was written, when there is no other. -/
theorem insertFaithful_click {destination : JsString}
    (hread : (loggedClick destination).readable = true)
    (hlog : ∀ e ∈ w.eventLog.entries, e.1 = clickKey) :
    InsertFaithful twoHosts acceptingPostgres prefixes
      (w.written clickKey (serializeBatch [loggedClick destination]))
      ([loggedClick destination].map LoggedEvent.newEvent) := by
  intro r hr
  rw [addsRow_click hr]
  refine ⟨(clickKey, serializeBatch [loggedClick destination]), SortedStore.mem_put_self _ _ _,
    firstRow_row hread, fun e he hb => ?_⟩
  rcases SortedStore.mem_put.mp he with rfl | ⟨he, hne⟩
  · exact absurd hb SortedStore.Before.irrefl
  · exact absurd (hlog e he) hne

/-- An attempt after the click was inserted: the same object is written, and no row is added. -/
theorem faithfulExecs_again {destination : JsString}
    (hread : (loggedClick destination).readable = true)
    (hrows : w.events.rows = [(loggedClick destination).row acceptingPostgres]) :
    FaithfulExecs twoHosts acceptingPostgres prefixes w
      (flushOps twoHosts (leadsTo destination) clickKey [click] (.ok ()))
      { w.written clickKey (serializeBatch [loggedClick destination]) with
        events := w.events.insert [(loggedClick destination).row acceptingPostgres] } := by
  refine faithfulExecs_click ⟨accepted_click destination hread, fun r hr _ r' hr' => ?_⟩
    (exec_insert (fun _ _ => rfl) (.ok ()))
    (.insert ([loggedClick destination].map LoggedEvent.newEvent) rfl rfl fun r hr => ?_)
  · rw [hrows] at hr
    have hsame : r = (loggedClick destination).row acceptingPostgres := List.mem_singleton.mp hr
    rw [hsame, firstRow_row hread] at hr'
    rw [hsame]
    exact (Option.some.inj hr').symm
  · have hmem : r ∈ w.events.rows := by
      rw [addsRow_click hr, hrows]
      exact List.mem_singleton_self _
    have hnone : w.events.find r.key = none := hr.1
    rw [(w.events.mem_iff_find r).mp hmem] at hnone
    cases hnone

/-- **A click that is retried.** The first insertion fails without any effect; the link is edited;
the second insertion commits its row and reports an error; the third attempt writes the same object
again and adds nothing. -/
theorem rebuild_fidelity_retried : ∃ s : FlushSystem,
    Reachable twoHosts acceptingPostgres {} s ∧
      (loggedClick (lit "https://b.example/")).row acceptingPostgres ∈ s.world.events.rows ∧
      Faithful twoHosts acceptingPostgres [lit "events/"] s.world := by
  let lost : Thrown := .new (lit "Connection terminated unexpectedly")
  let a := lit "https://a.example/"
  let b := lit "https://b.example/"
  obtain ⟨hreada, hreadb⟩ := readable_click
  have hruns : Runs (productionFlush twoHosts {} [click] clickBatch.1.1) _ (.done (.ok ())) :=
    runs_production_ok (List.cons_ne_nil _ _)
      ((runs_attempt_error (by omega) (runs_click a (.error lost))).append
        ((runs_attempt_error (by omega) (runs_click b (.error lost))).append
          (runs_attempt_ok (runs_click b (.ok ())))))
  let w₀ : World := { World.empty with batches := [clickBatch] }
  let w₁ := w₀.written clickKey (serializeBatch [loggedClick a])
  let w₂ := w₁.written clickKey (serializeBatch [loggedClick b])
  let w₃ : World := { w₂ with events := w₂.events.insert [(loggedClick b).row acceptingPostgres] }
  have hlog₁ : ∀ e ∈ w₁.eventLog.entries, e.1 = clickKey :=
    forall_key_put fun e he => absurd he List.not_mem_nil
  have hfailed : FaithfulExecs twoHosts acceptingPostgres [lit "events/"] w₀ _ w₁ :=
    faithfulExecs_click (putFaithful_click hreada rfl) (exec_insert_failed _ lost) (.same rfl rfl)
  have hlost : FaithfulExecs twoHosts acceptingPostgres [lit "events/"] w₁ _ w₃ :=
    faithfulExecs_click (putFaithful_click hreadb rfl) (exec_insert (fun _ _ => rfl) (.error lost))
      (.insert _ rfl rfl (insertFaithful_click hreadb hlog₁))
  have hagain : FaithfulExecs twoHosts acceptingPostgres [lit "events/"] w₃ _ _ :=
    faithfulExecs_again hreadb rfl
  have hinit : FaithfulRun twoHosts acceptingPostgres {} [lit "events/"] init := .refl
  have hspawned : FaithfulRun twoHosts acceptingPostgres {} [lit "events/"]
      ⟨w₀, [⟨clickBatch, productionFlush twoHosts {} clickBatch.2 clickBatch.1.1⟩]⟩ :=
    hinit.tail ⟨.spawn init clickBatch (List.cons_ne_nil _ _) List.not_mem_nil, .same rfl rfl⟩
  obtain ⟨threads, hrun⟩ := FaithfulRun.runs hruns (i := 0) rfl hspawned
    ((hfailed.append (faithfulExecs_sleep _ _)).append
      ((hlost.append (faithfulExecs_sleep _ _)).append hagain))
  exact ⟨_, hrun.reachable, KeyedTable.mem_insert_of_mem _ (List.mem_singleton_self _) _,
    rebuild_fidelity.1 _ hrun (covers_click (forall_key_put (forall_key_put hlog₁)))⟩

/-- **A retry rewrites history.** The first attempt commits its row and reports an error; the link
is edited; the second attempt replaces the object. -/
theorem retry_rewrites : ∃ s : FlushSystem, Reachable twoHosts acceptingPostgres {} s ∧
    Covers [lit "events/"] s.world.eventLog ∧
      ¬Faithful twoHosts acceptingPostgres [lit "events/"] s.world := by
  let lost : Thrown := .new (lit "Connection terminated unexpectedly")
  let a := lit "https://a.example/"
  let b := lit "https://b.example/"
  have hattempts : Runs (rootAttempts twoHosts {} [click] clickBatch.1.1) _ _ :=
    (runs_attempt_error (by omega) (runs_click a (.error lost))).append
      (runs_attempt_error (by omega) (runs_click b (.error lost)))
  obtain ⟨q, hruns⟩ := runs_production_start (List.cons_ne_nil _ _) hattempts
  have hsleep : ∀ (ms : Nat) (w : World),
      World.Execs acceptingPostgres w [⟨.sleep ms, ()⟩] w :=
    fun ms w => execs_idle trivial rfl (.nil _)
  have hinit : Reachable twoHosts acceptingPostgres {} ⟨World.empty, []⟩ := .refl
  have hne : clickBatch.2 ≠ [] := List.cons_ne_nil _ _
  obtain ⟨threads, hreach⟩ := hinit.flush hne (by decide) hruns (execs_append
    (execs_append (execs_flushOps (exec_insert (fun _ _ => rfl) (.error lost))) (hsleep _ _))
    (execs_append (execs_flushOps (exec_insert_failed _ _)) (hsleep _ _)))
  have hentries : ∀ e ∈ ((SortedStore.empty.put clickKey (serializeBatch [loggedClick a])).put
      clickKey (serializeBatch [loggedClick b]) : EventStore).entries,
        e = (clickKey, serializeBatch [loggedClick b]) := by
    intro e he
    rcases SortedStore.mem_put.mp he with rfl | ⟨he, hne⟩
    · rfl
    · rcases SortedStore.mem_put.mp he with rfl | ⟨he, -⟩
      · exact absurd rfl hne
      · cases he
  have hcovers := covers_click fun e he => congrArg Prod.fst (hentries e he)
  refine ⟨_, hreach, hcovers, fun hfaithful => ?_⟩
  have hdecides := hfaithful.decides hcovers
  have hrow : (loggedClick a).row acceptingPostgres ∈ (KeyedTable.empty.insert
      [(loggedClick a).row acceptingPostgres] : EventTable).rows := List.mem_singleton_self _
  obtain ⟨e, he, hfirst, -⟩ := hdecides _ hrow
  have hbody : e.2 = serializeBatch [loggedClick b] := congrArg Prod.snd (hentries e he)
  rw [hbody] at hfirst
  have hread : (loggedClick b).readable = true := readable_click.2
  have hsame : (loggedClick a).row acceptingPostgres = (loggedClick b).replayedRow _ :=
    firstRow_single (flat_click b) hread hfirst
  have htext := congrArg (fun r => r.text .destHost) hsame
  exact absurd htext (by decide +kernel)

end FlushSystem

end Posta
