import Posta.Worker.FlushRuns

/-!
# The log holds every row

**Theorem (`r2_superset`).** In every state of every run, every row of the events table is in an
object of the event log. An object is replaced only by one of its own node, which holds the same
events.
-/

namespace Posta

open Js Interaction

namespace FlushSystem

variable {P : Platform} {pg : Postgres} {service : DlqService} {s : FlushSystem}

/-- The object holds a line for an event with this key. -/
def Contains (body : JsString) (k : EventKey) : Prop :=
  ∃ logged : List LoggedEvent, body = serializeBatch logged ∧ ∃ l ∈ logged, l.event.key = k

theorem contains_of_backed {w : World} {k : EventKey} (h : w.Backed P k) :
    ∃ entry ∈ w.eventLog.entries, lit "events/" <+: entry.1 ∧ Contains entry.2 k := by
  obtain ⟨entry, hentry, b, -, node, logged, hobj, e, he, hk⟩ := h
  refine ⟨entry, hentry, ?_, logged, hobj.body, ?_⟩
  · obtain ⟨occurredAt, hkey⟩ := hobj.key
    obtain ⟨t, -, hkey⟩ := eventBatchKey_ok.mp hkey
    rw [hkey, eventKey, partitionPrefix]
    exact (List.prefix_append_right_inj (lit "events/")).mpr (List.nil_prefix) |>.trans
      (by simp only [List.append_assoc]; exact ⟨_, rfl⟩)
  · rw [← hobj.events] at he
    obtain ⟨l, hl, rfl⟩ := List.mem_map.mp he
    exact ⟨l, hl, hk⟩

/-- **Theorem (`r2_superset`).** No write ever takes an inserted event out of the log. -/
theorem r2_superset (h : Reachable P pg service s) (r : EventRow)
    (hr : r ∈ s.world.events.rows) :
    ∃ entry ∈ s.world.eventLog.entries, lit "events/" <+: entry.1 ∧ Contains entry.2 r.key :=
  contains_of_backed (h.inv.world.rows r hr)

/-- One event, flushed at the first attempt. -/
theorem r2_superset_one :
    ∃ (s : FlushSystem) (r : EventRow), Reachable Platform.plain acceptingPostgres {} s ∧
      r ∈ s.world.events.rows ∧ ∃ entry ∈ s.world.eventLog.entries,
        lit "events/" <+: entry.1 ∧ Contains entry.2 r.key := by
  let e := CaptureEvent.plain (lit "a")
  let b : RootBatch := (⟨lit "01J00000000000000000000001", by decide⟩, [e])
  let f : JsString → Option LinkDestinationLookup := fun _ => some ⟨e.tenantId.1, []⟩
  have hf : ∀ x ∈ b.2, (resolveDestination f x).reason = none := by
    intro x hx
    rw [List.mem_singleton.mp hx]
    rfl
  have hruns : Runs (productionFlush Platform.plain {} b.2 b.1.1) _ (.done (.ok ())) :=
    runs_production_ok (List.cons_ne_nil _ _) (runs_attempt_ok
      (runs_flushBatch hf (eventBatchKey_event Platform.plain b.1.1 e) (.ok ())))
  have hinit : Reachable Platform.plain acceptingPostgres {} ⟨World.empty, []⟩ := .refl
  obtain ⟨threads, hreach⟩ := hinit.flush (List.cons_ne_nil _ _) (by decide) hruns
    (execs_flushOps (exec_insert (fun _ _ => rfl) (.ok ())))
  have hl : toLoggedEvent Platform.plain e (some []) ∈ loggedEventsOf Platform.plain f b.2 :=
    List.mem_singleton_self _
  obtain ⟨r, hr, -⟩ := Store.KeyedTable.exists_key_insert World.empty.events
    (List.mem_map_of_mem hl : LoggedEvent.row acceptingPostgres _ ∈ _)
  exact ⟨_, r, hreach, hr, r2_superset hreach r hr⟩

end FlushSystem

end Posta
