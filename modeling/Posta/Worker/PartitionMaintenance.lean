import Posta.Core.Partitions

/-!
# Partition maintenance and its alarm

Once a day the worker creates the partitions of the months to come, then counts the rows that went
to the default partition. The count goes to a gauge, and to the log where it is not zero.

**Theorem (`default_alarm_iff`).** The count is reported exactly where no month that has no
partition yet has a row in the default partition. The rows that the alarm is for are those that
Postgres refuses the partition for, and a refused partition ends the job before it counts.
-/

namespace Posta

open Js Interaction Interp

def monthsAhead : Nat := 3

def defaultPartitionMessage (rows : Nat) : JsString :=
  lit "events_default has " ++ natText rows ++
    lit (" row(s) — the partition maintenance job failed to create a partition ahead of need. " ++
      "Rows in events_default always mean the maintenance job failed.")

def defaultPartitionMeta (rows : Nat) : LogMeta :=
  [(lit "table", .str (lit "events_default")), (lit "rowCount", .num (.ofNat rows))]

def logDefaultPartitionRows (rows : Nat) : PartitionFlow Unit :=
  Flow.perform (PartitionOp.error (defaultPartitionMessage rows) (defaultPartitionMeta rows))

def processPartitionMaintenanceJob : PartitionFlow Unit := do
  ensurePartitionsAhead monthsAhead
  let defaultPartitionRows ← countDefaultPartitionRows
  Flow.perform (PartitionOp.setGauge defaultPartitionRows)
  if 0 < defaultPartitionRows then logDefaultPartitionRows defaultPartitionRows

structure MaintenanceWorld where
  now : Int
  db : Partitions
  gauge : Nat
  errors : List (JsString × LogMeta)

/-- What Postgres, the gauge and the log do. The count succeeds. -/
def maintained : Interp PartitionOp PartitionOp.Response MaintenanceWorld where
  pre _ _ := True
  exec
    | .now, w, (r : Int), w' => r = w.now ∧ w' = w
    | .createEventsPartition month, w, (r : Except Thrown Unit), w' =>
      match w.db.create month with
      | some db => r = .ok () ∧ w' = { w with db }
      | none => (∃ error, r = .error error) ∧ w' = w
    | .countDefault, w, (r : Except Thrown (List JsString)), w' =>
      r = .ok [natText w.db.defaultRows.length] ∧ w' = w
    | .setGauge rows, w, _, w' => w' = { w with gauge := rows }
    | .error message logMeta, w, _, w' => w' = { w with errors := w.errors ++ [(message, logMeta)] }

/-- The month of a run at an offset. -/
def MaintenanceWorld.monthAhead (w : MaintenanceWorld) (offset : Nat) : Month :=
  let today := civilOfDay (dayOfTime w.now)
  monthStartDate today.year (today.month + offset)

/-- The gauge shows the rows of the default partition, and an error tells of them where there are
any. -/
def Reported (w w' : MaintenanceWorld) : Prop :=
  let rows := w'.db.defaultRows.length
  w'.gauge = rows ∧ w'.errors = w.errors ++
    if 0 < rows then [(defaultPartitionMessage rows, defaultPartitionMeta rows)] else []

/-! ## Runs -/

variable {w w' : MaintenanceWorld}

/-- Nothing but partitions has changed. -/
structure Undisturbed (w w' : MaintenanceWorld) : Prop where
  gauge : w'.gauge = w.gauge
  errors : w'.errors = w.errors
  defaultRows : w'.db.defaultRows = w.db.defaultRows
  admits : ∀ month, w'.db.Admits month ↔ w.db.Admits month

theorem Undisturbed.refl (w : MaintenanceWorld) : Undisturbed w w :=
  ⟨rfl, rfl, rfl, fun _ => Iff.rfl⟩

theorem Undisturbed.create (h : Undisturbed w w') {month : Month} {db : Partitions}
    (hdb : w'.db.create month = some db) : Undisturbed w { w' with db } := by
  refine ⟨h.gauge, h.errors, ?_, ?_⟩
  · rw [← h.defaultRows]
    exact Partitions.create_defaultRows hdb
  · intro month'
    rw [← h.admits]
    exact Partitions.create_admits_iff hdb

theorem ensures_ensurePartitions {year : Int} {monthIndex months : Nat} {offsets : List Nat}
    (h : Undisturbed w w') :
    maintained.Ensures
      (fun _ v => Undisturbed w v ∧
        ∀ offset ∈ offsets, w.db.Admits (monthStartDate year (monthIndex + offset)))
      (fun _ v => Undisturbed w v ∧
        ∃ offset ∈ offsets, ¬ w.db.Admits (monthStartDate year (monthIndex + offset)))
      (ensurePartitions year monthIndex months offsets) w' := by
  induction offsets generalizing w' with
  | nil => exact ensures_pure ⟨h, fun _ ho => absurd ho List.not_mem_nil⟩
  | cons offset offsets ih =>
    refine ensures_bind (ensures_tryCatch (ensures_call trivial fun r v hr => ?_))
    have hsome : (w'.db.create (monthStartDate year (monthIndex + offset))).isSome ↔ _ :=
      Partitions.create_isSome_iff
    unfold maintained at hr
    dsimp only at hr
    cases hdb : w'.db.create (monthStartDate year (monthIndex + offset)) with
    | some db =>
      rw [hdb] at hr hsome
      obtain ⟨rfl, rfl⟩ := hr
      have hadmits := (h.admits _).1 (hsome.1 rfl)
      refine ensures_pure (a := ()) (Ensures.mono (ih (h.create hdb)) ?_ ?_)
      · rintro _ v ⟨hv, hall⟩
        exact ⟨hv, List.forall_mem_cons.2 ⟨hadmits, hall⟩⟩
      · rintro _ v ⟨hv, o, ho, hrefused⟩
        exact ⟨hv, o, List.mem_cons_of_mem _ ho, hrefused⟩
    | none =>
      rw [hdb] at hr hsome
      obtain ⟨⟨error, rfl⟩, rfl⟩ := hr
      refine ⟨h, offset, List.mem_cons_self, ?_⟩
      rw [← h.admits, ← hsome]
      exact Bool.false_ne_true

theorem ensures_ensurePartitionsAhead (months : Nat) :
    maintained.Ensures
      (fun _ v => Undisturbed w v ∧ ∀ offset ≤ months, w.db.Admits (w.monthAhead offset))
      (fun _ v => Undisturbed w v ∧ ∃ offset ≤ months, ¬ w.db.Admits (w.monthAhead offset))
      (ensurePartitionsAhead months) w := by
  refine ensures_bind (ensures_perform trivial ?_)
  rintro now v ⟨rfl, rfl⟩
  refine Ensures.mono (ensures_ensurePartitions (.refl _)) ?_ ?_
  · rintro _ v ⟨hv, hall⟩
    exact ⟨hv, fun offset ho => hall offset (List.mem_range.2 (Nat.lt_succ_of_le ho))⟩
  · rintro _ v ⟨hv, offset, ho, hrefused⟩
    exact ⟨hv, offset, Nat.le_of_lt_succ (List.mem_range.1 ho), hrefused⟩

theorem ensures_countDefaultPartitionRows :
    maintained.Ensures (fun rows v => rows = v.db.defaultRows.length ∧ v = w) (fun _ _ => False)
      countDefaultPartitionRows w := by
  refine ensures_bind (ensures_call trivial ?_)
  rintro r v ⟨rfl, rfl⟩
  exact ⟨natValue_natText _, rfl⟩

theorem ensures_processPartitionMaintenanceJob :
    maintained.Ensures
      (fun _ v => Reported w v ∧ ∀ offset ≤ monthsAhead, w.db.Admits (w.monthAhead offset))
      (fun _ v => Undisturbed w v ∧ ∃ offset ≤ monthsAhead, ¬ w.db.Admits (w.monthAhead offset))
      processPartitionMaintenanceJob w := by
  refine ensures_seq (ensures_ensurePartitionsAhead monthsAhead) ?_
  rintro ⟨⟩ v ⟨hv, hadmits⟩
  refine ensures_bind (Ensures.mono ensures_countDefaultPartitionRows ?_ fun _ _ h => h.elim)
  rintro rows u ⟨rfl, rfl⟩
  refine ensures_bind (ensures_perform trivial ?_)
  rintro ⟨⟩ _ rfl
  by_cases hrows : 0 < u.db.defaultRows.length
  · rw [if_pos hrows]
    refine ensures_perform trivial ?_
    rintro ⟨⟩ _ rfl
    refine ⟨⟨rfl, ?_⟩, hadmits⟩
    rw [if_pos hrows, ← hv.errors]
  · rw [if_neg hrows]
    refine ensures_pure ⟨⟨rfl, ?_⟩, hadmits⟩
    rw [if_neg hrows, List.append_nil]
    exact hv.errors

theorem maintained_total (op : PartitionOp) (w : MaintenanceWorld) :
    ∃ r w', maintained.exec op w r w' := by
  cases op with
  | now => exact ⟨w.now, w, rfl, rfl⟩
  | createEventsPartition month =>
    unfold maintained
    dsimp only
    cases w.db.create month with
    | some db => exact ⟨_, _, rfl, rfl⟩
    | none => exact ⟨.error (.new []), w, ⟨_, rfl⟩, rfl⟩
  | countDefault => exact ⟨_, _, rfl, rfl⟩
  | setGauge rows => exact ⟨(), _, rfl⟩
  | error message logMeta => exact ⟨(), _, rfl⟩

/-- **Theorem (`default_alarm_iff`).** Whatever partitions there are and whatever rows in the
default partition: the job reports the rows in the default partition if and only if each of the
current month and the next three has a partition or no row there. -/
theorem default_alarm_iff (w : MaintenanceWorld) :
    (∀ h r w', maintained.Execs processPartitionMaintenanceJob w h (.done r) w' → Reported w w') ↔
      ∀ offset ≤ monthsAhead, w.db.Admits (w.monthAhead offset) := by
  constructor
  · intro hreported
    obtain ⟨h, r, w', he⟩ := exists_execs_done maintained_total processPartitionMaintenanceJob w
    have hpost := he.wp ensures_processPartitionMaintenanceJob
    cases r with
    | ok => exact hpost.2
    | error error =>
      obtain ⟨hv, offset, -, hrefused⟩ := hpost
      obtain ⟨-, herrors⟩ := hreported h _ w' he
      obtain ⟨t, ht, -⟩ : ∃ t ∈ w.db.defaultRows, (w.monthAhead offset).Contains t := by
        simpa using (not_or.1 hrefused).2
      rw [if_pos (by rw [hv.defaultRows]; exact List.length_pos_of_mem ht), hv.errors] at herrors
      simp at herrors
  · intro hadmits h r w' he
    have hpost := he.wp ensures_processPartitionMaintenanceJob
    cases r with
    | ok => exact hpost.1
    | error error =>
      obtain ⟨-, offset, ho, hrefused⟩ := hpost
      exact absurd (hadmits offset ho) hrefused

/-- A row of July 2026 that came before the partition of July 2026. -/
def maskedWorld : MaintenanceWorld where
  now := 1784678399500
  db := ⟨[], [1784678399500]⟩
  gauge := 0
  errors := []

theorem maskedWorld_refused : maskedWorld.db.create (maskedWorld.monthAhead 0) = none := by decide

/-- The gauge stays at zero, and nothing is logged. -/
theorem default_alarm_masked : ∃ h r,
    maintained.Execs processPartitionMaintenanceJob maskedWorld h (.done r) maskedWorld ∧
      ¬ Reported maskedWorld maskedWorld := by
  have hcreate : maintained.exec (.createEventsPartition (maskedWorld.monthAhead 0)) maskedWorld
      (.error (.new [])) maskedWorld := by
    unfold maintained
    dsimp only
    rw [maskedWorld_refused]
    exact ⟨⟨_, rfl⟩, rfl⟩
  refine ⟨_, _, .cons ⟨rfl, rfl⟩ (.cons hcreate (.nil _ _)), ?_⟩
  rintro ⟨hgauge, -⟩
  exact absurd hgauge (by decide)

end Posta
