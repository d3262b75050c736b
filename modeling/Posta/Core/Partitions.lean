import Posta.Core.Platform
import Posta.Interaction.Sequential

/-!
# Partitions of the events table

The events table has a partition for each month that one was created for, and a default partition
for every other row.

**Creation** (`Partitions.create`). Postgres refuses a partition whose range holds a row that is
in the default partition already; a partition that is there is left as it is.

**Ahead of need** (`ensurePartitionsAhead`). The current month and those after it, one by one, up
to the first that is refused.
-/

namespace Posta

open Js Interaction

/-- The month is counted from 0. -/
structure Month where
  year : Int
  index : Nat
deriving DecidableEq

namespace Month

def next (m : Month) : Month := if m.index = 11 then ⟨m.year + 1, 0⟩ else ⟨m.year, m.index + 1⟩

/-- Its first instant, in UTC. -/
def start (m : Month) : Int := dayOfCivil ⟨m.year, m.index, 1⟩ * msPerDay

def Contains (m : Month) (t : Int) : Prop := m.start ≤ t ∧ t < m.next.start

instance (m : Month) (t : Int) : Decidable (m.Contains t) :=
  inferInstanceAs (Decidable (_ ∧ _))

/-- `YYYY-MM-01`. -/
def text (m : Month) : JsString :=
  intText m.year ++ lit "-" ++ padStartZero 2 (natText (m.index + 1)) ++ lit "-01"

end Month

/-- `Date.UTC` takes the years 0 to 99 for those of the twentieth century. -/
def monthStartDate (year : Int) (monthIndexZeroBased : Nat) : Month :=
  let fullYear := if 0 ≤ year ∧ year ≤ 99 then 1900 + year else year
  ⟨fullYear + monthIndexZeroBased / 12, monthIndexZeroBased % 12⟩

example : (monthStartDate 2026 13).text = lit "2027-02-01" := by decide

/-- The months with a partition, and the times of the rows in `events_default`. -/
structure Partitions where
  months : List Month
  defaultRows : List Int

namespace Partitions

/-- `create_events_partition`, `none` where Postgres refuses it. -/
def create (db : Partitions) (month : Month) : Option Partitions :=
  if month ∈ db.months then some db
  else if ∃ t ∈ db.defaultRows, month.Contains t then none
  else some { db with months := month :: db.months }

/-- A month whose partition can be created, or is there. -/
def Admits (db : Partitions) (month : Month) : Prop :=
  month ∈ db.months ∨ ∀ t ∈ db.defaultRows, ¬ month.Contains t

variable {db db' : Partitions} {month month' : Month}

theorem create_isSome_iff : (db.create month).isSome ↔ db.Admits month := by
  unfold create Admits
  split_ifs with hmem hrow
  · simp [hmem]
  · simp only [Option.isSome_none, Bool.false_eq_true, false_iff, not_or, not_forall, not_not]
    obtain ⟨t, ht, hcontains⟩ := hrow
    exact ⟨hmem, t, ht, hcontains⟩
  · simp only [Option.isSome_some, true_iff]
    refine .inr fun t ht hcontains => hrow ⟨t, ht, hcontains⟩

theorem create_defaultRows (h : db.create month = some db') : db'.defaultRows = db.defaultRows := by
  unfold create at h
  split_ifs at h
  · obtain rfl := Option.some.inj h
    rfl
  · obtain rfl := Option.some.inj h
    rfl

/-- Creating one partition makes no other month possible or impossible. -/
theorem create_admits_iff (h : db.create month = some db') :
    db'.Admits month' ↔ db.Admits month' := by
  have hadmits : db.Admits month := create_isSome_iff.1 (h ▸ rfl)
  unfold create at h
  split_ifs at h with hmem
  · obtain rfl := Option.some.inj h
    rfl
  · obtain rfl := Option.some.inj h
    unfold Admits at hadmits ⊢
    rw [List.mem_cons, or_assoc, or_iff_right_iff_imp]
    rintro rfl
    exact hadmits

end Partitions

/-! ## What the job asks for -/

inductive PartitionOp where
  | now
  /-- `SELECT create_events_partition($1::date)`. -/
  | createEventsPartition (month : Month)
  /-- `SELECT count(*)::text AS count FROM ONLY events_default`. -/
  | countDefault
  /-- `gauge.set(rows)`. -/
  | setGauge (rows : Nat)
  | error (message : JsString) (logMeta : LogMeta)

/-- `countDefault` answers with the rows of its result. -/
def PartitionOp.Response : PartitionOp → Type
  | .now => Int
  | .createEventsPartition _ => Except Thrown Unit
  | .countDefault => Except Thrown (List JsString)
  | _ => Unit

abbrev PartitionFlow (α : Type) := Flow PartitionOp PartitionOp.Response Thrown α

def partitionFailure (month : Month) (offset months : Nat) (error : Thrown) : Thrown :=
  .new (lit "ensurePartitionsAhead: failed to create the partition for " ++ month.text ++
    lit " (offset " ++ natText offset ++ lit " of 0-" ++ natText months ++ lit "): " ++
    error.errorMessage)

/-- The months at the offsets, in turn. -/
def ensurePartitions (year : Int) (monthIndex months : Nat) : List Nat → PartitionFlow Unit
  | [] => pure ()
  | offset :: offsets => do
    let month := monthStartDate year (monthIndex + offset)
    tryCatch (Prog.call (PartitionOp.createEventsPartition month) Prog.done)
      fun error => throw (partitionFailure month offset months error)
    ensurePartitions year monthIndex months offsets

def ensurePartitionsAhead (months : Nat) : PartitionFlow Unit := do
  let now : Int ← Flow.perform PartitionOp.now
  let today := civilOfDay (dayOfTime now)
  ensurePartitions today.year today.month months (List.range (months + 1))

def countDefaultPartitionRows : PartitionFlow Nat := do
  let rows : List JsString ← Prog.call PartitionOp.countDefault Prog.done
  pure (natValue (rows.head?.getD (lit "0")))

end Posta
