import Posta.Worker.Replay
import Posta.Worker.ReplayRange

/-!
# The replay command

**The driver** (`replayStream`). The loop of a replay over what a stream yields, with each batch
that it hands to the insert function, whatever that answers.

**Theorem (`applyInserts_replayStream`).** With the insert function of the database, the driver is
the replay of the table.

**The command** (`runReplayCli`). It replays the range of its arguments or, on a dry run, counts
what a replay would keep.
-/

namespace Posta

open Js Interaction

inductive ReplayOp where
  | insertEventsBatch (rows : List NewEvent)
  | stdout (line : JsString)
  | stderr (line : JsString)

def ReplayOp.Response : ReplayOp → Type
  | .insertEventsBatch _ => Except Thrown Unit
  | .stdout _ => Unit
  | .stderr _ => Unit

abbrev ReplayFlow (α : Type) := Flow ReplayOp ReplayOp.Response Thrown α

abbrev ReplayEvent := Event ReplayOp ReplayOp.Response

/-! ## The driver -/

/-- A batch handed to the insert function. -/
def insertBatch (rows : List NewEvent) : ReplayFlow Unit :=
  Prog.call (ReplayOp.insertEventsBatch rows) fun r : Except Thrown Unit => Prog.done r

/-- The variables of the loop. -/
structure ReplayVars where
  recordsRead : Nat
  batchesWritten : Nat
  buffer : List NewEvent

namespace ReplayVars

def flushBuffer (s : ReplayVars) : ReplayFlow ReplayVars :=
  if s.buffer.isEmpty then pure s
  else do
    insertBatch s.buffer
    return { s with batchesWritten := s.batchesWritten + 1, buffer := [] }

/-- The body of the loop. -/
def replayRecord (P : Platform) (options : ReplayDriverOptions) (s : ReplayVars)
    (record : LogRecord) : ReplayFlow ReplayVars :=
  let s := { s with recordsRead := s.recordsRead + 1 }
  if options.keeps record then do
    let row ← Flow.ofExcept (toNewEventRow P record.get)
    let s := { s with buffer := s.buffer ++ [row] }
    if options.batchSize ≤ s.buffer.length then s.flushBuffer else return s
  else return s

def replayRecords (P : Platform) (options : ReplayDriverOptions) :
    List LogRecord → ReplayVars → ReplayFlow ReplayVars
  | [], s => pure s
  | record :: records, s => do
    let s ← s.replayRecord P options record
    replayRecords P options records s

end ReplayVars

/-- `replayEventLog`, over what the stream of its prefixes yields. -/
def replayStream (P : Platform) (options : ReplayDriverOptions) (stream : Stream) :
    ReplayFlow ReplaySummary := do
  let s ← ReplayVars.replayRecords P options stream.records ⟨0, 0, []⟩
  match stream.error with
  | some error => throw error
  | none => do
    let s ← s.flushBuffer
    return ⟨s.recordsRead, s.batchesWritten⟩

/-! ## The command -/

/-- A line printed. -/
def printLine (op : JsString → ReplayOp) (line : JsString) : ReplayFlow Unit :=
  Prog.call (op line) fun _ => Prog.done (.ok ())

structure ReplayCliResult where
  exitCode : Nat
  matchedCount : Option Nat := none
  summary : Option ReplaySummary := none

def replayExitOk : Nat := 0

def replayExitArgsError : Nat := 1

def replayExitRuntimeError : Nat := 2

/-- `value === text`, for a text. -/
def equalsText (text : JsString) : JsValue → Bool
  | .json (.str s) => decide (s = text)
  | _ => false

def matchesTenant (tenantId : Option JsString) (record : LogRecord) : Bool :=
  tenantId.all fun tenantId => equalsText tenantId (record.get (.column .tenantId))

/-- The line of the warning. -/
def tenantWarning (tenantId : JsString) (recordsRead : Nat) : JsString :=
  lit "posta replay: --tenant \"" ++ tenantId ++ lit "\" matched 0 of " ++ natText recordsRead ++
    lit " record(s) read in range — not an error, but double-check the tenant id if that is " ++
    lit "unexpected."

def warnIfTenantMatchedNothing (tenantId : Option JsString) (recordsRead matchedCount : Nat) :
    ReplayFlow Unit :=
  match tenantId with
  | none => pure ()
  | some tenantId =>
    if recordsRead = 0 ∨ 0 < matchedCount then pure ()
    else printLine .stderr (tenantWarning tenantId recordsRead)

/-- The counting loop of a dry run: the records read and those that match. -/
def countMatching (tenantId : Option JsString) : List LogRecord → Nat × Nat → Nat × Nat
  | [], counts => counts
  | record :: records, (totalRead, matchedCount) =>
    countMatching tenantId records
      (totalRead + 1, if matchesTenant tenantId record then matchedCount + 1 else matchedCount)

/-- The line of a dry run. -/
def dryRunLine (tenantId : Option JsString) (matchedCount : Nat) : JsString :=
  lit "posta replay --dry-run: " ++ natText matchedCount ++ lit " record(s) would be replayed" ++
    (tenantId.elim [] fun tenantId => lit " for tenant \"" ++ tenantId ++ lit "\"") ++
    lit ", 0 inserted"

/-- The line of a replay. -/
def replayLine (tenantId : Option JsString) (summary : ReplaySummary) : JsString :=
  lit "posta replay: read " ++ natText summary.recordsRead ++ lit " record(s), wrote " ++
    natText summary.batchesWritten ++ lit " batch(es)" ++
    (tenantId.elim [] fun tenantId => lit " (filtered to tenant \"" ++ tenantId ++ lit "\")")

/-- What the command hands to the driver. -/
def ReplayCliOptions.driver (options : ReplayCliOptions) (prefixes : List JsString) :
    ReplayDriverOptions where
  prefixes := prefixes
  batchSize := options.batchSize.elim 500 Int.ofNat
  filter := options.tenantId.map fun tenantId => matchesTenant (some tenantId)

def dryRun (options : ReplayCliOptions) (stream : Stream) : ReplayFlow ReplayCliResult := do
  let counts := countMatching options.tenantId stream.records (0, 0)
  match stream.error with
  | some error => throw error
  | none => do
    warnIfTenantMatchedNothing options.tenantId counts.1 counts.2
    printLine .stdout (dryRunLine options.tenantId counts.2)
    return { exitCode := replayExitOk, matchedCount := some counts.2 }

def realRun (P : Platform) (options : ReplayCliOptions) (prefixes : List JsString)
    (stream : Stream) : ReplayFlow ReplayCliResult := do
  let summary ← replayStream P (options.driver prefixes) stream
  warnIfTenantMatchedNothing options.tenantId summary.recordsRead summary.batchesWritten
  printLine .stdout (replayLine options.tenantId summary)
  return { exitCode := replayExitOk, summary := some summary }

/-- The part of the command that follows its arguments. -/
def replayRange (P : Platform) (eventLog : EventStore) (options : ReplayCliOptions) :
    ReplayFlow ReplayCliResult := do
  let prefixes ← Flow.ofExcept (eventPrefixes P options.rangeFrom options.rangeTo)
  let stream := streamEventLog eventLog prefixes
  if options.dryRun then dryRun options stream else realRun P options prefixes stream

/-- What the command makes of a failure. -/
def reportFailure : Except Thrown ReplayCliResult → Prog ReplayOp ReplayOp.Response ReplayCliResult
  | .ok result => .done result
  | .error error => .call (.stderr (lit "posta replay: failed: " ++ error.errorMessage)) fun _ =>
      .done { exitCode := replayExitRuntimeError }

def runReplayCli (P : Platform) (parseArgs : List JsString → Except Thrown ReplayArgValues)
    (eventLog : EventStore) (argv : List JsString) :
    Prog ReplayOp ReplayOp.Response ReplayCliResult :=
  match parseReplayArgs P parseArgs argv with
  | .error error => .call (.stderr error.errorMessage) fun _ =>
      .done { exitCode := replayExitArgsError }
  | .ok options => Prog.bind (replayRange P eventLog options) reportFailure

/-! ## The driver at the database -/

/-- A flow whose insertions are those of the database. -/
def applyInserts {α : Type} (pg : Postgres) :
    ReplayFlow α → EventTable → Except ReplayAborted (α × EventTable)
  | .done (.ok a), table => .ok (a, table)
  | .done (.error error), table => .error ⟨error, table⟩
  | .call (.insertEventsBatch rows) k, table =>
    match insertEventsBatch pg table rows with
    | .ok table' => applyInserts pg (k (.ok ())) table'
    | .error error => applyInserts pg (k (.error error)) table
  | .call (.stdout _) k, table => applyInserts pg (k ()) table
  | .call (.stderr _) k, table => applyInserts pg (k ()) table

theorem applyInserts_bind {α β : Type} (pg : Postgres) (x : ReplayFlow α) (f : α → ReplayFlow β)
    (table : EventTable) :
    applyInserts pg (x >>= f : ReplayFlow β) table =
      applyInserts pg x table >>= fun r => applyInserts pg (f r.1) r.2 := by
  rw [Flow.bind_eq]
  induction x generalizing table with
  | done r =>
    cases r with
    | ok a => rfl
    | error error => rfl
  | call i k ih =>
    cases i with
    | insertEventsBatch rows =>
      simp only [Prog.call_bind, applyInserts]
      cases insertEventsBatch pg table rows with
      | ok table' => exact ih (.ok ()) table'
      | error error => exact ih (.error error) table
    | stdout line => exact ih () table
    | stderr line => exact ih () table

theorem applyInserts_ofExcept {α : Type} (pg : Postgres) (r : Except Thrown α)
    (table : EventTable) :
    applyInserts pg (Flow.ofExcept r : ReplayFlow α) table =
      (abortWith table r).map fun a => (a, table) := by
  cases r <;> rfl

theorem applyInserts_insert (pg : Postgres) (rows : List NewEvent) (table : EventTable) :
    applyInserts pg (insertBatch rows) table =
      (abortWith table (insertEventsBatch pg table rows)).map fun table' => ((), table') := by
  rw [insertBatch, applyInserts.eq_def]
  dsimp only
  cases insertEventsBatch pg table rows <;> rfl

/-- The variables of the loop, with the table. -/
def ReplayVars.at (r : ReplayVars × EventTable) : ReplayState :=
  ⟨r.2, r.1.recordsRead, r.1.batchesWritten, r.1.buffer⟩

theorem applyInserts_flushBuffer (pg : Postgres) (s : ReplayVars) (table : EventTable) :
    (applyInserts pg s.flushBuffer table).map ReplayVars.at =
      (ReplayVars.at (s, table)).flushBuffer pg := by
  have hbuffer : (ReplayVars.at (s, table)).buffer = s.buffer := rfl
  have htable : (ReplayVars.at (s, table)).table = table := rfl
  rw [ReplayVars.flushBuffer, ReplayState.flushBuffer, hbuffer, htable]
  split_ifs
  · rfl
  · rw [applyInserts_bind, applyInserts_insert]
    cases insertEventsBatch pg table s.buffer <;> rfl

theorem applyInserts_replayRecord (P : Platform) (pg : Postgres) (options : ReplayDriverOptions)
    (s : ReplayVars) (record : LogRecord) (table : EventTable) :
    (applyInserts pg (s.replayRecord P options record) table).map ReplayVars.at =
      (ReplayVars.at (s, table)).replayRecord P pg options record := by
  rw [ReplayVars.replayRecord, ReplayState.replayRecord]
  dsimp only
  split_ifs
  · rw [applyInserts_bind, applyInserts_ofExcept]
    cases toNewEventRow P record.get with
    | error e => rfl
    | ok row =>
      show (applyInserts pg (if options.batchSize ≤ ((s.buffer ++ [row]).length : Int) then _ else _)
        table).map ReplayVars.at = if options.batchSize ≤ ((s.buffer ++ [row]).length : Int) then _
          else _
      split_ifs
      · exact applyInserts_flushBuffer pg _ table
      · rfl
  · rfl

theorem applyInserts_replayRecords (P : Platform) (pg : Postgres) (options : ReplayDriverOptions)
    (records : List LogRecord) (s : ReplayVars) (table : EventTable) :
    (applyInserts pg (ReplayVars.replayRecords P options records s) table).map ReplayVars.at =
      ReplayState.replayRecords P pg options records (ReplayVars.at (s, table)) := by
  induction records generalizing s table with
  | nil => rfl
  | cons record records ih =>
    rw [ReplayVars.replayRecords, ReplayState.replayRecords, applyInserts_bind,
      ← applyInserts_replayRecord]
    cases applyInserts pg (s.replayRecord P options record) table with
    | error e => rfl
    | ok r => exact ih r.1 r.2

/-- **Theorem (`applyInserts_replayStream`).** -/
theorem applyInserts_replayStream (P : Platform) (pg : Postgres) (options : ReplayDriverOptions)
    (eventLog : EventStore) (table : EventTable) :
    applyInserts pg (replayStream P options (streamEventLog eventLog options.prefixes)) table =
      replayEventLog P pg options eventLog table := by
  have hrecords := applyInserts_replayRecords P pg options
    (streamEventLog eventLog options.prefixes).records ⟨0, 0, []⟩ table
  have hstart : ReplayVars.at (⟨0, 0, []⟩, table) = ⟨table, 0, 0, []⟩ := rfl
  rw [replayStream, replayEventLog, applyInserts_bind, ← hstart, ← hrecords]
  cases applyInserts pg (ReplayVars.replayRecords P options
      (streamEventLog eventLog options.prefixes).records ⟨0, 0, []⟩) table with
  | error e => rfl
  | ok r =>
    obtain ⟨s, table'⟩ := r
    cases (streamEventLog eventLog options.prefixes).error with
    | some e => rfl
    | none =>
      have hflush := applyInserts_flushBuffer pg s table'
      show applyInserts pg (s.flushBuffer >>= fun s => pure _) table' =
        ((ReplayVars.at (s, table')).flushBuffer pg >>= fun s => pure s.result)
      rw [applyInserts_bind, ← hflush]
      cases applyInserts pg s.flushBuffer table' <;> rfl

end Posta
