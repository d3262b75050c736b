import Mathlib.Data.List.Lex
import Mathlib.Data.List.Sort
import Posta.Interaction.Sequential
import Posta.Js.Value
import Posta.Store.KeyedTable
import Posta.Store.SortedStore
import Posta.Store.Transactions

/-!
# The runner of SQL migrations

Migration files are applied in the order of their names, each in a transaction that also records
its name and the checksum of its content. A recorded file is left alone while its content is what
was recorded, and is an error otherwise. Reverting a migration runs its down script and deletes its
row, again in one transaction.

**The world** (`MigrationWorld`). The directory of the files, and the connection to Postgres that the
pool hands out. What a script does to the schema, the tracking table apart, is a parameter
(`Scripts`): it may depend on the setting that `--force` turns on. Of every script that a
transaction committed, the database remembers which it was (`ExecutedScript`).
-/

namespace Posta

open Js Interaction Store

inductive Direction where
  | up
  | down
  deriving DecidableEq

/-- A script that was executed: that of the migration `filename`, in one direction. -/
structure ExecutedScript where
  direction : Direction
  filename : JsString
  content : JsString

/-- A row of `_posta_sql_migrations`. -/
structure TrackingRow where
  filename : JsString
  checksum : JsString

abbrev TrackingTable := KeyedTable TrackingRow.filename

/-- What is sent to Postgres besides the control of transactions. -/
inductive MigrationStatement where
  | createTrackingTable
  | selectChecksum (filename : JsString)
  | trackingTableExists
  /-- `SELECT filename … ORDER BY filename DESC`. -/
  | selectFilenames
  | script (direction : Direction) (filename content : JsString)
  | insertTracking (filename checksum : JsString)
  | setForce (value : JsString)
  | deleteTracking (filename : JsString)

/-- The rows that are read. -/
def MigrationStatement.Rows : MigrationStatement → Type
  | .selectChecksum _ => List JsString
  | .trackingTableExists => Bool
  | .selectFilenames => List JsString
  | _ => Unit

inductive MigrationOp where
  | readdir
  | readFile (name : JsString)
  | existsFile (name : JsString)
  /-- `pool.query`. -/
  | poolQuery (statement : MigrationStatement)
  | connect
  | begin
  | commit
  | rollback
  /-- `client.query`. -/
  | query (statement : MigrationStatement)
  | release (error : Option Thrown)

def MigrationOp.Response : MigrationOp → Type
  | .readdir => Except Thrown (List JsString)
  | .readFile _ => Except Thrown JsString
  | .existsFile _ => Bool
  | .poolQuery statement => Except Thrown statement.Rows
  | .connect => Except Thrown Unit
  | .begin => Except Thrown Unit
  | .commit => Except Thrown Unit
  | .rollback => Except Thrown Unit
  | .query statement => Except Thrown statement.Rows
  | .release _ => Unit

abbrev MigrationFlow (α : Type) := Flow MigrationOp MigrationOp.Response Thrown α

abbrev MigrationEvent := Event MigrationOp MigrationOp.Response

/-! ## File names -/

def sqlSuffix : JsString := lit ".sql"

def downSqlSuffix : JsString := lit ".down.sql"

def isNameChar (c : CodeUnit) : Bool := 97 ≤ c.toNat && c.toNat ≤ 122 || isDigit c || c = unit '_'

/-- `/^[0-9]{3}_[a-z0-9_]+\.sql$/`. -/
def matchesMigrationFilename (filename : JsString) : Bool :=
  sqlSuffix.isSuffixOf filename &&
    match filename.take (filename.length - sqlSuffix.length) with
    | a :: b :: c :: d :: name =>
      isDigit a && isDigit b && isDigit c && d = unit '_' && !name.isEmpty && name.all isNameChar
    | _ => false

def invalidFilenameMessage (filename : JsString) : JsString :=
  lit "Invalid migration filename \"" ++ filename ++
    lit "\": must match NNN_name.sql — refusing to use it to construct a filesystem path."

def assertSafeMigrationFilename (filename : JsString) : MigrationFlow Unit :=
  if matchesMigrationFilename filename then pure ()
  else throw (.new (invalidFilenameMessage filename))

/-- `filename.replace(/\.sql$/, '.down.sql')`. -/
def downFilenameFor (filename : JsString) : JsString :=
  if sqlSuffix.isSuffixOf filename then
    filename.take (filename.length - sqlSuffix.length) ++ downSqlSuffix
  else filename

def isMigrationFile (name : JsString) : Bool :=
  sqlSuffix.isSuffixOf name && !downSqlSuffix.isSuffixOf name

theorem downFilenameFor_eq {filename : JsString} (h : sqlSuffix.isSuffixOf filename = true) :
    ∃ name, filename = name ++ sqlSuffix ∧ downFilenameFor filename = name ++ downSqlSuffix := by
  obtain ⟨name, rfl⟩ := List.isSuffixOf_iff_suffix.mp h
  refine ⟨name, rfl, ?_⟩
  rw [downFilenameFor, if_pos h, List.length_append, Nat.add_sub_cancel, List.take_left]

/-- A down script belongs to one migration. -/
theorem downFilenameFor_inj {f g : JsString} (hf : sqlSuffix.isSuffixOf f = true)
    (hg : sqlSuffix.isSuffixOf g = true) (h : downFilenameFor f = downFilenameFor g) : f = g := by
  obtain ⟨name, rfl, hf⟩ := downFilenameFor_eq hf
  obtain ⟨name', rfl, hg⟩ := downFilenameFor_eq hg
  rw [hf, hg] at h
  rw [List.append_cancel_right h]

/-- A down script is no migration. -/
theorem not_isMigrationFile_downFilenameFor {f : JsString} (hf : sqlSuffix.isSuffixOf f = true) :
    isMigrationFile (downFilenameFor f) = false := by
  obtain ⟨name, -, hf⟩ := downFilenameFor_eq hf
  rw [isMigrationFile, hf, List.isSuffixOf_iff_suffix.mpr (List.suffix_append _ _), Bool.not_true,
    Bool.and_false]

/-- The files to apply, from what `readdirSync` lists. -/
def listMigrationFiles (names : List JsString) : List JsString :=
  (names.filter isMigrationFile).insertionSort (· ≤ ·)

/-! ## The runner -/

def readMigrationFile (name : JsString) : MigrationFlow JsString :=
  tryCatch (Prog.call (MigrationOp.readFile name) Prog.done) fun error =>
    throw (.new (lit "Failed to read migration file \"" ++ name ++ lit "\": " ++ error.errorMessage))

def ensureTrackingTable : MigrationFlow Unit :=
  Prog.call (MigrationOp.poolQuery .createTrackingTable) Prog.done

def failedMessage (errorContext : JsString) (error : Thrown) : JsString :=
  errorContext ++ lit ": " ++ error.errorMessage

def rollbackFailedMessage (errorContext : JsString) (error rollbackError : Thrown) : JsString :=
  errorContext ++ lit ": " ++ error.errorMessage ++
    lit ". Additionally, ROLLBACK itself failed: " ++ rollbackError.errorMessage ++
    lit " — the connection has been discarded, not returned to the pool."

/-- What follows an error within the transaction. -/
def rollbackAndThrow (errorContext : JsString) (error : Thrown) : MigrationFlow Unit := do
  tryCatch (do
    let _ ← Prog.call MigrationOp.rollback Prog.done
    Flow.perform (MigrationOp.release none))
    fun rollbackError => do
      Flow.perform (MigrationOp.release (some rollbackError.toError))
      throw (.new (rollbackFailedMessage errorContext error rollbackError))
  throw (.new (failedMessage errorContext error))

def runInTransaction (work : MigrationFlow Unit) (errorContext : JsString) :
    MigrationFlow Unit := do
  let _ ← Prog.call MigrationOp.connect Prog.done
  tryCatch (do
    let _ ← Prog.call MigrationOp.begin Prog.done
    work
    let _ ← Prog.call MigrationOp.commit Prog.done
    Flow.perform (MigrationOp.release none))
    (rollbackAndThrow errorContext)

def editedMessage (filename : JsString) : JsString :=
  lit "Migration \"" ++ filename ++
    lit ("\" has already been applied, but its content has changed since then (checksum " ++
      "mismatch). An applied migration must never be edited — add a NEW migration file instead.")

/-- The transaction that applies a file. -/
def applying (filename content checksum : JsString) : MigrationFlow Unit := do
  let _ ← Prog.call (MigrationOp.query (.script .up filename content)) Prog.done
  Prog.call (MigrationOp.query (.insertTracking filename checksum)) Prog.done

/-- The body of the loop over the files. -/
def applyMigration (checksumOf : JsString → JsString) (filename : JsString) :
    MigrationFlow Unit := do
  let content ← readMigrationFile filename
  let checksum := checksumOf content
  let existing : List JsString ←
    Prog.call (MigrationOp.poolQuery (.selectChecksum filename)) Prog.done
  match existing.head? with
  | some applied =>
    if applied ≠ checksum then throw (.new (editedMessage filename)) else pure ()
  | none =>
    runInTransaction (applying filename content checksum)
      (lit "Failed to apply migration \"" ++ filename ++ lit "\"")

def applyMigrations (checksumOf : JsString → JsString) : List JsString → MigrationFlow Unit
  | [] => pure ()
  | filename :: files => do
    applyMigration checksumOf filename
    applyMigrations checksumOf files

def runSqlMigrations (checksumOf : JsString → JsString) : MigrationFlow Unit := do
  ensureTrackingTable
  let names : List JsString ← Prog.call MigrationOp.readdir Prog.done
  applyMigrations checksumOf (listMigrationFiles names)

/-- The transaction that reverts a file. -/
def reverting (filename content : JsString) (force : Bool) : MigrationFlow Unit := do
  let _ ← Prog.call (MigrationOp.query (.setForce (lit (if force then "true" else "false"))))
    Prog.done
  let _ ← Prog.call (MigrationOp.query (.script .down filename content)) Prog.done
  Prog.call (MigrationOp.query (.deleteTracking filename)) Prog.done

def downSqlMigration (filename : JsString) (force : Bool) : MigrationFlow Unit := do
  assertSafeMigrationFilename filename
  let content ← readMigrationFile (downFilenameFor filename)
  runInTransaction (reverting filename content force)
    (lit "Failed to roll back migration \"" ++ filename ++ lit "\"")

/-! ## The world -/

/-- What the runner relies on Postgres for. `scripts content force before after`: with
`posta.force_migration_down` set to `force`, executing `content` may turn the schema `before` into
`after`. `collation` is the order of text. -/
structure Scripts (σ : Type) where
  scripts : JsString → Option JsString → σ → σ → Prop
  collation : JsString → JsString → Prop

/-- `force` is the setting of the running transaction; `history` are the scripts whose transactions
committed. -/
structure Database (σ : Type) where
  schema : σ
  tracking : Option TrackingTable
  history : List ExecutedScript
  force : Option JsString

namespace Database

variable {σ : Type}

/-- What outlives a transaction. -/
def settle (db : Database σ) : Database σ := { db with force := none }

/-- A statement that succeeds. -/
inductive Effect (pg : Scripts σ) :
    (statement : MigrationStatement) → Database σ → statement.Rows → Database σ → Prop
  | createTrackingTable (db : Database σ) :
      Effect pg .createTrackingTable db ()
        { db with tracking := some (db.tracking.getD KeyedTable.empty) }
  | selectChecksum {db : Database σ} {t : TrackingTable} (filename : JsString) :
      db.tracking = some t →
      Effect pg (.selectChecksum filename) db ((t.find filename).map TrackingRow.checksum).toList db
  | trackingTableExists (db : Database σ) :
      Effect pg .trackingTableExists db db.tracking.isSome db
  | selectFilenames {db : Database σ} {t : TrackingTable} {names : List JsString} :
      db.tracking = some t → names.Perm (t.rows.map TrackingRow.filename) →
      names.Pairwise (fun a b => pg.collation b a) → Effect pg .selectFilenames db names db
  | script {db : Database σ} {schema : σ} (direction : Direction) (filename content : JsString) :
      pg.scripts content db.force db.schema schema →
      Effect pg (.script direction filename content) db ()
        { db with schema, history := db.history ++ [⟨direction, filename, content⟩] }
  | insertTracking {db : Database σ} {t : TrackingTable} (filename checksum : JsString) :
      db.tracking = some t → filename ∉ t.rows.map TrackingRow.filename →
      Effect pg (.insertTracking filename checksum) db ()
        { db with tracking := some (t.insertOne ⟨filename, checksum⟩) }
  | setForce (db : Database σ) (value : JsString) :
      Effect pg (.setForce value) db () { db with force := some value }
  | deleteTracking {db : Database σ} {t : TrackingTable} (filename : JsString) :
      db.tracking = some t →
      Effect pg (.deleteTracking filename) db () { db with tracking := some (t.delete filename) }

end Database

structure MigrationWorld (σ : Type) where
  directory : SortedStore JsString JsString
  connection : Connection (Database σ)

namespace MigrationWorld

variable {σ : Type}

/-- The names in the directory. -/
def names (w : MigrationWorld σ) : List JsString := w.directory.entries.map Prod.fst

/-- The world before anything was migrated. -/
def start (schema : σ) (directory : SortedStore JsString JsString) : MigrationWorld σ :=
  ⟨directory, ⟨⟨schema, none, [], none⟩, .idle⟩⟩

/-- What an operation may answer and leave. The pool hands out the client that was returned to it, or
a new one; a client that is released with an error is closed. -/
inductive Step (pg : Scripts σ) (w : MigrationWorld σ) :
    (op : MigrationOp) → op.Response → MigrationWorld σ → Prop
  | readdir {names : List JsString} : names.Perm w.names → Step pg w .readdir (.ok names) w
  | readdirFailed (error : Thrown) : Step pg w .readdir (.error error) w
  | readFile {name content : JsString} : (name, content) ∈ w.directory.entries →
      Step pg w (.readFile name) (.ok content) w
  | readFileFailed (name : JsString) (error : Thrown) :
      Step pg w (.readFile name) (.error error) w
  | existsFile (name : JsString) : Step pg w (.existsFile name) (decide (name ∈ w.names)) w
  | poolQuery {statement : MigrationStatement} {r : Except Thrown statement.Rows}
      {c : Connection (Database σ)} :
      Answers (Done Database.settle (Database.Effect pg statement)) w.connection r c →
      Step pg w (.poolQuery statement) r { w with connection := c }
  | connect : Step pg w .connect (.ok ()) w
  | connectNew : Step pg w .connect (.ok ())
      { w with connection := ⟨w.connection.committed, .idle⟩ }
  | connectFailed (error : Thrown) : Step pg w .connect (.error error) w
  | begin {r : Except Thrown Unit} {c : Connection (Database σ)} : Answers Begun w.connection r c →
      Step pg w .begin r { w with connection := c }
  | commit {r : Except Thrown Unit} {c : Connection (Database σ)} :
      Answers (Committed Database.settle) w.connection r c →
      Step pg w .commit r { w with connection := c }
  | rollback {r : Except Thrown Unit} {c : Connection (Database σ)} :
      Answers RolledBack w.connection r c → Step pg w .rollback r { w with connection := c }
  | query {statement : MigrationStatement} {r : Except Thrown statement.Rows}
      {c : Connection (Database σ)} :
      Answers (Done Database.settle (Database.Effect pg statement)) w.connection r c →
      Step pg w (.query statement) r { w with connection := c }
  | release : Step pg w (.release none) () w
  | discard (error : Thrown) : Step pg w (.release (some error)) ()
      { w with connection := ⟨w.connection.committed, .idle⟩ }

end MigrationWorld

/-- The world of the runner, where what is committed keeps to `K`. -/
def migrating {σ : Type} (pg : Scripts σ) (K : Database σ → Prop) :
    Interp MigrationOp MigrationOp.Response (MigrationWorld σ) where
  pre _ w := K w.connection.committed
  exec op w r w' := w.Step pg op r w'

abbrev migrations {σ : Type} (pg : Scripts σ) :
    Interp MigrationOp MigrationOp.Response (MigrationWorld σ) := migrating pg fun _ => True

theorem listMigrationFiles_perm {names names' : List JsString} (h : names.Perm names') :
    listMigrationFiles names = listMigrationFiles names' := by
  have hsorted (l : List JsString) : (l.insertionSort (· ≤ ·)).SortedLE :=
    List.sortedLE_insertionSort
  refine List.Perm.eq_of_sortedLE (hsorted _) (hsorted _) ?_
  exact (List.perm_insertionSort _ _).trans
    ((h.filter _).trans (List.perm_insertionSort _ _).symm)

theorem isMigrationFile_of_listed {names : List JsString} {f : JsString}
    (hf : f ∈ listMigrationFiles names) : isMigrationFile f = true :=
  (List.mem_filter.mp ((List.mem_insertionSort _).mp hf)).2

end Posta
