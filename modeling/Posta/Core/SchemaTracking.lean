import Posta.Core.MigrateDown
import Posta.Core.MigrationHistory

/-!
# What the tracking rows say about the schema

**Theorem (`schema_tracked`).** Over any sequence of calls that apply the migrations of a directory and
revert the newest: as long as no recorded migration has objects attached to those of the one that is
reverted, every migration recorded as applied has its objects, and a call that applies the migrations
after any number of reverts brings back every object there was before them.

Where a recorded migration has such objects and no down script of its own, the revert drops them and
leaves its row (`objects_lost`), and no later call creates them again.
-/

namespace Posta

open Js Interaction Store

inductive SchemaCall where
  | runSqlMigrations
  | migrateDown (force : Bool)

def SchemaCall.prog (checksumOf : JsString → JsString) : SchemaCall → MigrationFlow Unit
  | .runSqlMigrations => Posta.runSqlMigrations checksumOf
  | .migrateDown force => do
    let _ ← Posta.migrateDown force
    pure ()

section Runs

variable {Object : Type} (pg : Scripts (Set Object)) (checksumOf : JsString → JsString)

/-- A call returns or throws, or dies with its process at any moment. -/
inductive SchemaStep (call : SchemaCall) (w : MigrationWorld (Set Object)) :
    MigrationWorld (Set Object) → Prop
  | finished {w' : MigrationWorld (Set Object)} {h : List MigrationEvent}
      {r : Except Thrown Unit} :
      (migrations pg).Execs (call.prog checksumOf) w h (.done r) w' → SchemaStep call w w'
  | crashed {w' : MigrationWorld (Set Object)} {h : List MigrationEvent}
      {q : MigrationFlow Unit} : (migrations pg).Execs (call.prog checksumOf) w h q w' →
      SchemaStep call w { w' with connection := ⟨w'.connection.committed, .idle⟩ }

/-- The worlds between calls that `Permitted` allows, from an empty database. -/
inductive Maintained (dir : SortedStore JsString JsString)
    (Permitted : SchemaCall → MigrationWorld (Set Object) → Prop) :
    MigrationWorld (Set Object) → Prop
  | start : Maintained dir Permitted (.start ∅ dir)
  | step {call : SchemaCall} {w w' : MigrationWorld (Set Object)} : Maintained dir Permitted w →
      Permitted call w → SchemaStep pg checksumOf call w w' → Maintained dir Permitted w'

/-- Nothing is attached to what is reverted. -/
def SafeRevert (dir : SortedStore JsString JsString) (objects : JsString → Set Object)
    (attached : Object → Object → Prop) : SchemaCall → MigrationWorld (Set Object) → Prop
  | .runSqlMigrations, _ => True
  | .migrateDown _, w => NothingAttached pg dir objects attached w.connection.committed

/-- Some number of reverts. -/
inductive Reverts (Permitted : SchemaCall → MigrationWorld (Set Object) → Prop)
    (w : MigrationWorld (Set Object)) : MigrationWorld (Set Object) → Prop
  | none : Reverts Permitted w w
  | revert {w₁ w₂ : MigrationWorld (Set Object)} {force : Bool} : Reverts Permitted w w₁ →
      Permitted (.migrateDown force) w₁ → SchemaStep pg checksumOf (.migrateDown force) w₁ w₂ →
      Reverts Permitted w w₂

variable {pg checksumOf} {dir : SortedStore JsString JsString} {objects : JsString → Set Object}
  {attached : Object → Object → Prop} {d : Database (Set Object)} {h : List MigrationEvent}
  {w w' : MigrationWorld (Set Object)}

/-- What holds of the database between calls. -/
abbrev Sound (checksumOf : JsString → JsString) (dir : SortedStore JsString JsString)
    (objects : JsString → Set Object) (d : Database (Set Object)) : Prop :=
  d.Faithful checksumOf ∧ Tracked dir objects d

/-- **One call** keeps it at every moment, and leaves no transaction behind. -/
theorem sound_of_call (hobj : MigrationObjects pg dir objects attached) {call : SchemaCall}
    (hd : Sound checksumOf dir objects d)
    (hsafe : SafeRevert pg dir objects attached call ⟨dir, ⟨d, .idle⟩⟩) {q : MigrationFlow Unit}
    (he : (migrations pg).Execs (call.prog checksumOf) ⟨dir, ⟨d, .idle⟩⟩ h q w') :
    Sound checksumOf dir objects w'.connection.committed ∧ w'.directory = dir ∧
      ∀ r, q = .done r → ∃ d', w' = ⟨dir, ⟨d', .idle⟩⟩ := by
  have hcall : (migrating pg (Sound checksumOf dir objects)).Ensures
      (fun _ v => ∃ d', v = ⟨dir, ⟨d', .idle⟩⟩ ∧ Sound checksumOf dir objects d')
      (fun _ v => ∃ d', v = ⟨dir, ⟨d', .idle⟩⟩ ∧ Sound checksumOf dir objects d')
      (call.prog checksumOf) ⟨dir, ⟨d, .idle⟩⟩ := by
    cases call with
    | runSqlMigrations =>
      exact ensures_runSqlMigrations (keptUp_faithful.and (keptUp_tracked hobj)) hd
    | migrateDown force =>
      have hreverted {filename content : JsString} {d' : Database (Set Object)}
          (hnewest : d.NewestRevertible pg dir filename)
          (hcontent : (downFilenameFor filename, content) ∈ dir.entries)
          (h : d.RevertedTo pg filename content d') : Sound checksumOf dir objects d'.settle :=
        ⟨faithful_of_revertedTo hd.1 h, tracked_of_revertedTo hobj hd.2 hnewest hsafe hcontent h⟩
      refine Interp.ensures_bind ((ensures_migrateDown hd hd.2.force
        (fun _ _ _ hn hc h => hreverted hn hc h) force).mono ?_ ?_)
      · rintro filename v ⟨hn, content, d', hc, h, rfl⟩
        exact Interp.ensures_pure ⟨_, rfl, hreverted hn hc h⟩
      · rintro - v (rfl | ⟨filename, hn, content, d', hc, h, rfl⟩)
        · exact ⟨d, rfl, hd⟩
        · exact ⟨_, rfl, hreverted hn hc h⟩
  refine ⟨kept_of_execs hcall he, directory_of_execs he, ?_⟩
  rintro r rfl
  have hpost := (execs_migrating he).wp hcall
  cases r <;> (obtain ⟨d', rfl, -⟩ := hpost; exact ⟨d', rfl⟩)

theorem sound_of_step (hobj : MigrationObjects pg dir objects attached) {call : SchemaCall}
    (hd : Sound checksumOf dir objects d)
    (hsafe : SafeRevert pg dir objects attached call ⟨dir, ⟨d, .idle⟩⟩)
    (hstep : SchemaStep pg checksumOf call ⟨dir, ⟨d, .idle⟩⟩ w') :
    ∃ d', w' = ⟨dir, ⟨d', .idle⟩⟩ ∧ Sound checksumOf dir objects d' := by
  cases hstep with
  | finished he =>
    obtain ⟨hsound, -, hidle⟩ := sound_of_call hobj hd hsafe he
    obtain ⟨d', rfl⟩ := hidle _ rfl
    exact ⟨d', rfl, hsound⟩
  | crashed he =>
    obtain ⟨hsound, hdir, -⟩ := sound_of_call hobj hd hsafe he
    exact ⟨_, by rw [hdir], hsound⟩

/-- Between calls no transaction is open. -/
theorem Maintained.sound (hobj : MigrationObjects pg dir objects attached)
    (hw : Maintained pg checksumOf dir (SafeRevert pg dir objects attached) w) :
    ∃ d, w = ⟨dir, ⟨d, .idle⟩⟩ ∧ Sound checksumOf dir objects d := by
  induction hw with
  | start => exact ⟨_, rfl, Database.faithful_start ∅, tracked_start⟩
  | step _ hsafe hstep ih =>
    obtain ⟨d, rfl, hd⟩ := ih
    exact sound_of_step hobj hd hsafe hstep

theorem Reverts.maintained {Permitted : SchemaCall → MigrationWorld (Set Object) → Prop}
    (hr : Reverts pg checksumOf Permitted w w') (hw : Maintained pg checksumOf dir Permitted w) :
    Maintained pg checksumOf dir Permitted w' := by
  induction hr with
  | none => exact hw
  | revert _ hpermitted hstep ih => exact .step ih hpermitted hstep

/-- A call that applied the migrations has recorded all of them. -/
theorem recorded_of_applied (hd : d.Faithful checksumOf)
    (he : (migrations pg).Execs (runSqlMigrations checksumOf) ⟨dir, ⟨d, .idle⟩⟩ h
      (.done (.ok ())) w') {filename : JsString} (hfile : isMigrationFile filename = true)
    (hmem : filename ∈ dir.entries.map Prod.fst) :
    w'.connection.committed.Recorded filename := by
  rcases execs_runSqlMigrations hd he with ⟨-, hrun⟩ | ⟨d₁, h₁, hd₁, -, -, hloop⟩
  · exact absurd rfl (hrun ())
  · obtain ⟨-, earlier, later, hfiles, hcurrent, -, -, hok⟩ :=
      execs_applyMigrations hd₁ (fun _ hf => isMigrationFile_of_listed hf) hloop
    rw [hok () rfl, List.append_nil] at hfiles
    have hlisted : filename ∈ earlier := by
      rw [← hfiles, listMigrationFiles, List.mem_insertionSort, List.mem_filter]
      exact ⟨hmem, hfile⟩
    obtain ⟨content, -, hrecords⟩ := hcurrent filename hlisted
    exact ⟨_, hrecords⟩

/-- **Theorem (`schema_tracked`).** -/
theorem schema_tracked (hobj : MigrationObjects pg dir objects attached)
    (hw : Maintained pg checksumOf dir (SafeRevert pg dir objects attached) w) :
    (∀ call h q w', SafeRevert pg dir objects attached call w →
      (migrations pg).Execs (SchemaCall.prog checksumOf call) w h q w' →
      w'.connection.committed.ObjectsPresent objects) ∧
    ∀ w₁ h w₂, Reverts pg checksumOf (SafeRevert pg dir objects attached) w w₁ →
      (migrations pg).Execs (runSqlMigrations checksumOf) w₁ h (.done (.ok ())) w₂ →
      w.connection.committed.schema ⊆ w₂.connection.committed.schema := by
  obtain ⟨d, rfl, hd⟩ := hw.sound hobj
  refine ⟨fun call h q w' hsafe he => (sound_of_call hobj hd hsafe he).1.2.present, ?_⟩
  intro w₁ h w₂ hr he o ho
  obtain ⟨d₁, rfl, hd₁⟩ := (hr.maintained hw).sound hobj
  obtain ⟨filename, hrecorded, hof⟩ := hd.2.owned o ho
  obtain ⟨hfile, hmem⟩ := hd.2.files filename hrecorded
  have hcall : (migrations pg).Execs (SchemaCall.runSqlMigrations.prog checksumOf)
      ⟨dir, ⟨d₁, .idle⟩⟩ h (.done (.ok ())) w₂ := he
  have hsafe : SafeRevert pg dir objects attached .runSqlMigrations ⟨dir, ⟨d₁, .idle⟩⟩ := trivial
  have hsound : Sound checksumOf dir objects w₂.connection.committed :=
    (sound_of_call hobj hd₁ hsafe hcall).1
  exact hsound.2.present filename (recorded_of_applied hd₁.1 he hfile hmem) hof

/-- **What the condition rules out.** A revert drops objects of a migration that stays recorded. -/
theorem objects_lost (hobj : MigrationObjects pg dir objects attached)
    (hd : Sound checksumOf dir objects d) {force : Bool} {filename : JsString}
    (he : (migrations pg).Execs (migrateDown force) ⟨dir, ⟨d, .idle⟩⟩ h
      (.done (.ok filename)) w') {g : JsString} (hg : d.Recorded g) (hne : g ≠ filename)
    {o : Object} (hog : o ∈ objects g) (hdropped : o ∈ Dropped attached (objects filename)) :
    ¬w'.connection.committed.ObjectsPresent objects := by
  have hpost := (execs_migrating he).wp
    (ensures_migrateDown (K := fun _ => True) trivial hd.2.force (fun _ _ _ _ _ _ => trivial) force)
  obtain ⟨hnewest, content, d', hcontent, h, rfl⟩ := hpost
  obtain ⟨hrec, hschema⟩ :=
    reverted_to hobj (hd.2.files filename hnewest.recorded).1 hcontent h
  intro hpresent
  have ho := hpresent g ((hrec g).mpr ⟨hg, hne⟩) hog
  change o ∈ d'.settle.schema at ho
  rw [hschema] at ho
  exact ho.2 hdropped

end Runs

/-! ## The partition that does not come back -/

inductive EventsObject where
  | events
  | eventsDefault

def eventsObjects (filename : JsString) : Set EventsObject :=
  {o | o = .events ∧ filename = lit "001_events.sql" ∨
    o = .eventsDefault ∧ filename = lit "004_default_partition.sql"}

/-- A partition is attached to its table. -/
def eventsAttached (o o' : EventsObject) : Prop := o = .eventsDefault ∧ o' = .events

def createDefault : JsString := lit "CREATE TABLE events_default PARTITION OF events DEFAULT;"

def dropEvents : JsString := lit "DROP TABLE events;"

def eventsScripts : Scripts (Set EventsObject) where
  scripts content _ before after :=
    content = eventsSql ∧ after = before ∪ {.events} ∨
    content = createDefault ∧ .events ∈ before ∧ after = before ∪ {.eventsDefault} ∨
    content = dropEvents ∧ after = before \ Dropped eventsAttached {.events}
  collation a b := a ≤ b

def eventsMigrations : SortedStore JsString JsString :=
  ((SortedStore.empty.put (lit "001_events.sql") eventsSql).put
    (lit "001_events.down.sql") dropEvents).put (lit "004_default_partition.sql") createDefault

theorem entries_eventsMigrations : eventsMigrations.entries =
    [(lit "001_events.down.sql", dropEvents), (lit "001_events.sql", eventsSql),
      (lit "004_default_partition.sql", createDefault)] := by
  decide +kernel

theorem mem_eventsMigrations {name content : JsString} :
    (name, content) ∈ eventsMigrations.entries ↔
      name = lit "001_events.down.sql" ∧ content = dropEvents ∨
      name = lit "001_events.sql" ∧ content = eventsSql ∨
      name = lit "004_default_partition.sql" ∧ content = createDefault := by
  rw [entries_eventsMigrations]
  simp only [List.mem_cons, List.not_mem_nil, or_false, Prod.mk.injEq]

theorem eventsScripts_ne :
    eventsSql ≠ createDefault ∧ eventsSql ≠ dropEvents ∧ createDefault ≠ dropEvents := by
  decide +kernel

/-- The names of the two migrations and of the script that reverts the first. -/
theorem eventsMigrations_names :
    (isMigrationFile (lit "001_events.sql") = true ∧
      isMigrationFile (lit "004_default_partition.sql") = true) ∧
    (lit "001_events.sql" ≠ lit "004_default_partition.sql" ∧
      lit "001_events.sql" ≤ lit "004_default_partition.sql") ∧
    matchesMigrationFilename (lit "001_events.sql") = true ∧
    downFilenameFor (lit "001_events.sql") = lit "001_events.down.sql" ∧
    downFilenameFor (lit "004_default_partition.sql") ∉
      [lit "001_events.down.sql", lit "001_events.sql", lit "004_default_partition.sql"] := by
  decide +kernel

theorem isMigrationFile_001 : isMigrationFile (lit "001_events.sql") = true :=
  eventsMigrations_names.1.1

theorem isMigrationFile_004 : isMigrationFile (lit "004_default_partition.sql") = true :=
  eventsMigrations_names.1.2

theorem ne_001_004 : lit "001_events.sql" ≠ lit "004_default_partition.sql" :=
  eventsMigrations_names.2.1.1

theorem downFilenameFor_001 : downFilenameFor (lit "001_events.sql") = lit "001_events.down.sql" :=
  eventsMigrations_names.2.2.2.1

/-- A `.sql` file is either a migration or the script that reverts one. -/
theorem isMigrationFile_001_down : isMigrationFile (lit "001_events.down.sql") = false := by
  rw [← downFilenameFor_001]
  exact not_isMigrationFile_downFilenameFor (Bool.and_eq_true_iff.mp isMigrationFile_001).1

theorem eventsObjects_events : eventsObjects (lit "001_events.sql") = {.events} := by
  ext o
  simp [eventsObjects, ne_001_004]

theorem eventsObjects_default :
    eventsObjects (lit "004_default_partition.sql") = {.eventsDefault} := by
  ext o
  simp [eventsObjects, ne_001_004.symm]

theorem dropped_events : EventsObject.eventsDefault ∈ Dropped eventsAttached {.events} :=
  ⟨.events, rfl, .single ⟨rfl, rfl⟩⟩

theorem eventsScripts_objects :
    MigrationObjects eventsScripts eventsMigrations eventsObjects eventsAttached where
  creates filename content force before after hfile hmem hscript := by
    rcases mem_eventsMigrations.mp hmem with ⟨rfl, rfl⟩ | ⟨rfl, rfl⟩ | ⟨rfl, rfl⟩
    · rw [isMigrationFile_001_down] at hfile
      cases hfile
    · rw [eventsObjects_events]
      rcases hscript with ⟨-, h⟩ | ⟨h, -⟩ | ⟨h, -⟩
      · exact h
      · exact absurd h eventsScripts_ne.1
      · exact absurd h eventsScripts_ne.2.1
    · rw [eventsObjects_default]
      rcases hscript with ⟨h, -⟩ | ⟨-, -, h⟩ | ⟨h, -⟩
      · exact absurd h eventsScripts_ne.1.symm
      · exact h
      · exact absurd h eventsScripts_ne.2.2
  drops filename content force before after hfile hmem hscript := by
    have hsql : sqlSuffix.isSuffixOf filename = true := (Bool.and_eq_true_iff.mp hfile).1
    have hno := not_isMigrationFile_downFilenameFor hsql
    rcases mem_eventsMigrations.mp hmem with ⟨h, rfl⟩ | ⟨h, rfl⟩ | ⟨h, rfl⟩
    · have h001 := (Bool.and_eq_true_iff.mp isMigrationFile_001).1
      rw [downFilenameFor_inj hsql h001 (h.trans downFilenameFor_001.symm), eventsObjects_events]
      rcases hscript with ⟨h, -⟩ | ⟨h, -⟩ | ⟨-, h⟩
      · exact absurd h eventsScripts_ne.2.1.symm
      · exact absurd h eventsScripts_ne.2.2.symm
      · exact h
    · rw [h, isMigrationFile_001] at hno
      cases hno
    · rw [h, isMigrationFile_004] at hno
      cases hno

def eventsRow (checksumOf : JsString → JsString) : TrackingRow :=
  ⟨lit "001_events.sql", checksumOf eventsSql⟩

def defaultRow (checksumOf : JsString → JsString) : TrackingRow :=
  ⟨lit "004_default_partition.sql", checksumOf createDefault⟩

def eventsTable (checksumOf : JsString → JsString) : TrackingTable :=
  KeyedTable.empty.insertOne (eventsRow checksumOf)

def bothTable (checksumOf : JsString → JsString) : TrackingTable :=
  (eventsTable checksumOf).insertOne (defaultRow checksumOf)

/-- The database with both migrations applied. -/
def eventsMigrated (checksumOf : JsString → JsString) : Database (Set EventsObject) where
  schema := ∅ ∪ {.events} ∪ {.eventsDefault}
  tracking := some (bothTable checksumOf)
  history := [⟨.up, lit "001_events.sql", eventsSql⟩,
    ⟨.up, lit "004_default_partition.sql", createDefault⟩]
  force := none

theorem default_free (checksumOf : JsString → JsString) :
    (defaultRow checksumOf).filename ∉
      (eventsTable checksumOf).rows.map TrackingRow.filename := by
  intro h
  obtain ⟨row, hrow, hname⟩ := List.mem_map.mp h
  have hempty : TrackingRow.filename (eventsRow checksumOf) ∉
      (KeyedTable.empty : TrackingTable).rows.map TrackingRow.filename := List.not_mem_nil
  rcases (KeyedTable.empty.mem_insertOne_of_free hempty).mp hrow with h | rfl
  · exact absurd h List.not_mem_nil
  · exact ne_001_004 hname

theorem bothTable_rows (checksumOf : JsString → JsString) :
    (bothTable checksumOf).rows = [eventsRow checksumOf, defaultRow checksumOf] := by
  rw [bothTable, KeyedTable.insertOne, dif_neg (default_free checksumOf)]
  rfl

theorem eventsSql_mem : (lit "001_events.sql", eventsSql) ∈ eventsMigrations.entries :=
  mem_eventsMigrations.mpr (Or.inr (Or.inl ⟨rfl, rfl⟩))

theorem dropEvents_mem :
    (downFilenameFor (lit "001_events.sql"), dropEvents) ∈ eventsMigrations.entries := by
  rw [downFilenameFor_001]
  exact mem_eventsMigrations.mpr (Or.inl ⟨rfl, rfl⟩)

theorem createDefault_mem :
    (lit "004_default_partition.sql", createDefault) ∈ eventsMigrations.entries :=
  mem_eventsMigrations.mpr (Or.inr (Or.inr ⟨rfl, rfl⟩))

theorem listMigrationFiles_events :
    listMigrationFiles (eventsMigrations.entries.map Prod.fst) =
      [lit "001_events.sql", lit "004_default_partition.sql"] := by
  have hle := eventsMigrations_names.2.1.2
  rw [entries_eventsMigrations, listMigrationFiles]
  simp [isMigrationFile_001_down, isMigrationFile_001, isMigrationFile_004, hle]

/-- A call in which neither of the two migrations fails. -/
theorem execs_bothMigrations {checksumOf : JsString → JsString} {d : Database (Set EventsObject)}
    {w₁ w₂ : MigrationWorld (Set EventsObject)} {h₁ h₂ : List MigrationEvent}
    (he₁ : (migrations eventsScripts).Execs (applyMigration checksumOf (lit "001_events.sql"))
      ⟨eventsMigrations,
        ⟨⟨d.schema, some (d.tracking.getD KeyedTable.empty), d.history, none⟩, .idle⟩⟩ h₁
      (.done (.ok ())) w₁)
    (he₂ : (migrations eventsScripts).Execs
      (applyMigration checksumOf (lit "004_default_partition.sql")) w₁ h₂ (.done (.ok ())) w₂) :
    ∃ h, (migrations eventsScripts).Execs (runSqlMigrations checksumOf)
      ⟨eventsMigrations, ⟨d, .idle⟩⟩ h (.done (.ok ())) w₂ := by
  refine execs_runSqlMigrations_of_loop (?_ : (migrations eventsScripts).Execs _ _
    (h₁ ++ (h₂ ++ [])) _ _)
  rw [listMigrationFiles_events]
  exact he₁.bind_ok (he₂.bind_ok (.nil _ _))

/-- A database with `001` applied, from one of the schema `s` without tracking rows. -/
def withEvents (checksumOf : JsString → JsString) (s : Set EventsObject)
    (history : List ExecutedScript) : Database (Set EventsObject) where
  schema := s ∪ {.events}
  tracking := some (eventsTable checksumOf)
  history := history ++ [⟨.up, lit "001_events.sql", eventsSql⟩]
  force := none

theorem execs_events (checksumOf : JsString → JsString) (s : Set EventsObject)
    (history : List ExecutedScript) :
    ∃ h, (migrations eventsScripts).Execs (applyMigration checksumOf (lit "001_events.sql"))
      ⟨eventsMigrations, ⟨⟨s, some KeyedTable.empty, history, none⟩, .idle⟩⟩ h (.done (.ok ()))
      ⟨eventsMigrations, ⟨withEvents checksumOf s history, .idle⟩⟩ :=
  execs_applyMigration_free eventsSql_mem rfl List.not_mem_nil (Or.inl ⟨rfl, rfl⟩)

/-- Both migrations, from a database without tracking rows. -/
theorem execs_bothFresh (checksumOf : JsString → JsString) {d : Database (Set EventsObject)}
    (ht : d.tracking.getD KeyedTable.empty = KeyedTable.empty) :
    ∃ h, (migrations eventsScripts).Execs (runSqlMigrations checksumOf)
      ⟨eventsMigrations, ⟨d, .idle⟩⟩ h (.done (.ok ()))
      ⟨eventsMigrations, ⟨⟨d.schema ∪ {.events} ∪ {.eventsDefault}, some (bothTable checksumOf),
        d.history ++ [⟨.up, lit "001_events.sql", eventsSql⟩] ++
          [⟨.up, lit "004_default_partition.sql", createDefault⟩], none⟩, .idle⟩⟩ := by
  obtain ⟨h₁, he₁⟩ := execs_events checksumOf d.schema d.history
  obtain ⟨h₂, he₂⟩ : ∃ h, (migrations eventsScripts).Execs
      (applyMigration checksumOf (lit "004_default_partition.sql"))
      ⟨eventsMigrations, ⟨withEvents checksumOf d.schema d.history, .idle⟩⟩ h (.done (.ok ())) _ :=
    execs_applyMigration_free createDefault_mem rfl (default_free checksumOf)
      (Or.inr (Or.inl ⟨rfl, Or.inr rfl, rfl⟩))
  rw [← ht] at he₁
  exact execs_bothMigrations he₁ he₂

theorem eventsMigrated_reached (checksumOf : JsString → JsString) :
    ∃ h, (migrations eventsScripts).Execs (runSqlMigrations checksumOf)
      (.start ∅ eventsMigrations) h (.done (.ok ()))
      ⟨eventsMigrations, ⟨eventsMigrated checksumOf, .idle⟩⟩ :=
  execs_bothFresh checksumOf rfl

/-- The database with `001` reverted. -/
def eventsReverted (checksumOf : JsString → JsString) : Database (Set EventsObject) where
  schema := (∅ ∪ {.events} ∪ {.eventsDefault}) \ Dropped eventsAttached {.events}
  tracking := some ((bothTable checksumOf).delete (lit "001_events.sql"))
  history := [⟨.up, lit "001_events.sql", eventsSql⟩,
    ⟨.up, lit "004_default_partition.sql", createDefault⟩,
    ⟨.down, lit "001_events.sql", dropEvents⟩]
  force := none

theorem eventsReverted_reached (checksumOf : JsString → JsString) :
    ∃ h, (migrations eventsScripts).Execs (migrateDown false)
      ⟨eventsMigrations, ⟨eventsMigrated checksumOf, .idle⟩⟩ h
      (.done (.ok (lit "001_events.sql")))
      ⟨eventsMigrations, ⟨eventsReverted checksumOf, .idle⟩⟩ := by
  obtain ⟨-, ⟨-, hle⟩, hmatches, -, hdown⟩ := eventsMigrations_names
  have hperm : ([lit "004_default_partition.sql"] ++ lit "001_events.sql" :: []).Perm
      ((bothTable checksumOf).rows.map TrackingRow.filename) := by
    rw [bothTable_rows]
    exact List.Perm.swap _ _ _
  refine execs_migrateDown rfl rfl hperm ?_ ?_ hmatches dropEvents_mem (Or.inr (Or.inr ⟨rfl, rfl⟩))
  · exact List.pairwise_pair.mpr hle
  · rw [List.forall_mem_singleton, entries_eventsMigrations]
    exact hdown

/-- The row of `004` stays. -/
theorem defaultRow_mem (checksumOf : JsString → JsString) :
    defaultRow checksumOf ∈ ((bothTable checksumOf).delete (lit "001_events.sql")).rows := by
  rw [KeyedTable.mem_delete, bothTable_rows]
  exact ⟨List.mem_cons_of_mem _ List.mem_cons_self, ne_001_004.symm⟩

/-- Applying the migrations again creates the table, and passes the partition that is recorded. -/
theorem eventsReverted_applied (checksumOf : JsString → JsString) :
    ∃ h w, (migrations eventsScripts).Execs (runSqlMigrations checksumOf)
      ⟨eventsMigrations, ⟨eventsReverted checksumOf, .idle⟩⟩ h (.done (.ok ())) w ∧
      w.connection.committed.schema = (eventsReverted checksumOf).schema ∪ {.events} := by
  have hfree : lit "001_events.sql" ∉
      ((bothTable checksumOf).delete (lit "001_events.sql")).rows.map TrackingRow.filename := by
    intro h
    obtain ⟨row, hrow, hname⟩ := List.mem_map.mp h
    exact ((bothTable checksumOf).mem_delete.mp hrow).2 hname
  let applied : Database (Set EventsObject) :=
    ⟨(eventsReverted checksumOf).schema ∪ {.events},
      some (((bothTable checksumOf).delete (lit "001_events.sql")).insertOne
        (eventsRow checksumOf)),
      (eventsReverted checksumOf).history ++ [⟨.up, lit "001_events.sql", eventsSql⟩], none⟩
  obtain ⟨h₁, he₁⟩ : ∃ h, (migrations eventsScripts).Execs
      (applyMigration checksumOf (lit "001_events.sql"))
      ⟨eventsMigrations, ⟨eventsReverted checksumOf, .idle⟩⟩ h (.done (.ok ()))
      ⟨eventsMigrations, ⟨applied, .idle⟩⟩ :=
    execs_applyMigration_free eventsSql_mem rfl hfree (Or.inl ⟨rfl, rfl⟩)
  have hrecords : applied.Records (lit "004_default_partition.sql") (checksumOf createDefault) :=
    ⟨_, rfl, ((bothTable checksumOf).delete _).mem_insertOne_of_free hfree |>.mpr
      (Or.inl (defaultRow_mem checksumOf))⟩
  obtain ⟨h₂, he₂⟩ : ∃ h, (migrations eventsScripts).Execs
      (applyMigration checksumOf (lit "004_default_partition.sql"))
      ⟨eventsMigrations, ⟨applied, .idle⟩⟩ h (.done (.ok ()))
      ⟨eventsMigrations, ⟨applied.settle, .idle⟩⟩ :=
    execs_applyMigration_recorded createDefault_mem hrecords
  obtain ⟨h, he⟩ : ∃ h, (migrations eventsScripts).Execs (runSqlMigrations checksumOf)
      ⟨eventsMigrations, ⟨eventsReverted checksumOf, .idle⟩⟩ h (.done (.ok ()))
      ⟨eventsMigrations, ⟨applied.settle, .idle⟩⟩ := execs_bothMigrations he₁ he₂
  exact ⟨h, _, he, rfl⟩

/-- **The partition of a reverted table**: `004` stays recorded, and its partition is gone for good. -/
theorem schema_tracked_partition :
    MigrationObjects eventsScripts eventsMigrations eventsObjects eventsAttached ∧
    ∀ checksumOf, ∃ w w₁ h w₂,
      Maintained eventsScripts checksumOf eventsMigrations (fun _ _ => True) w ∧
      SchemaStep eventsScripts checksumOf (.migrateDown false) w w₁ ∧
      ¬w₁.connection.committed.ObjectsPresent eventsObjects ∧
      (migrations eventsScripts).Execs (runSqlMigrations checksumOf) w₁ h (.done (.ok ())) w₂ ∧
      ¬w.connection.committed.schema ⊆ w₂.connection.committed.schema := by
  refine ⟨eventsScripts_objects, fun checksumOf => ?_⟩
  obtain ⟨h₁, hup⟩ := eventsMigrated_reached checksumOf
  obtain ⟨h₂, hdown⟩ := eventsReverted_reached checksumOf
  obtain ⟨h₃, w₂, hagain, hschema⟩ := eventsReverted_applied checksumOf
  have hcall : (migrations eventsScripts).Execs (SchemaCall.runSqlMigrations.prog checksumOf)
      (.start ∅ eventsMigrations) h₁ (.done (.ok ()))
      ⟨eventsMigrations, ⟨eventsMigrated checksumOf, .idle⟩⟩ := hup
  have hrevert : (migrations eventsScripts).Execs
      ((SchemaCall.migrateDown false).prog checksumOf)
      ⟨eventsMigrations, ⟨eventsMigrated checksumOf, .idle⟩⟩ (h₂ ++ []) (.done (.ok ()))
      ⟨eventsMigrations, ⟨eventsReverted checksumOf, .idle⟩⟩ := hdown.bind_ok (.nil _ _)
  have hgone : EventsObject.eventsDefault ∉ (eventsReverted checksumOf).schema :=
    fun h => h.2 dropped_events
  refine ⟨_, _, h₃, w₂, .step .start trivial (.finished hcall), .finished hrevert, ?_, hagain, ?_⟩
  · intro hpresent
    refine hgone (hpresent (lit "004_default_partition.sql")
      ⟨_, _, rfl, defaultRow_mem checksumOf⟩ ?_)
    rw [eventsObjects_default]
    rfl
  · intro hsubset
    have hin : EventsObject.eventsDefault ∈ w₂.connection.committed.schema := hsubset (Or.inr rfl)
    rw [hschema] at hin
    rcases hin with h | h
    · exact hgone h
    · cases h

/-- SHA-256 of the two migrations. -/
def sha256OfMigrations (content : JsString) : JsString :=
  if content = createDefault then
    lit "5c8cbb133f98dac682e9007c6f7020871c88e922f0d93a2426491f32b672e318"
  else sha256OfEvents content

/-- A call that dies after the first migration. -/
theorem withEvents_reached (checksumOf : JsString → JsString) :
    ∃ h q, (migrations eventsScripts).Execs (runSqlMigrations checksumOf)
      (.start ∅ eventsMigrations) h q
      ⟨eventsMigrations, ⟨withEvents checksumOf ∅ [], .idle⟩⟩ := by
  obtain ⟨h₁, he₁⟩ := execs_events checksumOf ∅ []
  have hloop : (migrations eventsScripts).Execs (applyMigrations checksumOf
      [lit "001_events.sql", lit "004_default_partition.sql"]) _ (h₁ ++ [])
      (applyMigrations checksumOf [lit "004_default_partition.sql"]) _ := he₁.bind_ok (.nil _ _)
  rw [← listMigrationFiles_events] at hloop
  obtain ⟨h, he⟩ := execs_runSqlMigrations_of_loop (d := ⟨∅, none, [], none⟩) hloop
  exact ⟨h, _, he⟩

theorem recorded_withEvents {checksumOf : JsString → JsString} {s : Set EventsObject}
    {history : List ExecutedScript} {filename : JsString}
    (h : (withEvents checksumOf s history).Recorded filename) :
    filename = lit "001_events.sql" := by
  obtain ⟨checksum, t, ht, hrow⟩ := h
  have ht : some (eventsTable checksumOf) = some t := ht
  obtain rfl := Option.some.inj ht
  exact congrArg TrackingRow.filename (List.mem_singleton.mp hrow)

/-- The only migration that is recorded is reverted. -/
theorem withEvents_reverted (checksumOf : JsString → JsString) :
    ∃ h, (migrations eventsScripts).Execs (migrateDown false)
      ⟨eventsMigrations, ⟨withEvents checksumOf ∅ [], .idle⟩⟩ h
      (.done (.ok (lit "001_events.sql")))
      ⟨eventsMigrations, ⟨⟨(∅ ∪ {.events}) \ Dropped eventsAttached {.events},
        some ((eventsTable checksumOf).delete (lit "001_events.sql")),
        [⟨.up, lit "001_events.sql", eventsSql⟩, ⟨.down, lit "001_events.sql", dropEvents⟩],
        none⟩, .idle⟩⟩ := by
  have hmatches := eventsMigrations_names.2.2.1
  have hperm : ([] ++ lit "001_events.sql" :: []).Perm
      ((eventsTable checksumOf).rows.map TrackingRow.filename) := .refl _
  exact execs_migrateDown rfl rfl hperm (List.pairwise_singleton _ _)
    (fun g hg => absurd hg List.not_mem_nil) hmatches dropEvents_mem (Or.inr (Or.inr ⟨rfl, rfl⟩))

/-- **A safe revert.** The process dies after the first of two migrations, which is then reverted;
applying the migrations brings back its table. -/
theorem schema_tracked_events : ∃ w w₁ h w₂,
    Maintained eventsScripts sha256OfMigrations eventsMigrations
      (SafeRevert eventsScripts eventsMigrations eventsObjects eventsAttached) w ∧
    SafeRevert eventsScripts eventsMigrations eventsObjects eventsAttached (.migrateDown false) w ∧
    SchemaStep eventsScripts sha256OfMigrations (.migrateDown false) w w₁ ∧
    EventsObject.events ∉ w₁.connection.committed.schema ∧
    w₁.connection.committed.ObjectsPresent eventsObjects ∧
    (migrations eventsScripts).Execs (runSqlMigrations sha256OfMigrations) w₁ h
      (.done (.ok ())) w₂ ∧
    EventsObject.events ∈ w.connection.committed.schema ∧
    w.connection.committed.schema ⊆ w₂.connection.committed.schema := by
  obtain ⟨h₁, q, hup⟩ := withEvents_reached sha256OfMigrations
  obtain ⟨h₂, hdown⟩ := withEvents_reverted sha256OfMigrations
  let reverted : Database (Set EventsObject) :=
    ⟨(∅ ∪ {.events}) \ Dropped eventsAttached {.events},
      some ((eventsTable sha256OfMigrations).delete (lit "001_events.sql")),
      [⟨.up, lit "001_events.sql", eventsSql⟩, ⟨.down, lit "001_events.sql", dropEvents⟩], none⟩
  have hempty : reverted.tracking.getD KeyedTable.empty = KeyedTable.empty := by
    show (eventsTable sha256OfMigrations).delete (lit "001_events.sql") = KeyedTable.empty
    rfl
  obtain ⟨h₃, hagain⟩ := execs_bothFresh sha256OfMigrations hempty
  have hcall : (migrations eventsScripts).Execs
      (SchemaCall.runSqlMigrations.prog sha256OfMigrations) (.start ∅ eventsMigrations) h₁ q
      ⟨eventsMigrations, ⟨withEvents sha256OfMigrations ∅ [], .idle⟩⟩ := hup
  have hrevert : (migrations eventsScripts).Execs
      ((SchemaCall.migrateDown false).prog sha256OfMigrations)
      ⟨eventsMigrations, ⟨withEvents sha256OfMigrations ∅ [], .idle⟩⟩ (h₂ ++ []) (.done (.ok ()))
      _ := hdown.bind_ok (.nil _ _)
  have hfirst : SafeRevert eventsScripts eventsMigrations eventsObjects eventsAttached
      .runSqlMigrations (.start ∅ eventsMigrations) := trivial
  have hw : Maintained eventsScripts sha256OfMigrations eventsMigrations
      (SafeRevert eventsScripts eventsMigrations eventsObjects eventsAttached)
      ⟨eventsMigrations, ⟨withEvents sha256OfMigrations ∅ [], .idle⟩⟩ :=
    .step .start hfirst (.crashed hcall)
  have hsafe : SafeRevert eventsScripts eventsMigrations eventsObjects eventsAttached
      (.migrateDown false) ⟨eventsMigrations, ⟨withEvents sha256OfMigrations ∅ [], .idle⟩⟩ :=
    fun filename hnewest g hg hne => absurd
      ((recorded_withEvents hg).trans (recorded_withEvents hnewest.recorded).symm) hne
  have htracked := schema_tracked eventsScripts_objects hw
  exact ⟨_, _, h₃, _, hw, hsafe, .finished hrevert, fun h => h.2 ⟨_, rfl, .refl⟩,
    htracked.1 _ _ _ _ hsafe hrevert, hagain, Or.inr rfl,
    htracked.2 _ _ _ (.revert .none hsafe (.finished hrevert)) hagain⟩

end Posta
