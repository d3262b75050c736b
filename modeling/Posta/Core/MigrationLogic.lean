import Posta.Core.SqlMigrate

/-!
# The transactions of the migration runner

What a call does to the database it does in transactions, each of which either applies a migration
and records it (`AppliedTo`), or reverts one and deletes its row (`RevertedTo`). A property that these
keep (`KeptUp` for the first kind) holds of what is committed at every moment of a call, whatever
fails.

**Theorem (`ensures_runInTransaction`).** A transaction does all of its work or nothing; where it
fails, either. The client it leaves behind is in no transaction.
-/

namespace Posta

open Js Interaction Store

/-! ## Recorded files -/

namespace Database

variable {σ : Type} {db : Database σ}

/-- The tracking table has the row. -/
def Records (db : Database σ) (filename checksum : JsString) : Prop :=
  ∃ t, db.tracking = some t ∧ ⟨filename, checksum⟩ ∈ t.rows

theorem records_of_tracking {t : TrackingTable} (ht : db.tracking = some t)
    {filename checksum : JsString} :
    db.Records filename checksum ↔ ⟨filename, checksum⟩ ∈ t.rows := by
  constructor
  · rintro ⟨t', ht', h⟩
    rw [ht, Option.some.injEq] at ht'
    exact ht' ▸ h
  · exact fun h => ⟨t, ht, h⟩

/-- There is one row for a file. -/
theorem Records.unique {filename checksum checksum' : JsString} (h : db.Records filename checksum)
    (h' : db.Records filename checksum') : checksum = checksum' := by
  obtain ⟨t, ht, hr⟩ := h
  have hrow := t.eq_of_key_eq hr ((records_of_tracking ht).mp h') rfl
  exact congrArg TrackingRow.checksum hrow

theorem records_create (db : Database σ) (filename checksum : JsString) :
    Records { db with tracking := some (db.tracking.getD KeyedTable.empty) } filename checksum ↔
      db.Records filename checksum := by
  rw [records_of_tracking rfl]
  cases ht : db.tracking with
  | none =>
    constructor
    · exact fun h => absurd h List.not_mem_nil
    · rintro ⟨t, ht', -⟩
      rw [ht] at ht'
      cases ht'
  | some t => exact (records_of_tracking ht).symm

/-- The transaction that applied a file. -/
inductive AppliedTo (pg : Scripts σ) (db : Database σ) (filename content checksum : JsString) :
    Database σ → Prop
  | intro {t : TrackingTable} {schema : σ} : db.tracking = some t →
      filename ∉ t.rows.map TrackingRow.filename →
      pg.scripts content db.force db.schema schema →
      AppliedTo pg db filename content checksum
        ⟨schema, some (t.insertOne ⟨filename, checksum⟩),
          db.history ++ [⟨.up, filename, content⟩], db.force⟩

/-- The transaction that reverted a file. -/
inductive RevertedTo (pg : Scripts σ) (db : Database σ) (filename content : JsString) :
    Database σ → Prop
  | intro {t : TrackingTable} {schema : σ} (force : JsString) : db.tracking = some t →
      pg.scripts content (some force) db.schema schema →
      RevertedTo pg db filename content
        ⟨schema, some (t.delete filename), db.history ++ [⟨.down, filename, content⟩], some force⟩

/-- The row of a file is there after it was applied, and no row is gone. -/
theorem AppliedTo.records {pg : Scripts σ} {filename content checksum : JsString}
    {db' : Database σ} (h : db.AppliedTo pg filename content checksum db') (f c : JsString) :
    db'.Records f c ↔ db.Records f c ∨ f = filename ∧ c = checksum := by
  cases h with
  | @intro t schema ht hfree =>
    rw [records_of_tracking rfl, t.mem_insertOne_of_free hfree, records_of_tracking ht,
      TrackingRow.mk.injEq]

theorem RevertedTo.records {pg : Scripts σ} {filename content : JsString} {db' : Database σ}
    (h : db.RevertedTo pg filename content db') (f c : JsString) :
    db'.Records f c ↔ db.Records f c ∧ f ≠ filename := by
  cases h with
  | @intro t schema force ht =>
    rw [records_of_tracking rfl, t.mem_delete, records_of_tracking ht]

end Database

/-- What applying the files of a directory keeps. -/
structure KeptUp {σ : Type} (pg : Scripts σ) (checksumOf : JsString → JsString)
    (dir : SortedStore JsString JsString) (K : Database σ → Prop) : Prop where
  settle : ∀ d, K d → K d.settle
  create : ∀ d : Database σ, K d →
    K { d with tracking := some (d.tracking.getD KeyedTable.empty) }
  apply : ∀ d filename content d', K d → isMigrationFile filename = true →
    (filename, content) ∈ dir.entries →
    d.AppliedTo pg filename content (checksumOf content) d' → K d'

theorem KeptUp.and {σ : Type} {pg : Scripts σ} {checksumOf : JsString → JsString}
    {dir : SortedStore JsString JsString} {K K' : Database σ → Prop}
    (h : KeptUp pg checksumOf dir K) (h' : KeptUp pg checksumOf dir K') :
    KeptUp pg checksumOf dir fun d => K d ∧ K' d where
  settle d hd := ⟨h.settle d hd.1, h'.settle d hd.2⟩
  create d hd := ⟨h.create d hd.1, h'.create d hd.2⟩
  apply d filename content d' hd hfile hcontent happlied :=
    ⟨h.apply d filename content d' hd.1 hfile hcontent happlied,
      h'.apply d filename content d' hd.2 hfile hcontent happlied⟩

/-! ## Transactions of the runner -/

section Runner

open MigrationWorld

variable {σ : Type} {pg : Scripts σ} {K : Database σ → Prop} {dir : SortedStore JsString JsString}
  {d : Database σ}

theorem ensures_rollbackAndThrow (hK : K d) (errorContext : JsString) (error : Thrown)
    (session : Session (Database σ)) :
    (migrating pg K).Ensures (fun _ _ => False) (fun _ v => v = ⟨dir, ⟨d, .idle⟩⟩)
      (rollbackAndThrow errorContext error) ⟨dir, ⟨d, session⟩⟩ := by
  have hrollback : (migrating pg K).Ensures (fun _ v => v = ⟨dir, ⟨d, .idle⟩⟩)
      (fun _ v => v = ⟨dir, ⟨d, .idle⟩⟩)
      (tryCatch (do
        let _ ← Prog.call MigrationOp.rollback Prog.done
        Flow.perform (MigrationOp.release none))
        fun rollbackError => do
          Flow.perform (MigrationOp.release (some rollbackError.toError))
          throw (.new (rollbackFailedMessage errorContext error rollbackError)) :
        MigrationFlow Unit) ⟨dir, ⟨d, session⟩⟩ := by
    refine Interp.ensures_tryCatch (Interp.ensures_bind (Interp.ensures_call hK ?_))
    intro r v hr
    cases hr with
    | @rollback _ c ha =>
      cases r with
      | ok =>
        cases done_of_ok ha
        refine Interp.ensures_perform hK fun r v hr => ?_
        cases hr
        rfl
      | error rollbackError =>
        have hc : c.committed = d := committed_of_answers committed_of_rolledBack ha
        have hK' : K c.committed := hc.symm ▸ hK
        refine Interp.ensures_bind (Interp.ensures_perform hK' fun r v hr => ?_)
        cases hr
        refine Interp.ensures_throw ?_
        rw [hc]
  refine Interp.ensures_seq hrollback ?_
  rintro - v rfl
  exact Interp.ensures_throw rfl

/-- **A transaction** does all of its work or nothing; where it fails, either. -/
theorem ensures_runInTransaction {Q : Database σ → Prop} {work : MigrationFlow Unit} (hd : K d)
    (hQ : ∀ d', Q d' → K d'.settle)
    (hwork : (migrating pg K).Ensures (fun _ v => ∃ d', Q d' ∧ v = ⟨dir, ⟨d, .transaction d'⟩⟩)
      (fun _ v => ∃ s, v = ⟨dir, ⟨d, s⟩⟩) work ⟨dir, ⟨d, .transaction d⟩⟩)
    (errorContext : JsString) :
    (migrating pg K).Ensures (fun _ v => ∃ d', Q d' ∧ v = ⟨dir, ⟨d'.settle, .idle⟩⟩)
      (fun _ v => v = ⟨dir, ⟨d, .idle⟩⟩ ∨ ∃ d', Q d' ∧ v = ⟨dir, ⟨d'.settle, .idle⟩⟩)
      (runInTransaction work errorContext) ⟨dir, ⟨d, .idle⟩⟩ := by
  have hcatch (error : Thrown) (d' : Database σ) (s : Session (Database σ))
      (hd' : d' = d ∨ ∃ d'', Q d'' ∧ d' = d''.settle) :
      (migrating pg K).Ensures (fun _ v => ∃ d', Q d' ∧ v = ⟨dir, ⟨d'.settle, .idle⟩⟩)
        (fun _ v => v = ⟨dir, ⟨d, .idle⟩⟩ ∨ ∃ d', Q d' ∧ v = ⟨dir, ⟨d'.settle, .idle⟩⟩)
        (rollbackAndThrow errorContext error) ⟨dir, ⟨d', s⟩⟩ := by
    have hK : K d' := by
      rcases hd' with rfl | ⟨d'', hq, rfl⟩
      · exact hd
      · exact hQ d'' hq
    refine (ensures_rollbackAndThrow hK errorContext error s).mono (fun _ _ h => h.elim) ?_
    rintro - v rfl
    rcases hd' with rfl | ⟨d'', hq, rfl⟩
    · exact Or.inl rfl
    · exact Or.inr ⟨d'', hq, rfl⟩
  have hbody : (migrating pg K).Ensures (fun _ v => ∃ d', Q d' ∧ v = ⟨dir, ⟨d'.settle, .idle⟩⟩)
      (fun _ v => v = ⟨dir, ⟨d, .idle⟩⟩ ∨ ∃ d', Q d' ∧ v = ⟨dir, ⟨d'.settle, .idle⟩⟩)
      (tryCatch (do
        let _ ← Prog.call MigrationOp.begin Prog.done
        work
        let _ ← Prog.call MigrationOp.commit Prog.done
        Flow.perform (MigrationOp.release none)) (rollbackAndThrow errorContext) : MigrationFlow Unit)
      ⟨dir, ⟨d, .idle⟩⟩ := by
    refine Interp.ensures_tryCatch (Interp.ensures_bind (Interp.ensures_call hd ?_))
    intro r v hr
    cases hr with
    | begin ha =>
      cases r with
      | error error =>
        have hc := committed_of_answers committed_of_begun ha
        exact hcatch error _ _ (Or.inl hc)
      | ok =>
        cases done_of_ok ha
        refine Interp.ensures_bind (hwork.mono ?_ ?_)
        · rintro - v ⟨d', hq, rfl⟩
          refine Interp.ensures_bind (Interp.ensures_call hd ?_)
          intro r v hr
          cases hr with
          | commit ha =>
            obtain ⟨hc, hok⟩ := end_transaction ha
            cases r with
            | error error =>
              refine hcatch error _ _ ?_
              rcases hc with hc | hc
              · exact Or.inl hc
              · exact Or.inr ⟨d', hq, hc⟩
            | ok u =>
              rw [hok u rfl]
              refine Interp.ensures_perform (hQ d' hq) fun r v hr => ?_
              cases hr
              exact ⟨d', hq, rfl⟩
        · rintro error v ⟨s, rfl⟩
          exact hcatch error d s (Or.inl rfl)
  unfold runInTransaction
  refine Interp.ensures_bind (Interp.ensures_call hd ?_)
  intro r v hr
  cases hr with
  | connect => exact hbody
  | connectNew => exact hbody
  | connectFailed error => exact Or.inl rfl

/-- A statement within a transaction. -/
theorem ensures_query (hd : K d) (statement : MigrationStatement) (copy : Database σ) :
    (migrating pg K).Ensures (fun rows v => ∃ copy', Database.Effect pg statement copy rows copy' ∧
        v = ⟨dir, ⟨d, .transaction copy'⟩⟩) (fun _ v => ∃ s, v = ⟨dir, ⟨d, s⟩⟩)
      (Prog.call (MigrationOp.query statement) Prog.done : MigrationFlow statement.Rows)
      ⟨dir, ⟨d, .transaction copy⟩⟩ := by
  refine Interp.ensures_call hd fun r v hr => ?_
  cases hr with
  | @query _ _ c ha =>
    obtain ⟨hc, hok⟩ := within_transaction ha
    cases r with
    | ok rows =>
      obtain ⟨copy', he, rfl⟩ := hok rows rfl
      exact ⟨copy', he, rfl⟩
    | error error =>
      cases c
      cases hc
      exact ⟨_, rfl⟩

/-- A statement on a client of its own. -/
theorem ensures_poolQuery (hd : K d) (statement : MigrationStatement) :
    (migrating pg K).Ensures (fun rows v => ∃ d', Database.Effect pg statement d rows d' ∧
        v = ⟨dir, ⟨d'.settle, .idle⟩⟩)
      (fun _ v => v = ⟨dir, ⟨d, .idle⟩⟩ ∨ ∃ rows d', Database.Effect pg statement d rows d' ∧
        v = ⟨dir, ⟨d'.settle, .idle⟩⟩)
      (Prog.call (MigrationOp.poolQuery statement) Prog.done : MigrationFlow statement.Rows)
      ⟨dir, ⟨d, .idle⟩⟩ := by
  refine Interp.ensures_call hd fun r v hr => ?_
  cases hr with
  | @poolQuery _ _ c ha =>
    obtain ⟨hs, hc, hok⟩ := outside_transaction ha
    cases r with
    | ok rows =>
      obtain ⟨d', he, rfl⟩ := hok rows rfl
      exact ⟨d', he, rfl⟩
    | error error =>
      cases c
      cases hs
      rcases hc with hc | ⟨rows, d', he, hc⟩
      · cases hc
        exact Or.inl rfl
      · cases hc
        exact Or.inr ⟨rows, d', he, rfl⟩

theorem ensures_readMigrationFile (hd : K d) (name : JsString) (s : Session (Database σ)) :
    (migrating pg K).Ensures
      (fun content v => (name, content) ∈ dir.entries ∧ v = ⟨dir, ⟨d, s⟩⟩)
      (fun _ v => v = ⟨dir, ⟨d, s⟩⟩) (readMigrationFile name) ⟨dir, ⟨d, s⟩⟩ := by
  unfold readMigrationFile
  refine Interp.ensures_tryCatch (Interp.ensures_call hd fun r v hr => ?_)
  cases hr with
  | readFile h => exact ⟨h, rfl⟩
  | readFileFailed name error => exact Interp.ensures_throw rfl

theorem ensures_applying (hd : K d) (filename content checksum : JsString) :
    (migrating pg K).Ensures
      (fun _ v => ∃ d', d.AppliedTo pg filename content checksum d' ∧
        v = ⟨dir, ⟨d, .transaction d'⟩⟩)
      (fun _ v => ∃ s, v = ⟨dir, ⟨d, s⟩⟩) (applying filename content checksum)
      ⟨dir, ⟨d, .transaction d⟩⟩ := by
  refine Interp.ensures_seq (ensures_query hd _ d) ?_
  rintro _ v ⟨copy, hscript, rfl⟩
  refine (ensures_query hd _ copy).mono ?_ fun _ _ h => h
  rintro _ v ⟨copy', hinsert, rfl⟩
  cases hscript with
  | script direction filename content hs =>
    cases hinsert with
    | insertTracking filename checksum ht hfree => exact ⟨_, .intro ht hfree hs, rfl⟩

theorem ensures_reverting (hd : K d) (filename content : JsString) (force : Bool) :
    (migrating pg K).Ensures
      (fun _ v => ∃ d', d.RevertedTo pg filename content d' ∧ v = ⟨dir, ⟨d, .transaction d'⟩⟩)
      (fun _ v => ∃ s, v = ⟨dir, ⟨d, s⟩⟩) (reverting filename content force)
      ⟨dir, ⟨d, .transaction d⟩⟩ := by
  refine Interp.ensures_seq (ensures_query hd _ d) ?_
  rintro _ v ⟨copy, hset, rfl⟩
  refine Interp.ensures_seq (ensures_query hd _ copy) ?_
  rintro _ v ⟨copy', hscript, rfl⟩
  refine (ensures_query hd _ copy').mono ?_ fun _ _ h => h
  rintro _ v ⟨copy'', hdelete, rfl⟩
  cases hset with
  | setForce db value =>
    cases hscript with
    | script direction filename content hs =>
      cases hdelete with
      | deleteTracking filename ht => exact ⟨_, .intro _ ht hs, rfl⟩

/-- **Applying one file**: its row is there afterwards, with the checksum of its content. -/
theorem ensures_applyMigration {checksumOf : JsString → JsString}
    (hK : KeptUp pg checksumOf dir K) (hd : K d) {filename : JsString}
    (hfile : isMigrationFile filename = true) :
    (migrating pg K).Ensures
      (fun _ v => ∃ d', v = ⟨dir, ⟨d', .idle⟩⟩ ∧ K d' ∧
        ∃ content, (filename, content) ∈ dir.entries ∧ d'.Records filename (checksumOf content))
      (fun _ v => ∃ d', v = ⟨dir, ⟨d', .idle⟩⟩ ∧ K d')
      (applyMigration checksumOf filename) ⟨dir, ⟨d, .idle⟩⟩ := by
  refine Interp.ensures_bind ((ensures_readMigrationFile hd filename .idle).mono ?_ ?_)
  · rintro content v ⟨hcontent, rfl⟩
    refine Interp.ensures_bind ((ensures_poolQuery hd _).mono ?_ ?_)
    · rintro existing v ⟨d', hselect, rfl⟩
      cases hselect with
      | @selectChecksum _ t _ ht =>
        have hsettled : K d.settle := hK.settle d hd
        cases hfind : t.find filename with
        | some row =>
          simp only [Option.map_some, Option.toList_some, List.head?_cons]
          split_ifs with hne
          · exact Interp.ensures_throw ⟨_, rfl, hsettled⟩
          · refine Interp.ensures_pure ⟨_, rfl, hsettled, content, hcontent, t, ht, ?_⟩
            have hrow := t.mem_of_find hfind
            have hkey := t.key_of_find hfind
            obtain ⟨f, c⟩ := row
            rw [not_not] at hne
            dsimp only at hkey hne
            rw [← hkey, ← hne]
            exact hrow
        | none =>
          have hkept (d' : Database σ)
              (h : d.settle.AppliedTo pg filename content (checksumOf content) d') : K d'.settle :=
            hK.settle d' (hK.apply _ filename content d' hsettled hfile hcontent h)
          refine (ensures_runInTransaction hsettled hkept
            (ensures_applying hsettled filename content (checksumOf content)) _).mono ?_ ?_
          · rintro - v ⟨d', h, rfl⟩
            refine ⟨_, rfl, hkept d' h, content, hcontent, ?_⟩
            exact (h.records filename _).mpr (Or.inr ⟨rfl, rfl⟩)
          · rintro - v (rfl | ⟨d', h, rfl⟩)
            · exact ⟨_, rfl, hsettled⟩
            · exact ⟨_, rfl, hkept d' h⟩
    · rintro - v (rfl | ⟨rows, d', hselect, rfl⟩)
      · exact ⟨d, rfl, hd⟩
      · cases hselect
        exact ⟨_, rfl, hK.settle d hd⟩
  · rintro - v rfl
    exact ⟨d, rfl, hd⟩

theorem ensures_ensureTrackingTable {checksumOf : JsString → JsString}
    (hK : KeptUp pg checksumOf dir K) (hd : K d) :
    (migrating pg K).Ensures (fun _ v => ∃ d', v = ⟨dir, ⟨d', .idle⟩⟩ ∧ K d')
      (fun _ v => ∃ d', v = ⟨dir, ⟨d', .idle⟩⟩ ∧ K d') ensureTrackingTable ⟨dir, ⟨d, .idle⟩⟩ := by
  refine (ensures_poolQuery hd _).mono ?_ ?_
  · rintro _ v ⟨d', hcreate, rfl⟩
    cases hcreate
    exact ⟨_, rfl, hK.settle _ (hK.create d hd)⟩
  · rintro - v (rfl | ⟨rows, d', hcreate, rfl⟩)
    · exact ⟨d, rfl, hd⟩
    · cases hcreate
      exact ⟨_, rfl, hK.settle _ (hK.create d hd)⟩

theorem ensures_applyMigrations {checksumOf : JsString → JsString}
    (hK : KeptUp pg checksumOf dir K) (hd : K d) {files : List JsString}
    (hfiles : ∀ f ∈ files, isMigrationFile f = true) :
    (migrating pg K).Ensures (fun _ v => ∃ d', v = ⟨dir, ⟨d', .idle⟩⟩ ∧ K d')
      (fun _ v => ∃ d', v = ⟨dir, ⟨d', .idle⟩⟩ ∧ K d') (applyMigrations checksumOf files)
      ⟨dir, ⟨d, .idle⟩⟩ := by
  induction files generalizing d with
  | nil => exact Interp.ensures_pure ⟨d, rfl, hd⟩
  | cons file files ih =>
    rw [List.forall_mem_cons] at hfiles
    refine Interp.ensures_seq (ensures_applyMigration hK hd hfiles.1) ?_
    rintro - v ⟨d', rfl, hd', -⟩
    exact ih hd' hfiles.2

/-- **Applying the files.** -/
theorem ensures_runSqlMigrations {checksumOf : JsString → JsString}
    (hK : KeptUp pg checksumOf dir K) (hd : K d) :
    (migrating pg K).Ensures (fun _ v => ∃ d', v = ⟨dir, ⟨d', .idle⟩⟩ ∧ K d')
      (fun _ v => ∃ d', v = ⟨dir, ⟨d', .idle⟩⟩ ∧ K d') (runSqlMigrations checksumOf)
      ⟨dir, ⟨d, .idle⟩⟩ := by
  refine Interp.ensures_seq (ensures_ensureTrackingTable hK hd) ?_
  rintro - v ⟨d', rfl, hd'⟩
  refine Interp.ensures_bind (Interp.ensures_call hd' fun r v hr => ?_)
  cases hr with
  | readdir => exact ensures_applyMigrations hK hd' fun _ hf => isMigrationFile_of_listed hf
  | readdirFailed error => exact ⟨d', rfl, hd'⟩

/-- **Reverting one file.** Where the call fails, the transaction was committed or was not. -/
theorem ensures_downSqlMigration (hd : K d) {filename : JsString}
    (hK : ∀ content d', (downFilenameFor filename, content) ∈ dir.entries →
      d.RevertedTo pg filename content d' → K d'.settle) (force : Bool) :
    (migrating pg K).Ensures
      (fun _ v => ∃ content d', (downFilenameFor filename, content) ∈ dir.entries ∧
        d.RevertedTo pg filename content d' ∧ v = ⟨dir, ⟨d'.settle, .idle⟩⟩)
      (fun _ v => v = ⟨dir, ⟨d, .idle⟩⟩ ∨
        ∃ content d', (downFilenameFor filename, content) ∈ dir.entries ∧
          d.RevertedTo pg filename content d' ∧ v = ⟨dir, ⟨d'.settle, .idle⟩⟩)
      (downSqlMigration filename force) ⟨dir, ⟨d, .idle⟩⟩ := by
  have hsafe : (migrating pg K).Ensures (fun _ v => v = ⟨dir, ⟨d, .idle⟩⟩)
      (fun _ v => v = ⟨dir, ⟨d, .idle⟩⟩) (assertSafeMigrationFilename filename)
      ⟨dir, ⟨d, .idle⟩⟩ := by
    unfold assertSafeMigrationFilename
    split_ifs
    · exact Interp.ensures_pure rfl
    · exact Interp.ensures_throw rfl
  refine Interp.ensures_bind (hsafe.mono ?_ ?_)
  · rintro - v rfl
    refine Interp.ensures_bind ((ensures_readMigrationFile hd _ .idle).mono ?_ ?_)
    · rintro content v ⟨hcontent, rfl⟩
      refine (ensures_runInTransaction hd (fun d' h => hK content d' hcontent h)
        (ensures_reverting hd _ _ force) _).mono ?_ ?_
      · rintro - v ⟨d', h, rfl⟩
        exact ⟨content, d', hcontent, h, rfl⟩
      · rintro - v (rfl | ⟨d', h, rfl⟩)
        · exact Or.inl rfl
        · exact Or.inr ⟨content, d', hcontent, h, rfl⟩
    · rintro - v rfl
      exact Or.inl rfl
  · rintro - v rfl
    exact Or.inl rfl

theorem execs_migrating {α : Type} {p q : MigrationFlow α} {h : List MigrationEvent}
    {w w' : MigrationWorld σ} (he : (migrations pg).Execs p w h q w') :
    (migrating pg K).Execs p w h q w' :=
  he.of_exec fun _ _ _ _ h => h

/-- No call touches the files. -/
theorem directory_of_execs {α : Type} {p q : MigrationFlow α} {h : List MigrationEvent}
    {w w' : MigrationWorld σ} (he : (migrations pg).Execs p w h q w') :
    w'.directory = w.directory := by
  induction he with
  | nil => rfl
  | cons hstep _ ih =>
    rw [ih]
    cases hstep <;> rfl

/-- What a call demands of the database holds at every moment of it. -/
theorem kept_of_execs {p q : MigrationFlow Unit} {h : List MigrationEvent}
    {w w' : MigrationWorld σ}
    (hp : (migrating pg K).Ensures (fun _ v => ∃ d', v = ⟨dir, ⟨d', .idle⟩⟩ ∧ K d')
      (fun _ v => ∃ d', v = ⟨dir, ⟨d', .idle⟩⟩ ∧ K d') p w)
    (he : (migrations pg).Execs p w h q w') : K w'.connection.committed := by
  refine (execs_migrating he).invariant hp (fun _ _ h => h) fun r v hr => ?_
  cases r <;> (obtain ⟨d', rfl, hK⟩ := hr; exact hK)

/-! ## Calls in which nothing fails -/

theorem execs_readMigrationFile {name content : JsString} (hcontent : (name, content) ∈ dir.entries)
    (c : Connection (Database σ)) :
    (migrations pg).Execs (readMigrationFile name) ⟨dir, c⟩ [⟨.readFile name, .ok content⟩]
      (.done (.ok content)) ⟨dir, c⟩ :=
  .cons (.readFile hcontent) (.nil _ _)

/-- A transaction whose work succeeds. -/
theorem execs_runInTransaction {work : MigrationFlow Unit} {h : List MigrationEvent}
    {d' : Database σ}
    (hwork : (migrations pg).Execs work ⟨dir, ⟨d, .transaction d⟩⟩ h (.done (.ok ()))
      ⟨dir, ⟨d, .transaction d'⟩⟩) (errorContext : JsString) :
    ∃ h', (migrations pg).Execs (runInTransaction work errorContext) ⟨dir, ⟨d, .idle⟩⟩ h'
      (.done (.ok ())) ⟨dir, ⟨d'.settle, .idle⟩⟩ := by
  have hbegin : (migrations pg).Execs (Prog.call MigrationOp.begin Prog.done : MigrationFlow Unit)
      ⟨dir, ⟨d, .idle⟩⟩ _ (.done (.ok ())) ⟨dir, ⟨d, .transaction d⟩⟩ :=
    .cons (.begin (.ok (.idle d))) (.nil _ _)
  have hcommit : (migrations pg).Execs (Prog.call MigrationOp.commit Prog.done : MigrationFlow Unit)
      ⟨dir, ⟨d, .transaction d'⟩⟩ _ (.done (.ok ())) ⟨dir, ⟨d'.settle, .idle⟩⟩ :=
    .cons (.commit (.ok (.transaction d d'))) (.nil _ _)
  have hrelease : (migrations pg).Execs (Flow.perform (MigrationOp.release none) :
      MigrationFlow Unit) ⟨dir, ⟨d'.settle, .idle⟩⟩ _ (.done (.ok ())) ⟨dir, ⟨d'.settle, .idle⟩⟩ :=
    .cons .release (.nil _ _)
  have hbody : (migrations pg).Execs (do
      let _ ← Prog.call MigrationOp.begin Prog.done
      work
      let _ ← Prog.call MigrationOp.commit Prog.done
      Flow.perform (MigrationOp.release none) : MigrationFlow Unit) ⟨dir, ⟨d, .idle⟩⟩ _
      (.done (.ok ())) ⟨dir, ⟨d'.settle, .idle⟩⟩ :=
    hbegin.bind_ok (hwork.bind_ok (hcommit.bind_ok hrelease))
  exact ⟨_, .cons .connect (hbody.tryCatch_ok _)⟩

/-- A file that is recorded with its checksum is passed. -/
theorem execs_applyMigration_recorded {checksumOf : JsString → JsString}
    {filename content : JsString} (hcontent : (filename, content) ∈ dir.entries)
    (hrecords : d.Records filename (checksumOf content)) :
    ∃ h, (migrations pg).Execs (applyMigration checksumOf filename) ⟨dir, ⟨d, .idle⟩⟩ h
      (.done (.ok ())) ⟨dir, ⟨d.settle, .idle⟩⟩ := by
  obtain ⟨t, ht, hrow⟩ := hrecords
  have hfind : t.find filename = some ⟨filename, checksumOf content⟩ :=
    (t.mem_iff_find ⟨filename, checksumOf content⟩).mp hrow
  have hselect := @Database.Effect.selectChecksum σ pg d t filename ht
  rw [hfind] at hselect
  have hpass : (migrations pg).Execs (if checksumOf content ≠ checksumOf content then
      throw (.new (editedMessage filename)) else pure () : MigrationFlow Unit)
      ⟨dir, ⟨d.settle, .idle⟩⟩ [] (.done (.ok ())) ⟨dir, ⟨d.settle, .idle⟩⟩ := by
    rw [if_neg (not_not.mpr rfl)]
    exact .nil _ _
  exact ⟨_, (execs_readMigrationFile hcontent _).bind_ok
    (.cons (.poolQuery (.ok (.alone hselect))) hpass)⟩

/-- A file that is not recorded is applied. -/
theorem execs_applyMigration_free {checksumOf : JsString → JsString} {filename content : JsString}
    {schema : σ} {t : TrackingTable} (hcontent : (filename, content) ∈ dir.entries)
    (ht : d.tracking = some t) (hfree : filename ∉ t.rows.map TrackingRow.filename)
    (hscript : pg.scripts content none d.schema schema) :
    ∃ h, (migrations pg).Execs (applyMigration checksumOf filename) ⟨dir, ⟨d, .idle⟩⟩ h
      (.done (.ok ())) ⟨dir, ⟨⟨schema, some (t.insertOne ⟨filename, checksumOf content⟩),
        d.history ++ [⟨.up, filename, content⟩], none⟩, .idle⟩⟩ := by
  have hfind : t.find filename = none := by
    cases hrow : t.find filename with
    | none => rfl
    | some row =>
      exact absurd (List.mem_map.mpr ⟨row, t.mem_of_find hrow, t.key_of_find hrow⟩) hfree
  have hselect := @Database.Effect.selectChecksum σ pg d t filename ht
  rw [hfind] at hselect
  have hscript' : (migrations pg).Execs (Prog.call (MigrationOp.query (.script .up filename content))
      Prog.done : MigrationFlow Unit) ⟨dir, ⟨d.settle, .transaction d.settle⟩⟩ _ (.done (.ok ())) _ :=
    .cons (.query (.ok (.within (.script .up filename content hscript)))) (.nil _ _)
  have hwork : (migrations pg).Execs (applying filename content (checksumOf content))
      ⟨dir, ⟨d.settle, .transaction d.settle⟩⟩ _ (.done (.ok ())) _ :=
    hscript'.bind_ok (.cons (.query (.ok (.within (.insertTracking filename (checksumOf content)
      ht hfree)))) (.nil _ _))
  obtain ⟨h, he⟩ := execs_runInTransaction hwork
    (lit "Failed to apply migration \"" ++ filename ++ lit "\"")
  exact ⟨_, (execs_readMigrationFile hcontent _).bind_ok
    (.cons (.poolQuery (.ok (.alone hselect))) he)⟩

/-- A file whose script succeeds is reverted. -/
theorem execs_downSqlMigration {filename content : JsString} {schema : σ} {t : TrackingTable}
    {force : Bool} (hname : matchesMigrationFilename filename = true)
    (hcontent : (downFilenameFor filename, content) ∈ dir.entries) (ht : d.tracking = some t)
    (hscript : pg.scripts content (some (lit (if force then "true" else "false"))) d.schema
      schema) :
    ∃ h, (migrations pg).Execs (downSqlMigration filename force) ⟨dir, ⟨d, .idle⟩⟩ h
      (.done (.ok ())) ⟨dir, ⟨⟨schema, some (t.delete filename),
        d.history ++ [⟨.down, filename, content⟩], none⟩, .idle⟩⟩ := by
  have hset : (migrations pg).Execs (Prog.call (MigrationOp.query
      (.setForce (lit (if force then "true" else "false")))) Prog.done : MigrationFlow Unit)
      ⟨dir, ⟨d, .transaction d⟩⟩ _ (.done (.ok ())) _ :=
    .cons (.query (.ok (.within (.setForce d _)))) (.nil _ _)
  have hwork : (migrations pg).Execs (reverting filename content force)
      ⟨dir, ⟨d, .transaction d⟩⟩ _ (.done (.ok ())) _ :=
    hset.bind_ok (.cons (.query (.ok (.within (.script .down filename content hscript))))
      (.cons (.query (.ok (.within (.deleteTracking filename ht)))) (.nil _ _)))
  obtain ⟨h, he⟩ := execs_runInTransaction hwork
    (lit "Failed to roll back migration \"" ++ filename ++ lit "\"")
  have hsafe : (migrations pg).Execs (assertSafeMigrationFilename filename) ⟨dir, ⟨d, .idle⟩⟩ []
      (.done (.ok ())) ⟨dir, ⟨d, .idle⟩⟩ := by
    rw [assertSafeMigrationFilename, if_pos hname]
    exact .nil _ _
  exact ⟨_, hsafe.bind_ok ((execs_readMigrationFile hcontent _).bind_ok he)⟩

/-- A call whose loop over the files ends. -/
theorem execs_runSqlMigrations_of_loop {checksumOf : JsString → JsString} {h : List MigrationEvent}
    {q : MigrationFlow Unit} {w' : MigrationWorld σ}
    (hloop : (migrations pg).Execs
      (applyMigrations checksumOf (listMigrationFiles (dir.entries.map Prod.fst)))
      ⟨dir, ⟨⟨d.schema, some (d.tracking.getD KeyedTable.empty), d.history, none⟩, .idle⟩⟩ h q w') :
    ∃ h', (migrations pg).Execs (runSqlMigrations checksumOf) ⟨dir, ⟨d, .idle⟩⟩ h' q w' :=
  ⟨_, .cons (.poolQuery (.ok (.alone (.createTrackingTable d))))
    (.cons (.readdir (List.Perm.refl _)) hloop)⟩

end Runner

end Posta
