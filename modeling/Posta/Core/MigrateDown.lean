import Mathlib.Data.Set.Lattice
import Posta.Core.MigrationLogic

/-!
# Reverting the newest migration

`migrateDown` walks the recorded migrations from the newest and reverts the first one that has a down
script on disk, and so may revert a migration that others, which have none, were built on.

**Objects** (`MigrationObjects`). A migration's script creates objects, which may be attached to
other objects; its down script drops them with everything attached.

**Invariant** (`Tracked`). Every recorded migration has its objects, and every object belongs to a
recorded migration. Applying a migration keeps it (`keptUp_tracked`); reverting one keeps it where no
recorded migration has objects attached to those that are dropped (`tracked_of_revertedTo`).
-/

namespace Posta

open Js Interaction Store

/-! ## The code -/

def firstRevertible : List JsString → MigrationFlow (Option JsString)
  | [] => pure none
  | filename :: rows => do
    let onDisk : Bool ← Flow.perform (MigrationOp.existsFile (downFilenameFor filename))
    if onDisk then pure (some filename) else firstRevertible rows

def findNewestRevertibleMigration : MigrationFlow (Option JsString) := do
  let tableExists : Bool ← Prog.call (MigrationOp.poolQuery .trackingTableExists) Prog.done
  if !tableExists then pure none
  else do
    let applied : List JsString ← Prog.call (MigrationOp.poolQuery .selectFilenames) Prog.done
    firstRevertible applied

def nothingToRevertMessage : JsString :=
  lit ("migrateDown: nothing to revert — no applied hand-written SQL migration has a .down.sql " ++
    "pair on disk.")

/-- An empty name counts as none. -/
def migrateDown (force : Bool) : MigrationFlow JsString := do
  let filename ← findNewestRevertibleMigration
  match filename.getD [] with
  | [] => throw (.new nothingToRevertMessage)
  | c :: cs => do
    downSqlMigration (c :: cs) force
    pure (c :: cs)

/-! ## What it reverts -/

namespace Database

variable {σ : Type}

/-- The migration is recorded as applied. -/
def Recorded (db : Database σ) (filename : JsString) : Prop :=
  ∃ checksum, db.Records filename checksum

/-- The newest of the recorded migrations that have a down script. -/
structure NewestRevertible (pg : Scripts σ) (dir : SortedStore JsString JsString)
    (db : Database σ) (filename : JsString) : Prop where
  recorded : db.Recorded filename
  onDisk : downFilenameFor filename ∈ dir.entries.map Prod.fst
  newest : ∀ g, db.Recorded g → downFilenameFor g ∈ dir.entries.map Prod.fst →
    g = filename ∨ pg.collation g filename

theorem recorded_iff {db : Database σ} {t : TrackingTable} (ht : db.tracking = some t)
    (filename : JsString) :
    db.Recorded filename ↔ filename ∈ t.rows.map TrackingRow.filename := by
  constructor
  · rintro ⟨checksum, hr⟩
    exact List.mem_map.mpr ⟨_, (records_of_tracking ht).mp hr, rfl⟩
  · intro h
    obtain ⟨⟨f, checksum⟩, hrow, rfl⟩ := List.mem_map.mp h
    exact ⟨checksum, (records_of_tracking ht).mpr hrow⟩

end Database

section Runner

variable {σ : Type} {pg : Scripts σ} {K : Database σ → Prop} {dir : SortedStore JsString JsString}
  {d : Database σ}

/-- The first of the names with a down script is found. -/
theorem ensures_firstRevertible (hd : K d) (names : List JsString) :
    (migrating pg K).Ensures
      (fun found v => v = ⟨dir, ⟨d, .idle⟩⟩ ∧ ∀ filename, found = some filename →
        ∃ before after, names = before ++ filename :: after ∧
          downFilenameFor filename ∈ dir.entries.map Prod.fst ∧
          ∀ g ∈ before, downFilenameFor g ∉ dir.entries.map Prod.fst)
      (fun _ _ => False) (firstRevertible names) ⟨dir, ⟨d, .idle⟩⟩ := by
  induction names with
  | nil => exact Interp.ensures_pure ⟨rfl, fun _ h => by cases h⟩
  | cons name names ih =>
    refine Interp.ensures_bind (Interp.ensures_perform hd fun onDisk v hr => ?_)
    cases hr with
    | existsFile =>
      by_cases hmem : downFilenameFor name ∈ dir.entries.map Prod.fst
      · rw [show decide (downFilenameFor name ∈ (⟨dir, ⟨d, .idle⟩⟩ : MigrationWorld σ).names) = true
          from decide_eq_true hmem]
        refine Interp.ensures_pure ⟨rfl, fun filename hf => ?_⟩
        cases hf
        exact ⟨[], names, rfl, hmem, fun g hg => absurd hg List.not_mem_nil⟩
      · rw [show decide (downFilenameFor name ∈ (⟨dir, ⟨d, .idle⟩⟩ : MigrationWorld σ).names) = false
          from decide_eq_false hmem]
        refine ih.mono ?_ fun _ _ h => h
        rintro found v ⟨rfl, hfound⟩
        refine ⟨rfl, fun filename hf => ?_⟩
        obtain ⟨before, after, rfl, hdown, hbefore⟩ := hfound filename hf
        refine ⟨name :: before, after, rfl, hdown, fun g hg => ?_⟩
        rcases List.mem_cons.mp hg with rfl | hg
        · exact hmem
        · exact hbefore g hg

/-- **What is found is the newest that can be reverted.** -/
theorem ensures_findNewestRevertibleMigration (hd : K d) (hforce : d.force = none) :
    (migrating pg K).Ensures
      (fun found v => v = ⟨dir, ⟨d, .idle⟩⟩ ∧
        ∀ filename, found = some filename → d.NewestRevertible pg dir filename)
      (fun _ v => v = ⟨dir, ⟨d, .idle⟩⟩) findNewestRevertibleMigration ⟨dir, ⟨d, .idle⟩⟩ := by
  have hsettle : d.settle = d := by
    rw [Database.settle, ← hforce]
  refine Interp.ensures_bind ((ensures_poolQuery hd _).mono ?_ ?_)
  · rintro tableExists v ⟨d', heffect, rfl⟩
    cases heffect
    rw [hsettle]
    by_cases htable : d.tracking.isSome
    · rw [htable]
      refine Interp.ensures_bind ((ensures_poolQuery hd _).mono ?_ ?_)
      · rintro names v ⟨d', heffect, rfl⟩
        cases heffect with
        | @selectFilenames _ t _ ht hperm hsorted =>
          rw [hsettle]
          refine (ensures_firstRevertible hd names).mono ?_ fun _ _ h => h.elim
          rintro found v ⟨rfl, hfound⟩
          refine ⟨rfl, fun filename hf => ?_⟩
          obtain ⟨before, after, rfl, hdown, hbefore⟩ := hfound filename hf
          have hmem (g : JsString) : d.Recorded g ↔ g ∈ before ++ filename :: after :=
            (Database.recorded_iff ht g).trans hperm.mem_iff.symm
          refine ⟨(hmem filename).mpr (List.mem_append_right _ List.mem_cons_self), hdown, ?_⟩
          intro g hg hgdown
          rcases List.mem_append.mp ((hmem g).mp hg) with h | h
          · exact absurd hgdown (hbefore g h)
          · rcases List.mem_cons.mp h with h | h
            · exact Or.inl h
            · refine Or.inr ?_
              exact List.rel_of_pairwise_cons (List.pairwise_append.mp hsorted).2.1 h
      · rintro - v (rfl | ⟨names, d', heffect, rfl⟩)
        · rfl
        · cases heffect
          rw [hsettle]
    · rw [Bool.eq_false_iff.mpr htable]
      exact Interp.ensures_pure ⟨rfl, fun _ h => by cases h⟩
  · rintro - v (rfl | ⟨tableExists, d', heffect, rfl⟩)
    · rfl
    · cases heffect
      rw [hsettle]

/-- **One revert.** Where the call fails, its transaction was committed or was not. -/
theorem ensures_migrateDown (hd : K d) (hforce : d.force = none)
    (hK : ∀ filename content d', d.NewestRevertible pg dir filename →
      (downFilenameFor filename, content) ∈ dir.entries →
      d.RevertedTo pg filename content d' → K d'.settle) (force : Bool) :
    (migrating pg K).Ensures
      (fun filename v => d.NewestRevertible pg dir filename ∧
        ∃ content d', (downFilenameFor filename, content) ∈ dir.entries ∧
          d.RevertedTo pg filename content d' ∧ v = ⟨dir, ⟨d'.settle, .idle⟩⟩)
      (fun _ v => v = ⟨dir, ⟨d, .idle⟩⟩ ∨ ∃ filename, d.NewestRevertible pg dir filename ∧
        ∃ content d', (downFilenameFor filename, content) ∈ dir.entries ∧
          d.RevertedTo pg filename content d' ∧ v = ⟨dir, ⟨d'.settle, .idle⟩⟩)
      (migrateDown force) ⟨dir, ⟨d, .idle⟩⟩ := by
  refine Interp.ensures_bind
    ((ensures_findNewestRevertibleMigration hd hforce).mono ?_ fun _ _ h => Or.inl h)
  rintro found v ⟨rfl, hfound⟩
  rcases found with - | - | ⟨c, cs⟩
  · exact Interp.ensures_throw (Or.inl rfl)
  · exact Interp.ensures_throw (Or.inl rfl)
  · have hnewest := hfound (c :: cs) rfl
    refine Interp.ensures_bind ((ensures_downSqlMigration hd
      (fun content d' hc h => hK _ content d' hnewest hc h) force).mono ?_ ?_)
    · rintro - v ⟨content, d', hc, h, rfl⟩
      exact Interp.ensures_pure ⟨hnewest, content, d', hc, h, rfl⟩
    · rintro - v (rfl | ⟨content, d', hc, h, rfl⟩)
      · exact Or.inl rfl
      · exact Or.inr ⟨_, hnewest, content, d', hc, h, rfl⟩

/-- The walk over the names. -/
theorem execs_firstRevertible {before after : List JsString} {filename : JsString}
    (hbefore : ∀ g ∈ before, downFilenameFor g ∉ dir.entries.map Prod.fst)
    (hdown : downFilenameFor filename ∈ dir.entries.map Prod.fst)
    (c : Connection (Database σ)) :
    ∃ h, (migrations pg).Execs (firstRevertible (before ++ filename :: after)) ⟨dir, c⟩ h
      (.done (.ok (some filename))) ⟨dir, c⟩ := by
  have hexists (name : JsString) (onDisk : Bool)
      (h : decide (downFilenameFor name ∈ dir.entries.map Prod.fst) = onDisk) :
      (migrations pg).Execs (Flow.perform (MigrationOp.existsFile (downFilenameFor name)) :
        MigrationFlow Bool) ⟨dir, c⟩ [⟨.existsFile (downFilenameFor name), onDisk⟩]
        (.done (.ok onDisk)) ⟨dir, c⟩ := by
    rw [← h]
    exact .cons (.existsFile (downFilenameFor name)) (.nil _ _)
  induction before with
  | nil => exact ⟨_, (hexists filename true (decide_eq_true hdown)).bind_ok (.nil _ _)⟩
  | cons name before ih =>
    rw [List.forall_mem_cons] at hbefore
    obtain ⟨h, he⟩ := ih hbefore.2
    exact ⟨_, (hexists name false (decide_eq_false hbefore.1)).bind_ok he⟩

/-- A revert in which nothing fails. -/
theorem execs_migrateDown {before after : List JsString} {filename content : JsString}
    {schema : σ} {t : TrackingTable} {force : Bool} (hforce : d.force = none)
    (ht : d.tracking = some t)
    (hperm : (before ++ filename :: after).Perm (t.rows.map TrackingRow.filename))
    (hsorted : (before ++ filename :: after).Pairwise fun a b => pg.collation b a)
    (hbefore : ∀ g ∈ before, downFilenameFor g ∉ dir.entries.map Prod.fst)
    (hname : matchesMigrationFilename filename = true)
    (hcontent : (downFilenameFor filename, content) ∈ dir.entries)
    (hscript : pg.scripts content (some (lit (if force then "true" else "false"))) d.schema
      schema) :
    ∃ h, (migrations pg).Execs (migrateDown force) ⟨dir, ⟨d, .idle⟩⟩ h (.done (.ok filename))
      ⟨dir, ⟨⟨schema, some (t.delete filename),
        d.history ++ [⟨.down, filename, content⟩], none⟩, .idle⟩⟩ := by
  have hsettle : d.settle = d := by
    rw [Database.settle, ← hforce]
  have hdown : downFilenameFor filename ∈ dir.entries.map Prod.fst :=
    List.mem_map.mpr ⟨_, hcontent, rfl⟩
  have htable : (migrations pg).Execs (Prog.call (MigrationOp.poolQuery .trackingTableExists)
      Prog.done : MigrationFlow Bool) ⟨dir, ⟨d, .idle⟩⟩ [⟨.poolQuery .trackingTableExists, .ok true⟩]
      (.done (.ok true)) ⟨dir, ⟨d, .idle⟩⟩ := by
    have heffect : Database.Effect pg .trackingTableExists d d.tracking.isSome d :=
      .trackingTableExists d
    rw [ht] at heffect
    have hdone : Done Database.settle (Database.Effect pg .trackingTableExists) ⟨d, .idle⟩ true
        ⟨d.settle, .idle⟩ := .alone heffect
    rw [hsettle] at hdone
    exact .cons (.poolQuery (.ok hdone)) (.nil _ _)
  have hselect : (migrations pg).Execs (Prog.call (MigrationOp.poolQuery .selectFilenames)
      Prog.done : MigrationFlow (List JsString)) ⟨dir, ⟨d, .idle⟩⟩
      [⟨.poolQuery .selectFilenames, .ok (before ++ filename :: after)⟩]
      (.done (.ok (before ++ filename :: after))) ⟨dir, ⟨d, .idle⟩⟩ := by
    have hdone : Done Database.settle (Database.Effect pg .selectFilenames) ⟨d, .idle⟩
        (before ++ filename :: after) ⟨d.settle, .idle⟩ :=
      .alone (.selectFilenames ht hperm hsorted)
    rw [hsettle] at hdone
    exact .cons (.poolQuery (.ok hdone)) (.nil _ _)
  obtain ⟨h₁, hfirst⟩ : ∃ h, (migrations pg).Execs (firstRevertible (before ++ filename :: after))
      ⟨dir, ⟨d, .idle⟩⟩ h (.done (.ok (some filename))) ⟨dir, ⟨d, .idle⟩⟩ :=
    execs_firstRevertible hbefore hdown _
  obtain ⟨h₂, hrevert⟩ := execs_downSqlMigration hname hcontent ht hscript
  have hfind : (migrations pg).Execs findNewestRevertibleMigration ⟨dir, ⟨d, .idle⟩⟩ _
      (.done (.ok (some filename))) ⟨dir, ⟨d, .idle⟩⟩ := htable.bind_ok (hselect.bind_ok hfirst)
  cases filename with
  | nil => cases hname
  | cons c cs => exact ⟨_, hfind.bind_ok (hrevert.bind_ok (.nil _ _))⟩

end Runner

/-! ## The objects of migrations -/

variable {Object : Type}

/-- What goes with the objects of `s` when they are dropped. -/
def Dropped (attached : Object → Object → Prop) (s : Set Object) : Set Object :=
  {o | ∃ o' ∈ s, Relation.ReflTransGen attached o o'}

/-- The scripts of a directory: that of a migration creates its objects, and its down script drops
them with everything attached. -/
structure MigrationObjects (pg : Scripts (Set Object)) (dir : SortedStore JsString JsString)
    (objects : JsString → Set Object) (attached : Object → Object → Prop) : Prop where
  creates : ∀ filename content force before after, isMigrationFile filename = true →
    (filename, content) ∈ dir.entries → pg.scripts content force before after →
    after = before ∪ objects filename
  drops : ∀ filename content force before after, isMigrationFile filename = true →
    (downFilenameFor filename, content) ∈ dir.entries → pg.scripts content force before after →
    after = before \ Dropped attached (objects filename)

namespace Database

/-- **Every migration recorded as applied has its objects.** -/
def ObjectsPresent (objects : JsString → Set Object) (db : Database (Set Object)) : Prop :=
  ∀ filename, db.Recorded filename → objects filename ⊆ db.schema

end Database

/-- What is recorded comes from the directory, and what is present belongs to what is recorded. -/
structure Tracked (dir : SortedStore JsString JsString) (objects : JsString → Set Object)
    (db : Database (Set Object)) : Prop where
  present : db.ObjectsPresent objects
  owned : ∀ o ∈ db.schema, ∃ filename, db.Recorded filename ∧ o ∈ objects filename
  files : ∀ filename, db.Recorded filename →
    isMigrationFile filename = true ∧ filename ∈ dir.entries.map Prod.fst
  force : db.force = none

/-- No recorded migration has objects attached to those of the one to be reverted. -/
def NothingAttached (pg : Scripts (Set Object)) (dir : SortedStore JsString JsString)
    (objects : JsString → Set Object) (attached : Object → Object → Prop)
    (db : Database (Set Object)) : Prop :=
  ∀ filename, db.NewestRevertible pg dir filename → ∀ g, db.Recorded g → g ≠ filename →
    ∀ o ∈ objects g, o ∉ Dropped attached (objects filename)

section Objects

variable {pg : Scripts (Set Object)} {dir : SortedStore JsString JsString}
  {objects : JsString → Set Object} {attached : Object → Object → Prop}
  {checksumOf : JsString → JsString} {d d' : Database (Set Object)} {filename content : JsString}

theorem tracked_start : Tracked dir objects ⟨∅, none, [], none⟩ where
  present filename := by
    rintro ⟨checksum, t, ht, -⟩
    cases ht
  owned o ho := absurd ho (Set.notMem_empty o)
  files filename := by
    rintro ⟨checksum, t, ht, -⟩
    cases ht
  force := rfl

/-- **Applying a migration** adds its objects. -/
theorem keptUp_tracked (hobj : MigrationObjects pg dir objects attached) :
    KeptUp pg checksumOf dir (Tracked dir objects) where
  settle d hd := ⟨hd.present, hd.owned, hd.files, rfl⟩
  create d hd := by
    have hrec (f : JsString) : Database.Recorded
        { d with tracking := some (d.tracking.getD KeyedTable.empty) } f ↔ d.Recorded f :=
      exists_congr fun c => d.records_create f c
    refine ⟨fun f hf => hd.present f ((hrec f).mp hf), fun o ho => ?_,
      fun f hf => hd.files f ((hrec f).mp hf), hd.force⟩
    obtain ⟨f, hf, hof⟩ := hd.owned o ho
    exact ⟨f, (hrec f).mpr hf, hof⟩
  apply d filename content d' hd hfile hcontent happlied := by
    have hrec (f : JsString) : d'.Recorded f ↔ d.Recorded f ∨ f = filename := by
      constructor
      · rintro ⟨c, hc⟩
        rcases (happlied.records f c).mp hc with h | ⟨h, -⟩
        · exact Or.inl ⟨c, h⟩
        · exact Or.inr h
      · rintro (⟨c, hc⟩ | rfl)
        · exact ⟨c, (happlied.records f c).mpr (Or.inl hc)⟩
        · exact ⟨_, (happlied.records f _).mpr (Or.inr ⟨rfl, rfl⟩)⟩
    have hschema : d'.schema = d.schema ∪ objects filename := by
      cases happlied with
      | intro ht hfree hs => exact hobj.creates _ _ _ _ _ hfile hcontent hs
    refine ⟨fun f hf => ?_, fun o ho => ?_, fun f hf => ?_, ?_⟩
    · rw [hschema]
      rcases (hrec f).mp hf with hf | rfl
      · exact (hd.present f hf).trans Set.subset_union_left
      · exact Set.subset_union_right
    · rw [hschema] at ho
      rcases ho with ho | ho
      · obtain ⟨f, hf, hof⟩ := hd.owned o ho
        exact ⟨f, (hrec f).mpr (Or.inl hf), hof⟩
      · exact ⟨filename, (hrec filename).mpr (Or.inr rfl), ho⟩
    · rcases (hrec f).mp hf with hf | rfl
      · exact hd.files f hf
      · exact ⟨hfile, List.mem_map.mpr ⟨_, hcontent, rfl⟩⟩
    · cases happlied
      exact hd.force

/-- What a revert leaves recorded, and what it leaves present. -/
theorem reverted_to (hobj : MigrationObjects pg dir objects attached)
    (hfile : isMigrationFile filename = true)
    (hcontent : (downFilenameFor filename, content) ∈ dir.entries)
    (h : d.RevertedTo pg filename content d') :
    (∀ f, d'.settle.Recorded f ↔ d.Recorded f ∧ f ≠ filename) ∧
      d'.settle.schema = d.schema \ Dropped attached (objects filename) := by
  constructor
  · intro f
    constructor
    · rintro ⟨c, hc⟩
      obtain ⟨hc, hne⟩ := (h.records f c).mp hc
      exact ⟨⟨c, hc⟩, hne⟩
    · rintro ⟨⟨c, hc⟩, hne⟩
      exact ⟨c, (h.records f c).mpr ⟨hc, hne⟩⟩
  · cases h with
    | intro force ht hs => exact hobj.drops _ _ _ _ _ hfile hcontent hs

/-- **Reverting a migration** that nothing is attached to. -/
theorem tracked_of_revertedTo (hobj : MigrationObjects pg dir objects attached)
    (hd : Tracked dir objects d) (hnewest : d.NewestRevertible pg dir filename)
    (hattached : NothingAttached pg dir objects attached d)
    (hcontent : (downFilenameFor filename, content) ∈ dir.entries)
    (h : d.RevertedTo pg filename content d') : Tracked dir objects d'.settle := by
  obtain ⟨hrec, hschema⟩ :=
    reverted_to hobj (hd.files filename hnewest.recorded).1 hcontent h
  refine ⟨fun f hf => ?_, fun o ho => ?_, fun f hf => hd.files f ((hrec f).mp hf).1, rfl⟩
  · obtain ⟨hf, hne⟩ := (hrec f).mp hf
    rw [hschema]
    exact fun o ho => ⟨hd.present f hf ho, hattached filename hnewest f hf hne o ho⟩
  · rw [hschema] at ho
    obtain ⟨f, hf, hof⟩ := hd.owned o ho.1
    refine ⟨f, (hrec f).mpr ⟨hf, ?_⟩, hof⟩
    rintro rfl
    exact ho.2 ⟨o, hof, .refl⟩

end Objects

end Posta
