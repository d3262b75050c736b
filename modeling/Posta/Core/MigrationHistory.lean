import Posta.Core.MigrationLogic

/-!
# What the tracking table says

**Theorem (`migration_history`).** Over any sequence of calls that apply and revert migrations, with
the files edited between the calls and any statement failing in any of them: at every moment the
tracking table lists exactly the migrations that are in force, each with the checksum of the content
that was executed; none is applied twice without a revert in between; a call that fails at a file
has recorded every file before it and executed none behind it; and a recorded file whose content
changed makes every call fail before anything behind it is executed.

A transaction executes a script and changes the tracking table, or does neither. Where its `COMMIT`
fails it has done either, so what the rest of the proof looks at is only what is committed.
-/

namespace Posta

open Js Interaction Store

/-! ## Histories -/

/-- The migration was applied, and not reverted since. -/
def InForce (history : List ExecutedScript) (filename content : JsString) : Prop :=
  ∃ before after, history = before ++ ⟨.up, filename, content⟩ :: after ∧
    ∀ e ∈ after, ¬(e.direction = .down ∧ e.filename = filename)

/-- Between two applications of a migration it was reverted. -/
def Alternates (history : List ExecutedScript) : Prop :=
  ∀ filename before content between content' after,
    history = before ++ ⟨.up, filename, content⟩ :: (between ++ ⟨.up, filename, content'⟩ :: after) →
    ∃ e ∈ between, e.direction = .down ∧ e.filename = filename

theorem inForce_append {history : List ExecutedScript} {e : ExecutedScript}
    {filename content : JsString} :
    InForce (history ++ [e]) filename content ↔ e = ⟨.up, filename, content⟩ ∨
      InForce history filename content ∧ ¬(e.direction = .down ∧ e.filename = filename) := by
  constructor
  · rintro ⟨before, after, heq, hafter⟩
    rcases List.eq_nil_or_concat' after with rfl | ⟨after', e', rfl⟩
    · have := List.append_inj' heq rfl
      exact Or.inl (List.singleton_inj.mp this.2)
    · rw [← List.cons_append, ← List.append_assoc] at heq
      obtain ⟨hh, he⟩ := List.append_inj' heq rfl
      obtain rfl := List.singleton_inj.mp he
      refine Or.inr ⟨⟨before, after', hh, fun x hx => hafter x ?_⟩, hafter e ?_⟩
      · exact List.mem_append_left _ hx
      · exact List.mem_append_right _ List.mem_cons_self
  · rintro (rfl | ⟨⟨before, after, rfl, hafter⟩, he⟩)
    · exact ⟨history, [], rfl, fun x hx => absurd hx List.not_mem_nil⟩
    · refine ⟨before, after ++ [e], by simp, fun x hx => ?_⟩
      rcases List.mem_append.mp hx with hx | hx
      · exact hafter x hx
      · rw [List.mem_singleton.mp hx]
        exact he

theorem not_inForce_nil (filename content : JsString) : ¬InForce [] filename content := by
  rintro ⟨before, after, h, -⟩
  simp at h

theorem alternates_nil : Alternates [] := by
  intro filename before content between content' after h
  simp at h

/-- A script that reverts, or applies what is not in force, keeps the alternation. -/
theorem Alternates.append {history : List ExecutedScript} (h : Alternates history)
    {e : ExecutedScript}
    (he : e.direction = .down ∨ ∀ content, ¬InForce history e.filename content) :
    Alternates (history ++ [e]) := by
  intro filename before content between content' after heq
  rcases List.eq_nil_or_concat' after with rfl | ⟨after', e', rfl⟩
  · rw [← List.cons_append, ← List.append_assoc] at heq
    obtain ⟨hh, hlast⟩ := List.append_inj' heq rfl
    obtain rfl := List.singleton_inj.mp hlast
    rcases he with he | he
    · cases he
    · by_contra hno
      exact he content ⟨before, between, hh, fun x hx hd => hno ⟨x, hx, hd⟩⟩
  · rw [← List.cons_append, ← List.append_assoc, ← List.cons_append, ← List.append_assoc] at heq
    obtain ⟨hh, -⟩ := List.append_inj' heq rfl
    refine h filename before content between content' after' ?_
    rw [hh]
    simp

/-! ## Faithful databases -/

namespace Database

variable {σ : Type} {db : Database σ}

/-- **The tracking table lists what is in force**, and the history alternates. -/
structure Faithful (checksumOf : JsString → JsString) (db : Database σ) : Prop where
  records_iff : ∀ filename checksum, db.Records filename checksum ↔
    ∃ content, InForce db.history filename content ∧ checksumOf content = checksum
  alternates : Alternates db.history

variable {checksumOf : JsString → JsString}

theorem faithful_start (schema : σ) : Faithful checksumOf ⟨schema, none, [], none⟩ where
  records_iff filename checksum := by
    constructor
    · rintro ⟨t, ht, -⟩
      cases ht
    · rintro ⟨content, h, -⟩
      exact absurd h (not_inForce_nil _ _)
  alternates := alternates_nil

/-- Only the tracking rows and the history matter. -/
theorem Faithful.of_eq {db' : Database σ} (h : db.Faithful checksumOf)
    (hrecords : ∀ filename checksum, db'.Records filename checksum ↔ db.Records filename checksum)
    (hhistory : db'.history = db.history) : db'.Faithful checksumOf where
  records_iff filename checksum := by
    rw [hrecords, hhistory]
    exact h.records_iff filename checksum
  alternates := by
    rw [hhistory]
    exact h.alternates

/-- **Applying** a file that has no row, and recording it. -/
theorem Faithful.apply (h : db.Faithful checksumOf) {t : TrackingTable}
    (ht : db.tracking = some t) {filename content : JsString}
    (hfree : filename ∉ t.rows.map TrackingRow.filename) (schema : σ) (force : Option JsString) :
    Faithful checksumOf ⟨schema, some (t.insertOne ⟨filename, checksumOf content⟩),
      db.history ++ [⟨.up, filename, content⟩], force⟩ where
  records_iff f checksum := by
    rw [records_of_tracking rfl, t.mem_insertOne_of_free hfree, ← records_of_tracking ht,
      h.records_iff]
    constructor
    · rintro (⟨c, hc, rfl⟩ | heq)
      · exact ⟨c, inForce_append.mpr (Or.inr ⟨hc, fun hd => by cases hd.1⟩), rfl⟩
      · cases heq
        exact ⟨content, inForce_append.mpr (Or.inl rfl), rfl⟩
    · rintro ⟨c, hc, rfl⟩
      rcases inForce_append.mp hc with heq | ⟨hc, -⟩
      · cases heq
        exact Or.inr rfl
      · exact Or.inl ⟨c, hc, rfl⟩
  alternates := by
    refine h.alternates.append (Or.inr fun c hc => hfree ?_)
    have hrow := (records_of_tracking ht).mp ((h.records_iff filename _).mpr ⟨c, hc, rfl⟩)
    exact List.mem_map_of_mem hrow

/-- **Reverting** a file and deleting its row. -/
theorem Faithful.revert (h : db.Faithful checksumOf) {t : TrackingTable}
    (ht : db.tracking = some t) (filename content : JsString) (schema : σ)
    (force : Option JsString) :
    Faithful checksumOf ⟨schema, some (t.delete filename),
      db.history ++ [⟨.down, filename, content⟩], force⟩ where
  records_iff f checksum := by
    rw [records_of_tracking rfl, t.mem_delete, ← records_of_tracking ht, h.records_iff]
    constructor
    · rintro ⟨⟨c, hc, rfl⟩, hne⟩
      exact ⟨c, inForce_append.mpr (Or.inr ⟨hc, fun hd => hne hd.2.symm⟩), rfl⟩
    · rintro ⟨c, hc, rfl⟩
      rcases inForce_append.mp hc with heq | ⟨hc, hno⟩
      · cases heq
      · exact ⟨⟨c, hc, rfl⟩, fun heq => hno ⟨rfl, heq.symm⟩⟩
  alternates := h.alternates.append (Or.inl rfl)

end Database

/-! ## Calls -/

/-- No row is gone. -/
def Extends {σ : Type} (db db' : Database σ) : Prop :=
  ∀ filename checksum, db.Records filename checksum → db'.Records filename checksum

section Runs

variable {σ : Type} {pg : Scripts σ} {checksumOf : JsString → JsString}
  {dir : SortedStore JsString JsString} {d₀ d : Database σ} {files : List JsString}
  {h : List MigrationEvent} {w w' : MigrationWorld σ}

theorem keptUp_faithful : KeptUp pg checksumOf dir fun db => db.Faithful checksumOf where
  settle _ hd := hd.of_eq (fun _ _ => Iff.rfl) rfl
  create d hd := hd.of_eq d.records_create rfl
  apply _ _ _ _ hd _ _ happlied := by
    cases happlied with
    | intro ht hfree => exact hd.apply ht hfree _ _

theorem keptUp_extends : KeptUp pg checksumOf dir (Extends d₀) where
  settle _ hd := hd
  create d hd f c hr := (d.records_create f c).mpr (hd f c hr)
  apply _ _ _ _ hd _ _ happlied f c hr := (happlied.records f c).mpr (Or.inl (hd f c hr))

theorem faithful_of_revertedTo {filename content : JsString} {d' : Database σ}
    (hd : d.Faithful checksumOf) (h : d.RevertedTo pg filename content d') :
    d'.settle.Faithful checksumOf := by
  cases h with
  | intro force ht => exact hd.revert ht filename content _ none

/-- The file is read, or its script is executed. -/
inductive Handles (filename : JsString) : MigrationOp → Prop
  | readFile : Handles filename (.readFile filename)
  | script (content : JsString) : Handles filename (.query (.script .up filename content))

/-- The file was read or its script was executed, whatever came of it. -/
def HandledIn (h : List MigrationEvent) (filename : JsString) : Prop :=
  ∃ e ∈ h, Handles filename e.1

theorem handledIn_append {h₁ h₂ : List MigrationEvent} {filename : JsString} :
    HandledIn (h₁ ++ h₂) filename ↔ HandledIn h₁ filename ∨ HandledIn h₂ filename := by
  simp only [HandledIn, List.mem_append, or_and_right, exists_or]

/-- No other file is handled. -/
abbrev OnlyHandles (filename : JsString) (op : MigrationOp) : Prop :=
  ∀ f, Handles f op → f = filename

theorem onlyHandles_runInTransaction {filename : JsString} {work : MigrationFlow Unit}
    (hwork : Prog.Performs (OnlyHandles filename) work) (errorContext : JsString) :
    Prog.Performs (OnlyHandles filename) (runInTransaction work errorContext) := by
  have hother {op : MigrationOp} (hop : ∀ f, ¬Handles f op) : OnlyHandles filename op :=
    fun f hf => absurd hf (hop f)
  have hrollback : OnlyHandles filename .rollback := hother fun f hf => by cases hf
  have hrelease (error : Option Thrown) : OnlyHandles filename (.release error) :=
    hother fun f hf => by cases hf
  have hcatch (error : Thrown) :
      Prog.Performs (OnlyHandles filename) (rollbackAndThrow errorContext error) := by
    refine Prog.Performs.flow_bind (Prog.Performs.flow_tryCatch ?_ fun _ => ?_) fun _ => trivial
    · exact Prog.Performs.flow_bind ⟨hrollback, fun _ => trivial⟩
        fun _ => ⟨hrelease _, fun _ => trivial⟩
    · exact Prog.Performs.flow_bind ⟨hrelease _, fun _ => trivial⟩ fun _ => trivial
  have hconnect : OnlyHandles filename .connect := hother fun f hf => by cases hf
  have hbegin : OnlyHandles filename .begin := hother fun f hf => by cases hf
  have hcommit : OnlyHandles filename .commit := hother fun f hf => by cases hf
  refine Prog.Performs.flow_bind ⟨hconnect, fun _ => trivial⟩ fun _ => ?_
  refine Prog.Performs.flow_tryCatch ?_ hcatch
  refine Prog.Performs.flow_bind ⟨hbegin, fun _ => trivial⟩ fun _ => ?_
  refine Prog.Performs.flow_bind hwork fun _ => ?_
  exact Prog.Performs.flow_bind ⟨hcommit, fun _ => trivial⟩ fun _ =>
    ⟨hrelease _, fun _ => trivial⟩

theorem onlyHandles_applyMigration (filename : JsString) :
    Prog.Performs (OnlyHandles filename) (applyMigration checksumOf filename) := by
  have hread : OnlyHandles filename (.readFile filename) := fun f hf => by
    cases hf
    rfl
  have hselect : OnlyHandles filename (.poolQuery (.selectChecksum filename)) := fun f hf => by
    cases hf
  have hscript (content : JsString) :
      OnlyHandles filename (.query (.script .up filename content)) := fun f hf => by
    cases hf
    rfl
  have hinsert (checksum : JsString) :
      OnlyHandles filename (.query (.insertTracking filename checksum)) := fun f hf => by
    cases hf
  refine Prog.Performs.flow_bind
    (Prog.Performs.flow_tryCatch ⟨hread, fun _ => trivial⟩ fun _ => trivial) fun content => ?_
  refine Prog.Performs.flow_bind ⟨hselect, fun _ => trivial⟩ fun existing => ?_
  cases existing.head? with
  | some applied =>
    dsimp only
    split_ifs
    · trivial
    · trivial
  | none =>
    refine onlyHandles_runInTransaction ?_ _
    exact Prog.Performs.flow_bind ⟨hscript _, fun _ => trivial⟩ fun _ =>
      ⟨hinsert _, fun _ => trivial⟩

/-- Applying a file reads it first. -/
theorem handledIn_applyMigration {filename : JsString} {r : Except Thrown Unit}
    (hr : Runs (applyMigration checksumOf filename) h (.done r)) : HandledIn h filename := by
  cases hr with
  | cons hr => exact ⟨_, List.mem_cons_self, .readFile⟩

/-- The file is recorded with the checksum of the content it has. -/
def Current (checksumOf : JsString → JsString) (dir : SortedStore JsString JsString)
    (db : Database σ) (filename : JsString) : Prop :=
  ∃ content, (filename, content) ∈ dir.entries ∧ db.Records filename (checksumOf content)

/-- **The loop over the files**, at any moment: the files that are done are recorded, and of the
others only the first was handled. -/
theorem execs_applyMigrations (hd : d.Faithful checksumOf)
    (hmigrations : ∀ f ∈ files, isMigrationFile f = true) {q : MigrationFlow Unit}
    (he : (migrations pg).Execs (applyMigrations checksumOf files) ⟨dir, ⟨d, .idle⟩⟩ h q w') :
    Extends d w'.connection.committed ∧ ∃ earlier later, files = earlier ++ later ∧
      (∀ f ∈ earlier, Current checksumOf dir w'.connection.committed f) ∧
      (∀ f, HandledIn h f → f ∈ earlier ∨ later.head? = some f) ∧
      (∀ error, q = .done (.error error) → ∃ f rest, later = f :: rest ∧ HandledIn h f) ∧
      ∀ u, q = .done (.ok u) → later = [] := by
  induction files generalizing d h with
  | nil =>
    obtain ⟨rfl, rfl, rfl⟩ := he.done_inv
    refine ⟨fun _ _ h => h, [], [], rfl, ?_, ?_, ?_, fun _ _ => rfl⟩
    · exact fun f hf => absurd hf List.not_mem_nil
    · rintro f ⟨e, he, -⟩
      exact absurd he List.not_mem_nil
    · exact fun error hq => by cases hq
  | cons file files ih =>
    have hK : d.Faithful checksumOf ∧ Extends d d := ⟨hd, fun _ _ h => h⟩
    have hkeep : KeptUp pg checksumOf dir fun db => db.Faithful checksumOf ∧ Extends d db :=
      keptUp_faithful.and keptUp_extends
    rw [List.forall_mem_cons] at hmigrations
    have happly := ensures_applyMigration hkeep hK hmigrations.1
    have hwhole (f : JsString) {q' : MigrationFlow Unit} {h₁ : List MigrationEvent}
        {v : MigrationWorld σ}
        (hfile : (migrations pg).Execs (applyMigration checksumOf file) ⟨dir, ⟨d, .idle⟩⟩ h₁ q' v)
        (hf : HandledIn h₁ f) : f = file := by
      obtain ⟨e, hmem, hh⟩ := hf
      exact (onlyHandles_applyMigration file).of_runs hfile.runs e hmem f hh
    have hkept {q' : MigrationFlow Unit} {h₁ : List MigrationEvent} {v : MigrationWorld σ}
        (hfile : (migrations pg).Execs (applyMigration checksumOf file) ⟨dir, ⟨d, .idle⟩⟩ h₁ q' v) :
        Extends d v.connection.committed := by
      refine (kept_of_execs (happly.mono ?_ fun _ _ h => h) hfile).2
      rintro - v ⟨d', rfl, hd', -⟩
      exact ⟨d', rfl, hd'⟩
    rcases he.flow_bind_inv with ⟨i, k, k', hfile, rfl⟩ | ⟨error, hfile, rfl⟩ |
      ⟨u, h₁, h₂, v, rfl, hfile, hrest⟩
    · refine ⟨hkept hfile, [], file :: files, rfl, ?_, ?_, ?_, ?_⟩
      · exact fun f hf => absurd hf List.not_mem_nil
      · exact fun f hf => Or.inr (congrArg some (hwhole f hfile hf).symm)
      · exact fun error hq => by cases hq
      · exact fun u hq => by cases hq
    · refine ⟨hkept hfile, [], file :: files, rfl, ?_, ?_, ?_, ?_⟩
      · exact fun f hf => absurd hf List.not_mem_nil
      · exact fun f hf => Or.inr (congrArg some (hwhole f hfile hf).symm)
      · exact fun _ _ => ⟨file, files, rfl, handledIn_applyMigration hfile.runs⟩
      · exact fun u hq => by cases hq
    · obtain ⟨d₁, rfl, ⟨hd₁, hext⟩, content, hcontent, hrecords⟩ :=
        (execs_migrating hfile).wp happly
      obtain ⟨hext', earlier, later, rfl, hcurrent, hhandled, herror, hok⟩ :=
        ih hd₁ hmigrations.2 hrest
      refine ⟨fun f c hr => hext' f c (hext f c hr), file :: earlier, later, rfl, ?_, ?_, ?_, hok⟩
      · intro f hf
        rcases List.mem_cons.mp hf with rfl | hf
        · exact ⟨content, hcontent, hext' _ _ hrecords⟩
        · exact hcurrent f hf
      · intro f hf
        rcases handledIn_append.mp hf with hf | hf
        · exact Or.inl (hwhole f hfile hf ▸ List.mem_cons_self)
        · exact (hhandled f hf).imp_left (List.mem_cons_of_mem _)
      · intro error hq
        obtain ⟨f, rest, hlater, hf⟩ := herror error hq
        exact ⟨f, rest, hlater, handledIn_append.mpr (Or.inr hf)⟩

/-- **A call that applies files** has handled none so far, and not returned, or is in its loop. -/
theorem execs_runSqlMigrations (hd : d.Faithful checksumOf) {q : MigrationFlow Unit}
    (he : (migrations pg).Execs (runSqlMigrations checksumOf) ⟨dir, ⟨d, .idle⟩⟩ h q w') :
    (∀ f, ¬HandledIn h f) ∧ (∀ u, q ≠ .done (.ok u)) ∨
    ∃ d₁ h₁, d₁.Faithful checksumOf ∧ Extends d d₁ ∧ (∀ f, HandledIn h f ↔ HandledIn h₁ f) ∧
      (migrations pg).Execs (applyMigrations checksumOf
        (listMigrationFiles (dir.entries.map Prod.fst))) ⟨dir, ⟨d₁, .idle⟩⟩ h₁ q w' := by
  have hnone {α : Type} {p q : MigrationFlow α} {h : List MigrationEvent}
      (hp : Prog.Performs (fun op => ∀ f, ¬Handles f op) p) (hr : Runs p h q) (f : JsString) :
      ¬HandledIn h f := by
    rintro ⟨e, hmem, hf⟩
    exact hp.of_runs hr e hmem f hf
  have htable : Prog.Performs (fun op => ∀ f, ¬Handles f op) ensureTrackingTable :=
    ⟨fun f hf => (by cases hf), fun _ => trivial⟩
  have hreaddir : Prog.Performs (fun op => ∀ f, ¬Handles f op)
      (Prog.call MigrationOp.readdir Prog.done : MigrationFlow (List JsString)) :=
    ⟨fun f hf => (by cases hf), fun _ => trivial⟩
  have hkeep : KeptUp pg checksumOf dir fun db => db.Faithful checksumOf ∧ Extends d db :=
    keptUp_faithful.and keptUp_extends
  have hensure := ensures_ensureTrackingTable hkeep ⟨hd, fun _ _ h => h⟩
  rcases he.flow_bind_inv with ⟨i, k, k', hfirst, rfl⟩ | ⟨error, hfirst, rfl⟩ |
    ⟨u, h₁, h₂, v, rfl, hfirst, hrest⟩
  · exact Or.inl ⟨hnone htable hfirst.runs, fun u hq => by cases hq⟩
  · exact Or.inl ⟨hnone htable hfirst.runs, fun u hq => by cases hq⟩
  obtain ⟨d₁, rfl, hd₁, hext⟩ := (execs_migrating hfirst).wp hensure
  have hbefore {q' : MigrationFlow (List JsString)} {h₃ : List MigrationEvent}
      {v : MigrationWorld σ} (hsecond : (migrations pg).Execs
        (Prog.call MigrationOp.readdir Prog.done : MigrationFlow (List JsString))
        ⟨dir, ⟨d₁, .idle⟩⟩ h₃ q' v) (f : JsString) : ¬HandledIn (h₁ ++ h₃) f := by
    rw [handledIn_append, not_or]
    exact ⟨hnone htable hfirst.runs f, hnone hreaddir hsecond.runs f⟩
  rcases Interp.Execs.flow_bind_inv hrest with ⟨i, k, k', hsecond, rfl⟩ | ⟨error, hsecond, rfl⟩ |
    ⟨names, h₃, h₄, v, rfl, hsecond, hloop⟩
  · exact Or.inl ⟨hbefore hsecond, fun u hq => by cases hq⟩
  · exact Or.inl ⟨hbefore hsecond, fun u hq => by cases hq⟩
  have hquiet := hbefore hsecond
  cases hsecond with
  | cons hstep hdone =>
    obtain ⟨rfl, hr, rfl⟩ := hdone.done_inv
    cases hr
    cases hstep with
    | readdir hperm =>
      have hfiles : listMigrationFiles (dir.entries.map Prod.fst) = listMigrationFiles names :=
        (listMigrationFiles_perm hperm).symm
      refine Or.inr ⟨d₁, h₄, hd₁, hext, fun f => ?_, ?_⟩
      · rw [← List.append_assoc, handledIn_append, or_iff_right (hquiet f)]
      · rw [hfiles]
        exact hloop

/-! ## Sequences of calls -/

inductive MigrationCall where
  | runSqlMigrations
  | downSqlMigration (filename : JsString) (force : Bool)

def MigrationCall.prog (checksumOf : JsString → JsString) : MigrationCall → MigrationFlow Unit
  | .runSqlMigrations => Posta.runSqlMigrations checksumOf
  | .downSqlMigration filename force => Posta.downSqlMigration filename force

/-- The worlds between calls. A call returns, throws, or dies with its process at any moment, and the
server then ends its session. -/
inductive Migrated (pg : Scripts σ) (checksumOf : JsString → JsString) : MigrationWorld σ → Prop
  | start (schema : σ) (directory : SortedStore JsString JsString) :
      Migrated pg checksumOf (.start schema directory)
  | edit {w : MigrationWorld σ} (directory : SortedStore JsString JsString) :
      Migrated pg checksumOf w → Migrated pg checksumOf { w with directory }
  | finished {w w' : MigrationWorld σ} {call : MigrationCall} {h : List MigrationEvent}
      {r : Except Thrown Unit} : Migrated pg checksumOf w →
      (migrations pg).Execs (call.prog checksumOf) w h (.done r) w' → Migrated pg checksumOf w'
  | crashed {w w' : MigrationWorld σ} {call : MigrationCall} {h : List MigrationEvent}
      {q : MigrationFlow Unit} : Migrated pg checksumOf w →
      (migrations pg).Execs (call.prog checksumOf) w h q w' →
      Migrated pg checksumOf { w' with connection := ⟨w'.connection.committed, .idle⟩ }

/-- A call keeps the tracking table faithful at every moment, and leaves no transaction behind. -/
theorem faithful_of_call {call : MigrationCall} {q : MigrationFlow Unit}
    (hd : d.Faithful checksumOf)
    (he : (migrations pg).Execs (call.prog checksumOf) ⟨dir, ⟨d, .idle⟩⟩ h q w') :
    w'.connection.committed.Faithful checksumOf ∧
      ∀ r, q = .done r → ∃ d', w' = ⟨dir, ⟨d', .idle⟩⟩ := by
  have hcall : (migrating pg fun db => db.Faithful checksumOf).Ensures
      (fun _ v => ∃ d', v = ⟨dir, ⟨d', .idle⟩⟩ ∧ d'.Faithful checksumOf)
      (fun _ v => ∃ d', v = ⟨dir, ⟨d', .idle⟩⟩ ∧ d'.Faithful checksumOf)
      (call.prog checksumOf) ⟨dir, ⟨d, .idle⟩⟩ := by
    cases call with
    | runSqlMigrations => exact ensures_runSqlMigrations keptUp_faithful hd
    | downSqlMigration filename force =>
      have hreverted {content : JsString} {d' : Database σ}
          (h : d.RevertedTo pg filename content d') : d'.settle.Faithful checksumOf :=
        faithful_of_revertedTo hd h
      refine (ensures_downSqlMigration hd (fun _ _ _ h => hreverted h) force).mono ?_ ?_
      · rintro - v ⟨content, d', -, h, rfl⟩
        exact ⟨_, rfl, hreverted h⟩
      · rintro - v (rfl | ⟨content, d', -, h, rfl⟩)
        · exact ⟨d, rfl, hd⟩
        · exact ⟨_, rfl, hreverted h⟩
  refine ⟨kept_of_execs hcall he, ?_⟩
  rintro r rfl
  have hpost := (execs_migrating he).wp hcall
  cases r <;> (obtain ⟨d', rfl, -⟩ := hpost; exact ⟨d', rfl⟩)

/-- Between calls no transaction is open, and the tracking table is faithful. -/
theorem Migrated.faithful (hw : Migrated pg checksumOf w) :
    ∃ dir d, w = ⟨dir, ⟨d, .idle⟩⟩ ∧ d.Faithful checksumOf := by
  induction hw with
  | start schema directory => exact ⟨directory, _, rfl, Database.faithful_start schema⟩
  | edit directory _ ih =>
    obtain ⟨dir, d, rfl, hd⟩ := ih
    exact ⟨directory, d, rfl, hd⟩
  | finished _ he ih =>
    obtain ⟨dir, d, rfl, hd⟩ := ih
    obtain ⟨hfaithful, hidle⟩ := faithful_of_call hd he
    obtain ⟨d', rfl⟩ := hidle _ rfl
    exact ⟨dir, d', rfl, hfaithful⟩
  | crashed _ he ih =>
    obtain ⟨dir, d, rfl, hd⟩ := ih
    exact ⟨_, _, rfl, (faithful_of_call hd he).1⟩

/-- Every file is listed once. -/
theorem not_mem_of_behind {earlier later : List JsString} {file : JsString}
    (hfiles : listMigrationFiles (dir.entries.map Prod.fst) = earlier ++ file :: later)
    {f : JsString} (hf : f ∈ later) : f ∉ earlier ∧ f ≠ file := by
  have hnodup : (listMigrationFiles (dir.entries.map Prod.fst)).Nodup := by
    refine (List.perm_insertionSort _ _).nodup_iff.mpr (List.Nodup.filter _ ?_)
    exact List.pairwise_map.mpr (dir.sorted.imp fun h => ne_of_lt h)
  rw [hfiles, List.nodup_append, List.nodup_cons] at hnodup
  refine ⟨fun hf' => hnodup.2.2 f hf' f (List.mem_cons_of_mem _ hf) rfl, ?_⟩
  rintro rfl
  exact hnodup.2.1.1 hf

/-- **A file that fails** leaves those before it recorded and those behind it alone. -/
theorem failing_file (hd : d.Faithful checksumOf) {error : Thrown}
    (he : (migrations pg).Execs (runSqlMigrations checksumOf) ⟨dir, ⟨d, .idle⟩⟩ h
      (.done (.error error)) w') :
    (∀ f, ¬HandledIn h f) ∨ ∃ earlier file later,
      listMigrationFiles (dir.entries.map Prod.fst) = earlier ++ file :: later ∧
      HandledIn h file ∧ (∀ f ∈ earlier, Current checksumOf dir w'.connection.committed f) ∧
      ∀ f ∈ later, ¬HandledIn h f := by
  rcases execs_runSqlMigrations hd he with ⟨hnone, -⟩ | ⟨d₁, h₁, hd₁, -, hhandled, hloop⟩
  · exact Or.inl hnone
  obtain ⟨-, earlier, later, hfiles, hcurrent, honly, herror, -⟩ :=
    execs_applyMigrations hd₁ (fun _ hf => isMigrationFile_of_listed hf) hloop
  obtain ⟨file, rest, rfl, hfile⟩ := herror error rfl
  refine Or.inr ⟨earlier, file, rest, hfiles, (hhandled file).mpr hfile, hcurrent, ?_⟩
  intro f hf hf'
  obtain ⟨hearlier, hne⟩ := not_mem_of_behind hfiles hf
  rcases honly f ((hhandled f).mp hf') with h | h
  · exact hearlier h
  · exact hne (Option.some.inj h).symm

/-- **An edited file** is not passed: its row keeps the checksum of what was executed. -/
theorem edited_file (hd : d.Faithful checksumOf) {q : MigrationFlow Unit}
    (he : (migrations pg).Execs (runSqlMigrations checksumOf) ⟨dir, ⟨d, .idle⟩⟩ h q w')
    {earlier later : List JsString} {file content old : JsString}
    (hfiles : listMigrationFiles (dir.entries.map Prod.fst) = earlier ++ file :: later)
    (hcontent : (file, content) ∈ dir.entries) (hforce : InForce d.history file old)
    (hne : checksumOf content ≠ checksumOf old) :
    (∀ u, q ≠ .done (.ok u)) ∧ ∀ f ∈ later, ¬HandledIn h f := by
  rcases execs_runSqlMigrations hd he with ⟨hnone, hrun⟩ | ⟨d₁, h₁, hd₁, hext, hhandled, hloop⟩
  · exact ⟨hrun, fun f _ => hnone f⟩
  obtain ⟨hext', passed, left, hfiles', hcurrent, honly, -, hok⟩ :=
    execs_applyMigrations hd₁ (fun _ hf => isMigrationFile_of_listed hf) hloop
  have hnot : file ∉ passed := by
    intro hmem
    obtain ⟨content', hcontent', hrecords⟩ := hcurrent file hmem
    have hsame : (file, content') = (file, content) := dir.eq_of_key_eq hcontent' hcontent rfl
    cases hsame
    have hold := (hd.records_iff file _).mpr ⟨old, hforce, rfl⟩
    exact hne (hrecords.unique (hext' _ _ (hext _ _ hold)))
  obtain ⟨mid, rfl, rfl⟩ : ∃ mid, earlier = passed ++ mid ∧ left = mid ++ file :: later := by
    rcases List.append_eq_append_iff.mp (hfiles'.symm.trans hfiles) with h | ⟨bs, hpassed, hbs⟩
    · exact h
    · cases bs with
      | nil => exact ⟨[], by rw [hpassed, List.append_nil, List.append_nil], hbs.symm⟩
      | cons b bs =>
        obtain ⟨rfl, -⟩ := List.cons_eq_cons.mp hbs
        exact absurd (hpassed ▸ List.mem_append_right _ List.mem_cons_self) hnot
  refine ⟨fun u hq => ?_, fun f hf hf' => ?_⟩
  · have hleft := hok u hq
    simp at hleft
  · obtain ⟨hbefore, hfile⟩ := not_mem_of_behind hfiles hf
    rw [List.mem_append, not_or] at hbefore
    rcases honly f ((hhandled f).mp hf') with h | h
    · exact hbefore.1 h
    · cases mid with
      | nil => exact hfile (Option.some.inj h).symm
      | cons m mid => exact hbefore.2 (Option.some.inj h ▸ List.mem_cons_self)

/-- **Theorem (`migration_history`).** -/
theorem migration_history (hw : Migrated pg checksumOf w) :
    (∀ call h q w', (migrations pg).Execs (MigrationCall.prog checksumOf call) w h q w' →
      w'.connection.committed.Faithful checksumOf) ∧
    (∀ h error w',
      (migrations pg).Execs (runSqlMigrations checksumOf) w h (.done (.error error)) w' →
      (∀ f, ¬HandledIn h f) ∨ ∃ earlier file later,
        listMigrationFiles w.names = earlier ++ file :: later ∧ HandledIn h file ∧
        (∀ f ∈ earlier, Current checksumOf w.directory w'.connection.committed f) ∧
        ∀ f ∈ later, ¬HandledIn h f) ∧
    ∀ h q w', (migrations pg).Execs (runSqlMigrations checksumOf) w h q w' →
      ∀ earlier file later content old, listMigrationFiles w.names = earlier ++ file :: later →
        (file, content) ∈ w.directory.entries →
        InForce w.connection.committed.history file old → content ≠ old →
        (checksumOf content = checksumOf old → content = old) →
        (∀ u, q ≠ .done (.ok u)) ∧ ∀ f ∈ later, ¬HandledIn h f := by
  obtain ⟨dir, d, rfl, hd⟩ := hw.faithful
  refine ⟨fun call h q w' he => (faithful_of_call hd he).1, fun h error w' he => ?_, ?_⟩
  · exact failing_file hd he
  · intro h q w' he earlier file later content old hfiles hcontent hforce hne hsha
    exact edited_file hd he hfiles hcontent hforce fun heq => hne (hsha heq)

end Runs

/-! ## An edited migration -/

def eventsSql : JsString := lit "CREATE TABLE events (event_id text);"

def editedEventsSql : JsString := lit "CREATE TABLE events (event_id varchar);"

/-- SHA-256 of these two. -/
def sha256OfEvents (content : JsString) : JsString :=
  if content = eventsSql then
    lit "54a83d58ec27904d55bfcf4d2a8aed40e8c04c6cc424796c53ee4d7622aa948e"
  else if content = editedEventsSql then
    lit "8d38b81beaef6d6ad21aaaad6d00c7807767c3967dafa9d184d23085bbf1a811"
  else []

/-- A schema that is the list of what was executed. -/
def executing : Scripts (List JsString) where
  scripts content _ before after := after = before ++ [content]
  collation a b := a ≤ b

def eventsDir (events : JsString) : SortedStore JsString JsString :=
  SortedStore.empty.put (lit "001_events.sql") events

/-- What applying the file leaves. -/
def eventsApplied : Database (List JsString) where
  schema := [eventsSql]
  tracking := some (KeyedTable.empty.insertOne ⟨lit "001_events.sql", sha256OfEvents eventsSql⟩)
  history := [⟨.up, lit "001_events.sql", eventsSql⟩]
  force := none

theorem eventsApplied_reached :
    Migrated executing sha256OfEvents ⟨eventsDir eventsSql, ⟨eventsApplied, .idle⟩⟩ := by
  have hfiles : listMigrationFiles ((eventsDir eventsSql).entries.map Prod.fst) =
      [lit "001_events.sql"] := by
    decide +kernel
  obtain ⟨h, he⟩ : ∃ h, (migrations executing).Execs
      (applyMigration sha256OfEvents (lit "001_events.sql"))
      ⟨eventsDir eventsSql, ⟨⟨[], some KeyedTable.empty, [], none⟩, .idle⟩⟩ h (.done (.ok ()))
      ⟨eventsDir eventsSql, ⟨eventsApplied, .idle⟩⟩ :=
    execs_applyMigration_free (SortedStore.mem_put_self _ _ _) rfl List.not_mem_nil rfl
  have hloop : (migrations executing).Execs (applyMigrations sha256OfEvents
      (listMigrationFiles ((eventsDir eventsSql).entries.map Prod.fst)))
      ⟨eventsDir eventsSql, ⟨⟨[], some KeyedTable.empty, [], none⟩, .idle⟩⟩ (h ++ [])
      (.done (.ok ())) ⟨eventsDir eventsSql, ⟨eventsApplied, .idle⟩⟩ := by
    rw [hfiles]
    exact he.bind_ok (.nil _ _)
  obtain ⟨h', he'⟩ : ∃ h', (migrations executing).Execs
      (MigrationCall.runSqlMigrations.prog sha256OfEvents)
      (MigrationWorld.start [] (eventsDir eventsSql)) h' (.done (.ok ()))
      ⟨eventsDir eventsSql, ⟨eventsApplied, .idle⟩⟩ :=
    execs_runSqlMigrations_of_loop hloop
  exact .finished (.start [] (eventsDir eventsSql)) he'

/-- **The edited file is an error**, and the file behind it is left alone. -/
theorem migration_history_edited :
    eventsApplied.Faithful sha256OfEvents ∧
    ∀ h q w', (migrations executing).Execs (runSqlMigrations sha256OfEvents)
        ⟨(eventsDir editedEventsSql).put (lit "002_events_indexes.sql") eventsSql,
          ⟨eventsApplied, .idle⟩⟩ h q w' →
      (∀ u, q ≠ .done (.ok u)) ∧ ¬HandledIn h (lit "002_events_indexes.sql") := by
  have hw : Migrated executing sha256OfEvents
      ⟨(eventsDir editedEventsSql).put (lit "002_events_indexes.sql") eventsSql,
        ⟨eventsApplied, .idle⟩⟩ := .edit _ eventsApplied_reached
  have hfiles : listMigrationFiles (MigrationWorld.names
      ⟨(eventsDir editedEventsSql).put (lit "002_events_indexes.sql") eventsSql,
        ⟨eventsApplied, .idle⟩⟩) =
      [] ++ lit "001_events.sql" :: [lit "002_events_indexes.sql"] := by
    decide +kernel
  obtain ⟨hfaithful, -, hedited⟩ := migration_history hw
  refine ⟨hfaithful .runSqlMigrations [] _ _ (.nil _ _), fun h q w' he => ?_⟩
  obtain ⟨hrun, hlater⟩ := hedited h q w' he [] _ _ editedEventsSql eventsSql hfiles
    (by decide +kernel) ⟨[], [], rfl, fun e he => absurd he List.not_mem_nil⟩ (by decide +kernel)
    (by decide +kernel)
  exact ⟨hrun, hlater _ List.mem_cons_self⟩

end Posta
