import Posta.Core.Tenant

/-!
# Tenant isolation

A run is a sequence of operations issued through `forTenant(db, t)`. Every operation selects by the
tenant column, and an insert stamps it. Two things still reach the rows of other tenants: an update
may set the tenant column, which hands the row to another tenant, and deleting a bio page cascades
to every bio link on it, also to those of other tenants, because `bio_links` references `bio_pages`
by the page's id alone.

**Theorem (`executed_iff`).** An executed operation leaves the rows of other tenants as they are if
and only if it is harmless: an update that sets the tenant column sets it to the tenant's own id or
selects no row, and a deleted bio page carries no bio link of another tenant.

**Theorem (`tenant_isolation`).** In every run of harmless operations, no row of another tenant is
returned, and the rows of other tenants are the same after the run as before.
-/

namespace Posta.Tenant

/-! ## Operations and runs -/

/-- A well-formed condition, which may have an `OR` at its top. -/
abbrev Extra (T : PgTable) := {extra : SQL T // (Sql.parse extra).isSome}

inductive Op (T : PgTable) where
  | select (extra : Option (Extra T))
  | update (values : Values T) (extra : Option (Extra T))
  | delete (extra : Option (Extra T))
  | insert (values : Values T)

def ForTenant.table (s : ForTenant) : (T : PgTable) → ScopedTable T
  | .links => s.links
  | .bioPages => s.bioPages
  | .bioLinks => s.bioLinks
  | .domains => s.domains

/-- The statement of an operation issued through `forTenant(db, t)`. -/
def issue (D : Drizzle) (t : String) (T : PgTable) : Op T → Statement T
  | .select extra => ((forTenant D t).table T).select (extra.map (·.1))
  | .update values extra => ((forTenant D t).table T).update values (extra.map (·.1))
  | .delete extra => ((forTenant D t).table T).delete (extra.map (·.1))
  | .insert values => ((forTenant D t).table T).insert values

/-- The rows of the other tenants. -/
def Database.foreign (db : Database) (t : String) (T : PgTable) : List (Row T) :=
  (db.rows T).filter fun r => r T.tenantId ≠ .text t

/-- A run of operations that `allowed` admits. A statement that Postgres rejects, or that never
reaches it, changes nothing and returns nothing. -/
inductive Run (D : Drizzle) (t : String) (allowed : Database → (T : PgTable) → Op T → Prop)
    (db₀ : Database) : List (Σ T, Op T) → Database → List (Σ T, Row T) → Prop
  | start : Run D t allowed db₀ [] db₀ []
  | rejected {ops db returned} (T : PgTable) (op : Op T) :
      Run D t allowed db₀ ops db returned → allowed db T op →
      Run D t allowed db₀ (ops ++ [⟨T, op⟩]) db returned
  | executed {ops db returned db'} (T : PgTable) (op : Op T) (now : Int) {rs : List (Row T)} :
      Run D t allowed db₀ ops db returned → allowed db T op →
      execute now db (issue D t T op) = some (db', rs) →
      Run D t allowed db₀ (ops ++ [⟨T, op⟩]) db' (returned ++ rs.map (Sigma.mk T))

/-! ## What the scope selects -/

/-- The tenant's own rows for which the extra condition holds. -/
def Selected (t : String) {T : PgTable} (db : Database) (extra : Option (Extra T)) (r : Row T) :
    Prop :=
  r T.tenantId = .text t ∧
    ∀ e c, extra = some e → Sql.parse e.1 = some c → c.eval (fun a => a db r) = some true

theorem table_eq (D : Drizzle) (t : String) (T : PgTable) :
    (forTenant D t).table T = scopedTable D T T.tenantId t := by
  cases T <;> rfl

theorem equals_eq_true {T : PgTable} {column : T.Column} {t : String} {db : Database}
    {r : Row T} : equals column t db r = some true ↔ r column = .text t := by
  by_cases h : r column = .null <;> simp [equals, h]

variable {D : Drizzle}

theorem tenantScope_some (hD : D.Documented) {T : PgTable} (column : T.Column) (t : String)
    (e : SQL T) :
    tenantScope D column t (some e) =
      .lparen :: .atom (equals column t) :: .and :: .lparen ::
        (e ++ [.rparen, .rparen]) := by
  simp [tenantScope, hD.and_text, hD.eq_text, hD.sql_text]

/-- The text of a scope is a condition, and it selects the tenant's own rows. -/
theorem matching_tenantScope (hD : D.Documented) (t : String) {T : PgTable} (db : Database)
    (extra : Option (Extra T)) :
    ∃ p, matching db (tenantScope D T.tenantId t (extra.map (·.1))) = some p ∧
      ∀ r, p r = true ↔ Selected t db extra r := by
  cases extra with
  | none =>
    rw [Option.map_none, tenantScope, hD.eq_text, matching, Sql.parse_atom, Option.map_some]
    refine ⟨_, rfl, fun r => ?_⟩
    rw [decide_eq_true_iff, Sql.Condition.eval, equals_eq_true]
    exact ⟨fun h => ⟨h, by intro e c h; cases h⟩, And.left⟩
  | some e =>
    obtain ⟨e, he⟩ := e
    obtain ⟨c, hc⟩ := Option.isSome_iff_exists.1 he
    rw [Option.map_some, tenantScope_some hD, matching, Sql.parse_and_parens _ hc, Option.map_some]
    refine ⟨_, rfl, fun r => ?_⟩
    rw [decide_eq_true_iff, Sql.Condition.eval, Sql.Truth.and_eq_true, Sql.Condition.eval,
      equals_eq_true]
    refine and_congr_right fun _ => ⟨?_, ?_⟩
    · intro h e' c' he' hc'
      cases he'
      cases hc.symm.trans hc'
      exact h
    · intro h
      exact h _ c rfl hc

/-! ## What an executed operation does -/

section

variable {t : String} {T : PgTable} {now : Int} {db db' : Database} {rs : List (Row T)}

/-- The values of an update over a row. -/
def Values.over (values : Values T) (r : Row T) : Row T := fun c => (values c).getD (r c)

theorem commit_inv {db₁ : Database} {rs₁ : List (Row T)}
    (h : db₁.commit rs₁ = some (db', rs)) : db' = db₁ ∧ rs = rs₁ := by
  unfold Database.commit at h
  split at h
  · cases h; exact ⟨rfl, rfl⟩
  · cases h

theorem execute_select (hD : D.Documented) {extra : Option (Extra T)}
    (h : execute now db (issue D t T (.select extra)) = some (db', rs)) :
    db' = db ∧ ∀ r ∈ rs, Selected t db extra r := by
  obtain ⟨p, hp, hsel⟩ := matching_tenantScope hD t db extra
  simp only [issue, table_eq, scopedTable, execute, hp, Option.map_some, Option.some.injEq,
    Prod.mk.injEq] at h
  obtain ⟨rfl, rfl⟩ := h
  exact ⟨rfl, fun r hr => (hsel r).1 (List.of_mem_filter hr)⟩

theorem execute_update (hD : D.Documented) {values : Values T} {extra : Option (Extra T)}
    (h : execute now db (issue D t T (.update values extra)) = some (db', rs)) :
    ∃ p : Row T → Bool, (∀ r, p r = true ↔ Selected t db extra r) ∧
      db' = db.setRows T ((db.rows T).map fun r => if p r then values.over r else r) ∧
      rs = ((db.rows T).filter p).map values.over := by
  obtain ⟨p, hp, hsel⟩ := matching_tenantScope hD t db extra
  simp only [issue, table_eq, scopedTable, execute, hp] at h
  split at h
  · cases h
  · exact ⟨p, hsel, commit_inv h⟩

theorem execute_delete (hD : D.Documented) {extra : Option (Extra T)}
    (h : execute now db (issue D t T (.delete extra)) = some (db', rs)) :
    ∃ p : Row T → Bool, (∀ r, p r = true ↔ Selected t db extra r) ∧
      db' = (db.setRows T ((db.rows T).filter fun r => !p r)).cascade T ((db.rows T).filter p) ∧
      rs = (db.rows T).filter p := by
  obtain ⟨p, hp, hsel⟩ := matching_tenantScope hD t db extra
  simp only [issue, table_eq, scopedTable, execute, hp] at h
  exact ⟨p, hsel, commit_inv h⟩

theorem execute_insert {values : Values T}
    (h : execute now db (issue D t T (.insert values)) = some (db', rs)) :
    ∃ row : Row T, row T.tenantId = .text t ∧ db' = db.setRows T (db.rows T ++ [row]) ∧
      rs = [row] := by
  simp only [issue, table_eq, scopedTable, execute] at h
  exact ⟨_, by simp, commit_inv h⟩

end

/-! ## The rows of other tenants -/

theorem foreign_setRows (db : Database) (t : String) (T : PgTable) (rs : List (Row T)) :
    (db.setRows T rs).foreign t = db.foreign t ↔
      (rs.filter fun r => r T.tenantId ≠ .text t) = db.foreign t T := by
  constructor
  · intro h
    simpa [Database.foreign, Database.setRows] using congrFun h T
  · intro h
    funext U
    by_cases hU : U = T
    · subst hU
      simpa [Database.foreign, Database.setRows] using h
    · simp [Database.foreign, Database.setRows, hU]

/-- Changing only what a filter drops leaves what it keeps, as long as the changed is dropped
too. -/
theorem filter_map_eq {α : Type} {q : α → Bool} {f : α → α} {l : List α}
    (hf : ∀ a ∈ l, q a = true → f a = a) :
    (l.map f).filter q = l.filter q ↔ ∀ a ∈ l, q a = false → q (f a) = false := by
  induction l with
  | nil => simp
  | cons a l ih =>
    have hfl : ∀ b ∈ l, q b = true → f b = b := fun b hb => hf b (List.mem_cons_of_mem _ hb)
    rw [List.forall_mem_cons, ← ih hfl, List.map_cons]
    by_cases hq : q a = true
    · rw [hf a List.mem_cons_self hq, List.filter_cons_of_pos hq, List.filter_cons_of_pos hq,
        List.cons_inj_right]
      simp [hq]
    · rw [List.filter_cons_of_neg hq]
      by_cases hqa : q (f a) = true
      · rw [List.filter_cons_of_pos hqa]
        -- A row more is kept, and none less.
        have hle : l.countP q ≤ l.countP (q ∘ f) :=
          List.countP_mono_left fun b hb hqb => by simpa [hfl b hb hqb] using hqb
        refine ⟨fun h => ?_, fun h => absurd hqa (by simp [h.1 (by simpa using hq)])⟩
        have hlen := congrArg List.length h
        rw [List.length_cons, ← List.countP_eq_length_filter, ← List.countP_eq_length_filter,
          List.countP_map] at hlen
        omega
      · rw [List.filter_cons_of_neg hqa]
        simp [hqa]

theorem filter_filter_eq {α : Type} {q s : α → Bool} {l : List α} :
    (l.filter s).filter q = l.filter q ↔ ∀ a ∈ l, q a = true → s a = true := by
  rw [List.filter_comm, List.filter_eq_self]
  simp only [List.mem_filter, and_imp]

section

variable {t : String} {T : PgTable} {now : Int} {db db' : Database} {rs : List (Row T)}

theorem insert_foreign {values : Values T}
    (h : execute now db (issue D t T (.insert values)) = some (db', rs)) :
    db'.foreign t = db.foreign t := by
  obtain ⟨row, hrow, rfl, -⟩ := execute_insert h
  rw [foreign_setRows]
  simp [Database.foreign, hrow]

theorem update_foreign_iff (hD : D.Documented) {values : Values T} {extra : Option (Extra T)}
    (h : execute now db (issue D t T (.update values extra)) = some (db', rs)) :
    db'.foreign t = db.foreign t ↔ ∀ v, values T.tenantId = some v → v ≠ .text t →
      ∀ r ∈ db.rows T, ¬ Selected t db extra r := by
  obtain ⟨p, hp, rfl, -⟩ := execute_update hD h
  rw [foreign_setRows, Database.foreign, filter_map_eq]
  · constructor
    · intro h v hv hne r hr hsel
      have := h r hr (by simp [hsel.1])
      rw [if_pos ((hp r).2 hsel)] at this
      simp [Values.over, hv, hne] at this
    · intro h r hr hown
      by_cases hpr : p r = true
      · rw [if_pos hpr]
        cases hv : values T.tenantId with
        | none => simpa [Values.over, hv] using hown
        | some v =>
          by_cases hne : v = .text t
          · simp [Values.over, hv, hne]
          · exact absurd ((hp r).1 hpr) (h v hv hne r hr)
      · rwa [if_neg hpr]
  · intro r _ hforeign
    have hpr : ¬ p r = true := fun hpr => by simp [((hp r).1 hpr).1] at hforeign
    rw [if_neg hpr]

/-- The deletion itself takes the tenant's own rows only. -/
theorem delete_own_foreign {p : Row T → Bool} {extra : Option (Extra T)}
    (hp : ∀ r, p r = true ↔ Selected t db extra r) :
    (db.setRows T ((db.rows T).filter fun r => !p r)).foreign t = db.foreign t := by
  rw [foreign_setRows, Database.foreign, filter_filter_eq]
  intro r _ hforeign
  cases hpr : p r with
  | false => rfl
  | true => simp [((hp r).1 hpr).1] at hforeign

theorem delete_foreign (hD : D.Documented) {extra : Option (Extra T)} (hT : T ≠ .bioPages)
    (h : execute now db (issue D t T (.delete extra)) = some (db', rs)) :
    db'.foreign t = db.foreign t := by
  obtain ⟨p, hp, rfl, -⟩ := execute_delete hD h
  have hcascade (db : Database) (deleted : List (Row T)) : db.cascade T deleted = db := by
    cases T <;> first | rfl | exact absurd rfl hT
  rw [hcascade, delete_own_foreign hp]

theorem delete_bioPages_foreign_iff (hD : D.Documented) {rs : List (Row .bioPages)}
    {extra : Option (Extra .bioPages)}
    (h : execute now db (issue D t .bioPages (.delete extra)) = some (db', rs)) :
    db'.foreign t = db.foreign t ↔
      ∀ p ∈ db.rows .bioPages, Selected t db extra p → ∀ l ∈ db.rows .bioLinks,
        l BioLinksColumn.bioPageId = p BioPagesColumn.id →
          l BioLinksColumn.tenantId = .text t := by
  obtain ⟨p, hp, rfl, -⟩ := execute_delete hD h
  rw [Database.cascade, ← delete_own_foreign hp, foreign_setRows, Database.foreign,
    filter_filter_eq]
  simp only [decide_eq_true_eq, List.mem_map, List.mem_filter, not_exists, not_and, and_imp, hp]
  constructor
  · intro h page hpage hsel l hl hid
    by_contra hforeign
    exact h l hl hforeign page hpage hsel hid.symm
  · intro h l hl hforeign page hpage hsel hid
    exact hforeign (h page hpage hsel l hl hid.symm)

/-! ## Harmless operations -/

/-- An operation that reaches no row of another tenant: an update that sets the tenant column to
another id selects no row, and no bio page is deleted that carries another tenant's bio link. -/
def Harmless (t : String) (db : Database) : (T : PgTable) → Op T → Prop
  | T, .update values extra => ∀ v, values T.tenantId = some v → v ≠ .text t →
      ∀ r ∈ db.rows T, ¬ Selected t db extra r
  | .bioPages, .delete extra => ∀ p ∈ db.rows .bioPages, Selected t db extra p →
      ∀ l ∈ db.rows .bioLinks, l BioLinksColumn.bioPageId = p BioPagesColumn.id →
        l BioLinksColumn.tenantId = .text t
  | _, _ => True

theorem executed_iff (hD : D.Documented) {op : Op T}
    (h : execute now db (issue D t T op) = some (db', rs)) :
    db'.foreign t = db.foreign t ↔ Harmless t db T op := by
  cases op with
  | select extra => simp [Harmless, (execute_select hD h).1]
  | update values extra => exact (update_foreign_iff hD h).trans (by cases T <;> rfl)
  | insert values => simp [Harmless, insert_foreign h]
  | delete extra =>
    by_cases hT : T = .bioPages
    · subst hT
      exact delete_bioPages_foreign_iff hD h
    · refine iff_of_true (delete_foreign hD hT h) ?_
      cases T <;> trivial

/-- A harmless operation returns the tenant's own rows. -/
theorem executed_own (hD : D.Documented) {op : Op T}
    (h : execute now db (issue D t T op) = some (db', rs)) (hop : Harmless t db T op) :
    ∀ r ∈ rs, r T.tenantId = .text t := by
  cases op with
  | select extra => exact fun r hr => ((execute_select hD h).2 r hr).1
  | delete extra =>
    obtain ⟨p, hp, -, rfl⟩ := execute_delete hD h
    exact fun r hr => ((hp r).1 (List.of_mem_filter hr)).1
  | insert values =>
    obtain ⟨row, hrow, -, rfl⟩ := execute_insert h
    simpa using hrow
  | update values extra =>
    obtain ⟨p, hp, -, rfl⟩ := execute_update hD h
    intro r hr
    obtain ⟨r, hold, rfl⟩ := List.mem_map.1 hr
    obtain ⟨hmem, hpr⟩ := List.mem_filter.1 hold
    have hsel := (hp r).1 hpr
    cases hv : values T.tenantId with
    | none => simpa [Values.over, hv] using hsel.1
    | some v =>
      by_cases hne : v = .text t
      · simp [Values.over, hv, hne]
      · have hh : ∀ v, values T.tenantId = some v → v ≠ .text t →
            ∀ r ∈ db.rows T, ¬ Selected t db extra r := by cases T <;> exact hop
        exact absurd hsel (hh v hv hne r hmem)

end

/-! ## Isolation -/

/-- In every run of harmless operations no row of another tenant is returned, and the rows of
other tenants stay as they are. -/
theorem tenant_isolation (hD : D.Documented) (t : String) (db₀ db : Database)
    (ops : List (Σ T, Op T)) (returned : List (Σ T, Row T))
    (h : Run D t (Harmless t) db₀ ops db returned) :
    (∀ r ∈ returned, r.2 r.1.tenantId = .text t) ∧ db.foreign t = db₀.foreign t := by
  induction h with
  | start => simp
  | rejected T op _ _ ih => exact ih
  | executed T op now _ hop hex ih =>
    obtain ⟨hret, hforeign⟩ := ih
    refine ⟨?_, ((executed_iff hD hex).2 hop).trans hforeign⟩
    intro r hr
    rcases List.mem_append.1 hr with hr | hr
    · exact hret r hr
    · obtain ⟨r, hold, rfl⟩ := List.mem_map.1 hr
      exact executed_own hD hex hop r hold

/-! ## Two tenants on one page -/

/-- Conditions as lists of their tokens. -/
def tokenDrizzle : Drizzle where
  eq column value := [.atom (equals column value)]
  and a b := [.lparen] ++ a ++ [.and] ++ b ++ [.rparen]
  sql before hole after := before ++ hole ++ after

theorem documented_tokenDrizzle : tokenDrizzle.Documented where
  eq_text _ _ := rfl
  and_text _ _ := rfl
  sql_text _ _ _ := rfl

def linkRow (id tenantId : String) : Row .links
  | .id => .text id
  | .tenantId => .text tenantId
  | .slug => .text "promo"
  | .destination => .text "https://example.com"
  | .title => .null
  | .createdAt => .timestamp 0
  | .updatedAt => .timestamp 0
  | .archivedAt => .null

def bioPageRow (id tenantId : String) : Row .bioPages
  | .id => .text id
  | .tenantId => .text tenantId
  | .handle => .text id
  | .displayName => .null
  | .bio => .null
  | .avatarUrl => .null
  | .themeId => .text "default"
  | .createdAt => .timestamp 0
  | .updatedAt => .timestamp 0

def bioLinkRow (id tenantId bioPageId linkId : String) : Row .bioLinks
  | .id => .text id
  | .tenantId => .text tenantId
  | .bioPageId => .text bioPageId
  | .linkId => .text linkId
  | .position => .integer 0
  | .createdAt => .timestamp 0

/-- The tenants `ann` and `bob`; the page of `ann` carries a link of `bob`. -/
def sharedPage : Database where
  user := ["ann", "bob", "cid"]
  rows
    | .links => [linkRow "l1" "ann", linkRow "l2" "bob"]
    | .bioPages => [bioPageRow "p1" "ann"]
    | .bioLinks => [bioLinkRow "b1" "bob" "p1" "l2"]
    | .domains => []

/-- The value of one column. -/
def Values.single {T : PgTable} (column : T.Column) (v : SqlValue) : Values T := fun c =>
  if c = column then some v else none

theorem run_single {t : String} {allowed : Database → (T : PgTable) → Op T → Prop}
    {db₀ db : Database} {T : PgTable} {op : Op T} {now : Int} {rs : List (Row T)}
    (hop : allowed db₀ T op) (h : execute now db₀ (issue D t T op) = some (db, rs)) :
    Run D t allowed db₀ [⟨T, op⟩] db (rs.map (Sigma.mk T)) := .executed T op now .start hop h

/-- `id = 'l1' OR tenant_id = 'bob'`. -/
def topLevelOr : Extra .links :=
  ⟨[.atom (equals LinksColumn.id "l1"), .or,
    .atom (equals LinksColumn.tenantId "bob")], rfl⟩

theorem tenant_isolation_topLevelOr :
    ∃ db returned, Run tokenDrizzle "ann" (Harmless "ann") sharedPage
      [⟨.links, .update (.single LinksColumn.title (.text "Sale")) (some topLevelOr)⟩]
      db returned ∧ returned.length = 1 ∧
      (∀ r ∈ returned, r.2 r.1.tenantId = .text "ann") ∧
      db.foreign "ann" = sharedPage.foreign "ann" := by
  let op : Op .links := .update (.single LinksColumn.title (.text "Sale")) (some topLevelOr)
  have hex : (execute 1 sharedPage (issue tokenDrizzle "ann" .links op)).map (·.2.length) =
      some 1 := by
    decide +kernel
  obtain ⟨⟨db, rs⟩, hex, hlen⟩ := Option.map_eq_some_iff.1 hex
  have hrun : Run tokenDrizzle "ann" (Harmless "ann") sharedPage [⟨.links, op⟩] db _ :=
    run_single (by intro v hv; cases hv) hex
  exact ⟨db, _, hrun, by simpa using hlen, tenant_isolation documented_tokenDrizzle _ _ _ _ _ hrun⟩

/-- Both ways out of the scope: `ann` updates the tenant column of her link, or deletes her page. -/
theorem tenant_isolation_broken :
    tokenDrizzle.Documented ∧ sharedPage.consistent = true ∧
    (∃ db returned, Run tokenDrizzle "ann" (fun _ _ _ => True) sharedPage
      [⟨.links, .update (.single LinksColumn.tenantId (.text "cid")) none⟩] db returned ∧
      ¬ ((∀ r ∈ returned, r.2 r.1.tenantId = .text "ann") ∧
        db.foreign "ann" = sharedPage.foreign "ann")) ∧
    (∃ db returned, Run tokenDrizzle "ann" (fun _ _ _ => True) sharedPage [⟨.bioPages, .delete none⟩]
      db returned ∧
      ¬ ((∀ r ∈ returned, r.2 r.1.tenantId = .text "ann") ∧
        db.foreign "ann" = sharedPage.foreign "ann")) := by
  refine ⟨documented_tokenDrizzle, by decide +kernel, ?_, ?_⟩
  · let op : Op .links := .update (.single LinksColumn.tenantId (.text "cid")) none
    have hex : (execute 1 sharedPage (issue tokenDrizzle "ann" .links op)).isSome = true := by
      decide +kernel
    obtain ⟨⟨db, rs⟩, hex⟩ := Option.isSome_iff_exists.1 hex
    refine ⟨db, _, run_single trivial hex, fun h => ?_⟩
    have hharmless : Harmless "ann" sharedPage .links op :=
      (executed_iff documented_tokenDrizzle hex).1 h.2
    exact hharmless (.text "cid") rfl (by decide) (linkRow "l1" "ann") (.head _)
      ⟨rfl, by intro e c h; cases h⟩
  · let op : Op .bioPages := .delete none
    have hex : (execute 1 sharedPage (issue tokenDrizzle "ann" .bioPages op)).isSome = true := by
      decide +kernel
    obtain ⟨⟨db, rs⟩, hex⟩ := Option.isSome_iff_exists.1 hex
    refine ⟨db, _, run_single trivial hex, fun h => ?_⟩
    have hharmless : Harmless "ann" sharedPage .bioPages op :=
      (executed_iff documented_tokenDrizzle hex).1 h.2
    have := hharmless (bioPageRow "p1" "ann") (.head _) ⟨rfl, by intro e c h; cases h⟩
      (bioLinkRow "b1" "bob" "p1" "l2") (.head _) rfl
    exact absurd this (by decide)

end Posta.Tenant
