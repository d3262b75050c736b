import Mathlib.Logic.Function.Basic
import Posta.Sql.Condition

/-!
# Tenant-scoped queries

`forTenant(db, tenantId)` builds the statements over the four tables that tenants own. We model
the tables with their columns, defaults and constraints, the builders with the text of the `WHERE`
they make, and what Postgres does with a statement: it reads the condition by its grammar, changes
the rows, follows `ON DELETE CASCADE`, and rejects the statement where a constraint is broken.

**Drizzle** (`Drizzle`). How drizzle writes `eq`, `and` and a template is a parameter, and what the
builders rely on is a hypothesis (`Drizzle.Documented`).
-/

namespace Posta.Tenant

/-! ## The tables -/

inductive PgTable where
  | links
  | bioPages
  | bioLinks
  | domains
  deriving DecidableEq

inductive LinksColumn where
  | id | tenantId | slug | destination | title | createdAt | updatedAt | archivedAt
  deriving DecidableEq

inductive BioPagesColumn where
  | id | tenantId | handle | displayName | bio | avatarUrl | themeId | createdAt | updatedAt
  deriving DecidableEq

inductive BioLinksColumn where
  | id | tenantId | bioPageId | linkId | position | createdAt
  deriving DecidableEq

inductive DomainsColumn where
  | id | tenantId | host | type | verifiedAt | createdAt
  deriving DecidableEq

/-- A value of a column. -/
inductive SqlValue where
  | null
  | text (s : String)
  | integer (n : Int)
  | timestamp (ms : Int)
  deriving DecidableEq

inductive PgType where
  | text
  | integer
  | timestamp
  deriving DecidableEq

/-- What a column holds where an `INSERT` does not name it. -/
inductive ColumnDefault where
  | null
  | now
  | text (s : String)

structure PgColumn where
  type : PgType
  notNull : Bool := true
  default : ColumnDefault := .null

def SqlValue.hasType : SqlValue → PgColumn → Bool
  | .null, c => !c.notNull
  | .text _, c => c.type = .text
  | .integer _, c => c.type = .integer
  | .timestamp _, c => c.type = .timestamp

namespace PgTable

def Column : PgTable → Type
  | links => LinksColumn
  | bioPages => BioPagesColumn
  | bioLinks => BioLinksColumn
  | domains => DomainsColumn

instance : (T : PgTable) → DecidableEq T.Column
  | links => inferInstanceAs (DecidableEq LinksColumn)
  | bioPages => inferInstanceAs (DecidableEq BioPagesColumn)
  | bioLinks => inferInstanceAs (DecidableEq BioLinksColumn)
  | domains => inferInstanceAs (DecidableEq DomainsColumn)

def tenantId : (T : PgTable) → T.Column
  | links => LinksColumn.tenantId
  | bioPages => BioPagesColumn.tenantId
  | bioLinks => BioLinksColumn.tenantId
  | domains => DomainsColumn.tenantId

def columns : (T : PgTable) → List (T.Column × PgColumn)
  | links =>
    [(LinksColumn.id, { type := .text }),
     (LinksColumn.tenantId, { type := .text }),
     (LinksColumn.slug, { type := .text }),
     (LinksColumn.destination, { type := .text }),
     (LinksColumn.title, { type := .text, notNull := false }),
     (LinksColumn.createdAt, { type := .timestamp, default := .now }),
     (LinksColumn.updatedAt, { type := .timestamp, default := .now }),
     (LinksColumn.archivedAt, { type := .timestamp, notNull := false })]
  | bioPages =>
    [(BioPagesColumn.id, { type := .text }),
     (BioPagesColumn.tenantId, { type := .text }),
     (BioPagesColumn.handle, { type := .text }),
     (BioPagesColumn.displayName, { type := .text, notNull := false }),
     (BioPagesColumn.bio, { type := .text, notNull := false }),
     (BioPagesColumn.avatarUrl, { type := .text, notNull := false }),
     (BioPagesColumn.themeId, { type := .text, default := .text "default" }),
     (BioPagesColumn.createdAt, { type := .timestamp, default := .now }),
     (BioPagesColumn.updatedAt, { type := .timestamp, default := .now })]
  | bioLinks =>
    [(BioLinksColumn.id, { type := .text }),
     (BioLinksColumn.tenantId, { type := .text }),
     (BioLinksColumn.bioPageId, { type := .text }),
     (BioLinksColumn.linkId, { type := .text }),
     (BioLinksColumn.position, { type := .integer }),
     (BioLinksColumn.createdAt, { type := .timestamp, default := .now })]
  | domains =>
    [(DomainsColumn.id, { type := .text }),
     (DomainsColumn.tenantId, { type := .text }),
     (DomainsColumn.host, { type := .text }),
     (DomainsColumn.type, { type := .text, default := .text "subdomain" }),
     (DomainsColumn.verifiedAt, { type := .timestamp, notNull := false }),
     (DomainsColumn.createdAt, { type := .timestamp, default := .now })]

/-- The primary key and the `UNIQUE` constraints. -/
def uniqueKeys : (T : PgTable) → List (List T.Column)
  | links => [[LinksColumn.id], [LinksColumn.tenantId, LinksColumn.slug]]
  | bioPages => [[BioPagesColumn.id], [BioPagesColumn.handle]]
  | bioLinks => [[BioLinksColumn.id], [BioLinksColumn.bioPageId, BioLinksColumn.position]]
  | domains => [[DomainsColumn.id], [DomainsColumn.host]]

def default (T : PgTable) (now : Int) (c : T.Column) : SqlValue :=
  match (T.columns.lookup c).map PgColumn.default with
  | some .now => .timestamp now
  | some (.text s) => .text s
  | _ => .null

end PgTable

abbrev Row (T : PgTable) := T.Column → SqlValue

/-- The four tables, and the ids of the table `user` that their `tenant_id`s reference. -/
structure Database where
  user : List String
  rows : (T : PgTable) → List (Row T)

/-! ## Constraints -/

/-- `~* '^https?://'`; a `CHECK` lets `NULL` pass. -/
def absoluteUrl : SqlValue → Bool
  | .text s =>
    let s := s.toList.map Char.toLower
    "http://".toList.isPrefixOf s || "https://".toList.isPrefixOf s
  | _ => true

def check : (T : PgTable) → Row T → Bool
  | .links, r => absoluteUrl (r LinksColumn.destination)
  | .bioPages, r => absoluteUrl (r BioPagesColumn.avatarUrl)
  | .bioLinks, _ => true
  | .domains, r => r DomainsColumn.type ∈ [.null, .text "subdomain", .text "custom"]

namespace Database

/-- A column whose values are among those of the column it references. -/
def references (db : Database) (T : PgTable) (c : T.Column) (values : List SqlValue) : Bool :=
  (db.rows T).all fun r => r c = .null || r c ∈ values

def tableConsistent (db : Database) (T : PgTable) : Bool :=
  (db.rows T).all (fun r => T.columns.all (fun (c, d) => (r c).hasType d) && check T r) &&
  T.uniqueKeys.all (fun key => ((db.rows T).map fun r => key.map r).Nodup) &&
  db.references T T.tenantId (db.user.map .text)

/-- Every constraint of the schema holds. -/
def consistent (db : Database) : Bool :=
  db.tableConsistent .links && db.tableConsistent .bioPages && db.tableConsistent .bioLinks &&
  db.tableConsistent .domains &&
  db.references .bioLinks BioLinksColumn.bioPageId
    ((db.rows .bioPages).map fun r => r BioPagesColumn.id) &&
  db.references .bioLinks BioLinksColumn.linkId ((db.rows .links).map fun r => r LinksColumn.id)

def setRows (db : Database) (T : PgTable) (rs : List (Row T)) : Database :=
  { db with rows := Function.update db.rows T rs }

/-- `ON DELETE CASCADE` of `bio_links.bio_page_id`. The other references restrict. -/
def cascade (db : Database) : (T : PgTable) → List (Row T) → Database
  | .bioPages, deleted => db.setRows .bioLinks ((db.rows .bioLinks).filter fun l =>
      l BioLinksColumn.bioPageId ∉ deleted.map fun p => p BioPagesColumn.id)
  | _, _ => db

end Database

/-! ## The query builders -/

/-- An operand of a condition. It may look at the whole database (a subquery). -/
abbrev SqlAtom (T : PgTable) := Database → Row T → Sql.Truth

/-- The text of a condition over a table's rows. -/
abbrev SQL (T : PgTable) := List (Sql.Token (SqlAtom T))

/-- `column = $1`, which is unknown where the column is `NULL`. -/
def equals {T : PgTable} (column : T.Column) (value : String) : SqlAtom T := fun _ r =>
  if r column = .null then none else some (decide (r column = .text value))

/-- What the program uses of drizzle: `eq`, `and`, and `sql` of a template with one hole. -/
structure Drizzle where
  eq : {T : PgTable} → T.Column → String → SQL T
  and : {T : PgTable} → SQL T → SQL T → SQL T
  sql : {T : PgTable} → SQL T → SQL T → SQL T → SQL T

/-- The texts that drizzle makes. -/
structure Drizzle.Documented (D : Drizzle) : Prop where
  eq_text : ∀ {T : PgTable} (column : T.Column) (value : String),
    D.eq column value = [.atom (equals column value)]
  /-- One pair of parentheses around the whole. -/
  and_text : ∀ {T : PgTable} (a b : SQL T), D.and a b = [.lparen] ++ a ++ [.and] ++ b ++ [.rparen]
  sql_text : ∀ {T : PgTable} (before hole after : SQL T),
    D.sql before hole after = before ++ hole ++ after

variable (D : Drizzle)

def tenantScope {T : PgTable} (tenantColumn : T.Column) (tenantId : String)
    (extra : Option (SQL T)) : SQL T :=
  let scope := D.eq tenantColumn tenantId
  match extra with
  | none => scope
  | some extra => D.and scope (D.sql [.lparen] extra [.rparen])

/-- The values of an `INSERT` or `UPDATE`; a column may be left out. -/
abbrev Values (T : PgTable) := T.Column → Option SqlValue

inductive Statement (T : PgTable) where
  | select (where_ : SQL T)
  | update (set : Values T) (where_ : SQL T)
  | delete (where_ : SQL T)
  | insert (values : Values T)

structure ScopedTable (T : PgTable) where
  select : Option (SQL T) → Statement T
  update : Values T → Option (SQL T) → Statement T
  delete : Option (SQL T) → Statement T
  insert : Values T → Statement T

/-- The four scoped tables differ in the table and its tenant column only. -/
def scopedTable (T : PgTable) (tenantColumn : T.Column) (tenantId : String) : ScopedTable T where
  select extra := .select (tenantScope D tenantColumn tenantId extra)
  update values extra := .update values (tenantScope D tenantColumn tenantId extra)
  delete extra := .delete (tenantScope D tenantColumn tenantId extra)
  insert values := .insert (Function.update values tenantColumn (some (.text tenantId)))

def scopedLinks : String → ScopedTable .links := scopedTable D .links LinksColumn.tenantId

def scopedBioPages : String → ScopedTable .bioPages :=
  scopedTable D .bioPages BioPagesColumn.tenantId

def scopedBioLinks : String → ScopedTable .bioLinks :=
  scopedTable D .bioLinks BioLinksColumn.tenantId

def scopedDomains : String → ScopedTable .domains := scopedTable D .domains DomainsColumn.tenantId

structure ForTenant where
  links : ScopedTable .links
  bioPages : ScopedTable .bioPages
  bioLinks : ScopedTable .bioLinks
  domains : ScopedTable .domains

def forTenant (tenantId : String) : ForTenant where
  links := scopedLinks D tenantId
  bioPages := scopedBioPages D tenantId
  bioLinks := scopedBioLinks D tenantId
  domains := scopedDomains D tenantId

/-! ## Executing a statement -/

/-- The rows that a `WHERE` keeps. A text that is no condition is a syntax error. -/
def matching {T : PgTable} (db : Database) (where_ : SQL T) : Option (Row T → Bool) :=
  (Sql.parse where_).map fun c r => decide (c.eval (fun a => a db r) = some true)

/-- A statement that breaks a constraint has no effect. -/
def Database.commit {T : PgTable} (db : Database) (returned : List (Row T)) :
    Option (Database × List (Row T)) :=
  if db.consistent then some (db, returned) else none

/-- The state after a statement and the rows that `RETURNING *` gives, or `none` where Postgres
rejects it. -/
def execute {T : PgTable} (now : Int) (db : Database) :
    Statement T → Option (Database × List (Row T))
  | .select w => (matching db w).map fun p => (db, (db.rows T).filter p)
  | .update values w =>
    match matching db w with
    | none => none
    | some p =>
      let set (r : Row T) : Row T := fun c => (values c).getD (r c)
      -- A set without values is an error of the builder.
      if T.columns.all fun (c, _) => values c = none then none
      else (db.setRows T ((db.rows T).map fun r => if p r then set r else r)).commit
        (((db.rows T).filter p).map set)
  | .delete w =>
    match matching db w with
    | none => none
    | some p =>
      let deleted := (db.rows T).filter p
      ((db.setRows T ((db.rows T).filter fun r => !p r)).cascade T deleted).commit deleted
  | .insert values =>
    let row : Row T := fun c => (values c).getD (T.default now c)
    (db.setRows T (db.rows T ++ [row])).commit [row]

end Posta.Tenant
