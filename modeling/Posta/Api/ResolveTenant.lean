import Posta.Api.ResolveRedis
import Posta.Interaction.Prog
import Posta.Store.InsertionMap

/-!
# Resolving a handle

A process remembers for a minute what a handle resolved to. Behind its memo stands Redis, and behind
Redis Postgres, whose answer goes back into both. Redis holds an answer for an hour, or for a minute
where there is no tenant.
-/

namespace Posta.Api

open Js Interaction Store

/-- A text of Postgres holds no NUL. -/
abbrev PgText := { s : JsString // (0 : CodeUnit) ∉ s }

def handleKey (handle : JsString) : JsString := lit "handle:" ++ handle

def memoTtlMs : Int := 60000

def memoMaxEntries : Nat := 10000

def handleCacheTtlSeconds : Nat := 3600

def negativeCacheTtlSeconds : Nat := 60

def absentTenantTombstone : JsString := [0]

structure MemoEntry where
  tenantId : Option JsString
  expiresAt : Int

abbrev TenantMemo := InsertionMap JsString MemoEntry

def rememberInMemo (memo : TenantMemo) (handle : JsString) (tenantId : Option JsString)
    (now : Int) : TenantMemo :=
  memo.remember memoMaxEntries handle ⟨tenantId, now + memoTtlMs⟩

/-- `Date.now() >= entry.expiresAt`. -/
def isExpired (entry : MemoEntry) (now : Int) : Prop := entry.expiresAt ≤ now

instance (entry : MemoEntry) (now : Int) : Decidable (isExpired entry now) :=
  inferInstanceAs (Decidable (_ ≤ _))

inductive TenantOp where
  /-- `memo.get(handle)`. -/
  | memoGet (handle : JsString)
  | now
  /-- `rememberInMemo(memo, handle, tenantId)`. -/
  | remember (handle : JsString) (tenantId : Option JsString)
  /-- `redis.get(key)`, raced with the timer. -/
  | get (key : JsString)
  | resolveTenantByHandle (handle : JsString)
  /-- `redis.setex(…)`: it throws, or returns a promise. -/
  | setex (key : JsString) (seconds : Nat) (value : JsString)
  /-- The promise of `redis.setex(…)`. -/
  | setexSettled (key : JsString) (seconds : Nat) (value : JsString)
  | warn (message : JsString) (logMeta : LogMeta)
  /-- The promise of the call resolves. -/
  | answer (tenantId : Option JsString)

def TenantOp.Response : TenantOp → Type
  | .memoGet _ => Option MemoEntry
  | .now => Int
  | .get _ => Race (Option JsString)
  | .resolveTenantByHandle _ => Except Thrown (Option PgText)
  | .setex .. => Except Thrown Unit
  | .setexSettled .. => Except Thrown Unit
  | _ => Unit

abbrev TenantFlow (α : Type) := Flow TenantOp TenantOp.Response Thrown α

abbrev TenantEvent := Event TenantOp TenantOp.Response

structure ResolveTenantDeps where
  platform : Platform
  timeoutMs : JsNumber

/-- What is written to Redis for an answer of Postgres. -/
def handleCacheValue : Option JsString → Nat × JsString
  | some tenantId => (handleCacheTtlSeconds, tenantId)
  | none => (negativeCacheTtlSeconds, absentTenantTombstone)

section

variable (deps : ResolveTenantDeps) (handle : JsString)

def warnBackfillFailed (error : Thrown) : TenantFlow Unit :=
  Flow.perform (TenantOp.warn (lit "Redis SETEX failed while backfilling a resolved handle.")
    [(lit "handle", .str handle), (lit "error", .str (describeError deps.platform error))])

/-- `backfillHandleCache` up to its promise. -/
def startBackfill (tenantId : Option JsString) : TenantFlow Bool :=
  tryCatch (do
    Prog.call (TenantOp.setex (handleKey handle) (handleCacheValue tenantId).1
      (handleCacheValue tenantId).2) Prog.done
    pure true)
    fun error => do
      warnBackfillFailed deps handle error
      pure false

/-- The rest of `backfillHandleCache`. -/
def finishBackfill (tenantId : Option JsString) : TenantFlow Unit :=
  tryCatch (Prog.call (TenantOp.setexSettled (handleKey handle) (handleCacheValue tenantId).1
      (handleCacheValue tenantId).2) Prog.done)
    (warnBackfillFailed deps handle)

/-- The value of the handle's key, `none` where Redis does not give one. -/
def lookupHandle : TenantFlow (Option JsString) :=
  tryCatch (do
    let race : Race (Option JsString) ← Flow.perform (TenantOp.get (handleKey handle))
    let result ← Flow.ofExcept (withRedisTimeout race)
    match result with
    | none => do
      Flow.perform (TenantOp.warn
        (lit "Redis GET timed out while resolving a handle; falling through to Postgres.")
        [(lit "handle", .str handle), (lit "timeoutMs", .num deps.timeoutMs)])
      pure none
    | some cached => pure cached)
    fun error => do
      Flow.perform (TenantOp.warn
        (lit "Redis GET failed while resolving a handle; falling through to Postgres.")
        [(lit "handle", .str handle), (lit "error", .str (describeError deps.platform error))])
      pure none

/-- `return tenantId`. -/
def answerTenant (tenantId : Option JsString) : TenantFlow Unit :=
  Flow.perform (TenantOp.answer tenantId)

def rememberAndAnswer (tenantId : Option JsString) : TenantFlow Unit := do
  Flow.perform (TenantOp.remember handle tenantId)
  answerTenant tenantId

/-- What is done where the memo does not know. -/
def resolveBehindMemo : TenantFlow Unit := do
  let cached ← lookupHandle deps handle
  match cached with
  | some value =>
    rememberAndAnswer handle (if value = absentTenantTombstone then none else some value)
  | none => do
    let row ← Prog.call (TenantOp.resolveTenantByHandle handle) Prog.done
    let tenantId := row.map Subtype.val
    let started ← startBackfill deps handle tenantId
    rememberAndAnswer handle tenantId
    if started then finishBackfill deps handle tenantId

/-- A call of `resolveTenant`, and what it leaves running. -/
def resolveTenant : TenantFlow Unit := do
  let memoized : Option MemoEntry ← Flow.perform (TenantOp.memoGet handle)
  match memoized with
  | some entry => do
    let now : Int ← Flow.perform TenantOp.now
    if isExpired entry now then resolveBehindMemo deps handle
    else answerTenant entry.tenantId
  | none => resolveBehindMemo deps handle

end

end Posta.Api
