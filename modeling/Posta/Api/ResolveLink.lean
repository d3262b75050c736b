import Posta.Api.ResolveRedis
import Posta.Contracts.Cache
import Posta.Interaction.Prog

/-!
# Resolving a link

The cache is asked first, and Postgres where the cache does not know. What Postgres says is written
to the cache, a tombstone where there is no link; nobody waits for that write.
-/

namespace Posta.Api

open Js Interaction

def linkKey (tenant slug : JsString) : JsString := lit "link:" ++ tenant ++ lit ":" ++ slug

def linkTombstone : JsString := [0]

def linkTombstoneTtlSeconds : Nat := 60

inductive LinkOp where
  /-- `redis.get(key)`, raced with the timer. -/
  | get (key : JsString)
  | resolveLinkBySlug (tenant slug : JsString)
  /-- `redis.setex(…)`: it throws, or returns a promise. -/
  | setex (key : JsString) (seconds : Nat) (value : JsString)
  /-- The promise of `redis.setex(…)`. -/
  | setexSettled (key : JsString) (seconds : Nat) (value : JsString)
  | warn (message : JsString) (logMeta : LogMeta)

def LinkOp.Response : LinkOp → Type
  | .get _ => Race (Option JsString)
  | .resolveLinkBySlug .. => Except Thrown (Option CachedLink)
  | .setex .. => Except Thrown Unit
  | .setexSettled .. => Except Thrown Unit
  | .warn .. => Unit

abbrev LinkFlow (α : Type) := Flow LinkOp LinkOp.Response Thrown α

abbrev LinkEvent := Event LinkOp LinkOp.Response

structure ResolveLinkDeps where
  platform : Platform
  /-- `z.url({ protocol: /^https?$/ })` on a trimmed text. -/
  acceptsUrl : JsString → Bool
  /-- What `CachedLinkSchema.parse` throws for a link that it refuses. -/
  schemaError : CachedLink → Thrown
  timeoutMs : JsNumber
  cacheTtlSeconds : Nat

inductive LinkLookupResult where
  | hit (link : CachedLink)
  | miss
  | knownAbsent

/-- A write that goes on after the call has answered, and the warning for its failure. -/
structure LinkWrite where
  key : JsString
  seconds : Nat
  value : JsString
  failed : JsString

section

variable (deps : ResolveLinkDeps) (tenant slug : JsString)

def lookupCachedLink : LinkFlow LinkLookupResult := do
  let read : Option (Option JsString) ← tryCatch (do
    let race : Race (Option JsString) ← Flow.perform (LinkOp.get (linkKey tenant slug))
    let result ← Flow.ofExcept (withRedisTimeout race)
    match result with
    | none => do
      Flow.perform (LinkOp.warn
        (lit "Redis GET timed out while looking up a cached link; treating as a miss.")
        [(lit "tenant", .str tenant), (lit "slug", .str slug), (lit "timeoutMs", .num deps.timeoutMs)])
      pure none
    | some raw => pure (some raw))
    fun error => do
      Flow.perform (LinkOp.warn
        (lit "Redis GET failed while looking up a cached link; treating as a miss.")
        [(lit "tenant", .str tenant), (lit "slug", .str slug),
          (lit "error", .str (describeError deps.platform error))])
      pure none
  match read with
  | none => pure .miss
  | some raw =>
    if raw = some linkTombstone then pure .knownAbsent
    else match parseCachedLink deps.acceptsUrl raw with
      | some link => pure (.hit link)
      | none => do
        if raw ≠ none then
          Flow.perform (LinkOp.warn (lit "Cached link payload failed to parse; treating as a miss.")
            [(lit "tenant", .str tenant), (lit "slug", .str slug)])
        pure .miss

def writeFailedMeta (error : Thrown) : LogMeta :=
  [(lit "tenant", .str tenant), (lit "slug", .str slug),
    (lit "error", .str (describeError deps.platform error))]

/-- The write up to its promise. -/
def startWrite (write : LinkWrite) : LinkFlow (Option LinkWrite) :=
  tryCatch (do
    Prog.call (LinkOp.setex write.key write.seconds write.value) Prog.done
    pure (some write))
    fun error => do
      Flow.perform (LinkOp.warn write.failed (writeFailedMeta deps tenant slug error))
      pure none

/-- The rest of the write. -/
def finishWrite (write : LinkWrite) : LinkFlow Unit :=
  tryCatch (Prog.call (LinkOp.setexSettled write.key write.seconds write.value) Prog.done)
    fun error => Flow.perform (LinkOp.warn write.failed (writeFailedMeta deps tenant slug error))

def backfillLinkCache (link : CachedLink) : LinkFlow (Option LinkWrite) :=
  match CachedLinkSchema.safeParse deps.acceptsUrl link.toJson with
  | none => do
    Flow.perform (LinkOp.warn
      (lit "Resolved link failed CachedLinkSchema validation; skipping the cache backfill.")
      (writeFailedMeta deps tenant slug (deps.schemaError link)))
    pure none
  | some valid => startWrite deps tenant slug
    { key := linkKey tenant slug
      seconds := deps.cacheTtlSeconds
      value := stringify valid.toJson
      failed := lit "Redis SETEX failed while backfilling the link cache; the next request will " ++
        lit "re-query Postgres." }

def writeLinkTombstone : LinkFlow (Option LinkWrite) :=
  startWrite deps tenant slug
    { key := linkKey tenant slug
      seconds := linkTombstoneTtlSeconds
      value := linkTombstone
      failed := lit "Redis SETEX failed while writing the negative-cache tombstone; the next " ++
        lit "probe of this slug will re-query Postgres." }

def resolveLinkFromDb : LinkFlow (Option CachedLink) :=
  Prog.call (LinkOp.resolveLinkBySlug tenant slug) Prog.done

/-- The answer, and the write that goes on after it. -/
def resolveLink : LinkFlow (Option CachedLink × Option LinkWrite) := do
  let cached ← lookupCachedLink deps tenant slug
  match cached with
  | .hit link => pure (some link, none)
  | .knownAbsent => pure (none, none)
  | .miss => do
    let link ← resolveLinkFromDb tenant slug
    match link with
    | none => do
      let write ← writeLinkTombstone deps tenant slug
      pure (none, write)
    | some link => do
      let write ← backfillLinkCache deps tenant slug link
      pure (some link, write)

/-- A call and what it leaves running. -/
def resolveLinkCall : LinkFlow (Option CachedLink) := do
  let (link, write) ← resolveLink deps tenant slug
  match write with
  | none => pure link
  | some write => do
    finishWrite deps tenant slug write
    pure link

end

end Posta.Api
