import Posta.Api.ResolveTenant
import Mathlib.Logic.Function.Basic
import Mathlib.Logic.Relation

/-!
# Processes that resolve handles

Any number of processes with a memo each share Redis and Postgres, and one clock that does not go
back. A lookup and a query are executed some time after they are asked and answered some time after
that; a `SETEX` is applied some time after it is issued, or never. What a process does without
waiting takes no time.

**The record.** The system keeps what has been asked and answered, with the times: what Postgres
held (`held`), the queries that were answered, the lookups that found a value, and the answers of
the calls.
-/

namespace Posta.Api

open Js Interaction Store

/-- A query that Postgres answered; it was executed at `readAt`. -/
structure TenantQuery where
  handle : JsString
  asked : Int
  readAt : Int
  answered : Int
  tenantId : Option PgText

/-- A `SETEX`, and the query whose answer it writes. -/
structure SentWrite where
  key : JsString
  seconds : Nat
  value : JsString
  query : Option TenantQuery
  issued : Int

structure StoredWrite extends SentWrite where
  applied : Int

/-- Redis honours the time to live. -/
def StoredWrite.Live (w : StoredWrite) (now : Int) : Prop := now ≤ w.applied + 1000 * w.seconds

instance (w : StoredWrite) (now : Int) : Decidable (w.Live now) :=
  inferInstanceAs (Decidable (_ ≤ _))

/-- A lookup that was answered with a value. -/
structure HandleGet where
  key : JsString
  asked : Int
  executed : Int
  answered : Int
  write : StoredWrite

/-- `entry` is the memo entry an answer was read from. -/
structure TenantAnswer where
  handle : JsString
  tenantId : Option JsString
  time : Int
  entry : Option MemoEntry

/-- What a lookup or a query found, and when. -/
inductive Executed where
  | lookup (write : Option StoredWrite) (time : Int)
  | row (tenantId : Option PgText) (time : Int)

/-- `since` is the time of the last answer to an operation of the call. -/
structure TenantCall where
  process : Nat
  handle : JsString
  prog : TenantFlow Unit
  past : List TenantEvent
  since : Int
  executed : Option Executed
  query : Option TenantQuery

structure TenantSystem where
  clock : Int
  pg : JsString → Option PgText
  held : List (Int × (JsString → Option PgText))
  memo : Nat → TenantMemo
  redis : JsString → Option StoredWrite
  flying : List SentWrite
  calls : List TenantCall
  queries : List TenantQuery
  gets : List HandleGet
  answers : List TenantAnswer

/-! ## What a call has seen -/

/-- What the operations of a call amount to. -/
structure TenantExchange where
  entry : Option MemoEntry := none
  now : Option Int := none
  /-- What the lookup gave. -/
  cached : Option (Option JsString) := none
  row : Option (Option PgText) := none
  ended : Bool := false

def cachedValue : Race (Option JsString) → Option JsString
  | .operation (.ok raw) => raw
  | _ => none

def TenantExchange.step (x : TenantExchange) : TenantEvent → TenantExchange
  | ⟨.memoGet _, entry⟩ => { x with entry }
  | ⟨.now, (t : Int)⟩ => { x with now := some t }
  | ⟨.get _, race⟩ => { x with cached := some (cachedValue race) }
  | ⟨.resolveTenantByHandle _, .ok row⟩ => { x with row := some row }
  | ⟨.answer _, _⟩ => { x with ended := true }
  | _ => x

def tenantExchange (h : List TenantEvent) : TenantExchange := h.foldl TenantExchange.step {}

theorem tenantExchange_append (h : List TenantEvent) (e : TenantEvent) :
    tenantExchange (h ++ [e]) = (tenantExchange h).step e := by
  simp [tenantExchange]

/-! ## What an operation does -/

/-- The operations that are waited for. -/
def TenantOp.isAsync : TenantOp → Bool
  | .get _ => true
  | .resolveTenantByHandle _ => true
  | .setexSettled .. => true
  | _ => false

namespace TenantCall

variable (c : TenantCall) (now : Int)

/-- The call has finished, or waits. -/
def AtRest : Prop :=
  match c.prog with
  | .done _ => True
  | .call op _ => op.isAsync = true

def sent : TenantEvent → List SentWrite
  | ⟨.setex key seconds value, .ok ()⟩ => [⟨key, seconds, value, c.query, now⟩]
  | _ => []

def queried : TenantEvent → Option TenantQuery
  | ⟨.resolveTenantByHandle handle, .ok tenantId⟩ =>
    match c.executed with
    | some (.row _ time) => some ⟨handle, c.since, time, now, tenantId⟩
    | _ => none
  | _ => none

def got : TenantEvent → Option HandleGet
  | ⟨.get key, .operation (.ok _)⟩ =>
    match c.executed with
    | some (.lookup (some write) time) => some ⟨key, c.since, time, now, write⟩
    | _ => none
  | _ => none

/-- An answer without a lookup is that of the memo. -/
def answered : TenantEvent → Option TenantAnswer
  | ⟨.answer tenantId, _⟩ =>
    let x := tenantExchange c.past
    some ⟨c.handle, tenantId, now, if x.cached.isNone then x.entry else none⟩
  | _ => none

def after (e : TenantEvent) (prog : TenantFlow Unit) : TenantCall :=
  { c with
    prog
    past := c.past ++ [e]
    since := now
    executed := none
    query := (c.queried now e).or c.query }

end TenantCall

namespace TenantSystem

def memoAfter (s : TenantSystem) (c : TenantCall) : TenantEvent → Nat → TenantMemo
  | ⟨.remember handle tenantId, _⟩ =>
    Function.update s.memo c.process
      (rememberInMemo (s.memo c.process) handle tenantId s.clock)
  | _ => s.memo

/-- What an operation of a call leaves. -/
def after (s : TenantSystem) (c : TenantCall) (e : TenantEvent) : TenantSystem :=
  { s with
    memo := s.memoAfter c e
    flying := s.flying ++ c.sent s.clock e
    queries := s.queries ++ (c.queried s.clock e).toList
    gets := s.gets ++ (c.got s.clock e).toList
    answers := s.answers ++ (c.answered s.clock e).toList }

/-- What Redis holds of a key. -/
def live (s : TenantSystem) (key : JsString) : Option StoredWrite :=
  (s.redis key).filter fun w => w.Live s.clock

/-- What an operation of a call may answer. -/
inductive Reply (s : TenantSystem) (c : TenantCall) : (op : TenantOp) → op.Response → Prop
  | memoGet (handle : JsString) : Reply s c (.memoGet handle) ((s.memo c.process).get handle)
  | now : Reply s c .now s.clock
  | remember (handle : JsString) (tenantId : Option JsString) :
      Reply s c (.remember handle tenantId) ()
  | get (key : JsString) {write : Option StoredWrite} {time : Int} :
      c.executed = some (.lookup write time) →
      Reply s c (.get key) (.operation (.ok (write.map fun w => w.value)))
  | getFailed (key : JsString) (error : Thrown) : Reply s c (.get key) (.operation (.error error))
  | getTimedOut (key : JsString) : Reply s c (.get key) .timer
  | row (handle : JsString) {tenantId : Option PgText} {time : Int} :
      c.executed = some (.row tenantId time) →
      Reply s c (.resolveTenantByHandle handle) (.ok tenantId)
  | queryFailed (handle : JsString) (error : Thrown) :
      Reply s c (.resolveTenantByHandle handle) (.error error)
  | setex (key : JsString) (seconds : Nat) (value : JsString) (r : Except Thrown Unit) :
      Reply s c (.setex key seconds value) r
  | setexSettled (key : JsString) (seconds : Nat) (value : JsString) (r : Except Thrown Unit) :
      Reply s c (.setexSettled key seconds value) r
  | warn (message : JsString) (logMeta : LogMeta) : Reply s c (.warn message logMeta) ()
  | answer (tenantId : Option JsString) : Reply s c (.answer tenantId) ()

inductive Step (deps : ResolveTenantDeps) : TenantSystem → TenantSystem → Prop
  /-- Time passes while every process waits. -/
  | tick {s : TenantSystem} {t : Int} : s.clock ≤ t → (∀ c ∈ s.calls, c.AtRest) →
      Step deps s { s with clock := t, held := s.held ++ [(t, s.pg)] }
  | change (s : TenantSystem) (handle : JsString) (tenantId : Option PgText) :
      Step deps s
        { s with
          pg := Function.update s.pg handle tenantId
          held := s.held ++ [(s.clock, Function.update s.pg handle tenantId)] }
  | start (s : TenantSystem) (process : Nat) (handle : JsString) :
      Step deps s
        { s with calls := s.calls ++
            [⟨process, handle, resolveTenant deps handle, [], s.clock, none, none⟩] }
  /-- A lookup is executed. -/
  | lookup {s : TenantSystem} {i : Nat} {c : TenantCall} {key : JsString}
      {k : Race (Option JsString) → TenantFlow Unit} :
      s.calls[i]? = some c → c.prog = .call (.get key) k →
      Step deps s
        { s with
          calls := s.calls.set i { c with executed := some (.lookup (s.live key) s.clock) } }
  /-- A query is executed. -/
  | read {s : TenantSystem} {i : Nat} {c : TenantCall} {handle : JsString}
      {k : Except Thrown (Option PgText) → TenantFlow Unit} :
      s.calls[i]? = some c → c.prog = .call (.resolveTenantByHandle handle) k →
      Step deps s
        { s with
          calls := s.calls.set i { c with executed := some (.row (s.pg handle) s.clock) } }
  /-- A `SETEX` is applied. -/
  | land {s : TenantSystem} {w : SentWrite} : w ∈ s.flying →
      Step deps s { s with redis := Function.update s.redis w.key (some ⟨w, s.clock⟩) }
  /-- A key is evicted or deleted. -/
  | drop (s : TenantSystem) (key : JsString) :
      Step deps s { s with redis := Function.update s.redis key none }
  | operate {s : TenantSystem} {i : Nat} {c : TenantCall} {op : TenantOp}
      {k : op.Response → TenantFlow Unit} {r : op.Response} :
      s.calls[i]? = some c → c.prog = .call op k → s.Reply c op r →
      Step deps s
        { s.after c ⟨op, r⟩ with calls := s.calls.set i (c.after s.clock ⟨op, r⟩ (k r)) }

def initial (t : Int) (pg : JsString → Option PgText) : TenantSystem where
  clock := t
  pg := pg
  held := [(t, pg)]
  memo _ := .empty
  redis _ := none
  flying := []
  calls := []
  queries := []
  gets := []
  answers := []

def Reachable (deps : ResolveTenantDeps) (s : TenantSystem) : Prop :=
  ∃ t pg, Relation.ReflTransGen (Step deps) (initial t pg) s

/-- Postgres held this at that instant. -/
def HeldAt (s : TenantSystem) (t : Int) (handle : JsString) (tenantId : Option JsString) : Prop :=
  ∃ pg, (t, pg) ∈ s.held ∧ (pg handle).map Subtype.val = tenantId

/-- How long the requests were outstanding that brought the answer of a query: the query itself,
and where the answer was read from Redis the `SETEX` that wrote it and the lookup that read it. -/
inductive Outstanding (s : TenantSystem) (q : TenantQuery) : Int → Prop
  | query : Outstanding s q (q.answered - q.asked)
  | cache {g : HandleGet} : g ∈ s.gets → g.write.query = some q →
      Outstanding s q ((q.answered - q.asked) + (g.write.applied - g.write.issued) +
        (g.answered - g.asked))

end TenantSystem

end Posta.Api
