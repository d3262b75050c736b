import Posta.Core.EventKeys
import Posta.Interaction.Prog
import Posta.Store.InsertionMap

/-!
# The salt of the day

Every process keeps the promises of at most two days' salts. The first call of a day starts
fetching: a fresh candidate is set unless the day has a salt, and the salt is read back. Where Redis
fails, the candidate itself serves the process for the day.

**The system** (`SaltSystem`). Any number of processes share one Redis. Every command may fail; one
that failed may have been applied, or may still be applied later. Keys may expire or be evicted at
any time. The clocks of the processes are their own.
-/

namespace Posta

open Js Interaction Store

inductive SaltOp where
  | randomBytes
  /-- `SET key value EX seconds NX`. -/
  | set (key value : JsString) (seconds : Nat)
  | get (key : JsString)
  | logError (message : JsString) (logMeta : LogMeta)

/-- `SET` answers `OK` (`true`) or `null`. The random bytes come as hexadecimal text. -/
def SaltOp.Response : SaltOp → Type
  | .randomBytes => JsString
  | .set .. => Except Thrown Bool
  | .get _ => Except Thrown (Option JsString)
  | .logError .. => Unit

abbrev SaltFlow (α : Type) := Flow SaltOp SaltOp.Response Thrown α

abbrev SaltEvent := Event SaltOp SaltOp.Response

def formatUtcDate (t : Int) : JsString := dateText (civilOfDay (dayOfTime t))

theorem formatUtcDate_eq_iff {t t' : Int} :
    formatUtcDate t = formatUtcDate t' ↔ dayOfTime t = dayOfTime t' := by
  refine ⟨fun h => ?_, fun h => by rw [formatUtcDate, h, formatUtcDate]⟩
  exact civilOfDay_injective (dateText_inj (civilOfDay_twoDigits _) (civilOfDay_twoDigits _) h)

def saltKey (t : Int) : JsString := lit "salt:" ++ formatUtcDate t

def saltTtlSeconds : Nat := 172800

def saltMemoMaxEntries : Nat := 2

def noSaltMessage (key : JsString) : JsString :=
  lit "Redis GET returned no value for " ++ key ++ lit " immediately after SET"

def saltFailedMessage : JsString :=
  lit "Daily salt SET/GET failed against Redis; falling back to a process-local salt for this " ++
    lit "UTC day. Hashes computed during this window will not match other instances until Redis " ++
    lit "recovers."

/-- `errorType` is `error instanceof Error ? error.constructor.name : typeof error`. -/
def fetchOrGenerateSalt (errorType : Thrown → JsString) (now : Int) : SaltFlow JsString := do
  let key := saltKey now
  let candidate : JsString ← Flow.perform SaltOp.randomBytes
  tryCatch (do
    let _ ← Prog.call (SaltOp.set key candidate saltTtlSeconds) Prog.done
    let stored ← Prog.call (SaltOp.get key) Prog.done
    match stored with
    | some stored => pure stored
    | none => throw (.new (noSaltMessage key)))
    fun error => do
      Flow.perform (SaltOp.logError saltFailedMessage [(lit "errorType", .str (errorType error))])
      pure candidate

/-- The promises of a process, by date. -/
abbrev SaltMemo := InsertionMap JsString Nat

def rememberSalt (memo : SaltMemo) (dateKey : JsString) (salt : Nat) : SaltMemo :=
  memo.remember saltMemoMaxEntries dateKey salt

/-! ## Processes and Redis -/

/-- A promise of a salt: what is left of the fetching, and what it has performed. `got` is what its
`GET` returned, with the generation of the key it was read in. -/
structure SaltPromise where
  process : Nat
  now : Int
  prog : SaltFlow JsString
  past : List SaltEvent
  got : Option (Nat × JsString)

structure SaltCall where
  process : Nat
  now : Int
  promise : Nat

/-- A `SET` on its way. -/
structure LateSet where
  key : JsString
  value : JsString

/-- The generation of a key counts how often it expired or was evicted. -/
structure SaltSystem where
  memo : Nat → SaltMemo
  promises : List SaltPromise
  calls : List SaltCall
  redis : JsString → Option JsString
  generation : JsString → Nat
  late : List LateSet

namespace SaltSystem

/-- Set a key unless it is present. -/
def setNx (s : SaltSystem) (key value : JsString) : SaltSystem :=
  { s with redis := Function.update s.redis key (some ((s.redis key).getD value)) }

/-- What a command does and answers. -/
inductive Command (s : SaltSystem) : (op : SaltOp) → op.Response → SaltSystem → Prop
  | randomBytes (candidate : JsString) : Command s .randomBytes candidate s
  | set (key value : JsString) (seconds : Nat) :
      Command s (.set key value seconds) (.ok (s.redis key).isNone) (s.setNx key value)
  /-- The failed `SET` is dropped, or is applied some time. -/
  | setFailed (key value : JsString) (seconds : Nat) (error : Thrown) :
      Command s (.set key value seconds) (.error error)
        { s with late := s.late ++ [⟨key, value⟩] }
  | get (key : JsString) : Command s (.get key) (.ok (s.redis key)) s
  | getFailed (key : JsString) (error : Thrown) : Command s (.get key) (.error error) s
  | logError (message : JsString) (logMeta : LogMeta) : Command s (.logError message logMeta) () s

/-- What a `GET` returned. -/
def gotOf (s : SaltSystem) : SaltEvent → Option (Nat × JsString)
  | ⟨.get key, .ok (some stored)⟩ => some (s.generation key, stored)
  | _ => none

/-- The promise after one more command. -/
def SaltPromise.after (s : SaltSystem) (f : SaltPromise) (e : SaltEvent)
    (prog : SaltFlow JsString) : SaltPromise :=
  { f with prog, past := f.past ++ [e], got := f.got.or (s.gotOf e) }

/-- The body of `getDailySalt` at one clock reading. -/
def call (errorType : Thrown → JsString) (s : SaltSystem) (process : Nat) (now : Int) : SaltSystem :=
  let dateKey := formatUtcDate now
  match (s.memo process).get dateKey with
  | some promise => { s with calls := s.calls ++ [⟨process, now, promise⟩] }
  | none =>
    let promise := s.promises.length
    { s with
      memo := Function.update s.memo process (rememberSalt (s.memo process) dateKey promise)
      promises := s.promises ++ [⟨process, now, fetchOrGenerateSalt errorType now, [], none⟩]
      calls := s.calls ++ [⟨process, now, promise⟩] }

inductive Step (errorType : Thrown → JsString) : SaltSystem → SaltSystem → Prop
  | call (s : SaltSystem) (process : Nat) (now : Int) : Step errorType s (s.call errorType process now)
  | command {s s' : SaltSystem} {i : Nat} {f : SaltPromise} {op : SaltOp}
      {k : op.Response → SaltFlow JsString} {r : op.Response} :
      s.promises[i]? = some f → f.prog = .call op k → Command s op r s' →
      Step errorType s
        { s' with promises := s.promises.set i (SaltPromise.after s f ⟨op, r⟩ (k r)) }
  | land {s : SaltSystem} {l : LateSet} : l ∈ s.late → Step errorType s (s.setNx l.key l.value)
  | expire (s : SaltSystem) (key : JsString) :
      Step errorType s { s with
        redis := Function.update s.redis key none
        generation := Function.update s.generation key (s.generation key + 1) }

def initial : SaltSystem where
  memo _ := .empty
  promises := []
  calls := []
  redis _ := none
  generation _ := 0
  late := []

/-- The states of the system's runs. Redis may hold salts already. -/
def Reachable (errorType : Thrown → JsString) (s : SaltSystem) : Prop :=
  ∃ redis, Relation.ReflTransGen (Step errorType) { initial with redis } s

end SaltSystem

end Posta
