import Posta.Lists.Interleaved
import Posta.Worker.SplitRetry

/-!
# What the bisection does

The flush function is arbitrary here: a call of it is an operation whose outcome the
environment chooses, from everything that happened before.

**The abstract run** (`BatchRun`). One sub-batch has one of six courses: a flush succeeds after
some failures; all attempts fail, and the last failure rejects the call, or isolates the single
event, or splits the batch, whose halves then run their own courses in order.

**Theorem (`batchRun_of_runs`).** Every finished run of `attemptBatch` is an abstract run over
the flush calls it made, and an unfinished one can be finished. What is true of abstract runs is
then shown by induction over them: where the calls come from (`BatchRun.node_of_mem`), that the
result partitions the input (`BatchRun.partition`), and that no call follows a failure of the
infrastructure (`BatchRun.infrastructure_last`).
-/

namespace Posta

open Js Interaction

/-- The operations of the bisection. -/
inductive SplitOp where
  | flush (node : Node) (events : List CaptureEvent) (batchId : JsString)
  | sleep (ms : Nat)
  | log (message : JsString) (logMeta : LogMeta)
  | newId
  | dlqSend (reason : DlqReason) (payload : Json) (error : Thrown) (sendMeta : DlqSendMeta)

def SplitOp.Response : SplitOp → Type
  | .flush .. => Except Thrown Unit
  | .sleep _ => Unit
  | .log .. => Unit
  | .newId => JsString
  | .dlqSend .. => Except Thrown Unit

/-- An arbitrary flush function, the real timer and the console logger. -/
def splitEnv : SplitRetryEnv SplitOp SplitOp.Response where
  flushBatch node events batchId := .call (.flush node events batchId) .done
  sleep ms := Flow.perform (SplitOp.sleep ms)
  logError message logMeta := Flow.perform (SplitOp.log message logMeta)
  newId := Flow.perform SplitOp.newId
  classify := classifyFlushError

abbrev SplitEvent := Event SplitOp SplitOp.Response

/-- A flush call with its outcome. -/
structure FlushCall where
  node : Node
  events : List CaptureEvent
  batchId : JsString
  outcome : Except Thrown Unit

def flushCall : SplitEvent → Option FlushCall
  | ⟨.flush node events batchId, outcome⟩ => some ⟨node, events, batchId, outcome⟩
  | _ => none

/-- The flush calls of a history, in order. -/
def flushCalls (h : List SplitEvent) : List FlushCall := h.filterMap flushCall

@[simp] theorem flushCalls_nil : flushCalls [] = [] := rfl

@[simp] theorem flushCalls_append (h₁ h₂ : List SplitEvent) :
    flushCalls (h₁ ++ h₂) = flushCalls h₁ ++ flushCalls h₂ := List.filterMap_append

/-- Failed calls of one sub-batch. -/
def failures (node : Node) (events : List CaptureEvent) (batchId : JsString)
    (errors : List Thrown) : List FlushCall :=
  errors.map fun e => ⟨node, events, batchId, .error e⟩

/-! ## The abstract run -/

/-- The course of one sub-batch with `m` attempts: its flush calls and its result. -/
inductive BatchRun (m : Nat) : Node → List CaptureEvent → JsString → List FlushCall →
    Except Thrown SplitRetryResult → Prop
  | flushed {node events batchId} (errors : List Thrown) (hlen : errors.length < m) :
      BatchRun m node events batchId
        (failures node events batchId errors ++ [⟨node, events, batchId, .ok ()⟩])
        (.ok ⟨events, []⟩)
  | rejected {node events batchId} (errors : List Thrown) (last : Thrown)
      (hlen : (errors ++ [last]).length = m) (hclass : classifyFlushError last = .infrastructure) :
      BatchRun m node events batchId (failures node events batchId (errors ++ [last]))
        (.error last.toError)
  | isolated {node batchId} (event : CaptureEvent) (errors : List Thrown) (last : Thrown)
      (hlen : (errors ++ [last]).length = m) (hclass : classifyFlushError last = .rowFault) :
      BatchRun m node [event] batchId (failures node [event] batchId (errors ++ [last]))
        (.ok ⟨[], [⟨event, last.toError⟩]⟩)
  | leftRejected {node events batchId} (errors : List Thrown) (last : Thrown)
      (hlen : (errors ++ [last]).length = m) (hclass : classifyFlushError last = .rowFault)
      (hsize : 1 < events.length) {calls : List FlushCall} {error : Thrown}
      (left : BatchRun m (node ++ [false]) (events.take (midpoint events.length))
        (batchId ++ lit ".0") calls (.error error)) :
      BatchRun m node events batchId
        (failures node events batchId (errors ++ [last]) ++ calls) (.error error)
  | rightRejected {node events batchId} (errors : List Thrown) (last : Thrown)
      (hlen : (errors ++ [last]).length = m) (hclass : classifyFlushError last = .rowFault)
      (hsize : 1 < events.length) {calls calls' : List FlushCall} {result : SplitRetryResult}
      {error : Thrown}
      (left : BatchRun m (node ++ [false]) (events.take (midpoint events.length))
        (batchId ++ lit ".0") calls (.ok result))
      (right : BatchRun m (node ++ [true]) (events.drop (midpoint events.length))
        (batchId ++ lit ".1") calls' (.error error)) :
      BatchRun m node events batchId
        (failures node events batchId (errors ++ [last]) ++ (calls ++ calls')) (.error error)
  | split {node events batchId} (errors : List Thrown) (last : Thrown)
      (hlen : (errors ++ [last]).length = m) (hclass : classifyFlushError last = .rowFault)
      (hsize : 1 < events.length) {calls calls' : List FlushCall}
      {result result' : SplitRetryResult}
      (left : BatchRun m (node ++ [false]) (events.take (midpoint events.length))
        (batchId ++ lit ".0") calls (.ok result))
      (right : BatchRun m (node ++ [true]) (events.drop (midpoint events.length))
        (batchId ++ lit ".1") calls' (.ok result')) :
      BatchRun m node events batchId
        (failures node events batchId (errors ++ [last]) ++ (calls ++ calls'))
        (.ok ⟨result.committedEvents ++ result'.committedEvents,
          result.poisonEvents ++ result'.poisonEvents⟩)

/-! ## From programs to abstract runs -/

theorem flushAttempts_succ (node : Node) (events : List CaptureEvent) (batchId : JsString)
    (m delay k : Nat) (e : Thrown) :
    flushAttempts (splitEnv.flushBatch node events batchId) splitEnv.sleep m delay (k + 1) e =
      Prog.call (.flush node events batchId) fun r => match r with
        | .ok () => .done (.ok none)
        | .error error =>
          if m - k < m then
            Prog.call (.sleep (delay * 2 ^ (m - k - 1))) fun _ =>
              flushAttempts (splitEnv.flushBatch node events batchId) splitEnv.sleep m delay k error
          else
            flushAttempts (splitEnv.flushBatch node events batchId) splitEnv.sleep m delay k
              error := by
  rw [flushAttempts]
  show Prog.call (SplitOp.flush node events batchId) _ = _
  refine congrArg (Prog.call _) (funext fun r => ?_)
  cases r with
  | ok u => rfl
  | error error =>
    by_cases h : m - k < m
    · simp only [h, if_true]
      rfl
    · simp only [h, if_false]
      rfl

/-- A sleep, and then the rest. -/
theorem runs_sleep {ms : Nat} {α : Type} {k : Unit → Prog SplitOp SplitOp.Response α}
    {h : List SplitEvent} {a : α}
    (hr : Runs (Prog.call (SplitOp.sleep ms) k : Prog SplitOp SplitOp.Response α) h (.done a)) :
    ∃ h', flushCalls h = flushCalls h' ∧ Runs (k ()) h' (.done a) := by
  rcases hr.call_inv with ⟨-, hq⟩ | ⟨r, h', rfl, hr'⟩
  · cases hq
  · exact ⟨h', rfl, hr'⟩

/-- A log line, and then the rest. -/
theorem runs_log {message : JsString} {logMeta : LogMeta} {α : Type}
    {f : Unit → Flow SplitOp SplitOp.Response Thrown α}
    {h : List SplitEvent} {a : Except Thrown α}
    (hr : Runs (splitEnv.logError message logMeta >>= f : Flow SplitOp SplitOp.Response Thrown α) h
      (.done a)) :
    ∃ h', flushCalls h = flushCalls h' ∧ Runs (f ()) h' (.done a) := by
  rcases hr.call_inv with ⟨-, hq⟩ | ⟨r, h', rfl, hr'⟩
  · cases hq
  · exact ⟨h', rfl, hr'⟩

/-- **The attempts of one sub-batch**: failures and then a success, or `k` failures. -/
theorem runs_flushAttempts {node : Node} {events : List CaptureEvent} {batchId : JsString}
    {m delay : Nat} (k : Nat) (e : Thrown) {h : List SplitEvent}
    {r : Except Thrown (Option Thrown)}
    (hr : Runs (flushAttempts (splitEnv.flushBatch node events batchId) splitEnv.sleep m delay k e)
      h (.done r)) :
    (∃ errors : List Thrown, errors.length < k ∧ r = .ok none ∧
      flushCalls h = failures node events batchId errors ++ [⟨node, events, batchId, .ok ()⟩]) ∨
    (∃ errors : List Thrown, errors.length = k ∧ r = .ok (some (errors.getLastD e)) ∧
      flushCalls h = failures node events batchId errors) := by
  induction k generalizing e h with
  | zero =>
    obtain ⟨rfl, hq⟩ := Runs.done_inv hr
    exact Or.inr ⟨[], rfl, by injection hq, rfl⟩
  | succ k ih =>
    rw [flushAttempts_succ] at hr
    rcases hr.call_inv with ⟨-, hq⟩ | ⟨outcome, h', rfl, hr'⟩
    · cases hq
    · cases outcome with
      | ok u =>
        obtain ⟨rfl, hq⟩ := Runs.done_inv hr'
        exact Or.inl ⟨[], by simp, by injection hq, rfl⟩
      | error error =>
        have hrest : ∃ h'', flushCalls h' = flushCalls h'' ∧
            Runs (flushAttempts (splitEnv.flushBatch node events batchId) splitEnv.sleep m delay k
              error) h'' (.done r) := by
          by_cases hlt : m - k < m
          · simp only [if_pos hlt] at hr'
            exact runs_sleep hr'
          · simp only [if_neg hlt] at hr'
            exact ⟨h', rfl, hr'⟩
        obtain ⟨h'', hcalls, hr''⟩ := hrest
        have hcons : flushCalls (⟨.flush node events batchId, .error error⟩ :: h') =
            ⟨node, events, batchId, .error error⟩ :: flushCalls h'' := by
          rw [← hcalls]
          rfl
        rcases ih error hr'' with ⟨errors, hlen, hr, hc⟩ | ⟨errors, hlen, hr, hc⟩
        · exact Or.inl ⟨error :: errors, by simp [hlen], hr, by rw [hcons, hc]; rfl⟩
        · refine Or.inr ⟨error :: errors, by simp [hlen], ?_, by rw [hcons, hc]; rfl⟩
          rw [hr, List.getLastD_cons]

theorem rowFault_of_ne {e : Thrown} (h : ¬splitEnv.classify e = .infrastructure) :
    classifyFlushError e = .rowFault := by
  change ¬classifyFlushError e = .infrastructure at h
  cases hc : classifyFlushError e with
  | rowFault => rfl
  | infrastructure => exact absurd hc h

/-- **Theorem (`batchRun_of_runs`).** A finished run of `attemptBatch` is an abstract run. -/
theorem batchRun_of_runs {m delay : Nat} (hm : 0 < m) {node : Node} {events : List CaptureEvent}
    (hne : events ≠ []) {batchId : JsString} {h : List SplitEvent}
    {r : Except Thrown SplitRetryResult}
    (hr : Runs (attemptBatch splitEnv m delay node events hne batchId) h (.done r)) :
    BatchRun m node events batchId (flushCalls h) r := by
  induction hn : events.length using Nat.strong_induction_on generalizing node events batchId h r with
  | _ n ih =>
    rw [attemptBatch, Flow.bind_eq] at hr
    obtain ⟨a, h₁, h₂, rfl, hattempts, hrest⟩ := hr.bind_done_inv
    rw [flushCalls_append]
    rcases runs_flushAttempts m noError hattempts with
      ⟨errors, hlen, rfl, hc⟩ | ⟨errors, hlen, rfl, hc⟩
    · obtain ⟨rfl, rfl⟩ := Runs.done_eq hrest
      rw [hc, flushCalls_nil, List.append_nil]
      exact .flushed errors hlen
    · obtain ⟨errors, last, rfl⟩ : ∃ es l, errors = es ++ [l] :=
        ⟨errors.dropLast, errors.getLast (List.ne_nil_of_length_pos (by omega)),
          (List.dropLast_concat_getLast _).symm⟩
      rw [List.getLastD_concat] at hrest
      rw [hc]
      change Runs (ite _ _ _) h₂ (.done r) at hrest
      split_ifs at hrest with hclass hone
      · obtain ⟨h', hc', hq⟩ := runs_log hrest
        obtain ⟨rfl, rfl⟩ := Runs.done_eq hq
        rw [hc', flushCalls_nil, List.append_nil]
        exact .rejected errors last hlen hclass
      · obtain ⟨event, rfl⟩ := List.length_eq_one_iff.mp hone
        obtain ⟨h', hc', hq⟩ := runs_log hrest
        obtain ⟨rfl, rfl⟩ := Runs.done_eq hq
        rw [hc', flushCalls_nil, List.append_nil]
        exact .isolated event errors last hlen (rowFault_of_ne hclass)
      · have hclass := rowFault_of_ne hclass
        have hsize : 1 < events.length := by
          have := List.length_pos_iff.mpr hne
          omega
        obtain ⟨h', hc', hq⟩ := runs_log hrest
        rw [hc']
        rw [Flow.bind_eq] at hq
        obtain ⟨left, h₃, h₄, rfl, hleft, hq⟩ := Runs.bind_done_inv hq
        have hleft := ih _ (by simp only [List.length_take, midpoint]; omega) _ hleft rfl
        rw [flushCalls_append]
        cases left with
        | error error =>
          obtain ⟨rfl, rfl⟩ := Runs.done_eq hq
          rw [flushCalls_nil, List.append_nil]
          exact .leftRejected errors last hlen hclass hsize hleft
        | ok left =>
          change Runs (_ >>= _ : Flow SplitOp SplitOp.Response Thrown SplitRetryResult) h₄ _ at hq
          rw [Flow.bind_eq] at hq
          obtain ⟨right, h₅, h₆, rfl, hright, hq⟩ := Runs.bind_done_inv hq
          have hright := ih _ (by simp only [List.length_drop, midpoint]; omega) _ hright rfl
          rw [flushCalls_append]
          cases right with
          | error error =>
            obtain ⟨rfl, rfl⟩ := Runs.done_eq hq
            rw [flushCalls_nil, List.append_nil]
            exact .rightRejected errors last hlen hclass hsize hleft hright
          | ok right =>
            obtain ⟨rfl, rfl⟩ := Runs.done_eq hq
            rw [flushCalls_nil, List.append_nil]
            exact .split errors last hlen hclass hsize hleft hright

instance (op : SplitOp) : Nonempty op.Response := by
  cases op with
  | flush => exact ⟨(.ok () : Except Thrown Unit)⟩
  | sleep => exact ⟨()⟩
  | log => exact ⟨()⟩
  | newId => exact ⟨([] : JsString)⟩
  | dlqSend => exact ⟨(.ok () : Except Thrown Unit)⟩

/-! ## Nodes -/

/-- The events of a node below a batch. -/
def nodeEvents : List CaptureEvent → Node → List CaptureEvent
  | events, [] => events
  | events, false :: node => nodeEvents (events.take (midpoint events.length)) node
  | events, true :: node => nodeEvents (events.drop (midpoint events.length)) node

/-- What a node appends to the id of its batch. -/
def nodeSuffix : Node → JsString
  | [] => []
  | false :: node => lit ".0" ++ nodeSuffix node
  | true :: node => lit ".1" ++ nodeSuffix node

/-- The batch id of a node. -/
def nodeId (batchId : JsString) (node : Node) : JsString := batchId ++ nodeSuffix node

theorem nodeId_false (batchId : JsString) (node : Node) :
    nodeId batchId (false :: node) = nodeId (batchId ++ lit ".0") node := by
  rw [nodeId, nodeId, nodeSuffix, List.append_assoc]

theorem nodeId_true (batchId : JsString) (node : Node) :
    nodeId batchId (true :: node) = nodeId (batchId ++ lit ".1") node := by
  rw [nodeId, nodeId, nodeSuffix, List.append_assoc]

/-- The half of a batch that a step to a child takes. -/
def half (events : List CaptureEvent) : Bool → List CaptureEvent
  | false => events.take (midpoint events.length)
  | true => events.drop (midpoint events.length)

theorem nodeEvents_append (events : List CaptureEvent) (node : Node) (b : Bool) :
    nodeEvents events (node ++ [b]) = half (nodeEvents events node) b := by
  induction node generalizing events with
  | nil => cases b <;> rfl
  | cons c node ih => cases c <;> exact ih _

theorem nodeSuffix_append (node node' : Node) :
    nodeSuffix (node ++ node') = nodeSuffix node ++ nodeSuffix node' := by
  induction node with
  | nil => rfl
  | cons c node ih => cases c <;> simp only [List.cons_append, nodeSuffix, ih, List.append_assoc]

theorem nodeId_append (batchId : JsString) (node node' : Node) :
    nodeId batchId (node ++ node') = nodeId (nodeId batchId node) node' := by
  rw [nodeId, nodeSuffix_append, ← List.append_assoc]
  rfl

theorem ne_nodeId_cons (batchId : JsString) (b : Bool) (node : Node) :
    batchId ≠ nodeId batchId (b :: node) := by
  intro h
  have := congrArg List.length h
  cases b <;> simp [nodeId, nodeSuffix, lit] at this

/-- The call is one of a node below `node`, with that node's events and id. -/
structure FlushCall.Below (c : FlushCall) (node : Node) (events : List CaptureEvent)
    (batchId : JsString) (path : Node) : Prop where
  node_eq : c.node = node ++ path
  events_eq : c.events = nodeEvents events path
  batchId_eq : c.batchId = nodeId batchId path
  events_ne : c.events ≠ []

namespace BatchRun

variable {m : Nat} {node : Node} {events : List CaptureEvent} {batchId : JsString}
  {calls : List FlushCall} {r : Except Thrown SplitRetryResult}

theorem take_ne_nil (h : 1 < events.length) : events.take (midpoint events.length) ≠ [] := by
  intro ht
  have := congrArg List.length ht
  simp only [List.length_take, midpoint, List.length_nil] at this
  omega

theorem drop_ne_nil (h : 1 < events.length) : events.drop (midpoint events.length) ≠ [] := by
  intro ht
  have := congrArg List.length ht
  simp only [List.length_drop, midpoint, List.length_nil] at this
  omega

theorem below_failures {errors : List Thrown} {c : FlushCall} (hne : events ≠ [])
    (h : c ∈ failures node events batchId errors) : c.Below node events batchId [] := by
  obtain ⟨e, -, rfl⟩ := List.mem_map.mp h
  exact ⟨(List.append_nil _).symm, rfl, (List.append_nil _).symm, hne⟩

theorem below_left {c : FlushCall} {path : Node}
    (h : c.Below (node ++ [false]) (events.take (midpoint events.length)) (batchId ++ lit ".0")
      path) : c.Below node events batchId (false :: path) :=
  ⟨by rw [h.node_eq, List.append_assoc, List.singleton_append], h.events_eq,
    by rw [h.batchId_eq, nodeId_false], h.events_ne⟩

theorem below_right {c : FlushCall} {path : Node}
    (h : c.Below (node ++ [true]) (events.drop (midpoint events.length)) (batchId ++ lit ".1")
      path) : c.Below node events batchId (true :: path) :=
  ⟨by rw [h.node_eq, List.append_assoc, List.singleton_append], h.events_eq,
    by rw [h.batchId_eq, nodeId_true], h.events_ne⟩

/-- The calls of a batch that was split, where those of its halves come from. -/
theorem below_halves {errors : List Thrown} {calls calls' : List FlushCall} {c : FlushCall}
    (hne : events ≠ [])
    (hleft : c ∈ calls → ∃ path, c.Below (node ++ [false])
      (events.take (midpoint events.length)) (batchId ++ lit ".0") path)
    (hright : c ∈ calls' → ∃ path, c.Below (node ++ [true])
      (events.drop (midpoint events.length)) (batchId ++ lit ".1") path)
    (hc : c ∈ failures node events batchId errors ++ (calls ++ calls')) :
    ∃ path, c.Below node events batchId path := by
  rcases List.mem_append.mp hc with hc | hc
  · exact ⟨[], below_failures hne hc⟩
  · rcases List.mem_append.mp hc with hc | hc
    · obtain ⟨path, hp⟩ := hleft hc
      exact ⟨_, below_left hp⟩
    · obtain ⟨path, hp⟩ := hright hc
      exact ⟨_, below_right hp⟩

/-- **Where the calls come from.** -/
theorem below_of_mem (h : BatchRun m node events batchId calls r) (hne : events ≠ [])
    {c : FlushCall} (hc : c ∈ calls) : ∃ path, c.Below node events batchId path := by
  induction h with
  | flushed errors hlen =>
    rcases List.mem_append.mp hc with hc | hc
    · exact ⟨[], below_failures hne hc⟩
    · rw [List.mem_singleton.mp hc]
      exact ⟨[], (List.append_nil _).symm, rfl, (List.append_nil _).symm, hne⟩
  | rejected errors last hlen hclass => exact ⟨[], below_failures hne hc⟩
  | isolated event errors last hlen hclass => exact ⟨[], below_failures hne hc⟩
  | leftRejected errors last hlen hclass hsize left ihl =>
    rcases List.mem_append.mp hc with hc | hc
    · exact ⟨[], below_failures hne hc⟩
    · obtain ⟨path, hp⟩ := ihl (take_ne_nil hsize) hc
      exact ⟨_, below_left hp⟩
  | rightRejected errors last hlen hclass hsize left right ihl ihr =>
    exact below_halves hne (ihl (take_ne_nil hsize)) (ihr (drop_ne_nil hsize)) hc
  | split errors last hlen hclass hsize left right ihl ihr =>
    exact below_halves hne (ihl (take_ne_nil hsize)) (ihr (drop_ne_nil hsize)) hc

/-! ## Ids and nodes tell sub-batches apart -/

theorem batchId_prefix_left (h : BatchRun m (node ++ [false]) (events.take (midpoint events.length))
    (batchId ++ lit ".0") calls r) (hsize : 1 < events.length) {c : FlushCall} (hc : c ∈ calls) :
    batchId ++ lit ".0" <+: c.batchId := by
  obtain ⟨path, hp⟩ := h.below_of_mem (take_ne_nil hsize) hc
  rw [hp.batchId_eq]
  exact List.prefix_append _ _

theorem batchId_prefix_right (h : BatchRun m (node ++ [true]) (events.drop (midpoint events.length))
    (batchId ++ lit ".1") calls r) (hsize : 1 < events.length) {c : FlushCall} (hc : c ∈ calls) :
    batchId ++ lit ".1" <+: c.batchId := by
  obtain ⟨path, hp⟩ := h.below_of_mem (drop_ne_nil hsize) hc
  rw [hp.batchId_eq]
  exact List.prefix_append _ _

theorem node_prefix_left (h : BatchRun m (node ++ [false]) (events.take (midpoint events.length))
    (batchId ++ lit ".0") calls r) (hsize : 1 < events.length) {c : FlushCall} (hc : c ∈ calls) :
    node ++ [false] <+: c.node := by
  obtain ⟨path, hp⟩ := h.below_of_mem (take_ne_nil hsize) hc
  rw [hp.node_eq]
  exact List.prefix_append _ _

theorem node_prefix_right (h : BatchRun m (node ++ [true]) (events.drop (midpoint events.length))
    (batchId ++ lit ".1") calls r) (hsize : 1 < events.length) {c : FlushCall} (hc : c ∈ calls) :
    node ++ [true] <+: c.node := by
  obtain ⟨path, hp⟩ := h.below_of_mem (drop_ne_nil hsize) hc
  rw [hp.node_eq]
  exact List.prefix_append _ _

/-- The two halves of a batch have no id in common, and neither has the id of the batch. -/
theorem halves_disjoint {α : Type} {x : List α} {a b : List α} (hab : a ≠ b)
    (hlen : a.length = b.length) {y : List α} (ha : x ++ a <+: y) (hb : x ++ b <+: y) : False := by
  have h := List.prefix_of_prefix_length_le ha hb (by simp [hlen])
  exact hab (List.append_cancel_left (h.eq_of_length (by simp [hlen])))

theorem not_prefix_self {α : Type} {x a : List α} (ha : a ≠ []) : ¬x ++ a <+: x := by
  intro h
  have := h.length_le
  rw [List.length_append] at this
  have := List.length_pos_iff.mpr ha
  omega

/-! ## The result -/

/-- The events of the calls that succeeded, in call order. -/
def resolvedEvents (calls : List FlushCall) : List CaptureEvent :=
  calls.flatMap fun c => match c.outcome with
    | .ok () => c.events
    | .error _ => []

@[simp] theorem resolvedEvents_append (cs cs' : List FlushCall) :
    resolvedEvents (cs ++ cs') = resolvedEvents cs ++ resolvedEvents cs' := List.flatMap_append

@[simp] theorem resolvedEvents_failures (node : Node) (events : List CaptureEvent)
    (batchId : JsString) (errors : List Thrown) :
    resolvedEvents (failures node events batchId errors) = [] := by
  simp [resolvedEvents, failures, List.flatMap_map]

/-- **The result partitions the batch** into the committed events and the poisoned ones, each
in order. -/
theorem partition (h : BatchRun m node events batchId calls r) {result : SplitRetryResult}
    (hr : r = .ok result) : Lists.Interleaved result.committedEvents
      (result.poisonEvents.map PoisonedEvent.event) events := by
  induction h generalizing result with
  | flushed errors hlen =>
    cases hr
    exact .all_left _
  | rejected errors last hlen hclass => cases hr
  | isolated event errors last hlen hclass =>
    cases hr
    exact .all_right _
  | leftRejected errors last hlen hclass hsize left ihl => cases hr
  | rightRejected errors last hlen hclass hsize left right ihl ihr => cases hr
  | split errors last hlen hclass hsize left right ihl ihr =>
    cases hr
    have h := (ihl rfl).append (ihr rfl)
    rwa [List.take_append_drop, ← List.map_append] at h

/-- **The committed events are those of the calls that succeeded**, in call order. -/
theorem committedEvents_eq (h : BatchRun m node events batchId calls r) {result : SplitRetryResult}
    (hr : r = .ok result) : result.committedEvents = resolvedEvents calls := by
  induction h generalizing result with
  | flushed errors hlen =>
    cases hr
    rw [resolvedEvents_append, resolvedEvents_failures]
    simp [resolvedEvents]
  | rejected errors last hlen hclass => cases hr
  | isolated event errors last hlen hclass =>
    cases hr
    rw [resolvedEvents_failures]
  | leftRejected errors last hlen hclass hsize left ihl => cases hr
  | rightRejected errors last hlen hclass hsize left right ihl ihr => cases hr
  | split errors last hlen hclass hsize left right ihl ihr =>
    cases hr
    simp only [resolvedEvents_append, resolvedEvents_failures, List.nil_append, ihl rfl, ihr rfl]

/-- The singleton sub-batch of a poisoned event used all its attempts, and the last one failed
with the error that is reported, a fault of the row. -/
structure OwnSingleton (m : Nat) (calls : List FlushCall) (p : PoisonedEvent) (node : Node)
    (batchId : JsString) (errors : List Thrown) : Prop where
  attempts : (errors ++ [p.error]).length = m
  calls_eq : (calls.filter fun c => c.batchId = batchId) =
    failures node [p.event] batchId (errors ++ [p.error])
  rowFault : classifyFlushError p.error = .rowFault

theorem filter_eq_nil_of_prefix {x y : JsString} (hxy : ∀ z, x <+: z → ¬y <+: z)
    {cs : List FlushCall} (hcs : ∀ c ∈ cs, x <+: c.batchId) {batchId : JsString}
    (hy : y <+: batchId) : (cs.filter fun c => c.batchId = batchId) = [] := by
  rw [List.filter_eq_nil_iff]
  intro c hc
  have := hcs c hc
  simp only [decide_eq_true_eq]
  rintro rfl
  exact hxy _ this hy

theorem filter_failures_eq_nil {errors : List Thrown} {id : JsString} (h : batchId ≠ id) :
    ((failures node events batchId errors).filter fun c => c.batchId = id) = [] := by
  rw [List.filter_eq_nil_iff]
  intro c hc
  obtain ⟨e, -, rfl⟩ := List.mem_map.mp hc
  simpa using h

theorem filter_failures_self {errors : List Thrown} :
    ((failures node events batchId errors).filter fun c => c.batchId = batchId) =
      failures node events batchId errors := by
  rw [List.filter_eq_self]
  intro c hc
  obtain ⟨e, -, rfl⟩ := List.mem_map.mp hc
  simp

theorem lit_halves {x z : JsString} (ha : x ++ lit ".0" <+: z) : ¬x ++ lit ".1" <+: z := fun hb =>
  halves_disjoint (show lit ".0" ≠ lit ".1" by decide) rfl ha hb

theorem OwnSingleton.left {errors errors' : List Thrown} {calls' : List FlushCall}
    {r' : Except Thrown SplitRetryResult} {p : PoisonedEvent} {path : Node}
    (own : OwnSingleton m calls p (node ++ [false] ++ path) (nodeId (batchId ++ lit ".0") path)
      errors')
    (right : BatchRun m (node ++ [true]) (events.drop (midpoint events.length))
      (batchId ++ lit ".1") calls' r') (hsize : 1 < events.length) :
    OwnSingleton m (failures node events batchId errors ++ (calls ++ calls')) p
      (node ++ false :: path) (nodeId batchId (false :: path)) errors' := by
  have hid := nodeId_false batchId path
  have hpre : batchId ++ lit ".0" <+: nodeId batchId (false :: path) :=
    hid ▸ List.prefix_append _ _
  have hright := filter_eq_nil_of_prefix (fun z ha hb => lit_halves hb ha)
    (fun c hc => right.batchId_prefix_right hsize hc) hpre
  refine ⟨own.attempts, ?_, own.rowFault⟩
  rw [List.filter_append, List.filter_append,
    filter_failures_eq_nil (ne_nodeId_cons batchId false path), hright, List.nil_append,
    List.append_nil, hid, own.calls_eq, List.append_assoc]
  rfl

theorem OwnSingleton.right {errors errors' : List Thrown} {calls' : List FlushCall}
    {r' : Except Thrown SplitRetryResult} {p : PoisonedEvent} {path : Node}
    (own : OwnSingleton m calls' p (node ++ [true] ++ path) (nodeId (batchId ++ lit ".1") path)
      errors')
    (left : BatchRun m (node ++ [false]) (events.take (midpoint events.length))
      (batchId ++ lit ".0") calls r') (hsize : 1 < events.length) :
    OwnSingleton m (failures node events batchId errors ++ (calls ++ calls')) p
      (node ++ true :: path) (nodeId batchId (true :: path)) errors' := by
  have hid := nodeId_true batchId path
  have hpre : batchId ++ lit ".1" <+: nodeId batchId (true :: path) :=
    hid ▸ List.prefix_append _ _
  have hleft := filter_eq_nil_of_prefix (fun z ha hb => lit_halves ha hb)
    (fun c hc => left.batchId_prefix_left hsize hc) hpre
  refine ⟨own.attempts, ?_, own.rowFault⟩
  rw [List.filter_append, List.filter_append,
    filter_failures_eq_nil (ne_nodeId_cons batchId true path), hleft, List.nil_append,
    List.nil_append, hid, own.calls_eq, List.append_assoc]
  rfl

/-- **Poison only from an exhausted singleton.** The poisoned events come from different nodes,
each from its own. -/
theorem owners (h : BatchRun m node events batchId calls r) {result : SplitRetryResult}
    (hr : r = .ok result) :
    ∃ paths : List Node, paths.Nodup ∧
      List.Forall₂ (fun p path => ∃ errors,
        OwnSingleton m calls p (node ++ path) (nodeId batchId path) errors)
        result.poisonEvents paths := by
  induction h generalizing result with
  | flushed errors hlen =>
    cases hr
    exact ⟨[], List.nodup_nil, .nil⟩
  | rejected errors last hlen hclass => cases hr
  | isolated event errors last hlen hclass =>
    cases hr
    have hlast : last.toError = last := Thrown.toError_of_isError (isError_of_rowFault hclass)
    refine ⟨[[]], List.nodup_singleton _, .cons ⟨errors, ?_, ?_, ?_⟩ .nil⟩
    · rwa [hlast]
    · rw [hlast, nodeId, nodeSuffix, List.append_nil, List.append_nil, filter_failures_self]
    · rwa [hlast]
  | leftRejected errors last hlen hclass hsize left ihl => cases hr
  | rightRejected errors last hlen hclass hsize left right ihl ihr => cases hr
  | split errors last hlen hclass hsize left right ihl ihr =>
    cases hr
    obtain ⟨ls, hls, hl⟩ := ihl rfl
    obtain ⟨rs, hrs, hr⟩ := ihr rfl
    refine ⟨ls.map (List.cons false) ++ rs.map (List.cons true), ?_, List.rel_append ?_ ?_⟩
    · refine List.Nodup.append (hls.map (List.cons_injective)) (hrs.map (List.cons_injective)) ?_
      intro path hl hr
      obtain ⟨_, -, rfl⟩ := List.mem_map.mp hl
      obtain ⟨_, -, h⟩ := List.mem_map.mp hr
      cases h
    · exact List.forall₂_map_right_iff.mpr
        (hl.imp fun p path ⟨errors, own⟩ => ⟨errors, own.left right hsize⟩)
    · exact List.forall₂_map_right_iff.mpr
        (hr.imp fun p path ⟨errors, own⟩ => ⟨errors, own.right left hsize⟩)

theorem ownSingleton_of_mem (h : BatchRun m node events batchId calls r)
    {result : SplitRetryResult} (hr : r = .ok result) {p : PoisonedEvent}
    (hp : p ∈ result.poisonEvents) :
    ∃ path errors, OwnSingleton m calls p (node ++ path) (nodeId batchId path) errors := by
  obtain ⟨paths, -, hall⟩ := h.owners hr
  generalize result.poisonEvents = poisonEvents at hp hall
  induction hall with
  | nil => cases hp
  | cons hown _ ih =>
    rcases List.mem_cons.mp hp with rfl | hp
    · exact ⟨_, hown⟩
    · exact ih hp

/-- The calls of the node of `c`. -/
def sameNode (c : FlushCall) (cs : List FlushCall) : List FlushCall :=
  cs.filter fun d => d.node = c.node

/-- A place in a concatenation lies in one of its parts. -/
theorem split_append {α : Type} {as bs cs₁ cs₂ : List α} {c : α}
    (h : as ++ bs = cs₁ ++ c :: cs₂) :
    (∃ t, as = cs₁ ++ c :: t ∧ cs₂ = t ++ bs) ∨ ∃ t, cs₁ = as ++ t ∧ bs = t ++ c :: cs₂ := by
  rcases List.append_eq_append_iff.mp h with ⟨t, h₁, h₂⟩ | ⟨t, h₁, h₂⟩
  · exact Or.inr ⟨t, h₁, h₂⟩
  · cases t with
    | nil => exact Or.inr ⟨[], by simpa using h₁.symm, h₂.symm⟩
    | cons d t =>
      rw [List.cons_append, List.cons.injEq] at h₂
      obtain ⟨rfl, h₂⟩ := h₂
      exact Or.inl ⟨t, h₁, h₂⟩

theorem split_failures {errors : List Thrown} {cs₁ cs₂ : List FlushCall} {c : FlushCall}
    (h : failures node events batchId errors = cs₁ ++ c :: cs₂) :
    ∃ es₁ e es₂, errors = es₁ ++ e :: es₂ ∧ cs₁ = failures node events batchId es₁ ∧
      c = ⟨node, events, batchId, .error e⟩ := by
  obtain ⟨es₁, es', rfl, h₁, h₂⟩ := List.map_eq_append_iff.mp h
  obtain ⟨e, es₂, rfl, rfl, -⟩ := List.map_eq_cons_iff.mp h₂
  exact ⟨es₁, e, es₂, rfl, h₁.symm, rfl⟩

theorem sameNode_failures {errors : List Thrown} {c : FlushCall} (hc : c.node = node) :
    (sameNode c (failures node events batchId errors)).length = errors.length := by
  have hall : sameNode c (failures node events batchId errors) =
      failures node events batchId errors := by
    rw [sameNode, List.filter_eq_self]
    intro d hd
    obtain ⟨e, -, rfl⟩ := List.mem_map.mp hd
    simp [hc]
  rw [hall, failures, List.length_map]

theorem sameNode_eq_nil {cs : List FlushCall} {c : FlushCall} (h : ∀ d ∈ cs, d.node ≠ c.node) :
    sameNode c cs = [] := by
  rw [sameNode, List.filter_eq_nil_iff]
  exact fun d hd => by simpa using h d hd

theorem failures_ne_node {errors : List Thrown} {c d : FlushCall} {b : Bool}
    (hc : node ++ [b] <+: c.node) (hd : d ∈ failures node events batchId errors) :
    d.node ≠ c.node := by
  obtain ⟨e, -, rfl⟩ := List.mem_map.mp hd
  rintro h
  exact not_prefix_self (List.cons_ne_nil b []) (h ▸ hc)

theorem halves_ne_node {c d : FlushCall} (hd : node ++ [false] <+: d.node)
    (hc : node ++ [true] <+: c.node) : d.node ≠ c.node := fun h =>
  halves_disjoint (a := [false]) (b := [true]) (by decide) rfl (h ▸ hd) hc

theorem sameNode_skip {cs cs' : List FlushCall} {c : FlushCall} (h : ∀ d ∈ cs, d.node ≠ c.node) :
    sameNode c (cs ++ cs') = sameNode c cs' := by
  rw [sameNode, List.filter_append, ← sameNode, sameNode_eq_nil h, List.nil_append, ← sameNode]

/-- The last of exactly `m` attempts. -/
theorem last_of_attempts {errors : List Thrown} {last : Thrown}
    (hlen : (errors ++ [last]).length = m) {cs₁ cs₂ : List FlushCall} {c : FlushCall} {e : Thrown}
    (hcalls : failures node events batchId (errors ++ [last]) = cs₁ ++ c :: cs₂)
    (hc : c.outcome = .error e) (hlast : (sameNode c cs₁).length + 1 = m) :
    cs₂ = [] ∧ e = last := by
  obtain ⟨es₁, e', es₂, hes, rfl, rfl⟩ := split_failures hcalls
  rw [sameNode_failures rfl] at hlast
  cases hc
  have hlen' := congrArg List.length hes
  simp only [List.length_append, List.length_cons, List.length_nil] at hlen hlen'
  have hes₂ : es₂ = [] := List.eq_nil_of_length_eq_zero (by omega)
  subst hes₂
  refine ⟨?_, ?_⟩
  · have := congrArg List.length hcalls
    simp only [failures, List.length_append, List.length_cons, List.length_map,
      List.length_nil] at this
    exact List.eq_nil_of_length_eq_zero (by omega)
  · have := List.append_inj' hes rfl
    simpa using this.2.symm

/-- A call among those of the halves, after the attempts of the whole. What preceded it on its node
is in its half. -/
theorem split_halves {errors : List Thrown} {calls calls' t cs₂ : List FlushCall}
    {r r' : Except Thrown SplitRetryResult} {c : FlushCall} (hsize : 1 < events.length)
    (left : BatchRun m (node ++ [false]) (events.take (midpoint events.length))
      (batchId ++ lit ".0") calls r)
    (right : BatchRun m (node ++ [true]) (events.drop (midpoint events.length))
      (batchId ++ lit ".1") calls' r') (h : calls ++ calls' = t ++ c :: cs₂) :
    (∃ u, calls = t ++ c :: u ∧
      sameNode c (failures node events batchId errors ++ t) = sameNode c t) ∨
    ∃ u, calls' = u ++ c :: cs₂ ∧
      sameNode c (failures node events batchId errors ++ t) = sameNode c u := by
  rcases split_append h with ⟨u, hu, -⟩ | ⟨u, rfl, hu⟩
  · have hpre := left.node_prefix_left hsize (show c ∈ _ by rw [hu]; simp)
    exact Or.inl ⟨u, hu, sameNode_skip fun d hd => failures_ne_node hpre hd⟩
  · have hpre := right.node_prefix_right hsize (show c ∈ _ by rw [hu]; simp)
    refine Or.inr ⟨u, hu, ?_⟩
    rw [sameNode_skip fun d hd => failures_ne_node hpre hd,
      sameNode_skip fun d hd => halves_ne_node (left.node_prefix_left hsize hd) hpre]

/-- **Nothing follows an infrastructure failure.** The last attempt of a node ended the call,
with its own error, if that was a failure of the infrastructure. -/
theorem infrastructure_last (h : BatchRun m node events batchId calls r) {cs₁ cs₂ : List FlushCall}
    {c : FlushCall} {e : Thrown} (hcalls : calls = cs₁ ++ c :: cs₂) (hc : c.outcome = .error e)
    (hlast : (sameNode c cs₁).length + 1 = m) (hclass : classifyFlushError e = .infrastructure) :
    cs₂ = [] ∧ r = .error e.toError := by
  -- in the calls of a node that was split or isolated, the last attempt is a row fault
  have hrow : ∀ {node events batchId errors last cs₁ cs₂} {c : FlushCall},
      (errors ++ [last]).length = m → classifyFlushError last = .rowFault →
      failures node events batchId (errors ++ [last]) = cs₁ ++ c :: cs₂ →
      c.outcome = .error e → (sameNode c cs₁).length + 1 = m → False := by
    intro node events batchId errors last cs₁ cs₂ c hlen hrow hcalls hc hlast
    obtain ⟨-, rfl⟩ := last_of_attempts hlen hcalls hc hlast
    rw [hrow] at hclass
    cases hclass
  induction h generalizing cs₁ cs₂ with
  | flushed errors hlen =>
    rcases split_append hcalls with ⟨t, ht, -⟩ | ⟨t, -, ht⟩
    · obtain ⟨es₁, e', es₂, hes, rfl, rfl⟩ := split_failures ht
      rw [sameNode_failures rfl] at hlast
      have := congrArg List.length hes
      rw [List.length_append, List.length_cons] at this
      omega
    · cases t with
      | nil =>
        rw [List.nil_append, List.cons.injEq] at ht
        rw [← ht.1] at hc
        cases hc
      | cons d t =>
        rw [List.cons_append, List.cons.injEq] at ht
        simp at ht
  | rejected errors last hlen hclass' =>
    obtain ⟨h₁, rfl⟩ := last_of_attempts hlen hcalls hc hlast
    exact ⟨h₁, rfl⟩
  | isolated event errors last hlen hclass' => exact (hrow hlen hclass' hcalls hc hlast).elim
  | leftRejected errors last hlen hclass' hsize left ihl =>
    rcases split_append hcalls with ⟨t, ht, -⟩ | ⟨t, rfl, ht⟩
    · exact (hrow hlen hclass' ht hc hlast).elim
    · have hpre := left.node_prefix_left hsize (show c ∈ _ by rw [ht]; simp)
      rw [sameNode_skip fun d hd => failures_ne_node hpre hd] at hlast
      exact ihl ht hlast
  | rightRejected errors last hlen hclass' hsize left right ihl ihr =>
    rcases split_append hcalls with ⟨t, ht, -⟩ | ⟨t, rfl, ht⟩
    · exact (hrow hlen hclass' ht hc hlast).elim
    · rcases split_halves hsize left right ht with ⟨u, hu, hsame⟩ | ⟨u, hu, hsame⟩
      · rw [hsame] at hlast
        exact absurd (ihl hu hlast).2 (by simp)
      · rw [hsame] at hlast
        exact ihr hu hlast
  | split errors last hlen hclass' hsize left right ihl ihr =>
    rcases split_append hcalls with ⟨t, ht, -⟩ | ⟨t, rfl, ht⟩
    · exact (hrow hlen hclass' ht hc hlast).elim
    · rcases split_halves hsize left right ht with ⟨u, hu, hsame⟩ | ⟨u, hu, hsame⟩
      · rw [hsame] at hlast
        exact absurd (ihl hu hlast).2 (by simp)
      · rw [hsame] at hlast
        exact absurd (ihr hu hlast).2 (by simp)

end BatchRun

end Posta
