import Posta.Interaction.Sequential
import Posta.Worker.JobTrace
import Posta.Worker.ObjectOrder
import Posta.Worker.ReplayRange

/-!
# The order in which the log is written

Batches are flushed one after another, under increasing root ids. A write that fails has taken
effect by then, or never does.

**Walk** (`Written`). The objects are first written in the order of the walk through batches and
sub-batches: a retry writes the object of its sub-batch again, and a half is written only after
the attempts of the whole.

**Theorem (`LogReached.written`).** So it is at every time of such a run.
-/

namespace Posta

open Js Interaction Interaction.Interp

/-- The log, and its keys in the order in which they were first written. -/
structure LogWorld where
  store : EventStore
  order : List JsString

namespace LogWorld

def empty : LogWorld := ⟨.empty, []⟩

def put (w : LogWorld) (key body : JsString) : LogWorld :=
  ⟨w.store.put key body, if w.order.contains key then w.order else w.order ++ [key]⟩

/-- An operation is answered. A write that fails may have taken effect. -/
def exec : (op : WorkerOp) → LogWorld → op.Response → LogWorld → Prop
  | .putObject key body, w, .ok _, w' => w' = w.put key body
  | .putObject key body, w, .error _, w' => w' = w ∨ w' = w.put key body
  | _, w, _, w' => w' = w

/-- The objects written so far, in the order of the walk, all of a kind. -/
def Written (R : LogObject → Prop) (w : LogWorld) : Prop :=
  ∃ objects : List LogObject, w.order = objects.map LogObject.key ∧
    objects.Pairwise LogObject.Precedes ∧ ∀ o ∈ objects, R o

/-- The keys are those of the log, each once. -/
structure Recorded (w : LogWorld) : Prop where
  nodup : w.order.Nodup
  mem : ∀ k, k ∈ w.order ↔ k ∈ w.store.entries.map Prod.fst

variable {w w' : LogWorld} {R R' : LogObject → Prop}

theorem Written.mono (h : w.Written R) (hR : ∀ o, R o → R' o) : w.Written R' := by
  obtain ⟨objects, horder, hwalk, hobjects⟩ := h
  exact ⟨objects, horder, hwalk, fun o ho => hR o (hobjects o ho)⟩

theorem written_empty : empty.Written R := ⟨[], rfl, .nil, by simp⟩

theorem mem_order_put {key body k : JsString} :
    k ∈ (w.put key body).order ↔ k ∈ w.order ∨ k = key := by
  rw [put]
  dsimp only
  split_ifs with h
  · have hk : key ∈ w.order := by simpa using h
    exact ⟨Or.inl, fun h => h.elim id fun h => h ▸ hk⟩
  · simp

theorem recorded_empty : empty.Recorded :=
  ⟨List.nodup_nil, by simp [empty, Store.SortedStore.empty]⟩

theorem Recorded.put (h : w.Recorded) (key body : JsString) : (w.put key body).Recorded := by
  refine ⟨?_, fun k => ?_⟩
  · rw [LogWorld.put]
    dsimp only
    split_ifs with hk
    · exact h.nodup
    · have hk : key ∉ w.order := by simpa using hk
      refine List.nodup_append.mpr ⟨h.nodup, List.nodup_singleton _, ?_⟩
      intro a ha b hb heq
      rw [List.mem_singleton] at hb
      exact hk (hb ▸ heq ▸ ha)
  · rw [mem_order_put, h.mem, LogWorld.put]
    simp only [List.mem_map, Store.SortedStore.mem_put]
    constructor
    · rintro (⟨e, he, rfl⟩ | rfl)
      · by_cases hk : e.1 = key
        · exact ⟨(key, body), Or.inl rfl, hk.symm⟩
        · exact ⟨e, Or.inr ⟨he, hk⟩, rfl⟩
      · exact ⟨(k, body), Or.inl rfl, rfl⟩
    · rintro ⟨e, rfl | ⟨he, -⟩, rfl⟩
      · exact Or.inr rfl
      · exact Or.inl ⟨e, he, rfl⟩

theorem Recorded.exec {op : WorkerOp} {r : op.Response} (h : exec op w r w') (hw : w.Recorded) :
    w'.Recorded := by
  cases op with
  | putObject key body =>
    cases r with
    | ok u =>
      obtain rfl : w' = w.put key body := h
      exact hw.put key body
    | error e =>
      obtain rfl | rfl : w' = w ∨ w' = w.put key body := h
      · exact hw
      · exact hw.put key body
  | _ =>
    obtain rfl : w' = w := h
    exact hw

/-- The object is that of the sub-batch that is attempted, or of one before it. -/
def Reached (x o : LogObject) : Prop := o.Precedes x ∨ o = x

/-- An attempt writes its object once in the walk. -/
theorem Written.put {x : LogObject} (h : w.Written (Reached x)) (body : JsString) :
    (w.put x.key body).Written (Reached x) := by
  obtain ⟨objects, horder, hwalk, hobjects⟩ := h
  by_cases hk : x.key ∈ w.order
  · refine ⟨objects, ?_, hwalk, hobjects⟩
    rw [LogWorld.put, if_pos (by simpa using hk), horder]
  · have hpre : ∀ o ∈ objects, o.Precedes x := fun o ho => by
      obtain hpre | rfl := hobjects o ho
      · exact hpre
      · exact absurd (horder ▸ List.mem_map.mpr ⟨o, ho, rfl⟩) hk
    refine ⟨objects ++ [x], ?_, ?_, fun o ho => ?_⟩
    · rw [LogWorld.put, if_neg (by simpa using hk), horder, List.map_append]
      rfl
    · refine List.pairwise_append.mpr ⟨hwalk, List.pairwise_singleton _ _, fun o ho y hy => ?_⟩
      exact (List.mem_singleton.mp hy) ▸ hpre o ho
    · obtain ho | ho := List.mem_append.mp ho
      · exact hobjects o ho
      · exact Or.inr (List.mem_singleton.mp ho)

end LogWorld

/-- The log as the world of a flush. In every world that an operation is performed in, the
objects were written in the order of the walk. -/
def logInterp : Interp WorkerOp WorkerOp.Response LogWorld where
  pre _ w := w.Written fun _ => True
  exec := LogWorld.exec

namespace LogWorld

/-- The operations of one sub-batch. -/
theorem Written.exec {events : List CaptureEvent} {batchId : JsString} {x : LogObject}
    (hx : ∀ first ∈ events.head?, x.key = eventKey batchId first.occurredAt.time)
    {op : WorkerOp} {r : op.Response} (hop : WritesBatch events batchId op)
    (h : LogWorld.exec op w r w') (hw : w.Written (Reached x)) : w'.Written (Reached x) := by
  cases op with
  | putObject key body =>
    obtain ⟨first, rest, rfl, hkey, -⟩ := hop
    have hkey : key = x.key := hkey.trans (hx first rfl).symm
    subst hkey
    cases r with
    | ok u =>
      obtain rfl : w' = w.put x.key body := h
      exact hw.put body
    | error e =>
      obtain rfl | rfl : w' = w ∨ w' = w.put x.key body := h
      · exact hw
      · exact hw.put body
  | _ =>
    obtain rfl : w' = w := h
    exact hw

/-- What writes no object. -/
theorem Written.keeps {α : Type} {x : WorkerFlow α} {batchId : JsString} (hw : w.Written R)
    (hx : Prog.Performs (WritesBatch [] batchId) x) :
    logInterp.Ensures (fun _ v => v.Written R) (fun _ v => v.Written R) x w := by
  refine ensures_of_performs hx (fun _ v _ hv => hv.mono fun _ _ => trivial) ?_ hw
  intro op v r v' hop hexec hv
  cases op with
  | putObject key body =>
    obtain ⟨first, rest, hnil, -⟩ := hop
    cases hnil
  | _ =>
    obtain rfl : v' = v := hexec
    exact hv

end LogWorld

/-! ## The walk -/

namespace LogObject

/-- The object comes before the node and everything below it. -/
def Ahead (u : Ulid) (node : Node) (o : LogObject) : Prop :=
  o.root.1 < u.1 ∨ (o.root = u ∧ o.node < node)

/-- The object comes before what follows the node and everything below it. -/
def Passed (u : Ulid) (node : Node) (o : LogObject) : Prop :=
  Ahead u node o ∨ (o.root = u ∧ node <+: o.node)

variable {u : Ulid} {node : Node} {time : Int} {o : LogObject}

theorem ahead_left (h : LogWorld.Reached ⟨u, node, time⟩ o) : Ahead u (node ++ [false]) o := by
  have hchild : node < node ++ [false] := Lists.lt_append_of_ne_nil node (by simp)
  obtain (h | ⟨hroot, h⟩) | rfl := h
  · exact Or.inl h
  · exact Or.inr ⟨hroot, h.trans hchild⟩
  · exact Or.inr ⟨rfl, hchild⟩

theorem ahead_right (h : Passed u (node ++ [false]) o) : Ahead u (node ++ [true]) o := by
  obtain (h | ⟨hroot, h⟩) | ⟨hroot, h⟩ := h
  · exact Or.inl h
  · exact Or.inr ⟨hroot, h.trans (Lists.left_lt_right (List.prefix_refl _))⟩
  · exact Or.inr ⟨hroot, Lists.left_lt_right h⟩

theorem passed_of_reached (h : LogWorld.Reached ⟨u, node, time⟩ o) : Passed u node o := by
  obtain h | rfl := h
  · exact Or.inl h
  · exact Or.inr ⟨rfl, List.prefix_refl _⟩

/-- What follows a half follows the whole, as far as the whole's other objects go. -/
theorem passed_of_half {b : Bool} (h : Passed u (node ++ [b]) o) : Passed u node o := by
  obtain (h | ⟨hroot, h⟩) | ⟨hroot, h⟩ := h
  · exact Or.inl (Or.inl h)
  · obtain h | h := Lists.lt_or_prefix_of_lt_append h
    · exact Or.inl (Or.inr ⟨hroot, h⟩)
    · exact Or.inr ⟨hroot, h⟩
  · exact Or.inr ⟨hroot, (List.prefix_append node [b]).trans h⟩

end LogObject

open LogObject LogWorld

variable {P : Platform} {service : DlqService} {w w' : LogWorld} {u : Ulid}

theorem performs_flushBatch (events : List CaptureEvent) (batchId : JsString) :
    Prog.Performs (WritesBatch events batchId)
      (flushBatch P { dlqSink := service.send P } events batchId) :=
  Prog.Performs.of_watching completes_flushBatch

theorem performs_dlqSend (batchId : JsString) (reason : DlqReason) (payload : Json)
    (error : Thrown) (sendMeta : DlqSendMeta) :
    Prog.Performs (WritesBatch [] batchId) (service.send P reason payload error sendMeta) := by
  have h : (Env.watching (WritesBatch [] batchId)).Completes
      (service.send P reason payload error sendMeta) () := completes_send P service _ _ _ _
  exact Prog.Performs.of_watching h

/-- All attempts of one sub-batch write one object. -/
theorem ensures_attempts (node : Node) {events : List CaptureEvent} {first : CaptureEvent}
    (hfirst : first ∈ events.head?) (m delay k : Nat) (e : Thrown)
    (hw : w.Written (Ahead u node)) :
    logInterp.Ensures (fun _ v => v.Written (Reached ⟨u, node, first.occurredAt.time⟩))
      (fun _ v => v.Written (Reached ⟨u, node, first.occurredAt.time⟩))
      (flushAttempts (flushBatch P { dlqSink := service.send P } events (nodeId u.1 node)) sleep
        m delay k e) w := by
  have hflush : Prog.Performs (WritesBatch events (nodeId u.1 node))
      (flushBatch P { dlqSink := service.send P } events (nodeId u.1 node)) :=
    performs_flushBatch events (nodeId u.1 node)
  have hsleep : ∀ ms, Prog.Performs (WritesBatch events (nodeId u.1 node)) (sleep ms) :=
    fun ms => ⟨trivial, fun _ => trivial⟩
  have hperforms := performs_flushAttempts hflush hsleep m delay k e
  refine ensures_of_performs hperforms (fun _ v _ hv => hv.mono fun _ _ => trivial) ?_
    (hw.mono fun o ho => Or.inl ho)
  intro op v r v' hop hexec hv
  refine hv.exec (fun first' hfirst' => ?_) hop hexec
  rw [Option.mem_unique hfirst' hfirst]
  rfl

theorem ensures_logged {R : LogObject → Prop} (hw : w.Written R) (message : JsString)
    (logMeta : LogMeta) :
    logInterp.Ensures (fun _ v => v.Written R) (fun _ v => v.Written R)
      (logError message logMeta) w :=
  have hlog : Prog.Performs (WritesBatch [] []) (logError message logMeta) :=
    ⟨trivial, fun _ => trivial⟩
  hw.keeps hlog

/-- **One sub-batch**: its object, then those of its left half, then those of its right half. -/
theorem ensures_attemptBatch_walk (m delay : Nat) (node : Node) {events : List CaptureEvent}
    (hne : events ≠ []) {batchId : JsString} (hid : batchId = nodeId u.1 node)
    (hw : w.Written (Ahead u node)) :
    logInterp.Ensures (fun _ v => v.Written (Passed u node)) (fun _ v => v.Written (Passed u node))
      (attemptBatch (splitRetryEnv P { dlqSink := service.send P }) m delay node events hne batchId)
      w := by
  induction hn : events.length using Nat.strong_induction_on
    generalizing node events batchId w with
  | _ n ih =>
    obtain ⟨first, rest, rfl⟩ := List.exists_cons_of_ne_nil hne
    subst hid
    rw [attemptBatch]
    have hattempts : logInterp.Ensures
        (fun _ v => v.Written (Reached ⟨u, node, first.occurredAt.time⟩))
        (fun _ v => v.Written (Reached ⟨u, node, first.occurredAt.time⟩))
        (flushAttempts
          (flushBatch P { dlqSink := service.send P } (first :: rest) (nodeId u.1 node)) sleep m delay
          m noError) w := ensures_attempts node rfl m delay m noError hw
    have hpassed : ∀ v : LogWorld, v.Written (Reached ⟨u, node, first.occurredAt.time⟩) →
        v.Written (Passed u node) := fun v hv => hv.mono fun o => passed_of_reached
    refine ensures_seq (Ensures.mono hattempts (fun _ _ h => h) fun _ v hv => hpassed v hv)
      fun r v hv => ?_
    cases r with
    | none => exact ensures_pure (hpassed v hv)
    | some lastError =>
      show logInterp.Ensures _ _ (ite _ _ _) v
      split_ifs with hclass hone
      · exact ensures_seq (ensures_logged (hpassed v hv) _ _) fun _ v' hv' => ensures_throw hv'
      · exact ensures_seq (ensures_logged (hpassed v hv) _ _) fun _ v' hv' => ensures_pure hv'
      · have hsize : 1 < (first :: rest).length := by
          have hpos : 0 < (first :: rest).length := List.length_pos_iff.mpr hne
          omega
        have hlog := ensures_logged hv
          (splittingMessage (first :: rest).length m lastError.errorMessage)
          [(lit "batchSize", natJson (first :: rest).length), (lit "attempts", natJson m)]
        refine ensures_seq (Ensures.mono hlog (fun _ _ h => h) fun _ v hv => hpassed v hv)
          fun _ v₁ hv₁ => ?_
        have hleft : v₁.Written (Ahead u (node ++ [false])) := hv₁.mono fun o => ahead_left
        refine ensures_seq (Ensures.mono (ih _ ?_ (node ++ [false]) _ ?_ hleft rfl)
          (fun _ _ h => h) fun _ v₂ hv₂ => hv₂.mono fun o => passed_of_half) fun left v₂ hv₂ => ?_
        · simp only [List.length_take, midpoint]
          omega
        · rw [nodeId_append]
          rfl
        have hright : v₂.Written (Ahead u (node ++ [true])) := hv₂.mono fun o => ahead_right
        refine ensures_seq (Ensures.mono (ih _ ?_ (node ++ [true]) _ ?_ hright rfl)
          (fun _ _ h => h) fun _ v₃ hv₃ => hv₃.mono fun o => passed_of_half) fun right v₃ hv₃ => ?_
        · simp only [List.length_drop, midpoint]
          omega
        · rw [nodeId_append]
          rfl
        exact ensures_pure (hv₃.mono fun o => passed_of_half)

/-- **One batch** comes after those with smaller roots. -/
theorem ensures_productionFlush_walk (events : List CaptureEvent)
    (hw : w.Written fun o => o.root.1 < u.1) :
    logInterp.Ensures (fun _ v => v.Written (Passed u [])) (fun _ v => v.Written (Passed u []))
      (productionFlush P service events u.1) w := by
  have hahead : w.Written (Ahead u []) := hw.mono fun o ho => Or.inl ho
  have hpassed : w.Written (Passed u []) := hahead.mono fun o ho => Or.inl ho
  rw [productionFlush, flushWithSplitRetryAndPoisonDlq]
  have hretry : logInterp.Ensures (fun _ v => v.Written (Passed u []))
      (fun _ v => v.Written (Passed u []))
      (retryWithSplit (splitRetryEnv P { dlqSink := service.send P }) events
        ⟨splitRetryMaxAttemptsPerBatch, splitRetryInitialDelayMs, some u.1⟩) w := by
    by_cases hne : events = []
    · rw [hne]
      exact ensures_pure hpassed
    · rw [retryWithSplit_root hne]
      exact ensures_attemptBatch_walk 3 150 [] hne (List.append_nil _).symm hahead
  refine ensures_seq hretry fun result v hv => ?_
  have hsends : Prog.Performs (WritesBatch [] []) (sendPoisonEventsToDlq (service.send P)
      result.poisonEvents
      { originalJobId := u.1, attemptsMade := splitRetryMaxAttemptsPerBatch }) :=
    performs_sendPoisonEventsToDlq (performs_dlqSend []) _ _
  exact hv.keeps hsends

/-! ## Runs -/

/-- Batches that were flushed to the end, one after another, under increasing root ids. -/
inductive Flushed (P : Platform) (service : DlqService) : List Ulid → LogWorld → Prop
  | start : Flushed P service [] LogWorld.empty
  | flush {roots : List Ulid} {w w' : LogWorld} {u : Ulid} {events : List CaptureEvent}
      {h : List WorkerEvent} {outcome : Except Thrown Unit} (hbefore : Flushed P service roots w)
      (hroots : ∀ v ∈ roots, v.1 < u.1)
      (hrun : logInterp.Execs (productionFlush P service events u.1) w h (.done outcome) w') :
      Flushed P service (roots ++ [u]) w'

/-- The log at any time of such a run: the last flush need not have finished. -/
def LogReached (P : Platform) (service : DlqService) (w' : LogWorld) : Prop :=
  ∃ (roots : List Ulid) (w : LogWorld) (u : Ulid) (events : List CaptureEvent)
    (h : List WorkerEvent) (q : WorkerFlow Unit), Flushed P service roots w ∧
      (∀ v ∈ roots, v.1 < u.1) ∧ logInterp.Execs (productionFlush P service events u.1) w h q w'

theorem written_of_flushed {roots : List Ulid} (h : Flushed P service roots w) :
    ∀ u : Ulid, (∀ v ∈ roots, v.1 < u.1) → w.Written fun o => o.root.1 < u.1 := by
  induction h with
  | start => exact fun _ _ => written_empty
  | @flush roots w w' u events h outcome _ hroots hrun ih =>
    intro u' hu'
    have hdone := hrun.wp (ensures_productionFlush_walk events (ih u hroots))
    have hwritten : w'.Written (Passed u []) := by
      cases outcome with
      | ok a => exact hdone
      | error e => exact hdone
    have hlt : u.1 < u'.1 := hu' u (by simp)
    refine hwritten.mono fun o ho => ?_
    obtain (ho | ⟨rfl, -⟩) | ⟨rfl, -⟩ := ho
    · exact ho.trans hlt
    · exact hlt
    · exact hlt

/-- **Theorem.** The objects are first written in the order of the walk. -/
theorem LogReached.written (h : LogReached P service w) : w.Written fun _ => True := by
  obtain ⟨roots, w₀, u, events, hist, q, hflushed, hroots, hrun⟩ := h
  have hwp : logInterp.Ensures (fun _ v => v.Written (Passed u []))
      (fun _ v => v.Written (Passed u [])) (productionFlush P service events u.1) w₀ :=
    ensures_productionFlush_walk events (written_of_flushed hflushed u hroots)
  refine hrun.invariant hwp (fun _ _ hpre => hpre) fun outcome v hv => ?_
  cases outcome with
  | ok a => exact LogWorld.Written.mono hv fun _ _ => trivial
  | error e => exact LogWorld.Written.mono hv fun _ _ => trivial

theorem recorded_of_flushed {roots : List Ulid} (h : Flushed P service roots w) : w.Recorded := by
  induction h with
  | start => exact recorded_empty
  | flush _ _ hrun ih => exact hrun.keeps (fun _ _ _ _ he hw => hw.exec he) ih

theorem LogReached.recorded (h : LogReached P service w) : w.Recorded := by
  obtain ⟨roots, w₀, u, events, hist, q, hflushed, hroots, hrun⟩ := h
  exact hrun.keeps (fun _ _ _ _ he hw => hw.exec he) (recorded_of_flushed hflushed)

end Posta
