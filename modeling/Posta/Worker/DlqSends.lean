import Posta.Interaction.EventLoop
import Posta.Worker.DlqService

/-!
# Concurrent sends to the dead-letter queue

Any number of calls of `send` share one service and its `lastCleanAttemptAtMs`. A send awaits its
`add` and its cleanup; between two awaits nothing else runs. The cleanup and the logger answer as
they like, or the cleanup never does.

**Points** (`SendPoint`). Where a send may rest: at its `add`, at its cleanup, or settled.

**Theorem (`send_decided_by_add`).** In every state that some run reaches: a send has settled as
its `add` has, unless it awaits the cleanup or the logger threw; a cleanup is only started after
an `add` that resolved; and two cleanups start at least the throttle window apart.
-/

namespace Posta

open Js Interaction

/-- The operations that a program awaits. The others return at once. -/
def WorkerOp.awaited : WorkerOp → Bool
  | .resolveDestinationsByLinkIds _ => true
  | .putObject .. => true
  | .insertEvents _ => true
  | .addDlqEntry _ => true
  | .cleanDlq .. => true
  | .lastCleanAttemptAtMs => false
  | .setLastCleanAttemptAtMs _ => false
  | .countInFlightJob _ => false
  | .add _ => true
  | .now => false
  | .newId => false
  | .sleep _ => true
  | .logError .. => false

/-- What the sends share: the field of the service, the last reading of the clock, and the
readings at which cleanups were started. -/
structure DlqClock where
  lastCleanAttemptAtMs : Int
  reading : Int
  attempts : List Int

namespace DlqClock

/-- The field is read and written; the clock may say anything. -/
def exec : (op : WorkerOp) → DlqClock → op.Response → DlqClock → Prop
  | .now, c, time, c' => c' = { c with reading := time }
  | .lastCleanAttemptAtMs, c, time, c' => time = c.lastCleanAttemptAtMs ∧ c' = c
  | .setLastCleanAttemptAtMs time, c, _, c' => c' = { c with lastCleanAttemptAtMs := time }
  | _, c, _, c' => c' = c

def issue : WorkerOp → DlqClock → DlqClock
  | .cleanDlq .., c => { c with attempts := c.attempts ++ [c.reading] }
  | _, c => c

/-- A service that was just constructed. -/
def fresh : DlqClock := ⟨0, 0, []⟩

end DlqClock

def dlqLoop : EventLoop WorkerOp WorkerOp.Response DlqClock where
  awaited := WorkerOp.awaited
  exec := DlqClock.exec
  issue := DlqClock.issue

abbrev SendTask := Task WorkerOp WorkerOp.Response (Except Thrown Unit)

abbrev DlqSends := LoopState WorkerOp WorkerOp.Response (Except Thrown Unit) DlqClock

/-- A call of `send`. -/
def IsSend (P : Platform) (service : DlqService) (p : WorkerFlow Unit) : Prop :=
  ∃ reason payload error sendMeta, p = service.send P reason payload error sendMeta

/-- The states that calls of `send` reach. -/
def DlqSends.Reachable (P : Platform) (service : DlqService) (s : DlqSends) : Prop :=
  dlqLoop.Reachable (IsSend P service) DlqClock.fresh s

namespace SendTask

def addResponse : WorkerEvent → Option (Except Thrown Unit)
  | ⟨.addDlqEntry _, r⟩ => some r
  | _ => none

def cleanResponse : WorkerEvent → Option (Except Thrown Unit)
  | ⟨.cleanDlq .., r⟩ => some r
  | _ => none

def logResponse : WorkerEvent → Option (Except Thrown Unit)
  | ⟨.logError .., r⟩ => some r
  | _ => none

/-- The `add` of the send has settled. -/
def AddSettled (t : SendTask) (outcome : Except Thrown Unit) : Prop :=
  outcome ∈ t.past.filterMap addResponse

/-- The send has settled exactly when its `add` has, and with the same outcome. -/
def DecidedByAdd (t : SendTask) : Prop :=
  ∀ outcome, t.rest = .done outcome ↔ t.AddSettled outcome

/-- The cleanup was started and has not settled. -/
def CleanupPending (t : SendTask) : Prop :=
  ∃ window limit, t.rest.next = some (.cleanDlq window limit)

def CleanupStarted (t : SendTask) : Prop :=
  t.CleanupPending ∨ t.past.filterMap cleanResponse ≠ []

/-- The logger was told that the cleanup failed, and threw. -/
def LoggerThrew (t : SendTask) : Prop :=
  ∃ error, .error error ∈ t.past.filterMap logResponse

end SendTask

/-! ## Points of a send -/

/-- What follows the `add`. -/
def afterAdd (P : Platform) (service : DlqService) : Except Thrown Unit → WorkerFlow Unit :=
  Flow.onOk fun _ => service.cleanAgedEntriesThrottled P

/-- What follows the cleanup. -/
def afterClean (P : Platform) (service : DlqService) : Except Thrown Unit → WorkerFlow Unit :=
  Flow.onError fun cleanError =>
    Prog.call (.logError (DlqService.cleanFailedMessage P service.retentionWindowMs cleanError)
      [(lit "retentionWindowMs", DlqService.intJson service.retentionWindowMs),
        (lit "retentionCleanLimit", DlqService.intJson service.retentionCleanLimit)]) Prog.done

/-- Where a send rests, with what it has performed. -/
inductive SendPoint (P : Platform) (service : DlqService) : List WorkerEvent → WorkerFlow Unit → Prop
  | adding (now : Int) (entry : EventsDlqJobPayload) :
      SendPoint P service [⟨.now, now⟩] (.call (.addDlqEntry entry) (afterAdd P service))
  | refused (now : Int) (entry : EventsDlqJobPayload) (error : Thrown) :
      SendPoint P service [⟨.now, now⟩, ⟨.addDlqEntry entry, .error error⟩] (.done (.error error))
  | throttled (now : Int) (entry : EventsDlqJobPayload) (time last : Int) :
      SendPoint P service [⟨.now, now⟩, ⟨.addDlqEntry entry, .ok ()⟩, ⟨.now, time⟩,
        ⟨.lastCleanAttemptAtMs, last⟩] (.done (.ok ()))
  | cleaning (now : Int) (entry : EventsDlqJobPayload) (time last : Int) :
      SendPoint P service [⟨.now, now⟩, ⟨.addDlqEntry entry, .ok ()⟩, ⟨.now, time⟩,
        ⟨.lastCleanAttemptAtMs, last⟩, ⟨.setLastCleanAttemptAtMs time, ()⟩]
        (.call (.cleanDlq service.retentionWindowMs service.retentionCleanLimit)
          (afterClean P service))
  | cleaned (now : Int) (entry : EventsDlqJobPayload) (time last window limit : Int) :
      SendPoint P service [⟨.now, now⟩, ⟨.addDlqEntry entry, .ok ()⟩, ⟨.now, time⟩,
        ⟨.lastCleanAttemptAtMs, last⟩, ⟨.setLastCleanAttemptAtMs time, ()⟩,
        ⟨.cleanDlq window limit, .ok ()⟩] (.done (.ok ()))
  | reported (now : Int) (entry : EventsDlqJobPayload) (time last window limit : Int)
      (cleanError : Thrown) (message : JsString) (logMeta : LogMeta)
      (response : Except Thrown Unit) :
      SendPoint P service [⟨.now, now⟩, ⟨.addDlqEntry entry, .ok ()⟩, ⟨.now, time⟩,
        ⟨.lastCleanAttemptAtMs, last⟩, ⟨.setLastCleanAttemptAtMs time, ()⟩,
        ⟨.cleanDlq window limit, .error cleanError⟩, ⟨.logError message logMeta, response⟩]
        (.done response)

variable {P : Platform} {service : DlqService}

theorem send_eq (reason : DlqReason) (payload : Json) (error : Thrown) (sendMeta : DlqSendMeta) :
    service.send P reason payload error sendMeta =
      Prog.call .now fun now : Int =>
        Prog.call (.addDlqEntry (DlqService.entry P reason payload error sendMeta now))
          (afterAdd P service) := by
  refine congrArg (Prog.call WorkerOp.now) (funext fun now => ?_)
  refine congrArg (Prog.call (WorkerOp.addDlqEntry _)) (funext fun r => ?_)
  cases r <;> rfl

theorem cleanAgedEntriesThrottled_eq (P : Platform) (service : DlqService) :
    service.cleanAgedEntriesThrottled P =
    Prog.call .now fun time : Int => Prog.call .lastCleanAttemptAtMs fun last : Int =>
      if time - last < service.cleanThrottleMs then Prog.done (.ok ())
      else Prog.call (.setLastCleanAttemptAtMs time) fun _ =>
        Prog.call (.cleanDlq service.retentionWindowMs service.retentionCleanLimit)
          (afterClean P service) := by
  refine congrArg (Prog.call WorkerOp.now) (funext fun time : Int => ?_)
  refine congrArg (Prog.call WorkerOp.lastCleanAttemptAtMs) (funext fun last : Int => ?_)
  by_cases h : time - last < service.cleanThrottleMs
  · rw [if_pos h]
    exact if_pos h
  · rw [if_neg h]
    refine (if_neg h).trans ?_
    refine congrArg (Prog.call (WorkerOp.setLastCleanAttemptAtMs time)) (funext fun u => ?_)
    refine congrArg (Prog.call (WorkerOp.cleanDlq _ _)) (funext fun r => ?_)
    cases r <;> rfl

/-! ## Bursts -/

variable {c c' : DlqClock} {h : List WorkerEvent} {q : WorkerFlow Unit}

/-- After the `add`: nothing is started within the throttle window, and otherwise the cleanup is,
before any other send can read the field. -/
theorem burst_clean (hb : dlqLoop.Burst (service.cleanAgedEntriesThrottled P) c h q c') :
    (∃ time last : Int, h = [⟨.now, time⟩, ⟨.lastCleanAttemptAtMs, last⟩] ∧ q = .done (.ok ()) ∧
      c' = { c with reading := time }) ∨
    ∃ time : Int, service.cleanThrottleMs ≤ time - c.lastCleanAttemptAtMs ∧
      h = [⟨.now, time⟩, ⟨.lastCleanAttemptAtMs, c.lastCleanAttemptAtMs⟩,
        ⟨.setLastCleanAttemptAtMs time, ()⟩] ∧
      q = .call (.cleanDlq service.retentionWindowMs service.retentionCleanLimit)
        (afterClean P service) ∧
      c' = ⟨time, time, c.attempts ++ [time]⟩ := by
  rw [cleanAgedEntriesThrottled_eq] at hb
  obtain ⟨(time : Int), c₁, h₁, rfl, hc₁, hb⟩ := EventLoop.Burst.sync_inv rfl hb
  obtain ⟨(last : Int), c₂, h₂, rfl, ⟨hlast, hc₂⟩, hb⟩ := EventLoop.Burst.sync_inv rfl hb
  by_cases hthrottled : time - last < service.cleanThrottleMs
  · rw [if_pos hthrottled] at hb
    obtain ⟨rfl, rfl, hc⟩ := hb.done_inv
    exact Or.inl ⟨time, last, rfl, rfl, by rw [hc, hc₂]; exact hc₁⟩
  · rw [if_neg hthrottled] at hb
    obtain ⟨u, c₃, h₃, rfl, hc₃, hb⟩ := EventLoop.Burst.sync_inv rfl hb
    obtain ⟨rfl, rfl, hc⟩ := EventLoop.Burst.await_inv rfl hb
    have hc₁ : c₁ = { c with reading := time } := hc₁
    have hc₃ : c₃ = { c₂ with lastCleanAttemptAtMs := time } := hc₃
    have hlast : last = c.lastCleanAttemptAtMs := by rw [hlast, hc₁]
    subst hlast
    refine Or.inr ⟨time, Int.not_lt.mp hthrottled, rfl, rfl, ?_⟩
    rw [hc, hc₃, hc₂, hc₁]
    rfl

theorem burst_send {p : WorkerFlow Unit} (hp : IsSend P service p)
    (hb : dlqLoop.Burst p c h q c') :
    SendPoint P service h q ∧ ∃ time, c' = { c with reading := time } := by
  obtain ⟨reason, payload, error, sendMeta, rfl⟩ := hp
  rw [send_eq] at hb
  obtain ⟨now, c₁, h₁, rfl, hc₁, hb⟩ := EventLoop.Burst.sync_inv rfl hb
  obtain ⟨rfl, rfl, hc⟩ := EventLoop.Burst.await_inv rfl hb
  exact ⟨.adding now _, now, hc.trans hc₁⟩

theorem burst_logged {message : JsString} {logMeta : LogMeta}
    (hb : dlqLoop.Burst (.call (.logError message logMeta) Prog.done : WorkerFlow Unit) c h q c') :
    ∃ response : Except Thrown Unit, h = [⟨.logError message logMeta, response⟩] ∧
      q = .done response ∧ c' = c := by
  obtain ⟨response, c₁, h₁, rfl, hc₁, hb⟩ := EventLoop.Burst.sync_inv rfl hb
  obtain ⟨rfl, rfl, hc⟩ := hb.done_inv
  exact ⟨response, rfl, rfl, hc.trans hc₁⟩

/-- The cleanups started so far lie apart, and none after the last attempt. -/
def Spaced (service : DlqService) (c : DlqClock) : Prop :=
  0 ≤ service.cleanThrottleMs → (∀ a ∈ c.attempts, a ≤ c.lastCleanAttemptAtMs) ∧
    c.attempts.Pairwise fun a b => service.cleanThrottleMs ≤ b - a

theorem spaced_attempt (hc : Spaced service c) {time : Int}
    (hdue : service.cleanThrottleMs ≤ time - c.lastCleanAttemptAtMs) :
    Spaced service ⟨time, time, c.attempts ++ [time]⟩ := by
  intro hpos
  obtain ⟨hlast, hpair⟩ := hc hpos
  refine ⟨fun a ha => ?_, List.pairwise_append.mpr ⟨hpair, List.pairwise_singleton _ _, ?_⟩⟩
  · obtain ha | ha := List.mem_append.mp ha
    · have := hlast a ha
      show a ≤ time
      omega
    · exact (List.mem_singleton.mp ha).le
  · intro a ha b hb
    have := hlast a ha
    rw [List.mem_singleton.mp hb]
    omega

theorem point_of_response {past : List WorkerEvent} {op : WorkerOp}
    {k : op.Response → WorkerFlow Unit} (hpast : SendPoint P service past (.call op k))
    (hc : Spaced service c) (r : op.Response) (hb : dlqLoop.Burst (k r) c h q c') :
    SendPoint P service (past ++ ⟨op, r⟩ :: h) q ∧ Spaced service c' := by
  cases hpast with
  | adding now entry =>
    cases r with
    | error e =>
      obtain ⟨rfl, rfl, rfl⟩ := EventLoop.Burst.done_inv hb
      exact ⟨.refused now entry e, hc⟩
    | ok u =>
      have hb : dlqLoop.Burst (service.cleanAgedEntriesThrottled P) c h q c' := hb
      obtain ⟨time, last, rfl, rfl, rfl⟩ | ⟨time, hdue, rfl, rfl, rfl⟩ := burst_clean hb
      · exact ⟨.throttled now entry time last, hc⟩
      · exact ⟨.cleaning now entry time _, spaced_attempt hc hdue⟩
  | cleaning now entry time last =>
    cases r with
    | ok u =>
      obtain ⟨rfl, rfl, rfl⟩ := EventLoop.Burst.done_inv hb
      exact ⟨.cleaned now entry time last _ _, hc⟩
    | error e =>
      obtain ⟨response, rfl, rfl, rfl⟩ := burst_logged hb
      exact ⟨.reported now entry time last _ _ e _ _ response, hc⟩

/-- Every send rests at a point, and the cleanups lie apart. -/
theorem points_of_reachable {s : DlqSends} (hs : s.Reachable P service) :
    Spaced service s.world ∧ ∀ t ∈ s.tasks, SendPoint P service t.past t.rest := by
  refine EventLoop.Reachable.invariant ?_ ?_ ?_ hs
  · exact fun _ => ⟨by simp [DlqClock.fresh], .nil⟩
  · intro p c h q c' hp hc hb
    obtain ⟨hpoint, time, rfl⟩ := burst_send hp hb
    exact ⟨hpoint, hc⟩
  · exact fun past op k r c h q c' hpast hc hb => point_of_response hpast hc r hb

/-! ## What decides a send -/

theorem decided_iff {t : SendTask} (h : SendPoint P service t.past t.rest) :
    t.DecidedByAdd ↔ ¬t.CleanupPending ∧ ¬t.LoggerThrew := by
  obtain ⟨past, rest⟩ := t
  simp only [SendTask.DecidedByAdd, SendTask.AddSettled, SendTask.CleanupPending,
    SendTask.LoggerThrew]
  cases h with
  | adding now entry => simp [SendTask.addResponse, SendTask.logResponse, Prog.next]
  | refused now entry error =>
    simp [SendTask.addResponse, SendTask.logResponse, Prog.next, eq_comm]
  | throttled now entry time last =>
    simp [SendTask.addResponse, SendTask.logResponse, Prog.next, eq_comm]
  | cleaning now entry time last =>
    simp [SendTask.addResponse, SendTask.logResponse, Prog.next]
  | cleaned now entry time last window limit =>
    simp [SendTask.addResponse, SendTask.logResponse, Prog.next, eq_comm]
  | reported now entry time last window limit cleanError message logMeta response =>
    cases response with
    | ok u => simp [SendTask.addResponse, SendTask.logResponse, Prog.next, eq_comm]
    | error e => simp [SendTask.addResponse, SendTask.logResponse, Prog.next]

theorem added_of_started {t : SendTask} (h : SendPoint P service t.past t.rest)
    (hstarted : t.CleanupStarted) : t.AddSettled (.ok ()) := by
  obtain ⟨past, rest⟩ := t
  simp only [SendTask.CleanupStarted, SendTask.CleanupPending] at hstarted
  simp only [SendTask.AddSettled]
  cases h with
  | adding now entry => simp [SendTask.cleanResponse, Prog.next] at hstarted
  | refused now entry error => simp [SendTask.cleanResponse, Prog.next] at hstarted
  | throttled now entry time last => simp [SendTask.addResponse]
  | cleaning now entry time last => simp [SendTask.addResponse]
  | cleaned now entry time last window limit => simp [SendTask.addResponse]
  | reported now entry => simp [SendTask.addResponse]

theorem attempts_apart (h : Spaced service c) :
    c.attempts.Pairwise fun a b => service.cleanThrottleMs ≤ |b - a| := by
  by_cases hpos : 0 ≤ service.cleanThrottleMs
  · exact (h hpos).2.imp fun hab => hab.trans (le_abs_self _)
  · refine List.pairwise_iff_forall_sublist.mpr fun {a b} _ => ?_
    have := abs_nonneg (b - a)
    omega

/-- **Theorem.** In every state that sends reach, a send has settled as its `add` has exactly
where it neither awaits the cleanup nor had the logger throw at it. A cleanup was only started by
a send whose `add` had resolved, and any two were started at least the throttle window apart. -/
theorem send_decided_by_add {s : DlqSends} (hs : s.Reachable P service) :
    (∀ t ∈ s.tasks, SendTask.DecidedByAdd t ↔
      ¬SendTask.CleanupPending t ∧ ¬SendTask.LoggerThrew t) ∧
    (∀ t ∈ s.tasks, SendTask.CleanupStarted t → SendTask.AddSettled t (.ok ())) ∧
    s.world.attempts.Pairwise fun a b => service.cleanThrottleMs ≤ |b - a| := by
  obtain ⟨hspaced, hpoints⟩ := points_of_reachable hs
  exact ⟨fun t ht => decided_iff (hpoints t ht), fun t ht => added_of_started (hpoints t ht),
    attempts_apart hspaced⟩

/-! ## A cleanup that hangs, and one that fails -/

/-- A send on a service with the default options, an hour after the epoch. -/
def firstSend : WorkerFlow Unit :=
  DlqService.send Platform.plain {} .flushPoison .null noError ⟨lit "1", 1, []⟩

def firstEntry : EventsDlqJobPayload :=
  DlqService.entry Platform.plain .flushPoison .null noError ⟨lit "1", 1, []⟩ 3600000

def firstPast : List WorkerEvent :=
  [⟨.now, (3600000 : Int)⟩, ⟨.addDlqEntry firstEntry, .ok ()⟩, ⟨.now, (3600000 : Int)⟩,
    ⟨.lastCleanAttemptAtMs, (0 : Int)⟩, ⟨.setLastCleanAttemptAtMs 3600000, ()⟩]

/-- The send awaits its `add`. -/
def addingSends : DlqSends :=
  ⟨⟨0, 3600000, []⟩,
    [⟨[⟨.now, (3600000 : Int)⟩], .call (.addDlqEntry firstEntry) (afterAdd Platform.plain {})⟩]⟩

/-- The send awaits its cleanup. -/
def hangingSends : DlqSends :=
  ⟨⟨3600000, 3600000, [3600000]⟩,
    [⟨firstPast, .call (.cleanDlq 604800000 1000) (afterClean Platform.plain {})⟩]⟩

theorem reachable_hangingSends : hangingSends.Reachable Platform.plain {} := by
  have hsend : dlqLoop.Burst firstSend DlqClock.fresh [⟨.now, (3600000 : Int)⟩]
      (.call (.addDlqEntry firstEntry) (afterAdd Platform.plain {})) ⟨0, 3600000, []⟩ := by
    rw [firstSend, send_eq]
    exact .sync rfl rfl (.await _ _ rfl)
  have hclean : dlqLoop.Burst (afterAdd Platform.plain {} (.ok ())) ⟨0, 3600000, []⟩
      [⟨.now, (3600000 : Int)⟩, ⟨.lastCleanAttemptAtMs, (0 : Int)⟩,
        ⟨.setLastCleanAttemptAtMs 3600000, ()⟩]
      (.call (.cleanDlq 604800000 1000) (afterClean Platform.plain {}))
      ⟨3600000, 3600000, [3600000]⟩ := by
    have hflow : afterAdd Platform.plain {} (.ok ()) =
      DlqService.cleanAgedEntriesThrottled Platform.plain {} := rfl
    rw [hflow, cleanAgedEntriesThrottled_eq]
    refine .sync rfl rfl (.sync rfl ⟨rfl, rfl⟩ ?_)
    rw [if_neg (by decide)]
    exact .sync rfl rfl (.await _ _ rfl)
  have hfirst : IsSend Platform.plain {} firstSend := ⟨_, _, _, _, rfl⟩
  have hstart : dlqLoop.Step (IsSend Platform.plain {}) ⟨DlqClock.fresh, []⟩ addingSends :=
    .start hfirst hsend
  have hadding : addingSends.tasks[0]? = some ⟨[⟨.now, (3600000 : Int)⟩],
      .call (.addDlqEntry firstEntry) (afterAdd Platform.plain {})⟩ := rfl
  have hsettle : dlqLoop.Step (IsSend Platform.plain {}) addingSends hangingSends :=
    EventLoop.Step.settle hadding rfl (.ok ()) hclean
  exact (Relation.ReflTransGen.single hstart).tail hsettle

/-- The cleanup failed, and the logger answered. -/
def loggedSend (response : Except Thrown Unit) : SendTask :=
  ⟨firstPast ++ [⟨.cleanDlq 604800000 1000, .error noError⟩,
      ⟨.logError (DlqService.cleanFailedMessage Platform.plain 604800000 noError)
        [(lit "retentionWindowMs", DlqService.intJson 604800000),
          (lit "retentionCleanLimit", DlqService.intJson 1000)], response⟩],
    .done response⟩

def loggedSends (response : Except Thrown Unit) : DlqSends :=
  ⟨⟨3600000, 3600000, [3600000]⟩, [loggedSend response]⟩

theorem reachable_loggedSends (response : Except Thrown Unit) :
    (loggedSends response).Reachable Platform.plain {} := by
  have hlog : dlqLoop.Burst (afterClean Platform.plain {} (.error noError))
      ⟨3600000, 3600000, [3600000]⟩
      [⟨.logError (DlqService.cleanFailedMessage Platform.plain 604800000 noError)
        [(lit "retentionWindowMs", DlqService.intJson 604800000),
          (lit "retentionCleanLimit", DlqService.intJson 1000)], response⟩]
      (.done response) ⟨3600000, 3600000, [3600000]⟩ :=
    .sync rfl rfl (.done response _)
  have hhanging : hangingSends.tasks[0]? = some ⟨firstPast,
      .call (.cleanDlq 604800000 1000) (afterClean Platform.plain {})⟩ := rfl
  have hsettle : dlqLoop.Step (IsSend Platform.plain {}) hangingSends (loggedSends response) :=
    EventLoop.Step.settle hhanging rfl (.error noError) hlog
  exact Relation.ReflTransGen.tail reachable_hangingSends hsettle

/-- Where the logger returns, the send has settled as its `add` has. -/
theorem send_decided_by_add_logged : SendTask.DecidedByAdd (loggedSend (.ok ())) := by
  have hmem : loggedSend (.ok ()) ∈ (loggedSends (.ok ())).tasks := List.mem_singleton.mpr rfl
  refine ((send_decided_by_add (reachable_loggedSends (.ok ()))).1 _ hmem).mpr ?_
  simp [SendTask.CleanupPending, SendTask.LoggerThrew, SendTask.logResponse, Prog.next, firstPast,
    loggedSend]

/-- A send whose entry was stored and whose cleanup hangs has not settled, and one whose entry was
stored and whose logger throws has rejected. -/
theorem stored_and_not_resolved :
    (∃ s : DlqSends, s.Reachable Platform.plain {} ∧ ∃ t ∈ s.tasks,
      SendTask.AddSettled t (.ok ()) ∧ SendTask.CleanupPending t ∧ ¬SendTask.DecidedByAdd t) ∧
    ∃ s : DlqSends, s.Reachable Platform.plain {} ∧ ∃ t ∈ s.tasks,
      SendTask.AddSettled t (.ok ()) ∧ SendTask.LoggerThrew t ∧ ¬SendTask.DecidedByAdd t := by
  have hadd : ∀ past : List WorkerEvent, (.ok ()) ∈ (firstPast ++ past).filterMap
      SendTask.addResponse := fun past => by simp [firstPast, SendTask.addResponse]
  refine ⟨⟨hangingSends, reachable_hangingSends, _, List.mem_singleton.mpr rfl, ?_, ?_, ?_⟩,
    ⟨loggedSends (.error noError), reachable_loggedSends _, _, List.mem_singleton.mpr rfl,
      ?_, ?_, ?_⟩⟩
  · exact hadd []
  · exact ⟨_, _, rfl⟩
  · intro hdecided
    cases (hdecided (.ok ())).mpr (hadd [])
  · exact hadd _
  · exact ⟨noError, by simp [loggedSend, firstPast, SendTask.logResponse]⟩
  · intro hdecided
    cases (hdecided (.ok ())).mpr (hadd _)

end Posta
