import Posta.Worker.FlushLogic

/-!
# What one flush does

**Attempts** (`StopsAt`). The write to the log is attempted until it succeeds, fails for good or
has been tried often enough.

**Theorem (`flush_outcome`).** A finished call of `flushBatch` has resolved the destinations,
attempted one write again and again, and then done one of two things: inserted the rows, when the
last attempt succeeded, or handed the whole batch to the dead-letter queue, when none did. Its
outcome is the outcome of that last thing.
-/

namespace Posta

open Js Interaction

/-- The outcomes of the attempts of one write, of which at most `maxAttempts` are made. -/
structure StopsAt (maxAttempts : Nat) (outcomes : List (Except Thrown Unit)) : Prop where
  bounded : outcomes.length ≤ maxAttempts
  /-- Every attempt but the last failed in a way that may pass. -/
  continues : ∀ o ∈ outcomes.dropLast, ∃ e, o = .error e ∧ classifyR2Error e = .retryable
  /-- The last one succeeded, failed for good, or used up the attempts. -/
  stops : outcomes.length = maxAttempts ∨ outcomes.getLast? = some (.ok ()) ∨
    ∃ e, outcomes.getLast? = some (.error e) ∧ classifyR2Error e = .nonRetryable

/-- A write to the log, with its outcome. -/
def putOf : WorkerEvent → Option ((JsString × JsString) × Except Thrown Unit)
  | ⟨.putObject key body, r⟩ => some ((key, body), r)
  | _ => none

/-- An operation that changes the table or the dead-letter queue. -/
def WorkerOp.stores : WorkerOp → Bool
  | .insertEvents _ | .addDlqEntry _ | .cleanDlq .. => true
  | _ => false

/-- Lookups succeed and loggers return. -/
def Calm : WorkerEvent → Prop
  | ⟨.resolveDestinationsByLinkIds _, r⟩ => ∃ destinations, r = .ok destinations
  | ⟨.logError .., r⟩ => r = .ok ()
  | _ => True

/-! ## The attempts -/

theorem StopsAt.ok (k : Nat) : StopsAt (k + 1) [.ok ()] where
  bounded := by simp
  continues o ho := by cases ho
  stops := .inr (.inl rfl)

theorem StopsAt.nonRetryable (k : Nat) {e : Thrown} (he : classifyR2Error e = .nonRetryable) :
    StopsAt (k + 1) [.error e] where
  bounded := by simp
  continues o ho := by cases ho
  stops := .inr (.inr ⟨e, rfl, he⟩)

theorem StopsAt.nil : StopsAt 0 [] where
  bounded := Nat.le_refl 0
  continues o ho := by cases ho
  stops := .inl rfl

theorem StopsAt.cons {k : Nat} {outcomes : List (Except Thrown Unit)} {e : Thrown}
    (he : classifyR2Error e = .retryable) (h : StopsAt k outcomes) :
    StopsAt (k + 1) (.error e :: outcomes) := by
  cases outcomes with
  | nil =>
    have hk : k = 0 := by
      rcases h.stops with hk | hk | ⟨_, hk, -⟩
      · exact hk.symm
      · cases hk
      · cases hk
    refine ⟨by simp, fun o ho => ?_, .inl (by rw [hk]; rfl)⟩
    cases ho
  | cons o outcomes =>
    refine ⟨Nat.succ_le_succ h.bounded, fun o' ho' => ?_, ?_⟩
    · rw [List.dropLast_cons_cons] at ho'
      rcases List.mem_cons.mp ho' with rfl | ho'
      · exact ⟨e, rfl, he⟩
      · exact h.continues o' ho'
    · rw [List.getLast?_cons_cons, List.length_cons]
      rcases h.stops with hk | hk
      · exact .inl (by rw [hk])
      · exact .inr hk

/-- What the retry reports after some attempts, the last failure before them being `e`. -/
def outcomeOf (attempts : Nat) (e : Thrown) (outcomes : List (Except Thrown Unit)) : R2PutOutcome :=
  match outcomes.getLast? with
  | some (.ok ()) => .succeeded attempts
  | some (.error error) => .failed error.toError attempts
  | none => .failed e.toError attempts

theorem outcomeOf_cons (attempts : Nat) (e e' : Thrown) (outcomes : List (Except Thrown Unit)) :
    outcomeOf attempts e' (.error e :: outcomes) = outcomeOf attempts e outcomes := by
  cases outcomes with
  | nil => rfl
  | cons o outcomes =>
    obtain ⟨last, hlast⟩ : ∃ last, (o :: outcomes).getLast? = some last :=
      ⟨_, List.getLast?_eq_some_getLast (List.cons_ne_nil o outcomes)⟩
    rw [outcomeOf, outcomeOf, List.getLast?_cons_cons, hlast]
    cases last <;> rfl

/-- A part of a history that writes to the log only. -/
structure Attempted (key body : JsString) (h : List WorkerEvent)
    (outcomes : List (Except Thrown Unit)) : Prop where
  puts : h.filterMap putOf = outcomes.map fun o => ((key, body), o)
  stores : ∀ e ∈ h, e.1.stores = false

theorem attempted_nil (key body : JsString) : Attempted key body [] [] where
  puts := rfl
  stores e he := by cases he

theorem Attempted.put {key body : JsString} {h : List WorkerEvent}
    {outcomes : List (Except Thrown Unit)} (ha : Attempted key body h outcomes)
    (r : Except Thrown Unit) :
    Attempted key body (⟨.putObject key body, r⟩ :: h) (r :: outcomes) where
  puts := by
    rw [List.filterMap_cons, List.map_cons, ← ha.puts]
    rfl
  stores e he := by
    rcases List.mem_cons.mp he with rfl | he
    · rfl
    · exact ha.stores e he

/-- An operation that writes nothing. -/
theorem Attempted.quiet {key body : JsString} {h : List WorkerEvent}
    {outcomes : List (Except Thrown Unit)} (ha : Attempted key body h outcomes) {e : WorkerEvent}
    (hput : putOf e = none) (hstores : e.1.stores = false) :
    Attempted key body (e :: h) outcomes where
  puts := by rw [List.filterMap_cons, hput, ha.puts]
  stores e' he' := by
    rcases List.mem_cons.mp he' with rfl | he'
    · exact hstores
    · exact ha.stores e' he'

/-- A logger that returns. -/
theorem runs_logError_inv {α : Type} {message : JsString} {logMeta : LogMeta}
    {f : Unit → WorkerFlow α} {h : List WorkerEvent} {r : Except Thrown α}
    (hr : Runs (logError message logMeta >>= f : WorkerFlow α) h (.done r))
    (hcalm : ∀ e ∈ h, Calm e) :
    ∃ h', h = ⟨.logError message logMeta, .ok ()⟩ :: h' ∧ Runs (f ()) h' (.done r) := by
  rcases Runs.call_inv (show Runs (Prog.call (.logError message logMeta) _) h (.done r) from hr)
    with ⟨-, hq⟩ | ⟨answer, h', rfl, hr'⟩
  · cases hq
  · have hok : answer = .ok () := hcalm _ List.mem_cons_self
    subst hok
    exact ⟨h', rfl, hr'⟩

theorem retryable_of_ne {c : R2ErrorClassification} (h : ¬ c = .nonRetryable) :
    c = .retryable := by
  cases c with
  | retryable => rfl
  | nonRetryable => exact absurd rfl h

/-- **The attempts that remain.** -/
theorem runs_putAttempts {key body : JsString} {m delay k : Nat} {e : Thrown}
    {h : List WorkerEvent} {r : Except Thrown R2PutOutcome} (hk : k ≤ m)
    (hr : Runs (putAttempts (Prog.call (.putObject key body) Prog.done) m delay k e) h (.done r))
    (hcalm : ∀ e ∈ h, Calm e) :
    ∃ outcomes, Attempted key body h outcomes ∧ StopsAt k outcomes ∧
      r = .ok (outcomeOf (m - k + outcomes.length) e outcomes) := by
  induction k generalizing e h with
  | zero =>
    rw [putAttempts] at hr
    obtain ⟨h', rfl, hr'⟩ := runs_logError_inv hr hcalm
    obtain ⟨rfl, rfl⟩ := Runs.done_eq hr'
    exact ⟨[], (attempted_nil key body).quiet rfl rfl, StopsAt.nil, rfl⟩
  | succ k ih =>
    rw [putAttempts] at hr
    rcases Runs.call_inv (show Runs (Prog.call (.putObject key body) _) h (.done r) from hr) with
      ⟨-, hq⟩ | ⟨answer, h₁, rfl, hr₁⟩
    · cases hq
    have hcalm₁ : ∀ e ∈ h₁, Calm e := fun e he => hcalm e (List.mem_cons_of_mem _ he)
    have hattempt : m - k = m - (k + 1) + 1 := by omega
    cases answer with
    | ok u =>
      obtain ⟨rfl, rfl⟩ := Runs.done_eq hr₁
      refine ⟨[.ok ()], (attempted_nil key body).put _, StopsAt.ok k, ?_⟩
      rw [hattempt]
      rfl
    | error error =>
      have hbranch : Runs (ite (classifyR2Error error = .nonRetryable) _ _ :
          WorkerFlow R2PutOutcome) h₁ (.done r) := hr₁
      split_ifs at hbranch with hclass hsleep
      · obtain ⟨h₂, rfl, hr₂⟩ := runs_logError_inv hbranch hcalm₁
        obtain ⟨rfl, rfl⟩ := Runs.done_eq hr₂
        refine ⟨[.error error], ((attempted_nil key body).quiet rfl rfl).put _,
          StopsAt.nonRetryable k hclass, ?_⟩
        rw [hattempt]
        rfl
      · rcases Runs.call_inv (show Runs (Prog.call (.sleep _) _) h₁ (.done r) from hbranch) with
          ⟨-, hq⟩ | ⟨slept, h₂, rfl, hr₂⟩
        · cases hq
        obtain ⟨outcomes, ha, hstops, hres⟩ := ih (by omega) hr₂ fun e he =>
          hcalm₁ e (List.mem_cons_of_mem _ he)
        refine ⟨.error error :: outcomes, (ha.quiet rfl rfl).put _,
          hstops.cons (retryable_of_ne hclass), ?_⟩
        rw [hres, outcomeOf_cons, List.length_cons, hattempt]
        congr 2
        omega
      · obtain ⟨outcomes, ha, hstops, hres⟩ := ih (by omega) hbranch hcalm₁
        refine ⟨.error error :: outcomes, ha.put _, hstops.cons (retryable_of_ne hclass), ?_⟩
        rw [hres, outcomeOf_cons, List.length_cons, hattempt]
        congr 2
        omega

/-! ## The flush -/

/-- A success among the outcomes is the last of them. -/
theorem StopsAt.not_ok_mem {k : Nat} {outcomes : List (Except Thrown Unit)} {e : Thrown}
    (h : StopsAt k outcomes) (hlast : outcomes.getLast? = some (.error e)) :
    Except.ok () ∉ outcomes := by
  intro hmem
  obtain ⟨front, rfl⟩ := List.getLast?_eq_some_iff.mp hlast
  have hcontinues := h.continues
  rw [List.dropLast_concat] at hcontinues
  rcases List.mem_append.mp hmem with hmem | hmem
  · obtain ⟨_, herror, -⟩ := hcontinues _ hmem
    cases herror
  · cases List.mem_singleton.mp hmem

/-- What a finished call has done, `destinations` being what the lookup found. Either a write
succeeded, and the rest is one insertion of the rows; or none did, and the rest is one send of all
events to the dead-letter queue. The outcome of the rest is the outcome of the call. -/
def FlushOutcome (P : Platform) (options : CreateFlushBatchOptions) (first : CaptureEvent)
    (others : List CaptureEvent) (batchId : JsString) (h : List WorkerEvent)
    (r : Except Thrown Unit) : Prop :=
  ∃ destinations outcomes before last, h = before ++ last ∧
    Attempted (eventKey batchId first.occurredAt.time)
      (serializeBatch (loggedEventsOf P destinations (first :: others))) before outcomes ∧
    StopsAt options.maxAttempts.toNat outcomes ∧
    ((Except.ok () ∈ outcomes ∧ last = [⟨.insertEvents
        ((loggedEventsOf P destinations (first :: others)).map LoggedEvent.newEvent), r⟩]) ∨
      ∃ error, Except.ok () ∉ outcomes ∧ outcomes.getLast? = some (.error error) ∧
        Runs (options.dlqSink .r2PutFailed (.arr ((first :: others).map CaptureEvent.toJson))
          error.toError { originalJobId := batchId, attemptsMade := outcomes.length }) last
          (.done r))

theorem putEventBatch_eq (P : Platform) (batchId : JsString) (t : IsoDatetime)
    (logged : List LoggedEvent) :
    putEventBatch P batchId t.1 logged =
      (Prog.call (.putObject (eventKey batchId t.time) (serializeBatch logged)) Prog.done :
        WorkerFlow Unit) := by
  have hkey : eventBatchKey P batchId t.1 = .ok (eventKey batchId t.time) :=
    eventBatchKey_ok.mpr ⟨t.time, P.date_time (Option.some_get _).symm, rfl⟩
  rw [putEventBatch, hkey]
  rfl

theorem retryR2Put_eq {put : WorkerFlow Unit} {options : R2RetryOptions}
    (hmax : 1 ≤ options.maxAttempts) (hdelay : 0 ≤ options.initialDelayMs) :
    retryR2Put put options = putAttempts put options.maxAttempts.toNat
      options.initialDelayMs.toNat options.maxAttempts.toNat noError := by
  have hvalid : options.validate = .ok () := by
    rw [R2RetryOptions.validate, if_neg (by omega), if_neg (by omega)]
  rw [retryR2Put, hvalid, Flow.ofExcept_ok_bind]

/-- **The retry, and the dead-letter queue after it.** -/
theorem runs_putR2BatchWithRetry {key body batchId : JsString} {events : List CaptureEvent}
    {sink : DlqSend WorkerOp WorkerOp.Response} {options : R2RetryOptions} {h : List WorkerEvent}
    {r : Except Thrown R2PutOutcome} (hmax : 1 ≤ options.maxAttempts)
    (hdelay : 0 ≤ options.initialDelayMs)
    (hr : Runs (putR2BatchWithRetry (Prog.call (.putObject key body) Prog.done) events batchId sink
      options) h (.done r)) (hcalm : ∀ e ∈ h, Calm e) :
    ∃ outcomes before last, h = before ++ last ∧ Attempted key body before outcomes ∧
      StopsAt options.maxAttempts.toNat outcomes ∧
      ((Except.ok () ∈ outcomes ∧ last = [] ∧ ∃ n, r = .ok (.succeeded n)) ∨
        ∃ error sent, Except.ok () ∉ outcomes ∧ outcomes.getLast? = some (.error error) ∧
          Runs (sink .r2PutFailed (.arr (events.map CaptureEvent.toJson)) error.toError
            { originalJobId := batchId, attemptsMade := outcomes.length }) last (.done sent) ∧
          r = sent.map fun _ => .failed error.toError outcomes.length) := by
  rw [putR2BatchWithRetry, Flow.bind_eq, retryR2Put_eq hmax hdelay] at hr
  obtain ⟨retried, before, last, rfl, hretry, hrest⟩ := hr.bind_done_inv
  obtain ⟨outcomes, hattempted, hstops, rfl⟩ := runs_putAttempts (Nat.le_refl _) hretry
    fun e he => hcalm e (List.mem_append_left _ he)
  rw [Nat.sub_self, Nat.zero_add] at hrest
  refine ⟨outcomes, before, last, rfl, hattempted, hstops, ?_⟩
  cases hlast : outcomes.getLast? with
  | none =>
    have hnil : outcomes = [] := List.getLast?_eq_none_iff.mp hlast
    rcases hstops.stops with hstop | hstop | ⟨_, hstop, -⟩
    · rw [hnil, List.length_nil] at hstop
      omega
    · rw [hlast] at hstop
      cases hstop
    · rw [hlast] at hstop
      cases hstop
  | some o =>
    cases o with
    | ok u =>
      left
      rw [outcomeOf, hlast] at hrest
      obtain ⟨rfl, rfl⟩ := Runs.done_eq hrest
      exact ⟨List.mem_of_getLast? hlast, rfl, _, rfl⟩
    | error error =>
      right
      rw [outcomeOf, hlast] at hrest
      have hsend : Runs (sendR2PutFailureToDlq events error.toError sink batchId outcomes.length >>=
          fun _ => pure (.failed error.toError outcomes.length) : WorkerFlow R2PutOutcome) last
          (.done r) := hrest
      rw [Flow.bind_eq] at hsend
      obtain ⟨sent, h₁, h₂, rfl, hsink, hdone⟩ := hsend.bind_done_inv
      refine ⟨error, sent, hstops.not_ok_mem hlast, rfl, ?_⟩
      cases sent with
      | ok u =>
        obtain ⟨rfl, rfl⟩ := Runs.done_eq hdone
        rw [List.append_nil]
        exact ⟨hsink, rfl⟩
      | error e =>
        obtain ⟨rfl, rfl⟩ := Runs.done_eq hdone
        rw [List.append_nil]
        exact ⟨hsink, rfl⟩

/-- The log of unresolved destinations, if there is one. -/
theorem runs_logUnresolvedDestinations {resolutions : List ResolvedEvent} {n : Nat}
    {f : Unit → WorkerFlow Unit} {h : List WorkerEvent} {r : Except Thrown Unit}
    (hr : Runs (logUnresolvedDestinations resolutions n >>= f : WorkerFlow Unit) h (.done r))
    (hcalm : ∀ e ∈ h, Calm e) :
    ∃ logged rest, h = logged ++ rest ∧ (∀ e ∈ logged, putOf e = none ∧ e.1.stores = false) ∧
      Runs (f ()) rest (.done r) := by
  unfold logUnresolvedDestinations at hr
  dsimp only at hr
  split_ifs at hr
  · exact ⟨[], h, rfl, fun e he => absurd he List.not_mem_nil, hr⟩
  · obtain ⟨rest, rfl, hrest⟩ := runs_logError_inv hr hcalm
    refine ⟨[_], rest, rfl, fun e he => ?_, hrest⟩
    rw [List.mem_singleton.mp he]
    exact ⟨rfl, rfl⟩

theorem Attempted.quietAll {key body : JsString} {quiet h : List WorkerEvent}
    {outcomes : List (Except Thrown Unit)} (ha : Attempted key body h outcomes)
    (hquiet : ∀ e ∈ quiet, putOf e = none ∧ e.1.stores = false) :
    Attempted key body (quiet ++ h) outcomes := by
  induction quiet with
  | nil => exact ha
  | cons e quiet ih =>
    have he := hquiet e List.mem_cons_self
    exact (ih fun e he => hquiet e (List.mem_cons_of_mem _ he)).quiet he.1 he.2

/-- **Theorem (`flush_outcome`).** -/
theorem flush_outcome (P : Platform) (options : CreateFlushBatchOptions)
    (hmax : 1 ≤ options.maxAttempts) (hdelay : 0 ≤ options.initialDelayMs) (first : CaptureEvent)
    (others : List CaptureEvent) (batchId : JsString) (h : List WorkerEvent)
    (r : Except Thrown Unit)
    (hr : Runs (flushBatch P options (first :: others) batchId) h (.done r))
    (hcalm : ∀ e ∈ h, Calm e) : FlushOutcome P options first others batchId h r := by
  rw [flushBatch] at hr
  rcases Runs.call_inv (show Runs (Prog.call (.resolveDestinationsByLinkIds _) _) h (.done r)
    from hr) with ⟨-, hq⟩ | ⟨answer, h₁, rfl, hr₁⟩
  · cases hq
  have hcalm₁ : ∀ e ∈ h₁, Calm e := fun e he => hcalm e (List.mem_cons_of_mem _ he)
  obtain ⟨destinations, rfl⟩ : ∃ destinations, answer = .ok destinations :=
    hcalm _ List.mem_cons_self
  obtain ⟨logged, rest, rfl, hlogged, hrest⟩ := runs_logUnresolvedDestinations hr₁ hcalm₁
  have hrows : Runs (Flow.ofExcept (newEventRows P
      (loggedEventsOf P destinations (first :: others))) >>= _ : WorkerFlow Unit) rest
      (.done r) := hrest
  rw [newEventRows_eq, Flow.ofExcept_ok_bind, Flow.bind_eq] at hrows
  obtain ⟨outcome, h₂, h₃, rfl, hput, hfinal⟩ := hrows.bind_done_inv
  have hput' : Runs (putR2BatchWithRetry (putEventBatch P batchId first.occurredAt.1
      (loggedEventsOf P destinations (first :: others))) (first :: others) batchId options.dlqSink
      ⟨options.maxAttempts, options.initialDelayMs⟩) h₂ (.done outcome) := hput
  rw [putEventBatch_eq] at hput'
  obtain ⟨outcomes, before, last, rfl, hattempted, hstops, hend⟩ :=
    runs_putR2BatchWithRetry hmax hdelay hput' fun e he =>
      hcalm₁ e (List.mem_append_right _ (List.mem_append_left _ he))
  have hbefore : Attempted (eventKey batchId first.occurredAt.time)
      (serializeBatch (loggedEventsOf P destinations (first :: others)))
      (⟨.resolveDestinationsByLinkIds ((first :: others).map fun event => event.linkId.1).eraseDups,
        .ok destinations⟩ :: (logged ++ before)) outcomes :=
    (hattempted.quietAll hlogged).quiet rfl rfl
  refine ⟨destinations, outcomes, _, last ++ h₃, ?_, hbefore, hstops, ?_⟩
  · simp only [List.cons_append, List.append_assoc]
  rcases hend with ⟨hok, rfl, n, rfl⟩ | ⟨error, sent, hno, hlast, hsink, rfl⟩
  · left
    refine ⟨hok, ?_⟩
    rw [List.nil_append]
    exact Runs.await_done_inv hfinal
  · right
    refine ⟨error, hno, hlast, ?_⟩
    cases sent with
    | ok u =>
      obtain ⟨rfl, rfl⟩ := Runs.done_eq hfinal
      rw [List.append_nil]
      exact hsink
    | error e =>
      obtain ⟨rfl, rfl⟩ := Runs.done_eq hfinal
      rw [List.append_nil]
      exact hsink

/-- A write that may be tried again. -/
def timedOut : Thrown :=
  .error (lit "TimeoutError") (lit "Connection timed out") none false none none

/-- A write that is not tried again. -/
def accessDenied : Thrown :=
  .error (lit "AccessDenied") (lit "Access Denied") none false (some 403) none

/-- An environment in which no link is found and no write succeeds: the first one times out, and the
next one is denied. -/
def denyingHandler : Handler WorkerOp WorkerOp.Response := fun h op =>
  match op with
  | .resolveDestinationsByLinkIds _ => .ok fun _ => none
  | .putObject .. => .error (if (h.filterMap putOf).isEmpty then timedOut else accessDenied)
  | .insertEvents _ => .ok ()
  | .addDlqEntry _ => .ok ()
  | .cleanDlq .. => .ok ()
  | .lastCleanAttemptAtMs => (0 : Int)
  | .setLastCleanAttemptAtMs _ => ()
  | .countInFlightJob _ => ()
  | .add _ => .ok ()
  | .now => (0 : Int)
  | .newId => ([] : JsString)
  | .sleep _ => ()
  | .logError .. => .ok ()

theorem calm_denyingHandler (h : List WorkerEvent) (op : WorkerOp) :
    Calm ⟨op, denyingHandler h op⟩ := by
  cases op with
  | resolveDestinationsByLinkIds => exact ⟨_, rfl⟩
  | logError => exact rfl
  | _ => trivial

/-- **Two failed writes**, after which the batch is in the dead-letter queue. -/
theorem flush_outcome_denied : ∃ h : List WorkerEvent,
    (h.filterMap putOf).map Prod.snd = [.error timedOut, .error accessDenied] ∧
    (∃ entry, ⟨.addDlqEntry entry, .ok ()⟩ ∈ h) ∧
    FlushOutcome Platform.plain { dlqSink := DlqService.send Platform.plain {} }
      (CaptureEvent.plain (lit "go")) [] (lit "batch") h (.ok ()) := by
  let options : CreateFlushBatchOptions := { dlqSink := DlqService.send Platform.plain {} }
  obtain ⟨h, hrun, hr⟩ := runs_run denyingHandler []
    (flushBatch Platform.plain options [CaptureEvent.plain (lit "go")] (lit "batch"))
  have hcalm : ∀ e ∈ h, Calm e := by
    intro e he
    obtain ⟨before, after, rfl⟩ := List.append_of_mem he
    have hanswer : e.2 = denyingHandler before e.1 :=
      run_answers denyingHandler [] _ hrun (Nat.zero_le _)
    have hcalm := calm_denyingHandler before e.1
    rw [← hanswer] at hcalm
    exact hcalm
  rw [List.nil_append] at hrun
  refine ⟨h, ?_, ?_, flush_outcome _ _ (by decide) (by decide) _ _ _ _ _ hr hcalm⟩
  · rw [← hrun]
    rfl
  · rw [← hrun]
    exact ⟨_, List.mem_of_getElem? (i := 7) rfl⟩

end Posta
