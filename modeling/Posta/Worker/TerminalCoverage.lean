import Posta.Worker.Consumer

/-!
# Which failed jobs reach the dead-letter queue

The queue attempts a job until an attempt completes, until the attempts are used up, or until the
job has stalled once too often, and it emits `failed` for every attempt that threw and for a job
given up as stalled. `onFailed` tells a final failure from one that will be retried by comparing
`attemptsMade` with the attempts allowed. Only an attempt that throws counts as made.

**Theorem (`terminal_coverage_iff`).** Over any sequence of attempts, every final failure reaches
the dead-letter queue (or the failure to send it is logged) and no other failure does, if and only
if the job is not given up as stalled with attempts left.
-/

namespace Posta

open Js Interaction

/-! ## The queue -/

/-- How an attempt at a job ends. -/
inductive Attempt where
  | completed
  | threw (error : Thrown)
  | stalled

def Attempt.isThrow : Attempt → Bool
  | .threw _ => true
  | _ => false

def Attempt.isStall : Attempt → Bool
  | .stalled => true
  | _ => false

inductive JobStatus where
  | live
  | completed
  | failed
  deriving DecidableEq

structure QueuedJob where
  job : Job
  stalledCounter : Nat := 0
  status : JobStatus := .live

/-- An emission of `failed`. A final one is the last thing that happens to the job. -/
structure FailedEmission where
  job : Job
  error : Thrown
  final : Bool

/-- How often a job may stall, and the error it is given up with. -/
structure StallPolicy where
  maxStalledCount : Nat
  stalledError : Thrown

/-- `job.opts.attempts ?? 1`. -/
def Job.attemptsAllowed (job : Job) : Nat := job.attempts.getD 1

def Job.counted (job : Job) : Job := { job with attemptsMade := job.attemptsMade + 1 }

namespace QueuedJob

/-- One attempt at a live job, and what is emitted. -/
def attempt (policy : StallPolicy) (q : QueuedJob) : Attempt → QueuedJob × List FailedEmission
  | .completed => ({ q with status := .completed }, [])
  | .threw error =>
    let job := q.job.counted
    if job.attemptsAllowed ≤ job.attemptsMade then
      ({ q with job, status := .failed }, [⟨job, error, true⟩])
    else ({ q with job }, [⟨job, error, false⟩])
  | .stalled =>
    let stalledCounter := q.stalledCounter + 1
    if policy.maxStalledCount < stalledCounter then
      ({ q with stalledCounter, status := .failed }, [⟨q.job, policy.stalledError, true⟩])
    else ({ q with stalledCounter }, [])

/-- The attempts of a history, up to the one that ends the job. -/
def attempts (policy : StallPolicy) (q : QueuedJob) : List Attempt → QueuedJob × List FailedEmission
  | [] => (q, [])
  | a :: history =>
    if q.status = .live then
      let (q', emitted) := q.attempt policy a
      let (q'', emitted') := q'.attempts policy history
      (q'', emitted ++ emitted')
    else (q, [])

/-- The attempt after `pre` gives the job up as stalled while it has attempts left. -/
def StallsOut (policy : StallPolicy) (q : QueuedJob) (history : List Attempt) : Prop :=
  ∃ pre post, history = pre ++ .stalled :: post ∧ .completed ∉ pre ∧
    q.job.attemptsMade + pre.countP Attempt.isThrow < q.job.attemptsAllowed ∧
    policy.maxStalledCount < q.stalledCounter + pre.countP Attempt.isStall + 1

end QueuedJob

/-! ## What `onFailed` does -/

namespace EventsConsumer

variable (consumer : EventsConsumer)

/-- The entry holds the job's payload, redacted: the event where the schema reads one. -/
def Carries (job : Job) (entry : EventsDlqJobPayload) : Prop :=
  match CaptureEventSchema.safeParse job.data with
  | some event => entry.reason = .attemptsExhausted ∧
      entry.rawPayload = (redactForbiddenKeys event.toJson).1
  | none => entry.reason = .schemaValidationFailed ∧
      entry.rawPayload = (redactForbiddenKeys job.data).1

def unroutedMessage (job : Job) (dlqError : Thrown) : JsString :=
  redactCredentialsFromMessage consumer.platform (exhaustedMessage job ++
    lit " AND failed to route to " ++ lit "events-dlq: " ++ dlqError.errorMessage)

/-- An accepted entry with the job's payload, or the log line that there is none. -/
def SentOrLogged (job : Job) (h : List WorkerEvent) : Prop :=
  (∃ entry, Carries job entry ∧ (⟨.addDlqEntry entry, .ok ()⟩ : WorkerEvent) ∈ h) ∨
    ∃ dlqError logged,
      (⟨.logError (consumer.unroutedMessage job dlqError) (jobMeta job), logged⟩ : WorkerEvent) ∈ h

/-- What the handler of `failed` has to do with an emission: where it is final, every finished run
returns and has sent or logged; otherwise no run adds an entry. -/
def Handles (emission : FailedEmission) : Prop :=
  if emission.final then
    ∀ h r, Runs (consumer.onFailed emission.job emission.error) h (.done r) →
      r = .ok () ∧ consumer.SentOrLogged emission.job h
  else
    ∀ h q, Runs (consumer.onFailed emission.job emission.error) h q →
      ∀ e ∈ h, ∀ entry, e.1 ≠ .addDlqEntry entry

/-- A job given up has a final emission, and every emission is handled. -/
def Covers (policy : StallPolicy) (q : QueuedJob) (history : List Attempt) : Prop :=
  ((q.attempts policy history).1.status = .failed →
    ∃ emission ∈ (q.attempts policy history).2, emission.final = true) ∧
  ∀ emission ∈ (q.attempts policy history).2, consumer.Handles emission

variable {consumer} {job : Job} {error : Thrown}

theorem safeLog_done {message : JsString} {logMeta : LogMeta} {h : List WorkerEvent}
    {r : Except Thrown Unit} (hr : Runs (safeLog message logMeta) h (.done r)) :
    r = .ok () ∧ ∃ logged, h = [⟨.logError message logMeta, logged⟩] := by
  rw [safeLog, Flow.tryCatch_eq] at hr
  obtain ⟨logged, h₁, h₂, rfl, hlog, hcatch⟩ := hr.bind_done_inv
  obtain rfl := Runs.await_done_inv hlog
  cases logged with
  | ok u =>
    obtain ⟨rfl, rfl⟩ := Runs.done_eq hcatch
    exact ⟨rfl, _, rfl⟩
  | error e =>
    obtain ⟨rfl, rfl⟩ := Runs.done_eq hcatch
    exact ⟨rfl, _, rfl⟩

/-- A `send` that returned had its entry accepted. -/
theorem send_ok {P : Platform} {service : DlqService} {reason : DlqReason} {payload : Json}
    {sendMeta : DlqSendMeta} {h : List WorkerEvent}
    (hr : Runs (service.send P reason payload error sendMeta) h (.done (.ok ()))) :
    ∃ now, (⟨.addDlqEntry (DlqService.entry P reason payload error sendMeta now), .ok ()⟩ :
      WorkerEvent) ∈ h := by
  rcases Runs.call_inv
      (show Runs (Prog.call .now _ : WorkerFlow Unit) h (.done (.ok ())) from hr) with
    ⟨-, hq⟩ | ⟨now, h', rfl, hadd⟩
  · cases hq
  rcases Runs.call_inv (show Runs (Prog.call (.addDlqEntry
    (DlqService.entry P reason payload error sendMeta now)) _ : WorkerFlow Unit) h'
    (.done (.ok ())) from hadd) with
    ⟨-, hq⟩ | ⟨added, h'', rfl, hrest⟩
  · cases hq
  cases added with
  | ok u => exact ⟨now, by simp⟩
  | error e =>
    obtain ⟨-, hq⟩ := Runs.done_eq
      (show Runs (.done (.error e) : WorkerFlow Unit) h'' (.done (.ok ())) from hrest)
    cases hq

theorem send_pure_true {P : Platform} {service : DlqService} {reason : DlqReason} {payload : Json}
    {sendMeta : DlqSendMeta} {h : List WorkerEvent} {b : Bool}
    (hr : Runs (service.send P reason payload error sendMeta >>= fun _ => pure true :
      WorkerFlow Bool) h (.done (.ok b))) :
    b = true ∧ ∃ now, (⟨.addDlqEntry (DlqService.entry P reason payload error sendMeta now),
      .ok ()⟩ : WorkerEvent) ∈ h := by
  rw [Flow.bind_eq] at hr
  obtain ⟨sent, h₁, h₂, rfl, hsend, hpure⟩ := hr.bind_done_inv
  cases sent with
  | ok u =>
    obtain ⟨rfl, hb⟩ := Runs.done_eq
      (show Runs (.done (.ok true) : WorkerFlow Bool) h₂ (.done (.ok b)) from hpure)
    cases hb
    obtain ⟨now, hmem⟩ := send_ok hsend
    exact ⟨rfl, now, List.mem_append_left _ hmem⟩
  | error e =>
    obtain ⟨-, hb⟩ := Runs.done_eq
      (show Runs (.done (.error e) : WorkerFlow Bool) h₂ (.done (.ok b)) from hpure)
    cases hb

theorem onFailed_retried (h : job.attemptsMade < job.attemptsAllowed) :
    consumer.onFailed job error = pure () := if_pos h

/-- **The last attempt.** -/
theorem onFailed_sentOrLogged (hlast : job.attemptsAllowed ≤ job.attemptsMade)
    {h : List WorkerEvent} {r : Except Thrown Unit}
    (hr : Runs (consumer.onFailed job error) h (.done r)) :
    r = .ok () ∧ consumer.SentOrLogged job h := by
  rw [onFailed, if_neg (show ¬ job.attemptsMade < job.attempts.getD 1 from not_lt.2 hlast),
    Flow.bind_eq] at hr
  obtain ⟨sent, h₁, h₂, rfl, htry, hr⟩ := hr.bind_done_inv
  rw [Flow.tryCatch_eq] at htry
  obtain ⟨tried, h₃, h₄, rfl, hsend, hcatch⟩ := htry.bind_done_inv
  cases tried with
  | ok b =>
    obtain ⟨rfl, rfl⟩ := Runs.done_eq hcatch
    have hsent : b = true ∧ ∃ entry, Carries job entry ∧
        (⟨.addDlqEntry entry, .ok ()⟩ : WorkerEvent) ∈ h₃ := by
      cases hparse : CaptureEventSchema.safeParse job.data with
      | some event =>
        simp only [hparse] at hsend
        obtain ⟨hb, now, hmem⟩ := send_pure_true hsend
        exact ⟨hb, _, by simp [Carries, hparse, DlqService.entry], hmem⟩
      | none =>
        simp only [hparse] at hsend
        obtain ⟨hb, now, hmem⟩ := send_pure_true hsend
        exact ⟨hb, _, by simp [Carries, hparse, DlqService.entry], hmem⟩
    obtain ⟨rfl, entry, hcarries, hmem⟩ := hsent
    exact ⟨(safeLog_done hr).1, .inl ⟨entry, hcarries, by simp [hmem]⟩⟩
  | error dlqError =>
    rw [Flow.onError, Flow.bind_eq] at hcatch
    obtain ⟨logged, h₅, h₆, rfl, hlog, hfalse⟩ := hcatch.bind_done_inv
    obtain ⟨rfl, logged, rfl⟩ := safeLog_done hlog
    obtain ⟨rfl, rfl⟩ := Runs.done_eq (show Runs (.done (.ok false)) h₆ (.done sent) from hfalse)
    obtain ⟨rfl, rfl⟩ := Runs.done_eq (show Runs (.done (.ok ())) h₂ (.done r) from hr)
    exact ⟨rfl, .inr ⟨dlqError, logged, by simp [unroutedMessage]⟩⟩

theorem handles_retried {error : Thrown} (h : job.attemptsMade < job.attemptsAllowed) :
    consumer.Handles ⟨job, error, false⟩ := by
  intro h' q hr e he
  rw [onFailed_retried h] at hr
  rw [(Runs.done_inv hr).1] at he
  exact absurd he List.not_mem_nil

theorem handles_final_iff {error : Thrown} :
    consumer.Handles ⟨job, error, true⟩ ↔ job.attemptsAllowed ≤ job.attemptsMade := by
  constructor
  · intro h
    by_contra hretried
    obtain ⟨-, hs⟩ := h [] (.ok ()) (by rw [onFailed_retried (not_le.1 hretried)]; exact .nil _)
    rcases hs with ⟨_, _, hmem⟩ | ⟨_, _, hmem⟩
    · exact List.not_mem_nil hmem
    · exact List.not_mem_nil hmem
  · intro h h' r hr
    exact onFailed_sentOrLogged h hr

/-! ## Over the attempts of a job -/

variable {policy : StallPolicy} {q : QueuedJob} {history : List Attempt}

theorem attempts_ended (h : q.status ≠ .live) : q.attempts policy history = (q, []) := by
  cases history with
  | nil => rfl
  | cons a history => rw [QueuedJob.attempts, if_neg h]

theorem covers_completed (hlive : q.status = .live) :
    consumer.Covers policy q (.completed :: history) := by
  simp [Covers, QueuedJob.attempts, hlive, QueuedJob.attempt, attempts_ended]

/-- An attempt that does not end the job. -/
theorem covers_cons {a : Attempt} {q' : QueuedJob} {emitted : List FailedEmission}
    (hlive : q.status = .live) (ha : q.attempt policy a = (q', emitted))
    (hemitted : ∀ emission ∈ emitted, emission.final = false ∧ consumer.Handles emission) :
    consumer.Covers policy q (a :: history) ↔ consumer.Covers policy q' history := by
  simp only [Covers, QueuedJob.attempts, if_pos hlive, ha, List.mem_append]
  refine and_congr (imp_congr_right fun _ => ?_) ?_
  · constructor
    · rintro ⟨emission, hmem | hmem, hfinal⟩
      · rw [(hemitted emission hmem).1] at hfinal
        cases hfinal
      · exact ⟨emission, hmem, hfinal⟩
    · rintro ⟨emission, hmem, hfinal⟩
      exact ⟨emission, .inr hmem, hfinal⟩
  · constructor
    · intro h emission hmem
      exact h emission (.inr hmem)
    · rintro h emission (hmem | hmem)
      · exact (hemitted emission hmem).2
      · exact h emission hmem

/-- The attempt that gives the job up. -/
theorem covers_last {a : Attempt} {q' : QueuedJob} {error : Thrown} (hlive : q.status = .live)
    (ha : q.attempt policy a = (q', [⟨job, error, true⟩])) (hfailed : q'.status = .failed) :
    consumer.Covers policy q (a :: history) ↔ job.attemptsAllowed ≤ job.attemptsMade := by
  have hended : q'.attempts policy history = (q', []) :=
    attempts_ended (by rw [hfailed]; intro h; cases h)
  have hfinal : consumer.Handles ⟨job, error, true⟩ ↔ job.attemptsAllowed ≤ job.attemptsMade :=
    handles_final_iff
  rw [← hfinal]
  simp [Covers, QueuedJob.attempts, hlive, ha, hended]

theorem stallsOut_cons {a : Attempt} {q' : QueuedJob} (hcompleted : a ≠ .completed)
    (hmade : q.job.attemptsMade + (if a.isThrow then 1 else 0) = q'.job.attemptsMade)
    (hallowed : q.job.attemptsAllowed = q'.job.attemptsAllowed)
    (hstalled : q.stalledCounter + (if a.isStall then 1 else 0) = q'.stalledCounter)
    (hcontinues : a = .stalled → q.stalledCounter + 1 ≤ policy.maxStalledCount) :
    q.StallsOut policy (a :: history) ↔ q'.StallsOut policy history := by
  constructor
  · rintro ⟨pre, post, heq, hpre, hattempts, hstalls⟩
    cases pre with
    | nil =>
      cases heq
      have := hcontinues rfl
      simp at hstalls
      omega
    | cons b pre =>
      cases heq
      refine ⟨pre, post, rfl, fun h => hpre (List.mem_cons_of_mem _ h), ?_, ?_⟩
      · rw [List.countP_cons] at hattempts
        omega
      · rw [List.countP_cons] at hstalls
        omega
  · rintro ⟨pre, post, rfl, hpre, hattempts, hstalls⟩
    refine ⟨a :: pre, post, rfl, ?_, ?_, ?_⟩
    · intro h
      rcases List.mem_cons.mp h with h | h
      · exact hcompleted h.symm
      · exact hpre h
    · rw [List.countP_cons]
      omega
    · rw [List.countP_cons]
      omega

theorem covers_iff (hlive : q.status = .live) :
    consumer.Covers policy q history ↔ ¬ q.StallsOut policy history := by
  induction history generalizing q with
  | nil =>
    refine iff_of_true (by simp [Covers, QueuedJob.attempts, hlive]) ?_
    rintro ⟨pre, post, heq, -⟩
    cases pre <;> cases heq
  | cons a history ih =>
    cases a with
    | completed =>
      refine iff_of_true (covers_completed hlive) ?_
      rintro ⟨pre, post, heq, hpre, -⟩
      cases pre with
      | nil => cases heq
      | cons b pre => cases heq; exact hpre List.mem_cons_self
    | threw error =>
      by_cases hlast : q.job.counted.attemptsAllowed ≤ q.job.counted.attemptsMade
      · have hstep : q.attempt policy (.threw error) =
            ({ q with job := q.job.counted, status := .failed }, [⟨q.job.counted, error, true⟩]) :=
          if_pos hlast
        rw [covers_last hlive hstep rfl]
        refine iff_of_true hlast ?_
        rintro ⟨pre, post, heq, -, hattempts, -⟩
        cases pre with
        | nil => cases heq
        | cons b pre =>
          cases heq
          rw [List.countP_cons_of_pos rfl] at hattempts
          change q.job.attemptsAllowed ≤ q.job.attemptsMade + 1 at hlast
          omega
      · let q' : QueuedJob := { q with job := q.job.counted }
        have hstep : q.attempt policy (.threw error) =
            (q', [⟨q.job.counted, error, false⟩]) := if_neg hlast
        have hstalls : q.StallsOut policy (.threw error :: history) ↔ q'.StallsOut policy history :=
          stallsOut_cons (by intro h; cases h) rfl rfl rfl (by intro h; cases h)
        rw [hstalls, ← ih (q := q') hlive]
        exact covers_cons hlive hstep (by simpa using handles_retried (not_le.1 hlast))
    | stalled =>
      by_cases hout : policy.maxStalledCount < q.stalledCounter + 1
      · have hstep : q.attempt policy .stalled =
            ({ q with stalledCounter := q.stalledCounter + 1, status := .failed },
              [⟨q.job, policy.stalledError, true⟩]) := if_pos hout
        rw [covers_last hlive hstep rfl, ← not_lt]
        refine not_congr ⟨fun h => ⟨[], history, rfl, List.not_mem_nil, h, hout⟩, ?_⟩
        rintro ⟨pre, -, -, -, hattempts, -⟩
        exact lt_of_le_of_lt (Nat.le_add_right _ _) hattempts
      · let q' : QueuedJob := { q with stalledCounter := q.stalledCounter + 1 }
        have hstep : q.attempt policy .stalled = (q', []) := if_neg hout
        have hstalls : q.StallsOut policy (.stalled :: history) ↔ q'.StallsOut policy history :=
          stallsOut_cons (by intro h; cases h) rfl rfl rfl fun _ => not_lt.1 hout
        rw [hstalls, ← ih (q := q') hlive]
        exact covers_cons hlive hstep (by simp)

end EventsConsumer

/-- **Theorem (`terminal_coverage_iff`).** Every final failure of a job is sent or logged, and no
other failure is sent, if and only if the job is not given up as stalled with attempts left. -/
theorem terminal_coverage_iff (consumer : EventsConsumer) (policy : StallPolicy) (job : Job)
    (history : List Attempt) :
    consumer.Covers policy { job } history ↔ ¬ QueuedJob.StallsOut policy { job } history :=
  EventsConsumer.covers_iff rfl

/-- A job as the api enqueues it, with the five attempts of `EVENTS_JOB_OPTIONS`. -/
def enqueuedJob : Job where
  id := some (lit "1")
  data := (CaptureEvent.plain (lit "stalled")).toJson
  attemptsMade := 0
  attempts := some 5

/-- BullMQ allows one stall; the second one fails the job, and nothing is sent. -/
theorem terminal_coverage_stalled :
    ¬ plainConsumer.Covers ⟨1, .new (lit "job stalled more than allowable limit")⟩
      { job := enqueuedJob } [.stalled, .stalled] := by
  rw [terminal_coverage_iff, not_not]
  exact ⟨[.stalled], [], rfl, by simp, Nat.succ_pos 4, Nat.lt_succ_self 1⟩

end Posta
