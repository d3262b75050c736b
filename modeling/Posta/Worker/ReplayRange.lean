import Posta.Worker.R2Superset

/-!
# The range of a replay

**Arguments** (`parseReplayArgs`). The two bounds have to be dates in order; the parser of the
command line is the one of the platform.

**Coverage.** An object is filed under the day and hour of the first event of its batch, and holds
the whole batch. So an event of another day is found only in a range that reaches the day of the
first event.

**Theorem (`range_coverage_iff`).** A replay of a range finds the events of a batch in that range
exactly when none is there, or the day of the first event is one of the days of the range.
-/

namespace Posta

open Js Interaction Interaction.Env

/-! ## Arguments -/

/-- What the parser of the command line finds. -/
structure ReplayArgValues where
  rawFrom : Option JsString
  rawTo : Option JsString
  rawTenant : Option JsString
  dryRun : Option Bool
  rawBatchSize : Option JsString

structure ReplayCliOptions where
  rangeFrom : JsString
  rangeTo : JsString
  tenantId : Option JsString
  dryRun : Bool
  batchSize : Option Nat

def replayArgsError (message : JsString) : Thrown :=
  .error (lit "ReplayArgsError") (lit "posta replay: " ++ message) none false none none

def parseRequiredDate (P : Platform) (rawValue : Option JsString) (flag : JsString) :
    Except Thrown (JsString × Int) :=
  match rawValue with
  | none | some [] => .error (replayArgsError (flag ++ lit " is required"))
  | some raw =>
    match P.date raw with
    | none => .error (replayArgsError (flag ++ lit " \"" ++ raw ++
        lit "\" is not a valid ISO-8601 date"))
    | some date => .ok (raw, date)

def maxBatchSize : Nat := 500

/-- `Number.parseInt` of digits, `none` where it is not finite. -/
def parseDigits (raw : JsString) : Option Nat :=
  if natValue raw < 2 ^ 1024 - 2 ^ 970 then some (natValue raw) else none

def parseBatchSize (raw : JsString) : Except Thrown Nat :=
  let isFullyNumeric := raw ≠ [] ∧ raw.all isDigit
  match if isFullyNumeric then parseDigits raw else none with
  | none | some 0 => .error (replayArgsError (lit "--batch-size \"" ++ raw ++
      lit "\" must be a positive integer"))
  | some parsed =>
    if maxBatchSize < parsed then
      .error (replayArgsError (lit "--batch-size \"" ++ raw ++ lit "\" exceeds the maximum of " ++
        natText maxBatchSize ++ lit " (matches EVENT_BATCH_SIZE's own production ceiling " ++
        lit "— apps/worker/src/env.ts)"))
    else .ok parsed

/-- `parseReplayArgs`, after the parser of the command line. -/
def parseReplayArgs (P : Platform) (parseArgs : List JsString → Except Thrown ReplayArgValues)
    (argv : List JsString) : Except Thrown ReplayCliOptions :=
  match parseArgs argv with
  | .error cause =>
    .error (replayArgsError (lit "failed to parse arguments: " ++ cause.errorMessage))
  | .ok values => do
    let (rawFrom, dateFrom) ← parseRequiredDate P values.rawFrom (lit "--from")
    let (rawTo, dateTo) ← parseRequiredDate P values.rawTo (lit "--to")
    if dateTo < dateFrom then
      throw (replayArgsError (lit "--from (\"" ++ rawFrom ++ lit "\") is after --to (\"" ++ rawTo ++
        lit "\") — check for swapped flags"))
    let batchSize ← values.rawBatchSize.mapM parseBatchSize
    return ⟨rawFrom, rawTo, values.rawTenant, values.dryRun.getD false, batchSize⟩

theorem parseRequiredDate_ok {P : Platform} {rawValue : Option JsString} {flag raw : JsString}
    {date : Int} (h : parseRequiredDate P rawValue flag = .ok (raw, date)) :
    P.date raw = some date := by
  unfold parseRequiredDate at h
  split at h
  · cases h
  · cases h
  · split at h
    · cases h
    · cases h
      assumption

/-- Accepted bounds are dates in order. -/
theorem parseReplayArgs_ok {P : Platform}
    {parseArgs : List JsString → Except Thrown ReplayArgValues} {argv : List JsString}
    {options : ReplayCliOptions} (h : parseReplayArgs P parseArgs argv = .ok options) :
    ∃ t₁ t₂, P.date options.rangeFrom = some t₁ ∧ P.date options.rangeTo = some t₂ ∧ t₁ ≤ t₂ := by
  rw [parseReplayArgs] at h
  cases hargs : parseArgs argv with
  | error cause =>
    rw [hargs] at h
    cases h
  | ok values =>
    rw [hargs] at h
    obtain ⟨⟨rawFrom, dateFrom⟩, hfrom, h⟩ := except_bind_eq_ok.mp h
    obtain ⟨⟨rawTo, dateTo⟩, hto, h⟩ := except_bind_eq_ok.mp h
    dsimp only at h
    split_ifs at h with horder
    · obtain ⟨_, hthrow, -⟩ := except_bind_eq_ok.mp h
      cases hthrow
    · obtain ⟨batchSize, -, h⟩ := except_bind_eq_ok.mp h
      cases h
      exact ⟨dateFrom, dateTo, parseRequiredDate_ok hfrom, parseRequiredDate_ok hto,
        not_lt.mp horder⟩

/-! ## What a flush writes -/

/-- An object that is written is the one of the batch, under the key of its first event. -/
def WritesBatch (events : List CaptureEvent) (batchId : JsString) : WorkerOp → Prop
  | .putObject key body => ∃ first rest, events = first :: rest ∧
      key = eventKey batchId first.occurredAt.time ∧
        ∃ logged : List LoggedEvent, logged.map LoggedEvent.event = events ∧
          body = serializeBatch logged
  | _ => True

instance (events : List CaptureEvent) (batchId : JsString) :
    Permits (watching (WritesBatch events batchId) : Env WorkerOp WorkerOp.Response Unit) where
  safe_of_harmless {op} hop _ := by
    cases op with
    | putObject key body => cases hop
    | _ => trivial

section Harmless

variable {W : Type} {E : Env WorkerOp WorkerOp.Response W} [Permits E] {w : W}

theorem completes_send (P : Platform) (service : DlqService) (reason : DlqReason) (payload : Json)
    (error : Thrown) (sendMeta : DlqSendMeta) :
    E.Completes (service.send P reason payload error sendMeta) w := by
  rw [DlqService.send]
  refine completes_seq (completes_call fun r => ⟨.ok r, rfl⟩) fun now v => ?_
  refine completes_seq (completes_call fun r => ⟨r, rfl⟩) fun _ v => ?_
  exact completes_cleanAgedEntriesThrottled service

theorem completes_putR2BatchWithRetry {put : WorkerFlow Unit} (hput : ∀ v, E.Completes put v)
    (P : Platform) (service : DlqService) (events : List CaptureEvent) (batchId : JsString)
    (options : R2RetryOptions) :
    E.Completes (putR2BatchWithRetry put events batchId (service.send P) options) w := by
  have hretry : E.Completes (retryR2Put put options) w := by
    rw [retryR2Put]
    cases options.validate with
    | error e => exact fun _ _ => trivial
    | ok u =>
      have hattempts := ensures_putAttempts (E := E) (w := w) (Q := fun _ => True)
        (fun _ h => h) (fun v _ => hput v) options.maxAttempts.toNat options.initialDelayMs.toNat
        options.maxAttempts.toNat noError
      exact Ensures.mono hattempts (fun _ _ _ => trivial) fun _ _ _ => trivial
  rw [putR2BatchWithRetry]
  refine completes_seq hretry fun outcome v => ?_
  cases outcome with
  | succeeded n => exact completes_pure _
  | failed error attempts =>
    exact completes_seq (completes_send P service _ _ _ _) fun _ _ => completes_pure _

theorem completes_logUnresolvedDestinations (resolutions : List ResolvedEvent) (n : Nat) :
    E.Completes (logUnresolvedDestinations resolutions n) w := by
  unfold logUnresolvedDestinations
  show E.Ensures _ _ (ite _ _ _) w
  split_ifs
  · exact completes_pure _
  · exact completes_logError _ _

end Harmless

variable {P : Platform} {service : DlqService} {maxAttempts initialDelayMs : Int}
  {events : List CaptureEvent} {batchId : JsString} {h : List WorkerEvent} {q : WorkerFlow Unit}

theorem completes_flushBatch :
    (watching (WritesBatch events batchId)).Completes
      (flushBatch P ⟨service.send P, maxAttempts, initialDelayMs⟩ events batchId) () := by
  cases events with
  | nil => exact completes_pure _
  | cons first rest =>
    rw [flushBatch]
    refine completes_seq (completes_call fun r => ⟨r, rfl⟩) fun destinations _ => ?_
    refine completes_seq (completes_logUnresolvedDestinations _ _) fun _ _ => ?_
    show Completes _ (Flow.ofExcept (newEventRows P
      (loggedEventsOf P destinations (first :: rest))) >>= _) ()
    rw [newEventRows_eq, Flow.ofExcept_ok_bind]
    have hput : ∀ v, (watching (WritesBatch (first :: rest) batchId)).Completes
        (putEventBatch P batchId first.occurredAt.1
          (loggedEventsOf P destinations (first :: rest))) v := by
      intro v
      rw [putEventBatch, eventBatchKey_event, Flow.ofExcept_ok_bind]
      refine ensures_call (fun _ _ => ⟨first, rest, rfl, rfl, _, map_event_loggedEventsOf _ _, rfl⟩)
        fun _ _ r _ _ => ?_
      cases r <;> exact fun _ _ => trivial
    refine completes_seq (completes_putR2BatchWithRetry hput P service _ _ _) fun outcome _ => ?_
    cases outcome with
    | failed error attempts => exact completes_pure _
    | succeeded n =>
      refine ensures_call (fun _ _ => trivial) fun _ _ r _ _ => ?_
      cases r <;> exact fun _ _ => trivial

/-- **Everything a flush writes** is its whole batch, under the key of the first event. -/
theorem writesBatch_of_runs
    (hr : Runs (flushBatch P ⟨service.send P, maxAttempts, initialDelayMs⟩ events batchId) h q) :
    ∀ e ∈ h, WritesBatch events batchId e.1 :=
  (performed_of_holds completes_flushBatch hr).1

/-! ## Coverage -/

/-- The events of a batch in a range are stored under one of the prefixes. -/
def RangeCovered (events : List CaptureEvent) (t₁ t₂ : Int) (prefixes : List JsString)
    (key body : JsString) : Prop :=
  ∀ e ∈ events, t₁ ≤ e.occurredAt.time → e.occurredAt.time ≤ t₂ →
    (∃ p ∈ prefixes, p <+: key) ∧ FlushSystem.Contains body e.key

/-- **Theorem (`range_coverage_iff`).** -/
theorem range_coverage_iff
    {parseArgs : List JsString → Except Thrown ReplayArgValues} {argv : List JsString}
    {options : ReplayCliOptions} (hargs : parseReplayArgs P parseArgs argv = .ok options)
    {prefixes : List JsString}
    (hprefixes : eventPrefixes P options.rangeFrom options.rangeTo = .ok prefixes)
    (hr : Runs (flushBatch P ⟨service.send P, maxAttempts, initialDelayMs⟩ events batchId) h q)
    {key body : JsString} {r : Except Thrown Unit}
    (hput : (⟨.putObject key body, r⟩ : WorkerEvent) ∈ h) :
    ∃ t₁ t₂, P.date options.rangeFrom = some t₁ ∧ P.date options.rangeTo = some t₂ ∧ t₁ ≤ t₂ ∧
      (RangeCovered events t₁ t₂ prefixes key body ↔
        (∀ e ∈ events, ¬(t₁ ≤ e.occurredAt.time ∧ e.occurredAt.time ≤ t₂)) ∨
          ∃ first ∈ events.head?, rangeDay t₁ ≤ dayOfTime first.occurredAt.time ∧
            dayOfTime first.occurredAt.time ≤ rangeDay t₂) := by
  obtain ⟨t₁, t₂, h₁, h₂, hle⟩ := parseReplayArgs_ok hargs
  obtain ⟨t₁', t₂', h₁', h₂', -, hcovered⟩ := covered_iff hprefixes
  rw [h₁, Option.some.injEq] at h₁'
  rw [h₂, Option.some.injEq] at h₂'
  subst h₁' h₂'
  obtain ⟨first, rest, rfl, rfl, logged, hlogged, rfl⟩ := writesBatch_of_runs hr _ hput
  have hkey := hcovered batchId first.occurredAt.time
  refine ⟨t₁, t₂, h₁, h₂, hle, ?_⟩
  constructor
  · intro hall
    by_cases hnone : ∀ e ∈ first :: rest, ¬(t₁ ≤ e.occurredAt.time ∧ e.occurredAt.time ≤ t₂)
    · exact Or.inl hnone
    · push Not at hnone
      obtain ⟨e, he, hfrom, hto⟩ := hnone
      exact Or.inr ⟨first, rfl, hkey.mp (hall e he hfrom hto).1⟩
  · rintro (hnone | ⟨first', hfirst, hday⟩) e he hfrom hto
    · exact absurd ⟨hfrom, hto⟩ (hnone e he)
    · cases hfirst
      refine ⟨hkey.mpr hday, logged, rfl, ?_⟩
      rw [← hlogged] at he
      obtain ⟨l, hl, rfl⟩ := List.mem_map.mp he
      exact ⟨l, hl, rfl⟩

/-! ## A batch across midnight -/

/-- An event just before midnight. -/
def lateEvent : CaptureEvent :=
  .taken ⟨lit "01J00000000000000000000002", by decide⟩ ⟨lit "2026-07-21T23:59:00.000Z", by decide⟩

/-- An event just after it. -/
def earlyEvent : CaptureEvent :=
  .taken ⟨lit "01J00000000000000000000003", by decide⟩ ⟨lit "2026-07-22T00:01:00.000Z", by decide⟩

/-- A parser that found the bounds of the second day. -/
def secondDayArgs (_argv : List JsString) : Except Thrown ReplayArgValues :=
  .ok ⟨some (lit "2026-07-22T00:00:00.000Z"), some (lit "2026-07-22T23:59:59.999Z"), none, none, none⟩

def secondDay : ReplayCliOptions :=
  ⟨lit "2026-07-22T00:00:00.000Z", lit "2026-07-22T23:59:59.999Z", none, false, none⟩

theorem parseReplayArgs_secondDay (argv : List JsString) :
    parseReplayArgs Platform.plain secondDayArgs argv = .ok secondDay := rfl

theorem date_secondDay : Platform.plain.date secondDay.rangeFrom = some 1784678400000 ∧
    Platform.plain.date secondDay.rangeTo = some 1784764799999 := ⟨by decide, by decide⟩

theorem eventPrefixes_secondDay : eventPrefixes Platform.plain secondDay.rangeFrom
    secondDay.rangeTo = .ok (dayPrefixes 20656) :=
  eventPrefixes_of_date date_secondDay.1 date_secondDay.2 (by decide) (by decide)

/-- The batch of both, flushed. -/
theorem runs_midnight : Runs (flushBatch Platform.plain ⟨DlqService.send Platform.plain {}, 5, 200⟩
    [lateEvent, earlyEvent] (lit "batch"))
    (flushOps Platform.plain (fun _ => some ⟨lit "tenant", []⟩)
      (eventKey (lit "batch") lateEvent.occurredAt.time) [lateEvent, earlyEvent] (.ok ()))
    (.done (.ok ())) := by
  refine runs_flushBatch (fun e he => ?_) (eventBatchKey_event Platform.plain _ lateEvent) (.ok ())
  rcases List.mem_cons.mp he with rfl | he
  · rfl
  · rw [List.mem_singleton.mp he]
    rfl

/-- Its object is not found on the second day. -/
theorem range_coverage_midnight : ∃ body t₁ t₂,
    (RangeCovered [lateEvent, earlyEvent] t₁ t₂ (dayPrefixes 20656)
        (eventKey (lit "batch") lateEvent.occurredAt.time) body ↔
      (∀ e ∈ [lateEvent, earlyEvent], ¬(t₁ ≤ e.occurredAt.time ∧ e.occurredAt.time ≤ t₂)) ∨
        ∃ first ∈ [lateEvent, earlyEvent].head?,
          rangeDay t₁ ≤ dayOfTime first.occurredAt.time ∧
            dayOfTime first.occurredAt.time ≤ rangeDay t₂) := by
  obtain ⟨t₁, t₂, -, -, -, hiff⟩ := range_coverage_iff (parseReplayArgs_secondDay [])
    eventPrefixes_secondDay runs_midnight (List.mem_cons_of_mem _ List.mem_cons_self)
  exact ⟨_, t₁, t₂, hiff⟩

/-- **A batch across midnight is missed.** The flush writes its object, the arguments of the
replay are accepted, and the event of the second day is under none of the prefixes. -/
theorem midnight_missed : ∃ (h : List WorkerEvent) (key body : JsString) (prefixes : List JsString),
    Runs (flushBatch Platform.plain ⟨DlqService.send Platform.plain {}, 5, 200⟩
      [lateEvent, earlyEvent] (lit "batch")) h (.done (.ok ())) ∧
    (⟨.putObject key body, .ok ()⟩ : WorkerEvent) ∈ h ∧
    parseReplayArgs Platform.plain secondDayArgs [] = .ok secondDay ∧
    eventPrefixes Platform.plain secondDay.rangeFrom secondDay.rangeTo = .ok prefixes ∧
    Platform.plain.date secondDay.rangeFrom = some 1784678400000 ∧
    Platform.plain.date secondDay.rangeTo = some 1784764799999 ∧
    ¬RangeCovered [lateEvent, earlyEvent] 1784678400000 1784764799999 prefixes key body := by
  refine ⟨_, _, _, _, runs_midnight, List.mem_cons_of_mem _ List.mem_cons_self, rfl,
    eventPrefixes_secondDay, date_secondDay.1, date_secondDay.2, fun hall => ?_⟩
  obtain ⟨⟨p, hp, hpre⟩, -⟩ := hall earlyEvent (List.mem_cons_of_mem _ List.mem_cons_self)
    (by decide) (by decide)
  obtain ⟨hour, -, rfl⟩ := List.mem_map.mp hp
  have hday := (partitionPrefix_starts.mp hpre).1
  exact absurd hday (by decide)

end Posta
