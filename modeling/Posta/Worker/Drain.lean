import Mathlib.Algebra.BigOperators.Group.List.Basic
import Mathlib.Algebra.Order.BigOperators.Group.List
import Posta.Worker.Acknowledgement

/-!
# Graceful drain

**Invariant** (`WorkerSystem.DrainInv`). The count of jobs in flight is the sum of what the
deliveries of this worker contribute to it; every event of the accumulator belongs to such a
delivery; and a flight that has not ended has a promise left to settle (`Ends`).

So a flight that has not ended keeps some job inside `process`, and the two counters that the loop
of `drain` looks at cannot both be zero.

**Theorem (`drain_complete`).** When `drain` resolves, no job is inside `process`, no batch is
open, no flush is in flight, and every event that was added has had its job settled with the
outcome of the flush of its own batch.
-/

namespace Posta

open Js Interaction Lists

/-! ## A flight that has not ended -/

section Flights

variable {T : Type} {batchSize : Nat}

/-- The program settles `n` more promises, and ends with the last one. -/
def Ends : AccFlow T Unit → Nat → Prop
  | .done _, n => n = 0
  | .call op k, n => 0 < n ∧ ∀ r, Ends (k r) (n - op.settlement.toList.length)

theorem ends_resolveWaiters {f : Except Thrown Unit → AccFlow T Unit} (hf : Ends (f (.ok ())) 0)
    (waiters : List Nat) : Ends (Prog.bind (resolveWaiters waiters) f) waiters.length := by
  induction waiters with
  | nil => exact hf
  | cons waiter waiters ih => exact ⟨Nat.succ_pos _, fun _ => ih⟩

theorem ends_rejectWaiters {error : Thrown} {f : Except Thrown Unit → AccFlow T Unit}
    (hf : Ends (f (.ok ())) 0) (waiters : List Nat) :
    Ends (Prog.bind (rejectWaiters error waiters) f) waiters.length := by
  induction waiters with
  | nil => exact hf
  | cons waiter waiters ih => exact ⟨Nat.succ_pos _, fun _ => ih⟩

/-- After the flush, `runFlush` ends with the last promise of the batch. -/
theorem runFlush_ends (events : List T) (batchId : JsString) {waiters : List Nat}
    (hne : waiters ≠ []) :
    ∃ k : Except Thrown Unit → AccFlow T Unit,
      runFlush events batchId waiters = .call (.flush events batchId) k ∧
        ∀ outcome, Ends (k outcome) waiters.length := by
  have hpos := List.length_pos_iff.mpr hne
  refine ⟨_, by rw [runFlush, Flow.tryCatch_eq, Flow.bind_eq]; rfl, fun outcome => ?_⟩
  cases outcome with
  | ok u =>
    refine ⟨hpos, fun now => ⟨hpos, fun _ => ?_⟩⟩
    refine ends_resolveWaiters ?_ waiters
    rfl
  | error error =>
    refine ⟨hpos, fun logged => ?_⟩
    cases logged with
    | ok u =>
      refine ends_rejectWaiters ?_ waiters
      rfl
    | error e =>
      refine ends_rejectWaiters ?_ waiters
      rfl

/-- What is left to settle is what the program settles. -/
theorem Settles.length_eq {outcome : Except Thrown Unit} {p : AccFlow T Unit} {todo : List Nat}
    {n : Nat} (h : Settles outcome p todo) (he : Ends p n) : n = todo.length := by
  induction p generalizing todo n with
  | done r =>
    obtain ⟨rfl, -⟩ := h
    exact he
  | call op k ih =>
    obtain ⟨hpos, he⟩ := he
    cases op with
    | flush events batchId => exact h.elim
    | resolve w =>
      obtain ⟨-, rest, rfl, hk⟩ := h
      have hrest := ih () (hk ()) (he ())
      have hrest : n - 1 = rest.length := hrest
      rw [List.length_cons]
      omega
    | reject w error =>
      obtain ⟨-, rest, rfl, hk⟩ := h
      have hrest := ih () (hk ()) (he ())
      have hrest : n - 1 = rest.length := hrest
      rw [List.length_cons]
      omega
    | now => exact ih (0 : Int) (h (0 : Int)) (he (0 : Int))
    | setLastFlushAt time => exact ih () (h ()) (he ())
    | logError message logMeta => exact ih (.ok ()) (h (.ok ())) (he (.ok ()))

/-- A flight ends with its last promise, once its flush has settled. -/
def Flight.EndsLast (f : Flight T) : Prop := f.outcome = none ∨ ∃ n, Ends f.rest n

theorem Flight.EndsLast.after {s : Accumulator T} (hinv : s.Inv batchSize) {f : Flight T}
    (hf : f ∈ s.flights) (h : f.EndsLast) {op : AccOp T} {k : op.Response → AccFlow T Unit}
    (hrest : f.rest = .call op k) (r : op.Response) : (f.after op k r).EndsLast := by
  refine Or.inr ?_
  rcases h with hnone | ⟨n, hends⟩
  · rcases hinv.phases f hf with ⟨-, hrun, -⟩ | ⟨outcome, todo, hout, -⟩
    · have hne : f.waiters ≠ [] := by
        rw [ne_eq, ← List.length_eq_zero_iff, (hinv.flight_size f hf).1, List.length_eq_zero_iff]
        exact (hinv.flight_size f hf).2.1
      obtain ⟨k₀, hk₀, hends⟩ := runFlush_ends f.events f.batchId hne
      rw [hrest, hk₀] at hrun
      cases hrun
      exact ⟨_, hends r⟩
    · rw [hnone] at hout
      cases hout
  · rw [hrest] at hends
    exact ⟨_, hends.2 r⟩

/-- **A flight that has not ended has a promise left to settle.** -/
theorem Flight.exists_waiting {s : Accumulator T} (hinv : s.Inv batchSize) {f : Flight T}
    (hf : f ∈ s.flights) (h : f.EndsLast) (hrest : ∀ r, f.rest ≠ .done r) :
    ∃ w ∈ f.waiters, w ∉ s.settled.map Prod.fst := by
  rcases hinv.phases f hf with ⟨-, -, hall⟩ | ⟨outcome, todo, hout, hsettles, hsub, hno, -⟩
  · have hlen : 0 < f.waiters.length := by
      rw [(hinv.flight_size f hf).1]
      exact List.length_pos_iff.mpr (hinv.flight_size f hf).2.1
    exact ⟨_, List.getElem_mem hlen, hall _ (List.getElem_mem hlen)⟩
  · rcases h with hnone | ⟨n, hends⟩
    · rw [hnone] at hout
      cases hout
    · have hlen := hsettles.length_eq hends
      have hpos : 0 < n := by
        cases hp : f.rest with
        | done r => exact absurd hp (hrest r)
        | call op k =>
          rw [hp] at hends
          exact hends.1
      rw [hlen] at hpos
      exact ⟨_, hsub.subset (List.getElem_mem hpos), hno _ (List.getElem_mem hpos)⟩

end Flights

/-! ## The count of jobs -/

/-- What an operation adds to the count of jobs in flight. -/
def WorkerOp.change : WorkerOp → Int
  | .countInFlightJob change => change
  | _ => 0

theorem WorkerOp.change_of_plain {op : WorkerOp} (hop : op.plain = true) : op.change = 0 := by
  cases op with
  | countInFlightJob change => cases hop
  | _ => rfl

theorem WorkerOp.plain_of_failed {op : WorkerOp} {r : op.Response} (h : op.failed r = true) :
    op.plain = true := by
  cases op with
  | countInFlightJob change => cases h
  | add event => cases h
  | _ => rfl

namespace World

variable {pg : Postgres} {w w' : World}

theorem effect_count {op : WorkerOp} (he : w.effect pg op = some w') :
    w'.inFlightJobCount = w.inFlightJobCount + op.change ∧ w'.inFlight = w.inFlight := by
  cases op with
  | insertEvents rows =>
    simp only [World.effect] at he
    cases hi : insertEventsBatch pg w.events rows with
    | error e =>
      rw [hi] at he
      cases he
    | ok table =>
      rw [hi] at he
      cases he
      exact ⟨(add_zero _).symm, rfl⟩
  | add event => cases he
  | countInFlightJob change =>
    cases he
    exact ⟨rfl, rfl⟩
  | _ =>
    cases he
    exact ⟨(add_zero _).symm, rfl⟩

theorem exec_count {op : WorkerOp} {r : op.Response} (he : Exec pg op w r w') :
    w'.inFlightJobCount = w.inFlightJobCount + op.change ∧
      ∀ o ∈ w'.inFlight, o ∈ w.inFlight ∨ o.plain = true := by
  obtain ⟨-, he | ⟨hf, rfl | rfl⟩⟩ := he
  · obtain ⟨hcount, hflight⟩ := effect_count he
    exact ⟨hcount, fun o ho => Or.inl (hflight ▸ ho)⟩
  · rw [WorkerOp.change_of_plain (WorkerOp.plain_of_failed hf), add_zero]
    exact ⟨rfl, fun o ho => Or.inl ho⟩
  · rw [WorkerOp.change_of_plain (WorkerOp.plain_of_failed hf), add_zero]
    refine ⟨rfl, fun o ho => ?_⟩
    rcases List.mem_cons.mp ho with rfl | ho
    · exact Or.inr (WorkerOp.plain_of_failed hf)
    · exact Or.inl ho

theorem lands_count {op : WorkerOp} (hplain : ∀ o ∈ w.inFlight, o.plain = true)
    (hl : Lands pg op w w') :
    w'.inFlightJobCount = w.inFlightJobCount ∧ ∀ o ∈ w'.inFlight, o ∈ w.inFlight := by
  obtain ⟨before, after, hflight, he⟩ := hl
  obtain ⟨hcount, hrest⟩ := effect_count he
  have hop : op.plain = true := hplain op (by rw [hflight]; simp)
  rw [WorkerOp.change_of_plain hop, add_zero] at hcount
  refine ⟨hcount, fun o ho => ?_⟩
  rw [hrest] at ho
  rw [hflight]
  rcases List.mem_append.mp ho with ho | ho
  · exact List.mem_append_left _ ho
  · exact List.mem_append_right _ (List.mem_cons_of_mem _ ho)

end World

theorem JobTrace.count_step (t : JobTrace) (op : WorkerOp) (r : op.Response) :
    (t.step ⟨op, r⟩).count = t.count + op.change := by
  cases op with
  | countInFlightJob change => rfl
  | _ => exact (add_zero _).symm

namespace Delivery

/-- What a delivery contributes to the count of jobs in flight. -/
def contribution (d : Delivery) : Int := if d.alive then d.trace.count else 0

theorem entered_of_past {d : Delivery} (h : d.past ≠ []) : d.trace.entered = true := by
  rw [trace]
  rcases List.eq_nil_or_concat d.past with hnil | ⟨past, e, hpast⟩
  · exact absurd hnil h
  · rw [hpast, List.concat_eq_append, List.foldl_append]
    exact JobTrace.entered_step _ e

variable {d : Delivery}

/-- A job inside `process` is counted. -/
theorem count_of_running (h : JobTrace.Traced d.job d.rest d.trace) (hpast : d.past ≠ [])
    (hrest : ∀ r, d.rest ≠ .done r) : d.trace.count = 1 := by
  cases hp : d.rest with
  | done r => exact absurd hp (hrest r)
  | call op k =>
    rw [hp] at h
    have hpermits : JobTrace.Permits d.job op d.trace := h.1
    cases op with
    | countInFlightJob change =>
      rcases hpermits with ⟨-, hentered, -⟩ | ⟨-, hcount⟩
      · rw [entered_of_past hpast] at hentered
        cases hentered
      · exact hcount
    | add event => exact hpermits.2.1
    | _ => exact hpermits

theorem count_nonneg (h : JobTrace.Traced d.job d.rest d.trace) : 0 ≤ d.trace.count := by
  by_cases hpast : d.past = []
  · rw [trace, hpast]
    exact le_refl 0
  · cases hp : d.rest with
    | done r =>
      rw [hp] at h
      exact le_of_eq h.1.symm
    | call op k =>
      rw [count_of_running h hpast (fun r hr => by rw [hp] at hr; cases hr)]
      exact zero_le_one

end Delivery

namespace WorkerSystem

variable {pg : Postgres} {consumer : EventsConsumer} {options : BatchAccumulatorOptions}
  {s s' : WorkerSystem}

/-! ## The invariant -/

/-- Every event of the accumulator belongs to a delivery of this worker. -/
def Held (added : List CaptureEvent) (deliveries : List Delivery) : Prop :=
  ∀ n < added.length, ∃ d ∈ deliveries, d.alive = true ∧ d.place = some n

structure DrainInv (s : WorkerSystem) : Prop where
  count : s.world.inFlightJobCount = (s.deliveries.map Delivery.contribution).sum
  late : ∀ op ∈ s.world.inFlight, op.plain = true
  flushes : ∀ run ∈ s.flushes, Plain run.thread.rest
  held : Held s.accumulator.added s.deliveries
  ends : ∀ f ∈ s.accumulator.flights, f.EndsLast

/-- A delivery goes on in its place. -/
theorem Held.set {added : List CaptureEvent} {deliveries : List Delivery}
    (h : Held added deliveries) {i : Nat} {d d' : Delivery} (hd : deliveries[i]? = some d)
    (halive : d'.alive = true) (hplace : ∀ n, d.place = some n → d'.place = some n) :
    Held added (deliveries.set i d') := by
  intro n hn
  obtain ⟨d₀, hd₀, halive₀, hplace₀⟩ := h n hn
  by_cases heq : d₀ = d
  · have hi : i < deliveries.length := (List.getElem?_eq_some_iff.mp hd).1
    exact ⟨d', List.mem_set hi _, halive, hplace n (heq ▸ hplace₀)⟩
  · exact ⟨d₀, mem_set_of_ne hd₀ hd heq d', halive₀, hplace₀⟩

theorem count_set {deliveries : List Delivery} {c c' : Int} {i : Nat} {d d' : Delivery}
    (h : c = (deliveries.map Delivery.contribution).sum) (hd : deliveries[i]? = some d)
    (halive : d.alive = true) (halive' : d'.alive = true)
    (hc : c' = c - d.trace.count + d'.trace.count) :
    c' = ((deliveries.set i d').map Delivery.contribution).sum := by
  rw [sum_map_set hd, Delivery.contribution, if_pos halive, Delivery.contribution, if_pos halive',
    ← h, hc]

/-- A change of the stores that leaves the count alone. -/
theorem DrainInv.world_step (h : s.DrainInv) {w : World}
    (hcount : w.inFlightJobCount = s.world.inFlightJobCount)
    (hlate : ∀ op ∈ w.inFlight, op.plain = true) : ({ s with world := w } : WorkerSystem).DrainInv :=
  ⟨hcount.trans h.count, hlate, h.flushes, h.held, h.ends⟩

/-- Batches were handed over. -/
theorem DrainInv.triggerFlush (h : s.DrainInv) :
    ({ s with accumulator := s.accumulator.triggerFlush } : WorkerSystem).DrainInv := by
  obtain ⟨more, hflights, hnone⟩ := s.accumulator.triggerFlush_extends.flights
  refine ⟨h.count, h.late, h.flushes, ?_, fun f hf => ?_⟩
  · have hadded : s.accumulator.triggerFlush.added = s.accumulator.added := by
      rw [Accumulator.triggerFlush]
      cases s.accumulator.currentBatch <;> rfl
    show Held s.accumulator.triggerFlush.added s.deliveries
    rw [hadded]
    exact h.held
  · have hf : f ∈ s.accumulator.triggerFlush.flights := hf
    rw [hflights] at hf
    exact (List.mem_append.mp hf).elim (h.ends f) fun hf => Or.inl (hnone f hf)

/-- An operation of a `runFlush`. -/
theorem DrainInv.answer_step (hinv : s.Inv pg consumer options) (h : s.DrainInv) {i : Nat}
    {f : Flight CaptureEvent} (hf : s.accumulator.flights[i]? = some f)
    {op : AccOp CaptureEvent} {k : op.Response → AccFlow CaptureEvent Unit}
    (hrest : f.rest = .call op k) (r : op.Response) :
    ({ s with accumulator := s.accumulator.answer i f op k r } : WorkerSystem).DrainInv := by
  have hmem := List.mem_of_getElem? hf
  rw [Accumulator.answer_frame]
  refine ⟨h.count, h.late, h.flushes, h.held, fun g hg => ?_⟩
  rcases List.mem_or_eq_of_mem_set hg with hg | rfl
  · exact h.ends g hg
  · exact Flight.EndsLast.after hinv.accumulator.1 hmem (h.ends f hmem) hrest r

/-- **One step keeps the invariant.** -/
theorem drainInv_step (hinv : s.Inv pg consumer options)
    (hstep : Step pg consumer options s s') (h : s.DrainInv) : s'.DrainInv := by
  cases hstep with
  | deliver job =>
    refine ⟨?_, h.late, h.flushes, fun n hn => ?_, h.ends⟩
    · show s.world.inFlightJobCount = ((s.deliveries ++ [_]).map Delivery.contribution).sum
      rw [List.map_append, List.sum_append, ← h.count]
      exact (add_zero _).symm
    · obtain ⟨d, hd, hplace⟩ := h.held n hn
      exact ⟨d, List.mem_append_left _ hd, hplace⟩
  | job i d hd halive op k hrest r w hexec =>
    obtain ⟨hcount, hlate⟩ := World.exec_count hexec
    refine ⟨count_set h.count hd halive halive ?_, fun o ho => (hlate o ho).elim (h.late o) id,
      h.flushes, h.held.set hd halive fun _ hn => hn, h.ends⟩
    rw [Delivery.trace_answer, JobTrace.count_step]
    show w.inFlightJobCount = _
    omega
  | add i d hd halive event k hrest hplace newId hfresh =>
    obtain ⟨hext, hadded, -⟩ : s.accumulator.Extends
        (s.accumulator.add options.batchSize.toNat newId.1 event) ∧ _ ∧ _ :=
      Accumulator.add_extends s.accumulator newId.1 event
    have hi : i < s.deliveries.length := (List.getElem?_eq_some_iff.mp hd).1
    refine ⟨count_set h.count hd halive halive (sub_add_cancel _ _).symm, h.late, h.flushes,
      fun n hn => ?_, fun f hf => ?_⟩
    · have hn : n < (s.accumulator.add options.batchSize.toNat newId.1 event).added.length := hn
      rw [hadded, List.length_append, List.length_singleton] at hn
      by_cases heq : n = s.accumulator.added.length
      · exact ⟨_, List.mem_set hi _, halive, heq ▸ rfl⟩
      · have hset : Held s.accumulator.added
            (s.deliveries.set i { d with place := some s.accumulator.added.length }) :=
          h.held.set hd halive fun m hm => by rw [hplace] at hm; cases hm
        exact hset n (by omega)
    · obtain ⟨more, hflights, hnone⟩ := hext.flights
      have hf : f ∈ (s.accumulator.add options.batchSize.toNat newId.1 event).flights := hf
      rw [hflights] at hf
      exact (List.mem_append.mp hf).elim (h.ends f) fun hf => Or.inl (hnone f hf)
  | settle i d hd halive event k hrest n hn outcome hsettled =>
    have htrace : (d.answer (.add event) k outcome).trace.count = d.trace.count := by
      have hanswer : (d.answer (.add event) k outcome).trace = d.trace.step ⟨.add event, outcome⟩ :=
        Delivery.trace_answer d (.add event) k outcome
      rw [hanswer]
      rfl
    refine ⟨count_set h.count hd halive halive ?_, h.late, h.flushes,
      h.held.set hd halive fun _ hn => hn, h.ends⟩
    rw [htrace]
    exact (sub_add_cancel _ _).symm
  | fire timer hlive =>
    rw [Accumulator.fire_eq hinv.accumulator.1 hlive]
    exact h.triggerFlush
  | flushNow => exact h.triggerFlush
  | flight i f hf op k hrest hop r => exact h.answer_step hinv hf hrest r
  | begin i f hf root k hrest hnew =>
    refine ⟨h.count, h.late, fun run hrun => ?_, h.held, h.ends⟩
    rcases List.mem_append.mp hrun with hrun | hrun
    · exact h.flushes run hrun
    · rw [List.mem_singleton.mp hrun]
      exact plain_productionFlush _ _ _ _
  | flush j run hrun op k hrest r w hexec =>
    have hplain := h.flushes run (List.mem_of_getElem? hrun)
    rw [hrest] at hplain
    obtain ⟨hcount, hlate⟩ := World.exec_count hexec
    rw [WorkerOp.change_of_plain hplain.1, add_zero] at hcount
    have h := h.world_step hcount fun o ho => (hlate o ho).elim (h.late o) id
    refine ⟨h.count, h.late, fun run' hrun' => ?_, h.held, h.ends⟩
    rcases List.mem_or_eq_of_mem_set hrun' with hrun' | rfl
    · exact h.flushes run' hrun'
    · exact hplain.2 r
  | flushed run hrun outcome hdone f hf events batchId k hrest =>
    exact h.answer_step hinv hf hrest outcome
  | outside op hop hplain r w hexec =>
    obtain ⟨hcount, hlate⟩ := World.exec_count hexec
    rw [WorkerOp.change_of_plain hplain, add_zero] at hcount
    exact h.world_step hcount fun o ho => (hlate o ho).elim (h.late o) id
  | land op w hland =>
    obtain ⟨hcount, hlate⟩ := World.lands_count h.late hland
    exact h.world_step hcount fun o ho => h.late o (hlate o ho)
  | crash late hlate now accumulator hnew =>
    obtain ⟨-, hnew'⟩ := Accumulator.new_eq hnew
    refine ⟨?_, fun op hop => ?_, fun run hrun => absurd hrun List.not_mem_nil, fun n hn => ?_,
      fun f hf => ?_⟩
    · show 0 = ((s.deliveries.map _).map Delivery.contribution).sum
      rw [List.map_map]
      refine (List.sum_eq_zero fun c hc => ?_).symm
      obtain ⟨d, -, rfl⟩ := List.mem_map.mp hc
      rfl
    · rcases List.mem_append.mp hop with hop | hop
      · exact h.late op hop
      · exact (hlate op hop).1
    · have hn : n < accumulator.added.length := hn
      rw [hnew'] at hn
      exact absurd hn (Nat.not_lt_zero n)
    · have hf : f ∈ accumulator.flights := hf
      rw [hnew'] at hf
      cases hf
  | drain _ hdrain =>
    obtain ⟨point, rfl | rfl⟩ := drain_frame hdrain
    · exact ⟨h.count, h.late, h.flushes, h.held, h.ends⟩
    · have h := h.triggerFlush
      exact ⟨h.count, h.late, h.flushes, h.held, h.ends⟩

theorem Reachable.drainInv (h : Reachable pg consumer options s) : s.DrainInv := by
  obtain ⟨now, accumulator, hnew, hrun⟩ := h
  obtain ⟨hpos, hnew'⟩ := Accumulator.new_eq hnew
  have hstart : (started accumulator).DrainInv := by
    rw [hnew']
    refine ⟨rfl, ?_, ?_, fun n hn => absurd hn (Nat.not_lt_zero n), ?_⟩
    · exact fun op hop => absurd hop List.not_mem_nil
    · exact fun run hrun => absurd hrun List.not_mem_nil
    · exact fun f hf => absurd hf List.not_mem_nil
  exact (invariant_of_steps (I := fun v : WorkerSystem => v.Inv pg consumer options ∧ v.DrainInv)
    (fun _ _ hstep hv => ⟨step_inv hpos hstep hv.1, drainInv_step hv.1 hstep hv.2⟩) hrun
    ⟨inv_started hnew, hstart⟩).2

/-! ## The end of the drain -/

/-- `drain` resolves where its loop ends. -/
theorem resolved_step (hstep : Step pg consumer options s s') (hbefore : s.drain ≠ .resolved)
    (hafter : s'.drain = .resolved) : s' = { s with drain := .resolved } ∧ ¬s.Undrained := by
  cases hstep with
  | drain _ hdrain =>
    cases hdrain with
    | leave h hdone => exact ⟨rfl, hdone⟩
    | _ => cases hafter
  | crash late hlate now accumulator hnew => cases hafter
  | _ => exact absurd hafter hbefore

/-- With no job counted, no delivery of this worker contributes. -/
theorem DrainInv.count_eq_zero (hinv : s.Inv pg consumer options) (h : s.DrainInv)
    (hzero : s.world.inFlightJobCount ≤ 0) {d : Delivery} (hd : d ∈ s.deliveries)
    (halive : d.alive = true) : d.trace.count = 0 := by
  have hnonneg : ∀ c ∈ s.deliveries.map Delivery.contribution, 0 ≤ c := by
    intro c hc
    obtain ⟨d', hd', rfl⟩ := List.mem_map.mp hc
    rw [Delivery.contribution]
    split_ifs
    · exact Delivery.count_nonneg (hinv.deliveries d' hd').traced
    · exact le_refl 0
  have hle := List.single_le_sum hnonneg d.contribution (List.mem_map_of_mem hd)
  rw [← h.count, Delivery.contribution, if_pos halive] at hle
  have hge := Delivery.count_nonneg (hinv.deliveries d hd).traced
  omega

/-- A job that has had its answer, and is not counted, has settled as it was answered. -/
theorem done_of_answer {d : Delivery} (h : JobTrace.Traced d.job d.rest d.trace)
    (hcount : d.trace.count = 0) {outcome : Except Thrown Unit}
    (hanswer : d.trace.answer = some outcome) : d.rest = .done outcome := by
  cases hp : d.rest with
  | done r =>
    rw [hp] at h
    rw [h.2 outcome hanswer]
  | call op k =>
    have hpast : d.past ≠ [] := by
      intro hnil
      rw [Delivery.trace, hnil] at hanswer
      cases hanswer
    have hone := Delivery.count_of_running h hpast fun r hr => by rw [hp] at hr; cases hr
    rw [hcount] at hone
    cases hone

/-- **Theorem (`drain_complete`).** When `drain` resolves, no job is inside `process`, no batch is
open and no flush is in flight; and every event that was added since the worker started belongs to
a job that has settled with the outcome of the flush of its own batch. -/
theorem drain_complete (h : Reachable pg consumer options s)
    (hstep : Step pg consumer options s s') (hbefore : s.drain ≠ .resolved)
    (hafter : s'.drain = .resolved) :
    (∀ d ∈ s'.deliveries, ¬d.Inside) ∧ s'.accumulator.currentBatch = none ∧
    (∀ f ∈ s'.accumulator.flights, ∃ r, f.rest = .done r) ∧
    ∀ (n : Nat) (event : CaptureEvent), s'.accumulator.added[n]? = some event →
      (∃ d ∈ s'.deliveries, d.alive = true ∧ d.place = some n) ∧
      ∀ d ∈ s'.deliveries, d.alive = true → d.place = some n →
        CaptureEventSchema.safeParse d.job.data = some event ∧
        ∃ f ∈ s'.accumulator.flights, ∃ outcome, (event, n) ∈ f.events.zip f.waiters ∧
          f.outcome = some outcome ∧
          (∃ run ∈ s'.flushes, run.thread.batch.2 = f.events ∧ run.thread.rest = .done outcome) ∧
          d.rest = .done outcome := by
  obtain ⟨rfl, hdone⟩ := resolved_step hstep hbefore hafter
  have hinv := h.inv
  have hdrain := h.drainInv
  rw [Undrained, not_or, not_lt, not_lt] at hdone
  have hcount : ∀ d ∈ s.deliveries, d.alive = true → d.trace.count = 0 := fun d hd halive =>
    hdrain.count_eq_zero hinv hdone.1 hd halive
  refine ⟨fun d hd hinside => ?_, ?_, fun f hf => ?_, fun n event hevent => ⟨?_, ?_⟩⟩
  · obtain ⟨halive, hpast, hrest⟩ := hinside
    have hone := Delivery.count_of_running (hinv.deliveries d hd).traced hpast hrest
    rw [hcount d hd halive] at hone
    cases hone
  · cases hb : s.accumulator.currentBatch with
    | none => rfl
    | some b =>
      have hopen : b ∈ s.accumulator.openBatches := by
        rw [Accumulator.openBatches, hb]
        exact List.mem_singleton_self _
      have hne := List.length_pos_iff.mpr (hinv.accumulator.1.open_size b hopen).2.1
      have hsize : s.accumulator.size = b.events.length := by rw [Accumulator.size, hb]
      have hzero := hdone.2
      omega
  · by_contra hrest
    -- the flight keeps a job inside
    obtain ⟨w, hw, hno⟩ := Flight.exists_waiting hinv.accumulator.1 hf (hdrain.ends f hf)
      fun r hr => hrest ⟨r, hr⟩
    obtain ⟨e, -, he⟩ := hinv.accumulator.1.event_of_waiter hf hw
    obtain ⟨d, hd, halive, hplace⟩ := hdrain.held w (List.getElem?_eq_some_iff.mp he).1
    have hdelivery := hinv.deliveries d hd
    obtain ⟨event, -, -, ⟨-, k, hk⟩ | ⟨outcome, -, hm⟩⟩ := hdelivery.place halive w hplace
    · have htraced := hdelivery.traced
      rw [hk] at htraced
      have hone : d.trace.count = 1 := htraced.1.2.1
      rw [hcount d hd halive] at hone
      cases hone
    · exact hno (List.mem_map_of_mem hm)
  · exact hdrain.held n (List.getElem?_eq_some_iff.mp hevent).1
  · intro d hd halive hplace
    have hdelivery := hinv.deliveries d hd
    obtain ⟨event', hparse, hevent', hwait⟩ := hdelivery.place halive n hplace
    have hevent : s.accumulator.added[n]? = some event := hevent
    rw [hevent, Option.some.injEq] at hevent'
    subst hevent'
    refine ⟨hparse, ?_⟩
    rcases hwait with ⟨-, k, hk⟩ | ⟨outcome, hanswer, hm⟩
    · have htraced := hdelivery.traced
      rw [hk] at htraced
      have hone : d.trace.count = 1 := htraced.1.2.1
      rw [hcount d hd halive] at hone
      cases hone
    · obtain ⟨f, hf, hn, hout⟩ := hinv.accumulator.1.settled _ hm
      obtain ⟨e, hzip, he⟩ := hinv.accumulator.1.event_of_waiter hf hn
      rw [hevent, Option.some.injEq] at he
      subst he
      obtain ⟨i, hi⟩ := List.mem_iff_getElem?.mp hf
      obtain ⟨run, hrun, rfl, hend⟩ := hinv.outcomes i f outcome hi hout
      obtain ⟨g, hg, hbatch, -⟩ := (hinv.flushes run hrun).flight
      rw [hi, Option.some.injEq] at hg
      subst hg
      exact ⟨f, hf, outcome, hzip, hout, ⟨run, hrun, hbatch.symm, hend⟩,
        done_of_answer hdelivery.traced (hcount d hd halive) hanswer⟩

/-- **A drain with an open batch.** A job waits for its event in an open batch; `drain` hands the
batch over, waits for its flush, and finds nothing left after the job has returned. -/
theorem exists_drained (consumer : EventsConsumer) {job : Job} {event : CaptureEvent}
    (hparse : CaptureEventSchema.safeParse job.data = some event) (root : Ulid) :
    ∃ s s', Reachable acceptingPostgres consumer ⟨2, 1000⟩ s ∧
      s.accumulator.size = 1 ∧ s.drain = .checking ∧
      Relation.ReflTransGen (Step acceptingPostgres consumer ⟨2, 1000⟩) s s' ∧
      s'.drain = .checking ∧ s'.accumulator.added = [event] ∧ ¬s'.Undrained := by
  obtain ⟨k, hprocess, hk⟩ : ∃ k : Except Thrown Unit → WorkerFlow Unit,
      consumer.process job = _ ∧ _ := EventsConsumer.process_valid hparse
  obtain ⟨h, hr, hexecs⟩ := exists_flushed consumer event root
  have hadded : Relation.ReflTransGen (Step acceptingPostgres consumer ⟨2, 1000⟩) _ _ :=
    steps_to_added ⟨2, 1000⟩ 0 root hprocess
  let added : Accumulator CaptureEvent := .add 2 root.1 ⟨none, 0, [], [], 0, [], [], []⟩ event
  let w : World := { World.empty with inFlightJobCount := 1 }
  let waiting : Delivery := ⟨job, [⟨.countInFlightJob 1, ()⟩], .call (.add event) k, some 0, true⟩
  let s₁ : WorkerSystem := ⟨w, added, [root], [waiting], [], .checking⟩
  let s₂ : WorkerSystem :=
    ⟨w, oneFlight 0 root event none (runFlush [event] root.1 [0]) [], [root], [waiting], [],
      .flushing (some 0)⟩
  have hchecking : Relation.ReflTransGen _ (started _) s₁ :=
    (hadded.tail (.drain _ _ (.start _ rfl))).tail (.drain _ _ (.paused _ rfl))
  have henter : DrainStep s₁ s₂ := .enter s₁ rfl (Or.inr Nat.one_pos)
  obtain ⟨w', d, runs, hsteps, -, -, hcount⟩ :=
    steps_of_oneFlight ⟨2, 1000⟩ 0 hk hr hexecs (.flushing (some 0))
  let ended : Accumulator CaptureEvent :=
    oneFlight 0 root event (some (.ok ())) (.done (.ok ())) [(0, .ok ())]
  let s₃ : WorkerSystem := ⟨w', ended, [root], [d], runs, .flushing (some 0)⟩
  let s₄ : WorkerSystem := { s₃ with drain := .polling }
  have hflushed : DrainStep s₃ s₄ := .flushed s₃ 0 rfl _ rfl rfl
  have hidle : ¬0 < s₄.pendingJobCount := not_lt.mpr (le_of_eq hcount)
  have hagain : DrainStep s₄ { s₃ with drain := .checking } := .again s₄ rfl hidle
  refine ⟨s₁, { s₃ with drain := .checking }, ⟨0, _, rfl, hchecking⟩, rfl, rfl, ?_, rfl, rfl, ?_⟩
  · exact (((Relation.ReflTransGen.single (.drain _ _ henter)).trans hsteps).tail
      (.drain _ _ hflushed)).tail (.drain _ _ hagain)
  · exact not_or.mpr ⟨hidle, lt_irrefl 0⟩

theorem drain_complete_flushed : ∃ s s' : WorkerSystem,
    Reachable acceptingPostgres plainConsumer ⟨2, 1000⟩ s ∧
      s.accumulator.size = 1 ∧ s.drain = .checking ∧
      Relation.ReflTransGen (Step acceptingPostgres plainConsumer ⟨2, 1000⟩) s s' ∧
      s'.drain = .resolved ∧ s'.accumulator.added ≠ [] ∧
      ∀ f ∈ s'.accumulator.flights, ∃ r, f.rest = .done r := by
  have hparse : CaptureEventSchema.safeParse (jobOf (CaptureEvent.plain (lit "slug"))).data =
      some (CaptureEvent.plain (lit "slug")) := by decide +kernel
  obtain ⟨s, s', hs, hsize, hchecking, hsteps, hdrain, hadded, hdone⟩ :=
    exists_drained plainConsumer hparse ⟨lit "01J00000000000000000000001", by decide⟩
  have hleave : Step acceptingPostgres plainConsumer ⟨2, 1000⟩ s'
      { s' with drain := .resolved } := .drain _ _ (.leave s' hdrain hdone)
  have hnot : s'.drain ≠ .resolved := fun h => by rw [hdrain] at h; cases h
  obtain ⟨now, accumulator, hnew, hrun⟩ := hs
  refine ⟨s, _, ⟨now, accumulator, hnew, hrun⟩, hsize, hchecking, hsteps.tail hleave, rfl, ?_,
    (drain_complete ⟨now, accumulator, hnew, hrun.trans hsteps⟩ hleave hnot rfl).2.2.1⟩
  show s'.accumulator.added ≠ []
  rw [hadded]
  exact List.cons_ne_nil _ _

end WorkerSystem

end Posta
