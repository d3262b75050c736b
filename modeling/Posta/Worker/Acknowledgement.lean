import Posta.Worker.AccumulatorRuns
import Posta.Worker.FlushRuns
import Posta.Worker.WorkerSystem

/-!
# No acknowledged event is lost

**Invariant** (`WorkerSystem.Inv`). The invariants of the world and of the accumulator; for each
delivery and each flush, the judgement that what it makes durable is durable when it returns; and
the links between them: a waiting job waits for the place of its own event, a flush works on the
batch of its flight, and a flight has settled as its flush ended.

**Theorem (`acknowledged_secured`).** In every state of every run, a job whose `process` has
returned normally is taken care of; a job that had not returned when the worker crashed is never
acknowledged by that delivery; and no event has two rows.
-/

namespace Posta

open Js Interaction Interaction.Env

namespace World

variable {pg : Postgres} {w w' : World}

theorem effect_batches {op : WorkerOp} (he : w.effect pg op = some w') :
    w'.batches = w.batches := by
  cases op with
  | insertEvents rows =>
    simp only [World.effect] at he
    cases hi : insertEventsBatch pg w.events rows with
    | error e =>
      rw [hi] at he
      cases he
    | ok table =>
      rw [hi] at he
      cases he
      rfl
  | add event => cases he
  | _ =>
    cases he
    rfl

theorem exec_batches {op : WorkerOp} {r : op.Response} (he : Exec pg op w r w') :
    w'.batches = w.batches := by
  obtain ⟨-, he | ⟨-, rfl | rfl⟩⟩ := he
  · exact effect_batches he
  · rfl
  · rfl

theorem lands_batches {op : WorkerOp} (hl : Lands pg op w w') : w'.batches = w.batches := by
  obtain ⟨before, after, -, he⟩ := hl
  exact (effect_batches he).trans rfl

/-- Only the accumulator answers an `add`. -/
theorem not_exec_add {event : CaptureEvent} {r : (WorkerOp.add event).Response} :
    ¬Exec pg (.add event) w r w' := by
  rintro ⟨-, he | ⟨hf, -⟩⟩
  · cases he
  · cases hf

end World

namespace WorkerSystem

variable {pg : Postgres} {consumer : EventsConsumer} {options : BatchAccumulatorOptions}
  {s s' : WorkerSystem}

/-! ## The invariant -/

/-- A delivery takes care of its job before it returns. When its event has a place, it waits there
for its own event, or the promise of that place has settled as it was told. -/
structure DeliveryInv (pg : Postgres) (consumer : EventsConsumer)
    (accumulator : Accumulator CaptureEvent) (w : World) (d : Delivery) : Prop where
  judgement : (workerEnv consumer.platform pg).Ensures
    (fun _ u => Established consumer.platform (World.Secured · d.job) u) (fun _ _ => True) d.rest w
  traced : JobTrace.Traced d.job d.rest d.trace
  place : d.alive = true → ∀ n, d.place = some n → ∃ event,
    CaptureEventSchema.safeParse d.job.data = some event ∧ accumulator.added[n]? = some event ∧
      ((d.trace.answer = none ∧ ∃ k, d.rest = .call (.add event) k) ∨
        ∃ outcome, d.trace.answer = some outcome ∧ (n, outcome) ∈ accumulator.settled)

/-- A flush makes the batch of its flight durable. -/
structure FlushRunInv (pg : Postgres) (consumer : EventsConsumer)
    (accumulator : Accumulator CaptureEvent) (w : World) (run : FlushRun) : Prop where
  thread : FlushSystem.ThreadInv consumer.platform pg run.thread w
  flight : ∃ f, accumulator.flights[run.flight]? = some f ∧ f.events = run.thread.batch.2 ∧
    f.batchId = run.thread.batch.1.1

structure Inv (pg : Postgres) (consumer : EventsConsumer) (options : BatchAccumulatorOptions)
    (s : WorkerSystem) : Prop where
  world : s.world.Inv consumer.platform
  accumulator : s.accumulator.Inv options.batchSize.toNat ∧
    s.accumulator.NotFull options.batchSize.toNat
  deliveries : ∀ d ∈ s.deliveries, DeliveryInv pg consumer s.accumulator s.world d
  flushes : ∀ run ∈ s.flushes, FlushRunInv pg consumer s.accumulator s.world run
  outcomes : ∀ i f outcome, s.accumulator.flights[i]? = some f → f.outcome = some outcome →
    ∃ run ∈ s.flushes, run.flight = i ∧ run.thread.rest = .done outcome
  roots : ∀ b ∈ s.world.batches, b.1 ∈ s.issued
  begun : ∀ b ∈ s.world.batches, b.1.1 ∈ s.accumulator.batchIds →
    ∃ run ∈ s.flushes, run.thread.batch = b
  ids : ∀ id ∈ s.accumulator.batchIds, ∃ root ∈ s.issued, root.1 = id

theorem DeliveryInv.world_mono {accumulator : Accumulator CaptureEvent} {w w' : World}
    {d : Delivery} (hw : w'.Inv consumer.platform ∧ World.Grows consumer.platform w w')
    (h : DeliveryInv pg consumer accumulator w d) : DeliveryInv pg consumer accumulator w' d :=
  ⟨Holds.rely h.judgement fun _ => hw, h.traced, h.place⟩

/-- More was added, and more has settled. -/
theorem DeliveryInv.accumulator_mono {accumulator accumulator' : Accumulator CaptureEvent}
    {w : World} {d : Delivery}
    (hadded : ∀ {n : Nat} {e : CaptureEvent}, accumulator.added[n]? = some e →
      accumulator'.added[n]? = some e)
    (hsettled : accumulator.settled ⊆ accumulator'.settled)
    (h : DeliveryInv pg consumer accumulator w d) : DeliveryInv pg consumer accumulator' w d := by
  refine ⟨h.judgement, h.traced, fun halive n hplace => ?_⟩
  obtain ⟨event, hparse, hevent, hrest⟩ := h.place halive n hplace
  refine ⟨event, hparse, hadded hevent, hrest.imp_right ?_⟩
  rintro ⟨outcome, hanswer, hm⟩
  exact ⟨outcome, hanswer, hsettled hm⟩

theorem FlushRunInv.world_mono {accumulator : Accumulator CaptureEvent} {w w' : World}
    {run : FlushRun} (hw : w'.Inv consumer.platform ∧ World.Grows consumer.platform w w')
    (h : FlushRunInv pg consumer accumulator w run) : FlushRunInv pg consumer accumulator w' run :=
  ⟨h.thread.mono hw, h.flight⟩

/-- A change of the stores that every program may see. -/
theorem Inv.world_step (h : s.Inv pg consumer options) {w : World}
    (hw : w.Inv consumer.platform ∧ World.Grows consumer.platform s.world w)
    (hb : w.batches = s.world.batches) :
    ({ s with world := w } : WorkerSystem).Inv pg consumer options where
  world := hw.1
  accumulator := h.accumulator
  deliveries d hd := (h.deliveries d hd).world_mono hw
  flushes run hrun := (h.flushes run hrun).world_mono hw
  outcomes := h.outcomes
  roots b hm := h.roots b (hb ▸ hm)
  begun b hm := h.begun b (hb ▸ hm)
  ids := h.ids

/-- Events were added or a batch was handed over. -/
theorem Inv.accumulator_step (h : s.Inv pg consumer options)
    {accumulator : Accumulator CaptureEvent} {issued : List Ulid}
    (hinv : accumulator.Inv options.batchSize.toNat ∧ accumulator.NotFull options.batchSize.toNat)
    (hext : s.accumulator.Extends accumulator) (hsub : s.issued ⊆ issued)
    (hids : ∀ id ∈ accumulator.batchIds, id ∈ s.accumulator.batchIds ∨
      ∃ root ∈ issued, root.1 = id ∧ root ∉ s.issued) :
    ({ s with accumulator, issued } : WorkerSystem).Inv pg consumer options where
  world := h.world
  accumulator := hinv
  deliveries d hd := (h.deliveries d hd).accumulator_mono hext.place
    (by rw [hext.settled]; exact fun _ hp => hp)
  flushes run hrun := by
    obtain ⟨f, hf, hbatch⟩ := (h.flushes run hrun).flight
    exact ⟨(h.flushes run hrun).thread, f, hext.flight hf, hbatch⟩
  outcomes i f outcome hf hout := h.outcomes i f outcome (hext.flight_of_outcome hf hout) hout
  roots b hb := hsub (h.roots b hb)
  begun b hb hid := by
    rcases hids _ hid with hid | ⟨root, -, hroot, hnew⟩
    · exact h.begun b hb hid
    · -- a new id is the id of no batch that was flushed before
      rw [Subtype.ext hroot] at hnew
      exact absurd (h.roots b hb) hnew
  ids id hid := by
    rcases hids id hid with hid | ⟨root, hroot, heq, -⟩
    · obtain ⟨root, hroot, heq⟩ := h.ids id hid
      exact ⟨root, hsub hroot, heq⟩
    · exact ⟨root, hroot, heq⟩

theorem Inv.triggerFlush (h : s.Inv pg consumer options) :
    ({ s with accumulator := s.accumulator.triggerFlush } : WorkerSystem).Inv pg consumer
      options := by
  refine h.accumulator_step (Accumulator.triggerFlush_inv h.accumulator.1)
    s.accumulator.triggerFlush_extends (fun _ hr => hr) fun id hid => Or.inl ?_
  rw [Accumulator.triggerFlush] at hid
  cases hb : s.accumulator.currentBatch with
  | none =>
    rw [hb] at hid
    exact hid
  | some b =>
    rw [hb] at hid
    exact hid

/-- One delivery goes on. -/
theorem Inv.delivery_step (h : s.Inv pg consumer options) (i : Nat) {d : Delivery}
    (hd : DeliveryInv pg consumer s.accumulator s.world d) :
    ({ s with deliveries := s.deliveries.set i d } : WorkerSystem).Inv pg consumer options where
  world := h.world
  accumulator := h.accumulator
  deliveries d' hd' := by
    rcases List.mem_or_eq_of_mem_set hd' with hd' | rfl
    · exact h.deliveries d' hd'
    · exact hd
  flushes := h.flushes
  outcomes := h.outcomes
  roots := h.roots
  begun := h.begun
  ids := h.ids

/-- An operation of a `runFlush`. The outcome it leaves is the result of a flush of the batch. -/
theorem Inv.answer_step (h : s.Inv pg consumer options) {i : Nat} {f : Flight CaptureEvent}
    (hf : s.accumulator.flights[i]? = some f) {op : AccOp CaptureEvent}
    {k : op.Response → AccFlow CaptureEvent Unit} (hrest : f.rest = .call op k) (r : op.Response)
    (hout : ∀ outcome, (f.after op k r).outcome = some outcome →
      ∃ run ∈ s.flushes, run.flight = i ∧ run.thread.rest = .done outcome) :
    ({ s with accumulator := s.accumulator.answer i f op k r } : WorkerSystem).Inv pg consumer
      options := by
  have hi : i < s.accumulator.flights.length := (List.getElem?_eq_some_iff.mp hf).1
  have hinv := Accumulator.answer_inv h.accumulator.1 h.accumulator.2 hf hrest r
  rw [Accumulator.answer_frame] at hinv ⊢
  refine ⟨h.world, hinv, fun d hd => (h.deliveries d hd).accumulator_mono (fun he => by exact he)
    (by exact List.subset_append_left _ _), fun run hrun => ⟨(h.flushes run hrun).thread, ?_⟩, ?_,
    h.roots, h.begun, h.ids⟩
  · obtain ⟨g, hg, hbatch⟩ := (h.flushes run hrun).flight
    by_cases hij : i = run.flight
    · subst hij
      rw [hf, Option.some.injEq] at hg
      subst hg
      exact ⟨_, List.getElem?_set_self hi, hbatch⟩
    · exact ⟨g, (List.getElem?_set_ne hij).trans hg, hbatch⟩
  · intro j g outcome hg hgout
    by_cases hij : i = j
    · subst hij
      have hg : (s.accumulator.flights.set i (f.after op k r))[i]? = some g := hg
      rw [List.getElem?_set_self hi, Option.some.injEq] at hg
      subst hg
      exact hout outcome hgout
    · exact h.outcomes j g outcome ((List.getElem?_set_ne hij).symm.trans hg) hgout

/-- The root id of a flight whose flush has not begun is fresh. -/
theorem Inv.root_fresh (h : s.Inv pg consumer options) {i : Nat} {f : Flight CaptureEvent}
    (hf : s.accumulator.flights[i]? = some f) {root : Ulid} (hroot : root.1 = f.batchId)
    (hnew : ∀ run ∈ s.flushes, run.flight ≠ i) : root ∉ s.world.batches.map Prod.fst := by
  intro hm
  obtain ⟨b, hb, rfl⟩ := List.mem_map.mp hm
  have hflight : ∀ {j : Nat} {g : Flight CaptureEvent}, s.accumulator.flights[j]? = some g →
      (s.accumulator.flights.map Flight.batchId)[j]? = some g.batchId := by
    intro j g hg
    rw [List.getElem?_map, hg]
    rfl
  have hids := h.accumulator.1.ids
  have hid : b.1.1 ∈ s.accumulator.batchIds := by
    rw [hroot, ← hids]
    exact List.mem_append_left _ (List.mem_map_of_mem (List.mem_of_getElem? hf))
  obtain ⟨run, hrun, hbatch⟩ := h.begun b hb hid
  obtain ⟨g, hg, -, hgid⟩ := (h.flushes run hrun).flight
  -- the flight of that flush has the same id
  have hnodup : (s.accumulator.flights.map Flight.batchId).Nodup :=
    (List.nodup_append.mp (hids ▸ h.accumulator.1.ids_nodup)).1
  have hlt : run.flight < (s.accumulator.flights.map Flight.batchId).length := by
    rw [List.length_map]
    exact (List.getElem?_eq_some_iff.mp hg).1
  refine hnew run hrun ((List.getElem?_inj hlt hnodup).mp ?_)
  rw [hflight hg, hflight hf, hgid, hbatch, hroot]

/-- What a running flush is about to do is safe. -/
theorem Inv.safe_of_pending (h : s.Inv pg consumer options) {op : WorkerOp} (hop : s.Pending op) :
    World.Safe consumer.platform op s.world := by
  rcases hop.2 with hop | ⟨run, hrun, k, hrest⟩
  · exact WorkerOp.safe_of_harmless hop _
  · have hthread := (h.flushes run hrun).thread.2
    rw [hrest] at hthread
    exact Holds.safe hthread

/-- **A promise that has resolved** is that of a durable event. -/
theorem Inv.durable_of_settled (h : s.Inv pg consumer options) {n : Nat} {event : CaptureEvent}
    (hsettled : (n, .ok ()) ∈ s.accumulator.settled)
    (hevent : s.accumulator.added[n]? = some event) : s.world.Durable event := by
  obtain ⟨f, hf, hn, hout⟩ := h.accumulator.1.settled _ hsettled
  obtain ⟨i, hi⟩ := List.mem_iff_getElem?.mp hf
  obtain ⟨run, hrun, rfl, hdone⟩ := h.outcomes i f _ hi hout
  obtain ⟨g, hg, hevents, -⟩ := (h.flushes run hrun).flight
  rw [hi, Option.some.injEq] at hg
  subst hg
  have hthread := (h.flushes run hrun).thread.2
  rw [hdone] at hthread
  have hdurable : AllDurable run.thread.batch.2 s.world := (Holds.result hthread).2
  obtain ⟨e, hplace, he⟩ := h.accumulator.1.event_of_waiter hf hn
  rw [hevent, Option.some.injEq] at he
  subst he
  exact hdurable event (hevents ▸ (List.of_mem_zip hplace).1)

/-- Of the rest of the worker, `drain` changes the accumulator only, and asks it to flush. -/
theorem drain_frame (h : DrainStep s s') :
    ∃ point, s' = { s with drain := point } ∨
      s' = { s with accumulator := s.accumulator.triggerFlush, drain := point } := by
  cases h with
  | enter h hmore => exact ⟨_, Or.inr rfl⟩
  | _ => exact ⟨_, Or.inl rfl⟩

/-- A flush goes on. -/
theorem Inv.flush_step (h : s.Inv pg consumer options) {j : Nat} {run : FlushRun}
    (hrun : s.flushes[j]? = some run) (hrest : ∀ r, run.thread.rest ≠ .done r)
    {rest : WorkerFlow Unit}
    (hnext : (workerEnv consumer.platform pg).Ensures
      (fun _ u => Established consumer.platform (AllDurable run.thread.batch.2) u)
      (fun _ _ => True) rest s.world) :
    ({ s with flushes := s.flushes.set j { run with thread := { run.thread with rest } } } :
      WorkerSystem).Inv pg consumer options := by
  have hmem := List.mem_of_getElem? hrun
  have hj : j < s.flushes.length := (List.getElem?_eq_some_iff.mp hrun).1
  refine ⟨h.world, h.accumulator, h.deliveries, fun run' hrun' => ?_, ?_, h.roots, ?_, h.ids⟩
  · rcases List.mem_or_eq_of_mem_set hrun' with hrun' | rfl
    · exact h.flushes run' hrun'
    · exact ⟨⟨(h.flushes run hmem).thread.1, hnext⟩, (h.flushes run hmem).flight⟩
  · intro i f outcome hf hout
    obtain ⟨run', hrun', hflight, hdone⟩ := h.outcomes i f outcome hf hout
    refine ⟨run', Lists.mem_set_of_ne hrun' hrun ?_ _, hflight, hdone⟩
    rintro rfl
    exact hrest _ hdone
  · intro b hb hid
    obtain ⟨run', hrun', hbatch⟩ := h.begun b hb hid
    by_cases heq : run' = run
    · rw [heq] at hbatch
      exact ⟨_, List.mem_set hj _, hbatch⟩
    · exact ⟨run', Lists.mem_set_of_ne hrun' hrun heq _, hbatch⟩

/-- The flush of a batch begins. -/
theorem Inv.begin_step (h : s.Inv pg consumer options) {i : Nat} {f : Flight CaptureEvent}
    (hf : s.accumulator.flights[i]? = some f) {root : Ulid} (hroot : root.1 = f.batchId)
    (hnew : ∀ run ∈ s.flushes, run.flight ≠ i) :
    ({ s with
      world := { s.world with batches := s.world.batches ++ [(root, f.events)] }
      flushes := s.flushes ++ [⟨i, (root, f.events),
        productionFlush consumer.platform consumer.dlq f.events root.1⟩] } :
      WorkerSystem).Inv pg consumer options := by
  have hw := World.spawn_grows (b := (root, f.events)) (h.root_fresh hf hroot hnew) h.world
  have hb : (root, f.events) ∈ s.world.batches ++ [(root, f.events)] :=
    List.mem_append_right _ (List.mem_singleton_self _)
  refine ⟨hw.1, h.accumulator, fun d hd => (h.deliveries d hd).world_mono hw, fun run hrun => ?_,
    ?_, fun b hb => ?_, fun b hb hid => ?_, h.ids⟩
  · rcases List.mem_append.mp hrun with hrun | hrun
    · exact (h.flushes run hrun).world_mono hw
    · rw [List.mem_singleton.mp hrun]
      exact ⟨⟨hb, ensures_productionFlush consumer.dlq hw.1 hb⟩, f, hf, rfl, hroot.symm⟩
  · intro j g outcome hg hout
    obtain ⟨run, hrun, hdone⟩ := h.outcomes j g outcome hg hout
    exact ⟨run, List.mem_append_left _ hrun, hdone⟩
  · rcases List.mem_append.mp hb with hb | hb
    · exact h.roots b hb
    · rw [List.mem_singleton.mp hb]
      have hid : root.1 ∈ s.accumulator.batchIds := by
        rw [hroot, ← h.accumulator.1.ids]
        exact List.mem_append_left _ (List.mem_map_of_mem (List.mem_of_getElem? hf))
      obtain ⟨root', hroot', heq⟩ := h.ids _ hid
      rw [← Subtype.ext heq]
      exact hroot'
  · rcases List.mem_append.mp hb with hb | hb
    · obtain ⟨run, hrun, hbatch⟩ := h.begun b hb hid
      exact ⟨run, List.mem_append_left _ hrun, hbatch⟩
    · exact ⟨_, List.mem_append_right _ (List.mem_singleton_self _), (List.mem_singleton.mp hb).symm⟩

/-- **One step keeps the invariant.** -/
theorem step_inv (hpos : 0 < options.batchSize.toNat) (hstep : Step pg consumer options s s')
    (h : s.Inv pg consumer options) : s'.Inv pg consumer options := by
  cases hstep with
  | deliver job =>
    refine ⟨h.world, h.accumulator, fun d hd => ?_, h.flushes, h.outcomes, h.roots, h.begun, h.ids⟩
    rcases List.mem_append.mp hd with hd | hd
    · exact h.deliveries d hd
    · rw [List.mem_singleton.mp hd]
      exact ⟨ensures_process h.world, EventsConsumer.process_traced consumer job,
        fun _ n hplace => by cases hplace⟩
  | job i d hd halive op k hrest r w hexec =>
    obtain ⟨hjudgement, htraced, hplace⟩ := h.deliveries d (List.mem_of_getElem? hd)
    rw [hrest] at hjudgement htraced
    have hw := World.exec_grows (Holds.safe hjudgement) hexec h.world
    have hop : ∀ event, op ≠ .add event := by
      rintro event rfl
      exact World.not_exec_add hexec
    refine (h.world_step hw (World.exec_batches hexec)).delivery_step i
      ⟨Holds.answer hjudgement (workerExec_of_exec hexec), ?_, fun halive n hn => ?_⟩
    · rw [Delivery.trace_answer]
      exact htraced.2 r _ rfl
    · obtain ⟨event, hparse, hevent, hwait⟩ := hplace halive n hn
      refine ⟨event, hparse, hevent, Or.inr ?_⟩
      rcases hwait with ⟨-, k', hk'⟩ | ⟨outcome, hanswer, hm⟩
      · rw [hrest] at hk'
        injection hk' with heq
        exact absurd heq (hop event)
      · refine ⟨outcome, ?_, hm⟩
        rw [Delivery.trace_answer, JobTrace.answer_step hop]
        exact hanswer
  | add i d hd halive event k hrest hplace newId hfresh =>
    obtain ⟨hext, hadded, hids⟩ : s.accumulator.Extends
        (s.accumulator.add options.batchSize.toNat newId.1 event) ∧ _ ∧ _ :=
      Accumulator.add_extends s.accumulator newId.1 event
    have hid : newId.1 ∉ s.accumulator.batchIds := by
      intro hm
      obtain ⟨root, hroot, heq⟩ := h.ids _ hm
      exact hfresh (Subtype.ext heq ▸ hroot)
    have hnext := h.accumulator_step
      (Accumulator.add_inv hpos h.accumulator.1 h.accumulator.2 event hid) hext
      (List.subset_append_left _ [newId]) fun id hm => (hids id hm).imp_right fun heq =>
        ⟨newId, List.mem_append_right _ (List.mem_singleton_self _), heq.symm, hfresh⟩
    obtain ⟨hjudgement, htraced, -⟩ := hnext.deliveries d (List.mem_of_getElem? hd)
    refine hnext.delivery_step i ⟨hjudgement, htraced, fun _ n hn => ?_⟩
    rw [hrest] at htraced
    obtain ⟨hparse, -, hanswer⟩ := htraced.1
    cases hn
    refine ⟨event, hparse, ?_, Or.inl ⟨hanswer, k, hrest⟩⟩
    show (s.accumulator.add options.batchSize.toNat newId.1 event).added[_]? = _
    rw [hadded]
    exact List.getElem?_concat_length
  | settle i d hd halive event k hrest n hn outcome hsettled =>
    obtain ⟨hjudgement, htraced, hplace⟩ := h.deliveries d (List.mem_of_getElem? hd)
    rw [hrest] at hjudgement htraced
    obtain ⟨event', hparse, hevent, -⟩ := hplace halive n hn
    have heq : event = event' := Option.some.inj (htraced.1.1.symm.trans hparse)
    subst heq
    have hexec : workerExec pg (.add event) s.world outcome s.world :=
      ⟨rfl, fun ho => h.durable_of_settled (ho ▸ hsettled) hevent⟩
    have htrace : (d.answer (.add event) k outcome).trace = d.trace.step ⟨.add event, outcome⟩ :=
      Delivery.trace_answer d (.add event) k outcome
    refine h.delivery_step i ⟨Holds.answer hjudgement hexec, ?_, fun _ m hm => ?_⟩
    · rw [htrace]
      exact htraced.2 outcome _ rfl
    · have hm : d.place = some m := hm
      rw [hn, Option.some.injEq] at hm
      subst hm
      refine ⟨event, hparse, hevent, Or.inr ⟨outcome, ?_, hsettled⟩⟩
      rw [htrace]
      rfl
  | fire timer hlive =>
    rw [Accumulator.fire_eq h.accumulator.1 hlive]
    exact h.triggerFlush
  | flushNow => exact h.triggerFlush
  | flight i f hf op k hrest hop r =>
    refine h.answer_step hf hrest r fun outcome hout => h.outcomes i f outcome hf ?_
    rw [← hout]
    cases op with
    | flush events batchId => exact absurd rfl (hop events batchId)
    | _ => rfl
  | begin i f hf root k hrest hnew =>
    obtain ⟨-, hroot, -⟩ := h.accumulator.1.flush_of_rest (List.mem_of_getElem? hf) hrest
    exact h.begin_step hf hroot hnew
  | flush j run hrun op k hrest r w hexec =>
    have hthread := (h.flushes run (List.mem_of_getElem? hrun)).thread.2
    rw [hrest] at hthread
    have hw := World.exec_grows (Holds.safe hthread) hexec h.world
    refine (h.world_step hw (World.exec_batches hexec)).flush_step hrun (fun r' hdone => ?_)
      (Holds.answer hthread (workerExec_of_exec hexec))
    rw [hrest] at hdone
    cases hdone
  | flushed run hrun outcome hdone f hf events batchId k hrest =>
    refine h.answer_step hf hrest outcome fun outcome' hout => ⟨run, hrun, rfl, ?_⟩
    rw [hdone]
    exact congrArg Prog.done (Option.some.inj hout)
  | outside op hop hplain r w hexec =>
    exact h.world_step (World.exec_grows (WorkerOp.safe_of_harmless hop s.world) hexec h.world)
      (World.exec_batches hexec)
  | land op w hland =>
    exact h.world_step (World.lands_grows hland h.world) (World.lands_batches hland)
  | crash late hlate now accumulator hnew =>
    have hw := World.crash_grows (fun op hop => h.safe_of_pending (hlate op hop)) h.world
    obtain ⟨-, hnew'⟩ := Accumulator.new_eq hnew
    refine ⟨hw.1, Accumulator.new_inv hnew, fun d' hd' => ?_, ?_, ?_, h.roots, ?_, ?_⟩
    · obtain ⟨d, hd, rfl⟩ := List.mem_map.mp hd'
      obtain ⟨hjudgement, htraced, -⟩ := (h.deliveries d hd).world_mono hw
      exact ⟨hjudgement, htraced, fun halive => by cases halive⟩
    · exact fun run hrun => absurd hrun List.not_mem_nil
    · intro i f outcome hf
      have hf : accumulator.flights[i]? = some f := hf
      rw [hnew'] at hf
      cases hf
    · intro b _ hid
      have hid : b.1.1 ∈ accumulator.batchIds := hid
      rw [hnew'] at hid
      cases hid
    · intro id hid
      have hid : id ∈ accumulator.batchIds := hid
      rw [hnew'] at hid
      cases hid
  | drain _ hdrain =>
    obtain ⟨point, rfl | rfl⟩ := drain_frame hdrain
    · exact ⟨h.world, h.accumulator, h.deliveries, h.flushes, h.outcomes, h.roots, h.begun, h.ids⟩
    · have h := h.triggerFlush
      exact ⟨h.world, h.accumulator, h.deliveries, h.flushes, h.outcomes, h.roots, h.begun, h.ids⟩

theorem inv_started {now : Int} {accumulator : Accumulator CaptureEvent}
    (hnew : Accumulator.new options now = .ok accumulator) :
    (started accumulator).Inv pg consumer options := by
  obtain ⟨-, hnew'⟩ := Accumulator.new_eq hnew
  refine ⟨World.inv_empty, Accumulator.new_inv hnew, ?_, ?_, ?_, ?_, ?_, ?_⟩
  · exact fun d hd => absurd hd List.not_mem_nil
  · exact fun run hrun => absurd hrun List.not_mem_nil
  · intro i f outcome hf
    have hf : accumulator.flights[i]? = some f := hf
    rw [hnew'] at hf
    cases hf
  · exact fun b hb => absurd hb List.not_mem_nil
  · exact fun b hb => absurd hb List.not_mem_nil
  · intro id hid
    have hid : id ∈ accumulator.batchIds := hid
    rw [hnew'] at hid
    cases hid

theorem Reachable.inv (h : Reachable pg consumer options s) : s.Inv pg consumer options := by
  obtain ⟨now, accumulator, hnew, hrun⟩ := h
  exact invariant_of_steps
    (fun _ _ hstep hinv => step_inv (Accumulator.new_eq hnew).1 hstep hinv) hrun (inv_started hnew)

/-! ## Acknowledgement -/

/-- A delivery of a worker that has crashed never changes again. -/
theorem dead_step (hstep : Step pg consumer options s s') {i : Nat} {d : Delivery}
    (hd : s.deliveries[i]? = some d) (hdead : d.alive = false) : s'.deliveries[i]? = some d := by
  have hset : ∀ {j : Nat} {d₁ : Delivery}, s.deliveries[j]? = some d₁ → d₁.alive = true →
      ∀ d₂, (s.deliveries.set j d₂)[i]? = some d := by
    intro j d₁ hd₁ halive d₂
    have hne : j ≠ i := by
      rintro rfl
      rw [hd, Option.some.injEq] at hd₁
      rw [hd₁, halive] at hdead
      cases hdead
    exact (List.getElem?_set_ne hne).trans hd
  cases hstep with
  | deliver job =>
    exact (List.getElem?_append_left (List.getElem?_eq_some_iff.mp hd).1).trans hd
  | job j d₁ hd₁ halive => exact hset hd₁ halive _
  | add j d₁ hd₁ halive => exact hset hd₁ halive _
  | settle j d₁ hd₁ halive => exact hset hd₁ halive _
  | crash late hlate now accumulator hnew =>
    show (s.deliveries.map _)[i]? = _
    rw [List.getElem?_map, hd, Option.map_some, ← hdead]
  | drain _ hdrain =>
    obtain ⟨point, rfl | rfl⟩ := drain_frame hdrain
    · exact hd
    · exact hd
  | _ => exact hd

theorem dead_run (hrun : Relation.ReflTransGen (Step pg consumer options) s s') {i : Nat}
    {d : Delivery} (hd : s.deliveries[i]? = some d) (hdead : d.alive = false) :
    s'.deliveries[i]? = some d := by
  exact invariant_of_steps (I := fun v : WorkerSystem => v.deliveries[i]? = some d)
    (fun _ _ hstep hd => dead_step hstep hd hdead) hrun hd

/-- **Theorem (`acknowledged_secured`).** In every state of every run, the event of a job whose
`process` has returned normally has a row, or an accepted dead-letter entry holds it, or the data
that the schema refuses was accepted there; a delivery that had not returned when the worker
crashed is never acknowledged; and an event has at most one row. -/
theorem acknowledged_secured (h : Reachable pg consumer options s) :
    (∀ d ∈ s.deliveries, d.Acknowledged → s.world.Secured d.job) ∧
    (∀ (late : List WorkerOp) (accumulator : Accumulator CaptureEvent) (s' : WorkerSystem),
      Relation.ReflTransGen (Step pg consumer options) (s.crashed late accumulator) s' →
      ∀ (i : Nat) (d : Delivery), s.deliveries[i]? = some d → ¬d.Acknowledged →
        ∃ d', s'.deliveries[i]? = some d' ∧ d'.job = d.job ∧ ¬d'.Acknowledged) ∧
    ∀ event : CaptureEvent, s.world.events.rows.countP (fun r => r.key = event.key) ≤ 1 := by
  refine ⟨fun d hd hack => ?_, fun late accumulator s' hrun i d hd hack => ?_, fun event => ?_⟩
  · have hjudgement := (h.inv.deliveries d hd).judgement
    rw [show d.rest = .done (.ok ()) from hack] at hjudgement
    exact (Holds.result hjudgement).2
  · have hcrashed : (s.crashed late accumulator).deliveries[i]? =
        some { d with alive := false } := by
      show (s.deliveries.map _)[i]? = _
      rw [List.getElem?_map, hd, Option.map_some]
    exact ⟨_, dead_run hrun hcrashed rfl, rfl, hack⟩
  · have hcount := List.nodup_iff_count_le_one.mp s.world.events.nodup event.key
    rw [List.count, List.countP_map] at hcount
    refine le_of_eq_of_le (List.countP_congr fun r _ => ?_) hcount
    simp

end WorkerSystem

/-! ## A job whose event is flushed -/

/-- What a job with a valid event performs. -/
theorem EventsConsumer.process_valid {consumer : EventsConsumer} {job : Job} {event : CaptureEvent}
    (hparse : CaptureEventSchema.safeParse job.data = some event) :
    ∃ k : Except Thrown Unit → WorkerFlow Unit,
      consumer.process job = .call (.countInFlightJob 1) (fun _ => .call (.add event) k) ∧
        k (.ok ()) = .call (.countInFlightJob (-1)) fun _ => .done (.ok ()) := by
  rw [EventsConsumer.process]
  simp only [hparse]
  exact ⟨_, rfl, rfl⟩

/-- What `runFlush` does for a batch of one that is flushed. -/
theorem runFlush_single {T : Type} (event : T) (batchId : JsString) (waiter : Nat) :
    ∃ k : Except Thrown Unit → AccFlow T Unit,
      runFlush [event] batchId [waiter] = .call (.flush [event] batchId) k ∧
        k (.ok ()) = .call .now fun now => .call (.setLastFlushAt now) fun _ =>
          .call (.resolve waiter) fun _ => .done (.ok ()) :=
  ⟨_, rfl, rfl⟩

namespace WorkerSystem

/-- **A run of a flush makes steps of the worker.** -/
theorem steps_of_flush {p q : WorkerFlow Unit} {h : List WorkerEvent} (hr : Runs p h q)
    {s : WorkerSystem} {w : World} {i : Nat} {b : RootBatch} (hs : s.flushes = [⟨i, b, p⟩])
    (he : World.Execs pg s.world h w) :
    Relation.ReflTransGen (Step pg consumer options) s
      { s with world := w, flushes := [⟨i, b, q⟩] } := by
  induction hr generalizing s with
  | nil p =>
    cases he
    rw [← hs]
  | @cons op k r h q hr ih =>
    cases he with
    | cons hexec hrest =>
      have hrun : s.flushes[0]? = some ⟨i, b, .call op k⟩ := by rw [hs]; rfl
      have hstep : Step pg consumer options s _ := .flush s 0 _ hrun op k rfl r _ hexec
      refine .head hstep ?_
      have hset : s.flushes.set 0 ⟨i, b, k r⟩ = [⟨i, b, k r⟩] := by rw [hs]; rfl
      exact ih (s := { s with world := _, flushes := s.flushes.set 0 ⟨i, b, k r⟩ }) hset hrest

/-- The accumulator once its one batch, of one event, is in flight. -/
def oneFlight (now : Int) (root : Ulid) (event : CaptureEvent)
    (outcome : Option (Except Thrown Unit)) (rest : AccFlow CaptureEvent Unit)
    (settled : List (Nat × Except Thrown Unit)) : Accumulator CaptureEvent :=
  ⟨none, now, [event], [], 1, [root.1], [⟨root.1, [event], [0], outcome, rest⟩], settled⟩

/-- The event of the first job is added. -/
theorem steps_to_added (options : BatchAccumulatorOptions) (now : Int) {job : Job}
    {event : CaptureEvent} (root : Ulid)
    {k : Except Thrown Unit → WorkerFlow Unit}
    (hprocess : consumer.process job =
      .call (.countInFlightJob 1) (fun _ => .call (.add event) k)) :
    Relation.ReflTransGen (Step pg consumer options) (started ⟨none, now, [], [], 0, [], [], []⟩)
      ⟨{ World.empty with inFlightJobCount := 1 },
        .add options.batchSize.toNat root.1 ⟨none, now, [], [], 0, [], [], []⟩ event, [root],
        [⟨job, [⟨.countInFlightJob 1, ()⟩], .call (.add event) k, some 0, true⟩], [], .idle⟩ := by
  let s₀ : WorkerSystem := started ⟨none, now, [], [], 0, [], [], []⟩
  let w : World := { World.empty with inFlightJobCount := 1 }
  let s₁ : WorkerSystem := { s₀ with deliveries := [.fetched consumer job] }
  let s₂ : WorkerSystem :=
    { s₁ with
      world := w
      deliveries := [⟨job, [⟨.countInFlightJob 1, ()⟩], .call (.add event) k, none, true⟩] }
  have h₁ : Step pg consumer options s₀ s₁ := .deliver s₀ job
  have h₂ : Step pg consumer options s₁ s₂ :=
    .job s₁ 0 (.fetched consumer job) rfl rfl _ _ hprocess () w ⟨trivial, Or.inl rfl⟩
  have h₃ : Step pg consumer options s₂ _ :=
    .add s₂ 0 _ rfl rfl event k rfl rfl root List.not_mem_nil
  exact ((Relation.ReflTransGen.single h₁).tail h₂).tail h₃

/-- The flight of the event is flushed, and its job returns, whatever `drain` waits for. -/
theorem steps_of_oneFlight (options : BatchAccumulatorOptions) (now : Int) {job : Job}
    {event : CaptureEvent} {root : Ulid}
    {k : Except Thrown Unit → WorkerFlow Unit}
    (hk : k (.ok ()) = .call (.countInFlightJob (-1)) fun _ => .done (.ok ()))
    {h : List WorkerEvent}
    (hr : Runs (productionFlush consumer.platform consumer.dlq [event] root.1) h (.done (.ok ())))
    (hexecs : ∀ w : World, ∃ w', World.Execs pg w h w' ∧ w'.inFlightJobCount = w.inFlightJobCount)
    (drain : DrainPoint) :
    ∃ (w : World) (d : Delivery) (runs : List FlushRun),
      Relation.ReflTransGen (Step pg consumer options)
        ⟨{ World.empty with inFlightJobCount := 1 },
          oneFlight now root event none (runFlush [event] root.1 [0]) [], [root],
          [⟨job, [⟨.countInFlightJob 1, ()⟩], .call (.add event) k, some 0, true⟩], [], drain⟩
        ⟨w, oneFlight now root event (some (.ok ())) (.done (.ok ())) [(0, .ok ())], [root], [d],
          runs, drain⟩ ∧
      d.job = job ∧ d.Acknowledged ∧ w.inFlightJobCount = 0 := by
  obtain ⟨l, hflight, hl⟩ := runFlush_single event root.1 0
  let w₁ : World := { World.empty with inFlightJobCount := 1 }
  obtain ⟨w₂, hw₂, hcount⟩ := hexecs { w₁ with batches := [(root, [event])] }
  have hcount : w₂.inFlightJobCount = 1 := hcount
  let waiting : Delivery := ⟨job, [⟨.countInFlightJob 1, ()⟩], .call (.add event) k, some 0, true⟩
  let s₃ : WorkerSystem :=
    ⟨w₁, oneFlight now root event none (runFlush [event] root.1 [0]) [], [root], [waiting], [],
      drain⟩
  -- its batch is flushed
  let s₄ : WorkerSystem :=
    { s₃ with
      world := { w₁ with batches := [(root, [event])] }
      flushes := [⟨0, (root, [event]),
        productionFlush consumer.platform consumer.dlq [event] root.1⟩] }
  let s₅ : WorkerSystem := { s₄ with world := w₂, flushes := [⟨0, (root, [event]), .done (.ok ())⟩] }
  let s₆ : WorkerSystem :=
    { s₅ with accumulator := oneFlight now root event (some (.ok ())) (l (.ok ())) [] }
  have h₄ : Step pg consumer options s₃ s₄ :=
    .begin s₃ 0 _ rfl root l hflight fun run hrun => absurd hrun List.not_mem_nil
  have h₅ : Relation.ReflTransGen (Step pg consumer options) s₄ s₅ := steps_of_flush hr rfl hw₂
  have h₆ : Step pg consumer options s₅ s₆ :=
    .flushed s₅ _ (List.mem_singleton_self _) (.ok ()) rfl _ rfl [event] root.1 l hflight
  -- the accumulator resolves the promise of the event
  let s₇ : WorkerSystem := { s₆ with
    accumulator := oneFlight now root event (some (.ok ())) (.call (.setLastFlushAt now) fun _ =>
      .call (.resolve 0) fun _ => .done (.ok ())) [] }
  let s₈ : WorkerSystem := { s₆ with
    accumulator := oneFlight now root event (some (.ok ()))
      (.call (.resolve 0) fun _ => .done (.ok ())) [] }
  let s₉ : WorkerSystem := { s₆ with
    accumulator := oneFlight now root event (some (.ok ())) (.done (.ok ())) [(0, .ok ())] }
  have h₇ : Step pg consumer options s₆ s₇ :=
    .flight s₆ 0 _ rfl _ _ hl (fun _ _ h => by cases h) now
  have h₈ : Step pg consumer options s₇ s₈ :=
    .flight s₇ 0 _ rfl _ _ rfl (fun _ _ h => by cases h) ()
  have h₉ : Step pg consumer options s₈ s₉ :=
    .flight s₈ 0 _ rfl _ _ rfl (fun _ _ h => by cases h) ()
  -- and the job returns
  let s₁₀ : WorkerSystem :=
    { s₉ with deliveries := [waiting.answer (.add event) k (.ok ())] }
  have h₁₀ : Step pg consumer options s₉ s₁₀ :=
    .settle s₉ 0 _ rfl rfl event k rfl 0 rfl (.ok ()) (List.mem_singleton_self _)
  have h₁₁ : Step pg consumer options s₁₀ _ :=
    .job s₁₀ 0 _ rfl rfl _ _ hk () { w₂ with inFlightJobCount := w₂.inFlightJobCount + -1 }
      ⟨trivial, Or.inl rfl⟩
  refine ⟨_, _, _, ((((((((Relation.ReflTransGen.single h₄).trans h₅).tail h₆).tail h₇).tail
    h₈).tail h₉).tail h₁₀).tail h₁₁), rfl, rfl, ?_⟩
  show w₂.inFlightJobCount + -1 = 0
  rw [hcount]
  rfl

/-- An event of which every operation of the flush succeeds. -/
theorem exists_flushed (consumer : EventsConsumer) (event : CaptureEvent) (root : Ulid) :
    ∃ h, Runs (productionFlush consumer.platform consumer.dlq [event] root.1) h (.done (.ok ())) ∧
      ∀ w : World, ∃ w', World.Execs acceptingPostgres w h w' ∧
        w'.inFlightJobCount = w.inFlightJobCount := by
  let f : JsString → Option LinkDestinationLookup := fun _ => some ⟨event.tenantId.1, []⟩
  have hf : ∀ e ∈ [event], (resolveDestination f e).reason = none := by
    intro e he
    rw [List.mem_singleton.mp he]
    simp [resolveDestination, f]
  have hr : Runs (flushBatch consumer.platform { dlqSink := consumer.dlq.send consumer.platform }
      [event] root.1) (flushOps consumer.platform f (eventKey root.1 event.occurredAt.time)
        [event] (.ok ())) (.done (.ok ())) :=
    runs_flushBatch hf (eventBatchKey_event _ root.1 event) (.ok ())
  refine ⟨_, runs_production_ok (List.cons_ne_nil _ _) (runs_attempt_ok hr), fun w => ?_⟩
  have hinsert : World.Exec acceptingPostgres
      (.insertEvents ((loggedEventsOf consumer.platform f [event]).map LoggedEvent.newEvent))
      (w.written (eventKey root.1 event.occurredAt.time)
        (serializeBatch (loggedEventsOf consumer.platform f [event]))) (Except.ok ()) _ :=
    FlushSystem.exec_insert (fun _ _ => rfl) (.ok ())
  exact ⟨_, FlushSystem.execs_flushOps hinsert, rfl⟩

/-- A job that carries an event. -/
def jobOf (event : CaptureEvent) : Job := ⟨none, event.toJson, 0, none⟩

/-- A job whose event fills a batch of one. -/
theorem exists_acknowledged {job : Job} {event : CaptureEvent}
    (hparse : CaptureEventSchema.safeParse job.data = some event) (root : Ulid) :
    ∃ s d, Reachable acceptingPostgres consumer ⟨1, 1000⟩ s ∧ d ∈ s.deliveries ∧
      d.job = job ∧ d.Acknowledged := by
  obtain ⟨k, hprocess, hk⟩ : ∃ k : Except Thrown Unit → WorkerFlow Unit,
      consumer.process job = _ ∧ _ := EventsConsumer.process_valid hparse
  obtain ⟨h, hr, hexecs⟩ := exists_flushed consumer event root
  obtain ⟨w, d, runs, hsteps, hjob, hack, -⟩ := steps_of_oneFlight ⟨1, 1000⟩ 0 hk hr hexecs .idle
  have hrun := (steps_to_added ⟨1, 1000⟩ 0 root hprocess).trans hsteps
  exact ⟨_, d, ⟨0, _, rfl, hrun⟩, List.mem_singleton_self _, hjob, hack⟩

theorem acknowledged_secured_flushed : ∃ (s : WorkerSystem) (d : Delivery),
    Reachable acceptingPostgres plainConsumer ⟨1, 1000⟩ s ∧ d ∈ s.deliveries ∧
      d.job = jobOf (CaptureEvent.plain (lit "slug")) ∧ d.Acknowledged ∧ s.world.Secured d.job := by
  have hparse : CaptureEventSchema.safeParse (jobOf (CaptureEvent.plain (lit "slug"))).data =
      some (CaptureEvent.plain (lit "slug")) := by decide +kernel
  obtain ⟨s, d, hs, hd, hjob, hack⟩ :=
    exists_acknowledged hparse ⟨lit "01J00000000000000000000001", by decide⟩
  exact ⟨s, d, hs, hd, hjob, hack, (acknowledged_secured hs).1 d hd hack⟩

end WorkerSystem

end Posta
