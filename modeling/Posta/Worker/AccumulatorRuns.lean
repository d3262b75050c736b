import Mathlib.Data.List.Range
import Posta.Lists.Updates
import Posta.Worker.Accumulator

/-!
# What holds in every run of the accumulator

**Invariant** (`Accumulator.Inv`). The events handed over, followed by those of the open batch,
are the events added, in order; the same holds of their promises and of the ids. The live timers
are that of the open batch. A flight is waiting for its flush, or settles its remaining promises
as the flush settled (`Settles`), whatever the logger does.

**Theorem (`accumulator_runs`).** The invariant holds in every state of every run, and with it
everything that a caller of `add` relies on.
-/

namespace Posta

open Js Interaction Lists

variable {T : Type} {batchSize : Nat}

/-! ## What follows the flush -/

/-- The promise an operation settles, and how. -/
def AccOp.settlement : AccOp T → Option (Nat × Except Thrown Unit)
  | .resolve waiter => some (waiter, .ok ())
  | .reject waiter error => some (waiter, .error error)
  | _ => none

/-- Whatever the answers are, the program settles exactly `todo`, in order and all with the same
outcome, calls no flush function, and ends with the outcome itself. -/
def Settles (outcome : Except Thrown Unit) : AccFlow T Unit → List Nat → Prop
  | .done r, todo => todo = [] ∧ r = outcome
  | .call (.flush ..) _, _ => False
  | .call (.resolve waiter) k, todo =>
    outcome = .ok () ∧ ∃ rest, todo = waiter :: rest ∧ ∀ r, Settles outcome (k r) rest
  | .call (.reject waiter error) k, todo =>
    outcome = .error error ∧ ∃ rest, todo = waiter :: rest ∧ ∀ r, Settles outcome (k r) rest
  | .call .now k, todo => ∀ r, Settles outcome (k r) todo
  | .call (.setLastFlushAt _) k, todo => ∀ r, Settles outcome (k r) todo
  | .call (.logError ..) k, todo => ∀ r, Settles outcome (k r) todo

theorem settles_resolveWaiters {f : Except Thrown Unit → AccFlow T Unit}
    (hf : Settles (.ok ()) (f (.ok ())) []) (waiters : List Nat) :
    Settles (.ok ()) (Prog.bind (resolveWaiters waiters) f) waiters := by
  induction waiters with
  | nil => exact hf
  | cons waiter waiters ih => exact ⟨rfl, waiters, rfl, fun _ => ih⟩

theorem settles_rejectWaiters {error : Thrown} {f : Except Thrown Unit → AccFlow T Unit}
    (hf : Settles (.error error) (f (.ok ())) []) (waiters : List Nat) :
    Settles (.error error) (Prog.bind (rejectWaiters error waiters) f) waiters := by
  induction waiters with
  | nil => exact hf
  | cons waiter waiters ih => exact ⟨rfl, waiters, rfl, fun _ => ih⟩

/-- **`runFlush` calls the flush function once**, and then settles every promise of the batch as
the flush settled. -/
theorem runFlush_settles (events : List T) (batchId : JsString) (waiters : List Nat) :
    ∃ k : Except Thrown Unit → AccFlow T Unit,
      runFlush events batchId waiters = .call (.flush events batchId) k ∧
        ∀ outcome, Settles outcome (k outcome) waiters := by
  refine ⟨_, by rw [runFlush, Flow.tryCatch_eq, Flow.bind_eq]; rfl, fun outcome => ?_⟩
  cases outcome with
  | ok u =>
    intro now _
    refine settles_resolveWaiters ?_ waiters
    exact ⟨rfl, rfl⟩
  | error error =>
    -- the answer of the logger leads to the same program
    intro logged
    cases logged with
    | ok u =>
      refine settles_rejectWaiters ?_ waiters
      exact ⟨rfl, rfl⟩
    | error e =>
      refine settles_rejectWaiters ?_ waiters
      exact ⟨rfl, rfl⟩

/-- In a run of such a program, every settlement has the outcome, and no flush is called. -/
theorem Settles.runs {outcome : Except Thrown Unit} {p q : AccFlow T Unit} {todo : List Nat}
    {h : List (Event (AccOp T) AccOp.Response)} (hp : Settles outcome p todo) (hr : Runs p h q) :
    ∀ e ∈ h, (∀ events batchId, e.1 ≠ .flush events batchId) ∧
      ∀ w o, e.1.settlement = some (w, o) → o = outcome := by
  induction hr generalizing todo with
  | nil p =>
    intro e he
    cases he
  | @cons op k r h q hr ih =>
    have hhead : (∀ events batchId, op ≠ .flush events batchId) ∧
        (∀ w o, op.settlement = some (w, o) → o = outcome) ∧ ∃ todo', Settles outcome (k r) todo' := by
      cases op with
      | flush events batchId => exact hp.elim
      | resolve w =>
        obtain ⟨rfl, todo', -, hk⟩ := hp
        exact ⟨nofun, fun _ _ h => by cases h; rfl, todo', hk r⟩
      | reject w error =>
        obtain ⟨rfl, todo', -, hk⟩ := hp
        exact ⟨nofun, fun _ _ h => by cases h; rfl, todo', hk r⟩
      | _ => exact ⟨nofun, nofun, todo, hp r⟩
    obtain ⟨hflush, hout, todo', hk⟩ := hhead
    intro e he
    rcases List.mem_cons.mp he with rfl | he
    · exact ⟨hflush, hout⟩
    · exact ih hk e he

/-- **The outcome of the flush is the outcome of every promise**, whatever the logger does. -/
theorem runFlush_outcome {events : List T} {batchId : JsString} {waiters : List Nat}
    {h : List (Event (AccOp T) AccOp.Response)} {q : AccFlow T Unit}
    (hr : Runs (runFlush events batchId waiters) h q) {outcome : Except Thrown Unit}
    (hflush : (⟨.flush events batchId, outcome⟩ : Event (AccOp T) AccOp.Response) ∈ h) :
    ∀ e ∈ h, ∀ w o, e.1.settlement = some (w, o) → o = outcome := by
  obtain ⟨k, hk, hsettles⟩ := runFlush_settles events batchId waiters
  rw [hk] at hr
  rcases hr.call_inv with ⟨rfl, -⟩ | ⟨r, h', rfl, hr'⟩
  · cases hflush
  · have hrest := (hsettles r).runs hr'
    have hr : r = outcome := by
      rcases List.mem_cons.mp hflush with heq | hmem
      · have hev := (Sigma.mk.injEq ..).mp heq
        exact (eq_of_heq hev.2).symm
      · exact absurd rfl ((hrest _ hmem).1 events batchId)
    intro e he w o hset
    rcases List.mem_cons.mp he with rfl | he
    · cases hset
    · rw [← hr]
      exact (hrest e he).2 w o hset

/-! ## The invariant -/

namespace Flight

/-- Where a flight stands, given the settlements so far. -/
def Phase (settled : List (Nat × Except Thrown Unit)) (f : Flight T) : Prop :=
  (f.outcome = none ∧ f.rest = runFlush f.events f.batchId f.waiters ∧
    ∀ w ∈ f.waiters, w ∉ settled.map Prod.fst) ∨
  ∃ outcome todo, f.outcome = some outcome ∧ Settles outcome f.rest todo ∧ todo.Sublist f.waiters ∧
    (∀ w ∈ todo, w ∉ settled.map Prod.fst) ∧ ∀ w ∈ f.waiters, w ∈ todo ∨ (w, outcome) ∈ settled

variable {settled : List (Nat × Except Thrown Unit)} {f : Flight T}

/-- A settlement of another batch does not concern a flight. -/
theorem Phase.other (h : f.Phase settled) {w : Nat} (hw : w ∉ f.waiters)
    (outcome : Except Thrown Unit) : f.Phase (settled ++ [(w, outcome)]) := by
  have hfresh : ∀ v ∈ f.waiters, v ∉ settled.map Prod.fst →
      v ∉ (settled ++ [(w, outcome)]).map Prod.fst := by
    intro v hv hno
    rw [List.map_append, List.mem_append, not_or]
    refine ⟨hno, fun hm => hw ?_⟩
    rw [List.mem_singleton.mp hm] at hv
    exact hv
  rcases h with ⟨hout, hrest, hall⟩ | ⟨o, todo, hout, hsettles, hsub, hno, hdone⟩
  · exact Or.inl ⟨hout, hrest, fun v hv => hfresh v hv (hall v hv)⟩
  · refine Or.inr ⟨o, todo, hout, hsettles, hsub, ?_, ?_⟩
    · exact fun v hv => hfresh v (hsub.subset hv) (hno v hv)
    · exact fun v hv => (hdone v hv).imp_right (List.mem_append_left _)

/-- The flight after the answer to an operation. -/
def after (f : Flight T) (op : AccOp T) (k : op.Response → AccFlow T Unit) (r : op.Response) :
    Flight T :=
  { f with outcome := Accumulator.outcomeAfter f.outcome op r, rest := k r }

/-- The next promise of a flight that settles its promises. -/
theorem Phase.settle {outcome : Except Thrown Unit} {k : Unit → AccFlow T Unit} {w : Nat}
    {todo : List Nat} (hnodup : f.waiters.Nodup) (hout : f.outcome = some outcome)
    (hk : Settles outcome (k ()) todo) (hsub : (w :: todo).Sublist f.waiters)
    (hno : ∀ v ∈ w :: todo, v ∉ settled.map Prod.fst)
    (hdone : ∀ v ∈ f.waiters, v ∈ w :: todo ∨ (v, outcome) ∈ settled) :
    Phase (settled ++ [(w, outcome)]) { f with rest := k () } := by
  have hw : w ∉ todo := (List.nodup_cons.mp (hnodup.sublist hsub)).1
  refine Or.inr ⟨outcome, todo, hout, hk, (List.sublist_cons_self w todo).trans hsub, ?_, ?_⟩
  · intro v hv
    rw [List.map_append, List.mem_append, not_or]
    refine ⟨hno v (List.mem_cons_of_mem _ hv), fun hm => hw ?_⟩
    rw [List.mem_singleton.mp hm] at hv
    exact hv
  · intro v hv
    rcases hdone v hv with hm | hm
    · rcases List.mem_cons.mp hm with rfl | hm
      · exact Or.inr (List.mem_append_right _ (List.mem_singleton_self _))
      · exact Or.inl hm
    · exact Or.inr (List.mem_append_left _ hm)

/-- **What an operation of a flight does**: it settles nothing, or the next promise of its own
batch as the flush of that batch settled. -/
theorem Phase.step (h : f.Phase settled) (hnodup : f.waiters.Nodup) {op : AccOp T}
    {k : op.Response → AccFlow T Unit} (hrest : f.rest = .call op k) (r : op.Response) :
    (op.settlement = none ∧ (f.after op k r).Phase settled) ∨
      ∃ w outcome, op.settlement = some (w, outcome) ∧ w ∈ f.waiters ∧
        w ∉ settled.map Prod.fst ∧ f.outcome = some outcome ∧
        (f.after op k r).Phase (settled ++ [(w, outcome)]) := by
  rcases h with ⟨hout, hrun, hall⟩ | ⟨outcome, todo, hout, hsettles, hsub, hno, hdone⟩
  · obtain ⟨k₀, hk₀, hsettles⟩ := runFlush_settles f.events f.batchId f.waiters
    rw [hrun, hk₀] at hrest
    cases hrest
    refine Or.inl ⟨rfl, Or.inr ⟨r, f.waiters, rfl, hsettles r, List.Sublist.refl _, hall, ?_⟩⟩
    exact fun w hw => Or.inl hw
  · rw [hrest] at hsettles
    have hquiet : Settles outcome (k r) todo → (f.after op k r).outcome = some outcome →
        (f.after op k r).Phase settled := fun hk hout' =>
      Or.inr ⟨outcome, todo, hout', hk, hsub, hno, hdone⟩
    cases op with
    | flush events batchId => exact hsettles.elim
    | now => exact Or.inl ⟨rfl, hquiet (hsettles r) hout⟩
    | setLastFlushAt time => exact Or.inl ⟨rfl, hquiet (hsettles r) hout⟩
    | logError message logMeta => exact Or.inl ⟨rfl, hquiet (hsettles r) hout⟩
    | resolve w =>
      obtain ⟨rfl, todo, rfl, hk⟩ := hsettles
      exact Or.inr ⟨w, _, rfl, hsub.subset List.mem_cons_self, hno w List.mem_cons_self, hout,
        Phase.settle hnodup hout (hk r) hsub hno hdone⟩
    | reject w error =>
      obtain ⟨rfl, todo, rfl, hk⟩ := hsettles
      exact Or.inr ⟨w, _, rfl, hsub.subset List.mem_cons_self, hno w List.mem_cons_self, hout,
        Phase.settle hnodup hout (hk r) hsub hno hdone⟩

/-- A flush that has settled stays settled. -/
theorem Phase.outcome_after (h : f.Phase settled) {op : AccOp T} {k : op.Response → AccFlow T Unit}
    (hrest : f.rest = .call op k) (r : op.Response) {outcome : Except Thrown Unit}
    (hout : f.outcome = some outcome) : (f.after op k r).outcome = some outcome := by
  rcases h with ⟨hnone, -, -⟩ | ⟨o, todo, -, hsettles, -⟩
  · rw [hout] at hnone
    cases hnone
  · rw [hrest] at hsettles
    cases op with
    | flush events batchId => exact hsettles.elim
    | _ => exact hout

end Flight

namespace Accumulator

/-- The open batch, if there is one. -/
def openBatches (s : Accumulator T) : List (OpenBatch T) := s.currentBatch.toList

structure Inv (batchSize : Nat) (s : Accumulator T) : Prop where
  added : s.added = s.flights.flatMap Flight.events ++ s.openBatches.flatMap OpenBatch.events
  waiters : s.flights.flatMap Flight.waiters ++ s.openBatches.flatMap OpenBatch.waiters =
    List.range s.added.length
  flight_size : ∀ f ∈ s.flights, f.waiters.length = f.events.length ∧ f.events ≠ [] ∧
    f.events.length ≤ batchSize
  open_size : ∀ b ∈ s.openBatches, b.waiters.length = b.events.length ∧ b.events ≠ [] ∧
    b.events.length ≤ batchSize
  ids : s.flights.map Flight.batchId ++ s.openBatches.map OpenBatch.batchId = s.batchIds
  ids_nodup : s.batchIds.Nodup
  timers : s.timers = s.openBatches.map OpenBatch.timer
  phases : ∀ f ∈ s.flights, f.Phase s.settled
  settled_nodup : (s.settled.map Prod.fst).Nodup
  settled : ∀ p ∈ s.settled, ∃ f ∈ s.flights, p.1 ∈ f.waiters ∧ f.outcome = some p.2

/-- The open batch is not full. -/
def NotFull (batchSize : Nat) (s : Accumulator T) : Prop :=
  ∀ b ∈ s.openBatches, b.events.length < batchSize

variable {s : Accumulator T}

theorem new_eq {options : BatchAccumulatorOptions} {now : Int}
    (h : Accumulator.new options now = .ok s) :
    0 < options.batchSize.toNat ∧ s = ⟨none, now, [], [], 0, [], [], []⟩ := by
  unfold Accumulator.new at h
  split_ifs at h with hsize
  cases h
  exact ⟨by omega, rfl⟩

theorem new_inv {options : BatchAccumulatorOptions} {now : Int}
    (h : Accumulator.new options now = .ok s) : s.Inv batchSize ∧ s.NotFull batchSize := by
  obtain ⟨-, rfl⟩ := new_eq h
  constructor
  · constructor <;> simp [openBatches]
  · intro b hb
    cases hb

theorem triggerFlush_none (h : s.currentBatch = none) : s.triggerFlush = s := by
  rw [triggerFlush, h]

theorem triggerFlush_inv (h : s.Inv batchSize) :
    s.triggerFlush.Inv batchSize ∧ s.triggerFlush.NotFull batchSize := by
  cases hb : s.currentBatch with
  | none =>
    rw [triggerFlush_none hb]
    exact ⟨h, fun b hm => by rw [openBatches, hb] at hm; cases hm⟩
  | some b =>
    have hopen : s.openBatches = [b] := by rw [openBatches, hb]; rfl
    have htrigger : s.triggerFlush = { s with
        timers := s.timers.erase b.timer
        currentBatch := none
        flights := s.flights ++ [⟨b.batchId, b.events, b.waiters, none,
          runFlush b.events b.batchId b.waiters⟩] } := by rw [triggerFlush, hb]
    have hno : ∀ w ∈ b.waiters, w ∉ s.settled.map Prod.fst := by
      intro w hw hm
      obtain ⟨p, hp, rfl⟩ := List.mem_map.mp hm
      obtain ⟨f, hf, hpf, -⟩ := h.settled p hp
      have hnodup : (s.flights.flatMap Flight.waiters ++
          s.openBatches.flatMap OpenBatch.waiters).Nodup := h.waiters ▸ List.nodup_range
      refine (List.nodup_append.mp hnodup).2.2 p.1 (List.mem_flatMap.mpr ⟨f, hf, hpf⟩) p.1 ?_ rfl
      rw [hopen]
      simpa using hw
    rw [htrigger]
    refine ⟨?_, fun b hm => by cases hm⟩
    constructor
    · simpa [openBatches, hb] using h.added
    · simpa [openBatches, hb] using h.waiters
    · intro f hf
      rcases List.mem_append.mp hf with hf | hf
      · exact h.flight_size f hf
      · rw [List.mem_singleton.mp hf]
        exact h.open_size b (by rw [hopen]; simp)
    · intro b hm
      cases hm
    · simpa [openBatches, hb] using h.ids
    · exact h.ids_nodup
    · have htimers := h.timers
      rw [hopen] at htimers
      show s.timers.erase b.timer = []
      rw [htimers]
      simp
    · intro f hf
      rcases List.mem_append.mp hf with hf | hf
      · exact h.phases f hf
      · rw [List.mem_singleton.mp hf]
        exact Or.inl ⟨rfl, rfl, hno⟩
    · exact h.settled_nodup
    · intro p hp
      obtain ⟨f, hf, hpf⟩ := h.settled p hp
      exact ⟨f, List.mem_append_left _ hf, hpf⟩

theorem fire_eq (h : s.Inv batchSize) {timer : Nat} (hlive : timer ∈ s.timers) :
    s.fire timer = s.triggerFlush := by
  have htimers := h.timers
  cases hb : s.currentBatch with
  | none =>
    rw [htimers, openBatches, hb] at hlive
    cases hlive
  | some b =>
    have hopen : s.openBatches = [b] := by rw [openBatches, hb]; rfl
    rw [hopen] at htimers
    rw [htimers] at hlive
    rw [List.mem_singleton.mp hlive]
    simp [fire, triggerFlush, hb, htimers]

/-- An event goes into the open batch. -/
theorem add_inv (hpos : 0 < batchSize) (h : s.Inv batchSize) (hfull : s.NotFull batchSize)
    (event : T) {newId : JsString} (hfresh : newId ∉ s.batchIds) :
    (s.add batchSize newId event).Inv batchSize ∧
      (s.add batchSize newId event).NotFull batchSize := by
  -- the state before the size is checked
  have hpush : ∃ (b : OpenBatch T) (s' : Accumulator T), s'.openBatches = [b] ∧ s'.Inv batchSize ∧
      s.add batchSize newId event = if batchSize ≤ b.events.length then s'.triggerFlush else s' := by
    cases hb : s.currentBatch with
    | some b =>
      have hopen : s.openBatches = [b] := by rw [openBatches, hb]; rfl
      have hsize := h.open_size b (by rw [hopen]; simp)
      have hlt := hfull b (by rw [hopen]; simp)
      refine ⟨{ b with
          events := b.events ++ [event]
          waiters := b.waiters ++ [s.added.length] },
        { s with
          currentBatch := some { b with
            events := b.events ++ [event]
            waiters := b.waiters ++ [s.added.length] }
          added := s.added ++ [event] }, rfl, ?_, by simp only [add, openOrStart, hb]⟩
      constructor
      · have hadded := h.added
        rw [hopen] at hadded
        show s.added ++ [event] = _
        rw [hadded]
        simp [openBatches]
      · have hwaiters := h.waiters
        rw [hopen] at hwaiters
        show _ = List.range (s.added ++ [event]).length
        rw [List.length_append, List.length_singleton, List.range_succ, ← hwaiters]
        simp [openBatches]
      · exact h.flight_size
      · intro b' hb'
        rw [List.mem_singleton.mp hb']
        simp only [List.length_append, List.length_singleton]
        exact ⟨by omega, by simp, by omega⟩
      · simpa [openBatches, hb] using h.ids
      · exact h.ids_nodup
      · simpa [openBatches, hb] using h.timers
      · exact h.phases
      · exact h.settled_nodup
      · exact h.settled
    | none =>
      have hopen : s.openBatches = [] := by rw [openBatches, hb]; rfl
      refine ⟨⟨newId, [event], [s.added.length], s.nextTimer⟩,
        { s with
          currentBatch := some ⟨newId, [event], [s.added.length], s.nextTimer⟩
          added := s.added ++ [event]
          timers := s.timers ++ [s.nextTimer]
          nextTimer := s.nextTimer + 1
          batchIds := s.batchIds ++ [newId] }, rfl, ?_, by
        simp only [add, openOrStart, hb, startBatch, List.nil_append]⟩
      constructor
      · have hadded := h.added
        rw [hopen] at hadded
        show s.added ++ [event] = _
        rw [hadded]
        simp [openBatches]
      · have hwaiters := h.waiters
        rw [hopen] at hwaiters
        show _ = List.range (s.added ++ [event]).length
        rw [List.length_append, List.length_singleton, List.range_succ, ← hwaiters]
        simp [openBatches]
      · exact h.flight_size
      · intro b hb'
        rw [List.mem_singleton.mp hb']
        exact ⟨rfl, by simp, hpos⟩
      · have hids := h.ids
        rw [hopen] at hids
        show _ = s.batchIds ++ [newId]
        rw [← hids]
        simp [openBatches]
      · refine List.nodup_append.mpr ⟨h.ids_nodup, List.nodup_singleton _, ?_⟩
        rintro id hid _ hm rfl
        rw [List.mem_singleton.mp hm] at hid
        exact hfresh hid
      · have htimers := h.timers
        rw [hopen] at htimers
        show s.timers ++ [s.nextTimer] = _
        rw [htimers]
        rfl
      · exact h.phases
      · exact h.settled_nodup
      · exact h.settled
  obtain ⟨b, s', hopen, hinv, hadd⟩ := hpush
  rw [hadd]
  split_ifs with hsize
  · exact triggerFlush_inv hinv
  · refine ⟨hinv, fun b' hb' => ?_⟩
    rw [hopen] at hb'
    rw [List.mem_singleton.mp hb']
    exact not_le.mp hsize

/-! ## Flights -/

/-- The promises of two flights are different ones. -/
theorem Inv.waiters_disjoint (h : s.Inv batchSize) {i j : Nat} {f g : Flight T}
    (hf : s.flights[i]? = some f) (hg : s.flights[j]? = some g) (hij : i ≠ j) {w : Nat}
    (hw : w ∈ f.waiters) : w ∉ g.waiters := by
  have hnodup : (s.flights.flatMap Flight.waiters).Nodup :=
    (List.nodup_append.mp (h.waiters ▸ List.nodup_range)).1
  have hpair := (List.nodup_flatMap.mp hnodup).2
  rw [List.pairwise_iff_getElem] at hpair
  obtain ⟨hi, rfl⟩ := List.getElem?_eq_some_iff.mp hf
  obtain ⟨hj, rfl⟩ := List.getElem?_eq_some_iff.mp hg
  rcases Nat.lt_or_gt_of_ne hij with hlt | hlt
  · exact fun hm => hpair i j hi hj hlt hw hm
  · exact fun hm => hpair j i hj hi hlt hm hw

theorem Inv.waiters_nodup (h : s.Inv batchSize) {f : Flight T} (hf : f ∈ s.flights) :
    f.waiters.Nodup := by
  have hnodup : (s.flights.flatMap Flight.waiters).Nodup :=
    (List.nodup_append.mp (h.waiters ▸ List.nodup_range)).1
  exact (List.nodup_flatMap.mp hnodup).1 f hf

/-- Of the rest of the state, an operation changes the settlements and the time only. -/
theorem perform_frame (s : Accumulator T) (op : AccOp T) :
    s.perform op = { s with
      lastFlushAt := (s.perform op).lastFlushAt
      settled := s.settled ++ op.settlement.toList } := by
  cases op <;> simp [perform, AccOp.settlement]

theorem answer_frame (s : Accumulator T) (i : Nat) (f : Flight T) (op : AccOp T)
    (k : op.Response → AccFlow T Unit) (r : op.Response) :
    s.answer i f op k r = { s with
      lastFlushAt := (s.perform op).lastFlushAt
      settled := s.settled ++ op.settlement.toList
      flights := s.flights.set i (f.after op k r) } := by
  rw [answer, perform_frame]
  rfl

theorem answer_inv (h : s.Inv batchSize) (hfull : s.NotFull batchSize) {i : Nat} {f : Flight T}
    (hf : s.flights[i]? = some f) {op : AccOp T} {k : op.Response → AccFlow T Unit}
    (hrest : f.rest = .call op k) (r : op.Response) :
    (s.answer i f op k r).Inv batchSize ∧ (s.answer i f op k r).NotFull batchSize := by
  have hmem : f ∈ s.flights := List.mem_of_getElem? hf
  have hevents := flatMap_set_of_eq hf (show (f.after op k r).events = f.events from rfl)
  have hwaiters := flatMap_set_of_eq hf (show (f.after op k r).waiters = f.waiters from rfl)
  have hids := map_set_of_eq hf (show (f.after op k r).batchId = f.batchId from rfl)
  have hi : i < s.flights.length := (List.getElem?_eq_some_iff.mp hf).1
  have hafter : f.after op k r ∈ s.flights.set i (f.after op k r) := List.mem_set hi _
  have hstep := (h.phases f hmem).step (h.waiters_nodup hmem) hrest r
  -- a flight that has settled promises is still there
  have hstays : ∀ w outcome, (∃ g ∈ s.flights, w ∈ g.waiters ∧ g.outcome = some outcome) →
      ∃ g ∈ s.flights.set i (f.after op k r), w ∈ g.waiters ∧ g.outcome = some outcome := by
    intro w outcome ⟨g, hg, hw, hout⟩
    obtain ⟨j, hj⟩ := List.mem_iff_getElem?.mp hg
    by_cases hij : i = j
    · subst hij
      rw [hf, Option.some.injEq] at hj
      subst hj
      exact ⟨_, hafter, hw, (h.phases f hmem).outcome_after hrest r hout⟩
    · exact ⟨g, List.mem_iff_getElem?.mpr ⟨j, by rw [List.getElem?_set_ne hij, hj]⟩, hw, hout⟩
  rw [answer_frame]
  refine ⟨?_, hfull⟩
  constructor
  · show s.added = _
    rw [hevents]
    exact h.added
  · show _ = List.range s.added.length
    rw [hwaiters]
    exact h.waiters
  · intro g hg
    rcases List.mem_or_eq_of_mem_set hg with hg | rfl
    · exact h.flight_size g hg
    · exact h.flight_size f hmem
  · exact h.open_size
  · show _ = s.batchIds
    rw [hids]
    exact h.ids
  · exact h.ids_nodup
  · exact h.timers
  · intro g hg
    obtain ⟨j, hj⟩ := List.mem_iff_getElem?.mp hg
    by_cases hij : i = j
    · subst hij
      rw [List.getElem?_set_self hi, Option.some.injEq] at hj
      subst hj
      rcases hstep with ⟨hset, hphase⟩ | ⟨w, outcome, hset, -, -, -, hphase⟩
      · simpa [hset] using hphase
      · simpa [hset] using hphase
    · rw [List.getElem?_set_ne hij] at hj
      have hphase := h.phases g (List.mem_of_getElem? hj)
      rcases hstep with ⟨hset, -⟩ | ⟨w, outcome, hset, hw, -⟩
      · simpa [hset] using hphase
      · have hother := hphase.other (h.waiters_disjoint hf hj hij hw) outcome
        simpa [hset] using hother
  · rcases hstep with ⟨hset, -⟩ | ⟨w, outcome, hset, -, hno, -⟩
    · simpa [hset] using h.settled_nodup
    · show ((s.settled ++ op.settlement.toList).map Prod.fst).Nodup
      rw [hset, Option.toList_some, List.map_append, List.nodup_append]
      refine ⟨h.settled_nodup, List.nodup_singleton _, ?_⟩
      intro v hv v' hv' hvv
      rw [hvv, List.mem_singleton.mp hv'] at hv
      exact hno hv
  · intro p hp
    rcases List.mem_append.mp hp with hp | hp
    · exact hstays p.1 p.2 (h.settled p hp)
    · rcases hstep with ⟨hset, -⟩ | ⟨w, outcome, hset, hw, -, hout, -⟩
      · rw [hset] at hp
        cases hp
      · rw [hset, Option.toList_some, List.mem_singleton] at hp
        subst hp
        exact hstays w outcome ⟨f, hmem, hw, hout⟩

/-- **One step keeps the invariant.** -/
theorem step_inv (hpos : 0 < batchSize) {s' : Accumulator T} (hstep : Step batchSize s s')
    (h : s.Inv batchSize ∧ s.NotFull batchSize) : s'.Inv batchSize ∧ s'.NotFull batchSize := by
  cases hstep with
  | add event newId hfresh => exact add_inv hpos h.1 h.2 event hfresh
  | fire timer hlive =>
    rw [fire_eq h.1 hlive]
    exact triggerFlush_inv h.1
  | flushNow => exact triggerFlush_inv h.1
  | flight i f hf op k hrest r => exact answer_inv h.1 h.2 hf hrest r

/-! ## Runs -/

theorem zip_flatMap {α β γ : Type} {g : α → List β} {g' : α → List γ} {l : List α}
    (hl : ∀ a ∈ l, (g a).length = (g' a).length) :
    (l.flatMap g).zip (l.flatMap g') = l.flatMap fun a => (g a).zip (g' a) := by
  induction l with
  | nil => rfl
  | cons a l ih =>
    rw [List.flatMap_cons, List.flatMap_cons, List.flatMap_cons,
      List.zip_append (hl a List.mem_cons_self), ih fun b hb => hl b (List.mem_cons_of_mem _ hb)]

/-- **Every event is in one batch, beside its own promise.** -/
theorem Inv.places (h : s.Inv batchSize) :
    s.flights.flatMap (fun f => f.events.zip f.waiters) ++
      s.openBatches.flatMap (fun b => b.events.zip b.waiters) =
        s.added.zip (List.range s.added.length) := by
  have hflights : ∀ f ∈ s.flights, f.events.length = f.waiters.length := fun f hf =>
    (h.flight_size f hf).1.symm
  have hopen : ∀ b ∈ s.openBatches, b.events.length = b.waiters.length := fun b hb =>
    (h.open_size b hb).1.symm
  rw [← h.waiters, ← zip_flatMap hflights, ← zip_flatMap hopen, ← List.zip_append, ← h.added]
  rw [List.length_flatMap, List.length_flatMap]
  exact congrArg List.sum (List.map_congr_left hflights)

theorem Inv.event_of_place (h : s.Inv batchSize) {f : Flight T} (hf : f ∈ s.flights) {e : T}
    {w : Nat} (hw : (e, w) ∈ f.events.zip f.waiters) : s.added[w]? = some e := by
  have hmem : (e, w) ∈ s.added.zip (List.range s.added.length) := by
    rw [← h.places]
    exact List.mem_append_left _ (List.mem_flatMap.mpr ⟨f, hf, hw⟩)
  obtain ⟨i, hi⟩ := List.mem_iff_getElem?.mp hmem
  obtain ⟨he, hr⟩ := List.getElem?_zip_eq_some.mp hi
  rw [List.getElem?_range (List.getElem?_eq_some_iff.mp he).1, Option.some.injEq] at hr
  have hr : i = w := hr
  rw [← hr]
  exact he

/-- The event whose promise a flight holds. -/
theorem Inv.event_of_waiter (h : s.Inv batchSize) {f : Flight T} (hf : f ∈ s.flights) {w : Nat}
    (hw : w ∈ f.waiters) : ∃ e, (e, w) ∈ f.events.zip f.waiters ∧ s.added[w]? = some e := by
  obtain ⟨i, hi⟩ := List.mem_iff_getElem?.mp hw
  have hlen := (h.flight_size f hf).1
  have hlt : i < f.events.length := hlen ▸ (List.getElem?_eq_some_iff.mp hi).1
  have hplace : (f.events[i], w) ∈ f.events.zip f.waiters := by
    refine List.mem_iff_getElem?.mpr ⟨i, List.getElem?_zip_eq_some.mpr ⟨?_, hi⟩⟩
    rw [List.getElem?_eq_getElem hlt]
  exact ⟨_, hplace, h.event_of_place hf hplace⟩

/-- A flight that calls the flush function calls it for its own batch. -/
theorem Inv.flush_of_rest (h : s.Inv batchSize) {f : Flight T} (hf : f ∈ s.flights)
    {events : List T} {batchId : JsString}
    {k : (AccOp.flush events batchId).Response → AccFlow T Unit}
    (hrest : f.rest = .call (.flush events batchId) k) :
    events = f.events ∧ batchId = f.batchId ∧ f.outcome = none := by
  rcases h.phases f hf with ⟨hout, hrun, -⟩ | ⟨outcome, todo, -, hsettles, -⟩
  · obtain ⟨k₀, hk₀, -⟩ := runFlush_settles f.events f.batchId f.waiters
    rw [hrest, hk₀] at hrun
    injection hrun with hop
    injection hop with hevents hid
    exact ⟨hevents, hid, hout⟩
  · rw [hrest] at hsettles
    exact hsettles.elim

/-! ## What stays -/

/-- Events were added and batches handed over; what was there is as it was. -/
structure Extends (s s' : Accumulator T) : Prop where
  flights : ∃ more, s'.flights = s.flights ++ more ∧ ∀ f ∈ more, f.outcome = none
  added : s.added <+: s'.added
  settled : s'.settled = s.settled

theorem triggerFlush_extends (s : Accumulator T) : s.Extends s.triggerFlush := by
  cases hb : s.currentBatch with
  | none =>
    rw [triggerFlush_none hb]
    exact ⟨⟨[], by simp, by simp⟩, List.prefix_rfl, rfl⟩
  | some b =>
    rw [triggerFlush, hb]
    exact ⟨⟨_, rfl, fun f hf => by rw [List.mem_singleton.mp hf]⟩, List.prefix_rfl, rfl⟩

theorem Extends.trans {s₁ s₂ s₃ : Accumulator T} (h : s₁.Extends s₂) (h' : s₂.Extends s₃) :
    s₁.Extends s₃ := by
  obtain ⟨more, hflights, hnone⟩ := h.flights
  obtain ⟨more', hflights', hnone'⟩ := h'.flights
  refine ⟨⟨more ++ more', by rw [hflights', hflights, List.append_assoc], fun f hf => ?_⟩,
    h.added.trans h'.added, h'.settled.trans h.settled⟩
  exact (List.mem_append.mp hf).elim (hnone f) (hnone' f)

/-- A flight that is there stays where it is. -/
theorem Extends.flight {s' : Accumulator T} (h : s.Extends s') {i : Nat} {f : Flight T}
    (hf : s.flights[i]? = some f) : s'.flights[i]? = some f := by
  obtain ⟨more, hflights, -⟩ := h.flights
  rw [hflights, List.getElem?_append_left (List.getElem?_eq_some_iff.mp hf).1]
  exact hf

/-- A flight that has settled was there before. -/
theorem Extends.flight_of_outcome {s' : Accumulator T} (h : s.Extends s') {i : Nat} {f : Flight T}
    {outcome : Except Thrown Unit} (hf : s'.flights[i]? = some f) (hout : f.outcome = some outcome) :
    s.flights[i]? = some f := by
  obtain ⟨more, hflights, hnone⟩ := h.flights
  rw [hflights] at hf
  by_cases hi : i < s.flights.length
  · rwa [List.getElem?_append_left hi] at hf
  · rw [List.getElem?_append_right (Nat.le_of_not_lt hi)] at hf
    rw [hnone f (List.mem_of_getElem? hf)] at hout
    cases hout

theorem Extends.place {s' : Accumulator T} (h : s.Extends s') {n : Nat} {e : T}
    (he : s.added[n]? = some e) : s'.added[n]? = some e := by
  obtain ⟨more, hadded⟩ := h.added
  rw [← hadded, List.getElem?_append_left (List.getElem?_eq_some_iff.mp he).1]
  exact he

theorem openOrStart_frame (s : Accumulator T) (newId : JsString) :
    (s.openOrStart newId).2.flights = s.flights ∧ (s.openOrStart newId).2.added = s.added ∧
      (s.openOrStart newId).2.settled = s.settled ∧
      ∀ id ∈ (s.openOrStart newId).2.batchIds, id ∈ s.batchIds ∨ id = newId := by
  unfold openOrStart
  cases s.currentBatch with
  | some b => exact ⟨rfl, rfl, rfl, fun id hid => Or.inl hid⟩
  | none =>
    refine ⟨rfl, rfl, rfl, fun id hid => ?_⟩
    exact (List.mem_append.mp hid).imp_right List.mem_singleton.mp

/-- What `add` leaves: the event in its place, and at most one new id. -/
theorem add_extends (s : Accumulator T) (newId : JsString) (event : T) :
    s.Extends (s.add batchSize newId event) ∧
      (s.add batchSize newId event).added = s.added ++ [event] ∧
      ∀ id ∈ (s.add batchSize newId event).batchIds, id ∈ s.batchIds ∨ id = newId := by
  have hframe := s.openOrStart_frame newId
  rcases hp : s.openOrStart newId with ⟨b, s₁⟩
  rw [hp] at hframe
  obtain ⟨hflights, hadded, hsettled, hids⟩ := hframe
  obtain ⟨s₂, hadd, hext, hadded₂, hids₂⟩ : ∃ s₂ : Accumulator T,
      (s.add batchSize newId event = s₂.triggerFlush ∨ s.add batchSize newId event = s₂) ∧
        s.Extends s₂ ∧ s₂.added = s.added ++ [event] ∧ s₂.batchIds = s₁.batchIds := by
    refine ⟨{ s₁ with
      currentBatch := some { b with
        events := b.events ++ [event]
        waiters := b.waiters ++ [s₁.added.length] }
      added := s₁.added ++ [event] }, ?_, ⟨⟨[], ?_, by simp⟩, ⟨[event], ?_⟩, hsettled⟩, ?_, rfl⟩
    · simp only [add, hp]
      split_ifs
      · exact Or.inl rfl
      · exact Or.inr rfl
    · rw [List.append_nil]
      exact hflights
    · rw [← hadded]
    · rw [← hadded]
  have htrigger : s₂.triggerFlush.added = s₂.added ∧ s₂.triggerFlush.batchIds = s₂.batchIds := by
    rw [triggerFlush]
    cases s₂.currentBatch <;> exact ⟨rfl, rfl⟩
  rw [← hids₂] at hids
  rcases hadd with hadd | hadd
  · rw [hadd, htrigger.1, htrigger.2]
    exact ⟨hext.trans s₂.triggerFlush_extends, hadded₂, hids⟩
  · rw [hadd]
    exact ⟨hext, hadded₂, hids⟩

/-- **Theorem (`accumulator_runs`).** In every state of every run:
the events handed over and those of the open batch are the events added, in order; batches are
not empty, not larger than `batchSize`, and have distinct fresh ids; a batch is handed over once;
there is one live timer, or none, as there is an open batch or none; a promise settles once, after
the flush of its own batch and with the outcome of that flush; a logger that throws changes
nothing in that; and the next call of `add` puts its own event behind those added, once. -/
theorem accumulator_runs {options : BatchAccumulatorOptions} {now : Int} {s₀ s : Accumulator T}
    (hnew : Accumulator.new options now = .ok s₀)
    (hrun : Relation.ReflTransGen (Step options.batchSize.toNat) s₀ s) :
    (s.added = s.flights.flatMap Flight.events ++ s.openBatches.flatMap OpenBatch.events ∧
      (∀ f ∈ s.flights, f.events ≠ [] ∧ f.events.length ≤ options.batchSize.toNat) ∧
      s.flights.map Flight.batchId ++ s.openBatches.map OpenBatch.batchId = s.batchIds ∧
      s.batchIds.Nodup ∧
      ∀ f ∈ s.flights,
        (f.outcome = none → ∃ k, f.rest = .call (.flush f.events f.batchId) k) ∧
        ∀ outcome, f.outcome = some outcome → ∀ h q, Runs f.rest h q →
          ∀ e ∈ h, ∀ events batchId, e.1 ≠ .flush events batchId) ∧
    (s.timers.length ≤ 1 ∧ (s.timers ≠ [] ↔ s.currentBatch.isSome) ∧
      s.timers = s.openBatches.map OpenBatch.timer) ∧
    ((s.settled.map Prod.fst).Nodup ∧
      ∀ w outcome, (w, outcome) ∈ s.settled →
        ∃ f ∈ s.flights, f.outcome = some outcome ∧
          ∃ e, (e, w) ∈ f.events.zip f.waiters ∧ s.added[w]? = some e) ∧
    (∀ (events : List T) (batchId : JsString) (waiters : List Nat)
      (h : List (Event (AccOp T) AccOp.Response)) (q : AccFlow T Unit) (error : Thrown),
      Runs (runFlush events batchId waiters) h q → ⟨.flush events batchId, .error error⟩ ∈ h →
      ∀ e ∈ h, ∀ w o, e.1.settlement = some (w, o) → o = .error error) ∧
    ∀ newId event, (s.add options.batchSize.toNat newId event).added = s.added ++ [event] := by
  obtain ⟨hinv, -⟩ := invariant_of_steps (fun _ _ hstep h => step_inv (new_eq hnew).1 hstep h) hrun
    (new_inv hnew)
  refine ⟨⟨hinv.added, fun f hf => (hinv.flight_size f hf).2, hinv.ids, hinv.ids_nodup, ?_⟩,
    ⟨?_, ?_, hinv.timers⟩, ⟨hinv.settled_nodup, ?_⟩, ?_,
    fun newId event => (s.add_extends newId event).2.1⟩
  · intro f hf
    rcases hinv.phases f hf with ⟨hout, hrest, -⟩ | ⟨outcome, todo, hout, hsettles, -⟩
    · obtain ⟨k, hk, -⟩ := runFlush_settles f.events f.batchId f.waiters
      exact ⟨fun _ => ⟨k, hrest.trans hk⟩, fun _ h => by rw [hout] at h; cases h⟩
    · refine ⟨fun h => ?_, fun _ _ h q hr e he => (hsettles.runs hr e he).1⟩
      rw [hout] at h
      cases h
  · rw [hinv.timers, List.length_map, openBatches]
    cases s.currentBatch <;> simp
  · rw [hinv.timers, openBatches]
    cases s.currentBatch <;> simp
  · intro w outcome hw
    obtain ⟨f, hf, hmem, hout⟩ := hinv.settled _ hw
    exact ⟨f, hf, hout, hinv.event_of_waiter hf hmem⟩
  · intro events batchId waiters h q error hr hflush
    exact runFlush_outcome hr hflush

/-- Two events fill a batch of two; the flush rejects, the logger throws, and the first promise
rejects with the error of the flush. -/
theorem accumulator_runs_rejected :
    let s₀ : Accumulator Nat := ⟨none, 0, [], [], 0, [], [], []⟩
    let lost : Thrown := .new (lit "lost")
    ∃ s, Relation.ReflTransGen (Step 2) s₀ s ∧ s.settled = [(0, .error lost)] ∧
      ∃ f ∈ s.flights, f.outcome = some (.error lost) ∧
        ∃ e, (e, 0) ∈ f.events.zip f.waiters ∧ s.added[0]? = some e := by
  intro s₀ lost
  let s₁ := s₀.add 2 (lit "01J00000000000000000000001") 7
  let s₂ := s₁.add 2 (lit "01J00000000000000000000002") 8
  have hrun : Relation.ReflTransGen (Step (2 : Int).toNat) s₀ s₂ :=
    (Relation.ReflTransGen.single (.add s₀ 7 _ (by decide))).tail (.add s₁ 8 _ (by decide))
  have hrun := hrun.tail (.flight s₂ 0 _ rfl (.flush [7, 8] _) _ rfl (.error lost))
  have hrun := hrun.tail (.flight _ 0 _ rfl (.logError _ _) _ rfl (.error (.new (lit "closed"))))
  have hrun := hrun.tail (.flight _ 0 _ rfl (.reject 0 lost) _ rfl ())
  have hnew : Accumulator.new (T := Nat) ⟨2, 1000⟩ 0 = .ok s₀ := rfl
  exact ⟨_, hrun, rfl, (accumulator_runs hnew hrun).2.2.1.2 0 _ List.mem_cons_self⟩

end Accumulator

end Posta
