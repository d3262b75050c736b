import Posta.Worker.FlushLogic

/-!
# Runs of the flush

**The system** (`FlushSystem`). Any number of flushes of batches run at once over the stores,
each under a root id of its own. Requests may take effect after they were given up, other parts
of the worker use the stores as well, and the worker may crash at any time.

**Invariant** (`FlushSystem.Inv`). The invariant of the world, and for each running flush the
judgement of `ensures_productionFlush` on the rest of its program.

**Theorem (`Reachable.inv`).** The invariant holds in every state of every run; nothing that is
durable is ever lost (`step_inv`).
-/

namespace Posta

open Js Interaction Interaction.Env

/-- A flush with its batch and the rest of its program. -/
structure FlushThread where
  batch : RootBatch
  rest : WorkerFlow Unit

structure FlushSystem where
  world : World
  threads : List FlushThread

namespace FlushSystem

def init : FlushSystem := ⟨World.empty, []⟩

/-- An operation that was about to be performed when the worker crashed. -/
def Pending (s : FlushSystem) (op : WorkerOp) : Prop :=
  op.harmless = true ∨ ∃ t ∈ s.threads, ∃ k, t.rest = .call op k

/-- One step of the system. Root ids are never used twice. -/
inductive Step (P : Platform) (pg : Postgres) (service : DlqService) :
    FlushSystem → FlushSystem → Prop
  | spawn (s : FlushSystem) (b : RootBatch) (hne : b.2 ≠ [])
      (hfresh : b.1 ∉ s.world.batches.map Prod.fst) :
      Step P pg service s ⟨{ s.world with batches := s.world.batches ++ [b] },
        s.threads ++ [⟨b, productionFlush P service b.2 b.1.1⟩]⟩
  | exec (s : FlushSystem) (i : Nat) (t : FlushThread) (ht : s.threads[i]? = some t)
      (op : WorkerOp) (k : op.Response → WorkerFlow Unit) (hrest : t.rest = .call op k)
      (r : op.Response) (w : World) (hexec : World.Exec pg op s.world r w) :
      Step P pg service s ⟨w, s.threads.set i { t with rest := k r }⟩
  | outside (s : FlushSystem) (op : WorkerOp) (hop : op.harmless = true) (r : op.Response)
      (w : World) (hexec : World.Exec pg op s.world r w) : Step P pg service s ⟨w, s.threads⟩
  | land (s : FlushSystem) (op : WorkerOp) (w : World) (hland : World.Lands pg op s.world w) :
      Step P pg service s ⟨w, s.threads⟩
  | crash (s : FlushSystem) (late : List WorkerOp) (hlate : ∀ op ∈ late, s.Pending op) :
      Step P pg service s ⟨s.world.crash late, []⟩

variable {P : Platform} {pg : Postgres} {service : DlqService} {s s' : FlushSystem}

/-! ## The invariant -/

/-- The rest of a flush performs safe operations only, and makes its batch durable. -/
def ThreadInv (P : Platform) (pg : Postgres) (t : FlushThread) (w : World) : Prop :=
  t.batch ∈ w.batches ∧
    (workerEnv P pg).Ensures (fun _ u => Established P (AllDurable t.batch.2) u) (fun _ _ => True)
      t.rest w

structure Inv (P : Platform) (pg : Postgres) (s : FlushSystem) : Prop where
  world : s.world.Inv P
  threads : ∀ t ∈ s.threads, ThreadInv P pg t s.world

theorem ThreadInv.mono {t : FlushThread} {w w' : World} (hw : w'.Inv P ∧ World.Grows P w w')
    (h : ThreadInv P pg t w) : ThreadInv P pg t w' :=
  ⟨hw.2.batches h.1, Holds.rely h.2 fun _ => hw⟩

/-- A change of the world that other programs may see. -/
theorem Inv.world_step (h : s.Inv P pg) {w : World} (hw : w.Inv P ∧ World.Grows P s.world w) :
    (⟨w, s.threads⟩ : FlushSystem).Inv P pg :=
  ⟨hw.1, fun t ht => (h.threads t ht).mono hw⟩

/-- What a running flush is about to do is safe. -/
theorem Inv.safe_of_pending (h : s.Inv P pg) {op : WorkerOp} (hop : s.Pending op) :
    World.Safe P op s.world := by
  rcases hop with hop | ⟨t, ht, k, hrest⟩
  · exact WorkerOp.safe_of_harmless hop _
  · have ht := (h.threads t ht).2
    rw [hrest] at ht
    exact Holds.safe ht

/-- **One step keeps the invariant**, and nothing goes away. -/
theorem step_inv (hstep : Step P pg service s s') (h : s.Inv P pg) :
    s'.Inv P pg ∧ World.Grows P s.world s'.world := by
  cases hstep with
  | spawn b hne hfresh =>
    have hw := World.spawn_grows hfresh h.world
    refine ⟨⟨hw.1, fun t ht => ?_⟩, hw.2⟩
    rcases List.mem_append.mp ht with ht | ht
    · exact (h.threads t ht).mono hw
    · rw [List.mem_singleton.mp ht]
      have hb : b ∈ s.world.batches ++ [b] := List.mem_append_right _ (List.mem_singleton_self _)
      exact ⟨hb, ensures_productionFlush service hw.1 hb⟩
  | exec i t ht op k hrest r w hexec =>
    have hmem := List.mem_of_getElem? ht
    have hthread := (h.threads t hmem).2
    rw [hrest] at hthread
    have hw := World.exec_grows (Holds.safe hthread) hexec h.world
    refine ⟨⟨hw.1, fun t' ht' => ?_⟩, hw.2⟩
    rcases List.mem_or_eq_of_mem_set ht' with ht' | rfl
    · exact (h.threads t' ht').mono hw
    · exact ⟨hw.2.batches (h.threads t hmem).1,
        Holds.answer hthread (workerExec_of_exec hexec)⟩
  | outside op hop r w hexec =>
    have hw := World.exec_grows (WorkerOp.safe_of_harmless hop s.world) hexec h.world
    exact ⟨h.world_step hw, hw.2⟩
  | land op w hland =>
    have hw := World.lands_grows hland h.world
    exact ⟨h.world_step hw, hw.2⟩
  | crash late hlate =>
    have hw := World.crash_grows (fun op hop => h.safe_of_pending (hlate op hop)) h.world
    exact ⟨⟨hw.1, nofun⟩, hw.2⟩

theorem inv_init : (init).Inv P pg := ⟨World.inv_empty, nofun⟩

/-- A state that some run reaches. -/
def Reachable (P : Platform) (pg : Postgres) (service : DlqService) (s : FlushSystem) : Prop :=
  Relation.ReflTransGen (Step P pg service) init s

theorem Reachable.inv (h : Reachable P pg service s) : s.Inv P pg :=
  invariant_of_steps (fun _ _ hstep hinv => (step_inv hstep hinv).1) h inv_init

end FlushSystem

end Posta
