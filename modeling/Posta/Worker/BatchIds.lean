import Posta.Core.EventKeys
import Posta.Worker.Poison

/-!
# Ids of sub-batches

A sub-batch has the id of its root batch followed by its path: `.0` for a left half, `.1` for a
right one. Root ids are ULIDs, which all have one length, so an id is read back as a root and a
path, and a key of the event log as an id.

**Theorem (`batchIds_injective`).** In the runs of any number of batches with distinct root ids,
the calls of one node carry one id, and the calls of different nodes carry different ids and lead
to different keys.
-/

namespace Posta

open Js Interaction

theorem nodeSuffix_injective : Function.Injective nodeSuffix := by
  intro a
  induction a with
  | nil =>
    intro b h
    cases b with
    | nil => rfl
    | cons c b => cases c <;> simp [nodeSuffix, lit] at h
  | cons c a ih =>
    intro b h
    cases b with
    | nil => cases c <;> simp [nodeSuffix, lit] at h
    | cons d b =>
      have hlen : ∀ x, (nodeSuffix [x]).length = 2 := by decide
      have hcons : ∀ x node, nodeSuffix (x :: node) = nodeSuffix [x] ++ nodeSuffix node := by
        intro x node
        exact nodeSuffix_append [x] node
      rw [hcons c, hcons d] at h
      obtain ⟨hhead, htail⟩ := List.append_inj h (by rw [hlen, hlen])
      have hne : nodeSuffix [false] ≠ nodeSuffix [true] := by decide
      have hcd : c = d := by
        cases c <;> cases d <;> first | rfl | exact absurd hhead hne | exact absurd hhead.symm hne
      rw [hcd, ih htail]

theorem length_root (u : Ulid) : u.1.length = 26 := by
  have h := u.2
  simp only [isUlid, Bool.and_eq_true, beq_iff_eq] at h
  exact h.1

/-- An id is read back as a root and a path. -/
theorem nodeId_inj {a b : Ulid} {node node' : Node} (h : nodeId a.1 node = nodeId b.1 node') :
    a = b ∧ node = node' := by
  obtain ⟨hroot, hsuffix⟩ := List.append_inj h (by rw [length_root, length_root])
  exact ⟨Subtype.ext hroot, nodeSuffix_injective hsuffix⟩

/-- A call of `retryWithSplit` that has got anywhere, with the id of its root. -/
structure BatchInProgress where
  rootId : Ulid
  events : List CaptureEvent
  options : SplitRetryOptions
  history : List SplitEvent
  rest : Flow SplitOp SplitOp.Response Thrown SplitRetryResult
  runs : Runs (retryWithSplit splitEnv events options) history rest
  root : IsRootId options history rootId.1

/-- The flush calls of a run in progress are those of nodes of its batch. -/
theorem BatchInProgress.batchId_eq (b : BatchInProgress) {c : FlushCall}
    (hc : c ∈ flushCalls b.history) :
    c.batchId = nodeId b.rootId.1 c.node ∧ c.events = nodeEvents b.events c.node := by
  obtain ⟨h', r, hq⟩ := exists_finish b.rest
  have hmem : c ∈ flushCalls (b.history ++ h') := by
    rw [flushCalls_append]
    exact List.mem_append_left _ hc
  rcases runs_retryWithSplit (b.runs.append hq) with ⟨hnil, -⟩ | ⟨-, -, hnil, -⟩ |
    ⟨-, hne, batchId, hroot, hrun⟩
  · rw [hnil] at hmem
    cases hmem
  · rw [hnil] at hmem
    cases hmem
  · have hid : batchId = b.rootId.1 := by
      have hr := b.root
      unfold IsRootId at hroot hr
      cases ho : b.options.batchId with
      | some id =>
        rw [ho] at hroot hr
        exact hroot.trans hr.symm
      | none =>
        rw [ho] at hroot hr
        rw [List.head?_append, hr, Option.some_or, Option.some.injEq] at hroot
        have hev := (Sigma.mk.injEq ..).mp hroot
        exact (eq_of_heq hev.2).symm
    obtain ⟨path, hp⟩ := hrun.below_of_mem hne hmem
    have hnode : c.node = path := hp.node_eq
    rw [hp.batchId_eq, hp.events_eq, hid, hnode]
    exact ⟨rfl, rfl⟩

/-- **Theorem (`batchIds_injective`).** -/
theorem batchIds_injective (P : Platform) (batches : List BatchInProgress)
    (hroots : (batches.map BatchInProgress.rootId).Nodup) (i j : Fin batches.length)
    (c d : FlushCall) (hc : c ∈ flushCalls (batches.get i).history)
    (hd : d ∈ flushCalls (batches.get j).history) :
    (i = j → c.node = d.node → c.batchId = d.batchId) ∧
      (i ≠ j ∨ c.node ≠ d.node → c.batchId ≠ d.batchId ∧
        ∀ occurredAt occurredAt' key key', eventBatchKey P c.batchId occurredAt = .ok key →
          eventBatchKey P d.batchId occurredAt' = .ok key' → key ≠ key') := by
  have hcid := ((batches.get i).batchId_eq hc).1
  have hdid := ((batches.get j).batchId_eq hd).1
  constructor
  · rintro rfl hnode
    rw [hcid, hdid, hnode]
  · intro hne
    have hids : c.batchId ≠ d.batchId := by
      rw [hcid, hdid]
      intro h
      obtain ⟨hroot, hnode⟩ := nodeId_inj h
      rcases hne with hij | hnodes
      · have hlen : batches.length = (batches.map BatchInProgress.rootId).length := by simp
        have hcast : i.cast hlen = j.cast hlen :=
          List.nodup_iff_injective_get.mp hroots (by simpa using hroot)
        have hval : (i.cast hlen).val = (j.cast hlen).val := congrArg Fin.val hcast
        exact hij (Fin.ext hval)
      · exact hnodes hnode
    exact ⟨hids, fun _ _ _ _ hk hk' => eventBatchKey_ne hids hk hk'⟩

/-- Two batches of one event each, flushed at the first attempt. -/
theorem batchIds_injective_two :
    ∃ batches : List BatchInProgress, ∃ c d : FlushCall, ∃ i j : Fin batches.length,
      c ∈ flushCalls (batches.get i).history ∧ d ∈ flushCalls (batches.get j).history ∧
        c.batchId ≠ d.batchId := by
  let root₁ : Ulid := ⟨lit "01J00000000000000000000001", by decide⟩
  let root₂ : Ulid := ⟨lit "01J00000000000000000000002", by decide⟩
  let start (root : Ulid) : BatchInProgress :=
    { rootId := root
      events := [.plain (lit "a")]
      options := ⟨1, 0, some root.1⟩
      history := [⟨.flush [] [.plain (lit "a")] root.1, .ok ()⟩]
      rest := _
      runs := (runs_first_flush (List.cons_ne_nil _ _) (by decide) (by decide) (.ok ())).choose_spec
      root := rfl }
  let c (root : Ulid) : FlushCall := ⟨[], [.plain (lit "a")], root.1, .ok ()⟩
  refine ⟨[start root₁, start root₂], c root₁, c root₂, 0, 1, List.mem_singleton_self _,
    List.mem_singleton_self _, ?_⟩
  exact ((batchIds_injective Platform.plain [start root₁, start root₂]
    (show [root₁, root₂].Nodup by decide) 0 1 (c root₁) (c root₂) (List.mem_singleton_self _)
    (List.mem_singleton_self _)).2 (Or.inl (by simp))).1

end Posta
