import Mathlib.Data.Nat.Log
import Posta.Worker.Poison

/-!
# How many flush calls a bisection makes

**Any flush function** (`length_calls_le`). Every node of the bisection uses its attempts at most
once, and `n` events make at most `2n - 1` nodes.

**One bad event** (`length_calls_of_one_bad`). Only the nodes that contain it use more than one
call, and they are one path from the root to a leaf.

**Theorem (`flush_call_bound`).** Both bounds hold at any moment of any run of `retryWithSplit`.
-/

namespace Posta

open Js Interaction

variable {m : Nat} {node : Node} {events : List CaptureEvent} {batchId : JsString}
  {calls : List FlushCall} {r : Except Thrown SplitRetryResult}

theorem length_failures (errors : List Thrown) :
    (failures node events batchId errors).length = errors.length := List.length_map _

theorem length_halves (events : List CaptureEvent) (hsize : 1 < events.length) :
    0 < (events.take (midpoint events.length)).length ∧
      0 < (events.drop (midpoint events.length)).length ∧
      (events.take (midpoint events.length)).length +
        (events.drop (midpoint events.length)).length = events.length := by
  simp only [List.length_take, List.length_drop, midpoint]
  omega

/-! ## Any flush function -/

/-- The root and the two halves, in attempts. -/
theorem nodes_of_halves {m l r n : Nat} (hl : 0 < l) (hr : 0 < r) (hn : l + r = n) :
    m + m * (2 * l - 1) + m * (2 * r - 1) = m * (2 * n - 1) := by
  obtain ⟨a, rfl⟩ : ∃ a, l = a + 1 := ⟨l - 1, by omega⟩
  obtain ⟨b, rfl⟩ : ∃ b, r = b + 1 := ⟨r - 1, by omega⟩
  subst hn
  have h₁ : 2 * (a + 1) - 1 = 2 * a + 1 := by omega
  have h₂ : 2 * (b + 1) - 1 = 2 * b + 1 := by omega
  have h₃ : 2 * (a + 1 + (b + 1)) - 1 = 2 * a + 2 * b + 3 := by omega
  rw [h₁, h₂, h₃]
  ring

/-- The calls of a batch that was split. -/
theorem length_halves_le {errors : List Thrown} {calls calls' : List FlushCall}
    (hlen : errors.length = m) (hsize : 1 < events.length)
    (hleft : calls.length ≤ m * (2 * (events.take (midpoint events.length)).length - 1))
    (hright : calls'.length ≤ m * (2 * (events.drop (midpoint events.length)).length - 1)) :
    (failures node events batchId errors ++ (calls ++ calls')).length ≤
      m * (2 * events.length - 1) := by
  obtain ⟨hl, hr, hn⟩ := length_halves _ hsize
  rw [List.length_append, List.length_append, length_failures, hlen, ← nodes_of_halves hl hr hn]
  omega

/-- **At most `m (2n - 1)` calls.** -/
theorem length_calls_le (h : BatchRun m node events batchId calls r) (hne : 0 < events.length) :
    calls.length ≤ m * (2 * events.length - 1) := by
  have hroot : ∀ n, 0 < n → m ≤ m * (2 * n - 1) := fun n hn =>
    Nat.le_mul_of_pos_right m (by omega)
  induction h with
  | flushed errors hlen =>
    rw [List.length_append, length_failures, List.length_singleton]
    exact le_trans hlen (hroot _ hne)
  | rejected errors last hlen hclass =>
    rw [length_failures, hlen]
    exact hroot _ hne
  | isolated event errors last hlen hclass =>
    rw [length_failures, hlen]
    exact hroot _ hne
  | leftRejected errors last hlen hclass hsize left ihl =>
    obtain ⟨hl, hr, hn⟩ := length_halves _ hsize
    have hnodes := nodes_of_halves (m := m) hl hr hn
    have hleft := ihl hl
    rw [List.length_append, length_failures, hlen]
    omega
  | rightRejected errors last hlen hclass hsize left right ihl ihr =>
    obtain ⟨hl, hr, -⟩ := length_halves _ hsize
    exact length_halves_le hlen hsize (ihl hl) (ihr hr)
  | split errors last hlen hclass hsize left right ihl ihr =>
    obtain ⟨hl, hr, -⟩ := length_halves _ hsize
    exact length_halves_le hlen hsize (ihl hl) (ihr hr)

/-! ## One bad event -/

/-- Every sub-batch with a bad event is refused with a fault of the row, every other one is taken
at its first call. -/
structure RefusesBad (bad : CaptureEvent → Bool) (calls : List FlushCall) : Prop where
  refused : ∀ c ∈ calls, (∃ e ∈ c.events, bad e = true) → c.RowFault
  accepted : ∀ c ∈ calls, (∀ e ∈ c.events, bad e = false) → c.outcome = .ok ()

variable {bad : CaptureEvent → Bool}

theorem RefusesBad.of_append {calls calls' : List FlushCall}
    (h : RefusesBad bad (calls ++ calls')) : RefusesBad bad calls ∧ RefusesBad bad calls' :=
  ⟨⟨fun c hc => h.refused c (List.mem_append_left _ hc),
      fun c hc => h.accepted c (List.mem_append_left _ hc)⟩,
    fun c hc => h.refused c (List.mem_append_right _ hc),
    fun c hc => h.accepted c (List.mem_append_right _ hc)⟩

/-- A sub-batch without a bad event never fails. -/
theorem RefusesBad.no_failures {errors : List Thrown}
    (h : RefusesBad bad (failures node events batchId errors))
    (hgood : ∀ e ∈ events, bad e = false) : errors = [] := by
  cases errors with
  | nil => rfl
  | cons e errors =>
    have hok := h.accepted ⟨node, events, batchId, .error e⟩ List.mem_cons_self hgood
    cases hok

/-- It takes one call. -/
theorem length_calls_of_good (h : BatchRun m node events batchId calls r)
    (hcalls : RefusesBad bad calls) (hgood : ∀ e ∈ events, bad e = false) : calls.length = 1 := by
  have hno : ∀ {node events batchId} {errors : List Thrown} {last : Thrown},
      RefusesBad bad (failures node events batchId (errors ++ [last])) →
      (∀ e ∈ events, bad e = false) → False := by
    intro node events batchId errors last hf hg
    exact absurd (hf.no_failures hg) (by simp)
  cases h with
  | flushed errors hlen =>
    rw [hcalls.of_append.1.no_failures hgood]
    rfl
  | rejected errors last hlen hclass => exact (hno hcalls hgood).elim
  | isolated event errors last hlen hclass => exact (hno hcalls hgood).elim
  | leftRejected errors last hlen hclass hsize left =>
    exact (hno hcalls.of_append.1 hgood).elim
  | rightRejected errors last hlen hclass hsize left right =>
    exact (hno hcalls.of_append.1 hgood).elim
  | split errors last hlen hclass hsize left right =>
    exact (hno hcalls.of_append.1 hgood).elim

/-- The bound for one bad event among `n`. -/
def pathBound (m n : Nat) : Nat := m * (Nat.clog 2 n + 1) + Nat.clog 2 n

theorem le_pathBound (m n : Nat) : m ≤ pathBound m n := by
  have h : m ≤ m * (Nat.clog 2 n + 1) := Nat.le_mul_of_pos_right m (Nat.succ_pos _)
  rw [pathBound]
  omega

/-- One level down: the attempts of the root, and one call for the good half. -/
theorem pathBound_half {m n k : Nat} (hn : 1 < n) (hk : k ≤ midpoint n) :
    m + pathBound m k + 1 ≤ pathBound m n := by
  have hlog : Nat.clog 2 n = Nat.clog 2 (midpoint n) + 1 := Nat.clog_of_two_le (by decide) hn
  have hmono : Nat.clog 2 k ≤ Nat.clog 2 (midpoint n) := Nat.clog_mono_right 2 hk
  have hmul : m * (Nat.clog 2 k + 1) ≤ m * (Nat.clog 2 (midpoint n) + 1) :=
    Nat.mul_le_mul_left m (Nat.succ_le_succ hmono)
  have hroot : m * (Nat.clog 2 (midpoint n) + 1 + 1) = m * (Nat.clog 2 (midpoint n) + 1) + m :=
    Nat.mul_succ m _
  rw [pathBound, pathBound, hlog, hroot]
  omega

theorem good_of_countP_zero {events : List CaptureEvent} (h : events.countP bad = 0) :
    ∀ e ∈ events, bad e = false := by
  intro e he
  simpa using List.countP_eq_zero.mp h e he

/-- The bad event lies in one half. -/
theorem countP_halves {events : List CaptureEvent} (h : events.countP bad = 1) (k : Nat) :
    ((events.take k).countP bad = 1 ∧ (events.drop k).countP bad = 0) ∨
      ((events.take k).countP bad = 0 ∧ (events.drop k).countP bad = 1) := by
  have hsum : (events.take k).countP bad + (events.drop k).countP bad = 1 := by
    rw [← List.countP_append, List.take_append_drop, h]
  omega

theorem length_half_le (hsize : 1 < events.length) :
    (events.take (midpoint events.length)).length ≤ midpoint events.length ∧
      (events.drop (midpoint events.length)).length ≤ midpoint events.length := by
  simp only [List.length_take, List.length_drop, midpoint]
  omega

/-- The calls of a batch that was split, one half of which has the bad event. -/
theorem length_halves_of_one_bad {errors : List Thrown} {calls calls' : List FlushCall}
    {r r' : Except Thrown SplitRetryResult} (hlen : errors.length = m) (hsize : 1 < events.length)
    (left : BatchRun m (node ++ [false]) (events.take (midpoint events.length))
      (batchId ++ lit ".0") calls r)
    (right : BatchRun m (node ++ [true]) (events.drop (midpoint events.length))
      (batchId ++ lit ".1") calls' r')
    (hcalls : RefusesBad bad (failures node events batchId errors ++ (calls ++ calls')))
    (hone : events.countP bad = 1)
    (ihl : (events.take (midpoint events.length)).countP bad = 1 →
      calls.length ≤ pathBound m (events.take (midpoint events.length)).length)
    (ihr : (events.drop (midpoint events.length)).countP bad = 1 →
      calls'.length ≤ pathBound m (events.drop (midpoint events.length)).length) :
    (failures node events batchId errors ++ (calls ++ calls')).length ≤
      pathBound m events.length := by
  obtain ⟨hl, hr⟩ := length_half_le hsize
  have hboundl := pathBound_half (m := m) hsize hl
  have hboundr := pathBound_half (m := m) hsize hr
  obtain ⟨hcl, hcr⟩ := hcalls.of_append.2.of_append
  rw [List.length_append, List.length_append, length_failures, hlen]
  rcases countP_halves hone _ with ⟨hbad, hgood⟩ | ⟨hgood, hbad⟩
  · have := ihl hbad
    have := length_calls_of_good right hcr (good_of_countP_zero hgood)
    omega
  · have := length_calls_of_good left hcl (good_of_countP_zero hgood)
    have := ihr hbad
    omega

/-- **At most `m (⌈log₂ n⌉ + 1) + ⌈log₂ n⌉` calls.** -/
theorem length_calls_of_one_bad (h : BatchRun m node events batchId calls r)
    (hcalls : RefusesBad bad calls) (hone : events.countP bad = 1) :
    calls.length ≤ pathBound m events.length := by
  induction h with
  | flushed errors hlen =>
    rw [List.length_append, length_failures, List.length_singleton]
    exact le_trans hlen (le_pathBound m _)
  | rejected errors last hlen hclass =>
    rw [length_failures, hlen]
    exact le_pathBound m _
  | isolated event errors last hlen hclass =>
    rw [length_failures, hlen]
    exact le_pathBound m _
  | leftRejected errors last hlen hclass hsize left ihl =>
    obtain ⟨hl, -⟩ := length_half_le hsize
    have hbound := pathBound_half (m := m) hsize hl
    rw [List.length_append, length_failures, hlen]
    rcases countP_halves hone _ with ⟨hleft, -⟩ | ⟨hleft, -⟩
    · have := ihl hcalls.of_append.2 hleft
      omega
    · have := length_calls_of_good left hcalls.of_append.2 (good_of_countP_zero hleft)
      omega
  | rightRejected errors last hlen hclass hsize left right ihl ihr =>
    obtain ⟨hcl, hcr⟩ := hcalls.of_append.2.of_append
    exact length_halves_of_one_bad hlen hsize left right hcalls hone (ihl hcl) (ihr hcr)
  | split errors last hlen hclass hsize left right ihl ihr =>
    obtain ⟨hcl, hcr⟩ := hcalls.of_append.2.of_append
    exact length_halves_of_one_bad hlen hsize left right hcalls hone (ihl hcl) (ihr hcr)

/-! ## Runs of `retryWithSplit` -/

theorem refusing_flush {bad : CaptureEvent → Bool} (h : List SplitEvent) {c : FlushCall}
    (hc : c.outcome = refusing bad h (.flush c.node c.events c.batchId)) :
    ((∃ e ∈ c.events, bad e = true) → c.RowFault) ∧
      ((∀ e ∈ c.events, bad e = false) → c.outcome = .ok ()) := by
  constructor
  · intro hbad
    obtain ⟨error, herror, hclass⟩ :=
      (refusing_isolates bad 0).refuses h c.node c.events c.batchId hbad
    exact ⟨error, hc.trans herror, hclass⟩
  · intro hgood
    refine hc.trans (if_neg fun hany => ?_)
    obtain ⟨e, he, hbad⟩ := List.any_eq_true.mp hany
    rw [hgood e he] at hbad
    cases hbad

theorem refusesBad_run (bad : CaptureEvent → Bool)
    (q : Flow SplitOp SplitOp.Response Thrown SplitRetryResult) :
    RefusesBad bad (flushCalls (run (refusing bad) [] q).1) := by
  have hanswers : ∀ c ∈ flushCalls (run (refusing bad) [] q).1, ∃ before,
      c.outcome = refusing bad before (.flush c.node c.events c.batchId) := by
    intro c hc
    obtain ⟨cs₁, cs₂, hsplit⟩ := List.append_of_mem hc
    obtain ⟨h₁, h₂, hh, -⟩ := flushCalls_split hsplit
    exact ⟨h₁, run_answers (refusing bad) [] q hh (Nat.zero_le _)⟩
  refine ⟨fun c hc => ?_, fun c hc => ?_⟩
  · obtain ⟨before, hbefore⟩ := hanswers c hc
    exact (refusing_flush before hbefore).1
  · obtain ⟨before, hbefore⟩ := hanswers c hc
    exact (refusing_flush before hbefore).2

/-- A run can be finished without a flush that goes against the bad events. -/
theorem exists_finish_refusing (bad : CaptureEvent → Bool)
    (q : Flow SplitOp SplitOp.Response Thrown SplitRetryResult) :
    ∃ h r, Runs q h (.done r) ∧ RefusesBad bad (flushCalls h) := by
  obtain ⟨h, hrun, hr⟩ := runs_run (refusing bad) [] q
  rw [List.nil_append] at hrun
  exact ⟨h, _, hr, hrun ▸ refusesBad_run bad q⟩

theorem RefusesBad.append {calls calls' : List FlushCall} (h : RefusesBad bad calls)
    (h' : RefusesBad bad calls') : RefusesBad bad (calls ++ calls') := by
  refine ⟨fun c hc => ?_, fun c hc => ?_⟩
  · rcases List.mem_append.mp hc with hc | hc
    · exact h.refused c hc
    · exact h'.refused c hc
  · rcases List.mem_append.mp hc with hc | hc
    · exact h.accepted c hc
    · exact h'.accepted c hc

/-- A finished run made no call, or is that of a non-empty batch. -/
theorem flushCalls_of_finished {events : List CaptureEvent} {options : SplitRetryOptions}
    {h : List SplitEvent} {r : Except Thrown SplitRetryResult}
    (hr : Runs (retryWithSplit splitEnv events options) h (.done r)) :
    flushCalls h = [] ∨ (events ≠ [] ∧ ∃ batchId,
      BatchRun options.maxAttemptsPerBatch.toNat [] events batchId (flushCalls h) r) := by
  rcases runs_retryWithSplit hr with ⟨hcalls, -⟩ | ⟨-, -, hcalls, -⟩ | ⟨-, hne, batchId, -, hrun⟩
  · exact .inl hcalls
  · exact .inl hcalls
  · exact .inr ⟨hne, batchId, hrun⟩

/-- **Theorem (`flush_call_bound`).** -/
theorem flush_call_bound (events : List CaptureEvent) (options : SplitRetryOptions)
    (h : List SplitEvent) (q : Flow SplitOp SplitOp.Response Thrown SplitRetryResult)
    (hr : Runs (retryWithSplit splitEnv events options) h q) :
    (flushCalls h).length ≤ options.maxAttemptsPerBatch.toNat * (2 * events.length - 1) ∧
      ∀ bad : CaptureEvent → Bool, events.countP bad = 1 → RefusesBad bad (flushCalls h) →
        (flushCalls h).length ≤
          options.maxAttemptsPerBatch.toNat * (Nat.clog 2 events.length + 1) +
            Nat.clog 2 events.length := by
  constructor
  · obtain ⟨h', r, hfinish⟩ := exists_finish q
    have hle : (flushCalls h).length ≤ (flushCalls (h ++ h')).length := by
      rw [flushCalls_append, List.length_append]
      omega
    refine le_trans hle ?_
    rcases flushCalls_of_finished (hr.append hfinish) with hnone | ⟨hne, batchId, hrun⟩
    · rw [hnone]
      exact Nat.zero_le _
    · exact length_calls_le hrun (List.length_pos_iff.mpr hne)
  · intro bad hone hcalls
    obtain ⟨h', r, hfinish, hrest⟩ := exists_finish_refusing bad q
    have hle : (flushCalls h).length ≤ (flushCalls (h ++ h')).length := by
      rw [flushCalls_append, List.length_append]
      omega
    refine le_trans hle ?_
    rcases flushCalls_of_finished (hr.append hfinish) with hnone | ⟨-, batchId, hrun⟩
    · rw [hnone]
      exact Nat.zero_le _
    · have hall : RefusesBad bad (flushCalls (h ++ h')) := by
        rw [flushCalls_append]
        exact hcalls.append hrest
      exact length_calls_of_one_bad hrun hall hone

def isBad (e : CaptureEvent) : Bool := e.slug.1 = lit "bad"

def threeEvents : List CaptureEvent :=
  [.plain (lit "first"), .plain (lit "bad"), .plain (lit "last")]

/-- Three events with a bad one in the middle: the batch, its first half and the bad event are each
tried three times, and the second bound is reached. -/
theorem flush_call_bound_middle : ∃ (h : List SplitEvent)
    (q : Flow SplitOp SplitOp.Response Thrown SplitRetryResult),
    Runs (retryWithSplit splitEnv threeEvents ⟨3, 150, none⟩) h q ∧
      RefusesBad isBad (flushCalls h) ∧ (flushCalls h).length = 11 ∧
      (flushCalls h).length ≤ 3 * (2 * 3 - 1) ∧
      (flushCalls h).length ≤ 3 * (Nat.clog 2 3 + 1) + Nat.clog 2 3 := by
  obtain ⟨h, hh, hr⟩ := runs_run (refusing isBad) []
    (retryWithSplit splitEnv threeEvents ⟨3, 150, none⟩)
  rw [List.nil_append] at hh
  have hbad : RefusesBad isBad (flushCalls h) := hh ▸ refusesBad_run isBad _
  have hcount : (flushCalls h).length = 11 := by
    rw [← hh]
    decide +kernel
  obtain ⟨hany, hone⟩ := flush_call_bound threeEvents ⟨3, 150, none⟩ h _ hr
  exact ⟨h, _, hr, hbad, hcount, hany, hone isBad (by decide) hbad⟩

end Posta
