import Posta.Worker.Bisection

/-!
# Exact isolation of poison

**Theorem (`isolates_exactly`).** Let the flush function refuse every sub-batch that contains a
bad event with a fault of the row, and accept every other one within its attempts. Then the
poison is exactly the bad events, and what was flushed is exactly the good ones.

The induction is over the abstract run. A sub-batch of good events cannot use up its attempts:
the calls with its events and its id are its own, since no other node has its id. So the last
attempt would have been answered by a success.
-/

namespace Posta

open Js Interaction
open BatchRun (OwnSingleton resolvedEvents)

/-! ## Runs of `retryWithSplit` -/

theorem validate_ok {options : SplitRetryOptions} :
    options.validate = .ok () ↔ 1 ≤ options.maxAttemptsPerBatch ∧ 0 ≤ options.initialDelayMs := by
  unfold SplitRetryOptions.validate
  split_ifs with h₁ h₂
  · exact ⟨nofun, fun h => absurd h.1 (by omega)⟩
  · exact ⟨nofun, fun h => absurd h.2 (by omega)⟩
  · exact ⟨fun _ => by omega, fun _ => rfl⟩

/-- The id of the root: the one given, else the one minted first. -/
def IsRootId (options : SplitRetryOptions) (h : List SplitEvent) (batchId : JsString) : Prop :=
  match options.batchId with
  | some id => batchId = id
  | none => h.head? = some ⟨.newId, batchId⟩

/-- A finished call refused its options, had nothing to do, or ran the batch. -/
theorem runs_retryWithSplit {events : List CaptureEvent} {options : SplitRetryOptions}
    {h : List SplitEvent} {r : Except Thrown SplitRetryResult}
    (hr : Runs (retryWithSplit splitEnv events options) h (.done r)) :
    (flushCalls h = [] ∧ ∃ e, options.validate = .error e ∧ r = .error e) ∨
    (options.validate = .ok () ∧ events = [] ∧ flushCalls h = [] ∧ r = .ok ⟨[], []⟩) ∨
    (options.validate = .ok () ∧ events ≠ [] ∧ ∃ batchId, IsRootId options h batchId ∧
      BatchRun options.maxAttemptsPerBatch.toNat [] events batchId (flushCalls h) r) := by
  rw [retryWithSplit, Flow.bind_eq, Flow.ofExcept, Prog.done_bind] at hr
  cases hv : options.validate with
  | error e =>
    rw [hv] at hr
    obtain ⟨rfl, rfl⟩ := Runs.done_eq hr
    exact Or.inl ⟨rfl, e, rfl, rfl⟩
  | ok u =>
    rw [hv] at hr
    have hm := (validate_ok.mp hv).1
    change Runs (dite _ _ _) h _ at hr
    split_ifs at hr with hne
    · obtain ⟨rfl, rfl⟩ := Runs.done_eq hr
      exact Or.inr (Or.inl ⟨rfl, hne, rfl, rfl⟩)
    · refine Or.inr (Or.inr ⟨rfl, hne, ?_⟩)
      cases hid : options.batchId with
      | some id =>
        rw [hid] at hr
        exact ⟨id, by simp only [IsRootId, hid], batchRun_of_runs (by omega) hne hr⟩
      | none =>
        rw [hid] at hr
        rcases hr.call_inv with ⟨-, hq⟩ | ⟨id, h', rfl, hr'⟩
        · cases hq
        · have hrun : BatchRun _ [] events id (flushCalls h') r :=
            batchRun_of_runs (by omega) hne hr'
          exact ⟨id, by simp only [IsRootId, hid, List.head?_cons], hrun⟩

/-- A batch starts with a flush of all its events under its own id. -/
theorem runs_first_flush {events : List CaptureEvent} (hne : events ≠ []) {m delay : Int}
    (hm : 1 ≤ m) (hdelay : 0 ≤ delay) {batchId : JsString} (outcome : Except Thrown Unit) :
    ∃ q, Runs (retryWithSplit splitEnv events ⟨m, delay, some batchId⟩)
      [⟨.flush [] events batchId, outcome⟩] q := by
  have hstart : retryWithSplit splitEnv events ⟨m, delay, some batchId⟩ =
      attemptBatch splitEnv m.toNat delay.toNat [] events hne batchId := by
    rw [retryWithSplit, Flow.bind_eq, Flow.ofExcept, validate_ok.mpr ⟨hm, hdelay⟩, Prog.done_bind]
    exact dif_neg hne
  obtain ⟨k, hk⟩ : ∃ k, m.toNat = k + 1 := ⟨m.toNat - 1, by omega⟩
  rw [hstart, attemptBatch, hk, Flow.bind_eq, flushAttempts_succ, Prog.call_bind]
  exact ⟨_, .cons (.nil _)⟩

/-! ## Flush functions that isolate -/

/-- The calls of one sub-batch, by its events and its id. -/
def callsOf (events : List CaptureEvent) (batchId : JsString) (cs : List FlushCall) :
    List FlushCall :=
  cs.filter fun c => c.events = events ∧ c.batchId = batchId

/-- A call refused with a fault of the row. -/
def FlushCall.RowFault (c : FlushCall) : Prop :=
  ∃ error, c.outcome = .error error ∧ classifyFlushError error = .rowFault

/-- The flush function refuses every sub-batch with a bad event, and accepts every other one by
its `m`-th call at the latest. -/
structure Isolates (m : Nat) (bad : CaptureEvent → Bool)
    (env : Handler SplitOp SplitOp.Response) : Prop where
  refuses : ∀ h node events batchId, (∃ e ∈ events, bad e = true) →
    FlushCall.RowFault ⟨node, events, batchId, env h (.flush node events batchId)⟩
  accepts : ∀ h node events batchId, (∀ e ∈ events, bad e = false) →
    (callsOf events batchId (flushCalls h)).length + 1 = m →
    (∀ c ∈ callsOf events batchId (flushCalls h), ∃ error, c.outcome = .error error) →
    env h (.flush node events batchId) = .ok ()

/-- The flush calls of a run under such a function. -/
structure IsolatedCalls (m : Nat) (bad : CaptureEvent → Bool) (cs : List FlushCall) : Prop where
  refused : ∀ c ∈ cs, (∃ e ∈ c.events, bad e = true) → c.RowFault
  accepted : ∀ cs₁ c cs₂, cs = cs₁ ++ c :: cs₂ → (∀ e ∈ c.events, bad e = false) →
    (callsOf c.events c.batchId cs₁).length + 1 = m →
    (∀ d ∈ callsOf c.events c.batchId cs₁, ∃ error, d.outcome = .error error) →
    c.outcome = .ok ()

/-- A place in the flush calls is a place in the history. -/
theorem flushCalls_split {h : List SplitEvent} {cs₁ cs₂ : List FlushCall} {c : FlushCall}
    (hc : flushCalls h = cs₁ ++ c :: cs₂) :
    ∃ h₁ h₂, h = h₁ ++ ⟨.flush c.node c.events c.batchId, c.outcome⟩ :: h₂ ∧
      flushCalls h₁ = cs₁ := by
  obtain ⟨h₁, h', rfl, h₁eq, h'eq⟩ := List.filterMap_eq_append_iff.mp hc
  obtain ⟨l₁, a, l₂, rfl, hl₁, ha, -⟩ := List.filterMap_eq_cons_iff.mp h'eq
  have hnil : flushCalls l₁ = [] := List.filterMap_eq_nil_iff.mpr hl₁
  refine ⟨h₁ ++ l₁, l₂, ?_, ?_⟩
  · obtain ⟨op, response⟩ := a
    cases op with
    | flush node events batchId =>
      cases ha
      rw [List.append_assoc]
    | _ => cases ha
  · rw [flushCalls_append, hnil, List.append_nil]
    exact h₁eq

theorem Isolates.calls {m : Nat} {bad : CaptureEvent → Bool}
    {env : Handler SplitOp SplitOp.Response} (henv : Isolates m bad env) {α : Type}
    (p : Prog SplitOp SplitOp.Response α) : IsolatedCalls m bad (flushCalls (run env [] p).1) := by
  have hanswer : ∀ cs₁ c cs₂, flushCalls (run env [] p).1 = cs₁ ++ c :: cs₂ →
      ∃ h, flushCalls h = cs₁ ∧ c.outcome = env h (.flush c.node c.events c.batchId) := by
    intro cs₁ c cs₂ hc
    obtain ⟨h₁, h₂, hrun, hcalls⟩ := flushCalls_split hc
    exact ⟨h₁, hcalls, run_answers env [] p hrun (Nat.zero_le _)⟩
  constructor
  · intro c hc hbad
    obtain ⟨cs₁, cs₂, hsplit⟩ := List.append_of_mem hc
    obtain ⟨h, -, hout⟩ := hanswer cs₁ c cs₂ hsplit
    obtain ⟨error, herr, hclass⟩ := henv.refuses h c.node c.events c.batchId hbad
    exact ⟨error, hout.trans herr, hclass⟩
  · intro cs₁ c cs₂ hsplit hgood hlen hfail
    obtain ⟨h, rfl, hout⟩ := hanswer cs₁ c cs₂ hsplit
    exact hout.trans (henv.accepts h c.node c.events c.batchId hgood hlen hfail)

/-! ## The induction -/

section Exact

variable {m : Nat} {bad : CaptureEvent → Bool} {node : Node} {events : List CaptureEvent}
  {batchId : JsString}

theorem callsOf_append (cs cs' : List FlushCall) :
    callsOf events batchId (cs ++ cs') = callsOf events batchId cs ++ callsOf events batchId cs' :=
  List.filter_append ..

theorem callsOf_eq_nil {cs : List FlushCall} (h : ∀ c ∈ cs, ¬batchId <+: c.batchId) :
    callsOf events batchId cs = [] := by
  rw [callsOf, List.filter_eq_nil_iff]
  intro c hc
  simp only [decide_eq_true_eq]
  rintro ⟨-, rfl⟩
  exact h c hc (List.prefix_refl _)

theorem callsOf_failures (errors : List Thrown) :
    callsOf events batchId (failures node events batchId errors) =
      failures node events batchId errors := by
  rw [callsOf, List.filter_eq_self]
  intro c hc
  obtain ⟨e, -, rfl⟩ := List.mem_map.mp hc
  simp

/-- A sub-batch that used up its attempts contains a bad event, and its last error is a fault of
the row. -/
theorem IsolatedCalls.exhausted {cs pre post : List FlushCall} (hcs : IsolatedCalls m bad cs)
    (hpre : ∀ c ∈ pre, ¬batchId <+: c.batchId) {errors : List Thrown} {last : Thrown}
    (hlen : (errors ++ [last]).length = m)
    (hsplit : cs = pre ++ (failures node events batchId (errors ++ [last]) ++ post)) :
    (∃ e ∈ events, bad e = true) ∧ classifyFlushError last = .rowFault := by
  have hlast : cs = (pre ++ failures node events batchId errors) ++
      (⟨node, events, batchId, .error last⟩ : FlushCall) :: post := by
    rw [hsplit, failures, failures, List.map_append]
    simp
  have hbad : ∃ e ∈ events, bad e = true := by
    by_contra hno
    have hgood : ∀ e ∈ events, bad e = false := fun e he => by
      simpa using fun h => hno ⟨e, he, h⟩
    have hcalls : callsOf events batchId (pre ++ failures node events batchId errors) =
        failures node events batchId errors := by
      rw [callsOf_append, callsOf_eq_nil hpre, callsOf_failures, List.nil_append]
    have hok : (Except.error last : Except Thrown Unit) = .ok () := by
      refine hcs.accepted _ _ _ hlast hgood ?_ ?_
      · rw [hcalls, failures, List.length_map]
        simpa using hlen
      · intro d hd
        rw [hcalls] at hd
        obtain ⟨e, -, rfl⟩ := List.mem_map.mp hd
        exact ⟨e, rfl⟩
    cases hok
  refine ⟨hbad, ?_⟩
  obtain ⟨error, herr, hclass⟩ := hcs.refused _ (hlast ▸ List.mem_append_right _
    List.mem_cons_self) hbad
  cases herr
  exact hclass

theorem filter_good {bad : CaptureEvent → Bool} {events : List CaptureEvent}
    (h : ∀ e ∈ events, bad e = false) :
    events.filter bad = [] ∧ events.filter (fun e => !bad e) = events := by
  rw [List.filter_eq_nil_iff, List.filter_eq_self]
  exact ⟨fun e he => by simp [h e he], fun e he => by simp [h e he]⟩

/-- **Theorem (`isolates_exactly`).** -/
theorem BatchRun.isolates_exactly {cs calls : List FlushCall}
    {r : Except Thrown SplitRetryResult} (h : BatchRun m node events batchId calls r)
    (hcs : IsolatedCalls m bad cs) (pre post : List FlushCall)
    (hpre : ∀ c ∈ pre, ¬batchId <+: c.batchId) (hsplit : cs = pre ++ (calls ++ post)) :
    ∃ result, r = .ok result ∧
      result.poisonEvents.map PoisonedEvent.event = events.filter bad ∧
      result.committedEvents = events.filter fun e => !bad e := by
  -- calls of a proper ancestor do not have an id below either half
  have hfails : ∀ {node events batchId errors} (s : JsString), s ≠ [] →
      ∀ c ∈ failures node events batchId errors, ¬batchId ++ s <+: c.batchId := by
    intro node events batchId errors s hs c hc hpre
    obtain ⟨e, -, rfl⟩ := List.mem_map.mp hc
    exact BatchRun.not_prefix_self hs hpre
  have hhalf : ∀ {pre : List FlushCall} {batchId : JsString} (s : JsString),
      (∀ c ∈ pre, ¬batchId <+: c.batchId) → ∀ c ∈ pre, ¬batchId ++ s <+: c.batchId :=
    fun s hpre c hc h => hpre c hc ((List.prefix_append _ s).trans h)
  have hleft : ∀ {pre : List FlushCall} {node : Node} {events : List CaptureEvent}
      {batchId : JsString} (errors : List Thrown), (∀ c ∈ pre, ¬batchId <+: c.batchId) →
      ∀ c ∈ pre ++ failures node events batchId errors, ¬batchId ++ lit ".0" <+: c.batchId := by
    intro pre node events batchId errors hpre
    rw [List.forall_mem_append]
    exact ⟨hhalf _ hpre, hfails _ (by decide)⟩
  have hright : ∀ {pre calls : List FlushCall} {node : Node} {events : List CaptureEvent}
      {batchId : JsString} {r : Except Thrown SplitRetryResult} (errors : List Thrown),
      (∀ c ∈ pre, ¬batchId <+: c.batchId) → 1 < events.length →
      BatchRun m (node ++ [false]) (events.take (midpoint events.length)) (batchId ++ lit ".0")
        calls r →
      ∀ c ∈ pre ++ failures node events batchId errors ++ calls,
        ¬batchId ++ lit ".1" <+: c.batchId := by
    intro pre calls node events batchId r errors hpre hsize left
    rw [List.forall_mem_append, List.forall_mem_append]
    exact ⟨⟨hhalf _ hpre, hfails _ (by decide)⟩, fun c hc =>
      BatchRun.lit_halves (left.batchId_prefix_left hsize hc)⟩
  induction h generalizing pre post with
  | @flushed node events batchId errors hlen =>
    refine ⟨_, rfl, ?_⟩
    have hgood : ∀ e ∈ events, bad e = false := by
      intro e he
      by_contra hbad
      obtain ⟨error, herr, -⟩ := hcs.refused ⟨node, events, batchId, .ok ()⟩
        (by rw [hsplit]; simp) ⟨e, he, by simpa using hbad⟩
      cases herr
    obtain ⟨hb, hg⟩ := filter_good hgood
    exact ⟨by rw [hb]; rfl, hg.symm⟩
  | rejected errors last hlen hclass =>
    have := (hcs.exhausted hpre hlen hsplit).2
    rw [hclass] at this
    cases this
  | isolated event errors last hlen hclass =>
    refine ⟨_, rfl, ?_⟩
    obtain ⟨e, he, hbad⟩ := (hcs.exhausted hpre hlen hsplit).1
    cases List.mem_singleton.mp he
    simp [hbad]
  | @leftRejected node events batchId errors last hlen hclass hsize calls error left ihl =>
    obtain ⟨_, h, -⟩ := ihl (pre ++ failures node events batchId (errors ++ [last])) post
      (hleft _ hpre)
      (by rw [hsplit]; simp only [List.append_assoc])
    cases h
  | @rightRejected node events batchId errors last hlen hclass hsize calls calls' result error
      left right ihl ihr =>
    obtain ⟨_, h, -⟩ := ihr
      (pre ++ failures node events batchId (errors ++ [last]) ++ calls) post
      (hright _ hpre hsize left)
      (by rw [hsplit]; simp only [List.append_assoc])
    cases h
  | @split node events batchId errors last hlen hclass hsize calls calls' result result'
      left right ihl ihr =>
    obtain ⟨_, hl, hlb, hlg⟩ := ihl
      (pre ++ failures node events batchId (errors ++ [last])) (calls' ++ post)
      (hleft _ hpre)
      (by rw [hsplit]; simp only [List.append_assoc])
    obtain ⟨_, hr, hrb, hrg⟩ := ihr
      (pre ++ failures node events batchId (errors ++ [last]) ++ calls) post
      (hright _ hpre hsize left)
      (by rw [hsplit]; simp only [List.append_assoc])
    cases hl
    cases hr
    refine ⟨_, rfl, ?_, ?_⟩
    · rw [List.map_append, hlb, hrb, ← List.filter_append, List.take_append_drop]
    · show result.committedEvents ++ result'.committedEvents = _
      rw [hlg, hrg, ← List.filter_append, List.take_append_drop]

end Exact

/-! ## The whole call -/

/-- The poisoned events come from singleton sub-batches of their own, one after another. -/
def OwnSingletons (m : Nat) (calls : List FlushCall) (poisonEvents : List PoisonedEvent) : Prop :=
  ∃ batchId, ∃ nodes : List Node, nodes.Nodup ∧
    List.Forall₂ (fun p node => ∃ errors, OwnSingleton m calls p node (nodeId batchId node) errors)
      poisonEvents nodes

/-- **Every call that returns** has partitioned its events; the committed ones are those of the
flush calls that succeeded, and each poisoned one used up the attempts of its own sub-batch. -/
theorem retryWithSplit_partition {events : List CaptureEvent} {options : SplitRetryOptions}
    {h : List SplitEvent} {result : SplitRetryResult}
    (hr : Runs (retryWithSplit splitEnv events options) h (.done (.ok result))) :
    Lists.Interleaved result.committedEvents (result.poisonEvents.map PoisonedEvent.event) events ∧
    result.committedEvents = resolvedEvents (flushCalls h) ∧
    OwnSingletons options.maxAttemptsPerBatch.toNat (flushCalls h) result.poisonEvents := by
  rcases runs_retryWithSplit hr with ⟨-, e, -, he⟩ | ⟨-, rfl, hcalls, hres⟩ |
    ⟨-, hne, batchId, -, hrun⟩
  · cases he
  · cases hres
    rw [hcalls]
    exact ⟨.nil, rfl, [], [], List.nodup_nil, .nil⟩
  · obtain ⟨nodes, hnodup, howners⟩ := hrun.owners rfl
    refine ⟨hrun.partition rfl, hrun.committedEvents_eq rfl, batchId, nodes, hnodup, ?_⟩
    simpa only [List.nil_append] using howners

theorem retryWithSplit_isolates {bad : CaptureEvent → Bool}
    {env : Handler SplitOp SplitOp.Response} {options : SplitRetryOptions}
    (hm : 1 ≤ options.maxAttemptsPerBatch) (hdelay : 0 ≤ options.initialDelayMs)
    (henv : Isolates options.maxAttemptsPerBatch.toNat bad env) (events : List CaptureEvent) :
    ∃ result, (run env [] (retryWithSplit splitEnv events options)).2 = .ok result ∧
      result.poisonEvents.map PoisonedEvent.event = events.filter bad ∧
      result.committedEvents = events.filter fun e => !bad e := by
  obtain ⟨h, hh, hr⟩ := runs_run env [] (retryWithSplit splitEnv events options)
  rcases runs_retryWithSplit hr with ⟨-, e, hv, -⟩ | ⟨-, rfl, -, hres⟩ | ⟨-, hne, batchId, -, hrun⟩
  · rw [validate_ok.mpr ⟨hm, hdelay⟩] at hv
    cases hv
  · exact ⟨_, hres, rfl, rfl⟩
  · refine hrun.isolates_exactly (henv.calls (retryWithSplit splitEnv events options))
      [] [] (by simp) ?_
    rw [hh, List.nil_append, List.nil_append, List.append_nil]

/-- **Exact isolation, and no loss.** Under a flush function that isolates, the poison is the bad
events, each with the last error of its own singleton, and the calls that succeeded flushed the
good ones, in order and once. Under any flush function, a call that returns has partitioned its
events, and every committed one was flushed by a call that succeeded. -/
theorem poison_isolation :
    (∀ (bad : CaptureEvent → Bool) (env : Handler SplitOp SplitOp.Response)
      (events : List CaptureEvent) (options : SplitRetryOptions),
      1 ≤ options.maxAttemptsPerBatch → 0 ≤ options.initialDelayMs →
      Isolates options.maxAttemptsPerBatch.toNat bad env →
      ∃ result, (run env [] (retryWithSplit splitEnv events options)).2 = .ok result ∧
        result.poisonEvents.map PoisonedEvent.event = events.filter bad ∧
        OwnSingletons options.maxAttemptsPerBatch.toNat
          (flushCalls (run env [] (retryWithSplit splitEnv events options)).1)
          result.poisonEvents ∧
        resolvedEvents (flushCalls (run env [] (retryWithSplit splitEnv events options)).1) =
          events.filter fun e => !bad e) ∧
    (∀ (events : List CaptureEvent) (options : SplitRetryOptions) (h : List SplitEvent)
      (result : SplitRetryResult),
      Runs (retryWithSplit splitEnv events options) h (.done (.ok result)) →
      Lists.Interleaved result.committedEvents (result.poisonEvents.map PoisonedEvent.event)
        events ∧
      result.committedEvents = resolvedEvents (flushCalls h) ∧
      ∀ e ∈ result.committedEvents, ∃ c ∈ flushCalls h, c.outcome = .ok () ∧ e ∈ c.events) := by
  constructor
  · intro bad env events options hm hdelay henv
    obtain ⟨result, hres, hpoison, hgood⟩ := retryWithSplit_isolates hm hdelay henv events
    obtain ⟨h, hh, hr⟩ := runs_run env [] (retryWithSplit splitEnv events options)
    rw [hres] at hr
    obtain ⟨-, hcommitted, hown⟩ := retryWithSplit_partition hr
    rw [hh, List.nil_append]
    exact ⟨result, hres, hpoison, hown, hcommitted ▸ hgood⟩
  · intro events options h result hr
    obtain ⟨hparts, hcommitted, -⟩ := retryWithSplit_partition hr
    refine ⟨hparts, hcommitted, fun e he => ?_⟩
    rw [hcommitted, resolvedEvents, List.mem_flatMap] at he
    obtain ⟨c, hc, hec⟩ := he
    cases hout : c.outcome with
    | ok u => exact ⟨c, hc, hout, by rwa [hout] at hec⟩
    | error error =>
      rw [hout] at hec
      cases hec

/-- A store that refuses the rows of the bad events with `data_exception`, and takes all others. -/
def refusing (bad : CaptureEvent → Bool) : Handler SplitOp SplitOp.Response
  | _, .flush _ events _ =>
    if events.any bad then
      .error (.error (lit "DatabaseError") (lit "invalid input") (some (lit "22P02")) false none none)
    else .ok ()
  | _, .sleep _ => ()
  | _, .log .. => ()
  | _, .newId => lit "01J00000000000000000000000"
  | _, .dlqSend .. => .ok ()

theorem refusing_isolates (bad : CaptureEvent → Bool) (m : Nat) : Isolates m bad (refusing bad) where
  refuses h node events batchId hbad := by
    have hany : events.any bad = true := List.any_eq_true.mpr hbad
    exact ⟨_, if_pos hany, by decide⟩
  accepts h node events batchId hgood _ _ := by
    refine if_neg fun hany => ?_
    obtain ⟨e, he, hbad⟩ := List.any_eq_true.mp hany
    rw [hgood e he] at hbad
    cases hbad

/-- Three events with a bad one in the middle. -/
theorem poison_isolation_middle :
    ∃ result, (run (refusing fun e => e.slug.1 = lit "bad") []
        (retryWithSplit splitEnv [.plain (lit "a"), .plain (lit "bad"), .plain (lit "b")]
          ⟨3, 150, none⟩)).2 = .ok result ∧
      result.poisonEvents.map PoisonedEvent.event = [.plain (lit "bad")] := by
  obtain ⟨result, hres, hpoison, -⟩ := poison_isolation.1 (fun e => e.slug.1 = lit "bad")
    (refusing fun e => e.slug.1 = lit "bad")
    [.plain (lit "a"), .plain (lit "bad"), .plain (lit "b")] ⟨3, 150, none⟩ (by decide) (by decide)
    (refusing_isolates _ _)
  exact ⟨result, hres, hpoison⟩

end Posta
