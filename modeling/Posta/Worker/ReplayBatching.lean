import Mathlib.Algebra.Order.Floor.Div
import Posta.Interaction.Sequential
import Posta.Worker.ReplayCli

/-!
# Batches of a replay

**One pass** (`replayRecords_progress`). Reading records moves their rows through the buffer into
full batches; the buffer stays shorter than a batch.

**The driver** (`replayStream_batching`). A replay that finishes has handed over the rows of the
records it keeps, in order, in full batches and a last one that is not empty.

**Theorem (`replay_transparent`).** The driver batches so for every stream, filter and batch size,
and a dry run of the command counts the records that a replay would hand over, hands over none, and
warns exactly when the replay does.
-/

namespace Posta

open Js Interaction

/-- The batches handed to the insert function. -/
def handedBatches (h : List ReplayEvent) : List (List NewEvent) :=
  h.filterMap fun e => match e.1 with
    | .insertEventsBatch rows => some rows
    | _ => none

/-- The insert function refused a batch. -/
def refusesBatch : ReplayEvent → Prop
  | ⟨.insertEventsBatch _, r⟩ => ∃ error : Thrown, r = (.error error : Except Thrown Unit)
  | _ => False

theorem handedBatches_append (h₁ h₂ : List ReplayEvent) :
    handedBatches (h₁ ++ h₂) = handedBatches h₁ ++ handedBatches h₂ := List.filterMap_append

/-- What a pass over some records has done, for batches of `n` rows. -/
structure Progress (n : Nat) (s s' : ReplayVars) (read : Nat) (rows : List NewEvent)
    (h : List ReplayEvent) : Prop where
  moved : s.buffer ++ rows = (handedBatches h).flatten ++ s'.buffer
  full : ∀ batch ∈ handedBatches h, batch.length = n
  short : s'.buffer.length < n
  written : s'.batchesWritten = s.batchesWritten + (handedBatches h).length
  recordsRead : s'.recordsRead = s.recordsRead + read

theorem Progress.trans {n : Nat} {s₁ s₂ s₃ : ReplayVars} {read read' : Nat}
    {rows rows' : List NewEvent} {h h' : List ReplayEvent} (hp : Progress n s₁ s₂ read rows h)
    (hp' : Progress n s₂ s₃ read' rows' h') :
    Progress n s₁ s₃ (read + read') (rows ++ rows') (h ++ h') where
  moved := by
    rw [handedBatches_append, List.flatten_append, ← List.append_assoc, hp.moved,
      List.append_assoc, hp'.moved, List.append_assoc]
  full batch hb := by
    rw [handedBatches_append, List.mem_append] at hb
    exact hb.elim (hp.full batch) (hp'.full batch)
  short := hp'.short
  written := by
    rw [hp'.written, hp.written, handedBatches_append, List.length_append, Nat.add_assoc]
  recordsRead := by rw [hp'.recordsRead, hp.recordsRead, Nat.add_assoc]

theorem Progress.refl {n : Nat} {s : ReplayVars} (hshort : s.buffer.length < n) :
    Progress n s s 0 [] [] where
  moved := List.append_nil _
  full _ hb := absurd hb List.not_mem_nil
  short := hshort
  written := rfl
  recordsRead := rfl

/-- A record read, and its row pushed, before the rest of a pass. -/
theorem Progress.push {n : Nat} {s s' : ReplayVars} {row : NewEvent} {h : List ReplayEvent}
    (hp : Progress n ⟨s.recordsRead + 1, s.batchesWritten, s.buffer ++ [row]⟩ s' 0 [] h) :
    Progress n s s' 1 [row] h where
  moved := by
    rw [← hp.moved, List.append_nil]
  full := hp.full
  short := hp.short
  written := hp.written
  recordsRead := hp.recordsRead

/-! ## One pass -/

/-- An insertion returned, or the insert function refused its batch. -/
theorem insertBatch_done_inv {rows : List NewEvent} {h : List ReplayEvent}
    {r : Except Thrown Unit} (hr : Runs (insertBatch rows) h (.done r)) :
    handedBatches h = [rows] ∧ ((r = .ok () ∧ ∀ e ∈ h, ¬ refusesBatch e) ∨
      ∃ error, r = .error error ∧ ∃ e ∈ h, refusesBatch e) := by
  obtain ⟨-, hq⟩ | ⟨r', h', rfl, hr'⟩ := Runs.call_inv hr
  · cases hq
  · obtain ⟨rfl, rfl⟩ := Runs.done_eq hr'
    refine ⟨rfl, ?_⟩
    cases r with
    | ok u =>
      refine Or.inl ⟨rfl, fun e he => ?_⟩
      rw [List.mem_singleton.mp he]
      rintro ⟨error, herror⟩
      cases herror
    | error error => exact Or.inr ⟨error, rfl, _, List.mem_cons_self, error, rfl⟩

/-- A flush does nothing without rows, and otherwise hands them over. -/
theorem flushBuffer_done_inv {s : ReplayVars} {h : List ReplayEvent} {r : Except Thrown ReplayVars}
    (hr : Runs s.flushBuffer h (.done r)) :
    (s.buffer = [] ∧ h = [] ∧ r = .ok s) ∨
      (s.buffer ≠ [] ∧ handedBatches h = [s.buffer] ∧
        ((r = .ok { s with batchesWritten := s.batchesWritten + 1, buffer := [] } ∧
            ∀ e ∈ h, ¬ refusesBatch e) ∨
          ∃ error, r = .error error ∧ ∃ e ∈ h, refusesBatch e)) := by
  rw [ReplayVars.flushBuffer] at hr
  split_ifs at hr with hempty
  · obtain ⟨rfl, rfl⟩ := Runs.done_eq hr
    exact Or.inl ⟨List.isEmpty_iff.mp hempty, rfl, rfl⟩
  · rw [Flow.bind_eq] at hr
    obtain ⟨a, h₁, h₂, rfl, hinsert, hrest⟩ := hr.bind_done_inv
    obtain ⟨hhanded, ⟨rfl, hok⟩ | ⟨error, rfl, hrefused⟩⟩ := insertBatch_done_inv hinsert
    · obtain ⟨rfl, rfl⟩ := Runs.done_eq hrest
      rw [List.append_nil]
      exact Or.inr ⟨fun h => hempty (List.isEmpty_iff.mpr h), hhanded, Or.inl ⟨rfl, hok⟩⟩
    · obtain ⟨rfl, rfl⟩ := Runs.done_eq hrest
      rw [List.append_nil]
      exact Or.inr ⟨fun h => hempty (List.isEmpty_iff.mpr h), hhanded,
        Or.inr ⟨error, rfl, hrefused⟩⟩

/-- A pass over some records made progress by their rows, or a row or a batch was refused. -/
def PassOutcome (P : Platform) (options : ReplayDriverOptions) (s : ReplayVars)
    (records : List LogRecord) (h : List ReplayEvent) : Except Thrown ReplayVars → Prop
  | .ok s' => ∃ rows, recordRows P (records.filter options.keeps) = .ok rows ∧
      Progress options.batchSize.toNat s s' records.length rows h ∧ ∀ e ∈ h, ¬ refusesBatch e
  | .error _ => (∀ rows, recordRows P (records.filter options.keeps) ≠ .ok rows) ∨
      ∃ e ∈ h, refusesBatch e

variable {P : Platform} {options : ReplayDriverOptions}

theorem recordRows_append {records records' : List LogRecord} {rows : List NewEvent} :
    recordRows P (records ++ records') = .ok rows ↔ ∃ r r', recordRows P records = .ok r ∧
      recordRows P records' = .ok r' ∧ rows = r ++ r' := by
  induction records generalizing rows with
  | nil =>
    constructor
    · intro h
      exact ⟨[], rows, rfl, h, rfl⟩
    · rintro ⟨r, r', hr, hr', rfl⟩
      cases hr
      exact hr'
  | cons record records ih =>
    rw [List.cons_append, recordRows_cons]
    constructor
    · rintro ⟨row, rest, hrow, hrest, rfl⟩
      obtain ⟨r, r', hr, hr', rfl⟩ := ih.mp hrest
      exact ⟨row :: r, r', recordRows_cons.mpr ⟨row, r, hrow, hr, rfl⟩, hr', rfl⟩
    · rintro ⟨r, r', hr, hr', rfl⟩
      obtain ⟨row, rest, hrow, hrest, rfl⟩ := recordRows_cons.mp hr
      exact ⟨row, rest ++ r', hrow, ih.mpr ⟨rest, r', hrest, hr', rfl⟩, rfl⟩

theorem recordRows_length {records : List LogRecord} {rows : List NewEvent}
    (h : recordRows P records = .ok rows) : rows.length = records.length := by
  induction records generalizing rows with
  | nil =>
    cases h
    rfl
  | cons record records ih =>
    obtain ⟨row, rest, -, hrest, rfl⟩ := recordRows_cons.mp h
    rw [List.length_cons, List.length_cons, ih hrest]

/-- A full buffer is handed over. -/
theorem flushBuffer_progress {s : ReplayVars} {n : Nat} (hn : 0 < n) (hfull : s.buffer.length = n)
    {h : List ReplayEvent} {r : Except Thrown ReplayVars} (hr : Runs s.flushBuffer h (.done r)) :
    (∃ s', r = .ok s' ∧ Progress n s s' 0 [] h ∧ ∀ e ∈ h, ¬ refusesBatch e) ∨
      ∃ error, r = .error error ∧ ∃ e ∈ h, refusesBatch e := by
  obtain ⟨hnil, -, -⟩ | ⟨-, hhanded, ⟨rfl, hok⟩ | herror⟩ := flushBuffer_done_inv hr
  · rw [hnil, List.length_nil] at hfull
    omega
  · refine Or.inl ⟨_, rfl, ⟨?_, fun batch hb => ?_, hn, ?_, rfl⟩, hok⟩
    · rw [hhanded, List.flatten_singleton]
    · rw [hhanded, List.mem_singleton] at hb
      rw [hb, hfull]
    · rw [hhanded]
      rfl
  · exact Or.inr herror

/-- **One record** goes to the buffer or, with it, to the insert function. -/
theorem replayRecord_outcome {s : ReplayVars} (hbatch : 1 ≤ options.batchSize)
    (hshort : s.buffer.length < options.batchSize.toNat) {record : LogRecord}
    {h : List ReplayEvent} {r : Except Thrown ReplayVars}
    (hr : Runs (s.replayRecord P options record) h (.done r)) :
    PassOutcome P options s [record] h r := by
  rw [ReplayVars.replayRecord] at hr
  dsimp only at hr
  split_ifs at hr with hkeep
  · have hfilter : [record].filter options.keeps = [record] := by
      rw [List.filter_cons_of_pos hkeep, List.filter_nil]
    rw [Flow.bind_eq] at hr
    obtain ⟨row, h₁, h₂, rfl, hrow, hrest⟩ := hr.bind_done_inv
    obtain ⟨rfl, rfl⟩ := Runs.done_eq hrow
    rw [List.nil_append]
    cases hnew : toNewEventRow P record.get with
    | error e =>
      rw [hnew] at hrest
      obtain ⟨rfl, rfl⟩ := Runs.done_eq hrest
      refine Or.inl fun rows hrows => ?_
      rw [hfilter, recordRows_cons] at hrows
      obtain ⟨row, -, hrow', -, -⟩ := hrows
      rw [hnew] at hrow'
      cases hrow'
    | ok row =>
      rw [hnew] at hrest
      have hrows : recordRows P ([record].filter options.keeps) = .ok [row] := by
        rw [hfilter]
        exact recordRows_cons.mpr ⟨row, [], hnew, rfl, rfl⟩
      -- The row is pushed, and the buffer is flushed when that fills it.
      have hrest : Runs (if options.batchSize ≤ ((s.buffer ++ [row]).length : Int) then
          (⟨s.recordsRead + 1, s.batchesWritten, s.buffer ++ [row]⟩ : ReplayVars).flushBuffer
        else pure ⟨s.recordsRead + 1, s.batchesWritten, s.buffer ++ [row]⟩ : ReplayFlow ReplayVars)
          h₂ (.done r) := hrest
      have hlength : (s.buffer ++ [row]).length = s.buffer.length + 1 := List.length_append
      split_ifs at hrest with hfull
      · obtain ⟨s', rfl, hp, hok⟩ | ⟨error, rfl, hrefused⟩ :=
          flushBuffer_progress (by omega)
            (show (s.buffer ++ [row]).length = options.batchSize.toNat by omega) hrest
        · exact ⟨[row], hrows, hp.push, hok⟩
        · exact Or.inr hrefused
      · obtain ⟨rfl, rfl⟩ := Runs.done_eq hrest
        have hpushed : (s.buffer ++ [row]).length < options.batchSize.toNat := by omega
        exact ⟨[row], hrows, (Progress.refl hpushed).push, fun e he => absurd he List.not_mem_nil⟩
  · obtain ⟨rfl, rfl⟩ := Runs.done_eq hr
    refine ⟨[], ?_, ⟨?_, fun batch hb => absurd hb List.not_mem_nil, hshort, rfl, rfl⟩,
      fun e he => absurd he List.not_mem_nil⟩
    · rw [List.filter_cons_of_neg hkeep]
      rfl
    · exact List.append_nil _

/-- **All records.** -/
theorem replayRecords_outcome (hbatch : 1 ≤ options.batchSize) {records : List LogRecord}
    {s : ReplayVars} (hshort : s.buffer.length < options.batchSize.toNat) {h : List ReplayEvent}
    {r : Except Thrown ReplayVars}
    (hr : Runs (ReplayVars.replayRecords P options records s) h (.done r)) :
    PassOutcome P options s records h r := by
  induction records generalizing s h with
  | nil =>
    obtain ⟨rfl, rfl⟩ := Runs.done_eq hr
    exact ⟨[], rfl, Progress.refl hshort, fun e he => absurd he List.not_mem_nil⟩
  | cons record records ih =>
    rw [ReplayVars.replayRecords, Flow.bind_eq] at hr
    obtain ⟨a, h₁, h₂, rfl, hrecord, hrest⟩ := hr.bind_done_inv
    have hfirst := replayRecord_outcome hbatch hshort hrecord
    have hsplit : (record :: records).filter options.keeps =
        [record].filter options.keeps ++ records.filter options.keeps :=
      List.filter_append [record] records
    cases a with
    | error e =>
      obtain ⟨rfl, rfl⟩ := Runs.done_eq hrest
      rw [List.append_nil]
      refine hfirst.imp_left fun hno rows hrows => ?_
      rw [hsplit, recordRows_append] at hrows
      obtain ⟨r, -, hr, -, -⟩ := hrows
      exact hno r hr
    | ok s₁ =>
      obtain ⟨rows₁, hrows₁, hp₁, hok₁⟩ := hfirst
      have hsecond := ih hp₁.short hrest
      cases r with
      | error e =>
        cases hsecond with
        | inl hno =>
          refine Or.inl fun rows hrows => ?_
          rw [hsplit, recordRows_append] at hrows
          obtain ⟨-, r', -, hr', -⟩ := hrows
          exact hno r' hr'
        | inr hrefused =>
          obtain ⟨e, he, hre⟩ := hrefused
          exact Or.inr ⟨e, List.mem_append_right _ he, hre⟩
      | ok s' =>
        obtain ⟨rows₂, hrows₂, hp₂, hok₂⟩ := hsecond
        refine ⟨rows₁ ++ rows₂, ?_, ?_, fun e he => ?_⟩
        · rw [hsplit]
          exact recordRows_append.mpr ⟨rows₁, rows₂, hrows₁, hrows₂, rfl⟩
        · have hp := hp₁.trans hp₂
          rwa [List.length_singleton, Nat.add_comm, ← List.length_cons] at hp
        · exact (List.mem_append.mp he).elim (hok₁ e) (hok₂ e)

/-! ## The driver -/

/-- A replay that finished handed over the rows of the records it keeps, batch by batch. -/
structure Batched (P : Platform) (options : ReplayDriverOptions) (stream : Stream)
    (h : List ReplayEvent) (summary : ReplaySummary) : Prop where
  rows : recordRows P (stream.records.filter options.keeps) = .ok (handedBatches h).flatten
  full : ∀ batch ∈ (handedBatches h).dropLast, (batch.length : Int) = options.batchSize
  last : ∀ batch, (handedBatches h).getLast? = some batch →
    batch ≠ [] ∧ (batch.length : Int) ≤ options.batchSize
  batchesWritten : summary.batchesWritten =
    (stream.records.filter options.keeps).length ⌈/⌉ options.batchSize.toNat
  recordsRead : summary.recordsRead = stream.records.length

/-- The number of batches, the last of which may be short. -/
theorem ceilDiv_of_batches {n count rest : Nat} (hrest : rest < n) :
    (n * count + rest) ⌈/⌉ n = if rest = 0 then count else count + 1 := by
  rw [Nat.ceilDiv_eq_add_pred_div]
  split_ifs with h
  · subst h
    rw [Nat.add_zero, Nat.add_sub_assoc (by omega), Nat.mul_add_div (by omega),
      Nat.div_eq_of_lt (by omega), Nat.add_zero]
  · have heq : n * count + rest + n - 1 = n * (count + 1) + (rest - 1) := by
      rw [Nat.mul_add, Nat.mul_one]
      omega
    rw [heq, Nat.mul_add_div (by omega), Nat.div_eq_of_lt (by omega), Nat.add_zero]

theorem ceilDiv_eq_zero {m n : Nat} (hn : 0 < n) : m ⌈/⌉ n = 0 ↔ m = 0 := by
  rw [Nat.ceilDiv_eq_add_pred_div, Nat.div_eq_zero_iff]
  omega

theorem length_flatten_of_full {n : Nat} {batches : List (List NewEvent)}
    (h : ∀ batch ∈ batches, batch.length = n) : batches.flatten.length = n * batches.length := by
  rw [List.length_flatten, List.map_congr_left h, List.map_const', List.sum_replicate_nat,
    Nat.mul_comm]

/-- The rows of a pass, and a last batch of what the buffer still holds. -/
theorem batched_of_progress {stream : Stream} {s s' : ReplayVars} {rows : List NewEvent}
    {h h' : List ReplayEvent} (hbatch : 1 ≤ options.batchSize)
    (hrows : recordRows P (stream.records.filter options.keeps) = .ok rows)
    (hp : Progress options.batchSize.toNat ⟨0, 0, []⟩ s stream.records.length rows h)
    (hr : Runs s.flushBuffer h' (.done (.ok s'))) :
    Batched P options stream (h ++ h') ⟨s'.recordsRead, s'.batchesWritten⟩ := by
  have hmoved : rows = (handedBatches h).flatten ++ s.buffer := hp.moved
  have hcount := recordRows_length hrows
  rw [hmoved, List.length_append, length_flatten_of_full hp.full] at hcount
  have hread : s.recordsRead = stream.records.length := by rw [hp.recordsRead, Nat.zero_add]
  have hwritten : s.batchesWritten = (handedBatches h).length := by rw [hp.written, Nat.zero_add]
  have hfull : ∀ batch ∈ handedBatches h, (batch.length : Int) = options.batchSize :=
    fun batch hb => by
      have := hp.full batch hb
      omega
  obtain ⟨hnil, rfl, hs'⟩ | ⟨hne, hhanded, ⟨hs', -⟩ | ⟨error, herror, -⟩⟩ :=
    flushBuffer_done_inv hr
  · cases hs'
    rw [List.append_nil]
    refine ⟨by rw [hrows, hmoved, hnil, List.append_nil], fun batch hb =>
      hfull batch (List.mem_of_mem_dropLast hb), fun batch hb => ?_, ?_, hread⟩
    · have hlength := hfull batch (List.mem_of_getLast? hb)
      refine ⟨fun hbnil => ?_, hlength.le⟩
      rw [hbnil, List.length_nil] at hlength
      omega
    · rw [← hcount, ceilDiv_of_batches hp.short, if_pos (by rw [hnil]; rfl), hwritten]
  · cases hs'
    have hshort := hp.short
    have hbuffer : s.buffer.length ≠ 0 := fun h => hne (List.length_eq_zero_iff.mp h)
    have hall : handedBatches (h ++ h') = handedBatches h ++ [s.buffer] := by
      rw [handedBatches_append, hhanded]
    refine ⟨?_, fun batch hb => ?_, fun batch hb => ?_, ?_, hread⟩
    · rw [hrows, hmoved, hall, List.flatten_append, List.flatten_singleton]
    · rw [hall, List.dropLast_concat] at hb
      exact hfull batch hb
    · rw [hall, List.getLast?_concat, Option.some.injEq] at hb
      subst hb
      exact ⟨hne, by omega⟩
    · rw [← hcount, ceilDiv_of_batches hp.short, if_neg hbuffer, hwritten]
  · cases herror

/-- A replay returns when its stream is whole, its rows can be built and no batch is refused, and
then it has batched the rows. -/
structure ReplayBatching (P : Platform) (options : ReplayDriverOptions) (stream : Stream)
    (h : List ReplayEvent) (r : Except Thrown ReplaySummary) : Prop where
  returns : (∃ summary, r = .ok summary) ↔ stream.error = none ∧
    (∃ rows, recordRows P (stream.records.filter options.keeps) = .ok rows) ∧
      ∀ e ∈ h, ¬ refusesBatch e
  batched : ∀ summary, r = .ok summary → Batched P options stream h summary

/-- A replay that throws. -/
theorem ReplayBatching.of_error {stream : Stream} {h : List ReplayEvent} {e : Thrown}
    (hnot : ¬(stream.error = none ∧
      (∃ rows, recordRows P (stream.records.filter options.keeps) = .ok rows) ∧
        ∀ e ∈ h, ¬refusesBatch e)) : ReplayBatching P options stream h (.error e) where
  returns := iff_of_false (fun ⟨_, hs⟩ => by cases hs) hnot
  batched _ hs := by cases hs

theorem replayStream_batching {stream : Stream} (hbatch : 1 ≤ options.batchSize)
    {h : List ReplayEvent} {r : Except Thrown ReplaySummary}
    (hr : Runs (replayStream P options stream) h (.done r)) :
    ReplayBatching P options stream h r := by
  have hstart : (⟨0, 0, []⟩ : ReplayVars).buffer.length < options.batchSize.toNat := by
    show 0 < options.batchSize.toNat
    omega
  rw [replayStream, Flow.bind_eq] at hr
  obtain ⟨a, h₁, h₂, rfl, hrecords, hrest⟩ := hr.bind_done_inv
  have hout := replayRecords_outcome hbatch hstart hrecords
  cases a with
  | error e =>
    obtain ⟨rfl, rfl⟩ := Runs.done_eq hrest
    rw [List.append_nil]
    apply ReplayBatching.of_error
    rintro ⟨_, ⟨rows, hrows⟩, hok⟩
    cases hout with
    | inl hno => exact hno rows hrows
    | inr hrefused =>
      obtain ⟨e, he, hre⟩ := hrefused
      exact hok e he hre
  | ok s =>
    obtain ⟨rows, hrows, hp, hok⟩ := hout
    cases herror : stream.error with
    | some e =>
      rw [Flow.onOk, herror] at hrest
      obtain ⟨rfl, rfl⟩ := Runs.done_eq hrest
      apply ReplayBatching.of_error
      rw [herror]
      simp
    | none =>
      rw [Flow.onOk, herror] at hrest
      have hrest : Runs (s.flushBuffer >>= fun s => pure ⟨s.recordsRead, s.batchesWritten⟩ :
        ReplayFlow ReplaySummary) h₂ (.done r) := hrest
      rw [Flow.bind_eq] at hrest
      obtain ⟨b, h₃, h₄, rfl, hflush, hrest⟩ := hrest.bind_done_inv
      cases b with
      | error e =>
        obtain ⟨rfl, rfl⟩ := Runs.done_eq hrest
        rw [List.append_nil]
        apply ReplayBatching.of_error
        rintro ⟨_, _, hnone⟩
        obtain ⟨-, -, hs⟩ | ⟨-, -, ⟨hs, -⟩ | ⟨-, -, e', he', hre⟩⟩ := flushBuffer_done_inv hflush
        · cases hs
        · cases hs
        · exact hnone e' (List.mem_append_right _ he') hre
      | ok s' =>
        obtain ⟨rfl, rfl⟩ := Runs.done_eq hrest
        rw [List.append_nil]
        refine ⟨iff_of_true ⟨_, rfl⟩ ⟨herror, ⟨rows, hrows⟩, fun e he => ?_⟩, fun summary hs => ?_⟩
        · cases List.mem_append.mp he with
          | inl he => exact hok e he
          | inr he =>
            obtain ⟨-, rfl, -⟩ | ⟨-, -, ⟨-, hok'⟩ | ⟨_, hs, -⟩⟩ := flushBuffer_done_inv hflush
            · exact absurd he List.not_mem_nil
            · exact hok' e he
            · cases hs
        · cases hs
          exact batched_of_progress hbatch hrows hp hflush

/-! ## The command -/

/-- The warning that the tenant matched nothing was printed. -/
def WarnedTenant (h : List ReplayEvent) : Prop :=
  ∃ tenantId recordsRead, (⟨.stderr (tenantWarning tenantId recordsRead), ()⟩ : ReplayEvent) ∈ h

/-- The records a replay keeps. -/
def matchedCount (tenantId : Option JsString) (records : List LogRecord) : Nat :=
  (records.filter (matchesTenant tenantId)).length

/-- A tenant was given, records were read, and none of them matched. -/
def MatchedNothing (tenantId : Option JsString) (recordsRead matched : Nat) : Prop :=
  tenantId ≠ none ∧ recordsRead ≠ 0 ∧ matched = 0

theorem countMatching_eq (tenantId : Option JsString) (records : List LogRecord)
    (totalRead matched : Nat) : countMatching tenantId records (totalRead, matched) =
      (totalRead + records.length, matched + matchedCount tenantId records) := by
  induction records generalizing totalRead matched with
  | nil => rfl
  | cons record records ih =>
    rw [countMatching, ih, matchedCount, matchedCount, List.filter_cons, List.length_cons]
    split_ifs
    · rw [List.length_cons, Prod.mk.injEq]
      omega
    · rw [Prod.mk.injEq]
      omega

theorem driver_keeps (options : ReplayCliOptions) (prefixes : List JsString) :
    (options.driver prefixes).keeps = matchesTenant options.tenantId := by
  funext record
  rw [ReplayDriverOptions.keeps, ReplayCliOptions.driver, matchesTenant]
  cases options.tenantId <;> rfl

theorem warnedTenant_append {h₁ h₂ : List ReplayEvent} :
    WarnedTenant (h₁ ++ h₂) ↔ WarnedTenant h₁ ∨ WarnedTenant h₂ := by
  constructor
  · rintro ⟨tenantId, recordsRead, hmem⟩
    exact (List.mem_append.mp hmem).imp (fun h => ⟨tenantId, recordsRead, h⟩)
      fun h => ⟨tenantId, recordsRead, h⟩
  · rintro (⟨tenantId, recordsRead, hmem⟩ | ⟨tenantId, recordsRead, hmem⟩)
    · exact ⟨tenantId, recordsRead, List.mem_append_left _ hmem⟩
    · exact ⟨tenantId, recordsRead, List.mem_append_right _ hmem⟩

/-- No line of another operation is the warning. -/
theorem not_warnedTenant_of {h : List ReplayEvent}
    (hall : ∀ e ∈ h, ∀ tenantId n, e.1 ≠ .stderr (tenantWarning tenantId n)) :
    ¬ WarnedTenant h := by
  rintro ⟨tenantId, recordsRead, hmem⟩
  exact hall _ hmem tenantId recordsRead rfl

theorem failure_ne_warning (text tenantId : JsString) (n : Nat) :
    lit "posta replay: failed: " ++ text ≠ tenantWarning tenantId n := by
  intro h
  simp only [tenantWarning, List.append_assoc] at h
  have hunit : (lit "posta replay: failed: " ++ text)[14]? =
      (lit "posta replay: --tenant \"" ++ _)[14]? := congrArg (fun l => l[14]?) h
  rw [List.getElem?_append_left (by decide), List.getElem?_append_left (by decide)] at hunit
  revert hunit
  decide

theorem printLine_done_inv {op : JsString → ReplayOp} {line : JsString} {h : List ReplayEvent}
    {r : Except Thrown Unit} (hr : Runs (printLine op line) h (.done r)) :
    r = .ok () ∧ ∃ a, h = [⟨op line, a⟩] := by
  obtain ⟨-, hq⟩ | ⟨a, h', rfl, hr'⟩ := Runs.call_inv hr
  · cases hq
  · obtain ⟨rfl, rfl⟩ := Runs.done_eq hr'
    exact ⟨rfl, a, rfl⟩

theorem warnIf_done_inv {tenantId : Option JsString} {recordsRead matched : Nat}
    {h : List ReplayEvent} {r : Except Thrown Unit}
    (hr : Runs (warnIfTenantMatchedNothing tenantId recordsRead matched) h (.done r)) :
    r = .ok () ∧ handedBatches h = [] ∧
      (WarnedTenant h ↔ MatchedNothing tenantId recordsRead matched) := by
  cases tenantId with
  | none =>
    obtain ⟨rfl, rfl⟩ := Runs.done_eq hr
    exact ⟨rfl, rfl, iff_of_false (not_warnedTenant_of fun e he => absurd he List.not_mem_nil)
      fun h => h.1 rfl⟩
  | some tenantId =>
    rw [warnIfTenantMatchedNothing] at hr
    by_cases hcond : recordsRead = 0 ∨ 0 < matched
    · rw [if_pos hcond] at hr
      obtain ⟨rfl, rfl⟩ := Runs.done_eq hr
      refine ⟨rfl, rfl, iff_of_false (not_warnedTenant_of fun e he => absurd he List.not_mem_nil)
        fun h => ?_⟩
      obtain ⟨-, hread, hmatched⟩ := h
      omega
    · rw [if_neg hcond] at hr
      obtain ⟨rfl, a, rfl⟩ := printLine_done_inv hr
      exact ⟨rfl, rfl, iff_of_true ⟨tenantId, recordsRead, List.mem_cons_self⟩
        ⟨Option.some_ne_none _, by omega, by omega⟩⟩

theorem Batched.congr {stream : Stream} {h h' : List ReplayEvent} {summary : ReplaySummary}
    (hb : Batched P options stream h summary) (heq : handedBatches h' = handedBatches h) :
    Batched P options stream h' summary where
  rows := heq ▸ hb.rows
  full := heq ▸ hb.full
  last := heq ▸ hb.last
  batchesWritten := hb.batchesWritten
  recordsRead := hb.recordsRead

/-- A warning, and then a line on the standard output. -/
theorem warn_print_done_inv {α : Type} {tenantId : Option JsString} {recordsRead matched : Nat}
    {line : JsString} {a : α} {h : List ReplayEvent} {r : Except Thrown α}
    (hr : Runs (do
      warnIfTenantMatchedNothing tenantId recordsRead matched
      printLine .stdout line
      return a : ReplayFlow α) h (.done r)) :
    r = .ok a ∧ handedBatches h = [] ∧ (⟨.stdout line, ()⟩ : ReplayEvent) ∈ h ∧
      (WarnedTenant h ↔ MatchedNothing tenantId recordsRead matched) := by
  rw [Flow.bind_eq] at hr
  obtain ⟨b, h₁, h₂, rfl, hwarn, hrest⟩ := hr.bind_done_inv
  obtain ⟨rfl, hhanded, hwarned⟩ := warnIf_done_inv hwarn
  have hthen : Runs (printLine .stdout line >>= fun _ => pure a : ReplayFlow α) h₂ (.done r) := hrest
  rw [Flow.bind_eq] at hthen
  obtain ⟨c, h₃, h₄, rfl, hprint, hend⟩ := hthen.bind_done_inv
  obtain ⟨rfl, u, rfl⟩ := printLine_done_inv hprint
  obtain ⟨rfl, rfl⟩ := Runs.done_eq hend
  have hstdout : ¬ WarnedTenant [(⟨.stdout line, u⟩ : ReplayEvent)] := by
    apply not_warnedTenant_of
    intro e he tenantId n heq
    rw [List.mem_singleton.mp he] at heq
    cases heq
  refine ⟨rfl, ?_, ?_, ?_⟩
  · rw [handedBatches_append, hhanded]
    rfl
  · exact List.mem_append_right _ List.mem_cons_self
  · rw [List.append_nil, warnedTenant_append, hwarned]
    exact or_iff_left hstdout

theorem dryRun_done_inv {options : ReplayCliOptions} {stream : Stream} {h : List ReplayEvent}
    {r : Except Thrown ReplayCliResult} (hr : Runs (dryRun options stream) h (.done r)) :
    handedBatches h = [] ∧
      (stream.error = none →
        r = .ok { exitCode := replayExitOk,
                  matchedCount := some (matchedCount options.tenantId stream.records) } ∧
        (⟨.stdout (dryRunLine options.tenantId (matchedCount options.tenantId stream.records)), ()⟩ :
          ReplayEvent) ∈ h) ∧
      (WarnedTenant h ↔ stream.error = none ∧ MatchedNothing options.tenantId
        stream.records.length (matchedCount options.tenantId stream.records)) := by
  rw [dryRun, countMatching_eq, Nat.zero_add, Nat.zero_add] at hr
  cases herror : stream.error with
  | some e =>
    rw [herror] at hr
    obtain ⟨rfl, rfl⟩ := Runs.done_eq hr
    exact ⟨rfl, by rintro ⟨⟩, iff_of_false
      (not_warnedTenant_of fun e he => absurd he List.not_mem_nil) (by rintro ⟨⟨⟩, -⟩)⟩
  | none =>
    rw [herror] at hr
    obtain ⟨rfl, hhanded, hline, hwarned⟩ := warn_print_done_inv hr
    exact ⟨hhanded, fun _ => ⟨rfl, hline⟩,
      hwarned.trans (iff_of_eq (true_and _).symm |>.trans (by simp))⟩

/-- The driver prints nothing. -/
theorem flushBuffer_performs (s : ReplayVars) :
    Prog.Performs (fun op => ∃ rows, op = ReplayOp.insertEventsBatch rows) s.flushBuffer := by
  rw [ReplayVars.flushBuffer]
  split_ifs
  · trivial
  · exact Prog.Performs.flow_bind ⟨⟨_, rfl⟩, fun _ => trivial⟩ fun _ => trivial

theorem replayRecords_performs (P : Platform) (options : ReplayDriverOptions)
    (records : List LogRecord) (s : ReplayVars) :
    Prog.Performs (fun op => ∃ rows, op = ReplayOp.insertEventsBatch rows)
      (ReplayVars.replayRecords P options records s) := by
  induction records generalizing s with
  | nil => trivial
  | cons record records ih =>
    rw [ReplayVars.replayRecords]
    refine Prog.Performs.flow_bind ?_ ih
    rw [ReplayVars.replayRecord]
    dsimp only
    split_ifs
    · refine Prog.Performs.flow_bind trivial fun row => ?_
      split_ifs
      · exact flushBuffer_performs _
      · trivial
    · trivial

theorem replayStream_performs (P : Platform) (options : ReplayDriverOptions) (stream : Stream) :
    Prog.Performs (fun op => ∃ rows, op = ReplayOp.insertEventsBatch rows)
      (replayStream P options stream) := by
  rw [replayStream]
  refine Prog.Performs.flow_bind (replayRecords_performs P options _ _) fun s => ?_
  cases stream.error with
  | some e => trivial
  | none => exact Prog.Performs.flow_bind (flushBuffer_performs s) fun _ => trivial

theorem replayStream_silent {stream : Stream} {h : List ReplayEvent}
    {r : Except Thrown ReplaySummary} (hr : Runs (replayStream P options stream) h (.done r)) :
    ¬ WarnedTenant h := by
  apply not_warnedTenant_of
  intro e he tenantId n heq
  obtain ⟨rows, hop⟩ := (replayStream_performs P options stream).of_runs hr e he
  rw [hop] at heq
  cases heq

/-- A replay that keeps nothing only reads. -/
theorem replayRecords_none {records : List LogRecord} {s : ReplayVars}
    (hnone : records.filter options.keeps = []) :
    ReplayVars.replayRecords P options records s =
      pure { s with recordsRead := s.recordsRead + records.length } := by
  induction records generalizing s with
  | nil => rfl
  | cons record records ih =>
    rw [List.filter_eq_nil_iff] at hnone
    have hrecord : s.replayRecord P options record =
        pure { s with recordsRead := s.recordsRead + 1 } :=
      if_neg (hnone record List.mem_cons_self)
    rw [ReplayVars.replayRecords, hrecord]
    refine (ih (List.filter_eq_nil_iff.mpr fun r hr => hnone r (List.mem_cons_of_mem _ hr))).trans ?_
    rw [List.length_cons, Nat.add_assoc, Nat.add_comm 1]

theorem replayStream_none {stream : Stream} (hnone : stream.records.filter options.keeps = []) :
    replayStream P options stream = match stream.error with
      | some error => throw error
      | none => pure ⟨stream.records.length, 0⟩ := by
  rw [replayStream, replayRecords_none hnone, Nat.zero_add]
  cases stream.error <;> rfl

theorem realRun_done_inv {options : ReplayCliOptions} {prefixes : List JsString} {stream : Stream}
    (hbatch : 1 ≤ (options.driver prefixes).batchSize) {h : List ReplayEvent}
    {r : Except Thrown ReplayCliResult} (hr : Runs (realRun P options prefixes stream) h (.done r)) :
    (WarnedTenant h ↔ stream.error = none ∧ MatchedNothing options.tenantId
      stream.records.length (matchedCount options.tenantId stream.records)) ∧
    ∀ result, r = .ok result → ∃ summary, result.summary = some summary ∧ stream.error = none ∧
      Batched P (options.driver prefixes) stream h summary := by
  rw [realRun, Flow.bind_eq] at hr
  obtain ⟨a, h₁, h₂, rfl, hdriver, hrest⟩ := hr.bind_done_inv
  have hsilent := replayStream_silent hdriver
  have hbatching := replayStream_batching hbatch hdriver
  cases a with
  | error e =>
    obtain ⟨rfl, rfl⟩ := Runs.done_eq hrest
    rw [List.append_nil]
    refine ⟨iff_of_false hsilent ?_, by rintro _ ⟨⟩⟩
    rintro ⟨herror, -, -, hmatched⟩
    rw [matchedCount, ← driver_keeps options prefixes, List.length_eq_zero_iff] at hmatched
    rw [replayStream_none hmatched, herror] at hdriver
    cases Runs.done_eq hdriver |>.2
  | ok summary =>
    obtain ⟨rfl, hhanded, hline, hwarned⟩ := warn_print_done_inv hrest
    have hb := hbatching.batched summary rfl
    have herror := (hbatching.returns.mp ⟨summary, rfl⟩).1
    refine ⟨?_, fun result hresult => ?_⟩
    · have hn : 0 < (options.driver prefixes).batchSize.toNat := by omega
      rw [warnedTenant_append, or_iff_right hsilent, hwarned, MatchedNothing, MatchedNothing,
        hb.recordsRead, hb.batchesWritten, ceilDiv_eq_zero hn, driver_keeps, ← matchedCount]
      exact ⟨fun h => ⟨herror, h⟩, fun h => h.2⟩
    · cases hresult
      refine ⟨summary, rfl, herror, hb.congr ?_⟩
      rw [handedBatches_append, hhanded, List.append_nil]

theorem parseBatchSize_pos {raw : JsString} {n : Nat} (h : parseBatchSize raw = .ok n) : 1 ≤ n := by
  unfold parseBatchSize at h
  dsimp only at h
  cases hdigits : if raw ≠ [] ∧ raw.all isDigit then parseDigits raw else none with
  | none =>
    rw [hdigits] at h
    cases h
  | some parsed =>
    rw [hdigits] at h
    cases parsed with
    | zero => cases h
    | succ parsed =>
      have hok : (if maxBatchSize < parsed + 1 then .error _ else .ok (parsed + 1) :
        Except Thrown Nat) = .ok n := h
      split_ifs at hok
      cases hok
      exact Nat.le_add_left 1 parsed

/-- The command asks for batches of at least one row. -/
theorem parseReplayArgs_batchSize {parseArgs : List JsString → Except Thrown ReplayArgValues}
    {argv : List JsString} {options : ReplayCliOptions}
    (h : parseReplayArgs P parseArgs argv = .ok options) (prefixes : List JsString) :
    1 ≤ (options.driver prefixes).batchSize := by
  rw [parseReplayArgs] at h
  cases hargs : parseArgs argv with
  | error cause =>
    rw [hargs] at h
    cases h
  | ok values =>
    rw [hargs] at h
    obtain ⟨⟨rawFrom, dateFrom⟩, -, h⟩ := except_bind_eq_ok.mp h
    obtain ⟨⟨rawTo, dateTo⟩, -, h⟩ := except_bind_eq_ok.mp h
    dsimp only at h
    split_ifs at h with horder
    · obtain ⟨_, hthrow, -⟩ := except_bind_eq_ok.mp h
      cases hthrow
    · obtain ⟨batchSize, hbatch, h⟩ := except_bind_eq_ok.mp h
      cases h
      show 1 ≤ batchSize.elim 500 Int.ofNat
      cases hraw : values.rawBatchSize with
      | none =>
        rw [hraw] at hbatch
        cases hbatch
        decide
      | some raw =>
        rw [hraw] at hbatch
        obtain ⟨n, hn, hsome⟩ := except_bind_eq_ok.mp hbatch
        cases hsome
        exact Int.ofNat_le.mpr (parseBatchSize_pos hn)

/-- A run of the command after its arguments: it ended, or its failure was reported. -/
theorem reportFailure_done_inv {x : ReplayFlow ReplayCliResult} {h : List ReplayEvent}
    {result : ReplayCliResult} (hr : Runs (Prog.bind x reportFailure) h (.done result)) :
    ∃ r h₁, Runs x h₁ (.done r) ∧ handedBatches h = handedBatches h₁ ∧
      (WarnedTenant h ↔ WarnedTenant h₁) ∧ (∀ e ∈ h₁, e ∈ h) ∧
      ((r = .ok result) ∨ ∃ e, r = .error e ∧ result = { exitCode := replayExitRuntimeError }) := by
  obtain ⟨r, h₁, h₂, rfl, hx, hrest⟩ := hr.bind_done_inv
  cases r with
  | ok a =>
    obtain ⟨rfl, rfl⟩ := Runs.done_eq hrest
    rw [List.append_nil]
    exact ⟨.ok _, h₁, hx, rfl, Iff.rfl, fun e he => he, Or.inl rfl⟩
  | error e =>
    obtain ⟨-, hq⟩ | ⟨u, h₃, rfl, hend⟩ := Runs.call_inv hrest
    · cases hq
    · obtain ⟨rfl, rfl⟩ := Runs.done_eq hend
      have hsilent : ¬ WarnedTenant [(⟨.stderr (lit "posta replay: failed: " ++ e.errorMessage), u⟩ :
          ReplayEvent)] := by
        apply not_warnedTenant_of
        intro e' he' tenantId n heq
        rw [List.mem_singleton.mp he'] at heq
        exact failure_ne_warning _ _ _ (ReplayOp.stderr.inj heq)
      refine ⟨.error e, h₁, hx, ?_, ?_, fun e' he' => List.mem_append_left _ he',
        Or.inr ⟨e, rfl, rfl⟩⟩
      · rw [handedBatches_append]
        exact List.append_nil _
      · rw [warnedTenant_append]
        exact or_iff_left hsilent

/-- What a dry run and a replay of one range have in common. -/
structure DryRunAgrees (P : Platform) (eventLog : EventStore) (options : ReplayCliOptions)
    (h h' : List ReplayEvent) (result result' : ReplayCliResult) : Prop where
  insertsNothing : handedBatches h' = []
  warns : WarnedTenant h' ↔ WarnedTenant h
  /-- A dry run of a whole stream reports what matches. -/
  reports : ∀ prefixes, eventPrefixes P options.rangeFrom options.rangeTo = .ok prefixes →
    (streamEventLog eventLog prefixes).error = none →
      let matched := matchedCount options.tenantId (streamEventLog eventLog prefixes).records
      result'.matchedCount = some matched ∧
        (⟨.stdout (dryRunLine options.tenantId matched), ()⟩ : ReplayEvent) ∈ h'
  /-- And so does it where the replay finishes, with the batches of that many rows. -/
  replays : ∀ summary, result.summary = some summary →
    ∃ prefixes, eventPrefixes P options.rangeFrom options.rangeTo = .ok prefixes ∧
      Batched P (options.driver prefixes) (streamEventLog eventLog prefixes) h summary ∧
      ∃ matched, result'.matchedCount = some matched ∧
        matched = ((streamEventLog eventLog prefixes).records.filter
          (options.driver prefixes).keeps).length

/-- Batches are handed over for every stream, and a dry run tells what a replay would do. -/
structure ReplayTransparent (P : Platform)
    (parseArgs : List JsString → Except Thrown ReplayArgValues) (eventLog : EventStore) : Prop where
  batching : ∀ (options : ReplayDriverOptions) (stream : Stream) (h : List ReplayEvent)
    (r : Except Thrown ReplaySummary), 1 ≤ options.batchSize →
      Runs (replayStream P options stream) h (.done r) → ReplayBatching P options stream h r
  dryRun : ∀ (argv argv' : List JsString) (options : ReplayCliOptions) (h h' : List ReplayEvent)
    (result result' : ReplayCliResult), parseReplayArgs P parseArgs argv = .ok options →
      options.dryRun = false →
      parseReplayArgs P parseArgs argv' = .ok { options with dryRun := true } →
      Runs (runReplayCli P parseArgs eventLog argv) h (.done result) →
      Runs (runReplayCli P parseArgs eventLog argv') h' (.done result') →
        DryRunAgrees P eventLog options h h' result result'

/-- **Theorem (`replay_transparent`).** -/
theorem replay_transparent (P : Platform)
    (parseArgs : List JsString → Except Thrown ReplayArgValues) (eventLog : EventStore) :
    ReplayTransparent P parseArgs eventLog := by
  refine ⟨fun options stream h r hbatch hr => replayStream_batching hbatch hr,
    fun argv argv' options h h' result result' hparse hreal hparse' hr hr' => ?_⟩
  rw [runReplayCli, hparse] at hr
  rw [runReplayCli, hparse'] at hr'
  obtain ⟨r, h₁, hrange, hhanded, hwarned, -, hend⟩ := reportFailure_done_inv hr
  obtain ⟨r', h₁', hrange', hhanded', hwarned', hmem', hend'⟩ := reportFailure_done_inv hr'
  have hrange : Runs (Flow.ofExcept (eventPrefixes P options.rangeFrom options.rangeTo) >>=
      fun prefixes => if options.dryRun then dryRun options (streamEventLog eventLog prefixes)
        else realRun P options prefixes (streamEventLog eventLog prefixes) :
      ReplayFlow ReplayCliResult) h₁ (.done r) := hrange
  have hrange' : Runs (Flow.ofExcept (eventPrefixes P options.rangeFrom options.rangeTo) >>=
      fun prefixes => dryRun { options with dryRun := true } (streamEventLog eventLog prefixes) :
      ReplayFlow ReplayCliResult) h₁' (.done r') := hrange'
  cases hprefixes : eventPrefixes P options.rangeFrom options.rangeTo with
  | error e =>
    -- Neither run reads anything.
    rw [hprefixes] at hrange hrange'
    obtain ⟨rfl, rfl⟩ := Runs.done_eq hrange
    obtain ⟨rfl, rfl⟩ := Runs.done_eq hrange'
    obtain ⟨⟨⟩⟩ | ⟨_, -, rfl⟩ := hend
    refine ⟨hhanded', hwarned'.trans hwarned.symm, fun prefixes h => ?_, by rintro _ ⟨⟩⟩
    rw [hprefixes] at h
    cases h
  | ok prefixes =>
    rw [hprefixes, Flow.ofExcept_ok_bind, hreal, if_neg Bool.false_ne_true] at hrange
    rw [hprefixes, Flow.ofExcept_ok_bind] at hrange'
    obtain ⟨hreal_warned, hreal_ok⟩ :=
      realRun_done_inv (parseReplayArgs_batchSize hparse prefixes) hrange
    obtain ⟨hdry_handed, hdry_reports, hdry_warned⟩ := dryRun_done_inv hrange'
    have hreports : (streamEventLog eventLog prefixes).error = none →
        result'.matchedCount =
          some (matchedCount options.tenantId (streamEventLog eventLog prefixes).records) ∧
        (⟨.stdout (dryRunLine options.tenantId (matchedCount options.tenantId
          (streamEventLog eventLog prefixes).records)), ()⟩ : ReplayEvent) ∈ h' := fun herror => by
      obtain ⟨rfl, hline⟩ := hdry_reports herror
      obtain hok | ⟨_, herr, -⟩ := hend'
      · cases hok
        exact ⟨rfl, hmem' _ hline⟩
      · cases herr
    refine ⟨hhanded'.trans hdry_handed,
      (hwarned'.trans hdry_warned).trans (hwarned.trans hreal_warned).symm,
      fun prefixes' h => ?_, fun summary hsummary => ?_⟩
    · rw [hprefixes, Except.ok.injEq] at h
      subst h
      exact hreports
    · obtain rfl | ⟨_, -, rfl⟩ := hend
      · obtain ⟨summary', hsummary', herror, hb⟩ := hreal_ok _ rfl
        rw [hsummary, Option.some.injEq] at hsummary'
        subst hsummary'
        refine ⟨prefixes, hprefixes, hb.congr hhanded, _, (hreports herror).1, ?_⟩
        rw [driver_keeps, matchedCount]
      · cases hsummary

end Posta
