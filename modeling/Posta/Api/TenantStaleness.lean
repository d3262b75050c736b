import Posta.Api.TenantSystem
import Posta.Interaction.Sequential

/-!
# How old an answer may be

**Theorem (`tenant_staleness`).** In every reachable state: every answer is what Postgres held when
a query of the handle was executed, and it is no older than the time to live of its kind in Redis,
that of the memo, and the time the requests were outstanding that brought it; an answer from the
memo was not expired; and no memo is larger than its bound.

An answer becomes known at an instant (`Sourced`): a query was answered then, or a lookup that read
what was written for a query. A memo entry expires a minute after its answer became known, whichever
of the two it was, and what the memo gives never goes back to Redis.
-/

namespace Posta.Api

open Js Interaction Interp Store

/-! ## One call -/

/-- What the lookup or Postgres gave. -/
def TenantExchange.Supplies (x : TenantExchange) (tenantId : Option JsString) : Prop :=
  (∃ value, x.cached = some (some value) ∧
    tenantId = if value = absentTenantTombstone then none else some value) ∨
  (x.cached = some none ∧ ∃ row, x.row = some row ∧ tenantId = row.map Subtype.val)

/-- What a call may do when. -/
def tenantPermitted (handle : JsString) : TenantOp → TenantExchange → Prop
  | .memoGet h, x => h = handle ∧ x.ended = false
  | .now, x => x.ended = false ∧ x.cached = none
  | .get key, x => key = handleKey handle ∧ x.ended = false ∧ x.cached = none ∧ x.row = none
  | .resolveTenantByHandle h, x => h = handle ∧ x.ended = false ∧ x.cached = some none ∧
      x.row = none
  | .setex key seconds value, x => key = handleKey handle ∧ x.ended = false ∧
      ∃ row, x.row = some row ∧ (seconds, value) = handleCacheValue (row.map Subtype.val)
  | .remember h tenantId, x => h = handle ∧ x.ended = false ∧ x.Supplies tenantId
  | .answer tenantId, x => x.ended = false ∧ (x.Supplies tenantId ∨ (x.cached = none ∧
      ∃ entry t, x.entry = some entry ∧ x.now = some t ∧ ¬ isExpired entry t ∧
        tenantId = entry.tenantId))
  | .setexSettled .., x => x.ended = true
  | .warn .., _ => True

abbrev tenantWatched (handle : JsString) : Interp TenantOp TenantOp.Response TenantExchange :=
  Interp.monitor (tenantPermitted handle) TenantExchange.step

variable {deps : ResolveTenantDeps} {handle : JsString} {x : TenantExchange}

/-- Nothing has been asked behind the memo. -/
structure TenantExchange.Unasked (x : TenantExchange) : Prop where
  cached : x.cached = none
  row : x.row = none
  ended : x.ended = false

theorem ensures_rememberAndAnswer {tenantId : Option JsString} (hended : x.ended = false)
    (hsupplies : x.Supplies tenantId) :
    (tenantWatched handle).Ensures (fun _ x => x.ended = true) (fun _ _ => True)
      (rememberAndAnswer handle tenantId) x := by
  refine wp_monitor ⟨rfl, hended, hsupplies⟩ fun _ => ?_
  exact wp_monitor ⟨hended, .inl hsupplies⟩ fun _ => rfl

theorem ensures_lookupHandle (hx : x.Unasked) :
    (tenantWatched handle).Ensures
      (fun cached x => x.cached = some cached ∧ x.row = none ∧ x.ended = false) (fun _ _ => True)
      (lookupHandle deps handle) x := by
  refine ensures_tryCatch (wp_monitor ⟨rfl, hx.ended, hx.cached, hx.row⟩ fun race => ?_)
  rcases race with (error | cached) | -
  · exact wp_monitor trivial fun _ => ⟨rfl, hx.row, hx.ended⟩
  · exact ⟨rfl, hx.row, hx.ended⟩
  · exact wp_monitor trivial fun _ => ⟨rfl, hx.row, hx.ended⟩

theorem ensures_startBackfill {row : Option PgText} (hended : x.ended = false)
    (hrow : x.row = some row) :
    (tenantWatched handle).Ensures (fun _ x' => x' = x) (fun _ _ => True)
      (startBackfill deps handle (row.map Subtype.val)) x := by
  refine ensures_tryCatch (wp_monitor ⟨rfl, hended, row, hrow, rfl⟩ fun started => ?_)
  rcases started with error | -
  · exact wp_monitor trivial fun _ => rfl
  · exact rfl

theorem ensures_finishBackfill {tenantId : Option JsString} (hended : x.ended = true) :
    (tenantWatched handle).Ensures (fun _ _ => True) (fun _ _ => True)
      (finishBackfill deps handle tenantId) x := by
  refine ensures_tryCatch (wp_monitor hended fun settled => ?_)
  rcases settled with error | -
  · exact wp_monitor trivial fun _ => trivial
  · exact trivial

theorem ensures_resolveBehindMemo (hx : x.Unasked) :
    (tenantWatched handle).Ensures (fun _ _ => True) (fun _ _ => True)
      (resolveBehindMemo deps handle) x := by
  refine ensures_seq (ensures_lookupHandle hx) fun cached x hx => ?_
  obtain ⟨hcached, hrow, hended⟩ := hx
  cases cached with
  | some value =>
    exact Ensures.mono (ensures_rememberAndAnswer hended (.inl ⟨value, hcached, rfl⟩))
      (fun _ _ _ => trivial) fun _ _ h => h
  | none =>
    refine wp_monitor ⟨rfl, hended, hcached, hrow⟩ fun row => ?_
    rcases row with error | row
    · exact trivial
    refine ensures_seq (ensures_startBackfill hended rfl) fun started x' hx' => ?_
    subst hx'
    refine ensures_seq (ensures_rememberAndAnswer hended (.inr ⟨hcached, row, rfl, rfl⟩))
      fun _ x hended => ?_
    cases started with
    | true => exact ensures_finishBackfill hended
    | false => exact trivial

theorem ensures_resolveTenant :
    (tenantWatched handle).Ensures (fun _ _ => True) (fun _ _ => True)
      (resolveTenant deps handle) {} := by
  refine wp_monitor ⟨rfl, rfl⟩ fun memoized => ?_
  cases memoized with
  | none => exact ensures_resolveBehindMemo ⟨rfl, rfl, rfl⟩
  | some entry =>
    refine wp_monitor ⟨rfl, rfl⟩ fun (t : Int) => ?_
    show (tenantWatched handle).Ensures _ _ (if isExpired entry t then resolveBehindMemo deps handle
      else answerTenant entry.tenantId) _
    by_cases hexpired : isExpired entry t
    · rw [if_pos hexpired]
      exact ensures_resolveBehindMemo ⟨rfl, rfl, rfl⟩
    · rw [if_neg hexpired]
      exact wp_monitor ⟨rfl, .inr ⟨rfl, entry, t, rfl, rfl, hexpired, rfl⟩⟩ fun _ => trivial

/-! ## The invariant -/

namespace TenantSystem

variable {s s' : TenantSystem} {c : TenantCall}

/-- The answer for the handle became known at `t`. -/
inductive Sourced (s : TenantSystem) (handle : JsString) (tenantId : Option JsString) (t : Int) :
    Prop
  | query {q : TenantQuery} : q ∈ s.queries → q.handle = handle →
      q.tenantId.map Subtype.val = tenantId → q.answered = t → Sourced s handle tenantId t
  | cache {q : TenantQuery} {g : HandleGet} : q ∈ s.queries → g ∈ s.gets →
      g.write.query = some q → q.handle = handle → q.tenantId.map Subtype.val = tenantId →
      g.answered = t → Sourced s handle tenantId t

/-- A write is for a query that was answered when it was issued. -/
def SentOk (s : TenantSystem) (w : SentWrite) : Prop :=
  ∃ q ∈ s.queries, w.query = some q ∧ w.key = handleKey q.handle ∧
    (w.seconds, w.value) = handleCacheValue (q.tenantId.map Subtype.val) ∧ w.issued = q.answered

structure StoredOk (s : TenantSystem) (w : StoredWrite) : Prop where
  sent : SentOk s w.toSentWrite
  issued_le : w.issued ≤ w.applied

structure QueryOk (s : TenantSystem) (q : TenantQuery) : Prop where
  asked_le : q.asked ≤ q.readAt
  read_le : q.readAt ≤ q.answered
  held : s.HeldAt q.readAt q.handle (q.tenantId.map Subtype.val)

structure GetOk (s : TenantSystem) (g : HandleGet) : Prop where
  asked_le : g.asked ≤ g.executed
  executed_le : g.executed ≤ g.answered
  live : g.write.Live g.executed
  stored : StoredOk s g.write

/-- An answer became known when it was given, or is in a memo entry that is not expired. -/
def AnswerOk (s : TenantSystem) (a : TenantAnswer) : Prop :=
  (a.entry = none ∧ s.Sourced a.handle a.tenantId a.time) ∨
  ∃ e, a.entry = some e ∧ ¬ isExpired e a.time ∧
    s.Sourced a.handle a.tenantId (e.expiresAt - memoTtlMs)

/-- What a call knows before it has answered. -/
structure Known (s : TenantSystem) (c : TenantCall) (x : TenantExchange) : Prop where
  entry : ∀ e, x.entry = some e → s.Sourced c.handle e.tenantId (e.expiresAt - memoTtlMs)
  now : ∀ t, x.now = some t → x.cached = none → c.since = t
  cached : ∀ value, x.cached = some (some value) →
    s.Sourced c.handle (if value = absentTenantTombstone then none else some value) c.since
  row : ∀ row, x.row = some row → ∃ q ∈ s.queries, c.query = some q ∧ q.handle = c.handle ∧
    q.tenantId = row ∧ q.answered = c.since

structure CallInv (deps : ResolveTenantDeps) (s : TenantSystem) (c : TenantCall) : Prop where
  runs : Runs (resolveTenant deps c.handle) c.past c.prog
  since_le : c.since ≤ s.clock
  prompt : ¬ c.AtRest → c.since = s.clock
  lookup : ∀ key k w time, c.prog = .call (.get key) k →
    c.executed = some (.lookup (some w) time) →
    c.since ≤ time ∧ time ≤ s.clock ∧ w.key = key ∧ StoredOk s w ∧ w.Live time
  read : ∀ handle k tenantId time, c.prog = .call (.resolveTenantByHandle handle) k →
    c.executed = some (.row tenantId time) →
    c.since ≤ time ∧ time ≤ s.clock ∧ s.HeldAt time handle (tenantId.map Subtype.val)
  known : (tenantExchange c.past).ended = false → Known s c (tenantExchange c.past)

structure Inv (deps : ResolveTenantDeps) (s : TenantSystem) : Prop where
  held : (s.clock, s.pg) ∈ s.held
  queries : ∀ q ∈ s.queries, QueryOk s q
  gets : ∀ g ∈ s.gets, GetOk s g
  redis : ∀ key w, s.redis key = some w → w.key = key ∧ StoredOk s w
  flying : ∀ w ∈ s.flying, SentOk s w ∧ w.issued ≤ s.clock
  memo : ∀ p handle e, (s.memo p).get handle = some e →
    s.Sourced handle e.tenantId (e.expiresAt - memoTtlMs)
  size : ∀ p, (s.memo p).size ≤ memoMaxEntries
  answers : ∀ a ∈ s.answers, AnswerOk s a
  calls : ∀ c ∈ s.calls, CallInv deps s c

/-- The record grows. -/
structure Extends (s s' : TenantSystem) : Prop where
  clock : s.clock ≤ s'.clock
  held : ∀ i ∈ s.held, i ∈ s'.held
  queries : ∀ q ∈ s.queries, q ∈ s'.queries
  gets : ∀ g ∈ s.gets, g ∈ s'.gets

theorem Extends.refl (s : TenantSystem) : Extends s s :=
  ⟨le_rfl, fun _ h => h, fun _ h => h, fun _ h => h⟩

section Extends

variable (h : Extends s s')

include h

theorem HeldAt.extends {t : Int} {handle : JsString} {tenantId : Option JsString}
    (hh : s.HeldAt t handle tenantId) : s'.HeldAt t handle tenantId := by
  obtain ⟨pg, hmem, hpg⟩ := hh
  exact ⟨pg, h.held _ hmem, hpg⟩

theorem Sourced.extends {handle : JsString} {tenantId : Option JsString} {t : Int}
    (hs : s.Sourced handle tenantId t) : s'.Sourced handle tenantId t := by
  cases hs with
  | query hq hhandle htenant ht => exact .query (h.queries _ hq) hhandle htenant ht
  | cache hq hg hw hhandle htenant ht =>
    exact .cache (h.queries _ hq) (h.gets _ hg) hw hhandle htenant ht

theorem SentOk.extends {w : SentWrite} (hw : SentOk s w) : SentOk s' w := by
  obtain ⟨q, hq, hrest⟩ := hw
  exact ⟨q, h.queries q hq, hrest⟩

theorem StoredOk.extends {w : StoredWrite} (hw : StoredOk s w) : StoredOk s' w :=
  ⟨hw.sent.extends h, hw.issued_le⟩

theorem QueryOk.extends {q : TenantQuery} (hq : QueryOk s q) : QueryOk s' q :=
  ⟨hq.asked_le, hq.read_le, hq.held.extends h⟩

theorem GetOk.extends {g : HandleGet} (hg : GetOk s g) : GetOk s' g :=
  ⟨hg.asked_le, hg.executed_le, hg.live, hg.stored.extends h⟩

theorem AnswerOk.extends {a : TenantAnswer} (ha : AnswerOk s a) : AnswerOk s' a := by
  rcases ha with ⟨hnone, hs⟩ | ⟨e, he, hfresh, hs⟩
  · exact .inl ⟨hnone, hs.extends h⟩
  · exact .inr ⟨e, he, hfresh, hs.extends h⟩

theorem Known.extends {x : TenantExchange} (hk : Known s c x) : Known s' c x := by
  refine ⟨?_, hk.now, ?_, ?_⟩
  · intro e he
    exact (hk.entry e he).extends h
  · intro value hvalue
    exact (hk.cached value hvalue).extends h
  · intro row hrow
    obtain ⟨q, hq, hrest⟩ := hk.row row hrow
    exact ⟨q, h.queries q hq, hrest⟩

/-- A call keeps its invariant while no time passes, or while it waits. -/
theorem CallInv.extends (hc : CallInv deps s c) (hclock : s'.clock = s.clock ∨ c.AtRest) :
    CallInv deps s' c := by
  refine ⟨hc.runs, le_trans hc.since_le h.clock, ?_, ?_, ?_, ?_⟩
  · intro hrest
    rcases hclock with hclock | hrest'
    · rw [hclock]
      exact hc.prompt hrest
    · exact absurd hrest' hrest
  · intro key k w time hprog hexecuted
    obtain ⟨hsince, htime, hkey, hstored, hlive⟩ := hc.lookup key k w time hprog hexecuted
    exact ⟨hsince, le_trans htime h.clock, hkey, hstored.extends h, hlive⟩
  · intro handle k tenantId time hprog hexecuted
    obtain ⟨hsince, htime, hheld⟩ := hc.read handle k tenantId time hprog hexecuted
    exact ⟨hsince, le_trans htime h.clock, hheld.extends h⟩
  · intro hended
    exact (hc.known hended).extends h

end Extends

/-! ## An operation -/

section Operate

variable {op : TenantOp} {r : op.Response} {k : op.Response → TenantFlow Unit}

theorem CallInv.permitted (hc : CallInv deps s c) (hprog : c.prog = .call op k) :
    tenantPermitted c.handle op (tenantExchange c.past) := by
  have hwp := (execs_monitor hc.runs).wp ensures_resolveTenant
  rw [hprog] at hwp
  exact hwp.1

/-- What is done without waiting takes no time. -/
theorem CallInv.since_eq (hc : CallInv deps s c) (hprog : c.prog = .call op k)
    (hsync : op.isAsync = false) : c.since = s.clock := by
  refine hc.prompt ?_
  unfold TenantCall.AtRest
  rw [hprog]
  exact ne_true_of_eq_false hsync

theorem Known.sourced {x : TenantExchange} (hk : Known s c x) {tenantId : Option JsString}
    (hx : x.Supplies tenantId) : s.Sourced c.handle tenantId c.since := by
  rcases hx with ⟨value, hcached, rfl⟩ | ⟨-, row, hrow, rfl⟩
  · exact hk.cached value hcached
  · obtain ⟨q, hq, -, hhandle, rfl, ht⟩ := hk.row row hrow
    exact .query hq hhandle rfl ht

theorem CallInv.queried (hc : CallInv deps s c) (hprog : c.prog = .call op k)
    (hr : s.Reply c op r) {q : TenantQuery} (hq : c.queried s.clock ⟨op, r⟩ = some q) :
    QueryOk s q ∧ q.handle = c.handle ∧ q.answered = s.clock := by
  have hpermitted := hc.permitted hprog
  cases hr with
  | row handle hexecuted =>
    obtain ⟨rfl, -⟩ := hpermitted
    obtain ⟨hsince, htime, hheld⟩ := hc.read _ _ _ _ hprog hexecuted
    unfold TenantCall.queried at hq
    simp only [hexecuted, Option.some.injEq] at hq
    rw [← hq]
    exact ⟨⟨hsince, htime, hheld⟩, rfl, rfl⟩
  | _ => cases hq

theorem CallInv.got (hc : CallInv deps s c) (hprog : c.prog = .call op k)
    (hr : s.Reply c op r) {g : HandleGet} (hg : c.got s.clock ⟨op, r⟩ = some g) : GetOk s g := by
  cases hr with
  | get key hexecuted =>
    unfold TenantCall.got at hg
    simp only [hexecuted] at hg
    split at hg
    · next hw =>
      cases hw
      cases hg
      obtain ⟨hsince, htime, -, hstored, hlive⟩ := hc.lookup _ _ _ _ hprog hexecuted
      exact ⟨hsince, htime, hlive, hstored⟩
    · cases hg
  | _ => cases hg

theorem CallInv.sent (hc : CallInv deps s c) (hprog : c.prog = .call op k)
    {w : SentWrite} (hw : w ∈ c.sent s.clock ⟨op, r⟩) : SentOk s w ∧ w.issued ≤ s.clock := by
  have hpermitted := hc.permitted hprog
  cases op with
  | setex key seconds value =>
    obtain ⟨rfl, hended, row, hrow, hvalue⟩ := hpermitted
    obtain ⟨q, hq, hquery, hhandle, hrow, ht⟩ := (hc.known hended).row row hrow
    rcases r with error | ⟨⟩
    · cases hw
    cases List.mem_singleton.1 hw
    have hsince := hc.since_eq hprog rfl
    refine ⟨⟨q, hq, hquery, ?_, ?_, ?_⟩, le_rfl⟩
    · rw [hhandle]
    · rw [hrow]
      exact hvalue
    · rw [ht, hsince]
  | _ => cases hw

theorem CallInv.memoAfter (hc : CallInv deps s c) (hprog : c.prog = .call op k)
    (hmemo : ∀ p handle e, (s.memo p).get handle = some e →
      s.Sourced handle e.tenantId (e.expiresAt - memoTtlMs)) (p : Nat) (handle : JsString)
    (e : MemoEntry) (he : (s.memoAfter c ⟨op, r⟩ p).get handle = some e) :
    s.Sourced handle e.tenantId (e.expiresAt - memoTtlMs) := by
  have hpermitted := hc.permitted hprog
  cases op with
  | remember h tenantId =>
    obtain ⟨rfl, hended, hsupplies⟩ := hpermitted
    unfold TenantSystem.memoAfter at he
    dsimp only at he
    by_cases hp : p = c.process
    · rw [hp, Function.update_self] at he
      rcases InsertionMap.get_of_get_remember he with ⟨rfl, rfl⟩ | he
      · have hs := (hc.known hended).sourced hsupplies
        rw [hc.since_eq hprog rfl] at hs
        simpa using hs
      · exact hmemo _ _ _ he
    · rw [Function.update_of_ne hp] at he
      exact hmemo _ _ _ he
  | _ => exact hmemo _ _ _ he

theorem size_memoAfter_le (hsize : ∀ p, (s.memo p).size ≤ memoMaxEntries) (e : TenantEvent)
    (p : Nat) : (s.memoAfter c e p).size ≤ memoMaxEntries := by
  unfold TenantSystem.memoAfter
  split
  · by_cases hp : p = c.process
    · rw [hp, Function.update_self]
      exact InsertionMap.size_remember_le (by decide) (hsize _)
    · rw [Function.update_of_ne hp]
      exact hsize p
  · exact hsize p

theorem CallInv.answered (hc : CallInv deps s c) (hprog : c.prog = .call op k)
    {a : TenantAnswer} (ha : c.answered s.clock ⟨op, r⟩ = some a) : AnswerOk s a := by
  have hpermitted := hc.permitted hprog
  cases op with
  | answer tenantId =>
    obtain ⟨hended, hanswer⟩ := hpermitted
    have hknown := hc.known hended
    have hsince := hc.since_eq hprog rfl
    unfold TenantCall.answered at ha
    cases Option.some.inj ha
    rcases hanswer with hsupplies | ⟨hcached, entry, t, hentry, hnow, hfresh, rfl⟩
    · have hcached : (tenantExchange c.past).cached.isNone = false := by
        rcases hsupplies with ⟨value, hcached, -⟩ | ⟨hcached, -⟩ <;> rw [hcached] <;> rfl
      refine .inl ⟨?_, ?_⟩
      · simp only [hcached, Bool.false_eq_true, if_false]
      · rw [← hsince]
        exact hknown.sourced hsupplies
    · have ht := hknown.now t hnow hcached
      refine .inr ⟨entry, ?_, ?_, hknown.entry entry hentry⟩
      · simp only [hcached, Option.isNone_none, if_true, hentry]
      · rw [← hsince, ht]
        exact hfresh
  | _ => cases ha

theorem handleKey_injective {h h' : JsString} (hkey : handleKey h = handleKey h') : h = h' :=
  List.append_cancel_left hkey

/-- What was written for an answer is read as that answer. -/
theorem read_handleCacheValue (tenantId : Option PgText) :
    (if (handleCacheValue (tenantId.map Subtype.val)).2 = absentTenantTombstone then none
      else some (handleCacheValue (tenantId.map Subtype.val)).2) = tenantId.map Subtype.val := by
  cases tenantId with
  | none => exact if_pos rfl
  | some tenantId =>
    refine if_neg fun (h : tenantId.1 = absentTenantTombstone) => tenantId.2 ?_
    rw [h]
    exact List.mem_singleton_self 0

/-- A value that a lookup gave became known when it was given. -/
theorem CallInv.sourced_got (hc : CallInv deps s c) {key : JsString} {write : Option StoredWrite}
    {time : Int} {k : Race (Option JsString) → TenantFlow Unit} (hprog : c.prog = .call (.get key) k)
    (hexecuted : c.executed = some (.lookup write time)) {value : JsString}
    (hvalue : write.map (fun w => w.value) = some value) {s' : TenantSystem} (he : Extends s s')
    (hgets : ∀ g, c.got s.clock ⟨.get key, .operation (.ok (write.map fun w => w.value))⟩ = some g →
      g ∈ s'.gets) :
    s'.Sourced c.handle (if value = absentTenantTombstone then none else some value) s.clock := by
  obtain ⟨w, rfl, rfl⟩ := Option.map_eq_some_iff.1 hvalue
  obtain ⟨-, -, hkey, hstored, -⟩ := hc.lookup key k w time hprog hexecuted
  obtain ⟨q, hq, hquery, hqkey, hqvalue, -⟩ := hstored.sent
  have hhandle : q.handle = c.handle := by
    refine handleKey_injective ?_
    rw [← hqkey, hkey]
    exact (hc.permitted hprog).1
  have hw : w.value = (handleCacheValue (q.tenantId.map Subtype.val)).2 := (Prod.mk.inj hqvalue).2
  refine .cache (he.queries q hq) (hgets ⟨key, c.since, time, s.clock, w⟩ ?_) hquery hhandle ?_ rfl
  · unfold TenantCall.got
    simp only [hexecuted]
  · rw [hw, read_handleCacheValue]

theorem ended_of_step {e : TenantEvent} (h : (x.step e).ended = false) : x.ended = false := by
  obtain ⟨op, r⟩ := e
  cases op with
  | answer => cases h
  | resolveTenantByHandle =>
    rcases r with error | row
    · exact h
    · exact h
  | _ => exact h

/-- What a call knows is kept where no time has passed since, and is not changed otherwise. -/
theorem Known.kept (hk : Known s c x) (he : Extends s s') {c' : TenantCall}
    (hhandle : c'.handle = c.handle) (hsince : c'.since = c.since) (hquery : c'.query = c.query) :
    Known s' c' x := by
  have hk := hk.extends he
  refine ⟨?_, ?_, ?_, ?_⟩
  · rw [hhandle]
    exact hk.entry
  · rw [hsince]
    exact hk.now
  · rw [hhandle, hsince]
    exact hk.cached
  · rw [hhandle, hsince, hquery]
    exact hk.row

/-- After a lookup that gave nothing only the row is to be known. -/
theorem Known.of_miss (hk : Known s c x) (he : Extends s s') {c' : TenantCall}
    {x' : TenantExchange} (hhandle : c'.handle = c.handle) (hentry : x'.entry = x.entry)
    (hcached : x'.cached = some none)
    (hrow : ∀ row, x'.row = some row → ∃ q ∈ s'.queries, c'.query = some q ∧
      q.handle = c'.handle ∧ q.tenantId = row ∧ q.answered = c'.since) : Known s' c' x' := by
  refine ⟨?_, ?_, ?_, hrow⟩
  · rw [hhandle, hentry]
    exact (hk.extends he).entry
  · intro t _ hnone
    cases hcached.symm.trans hnone
  · intro value hvalue
    cases hcached.symm.trans hvalue

/-- What a call knows after an operation. -/
theorem CallInv.known_after (hc : CallInv deps s c) (hprog : c.prog = .call op k)
    (hr : s.Reply c op r) (hmemo : ∀ handle e, (s.memo c.process).get handle = some e →
      s.Sourced handle e.tenantId (e.expiresAt - memoTtlMs)) (he : Extends s s')
    (hqueries : ∀ q, c.queried s.clock ⟨op, r⟩ = some q → q ∈ s'.queries)
    (hgets : ∀ g, c.got s.clock ⟨op, r⟩ = some g → g ∈ s'.gets)
    (hended : ((tenantExchange c.past).step ⟨op, r⟩).ended = false) :
    Known s' (c.after s.clock ⟨op, r⟩ (k r)) ((tenantExchange c.past).step ⟨op, r⟩) := by
  have hpermitted := hc.permitted hprog
  have hknown := hc.known (ended_of_step hended)
  have hsync : op.isAsync = false → (c.queried s.clock ⟨op, r⟩).or c.query = c.query →
      Known s' (c.after s.clock ⟨op, r⟩ (k r)) (tenantExchange c.past) := by
    intro hsync hquery
    exact hknown.kept he rfl (hc.since_eq hprog hsync).symm hquery
  cases op with
  | memoGet handle =>
    obtain ⟨rfl, -⟩ := hpermitted
    have hbase := hsync rfl rfl
    refine ⟨?_, hbase.now, hbase.cached, hbase.row⟩
    intro e hentry
    cases hr
    exact (hmemo _ e hentry).extends he
  | now =>
    have hbase := hsync rfl rfl
    refine ⟨hbase.entry, ?_, hbase.cached, hbase.row⟩
    intro t ht _
    cases hr
    exact Option.some.inj ht
  | get key =>
    obtain ⟨-, -, -, hrow⟩ := hpermitted
    refine ⟨(hknown.extends he).entry, ?_, ?_, ?_⟩
    · intro t _ hcached
      cases hcached
    · intro value hvalue
      cases hr with
      | get _ hexecuted =>
        exact hc.sourced_got hprog hexecuted (Option.some.inj hvalue) he hgets
      | getFailed => cases hvalue
      | getTimedOut => cases hvalue
    · intro row hrow'
      cases hrow.symm.trans hrow'
  | resolveTenantByHandle handle =>
    obtain ⟨rfl, -, hcached, hrow⟩ := hpermitted
    cases hr with
    | @row _ tenantId time hexecuted =>
      refine hknown.of_miss he rfl rfl hcached ?_
      intro row hrow'
      obtain rfl := Option.some.inj hrow'
      have hquery : c.queried s.clock ⟨.resolveTenantByHandle c.handle, .ok tenantId⟩ =
          some ⟨c.handle, c.since, time, s.clock, tenantId⟩ := by
        unfold TenantCall.queried
        simp only [hexecuted]
      refine ⟨_, hqueries _ hquery, ?_, rfl, rfl, rfl⟩
      unfold TenantCall.after
      simp only [hquery, Option.some_or]
    | queryFailed =>
      refine hknown.of_miss he rfl rfl hcached ?_
      intro row hrow'
      cases hrow.symm.trans hrow'
  | answer tenantId => cases hended
  | setexSettled => cases hended.symm.trans hpermitted
  | _ => exact hsync rfl rfl

theorem CallInv.operate (hc : CallInv deps s c) (hprog : c.prog = .call op k)
    (hr : s.Reply c op r) (hmemo : ∀ handle e, (s.memo c.process).get handle = some e →
      s.Sourced handle e.tenantId (e.expiresAt - memoTtlMs)) (he : Extends s s')
    (hclock : s'.clock = s.clock)
    (hqueries : ∀ q, c.queried s.clock ⟨op, r⟩ = some q → q ∈ s'.queries)
    (hgets : ∀ g, c.got s.clock ⟨op, r⟩ = some g → g ∈ s'.gets) :
    CallInv deps s' (c.after s.clock ⟨op, r⟩ (k r)) := by
  refine ⟨?_, ?_, ?_, ?_, ?_, ?_⟩
  · have hruns := hc.runs
    rw [hprog] at hruns
    exact hruns.append (.cons (.nil _))
  · exact le_of_eq hclock.symm
  · intro _
    exact hclock.symm
  · intro key k w time _ hexecuted
    cases hexecuted
  · intro handle k tenantId time _ hexecuted
    cases hexecuted
  · have hpast : tenantExchange (c.after s.clock ⟨op, r⟩ (k r)).past =
        (tenantExchange c.past).step ⟨op, r⟩ := tenantExchange_append _ _
    rw [hpast]
    exact hc.known_after hprog hr hmemo he hqueries hgets

end Operate

/-! ## Steps -/

/-- A step that leaves the memos and adds nothing to the record but what Postgres holds. -/
theorem Inv.extends (h : Inv deps s) (he : Extends s s') (hpg : (s'.clock, s'.pg) ∈ s'.held)
    (hqueries : s'.queries = s.queries) (hgets : s'.gets = s.gets) (hmemo : s'.memo = s.memo)
    (hanswers : s'.answers = s.answers) (hflying : s'.flying = s.flying)
    (hredis : ∀ key w, s'.redis key = some w → w.key = key ∧ StoredOk s w)
    (hcalls : ∀ c ∈ s'.calls, CallInv deps s' c) : Inv deps s' := by
  refine ⟨hpg, ?_, ?_, ?_, ?_, ?_, ?_, ?_, hcalls⟩
  · intro q hq
    rw [hqueries] at hq
    exact (h.queries q hq).extends he
  · intro g hg
    rw [hgets] at hg
    exact (h.gets g hg).extends he
  · intro key w hw
    obtain ⟨hkey, hstored⟩ := hredis key w hw
    exact ⟨hkey, hstored.extends he⟩
  · intro w hw
    rw [hflying] at hw
    obtain ⟨hsent, hissued⟩ := h.flying w hw
    exact ⟨hsent.extends he, le_trans hissued he.clock⟩
  · intro p handle e hentry
    rw [hmemo] at hentry
    exact (h.memo p handle e hentry).extends he
  · intro p
    rw [hmemo]
    exact h.size p
  · intro a ha
    rw [hanswers] at ha
    exact (h.answers a ha).extends he

theorem Inv.tick (h : Inv deps s) {t : Int} (ht : s.clock ≤ t) (hrest : ∀ c ∈ s.calls, c.AtRest) :
    Inv deps { s with clock := t, held := s.held ++ [(t, s.pg)] } := by
  have he : Extends s { s with clock := t, held := s.held ++ [(t, s.pg)] } :=
    ⟨ht, fun _ => List.mem_append_left _, fun _ h => h, fun _ h => h⟩
  refine h.extends he ?_ rfl rfl rfl rfl rfl h.redis ?_
  · exact List.mem_append_right _ (List.mem_singleton_self _)
  · intro c hc
    exact (h.calls c hc).extends he (.inr (hrest c hc))

theorem Inv.change (h : Inv deps s) (handle : JsString) (tenantId : Option PgText) :
    Inv deps
      { s with
        pg := Function.update s.pg handle tenantId
        held := s.held ++ [(s.clock, Function.update s.pg handle tenantId)] } := by
  have he : Extends s
      { s with
        pg := Function.update s.pg handle tenantId
        held := s.held ++ [(s.clock, Function.update s.pg handle tenantId)] } :=
    ⟨le_rfl, fun _ => List.mem_append_left _, fun _ h => h, fun _ h => h⟩
  refine h.extends he ?_ rfl rfl rfl rfl rfl h.redis ?_
  · exact List.mem_append_right _ (List.mem_singleton_self _)
  · intro c hc
    exact (h.calls c hc).extends he (.inl rfl)

/-- Whatever changes only the calls. -/
theorem Inv.withCalls (h : Inv deps s) {calls : List TenantCall}
    (hcalls : ∀ c ∈ calls, CallInv deps s c) : Inv deps { s with calls } := by
  have he : Extends s { s with calls } := ⟨le_rfl, fun _ h => h, fun _ h => h, fun _ h => h⟩
  refine h.extends he h.held rfl rfl rfl rfl rfl h.redis ?_
  intro c hc
  exact (hcalls c hc).extends he (.inl rfl)

theorem Inv.start (h : Inv deps s) (process : Nat) (handle : JsString) :
    Inv deps
      { s with calls := s.calls ++
          [⟨process, handle, resolveTenant deps handle, [], s.clock, none, none⟩] } := by
  refine h.withCalls ?_
  intro c hc
  rcases List.mem_append.1 hc with hc | hc
  · exact h.calls c hc
  · obtain rfl := List.mem_singleton.1 hc
    refine ⟨.nil _, le_rfl, fun _ => rfl, ?_, ?_, ?_⟩
    · intro key k w time _ hexecuted
      cases hexecuted
    · intro handle k tenantId time _ hexecuted
      cases hexecuted
    · intro _
      refine ⟨?_, ?_, ?_, ?_⟩
      · intro e he
        cases he
      · intro t ht
        cases ht
      · intro value hvalue
        cases hvalue
      · intro row hrow
        cases hrow

/-- The operation a call waits for takes effect. -/
theorem Inv.withExecuted (h : Inv deps s) {i : Nat} (hi : s.calls[i]? = some c)
    {executed : Option Executed}
    (hlookup : ∀ key k w time, c.prog = .call (.get key) k →
      executed = some (.lookup (some w) time) →
      c.since ≤ time ∧ time ≤ s.clock ∧ w.key = key ∧ StoredOk s w ∧ w.Live time)
    (hread : ∀ handle k tenantId time, c.prog = .call (.resolveTenantByHandle handle) k →
      executed = some (.row tenantId time) →
      c.since ≤ time ∧ time ≤ s.clock ∧ s.HeldAt time handle (tenantId.map Subtype.val)) :
    Inv deps { s with calls := s.calls.set i { c with executed } } := by
  refine h.withCalls ?_
  intro d hd
  rcases List.mem_or_eq_of_mem_set hd with hd | rfl
  · exact h.calls d hd
  · have hc := h.calls c (List.mem_of_getElem? hi)
    exact ⟨hc.runs, hc.since_le, hc.prompt, hlookup, hread,
      fun hended => (hc.known hended).kept (.refl s) rfl rfl rfl⟩

theorem Inv.lookup (h : Inv deps s) {i : Nat} {key : JsString}
    {k : Race (Option JsString) → TenantFlow Unit} (hi : s.calls[i]? = some c)
    (hprog : c.prog = .call (.get key) k) :
    Inv deps
      { s with
        calls := s.calls.set i { c with executed := some (.lookup (s.live key) s.clock) } } := by
  have hc := h.calls c (List.mem_of_getElem? hi)
  apply h.withExecuted hi
  · intro key' k' w time hprog' hexecuted
    cases hprog.symm.trans hprog'
    obtain ⟨hw, rfl⟩ : s.live key = some w ∧ s.clock = time := by
      simpa using hexecuted
    obtain ⟨hw, hlive⟩ := Option.filter_eq_some_iff.1 hw
    obtain ⟨hkey, hstored⟩ := h.redis key w hw
    exact ⟨hc.since_le, le_rfl, hkey, hstored, of_decide_eq_true hlive⟩
  · intro handle k' tenantId time _ hexecuted
    cases hexecuted

theorem Inv.read (h : Inv deps s) {i : Nat} {handle : JsString}
    {k : Except Thrown (Option PgText) → TenantFlow Unit} (hi : s.calls[i]? = some c)
    (hprog : c.prog = .call (.resolveTenantByHandle handle) k) :
    Inv deps
      { s with
        calls := s.calls.set i { c with executed := some (.row (s.pg handle) s.clock) } } := by
  have hc := h.calls c (List.mem_of_getElem? hi)
  apply h.withExecuted hi
  · intro key k' w time _ hexecuted
    cases hexecuted
  · intro handle' k' tenantId time hprog' hexecuted
    cases hprog.symm.trans hprog'
    cases hexecuted
    exact ⟨hc.since_le, le_rfl, s.pg, h.held, rfl⟩

/-- Whatever changes only Redis. -/
theorem Inv.withRedis (h : Inv deps s) {redis : JsString → Option StoredWrite}
    (hredis : ∀ key w, redis key = some w → w.key = key ∧ StoredOk s w) :
    Inv deps { s with redis } := by
  have he : Extends s { s with redis } := ⟨le_rfl, fun _ h => h, fun _ h => h, fun _ h => h⟩
  refine h.extends he h.held rfl rfl rfl rfl rfl hredis ?_
  intro c hc
  exact (h.calls c hc).extends he (.inl rfl)

theorem Inv.land (h : Inv deps s) {w : SentWrite} (hw : w ∈ s.flying) :
    Inv deps { s with redis := Function.update s.redis w.key (some ⟨w, s.clock⟩) } := by
  refine h.withRedis ?_
  intro key w' hw'
  by_cases hkey : key = w.key
  · rw [hkey, Function.update_self] at hw'
    obtain rfl := Option.some.inj hw'
    obtain ⟨hsent, hissued⟩ := h.flying w hw
    exact ⟨hkey.symm, hsent, hissued⟩
  · rw [Function.update_of_ne hkey] at hw'
    exact h.redis key w' hw'

theorem Inv.drop (h : Inv deps s) (key : JsString) :
    Inv deps { s with redis := Function.update s.redis key none } := by
  refine h.withRedis ?_
  intro key' w hw
  by_cases hkey : key' = key
  · rw [hkey, Function.update_self] at hw
    cases hw
  · rw [Function.update_of_ne hkey] at hw
    exact h.redis key' w hw

theorem Inv.operate (h : Inv deps s) {i : Nat} {op : TenantOp}
    {k : op.Response → TenantFlow Unit} {r : op.Response} (hi : s.calls[i]? = some c)
    (hprog : c.prog = .call op k) (hr : s.Reply c op r) :
    Inv deps
      { s.after c ⟨op, r⟩ with calls := s.calls.set i (c.after s.clock ⟨op, r⟩ (k r)) } := by
  have hc := h.calls c (List.mem_of_getElem? hi)
  have he : Extends s
      { s.after c ⟨op, r⟩ with calls := s.calls.set i (c.after s.clock ⟨op, r⟩ (k r)) } :=
    ⟨le_rfl, fun _ h => h, fun _ => List.mem_append_left _, fun _ => List.mem_append_left _⟩
  refine ⟨h.held, ?_, ?_, ?_, ?_, ?_, ?_, ?_, ?_⟩
  · intro q hq
    rcases List.mem_append.1 hq with hq | hq
    · exact (h.queries q hq).extends he
    · exact (hc.queried hprog hr (Option.mem_toList.1 hq)).1.extends he
  · intro g hg
    rcases List.mem_append.1 hg with hg | hg
    · exact (h.gets g hg).extends he
    · exact (hc.got hprog hr (Option.mem_toList.1 hg)).extends he
  · intro key w hw
    obtain ⟨hkey, hstored⟩ := h.redis key w hw
    exact ⟨hkey, hstored.extends he⟩
  · intro w hw
    rcases List.mem_append.1 hw with hw | hw
    · exact ⟨(h.flying w hw).1.extends he, (h.flying w hw).2⟩
    · obtain ⟨hsent, hissued⟩ := hc.sent hprog hw
      exact ⟨hsent.extends he, hissued⟩
  · intro p handle e hentry
    exact (hc.memoAfter hprog h.memo p handle e hentry).extends he
  · exact size_memoAfter_le h.size _
  · intro a ha
    rcases List.mem_append.1 ha with ha | ha
    · exact (h.answers a ha).extends he
    · exact (hc.answered hprog (Option.mem_toList.1 ha)).extends he
  · intro d hd
    rcases List.mem_or_eq_of_mem_set hd with hd | rfl
    · exact (h.calls d hd).extends he (.inl rfl)
    · refine hc.operate hprog hr (h.memo c.process) he rfl ?_ ?_
      · intro q hq
        exact List.mem_append_right _ (Option.mem_toList.2 hq)
      · intro g hg
        exact List.mem_append_right _ (Option.mem_toList.2 hg)

theorem Inv.step (h : Inv deps s) (hs : Step deps s s') : Inv deps s' := by
  cases hs with
  | tick ht hrest => exact h.tick ht hrest
  | change => exact h.change _ _
  | start => exact h.start _ _
  | lookup hi hprog => exact h.lookup hi hprog
  | read hi hprog => exact h.read hi hprog
  | land hw => exact h.land hw
  | drop => exact h.drop _
  | operate hi hprog hr => exact h.operate hi hprog hr

theorem inv_initial (t : Int) (pg : JsString → Option PgText) : Inv deps (initial t pg) := by
  refine ⟨List.mem_singleton_self _, ?_, ?_, ?_, ?_, ?_, ?_, ?_, ?_⟩
  · intro q hq
    cases hq
  · intro g hg
    cases hg
  · intro key w hw
    cases hw
  · intro w hw
    cases hw
  · intro p handle e he
    cases he
  · intro p
    exact Nat.zero_le _
  · intro a ha
    cases ha
  · intro c hc
    cases hc

theorem inv_reachable (h : Reachable deps s) : Inv deps s := by
  obtain ⟨t, pg, hrun⟩ := h
  exact invariant_of_steps (fun _ _ hs h => h.step hs) hrun (inv_initial t pg)

/-! ## How old an answer is -/

/-- What became known at `t` was held not long before. -/
theorem Inv.bounded (h : Inv deps s) {handle : JsString} {tenantId : Option JsString} {t : Int}
    (hs : s.Sourced handle tenantId t) :
    ∃ q ∈ s.queries, ∃ outstanding, s.Outstanding q outstanding ∧ q.handle = handle ∧
      s.HeldAt q.readAt handle tenantId ∧
      t ≤ q.readAt + 1000 * (handleCacheValue tenantId).1 + outstanding := by
  cases hs with
  | @query q hq hhandle htenant ht =>
    have hok := h.queries q hq
    have hheld := hok.held
    rw [hhandle, htenant] at hheld
    refine ⟨q, hq, _, .query, hhandle, hheld, ?_⟩
    have := hok.asked_le
    omega
  | @cache q g hq hg hquery hhandle htenant ht =>
    have hok := h.queries q hq
    have hheld := hok.held
    rw [hhandle, htenant] at hheld
    refine ⟨q, hq, _, .cache hg hquery, hhandle, hheld, ?_⟩
    have hg := h.gets g hg
    obtain ⟨q', -, hquery', -, hvalue, hissued⟩ := hg.stored.sent
    cases hquery.symm.trans hquery'
    have hseconds : g.write.seconds = (handleCacheValue tenantId).1 := by
      rw [← htenant]
      exact (Prod.mk.inj hvalue).1
    have hlive : g.executed ≤ g.write.applied + 1000 * g.write.seconds := hg.live
    have := hok.asked_le
    have := hg.asked_le
    rw [hseconds] at hlive
    omega

end TenantSystem

/-- **Theorem (`tenant_staleness`).** In every reachable state: every answer is what Postgres held
at an instant that is no further back than the time to live of such an answer in Redis, that of the
memo, and the time for which the requests were outstanding that brought the answer; no answer came
from an expired memo entry; and no memo is larger than its bound. -/
theorem tenant_staleness (deps : ResolveTenantDeps) (s : TenantSystem)
    (h : TenantSystem.Reachable deps s) :
    (∀ a ∈ s.answers, ∃ q ∈ s.queries, ∃ outstanding, s.Outstanding q outstanding ∧
      q.handle = a.handle ∧ s.HeldAt q.readAt a.handle a.tenantId ∧
      a.time - q.readAt ≤ 1000 * (handleCacheValue a.tenantId).1 + memoTtlMs + outstanding) ∧
    (∀ a ∈ s.answers, ∀ entry, a.entry = some entry → ¬ isExpired entry a.time) ∧
    ∀ p, (s.memo p).size ≤ memoMaxEntries := by
  have hinv := TenantSystem.inv_reachable h
  refine ⟨?_, ?_, hinv.size⟩
  · intro a ha
    rcases hinv.answers a ha with ⟨-, hs⟩ | ⟨e, -, hfresh, hs⟩
    · obtain ⟨q, hq, outstanding, hout, hhandle, hheld, ht⟩ := hinv.bounded hs
      refine ⟨q, hq, outstanding, hout, hhandle, hheld, ?_⟩
      unfold memoTtlMs
      omega
    · obtain ⟨q, hq, outstanding, hout, hhandle, hheld, ht⟩ := hinv.bounded hs
      refine ⟨q, hq, outstanding, hout, hhandle, hheld, ?_⟩
      unfold isExpired at hfresh
      omega
  · intro a ha entry hentry
    rcases hinv.answers a ha with ⟨hnone, -⟩ | ⟨e, he, hfresh, -⟩
    · cases hnone.symm.trans hentry
    · cases he.symm.trans hentry
      exact hfresh

def plainTenantDeps : ResolveTenantDeps := ⟨.plain, .ofNat 50⟩

def movedTenant : PgText := ⟨lit "t1", by decide⟩

open TenantSystem in
/-- A process reads the tenant of a handle and caches it; the handle loses its tenant; at the last
instant of the cached value another process reads it, and a minute later that one answers from its
memo. -/
theorem reachable_movedHandle : ∃ s, Reachable plainTenantDeps s ∧
    ⟨lit "h", some (lit "t1"), 3659999, some ⟨some (lit "t1"), 3660000⟩⟩ ∈ s.answers ∧
      (s.pg (lit "h")).isNone := by
  have hrun := Relation.ReflTransGen.single (r := Step plainTenantDeps)
    (.start (initial 0 fun _ => some movedTenant) 0 (lit "h"))
  have hrun := hrun.tail (.operate (i := 0) rfl rfl (.memoGet (lit "h")))
  have hrun := hrun.tail (.lookup (i := 0) rfl rfl)
  have hrun := hrun.tail (.operate (i := 0) rfl rfl (.get (handleKey (lit "h")) rfl))
  have hrun := hrun.tail (.read (i := 0) rfl rfl)
  have hrun := hrun.tail (.operate (i := 0) rfl rfl (.row (lit "h") rfl))
  have hrun := hrun.tail
    (.operate (i := 0) rfl rfl (.setex (handleKey (lit "h")) 3600 (lit "t1") (.ok ())))
  have hrun := hrun.tail (.operate (i := 0) rfl rfl (.remember (lit "h") (some (lit "t1"))))
  have hrun := hrun.tail (.operate (i := 0) rfl rfl (.answer (some (lit "t1"))))
  have hrun := hrun.tail (.land List.mem_cons_self)
  have hrun := hrun.tail (.change _ (lit "h") none)
  have hrun := hrun.tail (.tick (t := 3600000) (by decide) (List.forall_mem_singleton.mpr rfl))
  have hrun := hrun.tail (.start _ 1 (lit "h"))
  have hrun := hrun.tail (.operate (i := 1) rfl rfl (.memoGet (lit "h")))
  have hrun := hrun.tail (.lookup (i := 1) rfl rfl)
  have hrun := hrun.tail (.operate (i := 1) rfl rfl (.get (handleKey (lit "h")) rfl))
  have hrun := hrun.tail (.operate (i := 1) rfl rfl (.remember (lit "h") (some (lit "t1"))))
  have hrun := hrun.tail (.operate (i := 1) rfl rfl (.answer (some (lit "t1"))))
  have hrun := hrun.tail (.tick (t := 3659999) (by decide)
    (List.forall_mem_cons.mpr ⟨rfl, List.forall_mem_singleton.mpr trivial⟩))
  have hrun := hrun.tail (.start _ 1 (lit "h"))
  have hrun := hrun.tail (.operate (i := 2) rfl rfl (.memoGet (lit "h")))
  have hrun := hrun.tail (.operate (i := 2) rfl rfl .now)
  have hrun := hrun.tail (.operate (i := 2) rfl rfl (.answer (some (lit "t1"))))
  exact ⟨_, ⟨_, _, hrun⟩, List.mem_of_getElem? (i := 2) rfl, rfl⟩

/-- The answer is what Postgres held an hour and a minute before. -/
theorem tenant_staleness_movedHandle : ∃ s : TenantSystem, TenantSystem.Reachable plainTenantDeps s ∧
    (s.pg (lit "h")).isNone ∧
    ⟨lit "h", some (lit "t1"), 3659999, some ⟨some (lit "t1"), 3660000⟩⟩ ∈ s.answers ∧
    ∃ q ∈ s.queries, ∃ outstanding, s.Outstanding q outstanding ∧ q.handle = lit "h" ∧
      s.HeldAt q.readAt (lit "h") (some (lit "t1")) ∧
      3659999 - q.readAt ≤ 1000 * 3600 + 60000 + outstanding := by
  obtain ⟨s, h, ha, hpg⟩ := reachable_movedHandle
  exact ⟨s, h, hpg, ha, (tenant_staleness plainTenantDeps s h).1 _ ha⟩

end Posta.Api
