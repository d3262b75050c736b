import Posta.Core.DailySalt
import Posta.Interaction.Sequential

/-!
# Agreement on the salt of the day

**Theorem (`daily_salt_agreement`).** In every reachable state: two promises of one date that read
their salt back in one generation of its key resolve to the same salt, whichever processes they
belong to; in a process whose clock does not go back, all calls of a date share one promise, which
issues at most one `SET`; and no promise rejects.

The promise of a call is one of its own date. A date that a process has left does not come back, so
the memo may forget it; the date of the last call is always remembered.
-/

namespace Posta

open Js Interaction Store

/-! ## One fetching -/

/-- What a fetching has done. -/
structure Fetched where
  sets : Nat := 0
  got : Option JsString := none

def Fetched.step (w : Fetched) : SaltEvent → Fetched
  | ⟨.set .., _⟩ => { w with sets := w.sets + 1 }
  | ⟨.get _, .ok (some stored)⟩ => { w with got := some stored }
  | _ => w

/-- It sets and reads the key of its date, sets once, and does nothing after it has read. -/
def fetchPermitted (now : Int) : SaltOp → Fetched → Prop
  | .randomBytes, w => w.got = none
  | .set key _ _, w => w.got = none ∧ w.sets = 0 ∧ key = saltKey now
  | .get key, w => w.got = none ∧ key = saltKey now
  | .logError .., w => w.got = none

abbrev fetching (now : Int) : Interp SaltOp SaltOp.Response Fetched :=
  Interp.monitor (fetchPermitted now) Fetched.step

theorem ensures_fetchOrGenerateSalt (errorType : Thrown → JsString) (now : Int) :
    (fetching now).Ensures (fun v w => ∀ v', w.got = some v' → v' = v) (fun _ _ => False)
      (fetchOrGenerateSalt errorType now) {} := by
  have hcatch (error : Thrown) (candidate : JsString) (w : Fetched) (hw : w.got = none) :
      (fetching now).Ensures (fun v w => ∀ v', w.got = some v' → v' = v) (fun _ _ => False)
        (do
          Flow.perform (SaltOp.logError saltFailedMessage
            [(lit "errorType", .str (errorType error))])
          pure candidate : SaltFlow JsString) w := by
    refine Interp.wp_monitor hw fun _ => ?_
    intro v' hv'
    change w.got = some v' at hv'
    rw [hw] at hv'
    cases hv'
  refine Interp.wp_monitor rfl fun candidate => ?_
  refine Interp.ensures_tryCatch (Interp.wp_monitor ⟨rfl, rfl, rfl⟩ fun reply => ?_)
  rcases reply with error | reply
  · exact hcatch error candidate _ rfl
  refine Interp.wp_monitor ⟨rfl, rfl⟩ fun stored => ?_
  rcases stored with error | - | stored
  · exact hcatch error candidate _ rfl
  · exact hcatch _ candidate _ rfl
  · intro v' hv'
    cases hv'
    rfl

/-- A fetching that is on its way. -/
def Fetching (errorType : Thrown → JsString) (f : SaltPromise) : Prop :=
  Runs (fetchOrGenerateSalt errorType f.now) f.past f.prog

/-- The `SET`s a promise has issued: those answered, and the one it waits for. -/
def SaltPromise.issuedSets (f : SaltPromise) : Nat :=
  (f.past.foldl Fetched.step {}).sets +
    match f.prog with
    | .call (.set ..) _ => 1
    | _ => 0

namespace Fetching

variable {errorType : Thrown → JsString} {f : SaltPromise}

theorem wp (hf : Fetching errorType f) :
    (fetching f.now).Ensures (fun v w => ∀ v', w.got = some v' → v' = v) (fun _ _ => False)
      f.prog (f.past.foldl Fetched.step {}) :=
  (Interp.execs_monitor hf).wp (ensures_fetchOrGenerateSalt errorType f.now)

theorem not_rejected (hf : Fetching errorType f) (e : Thrown) : f.prog ≠ .done (.error e) := by
  intro h
  have := hf.wp
  rw [h] at this
  exact this

/-- A fetching that has read a salt has resolved to it. -/
theorem resolved (hf : Fetching errorType f) {v : JsString}
    (hv : (f.past.foldl Fetched.step {}).got = some v) : f.prog = .done (.ok v) := by
  have hwp := hf.wp
  cases hprog : f.prog with
  | done r =>
    rw [hprog] at hwp
    cases r with
    | ok v' => rw [hwp v hv]
    | error e => exact absurd hwp id
  | call op k =>
    rw [hprog] at hwp
    have hpre : fetchPermitted f.now op (f.past.foldl Fetched.step {}) := hwp.1
    have hnone : (f.past.foldl Fetched.step {}).got = none := by
      cases op with
      | randomBytes => exact hpre
      | set key value seconds => exact hpre.1
      | get key => exact hpre.1
      | logError message logMeta => exact hpre
    rw [hnone] at hv
    cases hv

theorem unread (hf : Fetching errorType f) {op : SaltOp} {k : op.Response → SaltFlow JsString}
    (hprog : f.prog = .call op k) : (f.past.foldl Fetched.step {}).got = none := by
  cases hgot : (f.past.foldl Fetched.step {}).got with
  | none => rfl
  | some v =>
    have := hf.resolved hgot
    rw [hprog] at this
    cases this

theorem get_key (hf : Fetching errorType f) {key : JsString}
    {k : (SaltOp.get key).Response → SaltFlow JsString} (hprog : f.prog = .call (.get key) k) :
    key = saltKey f.now := by
  have hwp := hf.wp
  rw [hprog] at hwp
  exact hwp.1.2

theorem issuedSets_le (hf : Fetching errorType f) : f.issuedSets ≤ 1 := by
  have hstep (w : Fetched) (op : SaltOp) (r : op.Response) (hpre : fetchPermitted f.now op w)
      (hw : w.sets ≤ 1) : (w.step ⟨op, r⟩).sets ≤ 1 := by
    cases op with
    | set key value seconds => exact Nat.succ_le_succ (Nat.le_of_eq hpre.2.1)
    | get key => rcases r with error | - | stored <;> exact hw
    | _ => exact hw
  have hle : (f.past.foldl Fetched.step {}).sets ≤ 1 :=
    Interp.monitor_invariant hstep (ensures_fetchOrGenerateSalt errorType f.now) hf (Nat.zero_le 1)
  unfold SaltPromise.issuedSets
  split
  · next hprog =>
    have hwp := hf.wp
    rw [hprog] at hwp
    rw [hwp.1.2.1]
  · exact hle

end Fetching

/-! ## The system -/

namespace SaltSystem

/-- What holds of the promises and of Redis in every reachable state. -/
structure Inv (errorType : Thrown → JsString) (s : SaltSystem) : Prop where
  fetching : ∀ f ∈ s.promises, Fetching errorType f
  seen : ∀ f ∈ s.promises, f.got.map Prod.snd = (f.past.foldl Fetched.step {}).got
  /-- A salt that was read is that of its generation. -/
  current : ∀ f ∈ s.promises, ∀ n v, f.got = some (n, v) → n ≤ s.generation (saltKey f.now) ∧
    (n = s.generation (saltKey f.now) → s.redis (saltKey f.now) = some v)
  agree : ∀ f ∈ s.promises, ∀ g ∈ s.promises, saltKey f.now = saltKey g.now → ∀ n v v',
    f.got = some (n, v) → g.got = some (n, v') → v = v'

variable {errorType : Thrown → JsString} {s s' : SaltSystem}

theorem setNx_redis {key value k v : JsString} (h : s.redis k = some v) :
    (s.setNx key value).redis k = some v := by
  unfold setNx
  by_cases hk : k = key
  · subst hk
    simp [h]
  · simp [Function.update_of_ne hk, h]

/-- Whatever keeps the generations and the salts that are present keeps the invariant. -/
theorem Inv.of_redis (h : s.Inv errorType) (hpromises : s'.promises = s.promises)
    (hgeneration : ∀ k, s'.generation k = s.generation k)
    (hredis : ∀ k v, s.redis k = some v → s'.redis k = some v) : s'.Inv errorType := by
  refine ⟨?_, ?_, ?_, ?_⟩
  · rw [hpromises]; exact h.fetching
  · rw [hpromises]; exact h.seen
  · rw [hpromises]
    intro f hf n v hgot
    obtain ⟨hle, hcur⟩ := h.current f hf n v hgot
    rw [hgeneration]
    exact ⟨hle, fun hn => hredis _ _ (hcur hn)⟩
  · rw [hpromises]; exact h.agree

theorem inv_expire (h : s.Inv errorType) (key : JsString) :
    Inv errorType { s with
      redis := Function.update s.redis key none
      generation := Function.update s.generation key (s.generation key + 1) } := by
  refine ⟨h.fetching, h.seen, ?_, h.agree⟩
  intro f hf n v hgot
  obtain ⟨hle, hcur⟩ := h.current f hf n v hgot
  by_cases hk : saltKey f.now = key
  · rw [hk] at hle
    simp only [hk, Function.update_self]
    exact ⟨by omega, fun hn => by omega⟩
  · simp only [Function.update_of_ne hk]
    exact ⟨hle, hcur⟩

theorem inv_call (h : s.Inv errorType) (process : Nat) (now : Int) :
    (s.call errorType process now).Inv errorType := by
  unfold call
  dsimp only
  split
  · exact ⟨h.fetching, h.seen, h.current, h.agree⟩
  · refine ⟨?_, ?_, ?_, ?_⟩
    · intro f hf
      rcases List.mem_append.1 hf with hf | hf
      · exact h.fetching f hf
      · rw [List.mem_singleton.1 hf]
        exact .nil _
    · intro f hf
      rcases List.mem_append.1 hf with hf | hf
      · exact h.seen f hf
      · rw [List.mem_singleton.1 hf]
        rfl
    · intro f hf n v hgot
      rcases List.mem_append.1 hf with hf | hf
      · exact h.current f hf n v hgot
      · rw [List.mem_singleton.1 hf] at hgot
        cases hgot
    · intro f hf g hg hkey n v v' hgot hgot'
      rcases List.mem_append.1 hf with hf | hf
      · rcases List.mem_append.1 hg with hg | hg
        · exact h.agree f hf g hg hkey n v v' hgot hgot'
        · rw [List.mem_singleton.1 hg] at hgot'
          cases hgot'
      · rw [List.mem_singleton.1 hf] at hgot
        cases hgot

/-- What no command changes. -/
theorem Command.keeps {op : SaltOp} {r : op.Response} (h : Command s op r s') :
    s'.memo = s.memo ∧ s'.promises = s.promises ∧ s'.calls = s.calls ∧
      s'.generation = s.generation ∧ ∀ k v, s.redis k = some v → s'.redis k = some v := by
  cases h with
  | set key value seconds => exact ⟨rfl, rfl, rfl, rfl, fun k v hk => setNx_redis hk⟩
  | _ => exact ⟨rfl, rfl, rfl, rfl, fun _ _ hk => hk⟩

/-- A command reads a salt only from its key, which holds it. -/
theorem Command.got {op : SaltOp} {r : op.Response} (h : Command s op r s') {n : Nat}
    {v : JsString} (hgot : s.gotOf ⟨op, r⟩ = some (n, v)) :
    ∃ key, op = .get key ∧ n = s.generation key ∧ s.redis key = some v := by
  cases h with
  | get key =>
    cases hkey : s.redis key with
    | none => rw [hkey] at hgot; cases hgot
    | some stored =>
      rw [hkey] at hgot
      cases hgot
      exact ⟨key, rfl, rfl, hkey⟩
  | _ => cases hgot

theorem gotOf_seen (s : SaltSystem) (e : SaltEvent) {w : Fetched} (hw : w.got = none) :
    (s.gotOf e).map Prod.snd = (w.step e).got := by
  obtain ⟨op, r⟩ := e
  cases op with
  | get key => rcases r with error | - | stored <;> first | rfl | exact hw.symm
  | _ => exact hw.symm

section Command

variable {i : Nat} {f : SaltPromise} {op : SaltOp} {k : op.Response → SaltFlow JsString}
  {r : op.Response}

theorem got_none (h : s.Inv errorType) (hf : f ∈ s.promises) (hprog : f.prog = .call op k) :
    f.got = none := by
  have := h.seen f hf
  rw [(h.fetching f hf).unread hprog, Option.map_eq_none_iff] at this
  exact this

theorem inv_command (h : s.Inv errorType) (hi : s.promises[i]? = some f)
    (hprog : f.prog = .call op k) (hc : Command s op r s') :
    Inv errorType
      { s' with promises := s.promises.set i (SaltPromise.after s f ⟨op, r⟩ (k r)) } := by
  obtain ⟨-, -, -, hgeneration, hredis⟩ := hc.keeps
  have hf := List.mem_of_getElem? hi
  have hnone := got_none h hf hprog
  have hgot : (SaltPromise.after s f ⟨op, r⟩ (k r)).got = s.gotOf ⟨op, r⟩ := by
    rw [SaltPromise.after, hnone, Option.none_or]
  -- what this promise has just read is what the key holds
  have hnew : ∀ n v, (SaltPromise.after s f ⟨op, r⟩ (k r)).got = some (n, v) →
      n = s.generation (saltKey f.now) ∧ s.redis (saltKey f.now) = some v := by
    intro n v hv
    rw [hgot] at hv
    obtain ⟨key, rfl, hn, hkey⟩ := hc.got hv
    rw [← (h.fetching f hf).get_key hprog]
    exact ⟨hn, hkey⟩
  refine ⟨?_, ?_, ?_, ?_⟩
  · intro g hg
    rcases List.mem_or_eq_of_mem_set hg with hg | rfl
    · exact h.fetching g hg
    · have hrun := h.fetching f hf
      unfold Fetching at hrun
      rw [hprog] at hrun
      exact hrun.append (.cons (.nil _))
  · intro g hg
    rcases List.mem_or_eq_of_mem_set hg with hg | rfl
    · exact h.seen g hg
    · rw [hgot]
      show _ = ((f.past ++ [_]).foldl Fetched.step {}).got
      rw [List.foldl_append]
      exact gotOf_seen s _ ((h.fetching f hf).unread hprog)
  · intro g hg n v hv
    dsimp only
    rw [hgeneration]
    rcases List.mem_or_eq_of_mem_set hg with hg | rfl
    · obtain ⟨hle, hcur⟩ := h.current g hg n v hv
      exact ⟨hle, fun hn => hredis _ _ (hcur hn)⟩
    · obtain ⟨hn, hkey⟩ := hnew n v hv
      exact ⟨Nat.le_of_eq hn, fun _ => hredis _ _ hkey⟩
  · intro g hg g' hg' hkeys n v v' hv hv'
    rcases List.mem_or_eq_of_mem_set hg with hg | rfl <;>
      rcases List.mem_or_eq_of_mem_set hg' with hg' | rfl
    · exact h.agree g hg g' hg' hkeys n v v' hv hv'
    · obtain ⟨hn, hkey⟩ := hnew n v' hv'
      change saltKey g.now = saltKey f.now at hkeys
      rw [← hkeys] at hn hkey
      exact Option.some.inj (((h.current g hg n v hv).2 hn).symm.trans hkey)
    · obtain ⟨hn, hkey⟩ := hnew n v hv
      change saltKey f.now = saltKey g'.now at hkeys
      rw [hkeys] at hn hkey
      exact Option.some.inj (hkey.symm.trans ((h.current g' hg' n v' hv').2 hn))
    · rw [hv] at hv'
      cases hv'
      rfl

end Command

theorem inv_step (hs : Step errorType s s') (h : s.Inv errorType) : s'.Inv errorType := by
  cases hs with
  | call process now => exact inv_call h process now
  | command hi hprog hc => exact inv_command h hi hprog hc
  | land => exact h.of_redis rfl (fun _ => rfl) fun _ _ => setNx_redis
  | expire key => exact inv_expire h key

theorem inv_reachable (hs : Reachable errorType s) : s.Inv errorType := by
  obtain ⟨redis, hsteps⟩ := hs
  refine invariant_of_steps (fun _ _ => inv_step) hsteps ⟨?_, ?_, ?_, ?_⟩ <;>
    · intro f hf
      exact absurd hf List.not_mem_nil

/-! ## One process -/

/-- How calls, memos and promises refer to each other. -/
structure Linked (s : SaltSystem) : Prop where
  promise_of_call : ∀ c ∈ s.calls, ∃ f, s.promises[c.promise]? = some f ∧
    f.process = c.process ∧ formatUtcDate f.now = formatUtcDate c.now
  call_of_memo : ∀ p dateKey i, (s.memo p).get dateKey = some i →
    ∃ c ∈ s.calls, c.process = p ∧ formatUtcDate c.now = dateKey ∧ c.promise = i
  call_of_promise : ∀ (i : Nat) f, s.promises[i]? = some f →
    ∃ c ∈ s.calls, c.process = f.process ∧ c.now = f.now ∧ c.promise = i

/-- The memo of a process after a call. -/
theorem memo_call (errorType : Thrown → JsString) (s : SaltSystem) (process : Nat) (now : Int) :
    ∃ i, (s.call errorType process now).calls = s.calls ++ [⟨process, now, i⟩] ∧
      ((s.call errorType process now).memo process).get (formatUtcDate now) = some i ∧
      (∀ p, p ≠ process → (s.call errorType process now).memo p = s.memo p) ∧
      ((s.memo process).get (formatUtcDate now) = some i ∨
        (s.memo process).get (formatUtcDate now) = none ∧ i = s.promises.length) := by
  unfold call
  dsimp only
  cases hmemo : (s.memo process).get (formatUtcDate now) with
  | some i => exact ⟨i, rfl, hmemo, fun _ _ => rfl, .inl rfl⟩
  | none =>
    refine ⟨s.promises.length, rfl, ?_, fun p hp => Function.update_of_ne hp _ _, .inr ⟨rfl, rfl⟩⟩
    dsimp only
    rw [Function.update_self]
    exact InsertionMap.get_remember

theorem linked_call (h : s.Linked) (process : Nat) (now : Int) :
    (s.call errorType process now).Linked := by
  unfold call
  dsimp only
  cases hmemo : (s.memo process).get (formatUtcDate now) with
  | some i =>
    refine ⟨?_, ?_, ?_⟩
    · intro c hc
      rcases List.mem_append.1 hc with hc | hc
      · exact h.promise_of_call c hc
      · obtain rfl := List.mem_singleton.1 hc
        obtain ⟨d, hd, hp, hdate, rfl⟩ := h.call_of_memo _ _ _ hmemo
        obtain ⟨f, hf, hfp, hfd⟩ := h.promise_of_call d hd
        exact ⟨f, hf, hfp.trans hp, hfd.trans hdate⟩
    · intro p dateKey j hj
      obtain ⟨c, hc, hcj⟩ := h.call_of_memo p dateKey j hj
      exact ⟨c, List.mem_append_left _ hc, hcj⟩
    · intro j f hj
      obtain ⟨c, hc, hcj⟩ := h.call_of_promise j f hj
      exact ⟨c, List.mem_append_left _ hc, hcj⟩
  | none =>
    have hnew : (⟨process, now, s.promises.length⟩ : SaltCall) ∈
        s.calls ++ [⟨process, now, s.promises.length⟩] :=
      List.mem_append_right _ (List.mem_singleton_self _)
    refine ⟨?_, ?_, ?_⟩
    · intro c hc
      rcases List.mem_append.1 hc with hc | hc
      · obtain ⟨f, hf, hfc⟩ := h.promise_of_call c hc
        exact ⟨f, List.getElem?_append_left (List.getElem?_eq_some_iff.1 hf).1 ▸ hf, hfc⟩
      · obtain rfl := List.mem_singleton.1 hc
        exact ⟨_, List.getElem?_concat_length, rfl, rfl⟩
    · intro p dateKey j hj
      by_cases hp : p = process
      · subst hp
        dsimp only at hj
        rw [Function.update_self] at hj
        rcases InsertionMap.get_of_get_remember hj with ⟨rfl, rfl⟩ | hj
        · exact ⟨_, hnew, rfl, rfl, rfl⟩
        · obtain ⟨c, hc, hcj⟩ := h.call_of_memo p dateKey j hj
          exact ⟨c, List.mem_append_left _ hc, hcj⟩
      · dsimp only at hj
        rw [Function.update_of_ne hp] at hj
        obtain ⟨c, hc, hcj⟩ := h.call_of_memo p dateKey j hj
        exact ⟨c, List.mem_append_left _ hc, hcj⟩
    · intro j f hj
      rcases Nat.lt_or_ge j s.promises.length with hlt | hge
      · rw [List.getElem?_append_left hlt] at hj
        obtain ⟨c, hc, hcj⟩ := h.call_of_promise j f hj
        exact ⟨c, List.mem_append_left _ hc, hcj⟩
      · rw [List.getElem?_append_right hge] at hj
        obtain ⟨hj0, hf⟩ := List.getElem?_eq_some_iff.1 hj
        have hjlen : j = s.promises.length := by
          simp only [List.length_singleton] at hj0
          omega
        subst hjlen
        simp only [Nat.sub_self, List.getElem_cons_zero] at hf
        subst hf
        exact ⟨_, hnew, rfl, rfl, rfl⟩

/-- Only the promises' owners and dates matter. -/
theorem Linked.of_same (h : s.Linked) (hcalls : s'.calls = s.calls) (hmemo : s'.memo = s.memo)
    (hpromises : s'.promises.map (fun f => (f.process, f.now)) =
      s.promises.map fun f => (f.process, f.now)) : s'.Linked := by
  have hget (i : Nat) : (s'.promises[i]?).map (fun f => (f.process, f.now)) =
      (s.promises[i]?).map fun f => (f.process, f.now) := by
    rw [← List.getElem?_map, ← List.getElem?_map, hpromises]
  refine ⟨?_, ?_, ?_⟩
  · rw [hcalls]
    intro c hc
    obtain ⟨f, hf, hp, hd⟩ := h.promise_of_call c hc
    have hg := hget c.promise
    rw [hf, Option.map_some, Option.map_eq_some_iff] at hg
    obtain ⟨g, hg, hgf⟩ := hg
    obtain ⟨hgp, hgn⟩ := Prod.mk.inj hgf
    exact ⟨g, hg, hgp.trans hp, by rw [hgn]; exact hd⟩
  · rw [hcalls, hmemo]
    exact h.call_of_memo
  · rw [hcalls]
    intro i f hf
    have hg := hget i
    rw [hf, Option.map_some] at hg
    obtain ⟨g, hg, hgf⟩ := Option.map_eq_some_iff.1 hg.symm
    obtain ⟨hgp, hgn⟩ := Prod.mk.inj hgf
    obtain ⟨c, hc, hcp, hcn, hci⟩ := h.call_of_promise i g hg
    exact ⟨c, hc, hcp.trans hgp, hcn.trans hgn, hci⟩

theorem linked_step (hs : Step errorType s s') (h : s.Linked) : s'.Linked := by
  cases hs with
  | call process now => exact linked_call h process now
  | @command s₁ i f op k r hi hprog hc =>
    obtain ⟨hmemo, -, hcalls, -, -⟩ := hc.keeps
    refine h.of_same hcalls hmemo ?_
    obtain ⟨hlt, hf⟩ := List.getElem?_eq_some_iff.1 hi
    have hsame : (SaltPromise.after s f ⟨op, r⟩ (k r)).process = f.process ∧
        (SaltPromise.after s f ⟨op, r⟩ (k r)).now = f.now := ⟨rfl, rfl⟩
    refine List.ext_getElem? fun j => ?_
    rw [List.getElem?_map, List.getElem?_map, List.getElem?_set]
    by_cases hij : i = j
    · subst hij
      rw [if_pos rfl, if_pos hlt, hi, Option.map_some, Option.map_some, hsame.1, hsame.2]
    · rw [if_neg hij]
  | land => exact h.of_same rfl rfl rfl
  | expire key => exact h.of_same rfl rfl rfl

/-- The calls of a process, in order. -/
def callsOf (s : SaltSystem) (p : Nat) : List SaltCall := s.calls.filter fun c => c.process = p

/-- The clock of a process does not go back from one call to the next. -/
def Clocked (s : SaltSystem) (p : Nat) : Prop :=
  (s.callsOf p).Pairwise fun c d => c.now ≤ d.now

/-- The date of the last call is remembered, and calls of one date share their promise. -/
def Remembers (s : SaltSystem) (p : Nat) : Prop :=
  (∀ cs c, s.callsOf p = cs ++ [c] →
    (s.memo p).get (formatUtcDate c.now) = some c.promise) ∧
  ∀ c ∈ s.callsOf p, ∀ d ∈ s.callsOf p, formatUtcDate c.now = formatUtcDate d.now →
    c.promise = d.promise

theorem mem_callsOf {p : Nat} {c : SaltCall} :
    c ∈ s.callsOf p ↔ c ∈ s.calls ∧ c.process = p := by
  simp [callsOf]

theorem Remembers.of_same {p : Nat} (h : s.Remembers p) (hcalls : s'.callsOf p = s.callsOf p)
    (hmemo : s'.memo p = s.memo p) : s'.Remembers p := by
  unfold Remembers
  rw [hcalls, hmemo]
  exact h

/-- A date between two readings of one date is that date. -/
theorem formatUtcDate_between {t₁ t₂ t₃ : Int} (h₁₂ : t₁ ≤ t₂) (h₂₃ : t₂ ≤ t₃)
    (h : formatUtcDate t₁ = formatUtcDate t₃) : formatUtcDate t₂ = formatUtcDate t₃ := by
  rw [formatUtcDate_eq_iff] at h ⊢
  have h₁ : dayOfTime t₁ ≤ dayOfTime t₂ := Int.ediv_le_ediv (by decide) h₁₂
  have h₂ : dayOfTime t₂ ≤ dayOfTime t₃ := Int.ediv_le_ediv (by decide) h₂₃
  omega

theorem remembers_call {p process : Nat} {now : Int} (h : s.Remembers p)
    (hclock : (s.call errorType process now).Clocked p) :
    (s.call errorType process now).Remembers p := by
  obtain ⟨i, hcalls, hmemo, hother, hhit⟩ := memo_call errorType s process now
  by_cases hp : p = process
  · subst hp
    have hof : (s.call errorType p now).callsOf p = s.callsOf p ++ [⟨p, now, i⟩] := by
      rw [callsOf, hcalls, List.filter_append]
      simp [callsOf]
    unfold Clocked at hclock
    rw [hof, List.pairwise_append] at hclock
    obtain ⟨hsorted, -, hle⟩ := hclock
    -- an earlier call of the date shares the promise
    have hearlier (c : SaltCall) (hc : c ∈ s.callsOf p)
        (hdate : formatUtcDate c.now = formatUtcDate now) : c.promise = i := by
      obtain ⟨cs, last, hcs⟩ : ∃ cs last, s.callsOf p = cs ++ [last] :=
        ⟨_, _, (List.dropLast_append_getLast (List.ne_nil_of_mem hc)).symm⟩
      have hmem : last ∈ s.callsOf p := by rw [hcs]; simp
      have hclast : c.now ≤ last.now := by
        rw [hcs] at hc hsorted
        rcases List.mem_append.1 hc with hc | hc
        · exact (List.pairwise_append.1 hsorted).2.2 c hc last (List.mem_singleton_self _)
        · rw [List.mem_singleton.1 hc]
      have hlast : formatUtcDate last.now = formatUtcDate now :=
        formatUtcDate_between hclast (hle last hmem _ (List.mem_singleton_self _)) hdate
      have hremembered := h.1 cs last hcs
      rw [hlast] at hremembered
      rw [h.2 c hc last hmem (hdate.trans hlast.symm)]
      rcases hhit with hhit | ⟨hnone, -⟩
      · exact Option.some.inj (hremembered.symm.trans hhit)
      · rw [hremembered] at hnone
        cases hnone
    refine ⟨?_, ?_⟩
    · intro cs c hcs
      rw [hof] at hcs
      obtain ⟨-, hc⟩ := List.append_inj' hcs rfl
      cases hc
      exact hmemo
    · rw [hof]
      intro c hc d hd hdate
      rcases List.mem_append.1 hc with hc | hc <;> rcases List.mem_append.1 hd with hd | hd
      · exact h.2 c hc d hd hdate
      · obtain rfl := List.mem_singleton.1 hd
        exact hearlier c hc hdate
      · obtain rfl := List.mem_singleton.1 hc
        exact (hearlier d hd hdate.symm).symm
      · rw [List.mem_singleton.1 hc, List.mem_singleton.1 hd]
  · refine h.of_same ?_ (hother p hp)
    rw [callsOf, hcalls, List.filter_append]
    simp [callsOf, Ne.symm hp]

theorem clocked_of_step (hs : Step errorType s s') {p : Nat} (h : s'.Clocked p) :
    s.Clocked p := by
  have hprefix : s.callsOf p <+: s'.callsOf p := by
    cases hs with
    | call process now =>
      obtain ⟨i, hcalls, -⟩ := memo_call errorType s process now
      rw [callsOf, callsOf, hcalls, List.filter_append]
      exact List.prefix_append _ _
    | command hi hprog hc =>
      rw [callsOf, callsOf, hc.keeps.2.2.1]
    | land => exact List.prefix_rfl
    | expire key => exact List.prefix_rfl
  exact h.sublist hprefix.sublist

theorem remembers_step (hs : Step errorType s s') {p : Nat} (h : s.Remembers p)
    (hclock : s'.Clocked p) : s'.Remembers p := by
  cases hs with
  | call process now => exact remembers_call h hclock
  | command hi hprog hc =>
    obtain ⟨hmemo, -, hcalls, -⟩ := hc.keeps
    exact h.of_same (by rw [callsOf, callsOf, hcalls]) (congrFun hmemo p)
  | land => exact h.of_same rfl rfl
  | expire key => exact h.of_same rfl rfl

theorem linked_initial (redis : JsString → Option JsString) :
    Linked { initial with redis } where
  promise_of_call := by
    intro c hc
    exact absurd hc List.not_mem_nil
  call_of_memo := by
    intro p dateKey i hi
    cases hi
  call_of_promise := by
    intro i f hf
    cases hf

theorem remembers_initial (redis : JsString → Option JsString) (p : Nat) :
    Remembers { initial with redis } p := by
  constructor
  · intro cs c hcs
    exact absurd hcs.symm (List.append_ne_nil_of_right_ne_nil _ (List.cons_ne_nil _ _))
  · intro c hc
    exact absurd hc List.not_mem_nil

theorem remembers_reachable (hs : Reachable errorType s) (p : Nat) :
    s.Linked ∧ (s.Clocked p → s.Remembers p) := by
  obtain ⟨redis, hsteps⟩ := hs
  have hstep (s₁ s₂ : SaltSystem) (hs : Step errorType s₁ s₂)
      (h : s₁.Linked ∧ (s₁.Clocked p → s₁.Remembers p)) :
      s₂.Linked ∧ (s₂.Clocked p → s₂.Remembers p) :=
    ⟨linked_step hs h.1, fun hclock => remembers_step hs (h.2 (clocked_of_step hs hclock)) hclock⟩
  exact invariant_of_steps (I := fun s => s.Linked ∧ (s.Clocked p → s.Remembers p)) hstep hsteps
    ⟨linked_initial redis, fun _ => remembers_initial redis p⟩

/-! ## What stays -/

theorem Reachable.steps (h : Reachable errorType s)
    (hs : Relation.ReflTransGen (Step errorType) s s') : Reachable errorType s' := by
  obtain ⟨redis, h⟩ := h
  exact ⟨redis, h.trans hs⟩

theorem mem_calls_of_steps (hs : Relation.ReflTransGen (Step errorType) s s') {c : SaltCall}
    (hc : c ∈ s.calls) : c ∈ s'.calls := by
  induction hs with
  | refl => exact hc
  | @tail s₁ s₂ _ hstep ih =>
    cases hstep with
    | call process now =>
      obtain ⟨i, hcalls, -⟩ := memo_call errorType s₁ process now
      rw [hcalls]
      exact List.mem_append_left _ ih
    | command hi hprog hcommand => exact hcommand.keeps.2.2.1 ▸ ih
    | land => exact ih
    | expire key => exact ih

/-- A promise that has resolved stays as it is. -/
theorem resolved_of_steps (hs : Relation.ReflTransGen (Step errorType) s s') {i : Nat}
    {f : SaltPromise} {r : Except Thrown JsString} (hf : s.promises[i]? = some f)
    (hdone : f.prog = .done r) : s'.promises[i]? = some f := by
  induction hs with
  | refl => exact hf
  | @tail s₁ s₂ _ hstep ih =>
    cases hstep with
    | call process now =>
      unfold call
      dsimp only
      split
      · exact ih
      · exact List.getElem?_append_left (List.getElem?_eq_some_iff.1 ih).1 ▸ ih
    | @command _ j g op k r hj hprog hcommand =>
      dsimp only
      by_cases hij : j = i
      · subst hij
        obtain rfl : g = f := Option.some.inj (hj.symm.trans ih)
        rw [hprog] at hdone
        cases hdone
      · rw [List.getElem?_set_ne hij]
        exact ih
    | land => exact ih
    | expire key => exact ih

end SaltSystem

/-- **Theorem (`daily_salt_agreement`).** In every reachable state, promises of one date that read
their salt in one generation of its key resolve to the same salt; in a process whose clock does not
go back, the calls of one date return one promise, and its fetching, the only one of its date,
issues at most one `SET`; and no promise rejects. -/
theorem daily_salt_agreement (errorType : Thrown → JsString) (s : SaltSystem)
    (h : SaltSystem.Reachable errorType s) :
    (∀ f ∈ s.promises, ∀ g ∈ s.promises, formatUtcDate f.now = formatUtcDate g.now →
      ∀ n v v', f.got = some (n, v) → g.got = some (n, v') →
        v = v' ∧ f.prog = .done (.ok v) ∧ g.prog = .done (.ok v')) ∧
    (∀ p, s.Clocked p →
      (∀ c ∈ s.callsOf p, ∀ d ∈ s.callsOf p, formatUtcDate c.now = formatUtcDate d.now →
        c.promise = d.promise) ∧
      (∀ (i j : Nat) f g, s.promises[i]? = some f → s.promises[j]? = some g → f.process = p →
        g.process = p → formatUtcDate f.now = formatUtcDate g.now → i = j)) ∧
    (∀ c ∈ s.calls, ∃ f, s.promises[c.promise]? = some f ∧
      formatUtcDate f.now = formatUtcDate c.now) ∧
    ∀ f ∈ s.promises, f.issuedSets ≤ 1 ∧ ∀ e, f.prog ≠ .done (.error e) := by
  have hinv := SaltSystem.inv_reachable h
  refine ⟨?_, ?_, ?_, ?_⟩
  · intro f hf g hg hdate n v v' hv hv'
    have hresolved (f : SaltPromise) (hf : f ∈ s.promises) (v : JsString) (hv : f.got = some (n, v)) :
        f.prog = .done (.ok v) := by
      refine (hinv.fetching f hf).resolved ?_
      rw [← hinv.seen f hf, hv, Option.map_some]
    have hkey : saltKey f.now = saltKey g.now := congrArg (lit "salt:" ++ ·) hdate
    exact ⟨hinv.agree f hf g hg hkey n v v' hv hv', hresolved f hf v hv, hresolved g hg v' hv'⟩
  · intro p hclock
    obtain ⟨hlinked, hremembers⟩ := SaltSystem.remembers_reachable h p
    refine ⟨(hremembers hclock).2, ?_⟩
    intro i j f g hi hj hf hg hdate
    obtain ⟨c, hc, hcp, hcn, rfl⟩ := hlinked.call_of_promise i f hi
    obtain ⟨d, hd, hdp, hdn, rfl⟩ := hlinked.call_of_promise j g hj
    refine (hremembers hclock).2 c (SaltSystem.mem_callsOf.2 ⟨hc, hcp.trans hf⟩) d
      (SaltSystem.mem_callsOf.2 ⟨hd, hdp.trans hg⟩) ?_
    rw [hcn, hdn, hdate]
  · intro c hc
    obtain ⟨f, hf, -, hdate⟩ := (SaltSystem.remembers_reachable h 0).1.promise_of_call c hc
    exact ⟨f, hf, hdate⟩
  · intro f hf
    exact ⟨(hinv.fetching f hf).issuedSets_le, (hinv.fetching f hf).not_rejected⟩

/-- Two processes of one day. The second one's `SET` finds the salt of the first. -/
theorem daily_salt_agreement_two : ∃ s : SaltSystem,
    SaltSystem.Reachable (fun _ => lit "Error") s ∧
    s.promises.map (·.got) = [some (0, lit "a"), some (0, lit "a")] ∧
    ∀ f ∈ s.promises, ∀ g ∈ s.promises, formatUtcDate f.now = formatUtcDate g.now →
      ∀ n v v', f.got = some (n, v) → g.got = some (n, v') → v = v' := by
  have hrun := Relation.ReflTransGen.single
    (.call _ 0 0 : SaltSystem.Step (fun _ => lit "Error") .initial _)
  have hrun := hrun.tail (SaltSystem.Step.call _ 1 1)
  have hrun := hrun.tail (SaltSystem.Step.command (i := 0) rfl rfl (.randomBytes (lit "a")))
  have hrun := hrun.tail (SaltSystem.Step.command (i := 1) rfl rfl (.randomBytes (lit "b")))
  have hrun := hrun.tail (SaltSystem.Step.command (i := 0) rfl rfl (.set ..))
  have hrun := hrun.tail (SaltSystem.Step.command (i := 1) rfl rfl (.set ..))
  have hrun := hrun.tail (SaltSystem.Step.command (i := 0) rfl rfl (.get _))
  have hrun := hrun.tail (SaltSystem.Step.command (i := 1) rfl rfl (.get _))
  refine ⟨_, ⟨fun _ => none, hrun⟩, rfl, ?_⟩
  intro f hf g hg hdate n v v' hv hv'
  exact ((daily_salt_agreement _ _ ⟨fun _ => none, hrun⟩).1 f hf g hg hdate n v v' hv hv').1
end Posta
