import Posta.Api.ResolveLinkSoundness
import Mathlib.Logic.Function.Basic

/-!
# Invalidating a link

Any number of calls of `resolveLink` for one link share Redis and Postgres with a writer, who
commits a new row and then deletes the key. A `SETEX` of a call is applied whenever Redis gets to
it, also long after the call has answered.

**The system** (`LinkSystem`). Every state that Postgres commits has a version. A value in Redis, or
on its way, goes back to the version of the row it was made from. The fence is the version that the
last `invalidateLink` followed; a call remembers the fence it started behind.

**Theorem (`link_invalidation_final`).** In every run in which no `SETEX` lands that was made from a
row older than the fence, every call answers with a row of its fence's version or a later one.

**Counterexample (`link_invalidation_overtaken`).** A `SETEX` of a row that was read before the link
was archived lands after the `DEL`, and a call that starts later answers with the archived link.
-/

namespace Posta.Api

open Js Interaction Interp

/-- A value that was made from the row of a version. -/
structure CacheWrite where
  key : JsString
  value : JsString
  origin : Nat

/-- `fence` is that of the system when the call started, `read` the version its query read. -/
structure LinkCall where
  prog : LinkFlow (Option CachedLink × Option LinkWrite)
  past : List LinkEvent
  fence : Nat
  read : Nat

abbrev LinkRedis := JsString → Option CacheWrite

/-- `redis.del(linkKey(tenantId, slug))`. -/
def invalidateLink (redis : LinkRedis) (tenant slug : JsString) : LinkRedis :=
  Function.update redis (linkKey tenant slug) none

structure LinkSystem where
  version : Nat
  rows : Nat → Option CachedLink
  redis : LinkRedis
  late : List CacheWrite
  calls : List LinkCall
  fence : Nat

namespace LinkSystem

/-- What an operation may answer. -/
inductive Reply (s : LinkSystem) : (op : LinkOp) → op.Response → Prop
  | get (key : JsString) :
      Reply s (.get key) (.operation (.ok ((s.redis key).map CacheWrite.value)))
  | getFailed (key : JsString) (error : Thrown) : Reply s (.get key) (.operation (.error error))
  | getTimedOut (key : JsString) : Reply s (.get key) .timer
  | row (tenant slug : JsString) : Reply s (.resolveLinkBySlug tenant slug) (.ok (s.rows s.version))
  | queryFailed (tenant slug : JsString) (error : Thrown) :
      Reply s (.resolveLinkBySlug tenant slug) (.error error)
  | setex (key : JsString) (seconds : Nat) (value : JsString) (r : Except Thrown Unit) :
      Reply s (.setex key seconds value) r
  | setexSettled (key : JsString) (seconds : Nat) (value : JsString) (r : Except Thrown Unit) :
      Reply s (.setexSettled key seconds value) r
  | warn (message : JsString) (logMeta : LogMeta) : Reply s (.warn message logMeta) ()

/-- The version a call has read, after one more operation. -/
def readAfter (s : LinkSystem) (c : LinkCall) : LinkOp → Nat
  | .resolveLinkBySlug .. => s.version
  | _ => c.read

/-- The write that an operation sends. -/
def sent (c : LinkCall) : LinkEvent → List CacheWrite
  | ⟨.setex key _ value, .ok ()⟩ => [⟨key, value, c.read⟩]
  | _ => []

inductive Move where
  | commit (row : Option CachedLink)
  | invalidate
  | expire (key : JsString)
  | land (write : CacheWrite)
  | start
  | operate (i : Nat) (e : LinkEvent)

section

variable (deps : ResolveLinkDeps) (tenant slug : JsString)

inductive Step : Move → LinkSystem → LinkSystem → Prop
  | commit (s : LinkSystem) (row : Option CachedLink) :
      Step (.commit row) s
        { s with version := s.version + 1, rows := Function.update s.rows (s.version + 1) row }
  /-- `invalidateLink` completes. -/
  | invalidate (s : LinkSystem) :
      Step .invalidate s
        { s with redis := invalidateLink s.redis tenant slug, fence := s.version }
  | expire (s : LinkSystem) (key : JsString) :
      Step (.expire key) s { s with redis := Function.update s.redis key none }
  | land {s : LinkSystem} {w : CacheWrite} : w ∈ s.late →
      Step (.land w) s { s with redis := Function.update s.redis w.key (some w) }
  | start (s : LinkSystem) :
      Step .start s
        { s with calls := s.calls ++ [⟨resolveLink deps tenant slug, [], s.fence, 0⟩] }
  | operate {s : LinkSystem} {i : Nat} {c : LinkCall} {op : LinkOp}
      {k : op.Response → LinkFlow (Option CachedLink × Option LinkWrite)} {r : op.Response} :
      s.calls[i]? = some c → c.prog = .call op k → s.Reply op r →
      Step (.operate i ⟨op, r⟩) s
        { s with
          late := s.late ++ sent c ⟨op, r⟩
          calls := s.calls.set i
            { c with prog := k r, past := c.past ++ [⟨op, r⟩], read := s.readAfter c op } }

end

/-- A `SETEX` lands only if the row it was made from is not older than the fence. -/
def Timely (s : LinkSystem) : Move → Prop
  | .land w => s.fence ≤ w.origin
  | _ => True

def initial (row : Option CachedLink) : LinkSystem where
  version := 0
  rows _ := row
  redis _ := none
  late := []
  calls := []
  fence := 0

/-- The answer for a row: the row, or the link as the cache holds it. -/
def Shows (acceptsUrl : JsString → Bool) (row answer : Option CachedLink) : Prop :=
  answer = row ∨ ∃ link valid, row = some link ∧
    CachedLinkSchema.safeParse acceptsUrl link.toJson = some valid ∧ answer = some valid

/-- Every call answers with a row that is not older than the fence it started behind. -/
def Final (acceptsUrl : JsString → Bool) (s : LinkSystem) : Prop :=
  ∀ c ∈ s.calls, ∀ answer left, c.prog = .done (.ok (answer, left)) →
    ∃ n, c.fence ≤ n ∧ n ≤ s.version ∧ Shows acceptsUrl (s.rows n) answer

/-! ## The invariant -/

/-- What a lookup found goes back to a row. -/
def Found (acceptsUrl : JsString → Bool) (row : Option CachedLink) : LinkLookupResult → Prop
  | .hit link => Shows acceptsUrl row (some link)
  | .knownAbsent => Shows acceptsUrl row none
  | .miss => True

variable {deps : ResolveLinkDeps} {tenant slug : JsString} {s s' : LinkSystem}

/-- A value goes back to the row of its origin. -/
structure Dates (deps : ResolveLinkDeps) (s : LinkSystem) (w : CacheWrite) : Prop where
  origin_le : w.origin ≤ s.version
  found : Found deps.acceptsUrl (s.rows w.origin)
    (cachedAnswer deps.acceptsUrl (.operation (.ok (some w.value))))

structure CallInv (deps : ResolveLinkDeps) (tenant slug : JsString) (s : LinkSystem)
    (c : LinkCall) : Prop where
  runs : Runs (resolveLink deps tenant slug) c.past c.prog
  fence_le : c.fence ≤ s.fence
  looked : ∀ a, (linkExchange deps.acceptsUrl c.past).looked = some a →
    ∃ n, c.fence ≤ n ∧ n ≤ s.version ∧ Found deps.acceptsUrl (s.rows n) a
  row : ∀ row, (linkExchange deps.acceptsUrl c.past).row = some (.ok row) →
    c.fence ≤ c.read ∧ c.read ≤ s.version ∧ row = s.rows c.read

structure Inv (deps : ResolveLinkDeps) (tenant slug : JsString) (s : LinkSystem) : Prop where
  fence_le : s.fence ≤ s.version
  cached : ∀ w, s.redis (linkKey tenant slug) = some w → s.fence ≤ w.origin ∧ Dates deps s w
  late : ∀ w ∈ s.late, Dates deps s w
  calls : ∀ c ∈ s.calls, CallInv deps tenant slug s c

/-- Versions and fences grow, and committed rows stay. -/
structure Grows (s s' : LinkSystem) : Prop where
  version : s.version ≤ s'.version
  fence : s.fence ≤ s'.fence
  rows : ∀ n ≤ s.version, s'.rows n = s.rows n

theorem Dates.grows {w : CacheWrite} (h : Dates deps s w) (hg : Grows s s') : Dates deps s' w :=
  ⟨h.origin_le.trans hg.version, by rw [hg.rows _ h.origin_le]; exact h.found⟩

theorem CallInv.grows {c : LinkCall} (h : CallInv deps tenant slug s c) (hg : Grows s s') :
    CallInv deps tenant slug s' c := by
  refine ⟨h.runs, h.fence_le.trans hg.fence, ?_, ?_⟩
  · intro a ha
    obtain ⟨n, hc, hn, hfound⟩ := h.looked a ha
    exact ⟨n, hc, hn.trans hg.version, by rw [hg.rows n hn]; exact hfound⟩
  · intro row hrow
    obtain ⟨hc, hread, rfl⟩ := h.row row hrow
    exact ⟨hc, hread.trans hg.version, (hg.rows _ hread).symm⟩

theorem Inv.commit (h : Inv deps tenant slug s) (row : Option CachedLink) :
    Inv deps tenant slug
      { s with version := s.version + 1, rows := Function.update s.rows (s.version + 1) row } := by
  have hg : Grows s
      { s with version := s.version + 1, rows := Function.update s.rows (s.version + 1) row } :=
    ⟨Nat.le_succ _, Nat.le_refl _,
      fun n hn => Function.update_of_ne (Nat.ne_of_lt (Nat.lt_succ_of_le hn)) _ _⟩
  refine ⟨h.fence_le.trans hg.version, ?_, ?_, ?_⟩
  · intro w hw
    exact ⟨(h.cached w hw).1, (h.cached w hw).2.grows hg⟩
  · intro w hw
    exact (h.late w hw).grows hg
  · intro c hc
    exact (h.calls c hc).grows hg

theorem Inv.invalidate (h : Inv deps tenant slug s) :
    Inv deps tenant slug
      { s with redis := invalidateLink s.redis tenant slug, fence := s.version } := by
  have hg : Grows s { s with redis := invalidateLink s.redis tenant slug, fence := s.version } :=
    ⟨Nat.le_refl _, h.fence_le, fun _ _ => rfl⟩
  refine ⟨Nat.le_refl _, ?_, ?_, ?_⟩
  · intro w hw
    have hnone : invalidateLink s.redis tenant slug (linkKey tenant slug) = none :=
      Function.update_self _ _ _
    exact absurd (hnone.symm.trans hw) (Option.some_ne_none w).symm
  · intro w hw
    exact (h.late w hw).grows hg
  · intro c hc
    exact (h.calls c hc).grows hg

/-- Whatever changes only Redis, and leaves a dated value in the key. -/
theorem Inv.redis (h : Inv deps tenant slug s) {redis : LinkRedis}
    (hcached : ∀ w, redis (linkKey tenant slug) = some w → s.fence ≤ w.origin ∧ Dates deps s w) :
    Inv deps tenant slug { s with redis } := by
  have hg : Grows s { s with redis } := ⟨Nat.le_refl _, Nat.le_refl _, fun _ _ => rfl⟩
  refine ⟨h.fence_le, ?_, ?_, ?_⟩
  · intro w hw
    exact ⟨(hcached w hw).1, (hcached w hw).2.grows hg⟩
  · intro w hw
    exact (h.late w hw).grows hg
  · intro c hc
    exact (h.calls c hc).grows hg

theorem Inv.expire (h : Inv deps tenant slug s) (key : JsString) :
    Inv deps tenant slug { s with redis := Function.update s.redis key none } := by
  refine h.redis ?_
  intro w hw
  by_cases hkey : linkKey tenant slug = key
  · subst hkey
    rw [Function.update_self] at hw
    cases hw
  · rw [Function.update_of_ne hkey] at hw
    exact h.cached w hw

theorem Inv.land (h : Inv deps tenant slug s) {w : CacheWrite} (hw : w ∈ s.late)
    (htimely : s.fence ≤ w.origin) :
    Inv deps tenant slug { s with redis := Function.update s.redis w.key (some w) } := by
  refine h.redis ?_
  intro w' hw'
  by_cases hkey : linkKey tenant slug = w.key
  · rw [hkey, Function.update_self] at hw'
    obtain rfl := Option.some.inj hw'
    exact ⟨htimely, h.late w hw⟩
  · rw [Function.update_of_ne hkey] at hw'
    exact h.cached w' hw'

/-- Whatever changes only the writes that are on their way and the calls. -/
theorem Inv.calls_late (h : Inv deps tenant slug s) {late : List CacheWrite} {calls : List LinkCall}
    (hlate : ∀ w ∈ late, Dates deps s w) (hcalls : ∀ c ∈ calls, CallInv deps tenant slug s c) :
    Inv deps tenant slug { s with late, calls } := by
  have hg : Grows s { s with late, calls } := ⟨Nat.le_refl _, Nat.le_refl _, fun _ _ => rfl⟩
  refine ⟨h.fence_le, ?_, ?_, ?_⟩
  · intro w hw
    exact ⟨(h.cached w hw).1, (h.cached w hw).2.grows hg⟩
  · intro w hw
    exact (hlate w hw).grows hg
  · intro c hc
    exact (hcalls c hc).grows hg

theorem Inv.start (h : Inv deps tenant slug s) :
    Inv deps tenant slug
      { s with calls := s.calls ++ [⟨resolveLink deps tenant slug, [], s.fence, 0⟩] } := by
  refine h.calls_late h.late ?_
  intro c hc
  rcases List.mem_append.1 hc with hc | hc
  · exact h.calls c hc
  · obtain rfl := List.mem_singleton.1 hc
    refine ⟨.nil _, Nat.le_refl _, ?_, ?_⟩
    · intro a ha
      cases ha
    · intro row hrow
      cases hrow

section Operate

variable {c : LinkCall} {op : LinkOp} {r : op.Response}
  {k : op.Response → LinkFlow (Option CachedLink × Option LinkWrite)}

theorem CallInv.permitted (hc : CallInv deps tenant slug s c) (hprog : c.prog = .call op k) :
    linkPermitted deps tenant slug op (linkExchange deps.acceptsUrl c.past) := by
  have hwp := (execs_monitor hc.runs).wp ensures_resolveLink
  rw [hprog] at hwp
  exact hwp.1

theorem linkExchange_append {acceptsUrl : JsString → Bool} (h : List LinkEvent) (e : LinkEvent) :
    linkExchange acceptsUrl (h ++ [e]) = (linkExchange acceptsUrl h).step acceptsUrl e := by
  simp [linkExchange]

/-- What a lookup of the key finds is not older than the fence. -/
theorem Inv.found (h : Inv deps tenant slug s) {race : Race (Option JsString)}
    (hr : s.Reply (.get (linkKey tenant slug)) race) :
    ∃ n, s.fence ≤ n ∧ n ≤ s.version ∧
      Found deps.acceptsUrl (s.rows n) (cachedAnswer deps.acceptsUrl race) := by
  have hmiss : ∃ n, s.fence ≤ n ∧ n ≤ s.version ∧ Found deps.acceptsUrl (s.rows n) .miss :=
    ⟨s.fence, Nat.le_refl _, h.fence_le, trivial⟩
  cases hr with
  | get key =>
    cases hw : s.redis (linkKey tenant slug) with
    | none => exact hmiss
    | some w =>
      obtain ⟨hfence, hdates⟩ := h.cached w hw
      exact ⟨w.origin, hfence, hdates.origin_le, hdates.found⟩
  | getFailed key error => exact hmiss
  | getTimedOut key => exact hmiss

theorem CallInv.operate (h : Inv deps tenant slug s) (hc : CallInv deps tenant slug s c)
    (hprog : c.prog = .call op k) (hr : s.Reply op r) :
    CallInv deps tenant slug s
      { c with prog := k r, past := c.past ++ [⟨op, r⟩], read := s.readAfter c op } := by
  have hpermitted := hc.permitted hprog
  refine ⟨?_, hc.fence_le, ?_, ?_⟩
  · have hruns := hc.runs
    rw [hprog] at hruns
    exact hruns.append (.cons (.nil _))
  · intro a ha
    rw [linkExchange_append] at ha
    cases op with
    | get key =>
      obtain ⟨rfl, -⟩ := hpermitted
      obtain ⟨n, hfence, hn, hfound⟩ := h.found hr
      cases ha
      exact ⟨n, hc.fence_le.trans hfence, hn, hfound⟩
    | _ => exact hc.looked a ha
  · intro row hrow
    rw [linkExchange_append] at hrow
    cases op with
    | resolveLinkBySlug t s' =>
      cases hrow
      cases hr
      exact ⟨hc.fence_le.trans h.fence_le, Nat.le_refl _, rfl⟩
    | _ => exact hc.row row hrow

/-- What a call sends goes back to the row that it read. -/
theorem CallInv.dates_sent (hc : CallInv deps tenant slug s c) (hprog : c.prog = .call op k)
    {w : CacheWrite} (hw : w ∈ sent c ⟨op, r⟩) : Dates deps s w := by
  have hpermitted := hc.permitted hprog
  cases op with
  | setex key seconds value =>
    rcases r with error | ⟨⟩
    · exact absurd hw List.not_mem_nil
    · obtain rfl := List.mem_singleton.1 hw
      obtain ⟨-, -, hwritten⟩ := hpermitted
      cases hrow : (linkExchange deps.acceptsUrl c.past).row with
      | none =>
        rw [hrow] at hwritten
        exact absurd hwritten id
      | some row =>
        rw [hrow] at hwritten
        rcases row with error | row
        · exact absurd hwritten id
        · obtain ⟨-, hread, rfl⟩ := hc.row row hrow
          refine ⟨hread, ?_⟩
          dsimp only
          cases hlink : s.rows c.read with
          | none =>
            rw [hlink] at hwritten
            rw [hwritten.2]
            exact .inl rfl
          | some link =>
            rw [hlink] at hwritten
            obtain ⟨valid, hvalid, -, rfl⟩ := hwritten
            rw [cachedAnswer_of_written hvalid]
            exact .inr ⟨link, valid, rfl, hvalid, rfl⟩
  | _ => exact absurd hw List.not_mem_nil

end Operate

theorem Inv.step {m : Move} (hs : Step deps tenant slug m s s') (htimely : s.Timely m)
    (h : Inv deps tenant slug s) : Inv deps tenant slug s' := by
  cases hs with
  | commit => exact h.commit _
  | invalidate => exact h.invalidate
  | expire => exact h.expire _
  | land hw => exact h.land hw htimely
  | start => exact h.start
  | @operate _ i c op k r hi hprog hr =>
    have hc := h.calls c (List.mem_of_getElem? hi)
    refine h.calls_late ?_ ?_
    · intro w hw
      rcases List.mem_append.1 hw with hw | hw
      · exact h.late w hw
      · exact hc.dates_sent hprog hw
    · intro d hd
      rcases List.mem_or_eq_of_mem_set hd with hd | rfl
      · exact h.calls d hd
      · exact hc.operate h hprog hr

theorem inv_initial (row : Option CachedLink) : Inv deps tenant slug (initial row) := by
  refine ⟨Nat.le_refl _, ?_, ?_, ?_⟩
  · intro w hw
    cases hw
  · intro w hw
    exact absurd hw List.not_mem_nil
  · intro c hc
    exact absurd hc List.not_mem_nil

theorem Inv.final (h : Inv deps tenant slug s) : s.Final deps.acceptsUrl := by
  intro c hc answer left hprog
  have hinv := h.calls c hc
  have hpost := (execs_monitor hinv.runs).wp ensures_resolveLink
  rw [hprog] at hpost
  have hanswers : (linkExchange deps.acceptsUrl c.past).Answers (.ok answer) := hpost.1
  unfold LinkExchange.Answers at hanswers
  cases hlooked : (linkExchange deps.acceptsUrl c.past).looked with
  | none =>
    rw [hlooked] at hanswers
    exact absurd hanswers id
  | some found =>
    rw [hlooked] at hanswers
    obtain ⟨n, hfence, hn, hfound⟩ := hinv.looked found hlooked
    cases found with
    | hit link =>
      obtain rfl := Except.ok.inj hanswers
      exact ⟨n, hfence, hn, hfound⟩
    | knownAbsent =>
      obtain rfl := Except.ok.inj hanswers
      exact ⟨n, hfence, hn, hfound⟩
    | miss =>
      obtain ⟨hread, hle, rfl⟩ := hinv.row answer hanswers
      exact ⟨c.read, hread, hle, .inl rfl⟩

end LinkSystem

/-- **Theorem (`link_invalidation_final`).** In every run whose `SETEX`s land only while the row
they were made from is not older than the fence, no call answers with a row from before the fence
that it started behind. -/
theorem link_invalidation_final (deps : ResolveLinkDeps) (tenant slug : JsString)
    (row : Option CachedLink) (s : LinkSystem)
    (hrun : Relation.ReflTransGen
      (fun s s' => ∃ m, LinkSystem.Step deps tenant slug m s s' ∧ s.Timely m) (.initial row) s) :
    s.Final deps.acceptsUrl := by
  have hinv : LinkSystem.Inv deps tenant slug s := by
    refine invariant_of_steps ?_ hrun (LinkSystem.inv_initial row)
    rintro s₁ s₂ ⟨m, hstep, htimely⟩ h
    exact h.step hstep htimely
  exact hinv.final

namespace LinkSystem

/-! ## A takedown that is overtaken -/

theorem runs_resolveLink_hit {race : Race (Option JsString)} {link : CachedLink}
    (h : cachedAnswer deps.acceptsUrl race = .hit link) :
    Runs (resolveLink deps tenant slug) [⟨.get (linkKey tenant slug), race⟩]
      (.done (.ok (some link, none))) := by
  have hlookup : Runs (lookupCachedLink deps tenant slug) _ _ :=
    runs_lookupCachedLink (hit_ne_miss h)
  rw [h] at hlookup
  exact hlookup.bind_ok (.nil _)

/-- A call that starts with a link in its key answers with it. -/
theorem step_hit {s : LinkSystem} {i : Nat} {c : LinkCall} {w : CacheWrite}
    {link : CachedLink}
    (hi : s.calls[i]? = some c) (hprog : c.prog = resolveLink deps tenant slug)
    (hw : s.redis (linkKey tenant slug) = some w)
    (hhit : cachedAnswer deps.acceptsUrl (.operation (.ok (some w.value))) = .hit link) :
    ∃ m past, Step deps tenant slug m s
      { s with
        late := s.late ++ []
        calls := s.calls.set i { c with prog := .done (.ok (some link, none)), past } } := by
  obtain ⟨k, hk⟩ : ∃ k, resolveLink deps tenant slug = .call (.get (linkKey tenant slug)) k :=
    ⟨_, rfl⟩
  have hrun : Runs (resolveLink deps tenant slug) _ _ := runs_resolveLink_hit hhit
  rw [hk] at hrun
  have hdone : k (.operation (.ok (some w.value))) = .done (.ok (some link, none)) := by
    cases hrun with
    | cons hrun => exact Runs.det (.nil _) hrun
  have hreply := Reply.get (s := s) (linkKey tenant slug)
  rw [hw] at hreply
  have hstep : Step deps tenant slug _ s _ := .operate hi (hprog.trans hk) hreply
  rw [Option.map_some, hdone] at hstep
  exact ⟨_, _, hstep⟩

def revokedLink : CachedLink := ⟨lit "l1", lit "t1", lit "https://a.example"⟩

theorem safeParse_revokedLink :
    CachedLinkSchema.safeParse anyUrlDeps.acceptsUrl revokedLink.toJson = some revokedLink := by
  refine CachedLinkSchema.safeParse_toJson_eq_some.2 ⟨?_, ?_, ?_, rfl, rfl⟩ <;> decide

def promoKey : JsString := linkKey (lit "t1") (lit "promo")

abbrev PromoStep (s s' : LinkSystem) : Prop :=
  ∃ m, Step anyUrlDeps (lit "t1") (lit "promo") m s s'

/-- The write of a row that was read before the link was archived. -/
def revokedWrite : CacheWrite := ⟨promoKey, stringify revokedLink.toJson, 0⟩

theorem cachedAnswer_revokedWrite :
    cachedAnswer anyUrlDeps.acceptsUrl (.operation (.ok (some revokedWrite.value))) =
      .hit revokedLink :=
  cachedAnswer_of_written safeParse_revokedLink

/-- A link is archived while a call is about to cache it. -/
theorem reaches_overtaken : ∃ s : LinkSystem,
    Relation.ReflTransGen PromoStep (.initial (some revokedLink)) s ∧ s.version = 1 ∧
    s.rows 1 = none ∧ s.redis promoKey = some revokedWrite ∧
    s.calls[1]? = some ⟨resolveLink anyUrlDeps (lit "t1") (lit "promo"), [], 1, 0⟩ := by
  have hrun := Relation.ReflTransGen.single (r := PromoStep)
    ⟨_, .start (.initial (some revokedLink))⟩
  have hrun := hrun.tail ⟨_, .operate (i := 0) rfl rfl (.get promoKey)⟩
  have hrun := hrun.tail ⟨_, .operate (i := 0) rfl rfl (.row (lit "t1") (lit "promo"))⟩
  have hrun := hrun.tail ⟨_, .operate (i := 0) rfl rfl
    (.setex promoKey 3600 revokedWrite.value (.ok ()))⟩
  have hrun := hrun.tail ⟨_, .commit _ none⟩
  have hrun := hrun.tail ⟨_, .invalidate _⟩
  have hrun := hrun.tail ⟨_, .land (w := revokedWrite) (List.mem_singleton_self _)⟩
  have hrun := hrun.tail ⟨_, .start _⟩
  exact ⟨_, hrun, rfl, rfl, rfl, rfl⟩

end LinkSystem

open LinkSystem in
/-- The link is archived, its key is deleted, and a call that starts then answers with the link. -/
theorem link_invalidation_overtaken : ∃ s : LinkSystem,
    Relation.ReflTransGen PromoStep (.initial (some revokedLink)) s ∧
    ¬ s.Final anyUrlDeps.acceptsUrl := by
  obtain ⟨s, hrun, hversion, hrow, hw, hi⟩ := reaches_overtaken
  obtain ⟨m, past, hstep⟩ := step_hit hi rfl hw cachedAnswer_revokedWrite
  refine ⟨_, hrun.tail ⟨m, hstep⟩, ?_⟩
  intro hfinal
  have hlt : 1 < s.calls.length := (List.getElem?_eq_some_iff.1 hi).1
  obtain ⟨n, hfence, hn, hshows⟩ := hfinal _ (List.mem_set hlt _) (some revokedLink) none rfl
  dsimp only at hfence hn hshows
  obtain rfl : n = 1 := by omega
  rw [hrow] at hshows
  rcases hshows with h | ⟨link, valid, h, -⟩ <;> cases h

open LinkSystem in
/-- A link is cached in time, archived, and its key deleted; the tombstone of the next call lands,
and the call after it answers from the tombstone. -/
theorem link_invalidation_final_archived : ∃ s : LinkSystem,
    Relation.ReflTransGen
      (fun s s' => ∃ m, Step anyUrlDeps (lit "t1") (lit "promo") m s s' ∧ s.Timely m)
      (.initial (some revokedLink)) s ∧
    (∃ c ∈ s.calls, c.fence = 1 ∧ c.past.length = 1 ∧ c.prog = .done (.ok (none, none))) ∧
    s.Final anyUrlDeps.acceptsUrl := by
  have hrun := Relation.ReflTransGen.single (a := LinkSystem.initial (some revokedLink))
    (r := fun s s' => ∃ m, Step anyUrlDeps (lit "t1") (lit "promo") m s s' ∧ s.Timely m)
    ⟨_, .start _, trivial⟩
  have hrun := hrun.tail ⟨_, .operate (i := 0) rfl rfl (.get promoKey), trivial⟩
  have hrun := hrun.tail ⟨_, .operate (i := 0) rfl rfl (.row (lit "t1") (lit "promo")), trivial⟩
  have hrun := hrun.tail
    ⟨_, .operate (i := 0) rfl rfl (.setex promoKey 3600 revokedWrite.value (.ok ())), trivial⟩
  have hrun := hrun.tail ⟨_, .land (w := revokedWrite) List.mem_cons_self, le_refl 0⟩
  have hrun := hrun.tail ⟨_, .commit _ none, trivial⟩
  have hrun := hrun.tail ⟨_, .invalidate _, trivial⟩
  have hrun := hrun.tail ⟨_, .start _, trivial⟩
  have hrun := hrun.tail ⟨_, .operate (i := 1) rfl rfl (.get promoKey), trivial⟩
  have hrun := hrun.tail ⟨_, .operate (i := 1) rfl rfl (.row (lit "t1") (lit "promo")), trivial⟩
  have hrun := hrun.tail
    ⟨_, .operate (i := 1) rfl rfl (.setex promoKey 60 linkTombstone (.ok ())), trivial⟩
  have hrun := hrun.tail
    ⟨_, .land (w := ⟨promoKey, linkTombstone, 1⟩) (List.mem_cons_of_mem _ List.mem_cons_self),
      le_refl 1⟩
  have hrun := hrun.tail ⟨_, .start _, trivial⟩
  have hrun := hrun.tail ⟨_, .operate (i := 2) rfl rfl (.get promoKey), trivial⟩
  refine ⟨_, hrun, ⟨_, List.mem_of_getElem? (i := 2) rfl, rfl, rfl, rfl⟩, ?_⟩
  exact link_invalidation_final _ _ _ _ _ hrun

end Posta.Api
