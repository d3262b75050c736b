import Posta.Api.ResolveLink
import Posta.Interaction.Sequential

/-!
# The cache of links does not lie

We watch a call through what its lookup amounts to (`cachedAnswer`) and what Postgres said.

**Theorem (`link_cache_sound`).** Whatever Redis and Postgres do: a tombstone is written only after
Postgres found no link for the tenant and slug; a call whose lookup failed, timed out, found nothing
or found no link it can read answers what Postgres says; one whose lookup found a link or a
tombstone does nothing else; a destination from the cache is valid; and what a backfill writes is
read back as the link Postgres gave, with its destination validated.
-/

namespace Posta.Api

open Js Interaction Interp

/-- What the value of a key amounts to. -/
def cachedAnswer (acceptsUrl : JsString → Bool) : Race (Option JsString) → LinkLookupResult
  | .operation (.ok raw) =>
    if raw = some linkTombstone then .knownAbsent
    else match parseCachedLink acceptsUrl raw with
      | some link => .hit link
      | none => .miss
  | _ => .miss

/-- What the operations of a call amount to. -/
structure LinkExchange where
  looked : Option LinkLookupResult := none
  row : Option (Except Thrown (Option CachedLink)) := none

def LinkExchange.step (acceptsUrl : JsString → Bool) (x : LinkExchange) : LinkEvent → LinkExchange
  | ⟨.get _, race⟩ => { x with looked := some (cachedAnswer acceptsUrl race) }
  | ⟨.resolveLinkBySlug .., row⟩ => { x with row := some row }
  | _ => x

def linkExchange (acceptsUrl : JsString → Bool) (h : List LinkEvent) : LinkExchange :=
  h.foldl (LinkExchange.step acceptsUrl) {}

/-- What is written for a row. -/
def WrittenFor (deps : ResolveLinkDeps) (seconds : Nat) (value : JsString) :
    Option (Except Thrown (Option CachedLink)) → Prop
  | some (.ok none) => seconds = linkTombstoneTtlSeconds ∧ value = linkTombstone
  | some (.ok (some link)) => ∃ valid,
      CachedLinkSchema.safeParse deps.acceptsUrl link.toJson = some valid ∧
      seconds = deps.cacheTtlSeconds ∧ value = stringify valid.toJson
  | _ => False

/-- The answer of a call, by its lookup and its row. -/
def LinkExchange.Answers (x : LinkExchange) (answer : Except Thrown (Option CachedLink)) : Prop :=
  match x.looked with
  | some (.hit link) => answer = .ok (some link)
  | some .knownAbsent => answer = .ok none
  | some .miss => x.row = some answer
  | none => False

/-- What a call may do when. -/
def linkPermitted (deps : ResolveLinkDeps) (tenant slug : JsString) : LinkOp → LinkExchange → Prop
  | .get key, x => key = linkKey tenant slug ∧ x.looked = none ∧ x.row = none
  | .resolveLinkBySlug t s, x => (t = tenant ∧ s = slug) ∧ x.looked = some .miss ∧ x.row = none
  | .setex key seconds value, x =>
      key = linkKey tenant slug ∧ x.looked = some .miss ∧ WrittenFor deps seconds value x.row
  | .setexSettled .., x => x.looked = some .miss
  | .warn .., x => x.looked = some .miss

abbrev linkWatched (deps : ResolveLinkDeps) (tenant slug : JsString) :
    Interp LinkOp LinkOp.Response LinkExchange :=
  Interp.monitor (linkPermitted deps tenant slug) (LinkExchange.step deps.acceptsUrl)

variable {deps : ResolveLinkDeps} {tenant slug : JsString} {x : LinkExchange}

theorem ensures_answerOfRaw {raw : Option JsString} (hrow : x.row = none)
    (hlooked : x.looked = some (cachedAnswer deps.acceptsUrl (.operation (.ok raw)))) :
    (linkWatched deps tenant slug).Ensures (fun result x => x.looked = some result ∧ x.row = none)
      (fun _ _ => False)
      (if raw = some linkTombstone then pure .knownAbsent
        else match parseCachedLink deps.acceptsUrl raw with
          | some link => pure (.hit link)
          | none => do
            if raw ≠ none then
              Flow.perform (LinkOp.warn
                (lit "Cached link payload failed to parse; treating as a miss.")
                [(lit "tenant", .str tenant), (lit "slug", .str slug)])
            pure .miss : LinkFlow LinkLookupResult) x := by
  dsimp only [cachedAnswer] at hlooked
  by_cases htombstone : raw = some linkTombstone
  · rw [if_pos htombstone] at hlooked ⊢
    exact ⟨hlooked, hrow⟩
  · rw [if_neg htombstone] at hlooked ⊢
    cases hparse : parseCachedLink deps.acceptsUrl raw with
    | some link =>
      rw [hparse] at hlooked
      exact ⟨hlooked, hrow⟩
    | none =>
      rw [hparse] at hlooked
      by_cases hraw : raw = none
      · subst hraw
        exact ⟨hlooked, hrow⟩
      · dsimp only
        rw [if_pos hraw]
        exact wp_monitor hlooked fun _ => ⟨hlooked, hrow⟩

theorem ensures_lookupCachedLink :
    (linkWatched deps tenant slug).Ensures (fun result x => x.looked = some result ∧ x.row = none)
      (fun _ _ => False) (lookupCachedLink deps tenant slug) {} := by
  refine ensures_bind (ensures_tryCatch (wp_monitor ⟨rfl, rfl, rfl⟩ fun race => ?_))
  rcases race with (error | raw) | -
  · exact wp_monitor rfl fun _ => ⟨rfl, rfl⟩
  · exact ensures_answerOfRaw rfl rfl
  · exact wp_monitor rfl fun _ => ⟨rfl, rfl⟩

/-- A write starts where it is permitted, and changes nothing about the exchange. -/
theorem ensures_startWrite {write : LinkWrite} (hkey : write.key = linkKey tenant slug)
    (hlooked : x.looked = some .miss) (hwritten : WrittenFor deps write.seconds write.value x.row) :
    (linkWatched deps tenant slug).Ensures (fun _ x' => x' = x) (fun _ _ => False)
      (startWrite deps tenant slug write) x := by
  refine ensures_tryCatch (wp_monitor ⟨hkey, hlooked, hwritten⟩ fun started => ?_)
  rcases started with error | -
  · exact wp_monitor hlooked fun _ => rfl
  · exact rfl

theorem ensures_backfillLinkCache {link : CachedLink} (hlooked : x.looked = some .miss)
    (hrow : x.row = some (.ok (some link))) :
    (linkWatched deps tenant slug).Ensures (fun _ x' => x' = x) (fun _ _ => False)
      (backfillLinkCache deps tenant slug link) x := by
  unfold backfillLinkCache
  split
  · exact wp_monitor hlooked fun _ => rfl
  · next valid hvalid =>
    refine ensures_startWrite rfl hlooked ?_
    rw [hrow]
    exact ⟨valid, hvalid, rfl, rfl⟩

theorem ensures_resolveLink :
    (linkWatched deps tenant slug).Ensures
      (fun r x => x.Answers (.ok r.1) ∧ (r.2 ≠ none → x.looked = some .miss))
      (fun error x => x.Answers (.error error)) (resolveLink deps tenant slug) {} := by
  refine ensures_seq (Ensures.mono ensures_lookupCachedLink (fun _ _ h => h) fun _ _ h => h.elim)
    fun cached x hx => ?_
  obtain ⟨hlooked, hrow⟩ := hx
  cases cached with
  | hit link => exact ⟨by rw [LinkExchange.Answers, hlooked], fun h => absurd rfl h⟩
  | knownAbsent => exact ⟨by rw [LinkExchange.Answers, hlooked], fun h => absurd rfl h⟩
  | miss =>
    refine wp_monitor ⟨⟨rfl, rfl⟩, hlooked, hrow⟩ fun row => ?_
    have hanswers (answer : Except Thrown (Option CachedLink)) :
        LinkExchange.Answers { x with row := some answer } answer := by
      rw [LinkExchange.Answers, hlooked]
    rcases row with error | - | link
    · exact hanswers _
    · refine ensures_seq (Ensures.mono (ensures_startWrite rfl hlooked ⟨rfl, rfl⟩)
        (fun _ _ h => h) fun _ _ h => h.elim) fun write x' hx' => ?_
      subst hx'
      exact ⟨hanswers _, fun _ => hlooked⟩
    · refine ensures_seq (Ensures.mono (ensures_backfillLinkCache hlooked rfl)
        (fun _ _ h => h) fun _ _ h => h.elim) fun write x' hx' => ?_
      subst hx'
      exact ⟨hanswers _, fun _ => hlooked⟩

theorem ensures_finishWrite {write : LinkWrite} (hlooked : x.looked = some .miss) :
    (linkWatched deps tenant slug).Ensures (fun _ x' => x' = x) (fun _ _ => False)
      (finishWrite deps tenant slug write) x := by
  refine ensures_tryCatch (wp_monitor hlooked fun settled => ?_)
  rcases settled with error | -
  · exact wp_monitor hlooked fun _ => rfl
  · exact rfl

theorem ensures_resolveLinkCall :
    (linkWatched deps tenant slug).Ensures (fun link x => x.Answers (.ok link))
      (fun error x => x.Answers (.error error)) (resolveLinkCall deps tenant slug) {} := by
  refine ensures_seq ensures_resolveLink ?_
  rintro ⟨link, write⟩ x ⟨hanswers, hlooked⟩
  cases write with
  | none => exact hanswers
  | some write =>
    refine ensures_seq (Ensures.mono (ensures_finishWrite (hlooked (Option.some_ne_none write)))
      (fun _ _ h => h) fun _ _ h => h.elim) fun _ x' hx' => ?_
    subst hx'
    exact hanswers

/-! ## Runs -/

/-- The row is what Postgres answered. -/
theorem exists_query_of_row {acceptsUrl : JsString → Bool} {h : List LinkEvent}
    {row : Except Thrown (Option CachedLink)}
    (hx : (h.foldl (LinkExchange.step acceptsUrl) x).row = some row)
    (hnone : x.row = none) : ∃ h₁ h₂ t s, h = h₁ ++ ⟨.resolveLinkBySlug t s, row⟩ :: h₂ := by
  induction h using List.reverseRecOn with
  | nil => rw [List.foldl_nil, hnone] at hx; cases hx
  | append_singleton h e ih =>
    rw [List.foldl_append] at hx
    obtain ⟨op, r⟩ := e
    cases op with
    | resolveLinkBySlug t s =>
      cases hx
      exact ⟨h, [], t, s, rfl⟩
    | _ =>
      obtain ⟨h₁, h₂, t, s, rfl⟩ := ih hx
      exact ⟨h₁, h₂ ++ [_], t, s, List.append_assoc _ _ _⟩

/-- A cached link's destination is valid. -/
theorem destination_of_cachedAnswer {acceptsUrl : JsString → Bool} {race : Race (Option JsString)}
    {link : CachedLink} (h : cachedAnswer acceptsUrl race = .hit link) :
    zDestination acceptsUrl link.destination = some link.destination := by
  unfold cachedAnswer at h
  split at h
  · next raw =>
    split_ifs at h
    split at h
    · next hparse =>
      cases h
      exact destination_of_parseCachedLink hparse
    · cases h
  · cases h

theorem stringify_toJson_ne_tombstone (link : CachedLink) :
    stringify link.toJson ≠ linkTombstone := by
  intro h
  have hhead := congrArg List.head? h
  cases hhead

theorem looked_of_permitted {i : LinkOp} (h : linkPermitted deps tenant slug i x) :
    x.looked = none ∨ x.looked = some .miss := by
  cases i with
  | get key => exact .inl h.2.1
  | resolveLinkBySlug t s => exact .inr h.2.1
  | setex key seconds value => exact .inr h.2.1
  | setexSettled key seconds value => exact .inr h
  | warn message logMeta => exact .inr h

section

variable {race : Race (Option JsString)} {α : Type} {p q : LinkFlow α}
  {Q : Except Thrown α → LinkExchange → Prop} {h : List LinkEvent}

/-- The row is what Postgres answered for the tenant and slug. -/
theorem query_of_row (hp : (linkWatched deps tenant slug).Wp Q p {}) (hr : Runs p h q)
    {row : Except Thrown (Option CachedLink)}
    (hrow : (linkExchange deps.acceptsUrl h).row = some row) :
    ⟨.resolveLinkBySlug tenant slug, row⟩ ∈ h := by
  obtain ⟨h₁, h₂, t, s, rfl⟩ := exists_query_of_row hrow rfl
  obtain ⟨⟨rfl, rfl⟩, -⟩ := pre_of_performed hp hr
  simp

/-- A lookup is made once. -/
theorem looked_step {result : LinkLookupResult} (x : LinkExchange) (i : LinkOp) (r : i.Response)
    (hi : linkPermitted deps tenant slug i x) (hx : x.looked = some result) :
    (x.step deps.acceptsUrl ⟨i, r⟩).looked = some result := by
  cases i with
  | get key =>
    rw [hi.2.1] at hx
    cases hx
  | _ => exact hx

theorem looked_of_runs (hp : (linkWatched deps tenant slug).Wp Q p {})
    (hr : Runs p (⟨.get (linkKey tenant slug), race⟩ :: h) q) :
    (linkExchange deps.acceptsUrl (⟨.get (linkKey tenant slug), race⟩ :: h)).looked =
      some (cachedAnswer deps.acceptsUrl race) := by
  cases hr with
  | cons hr =>
    have hwp := hp.2 race _ rfl
    have hlooked : (LinkExchange.step deps.acceptsUrl {}
        ⟨.get (linkKey tenant slug), race⟩).looked = some (cachedAnswer deps.acceptsUrl race) := rfl
    have hkept := monitor_invariant looked_step hwp hr hlooked
    exact hkept

/-- After a lookup that found something, nothing is done. -/
theorem finished_of_found (hp : (linkWatched deps tenant slug).Wp Q p {})
    (hr : Runs p (⟨.get (linkKey tenant slug), race⟩ :: h) q)
    (hfound : cachedAnswer deps.acceptsUrl race ≠ .miss) :
    h = [] ∧ ∃ r, q = .done r ∧ Q r { looked := some (cachedAnswer deps.acceptsUrl race) } := by
  have hnot {i : LinkOp} (hi : linkPermitted deps tenant slug i
      { looked := some (cachedAnswer deps.acceptsUrl race) }) : False := by
    rcases looked_of_permitted hi with hnone | hmiss
    · cases hnone
    · exact hfound (Option.some.inj hmiss)
  cases h with
  | cons e h =>
    have hnext : Runs p ([⟨.get (linkKey tenant slug), race⟩] ++ e :: h) q := hr
    exact (hnot (pre_of_performed hp hnext)).elim
  | nil =>
    refine ⟨rfl, ?_⟩
    have hq := (execs_monitor hr).wp hp
    cases q with
    | done r => exact ⟨r, rfl, hq⟩
    | call i k => exact (hnot hq.1).elim

end

theorem runs_lookupCachedLink {race : Race (Option JsString)}
    (hfound : cachedAnswer deps.acceptsUrl race ≠ .miss) :
    Runs (lookupCachedLink deps tenant slug) [⟨.get (linkKey tenant slug), race⟩]
      (.done (.ok (cachedAnswer deps.acceptsUrl race))) := by
  obtain ⟨q, hr⟩ : ∃ q, Runs (lookupCachedLink deps tenant slug)
      [⟨.get (linkKey tenant slug), race⟩] q := ⟨_, .cons (.nil _)⟩
  obtain ⟨-, r, rfl, hpost⟩ := finished_of_found ensures_lookupCachedLink hr hfound
  rcases r with error | result
  · exact absurd hpost id
  · rw [Option.some.inj hpost.1]
    exact hr

/-- What a backfill writes is read back. -/
theorem cachedAnswer_of_written {link valid : CachedLink}
    (h : CachedLinkSchema.safeParse deps.acceptsUrl link.toJson = some valid) :
    cachedAnswer deps.acceptsUrl (.operation (.ok (some (stringify valid.toJson)))) =
      .hit valid := by
  rw [cachedAnswer, if_neg fun h => stringify_toJson_ne_tombstone valid (Option.some.inj h),
    parseCachedLink_stringify h]

/-- Every value that is written goes back to a row. -/
theorem row_of_issued {h h₁ : List LinkEvent} {q : LinkFlow (Option CachedLink)}
    {key value : JsString} {seconds : Nat} (hr : Runs (resolveLinkCall deps tenant slug) h q)
    (hi : IssuedAt h q h₁ (.setex key seconds value)) :
    key = linkKey tenant slug ∧
      ((⟨.resolveLinkBySlug tenant slug, .ok none⟩ ∈ h₁ ∧ value = linkTombstone) ∨
        ∃ link valid, ⟨.resolveLinkBySlug tenant slug, .ok (some link)⟩ ∈ h₁ ∧
          CachedLinkSchema.safeParse deps.acceptsUrl link.toJson = some valid ∧
          value = stringify valid.toJson) := by
  obtain ⟨hkey, -, hfor⟩ := pre_of_issued ensures_resolveLinkCall hr hi
  obtain ⟨s, hs⟩ : ∃ s, Runs (resolveLinkCall deps tenant slug) h₁ s := by
    rcases hi with ⟨r, h₂, rfl⟩ | ⟨rfl, -⟩
    · obtain ⟨s, hs, -⟩ := hr.split
      exact ⟨s, hs⟩
    · exact ⟨q, hr⟩
  refine ⟨hkey, ?_⟩
  change WrittenFor deps seconds value (linkExchange deps.acceptsUrl h₁).row at hfor
  cases hrow : (linkExchange deps.acceptsUrl h₁).row with
  | none =>
    rw [hrow] at hfor
    exact absurd hfor id
  | some row =>
    have hmem := query_of_row ensures_resolveLinkCall hs hrow
    rw [hrow] at hfor
    rcases row with error | - | link
    · exact absurd hfor id
    · exact .inl ⟨hmem, hfor.2⟩
    · obtain ⟨valid, hvalid, -, hvalue⟩ := hfor
      exact .inr ⟨link, valid, hmem, hvalid, hvalue⟩

theorem hit_ne_miss {result : LinkLookupResult} {link : CachedLink} (h : result = .hit link) :
    result ≠ .miss := by
  rw [h]
  intro hmiss
  cases hmiss

/-- **Theorem (`link_cache_sound`).** In every run of a call: a tombstone is written only after
Postgres found no link; after a hit or a live tombstone nothing else is done, and a hit's
destination is valid; after any other lookup the answer is what Postgres said; and every other value
that is written goes back to a link of Postgres and is read back as a hit. -/
theorem link_cache_sound (deps : ResolveLinkDeps) (tenant slug : JsString) (h : List LinkEvent)
    (q : LinkFlow (Option CachedLink)) (hr : Runs (resolveLinkCall deps tenant slug) h q) :
    (∀ h₁ key seconds, IssuedAt h q h₁ (.setex key seconds linkTombstone) →
      key = linkKey tenant slug ∧ ⟨.resolveLinkBySlug tenant slug, .ok none⟩ ∈ h₁) ∧
    (∀ race h₂ link, h = ⟨.get (linkKey tenant slug), race⟩ :: h₂ →
      cachedAnswer deps.acceptsUrl race = .hit link →
      h₂ = [] ∧ q = .done (.ok (some link)) ∧
        zDestination deps.acceptsUrl link.destination = some link.destination) ∧
    (∀ race h₂, h = ⟨.get (linkKey tenant slug), race⟩ :: h₂ →
      cachedAnswer deps.acceptsUrl race = .knownAbsent → h₂ = [] ∧ q = .done (.ok none)) ∧
    (∀ h' r race h₂, Runs (resolveLink deps tenant slug) h' (.done r) →
      h' = ⟨.get (linkKey tenant slug), race⟩ :: h₂ → cachedAnswer deps.acceptsUrl race = .miss →
      ⟨.resolveLinkBySlug tenant slug, r.map Prod.fst⟩ ∈ h') ∧
    ∀ h₁ key seconds value, IssuedAt h q h₁ (.setex key seconds value) → value ≠ linkTombstone →
      ∃ link destination, ⟨.resolveLinkBySlug tenant slug, .ok (some link)⟩ ∈ h₁ ∧
        key = linkKey tenant slug ∧
        zDestination deps.acceptsUrl link.destination = some destination ∧
        Runs (lookupCachedLink deps tenant slug) [⟨.get key, .operation (.ok (some value))⟩]
          (.done (.ok (.hit ⟨link.linkId, link.tenantId, destination⟩))) := by
  have hp : (linkWatched deps tenant slug).Ensures (fun link x => x.Answers (.ok link))
      (fun error x => x.Answers (.error error)) (resolveLinkCall deps tenant slug) {} :=
    ensures_resolveLinkCall
  refine ⟨?_, ?_, ?_, ?_, ?_⟩
  · intro h₁ key seconds hi
    obtain ⟨hkey, ⟨hmem, -⟩ | ⟨link, valid, -, -, hvalue⟩⟩ := row_of_issued hr hi
    · exact ⟨hkey, hmem⟩
    · exact absurd hvalue.symm (stringify_toJson_ne_tombstone valid)
  · rintro race h₂ link rfl hhit
    obtain ⟨rfl, r, rfl, hpost⟩ := finished_of_found ensures_resolveLinkCall hr (hit_ne_miss hhit)
    rw [hhit] at hpost
    refine ⟨rfl, ?_, destination_of_cachedAnswer hhit⟩
    rcases r with error | answer <;> cases hpost
    rfl
  · rintro race h₂ rfl habsent
    have hfound : cachedAnswer deps.acceptsUrl race ≠ .miss := by
      rw [habsent]
      intro hmiss
      cases hmiss
    obtain ⟨rfl, r, rfl, hpost⟩ := finished_of_found ensures_resolveLinkCall hr hfound
    rw [habsent] at hpost
    refine ⟨rfl, ?_⟩
    rcases r with error | answer <;> cases hpost
    rfl
  · rintro h' r race h₂ hr' rfl hmiss
    have hpost := (execs_monitor hr').wp ensures_resolveLink
    have hlooked := looked_of_runs ensures_resolveLink hr'
    rw [hmiss] at hlooked
    have hrow : (linkExchange deps.acceptsUrl (⟨.get (linkKey tenant slug), race⟩ :: h₂)).row =
        some (r.map Prod.fst) := by
      have hanswers : (linkExchange deps.acceptsUrl
          (⟨.get (linkKey tenant slug), race⟩ :: h₂)).Answers (r.map Prod.fst) := by
        rcases r with error | r
        · exact hpost
        · exact hpost.1
      rw [LinkExchange.Answers, hlooked] at hanswers
      exact hanswers
    exact query_of_row ensures_resolveLink hr' hrow
  · intro h₁ key seconds value hi hvalue
    obtain ⟨hkey, ⟨-, htombstone⟩ | ⟨link, valid, hmem, hvalid, rfl⟩⟩ := row_of_issued hr hi
    · exact absurd htombstone hvalue
    · obtain ⟨-, -, hdestination, hid, htenant⟩ :=
        CachedLinkSchema.safeParse_toJson_eq_some.1 hvalid
      refine ⟨link, valid.destination, hmem, hkey, hdestination, ?_⟩
      have hhit := cachedAnswer_of_written hvalid
      have hlookup : Runs (lookupCachedLink deps tenant slug) _ _ :=
        runs_lookupCachedLink (hit_ne_miss hhit)
      rw [hhit] at hlookup
      rw [hkey, ← hid, ← htenant]
      exact hlookup

def anyUrlDeps : ResolveLinkDeps where
  platform := .plain
  acceptsUrl _ := true
  schemaError _ := .new (lit "ZodError")
  timeoutMs := .ofNat 50
  cacheTtlSeconds := 3600

/-- Neither the cache nor Postgres knows the link, and a tombstone is written. -/
theorem link_cache_sound_absent : ∃ h₁ h₂ : List LinkEvent,
    Runs (resolveLinkCall anyUrlDeps (lit "t1") (lit "promo"))
      (h₁ ++ ⟨.setex (linkKey (lit "t1") (lit "promo")) 60 linkTombstone, .ok ()⟩ :: h₂)
      (.done (.ok none)) ∧
    ⟨.resolveLinkBySlug (lit "t1") (lit "promo"), .ok none⟩ ∈ h₁ := by
  have hr : Runs (resolveLinkCall anyUrlDeps (lit "t1") (lit "promo"))
      ([⟨.get (linkKey (lit "t1") (lit "promo")), .operation (.ok none)⟩,
          ⟨.resolveLinkBySlug (lit "t1") (lit "promo"), .ok none⟩] ++
        [⟨.setex (linkKey (lit "t1") (lit "promo")) 60 linkTombstone, .ok ()⟩,
          ⟨.setexSettled (linkKey (lit "t1") (lit "promo")) 60 linkTombstone, .ok ()⟩])
      (.done (.ok none)) := .cons (.cons (.cons (.cons (.nil _))))
  exact ⟨_, _, hr, ((link_cache_sound _ _ _ _ _ hr).1 _ _ _ (.inl ⟨_, _, rfl⟩)).2⟩

end Posta.Api
