import Posta.Api.RedirectProtocol
import Posta.Core.DailySaltRuns

/-!
# The day of the salt and the day of the event

A request reads the clock twice: `getDailySalt` reads it when it is called, and the payload when it
is built, after the salt has come. We run the request over a clock that does not go back, in a world
where the salts of all processes go on meanwhile.

**Theorem (`salt_day_iff`).** Of a payload that is enqueued with a visitor hash, the salt was the
one of the event's day if and only if the time from the one reading to the other is shorter than
what was left of the UTC day at the first.

**Counterexample (`salt_day_midnight`).** The salt is asked for one millisecond before midnight, and
the event occurs at midnight.
-/

namespace Posta.Api

open Js Interaction

/-! ## The clock and the salts around a request -/

/-- `calls`, `readings` and `digests` are those of the request itself. -/
structure CaptureWorld where
  clock : Int
  salts : SaltSystem
  calls : List SaltCall
  readings : List Int
  digests : List (JsString × JsString)

/-- Time passes, and the salts take steps. -/
structure Passes (errorType : Thrown → JsString) (w w' : CaptureWorld) : Prop where
  clock : w.clock ≤ w'.clock
  salts : Relation.ReflTransGen (SaltSystem.Step errorType) w.salts w'.salts

/-- `getDailySalt` answers what the promise of its call has resolved to. -/
def clockedExec (errorType : Thrown → JsString) (process : Nat) :
    (i : RedirectOp) → CaptureWorld → i.Response → CaptureWorld → Prop
  | .getDailySalt, w, r, w' => ∃ now call f,
      w.clock ≤ now ∧ now ≤ w'.clock ∧
      (w.salts.call errorType process now).calls = w.salts.calls ++ [call] ∧
      Relation.ReflTransGen (SaltSystem.Step errorType) (w.salts.call errorType process now)
        w'.salts ∧
      w'.salts.promises[call.promise]? = some f ∧ f.prog = Prog.done r ∧
      w' = { w with clock := w'.clock, salts := w'.salts, calls := w.calls ++ [call] }
  | .now, w, (t : Int), w' => Passes errorType w w' ∧
      w' = { w with clock := t, salts := w'.salts, readings := w.readings ++ [t] }
  | .sha256Hex material, w, .ok digest, w' => Passes errorType w w' ∧
      w' = { w with clock := w'.clock, salts := w'.salts
                    digests := w.digests ++ [(material, digest)] }
  | _, w, _, w' => Passes errorType w w' ∧ w' = { w with clock := w'.clock, salts := w'.salts }

/-- The salt of a call's promise went into the hash of the payload. -/
def HashedWith (req : CaptureRequest) (w : CaptureWorld) (payload : CapturePayload)
    (salt : JsString) : Prop :=
  ∃ ip material digest, readClientIp req.headers = some ip ∧
    hashMaterial ip (readSignals req).userAgent salt = .ok material ∧
    (material, digest) ∈ w.digests ∧
    payload.visitorHash = some (digest.take visitorHashLength)

/-- The salt that was hashed belongs to the UTC date of `occurredAt`. -/
def SaltDayIsEventDay (req : CaptureRequest) (w : CaptureWorld) (payload : CapturePayload) : Prop :=
  ∃ call f salt t, call ∈ w.calls ∧ w.salts.promises[call.promise]? = some f ∧
    f.prog = .done (.ok salt) ∧ HashedWith req w payload salt ∧
    t ∈ w.readings ∧ payload.occurredAt = isoText t ∧ formatUtcDate f.now = formatUtcDate t

/-! ## What a request keeps -/

/-- What a payload with a visitor hash goes back to: one call, and one reading after it. -/
def Datable (req : CaptureRequest) (w : CaptureWorld) (payload : CapturePayload) : Prop :=
  ∃ call f salt t, w.calls = [call] ∧ w.salts.promises[call.promise]? = some f ∧
    f.prog = .done (.ok salt) ∧ formatUtcDate f.now = formatUtcDate call.now ∧
    HashedWith req w payload salt ∧ w.readings = [t] ∧ payload.occurredAt = isoText t ∧
    call.now ≤ t

def datablePre (req : CaptureRequest) : RedirectOp → CaptureWorld → Prop
  | .enqueueCapture payload, w => payload.visitorHash ≠ none → Datable req w payload
  | _, _ => True

/-- A request on a process of its own clock. -/
def clocked (errorType : Thrown → JsString) (process : Nat) (req : CaptureRequest) :
    Interp RedirectOp RedirectOp.Response CaptureWorld where
  pre := datablePre req
  exec := clockedExec errorType process

/-- The operations that neither tell the time nor hash nor enqueue. -/
def RedirectOp.isTimeless : RedirectOp → Bool
  | .getDailySalt => false
  | .now => false
  | .sha256Hex _ => false
  | .enqueueCapture _ => false
  | _ => true

abbrev Timeless (i : RedirectOp) : Prop := i.isTimeless = true

theorem timeless_sendNotFound (slug : JsString) : Prog.Performs Timeless (sendNotFound slug) :=
  ⟨rfl, fun _ => ⟨rfl, fun _ => ⟨rfl, fun _ => ⟨rfl, fun _ => ⟨rfl, fun _ => ⟨rfl, fun _ =>
    ⟨rfl, fun _ => trivial⟩⟩⟩⟩⟩⟩⟩

theorem timeless_sendLinkRedirect (destination : JsString) :
    Prog.Performs Timeless (sendLinkRedirect destination) := by
  unfold sendLinkRedirect
  cases encodeDestinationForHeader destination with
  | none => trivial
  | some location => exact ⟨rfl, fun _ => ⟨rfl, fun _ => ⟨rfl, fun _ => ⟨rfl, fun _ => trivial⟩⟩⟩⟩

variable {deps : RedirectMiddleware} {handle slug : JsString}

theorem timeless_answer (link : CachedLink) : Prog.Performs Timeless (answer deps slug link) := by
  have hnotFound : Prog.Performs Timeless
      (sendNotFound slug >>= fun _ => pure false : RedirectFlow Bool) :=
    (timeless_sendNotFound slug).flow_bind fun _ => trivial
  unfold answer
  cases zDestination deps.acceptsUrl link.destination with
  | none => exact ⟨rfl, fun _ => ⟨rfl, fun _ => hnotFound⟩⟩
  | some destination =>
    refine (timeless_sendLinkRedirect destination).flow_bind fun redirected => ?_
    cases redirected with
    | true => trivial
    | false => exact hnotFound

theorem timeless_resolveTarget : Prog.Performs Timeless (resolveTarget deps handle slug) := by
  have hnotFound : Prog.Performs Timeless
      (sendNotFound slug >>= fun _ => pure none : RedirectFlow (Option (JsString × CachedLink))) :=
    (timeless_sendNotFound slug).flow_bind fun _ => trivial
  refine Prog.Performs.flow_tryCatch ⟨rfl, fun tenantId => ?_⟩ fun error => ⟨rfl, fun _ => hnotFound⟩
  rcases tenantId with error | - | tenantId
  · trivial
  · exact hnotFound
  · refine ⟨rfl, fun link => ?_⟩
    rcases link with error | - | link
    · trivial
    · exact hnotFound
    · trivial

theorem timeless_catchEnqueueFailure (payload : CapturePayload) :
    Prog.Performs Timeless (catchEnqueueFailure deps payload) := by
  refine Prog.Performs.flow_tryCatch ⟨rfl, fun settled => ?_⟩ fun error => ⟨rfl, fun _ => trivial⟩
  cases settled <;> trivial

variable {errorType : Thrown → JsString} {process : Nat} {req : CaptureRequest}
  {w w' : CaptureWorld} {i : RedirectOp} {r : i.Response}

theorem datablePre_of_timeless (hi : Timeless i) (w : CaptureWorld) : datablePre req i w := by
  cases i with
  | enqueueCapture payload => exact absurd hi Bool.false_ne_true
  | _ => trivial

/-- A timeless operation leaves the request's own record alone. -/
theorem clockedExec_of_timeless (hi : Timeless i) (h : clockedExec errorType process i w r w') :
    Passes errorType w w' ∧ w' = { w with clock := w'.clock, salts := w'.salts } := by
  cases i with
  | getDailySalt => exact absurd hi Bool.false_ne_true
  | now => exact absurd hi Bool.false_ne_true
  | sha256Hex material => exact absurd hi Bool.false_ne_true
  | _ => exact h

/-- The request has not asked for its salt. -/
structure Unsalted (errorType : Thrown → JsString) (w : CaptureWorld) : Prop where
  reachable : SaltSystem.Reachable errorType w.salts
  calls : w.calls = []
  readings : w.readings = []

/-- The request has got its salt from a call. -/
structure Salted (salt : JsString) (w : CaptureWorld) : Prop where
  salted : ∃ call f, w.calls = [call] ∧ w.salts.promises[call.promise]? = some f ∧
    f.prog = .done (.ok salt) ∧ formatUtcDate f.now = formatUtcDate call.now ∧ call.now ≤ w.clock
  readings : w.readings = []

theorem Unsalted.timeless (hi : Timeless i) (h : (clocked errorType process req).exec i w r w')
    (hw : Unsalted errorType w) : Unsalted errorType w' := by
  obtain ⟨hpasses, hw'⟩ := clockedExec_of_timeless hi h
  obtain ⟨redis, hreachable⟩ := hw.reachable
  rw [hw']
  exact ⟨⟨redis, hreachable.trans hpasses.salts⟩, hw.calls, hw.readings⟩

theorem salted_of_answer {salt : JsString} (hw : Unsalted errorType w)
    (h : clockedExec errorType process .getDailySalt w (.ok salt) w') : Salted salt w' := by
  obtain ⟨now, call, f, -, hnow, hcalls, hsteps, hf, hprog, hw'⟩ := h
  have hreachable : SaltSystem.Reachable errorType w'.salts :=
    (hw.reachable.steps (.single (.call _ process now))).steps hsteps
  have hmem : call ∈ w'.salts.calls :=
    SaltSystem.mem_calls_of_steps hsteps (by rw [hcalls]; simp)
  obtain ⟨g, hg, -, hdate⟩ :=
    (SaltSystem.remembers_reachable hreachable 0).1.promise_of_call call hmem
  obtain rfl : f = g := Option.some.inj (hf.symm.trans hg)
  have hcall : call.now = now := by
    obtain ⟨i, hi, -⟩ := SaltSystem.memo_call errorType w.salts process now
    rw [hi] at hcalls
    rw [← List.singleton_inj.1 (List.append_cancel_left hcalls)]
  rw [hw']
  refine ⟨⟨call, f, ?_, hf, hprog, hdate, hcall ▸ hnow⟩, hw.readings⟩
  show w.calls ++ [call] = [call]
  rw [hw.calls, List.nil_append]

theorem Salted.passes {salt : JsString} (h : Salted salt w) (hpasses : Passes errorType w w')
    (hcalls : w'.calls = w.calls) (hreadings : w'.readings = w.readings) : Salted salt w' := by
  obtain ⟨⟨call, f, hcall, hf, hprog, hdate, hnow⟩, hnone⟩ := h
  refine ⟨⟨call, f, hcalls.trans hcall, ?_, hprog, hdate, le_trans hnow hpasses.clock⟩,
    hreadings.trans hnone⟩
  exact SaltSystem.resolved_of_steps hpasses.salts hf hprog

/-- Whatever is left after the capture went wrong enqueues nothing. -/
theorem ensures_logged {α : Type} {R : Thrown → CaptureWorld → Prop} (message : JsString)
    (logMeta : LogMeta) (a : α) (w : CaptureWorld) :
    (clocked errorType process req).Ensures (fun _ _ => True) R
      (do
        Flow.perform (RedirectOp.logError message logMeta)
        pure a : RedirectFlow α) w :=
  ⟨trivial, fun _ _ _ => trivial⟩

/-- The visitor hash that is computed with the salt. -/
def HashFrom (req : CaptureRequest) (w : CaptureWorld) (salt : JsString)
    (visitorHash : Option JsString) : Prop :=
  ∀ hash, visitorHash = some hash → ∃ ip material digest, readClientIp req.headers = some ip ∧
    hashMaterial ip (readSignals req).userAgent salt = .ok material ∧
    (material, digest) ∈ w.digests ∧ hash = digest.take visitorHashLength

theorem ensures_computeVisitorHash_of_salted {salt ip : JsString} (hw : Salted salt w)
    (hip : readClientIp req.headers = some ip) :
    (clocked errorType process req).Ensures
      (fun hash w => Salted salt w ∧ HashFrom req w salt (some hash)) (fun _ _ => True)
      (computeVisitorHash ip (readSignals req).userAgent salt) w := by
  unfold computeVisitorHash
  cases hmaterial : hashMaterial ip (readSignals req).userAgent salt with
  | error error => trivial
  | ok material =>
    refine ⟨trivial, fun digest w' hexec => ?_⟩
    cases digest with
    | error error => trivial
    | ok digest =>
      obtain ⟨hpasses, hw'⟩ := hexec
      refine ⟨hw.passes hpasses (by rw [hw']) (by rw [hw']), ?_⟩
      intro hash hhash
      cases hhash
      refine ⟨ip, material, digest, hip, hmaterial, ?_, rfl⟩
      rw [hw']
      simp

theorem ensures_visitorHashOf_of_salted {salt : JsString} (hw : Salted salt w) :
    (clocked errorType process req).Ensures
      (fun visitorHash w => Salted salt w ∧ HashFrom req w salt visitorHash) (fun _ _ => True)
      (visitorHashOf (readClientIp req.headers) (readSignals req).userAgent salt) w := by
  unfold visitorHashOf
  split
  · refine ⟨hw, ?_⟩
    intro hash hhash
    cases hhash
  · next ip hip =>
    exact Interp.ensures_seq (ensures_computeVisitorHash_of_salted hw hip) fun _ _ h => h

theorem ensures_buildCapturePayload_of_salted {salt : JsString} {input : CapturePayloadInput}
    (hw : Salted salt w) (hhash : HashFrom req w salt input.visitorHash) :
    (clocked errorType process req).Ensures
      (fun payload w => payload.visitorHash ≠ none → Datable req w payload) (fun _ _ => True)
      (buildCapturePayload input) w := by
  refine ⟨trivial, fun eventId w₁ hexec => ?_⟩
  obtain ⟨hpasses, hw₁⟩ := hexec
  have hsalted : Salted salt w₁ := hw.passes hpasses (by rw [hw₁]) (by rw [hw₁])
  cases eventId with
  | error error => trivial
  | ok eventId =>
    refine ⟨trivial, fun (t : Int) w₂ hexec => ?_⟩
    obtain ⟨hpasses₂, hw₂⟩ := hexec
    obtain ⟨⟨call, f, hcall, hf, hprog, hdate, hnow⟩, hnone⟩ := hsalted
    intro hsome
    obtain ⟨hash, hsome⟩ := Option.ne_none_iff_exists'.1 hsome
    obtain ⟨ip, material, digest, hip, hmaterial, hdigest, rfl⟩ := hhash hash hsome
    have hclock : w₂.clock = t := by rw [hw₂]
    refine ⟨call, f, salt, t, ?_, SaltSystem.resolved_of_steps hpasses₂.salts hf hprog, hprog, hdate,
      ⟨ip, material, digest, hip, hmaterial, ?_, hsome⟩, ?_, rfl,
      le_trans hnow (hclock ▸ hpasses₂.clock)⟩
    · rw [hw₂]
      exact hcall
    · rw [hw₂, hw₁]
      exact hdigest
    · rw [hw₂]
      show w₁.readings ++ [t] = [t]
      rw [hnone, List.nil_append]

theorem ensures_capture_of_unsalted {tenantId : JsString} {link : CachedLink}
    (hw : Unsalted errorType w) :
    (clocked errorType process req).Ensures (fun _ _ => True) (fun _ _ => True)
      (capture deps req tenantId slug link) w := by
  have hlogged (error : Thrown) (w : CaptureWorld) : (clocked errorType process req).Ensures
      (fun _ _ => True) (fun _ _ => True) _ w :=
    ensures_logged
      (lit "Capture failed; the redirect already succeeded, no analytics for this request")
      [(lit "errorType", .str (deps.errorType error)), (lit "tenantId", .str tenantId),
        (lit "slug", .str slug)] (none : Option CapturePayload) w
  refine Interp.ensures_tryCatch ⟨trivial, fun network w₁ hexec => ?_⟩
  have hw₁ : Unsalted errorType w₁ := hw.timeless rfl hexec
  cases network with
  | error error => exact hlogged error w₁
  | ok network =>
    refine ⟨trivial, fun salt w₂ hexec => ?_⟩
    cases salt with
    | error error => exact hlogged error w₂
    | ok salt =>
      have hsalted := salted_of_answer hw₁ hexec
      refine Interp.ensures_seq (Interp.Ensures.mono (ensures_visitorHashOf_of_salted hsalted)
        (fun _ _ h => h) fun error w _ => hlogged error w) fun visitorHash w h => ?_
      refine Interp.ensures_seq (Interp.Ensures.mono
        (ensures_buildCapturePayload_of_salted h.1 h.2) (fun _ _ h => h)
        fun error w _ => hlogged error w) fun payload w h => ?_
      refine ⟨h, fun enqueued w _ => ?_⟩
      cases enqueued with
      | error error => exact hlogged error w
      | ok u => trivial

theorem ensures_of_timeless {α : Type} {x : RedirectFlow α} (hx : Prog.Performs Timeless x)
    (hw : Unsalted errorType w) :
    (clocked errorType process req).Ensures (fun _ => Unsalted errorType)
      (fun _ => Unsalted errorType) x w :=
  Interp.ensures_of_performs hx (fun _ w hi _ => datablePre_of_timeless hi w)
    (fun _ _ _ _ hi hexec hw => hw.timeless hi hexec) hw

theorem ensures_handleLinkTarget_of_unsalted (hw : Unsalted errorType w) :
    (clocked errorType process req).Ensures (fun _ _ => True) (fun _ _ => True)
      (handleLinkTarget deps handle slug req) w := by
  refine Interp.ensures_seq (Interp.Ensures.mono
    (ensures_of_timeless timeless_resolveTarget hw) (fun _ _ h => h) fun _ _ _ => trivial)
    fun resolved w hw => ?_
  rcases resolved with - | ⟨tenantId, link⟩
  · trivial
  · refine Interp.ensures_seq (Interp.Ensures.mono
      (ensures_of_timeless (timeless_answer link) hw) (fun _ _ h => h) fun _ _ _ => trivial)
      fun redirected w hw => ?_
    cases redirected with
    | true => exact ensures_capture_of_unsalted hw
    | false => trivial

theorem ensures_linkRequest_of_unsalted (hw : Unsalted errorType w) :
    (clocked errorType process req).Ensures (fun _ _ => True) (fun _ _ => True)
      (linkRequest deps handle slug req) w := by
  refine Interp.ensures_seq (Interp.ensures_tryCatch
    (Interp.Ensures.mono (ensures_handleLinkTarget_of_unsalted hw) (fun _ _ _ => trivial)
      fun error w _ => ensures_logged handlerRejectedMessage _ none w)) fun left w _ => ?_
  cases left with
  | none => trivial
  | some payload =>
    exact Interp.ensures_of_performs (P := fun _ => True)
      (timeless_catchEnqueueFailure payload)
      (fun _ w hi _ => datablePre_of_timeless hi w) (fun _ _ _ _ _ _ h => h) trivial

/-! ## Midnight -/

/-- A wait of less than what is left of the day ends on the day. -/
theorem dayOfTime_eq_iff {t t' : Int} (h : t ≤ t') :
    dayOfTime t = dayOfTime t' ↔ t % msPerDay + (t' - t) < msPerDay := by
  unfold dayOfTime msPerDay
  omega

theorem saltDayIsEventDay_iff {payload : CapturePayload} (h : Datable req w payload) :
    ∃ call t, w.calls = [call] ∧ w.readings = [t] ∧ call.now ≤ t ∧
      (SaltDayIsEventDay req w payload ↔ call.now % msPerDay + (t - call.now) < msPerDay) := by
  obtain ⟨call, f, salt, t, hcall, hf, hprog, hdate, hhashed, hreading, hoccurred, hle⟩ := h
  refine ⟨call, t, hcall, hreading, hle, ?_⟩
  rw [← dayOfTime_eq_iff hle, ← formatUtcDate_eq_iff, ← hdate]
  constructor
  · rintro ⟨call', f', salt', t', hcall', hf', -, -, ht', -, hsame⟩
    rw [hcall, List.mem_singleton] at hcall'
    rw [hreading, List.mem_singleton] at ht'
    subst hcall' ht'
    obtain rfl : f = f' := Option.some.inj (hf.symm.trans hf')
    exact hsame
  · intro hsame
    exact ⟨call, f, salt, t, by simp [hcall], hf, hprog, hhashed, by simp [hreading], hoccurred,
      hsame⟩

/-- **Theorem (`salt_day_iff`).** When a payload with a visitor hash is enqueued, `getDailySalt` was
called once and the clock read once after that, and the salt is of the event's day if and only if
the time between was shorter than the rest of the day of the call. -/
theorem salt_day_iff (deps : RedirectMiddleware) (process : Nat) (handle slug : JsString)
    (req : CaptureRequest) (w₀ w : CaptureWorld) (h : List RedirectEvent) (payload : CapturePayload)
    (k : Except Thrown Unit → RedirectFlow Unit)
    (hsalts : SaltSystem.Reachable deps.errorType w₀.salts) (hcalls : w₀.calls = [])
    (hreadings : w₀.readings = [])
    (hr : (clocked deps.errorType process req).Execs (linkRequest deps handle slug req) w₀ h
      (.call (.enqueueCapture payload) k) w)
    (hhash : payload.visitorHash ≠ none) :
    ∃ call t, w.calls = [call] ∧ w.readings = [t] ∧ call.now ≤ t ∧
      (SaltDayIsEventDay req w payload ↔ call.now % msPerDay + (t - call.now) < msPerDay) := by
  have hwp := hr.wp (ensures_linkRequest_of_unsalted ⟨hsalts, hcalls, hreadings⟩)
  exact saltDayIsEventDay_iff (hwp.1 hhash)

/-! ## A click at midnight -/

/-- A timeless operation may take no time. -/
theorem exec_timeless (i : RedirectOp) (hi : Timeless i) (r : i.Response) :
    (clocked errorType process req).exec i w r w := by
  cases i with
  | getDailySalt => exact absurd hi Bool.false_ne_true
  | now => exact absurd hi Bool.false_ne_true
  | sha256Hex material => exact absurd hi Bool.false_ne_true
  | _ => exact ⟨⟨le_rfl, .refl⟩, rfl⟩

theorem exec_sha256Hex (material digest : JsString) :
    (clocked errorType process req).exec (.sha256Hex material) w (.ok digest)
      { w with digests := w.digests ++ [(material, digest)] } :=
  ⟨⟨le_rfl, .refl⟩, rfl⟩

theorem exec_now {t : Int} (h : w.clock ≤ t) :
    (clocked errorType process req).exec .now w t
      { w with clock := t, readings := w.readings ++ [t] } :=
  ⟨⟨h, .refl⟩, rfl⟩

def clickRequest : CaptureRequest where
  method := some (lit "GET")
  headers name := if name = lit "cf-connecting-ip" then some (.text (lit "203.0.113.7")) else none

def promoLink : CachedLink := ⟨lit "l1", lit "t1", lit "https://example.com"⟩

theorem execs_resolveTarget (errorType : Thrown → JsString) (process : Nat) (req : CaptureRequest)
    (w : CaptureWorld) : ∃ h, (clocked errorType process req).Execs
    (resolveTarget promoMiddleware (lit "ann") (lit "promo")) w h
    (.done (.ok (some (lit "t1", promoLink)))) w :=
  ⟨_, .cons (exec_timeless (.resolveTenant _) rfl (.ok (some (lit "t1"))))
    (.cons (exec_timeless (.resolveLink _ _) rfl (.ok (some promoLink))) (.nil _ _))⟩

theorem execs_answer (errorType : Thrown → JsString) (process : Nat) (req : CaptureRequest)
    (w : CaptureWorld) : ∃ h, (clocked errorType process req).Execs
    (answer promoMiddleware (lit "promo") promoLink) w h (.done (.ok true)) w := by
  have hvalid : zDestination promoMiddleware.acceptsUrl promoLink.destination =
      some promoLink.destination := by decide +kernel
  have hencoded : encodeDestinationForHeader promoLink.destination = some promoLink.destination := by
    decide +kernel
  rw [answer, hvalid]
  dsimp only
  rw [sendLinkRedirect, hencoded]
  exact ⟨_, .cons (exec_timeless (.set _ _) rfl ()) (.cons (exec_timeless (.set _ _) rfl ())
    (.cons (exec_timeless (.status _) rfl ())
      (.cons (exec_timeless (.endWith _) rfl ()) (.nil _ _))))⟩

/-- The salts of the day that ends at `86400000`, after a call one millisecond before. -/
theorem salts_beforeMidnight (errorType : Thrown → JsString) : ∃ salts : SaltSystem,
    Relation.ReflTransGen (SaltSystem.Step errorType) (SaltSystem.initial.call errorType 0 86399999)
      salts ∧ ∃ f, salts.promises[0]? = some f ∧ f.now = 86399999 ∧
        f.prog = .done (.ok (lit "a")) := by
  have hrun := Relation.ReflTransGen.single (r := SaltSystem.Step errorType)
    (a := SaltSystem.initial.call errorType 0 86399999)
    (.command (i := 0) rfl rfl (.randomBytes (lit "a")))
  have hrun := hrun.tail (SaltSystem.Step.command (i := 0) rfl rfl (.set ..))
  have hrun := hrun.tail (SaltSystem.Step.command (i := 0) rfl rfl (.get _))
  exact ⟨_, hrun, _, rfl, rfl, rfl⟩

def idle : CaptureWorld := ⟨0, .initial, [], [], []⟩

/-- A click captured with a salt of the last millisecond of a day, whose event occurs at `t`. -/
theorem execs_capture (t : Int) (ht : 86399999 ≤ t) : ∃ w h payload k,
    (clocked promoMiddleware.errorType 0 clickRequest).Execs
      (capture promoMiddleware clickRequest (lit "t1") (lit "promo") promoLink) idle h
      (.call (.enqueueCapture payload) k) w ∧
    payload.visitorHash ≠ none ∧ w.calls = [⟨0, 86399999, 0⟩] ∧ w.readings = [t] := by
  obtain ⟨salts, hsalts, f, hf, -, hprog⟩ := salts_beforeMidnight promoMiddleware.errorType
  let w₁ : CaptureWorld := ⟨86399999, salts, [⟨0, 86399999, 0⟩], [], []⟩
  have hsalt : clockedExec promoMiddleware.errorType 0 .getDailySalt idle (.ok (lit "a")) w₁ :=
    ⟨86399999, ⟨0, 86399999, 0⟩, f, by decide, le_rfl, rfl, hsalts, hf, hprog, rfl⟩
  exact ⟨_, _, _, _, .cons (exec_timeless (.lookupNetwork _ _) rfl (.ok ⟨none, none⟩))
    (.cons hsalt (.cons (exec_sha256Hex _ (lit "b"))
      (.cons (exec_timeless .newId rfl (.ok (lit "01J00000000000000000000000")))
        (.cons (exec_now ht) (.nil _ _))))), by simp, rfl, rfl⟩

theorem execs_linkRequest (t : Int) (ht : 86399999 ≤ t) : ∃ w h payload k,
    (clocked promoMiddleware.errorType 0 clickRequest).Execs
      (linkRequest promoMiddleware (lit "ann") (lit "promo") clickRequest) idle h
      (.call (.enqueueCapture payload) k) w ∧
    payload.visitorHash ≠ none ∧ w.calls = [⟨0, 86399999, 0⟩] ∧ w.readings = [t] := by
  obtain ⟨h₁, hresolve⟩ := execs_resolveTarget promoMiddleware.errorType 0 clickRequest idle
  obtain ⟨h₂, hanswer⟩ := execs_answer promoMiddleware.errorType 0 clickRequest idle
  obtain ⟨w, h₃, payload, k, hcapture, hpayload⟩ := execs_capture t ht
  have hhandle : (clocked promoMiddleware.errorType 0 clickRequest).Execs
      (handleLinkTarget promoMiddleware (lit "ann") (lit "promo") clickRequest) idle
      (h₁ ++ (h₂ ++ h₃)) (.call (.enqueueCapture payload) k) w :=
    hresolve.bind_ok (hanswer.bind_ok hcapture)
  have hlink : ∃ k, (clocked promoMiddleware.errorType 0 clickRequest).Execs
      (linkRequest promoMiddleware (lit "ann") (lit "promo") clickRequest) idle
      (h₁ ++ (h₂ ++ h₃)) (.call (.enqueueCapture payload) k) w :=
    ⟨_, (hhandle.bind_left (Flow.onError _)).bind_left (Flow.onOk _)⟩
  obtain ⟨k', hlink⟩ := hlink
  exact ⟨w, _, payload, k', hlink, hpayload⟩

/-- The salt is asked for in the last millisecond of a day, and the event occurs at midnight. -/
theorem salt_day_midnight : ∃ w h payload k,
    (clocked promoMiddleware.errorType 0 clickRequest).Execs
      (linkRequest promoMiddleware (lit "ann") (lit "promo") clickRequest) idle h
      (.call (.enqueueCapture payload) k) w ∧
    payload.visitorHash ≠ none ∧ ¬ SaltDayIsEventDay clickRequest w payload := by
  obtain ⟨w, h, payload, k, hr, hhash, hcalls, hreadings⟩ := execs_linkRequest 86400000 (by decide)
  refine ⟨w, h, payload, k, hr, hhash, ?_⟩
  have hwp := hr.wp (ensures_linkRequest_of_unsalted ⟨⟨fun _ => none, .refl⟩, rfl, rfl⟩)
  obtain ⟨call, t, hcall, ht, -, hiff⟩ := saltDayIsEventDay_iff (hwp.1 hhash)
  rw [hcalls] at hcall
  rw [hreadings] at ht
  cases hcall
  cases ht
  rw [hiff]
  decide

/-- The event of the same millisecond is of the salt's day. -/
theorem salt_day_iff_lastMillisecond : ∃ w h payload k,
    (clocked promoMiddleware.errorType 0 clickRequest).Execs
      (linkRequest promoMiddleware (lit "ann") (lit "promo") clickRequest) idle h
      (.call (.enqueueCapture payload) k) w ∧
    payload.visitorHash ≠ none ∧ SaltDayIsEventDay clickRequest w payload := by
  obtain ⟨w, h, payload, k, hr, hhash, hcalls, hreadings⟩ := execs_linkRequest 86399999 (by decide)
  refine ⟨w, h, payload, k, hr, hhash, ?_⟩
  obtain ⟨call, t, hcall, ht, -, hiff⟩ := salt_day_iff promoMiddleware 0 _ _ _ _ _ _ _ _
    ⟨fun _ => none, .refl⟩ rfl rfl hr hhash
  rw [hcalls] at hcall
  rw [hreadings] at ht
  cases hcall
  cases ht
  exact hiff.2 (by decide)

end Posta.Api
