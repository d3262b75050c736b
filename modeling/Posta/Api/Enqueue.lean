import Posta.Contracts.Capture
import Posta.Interaction.Logic
import Posta.Js.Value
import Posta.Lists.Updates
import Mathlib.Logic.Relation

/-!
# Enqueueing under a bound

A call adds its payload to the queue while fewer than `maxInflight` additions are in flight, and is
counted as dropped otherwise. The promise of an addition settles at any time or never; behind it two
callbacks run, one after the other, and the second gives the place back.

**The state** (`EnqueueState`). The two counters, and what was added to the queue.

**The system** (`EnqueueSystem`). Of each call it also records the payload, the counter that the
call found, and what became of it; the code reads none of that.

**Theorem (`enqueue_accounting`).** In every reachable state the counter is the number of additions
that are not settled and of callbacks that are still to run, and not above the bound; a call either
adds once or counts one drop, and drops exactly where it finds the counter at the bound; and the
promise of a call settles with the outcome of its own addition.
-/

namespace Posta.Api

open Js

def captureJobName : JsString := lit "capture"

def defaultMaxInflightEnqueues : Nat := 1000

/-- How far `.then(() => undefined).finally(() => { inflight -= 1; })` has come. -/
inductive EnqueueChain where
  | waiting
  /-- `then` has passed on an outcome. -/
  | passed (r : Except Thrown Unit)
  /-- `finally` has run. -/
  | released (r : Except Thrown Unit)
  /-- The promise that was returned is settled. -/
  | returned (r : Except Thrown Unit)

/-- What a call returns: a promise that is resolved, or that of its addition. `outcome` is that of
the promise of `queue.add()`. -/
inductive EnqueueEffect where
  | dropped
  | added (outcome : Option (Except Thrown Unit)) (chain : EnqueueChain)

/-- `stood` is the counter as the call found it. -/
structure EnqueueCall where
  payload : CaptureEvent
  stood : Int
  effect : EnqueueEffect

structure EnqueueState where
  inflight : Int
  droppedCounter : Nat
  queue : List (JsString × CaptureEvent)

/-- `calls` are those that were made so far. -/
structure EnqueueSystem extends EnqueueState where
  calls : List EnqueueCall

namespace EnqueueCall

def isDropped (c : EnqueueCall) : Bool :=
  match c.effect with
  | .dropped => true
  | .added .. => false

/-- Its addition is not settled. -/
def unsettled (c : EnqueueCall) : Bool :=
  match c.effect with
  | .added none _ => true
  | _ => false

/-- Its addition is settled, and one of its two callbacks is still to run. -/
def callbackQueued (c : EnqueueCall) : Bool :=
  match c.effect with
  | .added (some _) .waiting => true
  | .added (some _) (.passed _) => true
  | _ => false

end EnqueueCall

/-- `deps.maxInflight ?? DEFAULT_MAX_INFLIGHT_ENQUEUES`. -/
def enqueueLimit (maxInflight : Option Nat) : Int := maxInflight.getD defaultMaxInflightEnqueues

namespace EnqueueState

/-- `createEnqueueCapture(deps)`. -/
def create : EnqueueState := ⟨0, 0, []⟩

def enqueueCapture (maxInflight : Option Nat) (s : EnqueueState) (payload : CaptureEvent) :
    EnqueueState × EnqueueEffect :=
  if enqueueLimit maxInflight ≤ s.inflight then
    ({ s with droppedCounter := s.droppedCounter + 1 }, .dropped)
  else
    ({ s with inflight := s.inflight + 1, queue := s.queue ++ [(captureJobName, payload)] },
      .added none .waiting)

end EnqueueState

namespace EnqueueSystem

def initial : EnqueueSystem := ⟨.create, []⟩

/-- A call is made, and recorded. -/
def call (maxInflight : Option Nat) (s : EnqueueSystem) (payload : CaptureEvent) :
    EnqueueSystem :=
  let after := s.toEnqueueState.enqueueCapture maxInflight payload
  ⟨after.1, s.calls ++ [⟨payload, s.inflight, after.2⟩]⟩

/-- A call goes on. -/
def withEffect (s : EnqueueSystem) (i : Nat) (c : EnqueueCall) (effect : EnqueueEffect) :
    EnqueueSystem :=
  { s with calls := s.calls.set i { c with effect } }

inductive Step (maxInflight : Option Nat) : EnqueueSystem → EnqueueSystem → Prop
  | call (s : EnqueueSystem) (payload : CaptureEvent) :
      Step maxInflight s (s.call maxInflight payload)
  /-- The promise of `queue.add()` settles. -/
  | settle {s : EnqueueSystem} {i : Nat} {c : EnqueueCall} (r : Except Thrown Unit) :
      s.calls[i]? = some c → c.effect = .added none .waiting →
      Step maxInflight s (s.withEffect i c (.added (some r) .waiting))
  /-- The callback of `then`, or the rejection that passes it. -/
  | pass {s : EnqueueSystem} {i : Nat} {c : EnqueueCall} {r : Except Thrown Unit} :
      s.calls[i]? = some c → c.effect = .added (some r) .waiting →
      Step maxInflight s (s.withEffect i c (.added (some r) (.passed r)))
  /-- The callback of `finally`. -/
  | release {s : EnqueueSystem} {i : Nat} {c : EnqueueCall} {outcome : Option (Except Thrown Unit)}
      {r : Except Thrown Unit} :
      s.calls[i]? = some c → c.effect = .added outcome (.passed r) →
      Step maxInflight s
        { s.withEffect i c (.added outcome (.released r)) with inflight := s.inflight - 1 }
  /-- The promise that was returned settles. -/
  | return {s : EnqueueSystem} {i : Nat} {c : EnqueueCall} {outcome : Option (Except Thrown Unit)}
      {r : Except Thrown Unit} :
      s.calls[i]? = some c → c.effect = .added outcome (.released r) →
      Step maxInflight s (s.withEffect i c (.added outcome (.returned r)))

def Reachable (maxInflight : Option Nat) (s : EnqueueSystem) : Prop :=
  Relation.ReflTransGen (Step maxInflight) .initial s

/-! ## The invariant -/

end EnqueueSystem

/-- What went through the callbacks is the outcome of the addition. -/
def EnqueueEffect.Own : EnqueueEffect → Prop
  | .dropped => True
  | .added _ .waiting => True
  | .added outcome (.passed r) => outcome = some r
  | .added outcome (.released r) => outcome = some r
  | .added outcome (.returned r) => outcome = some r

namespace EnqueueCall

/-- A call that counts as in flight. -/
def holdsPlace (c : EnqueueCall) : Bool := c.unsettled || c.callbackQueued

/-- What a call adds to the queue. -/
def addition (c : EnqueueCall) : List (JsString × CaptureEvent) :=
  if c.isDropped then [] else [(captureJobName, c.payload)]

end EnqueueCall

namespace EnqueueSystem

open Interaction Lists

structure Inv (maxInflight : Option Nat) (s : EnqueueSystem) : Prop where
  inflight : s.inflight = s.calls.countP EnqueueCall.holdsPlace
  le : s.inflight ≤ enqueueLimit maxInflight
  dropped : s.droppedCounter = s.calls.countP EnqueueCall.isDropped
  queue : s.queue = s.calls.flatMap EnqueueCall.addition
  stood : ∀ c ∈ s.calls, c.isDropped = true ↔ c.stood = enqueueLimit maxInflight
  own : ∀ c ∈ s.calls, c.effect.Own

variable {maxInflight : Option Nat} {s s' : EnqueueSystem} {i : Nat} {c : EnqueueCall}

theorem Inv.call (h : Inv maxInflight s) (payload : CaptureEvent) :
    Inv maxInflight (s.call maxInflight payload) := by
  unfold EnqueueSystem.call EnqueueState.enqueueCapture
  by_cases hfull : enqueueLimit maxInflight ≤ s.inflight
  · simp only [if_pos hfull]
    refine ⟨?_, h.le, ?_, ?_, ?_, ?_⟩
    · rw [List.countP_append]
      exact h.inflight
    · rw [List.countP_append, ← h.dropped]
      rfl
    · rw [List.flatMap_append, ← h.queue]
      exact (List.append_nil _).symm
    · intro c hc
      rcases List.mem_append.1 hc with hc | hc
      · exact h.stood c hc
      · obtain rfl := List.mem_singleton.1 hc
        exact iff_of_true rfl (le_antisymm h.le hfull)
    · intro c hc
      rcases List.mem_append.1 hc with hc | hc
      · exact h.own c hc
      · obtain rfl := List.mem_singleton.1 hc
        trivial
  · simp only [if_neg hfull]
    refine ⟨?_, ?_, ?_, ?_, ?_, ?_⟩
    · rw [List.countP_append, Nat.cast_add, ← h.inflight]
      rfl
    · exact Int.add_one_le_of_lt (lt_of_not_ge hfull)
    · rw [List.countP_append]
      exact h.dropped
    · rw [List.flatMap_append, ← h.queue]
      rfl
    · intro c hc
      rcases List.mem_append.1 hc with hc | hc
      · exact h.stood c hc
      · obtain rfl := List.mem_singleton.1 hc
        exact iff_of_false Bool.false_ne_true (ne_of_lt (lt_of_not_ge hfull))
    · intro c hc
      rcases List.mem_append.1 hc with hc | hc
      · exact h.own c hc
      · obtain rfl := List.mem_singleton.1 hc
        trivial

/-- A call that was not dropped goes on. -/
theorem Inv.withEffect (h : Inv maxInflight s) (hi : s.calls[i]? = some c)
    {outcome outcome' : Option (Except Thrown Unit)} {chain chain' : EnqueueChain}
    (hc : c.effect = .added outcome chain) (hown : (EnqueueEffect.added outcome' chain').Own)
    {inflight : Int}
    (hinflight : inflight =
      (s.withEffect i c (.added outcome' chain')).calls.countP EnqueueCall.holdsPlace)
    (hle : inflight ≤ s.inflight) :
    Inv maxInflight { s.withEffect i c (.added outcome' chain') with inflight } := by
  have hdropped : ({ c with effect := .added outcome' chain' } : EnqueueCall).isDropped =
      c.isDropped := by
    unfold EnqueueCall.isDropped
    rw [hc]
  have haddition : ({ c with effect := .added outcome' chain' } : EnqueueCall).addition =
      c.addition := by
    unfold EnqueueCall.addition
    rw [hdropped]
  have hmem := List.mem_of_getElem? hi
  refine ⟨hinflight, le_trans hle h.le, ?_, ?_, ?_, ?_⟩
  · exact h.dropped.trans (countP_set_of_eq hi hdropped).symm
  · exact h.queue.trans (flatMap_set_of_eq hi haddition).symm
  · intro d hd
    rcases List.mem_or_eq_of_mem_set hd with hd | rfl
    · exact h.stood d hd
    · rw [hdropped]
      exact h.stood c hmem
  · intro d hd
    rcases List.mem_or_eq_of_mem_set hd with hd | rfl
    · exact h.own d hd
    · exact hown

/-- A call that goes on and keeps its place, or has none. -/
theorem Inv.keep (h : Inv maxInflight s) (hi : s.calls[i]? = some c)
    {outcome outcome' : Option (Except Thrown Unit)} {chain chain' : EnqueueChain}
    (hc : c.effect = .added outcome chain) (hown : (EnqueueEffect.added outcome' chain').Own)
    (hplace : ({ c with effect := .added outcome' chain' } : EnqueueCall).holdsPlace =
      c.holdsPlace) :
    Inv maxInflight (s.withEffect i c (.added outcome' chain')) := by
  refine h.withEffect hi hc hown ?_ le_rfl
  exact h.inflight.trans (congrArg Nat.cast (countP_set_of_eq hi hplace).symm)

theorem holdsPlace_eq {effect : EnqueueEffect} (hc : c.effect = effect) :
    c.holdsPlace = ({ c with effect } : EnqueueCall).holdsPlace := by
  subst hc
  rfl

theorem Inv.step (h : Inv maxInflight s) (hs : Step maxInflight s s') : Inv maxInflight s' := by
  cases hs with
  | call payload => exact h.call payload
  | settle r hi hc => exact h.keep hi hc trivial (holdsPlace_eq hc).symm
  | pass hi hc => exact h.keep hi hc rfl (holdsPlace_eq hc).symm
  | @release i c outcome r hi hc =>
    have hown := h.own c (List.mem_of_getElem? hi)
    rw [hc] at hown
    obtain rfl : outcome = some r := hown
    have hcount := countP_set_of_not hi (holdsPlace_eq hc)
      (rfl : ({ c with effect := .added (some r) (.released r) } : EnqueueCall).holdsPlace = false)
    have hinflight := h.inflight
    have hown' : (EnqueueEffect.added (some r) (.released r)).Own := rfl
    refine h.withEffect hi hc hown' ?_ ?_
    · show s.inflight - 1 = ((s.calls.set i _).countP EnqueueCall.holdsPlace : Nat)
      omega
    · omega
  | @«return» i c outcome r hi hc =>
    have hown := h.own c (List.mem_of_getElem? hi)
    rw [hc] at hown
    obtain rfl : outcome = some r := hown
    exact h.keep hi hc rfl (holdsPlace_eq hc).symm

theorem inv_reachable (h : Reachable maxInflight s) : Inv maxInflight s := by
  refine invariant_of_steps (fun _ _ hs h => h.step hs) h ?_
  refine ⟨rfl, Int.natCast_nonneg _, rfl, rfl, ?_, ?_⟩
  · intro c hc
    cases hc
  · intro c hc
    cases hc

theorem unsettled_and_callbackQueued (c : EnqueueCall) :
    (c.unsettled && c.callbackQueued) = false := by
  obtain ⟨payload, stood, _ | ⟨_ | _, _⟩⟩ := c <;> simp [EnqueueCall.unsettled,
    EnqueueCall.callbackQueued]

theorem countP_holdsPlace (calls : List EnqueueCall) :
    calls.countP EnqueueCall.holdsPlace =
      calls.countP EnqueueCall.unsettled + calls.countP EnqueueCall.callbackQueued := by
  induction calls with
  | nil => rfl
  | cons c calls ih =>
    have hone := unsettled_and_callbackQueued c
    rw [List.countP_cons, List.countP_cons, List.countP_cons, ih]
    unfold EnqueueCall.holdsPlace
    cases hunsettled : c.unsettled with
    | false =>
      simp only [Bool.false_or, Bool.false_eq_true, if_false]
      omega
    | true =>
      rw [hunsettled, Bool.true_and] at hone
      simp only [Bool.true_or, if_true, hone, Bool.false_eq_true, if_false]
      omega

end EnqueueSystem

/-- **Theorem (`enqueue_accounting`).** For any bound and any interleaving of calls, settlements and
callbacks: the counter is the number of additions that are not settled and of additions whose
callbacks are still to run, and not above the bound. The next call counts one drop where the counter
is at the bound, and adds its payload otherwise; so what was added and what was counted as dropped
are the calls that were added and that were dropped, each exactly where it found the counter so. A
promise that was returned settles with the outcome of its addition. -/
theorem enqueue_accounting (maxInflight : Option Nat) (s : EnqueueSystem)
    (h : EnqueueSystem.Reachable maxInflight s) :
    s.inflight = s.calls.countP EnqueueCall.unsettled + s.calls.countP EnqueueCall.callbackQueued ∧
    s.inflight ≤ enqueueLimit maxInflight ∧
    (∀ payload, s.inflight = enqueueLimit maxInflight ∧
        (s.enqueueCapture maxInflight payload).1 = ⟨s.inflight, s.droppedCounter + 1, s.queue⟩ ∨
      s.inflight < enqueueLimit maxInflight ∧
        (s.enqueueCapture maxInflight payload).1 =
          ⟨s.inflight + 1, s.droppedCounter, s.queue ++ [(captureJobName, payload)]⟩) ∧
    s.queue = s.calls.flatMap EnqueueCall.addition ∧
    s.droppedCounter = s.calls.countP EnqueueCall.isDropped ∧
    (∀ c ∈ s.calls, c.isDropped = true ↔ c.stood = enqueueLimit maxInflight) ∧
    ∀ c ∈ s.calls, ∀ outcome r, c.effect = .added outcome (.returned r) → outcome = some r := by
  have hinv := EnqueueSystem.inv_reachable h
  refine ⟨?_, hinv.le, fun payload => ?_, hinv.queue, hinv.dropped, hinv.stood, ?_⟩
  · rw [hinv.inflight, EnqueueSystem.countP_holdsPlace]
    exact Nat.cast_add _ _
  · unfold EnqueueState.enqueueCapture
    by_cases hfull : enqueueLimit maxInflight ≤ s.inflight
    · rw [if_pos hfull]
      exact .inl ⟨le_antisymm hinv.le hfull, rfl⟩
    · rw [if_neg hfull]
      exact .inr ⟨lt_of_not_ge hfull, rfl⟩
  · intro c hc outcome r heffect
    have hown := hinv.own c hc
    rw [heffect] at hown
    exact hown

open EnqueueSystem in
/-- One place: a second call is dropped while the first is in flight. -/
theorem enqueue_accounting_second : ∃ s : EnqueueSystem, Reachable (some 1) s ∧
    s.queue.length = 1 ∧ s.inflight = 0 ∧ s.droppedCounter = s.calls.countP EnqueueCall.isDropped ∧
      s.droppedCounter = 1 := by
  have hrun := Relation.ReflTransGen.single (r := Step (some 1)) (.call .initial (.plain (lit "q")))
  have hrun := hrun.tail (.call _ (.plain (lit "q")))
  have hrun := hrun.tail (.settle (i := 0) (.ok ()) rfl rfl)
  have hrun := hrun.tail (.pass (i := 0) rfl rfl)
  have hrun := hrun.tail (.release (i := 0) rfl rfl)
  have hrun := hrun.tail (.return (i := 0) rfl rfl)
  exact ⟨_, hrun, rfl, rfl, (enqueue_accounting (some 1) _ hrun).2.2.2.2.1, rfl⟩

end Posta.Api
