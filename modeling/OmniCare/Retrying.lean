import OmniCare.PyText
import OmniCare.Runs
import Mathlib.Data.Rat.Floor
import Mathlib.Data.NNRat.Defs

/-! # Retrying behind a circuit breaker

`RetryPolicy`, `CircuitBreaker` and `call_with_retry` of `libs/resilience/policy.py`: any sequence
of calls, one after the other, that share one breaker.  The clock goes on while `fn` runs, while
a call sleeps and between two calls.  `asyncio.sleep` returns at once when it is given a negative
time.

The breaker is a counter of failures.  Whatever `fn` does, it is open exactly when the failures
since it was last reset have reached what opens it (`Tallied`), and `fn` is only called past a
breaker that is closed.  The deadline is checked against `elapsed + delay`, which a negative delay
takes back under it.  **In every run in which no such failure occurs, all that is promised of the
calls and of the breaker holds in every state** (`calls_guarded`).
-/
namespace OmniCare

/-! ## The policy -/

/-- `RetryPolicy`. -/
structure RetryPolicy where
  attempts : Int := 3
  baseDelayS : ℚ := 1 / 4
  maxDelayS : ℚ := 4
  deadlineS : ℚ := 20
  deriving DecidableEq, Repr

/-- `backoff`.  `draw` is what `random.random` returns. -/
def RetryPolicy.backoff (policy : RetryPolicy) (attempt : Nat) (draw : ℚ) : ℚ :=
  draw * min policy.maxDelayS (policy.baseDelayS * 2 ^ attempt)

/-- How a call of `fn` ends. -/
inductive AttemptEnd
  | returned
  /-- `TransientError`. -/
  | transient (retryAfter : Option ℚ)
  /-- `PermanentError`. -/
  | permanent
  /-- Any other exception. -/
  | raised
  deriving DecidableEq, Repr

/-- The `delay` after an attempt that may be made again. -/
def AttemptEnd.delay (policy : RetryPolicy) (attempt : Nat) (draw : ℚ) : AttemptEnd → Option ℚ
  | .returned | .permanent => none
  | .transient (some retryAfter) => some retryAfter
  | .transient none | .raised => some (policy.backoff attempt draw)

/-! ## The breaker -/

/-- `CircuitBreaker`. -/
structure CircuitBreaker where
  name : Text
  failureThreshold : Int := 5
  resetAfterS : ℚ := 30
  /-- `_failures`. -/
  failures : Int := 0
  /-- `_opened_at`. -/
  openedAt : Option ℚ := none
  deriving DecidableEq, Repr

/-- What happens to a breaker. -/
inductive BreakerEvent
  /-- `is_open` finds that the time to reset has passed. -/
  | halfOpened
  /-- `record_success`, after `fn` has returned. -/
  | succeeded
  /-- `record_success`, after a permanent error. -/
  | refused
  /-- `record_failure`. -/
  | failed
  deriving DecidableEq, Repr

namespace CircuitBreaker

variable (b : CircuitBreaker) (now : ℚ)

/-- Half-open: one request is let through. -/
def halfOpen : CircuitBreaker :=
  { b with openedAt := none, failures := b.failureThreshold - 1 }

/-- `is_open`. -/
def isOpen : CircuitBreaker × Bool × List BreakerEvent :=
  match b.openedAt with
  | none => (b, false, [])
  | some openedAt =>
      if b.resetAfterS ≤ now - openedAt then (b.halfOpen, false, [.halfOpened])
      else (b, true, [])

/-- `record_success`. -/
def recordSuccess : CircuitBreaker := { b with failures := 0, openedAt := none }

/-- `record_failure`. -/
def recordFailure : CircuitBreaker :=
  { b with
    failures := b.failures + 1
    openedAt := if b.failureThreshold ≤ b.failures + 1 then some now else b.openedAt }

/-- The breaker once it has been told how an attempt has ended. -/
def told : AttemptEnd → CircuitBreaker × List BreakerEvent
  | .returned => (b.recordSuccess, [.succeeded])
  | .permanent => (b.recordSuccess, [.refused])
  | .transient _ | .raised => (b.recordFailure now, [.failed])

end CircuitBreaker

/-! ## Calls -/

/-- An attempt: when it begins, what the breaker holds for `_opened_at` then, and how it ends. -/
structure RetryAttempt where
  began : ℚ
  openedAt : Option ℚ
  outcome : Option AttemptEnd := none
  deriving DecidableEq, Repr

/-- A call of `call_with_retry`, with its attempts, the last one first. -/
structure RetryCall where
  policy : RetryPolicy
  started : ℚ
  attempts : List RetryAttempt := []
  deriving DecidableEq, Repr

/-- The attempt under way ends. -/
def RetryCall.ended (call : RetryCall) (outcome : AttemptEnd) : RetryCall :=
  match call.attempts with
  | [] => call
  | a :: rest => { call with attempts := { a with outcome := some outcome } :: rest }

/-- How `call_with_retry` ends. -/
inductive CallEnd
  | returned
  /-- `CircuitOpen`. -/
  | circuitOpen (reopensIn : ℚ)
  /-- What `fn` has raised is raised. -/
  | raised (outcome : AttemptEnd)
  /-- `TransientError("exhausted retries")`: there has been no attempt. -/
  | exhausted
  deriving DecidableEq, Repr

/-- Where `call_with_retry` stands. -/
inductive RetryPhase
  /-- No call is under way. -/
  | idle
  /-- At the head of the loop. -/
  | looping (call : RetryCall) (attempt : Nat)
  /-- `fn` has been called. -/
  | awaiting (call : RetryCall) (attempt : Nat)
  deriving DecidableEq, Repr

/-- The clock, the breaker, the call under way and the calls that have ended, the last one
first. -/
structure Retrying where
  clock : ℚ
  breaker : CircuitBreaker
  phase : RetryPhase := .idle
  ended : List (RetryCall × CallEnd) := []
  deriving DecidableEq, Repr

/-- What happens next. -/
inductive RetryAction
  /-- `call_with_retry` is called, a while after what has been before. -/
  | call (policy : RetryPolicy) (pause : ℚ≥0)
  /-- The loop goes on with the next attempt. -/
  | next
  /-- `fn` ends. -/
  | ends (outcome : AttemptEnd) (duration : ℚ≥0) (draw : ℚ)

namespace Retrying

variable (s : Retrying)

/-- The call under way ends. -/
def finish (call : RetryCall) (ending : CallEnd) : Retrying :=
  { s with phase := .idle, ended := (call, ending) :: s.ended }

/-- One step of `call_with_retry`, from one await to the next. -/
def step (s : Retrying) : RetryAction → Option (Retrying × List BreakerEvent)
  | .call policy pause =>
      match s.phase with
      | .idle =>
          let started := s.clock + pause
          some ({ s with clock := started, phase := .looping { policy, started } 0 }, [])
      | _ => none
  | .next =>
      match s.phase with
      | .looping call attempt =>
          if attempt < call.policy.attempts then
            -- `raise_if_open`
            match s.breaker.isOpen s.clock with
            | (breaker, true, es) =>
                let opened := breaker.openedAt.getD s.clock
                some (({ s with breaker } : Retrying).finish call
                  (.circuitOpen (breaker.resetAfterS - (s.clock - opened))), es)
            | (breaker, false, es) =>
                let begun := { began := s.clock, openedAt := breaker.openedAt }
                some ({ s with
                  breaker
                  phase := .awaiting { call with attempts := begun :: call.attempts } attempt }, es)
          else some (s.finish call .exhausted, [])
      | _ => none
  | .ends outcome duration draw =>
      match s.phase with
      | .awaiting call attempt =>
          let clock := s.clock + duration
          let call := call.ended outcome
          let (breaker, es) := s.breaker.told clock outcome
          let s := { s with clock, breaker }
          match outcome.delay call.policy attempt draw with
          | none =>
              some (s.finish call (if outcome = .returned then .returned else .raised outcome), es)
          | some delay =>
              let elapsed := clock - call.started
              if attempt = call.policy.attempts - 1 ∨ call.policy.deadlineS ≤ elapsed + delay then
                some (s.finish call (.raised outcome), es)
              else
                -- `asyncio.sleep`
                some ({ s with
                  clock := clock + max 0 delay
                  phase := .looping call (attempt + 1) }, es)
      | _ => none

/-- The calls made so far. -/
def calls : List RetryCall :=
  match s.phase with
  | .idle => s.ended.map Prod.fst
  | .looping call _ | .awaiting call _ => call :: s.ended.map Prod.fst

end Retrying

/-! ## What is promised -/

/-- What is promised of a call. -/
structure RetryCall.Kept (call : RetryCall) : Prop where
  /-- `fn` is called at most `attempts` times, -/
  bounded : call.attempts.length ≤ call.policy.attempts.toNat
  /-- never while the breaker is open, -/
  closed : ∀ a ∈ call.attempts, a.openedAt = none
  /-- after the first time never at or after the deadline, -/
  inTime : ∀ a ∈ call.attempts.dropLast, a.began < call.started + call.policy.deadlineS
  /-- and never after a permanent error. -/
  permanent : ∀ a ∈ call.attempts.tail, a.outcome ≠ some .permanent

/-- The failures since the breaker was last reset. -/
def failuresSince (es : List BreakerEvent) : Nat := (es.reverse.takeWhile (· = .failed)).length

/-- What the breaker was last reset by. -/
def lastReset (es : List BreakerEvent) : Option BreakerEvent := es.reverse.find? (· ≠ .failed)

/-- How many failures open the breaker: after a half-open, one. -/
def failuresToOpen (threshold : Int) (es : List BreakerEvent) : Int :=
  if lastReset es = some .halfOpened then 1 else threshold

/-- What is promised of the calls and of the breaker that they share. -/
structure Guarded (threshold : Int) (s : Retrying) (es : List BreakerEvent) : Prop where
  calls : ∀ call ∈ s.calls, call.Kept
  /-- A closed breaker has fewer failures than the threshold. -/
  below : s.breaker.openedAt = none → s.breaker.failures < threshold
  /-- The breaker is open exactly when the failures since it was last reset open it. -/
  opens : s.breaker.openedAt.isSome ↔ failuresToOpen threshold es ≤ failuresSince es

/-- The step is not a failure, with an attempt left, that comes when the deadline has passed and
is taken back under it by its delay. -/
def keepsTime (s : Retrying) : RetryAction → Bool
  | .ends outcome duration draw =>
      match s.phase with
      | .awaiting call attempt =>
          let elapsed := s.clock + duration - call.started
          (outcome.delay call.policy attempt draw).all fun delay =>
            decide (attempt = call.policy.attempts - 1) ||
              decide (elapsed < call.policy.deadlineS) ||
              decide (call.policy.deadlineS ≤ elapsed + delay)
      | _ => true
  | _ => true

/-! ## The failures counted -/

@[simp] theorem failuresSince_failed (es : List BreakerEvent) :
    failuresSince (es ++ [.failed]) = failuresSince es + 1 := by
  simp [failuresSince]

@[simp] theorem lastReset_failed (es : List BreakerEvent) :
    lastReset (es ++ [.failed]) = lastReset es := by
  simp [lastReset]

theorem failuresSince_reset (es : List BreakerEvent) {e : BreakerEvent} (he : e ≠ .failed) :
    failuresSince (es ++ [e]) = 0 := by
  simp [failuresSince, he]

theorem lastReset_reset (es : List BreakerEvent) {e : BreakerEvent} (he : e ≠ .failed) :
    lastReset (es ++ [e]) = some e := by
  simp [lastReset, he]

/-- **What the breaker's counter says of what has happened to it.** -/
structure Tallied (threshold : Int) (b : CircuitBreaker) (es : List BreakerEvent) : Prop where
  constant : b.failureThreshold = threshold
  counted : b.failures =
    (if lastReset es = some .halfOpened then threshold - 1 else 0) + failuresSince es
  opened : b.openedAt.isSome ↔ threshold ≤ b.failures

namespace Tallied

variable {threshold : Int} {b : CircuitBreaker} {es : List BreakerEvent}

theorem opens (h : Tallied threshold b es) :
    b.openedAt.isSome ↔ failuresToOpen threshold es ≤ failuresSince es := by
  rw [h.opened, h.counted, failuresToOpen]
  split <;> omega

theorem below (h : Tallied threshold b es) (hclosed : b.openedAt = none) :
    b.failures < threshold := by
  have hopened := h.opened
  rw [hclosed] at hopened
  simpa using hopened

theorem halfOpen (h : Tallied threshold b es) :
    Tallied threshold b.halfOpen (es ++ [.halfOpened]) := by
  have hthreshold := h.constant
  refine ⟨hthreshold, ?_, ?_⟩
  · rw [lastReset_reset es (by decide), failuresSince_reset es (by decide), if_pos rfl]
    simp [CircuitBreaker.halfOpen, hthreshold]
  · simp [CircuitBreaker.halfOpen, hthreshold]

/-- A success and a permanent error reset the breaker. -/
theorem recordSuccess (h : Tallied threshold b es) (hpos : 1 ≤ threshold) {e : BreakerEvent}
    (he : e ≠ .failed) (hhalf : e ≠ .halfOpened) :
    Tallied threshold b.recordSuccess (es ++ [e]) := by
  refine ⟨h.constant, ?_, ?_⟩
  · have hlast : lastReset (es ++ [e]) ≠ some .halfOpened := by
      rw [lastReset_reset es he]
      exact fun heq => hhalf (Option.some.inj heq)
    rw [if_neg hlast, failuresSince_reset es he]
    rfl
  · simp only [CircuitBreaker.recordSuccess, Option.isSome_none, Bool.false_eq_true, false_iff]
    omega

theorem recordFailure (h : Tallied threshold b es) (now : ℚ) :
    Tallied threshold (b.recordFailure now) (es ++ [.failed]) := by
  have hcounted := h.counted
  have hopened := h.opened
  refine ⟨h.constant, ?_, ?_⟩
  · rw [lastReset_failed, failuresSince_failed]
    simp only [CircuitBreaker.recordFailure, hcounted]
    push_cast
    ring
  · simp only [CircuitBreaker.recordFailure, h.constant]
    by_cases hreached : threshold ≤ b.failures + 1
    · simp [hreached]
    · have hbefore : ¬ threshold ≤ b.failures := by omega
      rw [if_neg hreached, hopened]
      exact ⟨fun hle => absurd hle hbefore, fun hle => absurd hle hreached⟩

/-- A read of `is_open`, which may half-open the breaker. -/
theorem isOpen (h : Tallied threshold b es) (now : ℚ) :
    Tallied threshold (b.isOpen now).1 (es ++ (b.isOpen now).2.2) := by
  unfold CircuitBreaker.isOpen
  cases hopened : b.openedAt with
  | none => simpa using h
  | some openedAt =>
    by_cases hpassed : b.resetAfterS ≤ now - openedAt
    · simpa [hpassed] using h.halfOpen
    · simpa [hpassed] using h

theorem told (h : Tallied threshold b es) (hpos : 1 ≤ threshold) (now : ℚ) (outcome : AttemptEnd) :
    Tallied threshold (b.told now outcome).1 (es ++ (b.told now outcome).2) := by
  cases outcome with
  | returned => exact h.recordSuccess hpos (by decide) (by decide)
  | permanent => exact h.recordSuccess hpos (by decide) (by decide)
  | transient => exact h.recordFailure now
  | raised => exact h.recordFailure now

end Tallied

/-- A breaker that is not found open is closed. -/
theorem CircuitBreaker.openedAt_isOpen {b : CircuitBreaker} {now : ℚ}
    (h : (b.isOpen now).2.1 = false) : (b.isOpen now).1.openedAt = none := by
  unfold CircuitBreaker.isOpen at h ⊢
  cases hopened : b.openedAt with
  | none => exact hopened
  | some openedAt =>
    by_cases hpassed : b.resetAfterS ≤ now - openedAt
    · simp [hpassed, CircuitBreaker.halfOpen]
    · simp [hopened, hpassed] at h

/-! ## One call -/

/-- No attempt of the call has met with a permanent error. -/
def RetryCall.Unrefused (call : RetryCall) : Prop :=
  ∀ a ∈ call.attempts, a.outcome ≠ some .permanent

/-- What holds of the call under way, where it stands. -/
def RetryPhase.Sound (clock : ℚ) : RetryPhase → Prop
  | .idle => True
  | .looping call attempt =>
      call.Kept ∧ call.Unrefused ∧ call.attempts.length = attempt ∧
        (attempt ≠ 0 → clock < call.started + call.policy.deadlineS)
  | .awaiting call attempt =>
      call.Kept ∧ call.Unrefused ∧ call.attempts.length = attempt + 1

namespace RetryCall

variable {call : RetryCall} {clock : ℚ} {attempt : Nat}

/-- A call that has made no attempt keeps all that is promised. -/
theorem kept_of_new (policy : RetryPolicy) (started : ℚ) :
    (RetryPhase.looping { policy, started } 0).Sound clock :=
  ⟨⟨Nat.zero_le _, nofun, nofun, nofun⟩, nofun, rfl, fun h => absurd rfl h⟩

/-- An attempt begins, in time and past a closed breaker. -/
theorem awaiting_of_looping (h : (RetryPhase.looping call attempt).Sound clock)
    (hmore : (attempt : Int) < call.policy.attempts) :
    (RetryPhase.awaiting
      { call with attempts := { began := clock, openedAt := none } :: call.attempts }
      attempt).Sound clock := by
  obtain ⟨hkept, hunrefused, hlength, htime⟩ := h
  refine ⟨⟨?_, ?_, ?_, hunrefused⟩, ?_, by simp [hlength]⟩
  · rw [List.length_cons, hlength]
    show attempt + 1 ≤ call.policy.attempts.toNat
    omega
  · exact List.forall_mem_cons.mpr ⟨rfl, hkept.closed⟩
  · -- It is the first attempt, or the sleep before it has ended in time.
    show ∀ a ∈ (_ :: call.attempts).dropLast, _
    cases hattempts : call.attempts with
    | nil => exact nofun
    | cons b rest =>
      have hlate : attempt ≠ 0 := by
        rw [← hlength, hattempts]
        exact Nat.succ_ne_zero _
      rw [List.dropLast_cons_cons]
      refine List.forall_mem_cons.mpr ⟨htime hlate, ?_⟩
      rw [← hattempts]
      exact hkept.inTime
  · exact List.forall_mem_cons.mpr ⟨nofun, hunrefused⟩

theorem policy_ended (outcome : AttemptEnd) : (call.ended outcome).policy = call.policy := by
  unfold ended
  split <;> rfl

theorem started_ended (outcome : AttemptEnd) : (call.ended outcome).started = call.started := by
  unfold ended
  split <;> rfl

theorem length_ended (outcome : AttemptEnd) :
    (call.ended outcome).attempts.length = call.attempts.length := by
  unfold ended
  split
  · rfl
  · rename_i hattempts
    rw [hattempts]
    rfl

/-- The end of an attempt takes back nothing. -/
theorem Kept.ended (h : call.Kept) (outcome : AttemptEnd) : (call.ended outcome).Kept := by
  unfold RetryCall.ended
  cases hattempts : call.attempts with
  | nil => exact h
  | cons a rest =>
    obtain ⟨hbounded, hclosed, htime, hpermanent⟩ := h
    rw [hattempts] at hbounded hclosed htime hpermanent
    refine ⟨hbounded, List.forall_mem_cons.mpr (List.forall_mem_cons.mp hclosed), ?_, hpermanent⟩
    show ∀ b ∈ (_ :: rest).dropLast, _
    cases rest with
    | nil => exact nofun
    | cons b rest => exact List.forall_mem_cons.mpr (List.forall_mem_cons.mp htime)

theorem Unrefused.ended (h : call.Unrefused) {outcome : AttemptEnd} (hne : outcome ≠ .permanent) :
    (call.ended outcome).Unrefused := by
  unfold RetryCall.ended
  cases hattempts : call.attempts with
  | nil => exact h
  | cons a rest =>
    rw [Unrefused, hattempts] at h
    exact List.forall_mem_cons.mpr
      ⟨fun heq => hne (Option.some.inj heq), (List.forall_mem_cons.mp h).2⟩

end RetryCall

/-- What the code makes another attempt after is no permanent error. -/
theorem AttemptEnd.ne_permanent {policy : RetryPolicy} {attempt : Nat} {draw delay : ℚ}
    {outcome : AttemptEnd} (h : outcome.delay policy attempt draw = some delay) :
    outcome ≠ .permanent := by
  rintro rfl
  cases h

/-! ## Runs -/

/-- What holds in every state. -/
structure Retrying.Sound (threshold : Int) (s : Retrying) (es : List BreakerEvent) : Prop where
  phase : s.phase.Sound s.clock
  ended : ∀ r ∈ s.ended, r.1.Kept
  breaker : Tallied threshold s.breaker es

namespace Retrying.Sound

variable {threshold : Int} {s t : Retrying} {es fs : List BreakerEvent}

theorem guarded (h : Sound threshold s es) : Guarded threshold s es := by
  refine ⟨?_, h.breaker.below, h.breaker.opens⟩
  have hended : ∀ call ∈ s.ended.map Prod.fst, call.Kept := by
    intro call hcall
    obtain ⟨r, hr, rfl⟩ := List.mem_map.mp hcall
    exact h.ended r hr
  have hphase := h.phase
  unfold calls
  cases hs : s.phase with
  | idle => exact hended
  | looping call attempt =>
    rw [hs] at hphase
    exact List.forall_mem_cons.mpr ⟨hphase.1, hended⟩
  | awaiting call attempt =>
    rw [hs] at hphase
    exact List.forall_mem_cons.mpr ⟨hphase.1, hended⟩

/-- The call under way comes to its end. -/
theorem finish {call : RetryCall} (hcall : call.Kept) (hended : ∀ r ∈ s.ended, r.1.Kept)
    (hbreaker : Tallied threshold s.breaker es) (ending : CallEnd) :
    Sound threshold (s.finish call ending) es :=
  ⟨trivial, List.forall_mem_cons.mpr ⟨hcall, hended⟩, hbreaker⟩

theorem next (h : Sound threshold s es) (hstep : s.step .next = some (t, fs)) :
    Sound threshold t (es ++ fs) := by
  have hphase := h.phase
  unfold step at hstep
  cases hs : s.phase with
  | idle => simp [hs] at hstep
  | awaiting => simp [hs] at hstep
  | looping call attempt =>
    rw [hs] at hphase
    simp only [hs] at hstep
    by_cases hmore : (attempt : Int) < call.policy.attempts
    · rw [if_pos hmore] at hstep
      have hbreaker := h.breaker.isOpen s.clock
      have hclosed : (s.breaker.isOpen s.clock).2.1 = false →
          (s.breaker.isOpen s.clock).1.openedAt = none := CircuitBreaker.openedAt_isOpen
      generalize s.breaker.isOpen s.clock = r at hstep hbreaker hclosed
      obtain ⟨breaker, isOpen, gs⟩ := r
      cases isOpen with
      | true =>
        cases hstep
        exact finish (s := { s with breaker }) hphase.1 h.ended hbreaker _
      | false =>
        have hnone : breaker.openedAt = none := hclosed rfl
        cases hstep
        refine ⟨?_, h.ended, hbreaker⟩
        show (RetryPhase.awaiting _ attempt).Sound s.clock
        rw [hnone]
        exact RetryCall.awaiting_of_looping hphase hmore
    · rw [if_neg hmore] at hstep
      cases hstep
      rw [List.append_nil]
      exact finish hphase.1 h.ended h.breaker _

/-- The one place where the condition counts: a call that goes on has time left. -/
theorem ends (hpos : 1 ≤ threshold) (h : Sound threshold s es) {outcome : AttemptEnd}
    {duration : ℚ≥0} {draw : ℚ} (hstep : s.step (.ends outcome duration draw) = some (t, fs))
    (hok : keepsTime s (.ends outcome duration draw) = true) :
    Sound threshold t (es ++ fs) := by
  have hphase := h.phase
  unfold step at hstep
  unfold keepsTime at hok
  cases hs : s.phase with
  | idle => simp [hs] at hstep
  | looping => simp [hs] at hstep
  | awaiting call attempt =>
    rw [hs] at hphase
    simp only [hs, RetryCall.policy_ended, RetryCall.started_ended] at hstep hok
    have hbreaker := h.breaker.told hpos (s.clock + duration) outcome
    generalize s.breaker.told (s.clock + duration) outcome = r at hstep hbreaker
    obtain ⟨breaker, gs⟩ := r
    have hkept := hphase.1.ended outcome
    cases hdelay : outcome.delay call.policy attempt draw with
    | none =>
      simp only [hdelay] at hstep
      cases hstep
      exact finish (s := { s with clock := _, breaker }) hkept h.ended hbreaker _
    | some delay =>
      simp only [hdelay] at hstep
      by_cases hlast : (attempt : Int) = call.policy.attempts - 1 ∨
          call.policy.deadlineS ≤ s.clock + duration - call.started + delay
      · rw [if_pos hlast] at hstep
        cases hstep
        exact finish (s := { s with clock := _, breaker }) hkept h.ended hbreaker _
      · rw [if_neg hlast] at hstep
        cases hstep
        obtain ⟨hmore, htime⟩ := not_or.mp hlast
        have hnow : s.clock + duration - call.started < call.policy.deadlineS := by
          simpa [hdelay, hmore, htime] using hok
        have hslept : s.clock + duration + max 0 delay < call.started + call.policy.deadlineS := by
          rcases max_cases 0 delay with ⟨hmax, -⟩ | ⟨hmax, -⟩ <;> rw [hmax] <;> linarith
        refine ⟨⟨hkept, hphase.2.1.ended (AttemptEnd.ne_permanent hdelay), ?_, fun _ => ?_⟩,
          h.ended, hbreaker⟩
        · rw [RetryCall.length_ended, hphase.2.2]
        · rw [RetryCall.started_ended, RetryCall.policy_ended]
          exact hslept

/-- **A step that keeps to the condition keeps all that is promised.** -/
theorem step (hpos : 1 ≤ threshold) (h : Sound threshold s es) {a : RetryAction}
    (hstep : s.step a = some (t, fs)) (hok : keepsTime s a = true) :
    Sound threshold t (es ++ fs) := by
  cases a with
  | next => exact h.next hstep
  | ends outcome duration draw => exact h.ends hpos hstep hok
  | call policy pause =>
    unfold Retrying.step at hstep
    cases hs : s.phase with
    | idle =>
      simp only [hs] at hstep
      cases hstep
      rw [List.append_nil]
      exact ⟨RetryCall.kept_of_new policy _, h.ended, h.breaker⟩
    | looping => simp [hs] at hstep
    | awaiting => simp [hs] at hstep

end Retrying.Sound

/-- A breaker that nothing has been told yet, and no call. -/
def Retrying.new (name : Text) (failureThreshold : Int) (resetAfterS clock : ℚ) : Retrying :=
  { clock, breaker := { name, failureThreshold, resetAfterS } }

/-- **In every run in which no failure is taken back under the deadline by its delay, what is
promised of the calls and of the breaker holds in every state.** -/
theorem calls_guarded {name : Text} {failureThreshold : Int} {resetAfterS clock : ℚ}
    (hpos : 1 ≤ failureThreshold) {as : List RetryAction} {s : Retrying} {es : List BreakerEvent}
    (hrun : Run (Computes (restrict keepsTime Retrying.step))
      (Retrying.new name failureThreshold resetAfterS clock) as s es) :
    Guarded failureThreshold s es := by
  have hinit : Retrying.Sound failureThreshold
      (Retrying.new name failureThreshold resetAfterS clock) [] := by
    refine ⟨trivial, nofun, rfl, rfl, ?_⟩
    show (none : Option ℚ).isSome ↔ failureThreshold ≤ 0
    simp only [Option.isSome_none, Bool.false_eq_true, false_iff]
    omega
  exact (hrun.invariant_restrict hinit fun h => h.step hpos).guarded

/-- Two failures open a breaker with a threshold of two, and another opens it again half a minute
later. -/
theorem calls_guarded_half_open : ∃ s es,
    Run (Computes (restrict keepsTime Retrying.step)) (.new "groq" 2 30 0)
      [.call {} 0, .next, .ends .raised 1 0, .next, .ends (.transient (some 2)) 1 0, .next,
        .call {} 40, .next, .ends .raised 1 0] s es ∧
      es = [.failed, .failed, .halfOpened, .failed] ∧ s.breaker.openedAt = some 45 ∧
      Guarded 2 s es := by
  obtain ⟨s, es, hrun, hs⟩ := exists_run_of_play (restrict keepsTime Retrying.step)
    (.new "groq" 2 30 0)
    [.call {} 0, .next, .ends .raised 1 0, .next, .ends (.transient (some 2)) 1 0, .next,
      .call {} 40, .next, .ends .raised 1 0]
    (fun s es => decide (es = [.failed, .failed, .halfOpened, .failed] ∧
      s.breaker.openedAt = some 45)) (by decide +kernel)
  exact ⟨s, es, hrun, (of_decide_eq_true hs).1, (of_decide_eq_true hs).2,
    calls_guarded (by decide) hrun⟩

/-- An attempt fails after 22 seconds of the 20 that a call has, and its error says to retry after
minus five seconds: there is another attempt. -/
theorem attempt_after_deadline : ¬ ∀ (as : List RetryAction) (s : Retrying)
    (es : List BreakerEvent),
    Run (Computes Retrying.step) (.new "groq" 5 30 0) as s es → Guarded 5 s es := by
  intro h
  obtain ⟨s, es, hrun, hs⟩ := exists_run_of_play Retrying.step (.new "groq" 5 30 0)
    [.call {} 0, .next, .ends (.transient (some (-5))) 22 0, .next]
    (fun s _ => s.calls.any fun call => call.attempts.dropLast.any fun a =>
      decide (call.started + call.policy.deadlineS ≤ a.began)) (by decide +kernel)
  obtain ⟨call, hcall, hs⟩ := List.any_eq_true.mp hs
  obtain ⟨a, ha, hs⟩ := List.any_eq_true.mp hs
  exact absurd (((h _ s es hrun).calls call hcall).inTime a ha)
    (not_lt.mpr (of_decide_eq_true hs))

end OmniCare
