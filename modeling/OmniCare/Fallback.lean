import OmniCare.Retrying

/-! # Falling back to the other provider

`classify` and `ResilientChatModel.ainvoke` of `agent/app/providers/resilient.py`: one request to
the primary model, behind the circuit breaker that it shares with all others, and the fallback
model after it.  Between two steps of the request the others do what they want to the breaker, and
time passes.

What is promised is that the fallback is asked whenever the primary fails and has not refused the
request as malformed (`FallsBack`).  `ainvoke` falls back from `CircuitOpen` and from
`TransientError`.  `classify` makes a `PermanentError` of a request that is malformed, but also of a
rate limit by the day, and of a rate limit or a failure of the server whose text holds one of the
hints; and an exception that does not come from `classify` is neither of the two.  **A request falls
back as promised exactly when no call of the primary fails in one of these ways**
(`fallback_called_iff`).
-/
namespace OmniCare

/-! ## What a provider raises -/

/-- What an exception holds for a status. -/
inductive ProviderStatus
  | number (n : Int)
  /-- Something else that is true, and what `int` reads in it. -/
  | other (reads : Option Int)
  deriving DecidableEq, Repr

/-- `bool(status)`. -/
def ProviderStatus.truthy : ProviderStatus → Bool
  | .number n => n != 0
  | .other _ => true

/-- `int(status)`. -/
def ProviderStatus.toInt : ProviderStatus → Option Int
  | .number n => some n
  | .other reads => reads

/-- An exception of a provider. -/
structure ProviderError where
  statusCode : Option ProviderStatus := none
  httpStatus : Option ProviderStatus := none
  /-- `str(exc)`. -/
  text : Text
  /-- None or a number, as `TransientError` has it. -/
  retryAfter : Option ℚ := none
  deriving DecidableEq, Repr

/-- `_PERMANENT_HINTS`. -/
def permanentHints : List Text :=
  ["invalid_api_key".toList, "authentication".toList, "unauthorized".toList, "forbidden".toList,
    "model_not_found".toList, "does not exist".toList, "invalid_request_error".toList,
    "context_length".toList, "maximum context".toList]

namespace ProviderError

variable (exc : ProviderError)

/-- The `status` that `classify` goes by. -/
def status : Option ProviderStatus :=
  match exc.statusCode with
  | some status => if status.truthy then some status else exc.httpStatus
  | none => exc.httpStatus

/-- One of the texts is in the message. -/
def mentions (texts : List Text) : Bool := texts.any (Text.contains (Text.lower exc.text))

/-- `status in (400, 401, 403, 404, 422)`. -/
def refused : Bool := [400, 401, 403, 404, 422].any fun n => exc.status == some (.number n)

/-- A 429, or a message of one. -/
def rateLimited : Bool :=
  exc.status == some (.number 429) || exc.mentions ["rate limit".toList, "too many requests".toList]

/-- The message speaks of a limit by the day. -/
def daily : Bool := exc.mentions ["per day".toList, "tpd".toList, "rpd".toList]

/-- `status is not None and 500 <= int(status) < 600`: none where `int` raises. -/
def serverFailed : Option Bool :=
  match exc.status with
  | none => some false
  | some status => status.toInt.map fun n => decide (500 ≤ n ∧ n < 600)

/-- The message is one of a failure that passes. -/
def passing : Bool :=
  exc.mentions ["timeout".toList, "timed out".toList, "connection".toList, "temporarily".toList]

/-- `classify`, as the end of a call that raises what it returns. -/
def classify : AttemptEnd :=
  if exc.refused then .permanent
  else if exc.mentions permanentHints then .permanent
  else if exc.rateLimited then
    if exc.daily then .permanent else .transient exc.retryAfter
  else
    match exc.serverFailed with
    | none => .raised
    | some true => .transient none
    | some false =>
        -- what is not known is treated as transient too
        if exc.passing then .transient none else .transient none

/-! What is promised goes by what the provider says, and not by `classify`. -/

/-- The provider does not serve the request now, whatever the request is. -/
def unavailable : Bool := exc.rateLimited || exc.serverFailed == some true

/-- The request itself is rejected: by its status, or by a hint in the message of an error that is
no rate limit and no failure of the server. -/
def malformed : Bool := exc.refused || exc.mentions permanentHints && !exc.unavailable

/-- A rate limit by the day; or a provider that is unavailable and gives one of the hints. -/
def misread : Bool :=
  !exc.refused &&
    (exc.rateLimited && exc.daily || exc.unavailable && exc.mentions permanentHints)

variable {exc}

/-- What `classify` makes a `PermanentError` of. -/
theorem classify_eq_permanent_iff :
    exc.classify = .permanent ↔ exc.malformed = true ∨ exc.misread = true := by
  unfold classify malformed misread unavailable
  generalize exc.mentions permanentHints = hinted
  cases exc.refused with
  | true => simp
  | false =>
    cases exc.rateLimited with
    | true => cases hinted <;> cases exc.daily <;> simp
    | false =>
      rcases exc.serverFailed with _ | _ | _ <;> cases hinted <;> simp

/-- What is misread is no malformed request. -/
theorem malformed_of_misread (h : exc.misread = true) : exc.malformed = false := by
  unfold misread at h
  unfold malformed
  cases hrefused : exc.refused with
  | true => simp [hrefused] at h
  | false =>
    have hunavailable : exc.unavailable = true := by
      rw [hrefused, Bool.not_false, Bool.true_and, Bool.or_eq_true, Bool.and_eq_true,
        Bool.and_eq_true] at h
      obtain ⟨hlimited, -⟩ | ⟨hunavailable, -⟩ := h
      · rw [unavailable, hlimited, Bool.true_or]
      · exact hunavailable
    rw [hunavailable, Bool.not_true, Bool.and_false]
    rfl

theorem classify_of_malformed (h : exc.malformed = true) : exc.classify = .permanent :=
  classify_eq_permanent_iff.mpr (.inl h)

end ProviderError

/-! ## A request -/

/-- How `model.ainvoke` ends. -/
inductive ModelEnd
  /-- A message, and what `int` reads for the `total_tokens` of its usage. -/
  | answered (totalTokens : Option Int)
  | failed (exc : ProviderError)
  deriving DecidableEq, Repr

/-- How `_call` ends. -/
def ModelEnd.attemptEnd : ModelEnd → AttemptEnd
  | .answered (some _) => .returned
  | .answered none => .raised
  | .failed exc => exc.classify

/-- The model has rejected the request as malformed. -/
def ModelEnd.rejects : ModelEnd → Bool
  | .answered _ => false
  | .failed exc => exc.malformed

/-- `ResilientChatModel`. -/
structure ResilientChatModel where
  policy : RetryPolicy
  /-- Whether there is one. -/
  fallback : Bool
  deriving DecidableEq, Repr

/-- `except (CircuitOpen, TransientError)`. -/
def CallEnd.caught : CallEnd → Bool
  | .circuitOpen _ | .exhausted | .raised (.transient _) => true
  | .returned | .raised _ => false

/-- `call_with_retry` is called. -/
def Retrying.begin (policy : RetryPolicy) (breaker : CircuitBreaker) (clock : ℚ) : Retrying :=
  { clock, breaker, phase := .looping { policy, started := clock } 0 }

/-- `breaker=None`: a breaker that has nothing to say at any step. -/
def Retrying.unguarded (s : Retrying) : Retrying := { s with breaker := s.breaker.recordSuccess }

/-- A call of `ainvoke`: what has become of `call_with_retry` on the primary, and, once it has been
called, on the fallback. -/
structure ModelRequest where
  primary : Retrying
  fallback : Option Retrying := none
  /-- How the last call of the primary model has ended. -/
  last : Option ModelEnd := none
  deriving DecidableEq, Repr

/-- What happens next. -/
inductive ModelRequestAction
  /-- Other requests tell the breaker what they have to, while time passes. -/
  | others (breaker : CircuitBreaker) (pause : ℚ≥0)
  /-- The model is called, if the breaker lets the call through. -/
  | next
  /-- The call of the model ends. -/
  | ends (answer : ModelEnd) (duration : ℚ≥0) (draw : ℚ)

/-- `ainvoke` has returned, or has raised. -/
def ModelRequest.over (r : ModelRequest) : Bool := (r.fallback.getD r.primary).phase = .idle

namespace ModelRequest

/-- `ainvoke` is called. -/
def begin (m : ResilientChatModel) (breaker : CircuitBreaker) (clock : ℚ) : ModelRequest :=
  { primary := .begin m.policy breaker clock }

variable (m : ResilientChatModel) (r : ModelRequest)

/-- What `ainvoke` does when `call_with_retry` on the primary comes to its end. -/
def handOver (primary : Retrying) : ModelRequest :=
  match primary.phase, primary.ended with
  | .idle, (_, ending) :: _ =>
      if ending.caught && m.fallback then
        { r with primary, fallback := some (.begin m.policy primary.breaker primary.clock) }
      else { r with primary }
  | _, _ => { r with primary }

/-- One step of the request. -/
def step (m : ResilientChatModel) (r : ModelRequest) :
    ModelRequestAction → Option (ModelRequest × List BreakerEvent)
  | .others breaker pause =>
      if r.over then none
      else
        let clock := r.primary.clock + pause
        some ({ r with
          primary := { r.primary with clock, breaker }
          fallback := r.fallback.map fun s => { s with clock := s.clock + pause } }, [])
  | .next =>
      match r.fallback with
      | none => (r.primary.step .next).map fun p => (r.handOver m p.1, p.2)
      | some s => (s.unguarded.step .next).map fun p => ({ r with fallback := some p.1 }, [])
  | .ends answer duration draw =>
      let ends := RetryAction.ends answer.attemptEnd duration draw
      match r.fallback with
      | none =>
          (r.primary.step ends).map fun p =>
            ({ r with last := some answer }.handOver m p.1, p.2)
      | some s => (s.unguarded.step ends).map fun p => ({ r with fallback := some p.1 }, [])

/-! ## What is promised -/

/-- The primary has answered. -/
def Answered : Prop := (r.primary.ended.head?.map Prod.snd) = some .returned

/-- The primary has rejected the request as malformed. -/
def Rejected : Prop := r.last.any ModelEnd.rejects = true

/-- The fallback model has been called. -/
def FallbackCalled : Prop := ∃ s ∈ r.fallback, ∃ call ∈ s.calls, call.attempts ≠ []

/-- The fallback is called exactly when the primary has failed and has not rejected the request. -/
def FallsBack : Prop := r.FallbackCalled ↔ ¬ r.Answered ∧ ¬ r.Rejected

/-- After a failure there is another attempt. -/
def triesAgain (call : RetryCall) (attempt : Nat) (duration : ℚ≥0) (draw : ℚ) : Bool :=
  decide ((attempt : Int) ≠ call.policy.attempts - 1) &&
    decide (r.primary.clock + duration - call.started + call.policy.backoff attempt draw <
      call.policy.deadlineS)

/-- The step is not a call of the primary that is misread, nor one that fails outside of `classify`
and is the last. -/
def heeds (r : ModelRequest) : ModelRequestAction → Bool
  | .ends answer duration draw =>
      match r.fallback, r.primary.phase with
      | none, .awaiting call attempt =>
          match answer with
          | .answered totalTokens =>
              totalTokens.isSome || r.triesAgain call attempt duration draw
          | .failed exc =>
              !exc.misread &&
                (exc.classify != .raised || r.triesAgain call attempt duration draw)
      | _, _ => true
  | _ => true

end ModelRequest

/-! ## The steps of a call -/

namespace Retrying

variable {s t : Retrying} {es : List BreakerEvent}

/-- At the head of the loop the call ends, or `fn` is called. -/
theorem step_next (h : s.step .next = some (t, es)) :
    ∃ call attempt, s.phase = .looping call attempt ∧
      ((call.policy.attempts ≤ attempt ∧ t = s.finish call .exhausted) ∨
        ((attempt : Int) < call.policy.attempts ∧ ∃ breaker,
          (s.breaker.openedAt ≠ none ∧ ∃ reopensIn,
            t = ({ s with breaker } : Retrying).finish call (.circuitOpen reopensIn)) ∨
          ∃ begun, t = { s with
            breaker
            phase := .awaiting { call with attempts := begun :: call.attempts } attempt })) := by
  unfold step at h
  cases hphase : s.phase with
  | idle => simp [hphase] at h
  | awaiting => simp [hphase] at h
  | looping call attempt =>
    refine ⟨call, attempt, rfl, ?_⟩
    simp only [hphase] at h
    by_cases hmore : (attempt : Int) < call.policy.attempts
    · rw [if_pos hmore] at h
      have hclosed : s.breaker.openedAt = none → (s.breaker.isOpen s.clock).2.1 = false := by
        intro hnone
        simp [CircuitBreaker.isOpen, hnone]
      generalize s.breaker.isOpen s.clock = b at h hclosed
      obtain ⟨breaker, isOpen, fs⟩ := b
      cases isOpen with
      | true =>
        cases h
        refine .inr ⟨hmore, breaker, .inl ⟨?_, _, rfl⟩⟩
        intro hnone
        cases hclosed hnone
      | false =>
        cases h
        exact .inr ⟨hmore, breaker, .inr ⟨_, rfl⟩⟩
    · rw [if_neg hmore] at h
      cases h
      exact .inl ⟨not_lt.mp hmore, rfl⟩

/-- What the call comes to when an attempt is its last. -/
def lastEnd (outcome : AttemptEnd) : CallEnd :=
  if outcome = .returned then .returned else .raised outcome

/-- After an attempt the call ends, or goes on with another attempt. -/
theorem step_ends {outcome : AttemptEnd} {duration : ℚ≥0} {draw : ℚ}
    (h : s.step (.ends outcome duration draw) = some (t, es)) :
    ∃ call attempt clock breaker, s.phase = .awaiting call attempt ∧
      ((t = ({ s with clock, breaker } : Retrying).finish (call.ended outcome) (lastEnd outcome) ∧
          ∀ delay, outcome.delay call.policy attempt draw = some delay →
            (attempt : Int) = call.policy.attempts - 1 ∨
              call.policy.deadlineS ≤ s.clock + duration - call.started + delay) ∨
        (outcome ≠ .returned ∧ outcome ≠ .permanent ∧
          t = { s with clock, breaker, phase := .looping (call.ended outcome) (attempt + 1) } ∧
          ∃ delay, outcome.delay call.policy attempt draw = some delay ∧
            ¬ ((attempt : Int) = call.policy.attempts - 1 ∨
              call.policy.deadlineS ≤ s.clock + duration - call.started + delay))) := by
  unfold step at h
  cases hphase : s.phase with
  | idle => simp [hphase] at h
  | looping => simp [hphase] at h
  | awaiting call attempt =>
    simp only [hphase, RetryCall.policy_ended, RetryCall.started_ended] at h
    generalize s.breaker.told (s.clock + duration) outcome = b at h
    obtain ⟨breaker, fs⟩ := b
    cases hdelay : outcome.delay call.policy attempt draw with
    | none =>
      simp only [hdelay] at h
      cases h
      refine ⟨call, attempt, _, breaker, rfl, .inl ⟨rfl, ?_⟩⟩
      intro delay hsome
      cases hdelay.symm.trans hsome
    | some delay =>
      have hreturned : outcome ≠ .returned := by
        rintro rfl
        cases hdelay
      simp only [hdelay] at h
      by_cases hlast : (attempt : Int) = call.policy.attempts - 1 ∨
          call.policy.deadlineS ≤ s.clock + duration - call.started + delay
      · rw [if_pos hlast] at h
        cases h
        refine ⟨call, attempt, s.clock + duration, breaker, rfl, .inl ⟨?_, ?_⟩⟩
        · rw [lastEnd, if_neg hreturned]
        · intro _ hsome
          cases hdelay.symm.trans hsome
          exact hlast
      · rw [if_neg hlast] at h
        cases h
        exact ⟨call, attempt, _, breaker, rfl,
          .inr ⟨hreturned, AttemptEnd.ne_permanent hdelay, rfl, delay, hdelay, hlast⟩⟩

/-! ## On the fallback -/

/-- The call under way has called `fn`, or is about to. -/
def CallsOn (policy : RetryPolicy) (s : Retrying) : Prop :=
  match s.phase with
  | .idle => ∃ call ∈ s.calls, call.attempts ≠ []
  | .looping call attempt => call.policy = policy ∧ (attempt = 0 ∨ call.attempts ≠ [])
  | .awaiting call _ => call.policy = policy ∧ call.attempts ≠ []

theorem callsOn_begin (policy : RetryPolicy) (breaker : CircuitBreaker) (clock : ℚ) :
    (Retrying.begin policy breaker clock).CallsOn policy := ⟨rfl, .inl rfl⟩

theorem callsOn_finish {policy : RetryPolicy} {call : RetryCall} (h : call.attempts ≠ [])
    (ending : CallEnd) : (s.finish call ending).CallsOn policy :=
  ⟨call, List.mem_cons_self, h⟩

/-- With no breaker in its way, a call that may make an attempt makes it. -/
theorem CallsOn.next {policy : RetryPolicy} (h : s.CallsOn policy) (hpos : 0 < policy.attempts)
    (hstep : s.unguarded.step .next = some (t, es)) : t.CallsOn policy := by
  obtain ⟨call, attempt, hphase, hnext⟩ := step_next hstep
  have hphase' : s.phase = .looping call attempt := hphase
  rw [CallsOn, hphase'] at h
  obtain ⟨hpolicy, hcalled⟩ := h
  obtain ⟨hnone, rfl⟩ | ⟨-, breaker, ⟨hopen, -⟩ | ⟨begun, rfl⟩⟩ := hnext
  · refine callsOn_finish (hcalled.resolve_left ?_) _
    rintro rfl
    rw [hpolicy] at hnone
    exact absurd hpos (not_lt.mpr hnone)
  · exact absurd rfl hopen
  · exact ⟨hpolicy, List.cons_ne_nil _ _⟩

theorem CallsOn.ends {policy : RetryPolicy} {outcome : AttemptEnd} {duration : ℚ≥0} {draw : ℚ}
    (h : s.CallsOn policy)
    (hstep : s.unguarded.step (.ends outcome duration draw) = some (t, es)) :
    t.CallsOn policy := by
  obtain ⟨call, attempt, clock, breaker, hphase, hends⟩ := step_ends hstep
  have hphase' : s.phase = .awaiting call attempt := hphase
  rw [CallsOn, hphase'] at h
  obtain ⟨hpolicy, hcalled⟩ := h
  have hended : (call.ended outcome).attempts ≠ [] := by
    rw [← List.length_pos_iff_ne_nil, RetryCall.length_ended]
    exact List.length_pos_iff_ne_nil.mpr hcalled
  obtain ⟨rfl, -⟩ | ⟨-, -, rfl, -⟩ := hends
  · exact callsOn_finish hended _
  · exact ⟨(RetryCall.policy_ended outcome).trans hpolicy, .inr hended⟩

/-- No attempt has been made, and none will be. -/
structure Unable (s : Retrying) : Prop where
  phase : match s.phase with
    | .idle => True
    | .looping call _ => call.policy.attempts ≤ 0
    | .awaiting _ _ => False
  calls : ∀ call ∈ s.calls, call.attempts = []
  ended : ∀ e ∈ s.ended, e.2 ≠ .returned

theorem unable_begin {policy : RetryPolicy} (hnone : policy.attempts ≤ 0)
    (breaker : CircuitBreaker) (clock : ℚ) : (Retrying.begin policy breaker clock).Unable := by
  refine ⟨hnone, ?_, ?_⟩
  · intro call hcall
    rw [List.mem_singleton.mp hcall]
  · intro e he
    cases he

/-- A call that makes no attempt runs out of retries at once. -/
theorem Unable.next (h : s.Unable) (hstep : s.step .next = some (t, es)) :
    t.Unable ∧ ∃ call, t = s.finish call .exhausted := by
  obtain ⟨hphase, hcalls, hended⟩ := h
  obtain ⟨call, attempt, hlooping, hnext⟩ := step_next hstep
  rw [hlooping] at hphase
  rw [Retrying.calls, hlooping] at hcalls
  obtain ⟨-, rfl⟩ | ⟨hmore, -⟩ := hnext
  · refine ⟨⟨trivial, hcalls, List.forall_mem_cons.mpr ⟨?_, hended⟩⟩, call, rfl⟩
    intro heq
    cases heq
  · have hnone : call.policy.attempts ≤ 0 := hphase
    omega

theorem Unable.not_ends (h : s.Unable) {outcome : AttemptEnd} {duration : ℚ≥0} {draw : ℚ} :
    s.step (.ends outcome duration draw) ≠ some (t, es) := by
  intro hstep
  obtain ⟨call, attempt, clock, breaker, hawaiting, -⟩ := step_ends hstep
  have hphase := h.phase
  rw [hawaiting] at hphase
  exact hphase

end Retrying

/-! ## The steps of a request -/

theorem ModelEnd.attemptEnd_of_rejects {answer : ModelEnd} (h : answer.rejects = true) :
    answer.attemptEnd = .permanent := by
  cases answer with
  | answered => cases h
  | failed exc => exact ProviderError.classify_of_malformed h

namespace ModelRequest

variable {m : ResilientChatModel} {r u : ModelRequest} {es : List BreakerEvent}

/-- What comes of a call of the primary that comes to its end. -/
theorem handOver_finish (s : Retrying) (call : RetryCall) (ending : CallEnd) :
    r.handOver m (s.finish call ending) =
      if ending.caught && m.fallback then
        { r with
          primary := s.finish call ending
          fallback := some (.begin m.policy s.breaker s.clock) }
      else { r with primary := s.finish call ending } := rfl

/-- What a step has to keep to. -/
theorem heeds_ends {answer : ModelEnd} {duration : ℚ≥0} {draw : ℚ} {call : RetryCall}
    {attempt : Nat} (hnone : r.fallback = none)
    (hphase : r.primary.phase = .awaiting call attempt) :
    r.heeds (.ends answer duration draw) = true ↔
      (answer.attemptEnd = .permanent → answer.rejects = true) ∧
        (answer.attemptEnd = .raised → r.triesAgain call attempt duration draw = true) := by
  unfold heeds
  simp only [hnone, hphase]
  cases answer with
  | answered totalTokens =>
    cases totalTokens with
    | none => simp [ModelEnd.attemptEnd]
    | some n => simp [ModelEnd.attemptEnd]
  | failed exc =>
    simp only [ModelEnd.attemptEnd, ModelEnd.rejects, Bool.and_eq_true, Bool.not_eq_true',
      Bool.or_eq_true, bne_iff_ne, ProviderError.classify_eq_permanent_iff]
    refine and_congr ?_ ?_
    · constructor
      · intro hread hend
        exact hend.resolve_right (by rw [hread]; decide)
      · intro hrejects
        cases hmisread : exc.misread with
        | false => rfl
        | true =>
          have hmalformed := ProviderError.malformed_of_misread hmisread
          rw [hrejects (.inr hmisread)] at hmalformed
          exact hmalformed
    · rw [imp_iff_not_or]

/-- What holds of a request, where it stands. -/
def Sound (m : ResilientChatModel) (r : ModelRequest) : Prop :=
  match r.fallback with
  | some s => ¬ r.Answered ∧ ¬ r.Rejected ∧ s.CallsOn m.policy
  | none =>
      match r.primary.phase with
      | .idle => r.Answered ∨ r.Rejected
      | .looping _ _ => ¬ r.Rejected
      | .awaiting _ _ => True

theorem sound_begin (breaker : CircuitBreaker) (clock : ℚ) : (begin m breaker clock).Sound m := by
  show ¬ (none : Option ModelEnd).any ModelEnd.rejects = true
  decide

/-- The primary fails, and the fallback is called next. -/
theorem sound_handOver {s : Retrying} {call : RetryCall} {ending : CallEnd}
    (hfallback : m.fallback = true) (hcaught : ending.caught = true) (hrejected : ¬ r.Rejected) :
    (r.handOver m (s.finish call ending)).Sound m := by
  rw [handOver_finish, hcaught, hfallback]
  refine ⟨?_, hrejected, Retrying.callsOn_begin _ _ _⟩
  intro hanswered
  cases Option.some.inj hanswered
  cases hcaught

theorem Sound.next (h : r.Sound m) (hfallback : m.fallback = true) (hpos : 0 < m.policy.attempts)
    (hstep : r.step m .next = some (u, es)) : u.Sound m := by
  unfold step at hstep
  cases hf : r.fallback with
  | some s =>
    simp only [hf] at hstep
    obtain ⟨p, hp, heq⟩ := Option.map_eq_some_iff.mp hstep
    cases heq
    rw [Sound, hf] at h
    exact ⟨h.1, h.2.1, h.2.2.next hpos hp⟩
  | none =>
    simp only [hf] at hstep
    obtain ⟨p, hp, heq⟩ := Option.map_eq_some_iff.mp hstep
    cases heq
    obtain ⟨call, attempt, hphase, hnext⟩ := Retrying.step_next hp
    simp only [Sound, hf, hphase] at h
    obtain ⟨-, heq⟩ | ⟨-, breaker, ⟨-, reopensIn, heq⟩ | ⟨begun, heq⟩⟩ := hnext
    · rw [heq]
      exact sound_handOver hfallback rfl h
    · rw [heq]
      exact sound_handOver hfallback rfl h
    · rw [heq, handOver, Sound]
      simp only [hf]

/-- The one place where the condition counts: the primary's last call is none that `ainvoke`
does not catch, or it rejects the request. -/
theorem Sound.ends (h : r.Sound m) (hfallback : m.fallback = true) {answer : ModelEnd}
    {duration : ℚ≥0} {draw : ℚ} (hstep : r.step m (.ends answer duration draw) = some (u, es))
    (hheeds : r.heeds (.ends answer duration draw) = true) : u.Sound m := by
  unfold step at hstep
  cases hf : r.fallback with
  | some s =>
    simp only [hf] at hstep
    obtain ⟨p, hp, heq⟩ := Option.map_eq_some_iff.mp hstep
    cases heq
    rw [Sound, hf] at h
    exact ⟨h.1, h.2.1, h.2.2.ends hp⟩
  | none =>
    simp only [hf] at hstep
    obtain ⟨p, hp, heq⟩ := Option.map_eq_some_iff.mp hstep
    cases heq
    obtain ⟨call, attempt, clock, breaker, hphase, hends⟩ := Retrying.step_ends hp
    obtain ⟨hpermanent, hraised⟩ := (heeds_ends hf hphase).mp hheeds
    have hrejects : answer.attemptEnd ≠ .permanent →
        ¬ ({ r with last := some answer } : ModelRequest).Rejected :=
      fun hne hrejects => hne (ModelEnd.attemptEnd_of_rejects hrejects)
    obtain ⟨heq, hstops⟩ | ⟨-, hne, heq, -⟩ := hends
    · rw [heq]
      cases hend : answer.attemptEnd with
      | returned =>
        rw [handOver_finish]
        simp only [Sound]
        exact .inl rfl
      | permanent =>
        rw [handOver_finish]
        simp only [Sound]
        exact .inr (hpermanent hend)
      | transient retryAfter =>
        refine sound_handOver hfallback rfl (hrejects ?_)
        rw [hend]
        intro heq
        cases heq
      | raised =>
        -- this is no last attempt
        have htries := hraised hend
        rw [hend] at hstops
        simp only [triesAgain, Bool.and_eq_true, decide_eq_true_eq] at htries
        obtain hlast | hlate := hstops _ rfl
        · exact absurd hlast htries.1
        · exact absurd hlate (not_le.mpr htries.2)
    · rw [heq, handOver]
      simp only [Sound]
      exact hrejects hne

/-- **A step that keeps to the condition keeps a request sound.** -/
theorem Sound.step (h : r.Sound m) (hfallback : m.fallback = true)
    (hpos : 0 < m.policy.attempts) {a : ModelRequestAction} (hstep : r.step m a = some (u, es))
    (hheeds : r.heeds a = true) : u.Sound m := by
  cases a with
  | next => exact h.next hfallback hpos hstep
  | ends answer duration draw => exact h.ends hfallback hstep hheeds
  | others breaker pause =>
    unfold ModelRequest.step at hstep
    cases hover : r.over with
    | true => simp [hover] at hstep
    | false =>
      simp only [hover] at hstep
      cases hstep
      cases hf : r.fallback with
      | none =>
        simp only [Sound, hf] at h
        exact h
      | some s =>
        simp only [Sound, hf] at h
        exact h

/-- A request that is over and sound has fallen back as promised. -/
theorem Sound.fallsBack (h : r.Sound m) (hover : r.over = true) : r.FallsBack := by
  rw [ModelRequest.over, decide_eq_true_eq] at hover
  cases hf : r.fallback with
  | none =>
    rw [hf] at hover
    have hphase : r.primary.phase = .idle := hover
    simp only [Sound, hf, hphase] at h
    refine ⟨?_, ?_⟩
    · rintro ⟨s, hs, -⟩
      rw [hf] at hs
      cases hs
    · rintro ⟨hanswered, hrejected⟩
      exact absurd h (not_or.mpr ⟨hanswered, hrejected⟩)
  | some s =>
    rw [hf] at hover
    have hphase : s.phase = .idle := hover
    simp only [Sound, hf, Retrying.CallsOn, hphase] at h
    exact ⟨fun _ => ⟨h.1, h.2.1⟩, fun _ => ⟨s, hf, h.2.2⟩⟩

/-! ## What goes wrong -/

/-- The primary has failed and has not rejected the request, and nothing more is done. -/
structure Dropped (r : ModelRequest) : Prop where
  fallback : r.fallback = none
  idle : r.primary.phase = .idle
  answered : ¬ r.Answered
  rejected : ¬ r.Rejected

theorem Dropped.not_fallsBack (h : r.Dropped) : ¬ r.FallsBack := by
  intro hfalls
  obtain ⟨s, hs, -⟩ := hfalls.mpr ⟨h.answered, h.rejected⟩
  rw [h.fallback] at hs
  cases hs

/-- Nothing is done that is over. -/
theorem Dropped.step (h : r.Dropped) (a : ModelRequestAction) : r.step m a ≠ some (u, es) := by
  have hover : r.over = true := by
    rw [ModelRequest.over, h.fallback, Option.getD_none, h.idle]
    rfl
  intro hstep
  unfold ModelRequest.step at hstep
  cases a with
  | others => simp [hover] at hstep
  | next => simp [h.fallback, Retrying.step, h.idle] at hstep
  | ends => simp [h.fallback, Retrying.step, h.idle] at hstep

/-- **A step that does not keep to the condition drops the request.** -/
theorem dropped_of_step {a : ModelRequestAction} (hstep : r.step m a = some (u, es))
    (hheeds : r.heeds a = false) : u.Dropped := by
  cases a with
  | others => cases hheeds
  | next => cases hheeds
  | ends answer duration draw =>
    unfold step at hstep
    cases hf : r.fallback with
    | some s =>
      simp only [heeds, hf] at hheeds
      cases hheeds
    | none =>
      simp only [hf] at hstep
      obtain ⟨p, hp, heq⟩ := Option.map_eq_some_iff.mp hstep
      cases heq
      obtain ⟨call, attempt, clock, breaker, hphase, hends⟩ := Retrying.step_ends hp
      have hnot := mt (heeds_ends hf hphase).mpr (by rw [hheeds]; decide)
      have hdropped : ∀ outcome, outcome ≠ .returned → answer.rejects = false →
          (∀ retryAfter, outcome ≠ .transient retryAfter) →
          p.1 = ({ r.primary with clock, breaker } : Retrying).finish (call.ended outcome)
            (Retrying.lastEnd outcome) →
          (({ primary := r.primary, last := some answer } : ModelRequest).handOver
            m p.1).Dropped := by
        intro outcome hreturned hrejects htransient heq
        rw [heq, Retrying.lastEnd, if_neg hreturned, handOver_finish]
        have hcaught : (CallEnd.raised outcome).caught = false := by
          cases outcome with
          | transient retryAfter => exact absurd rfl (htransient retryAfter)
          | returned => rfl
          | permanent => rfl
          | raised => rfl
        rw [hcaught]
        refine ⟨rfl, rfl, ?_, Bool.eq_false_iff.mp hrejects⟩
        intro hanswered
        cases Option.some.inj hanswered
      rw [not_and_or, Classical.not_imp, Classical.not_imp] at hnot
      obtain ⟨hend, hrejects⟩ | ⟨hend, htries⟩ := hnot
      · obtain ⟨heq, -⟩ | ⟨-, hne, -⟩ := hends
        · refine hdropped _ ?_ (Bool.eq_false_iff.mpr hrejects) ?_ heq
          · rw [hend]
            intro h
            cases h
          · rw [hend]
            intro retryAfter h
            cases h
        · exact absurd hend hne
      · have hrejects : answer.rejects = false := by
          rw [Bool.eq_false_iff]
          intro hrejects
          cases hend.symm.trans (ModelEnd.attemptEnd_of_rejects hrejects)
        obtain ⟨heq, -⟩ | ⟨-, -, -, delay, hdelay, hgoes⟩ := hends
        · refine hdropped _ ?_ hrejects ?_ heq
          · rw [hend]
            intro h
            cases h
          · rw [hend]
            intro retryAfter h
            cases h
        · rw [hend] at hdelay
          cases hdelay
          obtain ⟨hmore, htime⟩ := not_or.mp hgoes
          refine absurd ?_ htries
          simp only [triesAgain, Bool.and_eq_true, decide_eq_true_eq]
          exact ⟨hmore, not_le.mp htime⟩

/-- Without an attempt no model is called. -/
structure Unasked (r : ModelRequest) : Prop where
  primary : r.primary.Unable
  fallback : ∀ s ∈ r.fallback, s.Unable
  last : r.last = none

theorem Unasked.not_fallsBack (h : r.Unasked) : ¬ r.FallsBack := by
  intro hfalls
  have hanswered : ¬ r.Answered := by
    intro hanswered
    obtain ⟨e, he, hreturned⟩ := Option.map_eq_some_iff.mp hanswered
    exact h.primary.ended e (List.mem_of_mem_head? he) hreturned
  have hrejected : ¬ r.Rejected := by
    rw [Rejected, h.last]
    decide
  obtain ⟨s, hs, call, hcall, hcalled⟩ := hfalls.mpr ⟨hanswered, hrejected⟩
  exact hcalled ((h.fallback s hs).calls call hcall)

theorem unasked_begin (hnone : m.policy.attempts ≤ 0) (breaker : CircuitBreaker) (clock : ℚ) :
    (begin m breaker clock).Unasked := by
  refine ⟨Retrying.unable_begin hnone _ _, ?_, rfl⟩
  intro s hs
  cases hs

theorem Unasked.step (h : r.Unasked) (hnone : m.policy.attempts ≤ 0) {a : ModelRequestAction}
    (hstep : r.step m a = some (u, es)) : u.Unasked := by
  unfold ModelRequest.step at hstep
  cases a with
  | others breaker pause =>
    cases hover : r.over with
    | true => simp [hover] at hstep
    | false =>
      simp only [hover] at hstep
      cases hstep
      refine ⟨⟨h.primary.phase, h.primary.calls, h.primary.ended⟩, ?_, h.last⟩
      intro s hs
      obtain ⟨t, ht, rfl⟩ := Option.map_eq_some_iff.mp hs
      have hunable := h.fallback t ht
      exact ⟨hunable.phase, hunable.calls, hunable.ended⟩
  | ends answer duration draw =>
    cases hf : r.fallback with
    | none =>
      simp only [hf] at hstep
      obtain ⟨p, hp, -⟩ := Option.map_eq_some_iff.mp hstep
      exact absurd hp h.primary.not_ends
    | some s =>
      simp only [hf] at hstep
      obtain ⟨p, hp, -⟩ := Option.map_eq_some_iff.mp hstep
      have hunable := h.fallback s hf
      have hunguarded : s.unguarded.Unable := ⟨hunable.phase, hunable.calls, hunable.ended⟩
      exact absurd hp hunguarded.not_ends
  | next =>
    cases hf : r.fallback with
    | none =>
      simp only [hf] at hstep
      obtain ⟨p, hp, heq⟩ := Option.map_eq_some_iff.mp hstep
      cases heq
      obtain ⟨hunable, call, hfinish⟩ := h.primary.next hp
      rw [hfinish] at hunable ⊢
      rw [handOver_finish]
      split
      · refine ⟨hunable, ?_, h.last⟩
        intro s hs
        cases hs
        exact Retrying.unable_begin hnone _ _
      · refine ⟨hunable, ?_, h.last⟩
        intro s hs
        rw [hf] at hs
        cases hs
    | some s =>
      simp only [hf] at hstep
      obtain ⟨p, hp, heq⟩ := Option.map_eq_some_iff.mp hstep
      cases heq
      have hunable := h.fallback s hf
      have hunguarded : s.unguarded.Unable := ⟨hunable.phase, hunable.calls, hunable.ended⟩
      refine ⟨h.primary, ?_, h.last⟩
      intro t ht
      cases ht
      exact (hunguarded.next hp).1

end ModelRequest

/-! ## Every request comes to its end -/

/-- How many steps a call has left at most. -/
def Retrying.left (s : Retrying) : Nat :=
  match s.phase with
  | .idle => 0
  | .looping call attempt => 2 * (call.policy.attempts.toNat - attempt) + 1
  | .awaiting call attempt => 2 * (call.policy.attempts.toNat - attempt)

/-- An attempt under way is one that the policy allows. -/
def Retrying.Allowed (s : Retrying) : Prop :=
  match s.phase with
  | .awaiting call attempt => (attempt : Int) < call.policy.attempts
  | _ => True

section Steps

variable {s t : Retrying} {es : List BreakerEvent}

theorem Retrying.left_next (h : s.step .next = some (t, es)) : t.left < s.left ∧ t.Allowed := by
  obtain ⟨call, attempt, hphase, hnext⟩ := Retrying.step_next h
  have hleft : s.left = 2 * (call.policy.attempts.toNat - attempt) + 1 := by
    rw [Retrying.left, hphase]
  rw [hleft]
  obtain ⟨-, rfl⟩ | ⟨hmore, breaker, ⟨-, reopensIn, rfl⟩ | ⟨begun, rfl⟩⟩ := hnext
  · exact ⟨Nat.succ_pos _, trivial⟩
  · exact ⟨Nat.succ_pos _, trivial⟩
  · exact ⟨Nat.lt_succ_self _, hmore⟩

theorem Retrying.left_ends {outcome : AttemptEnd} {duration : ℚ≥0} {draw : ℚ}
    (h : s.step (.ends outcome duration draw) = some (t, es)) (hallowed : s.Allowed) :
    t.left < s.left ∧ t.Allowed := by
  obtain ⟨call, attempt, clock, breaker, hphase, hends⟩ := Retrying.step_ends h
  have hleft : s.left = 2 * (call.policy.attempts.toNat - attempt) := by
    rw [Retrying.left, hphase]
  have hmore : (attempt : Int) < call.policy.attempts := by
    rw [Retrying.Allowed, hphase] at hallowed
    exact hallowed
  rw [hleft]
  obtain ⟨rfl, -⟩ | ⟨-, -, rfl, -⟩ := hends
  · refine ⟨?_, trivial⟩
    show 0 < _
    omega
  · refine ⟨?_, trivial⟩
    show 2 * ((call.ended outcome).policy.attempts.toNat - (attempt + 1)) + 1 < _
    rw [RetryCall.policy_ended]
    omega

/-- A call that has not ended goes on, whatever `fn` does. -/
theorem Retrying.isSome_step (h : s.phase ≠ .idle) (outcome : AttemptEnd) (duration : ℚ≥0)
    (draw : ℚ) :
    (s.step .next).isSome = true ∨ (s.step (.ends outcome duration draw)).isSome = true := by
  unfold Retrying.step
  cases hphase : s.phase with
  | idle => exact absurd hphase h
  | looping call attempt =>
    refine .inl ?_
    simp only
    split
    · rcases s.breaker.isOpen s.clock with ⟨breaker, _ | _, fs⟩ <;> rfl
    · rfl
  | awaiting call attempt =>
    refine .inr ?_
    simp only
    split
    · rfl
    · split <;> rfl

end Steps

namespace ModelRequest

variable {m : ResilientChatModel} {r u : ModelRequest} {es : List BreakerEvent}

/-- The steps of the request itself. -/
def own : ModelRequestAction → Bool
  | .others _ _ => false
  | .next | .ends _ _ _ => true

/-- How many steps a request has left at most. -/
def left (m : ResilientChatModel) (r : ModelRequest) : Nat :=
  match r.fallback with
  | some s => s.left
  | none =>
      if r.primary.phase = .idle then 0
      else r.primary.left + (2 * m.policy.attempts.toNat + 1)

/-- What is under way is what the policy allows. -/
def Allowed (r : ModelRequest) : Prop := (r.fallback.getD r.primary).Allowed

/-- When the primary comes to its end there is at most what the fallback has left. -/
theorem left_handOver {p : Retrying} (hnone : r.fallback = none) (hleft : p.left < r.primary.left)
    (hallowed : p.Allowed) (hphase : r.primary.phase ≠ .idle) :
    (r.handOver m p).left m < r.left m ∧ (r.handOver m p).Allowed := by
  have hbefore : r.left m = r.primary.left + (2 * m.policy.attempts.toNat + 1) := by
    rw [left, hnone]
    simp only [hphase, if_false]
  have hkept : ({ r with primary := p } : ModelRequest).left m < r.left m := by
    rw [hbefore, left, hnone]
    simp only
    split <;> omega
  have hkeeps : ({ r with primary := p } : ModelRequest).Allowed := by
    rw [Allowed, hnone]
    exact hallowed
  rw [handOver]
  split
  · split
    · refine ⟨?_, trivial⟩
      rw [hbefore]
      show 2 * (m.policy.attempts.toNat - 0) + 1 < _
      omega
    · exact ⟨hkept, hkeeps⟩
  · exact ⟨hkept, hkeeps⟩

/-- **A step of the request itself brings it nearer to its end.** -/
theorem left_step {a : ModelRequestAction} (hstep : r.step m a = some (u, es))
    (hallowed : r.Allowed) :
    (if own a then u.left m < r.left m else u.left m = r.left m) ∧ u.Allowed := by
  unfold step at hstep
  cases a with
  | others breaker pause =>
    cases hover : r.over with
    | true => simp [hover] at hstep
    | false =>
      simp only [hover] at hstep
      cases hstep
      cases hf : r.fallback with
      | none =>
        rw [Allowed, hf] at hallowed
        refine ⟨?_, hallowed⟩
        show left m _ = left m r
        simp only [left, hf]
        rfl
      | some s =>
        rw [Allowed, hf] at hallowed
        refine ⟨?_, hallowed⟩
        show left m _ = left m r
        simp only [left, hf]
        rfl
  | next =>
    rw [own, if_pos rfl]
    cases hf : r.fallback with
    | none =>
      simp only [hf] at hstep
      obtain ⟨p, hp, heq⟩ := Option.map_eq_some_iff.mp hstep
      cases heq
      obtain ⟨hleft, hallowed'⟩ := Retrying.left_next hp
      obtain ⟨call, attempt, hphase, -⟩ := Retrying.step_next hp
      refine left_handOver hf hleft hallowed' ?_
      rw [hphase]
      intro h
      cases h
    | some s =>
      simp only [hf] at hstep
      obtain ⟨p, hp, heq⟩ := Option.map_eq_some_iff.mp hstep
      cases heq
      have hnear : p.1.left < s.left ∧ p.1.Allowed :=
        Retrying.left_next (s := s.unguarded) hp
      simp only [left, hf]
      exact hnear
  | ends answer duration draw =>
    rw [own, if_pos rfl]
    cases hf : r.fallback with
    | none =>
      rw [Allowed, hf] at hallowed
      simp only [hf] at hstep
      obtain ⟨p, hp, heq⟩ := Option.map_eq_some_iff.mp hstep
      cases heq
      obtain ⟨hleft, hallowed'⟩ := Retrying.left_ends hp hallowed
      obtain ⟨call, attempt, clock, breaker, hphase, -⟩ := Retrying.step_ends hp
      have hnear := left_handOver (m := m) (r := { primary := r.primary, last := some answer })
        rfl hleft hallowed' (by
          show r.primary.phase ≠ .idle
          rw [hphase]
          intro h
          cases h)
      simpa only [left, hf] using hnear
    | some s =>
      rw [Allowed, hf] at hallowed
      simp only [hf] at hstep
      obtain ⟨p, hp, heq⟩ := Option.map_eq_some_iff.mp hstep
      cases heq
      have hnear : p.1.left < s.left ∧ p.1.Allowed :=
        Retrying.left_ends (s := s.unguarded) hp hallowed
      simp only [left, hf]
      exact hnear

/-- A request that is not over goes on, whatever its model does. -/
theorem isSome_step (h : r.over = false) (answer : ModelEnd) (duration : ℚ≥0) (draw : ℚ) :
    (r.step m .next).isSome = true ∨ (r.step m (.ends answer duration draw)).isSome = true := by
  have hphase : (r.fallback.getD r.primary).phase ≠ .idle := by
    intro hidle
    rw [ModelRequest.over, hidle] at h
    cases h
  unfold step
  cases hf : r.fallback with
  | none =>
    rw [hf] at hphase
    simp only [Option.isSome_map]
    exact Retrying.isSome_step hphase _ _ _
  | some s =>
    rw [hf] at hphase
    simp only [Option.isSome_map]
    exact Retrying.isSome_step (s := s.unguarded) hphase _ _ _

end ModelRequest

/-- **Every request comes to its end**: it takes a bounded number of steps of its own, and until
it is over there is one that it can take. -/
theorem request_ends {m : ResilientChatModel} {breaker : CircuitBreaker} {clock : ℚ}
    {as : List ModelRequestAction} {r : ModelRequest} {es : List BreakerEvent}
    (hrun : Run (Computes (ModelRequest.step m)) (.begin m breaker clock) as r es) :
    (as.filter ModelRequest.own).length ≤ 4 * m.policy.attempts.toNat + 2 ∧
      (r.over = false → ∀ answer duration draw,
        (r.step m .next).isSome = true ∨
          (r.step m (.ends answer duration draw)).isSome = true) := by
  have hallowed : (ModelRequest.begin m breaker clock).Allowed := trivial
  have hbounded := (hrun.length_filter_le (p := ModelRequest.own) (f := ModelRequest.left m)
    hallowed fun hs hallowed => ModelRequest.left_step hs hallowed).1
  have hfirst : (ModelRequest.begin m breaker clock).left m =
      2 * (m.policy.attempts.toNat - 0) + 1 + (2 * m.policy.attempts.toNat + 1) := rfl
  refine ⟨?_, fun hover => ModelRequest.isSome_step hover⟩
  omega

/-! ## Whole requests -/

/-- The tokens of the minute are used up. -/
def rateLimitedByMinute : ProviderError :=
  { statusCode := some (.number 429)
    text := "Error code: 429 - Rate limit reached for model on tokens per minute (TPM)".toList
    retryAfter := some 2 }

/-- The tokens of the day are used up. -/
def rateLimitedByDay : ProviderError :=
  { statusCode := some (.number 429)
    text := "Error code: 429 - Rate limit reached for model on tokens per day (TPD)".toList }

/-- **A request that is over has fallen back as promised if and only if the policy has an attempt
to make and every step has kept to the condition.** -/
theorem fallback_called_iff {m : ResilientChatModel} (hfallback : m.fallback = true)
    {breaker : CircuitBreaker} {clock : ℚ} {as : List ModelRequestAction} {r : ModelRequest}
    {es : List BreakerEvent}
    (hrun : Run (Computes (ModelRequest.step m)) (.begin m breaker clock) as r es)
    (hover : r.over = true) :
    r.FallsBack ↔ 0 < m.policy.attempts ∧
      Run (Computes (restrict ModelRequest.heeds (ModelRequest.step m))) (.begin m breaker clock)
        as r es := by
  constructor
  · intro hfalls
    refine ⟨?_, ?_⟩
    · by_contra hnone
      have hunasked : r.Unasked := hrun.invariant (I := fun r _ => r.Unasked)
        (ModelRequest.unasked_begin (not_lt.mp hnone) _ _) fun h hs => h.step (not_lt.mp hnone) hs
      exact hunasked.not_fallsBack hfalls
    · have hor := hrun.restrict_or (Q := ModelRequest.Dropped) ModelRequest.dropped_of_step
        fun hdropped hs => absurd hs (hdropped.step _)
      exact hor.resolve_right fun hdropped => hdropped.not_fallsBack hfalls
  · rintro ⟨hpos, hkept⟩
    have hsound : r.Sound m := hkept.invariant_restrict (I := fun r _ => r.Sound m)
      (ModelRequest.sound_begin _ _) fun h hs hheeds => h.step hfallback hpos hs hheeds
    exact hsound.fallsBack hover

/-- Three per-minute rate limits, and the fallback answers. -/
theorem fallback_called_after_rate_limits :
    ∃ r es, Run (Computes (ModelRequest.step { policy := {}, fallback := true }))
      (.begin { policy := {}, fallback := true } { name := "groq" } 0)
      [.next, .ends (.failed rateLimitedByMinute) 1 0, .next,
        .ends (.failed rateLimitedByMinute) 1 0, .next, .ends (.failed rateLimitedByMinute) 1 0,
        .next, .ends (.answered (some 900)) 1 0] r es ∧
      r.over = true ∧ r.FallsBack := by
  obtain ⟨r, es, hkept, hover⟩ := exists_run_of_play
    (restrict ModelRequest.heeds (ModelRequest.step { policy := {}, fallback := true }))
    (.begin { policy := {}, fallback := true } { name := "groq" } 0)
    [.next, .ends (.failed rateLimitedByMinute) 1 0, .next,
      .ends (.failed rateLimitedByMinute) 1 0, .next, .ends (.failed rateLimitedByMinute) 1 0,
      .next, .ends (.answered (some 900)) 1 0]
    (fun r _ => r.over) (by decide +kernel)
  have hrun : Run (Computes (ModelRequest.step { policy := {}, fallback := true })) _ _ r es :=
    hkept.mono fun hs => (restrict_eq_some.mp hs).2
  exact ⟨r, es, hrun, hover, (fallback_called_iff rfl hrun hover).mpr ⟨by decide, hkept⟩⟩

/-- The tokens of the day are used up: the fallback is not called. -/
theorem fallback_not_called_for_day : ¬ ∀ (m : ResilientChatModel) (breaker : CircuitBreaker)
    (clock : ℚ) (as : List ModelRequestAction) (r : ModelRequest) (es : List BreakerEvent),
    m.fallback = true → Run (Computes (ModelRequest.step m)) (.begin m breaker clock) as r es →
      r.over = true → r.FallsBack := by
  intro h
  obtain ⟨r, es, hrun, hs⟩ := exists_run_of_play
    (ModelRequest.step { policy := {}, fallback := true })
    (.begin { policy := {}, fallback := true } { name := "groq" } 0)
    [.next, .ends (.failed rateLimitedByDay) 1 0]
    (fun r _ => decide (r.over = true ∧ r.fallback = none ∧ r.primary.phase = .idle ∧
      (r.primary.ended.head?.map Prod.snd) ≠ some .returned ∧
      ¬ r.last.any ModelEnd.rejects = true)) (by decide +kernel)
  obtain ⟨hover, hnone, hidle, hanswered, hrejected⟩ := of_decide_eq_true hs
  exact ModelRequest.Dropped.not_fallsBack ⟨hnone, hidle, hanswered, hrejected⟩
    (h _ _ _ _ r es rfl hrun hover)

end OmniCare
