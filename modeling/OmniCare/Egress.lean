import OmniCare.Rounding
import OmniCare.Runs
import Mathlib.Algebra.Order.BigOperators.Group.List
import Mathlib.Algebra.Order.Field.Rat
import Mathlib.Data.NNRat.Defs
import Mathlib.Tactic.Linarith

/-! # The egress limiter

`EgressLimiter` of `agent/app/providers/resilient.py`, and the model calls of `ResilientChatModel`
that pass it, await by await.  `acquire` holds a lock while it sleeps; the model call and `record`
do not, so calls complete in any order, also while an `acquire` sleeps.

What is left of the ledger only gets less with time (`trailing_anti`), and an entry that has left
the minute does not come back (`fresh_of_le`).
-/
namespace OmniCare

/-! ## The limiter -/

/-- An entry of the ledger. -/
structure Spend where
  spentAt : ℚ
  tokens : Int
  deriving DecidableEq, Repr

/-- The entry is in the trailing minute. -/
def Spend.fresh (now : ℚ) (e : Spend) : Bool := decide (now - e.spentAt < 60)

/-- `EgressLimiter`. -/
structure EgressLimiter where
  minInterval : ℚ
  tokensPerMinute : Int
  last : ℚ := 0
  ledger : List Spend := []
  estimate : Int := 2000
  deriving DecidableEq, Repr

open Rounding

namespace EgressLimiter

/-- `__init__`. -/
def new (requestsPerMinute tokensPerMinute : Int) : EgressLimiter :=
  { minInterval := 60 / (max requestsPerMinute 1 : Int), tokensPerMinute }

variable (l : EgressLimiter)

/-- What `_spent_last_minute` leaves in the ledger. -/
def prune (now : ℚ) : EgressLimiter := { l with ledger := l.ledger.filter (Spend.fresh now) }

/-- What `_spent_last_minute` returns. -/
def trailing (now : ℚ) : Int := ((l.ledger.filter (Spend.fresh now)).map Spend.tokens).sum

/-- How long `acquire` sleeps when the budget is reached: until the oldest entry has left the
minute. -/
def holdFor (now : ℚ) : Option ℚ :=
  match l.ledger with
  | [] => none
  | oldest :: _ =>
      if 0 < l.tokensPerMinute ∧ l.tokensPerMinute < l.trailing now + l.estimate then
        some (max 0 (60 - (now - oldest.spentAt)) + 1 / 4)
      else none

/-- How long `acquire` still sleeps after that. -/
def paceFor (now : ℚ) : ℚ := l.minInterval - (now - l.last)

/-- The estimate is reserved. -/
def reserve (now : ℚ) : EgressLimiter :=
  { l with last := now, ledger := l.ledger ++ [⟨now, l.estimate⟩] }

/-- `int(0.7 * self._estimate + 0.3 * tokens)`, of binary64 numbers. -/
def smoothed (tokens : Int) : Int :=
  let kept : ℚ := binary64 (binary64 (7 / 10) * binary64 (l.estimate : ℚ))
  let added : ℚ := binary64 (binary64 (3 / 10) * binary64 (tokens : ℚ))
  ⌊binary64 (kept + added)⌋

/-- `record`. -/
def record (tokens : Int) : EgressLimiter :=
  match l.ledger.getLast? with
  | none => l
  | some reserved =>
      if tokens ≤ 0 then { l with ledger := l.ledger.dropLast }
      else
        { l with
          ledger := l.ledger.dropLast ++ [{ reserved with tokens }]
          estimate := l.smoothed tokens }

end EgressLimiter

/-! ## Model calls -/

/-- What has become of a model call. -/
inductive ModelCallStatus
  | inFlight
  /-- It has returned; `tokens` is the usage that it reports, or 0. -/
  | completed (tokens : Int)
  | failed
  deriving DecidableEq, Repr

/-- A model call, with what its `acquire` has reserved. -/
structure ModelCall where
  reserved : Spend
  status : ModelCallStatus := .inFlight
  deriving DecidableEq, Repr

/-- Where the `acquire` stands that has the lock. -/
inductive AcquireStage
  /-- The lock is free. -/
  | free
  /-- Asleep until the oldest entry has left the minute. -/
  | holding (wakes : ℚ)
  /-- Asleep until `min_interval` is over. -/
  | pacing (wakes : ℚ)
  deriving DecidableEq, Repr

/-- When the sleep ends. -/
def AcquireStage.wakes : AcquireStage → Option ℚ
  | .free => none
  | .holding wakes | .pacing wakes => some wakes

/-- The clock, the limiter and the model calls, in the order of their reservations. -/
structure Egress where
  clock : ℚ
  limiter : EgressLimiter
  stage : AcquireStage := .free
  calls : List ModelCall := []
  deriving DecidableEq, Repr

/-- What happens next. -/
inductive EgressAction
  | elapse (duration : ℚ≥0)
  /-- An `acquire` takes the lock. -/
  | enter
  /-- Its first sleep is over. -/
  | wake
  /-- Its second sleep is over. -/
  | resume
  /-- A model call returns, and its usage is recorded. -/
  | completes (call : Nat) (tokens : Int)
  /-- A model call raises. -/
  | fails (call : Nat)

/-- A return of `acquire`. -/
structure Grant where
  limiter : EgressLimiter
  now : ℚ
  deriving DecidableEq, Repr

namespace Egress

/-- A new limiter. -/
def new (requestsPerMinute tokensPerMinute : Int) (clock : ℚ) : Egress :=
  { clock, limiter := .new requestsPerMinute tokensPerMinute }

variable (s : Egress)

/-- `acquire` comes to its end: the model is called. -/
def grant : Egress × List Grant :=
  let limiter := s.limiter.reserve s.clock
  ({ s with
    limiter
    stage := .free
    calls := s.calls ++ [{ reserved := ⟨s.clock, s.limiter.estimate⟩ }] },
    [⟨limiter, s.clock⟩])

/-- `acquire` keeps to `min_interval`. -/
def pace : Egress × List Grant :=
  let wait := s.limiter.paceFor s.clock
  if 0 < wait then ({ s with stage := .pacing (s.clock + wait) }, []) else s.grant

/-- The budget is checked: only a limiter with a budget looks at its ledger. -/
def checked : EgressLimiter :=
  if 0 < s.limiter.tokensPerMinute then s.limiter.prune s.clock else s.limiter

/-- A model call under way has come to an end. -/
def settle (call : Nat) (status : ModelCallStatus) : Option Egress :=
  match s.calls[call]? with
  | some ⟨reserved, .inFlight⟩ =>
      some { s with calls := s.calls.set call ⟨reserved, status⟩ }
  | _ => none

/-- One step of one call, or time. -/
def step (s : Egress) : EgressAction → Option (Egress × List Grant)
  | .elapse duration => some ({ s with clock := s.clock + duration }, [])
  | .enter =>
      match s.stage with
      | .free =>
          let limiter := s.checked
          match limiter.holdFor s.clock with
          | some wait => some ({ s with limiter, stage := .holding (s.clock + wait) }, [])
          | none => some ({ s with limiter } : Egress).pace
      | _ => none
  | .wake =>
      match s.stage with
      | .holding wakes =>
          if wakes ≤ s.clock then
            some ({ s with limiter := s.limiter.prune s.clock } : Egress).pace
          else none
      | _ => none
  | .resume =>
      match s.stage with
      | .pacing wakes => if wakes ≤ s.clock then some s.grant else none
      | _ => none
  | .completes call tokens =>
      (s.settle call (.completed tokens)).map fun s =>
        ({ s with limiter := s.limiter.record tokens }, [])
  | .fails call => (s.settle call .failed).map fun s => (s, [])

end Egress

/-! ## The trailing minute -/

theorem Spend.fresh_iff {now : ℚ} {e : Spend} : e.fresh now = true ↔ now < e.spentAt + 60 := by
  rw [fresh, decide_eq_true_eq, sub_lt_iff_lt_add']

/-- What is in the trailing minute later is in it now. -/
theorem Spend.fresh_of_le {now later : ℚ} (hle : now ≤ later) {e : Spend}
    (h : e.fresh later = true) : e.fresh now = true :=
  Spend.fresh_iff.mpr (lt_of_le_of_lt hle (Spend.fresh_iff.mp h))

theorem filter_fresh_filter {now later : ℚ} (hle : now ≤ later) (es : List Spend) :
    (es.filter (Spend.fresh now)).filter (Spend.fresh later) = es.filter (Spend.fresh later) := by
  rw [List.filter_filter]
  refine List.filter_congr fun e _ => ?_
  cases hfresh : e.fresh later with
  | false => simp
  | true => simp [Spend.fresh_of_le hle hfresh]

namespace EgressLimiter

variable {l : EgressLimiter} {now later : ℚ}

theorem trailing_prune (hle : now ≤ later) : (l.prune now).trailing later = l.trailing later := by
  simp only [trailing, prune, filter_fresh_filter hle]

/-- **What has been spent in the trailing minute gets less with time.** -/
theorem trailing_anti (hnonneg : ∀ e ∈ l.ledger, 0 ≤ e.tokens) (hle : now ≤ later) :
    l.trailing later ≤ l.trailing now := by
  refine List.Sublist.sum_le_sum ?_ ?_
  · rw [← filter_fresh_filter hle l.ledger]
    exact List.filter_sublist.map _
  · intro n hn
    obtain ⟨e, he, rfl⟩ := List.mem_map.mp hn
    exact hnonneg e (List.mem_filter.mp he).1

/-- A reservation counts from the moment it is made. -/
theorem trailing_reserve : (l.reserve now).trailing now = l.trailing now + l.estimate := by
  have hnew : Spend.fresh now ⟨now, l.estimate⟩ = true := Spend.fresh_iff.mpr (by simp)
  simp [trailing, reserve, List.filter_append, hnew]

theorem smoothed_nonneg {tokens : Int} (hestimate : 0 ≤ l.estimate) (htokens : 0 ≤ tokens) :
    0 ≤ l.smoothed tokens := by
  have hkept : (0 : ℚ) ≤ binary64 (binary64 (7 / 10) * binary64 (l.estimate : ℚ)) :=
    binary64_nonneg (mul_nonneg (binary64_nonneg (by norm_num))
      (binary64_nonneg (by exact_mod_cast hestimate)))
  have hadded : (0 : ℚ) ≤ binary64 (binary64 (3 / 10) * binary64 (tokens : ℚ)) :=
    binary64_nonneg (mul_nonneg (binary64_nonneg (by norm_num))
      (binary64_nonneg (by exact_mod_cast htokens)))
  exact Int.floor_nonneg.mpr (binary64_nonneg (add_nonneg hkept hadded))

theorem mem_prune {e : Spend} (h : e ∈ (l.prune now).ledger) : e ∈ l.ledger :=
  (List.mem_filter.mp h).1

end EgressLimiter

end OmniCare
