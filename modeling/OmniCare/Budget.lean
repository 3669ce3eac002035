import OmniCare.Egress

/-! # The token budget

`acquire` waits for the oldest entry of the ledger to leave the minute, and for that one only, and
reserves what the estimate is when it has slept.  **In every run in which what leaves the minute
during the wait makes room for the estimate, and no usage recorded during an `acquire` takes that
room, the ledger is within the budget whenever `acquire` returns** (`granted_within_budget`).
-/
namespace OmniCare

/-- What is left of the ledger at a time is within the budget, with the estimate. -/
def EgressLimiter.fits (l : EgressLimiter) (now : ℚ) : Bool :=
  decide (l.trailing now + l.estimate ≤ l.tokensPerMinute)

/-- The step does not take the estimate above the budget. -/
def estimateFits (s : Egress) : EgressAction → Bool
  | .completes _ tokens =>
      decide ((s.limiter.record tokens).estimate ≤ s.limiter.tokensPerMinute)
  | _ => true

/-- An `acquire` that finds the budget reached will find room when it has waited, and a usage that
is recorded while an `acquire` sleeps leaves it that room. -/
def makesRoom (s : Egress) : EgressAction → Bool
  | .enter =>
      (s.checked.holdFor s.clock).all fun wait => s.checked.fits (s.clock + wait)
  | .completes _ tokens => s.stage.wakes.all fun wakes => (s.limiter.record tokens).fits wakes
  | _ => true

/-- Whenever `acquire` returns, the ledger is within the budget. -/
def WithinBudget (tokensPerMinute : Int) (es : List Grant) : Prop :=
  ∀ g ∈ es, g.limiter.trailing g.now ≤ tokensPerMinute

/-! ## The limiter -/

/-- What a limiter with a budget always is. -/
structure EgressLimiter.Budgeted (budget : Int) (l : EgressLimiter) : Prop where
  constant : l.tokensPerMinute = budget
  estimate_nonneg : 0 ≤ l.estimate
  estimate_le : l.estimate ≤ budget
  ledger_nonneg : ∀ e ∈ l.ledger, 0 ≤ e.tokens

namespace EgressLimiter.Budgeted

variable {budget : Int} {l : EgressLimiter} {now later : ℚ}

theorem prune (h : l.Budgeted budget) (now : ℚ) : (l.prune now).Budgeted budget :=
  ⟨h.1, h.2, h.3, fun e he => h.4 e (mem_prune he)⟩

theorem reserve (h : l.Budgeted budget) (now : ℚ) : (l.reserve now).Budgeted budget := by
  refine ⟨h.1, h.2, h.3, fun e he => ?_⟩
  rcases List.mem_append.mp he with hmem | hmem
  · exact h.ledger_nonneg e hmem
  · obtain rfl := List.mem_singleton.mp hmem
    exact h.estimate_nonneg

theorem record (h : l.Budgeted budget) {tokens : Int}
    (hfits : (l.record tokens).estimate ≤ budget) : (l.record tokens).Budgeted budget := by
  unfold EgressLimiter.record at hfits ⊢
  cases hlast : l.ledger.getLast? with
  | none => exact h
  | some reserved =>
    simp only [hlast] at hfits ⊢
    have hrest : ∀ e ∈ l.ledger.dropLast, 0 ≤ e.tokens := fun e he =>
      h.ledger_nonneg e (List.dropLast_subset _ he)
    by_cases htokens : tokens ≤ 0
    · rw [if_pos htokens]
      exact ⟨h.1, h.2, h.3, hrest⟩
    · rw [if_neg htokens] at hfits ⊢
      refine ⟨h.1, ?_, hfits, fun e he => ?_⟩
      · exact smoothed_nonneg h.estimate_nonneg (not_le.mp htokens).le
      · rcases List.mem_append.mp he with hmem | hmem
        · exact hrest e hmem
        · obtain rfl := List.mem_singleton.mp hmem
          exact (not_le.mp htokens).le

/-- Room that there is stays. -/
theorem fits_of_le (h : l.Budgeted budget) (hfits : l.fits now = true) (hle : now ≤ later) :
    l.fits later = true := by
  have hanti := trailing_anti h.ledger_nonneg hle
  have hroom := of_decide_eq_true hfits
  exact decide_eq_true (by omega)

/-- **Where `acquire` does not wait for the budget, there is room.** -/
theorem fits_of_holdFor (h : l.Budgeted budget) (hpos : 0 < budget)
    (hnone : l.holdFor now = none) : l.fits now = true := by
  unfold holdFor at hnone
  refine decide_eq_true ?_
  rw [h.constant]
  cases hledger : l.ledger with
  | nil =>
    have hestimate := h.estimate_le
    simpa [trailing, hledger] using hestimate
  | cons oldest rest =>
    simp only [hledger, h.constant] at hnone
    by_contra hover
    rw [if_pos ⟨hpos, not_le.mp hover⟩] at hnone
    cases hnone

end EgressLimiter.Budgeted

/-! ## Runs -/

/-- What holds in every state: an `acquire` that sleeps will find room. -/
structure Egress.Roomy (budget : Int) (s : Egress) (es : List Grant) : Prop where
  limiter : s.limiter.Budgeted budget
  room : ∀ wakes ∈ s.stage.wakes, s.limiter.fits wakes = true
  within : WithinBudget budget es

namespace Egress.Roomy

variable {budget : Int} {s t : Egress} {es fs : List Grant}

/-- `acquire` returns when there is room. -/
theorem grant (hlimiter : s.limiter.Budgeted budget) (hwithin : WithinBudget budget es)
    (hfits : s.limiter.fits s.clock = true) : Roomy budget s.grant.1 (es ++ s.grant.2) := by
  refine ⟨hlimiter.reserve s.clock, nofun, fun g hmem => ?_⟩
  rcases List.mem_append.mp hmem with hmem | hmem
  · exact hwithin g hmem
  · obtain rfl := List.mem_singleton.mp hmem
    have hroom := of_decide_eq_true hfits
    rw [EgressLimiter.trailing_reserve]
    exact hlimiter.constant ▸ hroom

/-- Room that there is now is there when `min_interval` is over. -/
theorem pace (hlimiter : s.limiter.Budgeted budget) (hwithin : WithinBudget budget es)
    (hfits : s.limiter.fits s.clock = true) : Roomy budget s.pace.1 (es ++ s.pace.2) := by
  unfold Egress.pace
  by_cases hwait : 0 < s.limiter.paceFor s.clock
  · simp only [if_pos hwait, List.append_nil]
    refine ⟨hlimiter, fun wakes hwakes => ?_, hwithin⟩
    obtain rfl := Option.some.inj hwakes
    exact hlimiter.fits_of_le hfits (by linarith)
  · simp only [if_neg hwait]
    exact grant hlimiter hwithin hfits

theorem enter (hpos : 0 < budget) (h : Roomy budget s es) (hok : makesRoom s .enter = true)
    (hstep : s.step .enter = some (t, fs)) : Roomy budget t (es ++ fs) := by
  have hchecked : s.checked.Budgeted budget := by
    unfold checked
    split
    · exact h.limiter.prune s.clock
    · exact h.limiter
  unfold step at hstep
  cases hstage : s.stage with
  | holding => simp [hstage] at hstep
  | pacing => simp [hstage] at hstep
  | free =>
    simp only [hstage] at hstep
    cases hhold : s.checked.holdFor s.clock with
    | none =>
      simp only [hhold] at hstep
      obtain ⟨rfl, rfl⟩ := Prod.ext_iff.mp (Option.some.inj hstep)
      exact pace (s := { s with limiter := s.checked }) hchecked h.within
        (hchecked.fits_of_holdFor hpos hhold)
    | some wait =>
      simp only [hhold] at hstep
      cases hstep
      rw [List.append_nil]
      refine ⟨hchecked, fun wakes hwakes => ?_, h.within⟩
      obtain rfl := Option.some.inj hwakes
      simpa [makesRoom, hhold] using hok

theorem wake (h : Roomy budget s es) (hstep : s.step .wake = some (t, fs)) :
    Roomy budget t (es ++ fs) := by
  have hroom := h.room
  unfold step at hstep
  cases hstage : s.stage with
  | free => simp [hstage] at hstep
  | pacing => simp [hstage] at hstep
  | holding wakes =>
    simp only [hstage] at hstep
    rw [hstage] at hroom
    by_cases hwakes : wakes ≤ s.clock
    · rw [if_pos hwakes] at hstep
      obtain ⟨rfl, rfl⟩ := Prod.ext_iff.mp (Option.some.inj hstep)
      have hfits := h.limiter.fits_of_le (hroom wakes rfl) hwakes
      refine pace (s := { s with limiter := s.limiter.prune s.clock }) (h.limiter.prune s.clock)
        h.within ?_
      have hprune := EgressLimiter.trailing_prune (l := s.limiter) (le_refl s.clock)
      rw [EgressLimiter.fits, hprune]
      exact hfits
    · simp [hwakes] at hstep

theorem resume (h : Roomy budget s es) (hstep : s.step .resume = some (t, fs)) :
    Roomy budget t (es ++ fs) := by
  have hroom := h.room
  unfold step at hstep
  cases hstage : s.stage with
  | free => simp [hstage] at hstep
  | holding => simp [hstage] at hstep
  | pacing wakes =>
    simp only [hstage] at hstep
    rw [hstage] at hroom
    by_cases hwakes : wakes ≤ s.clock
    · rw [if_pos hwakes] at hstep
      cases hstep
      exact grant h.limiter h.within (h.limiter.fits_of_le (hroom wakes rfl) hwakes)
    · simp [hwakes] at hstep

/-- The end of a model call changes nothing but the list of calls. -/
theorem settle {call : Nat} {status : ModelCallStatus} {s s' : Egress}
    (h : s.settle call status = some s') :
    ∃ calls, s' = { s with calls } := by
  unfold Egress.settle at h
  split at h
  · exact ⟨_, (Option.some.inj h).symm⟩
  · cases h

/-- **A step that keeps to the conditions keeps the budget.** -/
theorem step (hpos : 0 < budget) (h : Roomy budget s es) {a : EgressAction}
    (hstep : s.step a = some (t, fs)) (hestimate : estimateFits s a = true)
    (hok : makesRoom s a = true) : Roomy budget t (es ++ fs) := by
  cases a with
  | enter => exact h.enter hpos hok hstep
  | wake => exact h.wake hstep
  | resume => exact h.resume hstep
  | elapse duration =>
    cases hstep
    rw [List.append_nil]
    exact ⟨h.limiter, h.room, h.within⟩
  | completes call tokens =>
    obtain ⟨s', hsettle, heq⟩ := Option.map_eq_some_iff.mp hstep
    obtain ⟨calls, rfl⟩ := settle hsettle
    cases heq
    rw [List.append_nil]
    have hfits := of_decide_eq_true hestimate
    rw [h.limiter.constant] at hfits
    exact ⟨h.limiter.record hfits, Option.all_eq_true _ _ |>.mp hok, h.within⟩
  | fails call =>
    obtain ⟨s', hsettle, heq⟩ := Option.map_eq_some_iff.mp hstep
    obtain ⟨calls, rfl⟩ := settle hsettle
    cases heq
    rw [List.append_nil]
    exact ⟨h.limiter, h.room, h.within⟩

end Egress.Roomy

/-- **In every run in which every wait makes room for the estimate, the ledger is within the
budget whenever `acquire` returns.** -/
theorem granted_within_budget {requestsPerMinute tokensPerMinute : Int} {clock : ℚ}
    (hpos : 0 < tokensPerMinute)
    (hestimate : (Egress.new requestsPerMinute tokensPerMinute clock).limiter.estimate ≤
      tokensPerMinute)
    {as : List EgressAction} {s : Egress} {es : List Grant}
    (hrun : Run (Computes (restrict (fun s a => estimateFits s a && makesRoom s a) Egress.step))
      (.new requestsPerMinute tokensPerMinute clock) as s es) :
    WithinBudget tokensPerMinute es := by
  have hinit : Egress.Roomy tokensPerMinute (.new requestsPerMinute tokensPerMinute clock) [] :=
    ⟨⟨rfl, Int.natCast_nonneg 2000, hestimate, nofun⟩, nofun, nofun⟩
  refine (hrun.invariant_restrict hinit fun h hstep hok => ?_).within
  have hboth := Bool.and_eq_true_iff.mp hok
  exact h.step hpos hstep hboth.1 hboth.2

/-- A wait for one entry of 2000 tokens makes room for 2000 more. -/
theorem granted_within_budget_after_wait : ∃ s es,
    Run (Computes (restrict (fun s a => estimateFits s a && makesRoom s a) Egress.step))
      (.new 6000 4000 100) [.enter, .completes 0 2000, .elapse 1, .enter, .elapse 1, .enter,
        .completes 1 2000, .elapse 59, .wake] s es ∧
      es.length = 3 ∧ WithinBudget 4000 es := by
  obtain ⟨s, es, hrun, hs⟩ := exists_run_of_play
    (restrict (fun s a => estimateFits s a && makesRoom s a) Egress.step) (.new 6000 4000 100)
    [.enter, .completes 0 2000, .elapse 1, .enter, .elapse 1, .enter, .completes 1 2000,
      .elapse 59, .wake] (fun _ es => decide (es.length = 3)) (by decide +kernel)
  exact ⟨s, es, hrun, of_decide_eq_true hs, granted_within_budget (by decide) (by decide) hrun⟩

/-- 500 tokens leave the minute, 2450 are left, and 1820 more are reserved of 3000. -/
theorem budget_exceeded_after_wait : ¬ ∀ (as : List EgressAction) (s : Egress)
    (es : List Grant), Run (Computes (restrict estimateFits Egress.step)) (.new 6000 3000 100)
      as s es → WithinBudget 3000 es := by
  intro h
  obtain ⟨s, es, hrun, hs⟩ := exists_run_of_play (restrict estimateFits Egress.step)
    (.new 6000 3000 100) [.enter, .completes 0 500, .elapse 1, .enter, .completes 1 2450,
      .elapse 1, .enter, .elapse (117 / 2), .wake]
    (fun _ es => es.any fun g => decide (3000 < g.limiter.trailing g.now)) (by decide +kernel)
  obtain ⟨g, hmem, hs⟩ := List.any_eq_true.mp hs
  exact absurd (h _ s es hrun g hmem) (not_le.mpr (of_decide_eq_true hs))

end OmniCare
