import OmniCare.Egress

/-! # Reservations and records

A model call reserves the estimate when its `acquire` returns, and `record` corrects the last entry
of the ledger, whosever it is.  A call that fails leaves its reservation behind.  **In every run in
which each usage is recorded while the call's own reservation is the last one, and no call fails
within a minute, the ledger holds in the trailing minute what it should: the usage of the calls
that have reported one, and the estimates of those in flight** (`ledger_settled`).
-/
namespace OmniCare

/-- What the ledger should hold for a call. -/
def ModelCall.due (c : ModelCall) : Option Spend :=
  match c.status with
  | .inFlight => some c.reserved
  | .completed tokens => if 0 < tokens then some { c.reserved with tokens } else none
  | .failed => none

/-- In the trailing minute, the ledger holds what it should. -/
def Settled (s : Egress) : Prop :=
  s.limiter.ledger.filter (Spend.fresh s.clock) =
    (s.calls.filterMap ModelCall.due).filter (Spend.fresh s.clock)

/-- A usage is not recorded while the last entry, in the trailing minute, is another call's, and a
call does not fail within a minute. -/
def settlesOwn (s : Egress) : EgressAction → Bool
  | .completes call _ =>
      (s.calls[call]?).all fun c => (s.limiter.ledger.getLast?).all fun e =>
        !e.fresh s.clock || decide (e.spentAt = c.reserved.spentAt)
  | .fails call => (s.calls[call]?).all fun c => !c.reserved.fresh s.clock
  | _ => true

/-! ## What is due -/

section Due

variable {now : ℚ} {pre post : List ModelCall} {c : ModelCall} {e : Spend} {ledger : List Spend}

theorem fresh_congr {a b : Spend} (h : a.spentAt = b.spentAt) : a.fresh now = b.fresh now := by
  rw [Spend.fresh, Spend.fresh, h]

/-- What is due for a call is as old as its reservation. -/
theorem spentAt_of_due (h : c.due = some e) : e.spentAt = c.reserved.spentAt := by
  unfold ModelCall.due at h
  split at h
  · rw [Option.some.inj h]
  · split at h
    · rw [← Option.some.inj h]
    · cases h
  · cases h

theorem filterMap_due (pre post : List ModelCall) (c : ModelCall) :
    (pre ++ c :: post).filterMap ModelCall.due =
      pre.filterMap ModelCall.due ++ c.due.toList ++ post.filterMap ModelCall.due := by
  rw [List.filterMap_append, List.filterMap_cons]
  cases c.due <;> simp

/-- Whatever becomes of a call, nothing is due for it once its reservation is out of the
minute. -/
theorem filter_due_of_old (hold : c.reserved.fresh now = false) :
    c.due.toList.filter (Spend.fresh now) = [] := by
  refine List.filter_eq_nil_iff.mpr fun e he => ?_
  have hdue : c.due = some e := Option.mem_toList.mp he
  rw [fresh_congr (spentAt_of_due hdue), hold]
  exact Bool.false_ne_true

/-- **The entry that is corrected is the call's own, and nothing is due for the calls that came
after it.** -/
theorem own_is_last (hc : c.due = some c.reserved) (hfresh : c.reserved.fresh now = true)
    (hlater : ∀ d ∈ post, c.reserved.spentAt < d.reserved.spentAt)
    (hown : e.spentAt = c.reserved.spentAt)
    (h : (ledger ++ [e]).filter (Spend.fresh now) =
      ((pre ++ c :: post).filterMap ModelCall.due).filter (Spend.fresh now)) :
    ledger.filter (Spend.fresh now) = (pre.filterMap ModelCall.due).filter (Spend.fresh now) ∧
      e = c.reserved ∧ (post.filterMap ModelCall.due).filter (Spend.fresh now) = [] := by
  have he : e.fresh now = true := (fresh_congr hown).trans hfresh
  rw [filterMap_due, hc, Option.toList_some, List.filter_append, List.filter_append,
    List.filter_append, List.filter_cons_of_pos he, List.filter_cons_of_pos hfresh,
    List.filter_nil] at h
  rcases List.eq_nil_or_concat' ((post.filterMap ModelCall.due).filter (Spend.fresh now)) with
    hpost | ⟨ys, y, hpost⟩
  · rw [hpost, List.append_nil] at h
    obtain ⟨hpre, hlast⟩ := List.append_inj' h rfl
    exact ⟨hpre, List.singleton_inj.mp hlast, hpost⟩
  · -- The last entry would be that of a later call.
    rw [hpost, ← List.append_assoc] at h
    have hlast : e = y := List.singleton_inj.mp (List.append_inj' h rfl).2
    have hy : y ∈ (post.filterMap ModelCall.due).filter (Spend.fresh now) := by
      rw [hpost]
      exact List.mem_append_right _ List.mem_cons_self
    obtain ⟨d, hd, hdue⟩ := List.mem_filterMap.mp (List.mem_filter.mp hy).1
    have hspent := hlater d hd
    rw [← spentAt_of_due hdue, ← hlast, hown] at hspent
    exact absurd hspent (lt_irrefl _)

end Due

/-! ## Runs -/

/-- What holds in every state. -/
structure Egress.Accounted (s : Egress) : Prop where
  settled : Settled s
  interval : 0 < s.limiter.minInterval
  /-- Reservations are made one after the other. -/
  apart : s.calls.Pairwise fun c d => c.reserved.spentAt < d.reserved.spentAt
  calls : ∀ c ∈ s.calls, c.reserved.spentAt ≤ s.limiter.last
  sorted : s.limiter.ledger.Pairwise fun a b => a.spentAt ≤ b.spentAt
  ledger : ∀ e ∈ s.limiter.ledger, e.spentAt ≤ s.limiter.last
  pacing : ∀ wakes, s.stage = .pacing wakes → s.limiter.last + s.limiter.minInterval ≤ wakes

namespace Egress.Accounted

variable {s t : Egress} {fs : List Grant}

theorem elapse (h : s.Accounted) (duration : ℚ≥0) :
    Accounted { s with clock := s.clock + duration } := by
  have hle : s.clock ≤ s.clock + duration := by
    have hnonneg : (0 : ℚ) ≤ duration := duration.2
    linarith
  refine ⟨?_, h.2, h.3, h.4, h.5, h.6, h.7⟩
  have hsettled := congrArg (List.filter (Spend.fresh (s.clock + duration))) h.settled
  rwa [filter_fresh_filter hle, filter_fresh_filter hle] at hsettled

/-- What is dropped from the ledger is out of the minute. -/
theorem prune (h : s.Accounted) : Accounted { s with limiter := s.limiter.prune s.clock } := by
  refine ⟨?_, h.2, h.3, h.4, h.sorted.filter _, fun e he => ?_, h.7⟩
  · show (s.limiter.ledger.filter (Spend.fresh s.clock)).filter (Spend.fresh s.clock) = _
    rw [filter_fresh_filter le_rfl]
    exact h.settled
  · exact h.ledger e (List.mem_filter.mp he).1

theorem checked (h : s.Accounted) : Accounted { s with limiter := s.checked } := by
  unfold Egress.checked
  split
  · exact h.prune
  · exact h

theorem grant (h : s.Accounted) (hlast : s.limiter.last < s.clock) : s.grant.1.Accounted := by
  have hnew : Spend.fresh s.clock ⟨s.clock, s.limiter.estimate⟩ = true :=
    Spend.fresh_iff.mpr (by simp)
  refine ⟨?_, h.2, ?_, ?_, ?_, ?_, nofun⟩
  · show (s.limiter.ledger ++ [_]).filter (Spend.fresh s.clock) =
      ((s.calls ++ [_]).filterMap ModelCall.due).filter (Spend.fresh s.clock)
    rw [List.filter_append, h.settled, List.filterMap_append, List.filter_append]
    rfl
  · refine List.pairwise_append.mpr ⟨h.apart, List.pairwise_singleton _ _, fun c hc d hd => ?_⟩
    obtain rfl := List.mem_singleton.mp hd
    exact lt_of_le_of_lt (h.calls c hc) hlast
  · intro c hc
    rcases List.mem_append.mp hc with hmem | hmem
    · exact (h.calls c hmem).trans hlast.le
    · obtain rfl := List.mem_singleton.mp hmem
      exact le_rfl
  · refine List.pairwise_append.mpr ⟨h.sorted, List.pairwise_singleton _ _, fun a ha b hb => ?_⟩
    obtain rfl := List.mem_singleton.mp hb
    exact (h.ledger a ha).trans hlast.le
  · intro e he
    rcases List.mem_append.mp he with hmem | hmem
    · exact (h.ledger e hmem).trans hlast.le
    · obtain rfl := List.mem_singleton.mp hmem
      exact le_rfl

theorem pace (h : s.Accounted) : s.pace.1.Accounted := by
  have hinterval := h.interval
  unfold Egress.pace
  by_cases hwait : 0 < s.limiter.paceFor s.clock
  · simp only [if_pos hwait]
    refine ⟨h.1, h.2, h.3, h.4, h.5, h.6, fun wakes hwakes => ?_⟩
    obtain rfl := AcquireStage.pacing.inj hwakes
    rw [EgressLimiter.paceFor]
    linarith
  · simp only [if_neg hwait]
    rw [EgressLimiter.paceFor] at hwait
    exact h.grant (by linarith)

/-- A call comes to an end. -/
theorem settle_eq {call : Nat} {status : ModelCallStatus} (hs : s.settle call status = some t) :
    ∃ pre reserved post, s.calls[call]? = some ⟨reserved, .inFlight⟩ ∧
      s.calls = pre ++ ⟨reserved, .inFlight⟩ :: post ∧
        t = { s with calls := pre ++ ⟨reserved, status⟩ :: post } := by
  unfold settle at hs
  split at hs
  · rename_i reserved hcall
    obtain ⟨hlt, hget⟩ := List.getElem?_eq_some_iff.mp hcall
    obtain ⟨pre, post, hcalls, -, hset⟩ :
        ∃ pre post, s.calls = pre ++ s.calls[call] :: post ∧ pre.length = call ∧
          s.calls.set call ⟨reserved, status⟩ = pre ++ ⟨reserved, status⟩ :: post :=
      List.exists_of_set hlt
    rw [hget] at hcalls
    exact ⟨pre, reserved, post, hcall, hcalls, by rw [← Option.some.inj hs, hset]⟩
  · cases hs

section Ends

variable {pre post : List ModelCall} {reserved : Spend}

/-- Whatever becomes of a call, its reservation was made when it was made. -/
theorem set (h : s.Accounted) (hcalls : s.calls = pre ++ ⟨reserved, .inFlight⟩ :: post)
    (status : ModelCallStatus) {limiter : EgressLimiter}
    (hinterval : limiter.minInterval = s.limiter.minInterval)
    (hlast : limiter.last = s.limiter.last)
    (hsorted : limiter.ledger.Pairwise fun a b => a.spentAt ≤ b.spentAt)
    (hledger : ∀ e ∈ limiter.ledger, e.spentAt ≤ s.limiter.last)
    (hsettled : limiter.ledger.filter (Spend.fresh s.clock) =
      ((pre ++ ⟨reserved, status⟩ :: post).filterMap ModelCall.due).filter
        (Spend.fresh s.clock)) :
    Accounted { s with limiter, calls := pre ++ ⟨reserved, status⟩ :: post } := by
  have hapart := h.apart
  have hle := h.calls
  rw [hcalls] at hapart hle
  refine ⟨hsettled, hinterval ▸ h.interval, ?_, fun c hc => ?_, hsorted, fun e he => ?_, ?_⟩
  · obtain ⟨hpre, hpost, hcross⟩ := List.pairwise_append.mp hapart
    refine List.pairwise_append.mpr ⟨hpre, ?_, fun c hc d hd => ?_⟩
    · exact List.pairwise_cons.mpr (List.pairwise_cons.mp hpost)
    · rcases List.mem_cons.mp hd with rfl | hmem
      · exact hcross c hc ⟨reserved, .inFlight⟩ List.mem_cons_self
      · exact hcross c hc d (List.mem_cons_of_mem _ hmem)
  · show c.reserved.spentAt ≤ limiter.last
    rw [hlast]
    rcases List.mem_append.mp hc with hmem | hmem
    · exact hle c (List.mem_append_left _ hmem)
    · rcases List.mem_cons.mp hmem with rfl | hmem
      · exact hle ⟨reserved, .inFlight⟩ (List.mem_append_right _ List.mem_cons_self)
      · exact hle c (List.mem_append_right _ (List.mem_cons_of_mem _ hmem))
  · exact hlast ▸ hledger e he
  · show ∀ wakes, s.stage = .pacing wakes → limiter.last + limiter.minInterval ≤ wakes
    rw [hlast, hinterval]
    exact h.pacing

/-- Once a call's reservation is out of the minute, it does not matter what becomes of it. -/
theorem filter_due_set (hold : reserved.fresh s.clock = false)
    (hcalls : s.calls = pre ++ ⟨reserved, .inFlight⟩ :: post) (status : ModelCallStatus) :
    ((pre ++ ⟨reserved, status⟩ :: post).filterMap ModelCall.due).filter (Spend.fresh s.clock) =
      (s.calls.filterMap ModelCall.due).filter (Spend.fresh s.clock) := by
  rw [hcalls, filterMap_due, filterMap_due]
  simp only [List.filter_append]
  rw [filter_due_of_old (c := ⟨reserved, status⟩) hold,
    filter_due_of_old (c := ⟨reserved, .inFlight⟩) hold]

end Ends

/-! ### Records -/

theorem minInterval_record (l : EgressLimiter) (tokens : Int) :
    (l.record tokens).minInterval = l.minInterval := by
  unfold EgressLimiter.record
  split
  · rfl
  · split <;> rfl

theorem last_record (l : EgressLimiter) (tokens : Int) : (l.record tokens).last = l.last := by
  unfold EgressLimiter.record
  split
  · rfl
  · split <;> rfl

/-- What the usage makes of the last entry. -/
def corrected (e : Spend) (tokens : Int) : List Spend :=
  if 0 < tokens then [⟨e.spentAt, tokens⟩] else []

theorem ledger_record {l : EgressLimiter} {rest : List Spend} {e : Spend}
    (h : l.ledger = rest ++ [e]) (tokens : Int) :
    (l.record tokens).ledger = rest ++ corrected e tokens := by
  unfold EgressLimiter.record corrected
  simp only [h, List.getLast?_concat, List.dropLast_concat]
  by_cases htokens : tokens ≤ 0
  · simp [htokens, not_lt.mpr htokens]
  · simp [htokens, not_le.mp htokens]

theorem spentAt_of_corrected {e d : Spend} {tokens : Int} (h : d ∈ corrected e tokens) :
    d.spentAt = e.spentAt := by
  unfold corrected at h
  split at h
  · rw [List.mem_singleton.mp h]
  · cases h

theorem corrected_eq_due (reserved : Spend) (tokens : Int) :
    corrected reserved tokens =
      (ModelCall.due ⟨reserved, .completed tokens⟩).toList := by
  unfold corrected ModelCall.due
  by_cases htokens : 0 < tokens <;> simp [htokens]

/-- **A usage is recorded for the call's own reservation, or for none in the minute.** -/
theorem completes (h : s.Accounted) {call : Nat} {tokens : Int}
    (hstep : s.step (.completes call tokens) = some (t, fs))
    (hok : settlesOwn s (.completes call tokens) = true) : t.Accounted := by
  obtain ⟨s', hsettle, heq⟩ := Option.map_eq_some_iff.mp hstep
  obtain ⟨pre, reserved, post, hcall, hcalls, rfl⟩ := settle_eq hsettle
  cases heq
  have hset := h.set hcalls (.completed tokens) (minInterval_record s.limiter tokens)
    (last_record s.limiter tokens)
  rcases List.eq_nil_or_concat' s.limiter.ledger with hledger | ⟨rest, e, hledger⟩
  · -- There is nothing to correct, so the call's reservation is out of the minute.
    have hnone : s.limiter.record tokens = s.limiter := by simp [EgressLimiter.record, hledger]
    have hold : reserved.fresh s.clock = false := by
      have hsettled := h.settled
      rw [Settled, hledger, hcalls, filterMap_due, List.filter_append,
        List.filter_append] at hsettled
      have hown := (List.append_eq_nil_iff.mp (List.append_eq_nil_iff.mp hsettled.symm).1).2
      exact Bool.eq_false_iff.mpr (List.filter_eq_nil_iff.mp hown _ List.mem_cons_self)
    refine hset ?_ ?_ ?_
    · rw [hnone]
      exact h.sorted
    · rw [hnone]
      exact h.ledger
    · rw [hnone, filter_due_set hold hcalls]
      exact h.settled
  · have hrecord := ledger_record hledger tokens
    have hsorted := h.sorted
    have hlast := h.ledger
    rw [hledger] at hsorted hlast
    obtain ⟨hrest, -, hle⟩ := List.pairwise_append.mp hsorted
    refine hset ?_ ?_ ?_
    · rw [hrecord]
      refine List.pairwise_append.mpr ⟨hrest, ?_, fun a ha b hb => ?_⟩
      · unfold corrected
        split
        · exact List.pairwise_singleton _ _
        · exact List.Pairwise.nil
      · rw [spentAt_of_corrected hb]
        exact hle a ha e List.mem_cons_self
    · rw [hrecord]
      intro d hd
      rcases List.mem_append.mp hd with hmem | hmem
      · exact hlast d (List.mem_append_left _ hmem)
      · rw [spentAt_of_corrected hmem]
        exact hlast e (List.mem_append_right _ List.mem_cons_self)
    · have hsettled := h.settled
      rw [Settled, hledger] at hsettled
      rw [hrecord]
      by_cases hfresh : e.fresh s.clock = true
      · -- The last entry is the call's own.
        have hown : e.spentAt = reserved.spentAt := by
          simpa [settlesOwn, hcall, hledger, hfresh] using hok
        have hapart := h.apart
        rw [hcalls] at hapart hsettled
        have hlater := (List.pairwise_cons.mp (List.pairwise_append.mp hapart).2.1).1
        obtain ⟨hpre, rfl, hpost⟩ := own_is_last (c := ⟨reserved, .inFlight⟩) rfl
          ((fresh_congr hown).symm.trans hfresh) hlater hown hsettled
        rw [filterMap_due, corrected_eq_due]
        simp only [List.filter_append, hpre, hpost, List.append_nil]
      · -- All of the ledger is out of the minute, and the call's reservation with it.
        have hold : ∀ d : Spend, d.spentAt ≤ e.spentAt → d.fresh s.clock = false := by
          intro d hd
          refine Bool.eq_false_iff.mpr fun hd' => hfresh (Spend.fresh_iff.mpr ?_)
          exact lt_of_lt_of_le (Spend.fresh_iff.mp hd') (by linarith)
        have hrestold : rest.filter (Spend.fresh s.clock) = [] :=
          List.filter_eq_nil_iff.mpr fun d hd =>
            Bool.eq_false_iff.mp (hold d (hle d hd e List.mem_cons_self))
        have hcorrected : (corrected e tokens).filter (Spend.fresh s.clock) = [] :=
          List.filter_eq_nil_iff.mpr fun d hd =>
            Bool.eq_false_iff.mp (hold d (spentAt_of_corrected hd).le)
        have hempty : (rest ++ [e]).filter (Spend.fresh s.clock) = [] := by
          rw [List.filter_append, hrestold, List.filter_cons_of_neg hfresh]
          rfl
        rw [hempty, hcalls, filterMap_due, List.filter_append, List.filter_append] at hsettled
        have hown := (List.append_eq_nil_iff.mp (List.append_eq_nil_iff.mp hsettled.symm).1).2
        have hreserved : reserved.fresh s.clock = false :=
          Bool.eq_false_iff.mpr (List.filter_eq_nil_iff.mp hown _ List.mem_cons_self)
        rw [List.filter_append, hrestold, hcorrected, filter_due_set hreserved hcalls, hcalls,
          filterMap_due, List.filter_append, List.filter_append]
        exact hsettled

/-- A call that fails when its reservation is out of the minute leaves nothing behind in it. -/
theorem fails (h : s.Accounted) {call : Nat} (hstep : s.step (.fails call) = some (t, fs))
    (hok : settlesOwn s (.fails call) = true) : t.Accounted := by
  obtain ⟨s', hsettle, heq⟩ := Option.map_eq_some_iff.mp hstep
  obtain ⟨pre, reserved, post, hcall, hcalls, rfl⟩ := settle_eq hsettle
  cases heq
  have hold : reserved.fresh s.clock = false := by
    simpa [settlesOwn, hcall] using hok
  refine h.set hcalls .failed rfl rfl h.sorted h.ledger ?_
  rw [filter_due_set hold hcalls]
  exact h.settled

/-- **A step that keeps to the condition leaves the ledger as it should be.** -/
theorem step (h : s.Accounted) {a : EgressAction} (hstep : s.step a = some (t, fs))
    (hok : settlesOwn s a = true) : t.Accounted := by
  cases a with
  | completes call tokens => exact h.completes hstep hok
  | fails call => exact h.fails hstep hok
  | elapse duration =>
    cases hstep
    exact h.elapse duration
  | enter =>
    unfold Egress.step at hstep
    cases hstage : s.stage with
    | holding => simp [hstage] at hstep
    | pacing => simp [hstage] at hstep
    | free =>
      simp only [hstage] at hstep
      cases hhold : s.checked.holdFor s.clock with
      | none =>
        simp only [hhold] at hstep
        obtain ⟨rfl, rfl⟩ := Prod.ext_iff.mp (Option.some.inj hstep)
        exact h.checked.pace
      | some wait =>
        simp only [hhold] at hstep
        cases hstep
        obtain ⟨h1, h2, h3, h4, h5, h6, -⟩ := h.checked
        exact ⟨h1, h2, h3, h4, h5, h6, nofun⟩
  | wake =>
    unfold Egress.step at hstep
    cases hstage : s.stage with
    | free => simp [hstage] at hstep
    | pacing => simp [hstage] at hstep
    | holding wakes =>
      simp only [hstage] at hstep
      by_cases hwakes : wakes ≤ s.clock
      · rw [if_pos hwakes] at hstep
        obtain ⟨rfl, rfl⟩ := Prod.ext_iff.mp (Option.some.inj hstep)
        have hpruned := h.prune.pace
        rw [hstage] at hpruned
        exact hpruned
      · simp [hwakes] at hstep
  | resume =>
    have hinterval := h.interval
    unfold Egress.step at hstep
    cases hstage : s.stage with
    | free => simp [hstage] at hstep
    | holding => simp [hstage] at hstep
    | pacing wakes =>
      simp only [hstage] at hstep
      by_cases hwakes : wakes ≤ s.clock
      · rw [if_pos hwakes] at hstep
        have hpacing := h.pacing wakes hstage
        cases hstep
        exact h.grant (by linarith)
      · simp [hwakes] at hstep

end Egress.Accounted

/-- **In every run in which every usage is recorded for the call's own reservation and no call
fails within a minute, the ledger holds what it should.** -/
theorem ledger_settled {requestsPerMinute tokensPerMinute : Int} {clock : ℚ}
    {as : List EgressAction} {s : Egress} {es : List Grant}
    (hrun : Run (Computes (restrict settlesOwn Egress.step))
      (.new requestsPerMinute tokensPerMinute clock) as s es) : Settled s := by
  have hinit : (Egress.new requestsPerMinute tokensPerMinute clock).Accounted := by
    refine ⟨rfl, ?_, List.Pairwise.nil, nofun, List.Pairwise.nil, nofun, nofun⟩
    have hpos : (0 : ℚ) < (max requestsPerMinute 1 : Int) := by
      exact_mod_cast lt_of_lt_of_le one_pos (le_max_right requestsPerMinute 1)
    exact div_pos (by norm_num) hpos
  have hinv := hrun.invariant_restrict (I := fun s _ => s.Accounted) hinit
    fun h hstep hok => h.step hstep hok
  exact hinv.settled

/-- One call after the other, each with its own usage, and one that reports none. -/
theorem ledger_settled_in_turn : ∃ s es,
    Run (Computes (restrict settlesOwn Egress.step)) (.new 25 8000 100) [.enter, .elapse 1,
      .completes 0 1200, .elapse 9, .enter, .elapse 1, .completes 1 0, .elapse 9, .enter] s es ∧
      s.limiter.ledger = [⟨100, 1200⟩, ⟨120, 1760⟩] ∧ Settled s := by
  obtain ⟨s, es, hrun, hs⟩ := exists_run_of_play (restrict settlesOwn Egress.step)
    (.new 25 8000 100) [.enter, .elapse 1, .completes 0 1200, .elapse 9, .enter, .elapse 1,
      .completes 1 0, .elapse 9, .enter]
    (fun s _ => decide (s.limiter.ledger = [⟨100, 1200⟩, ⟨120, 1760⟩])) (by decide +kernel)
  exact ⟨s, es, hrun, of_decide_eq_true hs, ledger_settled hrun⟩

/-- Two calls are in flight, and the first to return takes the reservation of the other. -/
theorem record_takes_the_last : ¬ ∀ (as : List EgressAction) (s : Egress) (es : List Grant),
    Run (Computes Egress.step) (.new 25 8000 100) as s es → Settled s := by
  intro h
  obtain ⟨s, es, hrun, hs⟩ := exists_run_of_play Egress.step (.new 25 8000 100)
    [.enter, .elapse 3, .enter, .completes 0 500]
    (fun s _ => decide (s.limiter.ledger.filter (Spend.fresh s.clock) ≠
      (s.calls.filterMap ModelCall.due).filter (Spend.fresh s.clock))) (by decide +kernel)
  exact of_decide_eq_true hs (h _ s es hrun)

end OmniCare
