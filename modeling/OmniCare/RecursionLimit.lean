import OmniCare.Publishing

/-! # The recursion limit

`AgentWorker.handle` gives each invocation of the graph a recursion limit of four node runs for each
iteration that the graph is allowed.  A turn needs more than its iterations: it has nodes before and
behind the loop, and with the confirmation off a write takes four nodes in it.  `Graph.metered` is
the graph under that limit, and `within_limit_iff` says for which settings no run ever meets it.
-/
namespace OmniCare

variable {E W : Type}

/-- A thread, and how many nodes the invocation in progress has run. -/
structure Metered (W : Type) where
  config : Config W
  ran : Nat := 0

namespace Graph

variable (g : Graph E W)

/-- `recursion_limit`. -/
def recursionLimit : Nat := g.maxIterations * 4

/-- A step under the recursion limit: at the limit the run fails with `GraphRecursionError`. -/
def metered (m : Metered W) (a : Action E) : Option (Metered W × List (Event E)) :=
  match a with
  | .job j now ok => (g.step m.config (.job j now ok)).map fun r => (⟨r.1, 0⟩, r.2)
  | a =>
      if m.ran < g.recursionLimit then
        (g.step m.config a).map fun r => (⟨r.1, m.ran + 1⟩, r.2)
      else
        match a with
        | .fail (.raised e) =>
            if e.kind = "GraphRecursionError".toList then
              (g.step m.config a).map fun r => (⟨r.1, m.ran⟩, r.2)
            else none
        | _ => none

/-- The runs of a thread under the limit. -/
abbrev MeteredRuns (w : W) (as : List (Action E)) (m : Metered W) (es : List (Event E)) : Prop :=
  Run (Computes g.metered) ⟨newThread w, 0⟩ as m es

/-- The invocation needs one more node run than the limit lets it have. -/
def OverLimit (m : Metered W) : Prop := (∃ n, m.config.At n) ∧ g.recursionLimit ≤ m.ran

end Graph

/-- No node has failed. -/
def Unfailed (es : List (Event E)) : Prop := ∀ n, .ended (.failed n) ∉ es

/-- The calls of the model that have been answered. -/
def repliesIn (es : List (Event E)) : Nat :=
  es.countP fun
    | .replied _ => true
    | _ => false

/-! ## What an invocation still needs -/

/-- A bound on the node runs that an invocation needs from a node on, with the confirmation on: a
resume value that nobody has taken yet lets one write through. -/
def Graph.needAt (g : Graph E W) (s : AgentState) : Bool → Node → Nat
  | true, .guard => 2 * g.maxIterations + 8
  | true, .agent => 2 * g.callsLeft s + 7
  | true, .tools => 2 * g.callsLeft s + 8
  | true, .capture => 2 * g.callsLeft s + 8
  | true, .confirm => 2 * g.callsLeft s + 7
  | false, .guard => 2 * g.maxIterations + 6
  | false, .agent => 2 * g.callsLeft s + 5
  | false, .tools => 2 * g.callsLeft s + 6
  | false, .capture => 5
  | false, .confirm => 4
  | _, .readback => 4
  | _, .parse => 3
  | _, .ground => 2
  | _, .format => 1

def Graph.need (g : Graph E W) (c : Config W) : Nat :=
  match c.running, c.next with
  | some _, .at n => g.needAt c.state c.resume.isSome n
  | _, _ => 0

variable {g : Graph E W} {c c' : Config W} {a : Action E} {fs : List (Event E)}

theorem need_at {n : Node} (here : c.At n) :
    g.need c = g.needAt c.state c.resume.isSome n := by
  obtain ⟨hrun, hnext⟩ := here
  obtain ⟨run, hrun⟩ := Option.isSome_iff_exists.mp hrun
  unfold Graph.need
  rw [hrun, hnext]

theorem need_stopped (h : c.running = none) : g.need c = 0 := by
  unfold Graph.need
  rw [h]

theorem need_goto (hrun : c.running.isSome) (m : Node) (s : AgentState) :
    g.need (c.goto m s) = g.needAt s c.resume.isSome m :=
  need_at (c := c.goto m s) ⟨hrun, rfl⟩

theorem needAt_pos (s : AgentState) (resuming : Bool) (n : Node) :
    0 < g.needAt s resuming n := by
  cases resuming <;> cases n <;> exact Nat.succ_pos _

/-- The confirm node that refuses leads to the tail. -/
theorem need_close (hrun : c.running.isSome) (answer : Text) : g.need (c.close answer) = 3 := by
  have hparse : routeAfterConfirm (c.state.closeGate answer) = .parse := rfl
  unfold Config.close
  rw [hparse, need_goto hrun]
  cases c.resume.isSome <;> rfl

/-- The confirm node that lets a write through leads to the tools or to the tail. -/
theorem need_pass_le (hrun : c.running.isSome) :
    g.need c.pass ≤ g.needAt c.state c.resume.isSome .tools := by
  unfold Config.pass
  rw [need_goto hrun]
  unfold routeAfterConfirm
  split
  · cases c.resume.isSome <;> (simp only [Graph.needAt]; omega)
  · exact Nat.le_refl _

/-- **A node run brings the end nearer by one at least**, with the confirmation on. -/
theorem Step.need_lt (hconfirm : g.requireConfirmation = true) (hs : Step g c a c' fs)
    (ha : goesOn c a = true) : g.need c' < g.need c := by
  have left : ∀ {n : Node}, c.At n → 0 < g.need c := by
    intro n here
    rw [need_at here]
    exact needAt_pos ..
  cases hs with
  | expired | resume | turn => cases ha
  | guard here =>
    rw [need_at here, need_goto here.1]
    cases hscreen : (screen (lastHuman c.state.messages)).allowed with
    | true =>
      obtain ⟨-, hallowed, hzero⟩ := guardNode_allowed hscreen
      rw [routeAfterGuard, hallowed]
      cases c.resume.isSome <;>
        (simp only [Bool.false_eq_true, if_false, Graph.needAt, Graph.callsLeft, hzero]; omega)
    | false =>
      rw [routeAfterGuard, (guardNode_blocked hscreen).2]
      cases c.resume.isSome <;> (simp only [if_true, Graph.needAt]; omega)
  | stop here =>
    rw [need_at here, need_goto here.1]
    cases c.resume.isSome <;> (simp only [Graph.needAt]; omega)
  | @reply r here cap =>
    have hcap : c.state.iterations < g.maxIterations := by
      simpa [Graph.capped] using cap
    have hleft : g.callsLeft (agentNode c.state r) + 1 = g.callsLeft c.state := by
      show g.maxIterations - (c.state.iterations + 1) + 1 = g.maxIterations - c.state.iterations
      omega
    rw [need_at here, need_goto here.1]
    unfold routeAfterAgent
    dsimp only
    split
    · cases c.resume.isSome <;> (simp only [Graph.needAt]; omega)
    · split <;> (cases c.resume.isSome <;> (simp only [Graph.needAt]; omega))
  | @capture e here =>
    rw [need_at here, need_goto here.1]
    cases c.resume.isSome <;>
      (simp only [Graph.needAt, Graph.callsLeft, captureNode_iterations]; omega)
  | gateOff here off =>
    rw [hconfirm] at off
    cases off
  | refused here =>
    rw [need_at here, need_close here.1]
    cases c.resume.isSome <;> (simp only [Graph.needAt]; omega)
  | approved here hgate given yes =>
    -- the resume value is taken, and with it the way past the gate
    have hpass : g.need ({ c with resume := none } : Config W).pass ≤ _ := need_pass_le here.1
    rw [need_at here, given]
    refine Nat.lt_of_le_of_lt hpass ?_
    exact Nat.lt_succ_self _
  | declined here hgate given no =>
    have hclose : g.need (({ c with resume := none } : Config W).close notFiled) = 3 :=
      need_close (c := { c with resume := none }) here.1 notFiled
    rw [need_at here, given, hclose]
    simp only [Option.isSome_some, Graph.needAt]
    omega
  | tools here =>
    rw [need_at here]
    refine lt_of_eq_of_lt (need_goto here.1 _ _) ?_
    cases c.resume.isSome <;>
      (simp only [Graph.needAt, Graph.callsLeft, toolsNode, AgentState.add]; omega)
  | asked here | toolsFailed here | format here | crash here =>
    rw [need_stopped rfl]
    exact left here
  | readback here | parse here | ground here =>
    rw [need_at here, need_goto here.1]
    cases c.resume.isSome <;> exact Nat.lt_succ_self _

theorem need_le (c : Config W) : g.need c ≤ 2 * g.maxIterations + 8 := by
  unfold Graph.need
  split
  · unfold Graph.needAt Graph.callsLeft
    split <;> omega
  · exact Nat.zero_le _

/-! ## Steps under the limit -/

variable {m m' : Metered W}

/-- **What a step under the limit is**: a job is accepted, a node runs, or the run fails at the
limit. -/
theorem metered_cases (h : g.metered m a = some (m', fs)) :
    Step g m.config a m'.config fs ∧
      ((∃ j now ok, a = .job j now ok) ∧ m.config.running = none ∧ m'.ran = 0 ∨
        goesOn m.config a = true ∧ m.ran < g.recursionLimit ∧ m'.ran = m.ran + 1 ∨
        g.recursionLimit ≤ m.ran ∧ m'.ran = m.ran ∧ m'.config.running = none ∧
          ∃ n, .ended (.failed n) ∈ fs) := by
  have counted : ∀ {ran : Nat}, (g.step m.config a).map
      (fun r => ((⟨r.1, ran⟩, r.2) : Metered W × List (Event E))) = some (m', fs) →
        Step g m.config a m'.config fs ∧ m'.ran = ran := by
    intro ran h
    obtain ⟨⟨c, es⟩, hs, heq⟩ := Option.map_eq_some_iff.mp h
    cases heq
    exact ⟨Graph.step_cases hs, rfl⟩
  cases a with
  | job j now ok =>
    obtain ⟨hs, hran⟩ := counted h
    obtain ⟨⟨c, es⟩, haccept, -⟩ := Option.map_eq_some_iff.mp h
    exact ⟨hs, .inl ⟨⟨j, now, ok, rfl⟩, Graph.idle_of_job haccept, hran⟩⟩
  | go | reply r | settle e | call es =>
    unfold Graph.metered at h
    dsimp only at h
    split at h
    · rename_i hlt
      obtain ⟨hs, hran⟩ := counted h
      exact ⟨hs, .inr (.inl ⟨rfl, hlt, hran⟩)⟩
    · cases h
  | fail failure =>
    unfold Graph.metered at h
    dsimp only at h
    split at h
    · rename_i hlt
      obtain ⟨hs, hran⟩ := counted h
      exact ⟨hs, .inr (.inl ⟨rfl, hlt, hran⟩)⟩
    · rename_i hlimit
      split at h
      · rename_i e heq
        split at h
        · obtain ⟨hs, hran⟩ := counted h
          refine ⟨hs, .inr (.inr ⟨Nat.not_lt.mp hlimit, hran, ?_⟩)⟩
          -- the only case of a failing action
          generalize m'.config = c' at hs
          cases hs with
          | crash here =>
            exact ⟨rfl, _, List.mem_append_right _ (List.mem_singleton_self _)⟩
        · cases h
      · cases h

/-- What an invocation has run and still needs, over all runs. -/
theorem ran_add_need_le (hconfirm : g.requireConfirmation = true) {w : W} {as : List (Action E)}
    {es : List (Event E)} (h : g.MeteredRuns w as m es) :
    m.ran + g.need m.config ≤ 2 * g.maxIterations + 8 := by
  refine h.invariant (I := fun m _ => m.ran + g.need m.config ≤ 2 * g.maxIterations + 8)
    (Nat.zero_le _) fun {m _ a m' fs} hm hs => ?_
  obtain ⟨hstep, ⟨-, -, hran⟩ | ⟨ha, -, hran⟩ | ⟨-, hran, hstopped, -⟩⟩ := metered_cases hs
  · rw [hran, Nat.zero_add]
    exact need_le _
  · have := hstep.need_lt hconfirm ha
    omega
  · rw [need_stopped hstopped]
    omega

theorem not_overLimit (hconfirm : g.requireConfirmation = true) (hn : 4 ≤ g.maxIterations) {w : W}
    {as : List (Action E)} {es : List (Event E)} (h : g.MeteredRuns w as m es) :
    ¬g.OverLimit m := by
  rintro ⟨⟨n, here⟩, hlimit⟩
  have hle := ran_add_need_le hconfirm h
  have hpos : 0 < g.need m.config := need_at here ▸ needAt_pos ..
  unfold Graph.recursionLimit at hlimit
  omega

/-! ## Runs without a failure -/

/-- What is left to do comes after a call of the model. -/
def Next.afterReply : Next → Bool
  | .paused _ | .at .capture | .at .confirm | .at .tools => true
  | _ => false

/-- A thread on which no node has failed. -/
structure Steady (g : Graph E W) (m : Metered W) : Prop where
  bound : m.ran + g.need m.config ≤ 2 * g.maxIterations + 6
  idle : m.config.running = none → m.config.next = .done ∨ ∃ p, m.config.next = .paused p
  replied : m.config.next.afterReply = true → 0 < m.config.state.iterations

/-- A node that runs and does not fail keeps what has been said of the thread. -/
theorem Step.replied (hs : Step g c a c' fs) (ha : goesOn c a = true) (hfs : Unfailed fs)
    (hc : c.next.afterReply = true → 0 < c.state.iterations) :
    (c'.running = none → c'.next = .done ∨ ∃ p, c'.next = .paused p) ∧
      (c'.next.afterReply = true → 0 < c'.state.iterations) := by
  have running : ∀ {n : Node} {d : Config W}, c.At n → d.running = c.running →
      d.running = none → d.next = .done ∨ ∃ p, d.next = .paused p := by
    intro n d here hsame hnone
    have hrun := here.1
    rw [← hsame, hnone] at hrun
    cases hrun
  cases hs with
  | expired | resume | turn => cases ha
  | guard here =>
    refine ⟨running here rfl, fun h => ?_⟩
    have hroute : routeAfterGuard (guardNode c.state) = .parse ∨
        routeAfterGuard (guardNode c.state) = .agent := by
      unfold routeAfterGuard
      split
      · exact .inl rfl
      · exact .inr rfl
    have hnext : (c.goto (routeAfterGuard (guardNode c.state)) (guardNode c.state)).next =
        .at (routeAfterGuard (guardNode c.state)) := rfl
    rw [hnext] at h
    rcases hroute with hroute | hroute <;> (rw [hroute] at h; cases h)
  | stop here | readback here | parse here | ground here | tools here =>
    exact ⟨running here rfl, nofun⟩
  | reply here => exact ⟨running here rfl, fun _ => Nat.succ_pos _⟩
  | capture here =>
    refine ⟨running here rfl, fun _ => ?_⟩
    have hbefore := hc (by rw [here.2]; rfl)
    exact Nat.lt_of_lt_of_eq hbefore (captureNode_iterations _ _).symm
  | gateOff here | approved here | refused here | declined here =>
    exact ⟨running here rfl, fun _ => hc (by rw [here.2]; rfl)⟩
  | asked here => exact ⟨fun _ => .inr ⟨_, rfl⟩, fun _ => hc (by rw [here.2]; rfl)⟩
  | format here => exact ⟨fun _ => .inl rfl, nofun⟩
  | toolsFailed here ran =>
    exact absurd (List.mem_append_right _ (List.mem_append_right _ (List.mem_singleton_self _)))
      (hfs .tools)
  | crash here =>
    exact absurd (List.mem_append_right _ (List.mem_singleton_self _)) (hfs _)

theorem Steady.step (h : Steady g m) (hconfirm : g.requireConfirmation = true)
    (hn : 0 < g.maxIterations) (hs : g.metered m a = some (m', fs)) (hfs : Unfailed fs) :
    Steady g m' := by
  obtain ⟨hstep, ⟨⟨j, now, ok, rfl⟩, idle, hran⟩ | ⟨ha, -, hran⟩ | ⟨-, -, -, n, hfailed⟩⟩ :=
    metered_cases hs
  · obtain ⟨c', ran⟩ := m'
    obtain rfl : ran = 0 := hran
    cases hstep with
    | expired =>
      refine ⟨?_, h.idle, h.replied⟩
      rw [need_stopped idle]
      exact Nat.zero_le _
    | resume _ _ left =>
      -- what is left is an interrupt, whose write has used an iteration up
      obtain ⟨p, hpaused⟩ := (h.idle idle).resolve_left left
      have hreplied := h.replied (by rw [hpaused]; rfl)
      have hnext : (m.config.resumeWith j).next = .at .confirm := by
        unfold Config.resumeWith
        dsimp only
        rw [hpaused]
        rfl
      refine ⟨?_, nofun, fun _ => hreplied⟩
      have hneed : g.need (m.config.resumeWith j) = 2 * g.callsLeft m.config.state + 7 :=
        need_at ⟨rfl, hnext⟩
      have hleft : g.callsLeft m.config.state + m.config.state.iterations = g.maxIterations ∨
          g.callsLeft m.config.state = 0 := by
        unfold Graph.callsLeft
        omega
      show 0 + g.need (m.config.resumeWith j) ≤ _
      rw [hneed]
      omega
    | turn =>
      refine ⟨?_, nofun, nofun⟩
      have hneed : g.need (m.config.startTurn j) = 2 * g.maxIterations + 6 :=
        need_at (c := m.config.startTurn j) (n := .guard) ⟨rfl, rfl⟩
      show 0 + g.need (m.config.startTurn j) ≤ _
      rw [hneed]
      omega
    | crash here =>
      have hrun := here.1
      rw [idle] at hrun
      cases hrun
  · have hlt := hstep.need_lt hconfirm ha
    obtain ⟨hidle, hreplied⟩ := hstep.replied ha hfs h.replied
    have := h.bound
    exact ⟨by omega, hidle, hreplied⟩
  · exact absurd hfailed (hfs n)

theorem not_overLimit_of_unfailed (hconfirm : g.requireConfirmation = true)
    (hn : 3 ≤ g.maxIterations) {w : W} {as : List (Action E)} {es : List (Event E)}
    (h : g.MeteredRuns w as m es) (hes : Unfailed es) : ¬g.OverLimit m := by
  have hsteady : Unfailed es → Steady g m := by
    refine h.invariant (I := fun m es => Unfailed es → Steady g m) (fun _ => ?_)
      fun {m es a m' fs} hm hs hes => ?_
    · exact ⟨Nat.zero_le _, fun _ => .inl rfl, nofun⟩
    · exact (hm fun n hn => hes n (List.mem_append_left _ hn)).step hconfirm (by omega) hs
        fun n hn => hes n (List.mem_append_right _ hn)
  rintro ⟨⟨n, here⟩, hlimit⟩
  have hle := (hsteady hes).bound
  have hpos : 0 < g.need m.config := need_at here ▸ needAt_pos ..
  unfold Graph.recursionLimit at hlimit
  omega

/-! ## Calls of the model -/

theorem repliesIn_append (es fs : List (Event E)) :
    repliesIn (es ++ fs) = repliesIn es + repliesIn fs := List.countP_append

theorem repliesIn_publish (runId : Text) (seq : Nat) (ts : List RunEvent) :
    repliesIn (publish runId seq ts : List (Event E)) = 0 := by
  unfold repliesIn
  rw [List.countP_eq_zero]
  intro x hx
  obtain ⟨i, e, -, rfl⟩ := mem_publish hx
  exact Bool.false_ne_true

/-- How often the model may have been called, by what is left to do. -/
def calledAt (g : Graph E W) (s : AgentState) (called : Nat) : Next → Prop
  | .at .guard => called = 0
  | .paused _ | .at .agent | .at .capture | .at .confirm | .at .tools =>
      called ≤ s.iterations ∧ s.iterations ≤ g.maxIterations
  | _ => called ≤ g.maxIterations

/-- How often the model has been called in this turn. -/
def Called (g : Graph E W) (c : Config W) (es : List (Event E)) : Prop :=
  calledAt g c.state (repliesIn (thisTurn es)) c.next

theorem calledAt_le {s : AgentState} {called : Nat} :
    ∀ {next : Next}, calledAt g s called next → called ≤ g.maxIterations
  | .done, h => h
  | .at .guard, h => h ▸ Nat.zero_le _
  | .paused _, h | .at .agent, h | .at .capture, h | .at .confirm, h | .at .tools, h =>
      Nat.le_trans h.1 h.2
  | .at .readback, h | .at .parse, h | .at .ground, h | .at .format, h => h

theorem calledAt_continued {s : AgentState} {called : Nat} :
    ∀ {next : Next}, calledAt g s called next → calledAt g s called next.continued
  | .done, h | .at _, h | .paused _, h => h

/-- **One step calls the model once at most**, and counts it. -/
theorem Step.called {es : List (Event E)} (h : Called g c es) (hs : Step g c a c' fs) :
    Called g c' (es ++ fs) := by
  have hle : repliesIn (OmniCare.thisTurn es) ≤ g.maxIterations := calledAt_le h
  rcases hs.thisTurn es with ⟨j, now, ok, rfl, rfl, hturn⟩ | hturn
  · show repliesIn (OmniCare.thisTurn (es ++ fs)) = 0
    rw [hturn]
    rfl
  -- other steps stay in the turn
  have hsum : repliesIn (OmniCare.thisTurn (es ++ fs)) =
      repliesIn (OmniCare.thisTurn es) + repliesIn fs := by rw [hturn, repliesIn_append]
  have silent : repliesIn fs = 0 →
      repliesIn (OmniCare.thisTurn (es ++ fs)) = repliesIn (OmniCare.thisTurn es) :=
    fun hnone => by rw [hsum, hnone, Nat.add_zero]
  have published : ∀ runId seq ts, repliesIn (publish runId seq ts : List (Event E)) = 0 :=
    repliesIn_publish
  have passed : repliesIn (c.state.passing : List (Event E)) = 0 := by
    unfold AgentState.passing
    split <;> rfl
  have executed : ∀ xs : List (Execution E),
      repliesIn (xs.map .executed : List (Event E)) = 0 := by
    intro xs
    unfold repliesIn
    rw [List.countP_eq_zero]
    intro x hx
    obtain ⟨y, -, rfl⟩ := List.mem_map.mp hx
    exact Bool.false_ne_true
  unfold Called at h ⊢
  cases hs with
  | expired => rwa [silent (published ..)]
  | resume =>
    rw [silent (by rw [repliesIn_append, published]; rfl)]
    exact calledAt_continued h
  | @turn j =>
    show repliesIn (OmniCare.thisTurn _) = 0
    rw [← List.append_assoc, thisTurn_turnStarted]
    rfl
  | guard here =>
    rw [here.2] at h
    rw [silent rfl]
    cases hscreen : (screen (lastHuman c.state.messages)).allowed with
    | true =>
      obtain ⟨-, hallowed, hzero⟩ := guardNode_allowed hscreen
      rw [routeAfterGuard, hallowed]
      exact ⟨h ▸ Nat.zero_le _, hzero ▸ Nat.zero_le _⟩
    | false =>
      rw [routeAfterGuard, (guardNode_blocked hscreen).2]
      exact hle
  | stop here => rwa [silent rfl]
  | @reply r here cap =>
    rw [here.2] at h
    have hcap : c.state.iterations < g.maxIterations := by
      simpa [Graph.capped] using cap
    have hone : repliesIn (OmniCare.thisTurn (es ++ [.sent (modelInput c.state), .replied r])) =
        repliesIn (OmniCare.thisTurn es) + 1 := hsum
    rw [hone]
    have hboth : repliesIn (OmniCare.thisTurn es) + 1 ≤ (agentNode c.state r).iterations ∧
        (agentNode c.state r).iterations ≤ g.maxIterations :=
      ⟨Nat.succ_le_succ h.1, hcap⟩
    unfold routeAfterAgent
    dsimp only
    split
    · exact hboth.1.trans hboth.2
    · split <;> exact hboth
  | capture here =>
    rw [here.2] at h
    rw [silent rfl]
    show _ ≤ (captureNode _ c.state).iterations ∧ (captureNode _ c.state).iterations ≤ _
    rw [captureNode_iterations]
    exact h
  | gateOff here =>
    rw [here.2] at h
    rw [silent passed]
    unfold Config.pass routeAfterConfirm
    split
    · exact hle
    · exact h
  | approved here =>
    rw [here.2] at h
    rw [silent passed]
    unfold Config.pass routeAfterConfirm
    split
    · exact hle
    · exact h
  | refused here | declined here =>
    rw [silent rfl]
    exact hle
  | asked here =>
    rw [here.2] at h
    have hnone := silent (by
      show repliesIn (publish _ _ _ ++ [.ended .paused] : List (Event E)) = 0
      rw [repliesIn_append, published]
      rfl)
    rw [hnone]
    exact h
  | tools here =>
    rw [here.2] at h
    rw [silent (executed _)]
    exact h
  | readback here | parse here | ground here => rwa [silent rfl]
  | format here =>
    rw [silent (by rw [repliesIn_append, published]; rfl)]
    exact hle
  | toolsFailed here ran =>
    rw [silent (by rw [repliesIn_append, repliesIn_append, executed, published]; rfl)]
    exact h
  | crash here =>
    rw [silent (by rw [repliesIn_append, published]; rfl)]
    exact h

/-- **The model is called within the iterations**, in the run that paused and the one that resumed
it together. -/
theorem called_le {w : W} {as : List (Action E)} {es : List (Event E)}
    (h : g.MeteredRuns w as m es) : repliesIn (thisTurn es) ≤ g.maxIterations := by
  have hcalled : Called g m.config es :=
    h.invariant (I := fun m es => Called g m.config es) (Nat.zero_le _)
      fun hm hs => (metered_cases hs).1.called hm
  exact calledAt_le hcalled

/-! ## Runs that meet the limit -/

/-- A graph without confirmation, whose one tool files claims. -/
def unconfirmed (n : Nat) : Graph Unit Nat := { filingGraph false with maxIterations := n }

/-- The model asks for a write. -/
def writeReply : Reply := ⟨[], [filingCall "a"]⟩

/-- A step below the limit. -/
theorem metered_of_step (hlt : m.ran < g.recursionLimit) (ha : goesOn m.config a = true)
    (hs : g.step m.config a = some (c', fs)) : g.metered m a = some (⟨c', m.ran + 1⟩, fs) := by
  unfold Graph.metered
  cases a with
  | job j now ok => cases ha
  | go | reply r | settle e | call es | fail failure =>
    dsimp only
    rw [if_pos hlt, hs]
    rfl

theorem step_at {n : Node} (here : c.At n) (ha : goesOn c a = true) :
    g.step c a = g.node c n a := by
  obtain ⟨hrun, hnext⟩ := here
  obtain ⟨run, hrun⟩ := Option.isSome_iff_exists.mp hrun
  unfold Graph.step
  cases a with
  | job j now ok => cases ha
  | go | reply r | settle e | call es | fail failure => rw [hrun, hnext]

/-- A write takes three nodes to get to the tools. -/
theorem write_asked {n : Nat} {m : Metered Nat} (here : m.config.At .agent)
    (hcalls : m.config.state.iterations < n) (hran : m.ran + 3 ≤ n * 4) :
    ∃ m' es, Run (Computes (unconfirmed n).metered) m [.reply writeReply, .settle (), .go] m' es ∧
      m'.config.At .tools ∧ m'.ran = m.ran + 3 ∧ Unfailed es ∧
      m'.config.state.iterations = m.config.state.iterations + 1 ∧
      lastCalls m'.config.state.messages = [filingCall "a"] := by
  obtain ⟨c, ran⟩ := m
  have here : c.At .agent := here
  have hcap : (unconfirmed n).capped c.state = false := decide_eq_false (Nat.not_le.mpr hcalls)
  have hlimit : (unconfirmed n).recursionLimit = n * 4 := rfl
  -- the model asks for the write, the write is captured, and the gate is off
  let asked := agentNode c.state writeReply
  let captured : AgentState :=
    { asked with pendingWrite := some (filingCall "a").args, pendingSettlement := none }
  have hasked : lastCalls asked.messages = [filingCall "a"] := lastCalls_append_singleton _ _
  have hcapture : captureNode ((unconfirmed n).settle ()) asked = captured := by
    unfold captureNode
    rw [hasked]
    rfl
  have hreply : (unconfirmed n).step c (.reply writeReply) = some
      (c.goto .capture asked, [.sent (modelInput c.state), .replied writeReply]) := by
    rw [step_at here rfl]
    unfold Graph.node
    dsimp only
    have hroute : routeAfterAgent (agentNode c.state writeReply) = .capture := by
      unfold routeAfterAgent
      rw [show lastCalls (agentNode c.state writeReply).messages = [filingCall "a"] from hasked]
      rfl
    rw [hcap, hroute]
    rfl
  have hsettle : (unconfirmed n).step (c.goto .capture asked) (.settle ()) = some
      ((c.goto .capture asked).goto .confirm captured, []) := by
    have hat : (c.goto .capture asked).At .capture := ⟨here.1, rfl⟩
    rw [step_at hat rfl, ← hcapture]
    rfl
  have hgate : (unconfirmed n).step ((c.goto .capture asked).goto .confirm captured) .go = some
      (((c.goto .capture asked).goto .confirm captured).pass, []) := by
    have hat : ((c.goto .capture asked).goto .confirm captured).At .confirm := ⟨here.1, rfl⟩
    rw [step_at hat rfl]
    rfl
  dsimp only at hran
  have first := metered_of_step (m := ⟨c, ran⟩) (by rw [hlimit]; dsimp only; omega) rfl hreply
  have second := metered_of_step (m := ⟨c.goto .capture asked, ran + 1⟩)
    (by rw [hlimit]; dsimp only; omega) rfl hsettle
  have third := metered_of_step
    (m := ⟨(c.goto .capture asked).goto .confirm captured, ran + 1 + 1⟩)
    (by rw [hlimit]; dsimp only; omega) rfl hgate
  refine ⟨_, _, ((Run.single first).step second).step third, ⟨here.1, rfl⟩, rfl, ?_, rfl, hasked⟩
  intro k hk
  simp at hk

/-- Once the tools have filed the claim, the model is called again. -/
theorem write_filed {n : Nat} {m : Metered Nat} (here : m.config.At .tools)
    (hcalls : lastCalls m.config.state.messages = [filingCall "a"]) (hran : m.ran + 1 ≤ n * 4) :
    ∃ m' es, Run (Computes (unconfirmed n).metered) m [.call [()]] m' es ∧ m'.config.At .agent ∧
      m'.ran = m.ran + 1 ∧ Unfailed es ∧
      m'.config.state.iterations = m.config.state.iterations := by
  obtain ⟨c, ran⟩ := m
  have here : c.At .tools := here
  have hlimit : (unconfirmed n).recursionLimit = n * 4 := rfl
  obtain ⟨t, w, xs, hcall⟩ : ∃ t w xs, (unconfirmed n).ranCalls c [()] = (.ok t, w, xs) := by
    unfold Graph.ranCalls
    rw [hcalls]
    exact ⟨_, _, _, rfl⟩
  have hstep : (unconfirmed n).step c (.call [()]) = some
      (({ c with world := w } : Config Nat).goto .agent (toolsNode c.state t),
        xs.map .executed) := by
    rw [step_at here rfl]
    show some ((unconfirmed n).callTools c [()]) = _
    unfold Graph.callTools
    rw [hcall]
  dsimp only at hran
  have first := metered_of_step (m := ⟨c, ran⟩) (by rw [hlimit]; dsimp only; omega) rfl hstep
  refine ⟨_, _, .single first, ⟨here.1, rfl⟩, rfl, ?_, rfl⟩
  intro k hk
  simp at hk

theorem Unfailed.append {es : List (Event E)} (h : Unfailed es) (h' : Unfailed fs) :
    Unfailed (es ++ fs) := fun n hn => (List.mem_append.mp hn).elim (h n) (h' n)

/-- **Without confirmation, a model that keeps filing meets the limit**, whatever it is. -/
theorem overLimit_unconfirmed (n : Nat) :
    ∃ as m es, (unconfirmed n).MeteredRuns 0 as m es ∧ Unfailed es ∧
      (unconfirmed n).OverLimit m := by
  let j : Job := { runId := "r1", message := "Hello" }
  have accepted : (unconfirmed n).MeteredRuns 0 [.job j 0 true] ⟨(newThread 0).startTurn j, 0⟩ _ :=
    .single rfl
  have hjob : Unfailed ([.published "r1" 0 .started, .turnStarted "Hello" .done] :
      List (Event Unit)) := by
    intro k hk
    simp at hk
  cases n with
  | zero => exact ⟨_, _, _, accepted, hjob, ⟨_, rfl, rfl⟩, Nat.le_refl _⟩
  | succ n =>
    -- each iteration takes four nodes
    have looped : ∀ k, k ≤ n → ∃ as m es, (unconfirmed (n + 1)).MeteredRuns 0 as m es ∧
        Unfailed es ∧ m.config.At .agent ∧ m.config.state.iterations = k ∧ m.ran = 1 + 4 * k := by
      intro k
      induction k with
      | zero =>
        intro _
        have hallowed : (screen (lastHuman ((newThread 0).startTurn j).state.messages)).allowed =
            true := by decide
        obtain ⟨-, hopen, hzero⟩ := guardNode_allowed hallowed
        have hguard := metered_of_step (g := unconfirmed (n + 1))
          (m := ⟨(newThread 0).startTurn j, 0⟩) (by simp [Graph.recursionLimit, unconfirmed]) rfl
          (step_at (n := .guard) (a := .go) ⟨rfl, rfl⟩ rfl)
        refine ⟨_, _, _, accepted.step hguard, hjob.append ?_, ⟨rfl, ?_⟩, hzero, rfl⟩
        · intro k hk
          simp at hk
        · show Next.at (routeAfterGuard _) = _
          rw [routeAfterGuard, hopen]
          rfl
      | succ k ih =>
        intro hk
        obtain ⟨as, m, es, h, hes, here, hcalls, hran⟩ := ih (by omega)
        obtain ⟨m', es', h', here', hran', hes', hcalls', hlast⟩ :=
          write_asked (n := n + 1) here (by omega) (by omega)
        obtain ⟨m'', es'', h'', here'', hran'', hes'', hcalls''⟩ :=
          write_filed (n := n + 1) here' hlast (by omega)
        exact ⟨_, m'', _, (h.trans h').trans h'', (hes.append hes').append hes'', here'', by omega,
          by omega⟩
    obtain ⟨as, m, es, h, hes, here, hcalls, hran⟩ := looped n (Nat.le_refl n)
    obtain ⟨m', es', h', here', hran', hes', -⟩ :=
      write_asked (n := n + 1) here (by omega) (by omega)
    refine ⟨_, m', _, h.trans h', hes.append hes', ⟨_, here'⟩, ?_⟩
    show (n + 1) * 4 ≤ m'.ran
    omega

/-- A graph with the confirmation on, without tools. -/
def confirmed (n : Nat) : Graph Unit Unit := { bareGraph with maxIterations := n }

/-- The model calls a tool that the graph does not have. -/
def readReply : Reply := ⟨[], [⟨"look_up", [], "b"⟩]⟩

/-- Whether a thread needs a node that the limit does not let it have. -/
def stuck (g : Graph E W) (m : Metered W) : Bool :=
  (m.config.running.isSome && match m.config.next with
    | .at _ => true
    | _ => false) && decide (g.recursionLimit ≤ m.ran)

/-- Whether no node has failed. -/
def unfailed (es : List (Event E)) : Bool :=
  es.all fun
    | .ended (.failed _) => false
    | _ => true

theorem overLimit_of_stuck (h : stuck g m = true) : g.OverLimit m := by
  unfold stuck at h
  rw [Bool.and_eq_true, Bool.and_eq_true, decide_eq_true_iff] at h
  obtain ⟨⟨hrun, hnext⟩, hlimit⟩ := h
  refine ⟨?_, hlimit⟩
  split at hnext
  · rename_i n hn
    exact ⟨n, hrun, hn⟩
  · cases hnext

theorem unfailed_of_all {es : List (Event E)} (h : unfailed es = true) : Unfailed es :=
  fun _ hn => Bool.false_ne_true (List.all_eq_true.mp h _ hn)

/-- Runs without a failure that meet the limit, with the iterations that the graph has. -/
def stuckRuns : List (Nat × List (Action Unit)) :=
  [ -- without an iteration the limit is met at once
    (0, [.job { runId := "r1", message := "Hello" } 0 true]),
    -- an answer without a tool call takes six nodes
    (1, [.job { runId := "r1", message := "Hello" } 0 true, .go, .reply ⟨"Hi.", []⟩, .go, .go]),
    -- two look-ups and the answer take ten nodes
    (2, [.job { runId := "r1", message := "Hello" } 0 true, .go, .reply readReply, .call [],
      .reply readReply, .call [], .go, .go, .go])]

theorem stuckRuns_meet : (stuckRuns.all fun r =>
    (play (confirmed r.1).metered ⟨newThread (), 0⟩ r.2).any fun t =>
      stuck (confirmed r.1) t.1 && unfailed t.2) = true := by decide

theorem overLimit_of_mem {n : Nat} {as : List (Action Unit)} (hmem : (n, as) ∈ stuckRuns) :
    ∃ as m es, (confirmed n).MeteredRuns () as m es ∧ Unfailed es ∧
      (confirmed n).OverLimit m := by
  obtain ⟨m, es, h, hp⟩ := exists_run_of_play (confirmed n).metered ⟨newThread (), 0⟩ as
    (fun m es => stuck (confirmed n) m && unfailed es)
    (List.all_eq_true.mp stuckRuns_meet _ hmem)
  rw [Bool.and_eq_true] at hp
  exact ⟨as, m, es, h, unfailed_of_all hp.2, overLimit_of_stuck hp.1⟩

theorem overLimit_zero : ∃ as m es, (confirmed 0).MeteredRuns () as m es ∧ Unfailed es ∧
    (confirmed 0).OverLimit m := overLimit_of_mem (.head _)

theorem overLimit_one : ∃ as m es, (confirmed 1).MeteredRuns () as m es ∧ Unfailed es ∧
    (confirmed 1).OverLimit m := overLimit_of_mem (.tail _ (.head _))

theorem overLimit_two : ∃ as m es, (confirmed 2).MeteredRuns () as m es ∧ Unfailed es ∧
    (confirmed 2).OverLimit m := overLimit_of_mem (.tail _ (.tail _ (.head _)))

/-- After a failed call of the model, the resumed invocation brings a resume value with it: a write
and two look-ups take thirteen nodes. -/
theorem overLimit_three : ∃ as m es, (confirmed 3).MeteredRuns () as m es ∧
    (confirmed 3).OverLimit m := by
  obtain ⟨m, es, h, hp⟩ := exists_run_of_play (confirmed 3).metered ⟨newThread (), 0⟩
    [.job { runId := "r1", message := "Claim $1200 for water damage on POL-1092" } 0 true, .go,
      .fail (.raised ⟨"APIError", ""⟩), .job { runId := "r2", message := "yes" } 0 true,
      .reply writeReply, .settle (), .go, .call [], .reply readReply, .call [], .reply readReply,
      .call [], .go, .go, .go, .go]
    (fun m _ => stuck (confirmed 3) m) (by decide +kernel)
  exact ⟨_, m, es, h, overLimit_of_stuck hp⟩

/-! ## The settings under which the limit is never met -/

/-- What is said of all graphs with these two settings, and of all their runs. -/
def EachRun (n : Nat) (requireConfirmation : Bool)
    (p : {E W : Type} → Graph E W → Metered W → List (Event E) → Prop) : Prop :=
  ∀ {E W : Type} (g : Graph E W), g.maxIterations = n →
    g.requireConfirmation = requireConfirmation →
      ∀ (w : W) (as : List (Action E)) (m : Metered W) (es : List (Event E)),
        g.MeteredRuns w as m es → p g m es

end OmniCare
