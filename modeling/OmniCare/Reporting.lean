import OmniCare.Publishing

/-! # Which tool calls are reported

The tools node records what it has executed in `tool_invocations`, the worker publishes a
`tool_end` for each entry when a run ends or is suspended, and `guard` clears the list when a turn
begins.  A resumed run does not pass `guard`.  `calls_reported_once`: over all jobs of a thread,
the events report the executed calls in order, each of them once, as long as no job resumes a
paused turn that has executed a tool, and no job fails in a turn that has.
-/
namespace OmniCare

variable {E W : Type}

/-! ## Reports and executions -/

/-- What the tools node records of an execution. -/
def Execution.invocation (x : Execution E) : Invocation :=
  match x.outcome with
  | .returned result =>
      ⟨x.call.name, x.call.args, asResult result, if reportsError result then .error else .ok⟩
  | .raised e =>
      ⟨x.call.name, x.call.args, [("error", .str e.kind), ("detail", .str e.detail)], .error⟩
  | .cancelled => ⟨x.call.name, x.call.args, [], .error⟩

/-- The call that an event reports as ended. -/
def RunEvent.ended? : RunEvent → Option Invocation
  | .toolEnd call => some call
  | _ => none

/-- The calls reported by `tool_end` events. -/
def toolEnds (es : List (Event E)) : List Invocation :=
  (publishedOf es).filterMap fun t => t.2.2.ended?

theorem toolEnds_append (es fs : List (Event E)) :
    toolEnds (es ++ fs) = toolEnds es ++ toolEnds fs := by
  rw [toolEnds, publishedOf_append, List.filterMap_append, toolEnds, toolEnds]

theorem toolEnds_of_published {es : List (Event E)} {runId : Text} {seq : Nat}
    {ts : List RunEvent} (h : publishedOf es = numbered runId seq ts) :
    toolEnds es = ts.filterMap RunEvent.ended? := by
  have hfst : (ts.zipIdx seq).map Prod.fst = ts := List.zipIdx_map_fst seq ts
  rw [toolEnds, h, numbered, List.filterMap_map]
  conv_rhs => rw [← hfst, List.filterMap_map]
  rfl

theorem filterMap_ended_toolEnd (calls : List Invocation) :
    (calls.map RunEvent.toolEnd).filterMap RunEvent.ended? = calls := by
  rw [List.filterMap_map]
  exact List.filterMap_some

theorem ended_finishedEvents (s : AgentState) :
    (finishedEvents s).filterMap RunEvent.ended? = s.toolInvocations := by
  unfold finishedEvents
  dsimp only
  rw [List.filterMap_append, List.filterMap_append, filterMap_ended_toolEnd]
  split <;> simp [RunEvent.ended?]

theorem ended_pausedEvents (s : AgentState) (p : Prompt) :
    (pausedEvents s p).filterMap RunEvent.ended? = s.toolInvocations := by
  rw [pausedEvents, List.filterMap_append, filterMap_ended_toolEnd]
  exact List.append_nil _

theorem ended_failure (failure : Failure) :
    [failure.event].filterMap RunEvent.ended? = [] := by
  cases failure <;> rfl

/-! ## What the nodes do to the list -/

theorem Tooled.record_invocations {t t' : Tooled} {call : ToolCall} {result : Json}
    {status : ToolStatus} (h : t.record call result status = .ok t') :
    t'.invocations = t.invocations ++ [⟨call.name, call.args, asResult result, status⟩] := by
  obtain ⟨chunks, -, h⟩ := exists_ok_of_bind h
  cases h
  rfl

theorem Tooled.finish_invocations {t t' : Tooled} {call : ToolCall} {e : E} {outcome : Outcome}
    (h : t.finish call outcome = .ok t') :
    t'.invocations = t.invocations ++ [Execution.invocation ⟨call, e, outcome⟩] := by
  cases outcome with
  | returned result => exact record_invocations (ok_of_mapError h)
  | raised e => exact record_invocations (ok_of_mapError h)
  | cancelled => cases h

/-- **The tools node records every call that it executes, in order.** -/
theorem runCalls_invocations {tools : List (Tool E W)} {calls : List ToolCall} {es : List E}
    {t t' : Tooled} {w w' : W} {xs : List (Execution E)}
    (h : runCalls tools calls es t w = (.ok t', w', xs)) :
    t'.invocations = t.invocations ++ xs.map Execution.invocation := by
  induction calls generalizing es t w xs with
  | nil =>
    cases h
    exact (List.append_nil _).symm
  | cons call calls ih =>
    rw [runCalls.eq_def] at h
    dsimp only at h
    split at h
    · have hrest := ih h
      exact hrest
    · cases h
    · split at h
      · cases h
      · rename_i e _ _ t₁ hfinish
        generalize hrest : runCalls tools calls _ t₁ _ = rest at h
        obtain ⟨result, w₂, xs₂⟩ := rest
        cases h
        rw [ih hrest, Tooled.finish_invocations hfinish, List.append_assoc]
        rfl

theorem guardNode_invocations (s : AgentState) : (guardNode s).toolInvocations = [] := by
  unfold guardNode
  dsimp only
  split <;> rfl

theorem captureNode_invocations (settlement : Option Json → Option Json → Option Split)
    (s : AgentState) : (captureNode settlement s).toolInvocations = s.toolInvocations := by
  obtain ⟨_, _, _, _, h⟩ := captureNode_changes settlement s
  rw [h]

theorem readbackNode_invocations (s : AgentState) :
    (readbackNode s).toolInvocations = s.toolInvocations := by
  obtain ⟨_, h⟩ := readbackNode_changes s
  rw [h]

theorem groundNode_invocations (s : AgentState) :
    (groundNode s).toolInvocations = s.toolInvocations := by
  obtain ⟨_, _, _, _, h⟩ := groundNode_changes s
  rw [h]

theorem formatNode_invocations (s : AgentState) :
    (formatNode s).toolInvocations = s.toolInvocations := by
  obtain ⟨_, h⟩ := formatNode_changes s
  rw [h]

/-! ## One step -/

/-- The thread is in a turn that `guard` has let begin. -/
def Config.working (c : Config W) : Bool := c.running.isSome && c.next ≠ .at .guard

/-- The ways a step of a running job treats what has been executed. -/
inductive Books (c c' : Config W) (fs : List (Event E)) : Prop
  /-- `guard` clears the list. -/
  | cleared (before : c.next = .at .guard) (after : c'.working = true)
      (list : c'.state.toolInvocations = []) (ends : toolEnds fs = [])
      (executed : executions fs = [])
  /-- The list grows by what is executed. -/
  | kept (before : c.next ≠ .at .guard) (after : c'.working = true)
      (list : c'.state.toolInvocations =
        c.state.toolInvocations ++ (executions fs).map Execution.invocation)
      (ends : toolEnds fs = [])
  /-- The run ends or is suspended, and the list is reported. -/
  | reported (before : c.next ≠ .at .guard) (after : c'.running = none)
      (ends : toolEnds fs = c.state.toolInvocations) (executed : executions fs = [])
      (left : ∀ n, c'.next ≠ .at n)
  /-- The run fails; what is left to do stays as it is. -/
  | failed (after : c'.running = none) (list : c'.state.toolInvocations = c.state.toolInvocations)
      (left : c'.next = c.next) (ends : toolEnds fs = [])
      (quiet : c.next = .at .guard → executions fs = []) (how : ∃ n, .ended (.failed n) ∈ fs)

theorem working_goto {c : Config W} (hrun : c.running.isSome) {n : Node} (hn : n ≠ .guard)
    (s : AgentState) : (c.goto n s).working = true := by
  unfold Config.working Config.goto
  rw [hrun, Bool.true_and, decide_eq_true_eq]
  exact fun h => hn (Next.at.inj h)

theorem not_guard {c : Config W} {n : Node} (here : c.At n) (hn : n ≠ .guard) :
    c.next ≠ .at .guard := fun h => hn (Next.at.inj (here.2.symm.trans h))

theorem routeAfterGuard_ne (s : AgentState) : routeAfterGuard s ≠ .guard := by
  unfold routeAfterGuard
  split <;> exact nofun

theorem routeAfterAgent_ne (s : AgentState) : routeAfterAgent s ≠ .guard := by
  unfold routeAfterAgent
  dsimp only
  split
  · exact nofun
  · split <;> exact nofun

theorem routeAfterConfirm_ne (s : AgentState) : routeAfterConfirm s ≠ .guard := by
  unfold routeAfterConfirm
  split <;> exact nofun

theorem toolEnds_passing (s : AgentState) : toolEnds (s.passing : List (Event E)) = [] := by
  unfold AgentState.passing
  split <;> rfl

theorem toolEnds_executed (xs : List (Execution E)) :
    toolEnds (xs.map .executed : List (Event E)) = [] := by
  have hnone : publishedOf (xs.map .executed : List (Event E)) = [] := by
    rw [publishedOf, List.filterMap_map, List.filterMap_eq_nil_iff]
    exact fun _ _ => rfl
  rw [toolEnds, hnone]
  rfl

theorem toolEnds_ended (runId : Text) (ts : List RunEvent) (how : RunEnd) :
    toolEnds (publish runId 1 ts ++ [.ended how] : List (Event E)) =
      ts.filterMap RunEvent.ended? := by
  rw [toolEnds_append, toolEnds_of_published (publishedOf_publish runId 1 ts)]
  exact List.append_nil _

theorem executions_ended (runId : Text) (ts : List RunEvent) (how : RunEnd) :
    executions (publish runId 1 ts ++ [.ended how] : List (Event E)) = [] := by
  rw [executions_append, executions_publish]
  rfl

/-- **A step of a running job keeps the books** in one of these ways. -/
theorem Step.books {g : Graph E W} {c c' : Config W} {a : Action E} {fs : List (Event E)}
    (hs : Step g c a c' fs) (ha : goesOn c a = true) : Books c c' fs := by
  cases hs with
  | expired | resume | turn => cases ha
  | guard here =>
    refine .cleared here.2 (working_goto here.1 (routeAfterGuard_ne _) _) ?_ rfl rfl
    exact guardNode_invocations _
  | stop here =>
    refine .kept (not_guard here nofun) (working_goto here.1 (by decide) _) ?_ rfl
    exact (List.append_nil _).symm
  | reply here =>
    refine .kept (not_guard here nofun) (working_goto here.1 (routeAfterAgent_ne _) _) ?_ rfl
    exact (List.append_nil _).symm
  | capture here =>
    refine .kept (not_guard here nofun) (working_goto here.1 (by decide) _) ?_ rfl
    exact (captureNode_invocations _ _).trans (List.append_nil _).symm
  | gateOff here =>
    refine .kept (not_guard here nofun) (working_goto here.1 (routeAfterConfirm_ne _) _) ?_
      (toolEnds_passing _)
    rw [executions_passing]
    exact (List.append_nil _).symm
  | @approved p answer here =>
    have hquiet : executions (.answered ((lastCalls c.state.messages).find? ToolCall.isWrite) p
        answer :: c.state.passing : List (Event E)) = [] := executions_passing c.state
    have hends : toolEnds (.answered ((lastCalls c.state.messages).find? ToolCall.isWrite) p
        answer :: c.state.passing : List (Event E)) = [] := toolEnds_passing c.state
    have hworks := working_goto (c := { c with resume := none }) here.1
      (routeAfterConfirm_ne c.state.passGate) c.state.passGate
    refine .kept (not_guard here nofun) hworks ?_ hends
    rw [hquiet]
    exact (List.append_nil _).symm
  | refused here =>
    refine .kept (not_guard here nofun) (working_goto here.1 (routeAfterConfirm_ne _) _) ?_ rfl
    exact (List.append_nil _).symm
  | declined here =>
    have hworks := working_goto (c := { c with resume := none }) here.1
      (routeAfterConfirm_ne (c.state.closeGate notFiled)) (c.state.closeGate notFiled)
    refine .kept (not_guard here nofun) hworks ?_ rfl
    exact (List.append_nil _).symm
  | @tools es t w xs here ran =>
    have hworks := working_goto (c := { c with world := w }) here.1
      (by decide : Node.agent ≠ .guard) (toolsNode c.state t)
    refine .kept (not_guard here nofun) hworks ?_ (toolEnds_executed _)
    rw [executions_executed]
    exact runCalls_invocations ran
  | @toolsFailed es failure w xs here ran =>
    refine .failed rfl rfl rfl ?_ (fun h => absurd h (not_guard here nofun)) ⟨.tools, by simp⟩
    rw [toolEnds_append, toolEnds_executed, toolEnds_ended, ended_failure]
    rfl
  | @asked p here hgate =>
    have hends : toolEnds (.prompted p :: (publish c.runId 1 (pausedEvents c.state p) ++
        [.ended .paused]) : List (Event E)) = c.state.toolInvocations :=
      (toolEnds_ended c.runId (pausedEvents c.state p) .paused).trans (ended_pausedEvents _ _)
    refine .reported (not_guard here nofun) rfl hends (executions_ended ..) ?_
    exact fun n hn => Next.noConfusion hn
  | format here =>
    refine .reported (not_guard here nofun) rfl ?_ (executions_ended ..) ?_
    · rw [toolEnds_ended, ended_finishedEvents]
      exact formatNode_invocations _
    · exact fun n hn => Next.noConfusion hn
  | crash here =>
    refine .failed rfl rfl rfl ?_ (fun _ => executions_ended ..)
      ⟨_, List.mem_append_right _ (List.mem_singleton_self _)⟩
    rw [toolEnds_ended, ended_failure]
  | readback here =>
    refine .kept (not_guard here nofun) (working_goto here.1 (by decide) _) ?_ rfl
    exact (readbackNode_invocations _).trans (List.append_nil _).symm
  | parse here parsed =>
    refine .kept (not_guard here nofun) (working_goto here.1 (by decide) _) ?_ rfl
    exact (parseNode_frame parsed).2.2.trans (List.append_nil _).symm
  | ground here =>
    refine .kept (not_guard here nofun) (working_goto here.1 (by decide) _) ?_ rfl
    exact (groundNode_invocations _).trans (List.append_nil _).symm

/-! ## Whole conversations -/

/-- What has been executed in this turn and is not reported yet. -/
def Config.unreported (c : Config W) : List Invocation :=
  if c.working then c.state.toolInvocations else []

/-- Whether a step makes the job fail. -/
def Graph.fails (g : Graph E W) (c : Config W) (a : Action E) : Bool :=
  (g.step c a).any fun r => r.2.any fun
    | .ended (.failed _) => true
    | _ => false

/-- Whether a step executes a tool. -/
def Graph.executes (g : Graph E W) (c : Config W) (a : Action E) : Bool :=
  (g.step c a).any fun r => !(executions r.2).isEmpty

/-- No job resumes a paused turn that has executed a tool, and no job fails in a turn that has. -/
def Graph.reportsOnce (g : Graph E W) (c : Config W) (a : Action E) : Bool :=
  match a, c.next with
  | .job j now snapshotOk, .paused _ =>
      j.late now || !snapshotOk || c.state.toolInvocations.isEmpty
  | .job .., _ => true
  | _, .at .guard => true
  | _, _ => !g.fails c a || c.state.toolInvocations.isEmpty && !g.executes c a

/-- The books of a conversation: what is executed has been reported or will be, and a turn that a
job has left in the middle has executed nothing. -/
structure Balanced (c : Config W) (es : List (Event E)) : Prop where
  balance : toolEnds es ++ c.unreported = (executions es).map Execution.invocation
  left : c.running = none → ∀ n, c.next = .at n → n ≠ .guard → c.state.toolInvocations = []

theorem reportsOnce_of_fails {g : Graph E W} {c : Config W} {a : Action E}
    (ha : g.reportsOnce c a = true) (hgoes : goesOn c a = true) (hnext : c.next ≠ .at .guard)
    (hfails : g.fails c a = true) :
    c.state.toolInvocations = [] ∧ g.executes c a = false := by
  unfold Graph.reportsOnce at ha
  split at ha
  · cases hgoes
  · cases hgoes
  · rename_i hguard
    exact absurd hguard hnext
  · rw [hfails] at ha
    simpa using ha

/-- **A step of a running job that meets the condition keeps the books.** -/
theorem balanced_goesOn {g : Graph E W} {c c' : Config W} {a : Action E}
    {es fs : List (Event E)} (hI : Balanced c es) (hstep : g.step c a = some (c', fs))
    (hgoes : goesOn c a = true) (ha : g.reportsOnce c a = true) : Balanced c' (es ++ fs) := by
  have hs := Graph.step_cases hstep
  have hrun := hs.running hgoes
  have hbalance := hI.balance
  have hworks : c.next ≠ .at .guard → c.unreported = c.state.toolInvocations := by
    intro hnext
    rw [Config.unreported, if_pos]
    rw [Config.working, hrun, decide_eq_true hnext]
    rfl
  have hstops : ∀ {d : Config W}, d.running = none → d.unreported = [] := by
    intro d hd
    rw [Config.unreported, Config.working, hd]
    rfl
  have hlater : c'.working = true → c'.unreported = c'.state.toolInvocations :=
    fun h => if_pos h
  have hbegins : c.next = .at .guard → c.unreported = [] := by
    intro hnext
    rw [Config.unreported, Config.working, hnext]
    simp
  cases hs.books hgoes with
  | cleared before after list ends executed =>
    have hruns : c'.running.isSome := (Bool.and_eq_true_iff.mp after).1
    refine ⟨?_, fun hidle => absurd hruns (by rw [hidle]; exact nofun)⟩
    rw [hbegins before, List.append_nil] at hbalance
    rw [toolEnds_append, executions_append, ends, executed, hlater after, list, List.append_nil,
      List.append_nil, List.append_nil, hbalance]
  | kept before after list ends =>
    have hruns : c'.running.isSome := (Bool.and_eq_true_iff.mp after).1
    refine ⟨?_, fun hidle => absurd hruns (by rw [hidle]; exact nofun)⟩
    rw [hworks before] at hbalance
    rw [toolEnds_append, executions_append, ends, hlater after, list, List.append_nil,
      List.map_append, ← hbalance, List.append_assoc]
  | reported before after ends executed left =>
    refine ⟨?_, fun _ n hn => absurd hn (left n)⟩
    rw [hworks before] at hbalance
    rw [toolEnds_append, executions_append, ends, executed, hstops after, List.append_nil,
      List.append_nil, hbalance]
  | failed after list left ends quiet how =>
    by_cases hnext : c.next = .at .guard
    · -- `guard` fails before anything is done
      refine ⟨?_, fun _ n hn hne => absurd (left.symm.trans hn) ?_⟩
      · rw [hbegins hnext, List.append_nil] at hbalance
        rw [toolEnds_append, executions_append, ends, quiet hnext, hstops after, List.append_nil,
          List.append_nil, List.append_nil, hbalance]
      · rw [hnext]
        exact fun h => hne (Next.at.inj h).symm
    · have hfails : g.fails c a = true := by
        obtain ⟨n, hmem⟩ := how
        rw [Graph.fails, hstep, Option.any_some, List.any_eq_true]
        exact ⟨_, hmem, rfl⟩
      obtain ⟨hempty, hexecutes⟩ := reportsOnce_of_fails ha hgoes hnext hfails
      have hquiet : executions fs = [] := by
        rw [Graph.executes, hstep, Option.any_some] at hexecutes
        simpa using hexecutes
      refine ⟨?_, fun _ _ _ _ => list.trans hempty⟩
      rw [hworks hnext, hempty, List.append_nil] at hbalance
      rw [toolEnds_append, executions_append, ends, hquiet, hstops after, List.append_nil,
        List.append_nil, List.append_nil, hbalance]

/-- **The acceptance of a job that meets the condition keeps the books.** -/
theorem balanced_job {g : Graph E W} {c c' : Config W} {j : Job} {now : ℚ} {ok : Bool}
    {es fs : List (Event E)} (hI : Balanced c es)
    (hstep : g.step c (.job j now ok) = some (c', fs))
    (ha : g.reportsOnce c (.job j now ok) = true) : Balanced c' (es ++ fs) := by
  have idle := Graph.idle_of_job hstep
  have hquiet : c.unreported = [] := by
    rw [Config.unreported, Config.working, idle]
    rfl
  have accepted : toolEnds fs = [] → executions fs = [] → c'.unreported = [] →
      toolEnds (es ++ fs) ++ c'.unreported = (executions (es ++ fs)).map Execution.invocation := by
    intro ends executed hnone
    have hbalance := hI.balance
    rw [hquiet, List.append_nil] at hbalance
    rw [toolEnds_append, executions_append, ends, executed, hnone, List.append_nil,
      List.append_nil, List.append_nil, hbalance]
  have hcases := Graph.step_cases hstep
  generalize haction : Action.job j now ok = a at hcases
  cases hcases with
  | expired =>
    refine ⟨accepted ?_ (executions_publish ..) hquiet, hI.left⟩
    exact toolEnds_of_published (publishedOf_publish ..)
  | resume _ intime left =>
    cases haction
    refine ⟨accepted rfl rfl ?_, nofun⟩
    unfold Config.unreported
    by_cases hworks : (c.resumeWith j).working = true
    · rw [if_pos hworks]
      show c.state.toolInvocations = []
      cases hnext : c.next with
      | done => exact absurd hnext left
      | «at» n =>
        refine hI.left idle n hnext fun hn => ?_
        -- `guard` is still to run, and clears the list
        simp [Config.working, Config.resumeWith, Next.continued, hnext, hn] at hworks
      | paused p =>
        have intime : j.late now = false := intime
        simpa [Graph.reportsOnce, hnext, intime] using ha
    · exact if_neg hworks
  | turn =>
    cases haction
    exact ⟨accepted rfl rfl rfl, nofun⟩
  | crash here =>
    have hrun := here.1
    rw [idle] at hrun
    cases hrun
  | _ => cases haction

/-- **Executed calls are reported once**: in a conversation in which no job resumes a paused turn
that has executed a tool, and no job fails in a turn that has, whenever no job is being handled the
`tool_end` events report the executed calls in order, each of them once. -/
theorem calls_reported_once {g : Graph E W} {w : W} {as : List (Action E)} {c : Config W}
    {es : List (Event E)} (h : g.RunsWhere g.reportsOnce (newThread w) as c es)
    (idle : c.running = none) : toolEnds es = (executions es).map Execution.invocation := by
  have balanced : Balanced c es := by
    refine h.invariant_restrict (I := Balanced) ⟨rfl, fun _ _ _ _ => rfl⟩ ?_
    intro t es a u fs hI hstep ha
    cases a with
    | job j now ok => exact balanced_job hI hstep ha
    | _ => exact balanced_goesOn hI hstep rfl ha
  have hbalance := balanced.balance
  rw [Config.unreported, Config.working, idle] at hbalance
  simpa using hbalance

/-- A graph with a tool that reads and one that counts the claims it has filed. -/
def lookingGraph : Graph Unit Nat :=
  { tools :=
      [⟨"search_policy_documents", fun _ _ filed => (.returned (.obj []), filed)⟩,
        ⟨"submit_claim", fun _ _ filed => (.returned (.obj []), filed + 1)⟩] }

/-- A call that searches the policy. -/
def searchCall : ToolCall := ⟨"search_policy_documents", [("query", .str "water damage")], "s"⟩

/-- A search before the answer is reported once. -/
theorem search_reported_once :
    ∃ c es, lookingGraph.RunsWhere lookingGraph.reportsOnce (newThread 0)
        [.job { runId := "r1", message := "Is water damage covered?" } 0 true, .go,
          .reply ⟨[], [searchCall]⟩, .call [()], .reply ⟨"Yes.", []⟩, .go, .go, .go, .go] c es ∧
      executions es ≠ [] ∧ toolEnds es = (executions es).map Execution.invocation := by
  obtain ⟨c, es, h, hp⟩ := exists_run_of_play
    (restrict lookingGraph.reportsOnce lookingGraph.step) (newThread 0)
    [.job { runId := "r1", message := "Is water damage covered?" } 0 true, .go,
      .reply ⟨[], [searchCall]⟩, .call [()], .reply ⟨"Yes.", []⟩, .go, .go, .go, .go]
    (fun c es => c.running.isNone && !(executions es).isEmpty) (by decide +kernel)
  obtain ⟨hidle, hexecuted⟩ := Bool.and_eq_true_iff.mp hp
  exact ⟨c, es, h, by simpa using hexecuted,
    calls_reported_once h (Option.isNone_iff_eq_none.mp hidle)⟩

/-- A search before the confirmation is reported when the run is suspended, and again when the
resumed run ends. -/
theorem search_reported_twice :
    ∃ c es, lookingGraph.Runs (newThread 0)
        [.job { runId := "r1", message := "File a $1200 water damage claim on POL-1092" } 0 true,
          .go, .reply ⟨[], [searchCall]⟩, .call [()], .reply ⟨[], [filingCall "a"]⟩, .settle (),
          .go, .job { runId := "r2", message := "yes" } 0 true, .go, .call [()],
          .reply ⟨"It is filed.", []⟩, .go, .go, .go, .go] c es ∧
      c.running = none ∧ (executions es).map (·.call) = [searchCall, filingCall "a"] ∧
      (toolEnds es).map (·.name) =
        ["search_policy_documents", "search_policy_documents", "submit_claim"] := by
  obtain ⟨c, es, h, hp⟩ := exists_run_of_play lookingGraph.step (newThread 0)
    [.job { runId := "r1", message := "File a $1200 water damage claim on POL-1092" } 0 true,
      .go, .reply ⟨[], [searchCall]⟩, .call [()], .reply ⟨[], [filingCall "a"]⟩, .settle (),
      .go, .job { runId := "r2", message := "yes" } 0 true, .go, .call [()],
      .reply ⟨"It is filed.", []⟩, .go, .go, .go, .go]
    (fun c es => c.running = none ∧ (executions es).map (·.call) = [searchCall, filingCall "a"] ∧
      (toolEnds es).map (·.name) =
        ["search_policy_documents", "search_policy_documents", "submit_claim"])
    (by decide +kernel)
  exact ⟨c, es, h, of_decide_eq_true hp⟩

end OmniCare
