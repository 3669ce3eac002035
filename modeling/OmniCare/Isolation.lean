import OmniCare.Publishing

/-! # Nothing of an earlier turn but its messages reaches a new one

The checkpoint carries the whole state from one turn to the next, and `guard` resets a part of it.
`AgentState.visible` keeps of a state what the nodes from a place on can still read before they
write it.  What a step does depends on that alone (`step_face`), so two threads with the same
messages behave alike from the beginning of a turn on (`turns_alike`).
-/
namespace OmniCare

variable {E W : Type}

/-! ## What can still be read -/

/-- What the nodes between `guard` and `parse` can read. -/
def AgentState.begun (s : AgentState) : AgentState :=
  { s with
    userId := [], conversationId := [], guardFlagged := false, answerConfidence := none
    modelConfidence := none, answerUnknown := false, confidenceReason := none }

/-- What the nodes from a place on can still read before they write it. -/
def AgentState.visible (s : AgentState) : Next → AgentState
  | .done => { messages := s.messages }
  | .at .guard => { messages := s.messages, channel := s.channel, sttConfidence := s.sttConfidence }
  | .at .agent | .at .capture | .at .tools => { s.begun with pendingSettlement := none }
  | .at .confirm | .paused _ => s.begun
  | .at .readback | .at .parse => { s.begun with pendingSettlement := none, iterations := 0 }
  | .at .ground =>
      { s.begun with
        pendingSettlement := none, iterations := 0, modelConfidence := s.modelConfidence
        answerUnknown := s.answerUnknown }
  | .at .format =>
      { s with
        userId := [], conversationId := [], guardFlagged := false, pendingSettlement := none
        iterations := 0 }

/-- What a thread shows of itself: its stores aside, what can still be read. -/
def Config.face (c : Config W) : Config Unit :=
  { state := c.state.visible c.next, next := c.next, running := c.running, resume := c.resume
    world := () }

/-- A step, as it is seen. -/
def seen (r : Config W × List (Event E)) : Config Unit × List (Event E) := (r.1.face, r.2)

/-- The graph without its tools. -/
def Graph.toolless (g : Graph E W) : Graph E Unit :=
  { tools := [], requireConfirmation := g.requireConfirmation, maxIterations := g.maxIterations
    settlement := g.settlement }

@[simp] theorem visible_messages (s : AgentState) (n : Next) :
    (s.visible n).messages = s.messages := by
  match n with
  | .done | .paused _ => rfl
  | .at n => cases n <;> rfl

/-! ## Reachable states -/

/-- What a state says of its answer. -/
def AgentState.confidences (s : AgentState) :
    Option PyFloat × Bool × Option PyFloat × Option Text :=
  (s.modelConfidence, s.answerUnknown, s.answerConfidence, s.confidenceReason)

/-- What holds of every reachable state: a write waits to be captured, and nothing is said of an
answer before there is one. -/
structure Config.Fit (c : Config W) : Prop where
  captures : c.next = .at .capture → (lastCalls c.state.messages).any ToolCall.isWrite = true
  unanswered : finalAnswer c.state.messages = none →
    c.state.confidences = (none, false, none, none)

/-! ## The nodes -/

theorem goto_face (c : Config W) (n : Node) (s : AgentState) :
    (c.goto n s).face =
      { state := s.visible (.at n), next := .at n, running := c.running, resume := c.resume
        world := () } := rfl

theorem guardNode_visible (s : AgentState) :
    routeAfterGuard (guardNode (s.visible (.at .guard))) = routeAfterGuard (guardNode s) ∧
      (guardNode (s.visible (.at .guard))).visible (.at (routeAfterGuard (guardNode s))) =
        (guardNode s).visible (.at (routeAfterGuard (guardNode s))) := by
  have hmessages : (s.visible (.at .guard)).messages = s.messages := rfl
  unfold guardNode
  dsimp only
  rw [hmessages]
  by_cases hscreen : (screen (lastHuman s.messages)).allowed = true
  · rw [if_pos hscreen, if_pos hscreen]
    exact ⟨rfl, rfl⟩
  · rw [if_neg hscreen, if_neg hscreen]
    exact ⟨rfl, rfl⟩

theorem agentNode_visible (s : AgentState) (r : Reply) :
    (agentNode (s.visible (.at .agent)) r).visible (.at (routeAfterAgent (agentNode s r))) =
      (agentNode s r).visible (.at (routeAfterAgent (agentNode s r))) := by
  unfold routeAfterAgent
  dsimp only
  split
  · rfl
  · split <;> rfl

theorem captureNode_visible (settlement : Option Json → Option Json → Option Split)
    {s : AgentState} (hwrite : (lastCalls s.messages).any ToolCall.isWrite = true) :
    (captureNode settlement (s.visible (.at .capture))).visible (.at .confirm) =
      (captureNode settlement s).visible (.at .confirm) := by
  obtain ⟨call, hmem, hcall⟩ := List.any_eq_true.mp hwrite
  obtain ⟨first, hfirst⟩ := Option.isSome_iff_exists.mp
    (List.find?_isSome.mpr ⟨call, hmem, hcall⟩)
  unfold captureNode
  dsimp only [AgentState.visible, AgentState.begun]
  rw [hfirst]
  dsimp only
  cases settlement (first.args.get? "claim_type") (first.args.get? "amount") with
  | none => rfl
  | some split =>
    dsimp only
    split <;> rfl

theorem readbackNode_visible (s : AgentState) :
    (readbackNode (s.visible (.at .readback))).visible (.at .parse) =
      (readbackNode s).visible (.at .parse) := by
  have hmessages : (s.visible (.at .readback)).messages = s.messages := rfl
  have hskips : (s.visible (.at .readback)).channel ≠ .voice ∨
      (s.visible (.at .readback)).confirmationTier ≠ 1 ↔
        s.channel ≠ .voice ∨ s.confirmationTier ≠ 1 := Iff.rfl
  unfold readbackNode
  rw [hmessages]
  by_cases hskip : s.channel ≠ .voice ∨ s.confirmationTier ≠ 1
  · rw [if_pos hskip, if_pos (hskips.mpr hskip)]
    rfl
  · rw [if_neg hskip, if_neg (mt hskips.mp hskip)]
    cases finalAnswer s.messages with
    | none => rfl
    | some final =>
      dsimp only
      cases readbackText (lastHuman s.messages) final.2 <;> rfl

theorem parseNode_visible {s : AgentState}
    (h : finalAnswer s.messages = none → s.confidences = (none, false, none, none)) :
    (parseNode (s.visible (.at .parse))).map (·.visible (.at .ground)) =
      (parseNode s).map (·.visible (.at .ground)) := by
  unfold parseNode
  dsimp only [AgentState.visible, AgentState.begun]
  cases hfinal : finalAnswer s.messages with
  | none =>
    have hmodel : s.modelConfidence = none := congrArg (·.1) (h hfinal)
    have hunknown : s.answerUnknown = false := congrArg (·.2.1) (h hfinal)
    dsimp only [Except.map]
    rw [hmodel, hunknown]
  | some final =>
    dsimp only
    cases parseAnswer final.2 with
    | error e => rfl
    | ok answer =>
      dsimp only [Except.map]
      split <;> rfl

theorem groundNode_visible {s : AgentState}
    (h : finalAnswer s.messages = none → s.confidences = (none, false, none, none)) :
    (groundNode (s.visible (.at .ground))).visible (.at .format) =
      (groundNode s).visible (.at .format) := by
  have hmessages : (s.visible (.at .ground)).messages = s.messages := rfl
  have hcitations : (s.visible (.at .ground)).validCitations = s.validCitations := rfl
  have hcorrected : ∀ text, correctedText (s.visible (.at .ground)) text = correctedText s text :=
    fun _ => rfl
  unfold groundNode
  rw [hmessages]
  cases hfinal : finalAnswer s.messages with
  | none =>
    have hconfidence : s.answerConfidence = none := congrArg (·.2.2.1) (h hfinal)
    have hreason : s.confidenceReason = none := congrArg (·.2.2.2) (h hfinal)
    simp only [AgentState.visible, AgentState.begun, hconfidence, hreason]
  | some final =>
    dsimp only
    rw [hcitations, hcorrected]
    by_cases hchanged : (((citationSpans final.2 s.validCitations).any fun span => !span.real) ||
        (correctedText s (withoutInvented final.2
          (citationSpans final.2 s.validCitations))).2) = true
    · rw [if_pos hchanged, if_pos hchanged]
      rfl
    · rw [if_neg hchanged, if_neg hchanged]
      rfl

theorem formatNode_visible (s : AgentState) :
    formatNode (s.visible (.at .format)) = (formatNode s).visible (.at .format) := by
  have hmessages : (s.visible (.at .format)).messages = s.messages := rfl
  have hchannel : (s.visible (.at .format)).channel = s.channel := rfl
  unfold formatNode
  rw [hmessages]
  cases finalAnswer s.messages with
  | none => rfl
  | some final =>
    dsimp only
    rw [hchannel]
    by_cases hsame : normalizeResponse final.2 s.channel = final.2
    · rw [if_pos hsame, if_pos hsame]
    · rw [if_neg hsame, if_neg hsame]
      rfl

theorem gate_visible (requireConfirmation : Bool) (s : AgentState) :
    gate requireConfirmation (s.visible (.at .confirm)) = gate requireConfirmation s := rfl

theorem passGate_visible (s : AgentState) :
    (s.visible (.at .confirm)).passGate.visible (.at (routeAfterConfirm s.passGate)) =
      s.passGate.visible (.at (routeAfterConfirm s.passGate)) := by
  unfold routeAfterConfirm
  split <;> rfl

theorem face_face (c : Config W) : c.face.face = c.face := by
  obtain ⟨s, next, running, resume, world⟩ := c
  cases next with
  | done | paused => rfl
  | «at» n => cases n <;> rfl

/-- A step to a node is seen as what can be read from there on. -/
theorem seen_goto (c : Config W) {m n : Node} {s t : AgentState} (fs : List (Event E))
    (hm : m = n) (h : t.visible (.at n) = s.visible (.at n)) :
    seen (c.face.goto m t, fs) = seen (c.goto n s, fs) := by
  show ((c.face.goto m t).face, fs) = ((c.goto n s).face, fs)
  rw [hm, goto_face, goto_face, h]
  rfl

/-- What the confirm node does depends on the face of the thread. -/
theorem confirm_face (g : Graph E W) {c : Config W} (here : c.next = .at .confirm) :
    seen (g.toolless.confirm c.face) = seen (g.confirm c) := by
  obtain ⟨s, next, running, resume, world⟩ := c
  cases here
  have hgate := gate_visible g.requireConfirmation s
  unfold Graph.confirm
  dsimp only [Config.face, Graph.toolless]
  rw [hgate]
  cases gate g.requireConfirmation s with
  | error e => rfl
  | ok gated =>
    cases gated with
    | off => exact seen_goto ⟨s, .at .confirm, running, resume, world⟩ _ rfl (passGate_visible s)
    | refused answer => rfl
    | ask prompt =>
      cases resume with
      | none => rfl
      | some answer =>
        dsimp only
        by_cases hyes : approves answer = true
        · rw [if_pos hyes, if_pos hyes]
          exact seen_goto ⟨s, .at .confirm, running, none, world⟩ _ rfl (passGate_visible s)
        · rw [if_neg hyes, if_neg hyes]
          rfl

/-- **What a node does that calls no tool depends on the face of the thread.** -/
theorem node_face (g : Graph E W) {c : Config W} {n : Node} (here : c.next = .at n) (fit : c.Fit)
    {a : Action E} (hcall : ∀ es, a ≠ .call es) :
    (g.toolless.node c.face n a).map seen = (g.node c n a).map seen := by
  obtain ⟨s, next, running, resume, world⟩ := c
  cases here
  cases n with
  | guard =>
    cases a with
    | go =>
      obtain ⟨hroute, hvisible⟩ := guardNode_visible s
      exact congrArg some
        (seen_goto ⟨s, .at .guard, running, resume, world⟩ _ hroute hvisible)
    | _ => rfl
  | agent =>
    cases a with
    | go =>
      have hcapped : g.toolless.capped (s.visible (.at .agent)) = g.capped s := rfl
      dsimp only [Graph.node, Config.face]
      rw [hcapped]
      by_cases hcap : g.capped s = true
      · rw [if_pos hcap, if_pos hcap]
        rfl
      · rw [if_neg hcap, if_neg hcap]
        rfl
    | reply r =>
      have hcapped : g.toolless.capped (s.visible (.at .agent)) = g.capped s := rfl
      dsimp only [Graph.node, Config.face]
      rw [hcapped]
      by_cases hcap : g.capped s = true
      · rw [if_pos hcap, if_pos hcap]
        rfl
      · rw [if_neg hcap, if_neg hcap]
        exact congrArg some
          (seen_goto ⟨s, .at .agent, running, resume, world⟩ _ rfl (agentNode_visible s r))
    | _ => rfl
  | capture =>
    cases a with
    | settle e =>
      exact congrArg some (seen_goto ⟨s, .at .capture, running, resume, world⟩ _ rfl
        (captureNode_visible (g.settle e) (fit.captures rfl)))
    | _ => rfl
  | confirm =>
    cases a with
    | go =>
      exact congrArg some (confirm_face g (c := ⟨s, .at .confirm, running, resume, world⟩) rfl)
    | _ => rfl
  | tools =>
    cases a with
    | call es => exact absurd rfl (hcall es)
    | _ => rfl
  | readback =>
    cases a with
    | go =>
      exact congrArg some
        (seen_goto ⟨s, .at .readback, running, resume, world⟩ _ rfl (readbackNode_visible s))
    | _ => rfl
  | parse =>
    cases a with
    | go =>
      have hvisible := parseNode_visible fit.unanswered
      dsimp only [Graph.node, Config.face]
      cases hparsed : parseNode s with
      | error e =>
        rw [hparsed] at hvisible
        cases hparsed' : parseNode (s.visible (.at .parse)) with
        | error e' =>
          rw [hparsed'] at hvisible
          cases hvisible
          rfl
        | ok t => simp [hparsed', Except.map] at hvisible
      | ok t =>
        rw [hparsed] at hvisible
        cases hparsed' : parseNode (s.visible (.at .parse)) with
        | error e => simp [hparsed', Except.map] at hvisible
        | ok t' =>
          rw [hparsed'] at hvisible
          exact congrArg some (seen_goto ⟨s, .at .parse, running, resume, world⟩ _ rfl
            (Except.ok.inj hvisible))
    | _ => rfl
  | ground =>
    cases a with
    | go =>
      exact congrArg some (seen_goto ⟨s, .at .ground, running, resume, world⟩ _ rfl
        (groundNode_visible fit.unanswered))
    | _ => rfl
  | format =>
    cases a with
    | go =>
      have hevents : finishedEvents ((formatNode s).visible (.at .format)) =
          finishedEvents (formatNode s) := rfl
      dsimp only [Graph.node, Config.face, Config.finish]
      rw [formatNode_visible, hevents]
      rfl
    | _ => rfl

/-! ## The steps -/

/-- What a thread shows when a turn starts: its messages, and what comes with the job. -/
theorem startTurn_face (c : Config W) (j : Job) :
    (c.startTurn j).face =
      { state :=
          { messages := c.state.messages ++ [.human j.message], channel := j.channel
            sttConfidence := j.sttConfidence }
        next := .at .guard, running := some j.runId, world := () } := rfl

theorem resumeWith_face (c : Config W) (j : Job) :
    (c.face.resumeWith j).face = (c.resumeWith j).face := by
  obtain ⟨s, next, running, resume, world⟩ := c
  cases next with
  | done | paused => rfl
  | «at» n => cases n <;> rfl

theorem accept_face (c : Config W) (j : Job) (now : ℚ) (ok : Bool) :
    seen (c.face.accept j now ok : Config Unit × List (Event E)) = seen (c.accept j now ok) := by
  unfold Config.accept
  by_cases late : j.deadlineAt.any (· < now) = true
  · rw [if_pos late, if_pos late]
    exact congrArg (·, _) (face_face c)
  · have hnext : c.face.next = c.next := rfl
    rw [if_neg late, if_neg late]
    dsimp only
    rw [hnext]
    by_cases resuming : (ok && decide (c.next ≠ .done)) = true
    · rw [if_pos resuming, if_pos resuming]
      exact congrArg (·, _) (resumeWith_face c j)
    · rw [if_neg resuming, if_neg resuming]
      refine congrArg (·, _) ?_
      rw [startTurn_face, startTurn_face]
      simp only [Config.face, visible_messages]

/-- **What a step does that calls no tool depends on the face of the thread.** -/
theorem step_face (g : Graph E W) {c : Config W} (fit : c.Fit) {a : Action E}
    (hcall : ∀ es, a ≠ .call es) : (g.toolless.step c.face a).map seen = (g.step c a).map seen := by
  obtain ⟨s, next, running, resume, world⟩ := c
  unfold Graph.step
  dsimp only [Config.face]
  cases a with
  | call es => exact absurd rfl (hcall es)
  | job j now ok =>
    cases running with
    | some _ => rfl
    | none => exact congrArg some (accept_face ⟨s, next, none, resume, world⟩ j now ok)
  | _ =>
    cases running with
    | none => rfl
    | some run =>
      cases next with
      | done | paused => rfl
      | «at» n => exact node_face g rfl fit hcall

/-! ## Tool calls -/

/-- Two lists of executions have the same outcomes, as far as both go. -/
def SameOutcomes (xs ys : List (Execution E)) : Prop :=
  ∀ (i : Nat) (x y : Execution E), xs[i]? = some x → ys[i]? = some y → x.outcome = y.outcome

theorem SameOutcomes.tail {x y : Execution E} {xs ys : List (Execution E)}
    (h : SameOutcomes (x :: xs) (y :: ys)) : SameOutcomes xs ys :=
  fun i a b ha hb => h (i + 1) a b (by rwa [List.getElem?_cons_succ])
    (by rwa [List.getElem?_cons_succ])

/-- A call of a tool is executed first, and what follows goes on with its outcome. -/
theorem runCalls_call {tools : List (Tool E W)} {call : ToolCall} {calls : List ToolCall} {e : E}
    {es : List E} {t : Tooled} {w : W} {tool : Tool E W}
    (hfind : findTool tools call.name = some tool) :
    runCalls tools (call :: calls) (e :: es) t w =
      let (outcome, w) := tool.ainvoke e call.args w
      match t.finish call outcome with
      | .error failure => (.error failure, w, [⟨call, e, outcome⟩])
      | .ok t =>
          let (result, w, executions) := runCalls tools calls es t w
          (result, w, ⟨call, e, outcome⟩ :: executions) := by
  rw [runCalls.eq_def]
  dsimp only
  generalize findTool tools call.name = found at hfind ⊢
  subst hfind
  rfl

/-- **With the same outcomes the loop of the tools node does the same**, whatever the stores. -/
theorem runCalls_same {tools : List (Tool E W)} {calls : List ToolCall} {es : List E} {t : Tooled}
    {w₁ w₂ v₁ v₂ : W} {r₁ r₂ : Except Failure Tooled} {xs₁ xs₂ : List (Execution E)}
    (h₁ : runCalls tools calls es t w₁ = (r₁, v₁, xs₁))
    (h₂ : runCalls tools calls es t w₂ = (r₂, v₂, xs₂)) (same : SameOutcomes xs₁ xs₂) :
    r₁ = r₂ ∧ xs₁ = xs₂ := by
  induction calls generalizing es t w₁ w₂ v₁ v₂ r₁ r₂ xs₁ xs₂ with
  | nil =>
    cases h₁
    cases h₂
    exact ⟨rfl, rfl⟩
  | cons call calls ih =>
    cases hfind : findTool tools call.name with
    | none =>
      rw [runCalls.eq_def] at h₁ h₂
      dsimp only at h₁ h₂
      rw [hfind] at h₁ h₂
      exact ih h₁ h₂ same
    | some tool =>
      cases es with
      | nil =>
        rw [runCalls.eq_def] at h₁ h₂
        dsimp only at h₁ h₂
        rw [hfind] at h₁ h₂
        cases h₁
        cases h₂
        exact ⟨rfl, rfl⟩
      | cons e es =>
        rw [runCalls_call hfind] at h₁ h₂
        generalize tool.ainvoke e call.args w₁ = o₁ at h₁
        generalize tool.ainvoke e call.args w₂ = o₂ at h₂
        obtain ⟨o₁, u₁⟩ := o₁
        obtain ⟨o₂, u₂⟩ := o₂
        dsimp only at h₁ h₂
        have first : ∀ {o : Outcome} {u v : W} {r : Except Failure Tooled}
            {xs : List (Execution E)},
            (match t.finish call o with
              | .error failure => (.error failure, u, [⟨call, e, o⟩])
              | .ok t => ((runCalls tools calls es t u).1, (runCalls tools calls es t u).2.1,
                  ⟨call, e, o⟩ :: (runCalls tools calls es t u).2.2)) = (r, v, xs) →
              xs[0]? = some ⟨call, e, o⟩ := by
          intro o u v r xs h
          split at h <;> cases h <;> rfl
        have houtcome : o₁ = o₂ := same 0 _ _ (first h₁) (first h₂)
        cases houtcome
        cases hfinish : t.finish call o₁ with
        | error failure =>
          rw [hfinish] at h₁ h₂
          cases h₁
          cases h₂
          exact ⟨rfl, rfl⟩
        | ok t' =>
          rw [hfinish] at h₁ h₂
          dsimp only at h₁ h₂
          generalize hrest₁ : runCalls tools calls es t' u₁ = q₁ at h₁
          generalize hrest₂ : runCalls tools calls es t' u₂ = q₂ at h₂
          obtain ⟨s₁, y₁, ys₁⟩ := q₁
          obtain ⟨s₂, y₂, ys₂⟩ := q₂
          cases h₁
          cases h₂
          obtain ⟨hr, hxs⟩ := ih hrest₁ hrest₂ same.tail
          exact ⟨hr, congrArg _ hxs⟩

theorem executions_callTools {g : Graph E W} {c : Config W} {es : List E}
    {r : Except Failure Tooled} {w : W} {xs : List (Execution E)}
    (ran : g.ranCalls c es = (r, w, xs)) : executions (g.callTools c es).2 = xs := by
  unfold Graph.callTools
  rw [ran]
  cases r with
  | ok t => exact executions_executed xs
  | error failure =>
    show executions (xs.map .executed ++ (publish c.runId 1 [failure.event] ++
      [.ended (.failed .tools)])) = xs
    rw [executions_append, executions_executed, executions_append, executions_publish]
    exact List.append_nil _

/-- **The tools node, with the same outcomes, does what the face of the thread says.** -/
theorem callTools_face {g : Graph E W} {c d : Config W} {es : List E} (hface : c.face = d.face)
    (here : c.next = .at .tools)
    (same : SameOutcomes (executions (g.callTools c es).2) (executions (g.callTools d es).2)) :
    seen (g.callTools c es) = seen (g.callTools d es) := by
  have there : d.next = .at .tools := (congrArg Config.next hface).symm.trans here
  have hrunning : c.running = d.running := (congrArg Config.running hface :)
  have hresume : c.resume = d.resume := (congrArg Config.resume hface :)
  have hstate : c.state.visible (.at .tools) = d.state.visible (.at .tools) := by
    have := congrArg Config.state hface
    simpa only [Config.face, here, there] using this
  have hmessages := congrArg AgentState.messages hstate
  have hinvocations := congrArg AgentState.toolInvocations hstate
  have hretrieved := congrArg AgentState.retrieved hstate
  cases hc : g.ranCalls c es with
  | mk r₁ q₁ =>
  cases hd : g.ranCalls d es with
  | mk r₂ q₂ =>
  obtain ⟨v₁, xs₁⟩ := q₁
  obtain ⟨v₂, xs₂⟩ := q₂
  rw [executions_callTools hc, executions_callTools hd] at same
  have hran : runCalls g.tools (lastCalls d.state.messages) es
      { invocations := d.state.toolInvocations, retrieved := d.state.retrieved } c.world =
        (r₁, v₁, xs₁) := by
    rw [← hc, Graph.ranCalls]
    rw [visible_messages, visible_messages] at hmessages
    have hinvocations : c.state.toolInvocations = d.state.toolInvocations := hinvocations
    have hretrieved : c.state.retrieved = d.state.retrieved := hretrieved
    rw [hmessages, hinvocations, hretrieved]
  obtain ⟨rfl, rfl⟩ := runCalls_same hran hd same
  unfold Graph.callTools
  rw [hc, hd]
  cases r₁ with
  | ok t =>
    have htools : (toolsNode c.state t).visible (.at .agent) =
        (toolsNode d.state t).visible (.at .agent) := by
      have hnode : ∀ s : AgentState, (toolsNode s t).visible (.at .agent) =
          (toolsNode (s.visible (.at .tools)) t).visible (.at .agent) := fun _ => rfl
      rw [hnode, hstate, ← hnode]
    show ((({ c with world := v₁ } : Config W).goto .agent (toolsNode c.state t)).face, _) =
      ((({ d with world := v₂ } : Config W).goto .agent (toolsNode d.state t)).face, _)
    rw [goto_face, goto_face, htools, hrunning, hresume]
  | error failure =>
    have hrun : c.runId = d.runId := congrArg (·.getD []) hrunning
    show (({ c with world := v₁, running := none } : Config W).face,
        xs₁.map Event.executed ++
          (publish c.runId 1 [failure.event] ++ [.ended (.failed .tools)])) =
      (({ d with world := v₂, running := none } : Config W).face,
        xs₁.map Event.executed ++
          (publish d.runId 1 [failure.event] ++ [.ended (.failed .tools)]))
    simp only [Config.face, here, there, hstate, hresume, hrun]

theorem step_call (g : Graph E W) (c : Config W) (es : List E) :
    g.step c (.call es) =
      if c.running.isSome ∧ c.next = .at .tools then some (g.callTools c es) else none := by
  unfold Graph.step
  cases hrun : c.running with
  | none => rfl
  | some run =>
    cases hnext : c.next with
    | done | paused => rfl
    | «at» n => cases n <;> rfl

/-- **Two threads with the same face take the same step**, if their tools reply the same: they
can both take it or neither can, they are seen to do the same, and have the same face again. -/
theorem step_alike {g : Graph E W} {c d : Config W} (hface : c.face = d.face) (fit : c.Fit)
    (fit' : d.Fit) (a : Action E) :
    (g.step c a).isSome = (g.step d a).isSome ∧
      ∀ c' fs d' gs, g.step c a = some (c', fs) → g.step d a = some (d', gs) →
        SameOutcomes (executions fs) (executions gs) → c'.face = d'.face ∧ fs = gs := by
  by_cases hcall : ∃ es, a = .call es
  · obtain ⟨es, rfl⟩ := hcall
    have hnext : c.next = d.next := (congrArg Config.next hface :)
    have hrunning : c.running = d.running := (congrArg Config.running hface :)
    rw [step_call, step_call, hrunning, hnext]
    by_cases htools : d.running.isSome ∧ d.next = .at .tools
    · rw [if_pos htools, if_pos htools]
      refine ⟨rfl, fun c' fs d' gs hc hd same => ?_⟩
      have hc := Option.some.inj hc
      have hd := Option.some.inj hd
      have hseen : seen (g.callTools c es) = seen (g.callTools d es) :=
        callTools_face hface (hnext.trans htools.2) (by rw [hc, hd]; exact same)
      rw [hc, hd] at hseen
      exact ⟨congrArg Prod.fst hseen, congrArg Prod.snd hseen⟩
    · rw [if_neg htools, if_neg htools]
      refine ⟨rfl, fun c' fs d' gs hc => ?_⟩
      cases hc
  · have heq : (g.step c a).map seen = (g.step d a).map seen := by
      rw [← step_face g fit fun es h => hcall ⟨es, h⟩, hface,
        step_face g fit' fun es h => hcall ⟨es, h⟩]
    refine ⟨?_, fun c' fs d' gs hc hd _ => ?_⟩
    · rw [← Option.isSome_map (f := seen), heq, Option.isSome_map]
    · rw [hc, hd] at heq
      exact Prod.ext_iff.mp (Option.some.inj heq)

/-! ## Every reachable state is fit -/

theorem finalAnswer_none_of_step {g : Graph E W} {c c' : Config W} {a : Action E}
    {fs : List (Event E)} (hs : Step g c a c' fs) (h : finalAnswer c'.state.messages = none) :
    finalAnswer c.state.messages = none := by
  obtain ⟨old, new, hold, hmessages, -⟩ := hs.messages
  have hsome := hold.finalAnswer_isSome
  rw [← Option.not_isSome_iff_eq_none] at h ⊢
  rw [← hsome]
  rw [hmessages, finalAnswer_isSome, List.any_append, Bool.or_eq_true, not_or,
    ← finalAnswer_isSome] at h
  exact h.1

theorem guardNode_confidences (s : AgentState) : (guardNode s).confidences = s.confidences := by
  unfold guardNode
  dsimp only
  split <;> rfl

theorem captureNode_confidences (settlement : Option Json → Option Json → Option Split)
    (s : AgentState) : (captureNode settlement s).confidences = s.confidences := by
  obtain ⟨_, _, _, _, h⟩ := captureNode_changes settlement s
  rw [h]
  rfl

/-- Before there is an answer, a step says nothing of one. -/
theorem Step.confidences {g : Graph E W} {c c' : Config W} {a : Action E} {fs : List (Event E)}
    (hs : Step g c a c' fs) (hnone : finalAnswer c.state.messages = none) :
    c'.state.confidences = c.state.confidences := by
  cases hs with
  | guard => exact guardNode_confidences _
  | capture => exact captureNode_confidences _ _
  | readback =>
    have hsame : readbackNode c.state = c.state := by
      unfold readbackNode
      rw [hnone]
      split <;> rfl
    exact congrArg AgentState.confidences hsame
  | parse _ parsed =>
    unfold parseNode at parsed
    rw [hnone] at parsed
    cases parsed
    rfl
  | ground =>
    show (groundNode c.state).confidences = c.state.confidences
    unfold groundNode
    rw [hnone]
    rfl
  | format =>
    have hsame : formatNode c.state = c.state := by
      unfold formatNode
      rw [hnone]
    exact congrArg AgentState.confidences hsame
  | _ => rfl

/-- Only a write call leads to `capture`. -/
theorem any_isWrite_of_route {s : AgentState} (h : routeAfterAgent s = .capture) :
    (lastCalls s.messages).any ToolCall.isWrite = true := by
  unfold routeAfterAgent at h
  dsimp only at h
  split at h
  · cases h
  · split at h
    · assumption
    · cases h

theorem Step.fit {g : Graph E W} {c c' : Config W} {a : Action E} {fs : List (Event E)}
    (hs : Step g c a c' fs) (fit : c.Fit) : c'.Fit := by
  refine ⟨fun hnext => ?_, fun hnone => ?_⟩
  · cases hs with
    | expired | crash | toolsFailed => exact fit.captures hnext
    | @resume j =>
      refine fit.captures ?_
      have hcontinued : c.next.continued = .at .capture := hnext
      cases hleft : c.next with
      | done | paused p => simp [hleft, Next.continued] at hcontinued
      | «at» n => rwa [hleft] at hcontinued
    | reply => exact any_isWrite_of_route (Next.at.inj hnext)
    | guard =>
      have hroute := Next.at.inj hnext
      unfold routeAfterGuard at hroute
      split at hroute <;> cases hroute
    | gateOff | approved | refused | declined =>
      have hroute := Next.at.inj hnext
      unfold routeAfterConfirm at hroute
      split at hroute <;> cases hroute
    | _ => cases hnext
  · have hbefore := finalAnswer_none_of_step hs hnone
    rw [hs.confidences hbefore]
    exact fit.unanswered hbefore

/-- Every reachable state is fit. -/
theorem fit_of_runs {g : Graph E W} {w : W} {as : List (Action E)} {c : Config W}
    {es : List (Event E)} (h : g.Runs (newThread w) as c es) : c.Fit := by
  have fit₀ : (newThread w).Fit := ⟨fun hnext => Next.noConfusion hnext, fun _ => rfl⟩
  exact h.invariant (I := fun c _ => c.Fit) fit₀ fun fit hs => hs.fit fit

/-! ## Two turns -/

/-- The tools give two runs the same replies, as far as both call them. -/
def SameReplies (es fs : List (Event E)) : Prop := SameOutcomes (executions es) (executions fs)

theorem SameReplies.before {es fs es' fs' : List (Event E)}
    (h : SameReplies (es ++ fs) (es' ++ fs')) : SameReplies es es' := by
  intro i x y hx hy
  refine h i x y ?_ ?_
  · rw [executions_append, List.getElem?_append_left (List.getElem?_eq_some_iff.mp hx).1, hx]
  · rw [executions_append, List.getElem?_append_left (List.getElem?_eq_some_iff.mp hy).1, hy]

theorem SameReplies.after {es fs fs' : List (Event E)}
    (h : SameReplies (es ++ fs) (es ++ fs')) : SameReplies fs fs' := by
  intro i x y hx hy
  refine h ((executions es).length + i) x y ?_ ?_
  · rw [executions_append, List.getElem?_append_right (Nat.le_add_right ..),
      Nat.add_sub_cancel_left, hx]
  · rw [executions_append, List.getElem?_append_right (Nat.le_add_right ..),
      Nat.add_sub_cancel_left, hy]

/-- **Nothing of an earlier turn but its messages reaches a new one**: two reachable threads with
the same messages, whatever else they hold, behave alike once a turn is started on both with the
same message, channel and confidence of the speech recognition.  On the same actions, as long as
their tools reply the same, they emit the same events, hold the same messages, and can take the
same steps next. -/
theorem turns_alike {g : Graph E W} {w₁ w₂ : W} {bs₁ bs₂ : List (Action E)} {c₁ c₂ : Config W}
    {fs₁ fs₂ : List (Event E)} (hc₁ : g.Runs (newThread w₁) bs₁ c₁ fs₁)
    (hc₂ : g.Runs (newThread w₂) bs₂ c₂ fs₂) (messages : c₁.state.messages = c₂.state.messages)
    {j₁ j₂ : Job} (message : j₁.message = j₂.message) (channel : j₁.channel = j₂.channel)
    (confidence : j₁.sttConfidence = j₂.sttConfidence) (run : j₁.runId = j₂.runId)
    {as : List (Action E)} {d₁ d₂ : Config W} {es₁ es₂ : List (Event E)}
    (h₁ : g.Runs (c₁.startTurn j₁) as d₁ es₁) (h₂ : g.Runs (c₂.startTurn j₂) as d₂ es₂)
    (replies : SameReplies es₁ es₂) :
    es₁ = es₂ ∧ d₁.state.messages = d₂.state.messages ∧
      ∀ a, (g.step d₁ a).isSome = (g.step d₂ a).isSome := by
  have started : ∀ {c : Config W} (j : Job), c.Fit → (c.startTurn j).Fit := by
    intro c j fit
    refine ⟨fun hnext => Next.noConfusion hnext fun h => Node.noConfusion h, fun hnone => ?_⟩
    have hbefore : finalAnswer c.state.messages = none := by
      rwa [← finalAnswer_append_other c.state.messages (m := .human j.message) rfl]
    exact fit.unanswered hbefore
  have hface : (c₁.startTurn j₁).face = (c₂.startTurn j₂).face := by
    rw [startTurn_face, startTurn_face, messages, message, channel, confidence, run]
  have halike := Run.alike (Q := fun c d => c.face = d.face ∧ c.Fit ∧ d.Fit) (S := SameReplies)
    SameReplies.before SameReplies.after
    (fun {s t a s' t' fs gs} hrel hs ht hsame => by
      obtain ⟨hface, fit, fit'⟩ := hrel
      obtain ⟨hface', hevents⟩ := (step_alike hface fit fit' a).2 _ _ _ _ hs ht hsame
      exact ⟨⟨hface', (Graph.step_cases hs).fit fit, (Graph.step_cases ht).fit fit'⟩, hevents⟩)
    h₁ h₂ ⟨hface, started j₁ (fit_of_runs hc₁), started j₂ (fit_of_runs hc₂)⟩ replies
  obtain ⟨⟨hface', fit, fit'⟩, hevents⟩ := halike
  refine ⟨hevents, ?_, fun a => (step_alike hface' fit fit' a).1⟩
  have hmessages := congrArg (fun c : Config Unit => c.state.messages) hface'
  simpa only [Config.face, visible_messages] using hmessages

/-- A greeting and its answer. -/
def greetingOn (channel : Channel) : List (Action Unit) :=
  [.job { runId := "r1", message := "Hello", channel } 0 true, .go, .reply ⟨"Hi.", []⟩, .go, .go,
    .go, .go]

/-- After the same greeting on two channels, the same thanks have the same events. -/
theorem thanks_alike :
    ∃ c₁ fs₁ c₂ fs₂ d₁ es₁ d₂ es₂,
      bareGraph.Runs (newThread ()) (greetingOn .text) c₁ fs₁ ∧
      bareGraph.Runs (newThread ()) (greetingOn .voice) c₂ fs₂ ∧ c₁.state ≠ c₂.state ∧
      bareGraph.Runs (c₁.startTurn { runId := "r2", message := "Thanks" })
        [.go, .reply ⟨"Glad to help.", []⟩, .go, .go, .go, .go] d₁ es₁ ∧
      bareGraph.Runs (c₂.startTurn { runId := "r2", message := "Thanks" })
        [.go, .reply ⟨"Glad to help.", []⟩, .go, .go, .go, .go] d₂ es₂ ∧ es₁ = es₂ := by
  have greeted : ∀ channel, ∃ c fs, bareGraph.Runs (newThread ()) (greetingOn channel) c fs ∧
      c.state.channel = channel ∧ c.state.messages = [.human "Hello", .ai "Hi." []] ∧
      ∃ d es, bareGraph.Runs (c.startTurn { runId := "r2", message := "Thanks" })
        [.go, .reply ⟨"Glad to help.", []⟩, .go, .go, .go, .go] d es ∧ executions es = [] := by
    intro channel
    obtain ⟨c, fs, h, hp⟩ := exists_run_of_play bareGraph.step (newThread ()) (greetingOn channel)
      (fun c _ => (c.state.channel = channel ∧
          c.state.messages = [.human "Hello", .ai "Hi." []]) ∧
        (play bareGraph.step (c.startTurn { runId := "r2", message := "Thanks" })
          [.go, .reply ⟨"Glad to help.", []⟩, .go, .go, .go, .go]).any
            fun r => (executions r.2).isEmpty)
      (by cases channel <;> decide +kernel)
    obtain ⟨⟨hchannel, hmessages⟩, hplay⟩ := of_decide_eq_true hp
    obtain ⟨r, hr, hquiet⟩ := (Option.any_eq_true _ _).mp hplay
    exact ⟨c, fs, h, hchannel, hmessages, r.1, r.2, .of_play hr, List.isEmpty_iff.mp hquiet⟩
  obtain ⟨c₁, fs₁, hc₁, hchannel₁, hmessages₁, d₁, es₁, h₁, hquiet₁⟩ := greeted .text
  obtain ⟨c₂, fs₂, hc₂, hchannel₂, hmessages₂, d₂, es₂, h₂, -⟩ := greeted .voice
  have hdiffer : c₁.state ≠ c₂.state := fun heq => by
    have := congrArg AgentState.channel heq
    rw [hchannel₁, hchannel₂] at this
    cases this
  have hreplies : SameReplies es₁ es₂ := by
    intro i x y hx
    rw [hquiet₁] at hx
    cases hx
  exact ⟨c₁, fs₁, c₂, fs₂, d₁, es₁, d₂, es₂, hc₁, hc₂, hdiffer, h₁, h₂,
    (turns_alike hc₁ hc₂ (hmessages₁.trans hmessages₂.symm) rfl rfl rfl rfl h₁ h₂ hreplies).1⟩

end OmniCare
