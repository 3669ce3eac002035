import OmniCare.Steps

/-! # Nothing irreversible without an explicit yes

A `submit_claim` call reaches the tools node through the confirm node.  `capture` and
`confirm` look at the first write call of a reply, the tools node executes every call of
it; and a thread that a tools node has failed on executes the calls again when it goes on.
Apart from these two, every execution of a write is paid for by an approval of that call
(`Held`, kept by every step).

The other half of the module is about one turn: with `require_confirmation` on, every
write executed in a turn has an approval in the same turn, whatever the model replies.
-/
namespace OmniCare

variable {E W : Type}

/-! ## Executions and approvals -/

/-- The write call an event executes. -/
def Event.executedWrite? : Event E → Option ToolCall
  | .executed x => if x.call.isWrite then some x.call else none
  | _ => none

/-- The call an event approves: an interrupt raised for it, with its arguments, was
answered with an approving word. -/
def Event.approvedCall? : Event E → Option ToolCall
  | .answered (some call) p answer =>
      if approves answer ∧ p.args = call.args then some call else none
  | _ => none

/-- The executions of write calls, in order. -/
def executedWrites (es : List (Event E)) : List ToolCall := es.filterMap Event.executedWrite?

/-- The approved calls, in order. -/
def approvedCalls (es : List (Event E)) : List ToolCall := es.filterMap Event.approvedCall?

/-- Events that neither execute a write nor approve one. -/
def Silent (fs : List (Event E)) : Prop := executedWrites fs = [] ∧ approvedCalls fs = []

theorem executedWrites_append (es fs : List (Event E)) :
    executedWrites (es ++ fs) = executedWrites es ++ executedWrites fs := List.filterMap_append

theorem approvedCalls_append (es fs : List (Event E)) :
    approvedCalls (es ++ fs) = approvedCalls es ++ approvedCalls fs := List.filterMap_append

theorem silent_append {es fs : List (Event E)} (hes : Silent es) (hfs : Silent fs) :
    Silent (es ++ fs) :=
  ⟨by rw [executedWrites_append, hes.1, hfs.1]; rfl,
    by rw [approvedCalls_append, hes.2, hfs.2]; rfl⟩

theorem silent_cons {x : Event E} {fs : List (Event E)} (hx : Silent [x]) (hfs : Silent fs) :
    Silent (x :: fs) := silent_append hx hfs

theorem silent_publish (runId : Text) (seq : Nat) (es : List RunEvent) :
    Silent (publish runId seq es : List (Event E)) :=
  ⟨filterMap_publish _ (fun _ _ _ => rfl) _ _ _, filterMap_publish _ (fun _ _ _ => rfl) _ _ _⟩

/-- What a node that only publishes and ends a run can be seen to do. -/
theorem silent_publish_ended (runId : Text) (seq : Nat) (es : List RunEvent) (how : RunEnd) :
    Silent (publish runId seq es ++ [.ended how] : List (Event E)) :=
  silent_append (silent_publish ..) ⟨rfl, rfl⟩

theorem silent_passing (s : AgentState) : Silent (s.passing : List (Event E)) := by
  unfold AgentState.passing
  split <;> exact ⟨rfl, rfl⟩

theorem executedWrites_approval (call : Option ToolCall) (p : Prompt) (answer : Text)
    (s : AgentState) :
    executedWrites (.answered call p answer :: s.passing : List (Event E)) = [] :=
  (silent_passing s).1

/-- An approving answer approves the call that was put to the policyholder. -/
theorem approvedCalls_approval {call : ToolCall} {p : Prompt} {answer : Text}
    (yes : approves answer = true) (hargs : p.args = call.args) (s : AgentState) :
    approvedCalls (.answered (some call) p answer :: s.passing : List (Event E)) = [call] := by
  have happroved : Event.approvedCall? (.answered (some call) p answer : Event E) = some call := by
    simp [Event.approvedCall?, yes, hargs]
  rw [approvedCalls, List.filterMap_cons_some happroved]
  exact congrArg _ (silent_passing s).2

theorem executedWrites_executed (xs : List (Execution E)) :
    executedWrites (xs.map .executed) = (xs.map (·.call)).filter ToolCall.isWrite := by
  induction xs with
  | nil => rfl
  | cons x xs ih =>
    rw [executedWrites] at ih
    by_cases h : x.call.isWrite <;> simp [executedWrites, Event.executedWrite?, h, ih]

theorem approvedCalls_executed (xs : List (Execution E)) :
    approvedCalls (xs.map .executed : List (Event E)) = [] := by
  simp [approvedCalls, List.filterMap_map, Event.approvedCall?, Function.comp_def]

/-! ## One approval for each execution -/

/-- The write calls of the last message. -/
def AgentState.writes (s : AgentState) : List ToolCall :=
  (lastCalls s.messages).filter ToolCall.isWrite

/-- The steps under which the confirmation covers every write: the model asks for at most
one write in a reply, and the tools node does not break off after a write. -/
def oneWriteAtATime (g : Graph E W) (c : Config W) : Action E → Bool
  | .reply r => (r.toolCalls.filter ToolCall.isWrite).length ≤ 1
  | .call es =>
      match g.ranCalls c es with
      | (.error _, _, xs) => xs.all fun x => !x.call.isWrite
      | (.ok _, _, _) => true
  | _ => true

/-- The writes that the tools node executes are among the writes of the last message. -/
theorem executedWrites_ranCalls {g : Graph E W} {c : Config W} {es : List E}
    {r : Except Failure Tooled} {w : W} {xs : List (Execution E)}
    (h : g.ranCalls c es = (r, w, xs)) :
    (executedWrites (xs.map .executed : List (Event E))).Sublist c.state.writes := by
  have hsub := runCalls_sublist g.tools (lastCalls c.state.messages) es
    { invocations := c.state.toolInvocations, retrieved := c.state.retrieved } c.world
  rw [show runCalls .. = _ from h] at hsub
  rw [executedWrites_executed]
  exact hsub.filter _

/-- Where the write of the last message stands before a node. -/
def AgentState.Standing (s : AgentState) (es : List (Event E)) : Next → Prop
  | .at .capture => ∃ call, s.writes = [call]
  | .at .confirm | .paused _ => ∃ call, s.writes = [call] ∧ s.pendingWrite = some call.args
  | .at .tools => (executedWrites es ++ s.writes).Sublist (approvedCalls es)
  | _ => True

/-- Every execution is paid for by an approval, and so is every write that the tools node
is about to execute. -/
structure Held (c : Config W) (es : List (Event E)) : Prop where
  paid : (executedWrites es).Sublist (approvedCalls es)
  standing : c.state.Standing es c.next

/-- A step that neither executes nor approves keeps what is paid. -/
theorem held_of_silent {c c' : Config W} {es fs : List (Event E)} (hc : Held c es)
    (hfs : Silent fs) (hstanding : c'.state.Standing (es ++ fs) c'.next) : Held c' (es ++ fs) where
  paid := by
    rw [executedWrites_append, approvedCalls_append, hfs.1, hfs.2, List.append_nil,
      List.append_nil]
    exact hc.paid
  standing := hstanding

/-- A thread that has not moved stands where it stood. -/
theorem standing_of_silent {s : AgentState} {es fs : List (Event E)} {next : Next}
    (hs : s.Standing es next) (hfs : Silent fs) : s.Standing (es ++ fs) next := by
  unfold AgentState.Standing at hs ⊢
  split at hs
  · exact hs
  · exact hs
  · exact hs
  · rw [executedWrites_append, approvedCalls_append, hfs.1, hfs.2, List.append_nil,
      List.append_nil]
    exact hs
  · trivial

/-- The call that the confirmation is about is the write of the last message. -/
theorem find?_of_writes {s : AgentState} {call : ToolCall} (h : s.writes = [call]) :
    (lastCalls s.messages).find? ToolCall.isWrite = some call := by
  rw [← List.head?_filter]
  show s.writes.head? = _
  rw [h]
  rfl

theorem writes_agentNode (s : AgentState) (r : Reply) :
    (agentNode s r).writes = r.toolCalls.filter ToolCall.isWrite := by
  simp [AgentState.writes, agentNode, Message.toolCalls]

/-- Only calls without a write among them go to the tools directly. -/
theorem writes_of_route_tools {s : AgentState} (h : routeAfterAgent s = .tools) :
    s.writes = [] := by
  unfold routeAfterAgent at h
  dsimp only at h
  split at h
  · cases h
  · split at h
    · cases h
    · rename_i hany
      simpa [AgentState.writes, List.filter_eq_nil_iff] using hany

theorem writes_of_route_capture {s : AgentState} (h : routeAfterAgent s = .capture) :
    s.writes ≠ [] := by
  unfold routeAfterAgent at h
  dsimp only at h
  split at h
  · cases h
  · split at h
    · rename_i hany
      simpa [AgentState.writes, List.filter_eq_nil_iff] using hany
    · cases h

theorem routeAfterAgent_cases (s : AgentState) :
    routeAfterAgent s = .readback ∨ routeAfterAgent s = .capture ∨ routeAfterAgent s = .tools := by
  unfold routeAfterAgent
  dsimp only
  split
  · exact .inl rfl
  · split
    · exact .inr (.inl rfl)
    · exact .inr (.inr rfl)

/-- A reply with at most one write goes to `capture` with it or nowhere near a write. -/
theorem standing_reply {s : AgentState} {es : List (Event E)} (hone : s.writes.length ≤ 1)
    (hpaid : (executedWrites es).Sublist (approvedCalls es)) :
    s.Standing es (.at (routeAfterAgent s)) := by
  rcases routeAfterAgent_cases s with h | h | h <;> rw [h]
  · trivial
  · show ∃ call, s.writes = [call]
    match hwrites : s.writes with
    | [] => exact absurd hwrites (writes_of_route_capture h)
    | [call] => exact ⟨call, rfl⟩
    | _ :: _ :: _ => simp [hwrites] at hone
  · show (executedWrites es ++ s.writes).Sublist _
    rw [writes_of_route_tools h, List.append_nil]
    exact hpaid

/-- **The confirmation holds every write until it is approved**, step by step. -/
theorem held_step {g : Graph E W} (hg : g.requireConfirmation = true) {c c' : Config W}
    {es fs : List (Event E)} {a : Action E} (hc : Held c es) (hs : Step g c a c' fs)
    (ha : oneWriteAtATime g c a = true) : Held c' (es ++ fs) := by
  have hstanding := hc.standing
  cases hs with
  | expired =>
    exact held_of_silent hc (silent_publish ..) (standing_of_silent hstanding (silent_publish ..))
  | @resume j =>
    have hfs : Silent (publish j.runId 0 [.started] ++ [.resumed j.message] : List (Event E)) :=
      silent_append (silent_publish ..) ⟨rfl, rfl⟩
    refine held_of_silent hc hfs (standing_of_silent ?_ hfs)
    show c.state.Standing es c.next.continued
    cases hnext : c.next <;> rw [hnext] at hstanding <;> exact hstanding
  | turn => exact held_of_silent hc (silent_append (silent_publish ..) ⟨rfl, rfl⟩) trivial
  | guard =>
    refine held_of_silent hc ⟨rfl, rfl⟩ ?_
    show AgentState.Standing _ _ (.at (routeAfterGuard _))
    unfold routeAfterGuard
    split <;> trivial
  | stop | readback | parse | ground => exact held_of_silent hc ⟨rfl, rfl⟩ trivial
  | @reply r =>
    refine held_of_silent hc ⟨rfl, rfl⟩ (standing_reply ?_ ?_)
    · show (agentNode c.state r).writes.length ≤ 1
      rw [writes_agentNode]
      exact of_decide_eq_true ha
    · rw [executedWrites_append, approvedCalls_append]
      exact hc.paid.append (List.Sublist.refl _)
  | capture here =>
    rw [here.2] at hstanding
    obtain ⟨call, hcall⟩ := hstanding
    refine held_of_silent hc ⟨rfl, rfl⟩
      ⟨call, ?_, captureNode_pendingWrite _ (find?_of_writes hcall)⟩
    rw [AgentState.writes, Config.goto, captureNode_messages]
    exact hcall
  | gateOff here off => rw [hg] at off; cases off
  | refused => exact held_of_silent hc ⟨rfl, rfl⟩ trivial
  | asked here =>
    rw [here.2] at hstanding
    exact held_of_silent hc (silent_cons ⟨rfl, rfl⟩ (silent_publish_ended ..)) hstanding
  | @approved p answer here hgate given yes =>
    rw [here.2] at hstanding
    obtain ⟨call, hcall, hpending⟩ := hstanding
    rw [find?_of_writes hcall]
    have hargs : p.args = call.args := by
      rw [gate_ask hgate]
      simp [AgentState.prompt, AgentState.pending, hpending]
    have hexecuted := executedWrites_approval (E := E) (some call) p answer c.state
    have happroved := approvedCalls_approval (E := E) yes hargs c.state
    have hpaid : (executedWrites es ++ [call]).Sublist (approvedCalls es ++ [call]) :=
      hc.paid.append (List.Sublist.refl _)
    refine ⟨?_, ?_⟩
    · rw [executedWrites_append, approvedCalls_append, hexecuted, happroved, List.append_nil]
      exact (List.sublist_append_left _ _).trans hpaid
    · show c.state.passGate.Standing _ (.at (routeAfterConfirm c.state.passGate))
      unfold routeAfterConfirm
      split
      · trivial
      · show (executedWrites _ ++ c.state.writes).Sublist _
        rw [executedWrites_append, approvedCalls_append, hexecuted, happroved, hcall,
          List.append_nil]
        exact hpaid
  | @declined p answer here hgate given no =>
    refine held_of_silent hc ⟨rfl, ?_⟩ trivial
    cases (lastCalls c.state.messages).find? ToolCall.isWrite with
    | none => rfl
    | some call => simp [approvedCalls, Event.approvedCall?, no]
  | @tools es' t w xs here ran =>
    rw [here.2] at hstanding
    refine ⟨?_, trivial⟩
    rw [executedWrites_append, approvedCalls_append, approvedCalls_executed, List.append_nil]
    exact ((List.Sublist.refl _).append (executedWrites_ranCalls ran)).trans hstanding
  | @toolsFailed es' failure w xs here ran =>
    have hnone : executedWrites (xs.map .executed : List (Event E)) = [] := by
      rw [executedWrites_executed, List.filter_eq_nil_iff]
      simpa [oneWriteAtATime, ran] using ha
    have hfs := silent_append ⟨hnone, approvedCalls_executed xs⟩
      (silent_publish_ended c.runId 1 [failure.event] (.failed .tools))
    exact held_of_silent hc hfs (standing_of_silent hstanding hfs)
  | format => exact held_of_silent hc (silent_publish_ended ..) trivial
  | crash here =>
    exact held_of_silent hc (silent_publish_ended ..)
      (standing_of_silent hstanding (silent_publish_ended ..))

/-- A conversation in which one approval is given for a reply with some write calls. -/
def filingActions (calls : List ToolCall) : List (Action Unit) :=
  [.job { runId := "r1", message := "File a $1200 water damage claim on POL-1092" } 0 true, .go,
    .reply ⟨[], calls⟩, .settle (), .go, .job { runId := "r2", message := "yes" } 0 true, .go,
    .call (calls.map fun _ => ())]

/-- A prompt was answered with an approving word. -/
def Approved (fs : List (Event E)) : Prop :=
  ∃ call p answer, .answered call p answer ∈ fs ∧ approves answer = true

theorem approved_append {es : List (Event E)} (h : Approved es) (fs : List (Event E)) :
    Approved (es ++ fs) := by
  obtain ⟨call, p, answer, hmem, hyes⟩ := h
  exact ⟨call, p, answer, List.mem_append_left _ hmem, hyes⟩

/-- The writes of the current turn, and those about to be executed in it, have consent. -/
structure Consented (c : Config W) (es : List (Event E)) : Prop where
  executed : executedWrites (thisTurn es) ≠ [] → Approved (thisTurn es)
  toExecute : c.next = .at .tools → c.state.writes ≠ [] → Approved (thisTurn es)

/-- A step that executes no write keeps the consent. -/
theorem consented_of_no_write {c c' : Config W} {es fs : List (Event E)} (hc : Consented c es)
    (hturn : thisTurn (es ++ fs) = thisTurn es ++ fs) (hfs : executedWrites fs = [])
    (htools : c'.next = .at .tools → c'.state.writes ≠ [] → Approved (thisTurn es ++ fs)) :
    Consented c' (es ++ fs) where
  executed h := by
    rw [hturn] at h ⊢
    rw [executedWrites_append, hfs, List.append_nil] at h
    exact approved_append (hc.executed h) _
  toExecute h h' := by
    rw [hturn]
    exact htools h h'

/-- Writes executed before, or executed now by the tools node, have consent. -/
theorem approved_of_ran {g : Graph E W} {c : Config W} {es : List (Event E)} {answers : List E}
    {r : Except Failure Tooled} {w : W} {xs : List (Execution E)} (hc : Consented c es)
    (here : c.At .tools) (ran : g.ranCalls c answers = (r, w, xs))
    (h : executedWrites (thisTurn es) ++ executedWrites (xs.map .executed : List (Event E)) ≠ []) :
    Approved (thisTurn es) := by
  by_cases hnow : executedWrites (xs.map .executed : List (Event E)) = []
  · rw [hnow, List.append_nil] at h
    exact hc.executed h
  · refine hc.toExecute here.2 fun hnone => hnow ?_
    have hsub := executedWrites_ranCalls ran
    rw [hnone] at hsub
    exact List.sublist_nil.mp hsub

/-- **No write without an approval in the turn**, step by step. -/
theorem consented_step {g : Graph E W} (hg : g.requireConfirmation = true) {c c' : Config W}
    {es fs : List (Event E)} {a : Action E} (hc : Consented c es) (hs : Step g c a c' fs) :
    Consented c' (es ++ fs) := by
  rcases hs.thisTurn es with ⟨j, now, ok, -, rfl, hturn⟩ | hturn
  · exact ⟨fun h => absurd (by rw [hturn]; rfl) h, fun h => nomatch h⟩
  have stays : c.next = .at .tools → c.state.writes ≠ [] → Approved (thisTurn es ++ fs) :=
    fun h h' => approved_append (hc.toExecute h h') _
  cases hs with
  | expired => exact consented_of_no_write hc hturn (silent_publish ..).1 stays
  | resume =>
    refine consented_of_no_write hc hturn (silent_append (silent_publish ..) ⟨rfl, rfl⟩).1 ?_
    intro h
    cases hnext : c.next <;> simp only [Config.resumeWith, hnext, Next.continued] at h
    · cases h
    · exact stays (hnext.trans h)
    · cases h
  | turn =>
    exact consented_of_no_write hc hturn (silent_append (silent_publish ..) ⟨rfl, rfl⟩).1 nofun
  | guard =>
    refine consented_of_no_write hc hturn rfl fun h => ?_
    simp only [Config.goto, routeAfterGuard] at h
    split at h <;> cases h
  | stop | capture | readback | parse | ground => exact consented_of_no_write hc hturn rfl nofun
  | @reply r =>
    refine consented_of_no_write hc hturn rfl fun h hwrites => ?_
    exact absurd (writes_of_route_tools (Next.at.inj h)) hwrites
  | gateOff here off => rw [hg] at off; cases off
  | refused => exact consented_of_no_write hc hturn rfl nofun
  | asked =>
    exact consented_of_no_write hc hturn (silent_cons ⟨rfl, rfl⟩ (silent_publish_ended ..)).1
      nofun
  | @approved p answer here hgate given yes =>
    refine consented_of_no_write hc hturn (silent_passing _).1 fun _ _ => ?_
    exact ⟨_, p, answer, List.mem_append_right _ List.mem_cons_self, yes⟩
  | declined => exact consented_of_no_write hc hturn rfl nofun
  | tools here ran =>
    refine ⟨fun h => ?_, nofun⟩
    rw [hturn] at h ⊢
    exact approved_append (approved_of_ran hc here ran (executedWrites_append .. ▸ h)) _
  | @toolsFailed es' failure w xs here ran =>
    refine ⟨fun h => ?_, fun h h' => hturn ▸ stays h h'⟩
    rw [hturn] at h ⊢
    rw [executedWrites_append, executedWrites_append, (silent_publish_ended ..).1,
      List.append_nil] at h
    exact approved_append (approved_of_ran hc here ran h) _
  | format => exact consented_of_no_write hc hturn (silent_publish_ended ..).1 nofun
  | crash => exact consented_of_no_write hc hturn (silent_publish_ended ..).1 stays

/-- A turn on a message executes a write only after an approval. -/
def WritesApproved (message : Text) (fs : List (Event E)) : Prop :=
  .screened message (screen message) ∈ fs → executedWrites fs ≠ [] → Approved fs

/-- With `require_confirmation` off, a turn on any message that the screen lets through
comes to the tools with a write that nobody was asked about. -/
theorem unasked_write_run [Inhabited E] {g : Graph E W} (hg : g.requireConfirmation = false)
    (hmax : 0 < g.maxIterations) {message : Text} (hscreen : (screen message).allowed = true)
    (w : W) :
    ∃ as c es, g.Runs (newThread w) as c es ∧ c.At .tools ∧
      lastCalls c.state.messages = [filingCall "a"] ∧
      .screened message (screen message) ∈ thisTurn es ∧ ¬ Approved (thisTurn es) := by
  let j : Job := { runId := "r1", message }
  let r : Reply := ⟨[], [filingCall "a"]⟩
  let c₁ : Config W := (newThread w).startTurn j
  let c₂ := c₁.goto .agent (guardNode c₁.state)
  let c₃ := c₂.goto .capture (agentNode c₂.state r)
  let c₄ := c₃.goto .confirm (captureNode (g.settle default) c₃.state)
  obtain ⟨-, hblocked, hiterations⟩ := guardNode_allowed (s := c₁.state) hscreen
  have hcalls : lastCalls c₃.state.messages = [filingCall "a"] :=
    lastCalls_append_singleton _ _
  have hcalls₄ : lastCalls c₄.state.messages = [filingCall "a"] := by
    show lastCalls (captureNode _ c₃.state).messages = _
    rw [captureNode_messages, hcalls]
  have hpending : c₄.state.pendingWrite = some (filingCall "a").args :=
    captureNode_pendingWrite _ (by rw [hcalls]; rfl)
  have h₁ : g.step (newThread w) (.job j 0 true) =
      some (c₁, publish j.runId 0 [.started] ++ [.turnStarted message .done]) := rfl
  have h₂ : g.step c₁ .go = some (c₂, [.screened message (screen message)]) := by
    show some (c₁.goto (routeAfterGuard (guardNode c₁.state)) _, _) = _
    rw [routeAfterGuard, hblocked]
    rfl
  have hcap : g.capped c₂.state = false := by
    show decide (g.maxIterations ≤ (guardNode c₁.state).iterations) = false
    rw [hiterations]
    exact decide_eq_false (by omega)
  have h₃ : g.step c₂ (.reply r) = some (c₃, [.sent (modelInput c₂.state), .replied r]) := by
    show (if g.capped c₂.state then none else _) = _
    rw [hcap]
    show some (c₂.goto (routeAfterAgent _) _, _) = _
    rw [routeAfterAgent, show lastCalls (agentNode c₂.state r).messages = _ from hcalls]
    rfl
  have h₄ : g.step c₃ (.settle default) = some (c₄, []) := rfl
  have h₅ : g.step c₄ .go = some (c₄.pass, c₄.state.passing) := by
    show some (g.confirm c₄) = _
    rw [Graph.confirm, hg]
    rfl
  have hpending₄ : c₄.state.pending = (filingCall "a").args := by
    rw [AgentState.pending, hpending]
    rfl
  have hpassing : (c₄.state.passing : List (Event E)) = [] := by
    rw [AgentState.passing, hpending₄]
    rfl
  refine ⟨_, c₄.pass, _, (((((Run.single h₁).step h₂).step h₃).step h₄).step h₅), ?_, hcalls₄, ?_⟩
  · refine ⟨rfl, ?_⟩
    show Next.at (routeAfterConfirm c₄.state.passGate) = _
    rw [routeAfterConfirm, show c₄.state.passGate.pending = c₄.state.pending from rfl, hpending₄]
    rfl
  · rw [hpassing]
    refine ⟨List.mem_cons_self, ?_⟩
    rintro ⟨call, p, answer, hmem, -⟩
    simp [thisTurn, publish, Event.startsTurn] at hmem

/-- The tools node executes the one call of the last message. -/
theorem executed_one_call {g : Graph E W} {c : Config W} {call : ToolCall} {e : E}
    (here : c.At .tools) (hcalls : lastCalls c.state.messages = [call])
    (htool : (findTool g.tools call.name).isSome) :
    ∃ c' fs x, g.step c (.call [e]) = some (c', .executed x :: fs) ∧ x.call = call ∧
      ∀ called p answer, .answered called p answer ∉ fs := by
  obtain ⟨tool, htool⟩ := Option.isSome_iff_exists.mp htool
  have hstep : g.step c (.call [e]) = some (g.callTools c [e]) := by
    obtain ⟨run, hrun⟩ := Option.isSome_iff_exists.mp here.1
    simp [Graph.step, hrun, here.2, Graph.node]
  have hran : ∃ r w, g.ranCalls c [e] =
      (r, w, [⟨call, e, (tool.ainvoke e call.args c.world).1⟩]) := by
    unfold Graph.ranCalls
    rw [hcalls, runCalls.eq_def]
    dsimp only
    rw [htool]
    dsimp only
    split
    · exact ⟨_, _, rfl⟩
    · exact ⟨_, _, rfl⟩
  obtain ⟨r, w, hran⟩ := hran
  rw [hstep, Graph.callTools, hran]
  cases r with
  | ok t => exact ⟨_, _, _, rfl, rfl, by simp⟩
  | error failure => exact ⟨_, _, _, rfl, rfl, by simp [publish]⟩

/-- What a run on a message is seen to do: it screens the message, executes a write, and
asks nobody. -/
def writesUnasked (message : Text) (es : List (Event E)) : Bool :=
  (thisTurn es).any (fun
    | .screened m verdict => m = message ∧ verdict = screen message
    | _ => false) &&
  executedWrites (thisTurn es) ≠ [] &&
  (thisTurn es).all (fun | .answered .. => false | _ => true)

theorem not_writesApproved_of_writesUnasked {message : Text} {es : List (Event E)}
    (h : writesUnasked message es = true) : ¬ WritesApproved message (thisTurn es) := by
  simp only [writesUnasked, Bool.and_eq_true, List.any_eq_true, List.all_eq_true,
    decide_eq_true_eq] at h
  obtain ⟨⟨⟨e, he, hscreened⟩, hexecuted⟩, hunasked⟩ := h
  have hmem : .screened message (screen message) ∈ thisTurn es := by
    cases e <;> simp_all
  intro happroved
  obtain ⟨call, p, answer, hanswered, -⟩ := happroved hmem hexecuted
  cases hunasked _ hanswered

end OmniCare
