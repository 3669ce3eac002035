import OmniCare.History
import OmniCare.Runs

/-! # The graph and the worker on one thread

`build_graph` of `agent/app/graph/build.py` and `AgentWorker.handle` of
`agent/app/worker.py`, as one transition system over the thread's checkpoint.

LangGraph is taken at its word: it runs the nodes along the edges and checkpoints after
each; a run that stops reports in `next` what it would continue with; `interrupt()`
suspends the run until a resume value is given; `Command(resume=v)` continues a stopped
run without touching `messages` and gives `v` to the next unanswered `interrupt()`.  A new
input restarts the thread at the entry point and drops what it had left to do.

What comes from outside (jobs, model replies, the answers of services, failures and the
run timeout) is the action of a step, so a theorem about all runs is about every behaviour
of it.  A node may fail at any time (`Action.fail`); the recursion limit is such a failure.
-/
namespace OmniCare

/-- The nodes of `build_graph`. -/
inductive Node
  | guard
  | agent
  | capture
  | confirm
  | tools
  | readback
  | parse
  | ground
  | format
  deriving DecidableEq, Repr

/-- What a checkpoint would continue with: `snapshot.next`. -/
inductive Next
  /-- Nothing: the thread is new, or its last run reached `END`. -/
  | done
  /-- A node that has still to run. -/
  | at (n : Node)
  /-- `confirm`, suspended at its interrupt. -/
  | paused (prompt : Prompt)
  deriving DecidableEq, Repr

/-- `build_graph(llm, tools, require_confirmation, max_iterations, settlement)`. -/
structure Graph (E W : Type) where
  tools : List (Tool E W)
  requireConfirmation : Bool := true
  maxIterations : Nat := 5
  settlement : Option (E → Option Json → Option Json → Option Split) := none

/-- `job`: one message of a policyholder. -/
structure Job where
  runId : Text
  message : Text
  userId : Text := []
  conversationId : Text := []
  channel : Channel := .text
  sttConfidence : Option ℚ := none
  deadlineAt : Option ℚ := none

/-- The thread: its checkpoint, the run in progress and the stores the tools write to. -/
structure Config (W : Type) where
  state : AgentState := {}
  next : Next := .done
  /-- The run id of the job being handled. -/
  running : Option Text := none
  /-- The resume value of the run, while no interrupt has taken it. -/
  resume : Option Text := none
  world : W

/-- What happens from outside. -/
inductive Action (E : Type)
  /-- A job is handled at a time; `snapshotOk` says whether `aget_state` succeeds. -/
  | job (j : Job) (now : ℚ) (snapshotOk : Bool)
  /-- A node that needs nothing from outside runs. -/
  | go
  /-- The model replies. -/
  | reply (r : Reply)
  /-- The settlement provider answers `capture`. -/
  | settle (e : E)
  /-- The tools are called, with the answers the world gives to each. -/
  | call (es : List E)
  /-- The node that should run fails, or the run timeout fires in it. -/
  | fail (failure : Failure)

/-! ## Events -/

/-- The last event of an answered turn. -/
structure Report where
  stoppedReason : Option Text
  confidence : Option PyFloat
  modelConfidence : Option PyFloat
  confidenceReason : Option Text
  unknown : Bool
  deriving DecidableEq, Repr

/-- `RunEvent`: what the worker publishes. -/
inductive RunEvent
  | started
  | toolEnd (call : Invocation)
  | confirm (args : Dict) (readback : Text)
  | sources (sources : List Text)
  | token (text : Text)
  | done (report : Option Report)
  | error (message : Text) (detail : Option Text)
  deriving DecidableEq, Repr

/-- How a run ends. -/
inductive RunEnd
  | finished
  | paused
  | failed (n : Node)
  deriving DecidableEq, Repr

/-- What can be seen of a step. -/
inductive Event (E : Type)
  /-- A message starts a new turn; `left` is what the thread had left to do. -/
  | turnStarted (message : Text) (left : Next)
  /-- A message is passed as a resume value. -/
  | resumed (message : Text)
  | screened (message : Text) (verdict : GuardVerdict)
  /-- The agent node sends messages to the model. -/
  | sent (messages : List Message)
  | replied (r : Reply)
  /-- `confirm` raises its interrupt and the run suspends. -/
  | prompted (p : Prompt)
  /-- The interrupt that `confirm` raises for a call returns a value. -/
  | answered (call : Option ToolCall) (p : Prompt) (answer : Text)
  /-- `confirm` leads away from the tools, with an answer unless it let the write through
  without arguments. -/
  | gateClosed (answer : Option Text)
  | executed (x : Execution E)
  | published (runId : Text) (seq : Nat) (e : RunEvent)
  | ended (how : RunEnd)

/-- Publishes events under consecutive numbers. -/
def publish {E : Type} (runId : Text) : Nat → List RunEvent → List (Event E)
  | _, [] => []
  | seq, e :: es => .published runId seq e :: publish runId (seq + 1) es

/-- What the worker publishes when a run has reached `END`. -/
def finishedEvents (s : AgentState) : List RunEvent :=
  let text := ((finalAnswer s.messages).map (·.2)).getD []
  s.toolInvocations.map .toolEnd ++ (if text.isEmpty then [] else [.token text]) ++
    [.sources s.sources,
      .done (some ⟨s.stoppedReason, s.answerConfidence, s.modelConfidence, s.confidenceReason,
        s.answerUnknown⟩)]

/-- What the worker publishes when a run has been suspended. -/
def pausedEvents (s : AgentState) (p : Prompt) : List RunEvent :=
  s.toolInvocations.map .toolEnd ++ [.confirm p.args p.readback, .sources s.sources, .done none]

/-- The error event of a failed run. -/
def Failure.event : Failure → RunEvent
  | .timedOut => .error "The assistant timed out." none
  | .raised e =>
      .error "The assistant is temporarily unavailable."
        (some (e.kind ++ ": ".toList ++ e.detail))

namespace Config

variable {E W : Type} (c : Config W)

/-- The run goes on to a node. -/
def goto (n : Node) (s : AgentState) : Config W := { c with state := s, next := .at n }

/-- The run id under which the worker publishes. -/
def runId : Text := c.running.getD []

/-- The run fails in a node: the checkpoint is the one from before the node. -/
def crash (n : Node) (failure : Failure) : Config W × List (Event E) :=
  ({ c with running := none }, publish c.runId 1 [failure.event] ++ [.ended (.failed n)])

/-- The run reaches `END`. -/
def finish (s : AgentState) : Config W × List (Event E) :=
  ({ c with state := s, next := .done, running := none },
    publish c.runId 1 (finishedEvents s) ++ [.ended .finished])

/-- The run is suspended at the interrupt of `confirm`. -/
def suspend (p : Prompt) : Config W × List (Event E) :=
  ({ c with next := .paused p, running := none },
    .prompted p :: (publish c.runId 1 (pausedEvents c.state p) ++ [.ended .paused]))

end Config

/-! ## Jobs -/

/-- The input of a new turn, merged into the state. -/
def AgentState.input (s : AgentState) (j : Job) : AgentState :=
  { s.add [.human j.message] with
    userId := j.userId, conversationId := j.conversationId, channel := j.channel
    sttConfidence := j.sttConfidence }

/-- Where `Command(resume=v)` continues. -/
def Next.continued : Next → Next
  | .paused _ => .at .confirm
  | next => next

/-- `ainvoke(Command(resume=message))`. -/
def Config.resumeWith {W : Type} (c : Config W) (j : Job) : Config W :=
  { c with next := c.next.continued, running := some j.runId, resume := some j.message }

/-- `ainvoke(state)`. -/
def Config.startTurn {W : Type} (c : Config W) (j : Job) : Config W :=
  { c with state := c.state.input j, next := .at .guard, running := some j.runId
           resume := none }

/-- `AgentWorker.handle` up to `ainvoke`. -/
def Config.accept {E W : Type} (c : Config W) (j : Job) (now : ℚ) (snapshotOk : Bool) :
    Config W × List (Event E) :=
  if j.deadlineAt.any (· < now) then
    (c, publish j.runId 0 [.error "Request expired in queue." none])
  else
    let resuming := snapshotOk && c.next ≠ .done
    if resuming then
      (c.resumeWith j, publish j.runId 0 [.started] ++ [.resumed j.message])
    else (c.startTurn j, publish j.runId 0 [.started] ++ [.turnStarted j.message c.next])

/-! ## Nodes and edges -/

/-- `route_after_guard`. -/
def routeAfterGuard (s : AgentState) : Node := if s.guardBlocked then .parse else .agent

/-- `route_after_agent`. -/
def routeAfterAgent (s : AgentState) : Node :=
  let calls := lastCalls s.messages
  if calls.isEmpty then .readback
  else if calls.any ToolCall.isWrite then .capture
  else .tools

/-- `route_after_confirm`: by the truth value of `pending_write`. -/
def routeAfterConfirm (s : AgentState) : Node := if s.pending.isEmpty then .parse else .tools

/-- The confirm node lets the captured write through. -/
def Config.pass {W : Type} (c : Config W) : Config W :=
  c.goto (routeAfterConfirm c.state.passGate) c.state.passGate

/-- The confirm node refuses the captured write, with an answer. -/
def Config.close {W : Type} (c : Config W) (answer : Text) : Config W :=
  c.goto (routeAfterConfirm (c.state.closeGate answer)) (c.state.closeGate answer)

/-- The event of a write that is let through without arguments, which does not lead to the
tools. -/
def AgentState.passing {E : Type} (s : AgentState) : List (Event E) :=
  if s.pending.isEmpty then [.gateClosed none] else []

namespace Graph

variable {E W : Type} (g : Graph E W)

/-- The settlement provider, for the answers of the services it calls. -/
def settle (e : E) : Option Json → Option Json → Option Split :=
  match g.settlement with
  | none => fun _ _ => none
  | some provider => provider e

/-- Whether the agent node stops instead of calling the model. -/
def capped (s : AgentState) : Bool := g.maxIterations ≤ s.iterations

/-- The confirm node. -/
def confirm (c : Config W) : Config W × List (Event E) :=
  match gate g.requireConfirmation c.state with
  | .error e => c.crash .confirm (.raised e)
  | .ok .off => (c.pass, c.state.passing)
  | .ok (.refused answer) => (c.close answer, [.gateClosed (some answer)])
  | .ok (.ask prompt) =>
      match c.resume with
      | none => c.suspend prompt
      | some answer =>
          let taken := { c with resume := none }
          let call := (lastCalls c.state.messages).find? ToolCall.isWrite
          if approves answer then (taken.pass, .answered call prompt answer :: c.state.passing)
          else
            (taken.close notFiled,
              [.answered call prompt answer, .gateClosed (some notFiled)])

/-- The loop of the tools node over the last message. -/
def ranCalls (c : Config W) (es : List E) : Except Failure Tooled × W × List (Execution E) :=
  runCalls g.tools (lastCalls c.state.messages) es
    { invocations := c.state.toolInvocations, retrieved := c.state.retrieved } c.world

/-- The tools node. -/
def callTools (c : Config W) (es : List E) : Config W × List (Event E) :=
  match g.ranCalls c es with
  | (.ok t, world, executions) =>
      (({ c with world } : Config W).goto .agent (toolsNode c.state t),
        executions.map .executed)
  | (.error failure, world, executions) =>
      let (c, events) := ({ c with world } : Config W).crash .tools failure
      (c, executions.map .executed ++ events)

/-- One node runs. -/
def node (c : Config W) : Node → Action E → Option (Config W × List (Event E))
  | .guard, .go =>
      let s := guardNode c.state
      let message := lastHuman c.state.messages
      some (c.goto (routeAfterGuard s) s, [.screened message (screen message)])
  | .agent, .go =>
      if g.capped c.state then some (c.goto .readback (agentStop c.state), []) else none
  | .agent, .reply r =>
      if g.capped c.state then none
      else
        let s := agentNode c.state r
        some (c.goto (routeAfterAgent s) s, [.sent (modelInput c.state), .replied r])
  | .capture, .settle e => some (c.goto .confirm (captureNode (g.settle e) c.state), [])
  | .confirm, .go => some (g.confirm c)
  | .tools, .call es => some (g.callTools c es)
  | .readback, .go => some (c.goto .parse (readbackNode c.state), [])
  | .parse, .go =>
      match parseNode c.state with
      | .ok s => some (c.goto .ground s, [])
      | .error e => some (c.crash .parse (.raised e))
  | .ground, .go => some (c.goto .format (groundNode c.state), [])
  | .format, .go => some (c.finish (formatNode c.state))
  | n, .fail failure => some (c.crash n failure)
  | _, _ => none

/-- One step: a job is accepted when none is being handled, a node runs when one is. -/
def step (c : Config W) (a : Action E) : Option (Config W × List (Event E)) :=
  match a, c.running, c.next with
  | .job j now snapshotOk, none, _ => some (c.accept j now snapshotOk)
  | .job .., some _, _ => none
  | a, some _, .at n => g.node c n a
  | _, _, _ => none

/-- The runs of a thread. -/
abbrev Runs (c : Config W) (as : List (Action E)) (c' : Config W) (es : List (Event E)) : Prop :=
  Run (Computes g.step) c as c' es

/-- The runs of a thread whose steps all meet a condition. -/
abbrev RunsWhere (ok : Config W → Action E → Bool) (c : Config W) (as : List (Action E))
    (c' : Config W) (es : List (Event E)) : Prop :=
  Run (Computes (restrict ok g.step)) c as c' es

end Graph

/-- A graph without tools, as small as a graph can be. -/
def bareGraph : Graph Unit Unit := { tools := [] }

/-- A graph whose one tool counts the claims it has filed. -/
def filingGraph (requireConfirmation : Bool) : Graph Unit Nat :=
  { tools := [⟨"submit_claim", fun _ _ filed => (.returned (.obj []), filed + 1)⟩]
    requireConfirmation }

/-- A call that files a water damage claim. -/
def filingCall (id : Text) : ToolCall :=
  ⟨"submit_claim",
    [("policy_number", .str "POL-1092"), ("claim_type", .str "Water Damage"),
      ("amount", .int 1200), ("description", .str "Burst pipe in the kitchen")], id⟩

/-- A thread that has handled nothing yet. -/
def newThread {W : Type} (w : W) : Config W := { world := w }

end OmniCare
