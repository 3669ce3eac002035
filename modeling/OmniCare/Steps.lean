import OmniCare.Graph

/-! # What one step can do

`Graph.step` case by case.  `Step` names the cases and says, for each, when it is taken,
what the thread becomes and what can be seen; `Step.of_computes` derives it once, and the
invariants of the other modules are proved by cases on it.
-/
namespace OmniCare

variable {E W : Type}

/-- The thread is about to run a node. -/
def Config.At (c : Config W) (n : Node) : Prop := c.running.isSome ∧ c.next = .at n

/-- The cases of a step. -/
inductive Step (g : Graph E W) : Config W → Action E → Config W → List (Event E) → Prop
  /-- The deadline of the job has passed. -/
  | expired {c : Config W} {j : Job} {now : ℚ} {ok : Bool} (idle : c.running = none)
      (late : j.deadlineAt.any (· < now) = true) :
      Step g c (.job j now ok) c (publish j.runId 0 [.error "Request expired in queue." none])
  /-- The job's message is passed as a resume value. -/
  | resume {c : Config W} {j : Job} {now : ℚ} (idle : c.running = none)
      (intime : j.deadlineAt.any (· < now) = false) (left : c.next ≠ .done) :
      Step g c (.job j now true) (c.resumeWith j)
        (publish j.runId 0 [.started] ++ [.resumed j.message])
  /-- The job's message starts a new turn. -/
  | turn {c : Config W} {j : Job} {now : ℚ} {ok : Bool} (idle : c.running = none)
      (intime : j.deadlineAt.any (· < now) = false) (fresh : ok = false ∨ c.next = .done) :
      Step g c (.job j now ok) (c.startTurn j)
        (publish j.runId 0 [.started] ++ [.turnStarted j.message c.next])
  | guard {c : Config W} (here : c.At .guard) :
      Step g c .go (c.goto (routeAfterGuard (guardNode c.state)) (guardNode c.state))
        [.screened (lastHuman c.state.messages) (screen (lastHuman c.state.messages))]
  /-- The structural stop of the agent node. -/
  | stop {c : Config W} (here : c.At .agent) (cap : g.capped c.state = true) :
      Step g c .go (c.goto .readback (agentStop c.state)) []
  /-- The model is called and replies. -/
  | reply {c : Config W} {r : Reply} (here : c.At .agent) (cap : g.capped c.state = false) :
      Step g c (.reply r)
        (c.goto (routeAfterAgent (agentNode c.state r)) (agentNode c.state r))
        [.sent (modelInput c.state), .replied r]
  | capture {c : Config W} {e : E} (here : c.At .capture) :
      Step g c (.settle e) (c.goto .confirm (captureNode (g.settle e) c.state)) []
  /-- `require_confirmation` is off. -/
  | gateOff {c : Config W} (here : c.At .confirm) (off : g.requireConfirmation = false) :
      Step g c .go c.pass c.state.passing
  | refused {c : Config W} {answer : Text} (here : c.At .confirm)
      (hgate : gate g.requireConfirmation c.state = .ok (.refused answer)) :
      Step g c .go (c.close answer) [.gateClosed (some answer)]
  /-- The run suspends at the interrupt. -/
  | asked {c : Config W} {p : Prompt} (here : c.At .confirm)
      (hgate : gate g.requireConfirmation c.state = .ok (.ask p)) (open_ : c.resume = none) :
      Step g c .go { c with next := .paused p, running := none }
        (.prompted p :: (publish c.runId 1 (pausedEvents c.state p) ++ [.ended .paused]))
  | approved {c : Config W} {p : Prompt} {answer : Text} (here : c.At .confirm)
      (hgate : gate g.requireConfirmation c.state = .ok (.ask p))
      (given : c.resume = some answer) (yes : approves answer = true) :
      Step g c .go ({ c with resume := none } : Config W).pass
        (.answered ((lastCalls c.state.messages).find? ToolCall.isWrite) p answer
          :: c.state.passing)
  | declined {c : Config W} {p : Prompt} {answer : Text} (here : c.At .confirm)
      (hgate : gate g.requireConfirmation c.state = .ok (.ask p))
      (given : c.resume = some answer) (no : approves answer = false) :
      Step g c .go (({ c with resume := none } : Config W).close notFiled)
        [.answered ((lastCalls c.state.messages).find? ToolCall.isWrite) p answer,
          .gateClosed (some notFiled)]
  /-- The tools node completes. -/
  | tools {c : Config W} {es : List E} {t : Tooled} {w : W} {xs : List (Execution E)}
      (here : c.At .tools)
      (ran : g.ranCalls c es = (.ok t, w, xs)) :
      Step g c (.call es) (({ c with world := w } : Config W).goto .agent (toolsNode c.state t))
        (xs.map .executed)
  /-- The tools node breaks off. -/
  | toolsFailed {c : Config W} {es : List E} {failure : Failure} {w : W}
      {xs : List (Execution E)} (here : c.At .tools)
      (ran : g.ranCalls c es = (.error failure, w, xs)) :
      Step g c (.call es) { c with world := w, running := none }
        (xs.map .executed ++ (publish c.runId 1 [failure.event] ++ [.ended (.failed .tools)]))
  | readback {c : Config W} (here : c.At .readback) :
      Step g c .go (c.goto .parse (readbackNode c.state)) []
  | parse {c : Config W} {s : AgentState} (here : c.At .parse)
      (parsed : parseNode c.state = .ok s) :
      Step g c .go (c.goto .ground s) []
  | ground {c : Config W} (here : c.At .ground) :
      Step g c .go (c.goto .format (groundNode c.state)) []
  | format {c : Config W} (here : c.At .format) :
      Step g c .go { c with state := formatNode c.state, next := .done, running := none }
        (publish c.runId 1 (finishedEvents (formatNode c.state)) ++ [.ended .finished])
  /-- A node fails, or the run timeout fires in it. -/
  | crash {c : Config W} {a : Action E} {n : Node} {failure : Failure} (here : c.At n) :
      Step g c a { c with running := none }
        (publish c.runId 1 [failure.event] ++ [.ended (.failed n)])

theorem gate_off {requireConfirmation : Bool} {s : AgentState}
    (h : gate requireConfirmation s = .ok .off) : requireConfirmation = false := by
  unfold gate at h
  split at h
  · assumption
  · split at h
    · cases h
    · split at h <;> cases h

/-- What is asked is the captured write. -/
theorem gate_ask {requireConfirmation : Bool} {s : AgentState} {p : Prompt}
    (h : gate requireConfirmation s = .ok (.ask p)) : p = s.prompt := by
  unfold gate at h
  split at h
  · cases h
  · split at h
    · cases h
    · split at h
      · cases h
      · cases h
      · cases h
        rfl

namespace Graph

variable {g : Graph E W} {c c' : Config W} {a : Action E} {es : List (Event E)}

theorem accept_cases {j : Job} {now : ℚ} {ok : Bool} (idle : c.running = none)
    (h : c.accept j now ok = (c', es)) : Step g c (.job j now ok) c' es := by
  unfold Config.accept at h
  split at h
  · rename_i late
    cases h
    exact .expired idle late
  · rename_i intime
    have intime : j.deadlineAt.any (· < now) = false := by simpa using intime
    simp only at h
    split at h
    · rename_i resuming
      obtain ⟨rfl, left⟩ : ok = true ∧ c.next ≠ .done := by simpa using resuming
      cases h
      exact .resume idle intime left
    · rename_i fresh
      cases h
      refine .turn idle intime ?_
      cases ok with
      | false => exact .inl rfl
      | true => exact .inr (by simpa using fresh)

theorem confirm_cases (here : c.At .confirm) (h : g.confirm c = (c', es)) :
    Step g c .go c' es := by
  unfold confirm at h
  split at h
  · cases h
    exact .crash here
  · rename_i hgate
    cases h
    exact .gateOff here (gate_off hgate)
  · rename_i answer hgate
    cases h
    exact .refused here hgate
  · rename_i p hgate
    split at h
    · rename_i open_
      cases h
      exact .asked here hgate open_
    · rename_i answer given
      simp only at h
      split at h
      · rename_i yes
        cases h
        exact .approved here hgate given yes
      · rename_i no
        cases h
        exact .declined here hgate given (by simpa using no)

theorem callTools_cases {answers : List E} (here : c.At .tools)
    (h : g.callTools c answers = (c', es)) : Step g c (.call answers) c' es := by
  unfold callTools at h
  split at h
  · rename_i ran
    cases h
    exact .tools here ran
  · rename_i ran
    cases h
    exact .toolsFailed here ran

theorem node_cases {n : Node} (here : c.At n) (h : g.node c n a = some (c', es)) :
    Step g c a c' es := by
  unfold node at h
  split at h
  · cases h
    exact .guard here
  · split at h
    · rename_i cap
      cases h
      exact .stop here cap
    · cases h
  · split at h
    · cases h
    · rename_i cap
      cases h
      exact .reply here (by simpa using cap)
  · cases h
    exact .capture here
  · exact confirm_cases here (Option.some.inj h)
  · exact callTools_cases here (Option.some.inj h)
  · cases h
    exact .readback here
  · split at h
    · rename_i s parsed
      cases h
      exact .parse here parsed
    · cases h
      exact .crash here
  · cases h
    exact .ground here
  · cases h
    exact .format here
  · cases h
    exact .crash here
  · cases h

/-- **Every step is one of the cases.** -/
theorem step_cases (h : g.step c a = some (c', es)) : Step g c a c' es := by
  unfold step at h
  split at h
  · rename_i idle
    exact accept_cases idle (Option.some.inj h)
  · cases h
  · rename_i run n _ _ hrun hnext
    exact node_cases ⟨by simp [hrun], hnext⟩ h
  · cases h

/-- A job is accepted only when none is being handled. -/
theorem idle_of_job {j : Job} {now : ℚ} {ok : Bool} (h : g.step c (.job j now ok) = some (c', es)) :
    c.running = none := by
  cases hrun : c.running with
  | none => rfl
  | some run => simp [step, hrun] at h

end Graph

/-! ## Published events -/

/-- Publishing adds nothing to what is read off other events. -/
theorem filterMap_publish {β : Type*} (f : Event E → Option β)
    (hf : ∀ runId seq e, f (.published runId seq e) = none) (runId : Text) (seq : Nat)
    (es : List RunEvent) : (publish runId seq es).filterMap f = [] := by
  induction es generalizing seq with
  | nil => rfl
  | cons e es ih => rw [publish, List.filterMap_cons_none (hf ..), ih]

/-- A published event is one of those that were to be published. -/
theorem mem_publish {x : Event E} {runId : Text} {seq : Nat} {es : List RunEvent}
    (h : x ∈ publish runId seq es) : ∃ i, ∃ e ∈ es, x = .published runId i e := by
  induction es generalizing seq with
  | nil => cases h
  | cons e es ih =>
    rcases List.mem_cons.mp h with rfl | h
    · exact ⟨seq, e, List.mem_cons_self, rfl⟩
    · obtain ⟨i, e', he', rfl⟩ := ih h
      exact ⟨i, e', List.mem_cons_of_mem _ he', rfl⟩

theorem not_mem_publish {x : Event E} {runId : Text} {seq : Nat} {es : List RunEvent}
    (hx : ∀ i e, x ≠ .published runId i e) : x ∉ publish runId seq es := by
  intro hmem
  obtain ⟨i, e, -, rfl⟩ := mem_publish hmem
  exact hx i e rfl

@[simp] theorem ended_not_mem_publish (how : RunEnd) (runId : Text) (seq : Nat)
    (es : List RunEvent) : (.ended how : Event E) ∉ publish runId seq es :=
  not_mem_publish (by simp)

@[simp] theorem prompted_not_mem_publish (p : Prompt) (runId : Text) (seq : Nat)
    (es : List RunEvent) : (.prompted p : Event E) ∉ publish runId seq es :=
  not_mem_publish (by simp)

@[simp] theorem sent_not_mem_publish (ms : List Message) (runId : Text) (seq : Nat)
    (es : List RunEvent) : (.sent ms : Event E) ∉ publish runId seq es :=
  not_mem_publish (by simp)

/-- Every event that was to be published is. -/
theorem publish_of_mem (runId : Text) (seq : Nat) {e : RunEvent} {es : List RunEvent}
    (h : e ∈ es) : ∃ i, (.published runId i e : Event E) ∈ publish runId seq es := by
  induction es generalizing seq with
  | nil => cases h
  | cons e' es ih =>
    rcases List.mem_cons.mp h with rfl | h
    · exact ⟨seq, List.mem_cons_self⟩
    · obtain ⟨i, hi⟩ := ih (seq + 1) h
      exact ⟨i, List.mem_cons_of_mem _ hi⟩

/-! ## The history -/

/-- **A step rewords the final answer or adds messages at the end**: no other message is
removed or changed, and no system message is added. -/
theorem Step.messages {g : Graph E W} {c c' : Config W} {a : Action E} {es : List (Event E)}
    (h : Step g c a c' es) :
    ∃ old new, Reworded c.state.messages old ∧ c'.state.messages = old ++ new ∧
      ∀ m ∈ new, m.isSystem = false := by
  have unchanged : ∃ old new, Reworded c.state.messages old ∧
      c.state.messages = old ++ new ∧ ∀ m ∈ new, m.isSystem = false :=
    ⟨_, [], .same, (List.append_nil _).symm, nofun⟩
  have adds : ∀ m : Message, m.isSystem = false → ∃ old new, Reworded c.state.messages old ∧
      c.state.messages ++ [m] = old ++ new ∧ ∀ m ∈ new, m.isSystem = false :=
    fun m hm => ⟨_, [m], .same, rfl, by simpa using hm⟩
  have rewords : ∀ {messages : List Message}, Reworded c.state.messages messages →
      ∃ old new, Reworded c.state.messages old ∧ messages = old ++ new ∧
        ∀ m ∈ new, m.isSystem = false :=
    fun h => ⟨_, [], h, (List.append_nil _).symm, nofun⟩
  cases h with
  | expired | resume | gateOff | asked | approved | toolsFailed | crash => exact unchanged
  | turn => exact adds _ rfl
  | guard =>
    show ∃ old new, _ ∧ (guardNode c.state).messages = old ++ new ∧ _
    cases hscreen : (screen (lastHuman c.state.messages)).allowed with
    | true =>
      rw [(guardNode_allowed hscreen).1]
      exact unchanged
    | false =>
      rw [(guardNode_blocked hscreen).1]
      exact adds _ rfl
  | stop | reply | refused | declined => exact adds _ rfl
  | capture =>
    show ∃ old new, _ ∧ (captureNode _ c.state).messages = old ++ new ∧ _
    rw [captureNode_messages]
    exact unchanged
  | tools here ran =>
    obtain ⟨ms, houtputs, hms⟩ := runCalls_outputs ran
    refine ⟨_, ms, .same, ?_, ?_⟩
    · show c.state.messages ++ _ = _
      rw [houtputs, List.nil_append]
    · intro m hm
      obtain ⟨call, -, content, rfl⟩ := exists_answered hms hm
      rfl
  | readback => exact rewords (readbackNode_reworded _)
  | parse _ parsed => exact rewords (parseNode_reworded parsed)
  | ground => exact rewords (groundNode_reworded _)
  | format => exact rewords (formatNode_reworded _)

/-- A human message stays where it is. -/
theorem Step.human_getElem? {g : Graph E W} {c c' : Config W} {a : Action E}
    {es : List (Event E)} (h : Step g c a c' es) {i : Nat} {content : Text}
    (hi : c.state.messages[i]? = some (.human content)) :
    c'.state.messages[i]? = some (.human content) := by
  obtain ⟨old, new, hold, hmessages, -⟩ := h.messages
  have hi' := hold.getElem? hi rfl
  rw [hmessages, List.getElem?_append_left (List.getElem?_eq_some_iff.mp hi').1, hi']

/-! ## The current turn -/

/-- Whether an event starts a turn. -/
def Event.startsTurn : Event E → Bool
  | .turnStarted .. => true
  | _ => false

/-- What has been seen since the current turn was started. -/
def thisTurn (es : List (Event E)) : List (Event E) :=
  (es.reverse.takeWhile fun e => !e.startsTurn).reverse

theorem thisTurn_append {es fs : List (Event E)} (h : fs.all (!·.startsTurn) = true) :
    thisTurn (es ++ fs) = thisTurn es ++ fs := by
  have h' : ∀ e ∈ fs.reverse, (!e.startsTurn) = true := by simpa using h
  rw [thisTurn, List.reverse_append, List.takeWhile_append_of_pos h', List.reverse_append,
    List.reverse_reverse, thisTurn]

theorem thisTurn_turnStarted (es : List (Event E)) (message : Text) (left : Next) :
    thisTurn (es ++ [.turnStarted message left]) = [] := by
  rw [thisTurn, List.reverse_append]
  rfl

theorem publish_startsTurn (runId : Text) (seq : Nat) (es : List RunEvent) :
    (publish runId seq es : List (Event E)).all (!·.startsTurn) = true := by
  rw [List.all_eq_true]
  intro x hx
  obtain ⟨i, e, -, rfl⟩ := mem_publish hx
  rfl

/-- Every step but the start of a turn stays within the turn. -/
theorem Step.thisTurn {g : Graph E W} {c c' : Config W} {a : Action E} {fs : List (Event E)}
    (h : Step g c a c' fs) (es : List (Event E)) :
    (∃ j now ok, a = .job j now ok ∧ c' = c.startTurn j ∧ OmniCare.thisTurn (es ++ fs) = []) ∨
      OmniCare.thisTurn (es ++ fs) = OmniCare.thisTurn es ++ fs := by
  have published := publish_startsTurn (E := E)
  cases h with
  | turn =>
    refine .inl ⟨_, _, _, rfl, rfl, ?_⟩
    rw [← List.append_assoc]
    exact thisTurn_turnStarted ..
  | expired => exact .inr (thisTurn_append (published ..))
  | resume | format | crash =>
    exact .inr (thisTurn_append (by rw [List.all_append, published]; rfl))
  | asked =>
    exact .inr (thisTurn_append (by rw [List.all_cons, List.all_append, published]; rfl))
  | gateOff | approved =>
    refine .inr (thisTurn_append ?_)
    simp only [List.all_cons, AgentState.passing]
    split <;> rfl
  | tools => exact .inr (thisTurn_append (by simp [Event.startsTurn]))
  | toolsFailed =>
    refine .inr (thisTurn_append ?_)
    rw [List.all_append, List.all_append, published]
    simp [Event.startsTurn]
  | guard | stop | reply | capture | refused | declined | readback | parse | ground =>
    exact .inr (thisTurn_append rfl)

/-! ## Calls of the model -/

/-- The model is called with a list of messages. -/
def Sends (g : Graph E W) (c : Config W) (ms : List Message) : Prop :=
  ∃ r c' fs, g.step c (.reply r) = some (c', fs) ∧ .sent ms ∈ fs

theorem eq_modelInput_of_sends {g : Graph E W} {c : Config W} {ms : List Message}
    (h : Sends g c ms) : c.At .agent ∧ ms = modelInput c.state := by
  obtain ⟨r, c', fs, hs, hmem⟩ := h
  generalize ha : Action.reply r = a at hs
  cases Graph.step_cases hs with
  | reply here => exact ⟨here, by simpa using hmem⟩
  | crash => simp at hmem
  | _ => cases ha

/-- The agent node sends its input, unless the iterations are used up. -/
theorem sends_modelInput {g : Graph E W} {c : Config W} (here : c.At .agent)
    (cap : g.capped c.state = false) : Sends g c (modelInput c.state) := by
  obtain ⟨run, hrun⟩ := Option.isSome_iff_exists.mp here.1
  let r : Reply := ⟨[], []⟩
  let s := agentNode c.state r
  have hstep : g.step c (.reply r) =
      some (c.goto (routeAfterAgent s) s, [.sent (modelInput c.state), .replied r]) := by
    simp [Graph.step, hrun, here.2, Graph.node, cap, s]
  exact ⟨r, _, _, hstep, List.mem_cons_self⟩

/-! ## Runs -/

namespace Graph

variable {g : Graph E W} {c c' : Config W} {as : List (Action E)} {es : List (Event E)}

/-- A run is a run of the cases of a step. -/
theorem Runs.cases (h : g.Runs c as c' es) : Run (Step g) c as c' es :=
  h.mono step_cases

/-- **What holds initially and is kept by every case of a step holds of every run.** -/
theorem Runs.invariant {I : Config W → List (Event E) → Prop} (hinit : I c [])
    (hstep : ∀ {t es a u fs}, I t es → Step g t a u fs → I u (es ++ fs))
    (h : g.Runs c as c' es) : I c' es :=
  h.cases.invariant hinit hstep

end Graph
end OmniCare
