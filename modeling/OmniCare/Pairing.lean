import OmniCare.Steps

/-! # Tool calls and the messages that answer them

A model accepts a history in which each tool call of an assistant message is answered by
one tool message with its id, before the next human or assistant message (`Paired`).  The
tools node answers every call of the last message once, so it completes the history that
the reply opened.  Three things break it for good: a reply that uses one id twice, a
confirmation that leads away from the tools, and a new turn on a thread that stood between
a reply and its tools (`Event.breaks`).  Before every call of the model the history is
paired exactly if none of them has happened.
-/
namespace OmniCare

variable {E W : Type}

/-! ## Paired histories -/

/-- A human or an assistant message. -/
def Message.takesTurn : Message → Bool
  | .human _ | .ai .. => true
  | _ => false

/-- A tool message with a given id. -/
def Message.answersId (id : Text) : Message → Bool
  | .tool _ i => i = id
  | _ => false

/-- The messages before the next human or assistant message. -/
def window (rest : List Message) : List Message := rest.takeWhile fun m => !m.takesTurn

/-- Each tool call of each assistant message is answered exactly once, in time. -/
def Paired : List Message → Prop
  | [] => True
  | m :: rest =>
      (∀ call ∈ m.toolCalls, (window rest).countP (Message.answersId call.id) = 1) ∧ Paired rest

instance decidablePaired : (messages : List Message) → Decidable (Paired messages)
  | [] => inferInstanceAs (Decidable True)
  | _ :: rest =>
      have := decidablePaired rest
      inferInstanceAs (Decidable (_ ∧ Paired rest))

@[simp] theorem skeleton_takesTurn (m : Message) : m.skeleton.takesTurn = m.takesTurn := by
  cases m <;> rfl

@[simp] theorem skeleton_toolCalls (m : Message) : m.skeleton.toolCalls = m.toolCalls := by
  cases m <;> rfl

@[simp] theorem skeleton_answersId (m : Message) (id : Text) :
    m.skeleton.answersId id = m.answersId id := by
  cases m <;> rfl

theorem window_skeleton (rest : List Message) :
    window (rest.map Message.skeleton) = (window rest).map Message.skeleton := by
  simp [window, List.takeWhile_map, Function.comp_def]

/-- Pairing depends on the skeletons of the messages only. -/
theorem paired_skeleton (messages : List Message) :
    Paired (messages.map Message.skeleton) ↔ Paired messages := by
  induction messages with
  | nil => rfl
  | cons m rest ih =>
    rw [List.map_cons, Paired, Paired, ih, window_skeleton]
    simp [List.countP_map, Function.comp_def]

theorem paired_congr {messages messages' : List Message}
    (h : messages.map Message.skeleton = messages'.map Message.skeleton) :
    Paired messages ↔ Paired messages' := by
  rw [← paired_skeleton messages, h, paired_skeleton]

/-- Eliding stale tool output pairs nothing and unpairs nothing. -/
theorem paired_withoutStaleToolOutput (messages : List Message) :
    Paired (withoutStaleToolOutput messages) ↔ Paired messages := by
  refine paired_congr ?_
  induction messages with
  | nil => rfl
  | cons m rest ih =>
    rw [withoutStaleToolOutput, List.map_cons, List.map_cons, ih]
    cases m <;> rfl

theorem paired_modelInput (s : AgentState) : Paired (modelInput s) ↔ Paired s.messages := by
  unfold modelInput
  rw [paired_withoutStaleToolOutput]
  split
  · rfl
  · rw [Paired]
    simp [Message.toolCalls]

/-- Rewording the answer pairs nothing and unpairs nothing. -/
theorem Reworded.paired {messages messages' : List Message} (h : Reworded messages messages') :
    Paired messages' ↔ Paired messages := paired_congr h.skeleton

/-! ## Adding to a history -/

/-- A human or assistant message closes the window of every message before it. -/
theorem window_append {m : Message} (hm : m.takesTurn = true) (rest tail : List Message) :
    window (rest ++ m :: tail) = window rest := by
  induction rest with
  | nil => simp [window, hm]
  | cons x rest ih =>
    unfold window at ih ⊢
    rw [List.cons_append, List.takeWhile_cons, List.takeWhile_cons, ih]

/-- A history is paired if it is on both sides of a human or assistant message. -/
theorem paired_append {m : Message} (hm : m.takesTurn = true) (messages tail : List Message) :
    Paired (messages ++ m :: tail) ↔ Paired messages ∧ Paired (m :: tail) := by
  induction messages with
  | nil => simp [Paired]
  | cons x rest ih =>
    rw [List.cons_append, Paired, Paired, ih, window_append hm, and_assoc]

/-- A message without tool calls that closes the windows changes nothing. -/
theorem paired_append_singleton {m : Message} (hm : m.takesTurn = true)
    (hcalls : m.toolCalls = []) (messages : List Message) :
    Paired (messages ++ [m]) ↔ Paired messages := by
  rw [paired_append hm, Paired, hcalls]
  simp [Paired]

/-- Calls that are followed by a human or assistant message at once stay unanswered. -/
theorem not_paired_of_abandoned {content : Text} {calls : List ToolCall} (hcalls : calls ≠ [])
    (messages : List Message) {tail : List Message} (htail : window tail = []) :
    ¬ Paired (messages ++ .ai content calls :: tail) := by
  rw [paired_append rfl, Paired, htail]
  obtain ⟨call, hcall⟩ := List.exists_mem_of_ne_nil calls hcalls
  rintro ⟨-, hanswered, -⟩
  cases hanswered call hcall

/-- The answers of the tools node, by their ids. -/
theorem answers_ids {ms : List Message} {calls : List ToolCall}
    (h : List.Forall₂ Message.Answers ms calls) (id : Text) :
    ms.countP (Message.answersId id) = (calls.map (·.id)).count id := by
  induction h with
  | nil => rfl
  | cons hm _ ih =>
    obtain ⟨content, rfl⟩ := hm
    rw [List.countP_cons, List.map_cons, List.count_cons, ih]
    simp [Message.answersId]

/-- **Answered by the tools node, a reply keeps the history paired exactly if its calls have
different ids.** -/
theorem paired_append_answers {content : Text} {calls : List ToolCall} {ms : List Message}
    (h : List.Forall₂ Message.Answers ms calls) (messages : List Message) :
    Paired (messages ++ .ai content calls :: ms) ↔
      Paired messages ∧ (calls.map (·.id)).Nodup := by
  have htools : ∀ m ∈ ms, ∃ content id, m = .tool content id := by
    intro m hm
    obtain ⟨call, -, content, rfl⟩ := exists_answered h hm
    exact ⟨content, call.id, rfl⟩
  have hwindow : window ms = ms := by
    refine List.takeWhile_eq_self_iff.mpr fun m hm => ?_
    obtain ⟨content, id, rfl⟩ := htools m hm
    rfl
  have hpaired : Paired ms := by
    clear h hwindow
    induction ms with
    | nil => trivial
    | cons m rest ih =>
      obtain ⟨content, id, rfl⟩ := htools m List.mem_cons_self
      exact ⟨nofun, ih fun m hm => htools m (List.mem_cons_of_mem _ hm)⟩
  rw [paired_append rfl, Paired, hwindow, List.nodup_iff_count_eq_one]
  simp [Message.toolCalls, answers_ids h, hpaired]

/-! ## What breaks a history -/

/-- Whether a thread stands between a reply and its tools. -/
def Next.isOpen : Next → Bool
  | .at .capture | .at .confirm | .at .tools | .paused _ => true
  | _ => false

/-- The events after which the history cannot be paired any more. -/
def Event.breaks : Event E → Bool
  | .gateClosed _ => true
  | .turnStarted _ left => left.isOpen
  | .replied r => ¬ (r.toolCalls.map (·.id)).Nodup
  | _ => false

/-- The history of a thread has been broken. -/
def broken (es : List (Event E)) : Bool := es.any Event.breaks

theorem broken_append (es fs : List (Event E)) : broken (es ++ fs) = (broken es || broken fs) :=
  List.any_append

theorem broken_publish (runId : Text) (seq : Nat) (es : List RunEvent) :
    broken (publish runId seq es : List (Event E)) = false := by
  rw [broken, List.any_eq_false]
  intro x hx
  obtain ⟨i, e, -, rfl⟩ := mem_publish hx
  exact nofun

/-- The last message is a reply whose calls are not answered yet; `intact` says whether the
history can still be completed. -/
def Hanging (messages : List Message) (intact : Prop) : Prop :=
  ∃ before content calls, messages = before ++ [.ai content calls] ∧ calls ≠ [] ∧
    (Paired before ∧ (calls.map (·.id)).Nodup ↔ intact)

/-- The history of a thread is paired as long as nothing has broken it. -/
def Consistent (c : Config W) (es : List (Event E)) : Prop :=
  if c.next.isOpen then Hanging c.state.messages (broken es = false)
  else (Paired c.state.messages ↔ broken es = false)

/-- A step that breaks nothing and leaves the history and the kind of place as they are. -/
theorem consistent_of_quiet {c c' : Config W} {es fs : List (Event E)} (hc : Consistent c es)
    (hfs : broken fs = false) (hnext : c'.next.isOpen = c.next.isOpen)
    (hmessages : c'.state.messages = c.state.messages) : Consistent c' (es ++ fs) := by
  unfold Consistent at hc ⊢
  rwa [hnext, hmessages, broken_append, hfs, Bool.or_false]

/-- A step outside a reply and its tools that changes nothing about the pairing. -/
theorem consistent_of_paired {c c' : Config W} {es fs : List (Event E)} (hc : Consistent c es)
    (hfs : broken fs = false) (hclosed : c.next.isOpen = false)
    (hclosed' : c'.next.isOpen = false)
    (hpaired : Paired c'.state.messages ↔ Paired c.state.messages) :
    Consistent c' (es ++ fs) := by
  unfold Consistent at hc ⊢
  rw [hclosed] at hc
  rw [hclosed', broken_append, hfs, Bool.or_false]
  exact hpaired.trans hc

/-- A reply that is abandoned is a broken history. -/
theorem consistent_of_abandoned {c c' : Config W} {es fs : List (Event E)}
    (hc : Consistent c es) (hopen : c.next.isOpen = true) (hclosed' : c'.next.isOpen = false)
    {tail : List Message} (htail : window tail = [])
    (hmessages : c'.state.messages = c.state.messages ++ tail) (hfs : broken fs = true) :
    Consistent c' (es ++ fs) := by
  unfold Consistent at hc ⊢
  rw [hopen] at hc
  obtain ⟨before, content, calls, hbefore, hcalls, -⟩ := hc
  rw [hclosed', broken_append, hfs, Bool.or_true, hmessages, hbefore, List.append_assoc]
  simp [not_paired_of_abandoned hcalls before htail]

/-- A confirmation that lets a write through, to the tools or, without arguments, past them. -/
theorem consistent_of_pass {c c' : Config W} {es fs : List (Event E)} (hc : Consistent c es)
    (here : c.At .confirm) (hfs : broken fs = c.state.pending.isEmpty)
    (hnext : c'.next = .at (routeAfterConfirm c.state.passGate))
    (hmessages : c'.state.messages = c.state.messages) : Consistent c' (es ++ fs) := by
  have hopen : c.next.isOpen = true := by
    rw [here.2]
    rfl
  have hpending : c.state.passGate.pending = c.state.pending := rfl
  rw [routeAfterConfirm, hpending] at hnext
  cases hempty : c.state.pending.isEmpty with
  | true =>
    rw [hempty] at hnext hfs
    have htail : window [] = [] := rfl
    refine consistent_of_abandoned hc hopen (by rw [hnext]; rfl) htail ?_ hfs
    rw [hmessages, List.append_nil]
  | false =>
    rw [hempty] at hnext hfs
    exact consistent_of_quiet hc hfs (by rw [hnext, hopen]; rfl) hmessages

theorem broken_passing (s : AgentState) :
    broken (s.passing : List (Event E)) = s.pending.isEmpty := by
  unfold AgentState.passing
  cases s.pending.isEmpty <;> rfl

theorem broken_executed (xs : List (Execution E)) :
    broken (xs.map .executed : List (Event E)) = false := by
  simp [broken, Event.breaks]

theorem broken_replied (s : AgentState) (r : Reply) :
    broken ([.sent (modelInput s), .replied r] : List (Event E)) = false ↔
      (r.toolCalls.map (·.id)).Nodup := by
  simp [broken, Event.breaks]

/-- **The history stays paired as long as nothing breaks it**, step by step. -/
theorem consistent_step {g : Graph E W} {c c' : Config W} {a : Action E} {es fs : List (Event E)}
    (hc : Consistent c es) (hs : Step g c a c' fs) : Consistent c' (es ++ fs) := by
  cases hs with
  | expired => exact consistent_of_quiet hc (broken_publish ..) rfl rfl
  | resume =>
    refine consistent_of_quiet hc ?_ ?_ rfl
    · rw [broken_append, broken_publish]
      rfl
    · show c.next.continued.isOpen = c.next.isOpen
      cases c.next <;> rfl
  | @turn j =>
    have hfs : broken (publish j.runId 0 [.started] ++ [.turnStarted j.message c.next] :
        List (Event E)) = c.next.isOpen := by
      rw [broken_append, broken_publish]
      simp [broken, Event.breaks]
    cases hopen : c.next.isOpen with
    | true => exact consistent_of_abandoned hc hopen rfl rfl rfl (hfs.trans hopen)
    | false =>
      exact consistent_of_paired hc (hfs.trans hopen) hopen rfl (paired_append_singleton rfl rfl _)
  | guard here =>
    have hclosed' : (Next.at (routeAfterGuard (guardNode c.state))).isOpen = false := by
      unfold routeAfterGuard
      split <;> rfl
    refine consistent_of_paired hc rfl (by rw [here.2]; rfl) hclosed' ?_
    show Paired (guardNode c.state).messages ↔ _
    cases hscreen : (screen (lastHuman c.state.messages)).allowed with
    | true => rw [(guardNode_allowed hscreen).1]
    | false =>
      rw [(guardNode_blocked hscreen).1]
      exact paired_append_singleton rfl rfl _
  | stop here =>
    exact consistent_of_paired hc rfl (by rw [here.2]; rfl) rfl (paired_append_singleton rfl rfl _)
  | @reply r here =>
    unfold Consistent at hc
    rw [here.2] at hc
    have hc : Paired c.state.messages ↔ broken es = false := hc
    have hcalls : lastCalls (agentNode c.state r).messages = r.toolCalls :=
      lastCalls_append_singleton _ _
    show Consistent (c.goto (routeAfterAgent _) _) _
    unfold Consistent
    rw [broken_append, Bool.or_eq_false_iff, broken_replied, ← hc]
    by_cases hnone : r.toolCalls = []
    · have hroute : routeAfterAgent (agentNode c.state r) = .readback := by
        rw [routeAfterAgent, hcalls, hnone]
        rfl
      rw [hroute, hnone]
      show Paired (c.state.messages ++ [.ai r.content r.toolCalls]) ↔ _
      rw [hnone, paired_append_singleton rfl rfl]
      simp
    · have hroute : (Next.at (routeAfterAgent (agentNode c.state r))).isOpen = true := by
        unfold routeAfterAgent
        rw [hcalls]
        dsimp only
        rw [if_neg (by simpa using hnone)]
        split <;> rfl
      show if (Next.at (routeAfterAgent _)).isOpen = true then _ else _
      rw [if_pos hroute]
      exact ⟨_, _, _, rfl, hnone, Iff.rfl⟩
  | capture here =>
    exact consistent_of_quiet hc rfl (by rw [here.2]; rfl) (captureNode_messages ..)
  | gateOff here => exact consistent_of_pass hc here (broken_passing _) rfl rfl
  | refused here =>
    exact consistent_of_abandoned hc (by rw [here.2]; rfl) rfl rfl rfl rfl
  | asked here =>
    refine consistent_of_quiet hc ?_ (by rw [here.2]; rfl) rfl
    show (false || broken (_ ++ _)) = false
    rw [broken_append, broken_publish]
    rfl
  | approved here => exact consistent_of_pass hc here (broken_passing _) rfl rfl
  | declined here =>
    exact consistent_of_abandoned hc (by rw [here.2]; rfl) rfl rfl rfl rfl
  | @tools answers t w xs here ran =>
    unfold Consistent at hc
    rw [here.2] at hc
    obtain ⟨before, content, calls, hbefore, -, hintact⟩ := hc
    obtain ⟨ms, houtputs, hms⟩ := runCalls_outputs ran
    have hcalls : lastCalls c.state.messages = calls := by
      rw [hbefore]
      exact lastCalls_append_singleton _ _
    rw [hcalls] at hms
    show Paired (c.state.messages ++ t.outputs) ↔ _
    rw [houtputs, List.nil_append, hbefore, List.append_assoc, broken_append, broken_executed,
      Bool.or_false, ← hintact]
    exact paired_append_answers hms before
  | toolsFailed =>
    refine consistent_of_quiet hc ?_ rfl rfl
    rw [broken_append, broken_append, broken_executed, broken_publish]
    rfl
  | readback here =>
    exact consistent_of_paired hc rfl (by rw [here.2]; rfl) rfl (readbackNode_reworded _).paired
  | parse here parsed =>
    exact consistent_of_paired hc rfl (by rw [here.2]; rfl) rfl (parseNode_reworded parsed).paired
  | ground here =>
    exact consistent_of_paired hc rfl (by rw [here.2]; rfl) rfl (groundNode_reworded _).paired
  | format here =>
    refine consistent_of_paired hc ?_ (by rw [here.2]; rfl) rfl (formatNode_reworded _).paired
    rw [broken_append, broken_publish]
    rfl
  | crash =>
    refine consistent_of_quiet hc ?_ rfl rfl
    rw [broken_append, broken_publish]
    rfl

/-- **The list of messages sent in a call of the model is paired exactly if nothing has broken
the history before**: no confirmation has led away from the tools, no new turn has begun
between a reply and its tools, and no reply has used one id twice. -/
theorem sent_paired_iff {g : Graph E W} {w : W} {as : List (Action E)} {c : Config W}
    {es : List (Event E)} (h : g.Runs (newThread w) as c es) {ms : List Message}
    (hs : Sends g c ms) : Paired ms ↔ broken es = false := by
  obtain ⟨here, rfl⟩ := eq_modelInput_of_sends hs
  have hinit : Consistent (newThread w) ([] : List (Event E)) := iff_of_true trivial rfl
  have hc : Consistent c es := h.invariant hinit consistent_step
  unfold Consistent at hc
  rw [here.2] at hc
  rw [paired_modelInput]
  exact hc

/-- The first message of a thread is sent in a paired list. -/
theorem first_sent_paired :
    ∃ c es, bareGraph.Runs (newThread ())
        [.job { runId := "r1", message := "Hello" } 0 true, .go] c es ∧
      Sends bareGraph c (modelInput c.state) ∧ Paired (modelInput c.state) := by
  obtain ⟨c, es, h, hp⟩ := exists_run_of_play bareGraph.step (newThread ())
    [.job { runId := "r1", message := "Hello" } 0 true, .go]
    (fun c es => c.running.isSome ∧ c.next = .at .agent ∧ bareGraph.capped c.state = false ∧
      broken es = false) (by decide +kernel)
  obtain ⟨hrun, hnext, hcap, hintact⟩ := of_decide_eq_true hp
  have hs := sends_modelInput ⟨hrun, hnext⟩ hcap
  exact ⟨c, es, h, hs, (sent_paired_iff h hs).mpr hintact⟩

/-- After a confirmation is declined, the next call of the model has an unanswered tool call
in its history. -/
theorem sent_unpaired_after_decline :
    ∃ c es ms, (filingGraph true).Runs (newThread 0)
        [.job { runId := "r1", message := "File $1200 on POL-1092" } 0 true, .go,
          .reply ⟨[], [filingCall "a"]⟩, .settle (), .go,
          .job { runId := "r2", message := "no" } 0 true, .go, .go, .go, .go,
          .job { runId := "r3", message := "Hello" } 0 true, .go] c es ∧
      Sends (filingGraph true) c ms ∧ ¬ Paired ms := by
  obtain ⟨c, es, h, hp⟩ := exists_run_of_play (filingGraph true).step (newThread 0)
    [.job { runId := "r1", message := "File $1200 on POL-1092" } 0 true, .go,
      .reply ⟨[], [filingCall "a"]⟩, .settle (), .go,
      .job { runId := "r2", message := "no" } 0 true, .go, .go, .go, .go,
      .job { runId := "r3", message := "Hello" } 0 true, .go]
    (fun c es => c.running.isSome ∧ c.next = .at .agent ∧
      (filingGraph true).capped c.state = false ∧ ¬ Paired c.state.messages) (by decide +kernel)
  obtain ⟨hrun, hnext, hcap, hunpaired⟩ := of_decide_eq_true hp
  refine ⟨c, es, _, h, sends_modelInput ⟨hrun, hnext⟩ hcap, ?_⟩
  rwa [paired_modelInput]

end OmniCare
