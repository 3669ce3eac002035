import OmniCare.Nodes

/-! # What the nodes do to the history

A node adds messages at the end of the history or rewords the final answer in place
(`Reworded`); no node removes a message or touches another one.  The lemmas here say so
node by node, together with what a node leaves for the node after it.
-/
namespace OmniCare

variable {E W : Type}

/-! ## guard and capture -/

theorem guardNode_allowed {s : AgentState} (h : (screen (lastHuman s.messages)).allowed = true) :
    (guardNode s).messages = s.messages ∧ (guardNode s).guardBlocked = false ∧
      (guardNode s).iterations = 0 := by
  simp [guardNode, h, AgentState.fresh]

theorem guardNode_blocked {s : AgentState} (h : (screen (lastHuman s.messages)).allowed = false) :
    (guardNode s).messages = s.messages ++ [.ai refusal []] ∧
      (guardNode s).guardBlocked = true := by
  simp [guardNode, h, AgentState.fresh, AgentState.say, AgentState.add]

/-- `capture` touches what is pending and what is cited. -/
theorem captureNode_changes (settlement : Option Json → Option Json → Option Split)
    (s : AgentState) : ∃ pendingWrite pendingSettlement retrieved sources,
      captureNode settlement s =
        { s with pendingWrite, pendingSettlement, retrieved, sources } := by
  unfold captureNode
  split
  · exact ⟨_, _, _, _, rfl⟩
  · dsimp only
    split
    · exact ⟨_, _, _, _, rfl⟩
    · split <;> exact ⟨_, _, _, _, rfl⟩

theorem captureNode_messages (settlement : Option Json → Option Json → Option Split)
    (s : AgentState) : (captureNode settlement s).messages = s.messages := by
  obtain ⟨_, _, _, _, h⟩ := captureNode_changes settlement s
  rw [h]

/-- The write that is captured is the first write call of the last message. -/
theorem captureNode_pendingWrite (settlement : Option Json → Option Json → Option Split)
    {s : AgentState} {call : ToolCall}
    (h : (lastCalls s.messages).find? ToolCall.isWrite = some call) :
    (captureNode settlement s).pendingWrite = some call.args := by
  unfold captureNode
  rw [h]
  dsimp only
  split
  · rfl
  · split <;> rfl

/-! ## The tools node -/

/-- The tools node executes calls of the last message, in order. -/
theorem runCalls_sublist (tools : List (Tool E W)) (calls : List ToolCall) (es : List E)
    (t : Tooled) (w : W) : ((runCalls tools calls es t w).2.2.map (·.call)).Sublist calls := by
  induction calls generalizing es t w with
  | nil => exact .slnil
  | cons call calls ih =>
    rw [runCalls.eq_def]
    dsimp only
    split
    · exact (ih ..).cons call
    · exact List.nil_sublist _
    · split
      · exact (List.nil_sublist calls).cons_cons call
      · exact (ih ..).cons_cons call

/-- The tool message that answers a call has the call's id. -/
def Message.Answers (m : Message) (call : ToolCall) : Prop := ∃ content, m = .tool content call.id

theorem exists_answered {ms : List Message} {calls : List ToolCall}
    (h : List.Forall₂ Message.Answers ms calls) {m : Message} (hm : m ∈ ms) :
    ∃ call ∈ calls, m.Answers call := by
  induction h with
  | nil => cases hm
  | cons hx _ ih =>
    rcases List.mem_cons.mp hm with rfl | hm
    · exact ⟨_, List.mem_cons_self, hx⟩
    · obtain ⟨call, hcall, hanswers⟩ := ih hm
      exact ⟨call, List.mem_cons_of_mem _ hcall, hanswers⟩

theorem Tooled.record_outputs {t t' : Tooled} {call : ToolCall} {result : Json}
    {status : ToolStatus} (h : t.record call result status = .ok t') :
    ∃ m : Message, m.Answers call ∧ t'.outputs = t.outputs ++ [m] := by
  obtain ⟨chunks, -, h⟩ := exists_ok_of_bind h
  cases h
  exact ⟨_, ⟨_, rfl⟩, rfl⟩

theorem Tooled.finish_outputs {t t' : Tooled} {call : ToolCall} {outcome : Outcome}
    (h : t.finish call outcome = .ok t') :
    ∃ m : Message, m.Answers call ∧ t'.outputs = t.outputs ++ [m] := by
  cases outcome with
  | returned result => exact record_outputs (ok_of_mapError h)
  | raised e => exact record_outputs (ok_of_mapError h)
  | cancelled => cases h

/-- **The tools node answers every call once, in order.** -/
theorem runCalls_outputs {tools : List (Tool E W)} {calls : List ToolCall} {es : List E}
    {t t' : Tooled} {w w' : W} {xs : List (Execution E)}
    (h : runCalls tools calls es t w = (.ok t', w', xs)) :
    ∃ ms, t'.outputs = t.outputs ++ ms ∧ List.Forall₂ Message.Answers ms calls := by
  induction calls generalizing es t w xs with
  | nil =>
    cases h
    exact ⟨[], by simp, .nil⟩
  | cons call calls ih =>
    rw [runCalls.eq_def] at h
    dsimp only at h
    split at h
    · obtain ⟨ms, houtputs, hms⟩ := ih h
      let unknown : Message := .tool ("Unknown tool ".toList ++ call.name) call.id
      refine ⟨unknown :: ms, ?_, .cons ⟨_, rfl⟩ hms⟩
      rw [houtputs, Tooled.unknown, List.append_assoc]
      rfl
    · cases h
    · split at h
      · cases h
      · rename_i t₁ hfinish
        obtain ⟨m, hm, ht₁⟩ := Tooled.finish_outputs hfinish
        generalize hrest : runCalls tools calls _ t₁ _ = rest at h
        obtain ⟨result, w₂, xs₂⟩ := rest
        cases h
        obtain ⟨ms, houtputs, hms⟩ := ih hrest
        refine ⟨m :: ms, ?_, .cons hm hms⟩
        rw [houtputs, ht₁, List.append_assoc]
        rfl

/-! ## Rewording the final answer -/

/-- A message without its text. -/
def Message.skeleton : Message → Message
  | .system _ => .system []
  | .human _ => .human []
  | .ai _ calls => .ai [] calls
  | .tool _ id => .tool [] id

/-- The history with the final answer in other words, or as it is. -/
inductive Reworded (messages : List Message) : List Message → Prop
  | same : Reworded messages messages
  | reworded {i : Nat} {content : Text} (final : finalAnswer messages = some (i, content))
      (new : Text) : Reworded messages (messages.set i (.ai new []))

/-- `readback` touches the messages. -/
theorem readbackNode_changes (s : AgentState) :
    ∃ messages, readbackNode s = { s with messages } := by
  unfold readbackNode
  split
  · exact ⟨_, rfl⟩
  · split
    · exact ⟨_, rfl⟩
    · split <;> exact ⟨_, rfl⟩

/-- `parse` touches the messages and what the model has said about its answer. -/
theorem parseNode_changes {s s' : AgentState} (h : parseNode s = .ok s') :
    ∃ messages modelConfidence answerUnknown,
      s' = { s with messages, modelConfidence, answerUnknown } := by
  unfold parseNode at h
  split at h
  · cases h
    exact ⟨_, _, _, rfl⟩
  · rename_i content _
    cases hanswer : parseAnswer content with
    | error e => simp [hanswer, Except.map] at h
    | ok answer =>
      simp only [hanswer, Except.map, Except.ok.injEq] at h
      rw [← h]
      split <;> exact ⟨_, _, _, rfl⟩

/-- `ground` touches the messages, the sources and the published confidence. -/
theorem groundNode_changes (s : AgentState) :
    ∃ messages sources answerConfidence confidenceReason, groundNode s =
      { s with messages, sources, answerConfidence, confidenceReason } := by
  unfold groundNode
  split
  · exact ⟨_, _, _, _, rfl⟩
  · dsimp only
    split <;> exact ⟨_, _, _, _, rfl⟩

/-- `format` touches the messages. -/
theorem formatNode_changes (s : AgentState) : ∃ messages, formatNode s = { s with messages } := by
  unfold formatNode
  split
  · exact ⟨_, rfl⟩
  · dsimp only
    split <;> exact ⟨_, rfl⟩

theorem readbackNode_reworded (s : AgentState) :
    Reworded s.messages (readbackNode s).messages := by
  unfold readbackNode
  split
  · exact .same
  · split
    · exact .same
    · rename_i final
      split
      · exact .same
      · exact .reworded final _

theorem parseNode_reworded {s s' : AgentState} (h : parseNode s = .ok s') :
    Reworded s.messages s'.messages := by
  unfold parseNode at h
  split at h
  · cases h
    exact .same
  · rename_i content final
    cases hparse : parseAnswer content with
    | error e => simp [hparse, Except.map] at h
    | ok answer =>
      simp only [hparse, Except.map, Except.ok.injEq] at h
      rw [← h]
      split
      · exact .same
      · exact .reworded final _

theorem groundNode_reworded (s : AgentState) : Reworded s.messages (groundNode s).messages := by
  unfold groundNode
  split
  · exact .same
  · rename_i final
    dsimp only
    split
    · exact .reworded final _
    · exact .same

theorem formatNode_reworded (s : AgentState) : Reworded s.messages (formatNode s).messages := by
  unfold formatNode
  split
  · exact .same
  · rename_i final
    dsimp only
    split
    · exact .same
    · exact .reworded final _

namespace Reworded

variable {messages messages' : List Message}

/-- Rewording changes no message but an answer. -/
theorem getElem? (h : Reworded messages messages') {i : Nat} {m : Message}
    (hm : messages[i]? = some m) (hne : m.isAnswer = false) : messages'[i]? = some m := by
  cases h with
  | same => exact hm
  | @reworded j content final new =>
    have hj := finalAnswer_get final
    rw [List.getElem?_set]
    split
    · rename_i hij
      rw [← hij, hj] at hm
      cases hm
      cases hne
    · exact hm

/-- An answer stays an answer. -/
theorem finalAnswer_isSome (h : Reworded messages messages') :
    (finalAnswer messages').isSome = (finalAnswer messages).isSome := by
  cases h with
  | same => rfl
  | reworded final new => rw [finalAnswer_set final, final]; rfl

/-- Rewording changes the text of a message only. -/
theorem skeleton (h : Reworded messages messages') :
    messages'.map Message.skeleton = messages.map Message.skeleton := by
  cases h with
  | same => rfl
  | reworded final new =>
    refine List.ext_getElem? fun k => ?_
    rw [List.getElem?_map, List.getElem?_map, List.getElem?_set]
    split
    · rename_i hk
      have hi := finalAnswer_get final
      rw [← hk, hi, if_pos (List.getElem?_eq_some_iff.mp hi).1]
      rfl
    · rfl

/-- Rewording leaves what the policyholder has said. -/
theorem humanTexts (h : Reworded messages messages') :
    OmniCare.humanTexts messages' = OmniCare.humanTexts messages := by
  cases h with
  | same => rfl
  | @reworded i content final new =>
    obtain ⟨hlt, hi⟩ := List.getElem?_eq_some_iff.mp (finalAnswer_get final)
    have hat : messages = messages.take i ++ .ai content [] :: messages.drop (i + 1) := by
      rw [← hi, List.getElem_cons_drop, List.take_append_drop]
    have hset : messages.set i (.ai new []) =
        messages.take i ++ .ai new [] :: messages.drop (i + 1) := by
      rw [List.set_eq_take_append_cons_drop, if_pos hlt]
    have without : ∀ m : Message, m.isHuman = false → ∀ before after : List Message,
        OmniCare.humanTexts (before ++ m :: after) = OmniCare.humanTexts (before ++ after) := by
      intro m hm before after
      cases m with
      | human => cases hm
      | _ => simp [OmniCare.humanTexts]
    rw [hset, without _ rfl]
    conv_rhs => rw [hat, without _ rfl]

end Reworded
end OmniCare
