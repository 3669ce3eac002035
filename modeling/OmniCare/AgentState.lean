import OmniCare.Response

/-! # Messages and graph state

`agent/app/graph/state.py` and the message types it is built on.  The model writes to
`messages` only; every other field is written by a deterministic node.

`messages` is merged by LangGraph's `add_messages`: a message whose id is already
present replaces the message that has it, any other message is appended.  The ids are
unique, and the program uses one in a single way, to rewrite the answer it has just
read; so the id of a stored message is represented by its position in the list.
-/
namespace OmniCare

/-- A tool call of an assistant message. -/
structure ToolCall where
  name : Text
  args : Dict
  id : Text
  deriving DecidableEq, Repr

/-- A message of the conversation. -/
inductive Message
  | system (content : Text)
  | human (content : Text)
  | ai (content : Text) (toolCalls : List ToolCall)
  | tool (content : Text) (toolCallId : Text)
  deriving DecidableEq, Repr

namespace Message

/-- `m.type == "human"`. -/
def isHuman : Message → Bool
  | human _ => true
  | _ => false

/-- `m.type == "system"`. -/
def isSystem : Message → Bool
  | system _ => true
  | _ => false

/-- The content of a message with `m.type == "ai" and not m.tool_calls`: an answer. -/
def answer? : Message → Option Text
  | ai content [] => some content
  | _ => none

/-- `m.type == "ai" and not m.tool_calls`. -/
def isAnswer (m : Message) : Bool := m.answer?.isSome

/-- `getattr(m, "tool_calls", None) or []`. -/
def toolCalls : Message → List ToolCall
  | ai _ calls => calls
  | _ => []

end Message

/-- The texts of the human messages. -/
def humanTexts (messages : List Message) : List Text :=
  messages.filterMap fun
    | .human content => some content
    | _ => none

/-- The text of the last human message, empty if there is none. -/
def lastHuman (messages : List Message) : Text := (humanTexts messages).getLast?.getD []

/-- `final`: the last assistant message without tool calls, as its id and content. -/
def finalAnswer : List Message → Option (Nat × Text)
  | [] => none
  | m :: rest =>
      match finalAnswer rest with
      | some (i, content) => some (i + 1, content)
      | none => m.answer?.map (0, ·)

/-- The tool calls of the last message: `messages[-1].tool_calls`. -/
def lastCalls (messages : List Message) : List ToolCall :=
  (messages.getLast?.map Message.toolCalls).getD []

/-! ## Retrieved sections and tool invocations -/

/-- `format_citation`. -/
def formatCitation (sourceFile sectionTitle : Text) : Text :=
  sourceFile ++ " § ".toList ++ sectionTitle

/-- `libs.contracts.Chunk`: a section of the policy, with its citation. -/
structure Chunk where
  chunkId : Text
  text : Text
  sourceFile : Text
  sectionId : Text
  sectionTitle : Text
  charStart : Nat
  charEnd : Nat
  score : Json := .null
  citation : Text
  deriving DecidableEq, Repr

/-- The validator of `Chunk`: an empty citation is filled in. -/
def Chunk.fill (c : Chunk) : Chunk :=
  if c.citation.isEmpty then { c with citation := formatCitation c.sourceFile c.sectionTitle }
  else c

/-- `libs.contracts.ToolStatus`, the two values the tools node writes. -/
inductive ToolStatus
  | ok
  | error
  deriving DecidableEq, Repr

/-- `libs.contracts.ToolCall`: a tool invocation, as the state records it. -/
structure Invocation where
  name : Text
  arguments : Dict
  result : Dict
  status : ToolStatus
  deriving DecidableEq, Repr

/-- The payment split `capture` leaves for the confirmation: `as_dict()` with
`payment_summary`. -/
structure PendingSettlement where
  fields : Dict
  paymentSummary : Text
  deriving DecidableEq, Repr

/-! ## The state -/

/-- `AgentState`.  A key that no node has written yet reads as the default that the
nodes give it in `state.get`. -/
structure AgentState where
  messages : List Message := []
  userId : Text := []
  conversationId : Text := []
  channel : Channel := .text
  sttConfidence : Option ℚ := none
  retrieved : List Chunk := []
  sources : List Text := []
  answerConfidence : Option PyFloat := none
  modelConfidence : Option PyFloat := none
  answerUnknown : Bool := false
  confidenceReason : Option Text := none
  toolInvocations : List Invocation := []
  guardBlocked : Bool := false
  guardRule : Option Text := none
  guardFlagged : Bool := false
  pendingWrite : Option Dict := none
  pendingSettlement : Option PendingSettlement := none
  confirmationTier : Nat := 0
  iterations : Nat := 0
  stoppedReason : Option Text := none
  deriving DecidableEq

namespace AgentState

/-- The update of a node that adds messages. -/
def add (s : AgentState) (new : List Message) : AgentState :=
  { s with messages := s.messages ++ new }

/-- The update of a node that adds an assistant message without tool calls. -/
def say (s : AgentState) (content : Text) : AgentState := s.add [.ai content []]

/-- The update of a node that rewrites the answer that has a given id. -/
def rewrite (s : AgentState) (id : Nat) (content : Text) : AgentState :=
  { s with messages := s.messages.set id (.ai content []) }

@[simp] theorem messages_add (s : AgentState) (new : List Message) :
    (s.add new).messages = s.messages ++ new := rfl

@[simp] theorem messages_say (s : AgentState) (content : Text) :
    (s.say content).messages = s.messages ++ [.ai content []] := rfl

@[simp] theorem messages_rewrite (s : AgentState) (id : Nat) (content : Text) :
    (s.rewrite id content).messages = s.messages.set id (.ai content []) := rfl

end AgentState

/-! ## Searching the history -/

@[simp] theorem lastCalls_append_singleton (messages : List Message) (m : Message) :
    lastCalls (messages ++ [m]) = m.toolCalls := by
  simp [lastCalls]

theorem Message.answer?_eq_some {m : Message} {content : Text} (h : m.answer? = some content) :
    m = .ai content [] := by
  match m, h with
  | .ai _ [], rfl => rfl

theorem finalAnswer_cons (m : Message) (rest : List Message) :
    finalAnswer (m :: rest) =
      ((finalAnswer rest).map fun final => (final.1 + 1, final.2)).or (m.answer?.map (0, ·)) := by
  rw [finalAnswer]
  cases finalAnswer rest <;> rfl

/-- The final answer stands in the history under its id. -/
theorem finalAnswer_get {messages : List Message} {i : Nat} {content : Text}
    (h : finalAnswer messages = some (i, content)) : messages[i]? = some (.ai content []) := by
  induction messages generalizing i with
  | nil => cases h
  | cons m rest ih =>
    rw [finalAnswer_cons] at h
    cases hrest : finalAnswer rest with
    | some final =>
      rw [hrest] at h
      cases h
      exact ih hrest
    | none =>
      rw [hrest] at h
      obtain ⟨c, hc, heq⟩ := Option.map_eq_some_iff.mp h
      cases heq
      rw [Message.answer?_eq_some hc]
      rfl

/-- There is a final answer exactly when some message is one. -/
theorem finalAnswer_isSome (messages : List Message) :
    (finalAnswer messages).isSome = messages.any Message.isAnswer := by
  induction messages with
  | nil => rfl
  | cons m rest ih =>
    rw [List.any_cons, ← ih, finalAnswer_cons]
    cases finalAnswer rest <;> simp [Message.isAnswer]

/-- Once the final answer is rewritten, it is the final answer in its new words. -/
theorem finalAnswer_set {messages : List Message} {i : Nat} {content : Text}
    (h : finalAnswer messages = some (i, content)) (new : Text) :
    finalAnswer (messages.set i (.ai new [])) = some (i, new) := by
  induction messages generalizing i with
  | nil => cases h
  | cons m rest ih =>
    rw [finalAnswer_cons] at h
    cases hrest : finalAnswer rest with
    | some final =>
      rw [hrest] at h
      cases h
      rw [List.set_cons_succ, finalAnswer_cons, ih hrest]
      rfl
    | none =>
      rw [hrest] at h
      obtain ⟨c, -, heq⟩ := Option.map_eq_some_iff.mp h
      cases heq
      rw [List.set_cons_zero, finalAnswer_cons, hrest]
      rfl

/-- A new answer is the final one. -/
theorem finalAnswer_append_answer (messages : List Message) (content : Text) :
    finalAnswer (messages ++ [.ai content []]) = some (messages.length, content) := by
  induction messages with
  | nil => rfl
  | cons m rest ih => rw [List.cons_append, finalAnswer_cons, ih]; rfl

/-- A message that is not an answer leaves the final answer as it is. -/
theorem finalAnswer_append_other (messages : List Message) {m : Message}
    (hm : m.isAnswer = false) : finalAnswer (messages ++ [m]) = finalAnswer messages := by
  have hnone : m.answer? = none := by simpa [Message.isAnswer] using hm
  induction messages with
  | nil => rw [List.nil_append, finalAnswer_cons, hnone]; rfl
  | cons x rest ih => rw [List.cons_append, finalAnswer_cons, finalAnswer_cons, ih]

theorem mem_humanTexts {messages : List Message} {content : Text} :
    content ∈ humanTexts messages ↔ .human content ∈ messages := by
  rw [humanTexts, List.mem_filterMap]
  constructor
  · rintro ⟨m, hm, heq⟩
    cases m with
    | human c =>
      cases heq
      exact hm
    | _ => cases heq
  · exact fun h => ⟨_, h, rfl⟩

/-- The last human message is one of the history, unless it has none. -/
theorem human_lastHuman_mem {messages : List Message} (h : lastHuman messages ≠ []) :
    .human (lastHuman messages) ∈ messages := by
  rw [← mem_humanTexts]
  unfold lastHuman at h ⊢
  cases hlast : (humanTexts messages).getLast? with
  | none => exact absurd (by rw [hlast]; rfl) h
  | some content => exact List.mem_of_getLast? hlast

end OmniCare
