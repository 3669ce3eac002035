import OmniCare.Steps

/-! # Tool results of earlier turns

`_without_stale_tool_output` over the messages as LangChain keeps them, each with its `id`.  A tool
result is stale when a human message stands behind it.  The function goes by the index of the last
human message; without the ids it is `withoutStaleToolOutput` (`map_elideStale`).

**Two histories that differ in nothing but stale results reach the model alike**
(`stale_results_elided`).
-/
namespace OmniCare

variable {E W : Type}

/-- The `type` of a message. -/
inductive MessageType
  | system
  | human
  | ai
  | tool
  deriving DecidableEq, Repr

namespace Message

/-- `m.type`. -/
def type : Message → MessageType
  | system _ => .system
  | human _ => .human
  | ai .. => .ai
  | tool .. => .tool

/-- `m.content`. -/
def content : Message → Text
  | system content | human content | ai content _ | tool content _ => content

/-- `getattr(m, "tool_call_id", "")`. -/
def toolCallId : Message → Text
  | tool _ id => id
  | _ => []

theorem isHuman_iff {m : Message} : m.isHuman = true ↔ m.type = .human := by
  cases m <;> simp [isHuman, type]

end Message

/-- A message with its `id`. -/
structure HistoryMessage where
  id : Option Text := none
  message : Message
  deriving DecidableEq, Repr

/-- `ToolMessage(content=STALE_TOOL_RESULT, ...)`, with the ids of a message. -/
def HistoryMessage.elided (m : HistoryMessage) : HistoryMessage :=
  { id := m.id, message := .tool staleToolResult m.message.toolCallId }

/-- `last_human`: the index of the last human message, or `-1`. -/
def lastHumanIndex (messages : List HistoryMessage) : Int :=
  (((messages.zipIdx.filter fun e => e.1.message.type = .human).map fun e => (e.2 : Int)).max?).getD
    (-1)

/-- `_without_stale_tool_output`. -/
def elideStale (messages : List HistoryMessage) : List HistoryMessage :=
  messages.zipIdx.map fun (m, i) =>
    if (i : Int) < lastHumanIndex messages ∧ m.message.type = .tool ∧
        m.message.content ≠ staleToolResult then m.elided
    else m

/-- What the agent node sends to the model on a channel. -/
def agentInput (channel : Channel) (messages : List HistoryMessage) : List HistoryMessage :=
  elideStale (if messages.any (·.message.type = .system) then messages
    else ⟨none, .system (promptFor channel)⟩ :: messages)

/-! ## What is promised -/

/-- A human message stands behind the place. -/
def HumanBehind (messages : List HistoryMessage) (i : Nat) : Prop :=
  ∃ j, i < j ∧ ∃ m, messages[j]? = some m ∧ m.message.type = .human

/-- The place has a tool message of an earlier turn. -/
def StaleAt (messages : List HistoryMessage) (i : Nat) (m : HistoryMessage) : Prop :=
  m.message.type = .tool ∧ HumanBehind messages i

/-- The two are the same message, but for the content. -/
def HistoryMessage.SameBut (m m' : HistoryMessage) : Prop :=
  m'.id = m.id ∧ m'.message.type = m.message.type ∧ m'.message.toolCallId = m.message.toolCallId

/-- Length and order are kept, and so is every message, but for the contents of the tool messages
of earlier turns. -/
structure Elides (messages trimmed : List HistoryMessage) : Prop where
  length : trimmed.length = messages.length
  stale : ∀ i m, messages[i]? = some m → StaleAt messages i m →
    ∃ m', trimmed[i]? = some m' ∧ m.SameBut m' ∧ m'.message.content = staleToolResult
  kept : ∀ i m, messages[i]? = some m → ¬ StaleAt messages i m → trimmed[i]? = some m

/-- The histories differ in nothing but the contents of tool messages of earlier turns. -/
structure AlikeButStale (messages other : List HistoryMessage) : Prop where
  length : other.length = messages.length
  each : ∀ i m m', messages[i]? = some m → other[i]? = some m' →
    m' = m ∨ StaleAt messages i m ∧ m.SameBut m'

/-! ## Where the last human message stands -/

theorem lt_lastHumanIndex_iff {messages : List HistoryMessage} {i : Nat} :
    (i : Int) < lastHumanIndex messages ↔ HumanBehind messages i := by
  have hmem : ∀ j : Int, j ∈ (messages.zipIdx.filter fun e => e.1.message.type = .human).map
        (fun e => (e.2 : Int)) ↔
      ∃ n : Nat, (n : Int) = j ∧ ∃ m, messages[n]? = some m ∧ m.message.type = .human := by
    intro j
    simp only [List.mem_map, List.mem_filter, decide_eq_true_eq, Prod.exists,
      List.mem_zipIdx_iff_getElem?]
    constructor
    · rintro ⟨m, n, ⟨hget, hhuman⟩, rfl⟩
      exact ⟨n, rfl, m, hget, hhuman⟩
    · rintro ⟨n, rfl, m, hget, hhuman⟩
      exact ⟨m, n, ⟨hget, hhuman⟩, rfl⟩
  unfold lastHumanIndex
  constructor
  · intro hlt
    cases hmax : ((messages.zipIdx.filter fun e => e.1.message.type = .human).map
        fun e => (e.2 : Int)).max? with
    | none =>
      rw [hmax] at hlt
      simp only [Option.getD_none] at hlt
      omega
    | some j =>
      rw [hmax, Option.getD_some] at hlt
      obtain ⟨n, rfl, m, hget, hhuman⟩ := (hmem j).mp (List.max?_eq_some_iff.mp hmax).1
      exact ⟨n, by omega, m, hget, hhuman⟩
  · rintro ⟨n, hlt, m, hget, hhuman⟩
    have hin := (hmem n).mpr ⟨n, rfl, m, hget, hhuman⟩
    cases hmax : ((messages.zipIdx.filter fun e => e.1.message.type = .human).map
        fun e => (e.2 : Int)).max? with
    | none =>
      rw [List.max?_eq_none_iff.mp hmax] at hin
      cases hin
    | some j =>
      have hle := (List.max?_eq_some_iff.mp hmax).2 _ hin
      rw [Option.getD_some]
      omega

theorem humanBehind_cons_succ {m : HistoryMessage} {messages : List HistoryMessage} {i : Nat} :
    HumanBehind (m :: messages) (i + 1) ↔ HumanBehind messages i := by
  constructor
  · rintro ⟨j, hlt, h, hget, hhuman⟩
    obtain ⟨k, rfl⟩ := Nat.exists_eq_add_of_lt hlt
    exact ⟨i + k + 1, by omega, h, by simpa [Nat.add_right_comm _ 1] using hget, hhuman⟩
  · rintro ⟨j, hlt, h, hget, hhuman⟩
    exact ⟨j + 1, by omega, h, by simpa using hget, hhuman⟩

/-! ## Elision -/

section
variable {messages other : List HistoryMessage} {i : Nat} {m : HistoryMessage}

theorem HistoryMessage.sameBut_elided (h : m.message.type = .tool) : m.SameBut m.elided :=
  ⟨rfl, h.symm, rfl⟩

theorem HistoryMessage.SameBut.elided {m' : HistoryMessage} (h : m.SameBut m') :
    m'.elided = m.elided := by
  unfold HistoryMessage.elided
  rw [h.1, h.2.2]

/-- A tool message whose content is elided already is what it would be replaced by. -/
theorem HistoryMessage.elided_of_content (h : m.message.type = .tool)
    (hcontent : m.message.content = staleToolResult) : m.elided = m := by
  obtain ⟨id, message⟩ := m
  cases message with
  | tool content callId =>
    obtain rfl : content = staleToolResult := hcontent
    rfl
  | _ => cases h

/-- **What stands at a place afterwards.** -/
theorem elideStale_getElem? (hget : messages[i]? = some m) :
    (StaleAt messages i m → (elideStale messages)[i]? = some m.elided) ∧
      (¬ StaleAt messages i m → (elideStale messages)[i]? = some m) := by
  have hplace : (elideStale messages)[i]? =
      some (if (i : Int) < lastHumanIndex messages ∧ m.message.type = .tool ∧
        m.message.content ≠ staleToolResult then m.elided else m) := by
    rw [elideStale, List.getElem?_map, List.getElem?_zipIdx, hget]
    simp
  rw [hplace]
  constructor
  · rintro ⟨htool, hbehind⟩
    by_cases hcontent : m.message.content = staleToolResult
    · rw [if_neg fun h => h.2.2 hcontent, m.elided_of_content htool hcontent]
    · rw [if_pos ⟨lt_lastHumanIndex_iff.mpr hbehind, htool, hcontent⟩]
  · intro hnot
    rw [if_neg fun h => hnot ⟨h.2.1, lt_lastHumanIndex_iff.mp h.1⟩]

theorem length_elideStale (messages : List HistoryMessage) :
    (elideStale messages).length = messages.length := by
  rw [elideStale, List.length_map, List.length_zipIdx]

theorem elides (messages : List HistoryMessage) : Elides messages (elideStale messages) where
  length := length_elideStale messages
  stale _ m hget hstale :=
    ⟨m.elided, (elideStale_getElem? hget).1 hstale, m.sameBut_elided hstale.1, rfl⟩
  kept _ _ hget hnot := (elideStale_getElem? hget).2 hnot

namespace AlikeButStale

theorem sameBut (h : AlikeButStale messages other) {m' : HistoryMessage}
    (hget : messages[i]? = some m) (hget' : other[i]? = some m') : m.SameBut m' := by
  rcases h.each i m m' hget hget' with rfl | ⟨-, hsame⟩
  · exact ⟨rfl, rfl, rfl⟩
  · exact hsame

theorem exists_other (h : AlikeButStale messages other) (hget : messages[i]? = some m) :
    ∃ m', other[i]? = some m' := by
  have hlt := (List.getElem?_eq_some_iff.mp hget).1
  rw [← h.length] at hlt
  exact ⟨_, List.getElem?_eq_getElem hlt⟩

theorem humanBehind (h : AlikeButStale messages other) (hbehind : HumanBehind messages i) :
    HumanBehind other i := by
  obtain ⟨j, hlt, m, hget, hhuman⟩ := hbehind
  obtain ⟨m', hget'⟩ := h.exists_other hget
  exact ⟨j, hlt, m', hget', (h.sameBut hget hget').2.1.trans hhuman⟩

theorem symm (h : AlikeButStale messages other) : AlikeButStale other messages where
  length := h.length.symm
  each i m m' hget hget' := by
    obtain ⟨hid, htype, hcall⟩ := h.sameBut hget' hget
    rcases h.each i m' m hget' hget with rfl | ⟨⟨htool, hbehind⟩, -⟩
    · exact .inl rfl
    · exact .inr ⟨⟨htype.trans htool, h.humanBehind hbehind⟩, hid.symm, htype.symm, hcall.symm⟩

/-- **Histories that are alike are elided to the same one.** -/
theorem elideStale_eq (h : AlikeButStale messages other) :
    elideStale other = elideStale messages := by
  refine List.ext_getElem? fun i => ?_
  cases hget : messages[i]? with
  | none =>
    rw [List.getElem?_eq_none_iff] at hget
    rw [List.getElem?_eq_none_iff.mpr (by rw [length_elideStale, h.length]; exact hget),
      List.getElem?_eq_none_iff.mpr (by rw [length_elideStale]; exact hget)]
  | some m =>
    obtain ⟨m', hget'⟩ := h.exists_other hget
    have hsame := h.sameBut hget hget'
    by_cases hstale : StaleAt messages i m
    · have hstale' : StaleAt other i m' := ⟨hsame.2.1.trans hstale.1, h.humanBehind hstale.2⟩
      rw [(elideStale_getElem? hget).1 hstale, (elideStale_getElem? hget').1 hstale',
        hsame.elided]
    · have hnot' : ¬ StaleAt other i m' := fun hstale' =>
        hstale ⟨hsame.2.1.symm.trans hstale'.1, h.symm.humanBehind hstale'.2⟩
      rw [(elideStale_getElem? hget).2 hstale, (elideStale_getElem? hget').2 hnot']
      rcases h.each i m m' hget hget' with rfl | ⟨hstale', -⟩
      · rfl
      · exact absurd hstale' hstale

/-- A message in front of both leaves them alike. -/
theorem cons (h : AlikeButStale messages other) (m : HistoryMessage) :
    AlikeButStale (m :: messages) (m :: other) where
  length := congrArg (· + 1) h.length
  each i a b ha hb := by
    cases i with
    | zero => exact .inl (Option.some.inj (hb.symm.trans ha))
    | succ i =>
      rcases h.each i a b ha hb with heq | ⟨hstale, hsame⟩
      · exact .inl heq
      · exact .inr ⟨⟨hstale.1, humanBehind_cons_succ.mpr hstale.2⟩, hsame⟩

theorem any_system (h : AlikeButStale messages other)
    (hany : messages.any (·.message.type = .system) = true) :
    other.any (·.message.type = .system) = true := by
  obtain ⟨m, hmem, hsystem⟩ := List.any_eq_true.mp hany
  obtain ⟨i, hget⟩ := List.mem_iff_getElem?.mp hmem
  obtain ⟨m', hget'⟩ := h.exists_other hget
  refine List.any_eq_true.mpr ⟨m', List.mem_of_getElem? hget', decide_eq_true ?_⟩
  exact (h.sameBut hget hget').2.1.trans (of_decide_eq_true hsystem)

theorem agentInput_eq (h : AlikeButStale messages other) (channel : Channel) :
    agentInput channel other = agentInput channel messages := by
  have hsystem : other.any (·.message.type = .system) = messages.any (·.message.type = .system) :=
    Bool.eq_iff_iff.mpr ⟨h.symm.any_system, h.any_system⟩
  unfold agentInput
  rw [hsystem]
  split
  · exact h.elideStale_eq
  · exact (h.cons _).elideStale_eq

end AlikeButStale

/-- What is elided differs in nothing but stale results. -/
theorem alike_elideStale (messages : List HistoryMessage) :
    AlikeButStale messages (elideStale messages) where
  length := length_elideStale messages
  each i m m' hget hget' := by
    by_cases hstale : StaleAt messages i m
    · rw [(elideStale_getElem? hget).1 hstale] at hget'
      cases hget'
      exact .inr ⟨hstale, m.sameBut_elided hstale.1⟩
    · rw [(elideStale_getElem? hget).2 hstale] at hget'
      cases hget'
      exact .inl rfl

end

/-! ## The agent node -/

theorem isHuman_any_iff {messages : List HistoryMessage} {i : Nat} :
    ((messages.map HistoryMessage.message).drop (i + 1)).any Message.isHuman = true ↔
      HumanBehind messages i := by
  rw [List.any_eq_true]
  constructor
  · rintro ⟨message, hmem, hhuman⟩
    obtain ⟨k, hget⟩ := List.mem_iff_getElem?.mp hmem
    rw [List.getElem?_drop, List.getElem?_map] at hget
    obtain ⟨m, hm, rfl⟩ := Option.map_eq_some_iff.mp hget
    exact ⟨i + 1 + k, by omega, m, hm, Message.isHuman_iff.mp hhuman⟩
  · rintro ⟨j, hlt, m, hget, hhuman⟩
    refine ⟨m.message, List.mem_iff_getElem?.mpr ⟨j - (i + 1), ?_⟩, Message.isHuman_iff.mpr hhuman⟩
    have hj : i + 1 + (j - (i + 1)) = j := by omega
    rw [List.getElem?_drop, List.getElem?_map, hj, hget]
    rfl

theorem withoutStaleToolOutput_getElem?_eq (messages : List Message) (i : Nat) :
    (withoutStaleToolOutput messages)[i]? =
      messages[i]?.map (Message.elide ((messages.drop (i + 1)).any Message.isHuman)) := by
  induction messages generalizing i with
  | nil => rfl
  | cons m rest ih =>
    cases i with
    | zero => rfl
    | succ i => exact ih i

/-- **Without the ids, the elided history is the one of the graph.** -/
theorem map_elideStale (messages : List HistoryMessage) :
    (elideStale messages).map HistoryMessage.message =
      withoutStaleToolOutput (messages.map HistoryMessage.message) := by
  refine List.ext_getElem? fun i => ?_
  rw [withoutStaleToolOutput_getElem?_eq, List.getElem?_map, List.getElem?_map]
  cases hget : messages[i]? with
  | none =>
    rw [List.getElem?_eq_none_iff] at hget
    rw [List.getElem?_eq_none_iff.mpr (by rw [length_elideStale]; exact hget)]
    rfl
  | some m =>
    obtain ⟨hstale, hkept⟩ := elideStale_getElem? hget
    have hany := @isHuman_any_iff messages i
    generalize ((messages.map HistoryMessage.message).drop (i + 1)).any Message.isHuman = b at hany
    obtain ⟨id, message⟩ := m
    cases message with
    | tool content callId =>
      cases b with
      | true =>
        rw [hstale ⟨rfl, hany.mp rfl⟩]
        rfl
      | false =>
        rw [hkept fun h => Bool.false_ne_true (hany.mpr h.2)]
        rfl
    | system | human | ai =>
      rw [hkept fun h => by cases h.1]
      rfl

theorem map_agentInput {s : AgentState} {messages : List HistoryMessage}
    (h : s.messages = messages.map HistoryMessage.message) :
    (agentInput s.channel messages).map HistoryMessage.message = modelInput s := by
  have hsystem : s.messages.any Message.isSystem =
      messages.any (·.message.type = .system) := by
    rw [h, List.any_map]
    refine List.any_congr rfl fun m => ?_
    obtain ⟨id, message⟩ := m
    cases message <;> rfl
  unfold agentInput modelInput
  rw [map_elideStale, hsystem]
  split
  · rw [h]
  · rw [List.map_cons, h]

/-- The thread with another history. -/
def Config.withHistory (c : Config W) (messages : List HistoryMessage) : Config W :=
  { c with state := { c.state with messages := messages.map HistoryMessage.message } }

theorem sends_iff {g : Graph E W} {c : Config W} {ms : List Message} :
    Sends g c ms ↔ c.At .agent ∧ g.capped c.state = false ∧ ms = modelInput c.state := by
  constructor
  · intro hsends
    obtain ⟨here, hms⟩ := eq_modelInput_of_sends hsends
    refine ⟨here, ?_, hms⟩
    obtain ⟨r, c', fs, hs, -⟩ := hsends
    cases hcap : g.capped c.state with
    | false => rfl
    | true =>
      obtain ⟨run, hrun⟩ := Option.isSome_iff_exists.mp here.1
      simp [Graph.step, hrun, here.2, Graph.node, hcap] at hs
  · rintro ⟨here, hcap, rfl⟩
    exact sends_modelInput here hcap

/-- What is promised of a history. -/
structure StaleResultsElided (messages : List HistoryMessage) : Prop where
  elides : Elides messages (elideStale messages)
  idempotent : elideStale (elideStale messages) = elideStale messages
  /-- The model is sent the same messages, ids included. -/
  alike : ∀ other, AlikeButStale messages other →
    ∀ channel, agentInput channel other = agentInput channel messages
  /-- What the agent node of the graph sends are these messages. -/
  sent : ∀ {E W : Type} (g : Graph E W) (c : Config W) (ms : List Message),
    Sends g (c.withHistory messages) ms →
      ms = (agentInput c.state.channel messages).map HistoryMessage.message ∧
        ∀ other, AlikeButStale messages other → Sends g (c.withHistory other) ms

/-- **Of every history, only the tool results of earlier turns are elided, and nothing of them
reaches the model.** -/
theorem stale_results_elided (messages : List HistoryMessage) : StaleResultsElided messages where
  elides := elides messages
  idempotent := (alike_elideStale messages).elideStale_eq
  alike _ h channel := h.agentInput_eq channel
  sent {_ W} g c ms hsends := by
    have input : ∀ l, (agentInput c.state.channel l).map HistoryMessage.message =
        modelInput (c.withHistory l).state := fun l =>
      map_agentInput (s := (c.withHistory l).state) rfl
    obtain ⟨here, hcap, rfl⟩ := sends_iff.mp hsends
    refine ⟨(input messages).symm, fun other h => sends_iff.mpr ⟨here, hcap, ?_⟩⟩
    rw [← input, ← input, h.agentInput_eq]

/-- The result of an earlier turn is elided, that of this turn is not. -/
example :
    elideStale [⟨some "1", .human "Am I covered?"⟩, ⟨some "2", .tool "Up to $500." "a"⟩,
        ⟨some "3", .human "And now?"⟩, ⟨some "4", .tool "Up to $900." "b"⟩] =
      [⟨some "1", .human "Am I covered?"⟩, ⟨some "2", .tool staleToolResult "a"⟩,
        ⟨some "3", .human "And now?"⟩, ⟨some "4", .tool "Up to $900." "b"⟩] := by decide +kernel

end OmniCare
