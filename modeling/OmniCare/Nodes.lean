import OmniCare.Grounding
import OmniCare.Injection
import OmniCare.Prompts

/-! # The nodes of the graph

`agent/app/graph/nodes.py` and the nodes of `agent/app/graph/build.py`.  Each node is a
function of the state; what a node gets from outside the program (the model's reply, a
payment split, the outcomes of tool calls) is an argument.

`confirm` is cut at `interrupt()`: `gate` is what it does up to there, `passGate` and
`closeGate` what it returns.
-/
namespace OmniCare

/-! ## guard -/

/-- `LOW_STT_CONFIDENCE`. -/
def lowSttConfidence : ℚ := 6 / 10

/-- The confirmation tier of a turn. -/
def confirmationTierOf (channel : Channel) (sttConfidence : Option ℚ) (message : Text) : Nat :=
  match channel with
  | .text => 0
  | .voice =>
      if sttConfidence.any (· < lowSttConfidence) then 2
      else if (normalizeClaimId message).isSome || (normalizePolicyNumber message).isSome then 1
      else 0

/-- `fresh`: the outputs that describe one turn, cleared. -/
def AgentState.fresh (s : AgentState) : AgentState :=
  { s with toolInvocations := [], sources := [], retrieved := [], pendingWrite := none,
           stoppedReason := none, guardRule := none }

/-- `guard`: deterministic screening, before any model call. -/
def guardNode (s : AgentState) : AgentState :=
  let message := lastHuman s.messages
  let verdict := screen message
  if verdict.allowed then
    { s.fresh with
      guardBlocked := false
      guardFlagged := verdict.forcesConfirmation
      confirmationTier := confirmationTierOf s.channel s.sttConfidence message
      iterations := 0 }
  else
    { s.fresh.say refusal with
      guardBlocked := true
      guardRule := verdict.matched.head?
      confirmationTier := 0 }

/-! ## agent -/

/-- `STALE_TOOL_RESULT`. -/
def staleToolResult : Text :=
  "[The result of this call was from an earlier turn and is no longer shown. Call ".toList ++
    "the tool again if you need it.]".toList

/-- A message as the model sees it: a tool result that is stale is elided. -/
def Message.elide (stale : Bool) : Message → Message
  | .tool content id => .tool (if stale then staleToolResult else content) id
  | m => m

/-- `_without_stale_tool_output`: the conversation, with previous turns' tool results
elided.  A result is a previous turn's when a human message follows it. -/
def withoutStaleToolOutput : List Message → List Message
  | [] => []
  | m :: rest => m.elide (rest.any Message.isHuman) :: withoutStaleToolOutput rest

/-- The answer of the structural stop. -/
def iterationStop : Text :=
  "I wasn't able to complete that. Could you rephrase, or give me the policy or claim number?"

/-- The system prompt of a channel. -/
def promptFor : Channel → Text
  | .voice => systemPrompt ++ voiceAddendum
  | .text => systemPrompt

/-- What the agent node sends to the model. -/
def modelInput (s : AgentState) : List Message :=
  let messages :=
    if s.messages.any Message.isSystem then s.messages
    else .system (promptFor s.channel) :: s.messages
  withoutStaleToolOutput messages

/-- A reply of the model. -/
structure Reply where
  content : Text
  toolCalls : List ToolCall := []
  deriving DecidableEq, Repr

/-- `agent`, when the iterations are used up: the structural stop. -/
def agentStop (s : AgentState) : AgentState :=
  { s.say iterationStop with stoppedReason := some "max_iterations" }

/-- `agent`, when the model has replied. -/
def agentNode (s : AgentState) (reply : Reply) : AgentState :=
  { s.add [.ai reply.content reply.toolCalls] with iterations := s.iterations + 1 }

/-! ## capture -/

/-- `WRITE_TOOLS`. -/
def writeTools : List Text := ["submit_claim"]

/-- Whether a call is to a write tool. -/
def ToolCall.isWrite (c : ToolCall) : Bool := writeTools.elem c.name

/-- What `capture` and the read-back use of a payment split. -/
structure Split where
  asDict : Dict
  summary : Text
  citation : Text
  policySays : List Text
  sourceFile : Text
  sectionTitle : Text

/-- The section a payment split was read from, as a retrieved section. -/
def Split.chunk (split : Split) : Chunk :=
  Chunk.fill
    { chunkId := split.citation, text := Text.join ['\n'] split.policySays
      sourceFile := split.sourceFile, sectionId := [], sectionTitle := split.sectionTitle
      charStart := 0, charEnd := 0, citation := split.citation }

/-- `capture`: lifts the arguments of the first write call out of the last message, with
the payment split when one could be computed. -/
def captureNode (settlement : Option Json → Option Json → Option Split) (s : AgentState) :
    AgentState :=
  match (lastCalls s.messages).find? ToolCall.isWrite with
  | none => s
  | some call =>
      let s := { s with pendingWrite := some call.args, pendingSettlement := none }
      match settlement (call.args.get? "claim_type") (call.args.get? "amount") with
      | none => s
      | some split =>
          let s := { s with pendingSettlement := some ⟨split.asDict, split.summary⟩ }
          if split.citation.isEmpty then s
          else { s with retrieved := s.retrieved ++ [split.chunk], sources := [split.citation] }

/-! ## confirm -/

/-- The payload of a `confirm_write` interrupt. -/
structure Prompt where
  args : Dict
  readback : Text
  settlement : Option PendingSettlement
  deriving DecidableEq, Repr

/-- `str(pending.get(key, default))`. -/
def shown (pending : Dict) (key default : Text) : Text :=
  ((pending.get? key).map Json.toStr).getD default

/-- The refusal of a policy number nobody gave. -/
def policyNumberNeeded : Text :=
  "Before I can file this, I need your policy number - the letters POL, a hyphen ".toList ++
    "and four digits, from your policy documents. I don't have one from you yet, and ".toList ++
    "I won't file a claim against a number I guessed.".toList

/-- The refusal of an amount nobody gave. -/
def amountNeeded : Text :=
  "I can't file this yet: I don't have an amount from you, and I won't put an ".toList ++
    "estimate on a claim. How much are you claiming? A total figure is enough.".toList

/-- The answer to a declined confirmation. -/
def notFiled : Text :=
  "No problem - I haven't filed anything. Let me know if you'd like to change any of the ".toList ++
    "details.".toList

/-- The question put to the policyholder. -/
def readbackOf (pending : Dict) (split : Option PendingSettlement) : Text :=
  let breakdown := Text.strip ((split.map (·.paymentSummary)).getD [])
  "I'm about to file a ".toList ++ shown pending "claim_type" "None" ++
    " claim on policy ".toList ++ phoneticReadback (shown pending "policy_number" []) ++
    " for $".toList ++ shown pending "amount" "None" ++ ".".toList ++
    (if breakdown.isEmpty then " Shall I go ahead?".toList
      else "\n\n".toList ++ breakdown ++ "\n\nShall I go ahead?".toList)

/-- What `confirm` comes to before anybody is asked. -/
inductive Gate
  /-- `require_confirmation` is off: the write goes ahead. -/
  | off
  /-- The write is refused, with an answer. -/
  | refused (answer : Text)
  /-- The write is put to the policyholder. -/
  | ask (prompt : Prompt)
  deriving DecidableEq, Repr

/-- `pending`: the captured arguments. -/
def AgentState.pending (s : AgentState) : Dict := s.pendingWrite.getD []

/-- Whether the write names a policy number that the policyholder did not give. -/
def numberMissing (pending : Dict) (messages : List Message) : Bool :=
  let claimed := Text.upper (Text.strip (shown pending "policy_number" []))
  !claimed.isEmpty && !(policyNumbersStated messages).contains claimed

/-- Whether the write has an amount that the policyholder did not give. -/
def amountMissing (pending : Dict) (messages : List Message) : Except PyError Bool :=
  match pending.get? "amount" with
  | none | some .null => .ok false
  | some amount => (amountWasStated amount messages).map (!·)

/-- The payload that `confirm` raises its interrupt with. -/
def AgentState.prompt (s : AgentState) : Prompt :=
  ⟨s.pending, readbackOf s.pending s.pendingSettlement, s.pendingSettlement⟩

/-- `confirm` up to `interrupt()`. -/
def gate (requireConfirmation : Bool) (s : AgentState) : Except PyError Gate :=
  if requireConfirmation = false then .ok .off
  else if numberMissing s.pending s.messages then .ok (.refused policyNumberNeeded)
  else
    match amountMissing s.pending s.messages with
    | .error e => .error e
    | .ok true => .ok (.refused amountNeeded)
    | .ok false => .ok (.ask s.prompt)

/-- The approving words. -/
def approvingWords : List Text :=
  ["yes", "y", "confirm", "confirmed", "go ahead", "ok", "okay", "yep", "sure"]

/-- `approved`. -/
def approves (answer : Text) : Bool := approvingWords.elem (Text.lower (Text.strip answer))

/-- `confirm`, when the write goes ahead. -/
def AgentState.passGate (s : AgentState) : AgentState := { s with pendingWrite := some s.pending }

/-- `confirm`, when the write is refused or declined. -/
def AgentState.closeGate (s : AgentState) (answer : Text) : AgentState :=
  { s.say answer with pendingWrite := none, pendingSettlement := none }

/-! ## tools -/

/-- How the `ainvoke` of a tool ends.  An exception is caught by the tools node, a
cancellation is not. -/
inductive Outcome
  | returned (result : Json)
  | raised (e : PyError)
  | cancelled
  deriving DecidableEq, Repr

/-- A tool: its name, and what a call does.  `E` is what the world outside decides (the
answers of the services the tool calls), `W` the state of the stores it writes to. -/
structure Tool (E W : Type) where
  name : Text
  ainvoke : E → Dict → W → Outcome × W

/-- `by_name.get(name)`: of several tools with one name, the last. -/
def findTool {E W : Type} (tools : List (Tool E W)) (name : Text) : Option (Tool E W) :=
  tools.reverse.find? (·.name = name)

/-- What stops a node. -/
inductive Failure
  | raised (e : PyError)
  | timedOut
  deriving DecidableEq, Repr

/-- `KeyError`. -/
def keyError (key : Text) : PyError := ⟨"KeyError", '\'' :: key ++ ['\'']⟩

/-- A field that pydantic requires to be a text. -/
def requireStr : Json → Except PyError Text
  | .str s => .ok s
  | _ => .error ⟨"ValidationError", []⟩

/-- Whether pydantic reads a value as an optional `float`. -/
def isScore : Json → Bool
  | .null | .bool _ | .int _ | .float _ => true
  | .str s => (floatOfText s).isSome
  | _ => false

/-- The values that a `for` over a value yields. -/
def iterated : Json → Except PyError (List Json)
  | .arr items => .ok items
  | .obj fields => .ok (fields.map fun field => .str field.1)
  | .str s => .ok (s.map fun c => .str [c])
  | .null => .error (notIterable "NoneType")
  | .bool _ => .error (notIterable "bool")
  | .int _ => .error (notIterable "int")
  | .float _ => .error (notIterable "float")

/-- A searched section, validated through `Chunk`. -/
def chunkOf : Json → Except PyError Chunk
  | .obj raw => do
      let required (key : Text) : Except PyError Json :=
        match Dict.get? raw key with
        | some v => .ok v
        | none => .error (keyError key)
      let text ← required "text"
      let sourceFile ← required "source_file"
      let sectionTitle ← required "section_title"
      let score := (Dict.get? raw "score").getD .null
      let citation ← requireStr ((Dict.get? raw "citation").getD (.str []))
      let text ← requireStr text
      let sourceFile ← requireStr sourceFile
      let sectionId ← requireStr ((Dict.get? raw "section_id").getD (.str []))
      let sectionTitle ← requireStr sectionTitle
      if isScore score then
        pure (Chunk.fill
          { chunkId := citation, text, sourceFile, sectionId, sectionTitle, charStart := 0
            charEnd := text.length, score, citation })
      else .error ⟨"ValidationError", []⟩
  | _ => .error ⟨"AttributeError", "object has no attribute 'get'"⟩

/-- `"\n".join(result.get("policy_says") or [])`. -/
def joinedLines (lines : Json) : Except PyError Text := do
  let lines ← iterated (if lines.truthy then lines else .arr [])
  let texts ← lines.mapM fun
    | .str s => .ok s
    | _ => .error ⟨"TypeError", "sequence item: expected str instance"⟩
  pure (Text.join ['\n'] texts)

/-- `citation.split(" § ")[0]`. -/
def sourceOf (citation : Text) : Text :=
  match Text.find? " § " citation with
  | some i => citation.take i
  | none => citation

/-- The section a payment estimate was read from, validated through `Chunk`. -/
def estimateChunk (result : Dict) (citation : Json) : Except PyError Chunk := do
  let text ← joinedLines ((result.get? "policy_says").getD .null)
  match citation with
  | .str citation =>
      let sectionTitle ← requireStr ((result.get? "section").getD (.str []))
      pure (Chunk.fill
        { chunkId := citation, text, sourceFile := sourceOf citation, sectionId := []
          sectionTitle, charStart := 0, charEnd := 0, citation })
  | _ => .error ⟨"AttributeError", "object has no attribute 'split'"⟩

/-- The sections that one result adds to `retrieved`. -/
def harvest (name : Text) (result : Json) : Except PyError (List Chunk) :=
  match result with
  | .obj fields =>
      if name = "estimate_claim_payment".toList then
        match (Dict.get? fields "citation").filter Json.truthy with
        | some citation => (estimateChunk fields citation).map ([·])
        | none => .ok []
      else if name = "search_policy_documents".toList then do
        (← iterated ((Dict.get? fields "chunks").getD (.arr []))).mapM chunkOf
      else .ok []
  | _ => .ok []

/-- What the tools node has gathered so far. -/
structure Tooled where
  outputs : List Message := []
  invocations : List Invocation
  retrieved : List Chunk

/-- A call to a tool that does not exist. -/
def Tooled.unknown (t : Tooled) (call : ToolCall) : Tooled :=
  { t with outputs := t.outputs ++ [.tool ("Unknown tool ".toList ++ call.name) call.id] }

/-- `result.get("error")` of a `dict`. -/
def reportsError : Json → Bool
  | .obj fields => (Dict.get? fields "error").any Json.truthy
  | _ => false

/-- `result if isinstance(result, dict) else {"value": str(result)}`. -/
def asResult : Json → Dict
  | .obj fields => fields
  | v => [("value", .str v.toStr)]

/-- What the tools node records of a call that came to a result. -/
def Tooled.record (t : Tooled) (call : ToolCall) (result : Json) (status : ToolStatus) :
    Except PyError Tooled := do
  let chunks ← harvest call.name result
  let marker := if call.name = "search_policy_documents".toList then policyMarker else toolMarker
  pure
    { outputs := t.outputs ++ [.tool (asData (Json.dumps result) marker) call.id]
      invocations := t.invocations ++ [⟨call.name, call.args, asResult result, status⟩]
      retrieved := t.retrieved ++ chunks }

/-- The body of the loop of the tools node, from the outcome of the call on. -/
def Tooled.finish (t : Tooled) (call : ToolCall) : Outcome → Except Failure Tooled
  | .returned result =>
      (t.record call result (if reportsError result then .error else .ok)).mapError .raised
  | .raised e =>
      (t.record call (.obj [("error", .str e.kind), ("detail", .str e.detail)]) .error).mapError
        .raised
  | .cancelled => .error .timedOut

/-- One execution of a tool. -/
structure Execution (E : Type) where
  call : ToolCall
  /-- What the world outside answered. -/
  answer : E
  outcome : Outcome

/-- The loop of the tools node: every call of the last message in turn, each with the
answers of the world outside to it.  When those run out, the run timeout has fired. -/
def runCalls {E W : Type} (tools : List (Tool E W)) :
    List ToolCall → List E → Tooled → W → Except Failure Tooled × W × List (Execution E)
  | [], _, t, w => (.ok t, w, [])
  | call :: calls, es, t, w =>
      match findTool tools call.name, es with
      | none, es => runCalls tools calls es (t.unknown call) w
      | some _, [] => (.error .timedOut, w, [])
      | some tool, e :: es =>
          let (outcome, w) := tool.ainvoke e call.args w
          match t.finish call outcome with
          | .error failure => (.error failure, w, [⟨call, e, outcome⟩])
          | .ok t =>
              let (result, w, executions) := runCalls tools calls es t w
              (result, w, ⟨call, e, outcome⟩ :: executions)

/-- The update of the tools node. -/
def toolsNode (s : AgentState) (t : Tooled) : AgentState :=
  { s.add t.outputs with
    toolInvocations := t.invocations, retrieved := t.retrieved, pendingWrite := none }

/-! ## readback -/

/-- The text that `readback` gives the final answer, when it changes it. -/
def readbackText (message text : Text) : Option Text :=
  match (normalizeClaimId message).or (normalizePolicyNumber message) with
  | none => none
  | some identifier =>
      let spoken := phoneticReadback identifier
      if Text.contains text spoken then none
      else
        let noun : Text := if Text.startsWith identifier "CLM" then "claim" else "policy"
        some ("Looking up ".toList ++ noun ++ ' ' :: spoken ++ ". ".toList ++ text)

/-- `readback`: the spoken identifier read-back, on the voice channel. -/
def readbackNode (s : AgentState) : AgentState :=
  if s.channel ≠ .voice ∨ s.confirmationTier ≠ 1 then s
  else
    match finalAnswer s.messages with
    | none => s
    | some (id, text) =>
        match readbackText (lastHuman s.messages) text with
        | none => s
        | some new => s.rewrite id new

/-! ## parse -/

/-- What is said instead of a tool call written out as text. -/
def lookupFailed : Text := "Sorry - I wasn't able to look that up. Could you ask me again?"

/-- The text that `parse` gives an answer. -/
def parsedText (answer : Answer) : Text :=
  if answer.toolCallAsText then lookupFailed else answer.text

/-- `parse`: unpacks the structured reply. -/
def parseNode (s : AgentState) : Except PyError AgentState :=
  match finalAnswer s.messages with
  | none => .ok s
  | some (id, content) =>
      (parseAnswer content).map fun answer =>
        let s := { s with modelConfidence := answer.confidence, answerUnknown := answer.unknown }
        if parsedText answer = content then s else s.rewrite id (parsedText answer)

/-! ## ground -/

/-- The demand for a policy number in place of one nobody gave. -/
def policyNumberDemand : Text :=
  "Before I can file anything I need your policy number - the ".toList ++
    "letters POL, a hyphen and four digits, from your policy ".toList ++
    "documents. I don't have one from you yet, and I won't put a ".toList ++
    "number I guessed in front of you as though it were yours.".toList

/-- The demand for an amount in place of an estimate. -/
def amountDemand : Text :=
  "I can't put a figure on this myself - I won't estimate an ".toList ++
    "amount for a claim. How much are you claiming? A total is ".toList ++
    "enough, and it can be a repair quote.".toList

/-- Whether a text has a policy number that neither the policyholder nor a tool gave. -/
def inventsPolicyNumber (s : AgentState) (text : Text) : Bool :=
  (policyNumbersIn text).any fun number =>
    !(policyNumbersStated s.messages ++ policyNumbersFromTools s.toolInvocations).contains number

/-- The text of an answer as `ground` leaves it, and whether a false comparison or an
invented value made it change. -/
def correctedText (s : AgentState) (text : Text) : Text × Bool :=
  let corrected := dropFalseComparisons text
  if inventsPolicyNumber s corrected then (policyNumberDemand, true)
  else if assertsAnEstimatedAmount corrected then (amountDemand, true)
  else (corrected, corrected ≠ text)

/-- `valid`: the citations that retrieval returned. -/
def AgentState.validCitations (s : AgentState) : List Text := (citationsOf s.retrieved).eraseDups

/-- `ground`: sources are what the answer used, and what the system can disprove is
removed. -/
def groundNode (s : AgentState) : AgentState :=
  match finalAnswer s.messages with
  | none => { s with sources := [] }
  | some (id, content) =>
      let spans := citationSpans content s.validCitations
      let invented := spans.any fun span => !span.real
      let (text, rewritten) := correctedText s (withoutInvented content spans)
      let attributed := namedSections text s.retrieved ++ sectionsByFigure text s.retrieved
      let sources := if attributed.isEmpty then citationsOf s.retrieved else attributed
      let (confidence, reason) :=
        confidenceFor s.modelConfidence s.answerUnknown (!s.retrieved.isEmpty)
          (invented || rewritten) (policyClaim.found text)
      let s := { s with sources := sources.eraseDups, answerConfidence := confidence
                        confidenceReason := reason }
      if invented || rewritten then s.rewrite id text else s

/-! ## format -/

/-- `format_answer`: the answer leaves in a shape the channel can present. -/
def formatNode (s : AgentState) : AgentState :=
  match finalAnswer s.messages with
  | none => s
  | some (id, content) =>
      let normalized := normalizeResponse content s.channel
      if normalized = content then s else s.rewrite id normalized

end OmniCare
