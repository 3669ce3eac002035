import OmniCare.PyJson
import OmniCare.Regex

/-! # The shape an answer leaves in

`libs/guardrails/response.py`: a structured reply is unpacked (`parseAnswer`), a
reply that is one JSON object or one code fence is unwrapped (`unwrapJson`), and on
the voice channel markdown is reduced to speakable prose (`stripMarkdown`).
-/
namespace OmniCare

/-- `libs.contracts.Channel`. -/
inductive Channel
  | text
  | voice
  deriving DecidableEq, Repr

/-! ## Fences and JSON envelopes -/

/-- `_TEXT_KEYS`, the preferred one first. -/
def textKeys : List Text :=
  ["response", "answer", "text", "content", "message", "output", "result"]

/-- A character of a code fence's language tag: `[A-Za-z0-9_+-]`. -/
def isTagChar (c : Char) : Bool := c.isAlphanum || c == '_' || c == '+' || c == '-'

/-- `[ \t]`. -/
def isTabOrBlank (c : Char) : Bool := c == ' ' || c == '\t'

/-- Three backticks. -/
def fenceMark : Regex := .lit "```"

/-- `_FENCE_RE`: one code fence around the whole text. -/
def fencePattern : Regex :=
  .cat [.atStart, .star .space, fenceMark, .star (.char isTabOrBlank),
    .group 1 (.star (.char isTagChar)), .star (.char isTabOrBlank),
    .opt (.lit "\r"), .lit "\n", .group 2 (.rep false 0 none (.char fun _ => true)),
    .opt (.lit "\r"), .opt (.lit "\n"), .star .space, fenceMark, .star .space, .atEnd]

/-- `_unfence`: the language and the body of a whole-text code fence. -/
def unfence (text : Text) : Text × Text :=
  match fencePattern.matchStart text with
  | some m => (Text.lower (m.group 1), m.group 2)
  | none => ([], text)

/-- The languages of a fence that wraps prose. -/
def proseLanguages : List Text := ["", "text", "markdown", "md"]

/-- The first key of `keys` whose value is a text that `ok` accepts. -/
def firstText (keys : List Text) (ok : Text → Bool) (parsed : Dict) : Option Text :=
  keys.findSome? fun key =>
    match parsed.get? key with
    | some (.str value) => if ok value then some value else none
    | _ => none

/-- `unwrap_json`: the prose inside a JSON answer, or the text unchanged. -/
def unwrapJson (text : Text) : Text :=
  let (language, body) := unfence text
  let candidate := Text.strip body
  if candidate.head? ≠ some '{' then
    if proseLanguages.elem language then Text.strip body else text
  else
    match Json.loads candidate with
    | some (.obj parsed) =>
        match firstText textKeys (fun value => !Text.isBlank value) parsed with
        | some value => Text.strip value
        | none => text
    | _ => text

/-! ## Markdown -/

/-- `_MD_FENCE`. -/
def mdFence : Regex :=
  .cat [fenceMark, .star (.char isTagChar), .opt (.lit "\r"), .opt (.lit "\n")]

/-- `_MD_HEADING`. -/
def mdHeading : Regex :=
  .cat [.lineStart, .between 0 3 (.char isTabOrBlank), .between 1 6 (.lit "#"),
    .star (.char isTabOrBlank), .group 1 (.rep false 1 none .dot),
    .star (.char isTabOrBlank), .star (.lit "#"), .star (.char isTabOrBlank), .lineEnd]

/-- `_MD_BULLET`. -/
def mdBullet : Regex :=
  .cat [.lineStart, .star (.char isTabOrBlank), .anyOf "-*+", .plus (.char isTabOrBlank)]

/-- `_MD_ORDERED`. -/
def mdOrdered : Regex :=
  .cat [.lineStart, .star (.char isTabOrBlank), .group 1 (.plus .digit), .anyOf ".)",
    .plus (.char isTabOrBlank)]

/-- `_MD_BOLD`. -/
def mdBold : Regex :=
  .cat [.lit "**", .group 1 (.rep false 1 none (.char fun _ => true)), .lit "**"]

/-- `[*\w]`. -/
def isStarOrWord (c : Char) : Bool := c == '*' || isWord c

/-- `_MD_ITALIC`. -/
def mdItalic : Regex :=
  .cat [.notBehind isStarOrWord, .anyOf "*_", .group 1 (.plus (.noneOf "*_\n")), .anyOf "*_",
    .notAhead isStarOrWord]

/-- `_MD_LINK`. -/
def mdLink : Regex :=
  .cat [.lit "[", .group 1 (.plus (.noneOf "]")), .lit "](", .star (.noneOf ")"), .lit ")"]

/-- `_MD_CODE`. -/
def mdCode : Regex := .cat [.lit "`", .group 1 (.plus (.noneOf "`\n")), .lit "`"]

/-- `_MD_RULE`. -/
def mdRule : Regex :=
  .cat [.lineStart, .star (.char isTabOrBlank), .group 1 (.anyOf "-*_"),
    .atLeast 2 (.cat [.star (.char isTabOrBlank), .backref 1]), .star (.char isTabOrBlank),
    .lineEnd]

/-- `_as_sentence`: a heading with terminal punctuation. -/
def asSentence (heading : Text) : Text :=
  let heading := Text.strip heading
  if heading.getLast?.any ".!?:".toList.elem then heading else heading ++ ['.']

/-- `[ \t]{2,}`, which every cleaning collapses to one space. -/
def blankRun : Regex := .atLeast 2 (.char isTabOrBlank)

/-- `strip_markdown`: markdown reduced to speakable prose. -/
def stripMarkdown (text : Text) : Text :=
  let text := mdFence.subText [] text
  let text := mdRule.subText [] text
  let text := mdLink.sub (·.group 1) text
  let text := mdHeading.sub (fun m => asSentence (m.group 1)) text
  let text := mdBullet.subText [] text
  let text := mdOrdered.subText [] text
  let text := mdBold.sub (·.group 1) text
  let text := mdItalic.sub (·.group 1) text
  let text := mdCode.sub (·.group 1) text
  let text := blankRun.subText [' '] text
  let text := (Regex.atLeast 3 (.lit "\n")).subText "\n\n" text
  Text.strip text

/-! ## Structured answers -/

/-- `Answer`: a model reply, unpacked. -/
structure Answer where
  text : Text
  confidence : Option PyFloat := none
  citations : List Text := []
  unknown : Bool := false
  structured : Bool := false
  toolCallAsText : Bool := false

/-- `_ANSWER_KEYS`, the preferred one first. -/
def answerKeys : List Text := ["answer", "response", "text", "content", "message"]

/-- The clamp at the end of `_as_confidence`: unmistakable percentages are rescaled,
and the result is brought into `[0, 1]`. -/
def clampConfidence (percent : Bool) (number : PyFloat) : PyFloat :=
  let number := if percent || PyFloat.le (.fin 1 1) number then number.percent else number
  PyFloat.max (.fin 0 0) (PyFloat.min (.fin 1 0) number)

/-- `_as_confidence`: a number in `[0, 1]`, or nothing.  Only `TypeError` and
`ValueError` are caught. -/
def asConfidence : Option Json → Except PyError (Option PyFloat)
  | some (.int n) => (PyFloat.ofInt n).map fun number => some (clampConfidence false number)
  | some (.float number) => .ok (some (clampConfidence false number))
  | some (.str value) =>
      let value := Text.strip value
      let percent := value.getLast? == some '%'
      let value := Text.strip (Text.rstripBy (· == '%') value)
      .ok ((floatOfText value).map (clampConfidence percent))
  | _ => .ok none

/-- The `TypeError` of a `for` over a value that cannot be iterated. -/
def notIterable (kind : Text) : PyError :=
  ⟨"TypeError", '\'' :: kind ++ "' object is not iterable".toList⟩

/-- The texts that a `for` over a value yields: the items of a list, the keys of a
`dict`; a text stands for the list of itself, and `None` for the empty list. -/
def citationTexts : Option Json → Except PyError (List Text)
  | some (.str s) => .ok [s]
  | some (.arr items) => .ok (items.filterMap fun | .str s => some s | _ => none)
  | some (.obj fields) => .ok (fields.map (·.1))
  | some (.int _) => .error (notIterable "int")
  | some (.float _) => .error (notIterable "float")
  | some (.bool _) => .error (notIterable "bool")
  | some .null | none => .ok []

/-- `parsed.get("citations") or parsed.get("citation") or []`. -/
def rawCitations (parsed : Dict) : Option Json :=
  (["citations".toList, "citation".toList].filterMap parsed.get?).find? Json.truthy

/-- `parse_answer` of an object. -/
def parseObject (text : Text) (parsed : Dict) : Except PyError Answer :=
  if parsed.has "name" && parsed.has "arguments" && !answerKeys.any parsed.has then
    -- a tool call written out as text instead of being called
    .ok { text := [], confidence := some (.fin 0 0), unknown := true, structured := true,
          toolCallAsText := true }
  else
    match firstText answerKeys (fun _ => true) parsed with
    | none => .ok { text := Text.strip text }
    | some answer => do
        let citations ← citationTexts (rawCitations parsed)
        let confidence ← asConfidence (parsed.get? "confidence")
        pure { text := Text.strip answer
               confidence
               citations := (citations.map Text.strip).filter (!·.isEmpty)
               unknown := (parsed.get? "unknown").any Json.truthy
               structured := true }

/-- `parse_answer`: a structured reply unpacked, or the text itself. -/
def parseAnswer (text : Text) : Except PyError Answer :=
  if Text.isBlank text then .ok { text }
  else
    let candidate := Text.strip (unfence text).2
    if candidate.head? ≠ some '{' then .ok { text := Text.strip text }
    else
      match Json.loads candidate with
      | some (.obj parsed) => parseObject text parsed
      | _ => .ok { text := Text.strip text }

/-- `normalize_response`: the answer in the form the channel can present. -/
def normalizeResponse (text : Text) (channel : Channel) : Text :=
  if text.isEmpty then text
  else
    let normalized := unwrapJson text
    match channel with
    | .voice => Text.strip (stripMarkdown normalized)
    | .text => Text.strip normalized

end OmniCare
