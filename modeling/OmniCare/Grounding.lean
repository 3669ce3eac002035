import OmniCare.AgentState
import OmniCare.Normalize

/-! # What an answer may say

The text functions of `agent/app/graph/nodes.py` that `confirm` and `ground` rest on:
which policy numbers and amounts somebody other than the model has given, which
citations in an answer are real, which sentences are disproved by their own figures,
and how confident the system is prepared to be.
-/
namespace OmniCare

/-! ## Policy numbers and amounts -/

/-- `_POLICY_RE`: `POL[-\s]?\d{4}` under `re.IGNORECASE`. -/
def policyPattern : Regex :=
  .cat [.litI "POL", .opt (.char fun c => c == '-' || isSpace c), .times 4 .digit]

/-- `re.sub(r"[-\s]", "-", m).upper()`. -/
def canonicalNumber (m : Text) : Text :=
  Text.upper (m.map fun c => if isSpace c then '-' else c)

/-- The policy numbers written in a text, in canonical form. -/
def policyNumbersIn (text : Text) : List Text := (policyPattern.findall text).map canonicalNumber

/-- `_policy_numbers_stated`: every policy number the policyholder has given, typed or
spoken. -/
def policyNumbersStated (messages : List Message) : List Text :=
  (humanTexts messages).flatMap fun text =>
    ((normalizePolicyNumber text).map fun spoken => Text.upper (Text.strip spoken)).toList ++
      policyNumbersIn text

/-- `_policy_numbers_from_tools`: every policy number a tool returned this turn. -/
def policyNumbersFromTools (invocations : List Invocation) : List Text :=
  invocations.flatMap fun invocation => policyNumbersIn (Json.repr (.obj invocation.result))

/-- `int(Decimal(str(amount)))`: `none` where `_amount_was_stated` catches the error. -/
def wholeDollars (amount : Json) : Except PyError (Option Int) :=
  match PyDecimal.ofText amount.toStr with
  | none | some .nan => .ok none
  | some d => d.toInt.map some

/-- `_amount_was_stated`: whether the policyholder gave this figure.  An infinite amount
raises `OverflowError`, which is not caught. -/
def amountWasStated (amount : Json) (messages : List Message) : Except PyError Bool :=
  (wholeDollars amount).map fun
    | none => false
    | some want =>
        (humanTexts messages).any fun text => (spokenAmounts text).any fun n => (n : Int) = want

/-! ## Citations -/

/-- `_TYPOGRAPHIC`, for one character. -/
def plainCharacter (c : Char) : Char :=
  match c.toNat with
  | 0xA0 | 0x202F | 0x2009 | 0x2007 => ' '
  | 0x2010 | 0x2011 | 0x2012 | 0x2013 | 0x2014 | 0x2212 => '-'
  | 0x2018 | 0x2019 => '\''
  | 0x201C | 0x201D => '"'
  | _ => c

/-- The characters `_typographic` strips. -/
def decoration : Text := " *_`\"'.,;:"

/-- `_typographic`: a citation with its typography flattened, for comparison only. -/
def typographic (text : Text) : Text :=
  let text := Text.stripBy decoration.elem (text.map plainCharacter)
  Text.lower (Text.strip (Regex.gap.subText [' '] text))

/-- `[\w.\-]`. -/
def isFileChar (c : Char) : Bool := isWord c || c == '.' || c == '-'

/-- `_CITATION_HEAD`. -/
def citationHead : Regex :=
  .cat [.plus (.char isFileChar), .lit ".md", .star .space, .lit "§", .star .space]

/-- `_CITATION_TAIL`. -/
def citationTail : Regex := .between 0 90 (.noneOf "\n,;)")

/-- `_TITLE_TOKEN`: a token that starts with neither a space nor a lower-case letter and
has no space in it. -/
def titleToken : Regex :=
  .cat [.atStart, .char fun c => !isSpace c && !c.isLower,
    .star (.char fun c => !isSpace c), .atEnd]

/-- The tokens of a title up to the first one that reads as prose. -/
def keptTokens : List Text → List Text
  | [] => []
  | first :: rest => first :: rest.takeWhile fun token => (titleToken.matchStart token).isSome

/-- A citation-shaped run of an answer: where it starts and ends, and whether retrieval
returned it. -/
structure CitationSpan where
  start : Nat
  stop : Nat
  real : Bool
  deriving DecidableEq, Repr

/-- `len(c)` of the longest first: `sorted(valid, key=len, reverse=True)`. -/
def longestFirst (valid : List Text) : List Text :=
  valid.insertionSort fun a b => b.length ≤ a.length

/-- The run that starts at one citation head. -/
def citationSpan (text : Text) (ordered : List Text) (head : Regex.Match) : CitationSpan :=
  let tail := text.drop head.start
  match ordered.find? fun c => typographic (tail.take c.length) = typographic c with
  | some real => ⟨head.start, head.start + real.length, true⟩
  | none =>
      let title := ((citationTail.matchStart (tail.drop head.text.length)).map (·.text)).getD []
      let kept := keptTokens (Text.splitOn ' ' title)
      let stop := head.start + head.text.length + (Text.join [' '] kept).length
      let claimed := typographic ((text.take stop).drop head.start)
      -- an abbreviation is real when it identifies exactly one retrieved section
      let named := ordered.filter fun c => (typographic c).startsWith claimed
      ⟨head.start, stop, named.length = 1⟩

/-- `_citation_spans`. -/
def citationSpans (text : Text) (valid : List Text) : List CitationSpan :=
  (citationHead.finditer text).map (citationSpan text (longestFirst valid))

/-- The invented runs of an answer, cut back to front. -/
def cutInvented (text : Text) (spans : List CitationSpan) : Text :=
  spans.foldr (fun span text =>
    if span.real then text else text.take span.start ++ text.drop span.stop) text

/-- `_ORPHANED_LABEL`. -/
def orphanedLabel : Regex :=
  .cat [.opt (.lit "\n"), .star .space, .star (.anyOf "*_`"), .star .space,
    .wordsI ["citation", "source", "reference"], .opt (.litI "s"), .star .space, .opt (.lit ":"),
    .star .space, .star (.anyOf "*_`"), .star .space, .atEnd]

/-- `_drop_orphaned_label`: a trailing label that no longer introduces anything is
removed. -/
def dropOrphanedLabel (text : Text) : Text := Text.rstrip (orphanedLabel.subText [] text)

/-- An answer without its invented citations and what they leave behind. -/
def withoutInvented (text : Text) (spans : List CitationSpan) : Text :=
  let text := cutInvented text spans
  let text := Text.replace (Text.replace text "()" []) "[]" []
  dropOrphanedLabel (Text.strip (blankRun.subText [' '] text))

/-! ## Figures and comparisons -/

/-- `_MONEY_FLOOR`. -/
def moneyFloor : Nat := 100

/-- `_money_spans`: start, end and value of each money-sized number, in order. -/
def moneySpans (text : Text) : List (Nat × Nat × Nat) :=
  (figurePattern.finditer text).filterMap fun m =>
    let value := Text.toNat (figureDigits m.text)
    if moneyFloor ≤ value then some (m.start, m.stop, value) else none

/-- `_money`: the money-sized numbers of a text. -/
def money (text : Text) : List Nat := (moneySpans text).map (·.2.2)

/-- `_SENTENCE_RE`. -/
def sentencePattern : Regex :=
  .alt (.cat [.star (.noneOf ".!?"), .plus (.anyOf ".!?"), .star .space])
    (.seq (.plus (.noneOf ".!?")) .atEnd)

/-- `_GREATER`. -/
def greaterTerms : List Text :=
  ["exceeds", "exceed", "exceeding", "more than", "greater than", "higher than"]

/-- `_LESSER`. -/
def lesserTerms : List Text := ["under", "below", "less than", "lower than", "cheaper than"]

/-- `_COMPARISON_REACH`. -/
def comparisonReach : Nat := 25

/-- Whether the text between an amount and a comparison word separates them. -/
def separates (gap : Text) : Bool :=
  comparisonReach < gap.length || gap.elem ',' || gap.elem ';'

/-- `_compared_amounts`: the two amounts a comparison word relates, if it relates two. -/
def comparedAmounts (sentence : Text) (at_ length : Nat) : Option (Nat × Nat) :=
  let left := sentence.take at_
  let right := sentence.drop (at_ + length)
  match (moneySpans left).getLast?, (moneySpans right).head? with
  | some (_, stop, before), some (start, _, after) =>
      if separates (left.drop stop) || separates (right.take start) then none
      else some (before, after)
  | _, _ => none

/-- Whether one comparison word of a sentence settles it, and how: `some true` when its
two amounts disprove it. -/
def disproved (sentence : Text) (holds : Nat → Nat → Bool) (term : Text) : Option Bool :=
  (Text.find? (' ' :: term ++ [' ']) (Text.lower sentence)).bind fun at_ =>
    (comparedAmounts sentence (at_ + 1) term.length).map fun (a, b) => !holds a b

/-- `_contradicts_itself`: the first comparison word with two amounts decides. -/
def contradictsItself (sentence : Text) : Bool :=
  ((greaterTerms.findSome? (disproved sentence fun a b => b < a)).or
    (lesserTerms.findSome? (disproved sentence fun a b => a < b))).getD false

/-- `_drop_false_comparisons`: the text without the sentences that their own numbers
contradict. -/
def dropFalseComparisons (text : Text) : Text :=
  let sentences := sentencePattern.findall text
  let kept := sentences.filter fun s => !contradictsItself s
  if kept.length = sentences.length then text else Text.strip kept.flatten

section Patterns
open Regex

/-- `\$\s?[\d,]+`. -/
def dollarFigure : Regex :=
  .cat [.lit "$", .opt .space, .plus (.char fun c => isDigit c || c == ',')]

/-- `_ESTIMATED_AMOUNT_RE`. -/
def estimatedAmount : Regex :=
  .oneOf
    [.cat [.oneOf [.cat [litI "i", gap, litI "will"], litI "i'll",
          .cat [litI "let", .opt (.lit "'"), litI "s"], .cat [litI "we", gap, litI "will"],
          litI "we'll", .cat [litI "going", gap, litI "to"]], gap, litI "use", gap, dollarFigure],
      .cat [dollarFigure, .star .space, .lit "(", .star .space, .opt (.cat [litI "an", gap]),
        litI "estimate", .opt (.char fun c => sameLetter 'd' c || sameLetter 's' c),
        .star .space, .lit ")"],
      .cat [wordsI ["estimated", "approximate"], gap, wordsI ["amount", "total", "value"], gap,
        litI "of", gap, dollarFigure],
      .cat [dollarFigure, gap, litI "as", gap, litI "a", .opt (litI "n"), gap,
        .opt (.cat [wordsI ["initial", "rough", "placeholder"], gap]), litI "estimate"]]

/-- `_POLICY_CLAIM_RE`. -/
def policyClaim : Regex :=
  .oneOf
    [.cat [.wordEdge, wordsI ["is", "are", "isn't", "aren't", "was", "were"], gap,
        .opt (.cat [litI "not", gap]), litI "covered", .wordEdge],
      .cat [.wordEdge, litI "not", gap, litI "covered", .wordEdge],
      .cat [.wordEdge, litI "does", gap, litI "not", gap, litI "cover", .wordEdge],
      .cat [.wordEdge, litI "doesn", .opt (.lit "'"), litI "t", gap, litI "cover", .wordEdge],
      .cat [.wordEdge, litI "do", gap, litI "not", gap, litI "cover", .wordEdge],
      .cat [.wordEdge, .oneOf [.cat [litI "polic", .plus (.char isWord)], litI "section",
          litI "it", litI "this"], gap, litI "cover", .opt (litI "s"), .wordEdge],
      .cat [.wordEdge, wordsI ["is", "are"], gap, .opt (.cat [litI "strictly", gap]),
        litI "excluded", .wordEdge],
      .cat [.wordEdge, litI "strictly", gap, litI "excluded", .wordEdge],
      .cat [.wordEdge, litI "up", gap, litI "to", gap, dollarFigure],
      .cat [.lit "$", .opt .space, .plus (.char fun c => isDigit c || c == ',' || c == '.'), gap,
        litI "deductible", .wordEdge],
      .cat [.wordEdge, litI "deductible", gap, wordsI ["is", "of"], gap, dollarFigure],
      .cat [.wordEdge, litI "limit", gap, wordsI ["is", "of"], gap, dollarFigure]]

end Patterns

/-- `_asserts_an_estimated_amount`. -/
def assertsAnEstimatedAmount (text : Text) : Bool := estimatedAmount.found text

/-! ## Attribution -/

/-- The citations of the retrieved sections that have one. -/
def citationsOf (retrieved : List Chunk) : List Text :=
  (retrieved.map (·.citation)).filter (!·.isEmpty)

/-- `_sections_by_figure`: sections with a figure of their own that the answer has. -/
def sectionsByFigure (text : Text) (retrieved : List Chunk) : List Text :=
  let answer := money text
  retrieved.filterMap fun c =>
    let shared := (retrieved.filter (·.citation ≠ c.citation)).flatMap fun other => money other.text
    if !c.citation.isEmpty &&
        (money c.text).any fun n => !shared.contains n && answer.contains n then
      some c.citation
    else none

/-- `\b…\b` around a literal text. -/
def wholeWord (form : Text) : Regex := .cat [.wordEdge, .lit form, .wordEdge]

/-- `_named_sections`: retrieved sections the answer names by their citation, title,
number or name. -/
def namedSections (text : Text) (retrieved : List Chunk) : List Text :=
  retrieved.filterMap fun c =>
    let (number, name) := Text.partition ':' c.sectionTitle
    let forms := [c.citation, c.sectionTitle, Text.strip number, Text.strip name].filter
      (!·.isEmpty)
    if !c.citation.isEmpty && forms.any fun form => (wholeWord form).found text then
      some c.citation
    else none

/-! ## Confidence -/

/-- `_UNGROUNDED_CAP`. -/
def ungroundedCap : PyFloat := .fin 3 (-1)

/-- `_REWRITTEN_CAP`. -/
def rewrittenCap : PyFloat := .fin 5 (-1)

/-- `_GROUNDED`. -/
def grounded : PyFloat := .fin 85 (-2)

/-- `min(claimed, cap) if claimed is not None else cap`. -/
def cappedAt (cap : PyFloat) (claimed : Option PyFloat) : PyFloat :=
  (claimed.map fun c => PyFloat.min c cap).getD cap

/-- `_confidence_for`: what the system will stand behind, and the reason. -/
def confidenceFor (claimed : Option PyFloat)
    (unknown retrieved rewritten makesAPolicyClaim : Bool) :
    Option PyFloat × Option Text :=
  if unknown then
    (some (.fin 0 0), some "the assistant said the policy does not answer this".toList)
  else if !makesAPolicyClaim then (claimed, none)
  else if !retrieved then
    (some (cappedAt ungroundedCap claimed),
      some ("the answer states policy terms but nothing was retrieved this turn to support " ++
        "them").toList)
  else if rewritten then
    (some (cappedAt rewrittenCap claimed),
      some "part of the answer was removed as unsupported".toList)
  else (some (cappedAt grounded claimed), none)

end OmniCare
