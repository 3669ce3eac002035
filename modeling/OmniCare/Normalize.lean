import Mathlib.Data.List.Sort
import OmniCare.Regex

/-! # Spoken-form entity normalization

`libs/guardrails/normalize.py`: identifiers and amounts as people say them, read into
their canonical form.  `normalizePolicyNumber` and `normalizeClaimId` find one
identifier; `spokenAmounts` finds every money-sized figure; `phoneticReadback` spells
an identifier out so that it can be verified by ear.
-/
namespace OmniCare

/-! ## Number words -/

/-- `_UNITS`. -/
def units : List (Text × Nat) :=
  [("zero", 0), ("oh", 0), ("o", 0), ("one", 1), ("two", 2), ("three", 3), ("four", 4),
    ("five", 5), ("six", 6), ("seven", 7), ("eight", 8), ("nine", 9), ("ten", 10),
    ("eleven", 11), ("twelve", 12), ("thirteen", 13), ("fourteen", 14), ("fifteen", 15),
    ("sixteen", 16), ("seventeen", 17), ("eighteen", 18), ("nineteen", 19)]

/-- `_TENS`. -/
def tens : List (Text × Nat) :=
  [("twenty", 20), ("thirty", 30), ("forty", 40), ("fourty", 40), ("fifty", 50),
    ("sixty", 60), ("seventy", 70), ("eighty", 80), ("ninety", 90)]

/-- `_LETTERS`. -/
def letters : List (Text × Text) :=
  [("pee", "P"), ("oh", "O"), ("el", "L"), ("ell", "L"), ("see", "C"), ("sea", "C"),
    ("em", "M"), ("cee", "C")]

/-- `_POLICY_CUES`. -/
def policyCues : List Text := ["pol", "policy", "policy number", "p o l"]

/-- `_CLAIM_CUES`. -/
def claimCues : List Text := ["clm", "claim", "claim number", "c l m"]

/-- `_FILLER`: said between the cue and the digits, and carrying none of them. -/
def filler : List Text :=
  ["is", "number", "no", "the", "my", "it", "was", "of", "for", "hash"]

/-- `_SCALES`: multipliers, which separate an amount from an identifier. -/
def scales : List (Text × Nat) :=
  [("hundred", 100), ("thousand", 1000), ("million", 1000000)]

/-- `_SPOKEN_FLOOR`. -/
def spokenFloor : Nat := 100

/-- `_WRITTEN_FLOOR`. -/
def writtenFloor : Nat := 1

/-- `s.isdigit()`: digits only, at least one.  They need not be decimal digits, which are all that
`\d` takes. -/
def isDigits (s : Text) : Bool := !s.isEmpty && s.all isDigitChar

/-! ## Identifiers -/

/-- `_words_to_digits`: spoken number groups concatenated into a digit string. -/
def wordsToDigits : List Text → Text
  | [] => []
  | token :: rest =>
      let t := Text.lower token
      if isDigits t then t ++ wordsToDigits rest
      else
        match tens.lookup t, rest with
        | some value, next :: rest' =>
            match units.lookup (Text.lower next) with
            | some unit =>
                -- a tens word takes a unit from one to nine with it
                if 1 ≤ unit ∧ unit ≤ 9 then Text.ofNat (value + unit) ++ wordsToDigits rest'
                else Text.ofNat value ++ wordsToDigits (next :: rest')
            | none => Text.ofNat value ++ wordsToDigits (next :: rest')
        | some value, [] => Text.ofNat value
        | none, rest =>
            match units.lookup t with
            | some unit => Text.ofNat unit ++ wordsToDigits rest
            | none => wordsToDigits rest

/-- The loop of `_identifier_run`, with the run read so far. -/
def identifierRunFrom (run : List Text) : List Text → List Text
  | [] => run
  | token :: rest =>
      let word := Text.stripBy (",.;:".toList.elem ·) (Text.lower token)
      if isDigits word || (units.lookup word).isSome || (tens.lookup word).isSome then
        identifierRunFrom (run ++ [word]) rest
      else if run ≠ [] then run
      else if filler.elem word then identifierRunFrom run rest
      else run

/-- `_identifier_run`: the number words that form the identifier, and nothing after
them. -/
def identifierRun (tokens : List Text) : List Text := identifierRunFrom [] tokens

/-- The pattern of an identifier that is canonical or one hyphen or space away from
it: `\b{prefix}\s*[-\s]?\s*(\d{4})\b`. -/
def directPattern (pre : Text) : Regex :=
  .cat [.wordEdge, .lit pre, .star .space, .opt (.char fun c => c == '-' || isSpace c),
    .star .space, .group 1 (.times 4 .digit), .wordEdge]

/-- The pattern of a prefix whose letters are spelled out: `\bP O L\b(.*)` under
`re.IGNORECASE`. -/
def letterwisePattern (pre : Text) : Regex :=
  .cat [.wordEdge, .litI (Text.join [' '] ((Text.upper pre).map ([·]))), .wordEdge,
    .group 1 (.star .dot)]

/-- The text after the first cue that occurs, the longest cue first. -/
def afterCue (joined : Text) (cues : List Text) : Option Text :=
  (cues.insertionSort fun a b => b.length ≤ a.length).findSome? fun cue =>
    (Text.find? cue joined).map fun idx => joined.drop (idx + cue.length)

/-- `_canonicalize`. -/
def canonicalize (text pre : Text) (cues : List Text) : Option Text :=
  let lowered := Text.lower text
  match (directPattern pre).search lowered with
  | some direct => some (Text.upper pre ++ '-' :: direct.group 1)
  | none =>
      let spaced := lowered.map fun c => if c == '.' || c == '-' then ' ' else c
      let tokens := (Text.words spaced).map fun t => (letters.lookup t).getD t
      let joined := Text.join [' '] tokens
      let tail :=
        match (letterwisePattern pre).search joined with
        | some letterwise => some (letterwise.group 1)
        | none => afterCue joined cues
      match tail with
      | none => none
      | some tail =>
          let digits := wordsToDigits (identifierRun (Text.words tail))
          if digits.length = 4 then some (Text.upper pre ++ '-' :: digits) else none

/-- `normalize_policy_number`. -/
def normalizePolicyNumber (text : Text) : Option Text := canonicalize text "pol" policyCues

/-- `normalize_claim_id`. -/
def normalizeClaimId (text : Text) : Option Text := canonicalize text "clm" claimCues

/-! ## Amounts -/

/-- A written figure: `\d[\d,]*`. -/
def figurePattern : Regex := .seq .digit (.star (.char fun c => isDigit c || c == ','))

/-- A character of a figure. -/
def isFigureChar (c : Char) : Bool := isDigit c || c == ','

theorem isFigureChar_of_isDigit {c : Char} (h : isDigit c = true) : isFigureChar c = true := by
  rw [isFigureChar, h, Bool.true_or]

theorem not_comma_of_isDigit {c : Char} (h : isDigit c = true) : (c == ',') = false := by
  rw [Bool.eq_false_iff]
  intro hcomma
  rw [eq_of_beq hcomma] at h
  revert h
  decide

/-- The digits of a written figure, without its commas. -/
def figureDigits (s : Text) : Text := s.filter (· ≠ ',')

/-- The state of the scan for spoken quantities: thousands and millions read so far,
the group being read, and whether a number word has been seen. -/
structure Spoken where
  total : Nat := 0
  current : Nat := 0
  seen : Bool := false

/-- The quantity read when the number words end, if it is one. -/
def Spoken.quantity (s : Spoken) : List Nat :=
  if s.seen ∧ spokenFloor ≤ s.total + s.current then [s.total + s.current] else []

/-- `current or 1`. -/
def orOne (n : Nat) : Nat := if n = 0 then 1 else n

/-- One word of the scan for spoken quantities. -/
def Spoken.word (s : Spoken) (raw : Text) : Spoken × List Nat :=
  match units.lookup raw, tens.lookup raw, scales.lookup raw with
  | some n, _, _ => ({ s with current := s.current + n, seen := true }, [])
  | none, some n, _ => ({ s with current := s.current + n, seen := true }, [])
  | none, none, some scale =>
      if scale = 100 then ({ s with current := orOne s.current * 100, seen := true }, [])
      else (⟨s.total + orOne s.current * scale, 0, true⟩, [])
  | none, none, none =>
      if raw = "and".toList ∧ s.seen then (s, []) else ({}, s.quantity)

/-- The scan for spoken quantities over a list of words. -/
def spokenQuantities : Spoken → List Text → List Nat
  | s, [] => s.quantity
  | s, raw :: rest => (s.word raw).2 ++ spokenQuantities (s.word raw).1 rest

/-- `spoken_amounts`: every money-sized quantity in a text, written or spoken. -/
def spokenAmounts (text : Text) : List Nat :=
  (((figurePattern.findall text).map fun m => Text.toNat (figureDigits m)).filter
      (writtenFloor ≤ ·)) ++
    spokenQuantities {} ((Regex.plus (.char fun c => !c.isLower)).split (Text.lower text))

/-! ## Read-back -/

/-- The word for a digit, or the character itself. -/
def digitWord (c : Char) : Text :=
  match c with
  | '0' => "zero" | '1' => "one" | '2' => "two" | '3' => "three" | '4' => "four"
  | '5' => "five" | '6' => "six" | '7' => "seven" | '8' => "eight" | '9' => "nine"
  | c => [c]

/-- `phonetic_readback`: `CLM-8821` becomes `C-L-M, eight eight two one`. -/
def phoneticReadback (identifier : Text) : Text :=
  let (pre, digits) := Text.partition '-' identifier
  Text.join ['-'] ((Text.upper pre).map ([·])) ++ ", ".toList ++
    Text.join [' '] (digits.map digitWord)

example : normalizePolicyNumber "policy ten ninety two for twelve hundred dollars" =
    some "POL-1092" := by decide +kernel

example : phoneticReadback "CLM-8821" = "C-L-M, eight eight two one" := by decide +kernel

end OmniCare
