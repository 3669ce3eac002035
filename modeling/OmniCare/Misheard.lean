import OmniCare.Identifiers
import OmniCare.StatedAmounts

/-! # Amounts taken for identifiers

An identifier is known only by what stands before its digits, and the filler that may stand between
introduces an amount as well: `claim for 1500 dollars`.  `TakenFor` says of a text, by its words,
that a number in it is taken for an identifier: the letters `pol` or `clm` stand directly before
four digits, or behind the cue, and nothing but filler, the words of a number make four digits.
**A message yields no identifier, and no policy number that the customer has stated, exactly when
none of its numbers is taken so** (`kept_apart_iff`).
-/
namespace OmniCare

/-! ## Messages whose numbers are amounts -/

/-- Where a reader of amounts stands: outside a number, behind a dollar sign or not, or in a number
that is known for an amount, or not yet. -/
inductive AmountState
  | outside (dollar : Bool)
  | inside (amount : Bool)
  deriving DecidableEq, Repr

/-- A word of a number, in digits or in words. -/
def isNumeric (word : Text) : Bool := word.any isDigitChar || isNumberWord word

/-- Every number among the words has a dollar sign before it or `dollars` behind it. -/
def onlyAmountsFrom : AmountState → List Text → Bool
  | .inside false, [] => false
  | _, [] => true
  | .outside dollar, word :: rest =>
      if isNumeric word then onlyAmountsFrom (.inside (dollar || word.head? == some '$')) rest
      else onlyAmountsFrom (.outside (word == "$".toList)) rest
  | .inside amount, word :: rest =>
      if isNumeric word || word == "and".toList then onlyAmountsFrom (.inside amount) rest
      else (amount || word == "dollars".toList) &&
        onlyAmountsFrom (.outside (word == "$".toList)) rest

/-- **Every number of the text is an amount of money.** -/
def onlyAmounts (text : Text) : Bool :=
  onlyAmountsFrom (.outside false)
    ((Text.words ((Text.lower text).map fun c => if c == '-' then ' ' else c)).map
      (Text.stripBy ",.;:!?".toList.elem))

example : onlyAmounts "A claim for $1,500.00, or twelve-hundred and five dollars" = true := by
  decide +kernel

example : onlyAmounts "My policy is ten ninety two, for $1,500" = false := by decide +kernel

/-! ## What is taken -/

/-- A number of the text is taken for an identifier: the letters of the prefix stand directly before
its four digits, or its words, which make four digits, stand behind the cue and filler. -/
def TakenFor (kind : IdKind) (text : Text) : Prop :=
  (directPattern kind.pre).found (Text.lower text) = true ∨
    ∃ tail fillers run rest, behindCue kind text = some tail ∧
      Text.words tail = fillers ++ (run ++ rest) ∧ fillers.all isFiller = true ∧
      run.all tellsNumber = true ∧ rest.head?.any tellsNumber = false ∧
      (wordsToDigits (run.map bare)).length = 4

/-- **A text yields no identifier if and only if no number is taken for one.** -/
theorem normalize_eq_none_iff {kind : IdKind} {text : Text} :
    kind.normalize text = none ↔ ¬ TakenFor kind text := by
  rw [normalize_eq, TakenFor, Regex.found]
  cases (directPattern kind.pre).search (Text.lower text) with
  | some direct => simp
  | none =>
    simp only [Option.isSome_none, Bool.false_eq_true, false_or]
    cases behindCue kind text with
    | none => simp
    | some tail =>
      by_cases hfour : (readDigits tail).length = 4
      · simp only [hfour, if_true]
        refine iff_of_false (by simp) ?_
        rw [not_not]
        have hne : identifierRun (Text.words tail) ≠ [] := by
          intro hnil
          rw [readDigits, hnil] at hfour
          cases hfour
        obtain ⟨fillers, run, rest, hwords, hfillers, hrun, hnumbers, hrest⟩ :=
          exists_of_identifierRun hne
        refine ⟨tail, fillers, run, rest, rfl, hwords, hfillers, hnumbers, hrest, ?_⟩
        rw [readDigits, hwords, identifierRun_append hfillers hrun hnumbers hrest] at hfour
        exact hfour
      · simp only [hfour, if_false]
        refine iff_of_true trivial ?_
        rintro ⟨tail', fillers, run, rest, heq, hwords, hfillers, hnumbers, hrest, hdigits⟩
        cases heq
        have hrun : run ≠ [] := by
          rintro rfl
          cases hdigits
        rw [readDigits, hwords, identifierRun_append hfillers hrun hnumbers hrest] at hfour
        exact hfour hdigits

/-- **A message yields no identifier, and no policy number that the customer has stated, if and only
if** no number is taken for an identifier and `POL` stands nowhere before four digits, directly or
with one blank or hyphen between. -/
theorem kept_apart_iff (text : Text) :
    (normalizePolicyNumber text = none ∧ normalizeClaimId text = none ∧
        policyNumbersStated [.human text] = []) ↔
      ¬ TakenFor .policy text ∧ ¬ TakenFor .claim text ∧ policyPattern.findall text = [] := by
  rw [← normalize_eq_none_iff, ← normalize_eq_none_iff, IdKind.normalize_policy,
    IdKind.normalize_claim]
  refine and_congr_right fun hpolicy => and_congr_right fun _ => ?_
  have hstated : policyNumbersStated [.human text] = policyNumbersIn text := by
    show List.flatMap _ [text] = _
    rw [List.flatMap_singleton, hpolicy]
    rfl
  rw [hstated, policyNumbersIn, List.map_eq_nil_iff]

/-- An amount behind `claim for` is taken for a claim. -/
theorem amount_taken_for_claim : ¬ ∀ text : Text, onlyAmounts text = true →
    normalizePolicyNumber text = none ∧ normalizeClaimId text = none ∧
      policyNumbersStated [.human text] = [] := by
  intro h
  have hnone := (h "File a claim for 1500 dollars" (by decide +kernel)).2.1
  have hsome : normalizeClaimId "File a claim for 1500 dollars" = some "CLM-1500" := by
    decide +kernel
  rw [hsome] at hnone
  cases hnone

end OmniCare
