import OmniCare.PyNumbers
import OmniCare.Regex

/-! # The figures of a policy section

`libs/policy/rules.py`: the limit and the deductible of a section are read out of its sentences by
the wording around them, and the section that governs a claim type is the one that names it.  A
figure such as `$,` has no `Decimal`, so reading a section may raise.

What `settlementTerms` returns are the arguments of `settle` beside the amount.
-/
namespace OmniCare

/-- `RuleKind`. -/
inductive RuleKind
  | limit
  | deductible
  | perItemThreshold
  deriving DecidableEq, Repr

section Patterns
open Regex

/-- `_AMOUNT`: the group is the figure. -/
def amountFigure : Regex :=
  .cat [.char (· == '$'), .opt .space,
    .group 1 (.cat [.plus (.char fun c => isDigit c || c == ','),
      .opt (.cat [.char (· == '.'), .times 2 .digit])])]

/-- `_PATTERNS`: the first pattern that matches a figure decides what it is. -/
def rulePatterns : List (RuleKind × Regex) :=
  [(.deductible, .cat [amountFigure, .gap, .litI "deductible"]),
    (.deductible, .cat [.litI "deductible", .gap, .litI "of", .gap, amountFigure]),
    (.perItemThreshold, .cat [.opt (.cat [.litI "single", .gap]), .litI "item", .opt (.litI "s"),
      .gap, .wordsI ["exceeding", "over", "above"], .gap, amountFigure]),
    (.limit, .cat [.litI "covered", .gap, .litI "up", .gap, .litI "to", .gap, amountFigure]),
    (.limit, .cat [.litI "up", .gap, .litI "to", .gap, amountFigure]),
    (.limit, .cat [.wordsI ["capped", "limited"], .gap, .wordsI ["at", "to"], .gap,
      amountFigure]),
    (.limit, .cat [.litI "maximum", .gap, .opt (.cat [.litI "of", .gap]), amountFigure])]

/-- `(?<=[.!?])\s+`. -/
def sentenceGap : Regex := .seq (.behind fun c => c == '.' || c == '!' || c == '?') .gap

/-- `_EXCLUSION_RE`. -/
def exclusionPattern : Regex :=
  .cat [.wordEdge,
    .oneOf [.litI "excluded", .cat [.litI "not", .gap, .litI "covered"],
      .cat [.litI "does", .gap, .litI "not", .gap, .litI "cover"],
      .cat [.litI "no", .gap, .litI "coverage"]],
    .wordEdge]

end Patterns

/-- `CoverageRule`. -/
structure CoverageRule where
  kind : RuleKind
  amount : PyDecimal
  sourceText : Text
  sectionTitle : Text := []
  deriving DecidableEq, Repr

/-- `_sentences`. -/
def sentences (text : Text) : List Text :=
  ((sentenceGap.split text).map Text.strip).filter fun s => !s.isEmpty

/-- `Decimal(raw.replace(",", ""))`. -/
def figureAmount (raw : Text) : Except PyError PyDecimal :=
  match PyDecimal.ofText (Text.replace raw "," []) with
  | some d => .ok d
  | none => .error ⟨"InvalidOperation", "[<class 'decimal.ConversionSyntax'>]"⟩

/-- The figures of a sentence with the kinds of their patterns, in the order in which they are
tried. -/
def figuresOf (sentence : Text) : List (RuleKind × Text) :=
  rulePatterns.flatMap fun (kind, pattern) =>
    (pattern.finditer sentence).map fun m => (kind, m.group 1)

/-- The figures of a sentence, one after the other: `claimed` are the figures already accounted for,
`found` the rules so far. -/
def claimFigures (sentence sectionTitle : Text) :
    List (RuleKind × Text) → List Text → List CoverageRule → Except PyError (List CoverageRule)
  | [], _, found => .ok found
  | (kind, raw) :: rest, claimed, found =>
      if raw ∈ claimed then claimFigures sentence sectionTitle rest claimed found
      else if found.any (·.kind = kind) then
        claimFigures sentence sectionTitle rest (raw :: claimed) found
      else do
        let amount ← figureAmount raw
        claimFigures sentence sectionTitle rest (raw :: claimed)
          (found ++ [{ kind, amount, sourceText := sentence, sectionTitle }])

theorem claimFigures_cons (sentence sectionTitle : Text) (kind : RuleKind) (raw : Text)
    (rest : List (RuleKind × Text)) (claimed : List Text) (found : List CoverageRule) :
    claimFigures sentence sectionTitle ((kind, raw) :: rest) claimed found =
      if raw ∈ claimed then claimFigures sentence sectionTitle rest claimed found
      else if found.any (·.kind = kind) then
        claimFigures sentence sectionTitle rest (raw :: claimed) found
      else (figureAmount raw).bind fun amount =>
        claimFigures sentence sectionTitle rest (raw :: claimed)
          (found ++ [{ kind, amount, sourceText := sentence, sectionTitle }]) := rfl

/-- `extract_rules`: one rule of each kind. -/
def extractRules (text sectionTitle : Text) : Except PyError (List CoverageRule) :=
  (sentences text).foldlM (fun found sentence =>
    claimFigures sentence sectionTitle (figuresOf sentence) [] found) []

/-- The rule of a kind. -/
def ruleOf (kind : RuleKind) (rules : List CoverageRule) : Option CoverageRule :=
  rules.find? (·.kind = kind)

/-- `_normalised`. -/
def normalised (text : Text) : Text := Text.lower (Text.strip (Regex.gap.subText " " text))

/-- A section of the policy: its title, its text and the file it is in. -/
structure PolicySection where
  title : Text
  text : Text
  sourceFile : Text := []
  deriving DecidableEq, Repr

/-- `wanted in _normalised(title) or wanted in _normalised(text)`. -/
def PolicySection.mentions (wanted : Text) (s : PolicySection) : Bool :=
  Text.contains (normalised s.title) wanted || Text.contains (normalised s.text) wanted

/-- The loop of `_governing_section`. -/
def governingFrom (wanted : Text) :
    List PolicySection → Option PolicySection → Except PyError (Option PolicySection)
  | [], fallback => .ok fallback
  | s :: rest, fallback =>
      if s.mentions wanted then do
        let rules ← extractRules s.text s.title
        if (ruleOf .limit rules).isSome then .ok (some s)
        else governingFrom wanted rest (fallback.or (some s))
      else governingFrom wanted rest fallback

/-- `_governing_section`. -/
def governingSection (claimType : Text) (sections : List PolicySection) :
    Except PyError (Option PolicySection) :=
  if (normalised claimType).isEmpty then .ok none
  else governingFrom (normalised claimType) sections none

/-- `exclusions_in`. -/
def exclusionsIn (text : Text) : List Text := (sentences text).filter exclusionPattern.found

/-- What `settlement_for` gives to `settle`, beside the amount. -/
structure Terms where
  limit : Option PyDecimal
  deductible : Option PyDecimal
  sectionTitle : Text
  sourceFile : Text
  policySays : List Text
  exclusions : List Text
  deriving DecidableEq, Repr

/-- `settlement_for`, up to `settle`. -/
def settlementTerms (claimType : Text) (sections : List PolicySection) :
    Except PyError (Option Terms) := do
  match ← governingSection claimType sections with
  | none => return none
  | some s =>
      let rules ← extractRules s.text s.title
      let limit := ruleOf .limit rules
      let deductible := ruleOf .deductible rules
      if limit.isNone && deductible.isNone then return none
      else
        return some
          { limit := limit.map (·.amount)
            deductible := deductible.map (·.amount)
            sectionTitle := s.title
            sourceFile := s.sourceFile
            policySays := ((limit.toList ++ deductible.toList).map (·.sourceText)).eraseDups
            exclusions := exclusionsIn s.text }

/-! ## Where the terms come from -/

theorem mem_of_governingFrom {wanted : Text} {sections : List PolicySection}
    {fallback : Option PolicySection} {s : PolicySection}
    (h : governingFrom wanted sections fallback = .ok (some s)) :
    s ∈ sections ∨ fallback = some s := by
  induction sections generalizing fallback with
  | nil =>
    right
    simpa [governingFrom] using h
  | cons t rest ih =>
    unfold governingFrom at h
    split at h
    · obtain ⟨rules, -, h⟩ := exists_ok_of_bind h
      split at h
      · left
        cases h
        exact List.mem_cons_self
      · rcases ih h with hrest | hfallback
        · exact .inl (List.mem_cons_of_mem _ hrest)
        · cases fallback with
          | none =>
            left
            cases hfallback
            exact List.mem_cons_self
          | some f => exact .inr hfallback
    · exact (ih h).imp (List.mem_cons_of_mem _) id

/-- Terms are read out of one section: its limit and its deductible, which are not both missing. -/
structure ReadFrom (t : Terms) (s : PolicySection) : Prop where
  section_eq : t.sectionTitle = s.title ∧ t.sourceFile = s.sourceFile
  figures : ∃ rules, extractRules s.text s.title = .ok rules ∧
    t.limit = (ruleOf .limit rules).map (·.amount) ∧
    t.deductible = (ruleOf .deductible rules).map (·.amount)
  stated : t.limit.isSome ∨ t.deductible.isSome

/-- **The terms of a settlement are read out of one of the sections** it is given. -/
theorem exists_readFrom {claimType : Text} {sections : List PolicySection} {t : Terms}
    (h : settlementTerms claimType sections = .ok (some t)) : ∃ s ∈ sections, ReadFrom t s := by
  unfold settlementTerms at h
  obtain ⟨governing, hgoverning, h⟩ := exists_ok_of_bind h
  cases governing with
  | none => cases h
  | some s =>
    have hs : s ∈ sections := by
      unfold governingSection at hgoverning
      split at hgoverning
      · cases hgoverning
      · exact (mem_of_governingFrom hgoverning).resolve_right nofun
    obtain ⟨rules, hrules, h⟩ := exists_ok_of_bind h
    refine ⟨s, hs, ?_⟩
    dsimp only at h
    split at h
    · cases h
    · rename_i hstated
      cases h
      refine ⟨⟨rfl, rfl⟩, ⟨rules, hrules, rfl, rfl⟩, ?_⟩
      simp only [Option.isSome_map]
      revert hstated
      cases ruleOf .limit rules <;> cases ruleOf .deductible rules <;> simp

end OmniCare
