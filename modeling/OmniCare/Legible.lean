import OmniCare.Breakdown
import OmniCare.Figures

/-! # The sections that a claim cannot be filed against

`submit_claim` computes the payment split before it appends the claim, and lets through what the
computation raises.  So a figure without a digit such as `$,` in a section that is read for the
claim type stops the claim, and a figure too long for the decimal context in the section that
governs; in every other case one claim is appended and its id returned, also where the policy cannot
be fetched (`files_one_claim_iff`).
-/
namespace OmniCare

variable {S : Type}

/-! ## The sections that are read -/

namespace PolicySection

/-- The section states a limit. -/
def statesLimit (s : PolicySection) : Bool := (firstFigure .limit s.text).isSome

/-- The first figure of each kind has a digit. -/
def Legible (s : PolicySection) : Prop :=
  ∀ kind raw, firstFigure kind s.text = some raw → raw.any isDigit = true

/-- The limit and the deductible are not too long for the decimal context. -/
def Fitting (s : PolicySection) : Prop :=
  ∀ kind ∈ [RuleKind.limit, .deductible], ∀ raw d x, firstFigure kind s.text = some raw →
    figureAmount raw = .ok d → d.rational = .ok x → Fits contextPrecision x

end PolicySection

/-- The sections that are read for a claim type: those that mention it, up to the first that states
a limit. -/
def sectionsRead (wanted : Text) : List PolicySection → List PolicySection
  | [] => []
  | s :: rest =>
      if s.mentions wanted then s :: (if s.statesLimit then [] else sectionsRead wanted rest)
      else sectionsRead wanted rest

/-- The section that governs: of those read the one that states a limit, or else the first. -/
def governs (wanted : Text) (sections : List PolicySection) : Option PolicySection :=
  ((sectionsRead wanted sections).find? PolicySection.statesLimit).or
    (sectionsRead wanted sections).head?

/-- The sections that are read are legible, and the figures of the one that governs are not too
long. -/
structure Settleable (claimType : Text) (sections : List PolicySection) : Prop where
  legible : ∀ s ∈ sectionsRead (normalised claimType) sections, s.Legible
  fitting : ∀ s ∈ governs (normalised claimType) sections, s.Fitting

/-! ## The section that governs -/

section Governing

variable {wanted : Text} {sections : List PolicySection}

theorem ruleOf_isSome {text sectionTitle : Text} {rules : List CoverageRule}
    (h : extractRules text sectionTitle = .ok rules) (kind : RuleKind) :
    (ruleOf kind rules).isSome = (firstFigure kind text).isSome := by
  have hamount := amountOf_extractRules h kind
  rw [← Option.isSome_map (f := CoverageRule.amount)]
  show (amountOf kind rules).isSome = _
  rw [hamount]
  cases hfirst : firstFigure kind text with
  | none => rfl
  | some raw =>
    obtain ⟨d, hd⟩ := extractRules_readable.mp ⟨rules, h⟩ kind raw hfirst
    rw [Option.bind_some, hd]
    rfl

theorem governingFrom_eq (h : ∀ s ∈ sectionsRead wanted sections, s.Legible)
    (fallback : Option PolicySection) :
    governingFrom wanted sections fallback =
      .ok (((sectionsRead wanted sections).find? PolicySection.statesLimit).or
        (fallback.or (sectionsRead wanted sections).head?)) := by
  induction sections generalizing fallback with
  | nil =>
    rw [governingFrom, sectionsRead, List.find?_nil, Option.none_or, List.head?_nil, Option.or_none]
  | cons s rest ih =>
    rw [governingFrom]
    rw [sectionsRead] at h ⊢
    by_cases hs : s.mentions wanted = true
    · rw [if_pos hs] at h
      rw [if_pos hs, if_pos hs]
      obtain ⟨rules, hrules⟩ := extractRules_iff.mpr (h s List.mem_cons_self)
      have hlimit : (ruleOf .limit rules).isSome = s.statesLimit := ruleOf_isSome hrules .limit
      rw [hrules, ok_bind, hlimit]
      cases hstates : s.statesLimit with
      | true =>
        rw [if_pos rfl, if_pos rfl, List.find?_cons_of_pos hstates]
        rfl
      | false =>
        rw [hstates, if_neg Bool.false_ne_true] at h
        rw [if_neg Bool.false_ne_true, if_neg Bool.false_ne_true,
          ih (fun t ht => h t (List.mem_cons_of_mem _ ht)),
          List.find?_cons_of_neg (by rw [hstates]; exact Bool.false_ne_true), List.head?_cons]
        cases fallback with
        | none => rfl
        | some t => rfl
    · rw [if_neg hs] at h
      rw [if_neg hs, if_neg hs]
      exact ih h fallback

theorem legible_of_governingFrom {fallback r : Option PolicySection}
    (h : governingFrom wanted sections fallback = .ok r) :
    ∀ s ∈ sectionsRead wanted sections, s.Legible := by
  induction sections generalizing fallback with
  | nil => exact nofun
  | cons s rest ih =>
    rw [governingFrom] at h
    rw [sectionsRead]
    by_cases hs : s.mentions wanted = true
    · rw [if_pos hs] at h ⊢
      obtain ⟨rules, hrules, h⟩ := exists_ok_of_bind h
      have hlegible : s.Legible := extractRules_iff.mp ⟨rules, hrules⟩
      have hlimit : (ruleOf .limit rules).isSome = s.statesLimit := ruleOf_isSome hrules .limit
      rw [hlimit] at h
      intro t ht
      rcases List.mem_cons.mp ht with rfl | ht
      · exact hlegible
      · cases hstates : s.statesLimit with
        | true =>
          rw [hstates, if_pos rfl] at ht
          cases ht
        | false =>
          rw [hstates, if_neg Bool.false_ne_true] at h ht
          exact ih h t ht
    · rw [if_neg hs] at h ⊢
      exact ih h

theorem mem_sectionsRead_of_governs {s : PolicySection} (h : governs wanted sections = some s) :
    s ∈ sectionsRead wanted sections := by
  unfold governs at h
  rcases Option.or_eq_some_iff.mp h with hfind | ⟨-, hhead⟩
  · exact List.mem_of_find?_eq_some hfind
  · exact List.mem_of_head? hhead

/-- **The section that governs is found exactly where every section that is read is legible.** -/
theorem governingSection_iff {claimType : Text} (hblank : normalised claimType ≠ [])
    {r : Option PolicySection} :
    governingSection claimType sections = .ok r ↔
      (∀ s ∈ sectionsRead (normalised claimType) sections, s.Legible) ∧
        r = governs (normalised claimType) sections := by
  unfold governingSection
  rw [if_neg (by simpa using hblank)]
  constructor
  · intro h
    have hlegible := legible_of_governingFrom h
    rw [governingFrom_eq hlegible] at h
    exact ⟨hlegible, (Except.ok.inj h).symm⟩
  · rintro ⟨hlegible, rfl⟩
    exact governingFrom_eq hlegible none

end Governing

/-! ## The settlement -/

/-- The amount of a rule is an amount of money, the one of its figure. -/
structure Reads (text : Text) (rules : List CoverageRule) (kind : RuleKind)
    (amount : Option Amount) : Prop where
  rule : (amountOf kind rules).mapM PyDecimal.rational = .ok (amount.map Amount.value)
  figure : ∀ x, (∃ a ∈ amount, a.value = x) ↔ ∃ raw d, firstFigure kind text = some raw ∧
    figureAmount raw = .ok d ∧ d.rational = .ok x

theorem rational_of_isFigure {raw : Text} (h : IsFigure raw) {d : PyDecimal}
    (hd : figureAmount raw = .ok d) : ∃ a : Amount, d.rational = .ok a.value := by
  obtain ⟨n, rfl | rfl⟩ := amount_of_isFigure h hd
  · refine ⟨.ofNat n, ?_⟩
    show Except.ok (scaled n 0) = .ok (n : ℚ)
    rw [scaled_eq, zpow_zero, mul_one]
    rfl
  · have hvalue : scaled n (-2) = (n : ℚ) / 100 := by
      rw [scaled_eq, div_eq_mul_inv]
      norm_num
    refine ⟨⟨n / 100, by positivity, n, by push_cast; ring⟩, ?_⟩
    show Except.ok (scaled n (-2)) = .ok ((n : ℚ) / 100)
    rw [hvalue]

theorem exists_reads {text sectionTitle : Text} {rules : List CoverageRule}
    (h : extractRules text sectionTitle = .ok rules) (kind : RuleKind) :
    ∃ amount, Reads text rules kind amount := by
  have hamount := amountOf_extractRules h kind
  cases hfirst : firstFigure kind text with
  | none =>
    rw [hfirst, Option.bind_none] at hamount
    refine ⟨none, by rw [hamount]; rfl, fun x => ⟨?_, ?_⟩⟩
    · rintro ⟨a, ha, -⟩
      cases ha
    · rintro ⟨raw, d, hraw, -⟩
      rw [hfirst] at hraw
      cases hraw
  | some raw =>
    obtain ⟨d, hd⟩ := extractRules_readable.mp ⟨rules, h⟩ kind raw hfirst
    obtain ⟨a, ha⟩ := rational_of_isFigure (isFigure_of_firstFigure hfirst) hd
    rw [hfirst, Option.bind_some, hd] at hamount
    refine ⟨some a, ?_, fun x => ⟨?_, ?_⟩⟩
    · rw [hamount]
      show d.rational.map some = _
      rw [ha]
      rfl
    · rintro ⟨b, hb, rfl⟩
      cases hb
      exact ⟨raw, d, hfirst, hd, ha⟩
    · rintro ⟨raw', d', hraw', hd', hx⟩
      rw [hfirst] at hraw'
      cases hraw'
      rw [hd] at hd'
      cases hd'
      rw [ha] at hx
      cases hx
      exact ⟨a, rfl, rfl⟩

theorem fitting_iff {s : PolicySection} {rules : List CoverageRule}
    {limit deductible : Option Amount} (hlimit : Reads s.text rules .limit limit)
    (hdeductible : Reads s.text rules .deductible deductible) :
    s.Fitting ↔ (∀ l ∈ limit, Fits contextPrecision l.value) ∧
      ∀ d ∈ deductible, Fits contextPrecision d.value := by
  unfold PolicySection.Fitting
  constructor
  · intro h
    constructor
    · intro l hl
      obtain ⟨raw, d, hraw, hd, hx⟩ := (hlimit.figure l.value).mp ⟨l, hl, rfl⟩
      exact h .limit (by simp) raw d _ hraw hd hx
    · intro l hl
      obtain ⟨raw, d, hraw, hd, hx⟩ := (hdeductible.figure l.value).mp ⟨l, hl, rfl⟩
      exact h .deductible (by simp) raw d _ hraw hd hx
  · rintro ⟨hl, hd⟩ kind hkind raw d x hraw hamount hx
    rcases List.mem_cons.mp hkind with rfl | hkind
    · obtain ⟨a, ha, rfl⟩ := (hlimit.figure x).mpr ⟨raw, d, hraw, hamount, hx⟩
      exact hl a ha
    · obtain rfl := List.mem_singleton.mp hkind
      obtain ⟨a, ha, rfl⟩ := (hdeductible.figure x).mpr ⟨raw, d, hraw, hamount, hx⟩
      exact hd a ha

/-- A settlement whose parts fit the decimal context can be reported. -/
theorem split_of_reported {s : Settlement} {applied excess : ℚ}
    (happlied : s.appliedDeductible contextPrecision = .ok applied)
    (hexcess : s.excess contextPrecision = .ok excess) : ∃ split, s.split = .ok split := by
  have hdict : ∃ asDict, s.asDict contextPrecision = .ok asDict := by
    unfold Settlement.asDict
    rw [happlied, ok_bind, hexcess]
    exact ⟨_, rfl⟩
  have hsummary : ∃ summary, s.summary contextPrecision = .ok summary := by
    unfold Settlement.summary
    dsimp only
    split
    · exact ⟨_, rfl⟩
    · rw [happlied, ok_bind, hexcess]
      exact ⟨_, rfl⟩
  obtain ⟨asDict, hdict⟩ := hdict
  obtain ⟨summary, hsummary⟩ := hsummary
  unfold Settlement.split
  rw [hdict, ok_bind, hsummary]
  exact ⟨_, rfl⟩

/-- The outcome of a settlement once the terms are known. -/
theorem settled_iff {claimed : Amount} (hclaimed : Fits contextPrecision claimed.value)
    (limit deductible : Option Amount) (sectionTitle sourceFile : Text)
    (policySays exclusions : List Text) :
    ((∃ s, settle contextPrecision claimed.value (limit.map Amount.value)
        (deductible.map Amount.value) sectionTitle sourceFile policySays exclusions = .ok s) ↔
      (∀ l ∈ limit, Fits contextPrecision l.value) ∧
        ∀ d ∈ deductible, Fits contextPrecision d.value) ∧
    ∀ s, settle contextPrecision claimed.value (limit.map Amount.value)
        (deductible.map Amount.value) sectionTitle sourceFile policySays exclusions = .ok s →
      ∃ split, s.split = .ok split := by
  constructor
  · constructor
    · rintro ⟨s, h⟩
      exact fits_of_settle h
    · rintro ⟨hlimit, hdeductible⟩
      exact ⟨_, settle_of_fits hclaimed hlimit hdeductible⟩
  · intro s h
    obtain ⟨hlimit, hdeductible⟩ := fits_of_settle h
    rw [settle_of_fits hclaimed hlimit hdeductible] at h
    cases h
    obtain ⟨⟨applied, happlied⟩, excess, hexcess⟩ := reported_of_fits hclaimed
    exact split_of_reported happlied hexcess

/-- **A claim is settled exactly where the sections that are read are legible and the figures of the
one that governs fit the decimal context.**  Its split can then be reported. -/
theorem settlementFor_iff {claimType : Text} (hblank : normalised claimType ≠ [])
    {claimed : Amount} (hclaimed : Fits contextPrecision claimed.value)
    (sections : List PolicySection) :
    ((∃ r, settlementFor contextPrecision claimType (.ok claimed.value) sections = .ok r) ↔
      Settleable claimType sections) ∧
    ∀ s, settlementFor contextPrecision claimType (.ok claimed.value) sections = .ok (some s) →
      ∃ split, s.split = .ok split := by
  unfold settlementFor settlementTerms
  cases hgoverning : governingSection claimType sections with
  | error e =>
    refine ⟨⟨fun ⟨r, h⟩ => (nomatch h), fun h => ?_⟩, fun s h => (nomatch h)⟩
    have hok := (governingSection_iff hblank).mpr ⟨h.legible, rfl⟩
    rw [hgoverning] at hok
    cases hok
  | ok governing =>
    obtain ⟨hlegible, rfl⟩ := (governingSection_iff hblank).mp hgoverning
    cases hgoverns : governs (normalised claimType) sections with
    | none =>
      refine ⟨⟨fun _ => ⟨hlegible, ?_⟩, fun _ => ⟨none, rfl⟩⟩, fun s h => (nomatch h)⟩
      rw [hgoverns]
      exact nofun
    | some s =>
      have hread : ∃ rules, extractRules s.text s.title = .ok rules :=
        extractRules_iff.mpr (hlegible s (mem_sectionsRead_of_governs hgoverns))
      obtain ⟨rules, hrules⟩ := hread
      obtain ⟨limit, hlimit⟩ := exists_reads hrules .limit
      obtain ⟨deductible, hdeductible⟩ := exists_reads hrules .deductible
      have hsettleable : Settleable claimType sections ↔ s.Fitting := by
        refine ⟨fun h => h.fitting s hgoverns, fun h => ⟨hlegible, fun t ht => ?_⟩⟩
        rw [hgoverns] at ht
        cases ht
        exact h
      rw [hsettleable, fitting_iff hlimit hdeductible]
      simp only [ok_bind, hrules]
      have hlrule := hlimit.rule
      have hdrule := hdeductible.rule
      unfold amountOf at hlrule hdrule
      split
      · rename_i hstated
        obtain ⟨hnone, hnone'⟩ : ruleOf .limit rules = none ∧ ruleOf .deductible rules = none := by
          simpa using hstated
        rw [hnone] at hlrule
        rw [hnone'] at hdrule
        obtain rfl : limit = none := Option.map_eq_none_iff.mp (Except.ok.inj hlrule).symm
        obtain rfl : deductible = none := Option.map_eq_none_iff.mp (Except.ok.inj hdrule).symm
        exact ⟨⟨fun _ => ⟨nofun, nofun⟩, fun _ => ⟨none, rfl⟩⟩, fun s h => (nomatch h)⟩
      · simp only [pure_bind, hlrule, hdrule, ok_bind]
        have hsettled := settled_iff hclaimed limit deductible s.title s.sourceFile
          ((((ruleOf .limit rules).toList ++ (ruleOf .deductible rules).toList).map
            (·.sourceText)).eraseDups) (exclusionsIn s.text)
        rw [← hsettled.1]
        constructor
        · constructor
          · rintro ⟨r, h⟩
            obtain ⟨t, ht, -⟩ := exists_ok_of_bind h
            exact ⟨t, ht⟩
          · rintro ⟨t, ht⟩
            rw [ht]
            exact ⟨some t, rfl⟩
        · intro t h
          obtain ⟨t', ht, h⟩ := exists_ok_of_bind h
          cases h
          exact hsettled.2 t ht

/-! ## Filing -/

/-- `RetrievalClient.sections`: nothing where the policy cannot be fetched. -/
def fetchedSections (fetch : Except PyError (List PolicySection)) : List PolicySection :=
  fetch.toOption.getD []

/-- The stores work: the next append succeeds, and the claim of a record is found. -/
structure Working (repo : ClaimsRepository S) (call : Submission) (stores : Stores S) : Prop where
  append : ∃ claim s, repo.append call.args stores.repo = (.ok claim, s)
  get : ∀ existing, call.key.bind stores.lookup = some existing →
    ∃ claim, repo.get existing stores.repo = some claim

/-- The call returns the id of one claim: the one it has appended, or the one that an earlier call
has recorded under its key. -/
def FilesOne (repo : ClaimsRepository S) (call : Submission) (before : Stores S)
    (result : Outcome × Stores S) : Prop :=
  ∃ claim fields, result.1 = .returned (.obj fields) ∧
    Dict.get? fields "confirmation_id" = some (.str claim.claimId) ∧
    match call.key.bind before.lookup with
    | none => claim.Files call.args ∧ repo.claims result.2.repo = repo.claims before.repo ++ [claim]
    | some existing => claim.claimId = existing ∧ result.2 = before

/-- An execution on stores that work comes to its end. -/
theorem run_of_working {repo : ClaimsRepository S} {call : Submission} {stores : Stores S}
    (h : Working repo call stores) :
    ∃ filed after, Submission.run repo call 4 stores = (.returned filed, after) ∧
      match call.key.bind stores.lookup with
      | none => filed.replayed = false ∧ filed.claim.Files call.args ∧
          repo.claims after.repo = repo.claims stores.repo ++ [filed.claim]
      | some existing =>
          filed.replayed = true ∧ filed.claim.claimId = existing ∧ after = stores := by
  cases hlookup : call.key.bind stores.lookup with
  | some existing =>
    obtain ⟨claim, hget⟩ := h.get existing hlookup
    have hid : claim.claimId = existing := by simpa using List.find?_some hget
    have hlook : advance repo call (.looking, stores) = (.found existing, stores) := by
      rw [advance, hlookup]
    have hfound : advance repo call (.found existing, stores) =
        (.returned ⟨claim, true⟩, stores) := by
      rw [advance, hget]
    refine ⟨⟨claim, true⟩, stores, ?_, rfl, hid, rfl⟩
    show advance repo call (advance repo call (advance repo call (advance repo call _))) = _
    rw [hlook, hfound]
    rfl
  | none =>
    obtain ⟨claim, s, happend⟩ := h.append
    obtain ⟨hfiles, hclaims, -⟩ := repo.append_ok happend
    have hlook : advance repo call (.looking, stores) = (.appending, stores) := by
      rw [advance, hlookup]
    have happending : advance repo call (.appending, stores) =
        (.recording claim, { stores with repo := s }) := by
      rw [advance, happend]
    obtain ⟨after, hrecording, hafter⟩ : ∃ after,
        advance repo call (.recording claim, { stores with repo := s }) = (.recorded claim, after) ∧
          after.repo = s := by
      rw [advance]
      split
      · exact ⟨_, rfl, rfl⟩
      · exact ⟨_, rfl, rfl⟩
    refine ⟨⟨claim, false⟩, after, ?_, rfl, hfiles, hafter ▸ hclaims⟩
    show advance repo call (advance repo call (advance repo call (advance repo call _))) = _
    rw [hlook, happending, hrecording]
    rfl

/-- The claim types of the contract are not blank. -/
theorem normalised_claimType (t : ClaimType) : normalised t.text ≠ [] := by
  cases t with
  | waterDamage => decide
  | personalProperty => decide

/-- An amount that the contract has read. -/
def SubmitClaimArgs.amount (args : SubmitClaimArgs) : Amount :=
  ⟨args.cents / 100, by positivity, args.cents, by push_cast; ring⟩

theorem SubmitClaimArgs.amount_fits (args : SubmitClaimArgs) :
    Fits contextPrecision args.amount.value := by
  have hle : (args.cents : ℚ) ≤ 100000000 := by exact_mod_cast args.cents_ok.2
  rintro _ ⟨⟩
  rw [abs_of_nonneg args.amount.nonneg]
  show (args.cents : ℚ) / 100 * 100 < 10 ^ 28
  rw [div_mul_cancel₀ _ (by norm_num)]
  exact lt_of_le_of_lt hle (by norm_num)

theorem filedSettlement_iff (sections : List PolicySection) (args : SubmitClaimArgs) :
    ((∃ r, filedSettlement sections args = .ok r) ↔ Settleable args.claimType.text sections) ∧
    ∀ s, filedSettlement sections args = .ok (some s) → ∃ split, s.split = .ok split :=
  settlementFor_iff (normalised_claimType args.claimType)
    (show Fits contextPrecision args.amount.value from args.amount_fits) sections

/-- A call whose settlement is computed comes to what the stores come to. -/
theorem submitClaim_of_settled {repo : ClaimsRepository S} {key : SubmitClaimArgs → Option Text}
    {sections : List PolicySection} {raw : Dict} {args : SubmitClaimArgs}
    (hread : SubmitClaimArgs.read raw = some args) {stores : Stores S}
    (hworking : Working repo ⟨key args, args⟩ stores) {r : Option Settlement}
    (h : filedSettlement sections args = .ok r) :
    FilesOne repo ⟨key args, args⟩ stores (submitClaim repo key sections raw stores) := by
  obtain ⟨filed, after, hrun, hfiled⟩ := run_of_working hworking
  unfold submitClaim
  rw [hread]
  dsimp only
  rw [h]
  dsimp only
  rw [hrun]
  dsimp only
  cases hlookup : (key args).bind stores.lookup with
  | some existing =>
    rw [hlookup] at hfiled
    obtain ⟨hreplayed, hid, rfl⟩ := hfiled
    rw [if_pos hreplayed]
    refine ⟨filed.claim, _, rfl, rfl, ?_⟩
    dsimp only
    rw [hlookup]
    exact ⟨hid, rfl⟩
  | none =>
    rw [hlookup] at hfiled
    obtain ⟨hnew, hfiles, hclaims⟩ := hfiled
    have hsplit : ∃ split, r.mapM Settlement.split = .ok split := by
      cases r with
      | none => exact ⟨none, rfl⟩
      | some s =>
        obtain ⟨split, hsplit⟩ := (filedSettlement_iff sections args).2 s h
        refine ⟨some split, ?_⟩
        show s.split.map some = _
        rw [hsplit]
        rfl
    obtain ⟨split, hsplit⟩ := hsplit
    rw [hnew, if_neg Bool.false_ne_true, hsplit]
    refine ⟨filed.claim, _, rfl, rfl, ?_⟩
    dsimp only
    rw [hlookup]
    exact ⟨hfiles, hclaims⟩

/-- A call whose settlement cannot be computed raises. -/
theorem submitClaim_of_error {repo : ClaimsRepository S} {key : SubmitClaimArgs → Option Text}
    {sections : List PolicySection} {raw : Dict} {args : SubmitClaimArgs}
    (hread : SubmitClaimArgs.read raw = some args) {stores : Stores S} {e : PyError}
    (h : filedSettlement sections args = .error e) :
    submitClaim repo key sections raw stores = (.raised e, stores) := by
  unfold submitClaim
  rw [hread]
  dsimp only
  rw [h]

/-- **A confirmed claim is filed, once, exactly where its settlement can be computed**: the policy
could not be fetched, or each figure that is read has a digit and those of the section that governs
fit the decimal context.  Else nothing is appended; and what has been appended is never followed by
an exception. -/
theorem files_one_claim_iff {repo : ClaimsRepository S} {key : SubmitClaimArgs → Option Text}
    {raw : Dict} {args : SubmitClaimArgs} (hread : SubmitClaimArgs.read raw = some args)
    {stores : Stores S} (hworking : Working repo ⟨key args, args⟩ stores)
    (fetch : Except PyError (List PolicySection)) :
    (FilesOne repo ⟨key args, args⟩ stores
        (submitClaim repo key (fetchedSections fetch) raw stores) ↔
      ∀ sections, fetch = .ok sections → Settleable args.claimType.text sections) ∧
    ∀ e, (submitClaim repo key (fetchedSections fetch) raw stores).1 = .raised e →
      (submitClaim repo key (fetchedSections fetch) raw stores).2 = stores := by
  have hcondition : (∀ sections, fetch = .ok sections → Settleable args.claimType.text sections) ↔
      Settleable args.claimType.text (fetchedSections fetch) := by
    cases fetch with
    | error e => exact ⟨fun _ => ⟨nofun, nofun⟩, fun _ _ h => (nomatch h)⟩
    | ok sections => exact ⟨fun h => h sections rfl, fun h _ heq => Except.ok.inj heq ▸ h⟩
  rw [hcondition, ← (filedSettlement_iff (fetchedSections fetch) args).1]
  cases hsettled : filedSettlement (fetchedSections fetch) args with
  | ok r =>
    have hfiles := submitClaim_of_settled hread hworking hsettled
    refine ⟨⟨fun _ => ⟨r, rfl⟩, fun _ => hfiles⟩, fun e he => ?_⟩
    obtain ⟨claim, fields, hreturned, -⟩ := hfiles
    rw [he] at hreturned
    cases hreturned
  | error e =>
    rw [submitClaim_of_error hread hsettled]
    refine ⟨⟨fun ⟨claim, fields, h, _⟩ => (nomatch h), fun ⟨r, h⟩ => (nomatch h)⟩, fun _ _ => rfl⟩

/-- An empty file of claims takes a claim. -/
theorem working_empty (args : SubmitClaimArgs) :
    Working listRepository ⟨none, args⟩ ⟨[], []⟩ := by
  refine ⟨?_, nofun⟩
  have hid : isIdentifier claimPrefix (nextId []) = true := by decide
  show ∃ claim s, appendNext args [] = (.ok claim, s)
  unfold appendNext Claim.file
  rw [dif_pos hid]
  exact ⟨_, _, rfl⟩

/-- A claim on water damage, with a policy whose figures can be read. -/
theorem water_damage_filed :
    ∃ args, SubmitClaimArgs.read floatCall.args = some args ∧
      FilesOne listRepository ⟨none, args⟩ ⟨[], []⟩
        (submitClaim listRepository (fun _ => none) (fetchedSections (.ok [homeWater]))
          floatCall.args ⟨[], []⟩) := by
  have hread : (SubmitClaimArgs.read floatCall.args).isSome = true := by decide
  obtain ⟨args, hread⟩ := Option.isSome_iff_exists.mp hread
  have hsettled : ((SubmitClaimArgs.read floatCall.args).map fun args =>
      (filedSettlement [homeWater] args).isOk) = some true := by decide +kernel
  rw [hread] at hsettled
  have hcondition : Settleable args.claimType.text [homeWater] := by
    refine (filedSettlement_iff [homeWater] args).1.mp ?_
    cases hresult : filedSettlement [homeWater] args with
    | ok r => exact ⟨r, rfl⟩
    | error e =>
      rw [Option.map_some, hresult] at hsettled
      cases hsettled
  refine ⟨args, hread, (files_one_claim_iff hread (working_empty args) (.ok [homeWater])).1.mpr ?_⟩
  rintro _ ⟨⟩
  exact hcondition

/-- A section whose limit has lost its digits. -/
def lostDigits : PolicySection where
  title := "Section 1: Home Water Damage Coverage"
  text := "Pipe bursts are covered up to $, with a $500 deductible."
  sourceFile := "sample_policy.md"

/-- No claim on water damage can be filed with it. -/
theorem lost_digits_block :
    ∃ args e, SubmitClaimArgs.read floatCall.args = some args ∧
      Working listRepository ⟨none, args⟩ ⟨[], []⟩ ∧
      submitClaim listRepository (fun _ => none) (fetchedSections (.ok [lostDigits]))
        floatCall.args ⟨[], []⟩ = (.raised e, ⟨[], []⟩) ∧
      ¬FilesOne listRepository ⟨none, args⟩ ⟨[], []⟩
        (submitClaim listRepository (fun _ => none) (fetchedSections (.ok [lostDigits]))
          floatCall.args ⟨[], []⟩) := by
  have hread : (SubmitClaimArgs.read floatCall.args).isSome = true := by decide
  obtain ⟨args, hread⟩ := Option.isSome_iff_exists.mp hread
  have hfails : ((SubmitClaimArgs.read floatCall.args).map fun args =>
      (filedSettlement [lostDigits] args).isOk) = some false := by decide
  rw [hread] at hfails
  cases hresult : filedSettlement [lostDigits] args with
  | ok r =>
    rw [Option.map_some, hresult] at hfails
    cases hfails
  | error e =>
    have hraised : submitClaim listRepository (fun _ => none) (fetchedSections (.ok [lostDigits]))
        floatCall.args ⟨[], []⟩ = (.raised e, ⟨[], []⟩) := submitClaim_of_error hread hresult
    refine ⟨args, e, hread, working_empty args, hraised, ?_⟩
    rintro ⟨claim, fields, hreturned, -⟩
    rw [hraised] at hreturned
    cases hreturned

end OmniCare
