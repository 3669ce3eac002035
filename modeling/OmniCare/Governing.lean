import OmniCare.Settlement

/-! # The section that governs a claim type

`_governing_section` takes the first section that names the claim type, in its title or anywhere in
its text, and states a limit.  Where one section has the claim type in its title, a section before
it that mentions the claim type in passing and states a limit of its own is taken in its place:
`figures_from_titled_iff`.
-/
namespace OmniCare

/-- `coverage_limit_for`. -/
def coverageLimitFor (claimType : Text) (sections : List PolicySection) :
    Except PyError (Option CoverageRule) := do
  match ← governingSection claimType sections with
  | none => return none
  | some s => return ruleOf .limit (← extractRules s.text s.title)

/-- `settlement_for`, where `amount` is what `Decimal(amount)` gives. -/
def settlementFor (precision : Option Nat) (claimType : Text) (amount : Except PyError ℚ)
    (sections : List PolicySection) : Except PyError (Option Settlement) := do
  match ← settlementTerms claimType sections with
  | none => return none
  | some t =>
      let amount ← amount
      let limit ← t.limit.mapM PyDecimal.rational
      let deductible ← t.deductible.mapM PyDecimal.rational
      let s ← settle precision amount limit deductible t.sectionTitle t.sourceFile t.policySays
        t.exclusions
      return some s

namespace PolicySection

/-- The claim type is in the title of the section. -/
def titled (wanted : Text) (s : PolicySection) : Bool := Text.contains (normalised s.title) wanted

/-- `_governing_section` passes over the section: it does not mention the claim type, or it can be
read and states no limit. -/
def passedOver (wanted : Text) (s : PolicySection) : Prop :=
  s.mentions wanted = true →
    ∃ rules, extractRules s.text s.title = .ok rules ∧ ruleOf .limit rules = none

/-- The terms that a section states by its rules. -/
def terms (s : PolicySection) (rules : List CoverageRule) : Terms where
  limit := (ruleOf .limit rules).map (·.amount)
  deductible := (ruleOf .deductible rules).map (·.amount)
  sectionTitle := s.title
  sourceFile := s.sourceFile
  policySays :=
    (((ruleOf .limit rules).toList ++ (ruleOf .deductible rules).toList).map
      (·.sourceText)).eraseDups
  exclusions := exclusionsIn s.text

end PolicySection

/-- `settlement_for` and `coverage_limit_for` take their figures from a section, whose rules are
these. -/
structure FiguresFrom (claimType : Text) (sections : List PolicySection) (s : PolicySection)
    (rules : List CoverageRule) : Prop where
  terms : settlementTerms claimType sections = .ok (some (s.terms rules))
  limit : coverageLimitFor claimType sections = .ok (ruleOf .limit rules)

variable {wanted claimType : Text} {s : PolicySection} {rules : List CoverageRule}

theorem mentions_of_titled (h : s.titled wanted = true) : s.mentions wanted = true := by
  unfold PolicySection.mentions
  rw [Bool.or_eq_true]
  exact .inl h

/-- A section that states a limit is found, once those before it are passed over. -/
theorem governingFrom_of_passedOver {before after : List PolicySection}
    (hpassed : ∀ t ∈ before, t.passedOver wanted) (hmentions : s.mentions wanted = true)
    (hrules : extractRules s.text s.title = .ok rules) (hlimit : (ruleOf .limit rules).isSome)
    (fallback : Option PolicySection) :
    governingFrom wanted (before ++ s :: after) fallback = .ok (some s) := by
  induction before generalizing fallback with
  | nil =>
    rw [List.nil_append, governingFrom, if_pos hmentions, hrules, ok_bind, if_pos hlimit]
  | cons t before ih =>
    have hrest := ih fun u hu => hpassed u (List.mem_cons_of_mem _ hu)
    rw [List.cons_append, governingFrom]
    by_cases ht : t.mentions wanted = true
    · obtain ⟨rules', hrules', hnone⟩ := hpassed t List.mem_cons_self ht
      rw [if_pos ht, hrules', ok_bind, hnone]
      exact hrest _
    · rw [if_neg ht]
      exact hrest _

/-- If a section is found that is not among those before, these are passed over. -/
theorem passedOver_of_governingFrom {before after : List PolicySection} (hnew : s ∉ before)
    {fallback : Option PolicySection}
    (h : governingFrom wanted (before ++ after) fallback = .ok (some s)) :
    ∀ t ∈ before, t.passedOver wanted := by
  induction before generalizing fallback with
  | nil => exact nofun
  | cons u before ih =>
    rw [List.cons_append, governingFrom] at h
    have hnew' : s ∉ before := fun hmem => hnew (List.mem_cons_of_mem _ hmem)
    by_cases hu : u.mentions wanted = true
    · rw [if_pos hu] at h
      obtain ⟨rules, hrules, h⟩ := exists_ok_of_bind h
      split at h
      · -- the section found would be this one
        cases h
        exact (hnew List.mem_cons_self).elim
      · rename_i hlimit
        intro t ht
        rcases List.mem_cons.mp ht with rfl | ht
        · exact fun _ => ⟨rules, hrules, by simpa using hlimit⟩
        · exact ih hnew' h t ht
    · rw [if_neg hu] at h
      intro t ht
      rcases List.mem_cons.mp ht with rfl | ht
      · exact fun hmentions => (hu hmentions).elim
      · exact ih hnew' h t ht

/-- What is read from the section that governs. -/
theorem figuresFrom_of_governing {sections : List PolicySection}
    (hgoverning : governingSection claimType sections = .ok (some s))
    (hrules : extractRules s.text s.title = .ok rules) (hlimit : (ruleOf .limit rules).isSome) :
    FiguresFrom claimType sections s rules := by
  constructor
  · unfold settlementTerms
    rw [hgoverning, ok_bind]
    dsimp only
    rw [hrules, ok_bind]
    obtain ⟨limit, hlimit⟩ := Option.isSome_iff_exists.mp hlimit
    rw [hlimit, Option.isNone_some, Bool.false_and, if_neg Bool.false_ne_true]
    unfold PolicySection.terms
    rw [hlimit]
    rfl
  · unfold coverageLimitFor
    rw [hgoverning, ok_bind]
    dsimp only
    rw [hrules, ok_bind]
    rfl

/-- Where the figures are those of the one section with the claim type in its title, it is the one
that governs. -/
theorem governing_of_figuresFrom {sections : List PolicySection} (hs : s.titled wanted = true)
    (hone : ∀ t ∈ sections, t.titled wanted = true → t = s)
    (h : FiguresFrom claimType sections s rules) :
    governingSection claimType sections = .ok (some s) := by
  obtain ⟨governing, hgoverning, hterms⟩ := exists_ok_of_bind h.terms
  cases governing with
  | none => cases hterms
  | some g =>
    have hg : g ∈ sections := by
      unfold governingSection at hgoverning
      split at hgoverning
      · cases hgoverning
      · exact (mem_of_governingFrom hgoverning).resolve_right nofun
    obtain ⟨rules', -, hterms⟩ := exists_ok_of_bind hterms
    dsimp only at hterms
    split at hterms
    · cases hterms
    · -- the terms carry the title
      have htitle : g.title = s.title :=
        congrArg Terms.sectionTitle (Option.some.inj (Except.ok.inj hterms))
      have htitled : g.titled wanted = true := by
        unfold PolicySection.titled at hs ⊢
        rw [htitle]
        exact hs
      rw [hgoverning, hone g hg htitled]

/-- The claim type is in the title of one section, which states a limit. -/
structure OneTitled (claimType : Text) (before after : List PolicySection) (s : PolicySection)
    (rules : List CoverageRule) : Prop where
  titled : s.titled (normalised claimType) = true
  others : ∀ t ∈ before ++ after, t.titled (normalised claimType) = false
  read : extractRules s.text s.title = .ok rules
  limit : (ruleOf .limit rules).isSome

theorem OneTitled.only {before after : List PolicySection}
    (h : OneTitled claimType before after s rules) :
    ∀ t ∈ before ++ s :: after, t.titled (normalised claimType) = true → t = s := by
  intro t ht htitled
  rcases List.mem_append.mp ht with hbefore | ht
  · have hfalse := h.others t (List.mem_append_left _ hbefore)
    rw [htitled] at hfalse
    cases hfalse
  · rcases List.mem_cons.mp ht with rfl | hafter
    · rfl
    · have hfalse := h.others t (List.mem_append_right _ hafter)
      rw [htitled] at hfalse
      cases hfalse

theorem OneTitled.figuresFrom_iff {before after : List PolicySection}
    (h : OneTitled claimType before after s rules) :
    FiguresFrom claimType (before ++ s :: after) s rules ↔
      normalised claimType ≠ [] ∧ ∀ t ∈ before, t.passedOver (normalised claimType) := by
  have hnew : s ∉ before := by
    intro hmem
    have hfalse := h.others s (List.mem_append_left _ hmem)
    rw [h.titled] at hfalse
    cases hfalse
  constructor
  · intro hfigures
    have hgoverning := governing_of_figuresFrom h.titled h.only hfigures
    unfold governingSection at hgoverning
    split at hgoverning
    · cases hgoverning
    · rename_i hblank
      exact ⟨by simpa using hblank, passedOver_of_governingFrom hnew hgoverning⟩
  · rintro ⟨hblank, hpassed⟩
    refine figuresFrom_of_governing ?_ h.read h.limit
    unfold governingSection
    rw [if_neg (by simpa using hblank)]
    exact governingFrom_of_passedOver hpassed (mentions_of_titled h.titled) h.read h.limit none

/-- **When a settlement is taken from the section that has the claim type in its title**: the claim
type is not blank, and every section before it that mentions the claim type can be read and states
no limit.  It is so in every order of the sections exactly if all the other sections are like
that. -/
theorem figures_from_titled_iff {before after : List PolicySection}
    (h : OneTitled claimType before after s rules) :
    (FiguresFrom claimType (before ++ s :: after) s rules ↔
      normalised claimType ≠ [] ∧ ∀ t ∈ before, t.passedOver (normalised claimType)) ∧
    ((∀ sections, sections.Perm (before ++ s :: after) →
        FiguresFrom claimType sections s rules) ↔
      normalised claimType ≠ [] ∧
        ∀ t ∈ before ++ after, t.passedOver (normalised claimType)) := by
  refine ⟨h.figuresFrom_iff, ?_⟩
  constructor
  · intro hall
    -- the order in which the section comes last
    have hlast : OneTitled claimType (before ++ after) [] s rules :=
      ⟨h.titled, by rw [List.append_nil]; exact h.others, h.read, h.limit⟩
    exact hlast.figuresFrom_iff.mp
      (hall _ ((List.perm_append_singleton s _).trans List.perm_middle.symm))
  · rintro ⟨hblank, hpassed⟩ sections hperm
    have hs : s ∈ sections := hperm.mem_iff.mpr (by simp)
    obtain ⟨before', after', rfl⟩ := List.append_of_mem hs
    have hrest : (before' ++ after').Perm (before ++ after) :=
      List.Perm.cons_inv (List.perm_middle.symm.trans (hperm.trans List.perm_middle))
    have hone : OneTitled claimType before' after' s rules :=
      ⟨h.titled, fun t ht => h.others t (hrest.mem_iff.mp ht), h.read, h.limit⟩
    refine hone.figuresFrom_iff.mpr ⟨hblank, fun t ht => hpassed t ?_⟩
    exact hrest.mem_iff.mp (List.mem_append_left _ ht)

/-- The section on water damage. -/
def homeWater : PolicySection where
  title := "Section 1: Home Water Damage Coverage"
  text := "Pipe bursts are covered up to $25,000 with a $500 deductible."
  sourceFile := "sample_policy.md"

/-- The section on personal property, which mentions water damage. -/
def personalProperty : PolicySection where
  title := "Section 2: Personal Property Protection"
  text := "Electronics are covered up to $10,000. Water damage to them is included."
  sourceFile := "sample_policy.md"

/-- The claim type of a burst pipe. -/
def waterDamage : Text := "Water Damage"

theorem exists_oneTitled (before after : List PolicySection)
    (others : ∀ t ∈ before ++ after, t.titled (normalised waterDamage) = false) :
    ∃ rules, OneTitled waterDamage before after homeWater rules := by
  have hread : ((extractRules homeWater.text homeWater.title).toOption.bind
      (ruleOf .limit)).isSome = true := by decide
  cases hrules : extractRules homeWater.text homeWater.title with
  | error e =>
    rw [hrules] at hread
    cases hread
  | ok rules =>
    rw [hrules] at hread
    exact ⟨rules, by decide, others, hrules, hread⟩

/-- In the order of the policy, a burst pipe is settled by its section. -/
theorem first_section_settles :
    ∃ rules, FiguresFrom waterDamage [homeWater, personalProperty] homeWater rules := by
  obtain ⟨rules, h⟩ := exists_oneTitled [] [personalProperty] (by decide)
  exact ⟨rules, (figures_from_titled_iff h).1.mpr ⟨by decide, nofun⟩⟩

/-- In the other order it is settled by the section on personal property. -/
theorem passing_mention_settles :
    ∃ rules, OneTitled waterDamage [personalProperty] [] homeWater rules ∧
      ¬FiguresFrom waterDamage [personalProperty, homeWater] homeWater rules ∧
      settlementTerms waterDamage [personalProperty, homeWater] ≠
        settlementTerms waterDamage [homeWater, personalProperty] := by
  obtain ⟨rules, h⟩ := exists_oneTitled [personalProperty] [] (by decide)
  have htitle : ((settlementTerms waterDamage [personalProperty, homeWater]).toOption.join.map
      Terms.sectionTitle) ≠ some homeWater.title := by decide
  have htitle' : ((settlementTerms waterDamage [homeWater, personalProperty]).toOption.join.map
      Terms.sectionTitle) = some homeWater.title := by decide
  refine ⟨rules, h, fun hfigures => ?_, fun heq => ?_⟩
  · rw [hfigures.terms] at htitle
    exact htitle rfl
  · rw [heq] at htitle
    exact htitle htitle'

end OmniCare
