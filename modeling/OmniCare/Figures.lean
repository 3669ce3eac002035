import OmniCare.Amounts
import OmniCare.Rules
import OmniCare.Scanning
import Mathlib.Data.List.Nodup

/-! # The figures that a section states

`extract_rules` takes the first figure of each kind, over all sentences, where a figure that an
earlier pattern has taken counts no more in its sentence (`firstFigure`).  It can read a section
exactly if each of these figures has a digit (`extractRules_iff`), and then its rules have their
amounts (`amountOf_extractRules`).
-/
namespace OmniCare

/-! ## The first figure of a kind -/

/-- The figures of a sentence that are not claimed by an earlier pattern. -/
def unclaimed : List Text → List (RuleKind × Text) → List (RuleKind × Text)
  | _, [] => []
  | claimed, (kind, raw) :: rest =>
      if raw ∈ claimed then unclaimed claimed rest
      else (kind, raw) :: unclaimed (raw :: claimed) rest

theorem unclaimed_nil (claimed : List Text) : unclaimed claimed [] = [] := rfl

theorem unclaimed_cons (claimed : List Text) (kind : RuleKind) (raw : Text)
    (rest : List (RuleKind × Text)) :
    unclaimed claimed ((kind, raw) :: rest) =
      if raw ∈ claimed then unclaimed claimed rest
      else (kind, raw) :: unclaimed (raw :: claimed) rest := rfl

/-- The figures of a text, in the order in which they are taken. -/
def figuresIn (text : Text) : List (RuleKind × Text) :=
  (sentences text).flatMap fun sentence => unclaimed [] (figuresOf sentence)

/-- The first figure of a kind among some. -/
def firstOf (kind : RuleKind) (figures : List (RuleKind × Text)) : Option Text :=
  (figures.find? (·.1 = kind)).map (·.2)

/-- The figure of a kind that a text states. -/
def firstFigure (kind : RuleKind) (text : Text) : Option Text := firstOf kind (figuresIn text)

/-- The amount of the rule of a kind. -/
def amountOf (kind : RuleKind) (rules : List CoverageRule) : Option PyDecimal :=
  (ruleOf kind rules).map (·.amount)

/-- A figure can be converted. -/
def Converts (raw : Text) : Prop := ∃ amount, figureAmount raw = .ok amount

/-- The figures that are taken over can be converted. -/
def Readable (figures : List (RuleKind × Text)) (rules : List CoverageRule) : Prop :=
  ∀ kind, amountOf kind rules = none → ∀ raw, firstOf kind figures = some raw → Converts raw

/-- What has been taken over from some figures: for each kind without a rule, the amount of the
first one. -/
structure Taken (figures : List (RuleKind × Text)) (before after : List CoverageRule) : Prop where
  readable : Readable figures before
  amounts : ∀ kind, amountOf kind after =
    (amountOf kind before).or ((firstOf kind figures).bind fun raw => (figureAmount raw).toOption)
  nodup : (before.map CoverageRule.kind).Nodup → (after.map CoverageRule.kind).Nodup

theorem firstOf_cons (kind : RuleKind) (figure : RuleKind × Text) (rest : List (RuleKind × Text)) :
    firstOf kind (figure :: rest) =
      if figure.1 = kind then some figure.2 else firstOf kind rest := by
  unfold firstOf
  by_cases h : figure.1 = kind
  · rw [List.find?_cons_of_pos (by simpa using h), if_pos h]
    rfl
  · rw [List.find?_cons_of_neg (by simpa using h), if_neg h]

theorem firstOf_append (kind : RuleKind) (figures rest : List (RuleKind × Text)) :
    firstOf kind (figures ++ rest) = (firstOf kind figures).or (firstOf kind rest) := by
  unfold firstOf
  rw [List.find?_append, Option.map_or]

theorem amountOf_append (kind : RuleKind) (rules : List CoverageRule) (rule : CoverageRule) :
    amountOf kind (rules ++ [rule]) =
      (amountOf kind rules).or (if rule.kind = kind then some rule.amount else none) := by
  unfold amountOf ruleOf
  rw [List.find?_append, Option.map_or]
  by_cases h : rule.kind = kind
  · simp [h]
  · simp [h]

theorem amountOf_eq_none {kind : RuleKind} {rules : List CoverageRule} :
    amountOf kind rules = none ↔ rules.any (·.kind = kind) = false := by
  unfold amountOf ruleOf
  rw [Option.map_eq_none_iff, List.find?_eq_none, List.any_eq_false]

namespace Taken

theorem refl (rules : List CoverageRule) : Taken [] rules rules :=
  ⟨fun _ _ _ h => (nomatch h), fun _ => (Option.or_none).symm, id⟩

/-- What is taken first, and then the rest. -/
theorem trans {figures rest : List (RuleKind × Text)} {before middle after : List CoverageRule}
    (h : Taken figures before middle) (h' : Taken rest middle after) :
    Taken (figures ++ rest) before after := by
  constructor
  · intro kind hbefore raw hraw
    rw [firstOf_append] at hraw
    cases hfirst : firstOf kind figures with
    | some raw' =>
      rw [hfirst] at hraw
      cases hraw
      exact h.readable kind hbefore raw hfirst
    | none =>
      rw [hfirst, Option.none_or] at hraw
      have hmiddle := h.amounts kind
      rw [hbefore, hfirst] at hmiddle
      exact h'.readable kind hmiddle raw hraw
  · intro kind
    rw [h'.amounts, h.amounts, firstOf_append, Option.or_assoc]
    cases hbefore : amountOf kind before with
    | some d => rfl
    | none =>
      cases hfirst : firstOf kind figures with
      | none => rfl
      | some raw =>
        obtain ⟨d, hd⟩ := h.readable kind hbefore raw hfirst
        simp [hd, Except.toOption]
  · exact fun hnodup => h'.nodup (h.nodup hnodup)

/-- A figure of a kind that has its rule is passed. -/
theorem pass {kind : RuleKind} {raw : Text} {rules : List CoverageRule}
    (h : rules.any (·.kind = kind) = true) : Taken [(kind, raw)] rules rules := by
  have hsome : amountOf kind rules ≠ none := by
    rw [Ne, amountOf_eq_none, h]
    exact nofun
  refine ⟨fun kind' hnone raw' hraw => ?_, fun kind' => ?_, id⟩
  · rw [firstOf_cons] at hraw
    split at hraw
    · rename_i hkind
      exact absurd hnone (hkind ▸ hsome)
    · cases hraw
  · rw [firstOf_cons]
    split
    · rename_i hkind
      obtain ⟨d, hd⟩ := Option.ne_none_iff_exists'.mp hsome
      rw [← show kind = kind' from hkind, hd]
      rfl
    · exact Option.or_none.symm

/-- A figure of a kind without a rule makes one. -/
theorem add {rules : List CoverageRule} (rule : CoverageRule) {raw : Text}
    (h : rules.any (·.kind = rule.kind) = false) (hraw : figureAmount raw = .ok rule.amount) :
    Taken [(rule.kind, raw)] rules (rules ++ [rule]) := by
  refine ⟨fun kind _ raw' hraw' => ?_, fun kind => ?_, fun hnodup => ?_⟩
  · rw [firstOf_cons] at hraw'
    split at hraw'
    · cases hraw'
      exact ⟨_, hraw⟩
    · cases hraw'
  · rw [amountOf_append, firstOf_cons]
    split
    · simp [hraw, Except.toOption]
    · rfl
  · rw [List.map_append, List.map_singleton, List.nodup_append]
    refine ⟨hnodup, List.nodup_singleton _, ?_⟩
    rintro kind hkind _ hmem rfl
    obtain ⟨other, hother, rfl⟩ := List.mem_map.mp hkind
    rw [List.any_eq_false] at h
    exact h other hother (by simpa using hmem)

end Taken

/-! ## Extraction -/

/-- Some figures are taken over, or one of them cannot be converted. -/
def Takes (figures : List (RuleKind × Text)) (before : List CoverageRule)
    (result : Except PyError (List CoverageRule)) : Prop :=
  match result with
  | .ok after => Taken figures before after
  | .error _ => ¬Readable figures before

theorem Takes.trans {figures rest : List (RuleKind × Text)} {before middle : List CoverageRule}
    {result : Except PyError (List CoverageRule)} (h : Taken figures before middle)
    (h' : Takes rest middle result) : Takes (figures ++ rest) before result := by
  cases result with
  | ok after => exact Taken.trans h h'
  | error e =>
    intro hreadable
    refine h' fun kind hmiddle raw hraw => ?_
    have hamounts := h.amounts kind
    rw [hmiddle] at hamounts
    obtain ⟨hbefore, hnone⟩ := Option.or_eq_none_iff.mp hamounts.symm
    have hfirst : firstOf kind figures = none := by
      cases hfirst : firstOf kind figures with
      | none => rfl
      | some raw' =>
        obtain ⟨d, hd⟩ := h.readable kind hbefore raw' hfirst
        simp [hfirst, hd, Except.toOption] at hnone
    exact hreadable kind hbefore raw (by rw [firstOf_append, hfirst, Option.none_or, hraw])

theorem takes_claimFigures (sentence sectionTitle : Text) (figures : List (RuleKind × Text))
    (claimed : List Text) (found : List CoverageRule) :
    Takes (unclaimed claimed figures) found
      (claimFigures sentence sectionTitle figures claimed found) := by
  induction figures generalizing claimed found with
  | nil => exact .refl _
  | cons figure rest ih =>
    obtain ⟨kind, raw⟩ := figure
    rw [unclaimed_cons, claimFigures_cons]
    by_cases hclaimed : raw ∈ claimed
    · rw [if_pos hclaimed, if_pos hclaimed]
      exact ih claimed found
    · rw [if_neg hclaimed, if_neg hclaimed]
      by_cases hkind : found.any (·.kind = kind) = true
      · rw [if_pos hkind]
        exact Takes.trans (Taken.pass hkind) (ih _ _)
      · rw [if_neg hkind]
        have hnew := Bool.eq_false_iff.mpr hkind
        cases hamount : figureAmount raw with
        | ok amount =>
          have hadd := Taken.add ⟨kind, amount, sentence, sectionTitle⟩ hnew hamount
          exact Takes.trans hadd (ih _ _)
        | error e =>
          intro hreadable
          obtain ⟨amount, hok⟩ := hreadable kind (amountOf_eq_none.mpr hnew) raw
            (by rw [firstOf_cons, if_pos rfl])
          rw [hamount] at hok
          cases hok

theorem takes_foldlM (sectionTitle : Text) (ss : List Text) (found : List CoverageRule) :
    Takes (ss.flatMap fun sentence => unclaimed [] (figuresOf sentence)) found
      (ss.foldlM (fun found sentence =>
        claimFigures sentence sectionTitle (figuresOf sentence) [] found) found) := by
  induction ss generalizing found with
  | nil => exact .refl _
  | cons sentence ss ih =>
    rw [List.flatMap_cons, List.foldlM_cons]
    have hhead := takes_claimFigures sentence sectionTitle (figuresOf sentence) [] found
    cases hresult : claimFigures sentence sectionTitle (figuresOf sentence) [] found with
    | ok middle =>
      rw [hresult] at hhead
      exact Takes.trans hhead (ih middle)
    | error e =>
      rw [hresult] at hhead
      intro hreadable
      refine hhead fun kind hnone raw hraw => hreadable kind hnone raw ?_
      rw [firstOf_append, hraw]
      rfl

/-- **What `extract_rules` takes over from a text.** -/
theorem takes_extractRules (text sectionTitle : Text) :
    Takes (figuresIn text) [] (extractRules text sectionTitle) :=
  takes_foldlM sectionTitle (sentences text) []

/-- **A section can be read exactly if the first figure of each kind can be converted.** -/
theorem extractRules_readable {text sectionTitle : Text} :
    (∃ rules, extractRules text sectionTitle = .ok rules) ↔
      ∀ kind raw, firstFigure kind text = some raw → Converts raw := by
  have htakes := takes_extractRules text sectionTitle
  cases hresult : extractRules text sectionTitle with
  | ok rules =>
    rw [hresult] at htakes
    exact ⟨fun _ kind => htakes.readable kind rfl, fun _ => ⟨rules, rfl⟩⟩
  | error e =>
    rw [hresult] at htakes
    refine ⟨fun ⟨_, h⟩ => (nomatch h), fun h => ?_⟩
    exact (htakes fun kind _ => h kind).elim

/-- The rules of a section have the amounts of its first figures. -/
theorem amountOf_extractRules {text sectionTitle : Text} {rules : List CoverageRule}
    (h : extractRules text sectionTitle = .ok rules) (kind : RuleKind) :
    amountOf kind rules =
      (firstFigure kind text).bind fun raw => (figureAmount raw).toOption := by
  have htakes := takes_extractRules text sectionTitle
  rw [h] at htakes
  exact htakes.amounts kind

theorem nodup_extractRules {text sectionTitle : Text} {rules : List CoverageRule}
    (h : extractRules text sectionTitle = .ok rules) : (rules.map CoverageRule.kind).Nodup := by
  have htakes := takes_extractRules text sectionTitle
  rw [h] at htakes
  exact htakes.nodup List.nodup_nil

/-! ## The text of a figure -/

/-- Digits and commas, and perhaps two decimals. -/
inductive IsFigure : Text → Prop
  | whole {run : Text} (hrun : run.all isFigureChar = true) : IsFigure run
  | decimals {run : Text} {a b : Char} (hrun : run.all isFigureChar = true)
      (ha : isDigit a = true) (hb : isDigit b = true) : IsFigure (run ++ ['.', a, b])

section Captured

open Regex

theorem amountFigure_captures : amountFigure.Captures 1 IsFigure := by
  refine .second (.second (.group ?_))
  intro w v t hv ht
  obtain ⟨u, hu, hv⟩ := mem_run_seq.mp hv
  obtain ⟨run, hrun, hpasses, -⟩ := mem_run_rep_char.mp hu
  rcases mem_run_opt.mp hv with rfl | ⟨hv, -⟩
  · have htext : t = run := ht.upTo.symm.trans hpasses.upTo
    rw [htext]
    exact .whole hrun.all
  · obtain ⟨x, hpoint, hv⟩ := mem_run_seq.mp hv
    obtain ⟨c, hc, hfirst, -⟩ := mem_run_char.mp hpoint
    obtain ⟨two, htwo, hrest, -⟩ := mem_run_rep_char.mp hv
    have htext : t = run ++ ([c] ++ two) :=
      ht.upTo.symm.trans (hpasses.trans (hfirst.trans hrest)).upTo
    obtain ⟨a, b, rfl⟩ : ∃ a b, two = [a, b] :=
      List.length_eq_two.mp (Nat.le_antisymm (htwo.atMost 2 rfl) htwo.atLeast)
    obtain rfl : c = '.' := eq_of_beq hc
    have hall := htwo.all
    simp only [List.all_cons, List.all_nil, Bool.and_eq_true, and_true] at hall
    rw [htext]
    exact .decimals hrun.all hall.1 hall.2

/-- **What a pattern captures is a figure.** -/
theorem isFigure_of_mem {sentence : Text} {figure : RuleKind × Text}
    (h : figure ∈ figuresOf sentence) : IsFigure figure.2 := by
  have hcaptures : ∀ p ∈ rulePatterns, p.2.Captures 1 IsFigure := by
    intro p hp
    have hfigure := amountFigure_captures
    fin_cases hp
    · exact hfigure.first rfl
    · exact .second (.second (.second (.second hfigure)))
    · exact .second (.second (.second (.second (.second (.second hfigure)))))
    · exact .second (.second (.second (.second (.second (.second hfigure)))))
    · exact .second (.second (.second (.second hfigure)))
    · exact .second (.second (.second (.second hfigure)))
    · exact .second (.second (.second hfigure))
  obtain ⟨p, hp, hfigure⟩ := List.mem_flatMap.mp h
  obtain ⟨m, hm, rfl⟩ := List.mem_map.mp hfigure
  exact (hcaptures p hp).of_mem_finditer hm

end Captured

theorem replace_comma (s : Text) : Text.replace s "," [] = figureDigits s := by
  unfold Text.replace
  induction s with
  | nil => rfl
  | cons c s ih =>
    rw [Text.replaceFrom]
    by_cases hc : c = ','
    · subst hc
      exact ih
    · have hother : Text.startsWith (c :: s) "," = false := by
        show (if (',' == c) = true then some s else none).isSome = false
        rw [beq_eq_false_iff_ne.mpr (Ne.symm hc)]
        rfl
      rw [hother, if_neg Bool.false_ne_true, ih]
      unfold figureDigits
      rw [List.filter_cons_of_pos (by simpa using hc)]

theorem all_isDigit_figureDigits {run : Text} (h : run.all isFigureChar = true) :
    (figureDigits run).all isDigit = true := by
  rw [List.all_eq_true] at h ⊢
  intro c hc
  obtain ⟨hmem, hcomma⟩ := List.mem_filter.mp hc
  have hchar := h c hmem
  rw [isFigureChar, Bool.or_eq_true] at hchar
  exact hchar.resolve_right fun heq => of_decide_eq_true hcomma (eq_of_beq heq)

theorem figureDigits_ne_nil {run : Text} (h : run.any isDigit = true) : figureDigits run ≠ [] := by
  obtain ⟨c, hc, hdigit⟩ := List.any_eq_true.mp h
  have hcomma : c ≠ ',' := beq_eq_false_iff_ne.mp (not_comma_of_isDigit hdigit)
  exact List.ne_nil_of_mem (List.mem_filter.mpr ⟨hc, decide_eq_true hcomma⟩)

/-- A numeral without a point. -/
theorem readNumeral_digits {digits : Text} (h : digits.all isDigit = true) :
    readNumeral digits = if digits = [] then none else some (Text.toNat digits, 0) := by
  have hspan : spanDigits digits = (digits, []) := by
    have hspan := span_append (r := []) h nofun
    rwa [List.append_nil] at hspan
  unfold readNumeral
  rw [hspan]
  cases digits with
  | nil => rfl
  | cons c digits =>
    rw [if_neg (List.cons_ne_nil c digits)]
    simp only [List.isEmpty_cons, Bool.false_eq_true, false_and, if_false, List.append_nil]
    rfl

theorem figureAmount_numeral {raw : Text}
    (h : (figureDigits raw).all (fun c => isDigit c || c == '.') = true) :
    figureAmount raw = match readNumeral (figureDigits raw) with
      | some (m, e) => .ok (.fin m e)
      | none => .error ⟨"InvalidOperation", "[<class 'decimal.ConversionSyntax'>]"⟩ := by
  unfold figureAmount
  rw [replace_comma, ofText_numeral h]
  cases readNumeral (figureDigits raw) with
  | none => rfl
  | some n => rfl

/-- A figure without decimals has an amount if it has a digit. -/
theorem figureAmount_whole {run : Text} (hrun : run.all isFigureChar = true) :
    figureAmount run =
      if run.any isDigit then .ok (.fin (Text.toNat (figureDigits run)) 0)
      else .error ⟨"InvalidOperation", "[<class 'decimal.ConversionSyntax'>]"⟩ := by
  have hdigits := all_isDigit_figureDigits hrun
  have hnumeral : (figureDigits run).all (fun c => isDigit c || c == '.') = true :=
    List.all_eq_true.mpr fun c hc => by rw [List.all_eq_true.mp hdigits c hc, Bool.true_or]
  rw [figureAmount_numeral hnumeral, readNumeral_digits hdigits]
  cases hany : run.any isDigit with
  | true =>
    rw [if_neg (figureDigits_ne_nil hany)]
    rfl
  | false =>
    have hnil : figureDigits run = [] := by
      refine List.eq_nil_iff_forall_not_mem.mpr fun c hc => ?_
      have hnone := List.any_eq_false.mp hany c (List.mem_of_mem_filter hc)
      exact hnone (List.all_eq_true.mp hdigits c hc)
    rw [if_pos hnil]
    rfl

theorem figureDigits_decimals {a b : Char} (ha : isDigit a = true) (hb : isDigit b = true)
    (run : Text) : figureDigits (run ++ ['.', a, b]) = figureDigits run ++ ['.', a, b] := by
  have hother : ∀ c, isDigit c = true → c ≠ ',' := fun c hc =>
    beq_eq_false_iff_ne.mp (not_comma_of_isDigit hc)
  unfold figureDigits
  rw [List.filter_append]
  congr 1
  simp [hother a ha, hother b hb]

/-- A figure with decimals has an amount. -/
theorem figureAmount_decimals {run : Text} {a b : Char} (hrun : run.all isFigureChar = true)
    (ha : isDigit a = true) (hb : isDigit b = true) :
    figureAmount (run ++ ['.', a, b]) =
      .ok (.fin (Text.toNat (figureDigits run ++ [a, b])) (-2)) := by
  have hdigits := all_isDigit_figureDigits hrun
  have hnumeral :
      (figureDigits (run ++ ['.', a, b])).all (fun c => isDigit c || c == '.') = true := by
    rw [figureDigits_decimals ha hb, List.all_append, Bool.and_eq_true]
    refine ⟨List.all_eq_true.mpr fun c hc => ?_, by simp [ha, hb]⟩
    rw [List.all_eq_true.mp hdigits c hc, Bool.true_or]
  rw [figureAmount_numeral hnumeral, figureDigits_decimals ha hb,
    readNumeral_point hdigits (by simp [ha, hb]) (List.cons_ne_nil a [b])]
  rfl

/-- **A figure can be converted exactly if it has a digit.** -/
theorem converts_iff {raw : Text} (h : IsFigure raw) : Converts raw ↔ raw.any isDigit = true := by
  cases h with
  | whole hrun =>
    unfold Converts
    rw [figureAmount_whole hrun]
    cases raw.any isDigit with
    | true => exact ⟨fun _ => rfl, fun _ => ⟨_, rfl⟩⟩
    | false => exact ⟨fun ⟨_, h⟩ => (nomatch h), nofun⟩
  | decimals hrun ha hb =>
    refine ⟨fun _ => ?_, fun _ => ⟨_, figureAmount_decimals hrun ha hb⟩⟩
    rw [List.any_append]
    simp [ha]

/-- The amount of a figure is a natural number, of dollars or of cents. -/
theorem amount_of_isFigure {raw : Text} (h : IsFigure raw) {d : PyDecimal}
    (hd : figureAmount raw = .ok d) : ∃ n : Nat, d = .fin n 0 ∨ d = .fin n (-2) := by
  cases h with
  | whole hrun =>
    rw [figureAmount_whole hrun] at hd
    split at hd
    · cases hd
      exact ⟨_, .inl rfl⟩
    · cases hd
  | decimals hrun ha hb =>
    rw [figureAmount_decimals hrun ha hb] at hd
    cases hd
    exact ⟨_, .inr rfl⟩

theorem mem_of_mem_unclaimed {claimed : List Text} {figures : List (RuleKind × Text)}
    {figure : RuleKind × Text} (h : figure ∈ unclaimed claimed figures) : figure ∈ figures := by
  induction figures generalizing claimed with
  | nil => exact h
  | cons f rest ih =>
    obtain ⟨kind, raw⟩ := f
    rw [unclaimed_cons] at h
    split at h
    · exact List.mem_cons_of_mem _ (ih h)
    · rcases List.mem_cons.mp h with rfl | h
      · exact List.mem_cons_self
      · exact List.mem_cons_of_mem _ (ih h)

theorem isFigure_of_firstFigure {kind : RuleKind} {text raw : Text}
    (h : firstFigure kind text = some raw) : IsFigure raw := by
  obtain ⟨figure, hfind, rfl⟩ := Option.map_eq_some_iff.mp h
  obtain ⟨sentence, -, hfigure⟩ := List.mem_flatMap.mp (List.mem_of_find?_eq_some hfind)
  exact isFigure_of_mem (mem_of_mem_unclaimed hfigure)

/-- **A section can be read exactly if the first figure of each kind has a digit.** -/
theorem extractRules_iff {text sectionTitle : Text} :
    (∃ rules, extractRules text sectionTitle = .ok rules) ↔
      ∀ kind raw, firstFigure kind text = some raw → raw.any isDigit = true := by
  rw [extractRules_readable]
  refine forall_congr' fun kind => forall_congr' fun raw => forall_congr' fun hfirst => ?_
  exact converts_iff (isFigure_of_firstFigure hfirst)

end OmniCare
