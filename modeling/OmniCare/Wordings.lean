import OmniCare.Figures
import OmniCare.Preferring
import OmniCare.Settlement

/-! # Limits and deductibles by their wording

A section states a limit as "covered up to $a" and a deductible as "$b deductible" or "deductible of
$b".  `extract_rules` gives each figure the kind of its own wording, unless both stand in one
sentence and are captured as the same text (`classified_iff`).
-/
namespace OmniCare

/-! ## What is stated -/

/-- An amount as it is written: digits with commas between them, and perhaps cents. -/
structure Figure where
  run : Text
  cents : Option (Char × Char) := none
  run_all : run.all isFigureChar = true
  first_digit : run.head?.any isDigit = true
  last_digit : run.getLast?.any isDigit = true
  cents_digits : ∀ p ∈ cents, isDigit p.1 = true ∧ isDigit p.2 = true

namespace Figure

variable (f : Figure)

def text : Text :=
  match f.cents with
  | none => f.run
  | some (x, y) => f.run ++ ['.', x, y]

def value : ℚ :=
  match f.cents with
  | none => Text.toNat (figureDigits f.run)
  | some (x, y) => Text.toNat (figureDigits f.run) + Text.toNat [x, y] / 100

/-- What the pattern of a figure captures: commas behind whole dollars too. -/
def captured (rest : Text) : Text :=
  match f.cents with
  | none => f.run ++ rest.takeWhile (· == ',')
  | some _ => f.text

end Figure

/-- No digit goes on with a number, not behind commas and not behind a point either. -/
def NumberEnds (rest : Text) : Prop :=
  let behind := rest.dropWhile (· == ',')
  behind.head?.any isDigit = false ∧
    (behind.head? = some '.' → behind.tail.head?.any isDigit = false)

example : NumberEnds ", and a deductible" := by
  unfold NumberEnds
  decide +kernel

/-- A word, in either case. -/
def Spelled (word t : Text) : Prop := List.Forall₂ (fun a b => sameLetter a b = true) word t

/-- Some white space. -/
structure Spaces (gap : Text) : Prop where
  ne_nil : gap ≠ []
  all : gap.all isSpace = true

/-- "covered up to $a" in a sentence. -/
structure LimitAt (a : Figure) (s : Text) where
  (left word₁ gap₁ word₂ gap₂ word₃ gap₃ right : Text)
  text_eq : s = left ++
    (word₁ ++ (gap₁ ++ (word₂ ++ (gap₂ ++ (word₃ ++ (gap₃ ++ ('$' :: (a.text ++ right))))))))
  spelled₁ : Spelled "covered" word₁
  spelled₂ : Spelled "up" word₂
  spelled₃ : Spelled "to" word₃
  spaces₁ : Spaces gap₁
  spaces₂ : Spaces gap₂
  spaces₃ : Spaces gap₃
  ends : NumberEnds right

/-- "$b deductible" or "deductible of $b" in a sentence. -/
inductive DeductibleAt (b : Figure) (s : Text)
  | before (left gap word right : Text)
      (text_eq : s = left ++ ('$' :: (b.text ++ (gap ++ (word ++ right)))))
      (spaces : Spaces gap) (spelled : Spelled "deductible" word)
  | behind (left word₁ gap₁ word₂ gap₂ right : Text)
      (text_eq : s =
        left ++ (word₁ ++ (gap₁ ++ (word₂ ++ (gap₂ ++ ('$' :: (b.text ++ right)))))))
      (spelled₁ : Spelled "deductible" word₁) (spelled₂ : Spelled "of" word₂)
      (spaces₁ : Spaces gap₁) (spaces₂ : Spaces gap₂) (ends : NumberEnds right)

/-- The patterns that match there, by their place in `rulePatterns` and the offset. -/
def LimitAt.hits {a : Figure} {s : Text} (l : LimitAt a s) : List (Nat × Nat) :=
  [(3, l.left.length), (4, (l.left ++ (l.word₁ ++ l.gap₁)).length)]

def LimitAt.captured {a : Figure} {s : Text} (l : LimitAt a s) : Text := a.captured l.right

def DeductibleAt.hits {b : Figure} {s : Text} : DeductibleAt b s → List (Nat × Nat)
  | .before left .. => [(0, left.length)]
  | .behind left .. => [(1, left.length)]

def DeductibleAt.captured {b : Figure} {s : Text} : DeductibleAt b s → Text
  | .before _ gap word right .. => b.captured (gap ++ (word ++ right))
  | .behind _ _ _ _ _ right .. => b.captured right

/-- The patterns match a sentence nowhere else. -/
def OnlyAt (s : Text) (hits : List (Nat × Nat)) : Prop :=
  ∀ p ∈ rulePatterns.zipIdx, ∀ n < s.length + 1,
    (p.1.2.matchAt (.inText s n)).isSome → (p.2, n) ∈ hits

instance (s : Text) (hits : List (Nat × Nat)) : Decidable (OnlyAt s hits) :=
  inferInstanceAs (Decidable (∀ p ∈ rulePatterns.zipIdx, ∀ n < s.length + 1,
    (p.1.2.matchAt (.inText s n)).isSome → (p.2, n) ∈ hits))

/-- A section text states a limit and a deductible once each, in one sentence or in two, and no
pattern matches any other words of it. -/
structure Stated (a b : Figure) (text : Text) where
  (i j : Nat)
  (limitSentence deductibleSentence : Text)
  limit_mem : (sentences text)[i]? = some limitSentence
  deductible_mem : (sentences text)[j]? = some deductibleSentence
  limit : LimitAt a limitSentence
  deductible : DeductibleAt b deductibleSentence
  only : ∀ k s, (sentences text)[k]? = some s →
    OnlyAt s ((if k = j then deductible.hits else []) ++ if k = i then limit.hits else [])

/-- Exactly a limit and a deductible, with these values. -/
def Classified (a b : Figure) (result : Except PyError (List CoverageRule)) : Prop :=
  ∃ rules l d, result = .ok rules ∧ rules.Perm [l, d] ∧
    l.kind = .limit ∧ l.amount.rational = .ok a.value ∧
    d.kind = .deductible ∧ d.amount.rational = .ok b.value

/-! ## What is captured -/

section
open Regex

variable {f : Figure} {rest : Text}

/-- What comes behind the text that is captured. -/
def Figure.behind (f : Figure) (rest : Text) : Text :=
  match f.cents with
  | none => rest.dropWhile (· == ',')
  | some _ => rest

theorem Figure.captured_append (f : Figure) (rest : Text) :
    f.text ++ rest = f.captured rest ++ f.behind rest := by
  unfold Figure.captured Figure.behind Figure.text
  cases f.cents with
  | none =>
    dsimp only
    rw [List.append_assoc, List.takeWhile_append_dropWhile]
  | some p => rfl

theorem Figure.captured_head (f : Figure) (rest : Text) :
    ∃ c t, f.captured rest = c :: t ∧ isDigit c = true := by
  have hfirst := f.first_digit
  cases hrun : f.run with
  | nil =>
    rw [hrun] at hfirst
    cases hfirst
  | cons c run =>
    rw [hrun] at hfirst
    unfold Figure.captured Figure.text
    cases hcents : f.cents with
    | none => exact ⟨c, _, by rw [hrun]; rfl, hfirst⟩
    | some p => exact ⟨c, _, by rw [hrun]; rfl, hfirst⟩

/-- **The pattern of a figure captures it** as far as the number goes. -/
theorem amountFigure_prefers (h : NumberEnds rest) :
    amountFigure.Prefers ('$' :: f.captured rest) (f.behind rest) [(1, f.captured rest)] := by
  obtain ⟨c, t, hhead, hdigit⟩ := f.captured_head rest
  have hdollar : (Regex.char (· == '$')).Prefers ['$'] (f.captured rest ++ f.behind rest) [] :=
    .char rfl
  have hspace : (Regex.opt .space).Prefers [] (f.captured rest ++ f.behind rest) [] := by
    refine .optStay fun before groups => ?_
    rw [hhead]
    simp [Regex.space, run, isSpace_of_isDigit hdigit]
  obtain ⟨hnext, hpoint⟩ := h
  have hrun : (Regex.cat [.plus (.char fun c => isDigit c || c == ','),
      .opt (.cat [.char (· == '.'), .times 2 .digit])]).Prefers (f.captured rest) (f.behind rest)
        [] := by
    cases hcents : f.cents with
    | none =>
      have hcaptured : f.captured rest = f.run ++ rest.takeWhile (· == ',') := by
        unfold Figure.captured
        rw [hcents]
      have hbehind : f.behind rest = rest.dropWhile (· == ',') := by
        unfold Figure.behind
        rw [hcents]
      have hne : f.captured rest ≠ [] := by
        rw [hhead]
        exact List.cons_ne_nil c t
      have hall : (f.captured rest).all isFigureChar = true := by
        rw [hcaptured, List.all_append, f.run_all, Bool.true_and, List.all_eq_true]
        intro x hx
        have hcomma := List.mem_takeWhile_imp hx
        rw [isFigureChar, hcomma, Bool.or_true]
      have hstop : (f.behind rest).head?.any isFigureChar = false := by
        rw [hbehind]
        have hcomma := head_dropWhile (· == ',') rest
        cases hdrop : (rest.dropWhile (· == ',')).head? with
        | none => rfl
        | some x =>
          rw [hdrop] at hnext hcomma
          show (isDigit x || x == ',') = false
          rw [show isDigit x = false from hnext, show (x == ',') = false from hcomma]
          rfl
      -- no point with two digits follows
      have hcents' : (Regex.opt (.cat [.char (· == '.'), .times 2 .digit])).Prefers []
          (f.behind rest) [] := by
        refine .optStay fun before groups => ?_
        rw [List.eq_nil_iff_forall_not_mem]
        intro v hv
        obtain ⟨u, hu, hv⟩ := mem_run_seq.mp hv
        obtain ⟨x, hx, hfirst, -⟩ := mem_run_char.mp hu
        obtain ⟨two, htwo, hrest, -⟩ := mem_run_rep_char.mp hv
        obtain ⟨y, z, rfl⟩ : ∃ y z, two = [y, z] :=
          List.length_eq_two.mp (Nat.le_antisymm (htwo.atMost 2 rfl) htwo.atLeast)
        have htext : f.behind rest = x :: y :: z :: v.cursor.after := (hfirst.trans hrest).1
        rw [hbehind] at htext
        rw [htext] at hpoint
        have hy := hpoint (congrArg some (eq_of_beq hx))
        have hall := htwo.all
        rw [List.all_cons, Bool.and_eq_true] at hall
        exact Bool.false_ne_true ((show isDigit y = false from hy).symm.trans hall.1)
      have hplus : (Regex.plus (.char isFigureChar)).Prefers (f.captured rest)
          ([] ++ f.behind rest) [] := .plus hne hall hstop
      have hboth := hplus.seq hcents'
      rwa [List.append_nil] at hboth
    | some p =>
      obtain ⟨x, y⟩ := p
      obtain ⟨hx, hy⟩ := f.cents_digits (x, y) hcents
      have hcaptured : f.captured rest = f.run ++ ['.', x, y] := by
        unfold Figure.captured Figure.text
        rw [hcents]
      have hne : f.run ≠ [] := by
        intro hnil
        have hfirst := f.first_digit
        rw [hnil] at hfirst
        cases hfirst
      have hpointStop : (isDigit '.' || '.' == ',') = false := by decide
      have hplus : (Regex.plus (.char fun c => isDigit c || c == ',')).Prefers f.run
          (['.', x, y] ++ f.behind rest) [] :=
        .plus hne f.run_all hpointStop
      have htwo : (Regex.times 2 .digit).Prefers [x, y] (f.behind rest) [] :=
        .times (t := [x, y]) (by simp [hx, hy])
      have hopt : (Regex.opt (.cat [.char (· == '.'), .times 2 .digit])).Prefers ['.', x, y]
          (f.behind rest) [] :=
        .optTake (.seq (t := ['.']) (.char rfl) htwo) (List.cons_ne_nil _ _)
      rw [hcaptured]
      exact hplus.seq hopt
  exact hdollar.seq (hspace.seq (t := []) (hrun.group 1))

theorem Spaces.prefers {gap : Text} (h : Spaces gap) (hrest : rest.head?.any isSpace = false) :
    Regex.gap.Prefers gap rest [] :=
  .plus h.ne_nil h.all hrest

/-- A word starts with no space. -/
theorem Spelled.head {c : Char} {word t : Text} (h : Spelled (c :: word) t)
    (hc : isSpace c = false) (rest : Text) : (t ++ rest).head?.any isSpace = false := by
  cases h with
  | @cons _ x _ t hx h =>
    show isSpace x = false
    rw [Bool.eq_false_iff]
    intro hspace
    rw [eq_of_sameLetter_isSpace hx hspace, hspace] at hc
    cases hc

/-- A number ends before white space. -/
theorem Spaces.numberEnds {gap : Text} (h : Spaces gap) (rest : Text) :
    NumberEnds (gap ++ rest) ∧ f.behind (gap ++ rest) = gap ++ rest := by
  obtain ⟨hne, hall⟩ := h
  cases gap with
  | nil => exact absurd rfl hne
  | cons c gap =>
    rw [List.all_cons, Bool.and_eq_true] at hall
    have hcomma : (c == ',') = false := by
      rw [beq_eq_false_iff_ne]
      rintro rfl
      exact absurd hall.1 (by decide)
    have hdrop : (c :: gap ++ rest).dropWhile (· == ',') = c :: gap ++ rest :=
      List.dropWhile_cons_of_neg (by rw [hcomma]; exact Bool.false_ne_true)
    constructor
    · unfold NumberEnds
      rw [hdrop]
      constructor
      · show isDigit c = false
        rw [Bool.eq_false_iff]
        intro hdigit
        rw [isSpace_of_isDigit hdigit] at hall
        cases hall.1
      · intro hpoint
        obtain rfl : c = '.' := Option.some.inj hpoint
        exact absurd hall.1 (by decide)
    · unfold Figure.behind
      cases f.cents with
      | none => exact hdrop
      | some p => rfl

end

/-! ## The matches of the patterns -/

section
open Regex

variable {a b : Figure} {s : Text} {hits : List (Nat × Nat)}

theorem rulePatterns_solid : ∀ p ∈ rulePatterns, p.2.Solid := by
  intro p hp
  have hwords : ∀ {v w : Text}, v ≠ [] → w ≠ [] → (wordsI [v, w]).Solid :=
    fun hv hw => (Solid.litI hv).alt (.litI hw)
  fin_cases hp
  · exact .seq (.seq (.char _) _) _
  · exact .seq (.litI (by decide)) _
  · exact .second _ (.seq (.litI (by decide)) _)
  · exact .seq (.litI (by decide)) _
  · exact .seq (.litI (by decide)) _
  · exact .seq (hwords (by decide) (by decide)) _
  · exact .seq (.litI (by decide)) _

/-- The figures that one of the patterns finds. -/
def figuresBy (s : Text) (i : Nat) : List (RuleKind × Text) :=
  match rulePatterns[i]? with
  | some p => (p.2.finditer s).map fun m => (p.1, m.group 1)
  | none => []

/-- A pattern that matches nowhere finds nothing. -/
theorem figuresBy_eq_nil (h : OnlyAt s hits) {i : Nat} (hi : ∀ n, (i, n) ∉ hits) :
    figuresBy s i = [] := by
  unfold figuresBy
  cases hp : rulePatterns[i]? with
  | none => rfl
  | some p =>
    dsimp only
    rw [(rulePatterns_solid p (List.mem_of_getElem? hp)).finditer_eq_nil, List.map_nil]
    intro n hn
    cases hm : p.2.matchAt (.inText s n) with
    | none => rfl
    | some m =>
      have hmem := h (p, i) (List.mem_zipIdx_iff_getElem?.mpr hp) n (by omega) (by rw [hm]; rfl)
      exact absurd hmem (hi n)

/-- A pattern that matches at one place finds the figure that it captures there. -/
theorem figuresBy_eq_singleton (h : OnlyAt s hits) {i : Nat} {p : RuleKind × Regex}
    (hp : rulePatterns[i]? = some p) (left : Text) {t rest raw : Text}
    (htext : s = left ++ (t ++ rest)) (hprefers : p.2.Prefers t rest [(1, raw)])
    (hone : ∀ n, (i, n) ∈ hits → n = left.length) :
    figuresBy s i = [(p.1, raw)] := by
  unfold figuresBy
  rw [hp]
  dsimp only
  have hmatch := hprefers.matchAt left.reverse
  rw [← Cursor.inText_append, ← htext] at hmatch
  rw [(rulePatterns_solid p (List.mem_of_getElem? hp)).finditer_eq_singleton hmatch]
  · rfl
  · intro n hn hsome
    exact hone n (h (p, i) (List.mem_zipIdx_iff_getElem?.mpr hp) n (by omega) hsome)

/-- **A limit is found** by the patterns of its wording, at these places only. -/
theorem LimitAt.figures (l : LimitAt a s) {before : List (Nat × Nat)}
    (h : OnlyAt s (before ++ l.hits)) (hbefore : ∀ i n, (i, n) ∈ before → i < 2) :
    figuresBy s 3 = [(.limit, l.captured)] ∧ figuresBy s 4 = [(.limit, l.captured)] := by
  have hfigure := amountFigure_prefers (f := a) l.ends
  have hdollar : isSpace '$' = false := by decide
  have htail := a.captured_append l.right
  -- "up to $a"
  have hupTo : (Regex.cat [.litI "up", .gap, .litI "to", .gap, amountFigure]).Prefers
      (l.word₂ ++ (l.gap₂ ++ (l.word₃ ++ (l.gap₃ ++ ('$' :: l.captured))))) (a.behind l.right)
        [(1, l.captured)] := by
    refine (Prefers.litI l.spelled₂).seq (((l.spaces₂.prefers ?_)).seq
      ((Prefers.litI l.spelled₃).seq ((l.spaces₃.prefers ?_).seq hfigure)))
    · rw [List.append_assoc]
      exact l.spelled₃.head (by decide) _
    · exact hdollar
  have hcovered : (Regex.cat [.litI "covered", .gap, .litI "up", .gap, .litI "to", .gap,
      amountFigure]).Prefers
      (l.word₁ ++ (l.gap₁ ++
        (l.word₂ ++ (l.gap₂ ++ (l.word₃ ++ (l.gap₃ ++ ('$' :: l.captured)))))))
      (a.behind l.right) [(1, l.captured)] := by
    refine (Prefers.litI l.spelled₁).seq ((l.spaces₁.prefers ?_).seq hupTo)
    rw [List.append_assoc]
    exact l.spelled₂.head (by decide) _
  have hindex : ∀ i n, 2 ≤ i → (i, n) ∈ before ++ l.hits → (i, n) ∈ l.hits := fun i n hi hmem =>
    (List.mem_append.mp hmem).resolve_left fun h => absurd (hbefore i n h) (Nat.not_lt.mpr hi)
  constructor
  · refine figuresBy_eq_singleton (p := (.limit, _)) h rfl l.left ?_ hcovered fun n hmem => ?_
    · refine l.text_eq.trans ?_
      rw [htail]
      simp only [List.append_assoc, List.cons_append, LimitAt.captured]
    · rcases List.mem_cons.mp (hindex 3 n (by decide) hmem) with heq | hmem
      · exact (Prod.mk.inj heq).2
      · cases List.mem_singleton.mp hmem
  · refine figuresBy_eq_singleton (p := (.limit, _)) h rfl (l.left ++ (l.word₁ ++ l.gap₁)) ?_ hupTo
      fun n hmem => ?_
    · refine l.text_eq.trans ?_
      rw [htail]
      simp only [List.append_assoc, List.cons_append, LimitAt.captured]
    · rcases List.mem_cons.mp (hindex 4 n (by decide) hmem) with heq | hmem
      · cases heq
      · exact (Prod.mk.inj (List.mem_singleton.mp hmem)).2

/-- **A deductible is found** by the pattern of its wording. -/
theorem DeductibleAt.figures (d : DeductibleAt b s) {after : List (Nat × Nat)}
    (h : OnlyAt s (d.hits ++ after)) (hafter : ∀ i n, (i, n) ∈ after → 2 ≤ i) :
    figuresBy s 0 ++ figuresBy s 1 = [(.deductible, d.captured)] := by
  have hindex : ∀ i n, i < 2 → (i, n) ∈ d.hits ++ after → (i, n) ∈ d.hits := fun i n hi hmem =>
    (List.mem_append.mp hmem).resolve_right fun h => absurd (hafter i n h) (Nat.not_le.mpr hi)
  cases d with
  | before left gap word right text_eq spaces spelled =>
    obtain ⟨hends, hbehind⟩ := spaces.numberEnds (f := b) (word ++ right)
    have hfigure := amountFigure_prefers (f := b) hends
    rw [hbehind] at hfigure
    have hpattern : (Regex.cat [amountFigure, .gap, .litI "deductible"]).Prefers
        (('$' :: b.captured (gap ++ (word ++ right))) ++ (gap ++ word)) right
          [(1, b.captured (gap ++ (word ++ right)))] := by
      have hword : (Regex.cat [.gap, .litI "deductible"]).Prefers (gap ++ word) right [] :=
        (spaces.prefers (spelled.head (by decide) _)).seq (.litI spelled)
      refine Prefers.seq ?_ hword
      rwa [List.append_assoc]
    have htail := b.captured_append (gap ++ (word ++ right))
    rw [hbehind] at htail
    have hfirst : figuresBy s 0 = [(.deductible, b.captured (gap ++ (word ++ right)))] := by
      refine figuresBy_eq_singleton (p := (.deductible, _)) h rfl left ?_ hpattern fun n hmem => ?_
      · rw [text_eq, htail]
        simp only [List.append_assoc, List.cons_append]
      · exact (Prod.mk.inj (List.mem_singleton.mp (hindex 0 n (by decide) hmem))).2
    have hsecond : figuresBy s 1 = [] := figuresBy_eq_nil h fun n hmem => by
      cases List.mem_singleton.mp (hindex 1 n (by decide) hmem)
    rw [hfirst, hsecond]
    rfl
  | behind left word₁ gap₁ word₂ gap₂ right text_eq spelled₁ spelled₂ spaces₁ spaces₂ ends =>
    have hfigure := amountFigure_prefers (f := b) ends
    have hpattern : (Regex.cat [.litI "deductible", .gap, .litI "of", .gap, amountFigure]).Prefers
        (word₁ ++ (gap₁ ++ (word₂ ++ (gap₂ ++ ('$' :: b.captured right))))) (b.behind right)
          [(1, b.captured right)] := by
      refine (Prefers.litI spelled₁).seq ((spaces₁.prefers ?_).seq
        ((Prefers.litI spelled₂).seq ((spaces₂.prefers ?_).seq hfigure)))
      · rw [List.append_assoc]
        exact spelled₂.head (by decide) _
      · show isSpace '$' = false
        decide
    have hfirst : figuresBy s 0 = [] := figuresBy_eq_nil h fun n hmem => by
      cases List.mem_singleton.mp (hindex 0 n (by decide) hmem)
    have hsecond : figuresBy s 1 = [(.deductible, b.captured right)] := by
      refine figuresBy_eq_singleton (p := (.deductible, _)) h rfl left ?_ hpattern fun n hmem => ?_
      · rw [text_eq, b.captured_append right]
        simp only [List.append_assoc, List.cons_append]
      · exact (Prod.mk.inj (List.mem_singleton.mp (hindex 1 n (by decide) hmem))).2
    rw [hfirst, hsecond]
    rfl

end

/-! ## The amount of a figure -/

theorem toNat_append_two (s : Text) (x y : Char) :
    Text.toNat (s ++ [x, y]) = Text.toNat s * 100 + Text.toNat [x, y] := by
  simp only [Text.toNat, List.foldl_append, List.foldl_cons, List.foldl_nil]
  omega

/-- **What is captured of a figure has its value.** -/
theorem Figure.figureAmount_captured (f : Figure) (rest : Text) :
    ∃ d, figureAmount (f.captured rest) = .ok d ∧ d.rational = .ok f.value := by
  cases hcents : f.cents with
  | none =>
    have hcommas : (rest.takeWhile (· == ',')).all isFigureChar = true := by
      rw [List.all_eq_true]
      intro x hx
      rw [isFigureChar, List.mem_takeWhile_imp hx, Bool.or_true]
    have hcaptured : f.captured rest = f.run ++ rest.takeWhile (· == ',') := by
      unfold Figure.captured
      rw [hcents]
    have hdigit : (f.captured rest).any isDigit = true := by
      obtain ⟨c, t, hhead, hc⟩ := f.captured_head rest
      rw [hhead, List.any_cons, hc, Bool.true_or]
    -- the commas count for nothing
    have hnone : figureDigits (rest.takeWhile (· == ',')) = [] := by
      refine List.filter_eq_nil_iff.mpr fun x hx => ?_
      have hcomma := List.mem_takeWhile_imp hx
      rw [eq_of_beq hcomma]
      decide
    have hdigits : figureDigits (f.captured rest) = figureDigits f.run := by
      rw [hcaptured, figureDigits, List.filter_append]
      show figureDigits f.run ++ figureDigits (rest.takeWhile (· == ',')) = _
      rw [hnone, List.append_nil]
    have hall : (f.captured rest).all isFigureChar = true := by
      rw [hcaptured, List.all_append, f.run_all, hcommas]
      rfl
    refine ⟨_, (figureAmount_whole hall).trans (if_pos hdigit), ?_⟩
    rw [hdigits]
    unfold Figure.value PyDecimal.rational scaled
    rw [hcents]
    simp
  | some p =>
    obtain ⟨x, y⟩ := p
    obtain ⟨hx, hy⟩ := f.cents_digits (x, y) hcents
    have hcaptured : f.captured rest = f.run ++ ['.', x, y] := by
      unfold Figure.captured Figure.text
      rw [hcents]
    refine ⟨_, (congrArg figureAmount hcaptured).trans (figureAmount_decimals f.run_all hx hy), ?_⟩
    rw [toNat_append_two]
    unfold Figure.value PyDecimal.rational scaled
    rw [hcents]
    dsimp only
    rw [if_neg (by decide)]
    refine congrArg Except.ok ?_
    push_cast
    norm_num
    ring

/-! ## The figures of a sentence -/

section
variable {a b : Figure} {s : Text}

theorem LimitAt.hits_place (l : LimitAt a s) {i n : Nat} (h : (i, n) ∈ l.hits) : i = 3 ∨ i = 4 := by
  rcases List.mem_cons.mp h with heq | h
  · exact .inl (Prod.mk.inj heq).1
  · exact .inr (Prod.mk.inj (List.mem_singleton.mp h)).1

theorem DeductibleAt.hits_place (d : DeductibleAt b s) {i n : Nat} (h : (i, n) ∈ d.hits) :
    i < 2 := by
  cases d with
  | before => exact (Prod.mk.inj (List.mem_singleton.mp h)).1 ▸ by decide
  | behind => exact (Prod.mk.inj (List.mem_singleton.mp h)).1 ▸ by decide

/-- The figures by the patterns that match nowhere are none. -/
theorem figuresOf_of_hits {hits : List (Nat × Nat)} (h : OnlyAt s hits)
    (hplaces : ∀ i n, (i, n) ∈ hits → i < 2 ∨ i = 3 ∨ i = 4) :
    figuresOf s = (figuresBy s 0 ++ figuresBy s 1) ++ (figuresBy s 3 ++ figuresBy s 4) := by
  have hnone : ∀ i, ¬(i < 2 ∨ i = 3 ∨ i = 4) → figuresBy s i = [] := fun i hi =>
    figuresBy_eq_nil h fun n hmem => hi (hplaces i n hmem)
  have hall : figuresOf s = figuresBy s 0 ++ (figuresBy s 1 ++ (figuresBy s 2 ++ (figuresBy s 3 ++
      (figuresBy s 4 ++ (figuresBy s 5 ++ (figuresBy s 6 ++ [])))))) := rfl
  rw [hall, hnone 2 (by decide), hnone 5 (by decide), hnone 6 (by decide)]
  simp only [List.nil_append, List.append_nil, List.append_assoc]

theorem figuresOf_limit (l : LimitAt a s) (h : OnlyAt s ([] ++ l.hits)) :
    figuresOf s = [(.limit, l.captured), (.limit, l.captured)] := by
  obtain ⟨hcovered, hupTo⟩ := l.figures h nofun
  rw [figuresOf_of_hits h fun i n hmem => .inr (l.hits_place hmem), hcovered, hupTo,
    figuresBy_eq_nil h fun n hmem => absurd (l.hits_place hmem) (by decide),
    figuresBy_eq_nil h fun n hmem => absurd (l.hits_place hmem) (by decide)]
  rfl

theorem figuresOf_deductible (d : DeductibleAt b s) (h : OnlyAt s (d.hits ++ [])) :
    figuresOf s = [(.deductible, d.captured)] := by
  have hplace : ∀ i n, (i, n) ∈ d.hits ++ [] → i < 2 := by
    intro i n hmem
    rw [List.append_nil] at hmem
    exact d.hits_place hmem
  rw [figuresOf_of_hits h fun i n hmem => .inl (hplace i n hmem), d.figures h nofun,
    figuresBy_eq_nil h fun n hmem => absurd (hplace 3 n hmem) (by decide),
    figuresBy_eq_nil h fun n hmem => absurd (hplace 4 n hmem) (by decide)]
  rfl

theorem figuresOf_both (l : LimitAt a s) (d : DeductibleAt b s)
    (h : OnlyAt s (d.hits ++ l.hits)) :
    figuresOf s = [(.deductible, d.captured), (.limit, l.captured), (.limit, l.captured)] := by
  obtain ⟨hcovered, hupTo⟩ := l.figures h fun i n hmem => d.hits_place hmem
  have hafter : ∀ i n, (i, n) ∈ l.hits → 2 ≤ i := by
    intro i n hmem
    have := l.hits_place hmem
    omega
  rw [figuresOf_of_hits h fun i n hmem => (List.mem_append.mp hmem).imp d.hits_place l.hits_place,
    hcovered, hupTo, d.figures h hafter]
  rfl

theorem figuresOf_none (h : OnlyAt s []) : figuresOf s = [] := by
  rw [figuresOf_of_hits h nofun, figuresBy_eq_nil h nofun, figuresBy_eq_nil h nofun,
    figuresBy_eq_nil h nofun, figuresBy_eq_nil h nofun]
  rfl

end

/-! ## The rules of a section -/

/-- What only one element of a list has is found. -/
theorem findSome?_eq_of_unique {α β : Type*} {f : α → Option β} {xs : List α} {i : Nat} {x : α}
    {y : β} (hi : xs[i]? = some x) (hx : f x = some y)
    (hother : ∀ k z, xs[k]? = some z → k ≠ i → f z = none) : xs.findSome? f = some y := by
  induction xs generalizing i with
  | nil => cases hi
  | cons z xs ih =>
    rw [List.findSome?_cons]
    cases i with
    | zero =>
      obtain rfl : z = x := Option.some.inj hi
      rw [hx]
    | succ i =>
      rw [hother 0 z rfl (Nat.succ_ne_zero i).symm]
      exact ih hi fun k z hk hne => hother (k + 1) z hk fun heq => hne (Nat.succ.inj heq)

theorem firstOf_flatMap (kind : RuleKind) (figures : Text → List (RuleKind × Text))
    (ss : List Text) :
    firstOf kind (ss.flatMap figures) = ss.findSome? fun s => firstOf kind (figures s) := by
  induction ss with
  | nil => rfl
  | cons s ss ih =>
    rw [List.flatMap_cons, firstOf_append, ih, List.findSome?_cons]
    cases firstOf kind (figures s) <;> rfl

namespace Stated

variable {a b : Figure} {text : Text}

/-- Limit and deductible stand in one sentence, and are captured as the same text. -/
def Merged (h : Stated a b text) : Prop :=
  h.i = h.j ∧ h.limit.captured = h.deductible.captured

instance (h : Stated a b text) : Decidable h.Merged :=
  inferInstanceAs (Decidable (h.i = h.j ∧ h.limit.captured = h.deductible.captured))

/-- The figures that count in a sentence. -/
theorem counted (h : Stated a b text) {k : Nat} {s : Text} (hs : (sentences text)[k]? = some s) :
    unclaimed [] (figuresOf s) =
      (if k = h.j then [(.deductible, h.deductible.captured)] else []) ++
        if k = h.i ∧ ¬h.Merged then [(.limit, h.limit.captured)] else [] := by
  obtain ⟨i, j, ls, ds, hls, hds, l, d, only⟩ := h
  have honly := only k s hs
  unfold Merged
  dsimp only at honly ⊢
  by_cases hj : k = j
  · subst hj
    obtain rfl : ds = s := Option.some.inj (hds.symm.trans hs)
    rw [if_pos rfl] at honly
    rw [if_pos rfl]
    by_cases hi : k = i
    · subst hi
      obtain rfl : ls = ds := Option.some.inj (hls.symm.trans hs)
      rw [if_pos rfl] at honly
      rw [figuresOf_both l d honly]
      by_cases hsame : l.captured = d.captured
      · rw [if_neg fun h => h.2 ⟨rfl, hsame⟩, hsame]
        simp [unclaimed_cons, unclaimed_nil]
      · rw [if_pos ⟨rfl, fun h => hsame h.2⟩]
        simp [unclaimed_cons, unclaimed_nil, hsame]
    · rw [if_neg hi] at honly
      rw [figuresOf_deductible d honly, if_neg fun h => hi h.1]
      rfl
  · rw [if_neg hj] at honly
    rw [if_neg hj]
    by_cases hi : k = i
    · subst hi
      obtain rfl : ls = s := Option.some.inj (hls.symm.trans hs)
      rw [if_pos rfl] at honly
      rw [figuresOf_limit l honly, if_pos ⟨rfl, fun h => hj h.1⟩]
      simp [unclaimed_cons, unclaimed_nil]
    · rw [if_neg hi] at honly
      rw [figuresOf_none honly, if_neg fun h => hi h.1]
      rfl

theorem firstFigure_deductible (h : Stated a b text) :
    firstFigure .deductible text = some h.deductible.captured := by
  unfold firstFigure figuresIn
  rw [firstOf_flatMap]
  refine findSome?_eq_of_unique h.deductible_mem ?_ fun k s hs hne => ?_
  · rw [h.counted h.deductible_mem, if_pos rfl, firstOf_append]
    rfl
  · rw [h.counted hs, if_neg hne]
    split <;> rfl

theorem firstFigure_limit (h : Stated a b text) :
    firstFigure .limit text = if h.Merged then none else some h.limit.captured := by
  unfold firstFigure figuresIn
  rw [firstOf_flatMap]
  -- a deductible is no limit
  have hskip : ∀ (p : Prop) [Decidable p] (rest : List (RuleKind × Text)),
      firstOf .limit ((if p then [(.deductible, h.deductible.captured)] else []) ++ rest) =
        firstOf .limit rest := by
    intro p _ rest
    split <;> rfl
  split
  · rename_i hmerged
    rw [List.findSome?_eq_none_iff]
    intro s hs
    obtain ⟨k, hk⟩ := List.mem_iff_getElem?.mp hs
    rw [h.counted hk, hskip, if_neg fun hcount => hcount.2 hmerged]
    rfl
  · rename_i hapart
    refine findSome?_eq_of_unique h.limit_mem ?_ fun k s hs hne => ?_
    · rw [h.counted h.limit_mem, hskip, if_pos ⟨rfl, hapart⟩]
      rfl
    · rw [h.counted hs, hskip, if_neg fun hcount => hne hcount.1]
      rfl

theorem firstFigure_threshold (h : Stated a b text) :
    firstFigure .perItemThreshold text = none := by
  unfold firstFigure figuresIn
  rw [firstOf_flatMap, List.findSome?_eq_none_iff]
  intro s hs
  obtain ⟨k, hk⟩ := List.mem_iff_getElem?.mp hs
  rw [h.counted hk]
  split <;> (split <;> rfl)

theorem kind_of_ruleOf {kind : RuleKind} {rules : List CoverageRule} {r : CoverageRule}
    (h : ruleOf kind rules = some r) : r.kind = kind := by
  have hkind := List.find?_some h
  exact of_decide_eq_true hkind

/-- Two rules of two kinds are all that a section has. -/
theorem perm_pair {rules : List CoverageRule} {l d : CoverageRule}
    (hnodup : (rules.map CoverageRule.kind).Nodup) (hl : ruleOf .limit rules = some l)
    (hd : ruleOf .deductible rules = some d) (hnone : amountOf .perItemThreshold rules = none) :
    rules.Perm [l, d] := by
  have hkind : ∀ {kind r}, ruleOf kind rules = some r → r.kind = kind := kind_of_ruleOf
  have hmem : ∀ {kind r}, ruleOf kind rules = some r → r ∈ rules := List.mem_of_find?_eq_some
  have hdistinct : [l, d].Nodup := by
    refine List.nodup_cons.mpr ⟨fun h => ?_, List.nodup_singleton d⟩
    have heq := hkind hl
    rw [List.mem_singleton.mp h, hkind hd] at heq
    cases heq
  refine (List.perm_ext_iff_of_nodup hnodup.of_map hdistinct).mpr fun r => ?_
  constructor
  · intro hr
    cases hrkind : r.kind with
    | limit =>
      have hsame := List.inj_on_of_nodup_map hnodup hr (hmem hl) (hrkind.trans (hkind hl).symm)
      rw [hsame]
      exact List.mem_cons_self
    | deductible =>
      have hsame := List.inj_on_of_nodup_map hnodup hr (hmem hd) (hrkind.trans (hkind hd).symm)
      rw [hsame]
      exact List.mem_cons_of_mem _ (List.mem_singleton_self d)
    | perItemThreshold =>
      have := List.any_eq_false.mp (amountOf_eq_none.mp hnone) r hr
      exact absurd (decide_eq_true hrkind) this
  · intro hr
    rcases List.mem_cons.mp hr with rfl | hr
    · exact hmem hl
    · rw [List.mem_singleton.mp hr]
      exact hmem hd

/-- **Each figure is classified by its own wording**, unless both stand in one sentence and are
captured as the same text. -/
theorem classified_iff (h : Stated a b text) (sectionTitle : Text) :
    Classified a b (extractRules text sectionTitle) ↔
      ¬(h.i = h.j ∧ h.limit.captured = h.deductible.captured) := by
  show _ ↔ ¬h.Merged
  have hlimit := h.firstFigure_limit
  have hdeductible := h.firstFigure_deductible
  constructor
  · rintro ⟨rules, l, d, hrules, hperm, hkind, -⟩ hmerged
    -- the deductible has taken the figure of the limit
    have hamount := amountOf_extractRules hrules .limit
    rw [hlimit, if_pos hmerged, Option.bind_none, amountOf_eq_none] at hamount
    have hmem : l ∈ rules := hperm.mem_iff.mpr List.mem_cons_self
    exact List.any_eq_false.mp hamount l hmem (decide_eq_true hkind)
  · intro hapart
    rw [if_neg hapart] at hlimit
    obtain ⟨x, hx, hxvalue⟩ := a.figureAmount_captured h.limit.right
    obtain ⟨y, hy, hyvalue⟩ : ∃ y, figureAmount h.deductible.captured = .ok y ∧
        y.rational = .ok b.value := by
      cases h.deductible with
      | before => exact b.figureAmount_captured _
      | behind => exact b.figureAmount_captured _
    obtain ⟨rules, hrules⟩ : ∃ rules, extractRules text sectionTitle = .ok rules := by
      refine extractRules_readable.mpr fun kind raw hraw => ?_
      cases kind with
      | limit =>
        rw [hlimit] at hraw
        cases hraw
        exact ⟨x, hx⟩
      | deductible =>
        rw [hdeductible] at hraw
        cases hraw
        exact ⟨y, hy⟩
      | perItemThreshold =>
        rw [h.firstFigure_threshold] at hraw
        cases hraw
    have hamount := amountOf_extractRules hrules
    have hlrule : amountOf .limit rules = some x := by
      rw [hamount, hlimit, Option.bind_some, show figureAmount h.limit.captured = .ok x from hx]
      rfl
    have hdrule : amountOf .deductible rules = some y := by
      rw [hamount, hdeductible, Option.bind_some, hy]
      rfl
    have hnone : amountOf .perItemThreshold rules = none := by
      rw [hamount, h.firstFigure_threshold]
      rfl
    obtain ⟨l, hl, rfl⟩ := Option.map_eq_some_iff.mp hlrule
    obtain ⟨d, hd, rfl⟩ := Option.map_eq_some_iff.mp hdrule
    exact ⟨rules, l, d, hrules, perm_pair (nodup_extractRules hrules) hl hd hnone,
      kind_of_ruleOf hl, hxvalue, kind_of_ruleOf hd, hyvalue⟩

end Stated

/-- A figure of three digits. -/
def fiveHundred : Figure :=
  ⟨"500", none, by decide, by decide, by decide, nofun⟩

/-- A figure with a comma and cents. -/
def grouped : Figure :=
  ⟨"25,000", some ('5', '0'), by decide, by decide, by decide, by
    rintro p ⟨⟩
    decide⟩

theorem spelled_self {word : Text} (h : word.all (fun c => sameLetter c c) = true) :
    Spelled word word := by
  unfold Spelled
  rw [List.forall₂_same]
  exact List.all_eq_true.mp h

theorem spaces_one : Spaces [' '] := ⟨List.cons_ne_nil _ _, by decide⟩

/-- One sentence with a limit and a deductible. -/
def together (a b : Figure) : Text :=
  "Bursts are ".toList ++ ("covered".toList ++ ([' '] ++ ("up".toList ++ ([' '] ++
    ("to".toList ++ ([' '] ++ ('$' :: (a.text ++ ([' '] ++ ("with a ".toList ++
      ('$' :: (b.text ++ ([' '] ++ ("deductible".toList ++ ['.']))))))))))))))

def together.limit (a b : Figure) : LimitAt a (together a b) where
  left := "Bursts are "
  word₁ := "covered"
  gap₁ := [' ']
  word₂ := "up"
  gap₂ := [' ']
  word₃ := "to"
  gap₃ := [' ']
  right := [' '] ++ ("with a ".toList ++
    ('$' :: (b.text ++ ([' '] ++ ("deductible".toList ++ ['.'])))))
  text_eq := rfl
  spelled₁ := spelled_self (by decide)
  spelled₂ := spelled_self (by decide)
  spelled₃ := spelled_self (by decide)
  spaces₁ := spaces_one
  spaces₂ := spaces_one
  spaces₃ := spaces_one
  ends := (spaces_one.numberEnds (f := a) _).1

def together.deductible (a b : Figure) : DeductibleAt b (together a b) :=
  .before ("Bursts are ".toList ++ ("covered".toList ++ ([' '] ++ ("up".toList ++ ([' '] ++
      ("to".toList ++ ([' '] ++ ('$' :: (a.text ++ ([' '] ++ "with a ".toList))))))))))
    [' '] "deductible" ['.']
    (by
      unfold together
      generalize "Bursts are ".toList = before
      generalize "covered".toList = word
      generalize "with a ".toList = between
      simp only [List.append_assoc, List.cons_append])
    spaces_one (spelled_self (by decide))

/-- What such a sentence states. -/
def together.stated {a b : Figure} (hsentences : sentences (together a b) = [together a b])
    (only : OnlyAt (together a b) ((together.deductible a b).hits ++ (together.limit a b).hits)) :
    Stated a b (together a b) where
  i := 0
  j := 0
  limitSentence := together a b
  deductibleSentence := together a b
  limit_mem := by rw [hsentences]; rfl
  deductible_mem := by rw [hsentences]; rfl
  limit := together.limit a b
  deductible := together.deductible a b
  only := by
    intro k s hs
    rw [hsentences] at hs
    cases k with
    | zero =>
      obtain rfl := Option.some.inj hs
      exact only
    | succ k => cases hs

/-- A limit of $25,000.50 and a deductible of $500 in one sentence. -/
theorem limit_and_deductible_classified :
    Classified grouped fiveHundred (extractRules (together grouped fiveHundred) []) :=
  (Stated.classified_iff (together.stated (by decide) (by decide +kernel)) []).mpr
    (by decide)

/-- A limit and a deductible of $500 each, in one sentence: the limit is lost. -/
theorem equal_figures_merged :
    ¬∀ a b text, Stated a b text → ∀ sectionTitle,
      Classified a b (extractRules text sectionTitle) := by
  intro each
  have hstated : Stated fiveHundred fiveHundred (together fiveHundred fiveHundred) :=
    together.stated (by decide) (by decide +kernel)
  obtain ⟨rules, l, d, hrules, hperm, -⟩ := each _ _ _ hstated []
  have hone : (extractRules (together fiveHundred fiveHundred) []).toOption.map List.length =
      some 1 := by decide
  rw [hrules] at hone
  have hlength : rules.length = 1 := Option.some.inj hone
  rw [hperm.length_eq] at hlength
  cases hlength

end OmniCare
