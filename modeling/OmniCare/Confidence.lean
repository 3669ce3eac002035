import Mathlib.Algebra.Order.BigOperators.Group.List
import Mathlib.Data.List.Flatten
import OmniCare.Isolation
import OmniCare.PolicyNumbers
import OmniCare.Sentences
import OmniCare.Spans
import OmniCare.Unpacking

/-! # The confidence that is published

`ground` publishes a confidence with the answer: what the model claims, capped by what the system
has seen.  Where something of the answer is taken out or replaced, or where it states policy terms
that nothing was retrieved for, the claim is not to stand (`StandsBehind`).

`_confidence_for` asks first whether the text that is left states policy terms, and where it does
not it returns the claim as it is, whatever has been taken out.
-/
namespace OmniCare

variable {E W : Type}

/-! ## A corrected answer is another text -/

theorem Text.length_stripBy_le (p : Char → Bool) (s : Text) :
    (Text.stripBy p s).length ≤ s.length := by
  have hright : ∀ s : Text, (Text.rstripBy p s).length ≤ s.length := by
    intro s
    rw [Text.rstripBy, List.length_reverse]
    exact (List.dropWhile_suffix p).length_le.trans_eq List.length_reverse
  exact (hright _).trans (List.dropWhile_suffix p).length_le

theorem Text.length_rstrip_le (s : Text) : (Text.rstrip s).length ≤ s.length := by
  rw [Text.rstrip, Text.rstripBy, List.length_reverse]
  exact (List.dropWhile_suffix _).length_le.trans_eq List.length_reverse

theorem Text.length_replaceFrom_le (old : Text) (skip : Nat) (s : Text) :
    (Text.replaceFrom old [] skip s).length ≤ s.length := by
  induction s generalizing skip with
  | nil => cases skip <;> exact Nat.le_refl _
  | cons c s ih =>
    cases skip with
    | zero =>
      rw [Text.replaceFrom]
      split
      · exact (ih _).trans (Nat.le_succ _)
      · exact Nat.succ_le_succ (ih _)
    | succ skip => exact (ih _).trans (Nat.le_succ _)

/-- What is put in the place of the matches is no longer than they are. -/
theorem Regex.length_sub_le {r : Regex} {f : Regex.Match → Text} {s : Text}
    (h : ∀ m ∈ r.finditer s, (f m).length ≤ m.text.length) : (r.sub f s).length ≤ s.length := by
  refine Nat.le_trans ?_ (congrArg List.length (r.scan_text s)).le
  rw [Regex.sub, List.length_flatMap, List.length_flatMap]
  refine List.sum_le_sum fun x hx => ?_
  cases x with
  | gap c => exact Nat.le_refl _
  | hit m => exact h m (Regex.mem_finditer.mpr hx)

/-- The invented spans of a text lie in it. -/
theorem invented_inside {valid : List Text} {text : Text} :
    ∀ span ∈ citationSpans text valid, span.real = false →
      span.start < span.stop ∧ span.start < text.length := by
  intro span hspan hreal
  obtain ⟨head, hhead, rfl⟩ := List.mem_map.mp hspan
  have hnone : fullCitation valid text head = none := by
    cases hfull : fullCitation valid text head with
    | none => rfl
    | some c =>
      rw [citationSpan_full hfull] at hreal
      cases hreal
  obtain ⟨hstop, hinside, -⟩ := head_of_mem hhead
  obtain ⟨t, -, hm⟩ := citationHead_solid.matchAt_of_mem_finditer hhead
  have hbehind := (citationHead_solid.stop_eq hm).2
  rw [citationSpan_start, citationSpan_stop hnone hstop]
  omega

theorem length_cutInvented_le {text : Text} {spans : List CitationSpan}
    (h : ∀ span ∈ spans, span.real = false → span.start < span.stop) :
    (cutInvented text spans).length ≤ text.length := by
  induction spans with
  | nil => exact Nat.le_refl _
  | cons span spans ih =>
    have hrest := ih fun s hs => h s (List.mem_cons_of_mem _ hs)
    unfold cutInvented at hrest ⊢
    rw [List.foldr_cons]
    split
    · exact hrest
    · rename_i hreal
      have hordered := h span List.mem_cons_self (by simpa using hreal)
      rw [List.length_append, List.length_take, List.length_drop]
      omega

/-- Where something is invented, the cut takes something away. -/
theorem length_cutInvented_lt {text : Text} {spans : List CitationSpan}
    (h : ∀ span ∈ spans, span.real = false → span.start < span.stop ∧ span.start < text.length)
    (hany : spans.all (·.real) = false) : (cutInvented text spans).length < text.length := by
  induction spans with
  | nil => cases hany
  | cons span spans ih =>
    have hspans : ∀ s ∈ spans, s.real = false → s.start < s.stop ∧ s.start < text.length :=
      fun s hs => h s (List.mem_cons_of_mem _ hs)
    have hle := @length_cutInvented_le text spans fun s hs hreal => (hspans s hs hreal).1
    have hlt := ih hspans
    unfold cutInvented at hle hlt ⊢
    rw [List.foldr_cons]
    rw [List.all_cons] at hany
    by_cases hreal : span.real = true
    · rw [if_pos hreal]
      rw [hreal, Bool.true_and] at hany
      exact hlt hany
    · have hinside := h span List.mem_cons_self (by simpa using hreal)
      rw [if_neg hreal, List.length_append, List.length_take, List.length_drop]
      omega

theorem length_withoutInvented_le (text : Text) (spans : List CitationSpan) :
    (withoutInvented text spans).length ≤ (cutInvented text spans).length := by
  unfold withoutInvented dropOrphanedLabel
  have hblank : ∀ s : Text, (blankRun.subText [' '] s).length ≤ s.length := by
    refine fun s => Regex.length_sub_le fun m hm => ?_
    have hsolid : blankRun.Solid := by
      intro w v hv
      obtain ⟨t, ht, hpasses, -⟩ := Regex.mem_run_rep_char.mp hv
      have hlength := congrArg List.length hpasses.1
      rw [List.length_append] at hlength
      have := ht.atLeast
      omega
    obtain ⟨t, -, here⟩ := hsolid.matchAt_of_mem_finditer hm
    exact List.length_pos_iff.mpr (hsolid.text_ne_nil here)
  have hlabel : ∀ s : Text, (orphanedLabel.subText [] s).length ≤ s.length :=
    fun s => Regex.length_sub_le fun m _ => Nat.zero_le _
  calc _ ≤ _ := Text.length_rstrip_le _
    _ ≤ _ := hlabel _
    _ ≤ _ := Text.length_stripBy_le _ _
    _ ≤ _ := hblank _
    _ ≤ _ := Text.length_replaceFrom_le _ _ _
    _ ≤ _ := Text.length_replaceFrom_le _ _ _

theorem length_flatten_filter_le {α : Type} (p : List α → Bool) (l : List (List α)) :
    (l.filter p).flatten.length ≤ l.flatten.length :=
  (List.filter_sublist.flatten).length_le

/-- Where a sentence is dropped, the text gets shorter. -/
theorem length_dropFalseComparisons_lt {text : Text} (h : dropFalseComparisons text ≠ text) :
    (dropFalseComparisons text).length < text.length := by
  have shorter : ∀ l : List Text, (∀ s ∈ l, s ≠ []) → ∀ p : Text → Bool,
      (l.filter p).length ≠ l.length → (l.filter p).flatten.length < l.flatten.length := by
    intro l hl p hne
    induction l with
    | nil => exact absurd rfl hne
    | cons s l ih =>
      have hrest := length_flatten_filter_le p l
      have hs := List.length_pos_iff.mpr (hl s List.mem_cons_self)
      by_cases hp : p s = true
      · rw [List.filter_cons_of_pos hp] at hne ⊢
        have hshorter := ih (fun t ht => hl t (List.mem_cons_of_mem _ ht)) fun heq =>
          hne (congrArg (· + 1) heq)
        rw [List.flatten_cons, List.flatten_cons, List.length_append, List.length_append]
        omega
      · rw [List.filter_cons_of_neg hp, List.flatten_cons, List.length_append]
        omega
  unfold dropFalseComparisons at h ⊢
  dsimp only at h ⊢
  split at h
  · exact absurd rfl h
  · rename_i hdropped
    rw [if_neg hdropped]
    refine Nat.lt_of_le_of_lt (Text.length_stripBy_le _ _) ?_
    refine Nat.lt_of_lt_of_eq (shorter _ (fun s hs => ?_) _ hdropped)
      (congrArg List.length (flatten_sentencesOf text))
    exact sentencePattern_tiles.ne_nil_of_mem_findall hs

/-- `ground` takes something out of an answer, or puts a demand in its place. -/
def AgentState.corrects (s : AgentState) (content : Text) : Bool :=
  !s.sound content || s.demands content

theorem length_remaining_lt {s : AgentState} {content : Text} (h : s.sound content = false) :
    (s.remaining content).length < content.length := by
  have hwithout := length_withoutInvented_le content (citationSpans content s.validCitations)
  rw [AgentState.sound, Bool.and_eq_false_iff] at h
  rcases h with hinvented | hdropped
  · have hcut := length_cutInvented_lt invented_inside hinvented
    have hsentences : (s.remaining content).length ≤
        (withoutInvented content (citationSpans content s.validCitations)).length := by
      by_cases hsame : s.remaining content =
          withoutInvented content (citationSpans content s.validCitations)
      · exact (congrArg List.length hsame).le
      · exact (length_dropFalseComparisons_lt hsame).le
    omega
  · have hsentences := length_dropFalseComparisons_lt (beq_eq_false_iff_ne.mp hdropped)
    have hcut := @length_cutInvented_le content (citationSpans content s.validCitations)
      fun span hspan hreal => (invented_inside span hspan hreal).1
    exact Nat.lt_of_lt_of_le hsentences (hwithout.trans hcut)

theorem remaining_amountDemand (s : AgentState) :
    assertsAnEstimatedAmount (s.remaining amountDemand) = false := by
  have hclean : (s.remaining amountDemand).all (fun c => !(c == '$')) = true :=
    all_remaining s (by decide) (by decide) (by decide)
  have hneeds : estimatedAmount.Needs (· == '$') :=
    estimatedAmount_needs (Regex.needs_lit (by decide) (by decide)).first
  refine hneeds.found_eq_false ?_
  rw [List.any_eq_not_all_not, hclean]
  rfl

/-- **The published text is another one exactly if something is taken out or replaced.** -/
theorem groundedText_ne_iff {s : AgentState} {content : Text} :
    s.groundedText content ≠ content ↔ s.corrects content = true := by
  rw [AgentState.corrects, AgentState.demands, AgentState.groundedText]
  by_cases hnumber : inventsPolicyNumber s (s.remaining content) = true
  · rw [if_pos hnumber, hnumber, Bool.true_or, Bool.or_true]
    refine iff_of_true ?_ rfl
    rintro rfl
    rw [remaining_policyNumberDemand] at hnumber
    cases hnumber
  · rw [if_neg hnumber, Bool.eq_false_iff.mpr hnumber, Bool.false_or]
    by_cases hamount : assertsAnEstimatedAmount (s.remaining content) = true
    · rw [if_pos hamount, hamount, Bool.or_true]
      refine iff_of_true ?_ rfl
      rintro rfl
      rw [remaining_amountDemand] at hamount
      cases hamount
    · rw [if_neg hamount, Bool.eq_false_iff.mpr hamount, Bool.or_false, AgentState.kept]
      by_cases hsound : s.sound content = true
      · rw [if_pos hsound, hsound]
        exact iff_of_false (not_not_intro rfl) Bool.false_ne_true
      · rw [if_neg hsound, Bool.eq_false_iff.mpr hsound]
        refine iff_of_true (fun heq => ?_) rfl
        have hshorter := length_remaining_lt (Bool.eq_false_iff.mpr hsound)
        rw [heq] at hshorter
        exact Nat.lt_irrefl _ hshorter

/-! ## What ground publishes -/

theorem corrects_eq (s : AgentState) (content : Text) :
    ((citationSpans content s.validCitations).any (fun span => !span.real) ||
      (correctedText s (withoutInvented content (citationSpans content s.validCitations))).2) =
        s.corrects content := by
  have hinvented : (citationSpans content s.validCitations).any (fun span => !span.real) =
      !(citationSpans content s.validCitations).all (·.real) := by
    rw [List.all_eq_not_any_not, Bool.not_not]
  rw [hinvented, AgentState.corrects, AgentState.demands, AgentState.sound, correctedText,
    ← AgentState.remaining]
  by_cases hnumber : inventsPolicyNumber s (s.remaining content) = true
  · rw [if_pos hnumber, hnumber, Bool.true_or, Bool.or_true, Bool.or_true]
  · rw [if_neg hnumber, Bool.eq_false_iff.mpr hnumber, Bool.false_or]
    by_cases hamount : assertsAnEstimatedAmount (s.remaining content) = true
    · rw [if_pos hamount, hamount, Bool.or_true, Bool.or_true]
    · rw [if_neg hamount, Bool.eq_false_iff.mpr hamount, Bool.or_false, Bool.not_and]
      generalize s.remaining content = left
      by_cases hsame : left = withoutInvented content (citationSpans content s.validCitations)
      · rw [hsame, decide_eq_false (not_not_intro rfl), beq_self_eq_true]
        rfl
      · rw [decide_eq_true hsame, beq_eq_false_iff_ne.mpr hsame]
        rfl

/-- A corrected answer is published as it is read for its sources. -/
theorem groundedText_of_corrects {s : AgentState} {content : Text}
    (h : s.corrects content = true) : s.groundedText content = s.readText content := by
  rw [AgentState.corrects, AgentState.demands] at h
  rw [AgentState.groundedText, AgentState.readText, correctedText, ← AgentState.remaining]
  by_cases hnumber : inventsPolicyNumber s (s.remaining content) = true
  · rw [if_pos hnumber, if_pos hnumber]
  · rw [if_neg hnumber, if_neg hnumber]
    by_cases hamount : assertsAnEstimatedAmount (s.remaining content) = true
    · rw [if_pos hamount, if_pos hamount]
    · rw [if_neg hamount, if_neg hamount, AgentState.kept, if_neg]
      intro hsound
      simp [hsound, hnumber, hamount] at h

/-- The confidence that `ground` publishes, by what it sees of the answer. -/
theorem groundNode_confidence {s : AgentState} {i : Nat} {content : Text}
    (final : finalAnswer s.messages = some (i, content)) :
    (groundNode s).answerConfidence =
      (confidenceFor s.modelConfidence s.answerUnknown (!s.retrieved.isEmpty) (s.corrects content)
        (policyClaim.found (s.readText content))).1 := by
  rw [← corrects_eq, AgentState.readText]
  unfold groundNode
  rw [final]
  dsimp only
  split <;> rfl

/-! ## Floats in order -/

theorem PyFloat.le_iff {x y : PyFloat} {p q : ℚ} (hx : x.value? = some p)
    (hy : y.value? = some q) : x.le y = true ↔ p ≤ q := by
  cases x with
  | nan => cases hx
  | inf => cases hx
  | fin m e =>
    cases y with
    | nan => cases hy
    | inf => cases hy
    | fin m' e' =>
      cases hx
      cases hy
      show (!decide (scaled m' e' < scaled m e)) = true ↔ _
      rw [Bool.not_eq_true', decide_eq_false_iff_not, not_lt]

/-- A capped claim is no more than the cap and no more than the claim. -/
theorem value_cappedAt {cap : PyFloat} {q : ℚ} (hcap : cap.value? = some q)
    {claimed : Option PyFloat} (h : ∀ x ∈ claimed, InUnit x) :
    ∃ r, (cappedAt cap claimed).value? = some r ∧ r ≤ q ∧
      ∀ x ∈ claimed, ∀ p, x.value? = some p → r ≤ p := by
  cases claimed with
  | none => exact ⟨q, hcap, le_rfl, nofun⟩
  | some x =>
    obtain ⟨p, hx, -, -⟩ := h x rfl
    have hmin : cappedAt cap (some x) = PyFloat.min x cap := rfl
    have hclaim : ∀ y ∈ some x, ∀ r, y.value? = some r → r = p := by
      rintro y ⟨⟩ r hr
      exact Option.some.inj (hr.symm.trans hx)
    rw [hmin, PyFloat.min]
    cases x with
    | nan => cases hx
    | inf => cases hx
    | fin m e =>
      cases cap with
      | nan => cases hcap
      | inf => cases hcap
      | fin m' e' =>
        have hp : scaled m e = p := Option.some.inj hx
        have hq : scaled m' e' = q := Option.some.inj hcap
        by_cases hlt : PyFloat.lt (.fin m' e') (.fin m e) = true
        · rw [if_pos hlt]
          have hscaled := of_decide_eq_true hlt
          rw [hp, hq] at hscaled
          exact ⟨q, hcap, le_rfl, fun y hy r hr => hclaim y hy r hr ▸ hscaled.le⟩
        · rw [if_neg hlt]
          have hscaled := of_decide_eq_false (Bool.eq_false_iff.mpr hlt)
          rw [hp, hq, not_lt] at hscaled
          exact ⟨p, hx, hscaled, fun y hy r hr => (hclaim y hy r hr).ge⟩

/-- The caps are what they read as. -/
theorem value_caps : ungroundedCap.value? = some (3 / 10) ∧ rewrittenCap.value? = some (5 / 10) ∧
    grounded.value? = some (85 / 100) := by
  decide +kernel

/-! ## The promise -/

/-- **What the confidence published with an answer is meant to be**, from the state before `ground`
to the state after it: no more than the model's own claim; at most 0.5 where the text that is
published is another than the model's, and at most 0.3 where it states policy terms and nothing
was retrieved; zero for an answer that is declared unknown. -/
structure StandsBehind (s t : AgentState) : Prop where
  claimed : ∀ claim x, s.modelConfidence = some claim → t.answerConfidence = some x →
    x.le claim = true
  rewritten : finalAnswer t.messages ≠ finalAnswer s.messages →
    ∀ x, t.answerConfidence = some x → x.le rewrittenCap = true
  ungrounded : ∀ i text, finalAnswer t.messages = some (i, text) →
    policyClaim.found text = true → s.retrieved = [] →
      ∃ x, t.answerConfidence = some x ∧ x.le ungroundedCap = true
  unknown : s.answerUnknown = true → t.answerConfidence = some (.fin 0 0)

/-- A cap is applied to the claim, or the claim keeps to it by itself: the answer is declared
unknown; the text that is left states policy terms; or the model claims at most 0.5 for an answer
that is corrected, and at most 0.3 for one that states policy terms only with its empty brackets. -/
def AgentState.capsReach (s : AgentState) (content : Text) : Bool :=
  s.answerUnknown || policyClaim.found (s.readText content) ||
    if s.corrects content then s.modelConfidence.all (·.le rewrittenCap)
    else !(s.retrieved.isEmpty && policyClaim.found content) ||
      s.modelConfidence.any (·.le ungroundedCap)

section Ground

variable {s : AgentState} {i : Nat} {content : Text}

/-- An answer that is not declared unknown and states no policy terms keeps the claim. -/
theorem standsBehind_of_claim (final : finalAnswer s.messages = some (i, content))
    (unit : ∀ x ∈ s.modelConfidence, InUnit x) (hunknown : s.answerUnknown = false)
    (hclaim : policyClaim.found (s.readText content) = false) :
    StandsBehind s (groundNode s) ↔ s.capsReach content = true := by
  have hconfidence := groundNode_confidence final
  have hfinal := groundNode_finalAnswer final
  rw [hclaim, hunknown] at hconfidence
  have hconfidence : (groundNode s).answerConfidence = s.modelConfidence := hconfidence
  rw [AgentState.capsReach, hunknown, hclaim, Bool.false_or, Bool.false_or]
  have hself : ∀ claim x, s.modelConfidence = some claim →
      (groundNode s).answerConfidence = some x → x.le claim = true := by
    intro claim x hmodel hx
    rw [hconfidence, hmodel] at hx
    cases hx
    obtain ⟨p, hp, -, -⟩ := unit claim hmodel
    exact (PyFloat.le_iff hp hp).mpr le_rfl
  have hknown : s.answerUnknown = true → (groundNode s).answerConfidence = some (.fin 0 0) :=
    fun h => absurd (hunknown.symm.trans h) Bool.false_ne_true
  by_cases hcorrects : s.corrects content = true
  · rw [if_pos hcorrects]
    have hchanged : finalAnswer (groundNode s).messages ≠ finalAnswer s.messages := by
      rw [hfinal, final]
      intro heq
      exact groundedText_ne_iff.mpr hcorrects (Prod.mk.inj (Option.some.inj heq)).2
    constructor
    · intro h
      rw [Option.all_eq_true]
      exact fun x hx => h.rewritten hchanged x (hconfidence.trans hx)
    · intro h
      refine ⟨hself, fun _ x hx => ?_, fun j text hj htext => ?_, hknown⟩
      · exact (Option.all_eq_true _ _).mp h x (hconfidence.symm.trans hx)
      · rw [hfinal, groundedText_of_corrects hcorrects] at hj
        obtain ⟨-, rfl⟩ := Prod.mk.inj (Option.some.inj hj)
        rw [hclaim] at htext
        cases htext
  · rw [if_neg hcorrects]
    have hsame : s.groundedText content = content :=
      not_not.mp (mt groundedText_ne_iff.mp hcorrects)
    rw [hsame] at hfinal
    constructor
    · intro h
      rw [Bool.or_eq_true, Bool.not_eq_true', ← Bool.not_eq_true, Bool.and_eq_true]
      refine or_iff_not_imp_left.mpr fun hterms => ?_
      obtain ⟨hretrieved, hterms⟩ := not_not.mp hterms
      obtain ⟨x, hx, hle⟩ := h.ungrounded i content hfinal hterms (List.isEmpty_iff.mp hretrieved)
      rw [← hconfidence, hx]
      exact hle
    · intro h
      refine ⟨hself, fun hchanged => absurd (hfinal.trans final.symm) hchanged,
        fun j text hj htext hretrieved => ?_, hknown⟩
      rw [hfinal] at hj
      obtain ⟨-, rfl⟩ := Prod.mk.inj (Option.some.inj hj)
      rw [hretrieved, htext] at h
      obtain ⟨x, hx, hle⟩ := (Option.any_eq_true _ _).mp h
      exact ⟨x, hconfidence.trans hx, hle⟩

/-- **The published confidence is what it is meant to be exactly if the caps reach the claim.** -/
theorem standsBehind_iff (final : finalAnswer s.messages = some (i, content))
    (unit : ∀ x ∈ s.modelConfidence, InUnit x) :
    StandsBehind s (groundNode s) ↔ s.capsReach content = true := by
  have hconfidence := groundNode_confidence final
  have hfinal := groundNode_finalAnswer final
  obtain ⟨hungrounded, hrewritten, hgrounded⟩ := value_caps
  by_cases hunknown : s.answerUnknown = true
  · -- zero is below everything that is claimed
    rw [hunknown] at hconfidence
    have hconfidence : (groundNode s).answerConfidence = some (.fin 0 0) := hconfidence
    have hzero : (PyFloat.fin 0 0).value? = some 0 := congrArg some scaled_zero
    have hall : ∀ x, (groundNode s).answerConfidence = some x → x = .fin 0 0 := fun x hx =>
      Option.some.inj (hx.symm.trans hconfidence)
    refine iff_of_true ⟨fun claim x hmodel hx => ?_, fun _ x hx => ?_, fun _ _ _ _ _ => ?_,
      fun _ => hconfidence⟩ (by rw [AgentState.capsReach, hunknown]; rfl)
    · obtain ⟨p, hp, hpos, -⟩ := unit claim hmodel
      exact (PyFloat.le_iff (hall x hx ▸ hzero) hp).mpr hpos
    · exact (PyFloat.le_iff (hall x hx ▸ hzero) hrewritten).mpr (by norm_num)
    · exact ⟨_, hconfidence, (PyFloat.le_iff hzero hungrounded).mpr (by norm_num)⟩
  · rw [Bool.not_eq_true] at hunknown
    by_cases hclaim : policyClaim.found (s.readText content) = true
    · refine iff_of_true ?_ (by rw [AgentState.capsReach, hclaim, Bool.or_true]; rfl)
      rw [hunknown, hclaim] at hconfidence
      have capped : ∀ {cap : PyFloat} {q : ℚ}, cap.value? = some q →
          (groundNode s).answerConfidence = some (cappedAt cap s.modelConfidence) →
          (finalAnswer (groundNode s).messages ≠ finalAnswer s.messages → q ≤ 5 / 10) →
          (s.retrieved = [] → q ≤ 3 / 10) → StandsBehind s (groundNode s) := by
        intro cap q hcap hcapped hchanged hnothing
        obtain ⟨r, hr, hle, hclaims⟩ := value_cappedAt hcap unit
        have hall : ∀ x, (groundNode s).answerConfidence = some x →
            x = cappedAt cap s.modelConfidence := fun x hx =>
          Option.some.inj (hx.symm.trans hcapped)
        refine ⟨fun claim x hmodel hx => ?_, fun hne x hx => ?_, fun _ _ _ _ hretrieved => ?_,
          fun h => absurd (hunknown.symm.trans h) Bool.false_ne_true⟩
        · obtain ⟨p, hp, -, -⟩ := unit claim hmodel
          exact (PyFloat.le_iff (hall x hx ▸ hr) hp).mpr (hclaims claim hmodel p hp)
        · exact (PyFloat.le_iff (hall x hx ▸ hr) hrewritten).mpr (hle.trans (hchanged hne))
        · exact ⟨_, hcapped, (PyFloat.le_iff hr hungrounded).mpr (hle.trans (hnothing hretrieved))⟩
      by_cases hretrieved : s.retrieved = []
      · rw [hretrieved] at hconfidence
        exact capped hungrounded hconfidence (fun _ => by norm_num) fun _ => le_rfl
      · rw [List.isEmpty_eq_false_iff.mpr hretrieved] at hconfidence
        by_cases hcorrects : s.corrects content = true
        · rw [hcorrects] at hconfidence
          exact capped hrewritten hconfidence (fun _ => le_rfl) fun h => absurd h hretrieved
        · rw [Bool.eq_false_iff.mpr hcorrects] at hconfidence
          refine capped hgrounded hconfidence (fun hne => absurd ?_ hne)
            fun h => absurd h hretrieved
          rw [hfinal, final, not_not.mp (mt groundedText_ne_iff.mp hcorrects)]
    · exact standsBehind_of_claim final unit hunknown (Bool.eq_false_iff.mpr hclaim)

end Ground

/-! ## Every turn -/

theorem inUnit_of_asConfidence {v : Option Json} {c : Option PyFloat}
    (h : asConfidence v = .ok c) : ∀ x ∈ c, InUnit x := by
  rintro x hx
  cases v with
  | none =>
    cases h
    cases hx
  | some v =>
    cases v with
    | int n =>
      cases hfloat : PyFloat.ofInt n with
      | error e => simp [asConfidence, hfloat, Except.map] at h
      | ok y =>
        simp only [asConfidence, hfloat, Except.map, Except.ok.injEq] at h
        rw [← h] at hx
        cases hx
        exact inUnit_clampConfidence false y
    | float y =>
      cases h
      cases hx
      exact inUnit_clampConfidence false y
    | str value =>
      rw [asConfidence_str] at h
      cases h
      obtain ⟨y, -, rfl⟩ := Option.map_eq_some_iff.mp hx
      exact inUnit_clampConfidence _ y
    | null | bool | arr | obj =>
      cases h
      cases hx

/-- Whatever a reply says, the confidence read in it is in `[0, 1]`. -/
theorem inUnit_of_parseAnswer {text : Text} {answer : Answer}
    (h : parseAnswer text = .ok answer) : ∀ x ∈ answer.confidence, InUnit x := by
  cases henvelope : envelope text with
  | none =>
    obtain ⟨answer', hanswer, hnone⟩ := parseAnswer_of_prose henvelope
    cases hanswer.symm.trans h
    rw [hnone]
    exact nofun
  | some parsed =>
    rw [parseAnswer_of_envelope henvelope] at h
    cases hobject : answerObject text with
    | none =>
      obtain ⟨answer', hanswer, hunit⟩ := parseObject_of_none henvelope hobject
      cases hanswer.symm.trans h
      exact hunit
    | some parsed' =>
      obtain ⟨henvelope', value, hread⟩ := parseObject_of_some hobject
      obtain rfl := Option.some.inj (henvelope.symm.trans henvelope')
      obtain ⟨citations, confidence, -, hconfidence, rfl⟩ := (hread answer).mp h
      exact inUnit_of_asConfidence hconfidence

/-- What a state holds of the model's claim is in `[0, 1]`. -/
def AgentState.ClaimsInUnit (s : AgentState) : Prop := ∀ x ∈ s.modelConfidence, InUnit x

theorem AgentState.ClaimsInUnit.congr {s t : AgentState} (h : s.ClaimsInUnit)
    (hsame : t.modelConfidence = s.modelConfidence) : t.ClaimsInUnit := by
  intro x hx
  rw [hsame] at hx
  exact h x hx

theorem parseNode_claimsInUnit {s t : AgentState} (parsed : parseNode s = .ok t)
    (h : s.ClaimsInUnit) : t.ClaimsInUnit := by
  unfold parseNode at parsed
  split at parsed
  · cases parsed
    exact h
  · rename_i content _
    cases hanswer : parseAnswer content with
    | error e => simp [hanswer, Except.map] at parsed
    | ok answer =>
      have hunit := inUnit_of_parseAnswer hanswer
      simp only [hanswer, Except.map, Except.ok.injEq] at parsed
      rw [← parsed]
      split <;> exact hunit

/-- A step records no claim but the one that `parse` has read. -/
theorem Step.claimsInUnit {g : Graph E W} {c c' : Config W} {a : Action E} {fs : List (Event E)}
    (hs : Step g c a c' fs) (h : c.state.ClaimsInUnit) : c'.state.ClaimsInUnit := by
  cases hs with
  | guard => exact h.congr (congrArg (·.1) (guardNode_confidences c.state))
  | capture => exact h.congr (congrArg (·.1) (captureNode_confidences _ c.state))
  | readback =>
    obtain ⟨_, hchanges⟩ := readbackNode_changes c.state
    exact h.congr (congrArg (·.modelConfidence) hchanges)
  | parse _ parsed => exact parseNode_claimsInUnit parsed h
  | ground =>
    obtain ⟨_, _, _, _, hchanges⟩ := groundNode_changes c.state
    exact h.congr (congrArg (·.modelConfidence) hchanges)
  | format =>
    obtain ⟨_, hchanges⟩ := formatNode_changes c.state
    exact h.congr (congrArg (·.modelConfidence) hchanges)
  | _ => exact h.congr rfl

/-- Before there is an answer, nothing is claimed and nothing published. -/
theorem standsBehind_of_unanswered {s : AgentState} (final : finalAnswer s.messages = none)
    (h : s.confidences = (none, false, none, none)) : StandsBehind s (groundNode s) := by
  have hconfidence : s.answerConfidence = none := congrArg (·.2.2.1) h
  have hunknown : s.answerUnknown = false := congrArg (·.2.1) h
  have hground : groundNode s = { s with sources := [] } := by
    unfold groundNode
    rw [final]
  rw [hground]
  refine ⟨fun _ _ _ hx => ?_, fun _ _ hx => ?_, fun _ _ hfinal => ?_, fun hknown => ?_⟩
  · cases hconfidence.symm.trans hx
  · cases hconfidence.symm.trans hx
  · cases final.symm.trans hfinal
  · cases hunknown.symm.trans hknown

/-- The step of the ground node. -/
theorem ground_of_step {g : Graph E W} {c d : Config W} {fs : List (Event E)}
    (here : c.next = .at .ground) (hs : g.step c .go = some (d, fs)) :
    d.state = groundNode c.state := by
  obtain ⟨state, next, running, resume, world⟩ := c
  obtain rfl : next = .at .ground := here
  cases running with
  | none => cases hs
  | some runId =>
    cases hs
    rfl

/-- An answer for which the model claims 0.9. -/
def surelyReplied (answer : Text) : Text :=
  "\x7b\"answer\": \"".toList ++ answer ++ "\", \"confidence\": 0.9\x7d".toList

/-- A turn with such an answer, up to `ground`. -/
def claiming (answer : Text) : List (Action Unit) :=
  [.job { runId := "r1", message := "I had a pipe burst. File it for me." } 0 true, .go,
    .reply ⟨surelyReplied answer, []⟩, .go, .go]

end OmniCare
