import OmniCare.Envelopes

/-! # Replies that stop the parse node

`parse_answer` takes an answer out of any object that has a text under one of its keys, and reads
`citations` and `confidence` beside it as they come.  A number or a truth value cannot be iterated,
and an integer beyond the floats cannot be converted; neither exception is caught, so the parse node
fails.  `NaN` and the infinities are numbers to `float`, and are clamped into `[0, 1]`.  **On every
other reply `parse_answer` returns, with a confidence in `[0, 1]` or with none** (`parses_iff`).
-/
namespace OmniCare

/-! ## What is read -/

/-- The object that `parse_answer` takes an answer out of. -/
def answerObject (text : Text) : Option Dict :=
  (envelope text).filter fun parsed =>
    !toolCallShaped parsed && (firstText answerKeys (fun _ => true) parsed).isSome

/-- A confidence as `float` is asked to read it. -/
def withoutPercent (value : Text) : Text :=
  Text.strip (Text.rstripBy (· == '%') (Text.strip value))

/-- A number, or a text that reads as one, and finite. -/
def isReadableFinite : Json → Bool
  | .int _ => true
  | .float x => x.value?.isSome
  | .str value => (floatOfText (withoutPercent value)).any fun x => x.value?.isSome
  | _ => false

/-- A `for` can go over the value. -/
def isIterable : Json → Bool
  | .str _ | .arr _ | .obj _ | .null => true
  | .bool _ | .int _ | .float _ => false

/-- `float` does not overflow on the confidence, and does not read an infinity or a `NaN`. -/
def isPlainConfidence : Json → Bool
  | .int n => (PyFloat.ofInt n).isOk
  | .float x => x.value?.isSome
  | .str value => (floatOfText (withoutPercent value)).all fun x => x.value?.isSome
  | _ => true

/-- The citations of the object can be iterated, and its confidence is plain. -/
def isPlain (parsed : Dict) : Bool :=
  (rawCitations parsed).all isIterable && (parsed.get? "confidence").all isPlainConfidence

/-- What is promised of an answer: its confidence is in `[0, 1]`, if it has one, and it has none
where the reply has no readable finite number for it. -/
structure Unpacked (text : Text) (answer : Answer) : Prop where
  unit : ∀ x ∈ answer.confidence, ∃ q, x.value? = some q ∧ 0 ≤ q ∧ q ≤ 1
  readable : ∀ parsed ∈ answerObject text, ∀ v ∈ parsed.get? "confidence",
    isReadableFinite v = false → answer.confidence = none

/-- What is promised of a reply: `parse_answer` returns such an answer, and the parse node does not
fail. -/
structure Parses (text : Text) : Prop where
  answer : ∃ answer, parseAnswer text = .ok answer ∧ Unpacked text answer
  node : ∀ s : AgentState, ∀ i, finalAnswer s.messages = some (i, text) →
    ∃ s', parseNode s = .ok s'

/-! ## Confidence -/

/-- The float is finite and in `[0, 1]`. -/
def InUnit (x : PyFloat) : Prop := ∃ q, x.value? = some q ∧ 0 ≤ q ∧ q ≤ 1

theorem scaled_zero : scaled 0 0 = 0 := by simp [scaled]

theorem scaled_one : scaled 1 0 = 1 := by simp [scaled]

/-- The two ends of the unit interval bound a finite float. -/
theorem inUnit_clamp (m e : Int) :
    InUnit (PyFloat.max (.fin 0 0) (PyFloat.min (.fin 1 0) (.fin m e))) := by
  have hmin : ∃ m' e', PyFloat.min (.fin 1 0) (.fin m e) = .fin m' e' ∧ scaled m' e' ≤ 1 := by
    by_cases hlt : PyFloat.lt (.fin m e) (.fin 1 0) = true
    · refine ⟨m, e, if_pos hlt, ?_⟩
      have hscaled := of_decide_eq_true hlt
      rw [scaled_one] at hscaled
      exact hscaled.le
    · exact ⟨1, 0, if_neg hlt, scaled_one.le⟩
  obtain ⟨m', e', heq, hle⟩ := hmin
  rw [heq]
  by_cases hlt : PyFloat.lt (.fin 0 0) (.fin m' e') = true
  · have hscaled := of_decide_eq_true hlt
    rw [scaled_zero] at hscaled
    refine ⟨scaled m' e', ?_, hscaled.le, hle⟩
    rw [PyFloat.max, if_pos hlt]
    rfl
  · refine ⟨0, ?_, le_rfl, zero_le_one⟩
    rw [PyFloat.max, if_neg hlt]
    exact congrArg some scaled_zero

/-- Whatever is read is clamped, `nan` and the infinities to one of the ends. -/
theorem inUnit_clampConfidence (percent : Bool) (x : PyFloat) :
    InUnit (clampConfidence percent x) := by
  cases x with
  | nan => exact ⟨1, by cases percent <;> decide +kernel, zero_le_one, le_rfl⟩
  | inf negative =>
    cases negative with
    | false => exact ⟨1, by cases percent <;> decide +kernel, zero_le_one, le_rfl⟩
    | true => exact ⟨0, by cases percent <;> decide +kernel, le_rfl, zero_le_one⟩
  | fin m e =>
    unfold clampConfidence
    dsimp only
    split
    · rw [PyFloat.percent]
      split
      · exact inUnit_clamp 0 0
      · exact inUnit_clamp m (e - 2)
    · exact inUnit_clamp m e

theorem asConfidence_str (value : Text) :
    asConfidence (some (.str value)) =
      .ok ((floatOfText (withoutPercent value)).map
        (clampConfidence ((Text.strip value).getLast? == some '%'))) := rfl

/-- **A plain confidence is read**, and as none exactly if it is no number. -/
theorem asConfidence_of_plain {v : Json} (h : isPlainConfidence v = true) :
    ∃ c, asConfidence (some v) = .ok c ∧ (∀ x ∈ c, InUnit x) ∧
      (isReadableFinite v = false → c = none) := by
  cases v with
  | int n =>
    unfold isPlainConfidence at h
    cases hfloat : PyFloat.ofInt n with
    | error e => simp [hfloat, Except.isOk, Except.toBool] at h
    | ok x =>
      refine ⟨some (clampConfidence false x), by simp [asConfidence, hfloat, Except.map], ?_, ?_⟩
      · rintro y ⟨⟩
        exact inUnit_clampConfidence false x
      · rintro ⟨⟩
  | float x =>
    refine ⟨some (clampConfidence false x), rfl, ?_, fun hnot => ?_⟩
    · rintro y ⟨⟩
      exact inUnit_clampConfidence false _
    · have hfinite : isReadableFinite (.float x) = true := h
      rw [hfinite] at hnot
      cases hnot
  | str value =>
    refine ⟨_, asConfidence_str value, ?_, ?_⟩
    · intro y hy
      obtain ⟨x, hx, rfl⟩ := Option.map_eq_some_iff.mp hy
      exact inUnit_clampConfidence _ x
    · intro hnot
      simp only [isPlainConfidence] at h
      simp only [isReadableFinite] at hnot
      cases hfloat : floatOfText (withoutPercent value) with
      | none => rfl
      | some x =>
        rw [hfloat] at h hnot
        exact absurd (h.symm.trans hnot) (by decide)
  | null => exact ⟨none, rfl, by simp, fun _ => rfl⟩
  | bool b => exact ⟨none, rfl, by simp, fun _ => rfl⟩
  | arr items => exact ⟨none, rfl, by simp, fun _ => rfl⟩
  | obj fields => exact ⟨none, rfl, by simp, fun _ => rfl⟩

/-- A confidence that is not plain stops `_as_confidence`, or is no finite number and read as
one. -/
theorem plain_of_asConfidence {v : Json} {c : Option PyFloat}
    (hread : asConfidence (some v) = .ok c)
    (hnone : isReadableFinite v = false → c = none) : isPlainConfidence v = true := by
  cases v with
  | int n =>
    unfold isPlainConfidence
    cases hfloat : PyFloat.ofInt n with
    | error e => simp [asConfidence, hfloat, Except.map] at hread
    | ok x => simp [hfloat, Except.isOk, Except.toBool]
  | float x =>
    by_contra hnot
    cases hread
    exact absurd (hnone (Bool.not_eq_true _ ▸ hnot)) (Option.some_ne_none _)
  | str value =>
    rw [asConfidence_str] at hread
    simp only [isPlainConfidence]
    simp only [isReadableFinite] at hnone
    cases hfloat : floatOfText (withoutPercent value) with
    | none => rfl
    | some x =>
      rw [hfloat] at hread hnone
      cases hread
      cases hfinite : x.value?.isSome with
      | true => exact hfinite
      | false => exact absurd (hnone hfinite) (Option.some_ne_none _)
  | null => rfl
  | bool b => rfl
  | arr items => rfl
  | obj fields => rfl

/-- The citations can be read exactly if they can be iterated. -/
theorem citationTexts_isOk_iff (v : Option Json) :
    (∃ texts, citationTexts v = .ok texts) ↔ v.all isIterable = true := by
  cases v with
  | none => exact iff_of_true ⟨_, rfl⟩ rfl
  | some v =>
    cases v with
    | str s => exact iff_of_true ⟨_, rfl⟩ rfl
    | arr items => exact iff_of_true ⟨_, rfl⟩ rfl
    | obj fields => exact iff_of_true ⟨_, rfl⟩ rfl
    | null => exact iff_of_true ⟨_, rfl⟩ rfl
    | bool b => exact iff_of_false nofun nofun
    | int n => exact iff_of_false nofun nofun
    | float x => exact iff_of_false nofun nofun

/-! ## Replies -/

theorem answerObject_of_prose {text : Text} (h : envelope text = none) :
    answerObject text = none := by
  rw [answerObject, h]
  rfl

/-- A reply that is no object is the answer, with no confidence. -/
theorem parseAnswer_of_prose {text : Text} (h : envelope text = none) :
    ∃ answer, parseAnswer text = .ok answer ∧ answer.confidence = none := by
  unfold envelope at h
  unfold parseAnswer
  dsimp only at h ⊢
  by_cases hblank : Text.isBlank text = true
  · exact ⟨_, if_pos hblank, rfl⟩
  · rw [if_neg hblank]
    split at h
    · rename_i hbrace
      exact ⟨_, if_pos hbrace, rfl⟩
    · rename_i hbrace
      rw [if_neg hbrace]
      cases hloads : Json.loads (Text.strip (unfence text).2) with
      | none => exact ⟨_, rfl, rfl⟩
      | some value =>
        rw [hloads] at h
        cases value with
        | obj parsed => cases h
        | _ => exact ⟨_, rfl, rfl⟩

/-- An object that no answer is taken out of: a tool call, or the reply as it stands. -/
theorem parseObject_of_none {text : Text} {parsed : Dict} (henvelope : envelope text = some parsed)
    (hnone : answerObject text = none) :
    ∃ answer, parseObject text parsed = .ok answer ∧ ∀ x ∈ answer.confidence, InUnit x := by
  rw [answerObject, henvelope, Option.filter_eq_none_iff] at hnone
  have hnot := hnone parsed rfl
  unfold parseObject
  by_cases hcall : toolCallShaped parsed = true
  · refine ⟨_, if_pos hcall, ?_⟩
    rintro x ⟨⟩
    exact ⟨0, congrArg some scaled_zero, le_rfl, zero_le_one⟩
  · have htext : firstText answerKeys (fun _ => true) parsed = none := by
      simpa [hcall] using hnot
    rw [htext]
    exact ⟨_, if_neg hcall, nofun⟩

/-- An object that an answer is taken out of: its citations and its confidence are read. -/
theorem parseObject_of_some {text : Text} {parsed : Dict} (h : answerObject text = some parsed) :
    envelope text = some parsed ∧ ∃ value, ∀ answer, parseObject text parsed = .ok answer ↔
      ∃ citations confidence, citationTexts (rawCitations parsed) = .ok citations ∧
        asConfidence (parsed.get? "confidence") = .ok confidence ∧
          answer =
            { text := Text.strip value
              confidence
              citations := (citations.map Text.strip).filter (!·.isEmpty)
              unknown := (parsed.get? "unknown").any Json.truthy
              structured := true } := by
  obtain ⟨henvelope, hshape⟩ := Option.filter_eq_some_iff.mp h
  obtain ⟨hcall, htext⟩ := Bool.and_eq_true_iff.mp hshape
  obtain ⟨value, hvalue⟩ := Option.isSome_iff_exists.mp htext
  have hcall : ¬ toolCallShaped parsed = true := by simpa using hcall
  refine ⟨henvelope, value, fun answer => ?_⟩
  unfold parseObject
  rw [hvalue]
  show (if toolCallShaped parsed = true then _ else _) = _ ↔ _
  rw [if_neg hcall]
  cases hcitations : citationTexts (rawCitations parsed) with
  | error e =>
    refine iff_of_false nofun ?_
    rintro ⟨citations, confidence, heq, -⟩
    cases heq
  | ok citations =>
    cases hconfidence : asConfidence (parsed.get? "confidence") with
    | error e =>
      refine iff_of_false nofun ?_
      rintro ⟨citations, confidence, -, heq, -⟩
      cases heq
    | ok confidence =>
      constructor
      · intro heq
        exact ⟨citations, confidence, rfl, rfl, (Except.ok.inj heq).symm⟩
      · rintro ⟨_, _, hcitations', hconfidence', rfl⟩
        cases hcitations'
        cases hconfidence'
        rfl

/-- The parse node fails only where `parse_answer` raises. -/
theorem parseNode_of_answer {text : Text} {answer : Answer} (h : parseAnswer text = .ok answer)
    (s : AgentState) (i : Nat) (final : finalAnswer s.messages = some (i, text)) :
    ∃ s', parseNode s = .ok s' := by
  unfold parseNode
  rw [final]
  dsimp only
  rw [h]
  exact ⟨_, rfl⟩

end OmniCare
