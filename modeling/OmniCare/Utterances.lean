import OmniCare.Nodes

/-! # One-word answers

A confirmation is put to a caller by voice and answered with a word or two.  The voice worker
(`voice/app/worker.py`) trims the transcript, takes the punctuation off and lowers it before it
looks the word up; the confirm node (`agent/app/graph/nodes.py`) trims it and lowers it, and looks
it up in a list of its own.  What they make of an utterance agrees exactly where the word stands in
both lists and the transcriber has put no punctuation around it (`answersHeard_iff`).
-/
namespace OmniCare

/-! ## The voice worker -/

/-- `SILENCE_ARTEFACTS`. -/
def silenceArtefacts : List Text :=
  ["", ".", "..", "...", "。", "♪", "♫",
    "bye", "bye bye", "byebye", "goodbye",
    "thank you", "thanks", "thank you very much", "thanks for watching",
    "you", "mm", "mmm", "mm-hmm", "mhm", "hmm", "uh", "um", "ah", "oh",
    "[music]", "(music)", "[silence]", "(silence)", "[blank_audio]"]

/-- The words of `CONFIRMATION_WORDS` that say yes. -/
def affirmativeWords : List Text :=
  ["yes", "yeah", "yep", "yup", "ok", "okay", "sure", "correct", "right", "go ahead", "do it",
    "confirm"]

/-- The words of `CONFIRMATION_WORDS` that say no. -/
def negativeWords : List Text := ["no", "nope", "nah", "cancel", "stop", "wait", "don't"]

/-- `CONFIRMATION_WORDS`. -/
def confirmationWords : List Text := affirmativeWords ++ negativeWords

/-- The characters that `is_probably_silence` strips. -/
def isPunctuation (c : Char) : Bool := ".!?,。 ".toList.elem c

/-- `stripped`: an utterance as the voice worker looks it up. -/
def heard (utterance : Text) : Text :=
  Text.lower (Text.stripBy isPunctuation (Text.strip utterance))

/-- `is_probably_silence`. -/
def isProbablySilence (utterance : Text) : Bool :=
  if confirmationWords.elem (heard utterance) then false
  else silenceArtefacts.elem (heard utterance)

/-! ## The two lists -/

/-- The transcriber has put no punctuation around the utterance. -/
def Bare (utterance : Text) : Prop := Text.lower (Text.strip utterance) = heard utterance

instance (utterance : Text) : Decidable (Bare utterance) := inferInstanceAs (Decidable (_ = _))

theorem lowerChar_of_isPunctuation {c : Char} (h : isPunctuation c = true) : lowerChar c = [c] := by
  have hall : (".!?,。 ".toList.all fun c => lowerChar c == [c]) = true := by decide
  exact eq_of_beq (List.all_eq_true.mp hall c (List.elem_iff.mp h))

/-- A word in lower case begins and ends with no punctuation if the word does not. -/
theorem stripBy_of_lower {word : Text}
    (hfirst : ∀ c ∈ (Text.lower word).head?, isPunctuation c = false)
    (hlast : ∀ c ∈ (Text.lower word).getLast?, isPunctuation c = false) :
    Text.stripBy isPunctuation word = word := by
  refine Text.stripBy_of_ends (fun c hc => ?_) fun c hc => ?_
  · by_contra hpunctuation
    rw [Bool.not_eq_false] at hpunctuation
    obtain ⟨rest, rfl⟩ := List.head?_eq_some_iff.mp hc
    have hlower : (Text.lower (c :: rest)).head? = some c := by
      rw [Text.lower, List.flatMap_cons, lowerChar_of_isPunctuation hpunctuation]
      rfl
    rw [hfirst c hlower] at hpunctuation
    cases hpunctuation
  · by_contra hpunctuation
    rw [Bool.not_eq_false] at hpunctuation
    obtain ⟨rest, rfl⟩ := List.getLast?_eq_some_iff.mp hc
    have hlower : (Text.lower (rest ++ [c])).getLast? = some c := by
      rw [Text.lower, List.flatMap_append, List.flatMap_singleton,
        lowerChar_of_isPunctuation hpunctuation, List.getLast?_concat]
    rw [hlast c hlower] at hpunctuation
    cases hpunctuation

/-- **An utterance is approved exactly if the word that the voice worker hears is an approving one,
with no punctuation around it.** -/
theorem approves_iff (utterance : Text) :
    approves utterance = true ↔ heard utterance ∈ approvingWords ∧ Bare utterance := by
  constructor
  · intro h
    have hmem : Text.lower (Text.strip utterance) ∈ approvingWords := List.elem_iff.mp h
    have hends : (approvingWords.all fun word =>
        word.head?.all (!isPunctuation ·) && word.getLast?.all (!isPunctuation ·)) = true := by
      decide
    obtain ⟨hfirst, hlast⟩ := Bool.and_eq_true_iff.mp (List.all_eq_true.mp hends _ hmem)
    have hbare : Bare utterance := by
      rw [Bare, heard, stripBy_of_lower]
      · exact fun c hc => by simpa using (Option.all_eq_true _ _).mp hfirst c hc
      · exact fun c hc => by simpa using (Option.all_eq_true _ _).mp hlast c hc
    exact ⟨hbare ▸ hmem, hbare⟩
  · rintro ⟨hmem, hbare⟩
    exact List.elem_iff.mpr (hbare ▸ hmem)

/-- What is promised of two utterances: the confirmation decides on what is heard, and nothing that
answers it is taken for silence. -/
structure AnswersHeard (u v : Text) : Prop where
  same : heard u = heard v → approves u = approves v
  affirmative : heard u ∈ affirmativeWords → approves u = true
  negative : heard u ∈ negativeWords → approves u = false
  spoken : heard u ∈ confirmationWords ∨ approves u = true → isProbablySilence u = false

/-- **What is promised holds exactly where the affirmative words that are heard are approving words
as well, and no approving word has punctuation around it.** -/
theorem answersHeard_iff (u v : Text) :
    AnswersHeard u v ↔
      (heard u ∈ affirmativeWords → heard u ∈ approvingWords ∧ Bare u) ∧
        (heard u = heard v → heard u ∈ approvingWords → (Bare u ↔ Bare v)) := by
  constructor
  · intro h
    refine ⟨fun hmem => (approves_iff u).mp (h.affirmative hmem), fun hsame hmem => ?_⟩
    have hiff : approves u = true ↔ approves v = true := by rw [h.same hsame]
    rw [approves_iff, approves_iff, ← hsame] at hiff
    simpa [hmem] using hiff
  · rintro ⟨haffirmative, hsame⟩
    refine ⟨fun heq => ?_, fun hmem => (approves_iff u).mpr (haffirmative hmem), fun hmem => ?_,
      fun hanswer => ?_⟩
    · rw [Bool.eq_iff_iff, approves_iff, approves_iff, ← heq]
      exact and_congr_right (hsame heq)
    · -- No word says both yes and no.
      have hdisjoint : (negativeWords.all fun word => !approvingWords.elem word) = true := by
        decide
      rw [Bool.eq_false_iff]
      intro happroves
      have hnot := List.all_eq_true.mp hdisjoint _ hmem
      rw [List.elem_iff.mpr ((approves_iff u).mp happroves).1] at hnot
      cases hnot
    · have hdisjoint : (approvingWords.all fun word => !silenceArtefacts.elem word) = true := by
        decide
      unfold isProbablySilence
      by_cases hword : confirmationWords.elem (heard u) = true
      · rw [if_pos hword]
      · rw [if_neg hword]
        have happroves := hanswer.resolve_left fun hmem => hword (List.elem_iff.mpr hmem)
        simpa using List.all_eq_true.mp hdisjoint _ ((approves_iff u).mp happroves).1

/-- A caller says yes, and the transcriber puts a full stop behind it. -/
theorem yes_declined : ¬ ∀ u v : Text, AnswersHeard u v := by
  intro h
  have hsame := (h "Yes." "yes").same (by decide)
  exact absurd hsame (by decide)

end OmniCare
