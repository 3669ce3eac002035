import OmniCare.Grounding
import OmniCare.Preferring

/-! # The sentences of an answer

`_SENTENCE_RE` cuts an answer behind every run of `.`, `!` and `?` with the white space that
follows it.  The sentences give the text back, whatever it holds (`flatten_sentences`), and
`_drop_false_comparisons` leaves the text or the sentences it keeps of it.  But the point inside
`$2,500.00` is such a run too, so the figure is torn apart between two sentences.  **No sentence
ends inside a figure exactly if the text has no decimal point** (`tiling_iff`).
-/
namespace OmniCare

open Regex

/-! ## One sentence after the other -/

/-- `[.!?]`. -/
def endsSentence (c : Char) : Bool := (".!?" : Text).elem c

/-- The first sentence of a text, and what comes behind it. -/
def cutSentence (text : Text) : Text × Text :=
  let marked := text.dropWhile fun c => !endsSentence c
  let spaced := marked.dropWhile endsSentence
  (text.takeWhile (fun c => !endsSentence c) ++
      (marked.takeWhile endsSentence ++ spaced.takeWhile isSpace),
    spaced.dropWhile isSpace)

theorem cutSentence_joined (text : Text) : (cutSentence text).1 ++ (cutSentence text).2 = text := by
  unfold cutSentence
  simp only [List.append_assoc, List.takeWhile_append_dropWhile]

/-- The pattern takes the first sentence, with a mark at its end or without. -/
theorem sentencePattern_prefers {text : Text} (h : text ≠ []) :
    sentencePattern.Prefers (cutSentence text).1 (cutSentence text).2 [] := by
  unfold cutSentence
  dsimp only
  have hbody : (text.takeWhile fun c => !endsSentence c).all (fun c => !endsSentence c) = true :=
    List.all_takeWhile
  have hmarked := head_dropWhile (fun c => !endsSentence c) text
  have hsplit := List.takeWhile_append_dropWhile (p := fun c => !endsSentence c) (l := text)
  generalize text.takeWhile (fun c => !endsSentence c) = body at hbody hsplit ⊢
  generalize text.dropWhile (fun c => !endsSentence c) = marked at hmarked hsplit ⊢
  cases marked with
  | cons c rest =>
    have hc : endsSentence c = true := by simpa using hmarked
    have hne : (c :: rest).takeWhile endsSentence ≠ [] := by
      rw [List.takeWhile_cons_of_pos hc]
      exact List.cons_ne_nil _ _
    have hspaced := head_dropWhile endsSentence (c :: rest)
    have hmarks := List.takeWhile_append_dropWhile (p := endsSentence) (l := c :: rest)
    have hall : ((c :: rest).takeWhile endsSentence).all endsSentence = true := List.all_takeWhile
    generalize (c :: rest).takeWhile endsSentence = marks at hne hmarks hall ⊢
    generalize (c :: rest).dropWhile endsSentence = spaced at hspaced hmarks ⊢
    have hspaces := List.takeWhile_append_dropWhile (p := isSpace) (l := spaced)
    have first : (Regex.star (.noneOf ".!?")).Prefers body
        ((marks ++ spaced.takeWhile isSpace) ++ spaced.dropWhile isSpace) [] := by
      refine Prefers.star hbody ?_
      rw [List.append_assoc, hspaces, hmarks]
      exact hmarked
    have second : (Regex.plus (.anyOf ".!?")).Prefers marks
        (spaced.takeWhile isSpace ++ spaced.dropWhile isSpace) [] := by
      refine Prefers.plus hne hall ?_
      rw [hspaces]
      exact hspaced
    have third : (Regex.star .space).Prefers (spaced.takeWhile isSpace)
        (spaced.dropWhile isSpace) [] := Prefers.star List.all_takeWhile (head_dropWhile _ _)
    have hfirst : (Regex.cat [.star (.noneOf ".!?"), .plus (.anyOf ".!?"), .star .space]).Prefers
        (body ++ (marks ++ spaced.takeWhile isSpace)) (spaced.dropWhile isSpace) [] :=
      first.seq (second.seq third)
    exact hfirst.altFirst
  | nil =>
    -- without a mark, the rest of the text is the sentence
    rw [List.append_nil] at hsplit
    subst hsplit
    simp only [List.takeWhile_nil, List.dropWhile_nil, List.append_nil]
    have hplus : (Regex.plus (.noneOf ".!?")).Prefers body ([] ++ []) [] := .plus h hbody rfl
    have hend : Regex.atEnd.Prefers [] [] [] := .assert fun _ => rfl
    refine Prefers.altSecond (fun before groups => ?_)
      ((hplus.seq hend).cast (List.append_nil _) rfl)
    have hneeds : (Regex.cat [.star (.noneOf ".!?"), .plus (.anyOf ".!?"), .star .space]).Needs
        endsSentence := by
      refine Needs.second (Needs.first fun w v hv => ?_)
      obtain ⟨t, ht, hpasses, -⟩ := mem_run_rep_char.mp hv
      cases t with
      | nil => exact absurd ht.atLeast (Nat.not_succ_le_zero _)
      | cons c t =>
        have hc : endsSentence c = true := (Bool.and_eq_true_iff.mp ht.all).1
        rw [hpasses.1, List.cons_append, List.any_cons, hc, Bool.true_or]
    refine hneeds.run_eq_nil ?_
    rw [List.append_nil, List.any_eq_not_all_not, hbody]
    rfl

theorem sentencePattern_solid : sentencePattern.Solid := by
  have plus_solid : ∀ p : Char → Bool, (Regex.plus (.char p)).Solid := by
    intro p w v hv
    obtain ⟨t, ht, hpasses, -⟩ := mem_run_rep_char.mp hv
    have hlength := congrArg List.length hpasses.1
    rw [List.length_append] at hlength
    have := ht.atLeast
    omega
  exact Solid.alt (Solid.second _ ((plus_solid _).seq _)) ((plus_solid _).seq _)

theorem sentencePattern_tiles : sentencePattern.Tiles cutSentence :=
  ⟨sentencePattern_solid, cutSentence_joined, fun _ => sentencePattern_prefers⟩

/-- `_SENTENCE_RE.findall`. -/
def sentencesOf (text : Text) : List Text := sentencePattern.findall text

/-- **The sentences of any text concatenate to it.** -/
theorem flatten_sentencesOf (text : Text) : (sentencesOf text).flatten = text :=
  sentencePattern_tiles.flatten_findall text

theorem sentencesOf_cons {text : Text} (h : text ≠ []) :
    sentencesOf text = (cutSentence text).1 :: sentencesOf (cutSentence text).2 :=
  sentencePattern_tiles.findall_cons h

/-! ## Where a sentence ends -/

/-- A sentence of `before ++ after` ends where `before` does. -/
def SentenceEnds (before after : Text) : Prop :=
  ∃ ss ss', sentencesOf (before ++ after) = ss ++ ss' ∧ ss.flatten = before

/-- Behind a mark, the first sentence goes on with marks and spaces only. -/
theorem cutSentence_stops {text before t : Text} {c x : Char}
    (h : (cutSentence text).1 = before ++ x :: t) (hlast : before.getLast? = some c)
    (hc : endsSentence c = true) : endsSentence x = true ∨ isSpace x = true := by
  unfold cutSentence at h
  dsimp only at h
  have hbody : (text.takeWhile fun c => !endsSentence c).all (fun c => !endsSentence c) = true :=
    List.all_takeWhile
  generalize text.takeWhile (fun c => !endsSentence c) = body at h hbody
  generalize text.dropWhile (fun c => !endsSentence c) = marked at h
  have hmarks : (marked.takeWhile endsSentence).all endsSentence = true := List.all_takeWhile
  generalize marked.takeWhile endsSentence = marks at h hmarks
  have hspaces : ((marked.dropWhile endsSentence).takeWhile isSpace).all isSpace = true :=
    List.all_takeWhile
  generalize (marked.dropWhile endsSentence).takeWhile isSpace = spaces at h hspaces
  rw [List.all_eq_true] at hbody hmarks hspaces
  rcases List.append_eq_append_iff.mp h with ⟨u, -, hrest⟩ | ⟨u, hu, -⟩
  · rcases List.append_eq_append_iff.mp hrest with ⟨v, -, hv⟩ | ⟨v, hv, hx⟩
    · exact .inr (hspaces x (hv ▸ List.mem_append_right _ List.mem_cons_self))
    · cases v with
      | nil =>
        rw [List.nil_append] at hx
        exact .inr (hspaces x (hx ▸ List.mem_cons_self))
      | cons y v =>
        obtain ⟨rfl, -⟩ := List.cons.inj hx
        exact .inl (hmarks x (hv ▸ List.mem_append_right _ List.mem_cons_self))
  · -- the mark would stand in the body of the sentence
    have hmem := hbody c (hu ▸ List.mem_append_left _ (List.mem_of_getLast? hlast))
    rw [hc] at hmem
    cases hmem

/-- **A sentence ends at every mark behind which neither a mark nor a space comes.** -/
theorem sentenceEnds_of_mark {before after : Text} {c x : Char}
    (hlast : before.getLast? = some c) (hc : endsSentence c = true) (hx : after.head? = some x)
    (hmark : endsSentence x = false) (hspace : isSpace x = false) :
    SentenceEnds before after := by
  induction hlength : before.length using Nat.strong_induction_on generalizing before with
  | _ n ih =>
    have hne : before ≠ [] := by
      rintro rfl
      cases hlast
    have htext : before ++ after ≠ [] := List.append_ne_nil_of_left_ne_nil hne _
    have hcut := cutSentence_joined (before ++ after)
    have hfirst := sentencePattern_tiles.cut_ne_nil htext
    have hcons := sentencesOf_cons htext
    rcases List.append_eq_append_iff.mp hcut with ⟨t, hbefore, hrest⟩ | ⟨t, hsentence, hafter⟩
    · by_cases ht : t = []
      · rw [ht, List.append_nil] at hbefore
        exact ⟨[_], _, hcons, by rw [List.flatten_singleton, ← hbefore]⟩
      · -- the mark stands behind the first sentence
        have hlast' : t.getLast? = some c := by
          rwa [hbefore, List.getLast?_append_of_ne_nil _ ht] at hlast
        have hshorter := congrArg List.length hbefore
        rw [List.length_append] at hshorter
        have := List.length_pos_iff.mpr hfirst
        obtain ⟨ss, ss', hss, hflatten⟩ := ih t.length (by omega) hlast' rfl
        rw [hrest, hss] at hcons
        exact ⟨_ :: ss, ss', hcons, by rw [List.flatten_cons, hflatten, ← hbefore]⟩
    · cases t with
      | nil =>
        rw [List.append_nil] at hsentence
        exact ⟨[_], _, hcons, by rw [List.flatten_singleton, hsentence]⟩
      | cons y t =>
        rw [hafter] at hx
        cases hx
        rcases cutSentence_stops hsentence hlast hc with h | h
        · rw [hmark] at h
          cases h
        · rw [hspace] at h
          cases h

/-! ## Figures -/

/-- What a decimal point stands behind: a digit, or the sign of the currency. -/
def startsFraction (c : Char) : Bool := isDigit c || c == '$'

/-- A text is cut inside a figure, right behind its decimal point. -/
def InsideFigure (before after : Text) : Prop :=
  ∃ a c d b, before = a ++ [c, '.'] ∧ after = d :: b ∧ startsFraction c = true ∧ isDigit d = true

/-- A point and a digit. -/
def isFraction : Text → Bool
  | '.' :: d :: _ => isDigit d
  | _ => false

/-- Whether a text has a figure with a decimal point. -/
def hasDecimalPoint : Text → Bool
  | [] => false
  | c :: rest => (startsFraction c && isFraction rest) || hasDecimalPoint rest

theorem hasDecimalPoint_iff {text : Text} : hasDecimalPoint text = true ↔
    ∃ before after, before ++ after = text ∧ InsideFigure before after := by
  constructor
  · intro h
    induction text with
    | nil => cases h
    | cons c rest ih =>
      rw [hasDecimalPoint, Bool.or_eq_true, Bool.and_eq_true] at h
      rcases h with ⟨hc, hrest⟩ | h
      · unfold isFraction at hrest
        split at hrest
        · rename_i d b
          exact ⟨[c, '.'], d :: b, rfl, [], c, d, b, rfl, rfl, hc, hrest⟩
        · cases hrest
      · obtain ⟨before, after, rfl, a, c', d, b, rfl, rfl, hc, hd⟩ := ih h
        exact ⟨_, _, rfl, c :: a, c', d, b, rfl, rfl, hc, hd⟩
  · rintro ⟨_, _, rfl, a, c, d, b, rfl, rfl, hc, hd⟩
    induction a with
    | nil =>
      have hfraction : isFraction ('.' :: d :: b) = true := hd
      rw [List.nil_append, List.cons_append, hasDecimalPoint, hc, List.cons_append,
        List.nil_append, hfraction]
      rfl
    | cons x a ih =>
      rw [List.cons_append, List.cons_append, hasDecimalPoint, ih, Bool.or_true]

/-- **What the sentences of an answer are meant to be.**  They tile the text; what is left of it is
the text, or up to trimming the sentences that are kept, in order; none of them ends inside a
figure, and no amount read in one of them is the fraction of another figure. -/
structure Tiling (text : Text) : Prop where
  lossless : (sentencesOf text).flatten = text
  kept : dropFalseComparisons text = text ∨
    dropFalseComparisons text =
      Text.strip ((sentencesOf text).filter fun s => !contradictsItself s).flatten
  whole : ∀ before after, before ++ after = text → SentenceEnds before after →
    ¬ InsideFigure before after
  amounts : ∀ ss s ss', sentencesOf text = ss ++ s :: ss' → ∀ span ∈ moneySpans s,
    ¬ InsideFigure (ss.flatten ++ s.take span.1) (s.drop span.1 ++ ss'.flatten)

theorem dropFalseComparisons_eq (text : Text) :
    dropFalseComparisons text = text ∨
      dropFalseComparisons text =
        Text.strip ((sentencesOf text).filter fun s => !contradictsItself s).flatten := by
  unfold dropFalseComparisons sentencesOf
  dsimp only
  split
  · exact .inl rfl
  · exact .inr rfl

/-- Right behind its decimal point, a figure is where a sentence ends. -/
theorem sentenceEnds_of_insideFigure {before after : Text} (h : InsideFigure before after) :
    SentenceEnds before after := by
  obtain ⟨a, c, d, b, rfl, rfl, -, hd⟩ := h
  have hmark : endsSentence d = false := by
    refine Bool.eq_false_iff.mpr fun hd' => ?_
    have hmem : d = '.' ∨ d = '!' ∨ d = '?' := by simpa [endsSentence] using hd'
    rcases hmem with rfl | rfl | rfl <;> revert hd <;> decide
  have hlast : (a ++ [c, '.']).getLast? = some '.' := by
    rw [List.append_cons, List.getLast?_concat]
  exact sentenceEnds_of_mark hlast (by decide) rfl hmark (isSpace_of_isDigit hd)

/-- **The sentences of a text are what they are meant to be exactly if it has no figure with a
decimal point.** -/
theorem tiling_iff (text : Text) : Tiling text ↔ hasDecimalPoint text = false := by
  constructor
  · intro h
    refine Bool.eq_false_iff.mpr fun hpoint => ?_
    obtain ⟨before, after, htext, hinside⟩ := hasDecimalPoint_iff.mp hpoint
    exact h.whole before after htext (sentenceEnds_of_insideFigure hinside) hinside
  · intro h
    have hnone : ∀ before after, before ++ after = text → ¬ InsideFigure before after := by
      intro before after htext hinside
      have hpoint := hasDecimalPoint_iff.mpr ⟨before, after, htext, hinside⟩
      rw [h] at hpoint
      cases hpoint
    refine ⟨flatten_sentencesOf text, dropFalseComparisons_eq text,
      fun before after htext _ => hnone before after htext, fun ss s ss' hss span _ => ?_⟩
    refine hnone _ _ ?_
    have hflatten := flatten_sentencesOf text
    rw [hss, List.flatten_append, List.flatten_cons] at hflatten
    rw [← hflatten, List.append_assoc, ← List.append_assoc (s.take _), List.take_append_drop]

/-- A comparison whose second amount has cents. -/
def tornFigure : Text := "Your loss of $900 exceeds $2,500.00 as stated."

/-- **The cents stay behind**: the false comparison ends at the point of `$2,500.00` and is
dropped, and `00 as stated.` is left as the answer. -/
theorem cents_left_behind :
    ¬ Tiling tornFigure ∧ dropFalseComparisons tornFigure = "00 as stated.".toList := by
  refine ⟨fun h => ?_, by decide +kernel⟩
  have hinside : InsideFigure "Your loss of $900 exceeds $2,500." "00 as stated." :=
    ⟨"Your loss of $900 exceeds $2,50", '0', '0', "0 as stated.", by decide, by decide, by decide,
      by decide⟩
  exact h.whole _ _ (by decide) (sentenceEnds_of_insideFigure hinside) hinside

end OmniCare
