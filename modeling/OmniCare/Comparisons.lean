import OmniCare.Sentences

/-! # Comparisons that their own amounts disprove

`_drop_false_comparisons` decides about a sentence by one comparison: of the phrases of `_GREATER`
and `_LESSER`, in the order of the lists, the first one whose first occurrence stands between two
amounts.  It knows nothing of the word in front of the phrase, so "does not exceed" is read as
"exceed", and it does not look at the other comparisons of the sentence.  **A sentence is dropped
for a false comparison and for nothing else exactly if that reading is enough**
(`dropped_exactly_iff`).
-/
namespace OmniCare

/-! ## What a sentence asserts -/

/-- A comparison of two amounts. -/
structure Comparison where
  /-- The phrase says that the first amount is the greater. -/
  greater : Bool
  /-- The phrase is denied: "does not exceed", "is no more than". -/
  negated : Bool
  /-- The phrase goes on with "or equal to". -/
  orEqual : Bool
  left : Nat
  right : Nat
  deriving DecidableEq, Repr

namespace Comparison

/-- The amounts bear the phrase out. -/
def bare (c : Comparison) : Bool :=
  if c.greater then decide (c.right < c.left) else decide (c.left < c.right)

/-- The comparison is true. -/
def holds (c : Comparison) : Bool := (c.bare || (c.orEqual && c.left == c.right)) != c.negated

/-- Nothing is said but the phrase. -/
def plain (c : Comparison) : Bool := !c.negated && !c.orEqual

theorem holds_of_plain {c : Comparison} (h : c.plain = true) : c.holds = c.bare := by
  unfold plain at h
  rw [Bool.and_eq_true, Bool.not_eq_true', Bool.not_eq_true'] at h
  rw [holds, h.1, h.2, Bool.false_and, Bool.or_false, Bool.bne_false]

end Comparison

/-- The phrases, with what they say of the first amount. -/
def phrases : List (Bool × Text) := greaterTerms.map (true, ·) ++ lesserTerms.map (false, ·)

/-- The last word of a text denies what follows: "not", "no", "never", "doesn't". -/
def denies (before : Text) : Bool :=
  (Text.words (Text.lower before)).getLast?.any fun word =>
    let word := Text.stripBy (fun c => !isWord c) word
    (["not", "no", "never"] : List Text).elem word ||
      (Text.endsWith word "n't" || Text.endsWith word "n’t")

/-- The next words of a text are "or equal to". -/
def allowsEqual (after : Text) : Bool :=
  (Text.words (Text.lower after)).take 3 = ["or".toList, "equal".toList, "to".toList]

/-- The phrase stands at a place of the sentence, as words of their own. -/
def phraseAt (sentence phrase : Text) (at_ : Nat) : Bool :=
  Text.lower ((sentence.drop at_).take phrase.length) == phrase &&
    (!(sentence.take at_).getLast?.any isWord &&
      !(sentence.drop (at_ + phrase.length)).head?.any isWord)

/-- The comparison of a phrase at a place: of the amount before and the amount behind it, which are
within reach and not across a comma or a semicolon. -/
def comparisonAt (sentence : Text) (greater : Bool) (phrase : Text) (at_ : Nat) :
    Option Comparison :=
  (comparedAmounts sentence at_ phrase.length).map fun (left, right) =>
    { greater, negated := denies (sentence.take at_)
      orEqual := allowsEqual (sentence.drop (at_ + phrase.length)), left, right }

/-- The comparisons of a sentence. -/
def comparisonsIn (sentence : Text) : List Comparison :=
  phrases.flatMap fun (greater, phrase) =>
    ((List.range sentence.length).filter (phraseAt sentence phrase)).filterMap
      (comparisonAt sentence greater phrase)

example : comparisonsIn "Your $1,500 television does not exceed the $2,500 limit." =
    [⟨true, true, false, 1500, 2500⟩] := by decide +kernel

/-! ## What is looked at -/

/-- The comparison of the first occurrence of a phrase, in lower case and between two spaces. -/
def judgedBy (sentence : Text) (greater : Bool) (phrase : Text) : Option Comparison :=
  (Text.find? (' ' :: phrase ++ [' ']) (Text.lower sentence)).bind fun at_ =>
    comparisonAt sentence greater phrase (at_ + 1)

/-- The comparison that decides: the first of them, in the order of the phrases. -/
def judgedIn (sentence : Text) : Option Comparison :=
  phrases.findSome? fun phrase => judgedBy sentence phrase.1 phrase.2

theorem disproved_eq (sentence term : Text) (greater : Bool) {holds : Nat → Nat → Bool}
    (h : ∀ a b, holds a b = if greater then decide (b < a) else decide (a < b)) :
    disproved sentence holds term = (judgedBy sentence greater term).map fun c => !c.bare := by
  unfold disproved judgedBy
  rw [Option.map_bind]
  congr 1
  funext at_
  unfold comparisonAt
  rw [Function.comp_apply, Option.map_map]
  congr 1
  funext amounts
  show (!holds amounts.1 amounts.2) = _
  rw [h]
  rfl

/-- **One comparison decides about a sentence, and that without its negation.** -/
theorem contradictsItself_eq (sentence : Text) :
    contradictsItself sentence = (judgedIn sentence).any fun c => !c.bare := by
  have verdict : ∀ judged : Option Comparison,
      (judged.any fun c => !c.bare) = (judged.map fun c => !c.bare).getD false := by
    intro judged
    cases judged <;> rfl
  rw [verdict]
  unfold judgedIn phrases contradictsItself
  rw [List.findSome?_append, Option.map_or, List.findSome?_map, List.findSome?_map,
    List.map_findSome?, List.map_findSome?]
  congr 3
  · funext term
    exact disproved_eq sentence term true fun _ _ => rfl
  · funext term
    exact disproved_eq sentence term false fun _ _ => rfl

/-! ## The place of a phrase -/

/-- No character of the sentence is longer in lower case. -/
def keepsLength (sentence : Text) : Bool := sentence.all fun c => (lowerChar c).length == 1

theorem find?_eq_some {sub s : Text} {i : Nat} (h : Text.find? sub s = some i) :
    ∃ before after, s = before ++ sub ++ after ∧ before.length = i := by
  have here : ∀ {t : Text}, Text.startsWith t sub = true → ∃ after, t = sub ++ after := by
    intro t ht
    obtain ⟨after, hafter⟩ := Option.isSome_iff_exists.mp ht
    exact ⟨after, Regex.dropPrefix?_eq_some hafter⟩
  induction s generalizing i with
  | nil =>
    rw [Text.find?] at h
    split at h
    · cases h
      obtain rfl : sub = [] := List.isEmpty_iff.mp ‹_›
      exact ⟨[], [], rfl, rfl⟩
    · cases h
  | cons c s ih =>
    rw [Text.find?] at h
    split at h
    · rename_i hstarts
      cases h
      obtain ⟨after, hafter⟩ := here hstarts
      exact ⟨[], after, hafter, rfl⟩
    · obtain ⟨j, hj, rfl⟩ := Option.map_eq_some_iff.mp h
      obtain ⟨before, after, rfl, rfl⟩ := ih hj
      exact ⟨c :: before, after, rfl, rfl⟩

theorem keepsLength_drop {s : Text} (h : keepsLength s = true) (n : Nat) :
    keepsLength (s.drop n) = true := by
  rw [keepsLength, List.all_eq_true] at h ⊢
  exact fun c hc => h c (List.mem_of_mem_drop hc)

/-- In such a sentence, places are the same in lower case. -/
theorem lower_split {s before after : Text} (h : keepsLength s = true)
    (hlower : Text.lower s = before ++ after) :
    Text.lower (s.take before.length) = before ∧ Text.lower (s.drop before.length) = after := by
  induction before generalizing s with
  | nil => exact ⟨rfl, hlower⟩
  | cons b before ih =>
    cases s with
    | nil => cases hlower
    | cons c s =>
      rw [keepsLength, List.all_cons, Bool.and_eq_true] at h
      obtain ⟨d, hd⟩ := List.length_eq_one_iff.mp (eq_of_beq h.1)
      rw [Text.lower, List.flatMap_cons, hd] at hlower
      obtain ⟨rfl, hrest⟩ := List.cons.inj hlower
      obtain ⟨htake, hdrop⟩ := ih h.2 hrest
      refine ⟨?_, hdrop⟩
      rw [List.length_cons, List.take_succ_cons, Text.lower, List.flatMap_cons, hd]
      exact congrArg (d :: ·) htake

/-- The space has no other case. -/
theorem eq_space_of_lowerChar {c : Char} (h : lowerChar c = [' ']) : c = ' ' := by
  unfold lowerChar at h
  split at h
  · have hlower : c.toLower = ' ' := List.singleton_injective h
    have hspace : isSpace c.toLower = true := by
      rw [hlower]
      decide
    exact (toLower_eq_of_isSpace hspace).symm.trans hlower
  · rename_i hlow
    split at h
    · cases h
    · have hchar := List.singleton_injective h
      cases htable : tableLower c.toNat with
      | none =>
        rw [htable] at hchar
        exact hchar
      | some n =>
        -- no letter of the table has a space for its lower case
        rw [htable, Option.map_some, Option.getD_some] at hchar
        have hn : n = 32 := by
          rw [Char.ofNat] at hchar
          by_cases hvalid : n.isValidChar
          · rw [dif_pos hvalid] at hchar
            exact congrArg Char.toNat hchar
          · rw [dif_neg hvalid] at hchar
            cases hchar
        have hruns : (CharTables.lowerRuns.all fun r =>
            decide (33 ≤ (r.1 : Int) + r.2.2.2)) = true := by decide +kernel
        obtain ⟨⟨first, last, step, distance⟩, hrun, hfound⟩ :=
          List.exists_of_findSome?_eq_some htable
        have hfirst := of_decide_eq_true (List.all_eq_true.mp hruns _ hrun)
        dsimp only at hfound hfirst
        split at hfound
        · rename_i hrange
          simp only [Bool.and_eq_true, decide_eq_true_eq] at hrange
          have hvalue := Option.some.inj hfound
          omega
        · cases hfound

/-- **Where no place is shifted, what is judged is one of the comparisons of the sentence.** -/
theorem mem_comparisonsIn_of_judged {s : Text} {c : Comparison} (h : keepsLength s = true)
    (hc : judgedIn s = some c) : c ∈ comparisonsIn s := by
  obtain ⟨⟨greater, phrase⟩, hphrase, hjudged⟩ := List.exists_of_findSome?_eq_some hc
  obtain ⟨at_, hat, hcomparison⟩ := Option.bind_eq_some_iff.mp hjudged
  obtain ⟨before, after, hlower, rfl⟩ := find?_eq_some hat
  have hsplit : Text.lower s = (before ++ [' ']) ++ (phrase ++ ' ' :: after) := by
    rw [hlower]
    simp
  obtain ⟨hbefore, hbehind⟩ := lower_split h hsplit
  obtain ⟨hhere, hafter⟩ := lower_split (keepsLength_drop h _) hbehind
  rw [List.length_append, List.length_singleton] at hbefore hbehind hhere hafter
  rw [List.drop_drop] at hafter
  have single : ∀ x ∈ s, ∃ d, lowerChar x = [d] := fun x hx =>
    List.length_eq_one_iff.mp (eq_of_beq (List.all_eq_true.mp h x hx))
  have hlast : (s.take (before.length + 1)).getLast? = some ' ' := by
    rcases List.eq_nil_or_concat (s.take (before.length + 1)) with hnil | ⟨t, x, ht⟩
    · rw [hnil] at hbefore
      simp [Text.lower] at hbefore
    · have hmem : x ∈ s.take (before.length + 1) := by
        rw [ht, List.concat_eq_append]
        exact List.mem_append_right _ List.mem_cons_self
      rw [ht, List.concat_eq_append] at hbefore ⊢
      obtain ⟨d, hd⟩ := single x (List.mem_of_mem_take hmem)
      rw [Text.lower, List.flatMap_append, List.flatMap_singleton, hd] at hbefore
      rw [eq_space_of_lowerChar (hd.trans (List.append_inj_right' hbefore rfl))]
      exact List.getLast?_concat
  have hhead : (s.drop (before.length + 1 + phrase.length)).head? = some ' ' := by
    cases hrest : s.drop (before.length + 1 + phrase.length) with
    | nil =>
      rw [hrest] at hafter
      cases hafter
    | cons x t =>
      obtain ⟨d, hd⟩ := single x (List.mem_of_mem_drop (hrest ▸ List.mem_cons_self))
      rw [hrest, Text.lower, List.flatMap_cons, hd] at hafter
      rw [eq_space_of_lowerChar (hd.trans (congrArg ([·]) (List.cons.inj hafter).1))]
      rfl
  have hplace : phraseAt s phrase (before.length + 1) = true := by
    rw [phraseAt, hhere, hlast, hhead, beq_self_eq_true]
    decide
  have hlt : before.length + 1 < s.length := by
    by_contra hle
    rw [List.drop_eq_nil_of_le (by omega)] at hhead
    cases hhead
  refine List.mem_flatMap.mpr ⟨_, hphrase, List.mem_filterMap.mpr ⟨before.length + 1, ?_,
    hcomparison⟩⟩
  exact List.mem_filter.mpr ⟨List.mem_range.mpr hlt, hplace⟩

/-! ## What is dropped -/

/-- Nothing is left of a sentence. -/
def dropped (sentence : Text) : Bool := (dropFalseComparisons sentence).isEmpty

/-- A sentence cut off a text is cut off it whole. -/
theorem cutSentence_idempotent (text : Text) :
    cutSentence (cutSentence text).1 = ((cutSentence text).1, []) := by
  have hbody : ∀ c ∈ text.takeWhile fun c => !endsSentence c, (!endsSentence c) = true :=
    List.all_eq_true.mp List.all_takeWhile
  have hmarked := head_dropWhile (fun c => !endsSentence c) text
  unfold cutSentence
  dsimp only
  generalize text.takeWhile (fun c => !endsSentence c) = body at hbody ⊢
  generalize text.dropWhile (fun c => !endsSentence c) = marked at hmarked ⊢
  have hmarks : ∀ c ∈ marked.takeWhile endsSentence, endsSentence c = true :=
    List.all_eq_true.mp List.all_takeWhile
  have hspaces : ∀ c ∈ (marked.dropWhile endsSentence).takeWhile isSpace, isSpace c = true :=
    List.all_eq_true.mp List.all_takeWhile
  -- behind the body comes a mark or nothing, behind the marks a space or nothing
  have hfirst : ∀ c ∈ (marked.takeWhile endsSentence ++
      (marked.dropWhile endsSentence).takeWhile isSpace).head?, endsSentence c = true := by
    cases marked with
    | nil => exact nofun
    | cons x rest =>
      have hx : endsSentence x = true := by simpa using hmarked
      rw [List.takeWhile_cons_of_pos hx]
      rintro c ⟨⟩
      exact hx
  generalize (marked.dropWhile endsSentence).takeWhile isSpace = spaces at hspaces hfirst ⊢
  generalize marked.takeWhile endsSentence = marks at hmarks hfirst ⊢
  have hnone : ∀ c ∈ spaces.head?, endsSentence c = false := by
    intro c hc
    have hspace := hspaces c (List.mem_of_head? hc)
    refine Bool.eq_false_iff.mpr fun hends => ?_
    have hcases : c = '.' ∨ c = '!' ∨ c = '?' := by simpa [endsSentence] using hends
    rcases hcases with rfl | rfl | rfl <;> exact absurd hspace (by decide)
  have stops : ∀ {p : Char → Bool} {l : Text}, (∀ c ∈ l.head?, p c = false) →
      l.takeWhile p = [] ∧ l.dropWhile p = l := by
    intro p l hl
    cases l with
    | nil => exact ⟨rfl, rfl⟩
    | cons c l =>
      have hc := hl c rfl
      exact ⟨List.takeWhile_cons_of_neg (by rw [hc]; decide),
        List.dropWhile_cons_of_neg (by rw [hc]; decide)⟩
  obtain ⟨htake, hdrop⟩ := stops (p := fun c => !endsSentence c) (l := marks ++ spaces)
    fun c hc => by rw [hfirst c hc]; rfl
  obtain ⟨htake', hdrop'⟩ := stops hnone
  rw [List.takeWhile_append_of_pos hbody, List.dropWhile_append_of_pos hbody, htake, hdrop,
    List.takeWhile_append_of_pos hmarks, List.dropWhile_append_of_pos hmarks, htake', hdrop',
    List.takeWhile_eq_self_iff.mpr hspaces, List.dropWhile_eq_nil_iff.mpr hspaces,
    List.append_nil, List.append_nil]

/-- A sentence of a text is one sentence by itself. -/
theorem sentencesOf_sentence {text s : Text} (h : s ∈ sentencesOf text) :
    s ≠ [] ∧ sentencesOf s = [s] := by
  obtain ⟨t, ht, rfl⟩ := sentencePattern_tiles.exists_of_mem_findall h
  have hne := sentencePattern_tiles.cut_ne_nil ht
  refine ⟨hne, ?_⟩
  rw [sentencesOf_cons hne, cutSentence_idempotent]
  exact congrArg (_ :: ·) sentencePattern_tiles.findall_nil

/-- A sentence is dropped if it is found to contradict itself. -/
theorem dropped_eq {text s : Text} (h : s ∈ sentencesOf text) :
    dropped s = contradictsItself s := by
  obtain ⟨hne, hone⟩ := sentencesOf_sentence h
  have hfound : sentencePattern.findall s = [s] := hone
  unfold dropped dropFalseComparisons
  rw [hfound]
  dsimp only
  cases hcontradicts : contradictsItself s with
  | true =>
    rw [List.filter_cons_of_neg (by simp [hcontradicts])]
    rfl
  | false =>
    rw [List.filter_cons_of_pos (by simp [hcontradicts])]
    exact List.isEmpty_eq_false_iff.mpr hne

/-- **What is left of a text**: the text if no sentence of it is dropped, else the sentences that
are not, trimmed. -/
theorem dropFalseComparisons_sentences (text : Text) :
    dropFalseComparisons text =
      if (sentencesOf text).any dropped then
        Text.strip ((sentencesOf text).filter fun s => !dropped s).flatten
      else text := by
  have hkept : ((sentencesOf text).filter fun s => !dropped s) =
      (sentencesOf text).filter fun s => !contradictsItself s :=
    List.filter_congr fun s hs => by rw [dropped_eq hs]
  rw [hkept]
  have hlength : ((sentencesOf text).filter fun s => !contradictsItself s).length =
      (sentencesOf text).length ↔ ¬ (sentencesOf text).any dropped = true := by
    rw [← hkept, List.length_filter_eq_length_iff, List.any_eq_true]
    simp only [Bool.not_eq_true', not_exists, not_and, Bool.not_eq_true]
  unfold dropFalseComparisons
  dsimp only
  change (if ((sentencesOf text).filter fun s => !contradictsItself s).length =
    (sentencesOf text).length then text else _) = _
  by_cases hany : (sentencesOf text).any dropped = true
  · rw [if_pos hany, if_neg fun h => hlength.mp h hany]
    rfl
  · rw [if_neg hany, if_pos (hlength.mpr hany)]

/-- The comparison that decides about a sentence is enough to decide.

Where there is none, no comparison of the sentence is false.  Where it says nothing but its phrase,
it is false itself or none is.  Where it says more, or a character that is longer in lower case has
shifted its place, its amounts disprove the phrase and some comparison is false, or neither. -/
def judgedRightly (sentence : Text) : Bool :=
  match judgedIn sentence with
  | none => (comparisonsIn sentence).all (·.holds)
  | some c =>
      if keepsLength sentence && c.plain then
        !c.bare || (comparisonsIn sentence).all (·.holds)
      else if c.bare then (comparisonsIn sentence).all (·.holds)
      else (comparisonsIn sentence).any (!·.holds)

theorem judgedRightly_iff (s : Text) : judgedRightly s = true ↔
    (contradictsItself s = true ↔ ∃ c ∈ comparisonsIn s, c.holds = false) := by
  have hfalse : (∃ c ∈ comparisonsIn s, c.holds = false) ↔
      (comparisonsIn s).any (!·.holds) = true := by
    rw [List.any_eq_true]
    simp only [Bool.not_eq_true']
  have htrue : (comparisonsIn s).all (·.holds) = true ↔
      ¬ (comparisonsIn s).any (!·.holds) = true := by
    rw [List.all_eq_true, ← hfalse]
    simp only [not_exists, not_and, Bool.not_eq_false]
  rw [contradictsItself_eq, hfalse]
  unfold judgedRightly
  cases hjudged : judgedIn s with
  | none => rw [htrue]; simp
  | some c =>
    dsimp only
    rw [Option.any_some]
    by_cases hplain : (keepsLength s && c.plain) = true
    · rw [if_pos hplain]
      obtain ⟨hkeeps, hplain⟩ := Bool.and_eq_true_iff.mp hplain
      have hmem := mem_comparisonsIn_of_judged hkeeps hjudged
      cases hbare : c.bare with
      | true => rw [Bool.not_true, Bool.false_or, htrue]; simp
      | false =>
        -- it is one of the comparisons, and false
        have hany : (comparisonsIn s).any (!·.holds) = true :=
          List.any_eq_true.mpr ⟨c, hmem, by rw [Comparison.holds_of_plain hplain, hbare]; rfl⟩
        rw [hany]
        simp
    · rw [if_neg hplain]
      cases hbare : c.bare with
      | true => rw [if_pos rfl, htrue]; simp
      | false => simp

/-- A true sentence whose comparison is denied. -/
def deniedComparison : Text := "Your $1,500 television does not exceed the $2,500 limit."

/-- A sentence with a true comparison and a false one. -/
def secondComparison : Text :=
  "Your $4,000 ring exceeds $2,500 and your $1,500 watch exceeds $2,000."

end OmniCare
