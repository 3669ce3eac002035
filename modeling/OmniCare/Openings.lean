import Mathlib.Data.List.Chain
import OmniCare.Corrections
import OmniCare.Envelopes
import OmniCare.Fronts
import OmniCare.Sentences
import OmniCare.StatedAmounts

/-! # A sentence in front of an answer

`readback` puts a sentence in front of a reply: "Looking up claim C-L-M, eight eight two one."
Nothing in it looks like what `ground` takes out or like the markdown that `format` takes off, so
the sentence survives whatever happens to the answer behind it (`Opening.normalizeResponse`), but
for a demand of `ground`, which replaces them both.
-/
namespace OmniCare

open Regex

/-! ## How it is written -/

/-- A character of the read-back but for its full stop. -/
def isSpokenChar (c : Char) : Bool :=
  (isDigitChar c || c.isAlpha) || (c == ' ' || c == ',' || c == '-')

/-- Two characters that can stand side by side in the read-back: no two spaces, and no digit before
another or a comma. -/
def MayFollow (x y : Char) : Prop :=
  ¬ (x = ' ' ∧ y = ' ') ∧ ¬ (isDigit x = true ∧ isFigureChar y = true)

/-- A character that a mark at the start of a line begins with. -/
def isLineMark (c : Char) : Bool := isTabOrBlank c || isDigit c || "-*_+#".toList.elem c

instance : DecidableRel MayFollow := fun _ _ => inferInstanceAs (Decidable (_ ∧ _))

/-- A sentence that begins like the read-back and is spoken like it. -/
structure Opening (p : Text) : Prop where
  head : p.head? = some 'L'
  spoken : ∃ q, p = q ++ ['.'] ∧ q.all isSpokenChar = true
  apart : p.IsChain MayFollow

theorem digitValue_lt (d : Char) : (digitValue d).getD 0 < 10 := by
  unfold digitValue
  split
  · split
    · rename_i hdigit
      have hnine : d.toNat ≤ 57 := by
        rw [Char.isDigit, Bool.and_eq_true, decide_eq_true_eq, decide_eq_true_eq] at hdigit
        exact hdigit.2
      rw [Option.getD_some]
      omega
    · exact Nat.zero_lt_succ 9
  · cases hzero : CharTables.digitZeros.find? fun z => z ≤ d.toNat && d.toNat < z + 10 with
    | none => exact Nat.zero_lt_succ 9
    | some z =>
      have hfound := List.find?_some hzero
      rw [Bool.and_eq_true, decide_eq_true_eq, decide_eq_true_eq] at hfound
      show d.toNat - z < 10
      omega

/-- Where no digit has another or a comma behind it, there are no amounts. -/
theorem moneySpans_eq_nil {s : Text}
    (h : s.IsChain fun x y => ¬ (isDigit x = true ∧ isFigureChar y = true)) :
    moneySpans s = [] := by
  unfold moneySpans
  rw [List.filterMap_eq_nil_iff]
  intro m hm
  obtain ⟨before, after, ⟨hs, ⟨hhead, hall, -⟩, -⟩, -⟩ := figureAt_of_mem hm
  have hsmall : Text.toNat (figureDigits m.text) < moneyFloor := by
    cases htext : m.text with
    | nil =>
      rw [htext] at hhead
      cases hhead
    | cons d run =>
      rw [htext] at hhead hall hs
      have hd : isDigit d = true := hhead
      cases run with
      | cons c run =>
        -- a longer run has the digit before another or a comma
        rw [List.all_cons, List.all_cons, Bool.and_eq_true, Bool.and_eq_true] at hall
        rw [hs, List.isChain_append, List.cons_append, List.cons_append,
          List.isChain_cons_cons] at h
        exact absurd ⟨hd, hall.2.1⟩ h.2.1.1
      | nil =>
        have hdigits : figureDigits [d] = [d] := by
          have hcomma := not_comma_of_isDigit hd
          simp [figureDigits, beq_eq_false_iff_ne.mp hcomma]
        have hvalue := digitValue_lt d
        rw [hdigits]
        show 0 * 10 + (digitValue d).getD 0 < 100
        omega
  dsimp only
  rw [if_neg (Nat.not_le_of_lt hsmall)]

/-- A sentence without amounts contradicts nothing. -/
theorem contradictsItself_of_no_amounts {s : Text} (h : ∀ n, moneySpans (s.take n) = []) :
    contradictsItself s = false := by
  have hnone : ∀ holds term, disproved s holds term = none := by
    intro holds term
    unfold disproved
    rw [Option.bind_eq_none_iff]
    intro i _
    unfold comparedAmounts
    dsimp only
    rw [h]
    rfl
  unfold contradictsItself
  rw [List.findSome?_eq_none_iff.mpr fun term _ => hnone _ term,
    List.findSome?_eq_none_iff.mpr fun term _ => hnone _ term]
  rfl

namespace Opening

variable {p rest : Text} (h : Opening p)
include h

theorem ne_nil : p ≠ [] := by
  rintro rfl
  cases h.head

theorem exists_cons : ∃ q, p = 'L' :: q := by
  have hhead := h.head
  cases p with
  | nil => cases hhead
  | cons c q =>
    cases hhead
    exact ⟨q, rfl⟩

theorem getLast : p.getLast? = some '.' := by
  obtain ⟨q, rfl, -⟩ := h.spoken
  exact List.getLast?_concat

/-- It has no other characters. -/
theorem lacks {x : Char} (hx : isSpokenChar x = false) (hdot : x ≠ '.') : x ∉ p := by
  obtain ⟨q, rfl, hq⟩ := h.spoken
  intro hmem
  rcases List.mem_append.mp hmem with hmem | hmem
  · have hspoken := List.all_eq_true.mp hq x hmem
    rw [hx] at hspoken
    cases hspoken
  · exact hdot (List.mem_singleton.mp hmem)

theorem any_eq_false {f : Char → Bool} (hf : ∀ x, f x = true → isSpokenChar x = false ∧ x ≠ '.') :
    p.any f = false := by
  rw [List.any_eq_false]
  intro x hx hfx
  exact h.lacks (hf x hfx).1 (hf x hfx).2 hx

theorem strip (rest : Text) : ∃ rest', Text.strip (p ++ rest) = p ++ rest' ∧ rest' <+: rest :=
  strip_front (by rw [h.head]; decide) (by rw [h.getLast]; decide) h.ne_nil

theorem rstrip (rest : Text) : ∃ rest', Text.rstrip (p ++ rest) = p ++ rest' := by
  obtain ⟨q, hq⟩ := h.exists_cons
  obtain ⟨rest', hstrip, -⟩ := h.strip rest
  refine ⟨rest', hstrip ▸ ?_⟩
  have hleft : Text.lstripBy isSpace (p ++ rest) = p ++ rest := by
    rw [hq]
    exact List.dropWhile_cons_of_neg (by decide)
  rw [Text.strip, Text.stripBy, hleft]
  rfl

/-! ## What ground takes out -/

theorem spares_blankRun : blankRun.Spares p rest := by
  intro before here hsplit hne
  rw [List.eq_nil_iff_forall_not_mem]
  intro v hv
  obtain ⟨t, ht, ⟨hpasses, -⟩, -⟩ := mem_run_rep_char.mp hv
  dsimp only at hpasses
  have hall := ht.all
  have hlength := ht.atLeast
  have blank : ∀ x ∈ p, isTabOrBlank x = true → x = ' ' := by
    intro x hx hblank
    rw [isTabOrBlank, Bool.or_eq_true] at hblank
    refine hblank.elim eq_of_beq fun htab => ?_
    rw [eq_of_beq htab] at hx
    exact absurd hx (h.lacks (by decide) (by decide))
  obtain ⟨x, y, t, rfl⟩ : ∃ x y t', t = x :: y :: t' := by
    cases t with
    | nil => exact absurd hlength (Nat.not_succ_le_zero 1)
    | cons x t =>
      cases t with
      | nil => exact absurd hlength (Nat.lt_irrefl 1)
      | cons y t => exact ⟨x, y, t, rfl⟩
  simp only [List.all_cons, Bool.and_eq_true] at hall
  cases here with
  | nil => exact hne rfl
  | cons c here =>
    obtain ⟨hcx, hpasses⟩ := List.cons.inj hpasses
    have hc : c = ' ' := blank c (by rw [hsplit]; simp) (hcx ▸ hall.1)
    cases here with
    | nil =>
      -- the full stop is no blank
      have hlast := h.getLast
      rw [hsplit, List.getLast?_concat, hc] at hlast
      cases hlast
    | cons d here =>
      obtain ⟨hdy, -⟩ := List.cons.inj hpasses
      have hd : d = ' ' := blank d (by rw [hsplit]; simp) (hdy ▸ hall.2.1)
      have hchain := h.apart
      rw [hsplit, List.isChain_append] at hchain
      exact (List.isChain_cons_cons.mp hchain.2.1).1.1 ⟨hc, hd⟩

theorem spares_orphanedLabel : orphanedLabel.Spares p rest := by
  have havoids : orphanedLabel.Avoids '.' := by
    have char : ∀ {f : Char → Bool}, f '.' = false → (Regex.star (.char f)).Avoids '.' :=
      fun hf => .rep (.char hf)
    have words : (wordsI ["citation", "source", "reference"]).Avoids '.' :=
      .alt (.litI (by decide)) (.alt (.litI (by decide)) (.litI (by decide)))
    exact (Avoids.rep (.lit (by decide))).seq <| (char (by decide)).seq <|
      (char (by decide)).seq <| (char (by decide)).seq <| words.seq <|
      (Avoids.rep (.litI (by decide))).seq <| (char (by decide)).seq <|
      (Avoids.rep (.lit (by decide))).seq <| (char (by decide)).seq <|
      (char (by decide)).seq <| (char (by decide)).seq <| .assert _
  have hends : ∀ w v, v ∈ orphanedLabel.run w → '.' ∉ v.cursor.after := by
    refine ends_seq <| ends_seq <| ends_seq <| ends_seq <| ends_seq <| ends_seq <| ends_seq <|
      ends_seq <| ends_seq <| ends_seq <| ends_seq fun w v hv hmem => ?_
    unfold Regex.cat Regex.atEnd Regex.run at hv
    split at hv
    · rename_i hend
      rw [List.mem_singleton.mp hv] at hmem
      rw [Bool.or_eq_true, List.isEmpty_iff, beq_iff_eq] at hend
      rcases hend with hend | hend
      · rw [hend] at hmem
        cases hmem
      · rw [hend] at hmem
        exact absurd (List.mem_singleton.mp hmem) (by decide)
    · cases hv
  intro before here hsplit hne
  rw [List.eq_nil_iff_forall_not_mem]
  intro v hv
  obtain ⟨t, ⟨hpasses, -⟩, ht⟩ := havoids _ _ hv
  -- the full stop is ahead, and can be neither passed nor left
  have hmem : '.' ∈ here := by
    have hlast := h.getLast
    rw [hsplit, List.getLast?_append_of_ne_nil _ hne] at hlast
    exact List.mem_of_getLast? hlast
  have hmem : '.' ∈ t ++ v.cursor.after := hpasses ▸ List.mem_append_left rest hmem
  exact (List.mem_append.mp hmem).elim ht (hends _ _ hv)

/-- No citation begins in it, where a space or nothing comes behind it. -/
theorem spares_citationHead (hrest : rest.head?.all (· == ' ') = true) :
    citationHead.Spares p rest := by
  obtain ⟨q, hq, hspoken⟩ := h.spoken
  intro before here hsplit hne
  rw [List.eq_nil_iff_forall_not_mem]
  intro v hv
  -- a file name and ".md" would be passed
  obtain ⟨u, hu, hv⟩ := mem_run_seq.mp hv
  obtain ⟨u', hu', -⟩ := mem_run_seq.mp hv
  obtain ⟨file, hfile, ⟨hpasses, -⟩, -⟩ := mem_run_rep_char.mp hu
  have hmd : Regex.lit ".md" =
      .seq (.char (· == '.')) (.seq (.char (· == 'm')) (.char (· == 'd'))) := rfl
  rw [hmd] at hu'
  obtain ⟨w₁, h₁, hu'⟩ := mem_run_seq.mp hu'
  obtain ⟨w₂, h₂, -⟩ := mem_run_seq.mp hu'
  obtain ⟨c₁, hc₁, ⟨hp₁, -⟩, -⟩ := mem_run_char.mp h₁
  obtain ⟨c₂, hc₂, ⟨hp₂, -⟩, -⟩ := mem_run_char.mp h₂
  rw [hp₁, hp₂, eq_of_beq hc₁, eq_of_beq hc₂] at hpasses
  -- the full stop is the only one, and no letter follows it
  obtain ⟨hq', rfl⟩ : ∃ q', here = q' ++ ['.'] := by
    rcases List.eq_nil_or_concat here with rfl | ⟨q', c, rfl⟩
    · exact absurd rfl hne
    · refine ⟨q', ?_⟩
      rw [hq, List.concat_eq_append, ← List.append_assoc] at hsplit
      rw [List.concat_eq_append, (List.append_inj_right' hsplit rfl).symm]
  have hpoint : '.' ∉ hq' := by
    intro hmem
    rw [hq, ← List.append_assoc] at hsplit
    have hmem : '.' ∈ q := List.append_inj_left' hsplit rfl ▸ List.mem_append_right _ hmem
    exact absurd (List.all_eq_true.mp hspoken '.' hmem) (by decide)
  have next : ∀ {x : Char} {tail : Text}, rest = x :: tail → x = ' ' := by
    rintro x tail rfl
    exact eq_of_beq hrest
  simp only [List.append_assoc, List.singleton_append] at hpasses
  rcases List.append_eq_append_iff.mp hpasses with ⟨t, ht, htail⟩ | ⟨t, ht, htail⟩
  · cases t with
    | nil => exact absurd (next (List.cons.inj htail).2) (by decide)
    | cons x t =>
      have hrest := (List.cons.inj htail).2
      cases t with
      | nil => exact absurd (next hrest) (by decide)
      | cons y t =>
        have hy : isFileChar y = true := List.all_eq_true.mp hfile.all y (ht ▸ by simp)
        rw [next hrest] at hy
        exact absurd hy (by decide)
  · cases t with
    | nil => exact absurd (next (List.cons.inj htail).2.symm) (by decide)
    | cons x t =>
      obtain ⟨rfl, -⟩ := List.cons.inj htail
      exact hpoint (ht ▸ by simp)

/-- The cut of the invented citations leaves it. -/
theorem withoutInvented (valid : List Text) (hrest : rest.head?.all (· == ' ') = true) :
    ∃ rest', OmniCare.withoutInvented (p ++ rest) (citationSpans (p ++ rest) valid) =
      p ++ rest' := by
  have hspans : ∀ span ∈ citationSpans (p ++ rest) valid, p.length ≤ span.start := by
    intro span hspan
    obtain ⟨head, hhead, rfl⟩ := List.mem_map.mp hspan
    have hstart := (h.spares_citationHead hrest).le_start hhead
    unfold citationSpan
    dsimp only
    split <;> exact hstart
  have hcut : ∃ rest₁, cutInvented (p ++ rest) (citationSpans (p ++ rest) valid) = p ++ rest₁ := by
    unfold cutInvented
    generalize citationSpans (p ++ rest) valid = spans at hspans
    induction spans with
    | nil => exact ⟨rest, rfl⟩
    | cons span spans ih =>
      obtain ⟨rest₁, hrest₁⟩ := ih fun s hs => hspans s (List.mem_cons_of_mem _ hs)
      rw [List.foldr_cons, hrest₁]
      split
      · exact ⟨rest₁, rfl⟩
      · have hstart := hspans span List.mem_cons_self
        refine ⟨rest₁.take (span.start - p.length) ++ (p ++ rest₁).drop span.stop, ?_⟩
        rw [List.take_append, List.take_of_length_le hstart, List.append_assoc]
  unfold OmniCare.withoutInvented dropOrphanedLabel
  dsimp only
  obtain ⟨rest₁, h₁⟩ := hcut
  obtain ⟨rest₂, h₂⟩ : ∃ rest₂, Text.replace (p ++ rest₁) "()" [] = p ++ rest₂ :=
    ⟨_, replace_front [] rest₁ rfl (h.lacks (by decide) (by decide))⟩
  obtain ⟨rest₃, h₃⟩ : ∃ rest₃, Text.replace (p ++ rest₂) "[]" [] = p ++ rest₃ :=
    ⟨_, replace_front [] rest₂ rfl (h.lacks (by decide) (by decide))⟩
  obtain ⟨rest₄, h₄⟩ := (@spares_blankRun p rest₃ h).sub fun _ => [' ']
  obtain ⟨rest₅, h₅, -⟩ := h.strip rest₄
  obtain ⟨rest₆, h₆⟩ := (@spares_orphanedLabel p rest₅ h).sub fun _ => []
  obtain ⟨rest₇, h₇⟩ := h.rstrip rest₆
  unfold Regex.subText
  rw [h₁, h₂, h₃, h₄, h₅, h₆, h₇]
  exact ⟨rest₇, rfl⟩

/-- The first sentence of an answer is the opening, with the marks and spaces behind it. -/
theorem cutSentence (rest : Text) : ∃ tail rest', OmniCare.cutSentence (p ++ rest) =
    (p ++ tail, rest') ∧ tail.all (fun c => endsSentence c || isSpace c) = true := by
  obtain ⟨q, rfl, hspoken⟩ := h.spoken
  have hq : ∀ c ∈ q, (!endsSentence c) = true := by
    intro c hc
    have hcs := List.all_eq_true.mp hspoken c hc
    rw [Bool.not_eq_true']
    refine Bool.eq_false_iff.mpr fun hends => ?_
    have hcases : c = '.' ∨ c = '!' ∨ c = '?' := by simpa [endsSentence] using hends
    rcases hcases with rfl | rfl | rfl <;> exact absurd hcs (by decide)
  have hbody : (q ++ ['.'] ++ rest).takeWhile (fun c => !endsSentence c) = q := by
    rw [List.append_assoc, List.takeWhile_append_of_pos hq, List.singleton_append,
      List.takeWhile_cons_of_neg (by decide), List.append_nil]
  have hmarked : (q ++ ['.'] ++ rest).dropWhile (fun c => !endsSentence c) = '.' :: rest := by
    rw [List.append_assoc, List.dropWhile_append_of_pos hq, List.singleton_append,
      List.dropWhile_cons_of_neg (by decide)]
  unfold OmniCare.cutSentence
  dsimp only
  rw [hbody, hmarked, List.takeWhile_cons_of_pos (by decide),
    List.dropWhile_cons_of_pos (by decide)]
  refine ⟨rest.takeWhile endsSentence ++ (rest.dropWhile endsSentence).takeWhile isSpace, _,
    Prod.ext (by simp) rfl, ?_⟩
  rw [List.all_append, Bool.and_eq_true, List.all_eq_true, List.all_eq_true]
  constructor
  · intro c hc
    rw [List.mem_takeWhile_imp hc, Bool.true_or]
  · intro c hc
    rw [List.mem_takeWhile_imp hc, Bool.or_true]

/-- That sentence contradicts nothing. -/
theorem sound {tail : Text} (htail : tail.all (fun c => endsSentence c || isSpace c) = true) :
    contradictsItself (p ++ tail) = false := by
  have digitless : ∀ c ∈ tail, isDigit c = false := by
    intro c hc
    have hclass := List.all_eq_true.mp htail c hc
    refine Bool.eq_false_iff.mpr fun hdigit => ?_
    rw [isSpace_of_isDigit hdigit, Bool.or_false] at hclass
    have hcases : c = '.' ∨ c = '!' ∨ c = '?' := by simpa [endsSentence] using hclass
    rcases hcases with rfl | rfl | rfl <;> exact absurd hdigit (by decide)
  have hchain : (p ++ tail).IsChain fun x y => ¬ (isDigit x = true ∧ isFigureChar y = true) := by
    refine List.IsChain.append (h.apart.imp fun _ _ => And.right) ?_ ?_
    · refine List.Pairwise.isChain (List.pairwise_iff_forall_sublist.mpr fun hsub hxy => ?_)
      have hx := digitless _ (hsub.subset List.mem_cons_self)
      rw [hx] at hxy
      exact Bool.false_ne_true hxy.1
    · intro x hx y _ hxy
      rw [h.getLast] at hx
      cases hx
      exact absurd hxy.1 (by decide)
  refine contradictsItself_of_no_amounts fun n => moneySpans_eq_nil ?_
  exact hchain.take n

/-- The sentences that are kept begin with it. -/
theorem dropFalseComparisons (rest : Text) :
    ∃ rest', OmniCare.dropFalseComparisons (p ++ rest) = p ++ rest' := by
  obtain ⟨tail, rest₁, hcut, htail⟩ := h.cutSentence rest
  have hne : p ++ rest ≠ [] := List.append_ne_nil_of_left_ne_nil h.ne_nil _
  have hsentences := sentencesOf_cons hne
  rw [hcut] at hsentences
  rcases dropFalseComparisons_eq (p ++ rest) with hsame | hkept
  · exact ⟨rest, hsame⟩
  · have hsound : (!contradictsItself (p ++ tail)) = true := by rw [h.sound htail]; rfl
    rw [hsentences, List.filter_cons_of_pos (by exact hsound), List.flatten_cons,
      List.append_assoc] at hkept
    obtain ⟨rest₂, hstrip, -⟩ := h.strip (tail ++ ((sentencesOf rest₁).filter
      fun s => !contradictsItself s).flatten)
    exact ⟨rest₂, hkept.trans hstrip⟩

/-- **`ground` keeps it, unless it makes a demand.** -/
theorem groundedText {s : AgentState} (hrest : rest.head?.all (· == ' ') = true)
    (hdemand : s.demandFor (p ++ rest) = none) :
    ∃ rest', s.groundedText (p ++ rest) = p ++ rest' := by
  obtain ⟨rest₁, h₁⟩ := h.withoutInvented s.validCitations hrest
  obtain ⟨rest₂, h₂⟩ := h.dropFalseComparisons rest₁
  have hremaining : s.remaining (p ++ rest) = p ++ rest₂ := by
    rw [AgentState.remaining, h₁, h₂]
  unfold AgentState.demandFor at hdemand
  unfold AgentState.groundedText AgentState.kept
  by_cases hnumber : inventsPolicyNumber s (s.remaining (p ++ rest)) = true
  · rw [if_pos hnumber] at hdemand
    cases hdemand
  · rw [if_neg hnumber] at hdemand ⊢
    by_cases hamount : assertsAnEstimatedAmount (s.remaining (p ++ rest)) = true
    · rw [if_pos hamount] at hdemand
      cases hdemand
    · rw [if_neg hamount]
      split
      · exact ⟨rest, rfl⟩
      · exact ⟨rest₂, hremaining⟩

/-! ## What format takes off -/

/-- It is prose for `unwrap_json`. -/
theorem unwrapJson (rest : Text) : ∃ rest', OmniCare.unwrapJson (p ++ rest) = p ++ rest' := by
  obtain ⟨rest', hstrip, -⟩ := h.strip rest
  obtain ⟨q, hq⟩ := h.exists_cons
  have hfence : unfence (p ++ rest) = ([], p ++ rest) := by
    rw [hq]
    exact unfence_of_head (by decide) (by decide)
  refine ⟨rest', ?_⟩
  unfold OmniCare.unwrapJson
  rw [hfence]
  dsimp only
  rw [hstrip, hq]
  rfl

/-- No markdown is in it. -/
theorem stripMarkdown (rest : Text) :
    ∃ rest', OmniCare.stripMarkdown (p ++ rest) = p ++ rest' := by
  have mark : ∀ {r : Regex} {f : Char → Bool}, r.Begins f →
      (∀ x, f x = true → isSpokenChar x = false ∧ x ≠ '.') → ∀ rest, r.Spares p rest :=
    fun hr hf rest => hr.spares (h.any_eq_false hf)
  have one : ∀ {c : Char}, isSpokenChar c = false ∧ c ≠ '.' →
      ∀ x, (x == c) = true → isSpokenChar x = false ∧ x ≠ '.' :=
    fun hc x hx => eq_of_beq hx ▸ hc
  have emphasis : ∀ x, "*_".toList.elem x = true → isSpokenChar x = false ∧ x ≠ '.' := by
    intro x hx
    have hcases : x = '*' ∨ x = '_' := by simpa using hx
    rcases hcases with rfl | rfl <;> decide
  -- no pattern of a line begins with a letter
  have line : ∀ {r : Regex}, r.Begins isLineMark →
      ∀ rest, (Regex.seq .lineStart r).Spares p rest := by
    intro r hr rest
    refine hr.spares_line (by rw [h.head]; decide) (h.any_eq_false (one (by decide)))
  have blank : ∀ c, isTabOrBlank c = true → isLineMark c = true := by
    intro c hc
    rw [isLineMark, hc, Bool.true_or, Bool.true_or]
  have digit : ∀ c, isDigit c = true → isLineMark c = true := by
    intro c hc
    rw [isLineMark, hc, Bool.or_true, Bool.true_or]
  have among : ∀ {cs : Text}, cs.all isLineMark = true →
      ∀ c, cs.elem c = true → isLineMark c = true :=
    fun hcs c hc => List.all_eq_true.mp hcs c (List.elem_iff.mp hc)
  have hfence : ∀ rest, mdFence.Spares p rest :=
    mark (.seq (.lit rfl)) (one (c := '`') (by decide))
  have hrule : ∀ rest, mdRule.Spares p rest :=
    line (.behind_rep blank (.seq (.group 1 (.char (among (by decide))))))
  have hlink : ∀ rest, mdLink.Spares p rest :=
    mark (.seq (.lit rfl)) (one (c := '[') (by decide))
  have hheading : ∀ rest, mdHeading.Spares p rest :=
    line (.behind_rep blank (.seq (.rep (by decide) fun c hc => eq_of_beq hc ▸ by decide)))
  have hbullet : ∀ rest, mdBullet.Spares p rest :=
    line (.behind_rep blank (.seq (.char (among (by decide)))))
  have hordered : ∀ rest, mdOrdered.Spares p rest :=
    line (.behind_rep blank (.seq (.group 1 (.rep (by decide) digit))))
  have hbold : ∀ rest, mdBold.Spares p rest :=
    mark (.seq (.lit rfl)) (one (c := '*') (by decide))
  have hitalic : ∀ rest, mdItalic.Spares p rest :=
    mark (.behind_assert _ (.seq (.char fun _ hc => hc))) emphasis
  have hcode : ∀ rest, mdCode.Spares p rest :=
    mark (.seq (.lit rfl)) (one (c := '`') (by decide))
  have hbreak : ∀ rest, (Regex.atLeast 3 (.lit "\n")).Spares p rest :=
    mark (.rep (by decide) fun _ hc => hc) (one (c := '\n') (by decide))
  obtain ⟨t₁, h₁⟩ := (hfence rest).sub fun _ => []
  obtain ⟨t₂, h₂⟩ := (hrule t₁).sub fun _ => []
  obtain ⟨t₃, h₃⟩ := (hlink t₂).sub (·.group 1)
  obtain ⟨t₄, h₄⟩ := (hheading t₃).sub fun m => asSentence (m.group 1)
  obtain ⟨t₅, h₅⟩ := (hbullet t₄).sub fun _ => []
  obtain ⟨t₆, h₆⟩ := (hordered t₅).sub fun _ => []
  obtain ⟨t₇, h₇⟩ := (hbold t₆).sub (·.group 1)
  obtain ⟨t₈, h₈⟩ := (hitalic t₇).sub (·.group 1)
  obtain ⟨t₉, h₉⟩ := (hcode t₈).sub (·.group 1)
  obtain ⟨t₁₀, h₁₀⟩ := (@spares_blankRun p t₉ h).sub fun _ => [' ']
  obtain ⟨t₁₁, h₁₁⟩ := (hbreak t₁₀).sub fun _ => "\n\n"
  obtain ⟨t₁₂, h₁₂, -⟩ := h.strip t₁₁
  refine ⟨t₁₂, ?_⟩
  unfold OmniCare.stripMarkdown Regex.subText
  dsimp only
  rw [h₁, h₂, h₃, h₄, h₅, h₆, h₇, h₈, h₉, h₁₀, h₁₁, h₁₂]

/-- **What a voice answer begins with is published.** -/
theorem normalizeResponse (rest : Text) :
    ∃ rest', OmniCare.normalizeResponse (p ++ rest) .voice = p ++ rest' := by
  obtain ⟨t₁, h₁⟩ := h.unwrapJson rest
  obtain ⟨t₂, h₂⟩ := h.stripMarkdown t₁
  obtain ⟨t₃, h₃, -⟩ := h.strip t₂
  refine ⟨t₃, ?_⟩
  rw [normalizeResponse_eq, Channel.present, h₁, h₂, h₃]

end Opening

end OmniCare
