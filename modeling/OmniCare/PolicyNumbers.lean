import OmniCare.Fronts
import OmniCare.Speaking

/-! # Policy numbers that nobody gave

`ground` replaces an answer by the demand for a policy number when it reads a number in it that
neither the policyholder nor a tool has given.  What a text **mentions** is stated here without
the scanner: the letters `POL`, a hyphen or a space of any typography or nothing, and four digits
that no further digit follows (`Mentions`).

The scanner reads a number after a plain hyphen or a space (`WritesOut`) and one whose letters and
digits run together (`RunsTogether`), which it takes for another number; it looks at no character
behind the four digits.  `ground_demands_iff` says for every turn and answer when the two agree.
-/
namespace OmniCare

open Regex

/-! ## What a text mentions -/

/-- The letters of a policy number. -/
def policyLetters : Text := "POL"

/-- A text spells the letters of a policy number, in either case. -/
def SpellsPolicy (pol : Text) : Prop :=
  List.Forall₂ (fun a b => sameLetter a b = true) policyLetters pol

/-- The letters, a separator and four digits stand in a text before `after`. -/
structure NumberAt (text sep digits after : Text) : Prop where
  spelled : ∃ before pol, text = before ++ (pol ++ (sep ++ (digits ++ after))) ∧ SpellsPolicy pol
  length_digits : digits.length = 4
  all_digits : digits.all isDigit = true

/-- A hyphen or a space, in any typography that `_typographic` flattens. -/
def isSeparator (c : Char) : Bool := plainCharacter c == '-' || isSpace (plainCharacter c)

/-- **A text mentions the policy number of these digits**: exactly these, and not the beginning of
a longer run of them. -/
def Mentions (text digits : Text) : Prop :=
  ∃ sep after, NumberAt text sep digits after ∧
    (sep = [] ∨ ∃ c, sep = [c] ∧ isSeparator c = true) ∧ after.head?.any isDigit = false

/-- A hyphen or a space that `_POLICY_RE` reads. -/
def isPlainSeparator (c : Char) : Bool := c == '-' || isSpace c

example : isPlainSeparator '/' = false := by decide +kernel

/-- The digits follow the letters after a hyphen or a space that `_POLICY_RE` reads. -/
def WritesOut (text digits : Text) : Prop :=
  ∃ c after, NumberAt text [c] digits after ∧ isPlainSeparator c = true

/-- The digits follow the letters at once. -/
def RunsTogether (text digits : Text) : Prop := ∃ after, NumberAt text [] digits after

/-- The canonical form of a policy number. -/
def canonicalForm (digits : Text) : Text := policyLetters ++ '-' :: digits

/-! ## The letters -/

theorem sameLetter_cases {a c : Char} (ha : a ∈ policyLetters) (h : sameLetter a c = true) :
    c = a ∨ c = a.toLower := by
  have hletters : policyLetters.all (fun a => a.toNat < 128 ∧ a.toLower ≠ 'i' ∧
      a.toLower ≠ 's' ∧ a.toLower ≠ 'k') = true := by decide
  obtain ⟨hascii, hi, hs, hk⟩ := of_decide_eq_true (List.all_eq_true.mp hletters a ha)
  unfold sameLetter at h
  by_cases hlow : c.toNat < 128
  · rw [if_pos hlow] at h
    have hcases : policyLetters.all (fun a => decide (∀ n : Nat, n < 128 →
        (a.toLower == (Char.ofNat n).toLower) = true →
          Char.ofNat n = a ∨ Char.ofNat n = a.toLower)) = true := by decide
    have hone := of_decide_eq_true (List.all_eq_true.mp hcases a ha) c.toNat hlow
    rw [Char.ofNat_toNat] at hone
    exact hone h
  · rw [if_neg hlow] at h
    split at h
    · exact absurd (eq_of_beq h) hi
    · exact absurd (eq_of_beq h) hi
    · exact absurd (eq_of_beq h) hs
    · exact absurd (eq_of_beq h) hk
    · rw [eq_of_beq h] at hascii
      exact absurd hascii hlow

/-- The letters are spelled in one of eight ways. -/
theorem SpellsPolicy.cases {pol : Text} (h : SpellsPolicy pol) :
    ∃ p o l, pol = [p, o, l] ∧ (p = 'P' ∨ p = 'p') ∧ (o = 'O' ∨ o = 'o') ∧ (l = 'L' ∨ l = 'l') := by
  unfold SpellsPolicy at h
  cases h with
  | cons hp h =>
    cases h with
    | cons ho h =>
      cases h with
      | cons hl h =>
        cases h
        exact ⟨_, _, _, rfl, sameLetter_cases (by decide) hp, sameLetter_cases (by decide) ho,
          sameLetter_cases (by decide) hl⟩

theorem SpellsPolicy.length {pol : Text} (h : SpellsPolicy pol) : pol.length = 3 :=
  (List.Forall₂.length_eq h).symm

theorem canonicalNumber_append (s t : Text) :
    canonicalNumber (s ++ t) = canonicalNumber s ++ canonicalNumber t := by
  simp [canonicalNumber, Text.upper]

theorem canonicalNumber_letters {pol : Text} (h : SpellsPolicy pol) :
    canonicalNumber pol = policyLetters := by
  obtain ⟨p, o, l, rfl, hp, ho, hl⟩ := h.cases
  rcases hp with rfl | rfl <;> rcases ho with rfl | rfl <;> rcases hl with rfl | rfl <;> rfl

theorem canonicalNumber_separator {c : Char} (h : isPlainSeparator c = true) :
    canonicalNumber [c] = ['-'] := by
  have hmap : (if isSpace c then '-' else c) = '-' := by
    by_cases hspace : isSpace c = true
    · exact if_pos hspace
    · rw [if_neg hspace]
      rw [Bool.not_eq_true] at hspace
      rw [isPlainSeparator, hspace, Bool.or_false] at h
      exact eq_of_beq h
  simp only [canonicalNumber, List.map_cons, List.map_nil, hmap]
  rfl

theorem canonicalNumber_digits {digits : Text} (h : digits.all isDigit = true) :
    canonicalNumber digits = digits := by
  unfold canonicalNumber Text.upper
  rw [List.map_map]
  refine (List.map_congr_left fun c hc => ?_).trans (List.map_id _)
  have hdigit := List.all_eq_true.mp h c hc
  rw [Function.comp_apply, isSpace_of_isDigit hdigit, if_neg Bool.false_ne_true,
    upperChar_of_isDigit hdigit]
  rfl

theorem isDigit_of_isPlainSeparator {c : Char} (h : isPlainSeparator c = true) :
    isDigit c = false := by
  cases hdigit : isDigit c with
  | false => rfl
  | true =>
    rw [isPlainSeparator, isSpace_of_isDigit hdigit, Bool.or_false] at h
    rw [eq_of_beq h] at hdigit
    revert hdigit
    decide

/-! ## What the scanner reads -/

/-- The parts of what `_POLICY_RE` matches. -/
structure PolicyRun (pol sep digits : Text) : Prop where
  spelled : SpellsPolicy pol
  separator : sep = [] ∨ ∃ c, sep = [c] ∧ isPlainSeparator c = true
  length_digits : digits.length = 4
  all_digits : digits.all isDigit = true

theorem mem_run_policyPattern {w v : Way} : v ∈ policyPattern.run w ↔
    ∃ pol sep digits, PolicyRun pol sep digits ∧
      w.cursor.Passes v.cursor (pol ++ (sep ++ digits)) ∧ v.groups = w.groups := by
  have hseq : v ∈ policyPattern.run w ↔ ∃ u, u ∈ (litI "POL").run w ∧ ∃ x,
      x ∈ (rep true 0 (some 1) (char isPlainSeparator)).run u ∧
        v ∈ (rep true 4 (some 4) (char isDigit)).run x := by
    unfold policyPattern
    rw [cat, mem_run_seq]
    · simp only [cat, mem_run_seq]
      rfl
    · exact nofun
  rw [hseq]
  constructor
  · rintro ⟨u, hu, x, hx, hv⟩
    obtain ⟨pol, hpol, hpasses, hgroups⟩ := mem_run_litI.mp hu
    obtain ⟨sep, hsep, hpasses', hgroups'⟩ := mem_run_rep_char.mp hx
    obtain ⟨digits, hdigits, hpasses'', hgroups''⟩ := mem_run_rep_char.mp hv
    refine ⟨pol, sep, digits, ⟨hpol, ?_, ?_, hdigits.all⟩,
      hpasses.trans (hpasses'.trans hpasses''), hgroups''.trans (hgroups'.trans hgroups)⟩
    · have hlength := hsep.atMost 1 rfl
      cases sep with
      | nil => exact .inl rfl
      | cons c rest =>
        have hnil : rest = [] := List.eq_nil_of_length_eq_zero (by
          rw [List.length_cons] at hlength
          omega)
        subst hnil
        exact .inr ⟨c, rfl, by simpa using hsep.all⟩
    · exact Nat.le_antisymm (hdigits.atMost 4 rfl) hdigits.atLeast
  · rintro ⟨pol, sep, digits, ⟨hpol, hsep, hlength, hdigits⟩, hpasses, hgroups⟩
    have hahead : w.cursor.after = pol ++ (sep ++ (digits ++ v.cursor.after)) := by
      rw [hpasses.1]
      simp only [List.append_assoc]
    let c₁ : Cursor := ⟨pol.reverse ++ w.cursor.before, sep ++ (digits ++ v.cursor.after)⟩
    let c₂ : Cursor := ⟨sep.reverse ++ c₁.before, digits ++ v.cursor.after⟩
    refine ⟨⟨c₁, w.groups⟩, mem_run_litI.mpr ⟨pol, hpol, ⟨hahead, rfl⟩, rfl⟩, ⟨c₂, w.groups⟩,
      mem_run_rep_char.mpr ⟨sep, ?_, ⟨rfl, rfl⟩, rfl⟩,
      mem_run_rep_char.mpr ⟨digits, ⟨hlength.ge, ?_, hdigits⟩, ⟨rfl, ?_⟩, hgroups⟩⟩
    · rcases hsep with rfl | ⟨c, rfl, hc⟩
      · exact ⟨Nat.zero_le _, fun _ _ => Nat.zero_le _, rfl⟩
      · refine ⟨Nat.zero_le _, fun n hn => ?_, ?_⟩
        · cases hn
          exact Nat.le_refl 1
        · rw [List.all_cons, hc]
          rfl
    · intro n hn
      cases hn
      exact hlength.le
    · rw [hpasses.2]
      simp only [c₂, c₁, List.reverse_append, List.append_assoc]

/-- A text is read in one way only. -/
theorem PolicyRun.unique {pol pol' sep sep' digits digits' rest rest' : Text}
    (h : PolicyRun pol sep digits) (h' : PolicyRun pol' sep' digits')
    (heq : pol ++ (sep ++ digits) ++ rest = pol' ++ (sep' ++ digits') ++ rest') :
    pol = pol' ∧ sep = sep' ∧ digits = digits' := by
  simp only [List.append_assoc] at heq
  obtain ⟨rfl, hrest⟩ := List.append_inj heq (h.spelled.length.trans h'.spelled.length.symm)
  have first : ∀ {digits : Text}, digits.length = 4 → digits.all isDigit = true →
      ∃ d tail, digits = d :: tail ∧ isDigit d = true := by
    intro digits hlength hall
    cases digits with
    | nil => cases hlength
    | cons d tail => exact ⟨d, tail, rfl, (Bool.and_eq_true_iff.mp hall).1⟩
  -- what follows the letters is a digit exactly if there is no separator
  have hsep : sep = sep' := by
    obtain ⟨d, tail, hd, hdigit⟩ := first h.length_digits h.all_digits
    obtain ⟨d', tail', hd', hdigit'⟩ := first h'.length_digits h'.all_digits
    rcases h.separator with rfl | ⟨c, rfl, hc⟩ <;> rcases h'.separator with rfl | ⟨c', rfl, hc'⟩
    · rfl
    · rw [hd] at hrest
      rw [(List.cons.inj hrest).1, isDigit_of_isPlainSeparator hc'] at hdigit
      cases hdigit
    · rw [hd'] at hrest
      rw [← (List.cons.inj hrest).1, isDigit_of_isPlainSeparator hc] at hdigit'
      cases hdigit'
    · rw [(List.cons.inj hrest).1]
  subst hsep
  have hdigits := List.append_cancel_left hrest
  exact ⟨rfl, rfl, (List.append_inj hdigits (h.length_digits.trans h'.length_digits.symm)).1⟩

theorem PolicyRun.canonicalNumber {pol sep digits : Text} (h : PolicyRun pol sep digits) :
    canonicalNumber (pol ++ (sep ++ digits)) =
      if sep = [] then policyLetters ++ digits else canonicalForm digits := by
  rw [canonicalNumber_append, canonicalNumber_append, canonicalNumber_letters h.spelled,
    canonicalNumber_digits h.all_digits]
  rcases h.separator with rfl | ⟨c, rfl, hc⟩
  · rfl
  · rw [canonicalNumber_separator hc]
    rfl

theorem policyPattern_solid : policyPattern.Solid := ((Solid.char _).seq _).seq _

theorem policyPattern_solitary : Solid.Solitary policyPattern (sameLetter 'P') := by
  intro c m hm
  obtain ⟨pol, sep, digits, h, hpasses, -⟩ := mem_run_policyPattern.mp (matchAt_mem hm)
  have htext : m.text = pol ++ (sep ++ digits) :=
    (matchAt_passes hm).upTo.symm.trans hpasses.upTo
  obtain ⟨p, o, l, rfl, hp, ho, hl⟩ := h.spelled.cases
  refine ⟨p, o :: l :: (sep ++ digits), htext, by rcases hp with rfl | rfl <;> decide, ?_⟩
  have other : ∀ x, isDigit x = true ∨ isPlainSeparator x = true → sameLetter 'P' x = false := by
    intro x hx
    cases hletter : sameLetter 'P' x with
    | false => rfl
    | true =>
      rcases sameLetter_cases (by decide) hletter with rfl | rfl <;> revert hx <;> decide
  simp only [List.any_cons, List.any_append, Bool.or_eq_false_iff]
  refine ⟨by rcases ho with rfl | rfl <;> decide, by rcases hl with rfl | rfl <;> decide, ?_, ?_⟩
  · rw [List.any_eq_false]
    intro x hx
    rcases h.separator with rfl | ⟨c, rfl, hc⟩
    · cases hx
    · rw [List.mem_singleton.mp hx, other c (.inr hc)]
      exact Bool.false_ne_true
  · rw [List.any_eq_false]
    intro x hx
    rw [other x (.inl (List.all_eq_true.mp h.all_digits x hx))]
    exact Bool.false_ne_true

/-- **What the scanner makes of a text**: a number in canonical form for each one written out, and
the letters and the digits alone for each one that runs together. -/
theorem mem_policyNumbersIn {n text : Text} : n ∈ policyNumbersIn text ↔
    ∃ digits, (WritesOut text digits ∧ n = canonicalForm digits) ∨
      (RunsTogether text digits ∧ n = policyLetters ++ digits) := by
  have reads : ∀ {pol sep digits before after : Text}, PolicyRun pol sep digits →
      text = before ++ (pol ++ (sep ++ (digits ++ after))) →
        OmniCare.canonicalNumber (pol ++ (sep ++ digits)) ∈ policyNumbersIn text := by
    intro pol sep digits before after h htext
    have hway : (⟨⟨(pol ++ (sep ++ digits)).reverse ++ before.reverse, after⟩, []⟩ : Way) ∈
        policyPattern.run ⟨⟨before.reverse, pol ++ (sep ++ (digits ++ after))⟩, []⟩ :=
      mem_run_policyPattern.mpr ⟨pol, sep, digits, h, ⟨by simp, rfl⟩, rfl⟩
    obtain ⟨m, hm⟩ := exists_matchAt hway
    obtain ⟨pol', sep', digits', h', hpasses, -⟩ := mem_run_policyPattern.mp (matchAt_mem hm)
    have hmtext : m.text = pol' ++ (sep' ++ digits') :=
      (matchAt_passes hm).upTo.symm.trans hpasses.upTo
    obtain ⟨rfl, rfl, rfl⟩ := @PolicyRun.unique _ _ _ _ _ _ after m.way.cursor.after h h'
      (by rw [← hpasses.1]; simp)
    refine List.mem_map.mpr ⟨m.text, List.mem_map.mpr ⟨m, ?_, rfl⟩, by rw [hmtext]⟩
    exact (policyPattern_solid.mem_finditer_iff policyPattern_solitary).mpr
      ⟨before, _, htext, hm⟩
  constructor
  · intro hn
    obtain ⟨t, ht, rfl⟩ := List.mem_map.mp hn
    obtain ⟨m, hm, rfl⟩ := List.mem_map.mp ht
    obtain ⟨before, after, htext, hm⟩ :=
      (policyPattern_solid.mem_finditer_iff policyPattern_solitary).mp hm
    obtain ⟨pol, sep, digits, h, hpasses, -⟩ := mem_run_policyPattern.mp (matchAt_mem hm)
    have hmtext : m.text = pol ++ (sep ++ digits) :=
      (matchAt_passes hm).upTo.symm.trans hpasses.upTo
    have hat : NumberAt text sep digits m.way.cursor.after := by
      refine ⟨⟨before, pol, ?_, h.spelled⟩, h.length_digits, h.all_digits⟩
      rw [htext]
      have hafter : after = _ := hpasses.1
      rw [hafter]
      simp only [List.append_assoc]
    rw [hmtext, h.canonicalNumber]
    rcases h.separator with rfl | ⟨c, rfl, hc⟩
    · exact ⟨digits, .inr ⟨⟨_, hat⟩, if_pos rfl⟩⟩
    · exact ⟨digits, .inl ⟨⟨c, _, hat, hc⟩, if_neg nofun⟩⟩
  · rintro ⟨digits, ⟨⟨c, after, ⟨⟨before, pol, htext, hpol⟩, hlength, hdigits⟩, hc⟩, rfl⟩ |
      ⟨⟨after, ⟨⟨before, pol, htext, hpol⟩, hlength, hdigits⟩⟩, rfl⟩⟩
    · have h : PolicyRun pol [c] digits := ⟨hpol, .inr ⟨c, rfl, hc⟩, hlength, hdigits⟩
      have hmem := reads h htext
      rwa [h.canonicalNumber, if_neg nofun] at hmem
    · have h : PolicyRun pol [] digits := ⟨hpol, .inl rfl, hlength, hdigits⟩
      have hmem := reads h htext
      rwa [h.canonicalNumber, if_pos rfl] at hmem

/-! ## What somebody gave -/

/-- The number a human message speaks, in canonical form. -/
def spokenNumber (text : Text) : Option Text :=
  (normalizePolicyNumber text).map fun spoken => Text.upper (Text.strip spoken)

/-- A human message of the conversation, or the result of a tool of this turn, says something. -/
def AgentState.Hears (s : AgentState) (human tool : Text → Prop) : Prop :=
  (∃ text ∈ humanTexts s.messages, human text) ∨
    ∃ invocation ∈ s.toolInvocations, tool (Json.repr (.obj invocation.result))

/-- The policyholder stated the number, or a tool returned it. -/
def AgentState.Gave (s : AgentState) (digits : Text) : Prop :=
  s.Hears (fun text => spokenNumber text = some (canonicalForm digits) ∨ Mentions text digits)
    fun text => Mentions text digits

/-- **The answer mentions a policy number that nobody gave.** -/
def AgentState.Invents (s : AgentState) (text : Text) : Prop :=
  ∃ digits, Mentions text digits ∧ ¬ s.Gave digits

/-- The scanner reads the number, written out, in what somebody said. -/
def AgentState.ReadOut (s : AgentState) (digits : Text) : Prop :=
  s.Hears (fun text => spokenNumber text = some (canonicalForm digits) ∨ WritesOut text digits)
    fun text => WritesOut text digits

/-- The letters and the digits run together in what somebody said. -/
def AgentState.ReadTogether (s : AgentState) (digits : Text) : Prop :=
  s.Hears (fun text => RunsTogether text digits) fun text => RunsTogether text digits

theorem normalizePolicyNumber_form {text n : Text} (h : normalizePolicyNumber text = some n) :
    ∃ rest, n = canonicalForm rest := by
  unfold normalizePolicyNumber canonicalize at h
  dsimp only at h
  split at h
  · cases h
    exact ⟨_, rfl⟩
  · split at h
    · cases h
    · split at h
      · cases h
        exact ⟨_, rfl⟩
      · cases h

/-- A spoken number has its hyphen. -/
theorem spokenNumber_form {text n : Text} (h : spokenNumber text = some n) :
    ∃ rest, n = canonicalForm rest := by
  obtain ⟨spoken, hspoken, rfl⟩ := Option.map_eq_some_iff.mp h
  obtain ⟨digits, rfl⟩ := normalizePolicyNumber_form hspoken
  obtain ⟨rest, hstrip, -⟩ :=
    stripBy_append_cons (p := isSpace) (a := policyLetters) (b := digits) (c := '-') (by decide)
      (by decide)
  rw [Text.strip, canonicalForm, hstrip]
  exact ⟨Text.upper rest, rfl⟩

theorem canonicalForm_injective {digits digits' : Text}
    (h : canonicalForm digits = canonicalForm digits') : digits = digits' :=
  (List.cons.inj (List.append_cancel_left h)).2

/-- The digits of a number do not begin with the hyphen. -/
theorem canonicalForm_ne {digits digits' : Text} (h : digits'.all isDigit = true) :
    canonicalForm digits ≠ policyLetters ++ digits' := by
  intro heq
  have hdigits : '-' :: digits = digits' := List.append_cancel_left heq
  rw [← hdigits, List.all_cons, Bool.and_eq_true] at h
  exact absurd h.1 (by decide)

theorem canonicalForm_mem_policyNumbersIn {text digits : Text} :
    canonicalForm digits ∈ policyNumbersIn text ↔ WritesOut text digits := by
  rw [mem_policyNumbersIn]
  constructor
  · rintro ⟨digits', ⟨h, heq⟩ | ⟨⟨after, h⟩, heq⟩⟩
    · rw [canonicalForm_injective heq]
      exact h
    · exact absurd heq (canonicalForm_ne h.all_digits)
  · intro h
    exact ⟨digits, .inl ⟨h, rfl⟩⟩

theorem together_mem_policyNumbersIn {text digits : Text} (hdigits : digits.all isDigit = true) :
    policyLetters ++ digits ∈ policyNumbersIn text ↔ RunsTogether text digits := by
  rw [mem_policyNumbersIn]
  constructor
  · rintro ⟨digits', ⟨-, heq⟩ | ⟨h, heq⟩⟩
    · exact absurd heq.symm (canonicalForm_ne hdigits)
    · rw [List.append_cancel_left heq]
      exact h
  · intro h
    exact ⟨digits, .inr ⟨h, rfl⟩⟩

/-- The numbers that `ground` takes for given. -/
def AgentState.givenNumbers (s : AgentState) : List Text :=
  policyNumbersStated s.messages ++ policyNumbersFromTools s.toolInvocations

theorem mem_givenNumbers {s : AgentState} {n : Text} : n ∈ s.givenNumbers ↔
    s.Hears (fun text => spokenNumber text = some n ∨ n ∈ policyNumbersIn text)
      fun text => n ∈ policyNumbersIn text := by
  unfold AgentState.givenNumbers AgentState.Hears policyNumbersStated policyNumbersFromTools
  simp only [List.mem_append, List.mem_flatMap, Option.mem_toList, spokenNumber]

theorem canonicalForm_mem_givenNumbers {s : AgentState} {digits : Text} :
    canonicalForm digits ∈ s.givenNumbers ↔ s.ReadOut digits := by
  rw [mem_givenNumbers]
  simp only [canonicalForm_mem_policyNumbersIn]
  rfl

theorem together_mem_givenNumbers {s : AgentState} {digits : Text}
    (hdigits : digits.all isDigit = true) :
    policyLetters ++ digits ∈ s.givenNumbers ↔ s.ReadTogether digits := by
  have hspoken : ∀ text, spokenNumber text ≠ some (policyLetters ++ digits) := by
    intro text h
    obtain ⟨rest, heq⟩ := spokenNumber_form h
    exact canonicalForm_ne hdigits heq.symm
  rw [mem_givenNumbers]
  simp only [together_mem_policyNumbersIn hdigits, hspoken, false_or]
  rfl

/-- The answer has a number in a spelling that the scanner reads, and that it has read in nothing
that somebody said. -/
def AgentState.Unread (s : AgentState) (text digits : Text) : Prop :=
  (WritesOut text digits ∧ ¬ s.ReadOut digits) ∨
    (RunsTogether text digits ∧ ¬ s.ReadTogether digits)

theorem inventsPolicyNumber_iff {s : AgentState} {text : Text} :
    inventsPolicyNumber s text = true ↔ ∃ digits, s.Unread text digits := by
  have hany : inventsPolicyNumber s text = true ↔
      ∃ n ∈ policyNumbersIn text, n ∉ s.givenNumbers := by
    unfold inventsPolicyNumber
    rw [List.any_eq_true]
    simp only [Bool.not_eq_true', List.contains_eq_mem, decide_eq_false_iff_not]
    rfl
  rw [hany]
  constructor
  · rintro ⟨n, hn, hunknown⟩
    obtain ⟨digits, ⟨h, rfl⟩ | ⟨⟨after, h⟩, rfl⟩⟩ := mem_policyNumbersIn.mp hn
    · exact ⟨digits, .inl ⟨h, fun hread => hunknown (canonicalForm_mem_givenNumbers.mpr hread)⟩⟩
    · exact ⟨digits, .inr ⟨⟨after, h⟩,
        fun hread => hunknown ((together_mem_givenNumbers h.all_digits).mpr hread)⟩⟩
  · rintro ⟨digits, ⟨h, hread⟩ | ⟨⟨after, h⟩, hread⟩⟩
    · exact ⟨_, canonicalForm_mem_policyNumbersIn.mpr h,
        fun hmem => hread (canonicalForm_mem_givenNumbers.mp hmem)⟩
    · exact ⟨_, (together_mem_policyNumbersIn h.all_digits).mpr ⟨after, h⟩,
        fun hmem => hread ((together_mem_givenNumbers h.all_digits).mp hmem)⟩

/-! ## When the two agree -/

/-- A number that nobody gave is found out. -/
structure AgentState.Caught (s : AgentState) (text digits : Text) : Prop where
  mentioned : Mentions text digits
  nobody : ¬ s.Gave digits
  unread : s.Unread text digits

/-- The scanner does not know a number that somebody gave, in a spelling it does not read or run
together, or takes the beginning of a longer run of digits for a number. -/
structure AgentState.Misread (s : AgentState) (text digits : Text) : Prop where
  unread : s.Unread text digits
  innocent : Mentions text digits → s.Gave digits

/-- A number that nobody gave is spelled in the answer in no way that the scanner reads, or what
somebody said has a longer run of digits that begins with it. -/
structure AgentState.Overlooked (s : AgentState) (text digits : Text) : Prop where
  mentioned : Mentions text digits
  nobody : ¬ s.Gave digits
  writtenOut : WritesOut text digits → s.ReadOut digits
  together : RunsTogether text digits → s.ReadTogether digits

/-- Every policy number of a text stands behind a plain hyphen or a space, and no further digit
follows it. -/
def PlainNumbers (text : Text) : Prop :=
  ∀ sep digits after, NumberAt text sep digits after →
    (sep = [] ∨ ∃ c, sep = [c] ∧ isSeparator c = true) →
      (∃ c, sep = [c] ∧ isPlainSeparator c = true) ∧ after.head?.any isDigit = false

theorem isSeparator_of_plain {c : Char} (h : isPlainSeparator c = true) : isSeparator c = true := by
  rw [isPlainSeparator, Bool.or_eq_true] at h
  rcases h with h | h
  · rw [eq_of_beq h]
    decide
  · have hplain : isSpace (plainCharacter c) = true := by
      unfold plainCharacter
      split
      all_goals first
        | exact h
        | rename_i hcode
          rw [← Char.ofNat_toNat c, hcode] at h
          revert h
          decide
    rw [isSeparator, hplain, Bool.or_true]

theorem PlainNumbers.mentions_iff {text : Text} (h : PlainNumbers text) {digits : Text} :
    (Mentions text digits ↔ WritesOut text digits) ∧ ¬ RunsTogether text digits := by
  refine ⟨⟨fun ⟨sep, after, hat, hsep, _⟩ => ?_, fun ⟨c, after, hat, hc⟩ => ?_⟩,
    fun ⟨after, hat⟩ => ?_⟩
  · obtain ⟨⟨c, rfl, hc⟩, -⟩ := h sep digits after hat hsep
    exact ⟨c, after, hat, hc⟩
  · have hsep : [c] = [] ∨ ∃ d, [c] = [d] ∧ isSeparator d = true :=
      .inr ⟨c, rfl, isSeparator_of_plain hc⟩
    exact ⟨[c], after, hat, hsep, (h _ _ _ hat hsep).2⟩
  · obtain ⟨⟨c, hnil, -⟩, -⟩ := h _ _ _ hat (.inl rfl)
    cases hnil

/-- **Where all policy numbers are plain, none is misread and none is overlooked.** -/
theorem no_disagreement_of_plain {s : AgentState} {text : Text} (htext : PlainNumbers text)
    (hhuman : ∀ t ∈ humanTexts s.messages, PlainNumbers t)
    (htools : ∀ i ∈ s.toolInvocations, PlainNumbers (Json.repr (.obj i.result)))
    (digits : Text) : ¬ s.Misread text digits ∧ ¬ s.Overlooked text digits := by
  have hsame : s.Gave digits ↔ s.ReadOut digits := by
    refine or_congr (exists_congr fun t => and_congr_right fun ht => ?_)
      (exists_congr fun i => and_congr_right fun hi => ?_)
    · exact or_congr_right (hhuman t ht).mentions_iff.1
    · exact (htools i hi).mentions_iff.1
  obtain ⟨hmentions, hnever⟩ := @PlainNumbers.mentions_iff text htext digits
  constructor
  · rintro ⟨⟨hout, hread⟩ | ⟨htogether, -⟩, hinnocent⟩
    · exact hread (hsame.mp (hinnocent (hmentions.mpr hout)))
    · exact hnever htogether
  · rintro ⟨hmentioned, hnobody, hout, -⟩
    exact hnobody (hsame.mpr (hout (hmentions.mp hmentioned)))

/-- `ground` puts the demand for a policy number in the place of an answer. -/
def AgentState.Demanded (s : AgentState) (text : Text) : Prop :=
  (∃ i, finalAnswer (groundNode s).messages = some (i, policyNumberDemand)) ∧
    s.kept text ≠ policyNumberDemand

theorem citationHead_needs_section : citationHead.Needs (· == '§') :=
  (needs_lit (by decide) (by decide)).first.second.second.second

theorem policyPattern_needs_digit : policyPattern.Needs isDigit := by
  intro w v hv
  obtain ⟨pol, sep, digits, h, hpasses, -⟩ := mem_run_policyPattern.mp hv
  have hdigits : digits.any isDigit = true := by
    cases digits with
    | nil => cases h.length_digits
    | cons d rest =>
      rw [List.any_cons, (Bool.and_eq_true_iff.mp h.all_digits).1, Bool.true_or]
  rw [hpasses.1]
  simp [hdigits]

/-- A text without digits has no policy numbers. -/
theorem policyNumbersIn_of_no_digit {text : Text} (h : text.all (fun c => !isDigit c) = true) :
    policyNumbersIn text = [] := by
  rw [policyNumbersIn, findall, policyPattern_needs_digit.finditer_eq_nil ?_, List.map_nil,
    List.map_nil]
  rw [List.any_eq_not_all_not, h, Bool.not_true]

/-- Where no citation can begin, taking things out of a text leaves its characters and spaces. -/
theorem all_remaining (s : AgentState) {text : Text} {p : Char → Bool} (hp : p ' ' = true)
    (hsection : text.any (· == '§') = false) (h : text.all p = true) :
    (s.remaining text).all p = true := by
  have hspans : citationSpans text s.validCitations = [] := by
    rw [citationSpans, citationHead_needs_section.finditer_eq_nil hsection, List.map_nil]
  rw [AgentState.remaining, hspans]
  exact all_dropFalseComparisons (all_withoutInvented hp h)

/-- The demand itself has no policy number in it. -/
theorem remaining_policyNumberDemand (s : AgentState) :
    inventsPolicyNumber s (s.remaining policyNumberDemand) = false := by
  have hclean : (s.remaining policyNumberDemand).all (fun c => !isDigit c) = true :=
    all_remaining s (by decide) (by decide +kernel) (by decide +kernel)
  rw [inventsPolicyNumber, policyNumbersIn_of_no_digit hclean]
  rfl

theorem kept_ne_policyNumberDemand {s : AgentState} {text : Text}
    (h : inventsPolicyNumber s (s.remaining text) = true) : s.kept text ≠ policyNumberDemand := by
  intro hkept
  unfold AgentState.kept at hkept
  split at hkept
  · rw [hkept, remaining_policyNumberDemand] at h
    cases h
  · rw [hkept, inventsPolicyNumber, policyNumbersIn_of_no_digit (by decide +kernel)] at h
    cases h

theorem demanded_iff {s : AgentState} {i : Nat} {text : Text}
    (final : finalAnswer s.messages = some (i, text)) :
    s.Demanded text ↔ inventsPolicyNumber s (s.remaining text) = true := by
  have hground := groundNode_finalAnswer final
  constructor
  · rintro ⟨⟨j, hdemand⟩, hkept⟩
    by_contra hnot
    rw [Bool.not_eq_true] at hnot
    rw [hground, AgentState.groundedText, hnot, if_neg Bool.false_ne_true] at hdemand
    have htext := (Prod.mk.inj (Option.some.inj hdemand)).2
    split at htext
    · revert htext
      decide
    · exact hkept htext
  · intro h
    refine ⟨⟨i, ?_⟩, kept_ne_policyNumberDemand h⟩
    rw [hground, AgentState.groundedText, if_pos h]

/-- Without a letter of theirs, a text has no policy numbers. -/
theorem not_mentions_of_lacks {text digits : Text}
    (h : text.any (sameLetter 'P') = false) : ¬ Mentions text digits := by
  rintro ⟨sep, after, ⟨⟨before, pol, rfl, hpol⟩, -, -⟩, -⟩
  obtain ⟨p, o, l, rfl, hp, -, -⟩ := hpol.cases
  rw [List.any_append, Bool.or_eq_false_iff] at h
  have hletter : sameLetter 'P' p = true := by rcases hp with rfl | rfl <;> decide
  rw [List.cons_append, List.any_cons, hletter] at h
  cases h.2

/-- The state in which an answer to a question is grounded. -/
def groundedOn (answer : Text) : AgentState :=
  { messages := [.human "Am I covered?", .ai answer []] }

/-- The question states no policy number. -/
theorem groundedOn_gave (answer digits : Text) : ¬ (groundedOn answer).Gave digits := by
  rintro (⟨text, htext, hstated⟩ | ⟨_, hmem, -⟩)
  · rw [List.mem_singleton.mp htext] at hstated
    rcases hstated with hspoken | hmentions
    · have hnone : spokenNumber "Am I covered?" = none := by decide
      rw [hnone] at hspoken
      cases hspoken
    · exact not_mentions_of_lacks (by decide) hmentions
  · cases hmem

/-- A guessed number, written out. -/
def guessedAnswer : Text := "POL-1092 covers it."

/-- The same number with the hyphen that keeps a line from breaking there. -/
def typographicAnswer : Text := "POL\u20111092 covers it."

end OmniCare
