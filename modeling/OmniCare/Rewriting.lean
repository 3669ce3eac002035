import OmniCare.DirectForms
import OmniCare.Identifying
import OmniCare.Markers
import OmniCare.Verifying

/-! # Transcripts rewritten

`normalize_transcript` appends the identifiers that are heard, each in brackets behind the word for
its kind.  What both extractors look for stands in such a note, so what they take is followed
through a text with a note at its end: what is recognised in the text ends there (`Local`), and in
the note there are the cue and the canonical identifier of its own kind and nothing of the other.
The identifier is lost where `_words_to_digits` has read digits that `\d` does not take and nothing
but the short cue introduced it (`Unsteady`), because the note has the cue that is preferred.
**Otherwise the same is heard in the rewritten transcript** (`transcript_steady_iff`).
-/
namespace OmniCare

open Regex

/-! ## A note at the end -/

namespace IdKind

/-- What is appended for an identifier: ` (claim CLM-8821)`. -/
def note (kind : IdKind) (digits : Text) : Text :=
  " (".toList ++ kind.cue ++ [' '] ++ kind.identifier digits ++ [')']

/-- The note up to its digits. -/
def noteFront (kind : IdKind) : Text :=
  " (".toList ++ kind.cue ++ [' '] ++ Text.upper kind.pre ++ ['-']

/-- The note up to its digits, as it is heard: `(claim clm`. -/
def heardFront (kind : IdKind) : Text := '(' :: kind.cue ++ [' '] ++ kind.pre ++ [' ']

/-- The note as it is heard. -/
def heardNote (kind : IdKind) (digits : Text) : Text := kind.heardFront ++ (digits ++ [')'])

end IdKind

section Notes
variable {kind other : IdKind} {digits t : Text}

theorem note_eq (kind : IdKind) (digits : Text) :
    kind.note digits = kind.noteFront ++ (digits ++ [')']) := by
  simp [IdKind.note, IdKind.noteFront, IdKind.identifier]

theorem lower_note (kind : IdKind) (h : digits.all isDigitChar = true) :
    Text.lower (kind.note digits) = Text.lower kind.noteFront ++ (digits ++ [')']) := by
  have happend : ∀ a b : Text, Text.lower (a ++ b) = Text.lower a ++ Text.lower b :=
    fun a b => List.flatMap_append
  have hdigits : Text.lower digits = digits :=
    Text.lower_eq_self fun c hc => lowerChar_of_isDigitChar (List.all_eq_true.mp h c hc)
  rw [note_eq, happend, happend, hdigits]
  rfl

theorem softened_note (kind : IdKind) (h : digits.all isDigitChar = true) :
    softened (kind.note digits) = ' ' :: kind.heardNote digits := by
  have hdigits : digits.map (fun c => if c == '.' || c == '-' then ' ' else c) = digits := by
    refine (List.map_congr_left fun c hc => if_neg ?_).trans (List.map_id digits)
    have hc := List.all_eq_true.mp h c hc
    rw [Bool.or_eq_true, beq_iff_eq, beq_iff_eq]
    rintro (rfl | rfl) <;> exact absurd hc (by decide)
  have hfront : (Text.lower kind.noteFront).map (fun c => if c == '.' || c == '-' then ' ' else c) =
      ' ' :: kind.heardFront := by
    cases kind <;> decide
  rw [softened, lower_note kind h, List.map_append, List.map_append, hdigits, hfront]
  rfl

/-- The last word of a note. -/
theorem bracketed_plain (h : digits.all isDigitChar = true) :
    digits ++ [')'] ≠ [] ∧ (digits ++ [')']).any isSpace = false := by
  refine ⟨by simp, ?_⟩
  rw [List.any_append, Bool.or_eq_false_iff, List.any_eq_false]
  refine ⟨fun c hc => ?_, by decide⟩
  rw [isSpace_of_isWord (isWord_of_isDigitChar (List.all_eq_true.mp h c hc))]
  decide

theorem words_note (kind : IdKind) (h : digits.all isDigitChar = true) :
    Text.words (' ' :: kind.heardNote digits) =
      ['(' :: kind.cue, kind.pre, digits ++ [')']] := by
  have hlist : ' ' :: kind.heardNote digits =
      ['(' :: kind.cue, kind.pre, digits ++ [')']].flatMap (' ' :: ·) := by
    simp [IdKind.heardNote, IdKind.heardFront]
  rw [hlist, Text.words_spread]
  have hfront : ∀ w ∈ ['(' :: kind.cue, kind.pre], w ≠ [] ∧ w.any isSpace = false := by
    cases kind <;> decide
  intro w hw
  rw [List.mem_cons, List.mem_cons, List.mem_singleton] at hw
  rcases hw with rfl | rfl | rfl
  · exact hfront _ (by simp)
  · exact hfront _ (by simp)
  · exact bracketed_plain h

theorem lettered_note (kind : IdKind) (digits : Text) :
    ['(' :: kind.cue, kind.pre, digits ++ [')']].map lettered =
      ['(' :: kind.cue, kind.pre, digits ++ [')']] := by
  have hpre : lettered kind.pre = kind.pre := by cases kind <;> decide
  have hfirst : lettered ('(' :: kind.cue) = '(' :: kind.cue :=
    lettered_of_not_isWord (c := '(') (by simp) (by decide)
  have hlast : lettered (digits ++ [')']) = digits ++ [')'] :=
    lettered_of_not_isWord (c := ')') (by simp) (by decide)
  rw [List.map_cons, List.map_cons, List.map_singleton, hpre, hfirst, hlast]

/-- **What is heard with a note at the end.** -/
theorem joined_note (kind : IdKind) (h : digits.all isDigitChar = true) (t : Text) :
    joined (t ++ kind.note digits) =
      if joined t = [] then kind.heardNote digits
      else joined t ++ ' ' :: kind.heardNote digits := by
  have hwords : Text.words (softened (t ++ kind.note digits)) =
      Text.words (softened t) ++ ['(' :: kind.cue, kind.pre, digits ++ [')']] := by
    have hblank : (' ' :: kind.heardNote digits).head?.all isSpace = true :=
      (by decide : isSpace ' ' = true)
    rw [softened_append, softened_note kind h, Text.words_append_blank _ hblank, words_note kind h]
  have hheard : kind.heardNote digits =
      '(' :: kind.cue ++ [kind.pre, digits ++ [')']].flatMap (' ' :: ·) := by
    simp [IdKind.heardNote, IdKind.heardFront]
  rw [joined, hwords, List.map_append, lettered_note, join_around, joined, ← hheard]
  have hne : ∀ w ∈ (Text.words (softened t)).map lettered, w ≠ [] :=
    fun w hw => (heard_of_mem_words hw).1
  generalize (Text.words (softened t)).map lettered = ws at hne
  rcases List.eq_nil_or_concat ws with rfl | ⟨ws, w, rfl⟩
  · rfl
  · rw [List.concat_eq_append] at hne ⊢
    have hlast : w ≠ [] := hne w (by simp)
    have hjoin : Text.join [' '] (ws ++ [w]) = ws.flatMap (· ++ [' ']) ++ w := by
      rw [join_around, List.flatMap_nil, List.append_nil]
    rw [hjoin, if_neg (by simp [hlast]), List.flatMap_append, List.flatMap_singleton]
    simp

/-! ## What is found with a note at the end -/

/-- What is recognised does not reach into a note. -/
structure Local (f : Bool → Text → Option Text) : Prop where
  blank : ∀ inWord s, f inWord (' ' :: s) = none
  append : ∀ inWord b z, b ≠ [] →
    f inWord (b ++ ' ' :: '(' :: z) = (f inWord b).map (· ++ ' ' :: '(' :: z)

/-- The text before a note is searched before it. -/
theorem Local.firstTail_note {f : Bool → Text → Option Text} (hf : Local f) (kind : IdKind)
    (h : digits.all isDigitChar = true) (t : Text) :
    firstTail f false (joined (t ++ kind.note digits)) =
      ((firstTail f false (joined t)).map (· ++ ' ' :: kind.heardNote digits)).or
        (firstTail f false (kind.heardNote digits)) := by
  obtain ⟨z, hz⟩ : ∃ z, kind.heardNote digits = '(' :: z := ⟨_, rfl⟩
  rw [joined_note kind h, hz]
  split
  · rename_i hnil
    rw [hnil]
    exact (Option.none_or ..).symm
  · have hspace : isWord ' ' = false := by decide
    rw [firstTail_append fun a b _ hb inWord => hf.append inWord b _ hb, firstTail, hf.blank,
      Option.none_or, hspace]

/-- A literal text without a bracket, whose first and last characters are no blanks. -/
structure Literal (same : Char → Char → Bool) (p : Text) : Prop where
  ne : p ≠ []
  bracket : ∀ a ∈ p, same a '(' = false
  first : ∀ a ∈ p.head?, same a ' ' = false
  last : ∀ a ∈ p.getLast?, same a ' ' = false

namespace Literal
variable {same : Char → Char → Bool} {p : Text} (hp : Literal same p)
include hp

theorem dropBy_blank (s : Text) : dropBy same p (' ' :: s) = none := by
  obtain ⟨a, p, rfl⟩ := List.exists_cons_of_ne_nil hp.ne
  exact dropBy_of_head (hp.first a rfl)

theorem dropBy_note (b z : Text) :
    dropBy same p (b ++ ' ' :: '(' :: z) = (dropBy same p b).map (· ++ ' ' :: '(' :: z) := by
  have hstep := @dropBy_append same '(' p (b ++ [' ']) z (by simp)
    fun a ha => hp.bracket a (List.mem_of_mem_tail ha)
  rw [dropBy_concat hp.ne hp.last, Option.map_map, List.append_assoc] at hstep
  rw [show b ++ ' ' :: '(' :: z = b ++ ([' '] ++ '(' :: z) from rfl, hstep]
  congr 1
  funext rest
  simp

theorem found_local : Local fun _ => dropBy same p :=
  ⟨fun _ => hp.dropBy_blank, fun _ b z _ => hp.dropBy_note b z⟩

end Literal

theorem Literal.asWord_local {p : Text} (hp : Literal sameLetter p) : Local (Regex.asWord p) := by
  constructor
  · intro inWord s
    rw [Regex.asWord, hp.dropBy_blank]
    split <;> rfl
  · intro inWord b z _
    unfold Regex.asWord
    split
    · rfl
    · rw [hp.dropBy_note]
      cases dropBy sameLetter p b with
      | none => rfl
      | some rest =>
        rw [Option.map_some, Option.filter_some, Option.filter_some]
        cases rest with
        | nil => rfl
        | cons c rest =>
          rw [List.cons_append, List.head?_cons, List.head?_cons]
          split <;> rfl

/-- The cues of both kinds, and their letters, are such texts. -/
theorem literal_cues (kind : IdKind) : ∀ cue ∈ kind.cues, Literal (· == ·) cue := by
  have hall : ∀ cue ∈ kind.cues, cue ≠ [] ∧ (∀ a ∈ cue, (a == '(') = false) ∧
      (∀ a ∈ cue.head?, (a == ' ') = false) ∧ ∀ a ∈ cue.getLast?, (a == ' ') = false := by
    cases kind <;> decide
  intro cue hcue
  obtain ⟨hne, hbracket, hfirst, hlast⟩ := hall cue hcue
  exact ⟨hne, hbracket, hfirst, hlast⟩

theorem literal_spelled (kind : IdKind) : Literal sameLetter kind.spelled := by
  cases kind <;> exact ⟨by decide, by decide, by decide, by decide⟩

/-! ## What a note has -/

/-- A digit is neither of the first letters of a prefix. -/
theorem sameLetter_of_isDigitChar {a c : Char} (ha : a ∈ "PC".toList)
    (hc : isDigitChar c = true) : sameLetter a c = false := by
  have hlow : ∀ a ∈ "PC".toList, a.toNat < 128 := by decide
  by_cases hascii : c.toNat < 128
  · have hall : ∀ n < 128, isDigitChar (Char.ofNat n) = true → ∀ a ∈ "PC".toList,
        sameLetter a (Char.ofNat n) = false := by decide +kernel
    exact forall_ascii (P := fun c => isDigitChar c = true → ∀ a ∈ "PC".toList,
      sameLetter a c = false) hall hascii hc a ha
  · rw [sameLetter, if_neg hascii]
    have hother : ∀ n : Nat, c.toNat = n → isDigitChar (Char.ofNat n) = true := by
      rintro n rfl
      rwa [Char.ofNat_toNat]
    split
    · rename_i heq
      exact absurd (hother _ heq) (by decide)
    · rename_i heq
      exact absurd (hother _ heq) (by decide)
    · rename_i heq
      exact absurd (hother _ heq) (by decide)
    · rename_i heq
      exact absurd (hother _ heq) (by decide)
    · rw [beq_eq_false_iff_ne]
      rintro rfl
      exact hascii (hlow a ha)

/-- A text that differs from the note wherever it could begin is not in it. -/
theorem firstTail_heardNote {f : Bool → Text → Option Text} {same : Char → Char → Bool} {a : Char}
    {p : Text} (hf : ∀ inWord s, dropBy same (a :: p) s = none → f inWord s = none)
    (hclash : ∀ s ∈ kind.heardFront.tails, s ≠ [] → clashes same (a :: p) s = true)
    (hdigits : ∀ c, isDigitChar c = true → same a c = false) (hbracket : same a ')' = false)
    (h : digits.all isDigitChar = true) : firstTail f false (kind.heardNote digits) = none := by
  have hskip : ∀ c ∈ digits ++ [')'], ∀ inWord s, f inWord (c :: s) = none := by
    intro c hc inWord s
    refine hf inWord _ (dropBy_of_head ?_)
    rcases List.mem_append.mp hc with hc | hc
    · exact hdigits c (List.all_eq_true.mp h c hc)
    · rw [List.mem_singleton.mp hc, hbracket]
  rw [IdKind.heardNote, firstTail_clear hf hclash, ← List.append_nil (digits ++ [')']),
    firstTail_skip hskip]
  rfl

theorem asWord_of_dropBy {p s : Text} (inWord : Bool) (h : dropBy sameLetter p s = none) :
    Regex.asWord p inWord s = none := by
  rw [Regex.asWord, h]
  split <;> rfl

/-- The letters of a prefix do not stand one by one in a note. -/
theorem letterwise_heardNote (kind other : IdKind) (h : digits.all isDigitChar = true) :
    firstTail (Regex.asWord kind.spelled) false (other.heardNote digits) = none := by
  obtain ⟨a, p, hp, ha, hclash, hbracket⟩ : ∃ a p, kind.spelled = a :: p ∧ a ∈ "PC".toList ∧
      (∀ s ∈ other.heardFront.tails, s ≠ [] → clashes sameLetter (a :: p) s = true) ∧
      sameLetter a ')' = false := by
    cases kind <;> cases other <;>
      exact ⟨_, _, rfl, by decide, by decide, by decide⟩
  rw [hp]
  exact firstTail_heardNote (fun inWord _ => asWord_of_dropBy inWord) hclash
    (fun c hc => sameLetter_of_isDigitChar ha hc) hbracket h

/-- A cue that differs from the note wherever it could begin is not in it. -/
theorem afterFirst_heardNote {cue : Text} (hne : cue ≠ []) (hfirst : cue.headD ' ' ∈ "pc".toList)
    (hclash : ∀ s ∈ kind.heardFront.tails, s ≠ [] → clashes (· == ·) cue s = true)
    (h : digits.all isDigitChar = true) : afterFirst cue (kind.heardNote digits) = none := by
  obtain ⟨a, p, rfl⟩ := List.exists_cons_of_ne_nil hne
  have hletter : ∀ a ∈ "pc".toList, isDigitChar a = false ∧ (a == ')') = false := by decide
  rw [afterFirst_eq hne _ false]
  refine firstTail_heardNote (fun _ _ hnone => hnone) hclash (fun c hc => ?_) (hletter a hfirst).2 h
  rw [beq_eq_false_iff_ne]
  rintro rfl
  rw [(hletter a hfirst).1] at hc
  cases hc

/-- No cue of a kind stands in a note of the other. -/
theorem cues_heardNote (hother : other ≠ kind) {cue : Text} (hcue : cue ∈ kind.cues)
    (h : digits.all isDigitChar = true) : afterFirst cue (other.heardNote digits) = none := by
  have hall : ∀ cue ∈ kind.cues, cue ≠ [] ∧ cue.headD ' ' ∈ "pc".toList ∧
      ∀ s ∈ other.heardFront.tails, s ≠ [] → clashes (· == ·) cue s = true := by
    cases kind <;> cases other
    · exact absurd rfl hother
    · decide
    · decide
    · exact absurd rfl hother
  obtain ⟨hne, hfirst, hclash⟩ := hall cue hcue
  exact afterFirst_heardNote hne hfirst hclash h

/-- Nor does `policy number` stand in a note. -/
theorem numberCue_heardNote (kind : IdKind) (h : digits.all isDigitChar = true) :
    afterFirst kind.numberCue (kind.heardNote digits) = none := by
  have hall : kind.numberCue ≠ [] ∧ kind.numberCue.headD ' ' ∈ "pc".toList ∧
      ∀ s ∈ kind.heardFront.tails, s ≠ [] → clashes (· == ·) kind.numberCue s = true := by
    cases kind <;> decide
  exact afterFirst_heardNote hall.1 hall.2.1 hall.2.2 h

/-- Behind the cue of a note its prefix stands. -/
theorem ownCue_heardNote (kind : IdKind) (digits : Text) :
    afterFirst kind.cue (kind.heardNote digits) =
      some (' ' :: kind.pre ++ ' ' :: (digits ++ [')'])) := by
  rw [afterFirst_eq kind.cue_plain.2 _ false]
  cases kind <;> rfl

theorem numberCue_of_cue {heard : Text} (h : afterFirst kind.cue heard = none) :
    afterFirst kind.numberCue heard = none := by
  have hne : kind.numberCue ≠ [] := by cases kind <;> decide
  rw [afterFirst_eq kind.cue_plain.2 _ false] at h
  rw [afterFirst_eq hne _ false]
  exact firstTail_eq_none (fun _ _ hs => dropBy_append_eq_none hs) h

/-- Behind the prefix nothing is read. -/
theorem readDigits_pre (h : digits.all isDigitChar = true) :
    readDigits (' ' :: kind.pre ++ ' ' :: (digits ++ [')'])) = [] := by
  have hlist : ' ' :: kind.pre ++ ' ' :: (digits ++ [')']) =
      [kind.pre, digits ++ [')']].flatMap (' ' :: ·) := by simp
  have hpre : kind.pre ≠ [] ∧ kind.pre.any isSpace = false ∧ tellsNumber kind.pre = false ∧
      isFiller kind.pre = false := by
    cases kind <;> decide
  rw [hlist, readDigits, Text.words_spread, identifierRun_stopped hpre.2.2.1 hpre.2.2.2]
  · rfl
  · intro w hw
    rw [List.mem_cons, List.mem_singleton] at hw
    rcases hw with rfl | rfl
    · exact ⟨hpre.1, hpre.2.1⟩
    · exact bracketed_plain h

/-- The canonical identifier of a note is found in it if its digits are decimal. -/
theorem direct_note (kind other : IdKind) (h : digits.all isDigitChar = true)
    (hlength : digits.length = 4) (inWord : Bool) :
    firstTail (directAt kind.pre) inWord (Text.lower (other.note digits)) =
      if other = kind ∧ digits.all isDigit = true then some digits else none := by
  obtain ⟨a, p, hp, ha⟩ : ∃ a p, kind.pre = a :: p ∧ a ∈ "pc".toList := by
    cases kind <;> exact ⟨_, _, rfl, by decide⟩
  have hletter : ∀ a ∈ "pc".toList, isDigitChar a = false ∧ (a == ')') = false := by decide
  have hnone : ∀ inWord s, dropBy (· == ·) kind.pre s = none →
      directAt kind.pre inWord s = none := by
    intro inWord s hs
    rw [directAt, hs]
    split <;> rfl
  -- nothing begins at the digits
  have hskip : ∀ inWord, firstTail (directAt kind.pre) inWord (digits ++ [')']) = none := by
    intro inWord
    rw [← List.append_nil (digits ++ [')']), firstTail_skip]
    · rfl
    · intro c hc inWord s
      refine hnone inWord _ ?_
      rw [hp]
      refine dropBy_of_head ?_
      rcases List.mem_append.mp hc with hc | hc
      · rw [beq_eq_false_iff_ne]
        rintro rfl
        have hdigit := List.all_eq_true.mp h a hc
        rw [(hletter a ha).1] at hdigit
        cases hdigit
      · rw [List.mem_singleton.mp hc]
        exact (hletter a ha).2
  rw [lower_note other h]
  by_cases hother : other = kind
  · subst hother
    have hown : firstTail (directAt other.pre) inWord
        (Text.lower other.noteFront ++ (digits ++ [')'])) =
          (leadingDigits ((digits ++ [')']).dropWhile isSpace)).or
            (firstTail (directAt other.pre) (isWord '-') (digits ++ [')'])) := by
      cases other <;> cases inWord <;> rfl
    have hdigits : (digits ++ [')']).dropWhile isSpace = digits ++ [')'] := by
      cases digits with
      | nil => cases hlength
      | cons d digits =>
        have hd := isWord_of_isDigitChar (Bool.and_eq_true_iff.mp h).1
        exact List.dropWhile_cons_of_neg (by rw [isSpace_of_isWord hd]; decide)
    rw [hown, hskip, Option.or_none, hdigits, leadingDigits, ← hlength, List.take_left,
      List.drop_left]
    have hbracket : ([')'] : Text).head?.any isWord = false := by decide
    rw [hbracket]
    simp
  · have hclash : ∀ s ∈ (Text.lower other.noteFront).tails, s ≠ [] →
        clashes (· == ·) kind.pre s = true := by
      cases kind <;> cases other
      · exact absurd rfl hother
      · decide
      · decide
      · exact absurd rfl hother
    rw [firstTail_clear hnone hclash, hskip, if_neg fun hand => hother hand.1]

/-! ## What is taken with a note at the end -/

theorem firstTail_direct (h : digits.all isDigitChar = true) (hlength : digits.length = 4)
    (kind other : IdKind) (t : Text) :
    firstTail (directAt kind.pre) false (Text.lower (t ++ other.note digits)) =
      (firstTail (directAt kind.pre) false (Text.lower t)).or
        (if other = kind ∧ digits.all isDigit = true then some digits else none) := by
  obtain ⟨z, hz⟩ : ∃ z, Text.lower (other.note digits) = ' ' :: '(' :: z := by
    rw [lower_note other h]
    exact ⟨_, rfl⟩
  have hbracket : '(' ∉ kind.pre := by cases kind <;> decide
  have hends : ∀ a b, Text.lower t = a ++ b → b ≠ [] → ∀ inWord,
      directAt kind.pre inWord (b ++ Text.lower (other.note digits)) =
        (directAt kind.pre inWord b).map id := by
    intro a b _ _ inWord
    rw [hz, directAt_append hbracket, Option.map_id, id]
  rw [Text.lower, List.flatMap_append]
  show firstTail (directAt kind.pre) false (Text.lower t ++ Text.lower (other.note digits)) = _
  rw [firstTail_append hends, Option.map_id, id, direct_note kind other h hlength]

theorem letterwise_note (h : digits.all isDigitChar = true) (kind other : IdKind) (t : Text) :
    firstTail (Regex.asWord kind.spelled) false (joined (t ++ other.note digits)) =
      (firstTail (Regex.asWord kind.spelled) false (joined t)).map
        (· ++ ' ' :: other.heardNote digits) := by
  rw [(literal_spelled kind).asWord_local.firstTail_note other h, letterwise_heardNote kind other h,
    Option.or_none]

theorem afterFirst_note (h : digits.all isDigitChar = true) {cue : Text} (hcue : cue ∈ kind.cues)
    (other : IdKind) (t : Text) : afterFirst cue (joined (t ++ other.note digits)) =
      ((afterFirst cue (joined t)).map (· ++ ' ' :: other.heardNote digits)).or
        (afterFirst cue (other.heardNote digits)) := by
  have hliteral := literal_cues kind cue hcue
  have hfirst := fun s => afterFirst_eq hliteral.ne s false
  rw [hfirst, hfirst, hfirst, hliteral.found_local.firstTail_note other h]

/-- Nothing but what stands before a note is read. -/
theorem readDigits_note (h : digits.all isDigitChar = true) (other : IdKind) (tail : Text) :
    readDigits (tail ++ ' ' :: other.heardNote digits) = readDigits tail := by
  have hblank : (' ' :: other.heardNote digits).head?.all isSpace = true :=
    (by decide : isSpace ' ' = true)
  have hnumber : tellsNumber ('(' :: other.cue) = false := other.tellsNumber_cue ['(']
  have hfiller : isFiller ('(' :: other.cue) = false := other.isFiller_cue ['(']
  rw [readDigits, Text.words_append_blank _ hblank, words_note other h,
    identifierRun_stop _ hnumber hfiller, readDigits]

/-- The rest of what is taken for an identifier. -/
def identifierDigits (tail : Text) : Option Text :=
  if (readDigits tail).length = 4 then some (readDigits tail) else none

/-- The digits of the identifier that is heard. -/
def heardDigits (kind : IdKind) (text : Text) : Option Text :=
  (firstTail (directAt kind.pre) false (Text.lower text)).or
    ((behindCue kind text).bind identifierDigits)

theorem plainPrefix_pre (kind : IdKind) : PlainPrefix kind.pre := by
  cases kind <;> exact ⟨by decide, by decide⟩

theorem normalize_eq_map (kind : IdKind) (text : Text) :
    kind.normalize text = (heardDigits kind text).map kind.identifier := by
  rw [normalize_eq, heardDigits, ← search_directPattern (plainPrefix_pre kind)]
  cases (directPattern kind.pre).search (Text.lower text) with
  | some direct => rfl
  | none =>
    rw [Option.map_none, Option.none_or]
    cases behindCue kind text with
    | none => rfl
    | some tail =>
      show _ = (identifierDigits tail).map kind.identifier
      unfold identifierDigits
      dsimp only
      split <;> rfl

/-- They are four. -/
theorem digits_of_heard (h : heardDigits kind t = some digits) :
    digits.all isDigitChar = true ∧ digits.length = 4 := by
  rw [heardDigits, Option.or_eq_some_iff] at h
  rcases h with h | ⟨-, h⟩
  · have hform : ∀ {inWord : Bool} {s : Text}, directAt kind.pre inWord s = some digits →
        digits.all isDigit = true ∧ digits.length = 4 := by
      intro inWord s hs
      cases inWord with
      | true => cases hs
      | false =>
        obtain ⟨g, h, g', rest, -, -, -, -, hlength, hall, -⟩ := directAt_eq_some_iff.mp hs
        exact ⟨hall, hlength⟩
    obtain ⟨inWord, s, -, hs⟩ := exists_of_firstTail h
    exact ⟨all_isDigitChar (hform hs).1, (hform hs).2⟩
  · obtain ⟨tail, -, htail⟩ := Option.bind_eq_some_iff.mp h
    unfold identifierDigits at htail
    split at htail
    · rename_i hlength
      cases htail
      exact ⟨wordsToDigits_digits _, hlength⟩
    · cases htail

/-- **A note of the other kind** changes nothing. -/
theorem behindCue_other (h : digits.all isDigitChar = true) (hother : other ≠ kind) (t : Text) :
    behindCue kind (t ++ other.note digits) =
      (behindCue kind t).map (· ++ ' ' :: other.heardNote digits) := by
  have hcues : afterCue (joined (t ++ other.note digits)) kind.cues =
      (afterCue (joined t) kind.cues).map (· ++ ' ' :: other.heardNote digits) := by
    show List.findSome? (fun cue => afterFirst cue _) (kind.cues.insertionSort _) =
      (List.findSome? (fun cue => afterFirst cue _) (kind.cues.insertionSort _)).map _
    have hmem : ∀ cue ∈ kind.cues.insertionSort (fun a b => b.length ≤ a.length),
        cue ∈ kind.cues := fun cue hcue => (List.mem_insertionSort _).mp hcue
    generalize kind.cues.insertionSort (fun a b => b.length ≤ a.length) = cues at hmem
    induction cues with
    | nil => rfl
    | cons cue cues ih =>
      obtain ⟨hcue, hcues⟩ := List.forall_mem_cons.mp hmem
      rw [List.findSome?_cons, List.findSome?_cons, afterFirst_note h hcue,
        cues_heardNote hother hcue h, Option.or_none, ih hcues]
      cases afterFirst cue (joined t) <;> rfl
  rw [behindCue_eq_or, behindCue_eq_or, letterwise_note h, hcues]
  cases firstTail (Regex.asWord kind.spelled) false (joined t) <;> rfl

theorem bind_identifierDigits_note (h : digits.all isDigitChar = true) (other : IdKind)
    (tail : Option Text) :
    (tail.map (· ++ ' ' :: other.heardNote digits)).bind identifierDigits =
      tail.bind identifierDigits := by
  cases tail with
  | none => rfl
  | some tail =>
    show identifierDigits (tail ++ ' ' :: other.heardNote digits) = identifierDigits tail
    rw [identifierDigits, readDigits_note h, identifierDigits]

theorem heardDigits_other (h : digits.all isDigitChar = true) (hlength : digits.length = 4)
    (hother : other ≠ kind) (t : Text) :
    heardDigits kind (t ++ other.note digits) = heardDigits kind t := by
  rw [heardDigits, firstTail_direct h hlength, if_neg fun hand => hother hand.1, Option.or_none,
    behindCue_other h hother, bind_identifierDigits_note h, heardDigits]

/-- The identifier follows `pol` or `p o l`, and nothing that is preferred to these. -/
def briefly (kind : IdKind) (text : Text) : Bool :=
  !(directPattern kind.pre).found (Text.lower text) &&
    !(letterwisePattern kind.pre).found (joined text) && !Text.contains (joined text) kind.cue

theorem briefly_iff : briefly kind t = true ↔
    firstTail (directAt kind.pre) false (Text.lower t) = none ∧
      firstTail (Regex.asWord kind.spelled) false (joined t) = none ∧
        afterFirst kind.cue (joined t) = none := by
  have hdirect : (directPattern kind.pre).found (Text.lower t) =
      (firstTail (directAt kind.pre) false (Text.lower t)).isSome := by
    rw [← search_directPattern (plainPrefix_pre kind), Option.isSome_map]
    rfl
  have hletterwise : (letterwisePattern kind.pre).found (joined t) =
      (firstTail (Regex.asWord kind.spelled) false (joined t)).isSome := by
    rw [← Regex.search_wordThenLine_of_line kind.wordly_spelled (newline_not_mem_joined t),
      Option.isSome_map]
    rfl
  rw [briefly, hdirect, hletterwise, contains_iff_afterFirst]
  simp [and_assoc]

/-- The digits of a note are not heard again exactly if they are not decimal, and the note has the
only cue that is preferred. -/
theorem heardDigits_own (h : heardDigits kind t = some digits) :
    heardDigits kind (t ++ kind.note digits) =
      if briefly kind t = true ∧ digits.all isDigit = false then none else some digits := by
  obtain ⟨hdigits, hlength⟩ := digits_of_heard h
  have hdirect := firstTail_direct hdigits hlength kind kind t
  rw [heardDigits] at h ⊢
  rw [hdirect]
  cases hat : firstTail (directAt kind.pre) false (Text.lower t) with
  | some direct =>
    rw [hat, Option.some_or] at h
    rw [Option.some_or, Option.some_or, h, if_neg]
    intro hbriefly
    have hnone := (briefly_iff.mp hbriefly.1).1
    rw [hat] at hnone
    cases hnone
  | none =>
  rw [hat, Option.none_or] at h
  rw [Option.none_or]
  cases hdecimal : digits.all isDigit with
  | true =>
    rw [if_pos ⟨rfl, rfl⟩, Option.some_or, if_neg]
    rintro ⟨-, ⟨⟩⟩
  | false =>
  rw [if_neg (fun hand => absurd hand.2 (by decide)), Option.none_or]
  -- what is preferred in the text is preferred with the note
  have hkept : behindCue kind (t ++ kind.note digits) =
      (behindCue kind t).map (· ++ ' ' :: kind.heardNote digits) →
        (behindCue kind (t ++ kind.note digits)).bind identifierDigits = some digits := by
    intro hbehind
    rw [hbehind, bind_identifierDigits_note hdigits, h]
  have hnumber : kind.numberCue ∈ kind.cues ∧ kind.cue ∈ kind.cues := by
    cases kind <;> exact ⟨by decide, by decide⟩
  have hbehind := behindCue_eq_cues kind (t ++ kind.note digits)
  rw [letterwise_note hdigits, afterFirst_note hdigits hnumber.1, numberCue_heardNote kind hdigits,
    Option.or_none, afterFirst_note hdigits hnumber.2, ownCue_heardNote] at hbehind
  rw [behindCue_eq_cues kind t] at hkept
  cases hletterwise : firstTail (Regex.asWord kind.spelled) false (joined t) with
  | some tail =>
    rw [hletterwise] at hbehind hkept
    rw [hkept hbehind, if_neg]
    intro hbriefly
    have hnone := (briefly_iff.mp hbriefly.1).2.1
    rw [hletterwise] at hnone
    cases hnone
  | none =>
  rw [hletterwise, Option.map_none, Option.none_or] at hbehind
  rw [hletterwise, Option.none_or] at hkept
  cases hcue : afterFirst kind.cue (joined t) with
  | some tail =>
    rw [hkept, if_neg]
    · intro hbriefly
      have hnone := (briefly_iff.mp hbriefly.1).2.2
      rw [hcue] at hnone
      cases hnone
    · rw [hbehind, hcue]
      cases afterFirst kind.numberCue (joined t) <;> rfl
  | none =>
    rw [numberCue_of_cue hcue, hcue, Option.map_none, Option.none_or, Option.none_or,
      Option.some_or] at hbehind
    rw [if_pos ⟨briefly_iff.mpr ⟨hat, hletterwise, hcue⟩, rfl⟩, hbehind, Option.bind_some,
      identifierDigits, readDigits_pre hdigits, if_neg (by decide)]

/-! ## `normalize_transcript` -/

/-- An identifier that was heard is appended, unless it is there. -/
def rewriteFor (kind : IdKind) (found : Option Text) (rewritten : Text) : Text :=
  match found with
  | some identifier =>
      if !identifier.isEmpty && !Text.contains rewritten identifier then
        rewritten ++ " (".toList ++ kind.cue ++ [' '] ++ identifier ++ [')']
      else rewritten
  | none => rewritten

/-- `normalize_transcript`. -/
def normalizeTranscript (text : Text) : Text :=
  let claim := normalizeClaimId text
  let policy := normalizePolicyNumber text
  rewriteFor .policy policy (rewriteFor .claim claim text)

example : normalizeTranscript "my claim is eighty eight twenty one, policy ten ninety two" =
    "my claim is eighty eight twenty one, policy ten ninety two (claim CLM-8821) (policy POL-1092)"
    := by decide +kernel

/-- **The digits are lost**: the identifier is introduced with a short cue only, four digits are
read that `\d` does not all take, and it is not written in the transcript. -/
structure Unsteady (kind : IdKind) (text : Text) : Prop where
  brief : briefly kind text = true
  digits : ∃ tail ∈ behindShortCue kind (joined text), (readDigits tail).length = 4 ∧
    (readDigits tail).all isDigit = false ∧
      Text.contains text (kind.identifier (readDigits tail)) = false

variable {r : Text}

theorem rewriteFor_identifier (kind : IdKind) (digits r : Text) :
    rewriteFor kind (some (kind.identifier digits)) r =
      if Text.contains r (kind.identifier digits) = true then r else r ++ kind.note digits := by
  have hne : (kind.identifier digits).isEmpty = false := by cases kind <;> rfl
  rw [rewriteFor, hne, Bool.not_false, Bool.true_and]
  cases Text.contains r (kind.identifier digits) with
  | true => rfl
  | false =>
    rw [if_pos (by decide), if_neg (by decide), IdKind.note]
    simp only [List.append_assoc]

/-- Nothing is appended, or a note. -/
theorem rewriteFor_cases (kind : IdKind) (t r : Text) :
    rewriteFor kind (kind.normalize t) r = r ∨
      ∃ digits, heardDigits kind t = some digits ∧
        rewriteFor kind (kind.normalize t) r = r ++ kind.note digits := by
  rw [normalize_eq_map]
  cases heardDigits kind t with
  | none => exact .inl rfl
  | some digits =>
    rw [Option.map_some, rewriteFor_identifier]
    split
    · exact .inl rfl
    · exact .inr ⟨digits, rfl, rfl⟩

theorem prefix_rewriteFor (kind : IdKind) (t r : Text) :
    r <+: rewriteFor kind (kind.normalize t) r := by
  rcases rewriteFor_cases kind t r with h | ⟨digits, -, h⟩ <;> rw [h]
  exact List.prefix_append _ _

/-! ### The identifier in the text -/

/-- An identifier of one kind is not in a note of the other. -/
theorem contains_note_other (hother : other ≠ kind) {ds : Text} (h : ds.all isDigitChar = true)
    (h' : digits.all isDigitChar = true) (t : Text) :
    Text.contains (t ++ other.note ds) (kind.identifier digits) =
      Text.contains t (kind.identifier digits) := by
  obtain ⟨c, p, z, hid, hz, hc, hblank, hmem⟩ : ∃ c p z,
      kind.identifier digits = c :: (p ++ '-' :: digits) ∧
        other.note ds = ' ' :: (z ++ (ds ++ [')'])) ∧ isDigitChar c = false ∧
          ' ' ∉ c :: (p ++ ['-']) ∧ c ∉ z ++ [')'] := by
    cases kind <;> cases other
    · exact absurd rfl hother
    · exact ⟨'P', "OL".toList, "(claim CLM-".toList, rfl, by simp [note_eq]; rfl, by decide,
        by decide, by decide⟩
    · exact ⟨'C', "LM".toList, "(policy POL-".toList, rfl, by simp [note_eq]; rfl, by decide,
        by decide, by decide⟩
    · exact absurd rfl hother
  have hnot : ∀ {a : Char} {s : Text}, s.all isDigitChar = true → isDigitChar a = false →
      a ∉ s := by
    intro a s hs ha hmem
    rw [List.all_eq_true.mp hs a hmem] at ha
    cases ha
  have hspace : ' ' ∉ c :: (p ++ '-' :: digits) := by
    have hdigits := hnot h' (by decide : isDigitChar ' ' = false)
    simp only [List.mem_cons, List.mem_append, not_or] at hblank ⊢
    exact ⟨hblank.1, hblank.2.1, hblank.2.2.1, hdigits⟩
  have hother : c ∉ z ++ (ds ++ [')']) := by
    have hds := hnot h hc
    simp only [List.mem_append, not_or] at hmem ⊢
    exact ⟨hmem.1, hds, hmem.2⟩
  rw [hid, hz, Text.contains_append_cons hspace, Text.contains_of_not_mem hother, Bool.or_false]

theorem contains_note_own (kind : IdKind) (digits t : Text) :
    Text.contains (t ++ kind.note digits) (kind.identifier digits) = true := by
  rw [IdKind.note, ← List.append_assoc, ← List.append_assoc]
  exact contains_append _ _ _

/-- Behind the rewriting for one kind the other is heard as before. -/
theorem heardDigits_rewriteFor (hother : other ≠ kind) (t r : Text) :
    heardDigits kind (rewriteFor other (other.normalize t) r) = heardDigits kind r := by
  rcases rewriteFor_cases other t r with h | ⟨digits, hdigits, h⟩
  · rw [h]
  · rw [h, heardDigits_other (digits_of_heard hdigits).1 (digits_of_heard hdigits).2 hother]

theorem briefly_rewriteFor (hother : other ≠ kind) (t r : Text) :
    briefly kind (rewriteFor other (other.normalize t) r) = briefly kind r := by
  rcases rewriteFor_cases other t r with h | ⟨digits, hdigits, h⟩
  · rw [h]
  · obtain ⟨hall, hlength⟩ := digits_of_heard hdigits
    have hcue : kind.cue ∈ kind.cues := by cases kind <;> decide
    rw [h, Bool.eq_iff_iff, briefly_iff, briefly_iff, firstTail_direct hall hlength,
      if_neg fun hand => hother hand.1, Option.or_none, letterwise_note hall,
      Option.map_eq_none_iff, afterFirst_note hall hcue, cues_heardNote hother hcue hall,
      Option.or_none, Option.map_eq_none_iff]

theorem unsteady_iff : Unsteady kind t ↔
    ∃ digits, heardDigits kind t = some digits ∧ briefly kind t = true ∧
      digits.all isDigit = false ∧ Text.contains t (kind.identifier digits) = false := by
  have hbrief : briefly kind t = true →
      heardDigits kind t = (behindShortCue kind (joined t)).bind identifierDigits := by
    intro h
    obtain ⟨hdirect, hletterwise, hcue⟩ := briefly_iff.mp h
    rw [heardDigits, behindCue_eq_cues, hdirect, hletterwise, numberCue_of_cue hcue, hcue]
    rfl
  constructor
  · rintro ⟨h, tail, htail, hlength, hdecimal, hcontains⟩
    refine ⟨readDigits tail, ?_, h, hdecimal, hcontains⟩
    rw [hbrief h, htail, Option.bind_some, identifierDigits, if_pos hlength]
  · rintro ⟨digits, hdigits, h, hdecimal, hcontains⟩
    rw [hbrief h] at hdigits
    obtain ⟨tail, htail, hread⟩ := Option.bind_eq_some_iff.mp hdigits
    unfold identifierDigits at hread
    split at hread
    · rename_i hlength
      cases hread
      exact ⟨h, tail, htail, hlength, hdecimal, hcontains⟩
    · cases hread

theorem unsteady_rewriteFor (hother : other ≠ kind) (t r : Text) :
    Unsteady kind (rewriteFor other (other.normalize t) r) ↔ Unsteady kind r := by
  have hcontains : ∀ digits, heardDigits kind r = some digits →
      Text.contains (rewriteFor other (other.normalize t) r) (kind.identifier digits) =
        Text.contains r (kind.identifier digits) := by
    intro digits hdigits
    rcases rewriteFor_cases other t r with h | ⟨ds, hds, h⟩
    · rw [h]
    · rw [h, contains_note_other hother (digits_of_heard hds).1 (digits_of_heard hdigits).1]
  rw [unsteady_iff, unsteady_iff, heardDigits_rewriteFor hother, briefly_rewriteFor hother]
  refine exists_congr fun digits => and_congr_right fun hdigits => ?_
  rw [hcontains digits hdigits]

/-- **The same is heard again** exactly if the digits are not lost. -/
theorem heardDigits_rewriteFor_own (kind : IdKind) (t : Text) :
    heardDigits kind (rewriteFor kind (kind.normalize t) t) = heardDigits kind t ↔
      ¬ Unsteady kind t := by
  rw [unsteady_iff, normalize_eq_map]
  cases hdigits : heardDigits kind t with
  | none => simp [rewriteFor, hdigits]
  | some digits =>
    rw [Option.map_some, rewriteFor_identifier]
    cases hcontains : Text.contains t (kind.identifier digits) with
    | true =>
      rw [if_pos rfl]
      refine iff_of_true hdigits ?_
      rintro ⟨ds, hds, -, -, hmissing⟩
      cases hds
      rw [hcontains] at hmissing
      cases hmissing
    | false =>
      rw [if_neg (by decide), heardDigits_own hdigits]
      split
      · rename_i hlost
        refine iff_of_false ?_ (not_not_intro ⟨digits, rfl, hlost.1, hlost.2, hcontains⟩)
        rintro ⟨⟩
      · rename_i hkept
        refine iff_of_true rfl ?_
        rintro ⟨ds, hds, hbrief, hdecimal, -⟩
        cases hds
        exact hkept ⟨hbrief, hdecimal⟩

/-! ### The whole transcript -/

theorem normalize_congr :
    kind.normalize r = kind.normalize t ↔ heardDigits kind r = heardDigits kind t := by
  have hinjective : Function.Injective kind.identifier := fun _ _ => identifier_inj.mp
  rw [normalize_eq_map, normalize_eq_map, (Option.map_injective hinjective).eq_iff]

theorem contains_rewriteFor (h : heardDigits kind t = some digits) (r : Text) :
    Text.contains (rewriteFor kind (kind.normalize t) r) (kind.identifier digits) = true := by
  rw [normalize_eq_map, h, Option.map_some, rewriteFor_identifier]
  split
  · assumption
  · exact contains_note_own kind digits r

/-- What is there is not appended again. -/
theorem rewriteFor_of_contains
    (h : ∀ digits, heardDigits kind t = some digits →
      Text.contains r (kind.identifier digits) = true) :
    rewriteFor kind (kind.normalize t) r = r := by
  rw [normalize_eq_map]
  cases hdigits : heardDigits kind t with
  | none => rfl
  | some digits => rw [Option.map_some, rewriteFor_identifier, if_pos (h digits hdigits)]

theorem heardDigits_transcript (t : Text) :
    (heardDigits .policy (normalizeTranscript t) = heardDigits .policy t ↔ ¬ Unsteady .policy t) ∧
      (heardDigits .claim (normalizeTranscript t) = heardDigits .claim t ↔
        ¬ Unsteady .claim t) := by
  have hpolicy : IdKind.claim ≠ .policy := by decide
  have hclaim : IdKind.policy ≠ .claim := by decide
  let noted := rewriteFor .claim (IdKind.claim.normalize t) t
  have hsame : heardDigits .policy noted = heardDigits .policy t :=
    heardDigits_rewriteFor hpolicy t t
  have hwhole : normalizeTranscript t =
      rewriteFor .policy (IdKind.policy.normalize noted) noted := by
    rw [normalize_congr.mpr hsame]
    rfl
  constructor
  · rw [hwhole, ← hsame, heardDigits_rewriteFor_own, unsteady_rewriteFor hpolicy]
  · rw [hwhole, heardDigits_rewriteFor hclaim, heardDigits_rewriteFor_own]

/-- What is heard the same is not rewritten again. -/
theorem normalizeTranscript_again
    (h : ∀ kind, heardDigits kind (normalizeTranscript t) = heardDigits kind t) :
    normalizeTranscript (normalizeTranscript t) = normalizeTranscript t := by
  let noted := rewriteFor .claim (IdKind.claim.normalize t) t
  have hnoted : normalizeTranscript t = rewriteFor .policy (IdKind.policy.normalize t) noted := rfl
  have hclaim : ∀ digits, heardDigits .claim t = some digits →
      Text.contains (normalizeTranscript t) (IdKind.claim.identifier digits) = true := by
    intro digits hdigits
    have hthere := contains_rewriteFor hdigits t
    rcases rewriteFor_cases .policy t noted with hwhole | ⟨ds, hds, hwhole⟩
    · rw [hnoted, hwhole]
      exact hthere
    · rw [hnoted, hwhole, contains_note_other (by decide) (digits_of_heard hds).1
        (digits_of_heard hdigits).1]
      exact hthere
  have hpolicy : ∀ digits, heardDigits .policy t = some digits →
      Text.contains (normalizeTranscript t) (IdKind.policy.identifier digits) = true := by
    intro digits hdigits
    rw [hnoted]
    exact contains_rewriteFor hdigits noted
  show rewriteFor .policy (IdKind.policy.normalize (normalizeTranscript t))
    (rewriteFor .claim (IdKind.claim.normalize (normalizeTranscript t)) (normalizeTranscript t)) = _
  rw [normalize_congr.mpr (h .policy), normalize_congr.mpr (h .claim),
    rewriteFor_of_contains hclaim, rewriteFor_of_contains hpolicy]

theorem prefix_normalizeTranscript (t : Text) : t <+: normalizeTranscript t :=
  (prefix_rewriteFor .claim t t).trans (prefix_rewriteFor .policy t _)

end Notes

/-- **The identifiers found in the rewritten utterance are the ones heard**, and it is not rewritten
again, exactly if the digits of neither are lost. -/
theorem transcript_steady_iff (text : Text) :
    (text <+: normalizeTranscript text ∧
        normalizeTranscript (normalizeTranscript text) = normalizeTranscript text ∧
        normalizePolicyNumber (normalizeTranscript text) = normalizePolicyNumber text ∧
        normalizeClaimId (normalizeTranscript text) = normalizeClaimId text) ↔
      ¬ Unsteady .policy text ∧ ¬ Unsteady .claim text := by
  obtain ⟨hpolicy, hclaim⟩ := heardDigits_transcript text
  rw [← hpolicy, ← hclaim, ← normalize_congr, ← normalize_congr]
  constructor
  · rintro ⟨-, -, hsame⟩
    exact hsame
  · intro hsame
    refine ⟨prefix_normalizeTranscript text, normalizeTranscript_again fun kind => ?_, hsame⟩
    rw [← normalize_congr]
    cases kind
    · exact hsame.1
    · exact hsame.2

/-- Superscript digits behind `pol` are heard, and behind `policy` they are not. -/
theorem superscripts_lost : ¬ ∀ text : Text,
    text <+: normalizeTranscript text ∧
      normalizeTranscript (normalizeTranscript text) = normalizeTranscript text ∧
      normalizePolicyNumber (normalizeTranscript text) = normalizePolicyNumber text ∧
      normalizeClaimId (normalizeTranscript text) = normalizeClaimId text := by
  intro h
  have hsame := (h "pol ²²²²").2.2.1
  have hrewritten : normalizeTranscript "pol ²²²²" = "pol ²²²² (policy POL-²²²²)" := by
    decide +kernel
  have hheard : normalizePolicyNumber "pol ²²²²" = some "POL-²²²²" := by decide +kernel
  have hlost : normalizePolicyNumber "pol ²²²² (policy POL-²²²²)" = none := by decide +kernel
  rw [hrewritten, hheard, hlost] at hsame
  cases hsame

end OmniCare
