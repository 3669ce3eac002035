import OmniCare.Normalize
import OmniCare.Places
import OmniCare.Ways

/-! # Canonical identifiers

`directPattern` finds an identifier that is canonical, or one hyphen or blank away from it.
`directAt` recognises one at a place, and the pattern captures the digits at the first such place
(`search_directPattern`); a blank and a bracket behind a text change nothing of what is recognised
in it (`directAt_append`).
-/
namespace OmniCare

open Regex

/-! ## The canonical identifier -/

/-- What stands behind blanks with one hyphen among them at most. -/
def pastGap (s : Text) : Text :=
  match s.dropWhile isSpace with
  | '-' :: rest => rest.dropWhile isSpace
  | rest => rest

/-- Four decimal digits that no word character follows. -/
def leadingDigits (s : Text) : Option Text :=
  if (s.take 4).length = 4 ∧ (s.take 4).all isDigit = true ∧
      (s.drop 4).head?.any isWord = false then
    some (s.take 4)
  else none

/-- The digits of a canonical identifier that begins here. -/
def directAt (pre : Text) (inWord : Bool) (s : Text) : Option Text :=
  if inWord then none else (dropBy (· == ·) pre s).bind fun rest => leadingDigits (pastGap rest)

theorem leadingDigits_eq_some_iff {s digits : Text} : leadingDigits s = some digits ↔
    ∃ rest, s = digits ++ rest ∧ digits.length = 4 ∧ digits.all isDigit = true ∧
      rest.head?.any isWord = false := by
  unfold leadingDigits
  constructor
  · intro h
    split at h
    · rename_i hfour
      cases h
      exact ⟨s.drop 4, (List.take_append_drop 4 s).symm, hfour⟩
    · cases h
  · rintro ⟨rest, rfl, hlength, hall, hrest⟩
    have htake : (digits ++ rest).take 4 = digits := by rw [← hlength, List.take_left]
    have hdrop : (digits ++ rest).drop 4 = rest := by rw [← hlength, List.drop_left]
    rw [htake, hdrop, if_pos ⟨hlength, hall, hrest⟩]

/-- `[-\s]`. -/
def isHyphenOrSpace (c : Char) : Bool := c == '-' || isSpace c

theorem pastGap_append {g h g' s : Text} (hg : g.all isSpace = true)
    (hh : Repeats isHyphenOrSpace 0 (some 1) h) (hg' : g'.all isSpace = true)
    (hs : s.head?.any isHyphenOrSpace = false) : pastGap (g ++ (h ++ (g' ++ s))) = s := by
  have hstays : s.dropWhile isSpace = s ∧ s.head? ≠ some '-' := by
    cases s with
    | nil =>
      refine ⟨rfl, ?_⟩
      rintro ⟨⟩
    | cons c s =>
      obtain ⟨hhyphen, hspace⟩ := Bool.or_eq_false_iff.mp (hs : isHyphenOrSpace c = false)
      refine ⟨List.dropWhile_cons_of_neg (by rw [hspace]; decide), ?_⟩
      rintro ⟨⟩
      cases hhyphen
  have hblank : ∀ {g : Text}, g.all isSpace = true → ∀ t, (g ++ t).dropWhile isSpace =
      t.dropWhile isSpace := fun hg t => List.dropWhile_append_of_pos (List.all_eq_true.mp hg)
  have hdone : ∀ {g : Text}, g.all isSpace = true → pastGap (g ++ s) = s := by
    intro g hg
    rw [pastGap, hblank hg, hstays.1]
    split
    · exact absurd rfl hstays.2
    · rfl
  cases h with
  | nil =>
    rw [List.nil_append, ← List.append_assoc]
    exact hdone (by rw [List.all_append, hg, hg']; rfl)
  | cons c h =>
    obtain rfl : h = [] :=
      List.eq_nil_of_length_eq_zero (Nat.le_zero.mp (Nat.le_of_succ_le_succ (hh.atMost 1 rfl)))
    rcases Bool.or_eq_true_iff.mp (Bool.and_eq_true_iff.mp hh.all).1 with hhyphen | hspace
    · obtain rfl := eq_of_beq hhyphen
      rw [pastGap, hblank hg]
      show (g' ++ s).dropWhile isSpace = s
      rw [hblank hg', hstays.1]
    · rw [← List.append_assoc, ← List.append_assoc]
      refine hdone ?_
      rw [List.all_append, List.all_append, hg, hg', List.all_cons, hspace]
      rfl

theorem exists_of_pastGap (s : Text) : ∃ g h g', s = g ++ (h ++ (g' ++ pastGap s)) ∧
    g.all isSpace = true ∧ Repeats isHyphenOrSpace 0 (some 1) h ∧ g'.all isSpace = true := by
  have hsplit := (List.takeWhile_append_dropWhile (p := isSpace) (l := s)).symm
  have hall : ∀ t : Text, (t.takeWhile isSpace).all isSpace = true := fun t => List.all_takeWhile
  unfold pastGap
  split
  · rename_i rest hrest
    refine ⟨s.takeWhile isSpace, ['-'], rest.takeWhile isSpace, ?_, hall s,
      ⟨Nat.zero_le _, by simp, by decide⟩, hall rest⟩
    rw [List.takeWhile_append_dropWhile]
    rw [hrest] at hsplit
    exact hsplit
  · exact ⟨s.takeWhile isSpace, [], [], hsplit, hall s, ⟨Nat.zero_le _, by simp, rfl⟩, rfl⟩

/-- A prefix begins and ends with a word character. -/
def PlainPrefix (pre : Text) : Prop :=
  pre.head?.any isWord = true ∧ pre.getLast?.any isWord = true

variable {pre before s digits : Text} {v : Way}

theorem isHyphenOrSpace_of_isDigit {c : Char} (h : isDigit c = true) :
    isHyphenOrSpace c = false := by
  rw [isHyphenOrSpace, isSpace_of_isDigit h, Bool.or_false, beq_eq_false_iff_ne]
  rintro rfl
  exact absurd h (by decide)

theorem directAt_eq_some_iff : directAt pre false s = some digits ↔
    ∃ g h g' rest, s = pre ++ (g ++ (h ++ (g' ++ (digits ++ rest)))) ∧ g.all isSpace = true ∧
      Repeats isHyphenOrSpace 0 (some 1) h ∧ g'.all isSpace = true ∧ digits.length = 4 ∧
      digits.all isDigit = true ∧ rest.head?.any isWord = false := by
  have hdrop : ∀ rest, dropBy (· == ·) pre s = some rest ↔ s = pre ++ rest := by
    intro rest
    constructor
    · intro h
      rw [← dropPrefix?_eq_dropBy] at h
      exact dropPrefix?_eq_some h
    · rintro rfl
      rw [← dropPrefix?_eq_dropBy, Text.dropPrefix?_append]
  rw [directAt, if_neg (by decide), Option.bind_eq_some_iff]
  constructor
  · rintro ⟨u, hu, hdigits⟩
    obtain ⟨rest, hrest, hlength, hall, hend⟩ := leadingDigits_eq_some_iff.mp hdigits
    obtain ⟨g, h, g', hgap, hg, hh, hg'⟩ := exists_of_pastGap u
    refine ⟨g, h, g', rest, ?_, hg, hh, hg', hlength, hall, hend⟩
    rw [(hdrop u).mp hu, ← hrest, ← hgap]
  · rintro ⟨g, h, g', rest, rfl, hg, hh, hg', hlength, hall, hend⟩
    refine ⟨_, (hdrop _).mpr rfl, ?_⟩
    rw [pastGap_append hg hh hg', leadingDigits_eq_some_iff]
    · exact ⟨rest, rfl, hlength, hall, hend⟩
    · cases digits with
      | nil => cases hlength
      | cons d digits => exact isHyphenOrSpace_of_isDigit (Bool.and_eq_true_iff.mp hall).1

/-- The pattern, one part after another. -/
theorem directPattern_eq (pre : Text) : directPattern pre = .seq .wordEdge (.seq (.lit pre)
    (.seq (.star .space) (.seq (.opt (.char isHyphenOrSpace)) (.seq (.star .space)
      (.seq (.group 1 (.times 4 .digit)) .wordEdge))))) :=
  rfl

theorem PlainPrefix.head_append (hpre : PlainPrefix pre) (rest : Text) :
    (pre ++ rest).head?.any isWord = true := by
  obtain ⟨hfirst, -⟩ := hpre
  cases pre with
  | nil => cases hfirst
  | cons c pre => exact hfirst

/-- The last of four digits is a word character. -/
theorem head_reverse_digits (hlength : digits.length = 4) (hall : digits.all isDigit = true)
    (behind : Text) : (digits.reverse ++ behind).head?.any isWord = true := by
  rw [← List.all_reverse] at hall
  rw [← List.length_reverse] at hlength
  cases hd : digits.reverse with
  | nil =>
    rw [hd] at hlength
    cases hlength
  | cons c t =>
    rw [hd] at hall
    exact isWord_of_isDigit (Bool.and_eq_true_iff.mp hall).1

/-- What the pattern takes begins with a canonical identifier. -/
theorem directAt_of_takes (hpre : PlainPrefix pre)
    (h : (directPattern pre).Takes ⟨⟨before, s⟩, []⟩ v) :
    directAt pre (before.head?.any isWord) s = some (v.group 1) := by
  rw [directPattern_eq] at h
  cases h with
  | seq hstart h =>
  cases hstart with
  | assert hstart =>
  cases h with
  | @seq _ _ _ u₁ _ hlit h =>
  have hlit := (takes_lit_iff.mp hlit).1.1
  cases h with
  | @seq _ _ _ u₂ _ hgap h =>
  obtain ⟨g, hg, ⟨hgap, -⟩, -⟩ := takes_rep_char_iff.mp hgap
  cases h with
  | @seq _ _ _ u₃ _ hhyphen h =>
  obtain ⟨hyphen, hh, ⟨hhyphen, -⟩, -⟩ := takes_rep_char_iff.mp hhyphen
  cases h with
  | @seq _ _ _ u₄ _ hgap' h =>
  obtain ⟨g', hg', ⟨hgap', -⟩, -⟩ := takes_rep_char_iff.mp hgap'
  cases h with
  | seq hdigits hend =>
  cases hend with
  | assert hend =>
  cases hdigits with
  | @group _ _ _ u hdigits =>
  obtain ⟨d, hd, hpasses, -⟩ := takes_rep_char_iff.mp hdigits
  have hlength : d.length = 4 := Nat.le_antisymm (hd.atMost 4 rfl) hd.atLeast
  have htext : s = pre ++ (g ++ (hyphen ++ (g' ++ (d ++ u.cursor.after)))) := by
    have hlit : s = pre ++ u₁.cursor.after := hlit
    rw [hlit, hgap, hhyphen, hgap', hpasses.1]
  have hword : s.head?.any isWord = true := htext ▸ hpre.head_append _
  have hbefore : before.head?.any isWord = false := by
    have hstart : (before.head?.any isWord != s.head?.any isWord) = true := hstart
    rw [hword] at hstart
    simpa using hstart
  have hbehind : u.cursor.after.head?.any isWord = false := by
    have hend : (u.cursor.before.head?.any isWord != u.cursor.after.head?.any isWord) = true := hend
    rw [hpasses.2, head_reverse_digits hlength hd.all] at hend
    simpa using hend
  have hgroup : Way.group ⟨u.cursor, (1, u₄.cursor.upTo u.cursor) :: u.groups⟩ 1 = d :=
    hpasses.upTo
  rw [hbefore, hgroup, directAt_eq_some_iff]
  exact ⟨g, hyphen, g', _, htext, hg.all, hh, hg'.all, hlength, hd.all, hbehind⟩

/-- A canonical identifier is taken, and its digits are captured. -/
theorem takes_of_directAt (hpre : PlainPrefix pre)
    (h : directAt pre (before.head?.any isWord) s = some digits) :
    ∃ v, (directPattern pre).Takes ⟨⟨before, s⟩, []⟩ v ∧ v.group 1 = digits := by
  have hbefore : before.head?.any isWord = false := by
    cases hword : before.head?.any isWord with
    | false => rfl
    | true =>
      rw [hword] at h
      cases h
  rw [hbefore, directAt_eq_some_iff] at h
  obtain ⟨g, hyphen, g', rest, rfl, hg, hh, hg', hlength, hall, hrest⟩ := h
  have hblanks : ∀ {t : Text}, t.all isSpace = true → Repeats isSpace 0 none t :=
    fun ht => ⟨Nat.zero_le _, by simp, ht⟩
  have hfour : Repeats isDigit 4 (some 4) digits :=
    ⟨Nat.le_of_eq hlength.symm, by simp [hlength], hall⟩
  let b₁ := pre.reverse ++ before
  let b₂ := g.reverse ++ b₁
  let b₃ := hyphen.reverse ++ b₂
  let b₄ := g'.reverse ++ b₃
  have hlit : (Regex.lit pre).Takes ⟨⟨before, _⟩, []⟩
      ⟨⟨b₁, g ++ (hyphen ++ (g' ++ (digits ++ rest)))⟩, []⟩ :=
    takes_lit_iff.mpr ⟨⟨rfl, rfl⟩, rfl⟩
  have hgap : (Regex.star .space).Takes ⟨⟨b₁, g ++ (hyphen ++ (g' ++ (digits ++ rest)))⟩, []⟩
      ⟨⟨b₂, hyphen ++ (g' ++ (digits ++ rest))⟩, []⟩ :=
    takes_rep_char_iff.mpr ⟨g, hblanks hg, ⟨rfl, rfl⟩, rfl⟩
  have hhyphen : (Regex.opt (.char isHyphenOrSpace)).Takes
      ⟨⟨b₂, hyphen ++ (g' ++ (digits ++ rest))⟩, []⟩ ⟨⟨b₃, g' ++ (digits ++ rest)⟩, []⟩ :=
    takes_rep_char_iff.mpr ⟨hyphen, hh, ⟨rfl, rfl⟩, rfl⟩
  have hgap' : (Regex.star .space).Takes ⟨⟨b₃, g' ++ (digits ++ rest)⟩, []⟩
      ⟨⟨b₄, digits ++ rest⟩, []⟩ :=
    takes_rep_char_iff.mpr ⟨g', hblanks hg', ⟨rfl, rfl⟩, rfl⟩
  have hdigits : (Regex.times 4 .digit).Takes ⟨⟨b₄, digits ++ rest⟩, []⟩
      ⟨⟨digits.reverse ++ b₄, rest⟩, []⟩ :=
    takes_rep_char_iff.mpr ⟨digits, hfour, ⟨rfl, rfl⟩, rfl⟩
  have hpasses : (⟨b₄, digits ++ rest⟩ : Cursor).Passes ⟨digits.reverse ++ b₄, rest⟩ digits :=
    ⟨rfl, rfl⟩
  rw [directPattern_eq]
  refine ⟨_, .seq (.assert ?_) (hlit.seq (hgap.seq (hhyphen.seq (hgap'.seq
    (.seq (.group hdigits) (.assert ?_)))))), hpasses.upTo⟩
  · rw [hbefore, hpre.head_append]
    rfl
  · rw [head_reverse_digits hlength hall, hrest]
    rfl

/-- What the pattern takes at a place. -/
theorem directPattern_takes_iff (hpre : PlainPrefix pre) :
    (∃ v, (directPattern pre).Takes ⟨⟨before, s⟩, []⟩ v ∧ v.group 1 = digits) ↔
      directAt pre (before.head?.any isWord) s = some digits := by
  constructor
  · rintro ⟨v, hv, rfl⟩
    exact directAt_of_takes hpre hv
  · exact takes_of_directAt hpre

/-- **What the pattern captures** are the digits at the first such place. -/
theorem search_directPattern (hpre : PlainPrefix pre) (s : Text) :
    ((directPattern pre).search s).map (·.group 1) = firstTail (directAt pre) false s := by
  refine search_eq_firstTail (fun before s => ?_) (fun inWord => ?_) s
  · cases hmatch : (directPattern pre).matchAt ⟨before, s⟩ with
    | some m =>
      have htakes := mem_run_iff.mp (matchAt_mem hmatch)
      exact ((directPattern_takes_iff hpre).mp ⟨_, htakes, rfl⟩).symm
    | none =>
      rw [Option.map_none, eq_comm, Option.eq_none_iff_forall_not_mem]
      intro digits hdigits
      obtain ⟨v, hv, -⟩ := (directPattern_takes_iff hpre).mpr hdigits
      obtain ⟨m, hm⟩ := exists_matchAt (mem_run_iff.mpr hv)
      rw [hm] at hmatch
      cases hmatch
  · obtain ⟨c, pre, rfl⟩ : ∃ c t, pre = c :: t := by
      obtain ⟨hfirst, -⟩ := hpre
      cases pre with
      | nil => cases hfirst
      | cons c t => exact ⟨c, t, rfl⟩
    unfold directAt
    split <;> rfl

/-- A text without the bracket that does not end with the blank ends before both. -/
theorem exists_of_append_blank {b z t rest : Text} (hbracket : '(' ∉ t)
    (hlast : t.getLast? ≠ some ' ') (h : b ++ ' ' :: '(' :: z = t ++ rest) :
    ∃ u, b = t ++ u ∧ rest = u ++ ' ' :: '(' :: z := by
  rcases List.append_eq_append_iff.mp h with ⟨u, rfl, hbehind⟩ | ⟨u, hb, hbehind⟩
  · rcases u with - | ⟨c, u⟩
    · exact ⟨[], by rw [List.append_nil, List.append_nil], hbehind.symm⟩
    · -- it would end with the blank, or pass the bracket
      obtain ⟨rfl, htail⟩ := List.cons.inj hbehind
      rcases u with - | ⟨c, u⟩
      · exact absurd List.getLast?_concat hlast
      · obtain ⟨rfl, -⟩ := List.cons.inj htail
        exact absurd (by simp) hbracket
  · exact ⟨u, hb, hbehind⟩

/-- A canonical identifier does not go on behind a blank and a bracket. -/
theorem directAt_append {b z : Text} (hpre : '(' ∉ pre) (inWord : Bool) :
    directAt pre inWord (b ++ ' ' :: '(' :: z) = directAt pre inWord b := by
  cases inWord with
  | true => rfl
  | false =>
    have hedge : ∀ rest : Text,
        (rest ++ ' ' :: '(' :: z).head?.any isWord = rest.head?.any isWord := by
      intro rest
      cases rest with
      | nil => exact (by decide : isWord ' ' = false)
      | cons c rest => rfl
    refine Option.ext fun digits => ?_
    rw [directAt_eq_some_iff, directAt_eq_some_iff]
    constructor
    · rintro ⟨g, h, g', rest, htext, hg, hh, hg', hlength, hall, hrest⟩
      have hwhole : b ++ ' ' :: '(' :: z = (pre ++ (g ++ (h ++ (g' ++ digits)))) ++ rest := by
        rw [htext]
        simp only [List.append_assoc]
      have hbracket : '(' ∉ pre ++ (g ++ (h ++ (g' ++ digits))) := by
        have hnot : ∀ {p : Char → Bool} {t : Text}, t.all p = true → p '(' = false → '(' ∉ t := by
          intro p t ht hp hmem
          rw [List.all_eq_true.mp ht _ hmem] at hp
          cases hp
        simp only [List.mem_append, not_or]
        exact ⟨hpre, hnot hg (by decide), hnot hh.all (by decide), hnot hg' (by decide),
          hnot hall (by decide)⟩
      have hlast : (pre ++ (g ++ (h ++ (g' ++ digits)))).getLast? ≠ some ' ' := by
        rcases List.eq_nil_or_concat digits with rfl | ⟨t, d, rfl⟩
        · cases hlength
        · rw [List.concat_eq_append] at hall ⊢
          rw [List.all_append, Bool.and_eq_true] at hall
          simp only [← List.append_assoc]
          rw [List.getLast?_concat]
          rintro ⟨⟩
          exact absurd hall.2 (by decide)
      obtain ⟨u, hu, hbehind⟩ := exists_of_append_blank hbracket hlast hwhole
      refine ⟨g, h, g', u, ?_, hg, hh, hg', hlength, hall, ?_⟩
      · rw [hu]
        simp only [List.append_assoc]
      · rwa [hbehind, hedge] at hrest
    · rintro ⟨g, h, g', rest, rfl, hg, hh, hg', hlength, hall, hrest⟩
      refine ⟨g, h, g', rest ++ ' ' :: '(' :: z, ?_, hg, hh, hg', hlength, hall, ?_⟩
      · simp only [List.append_assoc]
      · rw [hedge, hrest]

end OmniCare
