import Mathlib.Data.List.DropRight
import OmniCare.CharTables

/-! # Python text

A Python `str` is a sequence of code points, and every text function of the
repository works on code points: `Text` is the list of them.  The string methods
below follow the documented behaviour of their Python namesakes; each is a plain
structural recursion, so that the kernel can run it.
-/
namespace OmniCare

/-- A Python `str`. -/
abbrev Text := List Char

/-- What is asked of each character of a text is decided character by character. -/
instance decidableForallText (p : Char → Prop) [DecidablePred p] (s : Text) :
    Decidable (∀ c ∈ s, p c) :=
  List.decidableBAll p s

instance decidableForallChar? (p : Char → Prop) [DecidablePred p] (c? : Option Char) :
    Decidable (∀ c ∈ c?, p c) :=
  Option.decidableForallMem c?

instance : Coe String Text := ⟨String.toList⟩

/-- A Python exception: the name of its class and `str` of it. -/
structure PyError where
  kind : Text
  detail : Text
  deriving DecidableEq, Repr

/-- A sequence that raises nothing has a first part that raises nothing. -/
theorem exists_ok_of_bind {ε α β : Type} {x : Except ε α} {f : α → Except ε β} {b : β}
    (h : x >>= f = .ok b) : ∃ a, x = .ok a ∧ f a = .ok b := by
  cases x with
  | error e => cases h
  | ok a => exact ⟨a, rfl, h⟩

/-- What is raised under another name is raised. -/
theorem ok_of_mapError {ε ε' α : Type} {f : ε → ε'} {x : Except ε α} {a : α}
    (h : x.mapError f = .ok a) : x = .ok a := by
  cases x with
  | error e => cases h
  | ok b =>
    cases h
    rfl

namespace CharTables

/-- Whether a code point lies in one of the closed ranges. -/
def inRanges (ranges : List (Nat × Nat)) (n : Nat) : Bool :=
  ranges.any fun r => r.1 ≤ n && n ≤ r.2

end CharTables

/-! ## Character classes -/

/-- `\s` and `str.isspace`. -/
def isSpace (c : Char) : Bool :=
  if c.toNat < 128 then (9 ≤ c.toNat && c.toNat ≤ 13) || (28 ≤ c.toNat && c.toNat ≤ 32)
  else CharTables.inRanges CharTables.spaceRanges c.toNat

/-- The value of a decimal digit, ASCII or not. -/
def digitValue (c : Char) : Option Nat :=
  if c.toNat < 128 then if c.isDigit then some (c.toNat - 48) else none
  else (CharTables.digitZeros.find? fun z => z ≤ c.toNat && c.toNat < z + 10).map (c.toNat - ·)

/-- `\d`. -/
def isDigit (c : Char) : Bool := (digitValue c).isSome

/-- `str.isdigit` of one character: a decimal digit, or a digit of another kind. -/
def isDigitChar (c : Char) : Bool :=
  isDigit c || CharTables.inRanges CharTables.otherDigitRanges c.toNat

theorem isDigitChar_of_isDigit {c : Char} (h : isDigit c = true) : isDigitChar c = true := by
  rw [isDigitChar, h, Bool.true_or]

/-- `\w`. -/
def isWord (c : Char) : Bool :=
  if c.toNat < 128 then c.isAlphanum || c == '_'
  else CharTables.inRanges CharTables.wordRanges c.toNat

/-- The one-character lower case of a character above ASCII, from the table. -/
def tableLower (n : Nat) : Option Nat :=
  CharTables.lowerRuns.findSome? fun (first, last, step, distance) =>
    if first ≤ n && n ≤ last && (n - first) % step == 0 then some (n + distance : Int).toNat
    else none

/-- The one-character upper case of a character above ASCII: the upper-case letter
the table maps to it. -/
def tableUpper (n : Nat) : Option Nat :=
  CharTables.lowerRuns.findSome? fun (first, last, step, distance) =>
    let upper := (n - distance : Int).toNat
    if first ≤ upper && upper ≤ last && (upper - first) % step == 0 then some upper else none

/-- `str.lower` of one character.  `İ` is the one letter whose lower case is two
characters long. -/
def lowerChar (c : Char) : Text :=
  if c.toNat < 128 then [c.toLower]
  else if c.toNat == 0x130 then ['i', Char.ofNat 0x307]
  else [((tableLower c.toNat).map Char.ofNat).getD c]

/-- `str.upper` of one character; the letters whose upper case is several
characters long are kept as they are. -/
def upperChar (c : Char) : Char :=
  if c.toNat < 128 then c.toUpper else ((tableUpper c.toNat).map Char.ofNat).getD c

/-- Whether two characters are equal for a pattern compiled with `re.IGNORECASE`.
The pattern's letters are ASCII throughout the repository; the letters outside
ASCII that fold to one of them are the dotted and the dotless `i`, the long `s`
and the Kelvin sign. -/
def sameLetter (p c : Char) : Bool :=
  if c.toNat < 128 then p.toLower == c.toLower
  else match c.toNat with
    | 0x130 | 0x131 => p.toLower == 'i'
    | 0x17F => p.toLower == 's'
    | 0x212A => p.toLower == 'k'
    | _ => p == c

/-- What holds of every ASCII character, as `decide` sees it. -/
theorem forall_ascii {P : Char → Prop} (h : ∀ n < 128, P (Char.ofNat n)) {c : Char}
    (hlow : c.toNat < 128) : P c := by
  have hc := h c.toNat hlow
  rwa [Char.ofNat_toNat] at hc

/-- A space is not the lower case of another character. -/
theorem toLower_eq_of_isSpace {c : Char} (h : isSpace c.toLower = true) : c.toLower = c := by
  by_cases hlt : c.toNat < 128
  · exact forall_ascii (P := fun c => isSpace c.toLower = true → c.toLower = c) (by decide) hlt h
  · unfold Char.toLower
    split
    · rename_i hletter
      have : c.val.toNat ≤ 90 := UInt32.le_iff_toNat_le.mp hletter.2
      exact absurd (Nat.lt_of_le_of_lt this (by decide)) hlt
    · rfl

/-- A space matches itself only, also where letter case is ignored. -/
theorem eq_of_sameLetter_isSpace {c d : Char} (h : sameLetter c d = true)
    (hd : isSpace d = true) : c = d := by
  unfold sameLetter at h
  split at h
  · rename_i hlt
    have hlow : d.toLower = d :=
      forall_ascii (P := fun d => isSpace d = true → d.toLower = d) (by decide) hlt hd
    have heq : c.toLower = d := (eq_of_beq h).trans hlow
    rw [← heq]
    exact (toLower_eq_of_isSpace (heq ▸ hd)).symm
  · rename_i hlt
    have hnot : ∀ n, d.toNat = n → isSpace (Char.ofNat n) = false → False := by
      rintro n rfl hn
      rw [Char.ofNat_toNat, hd] at hn
      cases hn
    split at h
    · exact (hnot _ ‹_› (by decide)).elim
    · exact (hnot _ ‹_› (by decide)).elim
    · exact (hnot _ ‹_› (by decide)).elim
    · exact (hnot _ ‹_› (by decide)).elim
    · exact eq_of_beq h

/-- A digit outside ASCII is one of a block of ten. -/
theorem exists_block_of_isDigit {c : Char} (hlow : ¬ c.toNat < 128) (h : isDigit c = true) :
    ∃ z ∈ CharTables.digitZeros, z ≤ c.toNat ∧ c.toNat < z + 10 := by
  rw [isDigit, digitValue, if_neg hlow, Option.isSome_map, List.find?_isSome] at h
  obtain ⟨z, hz, hrange⟩ := h
  rw [Bool.and_eq_true, decide_eq_true_eq, decide_eq_true_eq] at hrange
  exact ⟨z, hz, hrange⟩

theorem isSpace_of_isDigit {c : Char} (h : isDigit c = true) : isSpace c = false := by
  by_cases hlow : c.toNat < 128
  · exact forall_ascii (P := fun c => isDigit c = true → isSpace c = false) (by decide) hlow h
  · -- no block of ten digits meets a range of spaces
    have htables : ∀ z ∈ CharTables.digitZeros, ∀ r ∈ CharTables.spaceRanges,
        z + 10 ≤ r.1 ∨ r.2 < z := by decide
    obtain ⟨z, hz, hrange⟩ := exists_block_of_isDigit hlow h
    rw [isSpace, if_neg hlow, CharTables.inRanges, List.any_eq_false]
    intro r hr
    have hdisjoint := htables z hz r hr
    simp only [Bool.and_eq_true, decide_eq_true_eq]
    omega

/-- A word character is no space. -/
theorem isSpace_of_isWord {c : Char} (h : isWord c = true) : isSpace c = false := by
  by_cases hlow : c.toNat < 128
  · exact forall_ascii (P := fun c => isWord c = true → isSpace c = false) (by decide) hlow h
  · rw [isWord, if_neg hlow, CharTables.inRanges, List.any_eq_true] at h
    obtain ⟨r, hr, hrange⟩ := h
    rw [isSpace, if_neg hlow, CharTables.inRanges, List.any_eq_false]
    intro r' hr'
    have hdisjoint := List.all_eq_true.mp
      (List.all_eq_true.mp CharTables.tablesFit.words_spaces r hr) r' hr'
    simp only [Bool.or_eq_true, Nat.blt_eq] at hdisjoint
    simp only [Bool.and_eq_true, decide_eq_true_eq] at hrange ⊢
    omega

/-- A digit has no other case. -/
theorem upperChar_of_isDigit {c : Char} (h : isDigit c = true) : upperChar c = c := by
  by_cases hlow : c.toNat < 128
  · rw [upperChar, if_pos hlow]
    exact forall_ascii (P := fun c => isDigit c = true → c.toUpper = c) (by decide) hlow h
  · obtain ⟨z, hz, hrange⟩ := exists_block_of_isDigit hlow h
    have hnone : tableUpper c.toNat = none := by
      rw [tableUpper, List.findSome?_eq_none_iff]
      rintro ⟨first, last, step, distance⟩ hr
      have hdisjoint := List.all_eq_true.mp
        (List.all_eq_true.mp CharTables.tablesFit.lowered_digits _ hr) z hz
      simp only [Bool.and_eq_true, Bool.or_eq_true, Nat.blt_eq] at hdisjoint
      dsimp only
      rw [if_neg]
      simp only [Bool.and_eq_true, decide_eq_true_eq]
      omega
    rw [upperChar, if_neg hlow, hnone]
    rfl

theorem lowerChar_of_isDigit {c : Char} (h : isDigit c = true) : lowerChar c = [c] := by
  by_cases hlow : c.toNat < 128
  · have hlower : c.toLower = c :=
      forall_ascii (P := fun c => isDigit c = true → c.toLower = c) (by decide) hlow h
    rw [lowerChar, if_pos hlow, hlower]
  · have hdotted : ∀ z ∈ CharTables.digitZeros, ¬ (z ≤ 0x130 ∧ 0x130 < z + 10) := by decide
    obtain ⟨z, hz, hrange⟩ := exists_block_of_isDigit hlow h
    have hnone : tableLower c.toNat = none := by
      rw [tableLower, List.findSome?_eq_none_iff]
      rintro ⟨first, last, step, distance⟩ hr
      have hdisjoint := List.all_eq_true.mp
        (List.all_eq_true.mp CharTables.tablesFit.runs_digits _ hr) z hz
      simp only [Bool.or_eq_true, Nat.blt_eq] at hdisjoint
      dsimp only
      rw [if_neg]
      simp only [Bool.and_eq_true, decide_eq_true_eq]
      omega
    have hne : (c.toNat == 0x130) = false := beq_eq_false_iff_ne.mpr fun heq =>
      hdotted z hz (heq ▸ hrange)
    rw [lowerChar, if_neg hlow, hne, hnone]
    rfl

theorem isWord_of_isDigit {c : Char} (h : isDigit c = true) : isWord c = true := by
  by_cases hlow : c.toNat < 128
  · exact forall_ascii (P := fun c => isDigit c = true → isWord c = true) (by decide) hlow h
  · obtain ⟨z, hz, hrange⟩ := exists_block_of_isDigit hlow h
    obtain ⟨r, hr, hinside⟩ := List.any_eq_true.mp
      (List.all_eq_true.mp CharTables.tablesFit.digits_words z hz)
    rw [isWord, if_neg hlow, CharTables.inRanges, List.any_eq_true]
    refine ⟨r, hr, ?_⟩
    simp only [Bool.and_eq_true, Nat.ble_eq] at hinside
    simp only [Bool.and_eq_true, decide_eq_true_eq]
    omega

/-- What is no decimal digit is one of a range of others. -/
theorem exists_range_of_isDigitChar {c : Char} (hdigit : isDigit c = false)
    (h : isDigitChar c = true) :
    ∃ r ∈ CharTables.otherDigitRanges, r.1 ≤ c.toNat ∧ c.toNat ≤ r.2 := by
  rw [isDigitChar, hdigit, Bool.false_or, CharTables.inRanges, List.any_eq_true] at h
  obtain ⟨r, hr, hrange⟩ := h
  rw [Bool.and_eq_true, decide_eq_true_eq, decide_eq_true_eq] at hrange
  exact ⟨r, hr, hrange⟩

theorem isWord_of_isDigitChar {c : Char} (h : isDigitChar c = true) : isWord c = true := by
  cases hdigit : isDigit c with
  | true => exact isWord_of_isDigit hdigit
  | false =>
    obtain ⟨q, hq, hrange⟩ := exists_range_of_isDigitChar hdigit h
    obtain ⟨hhigh, hany⟩ := Bool.and_eq_true_iff.mp
      (List.all_eq_true.mp CharTables.tablesFit.others_words q hq)
    obtain ⟨r, hr, hinside⟩ := List.any_eq_true.mp hany
    rw [Nat.ble_eq] at hhigh
    rw [isWord, if_neg (by omega), CharTables.inRanges, List.any_eq_true]
    refine ⟨r, hr, ?_⟩
    simp only [Bool.and_eq_true, Nat.ble_eq] at hinside
    simp only [Bool.and_eq_true, decide_eq_true_eq]
    omega

theorem lowerChar_of_isDigitChar {c : Char} (h : isDigitChar c = true) : lowerChar c = [c] := by
  cases hdigit : isDigit c with
  | true => exact lowerChar_of_isDigit hdigit
  | false =>
    obtain ⟨q, hq, hrange⟩ := exists_range_of_isDigitChar hdigit h
    have hrow := List.all_eq_true.mp CharTables.tablesFit.others_dotted q hq
    simp only [Bool.and_eq_true, Bool.or_eq_true, Nat.ble_eq, Nat.blt_eq] at hrow
    have hnone : tableLower c.toNat = none := by
      rw [tableLower, List.findSome?_eq_none_iff]
      rintro ⟨first, last, step, distance⟩ hr
      have hdisjoint := List.all_eq_true.mp
        (List.all_eq_true.mp CharTables.tablesFit.others_runs q hq) _ hr
      simp only [Bool.or_eq_true, Nat.blt_eq] at hdisjoint
      dsimp only
      rw [if_neg]
      simp only [Bool.and_eq_true, decide_eq_true_eq]
      omega
    have hne : (c.toNat == 0x130) = false := beq_eq_false_iff_ne.mpr (by omega)
    rw [lowerChar, if_neg (by omega), hne, hnone]
    rfl

/-- A lower case in the table has no lower case there. -/
theorem tableLower_of_tableLower {n m : Nat} (h : tableLower n = some m) :
    tableLower m = none ∧ m ≠ 0x130 ∧ (128 ≤ m ∨ m = 'k'.toNat) := by
  rw [tableLower] at h
  obtain ⟨⟨first, last, step, distance⟩, hrun, hm⟩ := List.exists_of_findSome?_eq_some h
  obtain ⟨hlow, hdotted⟩ := CharTables.tablesFit.lowered_cases _ hrun
  dsimp only at hm hlow hdotted
  split at hm
  · rename_i hin
    cases hm
    simp only [Bool.and_eq_true, decide_eq_true_eq, beq_iff_eq] at hin
    refine ⟨?_, by rcases hdotted with h | h | ⟨rfl, h⟩ <;> omega,
      by rcases hlow with h | ⟨rfl, h⟩ <;> omega⟩
    rw [tableLower, List.findSome?_eq_none_iff]
    rintro ⟨first', last', step', distance'⟩ hrun'
    have hpair := List.all_eq_true.mp
      (List.all_eq_true.mp CharTables.tablesFit.lowered_runs _ hrun) _ hrun'
    simp only [Bool.and_eq_true, Bool.or_eq_true, beq_iff_eq, Nat.blt_eq] at hpair
    dsimp only
    rw [if_neg]
    simp only [Bool.and_eq_true, decide_eq_true_eq, beq_iff_eq]
    rintro ⟨hin', hstep'⟩
    obtain (hbefore | hbehind) | ⟨⟨hsparse, rfl⟩, hparity⟩ := hpair
    · omega
    · omega
    · rcases hsparse with rfl | rfl <;> omega
  · cases hm

/-- A lower-case letter has no other lower case. -/
theorem lowerChar_of_mem {c d : Char} (h : d ∈ lowerChar c) : lowerChar d = [d] := by
  have hascii : ∀ {c : Char}, c.toNat < 128 → lowerChar c.toLower = [c.toLower] := by
    intro c hlow
    exact forall_ascii (P := fun c => lowerChar c.toLower = [c.toLower]) (by decide) hlow
  have hother : ∀ {c : Char}, ¬ c.toNat < 128 → c.toNat ≠ 0x130 → tableLower c.toNat = none →
      lowerChar c = [c] := by
    intro c hlow hne hnone
    rw [lowerChar, if_neg hlow, beq_eq_false_iff_ne.mpr hne, hnone]
    rfl
  by_cases hlow : c.toNat < 128
  · rw [lowerChar, if_pos hlow, List.mem_singleton] at h
    rw [h]
    exact hascii hlow
  · rw [lowerChar, if_neg hlow] at h
    split at h
    · have hdotted : ∀ d ∈ ['i', Char.ofNat 0x307], lowerChar d = [d] := by decide +kernel
      exact hdotted d h
    · rename_i hne
      rw [List.mem_singleton] at h
      cases hlower : tableLower c.toNat with
      | none =>
        rw [hlower] at h
        obtain rfl : d = c := h
        exact hother hlow (by simpa using hne) hlower
      | some n =>
        rw [hlower] at h
        obtain rfl : d = Char.ofNat n := h
        obtain ⟨hnone, hdotted, hrange⟩ := tableLower_of_tableLower hlower
        by_cases hvalid : n.isValidChar
        · have hcode : (Char.ofNat n).toNat = n := by
            rw [Char.ofNat, dif_pos hvalid]
            rfl
          rw [← hcode] at hnone hdotted
          rcases hrange with hrange | rfl
          · exact hother (by omega) hdotted hnone
          · decide +kernel
        · rw [Char.ofNat, dif_neg hvalid]
          decide +kernel

namespace Text

/-! ## Trimming -/

/-- `s.lstrip(chars)`. -/
def lstripBy (p : Char → Bool) (s : Text) : Text := s.dropWhile p

/-- `s.rstrip(chars)`. -/
def rstripBy (p : Char → Bool) (s : Text) : Text := (s.reverse.dropWhile p).reverse

/-- `s.strip(chars)`. -/
def stripBy (p : Char → Bool) (s : Text) : Text := rstripBy p (lstripBy p s)

theorem rstripBy_prefix (p : Char → Bool) (s : Text) : rstripBy p s <+: s := by
  obtain ⟨t, ht⟩ := List.dropWhile_suffix p (l := s.reverse)
  refine ⟨t.reverse, ?_⟩
  rw [rstripBy, ← List.reverse_append, ht, List.reverse_reverse]

/-- Nothing is left to strip from a stripped text. -/
theorem stripBy_stripBy (p : Char → Bool) (s : Text) :
    stripBy p (stripBy p s) = stripBy p s := by
  have hright : ∀ t : Text, rstripBy p (rstripBy p t) = rstripBy p t := by
    intro t
    rw [rstripBy, rstripBy, List.reverse_reverse, List.dropWhile_idempotent p]
  -- what stripping the right leaves begins as what stripping the left left
  have hprefix : stripBy p s <+: s.dropWhile p := rstripBy_prefix p _
  have hleft : lstripBy p (stripBy p s) = stripBy p s := by
    cases hstrip : stripBy p s with
    | nil => rfl
    | cons c t =>
      obtain ⟨r, hr⟩ := hprefix
      rw [hstrip] at hr
      have hc : p c = false := by
        have hhead := List.head?_dropWhile_not p s
        rw [← hr] at hhead
        simpa using hhead
      exact List.dropWhile_cons_of_neg (by rw [hc]; decide)
  rw [stripBy, hleft]
  exact hright _

/-- Nothing is stripped of a text whose ends are kept. -/
theorem stripBy_of_ends {p : Char → Bool} {s : Text} (hfirst : ∀ c ∈ s.head?, p c = false)
    (hlast : ∀ c ∈ s.getLast?, p c = false) : stripBy p s = s := by
  have stands : ∀ t : Text, (∀ c ∈ t.head?, p c = false) → t.dropWhile p = t := by
    intro t ht
    cases t with
    | nil => rfl
    | cons c t => exact List.dropWhile_cons_of_neg (by rw [ht c rfl]; decide)
  rw [← List.head?_reverse] at hlast
  rw [stripBy, lstripBy, stands s hfirst, rstripBy, stands _ hlast, List.reverse_reverse]

theorem stripBy_eq_self {p : Char → Bool} {s : Text} (h : ∀ c ∈ s, p c = false) :
    stripBy p s = s :=
  stripBy_of_ends (fun c hc => h c (List.mem_of_head? hc)) fun c hc =>
    h c (List.mem_of_getLast? hc)

/-- A character is trimmed, or stays in the text. -/
theorem mem_or_mem_stripBy {p : Char → Bool} {s : Text} {c : Char} (hc : c ∈ s) :
    p c = true ∨ c ∈ stripBy p s := by
  have hcut : ∀ t : Text, c ∈ t → p c = true ∨ c ∈ t.dropWhile p := by
    intro t ht
    rw [← List.takeWhile_append_dropWhile (p := p) (l := t), List.mem_append] at ht
    exact ht.imp_left fun h => List.all_eq_true.mp List.all_takeWhile c h
  rcases hcut s hc with h | h
  · exact .inl h
  · exact (hcut _ (List.mem_reverse.mpr h)).imp_right List.mem_reverse.mpr

/-- Behind a character that is kept, a text is trimmed at its end only. -/
theorem stripBy_append {p : Char → Bool} {a : Text} (h : a.getLast?.any (!p ·) = true) (b : Text) :
    stripBy p (a ++ b) = stripBy p a ++ rstripBy p b := by
  rcases List.eq_nil_or_concat a with rfl | ⟨a, c, rfl⟩
  · cases h
  · rw [List.concat_eq_append] at h ⊢
    rw [List.getLast?_concat] at h
    have hc : ¬ p c = true := by simpa using h
    have hleft : ∀ b : Text, lstripBy p (a ++ [c] ++ b) = a.dropWhile p ++ c :: b := by
      intro b
      rw [lstripBy, List.append_assoc, List.dropWhile_append]
      split
      · rename_i hnil
        rw [List.isEmpty_iff.mp hnil]
        exact List.dropWhile_cons_of_neg hc
      · rfl
    have hright : ∀ a b : Text, rstripBy p (a ++ c :: b) = a ++ c :: rstripBy p b := by
      intro a b
      rw [rstripBy, List.reverse_append, List.reverse_cons, List.append_assoc,
        List.dropWhile_append, rstripBy]
      split
      · rename_i hnil
        rw [List.isEmpty_iff.mp hnil, List.singleton_append, List.dropWhile_cons_of_neg hc]
        simp
      · simp
    have hself := hleft []
    have hnil : rstripBy p [] = [] := rfl
    rw [List.append_nil] at hself
    rw [stripBy, hleft, hright, stripBy, hself, hright, hnil, List.append_assoc, List.cons_append,
      List.nil_append]

/-- `s.strip()`. -/
def strip (s : Text) : Text := stripBy isSpace s

/-- `s.rstrip()`. -/
def rstrip (s : Text) : Text := rstripBy isSpace s

/-- `not s.strip()`. -/
def isBlank (s : Text) : Bool := s.all isSpace

/-! ## Case -/

/-- `s.lower()`. -/
def lower (s : Text) : Text := s.flatMap lowerChar

theorem lower_eq_self {s : Text} (h : ∀ c ∈ s, lowerChar c = [c]) : lower s = s := by
  induction s with
  | nil => rfl
  | cons c s ih =>
    rw [lower, List.flatMap_cons, h c List.mem_cons_self]
    exact congrArg (c :: ·) (ih fun d hd => h d (List.mem_cons_of_mem _ hd))

/-- `s.upper()`. -/
def upper (s : Text) : Text := s.map upperChar

/-! ## Searching and splitting -/

/-- What is left of `s` after the prefix `p`. -/
def dropPrefix? : Text → Text → Option Text
  | [], s => some s
  | _ :: _, [] => none
  | a :: p, b :: s => if a == b then dropPrefix? p s else none

theorem dropPrefix?_append (p s : Text) : dropPrefix? p (p ++ s) = some s := by
  induction p with
  | nil => cases s <;> rfl
  | cons c p ih =>
    rw [List.cons_append, Text.dropPrefix?, beq_self_eq_true, if_pos rfl]
    exact ih

/-- `s.startswith(p)`. -/
def startsWith (s p : Text) : Bool := (dropPrefix? p s).isSome

/-- `s.endswith(p)`. -/
def endsWith (s p : Text) : Bool := startsWith s.reverse p.reverse

/-- `s.find(sub)`, with `none` for Python's `-1`. -/
def find? (sub : Text) : Text → Option Nat
  | [] => if sub.isEmpty then some 0 else none
  | c :: s => if startsWith (c :: s) sub then some 0 else (find? sub s).map (· + 1)

/-- `sub in s`. -/
def contains (s sub : Text) : Bool := (find? sub s).isSome

/-- `s.replace(old, new)` for a non-empty `old`: `skip` characters of the current
occurrence are still to be dropped. -/
def replaceFrom (old new : Text) : Nat → Text → Text
  | _, [] => []
  | 0, c :: s =>
      if startsWith (c :: s) old then new ++ replaceFrom old new (old.length - 1) s
      else c :: replaceFrom old new 0 s
  | skip + 1, _ :: s => replaceFrom old new skip s

/-- `s.replace(old, new)` for a non-empty `old`. -/
def replace (s old new : Text) : Text := replaceFrom old new 0 s

/-- `s.split(sep)` for a one-character separator. -/
def splitOn (sep : Char) : Text → List Text
  | [] => [[]]
  | c :: s =>
      if c == sep then [] :: splitOn sep s
      else match splitOn sep s with
        | [] => [[c]]
        | w :: ws => (c :: w) :: ws

/-- `s.split()`: the maximal runs of non-space characters. -/
def words (s : Text) : List Text :=
  (s.foldr (fun c acc =>
      if isSpace c then [] :: acc
      else match acc with
        | [] => [[c]]
        | w :: ws => (c :: w) :: ws) [[]]).filter (!·.isEmpty)

/-- `sep.join(parts)`. -/
def join (sep : Text) (parts : List Text) : Text := sep.intercalate parts

/-- `s.partition(sep)` for a one-character separator, without the separator. -/
def partition (sep : Char) (s : Text) : Text × Text :=
  match s.span (· != sep) with
  | (before, []) => (before, [])
  | (before, _ :: after) => (before, after)

/-- Replacing keeps what holds of every character. -/
theorem all_replaceFrom {old new : Text} {p : Char → Bool} (hnew : new.all p = true) (skip : Nat)
    {s : Text} (hs : s.all p = true) : (replaceFrom old new skip s).all p = true := by
  induction s generalizing skip with
  | nil =>
    cases skip <;> rfl
  | cons c s ih =>
    rw [List.all_cons, Bool.and_eq_true] at hs
    cases skip with
    | zero =>
      rw [replaceFrom]
      split
      · rw [List.all_append, hnew, ih _ hs.2]
        rfl
      · rw [List.all_cons, hs.1, ih _ hs.2]
        rfl
    | succ skip => exact ih skip hs.2

/-! ## Numbers -/

/-- `int(s)` of a run of decimal digits. -/
def toNat (s : Text) : Nat := s.foldl (fun n c => n * 10 + (digitValue c).getD 0) 0

/-- `str(n)` of a natural number. -/
def ofNat (n : Nat) : Text := (Nat.toDigits 10 n)

/-- `str(n)` of an integer. -/
def ofInt : Int → Text
  | .ofNat n => ofNat n
  | .negSucc n => '-' :: ofNat (n + 1)

/-! ## Blank text -/

@[simp] theorem isBlank_nil : isBlank [] = true := rfl

theorem isBlank_append (s t : Text) : isBlank (s ++ t) = (isBlank s && isBlank t) :=
  List.all_append

theorem isBlank_reverse (s : Text) : isBlank s.reverse = isBlank s := List.all_reverse

/-- A text is blank exactly when nothing is left of it once it is trimmed on one
side. -/
theorem dropWhile_eq_nil_iff_isBlank (s : Text) : s.dropWhile isSpace = [] ↔ isBlank s := by
  simp [isBlank, List.dropWhile_eq_nil_iff]

/-- Trimming one side drops blank characters only. -/
theorem isBlank_dropWhile (s : Text) : isBlank (s.dropWhile isSpace) = isBlank s := by
  have h : isBlank s = (isBlank (s.takeWhile isSpace) && isBlank (s.dropWhile isSpace)) := by
    rw [← isBlank_append, List.takeWhile_append_dropWhile]
  have htake : isBlank (s.takeWhile isSpace) = true := List.all_takeWhile
  rw [h, htake, Bool.true_and]

@[simp] theorem isBlank_rstrip (s : Text) : isBlank (rstrip s) = isBlank s := by
  rw [rstrip, rstripBy, isBlank_reverse, isBlank_dropWhile, isBlank_reverse]

/-- Trimming keeps a text blank, and keeps it non-blank. -/
@[simp] theorem isBlank_strip (s : Text) : isBlank (strip s) = isBlank s := by
  show isBlank (rstrip (s.dropWhile isSpace)) = _
  rw [isBlank_rstrip, isBlank_dropWhile]

theorem all_rstripBy {p q : Char → Bool} {s : Text} (h : s.all p = true) :
    (rstripBy q s).all p = true := by
  rw [rstripBy, List.all_reverse, List.all_eq_true]
  intro c hc
  exact List.all_eq_true.mp h c (List.mem_reverse.mp ((List.dropWhile_sublist q).subset hc))

theorem all_rstrip {p : Char → Bool} {s : Text} (h : s.all p = true) : (rstrip s).all p = true :=
  all_rstripBy h

theorem all_strip {p : Char → Bool} {s : Text} (h : s.all p = true) : (strip s).all p = true := by
  refine all_rstripBy (List.all_eq_true.mpr fun c hc => ?_)
  exact List.all_eq_true.mp h c ((List.dropWhile_sublist _).subset hc)

theorem strip_eq_nil_iff (s : Text) : strip s = [] ↔ isBlank s := by
  show (List.reverse _ = []) ↔ _
  rw [List.reverse_eq_nil_iff, dropWhile_eq_nil_iff_isBlank, isBlank_reverse]
  show isBlank (s.dropWhile isSpace) = true ↔ _
  rw [isBlank_dropWhile]

end Text
end OmniCare
