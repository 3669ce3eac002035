import OmniCare.Identifiers
import OmniCare.Numerals

/-! # Digits read out

What `_words_to_digits` makes of the digits that somebody reads out.  It goes by the values of the
number words (`spokenDigits`), which the name of a letter and the punctuation around a word leave
as they are.  **Four digits that are read out are put together again**, and without the last word
they are not (`exists_values_of_readOut`).
-/
namespace OmniCare

open Numerals

/-! ## Values -/

/-- The value of a number word. -/
def wordValue (word : Text) : Option Nat := (units.lookup word).or (tens.lookup word)

/-- The value of a token. -/
def value (token : Text) : Option Nat := wordValue (bare token)

/-- What `_words_to_digits` makes of values: twenty and more take a unit with them. -/
def spokenDigits : List Nat → Text
  | [] => []
  | [v] => Text.ofNat v
  | v :: k :: rest =>
      if 20 ≤ v ∧ 1 ≤ k ∧ k ≤ 9 then Text.ofNat (v + k) ++ spokenDigits rest
      else Text.ofNat v ++ spokenDigits (k :: rest)

/-- What is known of a word that has a value. -/
structure ValueSound (word : Text) (v : Nat) : Prop where
  lower : Text.lower word = word
  digits : isDigits word = false
  unit : v < 20 → units.lookup word = some v ∧ tens.lookup word = none
  ten : 20 ≤ v → units.lookup word = none ∧ tens.lookup word = some v

theorem mem_of_lookup {table : List (Text × Nat)} {word : Text} {v : Nat}
    (h : table.lookup word = some v) : (word, v) ∈ table := by
  obtain ⟨l₁, l₂, rfl, -⟩ := List.lookup_eq_some_iff.mp h
  exact List.mem_append_right _ List.mem_cons_self

theorem valueSound {word : Text} {v : Nat} (h : wordValue word = some v) : ValueSound word v := by
  have hunits : ∀ p ∈ units, Text.lower p.1 = p.1 ∧ isDigits p.1 = false ∧ p.2 < 20 ∧
      units.lookup p.1 = some p.2 ∧ tens.lookup p.1 = none := by decide
  have htens : ∀ p ∈ tens, Text.lower p.1 = p.1 ∧ isDigits p.1 = false ∧ 20 ≤ p.2 ∧
      units.lookup p.1 = none ∧ tens.lookup p.1 = some p.2 := by decide
  rw [wordValue, Option.or_eq_some_iff] at h
  obtain hunit | ⟨-, hten⟩ := h
  · obtain ⟨hlower, hdigits, hsmall, hlookup⟩ := hunits _ (mem_of_lookup hunit)
    exact ⟨hlower, hdigits, fun _ => hlookup, fun hle => absurd hsmall (not_lt.mpr hle)⟩
  · obtain ⟨hlower, hdigits, hlarge, hlookup⟩ := htens _ (mem_of_lookup hten)
    exact ⟨hlower, hdigits, fun hlt => absurd hlarge (not_le.mpr hlt), fun _ => hlookup⟩

theorem tellsNumber_of_value {token : Text} {v : Nat} (h : value token = some v) :
    tellsNumber token = true := by
  rw [value, wordValue, Option.or_eq_some_iff] at h
  unfold tellsNumber isSpokenNumber
  obtain hunit | ⟨-, hten⟩ := h
  · simp [hunit]
  · simp [hten]

/-- The letter that a token may be the name of has its value: `oh` is a zero. -/
theorem value_lettered (token : Text) : value (lettered token) = value token := by
  have hall : ∀ p ∈ letters, value p.2 = value p.1 := by decide
  unfold lettered
  cases hletter : letters.lookup token with
  | none => rfl
  | some letter =>
    obtain ⟨l₁, l₂, heq, -⟩ := List.lookup_eq_some_iff.mp hletter
    exact hall (token, letter) (heq ▸ List.mem_append_right _ List.mem_cons_self)

/-- Each of the first is related to one of the second. -/
theorem exists_of_forall₂ {α β : Type} {R : α → β → Prop} {as : List α} {bs : List β}
    (h : List.Forall₂ R as bs) {a : α} (ha : a ∈ as) : ∃ b ∈ bs, R a b := by
  induction h with
  | nil => cases ha
  | cons hab _ ih =>
    rcases List.mem_cons.mp ha with rfl | ha
    · exact ⟨_, List.mem_cons_self, hab⟩
    · obtain ⟨b, hb, hab⟩ := ih ha
      exact ⟨b, List.mem_cons_of_mem _ hb, hab⟩

/-- The tokens have the values. -/
def Values (tokens : List Text) (vs : List Nat) : Prop :=
  List.Forall₂ (fun token v => value token = some v) tokens vs

theorem Values.tellsNumber {tokens : List Text} {vs : List Nat} (h : Values tokens vs) :
    tokens.all tellsNumber = true := by
  induction h with
  | nil => rfl
  | cons hvalue _ ih => rw [List.all_cons, tellsNumber_of_value hvalue, ih]; rfl

theorem Values.lettered {tokens : List Text} {vs : List Nat} (h : Values tokens vs) :
    Values (tokens.map lettered) vs := by
  rw [Values, List.forall₂_map_left_iff]
  exact List.Forall₂.imp (fun token v hvalue => (value_lettered token).trans hvalue) h

/-- The last of the tokens has the last of the values. -/
theorem Values.exists_concat {tokens : List Text} {token : Text} {vs : List Nat}
    (h : Values (tokens ++ [token]) vs) :
    ∃ us v, vs = us ++ [v] ∧ Values tokens us ∧ value token = some v := by
  induction tokens generalizing vs with
  | nil =>
    cases h with
    | cons hvalue h =>
      cases h
      exact ⟨[], _, rfl, .nil, hvalue⟩
  | cons first tokens ih =>
    cases h with
    | cons hvalue h =>
      obtain ⟨us, v, rfl, hus, hv⟩ := ih h
      exact ⟨_ :: us, v, rfl, .cons hvalue hus, hv⟩

section Words

variable {token next : Text} {rest : List Text} {v k : Nat}

/-- A unit stands for itself. -/
theorem wordsToDigits_unit (h : ValueSound token v) (hv : v < 20) :
    wordsToDigits (token :: rest) = Text.ofNat v ++ wordsToDigits rest := by
  obtain ⟨hunits, htens⟩ := h.unit hv
  rw [← h.lower] at hunits htens
  have hdigits := h.digits
  rw [← h.lower] at hdigits
  conv_lhs => unfold wordsToDigits
  simp only [hdigits, htens, hunits, Bool.false_eq_true, if_false]

theorem wordsToDigits_ten_last (h : ValueSound token v) (hv : 20 ≤ v) :
    wordsToDigits [token] = Text.ofNat v := by
  have htens := (h.ten hv).2
  have hdigits := h.digits
  rw [← h.lower] at htens hdigits
  conv_lhs => unfold wordsToDigits
  simp only [hdigits, htens, Bool.false_eq_true, if_false]

/-- A multiple of ten takes a unit from one to nine with it. -/
theorem wordsToDigits_ten (h : ValueSound token v) (hv : 20 ≤ v) (hnext : ValueSound next k) :
    wordsToDigits (token :: next :: rest) =
      if 1 ≤ k ∧ k ≤ 9 then Text.ofNat (v + k) ++ wordsToDigits rest
      else Text.ofNat v ++ wordsToDigits (next :: rest) := by
  have htens := (h.ten hv).2
  have hdigits := h.digits
  rw [← h.lower] at htens hdigits
  have hlookup : units.lookup (Text.lower next) = if k < 20 then some k else none := by
    rw [hnext.lower]
    rcases Nat.lt_or_ge k 20 with hk | hk
    · rw [if_pos hk, (hnext.unit hk).1]
    · rw [if_neg (not_lt.mpr hk), (hnext.ten hk).1]
  conv_lhs => unfold wordsToDigits
  simp only [hdigits, htens, hlookup, Bool.false_eq_true, if_false]
  rcases Nat.lt_or_ge k 20 with hk | hk
  · rw [if_pos hk]
  · rw [if_neg (not_lt.mpr hk), if_neg (by omega)]

end Words

/-- **`_words_to_digits` goes by the values of the words.** -/
theorem wordsToDigits_of_values {tokens : List Text} {vs : List Nat} (h : Values tokens vs) :
    wordsToDigits (tokens.map bare) = spokenDigits vs := by
  induction hn : tokens.length using Nat.strong_induction_on generalizing tokens vs with
  | _ n ih =>
    cases h with
    | nil => rfl
    | @cons token v tokens vs hvalue h =>
      have hsound := valueSound hvalue
      have htail := ih tokens.length (by rw [← hn, List.length_cons]; omega) h rfl
      rcases Nat.lt_or_ge v 20 with hsmall | hlarge
      · have hfirst : spokenDigits (v :: vs) = Text.ofNat v ++ spokenDigits vs := by
          cases vs with
          | nil => exact (List.append_nil _).symm
          | cons k vs => rw [spokenDigits, if_neg (by omega)]
        rw [List.map_cons, wordsToDigits_unit hsound hsmall, htail, hfirst]
      · cases h with
        | nil => exact wordsToDigits_ten_last hsound hlarge
        | @cons next k tokens vs hnext h =>
          have hrest := ih tokens.length
            (by rw [← hn, List.length_cons, List.length_cons]; omega) h rfl
          rw [List.map_cons] at htail
          rw [List.map_cons, List.map_cons,
            wordsToDigits_ten hsound hlarge (valueSound hnext), htail, hrest, spokenDigits]
          by_cases hboth : 1 ≤ k ∧ k ≤ 9
          · rw [if_pos hboth, if_pos ⟨hlarge, hboth⟩]
          · rw [if_neg hboth, if_neg fun hall => hboth hall.2]

/-! ## Four digits -/

/-- The digits as text. -/
def digitText (ds : List Nat) : Text := ds.map Nat.digitChar

theorem ofNat_digit {n : Nat} (hn : n < 10) : Text.ofNat n = digitText [n] := by
  have hall : ∀ n < 10, Text.ofNat n = digitText [n] := by decide
  exact hall n hn

theorem ofNat_twoDigits {n : Nat} (hn : n < 100) (hlow : 10 ≤ n) :
    Text.ofNat n = digitText [n / 10, n % 10] := by
  have hall : ∀ n < 100, 10 ≤ n → Text.ofNat n = digitText [n / 10, n % 10] := by decide
  exact hall n hn hlow

theorem value_of_mem_digits {w : Text} {n : Nat} (h : (w, n) ∈ digits) :
    wordValue w = some n ∧ n < 10 := by
  have hall : ∀ p ∈ digits, wordValue p.1 = some p.2 ∧ p.2 < 10 := by decide
  exact hall _ h

theorem value_of_mem_small {w : Text} {n : Nat} (h : (w, n) ∈ small) :
    wordValue w = some n ∧ n < 20 := by
  have hall : ∀ p ∈ small, wordValue p.1 = some p.2 ∧ p.2 < 20 := by decide
  exact hall _ h

theorem value_of_mem_decades {w : Text} {n : Nat} (h : (w, n) ∈ decades) :
    wordValue w = some n ∧ 20 ≤ n ∧ n < 100 ∧ n % 10 = 0 := by
  have hall : ∀ p ∈ decades, wordValue p.1 = some p.2 ∧ 20 ≤ p.2 ∧ p.2 < 100 ∧ p.2 % 10 = 0 := by
    decide
  exact hall _ h

/-- The values of two digits that are read out together. -/
inductive PairValues : Nat → List Nat → Prop
  | whole {n : Nat} (hlow : 10 ≤ n) (hn : n < 100) : PairValues n [n]
  | both {n k : Nat} (hn : 20 ≤ n) (hn' : n < 100) (hzero : n % 10 = 0) (hk : 1 ≤ k)
      (hk' : k ≤ 9) : PairValues (n + k) [n, k]
  | digits {k : Nat} (hk : k < 10) : PairValues k [0, k]

/-- The words have the values. -/
def WordValues (words : List Text) (vs : List Nat) : Prop :=
  List.Forall₂ (fun word v => wordValue word = some v) words vs

theorem pairValues_of_pair {n : Nat} {ws : List Text} (h : Pair n ws) :
    ∃ vs, WordValues ws vs ∧ PairValues n vs := by
  cases h with
  | digits h h' =>
    obtain ⟨hvalue, hk⟩ := value_of_mem_digits h'
    exact ⟨_, .cons (value_of_mem_digits h).1 (.cons hvalue .nil), .digits hk⟩
  | whole h hlow =>
    cases h with
    | small h =>
      obtain ⟨hvalue, hn⟩ := value_of_mem_small h
      exact ⟨_, .cons hvalue .nil, .whole hlow (by omega)⟩
    | decade h =>
      obtain ⟨hvalue, -, hn, -⟩ := value_of_mem_decades h
      exact ⟨_, .cons hvalue .nil, .whole hlow hn⟩
    | both h h' hk =>
      obtain ⟨hvalue, hten, hn, hzero⟩ := value_of_mem_decades h
      exact ⟨_, .cons hvalue (.cons (value_of_mem_small h').1 .nil),
        .both hten hn hzero (pos_of_mem_small h') hk⟩

namespace PairValues

variable {n : Nat} {vs rest : List Nat}

/-- The first of the values goes with no multiple of ten before it. -/
theorem head (h : PairValues n vs) : ∀ k ∈ vs.head?, k = 0 ∨ 10 ≤ k := by
  intro k hk
  cases h with
  | whole hlow _ =>
    cases hk
    exact .inr hlow
  | both hn _ _ _ _ =>
    cases hk
    exact .inr (by omega)
  | digits _ =>
    cases hk
    exact .inl rfl

/-- **A pair is put together again**, before what does not go with it. -/
theorem together (h : PairValues n vs) (hrest : ∀ k ∈ rest.head?, k = 0 ∨ 10 ≤ k) :
    spokenDigits (vs ++ rest) = digitText [n / 10, n % 10] ++ spokenDigits rest := by
  have hlast : ∀ v, spokenDigits (v :: rest) = Text.ofNat v ++ spokenDigits rest := by
    intro v
    cases rest with
    | nil => exact (List.append_nil _).symm
    | cons k rest =>
      have hk := hrest k rfl
      rw [spokenDigits, if_neg (by omega)]
  cases h with
  | whole hlow hn => rw [List.singleton_append, hlast, ofNat_twoDigits hn hlow]
  | @both m k hn hn' hzero hk hk' =>
    rw [List.cons_append, List.cons_append, List.nil_append, spokenDigits, if_pos ⟨hn, hk, hk'⟩,
      ofNat_twoDigits (by omega) (by omega)]
  | digits hk =>
    rw [List.cons_append, List.cons_append, List.nil_append, spokenDigits, if_neg (by omega), hlast,
      ofNat_digit hk, Nat.div_eq_of_lt hk, Nat.mod_eq_of_lt hk]
    rfl

/-- Without its last word a pair has lost a digit, or has another. -/
theorem dropLast (h : PairValues n vs) : spokenDigits vs.dropLast ≠ digitText [n / 10, n % 10] := by
  cases h with
  | whole _ _ =>
    intro heq
    cases heq
  | @both m k hn hn' hzero hk hk' =>
    show Text.ofNat m ≠ _
    rw [ofNat_twoDigits hn' (by omega)]
    have hall : ∀ a < 10, ∀ b < 10, Nat.digitChar a = Nat.digitChar b → a = b := by decide
    intro heq
    have hunit : Nat.digitChar (m % 10) = Nat.digitChar ((m + k) % 10) := by
      have htail := (List.cons.inj heq).2
      exact (List.cons.inj htail).1
    have hsame := hall _ (Nat.mod_lt _ (by decide)) _ (Nat.mod_lt _ (by decide)) hunit
    omega
  | digits _ =>
    show Text.ofNat 0 ≠ _
    intro heq
    have hlength := congrArg List.length heq
    cases hlength

theorem ne_nil (h : PairValues n vs) : vs ≠ [] := by
  cases h <;> exact List.cons_ne_nil _ _

theorem head_dropLast (h : PairValues n vs) : ∀ k ∈ vs.dropLast.head?, k = 0 ∨ 10 ≤ k := by
  intro k hk
  cases h with
  | whole _ _ => cases hk
  | both hn _ _ _ _ =>
    cases hk
    exact .inr (by omega)
  | digits _ =>
    cases hk
    exact .inl rfl

end PairValues

/-- **Four digits that are read out are put together again**, and without the last word they are
not. -/
theorem exists_values_of_readOut {ds : List Nat} {ws : List Text} (h : ReadOut ds ws) :
    ∃ vs, WordValues ws vs ∧ spokenDigits vs = digitText ds ∧
      spokenDigits vs.dropLast ≠ digitText ds := by
  cases h with
  | digitwise ha hb hc hd =>
    obtain ⟨hva, hla⟩ := value_of_mem_digits ha
    obtain ⟨hvb, hlb⟩ := value_of_mem_digits hb
    obtain ⟨hvc, hlc⟩ := value_of_mem_digits hc
    obtain ⟨hvd, hld⟩ := value_of_mem_digits hd
    refine ⟨_, .cons hva (.cons hvb (.cons hvc (.cons hvd .nil))), ?_, ?_⟩
    · rw [spokenDigits, if_neg (by omega), spokenDigits, if_neg (by omega), spokenDigits,
        if_neg (by omega), spokenDigits, ofNat_digit hla, ofNat_digit hlb, ofNat_digit hlc,
        ofNat_digit hld]
      rfl
    · rw [List.dropLast_cons_of_ne_nil (by simp), List.dropLast_cons_of_ne_nil (by simp),
        List.dropLast_cons_of_ne_nil (by simp), List.dropLast_singleton, spokenDigits,
        if_neg (by omega), spokenDigits, if_neg (by omega), spokenDigits, ofNat_digit hla,
        ofNat_digit hlb, ofNat_digit hlc]
      intro heq
      have hlength := congrArg List.length heq
      cases hlength
  | @pairs n k us vs h h' =>
    obtain ⟨as, has, hn⟩ := pairValues_of_pair h
    obtain ⟨bs, hbs, hk⟩ := pairValues_of_pair h'
    have hwhole := hn.together hk.head
    have hsecond : spokenDigits (bs ++ []) = _ := hk.together (by simp)
    rw [List.append_nil] at hsecond
    refine ⟨as ++ bs, List.rel_append has hbs, ?_, ?_⟩
    · rw [hwhole, hsecond]
      rfl
    · rw [List.dropLast_append_of_ne_nil hk.ne_nil, hn.together hk.head_dropLast]
      intro heq
      have hsplit : digitText [n / 10, n % 10, k / 10, k % 10] =
          digitText [n / 10, n % 10] ++ digitText [k / 10, k % 10] := rfl
      rw [hsplit, List.append_cancel_left_eq] at heq
      exact hk.dropLast heq

end OmniCare
