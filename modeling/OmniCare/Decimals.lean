import OmniCare.Amounts
import OmniCare.Settlement
import Mathlib.Tactic.Ring

/-! # `Decimal` of an argument

An amount reaches `Decimal` as the model wrote it, as a JSON number or a text, and once more after
the contract has read it.  `Decimal` of a float is the exact value of the binary64 number, while the
contract reads the shortest numeral; rounded to cents, both are the same (`cents_of_readCents`).
-/
namespace OmniCare

open Rounding

/-! ## The value of a numeral -/

theorem scaled_eq (m e : ℤ) : scaled m e = m * (10 : ℚ) ^ e := by
  unfold scaled
  split
  · rename_i he
    rw [← zpow_natCast, Int.toNat_of_nonneg he]
  · rename_i he
    rw [div_eq_mul_inv, ← zpow_natCast, Int.toNat_of_nonneg (by omega), ← zpow_neg, neg_neg]

theorem scaled_mul_pow (m e : ℤ) (k : ℕ) : scaled (m * 10 ^ k) e = scaled m (e + k) := by
  rw [scaled_eq, scaled_eq, zpow_add₀ (by norm_num), zpow_natCast]
  push_cast
  ring

/-- `Decimal(s)` has this value. -/
structure Denotes (s : Text) (v : ℚ) : Prop where
  plain : ∀ c ∈ s, Plain c
  value : ∃ m e, PyDecimal.ofText s = some (.fin m e) ∧ scaled m e = v

theorem plain_of_ascii {s : Text} (h : s.all Char.isDigit = true) : ∀ c ∈ s, Plain c :=
  fun c hc => plain_of_isDigit (List.all_eq_true.mp (all_isDigit_of_ascii h) c hc)

/-- A numeral with a point. -/
theorem denotes_point (whole fraction : Text) (hwhole : whole.all Char.isDigit = true)
    (hfraction : fraction.all Char.isDigit = true) (hne : fraction ≠ []) :
    Denotes (whole ++ '.' :: fraction)
      (scaled (Text.toNat (whole ++ fraction)) (-(fraction.length : Int))) := by
  have hnumeral : (whole ++ '.' :: fraction).all (fun c => isDigit c || c == '.') = true := by
    have hdigits : ∀ s : Text, s.all Char.isDigit = true →
        s.all (fun c => isDigit c || c == '.') = true := fun s hs =>
      List.all_eq_true.mpr fun c hc => by
        rw [List.all_eq_true.mp (all_isDigit_of_ascii hs) c hc, Bool.true_or]
    rw [List.all_append, List.all_cons, hdigits _ hwhole, hdigits _ hfraction]
    rfl
  refine ⟨plain_of_numeral hnumeral, _, _, ?_, rfl⟩
  rw [ofText_numeral hnumeral, readNumeral_point (all_isDigit_of_ascii hwhole)
    (all_isDigit_of_ascii hfraction) hne]
  rfl

/-- A natural number. -/
theorem denotes_ofNat (n : Nat) : Denotes (Text.ofNat n) n := by
  have hdigits := all_isDigit_of_ascii (all_isDigit_ofNat n)
  have hne : Text.ofNat n ≠ [] := List.ne_nil_of_length_pos Nat.length_toDigits_pos
  have hspan : spanDigits (Text.ofNat n) = (Text.ofNat n, []) := by
    have hspan := span_append (r := []) hdigits nofun
    rwa [List.append_nil] at hspan
  have hread : readNumeral (Text.ofNat n) = some (n, 0) := by
    unfold readNumeral
    simp only [hspan, List.isEmpty_eq_false_iff.mpr hne, Bool.false_eq_true, false_and, if_false,
      List.append_nil, toNat_toDigits]
    rfl
  have hnumeral : (Text.ofNat n).all (fun c => isDigit c || c == '.') = true :=
    List.all_eq_true.mpr fun c hc => by rw [List.all_eq_true.mp hdigits c hc, Bool.true_or]
  refine ⟨plain_of_numeral hnumeral, n, 0, ?_, ?_⟩
  · rw [ofText_numeral hnumeral, hread]
    rfl
  · rw [scaled_eq, zpow_zero, mul_one]
    rfl

/-- A numeral in scientific notation. -/
theorem readNumeral_scientific {first : Char} {tail power : Text} (negative : Bool)
    (hfirst : first.isDigit = true) (htail : tail.all Char.isDigit = true)
    (hpower : power.all Char.isDigit = true) (hne : power ≠ []) :
    readNumeral (first :: (if tail.isEmpty then [] else '.' :: tail) ++
        'e' :: (if negative then '-' else '+') :: power) =
      some (Text.toNat (first :: tail), -(tail.length : Int) +
        (if negative then -(Text.toNat power : Int) else Text.toNat power)) := by
  have hsingle : [first].all isDigit = true :=
    all_isDigit_of_ascii (by rw [List.all_cons, hfirst]; rfl)
  have hspan : spanDigits power = (power, []) := by
    have hspan := span_append (r := []) (all_isDigit_of_ascii hpower) nofun
    rwa [List.append_nil] at hspan
  have hempty : power.isEmpty = false := List.isEmpty_eq_false_iff.mpr hne
  have hwhole : ∀ r : Text, (∀ c ∈ r.head?, isDigit c = false) →
      spanDigits (first :: r) = ([first], r) := fun r hr => span_append hsingle hr
  cases tail with
  | nil =>
    have hstart := hwhole ('e' :: (if negative then '-' else '+') :: power) fun c hc => by
      cases hc
      decide
    unfold readNumeral
    simp only [List.isEmpty_nil, if_true, List.cons_append, List.nil_append, hstart,
      List.isEmpty_cons, Bool.false_eq_true, false_and, if_false]
    cases negative with
    | true => simp [hspan, hempty]
    | false => simp [hspan, hempty]
  | cons d tail =>
    have hstart := hwhole ('.' :: (d :: tail ++ 'e' :: (if negative then '-' else '+') :: power))
      fun c hc => by
        cases hc
        decide
    have hfraction : spanDigits (d :: tail ++ 'e' :: (if negative then '-' else '+') :: power) =
        (d :: tail, 'e' :: (if negative then '-' else '+') :: power) :=
      span_append (all_isDigit_of_ascii htail) fun c hc => by
        cases hc
        decide
    unfold readNumeral
    simp only [List.cons_append] at hfraction hstart
    simp only [List.isEmpty_cons, Bool.false_eq_true, if_false, List.cons_append, hstart,
      hfraction, and_false]
    cases negative with
    | true => simp [hspan, hempty]
    | false => simp [hspan, hempty]

/-- The power of ten in scientific notation has two digits at least. -/
def powerText (n : Nat) : Text :=
  if (Text.ofNat n).length < 2 then '0' :: Text.ofNat n else Text.ofNat n

theorem powerText_spec (n : Nat) :
    (powerText n).all Char.isDigit = true ∧ powerText n ≠ [] ∧ Text.toNat (powerText n) = n := by
  unfold powerText
  split
  · refine ⟨?_, List.cons_ne_nil _ _, ?_⟩
    · rw [List.all_cons, all_isDigit_ofNat]
      rfl
    · exact (toNat_zeros 1 _).trans (toNat_toDigits n)
  · exact ⟨all_isDigit_ofNat n, List.ne_nil_of_length_pos Nat.length_toDigits_pos, toNat_toDigits n⟩

/-- A number in scientific notation. -/
theorem denotes_scientific {m : Nat} (hm : 0 < m) (n : Int) :
    Denotes ((Text.ofNat m).take 1 ++
        (if ((Text.ofNat m).drop 1).isEmpty then [] else '.' :: (Text.ofNat m).drop 1) ++
        (if n < 0 then "e-" else "e+").toList ++ powerText n.natAbs)
      (scaled m (n - (Text.ofNat m).length + 1)) := by
  obtain ⟨first, tail, hdigits, -⟩ := ofNat_head hm
  have hall := all_isDigit_ofNat m
  rw [hdigits, List.all_cons, Bool.and_eq_true] at hall
  obtain ⟨hpower, hne, hvalue⟩ := powerText_spec n.natAbs
  have hread := readNumeral_scientific (decide (n < 0)) hall.1 hall.2 hpower hne
  have hsign : (if n < 0 then "e-" else "e+").toList =
      ['e', if decide (n < 0) = true then '-' else '+'] := by
    by_cases hn : n < 0
    · rw [if_pos hn, if_pos (decide_eq_true hn)]
      rfl
    · rw [if_neg hn, if_neg (by simpa using hn)]
      rfl
  have hexponent : -(tail.length : Int) +
      (if decide (n < 0) = true then -(Text.toNat (powerText n.natAbs) : Int)
        else Text.toNat (powerText n.natAbs)) = n - (first :: tail).length + 1 := by
    rw [hvalue, List.length_cons]
    split
    · rename_i hn
      have hn := of_decide_eq_true hn
      omega
    · rename_i hn
      have hn : ¬ n < 0 := fun h => hn (decide_eq_true h)
      omega
  rw [hexponent, ← hdigits, toNat_toDigits, hdigits] at hread
  have hfirst : isDigit first = true := forall_digit (by decide) (s := [first]) (by simp [hall.1])
    first List.mem_cons_self
  have hplain : ∀ c ∈ (first :: (if tail.isEmpty then [] else '.' :: tail)) ++
      'e' :: (if decide (n < 0) = true then '-' else '+') :: powerText n.natAbs, Plain c := by
    intro c hc
    rcases List.mem_append.mp hc with hc | hc
    · rcases List.mem_cons.mp hc with rfl | hc
      · exact plain_of_isDigit hfirst
      · split at hc
        · cases hc
        · rcases List.mem_cons.mp hc with rfl | hc
          · exact ⟨rfl, by decide, rfl⟩
          · exact plain_of_ascii hall.2 c hc
    · rcases List.mem_cons.mp hc with rfl | hc
      · exact ⟨rfl, by decide, rfl⟩
      · rcases List.mem_cons.mp hc with rfl | hc
        · split
          · exact ⟨rfl, by decide, rfl⟩
          · exact ⟨rfl, by decide, rfl⟩
        · exact plain_of_ascii hpower c hc
  rw [hdigits, hsign]
  show Denotes ((first :: (if tail.isEmpty then [] else '.' :: tail)) ++ ['e', _] ++ _) _
  rw [List.append_assoc]
  refine ⟨hplain, m, n - (first :: tail).length + 1, ?_, rfl⟩
  refine (ofText_plain hplain fun c hc => ?_).trans ?_
  · cases hc
    exact not_sign_of_isDigit hfirst
  · rw [hread]
    rfl

theorem all_isDigit_zeros (k : Nat) : (List.replicate k '0').all Char.isDigit = true := by
  rw [List.all_replicate]
  simp

theorem ofNat_ne_nil (n : Nat) : Text.ofNat n ≠ [] :=
  List.ne_nil_of_length_pos Nat.length_toDigits_pos

/-- The point stands before the digits of the coefficient. -/
theorem denotes_fraction (m k : Nat) :
    Denotes ("0.".toList ++ List.replicate k '0' ++ Text.ofNat m)
      (scaled m (-((k + (Text.ofNat m).length : Nat) : Int))) := by
  have hfraction : (List.replicate k '0' ++ Text.ofNat m).all Char.isDigit = true := by
    rw [List.all_append, all_isDigit_zeros, all_isDigit_ofNat]
    rfl
  have hvalue : Text.toNat (['0'] ++ (List.replicate k '0' ++ Text.ofNat m)) = m := by
    rw [← List.append_assoc]
    show Text.toNat (List.replicate (k + 1) '0' ++ Text.ofNat m) = m
    rw [toNat_zeros, toNat_toDigits]
  have hpoint := denotes_point ['0'] _ rfl hfraction
    (List.append_ne_nil_of_right_ne_nil _ (ofNat_ne_nil m))
  rwa [hvalue, List.length_append, List.length_replicate] at hpoint

/-- The point stands behind the digits, or behind zeros that follow them. -/
theorem denotes_whole (m k : Nat) :
    Denotes (Text.ofNat m ++ List.replicate k '0' ++ ".0".toList) (scaled m k) := by
  have hwhole : (Text.ofNat m ++ List.replicate k '0').all Char.isDigit = true := by
    rw [List.all_append, all_isDigit_zeros, all_isDigit_ofNat]
    rfl
  have hvalue : Text.toNat (Text.ofNat m ++ List.replicate k '0' ++ ['0']) = m * 10 ^ (k + 1) := by
    rw [List.append_assoc, show List.replicate k '0' ++ ['0'] = List.replicate (k + 1) '0' from
      List.replicate_succ'.symm, toNat_append_zeros, toNat_toDigits]
  have hpoint := denotes_point _ ['0'] hwhole rfl (List.cons_ne_nil _ _)
  rw [hvalue] at hpoint
  push_cast at hpoint
  rwa [scaled_mul_pow, show -(([('0' : Char)].length : Nat) : Int) + ((k + 1 : Nat) : Int) = k by
    simp] at hpoint

/-- The point stands between the digits. -/
theorem denotes_between {m k : Nat} (hk : k < (Text.ofNat m).length) :
    Denotes ((Text.ofNat m).take k ++ '.' :: (Text.ofNat m).drop k)
      (scaled m (-(((Text.ofNat m).length - k : Nat) : Int))) := by
  have hdigits := List.all_eq_true.mp (all_isDigit_ofNat m)
  have hpoint := denotes_point ((Text.ofNat m).take k) ((Text.ofNat m).drop k)
    (List.all_eq_true.mpr fun c hc => hdigits c (List.mem_of_mem_take hc))
    (List.all_eq_true.mpr fun c hc => hdigits c (List.mem_of_mem_drop hc))
    (List.ne_nil_of_length_pos (by rw [List.length_drop]; omega))
  rwa [List.take_append_drop, toNat_toDigits, List.length_drop] at hpoint

/-- **What `repr` writes of a float is the numeral it is represented by.** -/
theorem denotes_repr {m : Nat} (hm : 0 < m) (e : Int) :
    Denotes (PyFloat.fin m e).repr (scaled m e) := by
  have hneg : ¬ (m : Int) < 0 := by omega
  have hne : (m : Int) ≠ 0 := by omega
  unfold PyFloat.repr
  dsimp only
  rw [if_neg hneg, if_neg hne, Int.natAbs_natCast]
  by_cases hpoint : -4 < ((Text.ofNat m).length : Int) + e ∧ ((Text.ofNat m).length : Int) + e ≤ 16
  · rw [if_pos hpoint]
    by_cases hzero : ((Text.ofNat m).length : Int) + e ≤ 0
    · rw [if_pos hzero]
      have hfraction := denotes_fraction m (-((Text.ofNat m).length + e)).toNat
      rwa [show -(((-((Text.ofNat m).length + e)).toNat + (Text.ofNat m).length : Nat) : Int) = e by
        omega] at hfraction
    · rw [if_neg hzero]
      by_cases hwhole : ((Text.ofNat m).length : Int) ≤ (Text.ofNat m).length + e
      · rw [if_pos hwhole]
        have hwhole := denotes_whole m e.toNat
        rwa [Int.toNat_of_nonneg (by omega)] at hwhole
      · rw [if_neg hwhole]
        have hk : (((Text.ofNat m).length : Int) + e).toNat < (Text.ofNat m).length := by omega
        have hbetween := denotes_between hk
        rwa [show -(((Text.ofNat m).length - (((Text.ofNat m).length : Int) + e).toNat : Nat) :
          Int) = e by omega] at hbetween
  · rw [if_neg hpoint]
    have hscientific := denotes_scientific hm ((Text.ofNat m).length + e - 1)
    rwa [show ((Text.ofNat m).length + e - 1 - (Text.ofNat m).length + 1 : Int) = e by
      omega] at hscientific

/-- A negative number is no amount. -/
theorem cents_of_negative {s : Text} (h : ∀ c ∈ s, Plain c) :
    (PyDecimal.ofText ('-' :: s)).bind PyDecimal.cents? = none := by
  have hstrip : (Text.strip ('-' :: s)).filter (· ≠ '_') = '-' :: s := by
    have hspace : ∀ c ∈ '-' :: s, isSpace c = false := by
      intro c hc
      rcases List.mem_cons.mp hc with rfl | hc
      · rfl
      · exact (h c hc).space
    rw [Text.strip, Text.stripBy_eq_self hspace, List.filter_cons_of_pos (by decide)]
    exact congrArg _ (List.filter_eq_self.mpr fun c hc => decide_eq_true (h c hc).underscore)
  have hsign : readSign ('-' :: s) = (true, s) := rfl
  unfold PyDecimal.ofText
  simp only [hstrip, hsign, if_true]
  split
  · rfl
  · split
    · split
      · rfl
      · rfl
    · cases readNumeral s with
      | none => rfl
      | some n =>
        obtain ⟨m, e⟩ := n
        show PyDecimal.cents? (.fin (-(m : Int)) e) = none
        cases m with
        | zero => rfl
        | succ m => rfl

/-! ## Arguments -/

/-- `Decimal(amount)` of an argument of a tool call. -/
def decimalOf : Json → Except PyError ℚ
  | .int n => .ok n
  | .bool b => .ok (if b then 1 else 0)
  | .float x =>
      match x.value? with
      | some v => .ok (binary64 v)
      | none => .error invalidOperation
  | .str s =>
      match PyDecimal.ofText s with
      | some d => d.rational
      | none => .error ⟨"InvalidOperation", "[<class 'decimal.ConversionSyntax'>]"⟩
  | .null | .arr _ | .obj _ => .error ⟨"TypeError", []⟩

/-- The value of an amount that the contract accepts. -/
theorem scaled_of_cents {d : PyDecimal} {cents : Nat} (h : d.cents? = some cents) :
    ∃ m e, d = .fin m e ∧ scaled m e * 100 = cents := by
  cases d with
  | nan => cases h
  | inf negative => cases h
  | fin m e =>
    refine ⟨m, e, rfl, ?_⟩
    cases m with
    | negSucc m => cases h
    | ofNat m =>
      have hten : (10 : ℚ) ≠ 0 := by norm_num
      have hcents : scaled (.ofNat m) e * 100 = m * (10 : ℚ) ^ (e + 2) := by
        rw [scaled_eq, zpow_add₀ hten, ← mul_assoc]
        norm_num
      rw [hcents]
      rw [PyDecimal.cents?] at h
      dsimp only at h
      split at h
      · cases h
      · split at h
        · rename_i hplaces
          cases h
          push_cast
          rw [← zpow_natCast, Int.toNat_of_nonneg hplaces]
        · rename_i hplaces
          split at h
          · rename_i hdivides
            cases h
            have hm := Nat.div_add_mod m (10 ^ (-(e + 2)).toNat)
            rw [hdivides.2, Nat.add_zero] at hm
            have hcast : (m : ℚ) =
                10 ^ (-(e + 2)).toNat * ((m / 10 ^ (-(e + 2)).toNat : ℕ) : ℚ) := by
              exact_mod_cast hm.symm
            rw [hcast, ← zpow_natCast, Int.toNat_of_nonneg (by omega), mul_right_comm,
              ← zpow_add₀ hten]
            simp
          · cases h

/-- Up to a million dollars, the binary64 number has the same cents. -/
theorem roundHalfEven_binary64 {cents : Nat} (hle : cents ≤ 100000000) {v : ℚ}
    (hv : v * 100 = cents) : roundHalfEven (binary64 v * 100) = cents := by
  have hvalue : v = cents / 100 := by
    rw [← hv]
    norm_num
  have hbound : |v| < 2 ^ (19 + 1) := by
    have hcast : (cents : ℚ) ≤ 100000000 := by exact_mod_cast hle
    have hnonneg : (0 : ℚ) ≤ cents := Nat.cast_nonneg cents
    rw [hvalue, abs_of_nonneg (div_nonneg hnonneg (by norm_num))]
    norm_num
    linarith
  have hulp : ulp v ≤ 1 / 1000 := (ulp_le hbound).trans (by norm_num)
  have hnear := abs_sub_binary64_le v
  refine roundHalfEven_eq ?_
  push_cast
  rw [← hv, ← sub_mul, abs_mul, abs_sub_comm]
  norm_num
  linarith

/-- **To whole cents, `Decimal` of an argument is what the contract reads.** -/
theorem cents_of_readCents {amount : Json} {cents : Nat} (h : readCents amount = some cents)
    (hle : cents ≤ 100000000) :
    ∃ x, decimalOf amount = .ok x ∧ roundHalfEven (x * 100) = cents := by
  -- a text, or the text of a number
  have hread : ∀ {s : Text} {v : ℚ}, Denotes s v →
      (PyDecimal.ofText s).bind PyDecimal.cents? = some cents → v * 100 = cents := by
    intro s v hs hcents
    obtain ⟨m, e, htext, rfl⟩ := hs.value
    rw [htext] at hcents
    obtain ⟨m', e', heq, hvalue⟩ := scaled_of_cents hcents
    cases heq
    exact hvalue
  cases amount with
  | null => cases h
  | bool b => cases h
  | arr items => cases h
  | obj fields => cases h
  | str s =>
    obtain ⟨d, hd, hcents⟩ := Option.bind_eq_some_iff.mp h
    obtain ⟨m, e, rfl, hvalue⟩ := scaled_of_cents hcents
    refine ⟨scaled m e, ?_, ?_⟩
    · rw [decimalOf, show PyDecimal.ofText s = some (.fin m e) from hd]
      rfl
    · rw [hvalue]
      exact roundHalfEven_intCast (cents : ℤ)
  | int n =>
    refine ⟨n, rfl, ?_⟩
    cases n with
    | ofNat n =>
      have hvalue := hread (denotes_ofNat n) h
      show roundHalfEven ((n : ℚ) * 100) = cents
      rw [hvalue]
      exact roundHalfEven_intCast (cents : ℤ)
    | negSucc n =>
      have hnone := cents_of_negative (denotes_ofNat (n + 1)).plain
      exact absurd (hnone.symm.trans h) nofun
  | float x =>
    cases x with
    | nan => cases h
    | inf negative =>
      cases negative with
      | true => cases h
      | false => cases h
    | fin m e =>
      refine ⟨binary64 (scaled m e), rfl, roundHalfEven_binary64 hle ?_⟩
      rcases lt_trichotomy m 0 with hneg | rfl | hpos
      · obtain ⟨n, hn⟩ := Int.eq_ofNat_of_zero_le (neg_nonneg.mpr hneg.le)
        obtain rfl : m = -n := neg_eq_iff_eq_neg.mp hn
        have hpos : 0 < n := by omega
        have hplain := (denotes_repr hpos e).plain
        have hrepr : (PyFloat.fin (-n) e).repr = '-' :: (PyFloat.fin n e).repr := by
          unfold PyFloat.repr
          dsimp only
          rw [if_pos hneg, if_neg (by omega : ¬ (n : Int) < 0), Int.natAbs_neg]
          simp only [neg_eq_zero]
        have hnone := cents_of_negative hplain
        rw [← hrepr] at hnone
        exact absurd (hnone.symm.trans h) nofun
      · cases h
      · obtain ⟨n, rfl⟩ := Int.eq_ofNat_of_zero_le hpos.le
        exact hread (denotes_repr (by omega) e) h

end OmniCare
