import Mathlib.Algebra.Order.Field.Basic
import Mathlib.Data.Nat.Factorization.Basic
import Mathlib.Tactic.FinCases
import OmniCare.Claims
import OmniCare.JsonText

/-! # An amount that is written is read back

The amount of a stored claim is a JSON number: `float` of its `Decimal`, written by `repr`.
An amount below ten billion dollars has at most twelve digits, so it is written with a point
and one or two digits after it (`repr_floatOfCents`).  `json.loads` reads the same float from
that text, and `Decimal` the same cents.
-/
namespace OmniCare

/-! ## Digits -/

/-- The ten digits. -/
def tenDigits : Text := "0123456789"

theorem mem_tenDigits {c : Char} (h : c.isDigit = true) : c ∈ tenDigits := by
  have hascii : ∀ n < 58, 48 ≤ n → Char.ofNat n ∈ tenDigits := by decide
  obtain ⟨hlow, hhigh⟩ := Char.isDigit_iff_toNat.mp h
  have := hascii c.toNat (Nat.lt_succ_of_le hhigh) hlow
  rwa [Char.ofNat_toNat] at this

/-- What holds of the ten digits holds of every character of a numeral. -/
theorem forall_digit {p : Char → Bool} (hp : tenDigits.all p = true) {s : Text}
    (h : s.all Char.isDigit = true) : ∀ c ∈ s, p c = true :=
  fun c hc => List.all_eq_true.mp hp c (mem_tenDigits (List.all_eq_true.mp h c hc))

theorem all_isDigit_ofNat (n : Nat) : (Text.ofNat n).all Char.isDigit = true :=
  List.all_eq_true.mpr fun _ => Nat.isDigit_of_mem_toDigits (by decide) (by decide)

theorem toNat_append_zeros (s : Text) (k : Nat) :
    Text.toNat (s ++ List.replicate k '0') = Text.toNat s * 10 ^ k := by
  induction k with
  | zero => rw [List.replicate_zero, List.append_nil, Nat.pow_zero, Nat.mul_one]
  | succ k ih =>
    rw [List.replicate_succ', ← List.append_assoc, Text.toNat, List.foldl_concat,
      ← Text.toNat, ih, Nat.pow_succ, Nat.mul_assoc]
    rfl

/-- The numeral of a positive number begins with no zero. -/
theorem ofNat_head {n : Nat} (h : 0 < n) : ∃ c r, Text.ofNat n = c :: r ∧ c ≠ '0' := by
  induction n using Nat.strongRecOn with
  | _ n ih =>
    rcases Nat.lt_or_ge n 10 with hlow | hhigh
    · have hdigit : ∀ n < 10, 0 < n → Nat.digitChar n ≠ '0' := by decide
      exact ⟨_, [], Nat.toDigits_of_lt_base hlow, hdigit n hlow h⟩
    · obtain ⟨c, r, hcr, hc⟩ := ih (n / 10) (by omega) (by omega)
      refine ⟨c, r ++ [Nat.digitChar (n % 10)], ?_, hc⟩
      rw [Text.ofNat, Nat.toDigits_of_base_le (by decide) hhigh]
      show Text.ofNat (n / 10) ++ _ = _
      rw [hcr]
      rfl

theorem length_ofNat_le {n k : Nat} (hk : 0 < k) : (Text.ofNat n).length ≤ k ↔ n < 10 ^ k :=
  Nat.length_toDigits_le_iff (by decide) hk

theorem length_ofNat_mul_ten {n : Nat} (h : 0 < n) :
    (Text.ofNat (n * 10)).length = (Text.ofNat n).length + 1 := by
  rw [Text.ofNat, Nat.toDigits_of_base_le (by decide) (by omega), List.length_append,
    Nat.mul_div_cancel _ (by decide)]
  rfl

/-! ## The float of an amount -/

namespace PyFloat

/-- A trailing zero of the coefficient goes to the exponent. -/
theorem ofDecimal_mul_ten (negative : Bool) {m : Nat} (h : 0 < m) (e : Int) :
    ofDecimal negative (m * 10) e = ofDecimal negative m (e + 1) := by
  have hlength : (Nat.toDigits 10 (m * 10)).length = (Nat.toDigits 10 m).length + 1 :=
    length_ofNat_mul_ten h
  have hdrop : dropZeros ((Nat.toDigits 10 m).length + 1) (m * 10) e =
      dropZeros (Nat.toDigits 10 m).length m (e + 1) := by
    rw [dropZeros, if_pos ⟨by omega, Nat.mul_mod_left m 10⟩, Nat.mul_div_cancel _ (by decide)]
  have hzero : m * 10 = 0 ↔ m = 0 := by omega
  have hpoint : (((Nat.toDigits 10 m).length + 1 : Nat) : Int) + e =
      ((Nat.toDigits 10 m).length : Int) + (e + 1) := by omega
  unfold ofDecimal
  simp only [hlength, hdrop, hzero, hpoint]

theorem ofDecimal_mul_pow (negative : Bool) {m : Nat} (h : 0 < m) (k : Nat) (e : Int) :
    ofDecimal negative (m * 10 ^ k) e = ofDecimal negative m (e + k) := by
  induction k generalizing e with
  | zero => rw [Nat.pow_zero, Nat.mul_one, Int.natCast_zero, Int.add_zero]
  | succ k ih =>
    rw [Nat.pow_succ, ← Nat.mul_assoc, ofDecimal_mul_ten negative
      (Nat.mul_pos h (Nat.pow_pos (by decide))), ih]
    congr 1
    omega

/-- A coefficient of at most twelve digits, the last not zero, is kept as it is. -/
theorem ofDecimal_eq_fin {m : Nat} (hm : m < 10 ^ 12) (hlast : m % 10 ≠ 0) {e : Int}
    (he : -2 ≤ e ∧ e ≤ 12) : ofDecimal false m e = .fin m e := by
  have hlength : (Nat.toDigits 10 m).length ≤ 12 := (length_ofNat_le (by decide)).mpr hm
  have hpos : 0 < (Nat.toDigits 10 m).length := Nat.length_toDigits_pos
  have hdrop : dropZeros (Nat.toDigits 10 m).length m e = (m, e) := by
    cases (Nat.toDigits 10 m).length with
    | zero => rfl
    | succ k => rw [dropZeros, if_neg fun h => hlast h.2]
  have hscaled : scaled m e ≤ (10 : ℚ) ^ 24 := by
    unfold scaled
    split
    · rename_i hnonneg
      have hle : m * 10 ^ e.toNat ≤ 10 ^ 12 * 10 ^ 12 :=
        Nat.mul_le_mul hm.le (Nat.pow_le_pow_right (by decide) (by omega))
      have hcast : ((m * 10 ^ e.toNat : ℕ) : ℚ) ≤ ((10 ^ 24 : ℕ) : ℚ) := Nat.cast_le.mpr hle
      exact_mod_cast hcast
    · have hle : (m : ℚ) / (10 : ℚ) ^ (-e).toNat ≤ m :=
        div_le_self (Nat.cast_nonneg m) (one_le_pow₀ (by decide))
      have hcast : (m : ℚ) ≤ ((10 ^ 24 : ℕ) : ℚ) :=
        Nat.cast_le.mpr (hm.le.trans (by decide))
      exact hle.trans (by exact_mod_cast hcast)
  have hlarge : ¬ (179769313486231580793728971405301 * 10 ^ 276 : ℚ) ≤ scaled m e := by
    intro h
    exact absurd (h.trans hscaled) (by decide +kernel)
  unfold ofDecimal
  rw [if_neg (by omega), if_neg (by omega), hdrop]
  dsimp only
  rw [if_neg hlarge]
  rfl

end PyFloat

/-- The float of an amount has the cents without their trailing zeros. -/
theorem floatOfCents_eq {cents : Nat} (h : 0 < cents ∧ cents < 10 ^ 12) :
    ∃ m k : Nat, cents = m * 10 ^ k ∧ 0 < m ∧ k < 12 ∧
      floatOfCents cents = .fin m ((k : Int) - 2) := by
  obtain ⟨k, m, hm, hcents⟩ := Nat.exists_eq_pow_mul_and_not_dvd h.1.ne' 10 (by decide)
  rw [Nat.mul_comm] at hcents
  have hpos : 0 < m := by
    rcases Nat.eq_zero_or_pos m with rfl | hpos
    · exact absurd (Nat.dvd_zero 10) hm
    · exact hpos
  have hk : k < 12 := by
    refine (Nat.pow_lt_pow_iff_right (by decide : 1 < 10)).mp (Nat.lt_of_le_of_lt ?_ h.2)
    rw [hcents]
    exact Nat.le_mul_of_pos_left _ hpos
  have hlt : m < 10 ^ 12 := by
    refine Nat.lt_of_le_of_lt ?_ h.2
    rw [hcents]
    exact Nat.le_mul_of_pos_right _ (Nat.pow_pos (by decide))
  have hlast : m % 10 ≠ 0 := fun hzero => hm (Nat.dvd_of_mod_eq_zero hzero)
  refine ⟨m, k, hcents, hpos, hk, ?_⟩
  rw [floatOfCents, hcents, PyFloat.ofDecimal_mul_pow false hpos,
    PyFloat.ofDecimal_eq_fin hlt hlast (by omega), Int.add_comm]
  rfl

/-- The digits of a written amount, before and after the point. -/
structure Written (cents : Nat) (whole fraction : Text) : Prop where
  whole_digits : whole.all Char.isDigit = true
  whole_head : whole = ['0'] ∨ ∃ c r, whole = c :: r ∧ c ≠ '0'
  fraction_digits : fraction.all Char.isDigit = true
  places : 0 < fraction.length ∧ fraction.length ≤ 2
  value : Text.toNat (whole ++ fraction) * 10 ^ (2 - fraction.length) = cents

/-- The digits of a coefficient with a point before the last `k` of them. -/
theorem written_of_split {m k : Nat} (hm : 0 < m) (hk : 0 < k ∧ k ≤ 2)
    (hlength : k < (Text.ofNat m).length) :
    Written (m * 10 ^ (2 - k)) ((Text.ofNat m).take ((Text.ofNat m).length - k))
      ((Text.ofNat m).drop ((Text.ofNat m).length - k)) := by
  have hdigits := List.all_eq_true.mp (all_isDigit_ofNat m)
  have hdrop : ((Text.ofNat m).drop ((Text.ofNat m).length - k)).length = k := by
    rw [List.length_drop]
    omega
  refine ⟨List.all_eq_true.mpr fun c hc => hdigits c (List.mem_of_mem_take hc), .inr ?_,
    List.all_eq_true.mpr fun c hc => hdigits c (List.mem_of_mem_drop hc), by rw [hdrop]; exact hk,
    ?_⟩
  · obtain ⟨c, r, hcr, hc⟩ := ofNat_head hm
    rw [hcr] at hlength ⊢
    obtain ⟨j, hj⟩ : ∃ j, (c :: r).length - k = j + 1 := ⟨(c :: r).length - k - 1, by omega⟩
    exact ⟨c, r.take j, by rw [hj, List.take_succ_cons], hc⟩
  · rw [List.take_append_drop, hdrop, toNat_toDigits]

/-- The digits of a coefficient after a point, with zeros up to `k` places. -/
theorem written_of_zeros {m k : Nat} (hk : k ≤ 2) (hlength : (Text.ofNat m).length ≤ k) :
    Written (m * 10 ^ (2 - k)) ['0']
      (List.replicate (k - (Text.ofNat m).length) '0' ++ Text.ofNat m) := by
  have hpos : 0 < (Text.ofNat m).length := Nat.length_toDigits_pos
  have hplaces : (List.replicate (k - (Text.ofNat m).length) '0' ++ Text.ofNat m).length = k := by
    rw [List.length_append, List.length_replicate]
    omega
  refine ⟨rfl, .inl rfl, ?_, by rw [hplaces]; omega, ?_⟩
  · rw [List.all_append, all_isDigit_ofNat, List.all_replicate]
    simp
  · rw [hplaces, ← List.append_assoc]
    show Text.toNat (List.replicate (k - _ + 1) '0' ++ Text.ofNat m) * _ = _
    rw [toNat_zeros, toNat_toDigits]

/-- A whole number of dollars is written with a zero after the point. -/
theorem written_of_whole {m : Nat} (hm : 0 < m) (e : Nat) :
    Written (m * 10 ^ (e + 2)) (Text.ofNat m ++ List.replicate e '0') ['0'] := by
  refine ⟨?_, .inr ?_, rfl, by decide, ?_⟩
  · rw [List.all_append, all_isDigit_ofNat, List.all_replicate]
    simp
  · obtain ⟨c, r, hcr, hc⟩ := ofNat_head hm
    exact ⟨c, r ++ List.replicate e '0', by rw [hcr]; rfl, hc⟩
  · rw [List.append_assoc, show List.replicate e '0' ++ ['0'] = List.replicate (e + 1) '0' from
      List.replicate_succ'.symm, toNat_append_zeros, toNat_toDigits, Nat.mul_assoc, ← Nat.pow_add]
    rfl

/-- **An amount is written with a point and one or two digits after it.** -/
theorem repr_floatOfCents {cents : Nat} (h : 0 < cents ∧ cents < 10 ^ 12) :
    ∃ whole fraction, Written cents whole fraction ∧
      (floatOfCents cents).repr = whole ++ '.' :: fraction := by
  obtain ⟨m, k, rfl, hm, hk, hfloat⟩ := floatOfCents_eq h
  have hpow : 10 ^ (12 - k) * 10 ^ k = 10 ^ 12 := by
    rw [← Nat.pow_add]
    congr 1
    omega
  have hlength : (Text.ofNat m).length ≤ 12 - k :=
    (length_ofNat_le (by omega)).mpr (Nat.lt_of_mul_lt_mul_right (hpow ▸ h.2))
  have hpos : 0 < (Text.ofNat m).length := Nat.length_toDigits_pos
  have hm0 : (m : Int) ≠ 0 := by omega
  have hneg : ¬ (m : Int) < 0 := by omega
  rw [hfloat]
  unfold PyFloat.repr
  dsimp only
  rw [if_neg hneg, if_neg hm0, Int.natAbs_natCast, if_pos (by omega)]
  by_cases hwhole : 2 ≤ k
  · -- a whole number of dollars
    obtain ⟨e, rfl⟩ : ∃ e, k = e + 2 := ⟨k - 2, by omega⟩
    refine ⟨_, _, written_of_whole hm e, ?_⟩
    rw [if_neg (by omega), if_pos (by omega), show ((e + 2 : Nat) - 2 : Int).toNat = e by omega]
    rfl
  · by_cases hzeros : (Text.ofNat m).length ≤ 2 - k
    · -- less than a dollar
      have hwritten := written_of_zeros (by omega) hzeros
      rw [show 2 - (2 - k) = k by omega] at hwritten
      refine ⟨_, _, hwritten, ?_⟩
      rw [if_pos (by omega),
        show (-((Text.ofNat m).length + ((k : Int) - 2))).toNat = 2 - k - (Text.ofNat m).length by
          omega]
      rfl
    · have hwritten := written_of_split hm (k := 2 - k) (by omega) (by omega)
      rw [show 2 - (2 - k) = k by omega] at hwritten
      refine ⟨_, _, hwritten, ?_⟩
      rw [if_neg (by omega), if_neg (by omega),
        show ((Text.ofNat m).length + ((k : Int) - 2)).toNat = (Text.ofNat m).length - (2 - k) by
          omega]

/-! ## Reading it -/

section Reading

variable {cents : Nat} {whole fraction r : Text}

theorem span_append {p : Char → Bool} {s : Text} (hs : s.all p = true)
    (hr : ∀ c ∈ r.head?, p c = false) : (s ++ r).span p = (s, r) := by
  have htake : r.takeWhile p = [] ∧ r.dropWhile p = r := by
    cases r with
    | nil => exact ⟨rfl, rfl⟩
    | cons c r =>
      have hc : ¬ p c = true := by
        rw [hr c rfl]
        decide
      exact ⟨List.takeWhile_cons_of_neg hc, List.dropWhile_cons_of_neg hc⟩
  have hall := List.all_eq_true.mp hs
  rw [List.span_eq_takeWhile_dropWhile, List.takeWhile_append_of_pos hall,
    List.dropWhile_append_of_pos hall, htake.1, htake.2, List.append_nil]

theorem span_digits {p : Char → Bool} (hp : tenDigits.all p = true) {s : Text}
    (h : s.all Char.isDigit = true) (hr : ∀ c ∈ r.head?, p c = false) :
    (s ++ r).span p = (s, r) :=
  span_append (List.all_eq_true.mpr (forall_digit hp h)) hr

/-- The float is the one of its written digits. -/
theorem Written.ofDecimal (h : Written cents whole fraction) (hcents : 0 < cents) :
    PyFloat.ofDecimal false (Text.toNat (whole ++ fraction)) (-(fraction.length : Int)) =
      floatOfCents cents := by
  have hvalue := h.value
  have hpos : 0 < Text.toNat (whole ++ fraction) := by
    rcases Nat.eq_zero_or_pos (Text.toNat (whole ++ fraction)) with hzero | hpos
    · rw [hzero, Nat.zero_mul] at hvalue
      omega
    · exact hpos
  rw [floatOfCents, ← hvalue, PyFloat.ofDecimal_mul_pow false hpos]
  have hplaces := h.places
  congr 1
  omega

theorem isDigit_of_ends (h : Json.Ends r) : ∀ c ∈ r.head?, c.isDigit = false := by
  intro c hc
  rcases h c hc with rfl | rfl <;> rfl

theorem readExponent_of_ends (h : Json.Ends r) : Json.readExponent r = (none, r) := by
  cases r with
  | nil => rfl
  | cons c r =>
    have hc : c.toLower ≠ 'e' := by
      rcases h c rfl with rfl | rfl <;> decide
    rw [Json.readExponent, if_neg hc]

/-- The digits before the point. -/
theorem readWhole (h : Written cents whole fraction) (t : Text) :
    (match whole ++ '.' :: t with
      | '0' :: r => (['0'], r)
      | r => Json.readDigits r) = (whole, '.' :: t) := by
  rcases h.whole_head with rfl | ⟨c, w, rfl, hc⟩
  · rfl
  · rw [List.cons_append]
    split
    · rename_i heq
      exact absurd (List.cons.inj heq).1 hc
    · rw [← List.cons_append]
      exact span_digits (by decide) h.whole_digits fun d hd => by
        cases hd
        rfl

/-- There is no sign before the digits. -/
theorem sign_of_written (h : Written cents whole fraction) (t : Text) :
    (match whole ++ t with
      | '-' :: r => (true, r)
      | r => (false, r)) = (false, whole ++ t) := by
  split
  · rename_i heq
    have hdigits := h.whole_digits
    rcases h.whole_head with rfl | ⟨c, w, rfl, -⟩
    · cases heq
    · rw [(List.cons.inj heq).1] at hdigits
      cases hdigits
  · rfl

/-- **A written amount is read as its float.** -/
theorem readNumber_written (h : Written cents whole fraction) (hcents : 0 < cents)
    (hr : Json.Ends r) :
    Json.readNumber (whole ++ '.' :: (fraction ++ r)) =
      some (.float (floatOfCents cents), r) := by
  have hfraction : Json.readDigits (fraction ++ r) = (fraction, r) :=
    span_digits (by decide) h.fraction_digits (isDigit_of_ends hr)
  have hne : fraction.isEmpty = false := by
    cases fraction with
    | nil => exact absurd h.places.1 (Nat.lt_irrefl _)
    | cons => rfl
  have hwhole : whole ≠ [] := by
    rcases h.whole_head with rfl | ⟨c, w, rfl, -⟩ <;> exact List.cons_ne_nil _ _
  unfold Json.readNumber
  split
  rename_i negative body heq
  obtain ⟨rfl, rfl⟩ := Prod.mk.inj ((sign_of_written h _).symm.trans heq)
  dsimp only
  split
  · rename_i heq
    exact absurd (Prod.mk.inj ((readWhole h _).symm.trans heq)).1 hwhole
  · rename_i heq
    obtain ⟨rfl, rfl⟩ := Prod.mk.inj ((readWhole h _).symm.trans heq)
    simp only [hfraction, hne, Bool.false_eq_true, if_false, false_and, readExponent_of_ends hr,
      Option.getD_none, Int.zero_sub]
    rw [h.ofDecimal hcents]

theorem head_written (h : Written cents whole fraction) (t : Text) :
    ∃ c s, whole ++ t = c :: s ∧ c ∈ tenDigits := by
  have hdigits := h.whole_digits
  rcases h.whole_head with rfl | ⟨c, w, rfl, -⟩
  · exact ⟨'0', t, rfl, by decide⟩
  · rw [List.all_cons, Bool.and_eq_true] at hdigits
    exact ⟨c, w ++ t, rfl, mem_tenDigits hdigits.1⟩

/-- A value that begins with a digit is a number. -/
theorem readValue_digit {c : Char} (h : c ∈ tenDigits) (fuel : Nat) (s : Text) :
    Json.readValue (fuel + 1) (c :: s) = Json.readNumber (c :: s) := by
  change c ∈ ['0', '1', '2', '3', '4', '5', '6', '7', '8', '9'] at h
  fin_cases h <;> rfl

/-- **The float of an amount is read back from what `json.dumps` writes.** -/
theorem readsBack_floatOfCents (h : 0 < cents ∧ cents < 10 ^ 12) :
    Json.ReadsBack (.float (floatOfCents cents)) := by
  obtain ⟨whole, fraction, hwritten, hrepr⟩ := repr_floatOfCents h
  have hdumps : Json.dumps (.float (floatOfCents cents)) = whole ++ '.' :: fraction := by
    obtain ⟨m, k, -, -, -, hfloat⟩ := floatOfCents_eq h
    rw [← hrepr, hfloat]
    rfl
  refine ⟨fun fuel r hr => ?_, ?_⟩
  · obtain ⟨c, s, hcs, hc⟩ := head_written hwritten ('.' :: (fraction ++ r))
    rw [hdumps, List.append_assoc, List.cons_append, hcs, readValue_digit hc, ← hcs]
    exact readNumber_written hwritten h.1 hr
  · obtain ⟨c, s, hcs, hc⟩ := head_written hwritten ('.' :: fraction)
    have hdigit : tenDigits.all (fun c => !Json.isWs c && c != ']') = true := by decide
    have := List.all_eq_true.mp hdigit c hc
    rw [hdumps]
    exact ⟨c, s, hcs, by simpa using this⟩

/-- What holds of the ten digits and of the point holds of a written amount. -/
theorem forall_written (h : Written cents whole fraction) {p : Char → Bool}
    (hp : (tenDigits ++ ['.']).all p = true) : ∀ c ∈ whole ++ '.' :: fraction, p c = true := by
  rw [List.all_append, Bool.and_eq_true] at hp
  intro c hc
  rcases List.mem_append.mp hc with hc | hc
  · exact forall_digit hp.1 h.whole_digits c hc
  rcases List.mem_cons.mp hc with rfl | hc
  · exact List.all_eq_true.mp hp.2 _ List.mem_cons_self
  · exact forall_digit hp.1 h.fraction_digits c hc

/-- A numeral with a point. -/
theorem readNumeral_point {whole fraction : Text} (hwhole : whole.all isDigit = true)
    (hfraction : fraction.all isDigit = true) (hne : fraction ≠ []) :
    readNumeral (whole ++ '.' :: fraction) =
      some (Text.toNat (whole ++ fraction), -(fraction.length : Int)) := by
  have hspan : spanDigits (whole ++ '.' :: fraction) = (whole, '.' :: fraction) :=
    span_append hwhole fun c hc => by
      cases hc
      decide
  have hrest : spanDigits fraction = (fraction, []) := by
    have hrest := span_append (r := []) hfraction nofun
    rwa [List.append_nil] at hrest
  have hempty : fraction.isEmpty = false := List.isEmpty_eq_false_iff.mpr hne
  unfold readNumeral
  simp only [hspan, hrest, hempty, Bool.false_eq_true, and_false, if_false]

theorem all_isDigit_of_ascii {s : Text} (h : s.all Char.isDigit = true) : s.all isDigit = true :=
  List.all_eq_true.mpr (forall_digit (by decide) h)

theorem readNumeral_written (h : Written cents whole fraction) :
    readNumeral (whole ++ '.' :: fraction) =
      some (Text.toNat (whole ++ fraction), -(fraction.length : Int)) :=
  readNumeral_point (all_isDigit_of_ascii h.whole_digits) (all_isDigit_of_ascii h.fraction_digits)
    (List.ne_nil_of_length_pos h.places.1)

/-- A character that `Decimal` takes as it stands. -/
structure Plain (c : Char) : Prop where
  space : isSpace c = false
  underscore : c ≠ '_'
  lower : lowerChar c = [c]

/-- A text that begins with no sign and no letter of a name is read as a numeral. -/
theorem ofText_plain {s : Text} (h : ∀ c ∈ s, Plain c)
    (hhead : ∀ c ∈ s.head?, c ∉ ['+', '-', 'i', 's', 'n']) :
    PyDecimal.ofText s = (readNumeral s).map fun (m, e) => .fin m e := by
  have hstrip : (Text.strip s).filter (· ≠ '_') = s := by
    rw [Text.strip, Text.stripBy_eq_self fun c hc => (h c hc).space]
    exact List.filter_eq_self.mpr fun c hc => decide_eq_true (h c hc).underscore
  have hlower : Text.lower s = s := Text.lower_eq_self fun c hc => (h c hc).lower
  -- what the text would begin with
  have hsign : readSign s = (false, s) := by
    unfold readSign
    split
    · exact absurd (by decide) (hhead _ rfl)
    · exact absurd (by decide) (hhead _ rfl)
    · rfl
  have hinf : ¬ (s = "inf".toList ∨ s = "infinity".toList) := by
    rintro (rfl | rfl) <;> exact absurd (by decide) (hhead 'i' rfl)
  have hnan : Text.dropPrefix? "nan" (if s.head? = some 's' then s.tail else s) = none := by
    cases s with
    | nil => rfl
    | cons c s =>
      have hc := hhead c rfl
      have hs : ¬ (c :: s).head? = some 's' := by
        intro heq
        rw [Option.some.inj heq] at hc
        exact hc (by decide)
      have hn : ('n' == c) = false := by
        refine beq_eq_false_iff_ne.mpr ?_
        rintro rfl
        exact hc (by decide)
      rw [if_neg hs]
      show (if ('n' == c) = true then _ else none) = none
      rw [hn]
      rfl
  unfold PyDecimal.ofText
  simp only [hstrip, hsign, hlower, hinf, hnan, if_false, Bool.false_eq_true]

theorem plain_of_isDigit {c : Char} (h : isDigit c = true) : Plain c where
  space := isSpace_of_isDigit h
  underscore := by
    rintro rfl
    cases h
  lower := lowerChar_of_isDigit h

theorem not_sign_of_isDigit {c : Char} (h : isDigit c = true) :
    c ∉ ['+', '-', 'i', 's', 'n'] := by
  have hnone : (['+', '-', 'i', 's', 'n'].all fun d => !isDigit d) = true := by decide
  intro hmem
  have hc := List.all_eq_true.mp hnone c hmem
  rw [h] at hc
  cases hc

theorem plain_of_numeral {s : Text} (h : s.all (fun c => isDigit c || c == '.') = true) :
    ∀ c ∈ s, Plain c := by
  intro c hc
  have hchar := List.all_eq_true.mp h c hc
  rcases Bool.or_eq_true_iff.mp hchar with hdigit | hpoint
  · exact plain_of_isDigit hdigit
  · rw [eq_of_beq hpoint]
    exact ⟨rfl, by decide, rfl⟩

/-- A text of digits and points is read as a numeral. -/
theorem ofText_numeral {s : Text} (h : s.all (fun c => isDigit c || c == '.') = true) :
    PyDecimal.ofText s = (readNumeral s).map fun (m, e) => .fin m e := by
  refine ofText_plain (plain_of_numeral h) fun c hc => ?_
  have hchar := List.all_eq_true.mp h c (List.mem_of_mem_head? hc)
  rcases Bool.or_eq_true_iff.mp hchar with hdigit | hpoint
  · exact not_sign_of_isDigit hdigit
  · rw [eq_of_beq hpoint]
    decide

/-- **The cents of an amount are read back from its float.** -/
theorem readCents_floatOfCents (h : 0 < cents ∧ cents < 10 ^ 12) :
    readCents (.float (floatOfCents cents)) = some cents := by
  obtain ⟨whole, fraction, hwritten, hrepr⟩ := repr_floatOfCents h
  have hplaces := hwritten.places
  have hvalue := hwritten.value
  have hnumeral : (whole ++ '.' :: fraction).all (fun c => isDigit c || c == '.') = true :=
    List.all_eq_true.mpr (forall_written hwritten (by decide))
  show (PyDecimal.ofText (floatOfCents cents).repr).bind PyDecimal.cents? = some cents
  rw [hrepr, ofText_numeral hnumeral, readNumeral_written hwritten]
  have hpos : Text.toNat (whole ++ fraction) ≠ 0 := by
    intro hzero
    rw [hzero, Nat.zero_mul] at hvalue
    omega
  have hpow : 10 ^ (10 + fraction.length) * 10 ^ (2 - fraction.length) = 10 ^ 12 := by
    rw [← Nat.pow_add]
    congr 1
    omega
  have hlength : (Text.ofNat (Text.toNat (whole ++ fraction))).length ≤ 10 + fraction.length := by
    refine (length_ofNat_le (by omega)).mpr ?_
    refine Nat.lt_of_mul_lt_mul_right (a := 10 ^ (2 - fraction.length)) ?_
    rw [hvalue, hpow]
    exact h.2
  show PyDecimal.cents? (.fin (.ofNat (Text.toNat (whole ++ fraction))) _) = _
  rw [PyDecimal.cents?]
  dsimp only
  rw [if_neg (by omega), if_pos (by omega),
    show (-(fraction.length : Int) + 2).toNat = 2 - fraction.length by omega, hvalue]

end Reading
end OmniCare
