import OmniCare.Nodes
import OmniCare.Rounding
import OmniCare.Rules

/-! # Who pays what

`settle` and `Settlement` of `libs/policy/rules.py`.  Amounts are exact: a `Decimal` is the rational
number that it stands for.  `quantize` rounds to cents, and fails where the result has more digits
than the precision of the decimal context; the differences that `settle` takes are of amounts that
have passed it, and exact.

`settle_balanced` says how the shares of a claim add up, in exact arithmetic, and that a higher
claim is paid more, but not by more than it is higher.
-/
namespace OmniCare

open Rounding

theorem ok_bind {ε α β : Type} (a : α) (f : α → Except ε β) : (Except.ok a >>= f) = f a := rfl

/-! ## Cents -/

/-- `decimal.InvalidOperation`. -/
def invalidOperation : PyError := ⟨"InvalidOperation", "[<class 'decimal.InvalidOperation'>]"⟩

/-- The value of a `Decimal`; the others stop at the first comparison or rounding. -/
def PyDecimal.rational : PyDecimal → Except PyError ℚ
  | .fin m e => .ok (scaled m e)
  | _ => .error invalidOperation

/-- `x.quantize(_CENTS)`, in a decimal context of some precision; without one, in exact
arithmetic. -/
def quantize (precision : Option Nat) (x : ℚ) : Except PyError ℚ :=
  let cents := roundHalfEven (x * 100)
  if precision.all (cents.natAbs < 10 ^ ·) then .ok (cents / 100) else .error invalidOperation

/-- The amount is a number of cents. -/
def WholeCents (x : ℚ) : Prop := ∃ cents : ℤ, x * 100 = cents

/-- An amount of money: not negative, and with at most two decimals. -/
structure Amount where
  value : ℚ
  nonneg : 0 ≤ value
  wholeCents : WholeCents value

theorem WholeCents.zero : WholeCents 0 := ⟨0, by norm_num⟩

theorem WholeCents.sub {x y : ℚ} (hx : WholeCents x) (hy : WholeCents y) : WholeCents (x - y) := by
  obtain ⟨m, hm⟩ := hx
  obtain ⟨n, hn⟩ := hy
  refine ⟨m - n, ?_⟩
  rw [sub_mul, hm, hn]
  push_cast
  rfl

theorem WholeCents.max {x y : ℚ} (hx : WholeCents x) (hy : WholeCents y) :
    WholeCents (max x y) := by
  rcases max_choice x y with h | h
  · rwa [h]
  · rwa [h]

theorem WholeCents.min {x y : ℚ} (hx : WholeCents x) (hy : WholeCents y) :
    WholeCents (min x y) := by
  rcases min_choice x y with h | h
  · rwa [h]
  · rwa [h]

/-- An amount has no more digits than the precision allows. -/
def Fits (precision : Option Nat) (x : ℚ) : Prop := ∀ n ∈ precision, |x| * 100 < 10 ^ n

theorem fits_none (x : ℚ) : Fits none x := nofun

theorem Fits.of_le {precision : Option Nat} {x y : ℚ} (hy : Fits precision y) (hx : 0 ≤ x)
    (h : x ≤ y) : Fits precision x := by
  intro n hn
  have hfits := hy n hn
  rw [abs_of_nonneg (hx.trans h)] at hfits
  rw [abs_of_nonneg hx]
  linarith

/-- A number of cents is its own rounding, where it fits the precision. -/
theorem quantize_eq {x : ℚ} (hx : WholeCents x) (precision : Option Nat)
    [Decidable (Fits precision x)] :
    quantize precision x = if Fits precision x then .ok x else .error invalidOperation := by
  obtain ⟨cents, hcents⟩ := hx
  have hback : (cents : ℚ) / 100 = x := by
    rw [← hcents]
    norm_num
  have hfits : precision.all (cents.natAbs < 10 ^ ·) = true ↔ Fits precision x := by
    have habs : |x| * 100 = (cents.natAbs : ℚ) := by
      rw [Nat.cast_natAbs, Int.cast_abs, ← hcents, abs_mul]
      norm_num
    unfold Fits
    rw [habs]
    cases precision with
    | none => exact ⟨fun _ => nofun, fun _ => rfl⟩
    | some n =>
      rw [Option.all_some, decide_eq_true_eq]
      constructor
      · rintro h _ ⟨⟩
        exact_mod_cast h
      · intro h
        exact_mod_cast h n rfl
  unfold quantize
  dsimp only
  rw [hcents, roundHalfEven_intCast, hback]
  by_cases h : Fits precision x
  · rw [if_pos (hfits.mpr h), if_pos h]
  · rw [if_neg fun heq => h (hfits.mp heq), if_neg h]

theorem quantize_of_fits {x : ℚ} (hx : WholeCents x) {precision : Option Nat}
    (h : Fits precision x) : quantize precision x = .ok x := by
  classical rw [quantize_eq hx, if_pos h]

theorem fits_of_quantize {x y : ℚ} (hx : WholeCents x) {precision : Option Nat}
    (h : quantize precision x = .ok y) : Fits precision x := by
  classical
  rw [quantize_eq hx] at h
  by_contra hfits
  rw [if_neg hfits] at h
  cases h

/-! ## Settlements -/

/-- `Settlement`. -/
structure Settlement where
  claimed : ℚ
  deductible : ℚ
  limit : Option ℚ
  insurerPays : ℚ
  policyholderPays : ℚ
  sectionTitle : Text := []
  sourceFile : Text := []
  policySays : List Text := []
  exclusions : List Text := []
  deriving DecidableEq

/-- Puts a comma before each group of three digits, from the last digit on. -/
def groupDigits : Text → Text
  | a :: b :: c :: d :: rest => a :: b :: c :: ',' :: groupDigits (d :: rest)
  | digits => digits

/-- `f"{x:,.2f}"`. -/
def dollars (x : ℚ) : Text :=
  let cents := roundHalfEven (x * 100)
  (if cents < 0 then "-".toList else []) ++
    (groupDigits (Text.ofNat (cents.natAbs / 100)).reverse).reverse ++ ".".toList ++
    (Text.ofNat (cents.natAbs % 100)).leftpad 2 '0'

/-- `float(x)`, of an amount in cents. -/
def floatOfAmount (x : ℚ) : PyFloat :=
  let cents := roundHalfEven (x * 100)
  .ofDecimal (cents < 0) cents.natAbs (-2)

namespace Settlement

variable (precision : Option Nat) (s : Settlement)

/-- `citation`. -/
def citation : Text :=
  if s.sourceFile.isEmpty || s.sectionTitle.isEmpty then []
  else formatCitation s.sourceFile s.sectionTitle

/-- `above_limit`. -/
def aboveLimit : Bool := s.limit.any (· < s.claimed - s.deductible)

/-- `applied_deductible`. -/
def appliedDeductible : Except PyError ℚ := quantize precision (min s.deductible s.claimed)

/-- `below_deductible`. -/
def belowDeductible : Bool :=
  s.insurerPays = 0 && (s.claimed ≤ s.deductible && 0 < s.claimed)

/-- `excess`. -/
def excess : Except PyError ℚ := do
  let applied ← s.appliedDeductible precision
  quantize precision (s.policyholderPays - applied)

/-- `as_dict`. -/
def asDict : Except PyError Dict := do
  let applied ← s.appliedDeductible precision
  let excess ← s.excess precision
  pure [("claimed", .float (floatOfAmount s.claimed)),
    ("deductible", .float (floatOfAmount s.deductible)),
    ("deductible_applied", .float (floatOfAmount applied)),
    ("limit", (s.limit.map fun limit => Json.float (floatOfAmount limit)).getD .null),
    ("insurer_pays", .float (floatOfAmount s.insurerPays)),
    ("policyholder_pays", .float (floatOfAmount s.policyholderPays)),
    ("policyholder_excess_above_limit", .float (floatOfAmount excess)),
    ("above_limit", .bool s.aboveLimit),
    ("below_deductible", .bool s.belowDeductible),
    ("section", .str s.sectionTitle),
    ("citation", .str s.citation),
    ("policy_says", .arr (s.policySays.map .str)),
    ("exclusions", .arr (s.exclusions.map .str))]

/-- The parts that `summary` names of what the policyholder pays. -/
def parts (applied excess : ℚ) : List Text :=
  (if applied = 0 then [] else ["$".toList ++ dollars applied ++ " deductible".toList]) ++
    match s.limit with
    | some limit =>
        if 0 < excess then
          ["$".toList ++ dollars excess ++ " above the $".toList ++ dollars limit ++
            " limit".toList]
        else []
    | none => []

/-- `summary`. -/
def summary : Except PyError Text := do
  let lines := "Claim amount: $".toList ++ dollars s.claimed ++ "\nOmniCare pays: $".toList ++
    dollars s.insurerPays ++ "\nYou pay: $".toList ++ dollars s.policyholderPays
  if s.belowDeductible then
    pure (lines ++ " - the claim is below the $".toList ++ dollars s.deductible ++
      " deductible, so the policy pays nothing on it".toList)
  else
    let applied ← s.appliedDeductible precision
    let excess ← s.excess precision
    let parts := s.parts applied excess
    pure (if parts.isEmpty then lines
      else lines ++ " (".toList ++ Text.join " + " parts ++ ")".toList)

end Settlement

/-- `settle`. -/
def settle (precision : Option Nat) (claimed : ℚ) (limit deductible : Option ℚ := none)
    (sectionTitle sourceFile : Text := []) (policySays exclusions : List Text := []) :
    Except PyError Settlement := do
  let claimed ← quantize precision claimed
  let deductible ← quantize precision (deductible.getD 0)
  let eligible := max (claimed - deductible) 0
  let insurer := (limit.map (min eligible)).getD eligible
  let limit ← limit.mapM (quantize precision)
  let insurerPays ← quantize precision insurer
  let policyholderPays ← quantize precision (claimed - insurer)
  pure
    { claimed, deductible, limit, insurerPays, policyholderPays, sectionTitle, sourceFile
      policySays, exclusions }

/-! ## How the shares add up -/

/-- What the insurer pays of a claim. -/
def insurerShare (claimed deductible : ℚ) (limit : Option ℚ) : ℚ :=
  (limit.map (min (max (claimed - deductible) 0))).getD (max (claimed - deductible) 0)

/-- What lies above the limit. -/
def excessOf (claimed deductible : ℚ) : Option ℚ → ℚ
  | none => 0
  | some limit => max (claimed - deductible - limit) 0

/-- The deductible of a policy that may not state one. -/
def deductibleOf (deductible : Option Amount) : ℚ := (deductible.map Amount.value).getD 0

theorem deductibleOf_nonneg (deductible : Option Amount) : 0 ≤ deductibleOf deductible := by
  cases deductible with
  | none => exact le_refl 0
  | some d => exact d.nonneg

theorem deductibleOf_wholeCents (deductible : Option Amount) :
    WholeCents (deductibleOf deductible) := by
  cases deductible with
  | none => exact .zero
  | some d => exact d.wholeCents

theorem insurerShare_wholeCents {claimed deductible : ℚ} (hclaimed : WholeCents claimed)
    (hdeductible : WholeCents deductible) (limit : Option Amount) :
    WholeCents (insurerShare claimed deductible (limit.map Amount.value)) := by
  have heligible := (hclaimed.sub hdeductible).max .zero
  cases limit with
  | none => exact heligible
  | some l => exact heligible.min l.wholeCents

section Shares

variable {claimed deductible : ℚ}

theorem insurerShare_nonneg (claimed deductible : ℚ) {limit : Option ℚ}
    (hlimit : ∀ l ∈ limit, 0 ≤ l) : 0 ≤ insurerShare claimed deductible limit := by
  have heligible : 0 ≤ max (claimed - deductible) 0 := le_max_right ..
  cases limit with
  | none => exact heligible
  | some l => exact le_min heligible (hlimit l rfl)

theorem excessOf_nonneg (claimed deductible : ℚ) (limit : Option ℚ) :
    0 ≤ excessOf claimed deductible limit := by
  cases limit with
  | none => exact le_refl 0
  | some l => exact le_max_right ..

/-- The insurer pays no more than is claimed. -/
theorem insurerShare_le (hdeductible : 0 ≤ deductible) (hclaimed : 0 ≤ claimed)
    (limit : Option ℚ) : insurerShare claimed deductible limit ≤ claimed := by
  have heligible : max (claimed - deductible) 0 ≤ claimed :=
    max_le (sub_le_self _ hdeductible) hclaimed
  cases limit with
  | none => exact heligible
  | some l => exact (min_le_left ..).trans heligible

/-- Below the deductible the insurer pays nothing. -/
theorem insurerShare_of_le (h : claimed ≤ deductible) {limit : Option ℚ}
    (hlimit : ∀ l ∈ limit, 0 ≤ l) : insurerShare claimed deductible limit = 0 := by
  have heligible : max (claimed - deductible) 0 = 0 := max_eq_right (sub_nonpos.mpr h)
  unfold insurerShare
  rw [heligible]
  cases limit with
  | none => rfl
  | some l => exact min_eq_left (hlimit l rfl)

/-- Below the deductible nothing lies above the limit. -/
theorem excessOf_of_le (h : claimed ≤ deductible) {limit : Option ℚ}
    (hlimit : ∀ l ∈ limit, 0 ≤ l) : excessOf claimed deductible limit = 0 := by
  cases limit with
  | none => rfl
  | some l =>
    have hl := hlimit l rfl
    exact max_eq_right (by linarith)

/-- Above the deductible, the insurer pays what the policyholder does not: the deductible and what
lies above the limit. -/
theorem insurerShare_of_ge (h : deductible ≤ claimed) (limit : Option ℚ) :
    insurerShare claimed deductible limit =
      claimed - deductible - excessOf claimed deductible limit := by
  have heligible : max (claimed - deductible) 0 = claimed - deductible :=
    max_eq_left (sub_nonneg.mpr h)
  unfold insurerShare
  rw [heligible]
  cases limit with
  | none => exact (sub_zero _).symm
  | some l =>
    show min (claimed - deductible) l = claimed - deductible - max (claimed - deductible - l) 0
    rcases le_total (claimed - deductible) l with hle | hle
    · rw [min_eq_left hle, max_eq_right (sub_nonpos.mpr hle), sub_zero]
    · rw [min_eq_right hle, max_eq_left (sub_nonneg.mpr hle), sub_sub_cancel]

/-- **What the policyholder pays is the deductible, as far as the claim reaches it, and what lies
above the limit.** -/
theorem sub_insurerShare (claimed deductible : ℚ) {limit : Option ℚ}
    (hlimit : ∀ l ∈ limit, 0 ≤ l) :
    claimed - insurerShare claimed deductible limit =
      min deductible claimed + excessOf claimed deductible limit := by
  rcases le_total claimed deductible with h | h
  · rw [insurerShare_of_le h hlimit, excessOf_of_le h hlimit, min_eq_right h, sub_zero, add_zero]
  · rw [insurerShare_of_ge h, min_eq_left h]
    ring

theorem insurerShare_eq_zero_of_le_and_pos {limit : Option ℚ} (hlimit : ∀ l ∈ limit, 0 ≤ l) :
    (insurerShare claimed deductible limit = 0 ∧ claimed ≤ deductible ∧ 0 < claimed) ↔
      0 < claimed ∧ claimed ≤ deductible := by
  constructor
  · rintro ⟨-, hle, hpos⟩
    exact ⟨hpos, hle⟩
  · rintro ⟨hpos, hle⟩
    exact ⟨insurerShare_of_le hle hlimit, hle, hpos⟩

theorem excessOf_pos {limit : Option ℚ} :
    limit.any (· < claimed - deductible) = true ↔ 0 < excessOf claimed deductible limit := by
  cases limit with
  | none => simp [excessOf]
  | some l =>
    show decide (l < claimed - deductible) = true ↔ 0 < max (claimed - deductible - l) 0
    rw [decide_eq_true_eq, lt_max_iff, sub_pos]
    simp

/-- A higher claim is paid more, but not by more than it is higher. -/
theorem insurerShare_sub_le {a b : ℚ} (h : a ≤ b) (limit : Option ℚ) :
    0 ≤ insurerShare b deductible limit - insurerShare a deductible limit ∧
      insurerShare b deductible limit - insurerShare a deductible limit ≤ b - a := by
  have heligible : max (a - deductible) 0 ≤ max (b - deductible) 0 :=
    max_le_max_right 0 (sub_le_sub_right h _)
  have hgap : max (b - deductible) 0 ≤ max (a - deductible) 0 + (b - a) := by
    have ha : a - deductible ≤ max (a - deductible) 0 := le_max_left ..
    have hzero : 0 ≤ max (a - deductible) 0 := le_max_right ..
    exact max_le (by linarith) (by linarith)
  cases limit with
  | none =>
    show 0 ≤ max (b - deductible) 0 - max (a - deductible) 0 ∧ _ ≤ _
    exact ⟨sub_nonneg.mpr heligible, sub_le_iff_le_add'.mpr hgap⟩
  | some l =>
    show 0 ≤ min (max (b - deductible) 0) l - min (max (a - deductible) 0) l ∧ _ ≤ _
    refine ⟨sub_nonneg.mpr (min_le_min_right l heligible), sub_le_iff_le_add'.mpr ?_⟩
    show min (max (b - deductible) 0) l ≤ min (max (a - deductible) 0) l + (b - a)
    rw [← min_add_add_right]
    exact min_le_min hgap (le_add_of_nonneg_right (sub_nonneg.mpr h))

end Shares

/-- The split of a claim. -/
def exactSettlement (claimed : Amount) (limit deductible : Option Amount)
    (sectionTitle sourceFile : Text) (policySays exclusions : List Text) : Settlement where
  claimed := claimed.value
  deductible := deductibleOf deductible
  limit := limit.map Amount.value
  insurerPays := insurerShare claimed.value (deductibleOf deductible) (limit.map Amount.value)
  policyholderPays := claimed.value -
    insurerShare claimed.value (deductibleOf deductible) (limit.map Amount.value)
  sectionTitle := sectionTitle
  sourceFile := sourceFile
  policySays := policySays
  exclusions := exclusions

theorem nonneg_of_mem (limit : Option Amount) : ∀ l ∈ limit.map Amount.value, 0 ≤ l := by
  intro l hl
  obtain ⟨amount, -, rfl⟩ := Option.mem_map.mp hl
  exact amount.nonneg

theorem mapM_quantize {precision : Option Nat} {limit : Option Amount}
    (h : ∀ l ∈ limit, Fits precision l.value) :
    (limit.map Amount.value).mapM (quantize precision) = .ok (limit.map Amount.value) := by
  cases limit with
  | none => rfl
  | some l =>
    show (quantize precision l.value).map some = _
    rw [quantize_of_fits l.wholeCents (h l rfl)]
    rfl

theorem fits_of_mapM {precision : Option Nat} {limit : Option Amount} {l : Option ℚ}
    (h : (limit.map Amount.value).mapM (quantize precision) = .ok l) :
    ∀ l ∈ limit, Fits precision l.value := by
  rintro l rfl
  change (quantize precision l.value).map some = _ at h
  cases hl : quantize precision l.value with
  | ok x => exact fits_of_quantize l.wholeCents hl
  | error e =>
    rw [hl] at h
    cases h

theorem fits_deductibleOf {precision : Option Nat} {deductible : Option Amount}
    (h : ∀ d ∈ deductible, Fits precision d.value) : Fits precision (deductibleOf deductible) := by
  cases deductible with
  | none =>
    intro n _
    show |(0 : ℚ)| * 100 < 10 ^ n
    rw [abs_zero, zero_mul]
    exact pow_pos (by norm_num) n
  | some d => exact h d rfl

section Fitting

variable {precision : Option Nat} {claimed : Amount} {limit deductible : Option Amount}
  {sectionTitle sourceFile : Text} {policySays exclusions : List Text}

/-- A claim is split where the amounts fit the precision. -/
theorem settle_of_fits (hclaimed : Fits precision claimed.value)
    (hlimit : ∀ l ∈ limit, Fits precision l.value)
    (hdeductible : ∀ d ∈ deductible, Fits precision d.value) :
    settle precision claimed.value (limit.map Amount.value) (deductible.map Amount.value)
        sectionTitle sourceFile policySays exclusions =
      .ok (exactSettlement claimed limit deductible sectionTitle sourceFile policySays
        exclusions) := by
  have hcents := deductibleOf_wholeCents deductible
  have hshare := insurerShare_wholeCents claimed.wholeCents hcents limit
  have hnonneg := insurerShare_nonneg claimed.value (deductibleOf deductible) (nonneg_of_mem limit)
  have hle := insurerShare_le (deductibleOf_nonneg deductible) claimed.nonneg
    (limit.map Amount.value)
  have hpays := quantize_of_fits hshare (hclaimed.of_le hnonneg hle)
  have hrest := quantize_of_fits (claimed.wholeCents.sub hshare)
    (hclaimed.of_le (sub_nonneg.mpr hle) (sub_le_self _ hnonneg))
  unfold insurerShare at hpays hrest
  unfold settle
  rw [quantize_of_fits claimed.wholeCents hclaimed, ok_bind, ← deductibleOf,
    quantize_of_fits hcents (fits_deductibleOf hdeductible), ok_bind]
  dsimp only
  rw [mapM_quantize hlimit, ok_bind, hpays, ok_bind, hrest, ok_bind]
  rfl

/-- Only there. -/
theorem fits_of_settle {s : Settlement}
    (h : settle precision claimed.value (limit.map Amount.value) (deductible.map Amount.value)
      sectionTitle sourceFile policySays exclusions = .ok s) :
    (∀ l ∈ limit, Fits precision l.value) ∧ ∀ d ∈ deductible, Fits precision d.value := by
  unfold settle at h
  obtain ⟨c, -, h⟩ := exists_ok_of_bind h
  obtain ⟨d, hd, h⟩ := exists_ok_of_bind h
  obtain ⟨l, hl, -⟩ := exists_ok_of_bind h
  refine ⟨fits_of_mapM hl, ?_⟩
  rintro amount rfl
  exact fits_of_quantize amount.wholeCents hd

/-- What is reported of the shares fits the precision, too. -/
theorem reported_of_fits (hclaimed : Fits precision claimed.value) :
    (∃ applied, (exactSettlement claimed limit deductible sectionTitle sourceFile policySays
      exclusions).appliedDeductible precision = .ok applied) ∧
    ∃ excess, (exactSettlement claimed limit deductible sectionTitle sourceFile policySays
      exclusions).excess precision = .ok excess := by
  have hcents := deductibleOf_wholeCents deductible
  have hshare := insurerShare_wholeCents claimed.wholeCents hcents limit
  have hnonneg := insurerShare_nonneg claimed.value (deductibleOf deductible) (nonneg_of_mem limit)
  have hpart : 0 ≤ min (deductibleOf deductible) claimed.value :=
    le_min (deductibleOf_nonneg deductible) claimed.nonneg
  have hrest := sub_insurerShare claimed.value (deductibleOf deductible) (nonneg_of_mem limit)
  have hexcess := excessOf_nonneg claimed.value (deductibleOf deductible) (limit.map Amount.value)
  have happlied := quantize_of_fits (hcents.min claimed.wholeCents)
    (hclaimed.of_le hpart (min_le_right ..))
  refine ⟨⟨_, happlied⟩, ?_⟩
  unfold Settlement.excess Settlement.appliedDeductible exactSettlement
  dsimp only
  rw [happlied, ok_bind]
  exact ⟨_, quantize_of_fits ((claimed.wholeCents.sub hshare).sub (hcents.min claimed.wholeCents))
    (hclaimed.of_le (by linarith) (by linarith))⟩

end Fitting

/-- How the shares of a claim add up. -/
structure Settlement.Balanced (s : Settlement) (claimed deductible : ℚ) (limit : Option ℚ) :
    Prop where
  sum : s.insurerPays + s.policyholderPays = claimed
  nonneg : 0 ≤ s.insurerPays
  capped : ∀ l ∈ limit, s.insurerPays ≤ l
  excess : s.excess none = .ok (excessOf claimed deductible limit)
  share : ∃ applied, s.appliedDeductible none = .ok applied ∧
    s.policyholderPays = applied + excessOf claimed deductible limit
  above : s.aboveLimit = true ↔ 0 < excessOf claimed deductible limit
  below : s.belowDeductible = true ↔ 0 < claimed ∧ claimed ≤ deductible

/-- **The shares of a claim add up**, at every border between the cases: below the deductible, above
the limit, without a limit or without a deductible.  And a higher claim is paid more, but not by
more than it is higher. -/
theorem settle_balanced (claimed : Amount) (limit deductible : Option Amount)
    (sectionTitle sourceFile : Text) (policySays exclusions : List Text) :
    ∃ s, settle none claimed.value (limit.map Amount.value) (deductible.map Amount.value)
        sectionTitle sourceFile policySays exclusions = .ok s ∧
      s.Balanced claimed.value (deductibleOf deductible) (limit.map Amount.value) ∧
      ∀ higher : Amount, claimed.value ≤ higher.value →
        ∃ t, settle none higher.value (limit.map Amount.value) (deductible.map Amount.value)
            sectionTitle sourceFile policySays exclusions = .ok t ∧
          0 ≤ t.insurerPays - s.insurerPays ∧
          t.insurerPays - s.insurerPays ≤ higher.value - claimed.value := by
  have hlimit := nonneg_of_mem limit
  have hdeductible := deductibleOf_wholeCents deductible
  have happlied := quantize_of_fits (hdeductible.min claimed.wholeCents) (fits_none _)
  have hshare := sub_insurerShare claimed.value (deductibleOf deductible) hlimit
  refine ⟨_, settle_of_fits (fits_none _) (fun _ _ => fits_none _) (fun _ _ => fits_none _), ?_,
    fun higher h => ⟨_, settle_of_fits (fits_none _) (fun _ _ => fits_none _)
      (fun _ _ => fits_none _), insurerShare_sub_le h _⟩⟩
  constructor
  case sum => exact add_sub_cancel ..
  case nonneg => exact insurerShare_nonneg _ _ hlimit
  case capped =>
    intro l hl
    obtain ⟨amount, rfl, rfl⟩ := Option.mem_map.mp hl
    exact min_le_right ..
  case excess =>
    have hrest : claimed.value - insurerShare claimed.value (deductibleOf deductible)
          (limit.map Amount.value) - min (deductibleOf deductible) claimed.value =
        excessOf claimed.value (deductibleOf deductible) (limit.map Amount.value) := by
      rw [hshare, add_sub_cancel_left]
    have hcents := (claimed.wholeCents.sub (insurerShare_wholeCents claimed.wholeCents hdeductible
      limit)).sub (hdeductible.min claimed.wholeCents)
    rw [hrest] at hcents
    unfold Settlement.excess Settlement.appliedDeductible exactSettlement
    dsimp only
    rw [happlied, ok_bind, hrest]
    exact quantize_of_fits hcents (fits_none _)
  case share => exact ⟨_, happlied, hshare⟩
  case above => exact excessOf_pos
  case below =>
    unfold Settlement.belowDeductible
    simp only [Bool.and_eq_true, decide_eq_true_eq]
    exact insurerShare_eq_zero_of_le_and_pos hlimit

/-- An amount of whole dollars. -/
def Amount.ofNat (n : Nat) : Amount :=
  ⟨n, Nat.cast_nonneg n, ⟨(n * 100 : Nat), by push_cast; rfl⟩⟩

/-- Two claims on a section that covers $25,000 with a $500 deductible. -/
theorem higher_claim_paid_more :
    ∃ s t, settle none 300 (some 25000) (some 500) = .ok s ∧
      settle none 35000 (some 25000) (some 500) = .ok t ∧
      s.Balanced 300 500 (some 25000) ∧ 0 ≤ t.insurerPays - s.insurerPays ∧
      t.insurerPays - s.insurerPays ≤ 35000 - 300 := by
  have hle : (Amount.ofNat 300).value ≤ (Amount.ofNat 35000).value := by
    unfold Amount.ofNat
    norm_num
  obtain ⟨s, hs, hbalanced, hhigher⟩ :=
    settle_balanced (.ofNat 300) (some (.ofNat 25000)) (some (.ofNat 500)) [] [] [] []
  obtain ⟨t, ht, hnonneg, hgap⟩ := hhigher (.ofNat 35000) hle
  exact ⟨s, t, hs, ht, hbalanced, hnonneg, hgap⟩

end OmniCare
