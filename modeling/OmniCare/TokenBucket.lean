import Mathlib.Algebra.Order.Field.Basic
import Mathlib.Tactic.Linarith
import Mathlib.Tactic.Ring

/-! # A token bucket

A bucket holds at most `capacity` tokens, `refill` tokens flow into it in a unit of time, and
a request takes `cost` of them or is refused.  Amounts and times are elements of any ordered
field.

What one request takes, the bucket had (`take_potential`), so **in a window of length `T` at most
`capacity + refill * T` tokens are taken, at whatever times the requests come**
(`taken_in_window_le`).
-/
namespace OmniCare

variable {K : Type} [Field K] [LinearOrder K]

/-- How much a bucket can hold, and how much flows into it in a unit of time. -/
structure BucketRate (K : Type) where
  capacity : K
  refill : K
  deriving DecidableEq, Repr

/-- What a bucket held when it was last touched. -/
structure Bucket (K : Type) where
  tokens : K
  ts : K
  deriving DecidableEq, Repr

namespace Bucket

/-- What the bucket holds at a later time. -/
def level (r : BucketRate K) (b : Bucket K) (now : K) : K :=
  min r.capacity (b.tokens + (now - b.ts) * r.refill)

/-- The bucket after a request that costs `cost`. -/
def take (r : BucketRate K) (cost : K) (b : Bucket K) (now : K) : Bucket K :=
  ⟨if cost ≤ b.level r now then b.level r now - cost else b.level r now, now⟩

/-- The times of the requests that get what they cost. -/
def admissions (r : BucketRate K) (cost : K) : Bucket K → List K → List K
  | _, [] => []
  | b, now :: rest =>
      if cost ≤ b.level r now then now :: admissions r cost (b.take r cost now) rest
      else admissions r cost (b.take r cost now) rest

variable {r : BucketRate K} {cost : K} {b : Bucket K}

@[simp] theorem take_ts (now : K) : (b.take r cost now).ts = now := rfl

theorem level_le (now : K) : b.level r now ≤ r.capacity := min_le_left ..

theorem admissions_sublist (times : List K) : (b.admissions r cost times).Sublist times := by
  induction times generalizing b with
  | nil => exact List.Sublist.refl _
  | cons now rest ih =>
    unfold admissions
    split
    · exact ih.cons_cons now
    · exact ih.cons now

theorem le_of_mem_admissions {now : K} {rest : List K} (hsorted : (now :: rest).Pairwise (· ≤ ·))
    {t : K} (ht : t ∈ b.admissions r cost (now :: rest)) : now ≤ t := by
  rcases List.mem_cons.mp ((admissions_sublist _).subset ht) with rfl | hmem
  · exact le_refl _
  · exact List.rel_of_pairwise_cons hsorted hmem

/-- The requests that come too late count for nothing. -/
theorem filter_admissions_of_late {now hi : K} {rest : List K}
    (hsorted : (now :: rest).Pairwise (· ≤ ·)) (hlate : ¬ now ≤ hi) :
    (b.admissions r cost (now :: rest)).filter (· ≤ hi) = [] := by
  refine List.filter_eq_nil_iff.mpr fun t ht => ?_
  have hle : now ≤ t := le_of_mem_admissions hsorted ht
  simp only [decide_eq_true_eq]
  exact fun hthi => hlate (hle.trans hthi)

variable [IsStrictOrderedRing K]

theorem level_nonneg (hcapacity : 0 ≤ r.capacity) (hrefill : 0 ≤ r.refill) (hb : 0 ≤ b.tokens)
    {now : K} (hnow : b.ts ≤ now) : 0 ≤ b.level r now := by
  have hflow : 0 ≤ (now - b.ts) * r.refill := mul_nonneg (sub_nonneg.mpr hnow) hrefill
  exact le_min hcapacity (by linarith)

theorem take_nonneg (hcapacity : 0 ≤ r.capacity) (hrefill : 0 ≤ r.refill) (hb : 0 ≤ b.tokens)
    {now : K} (hnow : b.ts ≤ now) : 0 ≤ (b.take r cost now).tokens := by
  have hlevel := level_nonneg hcapacity hrefill hb hnow
  unfold take
  by_cases h : cost ≤ b.level r now
  · simp [h]
  · simpa [h] using hlevel

/-- A bucket that has had the time to fill up is full. -/
theorem level_of_full (hrefill : 0 ≤ r.refill) {now : K} (hnow : b.ts ≤ now)
    (hfull : r.capacity ≤ b.tokens) : b.level r now = r.capacity := by
  have hflow : 0 ≤ (now - b.ts) * r.refill := mul_nonneg (sub_nonneg.mpr hnow) hrefill
  exact min_eq_left (by linarith)

theorem level_of_idle (hb : 0 ≤ b.tokens) {now : K}
    (hidle : r.capacity ≤ (now - b.ts) * r.refill) : b.level r now = r.capacity :=
  min_eq_left (by linarith)

/-- Once what was missing has flowed in, there is enough. -/
theorem le_level_of_waited (hcost : cost ≤ r.capacity) {now : K}
    (hflow : cost - b.tokens ≤ (now - b.ts) * r.refill) : cost ≤ b.level r now :=
  le_min hcost (by linarith)

theorem take_le (hcost : 0 ≤ cost) (now : K) : (b.take r cost now).tokens ≤ r.capacity := by
  have hlevel := level_le (r := r) (b := b) now
  unfold take
  by_cases h : cost ≤ b.level r now
  · simp only [h, if_true]
    linarith
  · simpa only [h, if_false] using hlevel

omit [IsStrictOrderedRing K] in
/-- What a request takes, and what can still be taken until `hi`, could be taken before. -/
theorem take_potential (cost now hi : K) :
    (b.take r cost now).tokens + (hi - now) * r.refill +
        (if cost ≤ b.level r now then cost else 0) =
      b.level r now + (hi - now) * r.refill := by
  unfold take
  by_cases h : cost ≤ b.level r now
  · simp only [h, if_true]
    ring
  · simp only [h, if_false]
    ring

theorem level_potential (now hi : K) :
    b.level r now + (hi - now) * r.refill ≤ b.tokens + (hi - b.ts) * r.refill := by
  have h : b.level r now ≤ b.tokens + (now - b.ts) * r.refill := min_le_right ..
  have hsum : (hi - b.ts) * r.refill = (now - b.ts) * r.refill + (hi - now) * r.refill := by ring
  linarith

/-- From any state of the bucket, no more is taken until `hi` than it holds and what flows in. -/
theorem taken_until_le (cost : K) (hcapacity : 0 ≤ r.capacity) (hrefill : 0 ≤ r.refill)
    (hi : K) :
    ∀ (times : List K) (b : Bucket K), 0 ≤ b.tokens → b.ts ≤ hi →
      (b.ts :: times).Pairwise (· ≤ ·) →
      ((b.admissions r cost times).filter (· ≤ hi)).length * cost ≤
        b.tokens + (hi - b.ts) * r.refill
  | [], b, hb, hts, _ => by
      have hflow : 0 ≤ (hi - b.ts) * r.refill := mul_nonneg (sub_nonneg.mpr hts) hrefill
      simp only [admissions, List.filter_nil, List.length_nil, Nat.cast_zero, zero_mul]
      linarith
  | now :: rest, b, hb, hts, hsorted => by
      have hnow : b.ts ≤ now := List.rel_of_pairwise_cons hsorted List.mem_cons_self
      have hrest : (now :: rest).Pairwise (· ≤ ·) := hsorted.of_cons
      have hlevel := level_potential (r := r) (b := b) now hi
      by_cases hlate : now ≤ hi
      · have ih := taken_until_le cost hcapacity hrefill hi rest (b.take r cost now)
          (take_nonneg hcapacity hrefill hb hnow) hlate hrest
        have htake := take_potential (r := r) (b := b) cost now hi
        rw [take_ts] at ih
        unfold admissions
        by_cases h : cost ≤ b.level r now
        · simp only [h, if_true] at htake ⊢
          simp only [List.filter_cons, decide_eq_true hlate, if_true, List.length_cons,
            Nat.cast_add, Nat.cast_one, add_mul, one_mul]
          linarith
        · simp only [h, if_false, add_zero] at htake ⊢
          linarith
      · have hflow : 0 ≤ (hi - b.ts) * r.refill := mul_nonneg (sub_nonneg.mpr hts) hrefill
        rw [filter_admissions_of_late hrest hlate, List.length_nil, Nat.cast_zero, zero_mul]
        linarith

/-- In a window of length `T`, no more is taken than a full bucket and what flows in. -/
theorem taken_in_window_le (cost lo : K) {T : K} (hcapacity : 0 ≤ r.capacity)
    (hrefill : 0 ≤ r.refill) (hT : 0 ≤ T) :
    ∀ (times : List K) (b : Bucket K), 0 ≤ b.tokens → (b.ts :: times).Pairwise (· ≤ ·) →
      ((b.admissions r cost times).filter fun t => lo ≤ t ∧ t ≤ lo + T).length * cost ≤
        r.capacity + T * r.refill
  | [], b, _, _ => by
      have hflow : 0 ≤ T * r.refill := mul_nonneg hT hrefill
      simp only [admissions, List.filter_nil, List.length_nil, Nat.cast_zero, zero_mul]
      linarith
  | now :: rest, b, hb, hsorted => by
      have hnow : b.ts ≤ now := List.rel_of_pairwise_cons hsorted List.mem_cons_self
      have hrest : (now :: rest).Pairwise (· ≤ ·) := hsorted.of_cons
      by_cases hlo : lo ≤ now
      · -- The window begins here: the bucket holds at most its capacity.
        have hall : (b.admissions r cost (now :: rest)).filter (fun t => lo ≤ t ∧ t ≤ lo + T) =
            (b.admissions r cost (now :: rest)).filter (· ≤ lo + T) := by
          refine List.filter_congr fun t ht => ?_
          have hle : now ≤ t := le_of_mem_admissions hrest ht
          simp [hlo.trans hle]
        have hflow : (lo + T - now) * r.refill ≤ T * r.refill :=
          mul_le_mul_of_nonneg_right (by linarith) hrefill
        by_cases hhi : now ≤ lo + T
        · have hsame : b.admissions r cost (now :: rest) =
              (⟨b.level r now, now⟩ : Bucket K).admissions r cost (now :: rest) := by
            have hlevel : (⟨b.level r now, now⟩ : Bucket K).level r now = b.level r now := by
              simp [level]
            simp only [admissions, take, hlevel]
          have huntil := taken_until_le cost hcapacity hrefill (lo + T) (now :: rest)
            ⟨b.level r now, now⟩ (level_nonneg hcapacity hrefill hb hnow) hhi
            (List.pairwise_cons.mpr ⟨fun t ht => by
              rcases List.mem_cons.mp ht with rfl | hmem
              · exact le_refl _
              · exact List.rel_of_pairwise_cons hrest hmem, hrest⟩)
          have hfull := level_le (r := r) (b := b) now
          rw [hall, hsame]
          linarith
        · have hT' : 0 ≤ T * r.refill := mul_nonneg hT hrefill
          rw [hall, filter_admissions_of_late hrest hhi, List.length_nil, Nat.cast_zero, zero_mul]
          linarith
      · have ih := taken_in_window_le cost lo hcapacity hrefill hT rest (b.take r cost now)
          (take_nonneg hcapacity hrefill hb hnow) hrest
        unfold admissions
        by_cases h : cost ≤ b.level r now
        · simpa only [h, if_true, List.filter_cons, hlo, false_and, decide_false,
            Bool.false_eq_true, if_false] using ih
        · simpa only [h, if_false] using ih

end Bucket

end OmniCare
