import Mathlib.Algebra.Order.Field.Basic
import Mathlib.Algebra.Order.BigOperators.Group.List
import Mathlib.Tactic.Positivity

/-! # Scores after Okapi

A document is a list of terms, and so is a query.  What a term of the query is worth to a document
grows with the number of times that it occurs there, less and less, and the more slowly the longer
the document is; it is weighted by how rare the term is.  Scores are elements of any ordered field.

**A document scores above nothing exactly if it has a term of the query**, provided that every term
has some weight (`score_pos_iff`).
-/
namespace OmniCare.Okapi

variable {τ : Type*} [BEq τ] [LawfulBEq τ]
variable {K : Type*} [Field K] [LinearOrder K] [IsStrictOrderedRing K]

/-- How soon further occurrences of a term are worth nothing, and how much the length of a document
matters. -/
structure Weights (K : Type*) [Field K] [LinearOrder K] where
  k₁ : K
  b : K
  k₁_nonneg : 0 ≤ k₁
  b_nonneg : 0 ≤ b
  b_le_one : b ≤ 1

/-- What `tf` occurrences of a term are worth, in a document of a relative length. -/
def Weights.gain (w : Weights K) (length : K) (tf : Nat) : K :=
  tf * (w.k₁ + 1) / (tf + w.k₁ * (1 - w.b + w.b * length))

/-- The score of a document. -/
def Weights.score (w : Weights K) (idf : τ → K) (length : K) (doc terms : List τ) : K :=
  (terms.map fun t => idf t * w.gain length (doc.count t)).sum

variable (w : Weights K) {length : K}

omit [IsStrictOrderedRing K] in
@[simp] theorem Weights.gain_zero : w.gain length 0 = 0 := by
  rw [gain, Nat.cast_zero, zero_mul, zero_div]

theorem Weights.gain_pos (hlength : 0 ≤ length) {tf : Nat} (htf : 0 < tf) :
    0 < w.gain length tf := by
  have hcast : (0 : K) < tf := Nat.cast_pos.mpr htf
  have hk := w.k₁_nonneg
  have hb := w.b_nonneg
  have hlong : 0 ≤ 1 - w.b + w.b * length :=
    add_nonneg (sub_nonneg.mpr w.b_le_one) (mul_nonneg hb hlength)
  exact div_pos (by positivity) (add_pos_of_pos_of_nonneg hcast (mul_nonneg hk hlong))

/-- **A document scores above nothing exactly if it has a term of the query.** -/
theorem Weights.score_pos_iff (hlength : 0 ≤ length) {idf : τ → K} (hidf : ∀ t, 0 < idf t)
    {doc terms : List τ} : 0 < w.score idf length doc terms ↔ ∃ t ∈ terms, t ∈ doc := by
  have hnonneg : ∀ t, 0 ≤ idf t * w.gain length (doc.count t) := by
    intro t
    refine mul_nonneg (hidf t).le ?_
    rcases Nat.eq_zero_or_pos (doc.count t) with hzero | hpos
    · rw [hzero, w.gain_zero]
    · exact (w.gain_pos hlength hpos).le
  have hall : ∀ x ∈ terms.map fun t => idf t * w.gain length (doc.count t), 0 ≤ x := by
    rintro x hx
    obtain ⟨t, -, rfl⟩ := List.mem_map.mp hx
    exact hnonneg t
  constructor
  · intro hpos
    by_contra hnone
    refine hpos.ne' (List.sum_eq_zero fun x hx => ?_)
    obtain ⟨t, ht, rfl⟩ := List.mem_map.mp hx
    rw [List.count_eq_zero.mpr fun hdoc => hnone ⟨t, ht, hdoc⟩, w.gain_zero, mul_zero]
  · rintro ⟨t, ht, hdoc⟩
    refine lt_of_lt_of_le (mul_pos (hidf t) (w.gain_pos hlength (List.count_pos_iff.mpr hdoc))) ?_
    exact List.single_le_sum hall _ (List.mem_map_of_mem ht)

end OmniCare.Okapi
