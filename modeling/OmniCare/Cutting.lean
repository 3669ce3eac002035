import Mathlib.Data.List.Basic

/-! # Cutting ranges out of a list

A range is given by its first position and the one behind its last.  `cutBack` cuts ranges out of a
list, the last one first, so that the positions of those before it stay as they are.  Of ranges that
are in order, disjoint and inside the list it takes away exactly their union
(`cutBack_eq_outside`).
-/
namespace OmniCare.Cutting

variable {α : Type*}

/-- A position lies in a range. -/
def within (r : Nat × Nat) (i : Nat) : Bool := r.1 ≤ i && i < r.2

/-- A list without the ranges, cut out back to front. -/
def cutBack (l : List α) (ranges : List (Nat × Nat)) : List α :=
  ranges.foldr (fun r l => l.take r.1 ++ l.drop r.2) l

/-- The elements of a list, counted from `n`, whose positions lie in no range. -/
def outsideFrom (n : Nat) (l : List α) (ranges : List (Nat × Nat)) : List α :=
  ((l.zipIdx n).filter fun e => !ranges.any (within · e.2)).map Prod.fst

/-- The elements of a list whose positions lie in no range. -/
def outside (l : List α) (ranges : List (Nat × Nat)) : List α := outsideFrom 0 l ranges

/-- Ranges that are in order, disjoint and inside a list of some length. -/
structure Apart (length : Nat) (ranges : List (Nat × Nat)) : Prop where
  inside : ∀ r ∈ ranges, r.1 ≤ r.2 ∧ r.2 ≤ length
  ordered : ranges.Pairwise fun a b => a.2 ≤ b.1

theorem outsideFrom_append (n : Nat) (l l' : List α) (ranges : List (Nat × Nat)) :
    outsideFrom n (l ++ l') ranges =
      outsideFrom n l ranges ++ outsideFrom (n + l.length) l' ranges := by
  unfold outsideFrom
  rw [List.zipIdx_append, List.filter_append, List.map_append]

/-- Ranges that have the same positions of a piece leave the same of it. -/
theorem outsideFrom_congr {n : Nat} {l : List α} {ranges ranges' : List (Nat × Nat)}
    (h : ∀ i, n ≤ i → i < n + l.length →
      (ranges.any (within · i) = ranges'.any (within · i))) :
    outsideFrom n l ranges = outsideFrom n l ranges' := by
  unfold outsideFrom
  refine congrArg (List.map Prod.fst) (List.filter_congr fun e he => ?_)
  obtain ⟨hle, hlt, -⟩ := List.mem_zipIdx he
  rw [h e.2 hle (by omega)]

/-- A piece that no range reaches stays. -/
theorem outsideFrom_eq_self {n : Nat} {l : List α} {ranges : List (Nat × Nat)}
    (h : ∀ r ∈ ranges, ∀ i, n ≤ i → i < n + l.length → within r i = false) :
    outsideFrom n l ranges = l := by
  have hnone : outsideFrom n l ranges = outsideFrom n l [] := by
    refine outsideFrom_congr fun i hle hlt => ?_
    rw [List.any_nil, List.any_eq_false]
    exact fun r hr => Bool.eq_false_iff.mp (h r hr i hle hlt)
  rw [hnone, outsideFrom]
  simp

/-- A piece inside a range goes. -/
theorem outsideFrom_eq_nil {n : Nat} {l : List α} {ranges : List (Nat × Nat)} {r : Nat × Nat}
    (hr : r ∈ ranges) (hfirst : r.1 ≤ n) (hlast : n + l.length ≤ r.2) :
    outsideFrom n l ranges = [] := by
  unfold outsideFrom
  rw [List.map_eq_nil_iff, List.filter_eq_nil_iff]
  intro e he
  obtain ⟨hle, hlt, -⟩ := List.mem_zipIdx he
  have hany : ranges.any (within · e.2) = true :=
    List.any_eq_true.mpr ⟨r, hr, by simp only [within, Bool.and_eq_true, decide_eq_true_eq]; omega⟩
  simp [hany]

/-- A list as what is before a range, in it and behind it. -/
theorem exists_split {l : List α} {r : Nat × Nat} (h : r.1 ≤ r.2 ∧ r.2 ≤ l.length) :
    ∃ before mid after, l = before ++ mid ++ after ∧ before.length = r.1 ∧
      before.length + mid.length = r.2 := by
  refine ⟨l.take r.1, (l.take r.2).drop r.1, l.drop r.2, ?_, ?_, ?_⟩
  · have htake : l.take r.1 = (l.take r.2).take r.1 := by
      rw [List.take_take, Nat.min_eq_left h.1]
    rw [htake, List.take_append_drop, List.take_append_drop]
  · rw [List.length_take]
    omega
  · rw [List.length_take, List.length_drop, List.length_take]
    omega

/-- **Cutting back to front takes away exactly the union of the ranges.** -/
theorem cutBack_eq_outside {l : List α} {ranges : List (Nat × Nat)}
    (h : Apart l.length ranges) : cutBack l ranges = outside l ranges := by
  induction ranges with
  | nil => exact (outsideFrom_eq_self fun r hr => absurd hr List.not_mem_nil).symm
  | cons r ranges ih =>
    have hlater := (List.pairwise_cons.mp h.ordered).1
    have hrest : cutBack l ranges = outside l ranges :=
      ih ⟨fun x hx => h.inside x (List.mem_cons_of_mem _ hx), (List.pairwise_cons.mp h.ordered).2⟩
    obtain ⟨before, mid, after, rfl, hbefore, hmid⟩ :=
      exists_split (h.inside r List.mem_cons_self)
    -- the later ranges leave everything up to the end of this one
    have hkept : outside (before ++ mid ++ after) ranges =
        before ++ mid ++ outsideFrom r.2 after ranges := by
      unfold outside
      rw [outsideFrom_append, List.length_append, Nat.zero_add, hmid]
      refine congrArg (· ++ _) (outsideFrom_eq_self fun x hx i _ hlt => ?_)
      have := hlater x hx
      rw [List.length_append] at hlt
      simp only [within, Bool.and_eq_false_iff, decide_eq_false_iff_not]
      omega
    have hcut : outside (before ++ mid ++ after) (r :: ranges) =
        before ++ outsideFrom r.2 after ranges := by
      unfold outside
      rw [outsideFrom_append, outsideFrom_append, List.length_append, Nat.zero_add, Nat.zero_add,
        hmid]
      have hself : outsideFrom 0 before (r :: ranges) = before := by
        refine outsideFrom_eq_self fun x hx i _ hlt => ?_
        simp only [within, Bool.and_eq_false_iff, decide_eq_false_iff_not]
        rcases List.mem_cons.mp hx with rfl | hx
        · omega
        · have := hlater x hx
          omega
      have hgone : outsideFrom before.length mid (r :: ranges) = [] :=
        outsideFrom_eq_nil List.mem_cons_self (Nat.le_of_eq hbefore.symm) (Nat.le_of_eq hmid)
      have hsame : outsideFrom r.2 after (r :: ranges) = outsideFrom r.2 after ranges := by
        refine outsideFrom_congr fun i hle _ => ?_
        have hout : within r i = false := by
          simp only [within, Bool.and_eq_false_iff, decide_eq_false_iff_not]
          omega
        rw [List.any_cons, hout, Bool.false_or]
      rw [hself, hgone, hsame, List.append_nil]
    show (cutBack _ ranges).take r.1 ++ (cutBack _ ranges).drop r.2 = _
    rw [hrest, hkept, hcut, ← hbefore, ← hmid]
    have hlength : before.length + mid.length = (before ++ mid).length := List.length_append.symm
    rw [hlength, List.drop_left, List.append_assoc, List.take_left]

/-- A piece that no range reaches stays in one. -/
theorem infix_outside {l : List α} {ranges : List (Nat × Nat)} {r : Nat × Nat}
    (hin : r.1 ≤ r.2 ∧ r.2 ≤ l.length) (h : ∀ x ∈ ranges, x.2 ≤ r.1 ∨ r.2 ≤ x.1) :
    ((l.take r.2).drop r.1).IsInfix (outside l ranges) := by
  obtain ⟨before, mid, after, rfl, hbefore, hmid⟩ := exists_split hin
  have hpiece : ((before ++ mid ++ after).take r.2).drop r.1 = mid := by
    rw [← hmid, ← hbefore, ← List.length_append, List.take_left, List.drop_left]
  have hself : outsideFrom before.length mid ranges = mid := by
    refine outsideFrom_eq_self fun x hx i hle hlt => ?_
    have := h x hx
    simp only [within, Bool.and_eq_false_iff, decide_eq_false_iff_not]
    omega
  refine ⟨outsideFrom 0 before ranges, outsideFrom r.2 after ranges, ?_⟩
  unfold outside
  rw [hpiece, outsideFrom_append, outsideFrom_append, List.length_append, Nat.zero_add,
    Nat.zero_add, hmid, hself]

end OmniCare.Cutting
