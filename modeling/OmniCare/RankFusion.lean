import Mathlib.Algebra.Order.Field.Basic
import Mathlib.Data.List.Sort
import Mathlib.Tactic.Linarith

/-! # Reciprocal rank fusion

Rankings of the same things by different judges, fused into one: a thing has from each ranking the
reciprocal of its rank, damped by a constant, and the things are ordered by what they have in all.
Scores are elements of any ordered field.

**What two judges have ranked scores above what one has, as long as the rankings are shorter than
the constant and two** (`score_lt_of_agreed`): the worst ranks of both still weigh more than the
best rank of one.
-/
namespace OmniCare.RankFusion

variable {α : Type*} [DecidableEq α] {K : Type*} [Field K]

/-! ## Tallies -/

/-- What is counted for each thing, in the order in which it was first counted. -/
abbrev Tally (α K : Type*) := List (α × K)

/-- `x` more for a thing. -/
def Tally.add (d : α) (x : K) : Tally α K → Tally α K
  | [] => [(d, 0 + x)]
  | (e, y) :: rest => if e = d then (e, y + x) :: rest else (e, y) :: Tally.add d x rest

/-- What has been counted for a thing. -/
def Tally.of (scores : Tally α K) (d : α) : K := ((scores.find? (·.1 = d)).map (·.2)).getD 0

@[simp] theorem Tally.of_nil (d : α) : Tally.of ([] : Tally α K) d = 0 := rfl

theorem Tally.of_cons (e : α) (y : K) (rest : Tally α K) (d : α) :
    Tally.of ((e, y) :: rest) d = if e = d then y else Tally.of rest d := by
  unfold Tally.of
  by_cases h : e = d
  · simp [h]
  · simp [h]

theorem Tally.of_add (d : α) (x : K) (scores : Tally α K) (e : α) :
    (scores.add d x).of e = scores.of e + if e = d then x else 0 := by
  induction scores with
  | nil =>
    by_cases h : d = e
    · simp [Tally.add, Tally.of_cons, h]
    · simp [Tally.add, Tally.of_cons, h, Ne.symm h]
  | cons entry rest ih =>
    obtain ⟨a, y⟩ := entry
    rw [Tally.add]
    by_cases ha : a = d
    · subst ha
      rw [if_pos rfl, Tally.of_cons, Tally.of_cons]
      by_cases h : a = e
      · rw [if_pos h, if_pos h, if_pos h.symm]
      · rw [if_neg h, if_neg h, if_neg (Ne.symm h), add_zero]
    · rw [if_neg ha, Tally.of_cons, Tally.of_cons, ih]
      by_cases h : a = e
      · subst h
        rw [if_pos rfl, if_pos rfl, if_neg ha, add_zero]
      · rw [if_neg h, if_neg h]

theorem Tally.keys_add (d : α) (x : K) (scores : Tally α K) (e : α) :
    e ∈ (scores.add d x).map (·.1) ↔ e = d ∨ e ∈ scores.map (·.1) := by
  induction scores with
  | nil => simp [Tally.add]
  | cons entry rest ih =>
    obtain ⟨a, y⟩ := entry
    rw [Tally.add]
    by_cases ha : a = d
    · rw [if_pos ha]
      simp [ha]
    · rw [if_neg ha, List.map_cons, List.mem_cons, ih, List.map_cons, List.mem_cons]
      tauto

theorem Tally.nodup_add (d : α) (x : K) {scores : Tally α K} (h : (scores.map (·.1)).Nodup) :
    ((scores.add d x).map (·.1)).Nodup := by
  induction scores with
  | nil => simp [Tally.add]
  | cons entry rest ih =>
    obtain ⟨a, y⟩ := entry
    rw [List.map_cons, List.nodup_cons] at h
    rw [Tally.add]
    by_cases ha : a = d
    · rw [if_pos ha]
      exact List.nodup_cons.mpr h
    · rw [if_neg ha, List.map_cons, List.nodup_cons, Tally.keys_add]
      exact ⟨fun hmem => hmem.elim ha h.1, ih h.2⟩

/-- An entry of a tally has what was counted for it. -/
theorem Tally.of_eq_of_mem {scores : Tally α K} (h : (scores.map (·.1)).Nodup) {d : α} {x : K}
    (hmem : (d, x) ∈ scores) : scores.of d = x := by
  induction scores with
  | nil => cases hmem
  | cons entry rest ih =>
    obtain ⟨a, y⟩ := entry
    rw [List.map_cons, List.nodup_cons] at h
    rw [Tally.of_cons]
    rcases List.mem_cons.mp hmem with heq | hmem
    · cases heq
      exact if_pos rfl
    · have hne : a ≠ d := fun heq => h.1 (List.mem_map.mpr ⟨_, hmem, heq.symm⟩)
      rw [if_neg hne]
      exact ih h.2 hmem

/-! ## Scores -/

/-- The weights of the things of a ranking, the first of which has the rank `rank`. -/
def addRanking (k : K) : Nat → List α → Tally α K → Tally α K
  | _, [], scores => scores
  | rank, d :: rest, scores => addRanking k (rank + 1) rest (scores.add d (1 / (k + rank)))

/-- The fused scores. -/
def fusion (k : K) (rankings : List (List α)) : Tally α K :=
  rankings.foldl (fun scores ranking => addRanking k 1 ranking scores) []

/-- What a thing has from a ranking. -/
def weight (k : K) : Nat → List α → α → K
  | _, [], _ => 0
  | rank, e :: rest, d => (if d = e then 1 / (k + rank) else 0) + weight k (rank + 1) rest d

theorem of_addRanking (k : K) (rank : Nat) (ranking : List α) (scores : Tally α K) (d : α) :
    (addRanking k rank ranking scores).of d = scores.of d + weight k rank ranking d := by
  induction ranking generalizing rank scores with
  | nil => simp [addRanking, weight]
  | cons e rest ih => rw [addRanking, weight, ih, Tally.of_add, add_assoc]

theorem keys_addRanking (k : K) (rank : Nat) (ranking : List α) (scores : Tally α K) (d : α) :
    d ∈ (addRanking k rank ranking scores).map (·.1) ↔ d ∈ ranking ∨ d ∈ scores.map (·.1) := by
  induction ranking generalizing rank scores with
  | nil => simp [addRanking]
  | cons e rest ih =>
    rw [addRanking, ih, Tally.keys_add, List.mem_cons]
    tauto

theorem nodup_addRanking (k : K) (rank : Nat) (ranking : List α) {scores : Tally α K}
    (h : (scores.map (·.1)).Nodup) : ((addRanking k rank ranking scores).map (·.1)).Nodup := by
  induction ranking generalizing rank scores with
  | nil => exact h
  | cons e rest ih => exact ih (rank + 1) (Tally.nodup_add e _ h)

section Fusion
variable (k : K) (rankings : List (List α))

/-- **The score of a thing is the sum of what it has from the rankings.** -/
theorem of_fusion (d : α) :
    (fusion k rankings).of d = (rankings.map fun ranking => weight k 1 ranking d).sum := by
  have hfold : ∀ scores : Tally α K,
      Tally.of (rankings.foldl (fun scores ranking => addRanking k 1 ranking scores) scores) d =
        scores.of d + (rankings.map fun ranking => weight k 1 ranking d).sum := by
    induction rankings with
    | nil => simp
    | cons ranking rest ih =>
      intro scores
      rw [List.foldl_cons, ih, of_addRanking, List.map_cons, List.sum_cons, add_assoc]
  rw [fusion, hfold, Tally.of_nil, zero_add]

theorem keys_fusion (d : α) : d ∈ (fusion k rankings).map (·.1) ↔ ∃ r ∈ rankings, d ∈ r := by
  have hfold : ∀ scores : Tally α K,
      d ∈ (rankings.foldl (fun scores ranking => addRanking k 1 ranking scores) scores).map (·.1) ↔
        (∃ r ∈ rankings, d ∈ r) ∨ d ∈ scores.map (·.1) := by
    induction rankings with
    | nil => simp
    | cons ranking rest ih =>
      intro scores
      rw [List.foldl_cons, ih, keys_addRanking, List.exists_mem_cons_iff]
      exact or_left_comm.trans or_assoc.symm
  rw [fusion, hfold]
  simp

theorem nodup_fusion : ((fusion k rankings).map (·.1)).Nodup := by
  have hfold : ∀ scores : Tally α K, (scores.map (·.1)).Nodup →
      ((rankings.foldl (fun scores ranking => addRanking k 1 ranking scores) scores).map
        (·.1)).Nodup := by
    induction rankings with
    | nil => exact fun _ h => h
    | cons ranking rest ih => exact fun scores h => ih _ (nodup_addRanking k 1 ranking h)
  exact hfold [] List.nodup_nil

end Fusion

/-- In a ranking without duplicates, a thing has the reciprocal of its rank. -/
theorem weight_eq (k : K) (rank : Nat) {ranking : List α} (h : ranking.Nodup) (d : α) :
    weight k rank ranking d =
      if d ∈ ranking then 1 / (k + (rank + ranking.idxOf d : Nat)) else 0 := by
  induction ranking generalizing rank with
  | nil => rfl
  | cons e rest ih =>
    obtain ⟨hnot, hrest⟩ := List.nodup_cons.mp h
    rw [weight, ih (rank + 1) hrest]
    by_cases hd : d = e
    · subst hd
      simp [hnot]
    · have hrank : rank + 1 + rest.idxOf d = rank + (rest.idxOf d + 1) := by omega
      rw [if_neg hd, zero_add, List.idxOf_cons_ne _ (Ne.symm hd), Nat.succ_eq_add_one, hrank]
      simp only [List.mem_cons, hd, false_or]

theorem weight_of_getElem? (k : K) {ranking : List α} (h : ranking.Nodup) {n : Nat} {d : α}
    (hd : ranking[n]? = some d) : weight k 1 ranking d = 1 / (k + 1 + n) := by
  obtain ⟨hlt, rfl⟩ := List.getElem?_eq_some_iff.mp hd
  rw [weight_eq k 1 h, if_pos (List.getElem_mem hlt), h.idxOf_getElem n hlt]
  push_cast
  rw [add_assoc]

/-! ## What is ranked higher -/

/-- A thing ranks at least as high as another one: what is not ranked comes last. -/
def RanksAtLeast (ranking : List α) (d e : α) : Prop := ranking.idxOf d ≤ ranking.idxOf e

/-- A thing ranks higher than another one. -/
def RanksHigher (ranking : List α) (d e : α) : Prop := ranking.idxOf d < ranking.idxOf e

section Order
variable [LinearOrder K] [IsStrictOrderedRing K] {k : K} {ranking : List α} {d e : α}

/-- No rank weighs more than the first. -/
theorem weight_le (hk : 0 < k) (h : ranking.Nodup) (d : α) :
    weight k 1 ranking d ≤ 1 / (k + 1) := by
  rw [weight_eq k 1 h]
  split
  · refine one_div_le_one_div_of_le (by linarith) ?_
    push_cast
    have hpos : (0 : K) ≤ ranking.idxOf d := Nat.cast_nonneg _
    linarith
  · positivity

/-- No rank weighs less than the last. -/
theorem le_weight (hk : 0 < k) (h : ranking.Nodup) (hd : d ∈ ranking) :
    1 / (k + ranking.length) ≤ weight k 1 ranking d := by
  rw [weight_eq k 1 h, if_pos hd]
  refine one_div_le_one_div_of_le (by positivity) ?_
  have hlt : 1 + ranking.idxOf d ≤ ranking.length := by
    have := List.idxOf_lt_length_of_mem hd
    omega
  have hcast : ((1 + ranking.idxOf d : Nat) : K) ≤ ranking.length := Nat.cast_le.mpr hlt
  linarith

/-- A thing that is not ranked weighs no more than any that is. -/
theorem weight_mono (hk : 0 < k) (h : ranking.Nodup) (hle : RanksAtLeast ranking d e) :
    weight k 1 ranking e ≤ weight k 1 ranking d := by
  unfold RanksAtLeast at hle
  rw [weight_eq k 1 h, weight_eq k 1 h]
  by_cases he : e ∈ ranking
  · have hlt := List.idxOf_lt_length_of_mem he
    have hd : d ∈ ranking := List.idxOf_lt_length_iff.mp (by omega)
    rw [if_pos he, if_pos hd]
    refine one_div_le_one_div_of_le (by positivity) ?_
    have hcast : ((1 + ranking.idxOf d : Nat) : K) ≤ (1 + ranking.idxOf e : Nat) :=
      Nat.cast_le.mpr (by omega)
    linarith
  · rw [if_neg he]
    split
    · positivity
    · exact le_refl _

theorem weight_strictMono (hk : 0 < k) (h : ranking.Nodup)
    (hlt : RanksHigher ranking d e) : weight k 1 ranking e < weight k 1 ranking d := by
  unfold RanksHigher at hlt
  have hd : d ∈ ranking := by
    refine List.idxOf_lt_length_iff.mp (lt_of_lt_of_le hlt ?_)
    exact List.idxOf_le_length
  rw [weight_eq k 1 h, weight_eq k 1 h, if_pos hd]
  split
  · refine one_div_lt_one_div_of_lt (by positivity) ?_
    have hcast : ((1 + ranking.idxOf d : Nat) : K) < (1 + ranking.idxOf e : Nat) :=
      Nat.cast_lt.mpr (by omega)
    linarith
  · positivity

/-- **What two judges have ranked scores above what one has.** -/
theorem score_lt_of_agreed {ranking₁ ranking₂ : List α} {best : K} (hk : 0 < k)
    (h₁ : ranking₁.Nodup) (h₂ : ranking₂.Nodup) (hlen₁ : (ranking₁.length : K) ≤ k + 1)
    (hlen₂ : (ranking₂.length : K) ≤ k + 1) (hd₁ : d ∈ ranking₁) (hd₂ : d ∈ ranking₂)
    (hbest : best ≤ 1 / (k + 1)) : best < weight k 1 ranking₁ d + weight k 1 ranking₂ d := by
  have worst : ∀ {ranking : List α}, ranking.Nodup → (ranking.length : K) ≤ k + 1 → d ∈ ranking →
      1 / (2 * k + 1) ≤ weight k 1 ranking d := by
    intro ranking h hlen hd
    refine le_trans ?_ (le_weight hk h hd)
    exact one_div_le_one_div_of_le (by positivity) (by linarith)
  have hsum := add_le_add (worst h₁ hlen₁ hd₁) (worst h₂ hlen₂ hd₂)
  have hhalf : 1 / (k + 1) < 1 / (2 * k + 1) + 1 / (2 * k + 1) := by
    rw [← two_mul, mul_one_div, div_lt_div_iff₀ (by positivity) (by positivity)]
    linarith
  linarith

/-! ## What can score as much -/

/-- What is not among the first `n` weighs no more than what comes next. -/
theorem weight_le_of_not_mem_take (hk : 0 < k) (h : ranking.Nodup) {n : Nat}
    (hd : d ∉ ranking.take n) : weight k 1 ranking d ≤ 1 / (k + 1 + n) := by
  rw [weight_eq k 1 h]
  split
  · rename_i hmem
    have hle : n ≤ ranking.idxOf d := by
      by_contra hlt
      exact hd (List.mem_take_iff_getElem.mpr ⟨ranking.idxOf d,
        lt_min (not_le.mp hlt) (List.idxOf_lt_length_of_mem hmem), List.getElem_idxOf _⟩)
    refine one_div_le_one_div_of_le (by positivity) ?_
    have hcast : (n : K) ≤ ranking.idxOf d := Nat.cast_le.mpr hle
    push_cast
    linarith
  · positivity

variable {ranking₁ ranking₂ : List α}

/-- Only what one judge has ranked higher scores as much. -/
theorem mem_of_score_le (hk : 0 < k) (h₁ : ranking₁.Nodup) (h₂ : ranking₂.Nodup) {p q : Nat}
    (hd₁ : ranking₁[p]? = some d) (hd₂ : ranking₂[q]? = some d) (hne : e ≠ d)
    (hle : weight k 1 ranking₁ d + weight k 1 ranking₂ d ≤
      weight k 1 ranking₁ e + weight k 1 ranking₂ e) :
    e ∈ ranking₁.take p ++ ranking₂.take q := by
  -- What neither has ranked higher stands behind the place of `d`.
  have hbehind : ∀ {ranking : List α} {n : Nat}, ranking[n]? = some d → e ∉ ranking.take n →
      e ∉ ranking.take (n + 1) := by
    intro ranking n hd hnot hmem
    rw [List.take_add_one, hd] at hmem
    rcases List.mem_append.mp hmem with hmem | hmem
    · exact hnot hmem
    · exact hne (by simpa using hmem)
  have hless : ∀ {ranking : List α} {n : Nat}, ranking.Nodup → ranking[n]? = some d →
      e ∉ ranking.take n → weight k 1 ranking e < weight k 1 ranking d := by
    intro ranking n h hd hnot
    rw [weight_of_getElem? k h hd]
    refine (weight_le_of_not_mem_take hk h (hbehind hd hnot)).trans_lt ?_
    refine one_div_lt_one_div_of_lt (by positivity) ?_
    push_cast
    linarith
  by_contra hnot
  rw [List.mem_append, not_or] at hnot
  exact hle.not_gt (add_lt_add (hless h₁ hd₁ hnot.1) (hless h₂ hd₂ hnot.2))

/-- If nothing else is ranked by the second judge, only the first of the first judge can score as
much as what is. -/
theorem mem_of_score_le_sole (hk : 0 < k) (h₁ : ranking₁.Nodup) (hne : e ≠ d)
    (hle : weight k 1 ranking₁ d + weight k 1 [d] d ≤
      weight k 1 ranking₁ e + weight k 1 [d] e) : e ∈ ranking₁.take 1 := by
  by_contra hnot
  have hfirst := weight_le_of_not_mem_take hk h₁ hnot
  have hd := weight_of_getElem? k (List.nodup_singleton d) (n := 0) rfl
  have he : weight k 1 [d] e = 0 := by
    rw [weight_eq k 1 (List.nodup_singleton d), if_neg (by simpa using hne)]
  have hnonneg : 0 ≤ weight k 1 ranking₁ d := by
    rw [weight_eq k 1 h₁]
    split
    · positivity
    · exact le_refl _
  have hlt : 1 / (k + 1 + (1 : Nat)) < 1 / (k + 1 + (0 : Nat)) :=
    one_div_lt_one_div_of_lt (by positivity) (by push_cast; linarith)
  rw [hd, he] at hle
  linarith

end Order

/-! ## The order of the scores -/

section Sorted
variable {α K : Type*} [LinearOrder α] [LinearOrder K]

/-- The better score comes first, and of two that are alike, the smaller thing. -/
def Before (a b : α × K) : Prop := b.2 < a.2 ∨ b.2 = a.2 ∧ a.1 ≤ b.1

instance (a b : α × K) : Decidable (Before a b) :=
  inferInstanceAs (Decidable (b.2 < a.2 ∨ b.2 = a.2 ∧ a.1 ≤ b.1))

/-- The things and their scores, best first. -/
def ordered (scores : List (α × K)) : List (α × K) := scores.insertionSort Before

instance : Std.Total (Before : α × K → α × K → Prop) where
  total a b := by
    unfold Before
    rcases lt_trichotomy a.2 b.2 with h | h | h
    · exact .inr (.inl h)
    · rcases le_total a.1 b.1 with hle | hle
      · exact .inl (.inr ⟨h.symm, hle⟩)
      · exact .inr (.inr ⟨h, hle⟩)
    · exact .inl (.inl h)

instance : IsTrans (α × K) Before where
  trans a b c hab hbc := by
    unfold Before at *
    rcases hab with hab | ⟨hab, hle⟩
    · rcases hbc with hbc | ⟨hbc, -⟩
      · exact .inl (hbc.trans hab)
      · exact .inl (hbc ▸ hab)
    · rcases hbc with hbc | ⟨hbc, hle'⟩
      · exact .inl (hab ▸ hbc)
      · exact .inr ⟨hbc.trans hab, hle.trans hle'⟩

theorem ordered_perm (scores : List (α × K)) : (ordered scores).Perm scores :=
  List.perm_insertionSort Before scores

/-- No score stands behind a smaller one. -/
theorem ordered_pairwise (scores : List (α × K)) :
    (ordered scores).Pairwise fun a b => b.2 ≤ a.2 :=
  (List.pairwise_insertionSort Before scores).imp fun h =>
    h.elim le_of_lt fun heq => heq.1.le

/-- **A thing stands among the first, if few come before it.** -/
theorem mem_take_ordered {scores : List (α × K)} (h : (scores.map (·.1)).Nodup) {d : α × K}
    (hd : d ∈ scores) {few : List α}
    (hfew : ∀ e ∈ scores, e.1 ≠ d.1 → Before e d → e.1 ∈ few) {n : Nat} (hn : few.length < n) :
    d ∈ (ordered scores).take n := by
  obtain ⟨before, after, hsplit⟩ := List.append_of_mem ((ordered_perm scores).mem_iff.mpr hd)
  have hsorted := List.pairwise_insertionSort Before scores
  change (ordered scores).Pairwise Before at hsorted
  have hnodup := ((ordered_perm scores).map (·.1)).nodup_iff.mpr h
  rw [hsplit] at hsorted
  rw [hsplit, List.map_append, List.map_cons] at hnodup
  have hsub : before.map (·.1) ⊆ few := by
    intro id hid
    obtain ⟨e, he, rfl⟩ := List.mem_map.mp hid
    have hmem : e ∈ scores := by
      rw [← (ordered_perm scores).mem_iff, hsplit]
      exact List.mem_append_left _ he
    refine hfew e hmem ?_ ((List.pairwise_append.mp hsorted).2.2 e he d List.mem_cons_self)
    exact (List.nodup_append.mp hnodup).2.2 e.1 (List.mem_map_of_mem he) d.1 List.mem_cons_self
  have hle : before.length ≤ few.length := by
    have hsubperm := List.subperm_of_subset (List.nodup_append.mp hnodup).1 hsub
    simpa using hsubperm.length_le
  obtain ⟨m, hm⟩ : ∃ m, n - before.length = m + 1 := Nat.exists_eq_succ_of_ne_zero (by omega)
  rw [hsplit, List.take_append, hm, List.take_succ_cons]
  exact List.mem_append_right _ List.mem_cons_self

end Sorted

end OmniCare.RankFusion
