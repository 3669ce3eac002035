import OmniCare.PyText

/-! # Numbers in English words

The numerals of English as a grammar over words: a number below a hundred (`TwoDigits`), one with
`hundred` in it (`Group`), and one with `million` and `thousand` (`Spells`).  `hundred`, `thousand`
and `million` may stand without a count, behind an article: `a hundred`.  The words `and` are left
out; `Anded` puts them in.  Every number below a thousand million has a numeral (`exists_spells`).
Four digits are read out one by one, or in pairs (`ReadOut`).
-/
namespace OmniCare.Numerals

/-- The numbers from one to nineteen. -/
def small : List (Text × Nat) :=
  [("one", 1), ("two", 2), ("three", 3), ("four", 4), ("five", 5), ("six", 6), ("seven", 7),
    ("eight", 8), ("nine", 9), ("ten", 10), ("eleven", 11), ("twelve", 12), ("thirteen", 13),
    ("fourteen", 14), ("fifteen", 15), ("sixteen", 16), ("seventeen", 17), ("eighteen", 18),
    ("nineteen", 19)]

/-- The multiples of ten. -/
def decades : List (Text × Nat) :=
  [("twenty", 20), ("thirty", 30), ("forty", 40), ("fifty", 50), ("sixty", 60), ("seventy", 70),
    ("eighty", 80), ("ninety", 90)]

/-- A number from one to ninety-nine. -/
inductive TwoDigits : Nat → List Text → Prop
  | small {w : Text} {n : Nat} (h : (w, n) ∈ small) : TwoDigits n [w]
  | decade {w : Text} {n : Nat} (h : (w, n) ∈ decades) : TwoDigits n [w]
  | both {w v : Text} {n k : Nat} (h : (w, n) ∈ decades) (h' : (v, k) ∈ Numerals.small)
      (hk : k ≤ 9) : TwoDigits (n + k) [w, v]

/-- The count before a multiplier; an article counts one. -/
inductive Count (R : Nat → List Text → Prop) : Nat → List Text → Prop
  | said {n : Nat} {ws : List Text} (h : R n ws) : Count R n ws
  | article : Count R 1 []

/-- A number from one to 999, or with more hundreds: `twelve hundred`. -/
inductive Group : Nat → List Text → Prop
  | below {n : Nat} {ws : List Text} (h : TwoDigits n ws) : Group n ws
  | hundreds {n : Nat} {ws : List Text} (h : Count TwoDigits n ws) :
      Group (n * 100) (ws ++ ["hundred".toList])
  | more {n k : Nat} {ws vs : List Text} (h : Count TwoDigits n ws) (h' : TwoDigits k vs) :
      Group (n * 100 + k) (ws ++ "hundred".toList :: vs)

/-- The millions or the thousands of a number, if it has any. -/
inductive Scaled (scale : Text) (value : Nat) : Nat → List Text → Prop
  | none : Scaled scale value 0 []
  | some {n : Nat} {ws : List Text} (h : Count Group n ws) :
      Scaled scale value (n * value) (ws ++ [scale])

/-- The rest of a number, if it has any. -/
inductive Rest : Nat → List Text → Prop
  | none : Rest 0 []
  | some {n : Nat} {ws : List Text} (h : Group n ws) : Rest n ws

/-- **A numeral spells a number.** -/
inductive Spells : Nat → List Text → Prop
  | mk {a b c : Nat} {us vs ws : List Text} (millions : Scaled "million".toList 1000000 a us)
      (thousands : Scaled "thousand".toList 1000 b vs) (rest : Rest c ws) :
      Spells (a + b + c) (us ++ (vs ++ ws))

/-- The words with `and` put in, though not before the first. -/
def Anded (words ands : List Text) : Prop :=
  ands.filter (· ≠ "and".toList) = words ∧ ands.head? ≠ some "and".toList

/-- The digits, with `oh` for a zero. -/
def digits : List (Text × Nat) := ("zero", 0) :: ("oh", 0) :: small.take 9

/-- Two digits read out together: `ninety two`, or `oh five`. -/
inductive Pair : Nat → List Text → Prop
  | whole {n : Nat} {ws : List Text} (h : TwoDigits n ws) (hn : 10 ≤ n) : Pair n ws
  | digits {w v : Text} {k : Nat} (h : (w, 0) ∈ digits) (h' : (v, k) ∈ Numerals.digits) :
      Pair k [w, v]

/-- **Four digits read out**, one by one or in two pairs. -/
inductive ReadOut : List Nat → List Text → Prop
  | digitwise {u v w x : Text} {a b c d : Nat} (ha : (u, a) ∈ digits) (hb : (v, b) ∈ digits)
      (hc : (w, c) ∈ digits) (hd : (x, d) ∈ digits) : ReadOut [a, b, c, d] [u, v, w, x]
  | pairs {n k : Nat} {ws vs : List Text} (h : Pair n ws) (h' : Pair k vs) :
      ReadOut [n / 10, n % 10, k / 10, k % 10] (ws ++ vs)

/-! ## What a numeral spells -/

theorem pos_of_mem_small {w : Text} {n : Nat} (h : (w, n) ∈ small) : 0 < n := by
  have hall : ∀ p ∈ small, 0 < p.2 := by decide
  exact hall _ h

theorem pos_of_mem_decades {w : Text} {n : Nat} (h : (w, n) ∈ decades) : 0 < n := by
  have hall : ∀ p ∈ decades, 0 < p.2 := by decide
  exact hall _ h

theorem TwoDigits.pos {n : Nat} {ws : List Text} (h : TwoDigits n ws) : 0 < n := by
  cases h with
  | small h => exact pos_of_mem_small h
  | decade h => exact pos_of_mem_decades h
  | both h _ _ => exact Nat.add_pos_left (pos_of_mem_decades h) _

theorem Count.pos {R : Nat → List Text → Prop} {n : Nat} {ws : List Text}
    (hR : ∀ {n : Nat} {ws : List Text}, R n ws → 0 < n) (h : Count R n ws) : 0 < n := by
  cases h with
  | said h => exact hR h
  | article => exact Nat.one_pos

theorem Group.pos {n : Nat} {ws : List Text} (h : Group n ws) : 0 < n := by
  cases h with
  | below h => exact h.pos
  | hundreds h => exact Nat.mul_pos (h.pos TwoDigits.pos) (by decide)
  | more h _ => exact Nat.add_pos_left (Nat.mul_pos (h.pos TwoDigits.pos) (by decide)) _

theorem Pair.ne_nil {n : Nat} {ws : List Text} (h : Pair n ws) : ws ≠ [] := by
  cases h with
  | whole h _ => cases h <;> exact List.cons_ne_nil _ _
  | digits _ _ => exact List.cons_ne_nil _ _

theorem ReadOut.length_digits {ds : List Nat} {ws : List Text} (h : ReadOut ds ws) :
    ds.length = 4 := by
  cases h <;> rfl

theorem ReadOut.two_le_length {ds : List Nat} {ws : List Text} (h : ReadOut ds ws) :
    2 ≤ ws.length := by
  cases h with
  | digitwise _ _ _ _ => exact (by decide : 2 ≤ 4)
  | pairs h h' =>
    have hfirst := List.length_pos_of_ne_nil h.ne_nil
    have hsecond := List.length_pos_of_ne_nil h'.ne_nil
    rw [List.length_append]
    omega

/-- What holds of every word of the grammar holds of every word of a numeral. -/
structure Wordwise (P : Text → Prop) : Prop where
  small : ∀ p ∈ Numerals.small, P p.1
  decades : ∀ p ∈ Numerals.decades, P p.1
  hundred : P "hundred".toList
  thousand : P "thousand".toList
  million : P "million".toList

namespace Wordwise

variable {P : Text → Prop} {n : Nat} {ws : List Text}

theorem twoDigits (hP : Wordwise P) (h : TwoDigits n ws) : ∀ w ∈ ws, P w := by
  cases h with
  | small h => simpa using hP.small _ h
  | decade h => simpa using hP.decades _ h
  | both h h' _ => simpa using ⟨hP.decades _ h, hP.small _ h'⟩

theorem count {R : Nat → List Text → Prop}
    (hR : ∀ {n : Nat} {ws : List Text}, R n ws → ∀ w ∈ ws, P w) (h : Count R n ws) :
    ∀ w ∈ ws, P w := by
  cases h with
  | said h => exact hR h
  | article =>
    intro w hw
    cases hw

theorem group (hP : Wordwise P) (h : Group n ws) : ∀ w ∈ ws, P w := by
  cases h with
  | below h => exact hP.twoDigits h
  | hundreds h =>
    exact List.forall_mem_append.mpr
      ⟨count hP.twoDigits h, List.forall_mem_singleton.mpr hP.hundred⟩
  | more h h' =>
    exact List.forall_mem_append.mpr
      ⟨count hP.twoDigits h, List.forall_mem_cons.mpr ⟨hP.hundred, hP.twoDigits h'⟩⟩

theorem scaled (hP : Wordwise P) {scale : Text} {value : Nat} (hscale : P scale)
    (h : Scaled scale value n ws) : ∀ w ∈ ws, P w := by
  cases h with
  | none =>
    intro w hw
    cases hw
  | some h =>
    exact List.forall_mem_append.mpr ⟨count hP.group h, List.forall_mem_singleton.mpr hscale⟩

theorem spells (hP : Wordwise P) (h : Spells n ws) : ∀ w ∈ ws, P w := by
  obtain ⟨hmillions, hthousands, hrest⟩ := h
  refine List.forall_mem_append.mpr ⟨hP.scaled hP.million hmillions,
    List.forall_mem_append.mpr ⟨hP.scaled hP.thousand hthousands, ?_⟩⟩
  cases hrest with
  | none =>
    intro w hw
    cases hw
  | some h => exact hP.group h

end Wordwise

/-! ## Every number has a numeral -/

theorem exists_small {n : Nat} (hpos : 0 < n) (hn : n < 20) : ∃ w, (w, n) ∈ small := by
  have hall : ∀ n < 20, 0 < n → small.any (·.2 == n) = true := by decide
  obtain ⟨⟨w, k⟩, hmem, hk⟩ := List.any_eq_true.mp (hall n hn hpos)
  obtain rfl : k = n := eq_of_beq hk
  exact ⟨w, hmem⟩

theorem exists_decade {q : Nat} (hq : 2 ≤ q) (hq' : q < 10) : ∃ w, (w, 10 * q) ∈ decades := by
  have hall : ∀ q < 10, 2 ≤ q → decades.any (·.2 == 10 * q) = true := by decide
  obtain ⟨⟨w, k⟩, hmem, hk⟩ := List.any_eq_true.mp (hall q hq' hq)
  obtain rfl : k = 10 * q := eq_of_beq hk
  exact ⟨w, hmem⟩

theorem exists_twoDigits {n : Nat} (hpos : 0 < n) (hn : n < 100) : ∃ ws, TwoDigits n ws := by
  by_cases hlow : n < 20
  · obtain ⟨w, hw⟩ := exists_small hpos hlow
    exact ⟨_, .small hw⟩
  · obtain ⟨w, hw⟩ := exists_decade (q := n / 10) (by omega) (by omega)
    have hsum : 10 * (n / 10) + n % 10 = n := Nat.div_add_mod n 10
    rcases Nat.eq_zero_or_pos (n % 10) with hzero | hunit
    · rw [hzero, Nat.add_zero] at hsum
      rw [hsum] at hw
      exact ⟨_, .decade hw⟩
    · obtain ⟨v, hv⟩ := exists_small hunit (by omega)
      refine ⟨[w, v], ?_⟩
      rw [← hsum]
      exact .both hw hv (by omega)

theorem exists_group {n : Nat} (hpos : 0 < n) (hn : n < 1000) : ∃ ws, Group n ws := by
  by_cases hlow : n < 100
  · obtain ⟨ws, hws⟩ := exists_twoDigits hpos hlow
    exact ⟨ws, .below hws⟩
  · obtain ⟨ws, hws⟩ := exists_twoDigits (n := n / 100) (by omega) (by omega)
    have hsum : n / 100 * 100 + n % 100 = n := Nat.div_add_mod' n 100
    rcases Nat.eq_zero_or_pos (n % 100) with hzero | hrest
    · refine ⟨ws ++ ["hundred".toList], ?_⟩
      rw [hzero, Nat.add_zero] at hsum
      rw [← hsum]
      exact .hundreds (.said hws)
    · obtain ⟨vs, hvs⟩ := exists_twoDigits hrest (by omega)
      refine ⟨ws ++ "hundred".toList :: vs, ?_⟩
      rw [← hsum]
      exact .more (.said hws) hvs

theorem exists_scaled (scale : Text) (value : Nat) {n : Nat} (hn : n < 1000) :
    ∃ ws, Scaled scale value (n * value) ws := by
  rcases Nat.eq_zero_or_pos n with rfl | hpos
  · rw [Nat.zero_mul]
    exact ⟨[], .none⟩
  · obtain ⟨ws, hws⟩ := exists_group hpos hn
    exact ⟨_, .some (.said hws)⟩

theorem exists_digit {n : Nat} (hn : n < 10) : ∃ w, (w, n) ∈ digits := by
  have hall : ∀ n < 10, digits.any (·.2 == n) = true := by decide
  obtain ⟨⟨w, k⟩, hmem, hk⟩ := List.any_eq_true.mp (hall n hn)
  obtain rfl : k = n := eq_of_beq hk
  exact ⟨w, hmem⟩

/-- Four digits can be read out. -/
theorem exists_readOut {a b c d : Nat} (ha : a < 10) (hb : b < 10) (hc : c < 10) (hd : d < 10) :
    ∃ ws, ReadOut [a, b, c, d] ws := by
  obtain ⟨u, hu⟩ := exists_digit ha
  obtain ⟨v, hv⟩ := exists_digit hb
  obtain ⟨w, hw⟩ := exists_digit hc
  obtain ⟨x, hx⟩ := exists_digit hd
  exact ⟨_, .digitwise hu hv hw hx⟩

/-- **Every number below a thousand million has a numeral.** -/
theorem exists_spells {n : Nat} (hn : n < 1000000000) : ∃ ws, Spells n ws := by
  obtain ⟨us, hus⟩ := exists_scaled "million".toList 1000000 (n := n / 1000000) (by omega)
  obtain ⟨vs, hvs⟩ := exists_scaled "thousand".toList 1000 (n := n / 1000 % 1000) (by omega)
  have hrest : ∃ ws, Rest (n % 1000) ws := by
    rcases Nat.eq_zero_or_pos (n % 1000) with hzero | hpos
    · rw [hzero]
      exact ⟨[], .none⟩
    · obtain ⟨ws, hws⟩ := exists_group hpos (by omega)
      exact ⟨ws, .some hws⟩
  obtain ⟨ws, hws⟩ := hrest
  have hsum : n / 1000000 * 1000000 + n / 1000 % 1000 * 1000 + n % 1000 = n := by omega
  refine ⟨us ++ (vs ++ ws), ?_⟩
  rw [← hsum]
  exact .mk hus hvs hws

end OmniCare.Numerals
