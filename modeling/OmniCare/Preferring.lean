import OmniCare.Scanning

/-! # The match that is preferred

A match is the first of all ways to match.  Where every part of a pattern takes its text first of
all, so does the whole (`Prefers`), and the groups it captures are known.  A pattern that matches a
text at one position only is found there, and once (`Solid.finditer_eq_singleton`).  The matches of
a pattern that matches wherever there is text tile it (`Tiles.flatten_findall`).
-/
namespace OmniCare

/-- A position in a text, by its offset. -/
def Cursor.inText (s : Text) (n : Nat) : Cursor := ⟨(s.take n).reverse, s.drop n⟩

theorem Cursor.start_passes_inText (s : Text) (n : Nat) :
    (Cursor.start s).Passes (Cursor.inText s n) (s.take n) := by
  constructor
  · exact (List.take_append_drop n s).symm
  · exact (List.append_nil _).symm

/-- Every position is one of an offset. -/
theorem Cursor.Passes.eq_inText {s : Text} {c : Cursor} {t : Text}
    (h : (Cursor.start s).Passes c t) : t.length ≤ s.length ∧ c = Cursor.inText s t.length := by
  obtain ⟨htext, hbefore⟩ := h.text_eq
  have hlength := congrArg List.length htext
  rw [List.length_append] at hlength
  refine ⟨by omega, ?_⟩
  obtain ⟨before, after⟩ := c
  obtain rfl : before = t.reverse := hbefore
  obtain rfl : s = t ++ after := htext
  unfold Cursor.inText
  rw [List.take_left, List.drop_left]

theorem Cursor.inText_append (before after : Text) :
    Cursor.inText (before ++ after) before.length = ⟨before.reverse, after⟩ := by
  unfold Cursor.inText
  rw [List.take_left, List.drop_left]

namespace Regex

/-- A repeated character class goes on with a character of the class. -/
theorem head_repeatRun_cons {p : Char → Bool} {fuel lo : Nat} {hi : Option Nat} {x : Char}
    {before after : Text} {groups : List (Nat × Text)} {v : Way} (hx : p x = true)
    (hzero : hi ≠ some 0)
    (h : (repeatRun (fun u => (char p).run u) true fuel (lo - 1) (hi.map (· - 1))
      ⟨⟨x :: before, after⟩, groups⟩).head? = some v) :
    (repeatRun (fun u => (char p).run u) true (fuel + 1) lo hi
      ⟨⟨before, x :: after⟩, groups⟩).head? = some v := by
  have hstep : (char p).run ⟨⟨before, x :: after⟩, groups⟩ =
      [⟨⟨x :: before, after⟩, groups⟩] := by
    simp [run, hx, Cursor.next]
  rw [repeatRun, if_neg hzero]
  simp only [hstep, List.flatMap_cons, List.flatMap_nil, List.append_nil, List.length_cons,
    Nat.lt_succ_self, or_true, if_true]
  split
  · exact h
  · rw [List.head?_append, h, Option.some_or]

/-- First of all, the pattern takes `t` where `rest` comes behind it, and captures `gs`. -/
def Prefers (r : Regex) (t rest : Text) (gs : List (Nat × Text)) : Prop :=
  ∀ before groups, (r.run ⟨⟨before, t ++ rest⟩, groups⟩).head? =
    some ⟨⟨t.reverse ++ before, rest⟩, gs ++ groups⟩

namespace Prefers

variable {r a b : Regex} {t u rest : Text} {gs hs : List (Nat × Text)}

theorem seq (ha : a.Prefers t (u ++ rest) gs) (hb : b.Prefers u rest hs) :
    (Regex.seq a b).Prefers (t ++ u) rest (hs ++ gs) := by
  intro before groups
  obtain ⟨ws, hrun⟩ := List.head?_eq_some_iff.mp (ha before groups)
  have hnext := hb (t.reverse ++ before) (gs ++ groups)
  rw [run, List.append_assoc, hrun, List.flatMap_cons, List.head?_append, hnext, Option.some_or,
    List.reverse_append, List.append_assoc, List.append_assoc]

theorem cast {t' : Text} {gs' : List (Nat × Text)} (h : r.Prefers t rest gs) (ht : t = t')
    (hgs : gs = gs') : r.Prefers t' rest gs' := by
  subst ht hgs
  exact h

theorem char {p : Char → Bool} {x : Char} (h : p x = true) :
    (Regex.char p).Prefers [x] rest [] := by
  intro before groups
  simp [run, h, Cursor.next]

theorem group (i : Nat) (h : r.Prefers t rest gs) :
    (Regex.group i r).Prefers t rest ((i, t) :: gs) := by
  intro before groups
  have hpasses : (⟨before, t ++ rest⟩ : Cursor).Passes ⟨t.reverse ++ before, rest⟩ t := ⟨rfl, rfl⟩
  rw [run, List.head?_map, h before groups, Option.map_some]
  simp only [hpasses.upTo, List.cons_append]

/-- A literal text, in either case. -/
theorem litI {s : Text} (h : List.Forall₂ (fun a b => sameLetter a b = true) s t) :
    (Regex.litI s).Prefers t rest [] := by
  induction h with
  | nil => exact fun _ _ => rfl
  | @cons x y s t hxy h ih =>
    cases h with
    | nil => exact char hxy
    | @cons x' y' s' t' hx h =>
      have hfirst : (Regex.char (sameLetter x)).Prefers [y] (y' :: t' ++ rest) [] := char hxy
      exact hfirst.seq ih

/-- A repeated character class takes all that there is of it. -/
theorem plus {p : Char → Bool} (hne : t ≠ []) (hall : t.all p = true)
    (hrest : rest.head?.any p = false) : (Regex.plus (.char p)).Prefers t rest [] := by
  intro before groups
  cases t with
  | nil => exact absurd rfl hne
  | cons x t =>
    rw [List.all_cons, Bool.and_eq_true] at hall
    have htake : (t ++ rest).takeWhile p = t := by
      rw [List.takeWhile_append_of_pos (List.all_eq_true.mp hall.2)]
      cases rest with
      | nil => rw [List.takeWhile_nil, List.append_nil]
      | cons y rest => rw [List.takeWhile_cons_of_neg (by simpa using hrest), List.append_nil]
    have hdrop : (t ++ rest).dropWhile p = rest := by
      rw [List.dropWhile_append_of_pos (List.all_eq_true.mp hall.2)]
      cases rest with
      | nil => rfl
      | cons y rest => rw [List.dropWhile_cons_of_neg (by simpa using hrest)]
    have hmore := head_repeatRun_char (p := p) (w := ⟨⟨x :: before, t ++ rest⟩, groups⟩)
      (Nat.le_succ (t ++ rest).length)
    rw [htake, hdrop] at hmore
    show (repeatRun (fun v => (Regex.char p).run v) true (1 + (t ++ rest).length.succ) 1 none
      ⟨⟨before, x :: (t ++ rest)⟩, groups⟩).head? = _
    rw [Nat.add_comm, List.reverse_cons, List.append_assoc]
    exact head_repeatRun_cons hall.1 nofun hmore

/-- The same for none or more of them. -/
theorem star {p : Char → Bool} (hall : t.all p = true) (hrest : rest.head?.any p = false) :
    (Regex.star (.char p)).Prefers t rest [] := by
  intro before groups
  have htake : rest.takeWhile p = [] ∧ rest.dropWhile p = rest := by
    cases rest with
    | nil => exact ⟨rfl, rfl⟩
    | cons y rest =>
      have hy : ¬ p y = true := by simpa using hrest
      exact ⟨List.takeWhile_cons_of_neg hy, List.dropWhile_cons_of_neg hy⟩
  have hall := List.all_eq_true.mp hall
  rw [head_run_star_char]
  dsimp only
  rw [List.takeWhile_append_of_pos hall, List.dropWhile_append_of_pos hall, htake.1, htake.2,
    List.append_nil]
  rfl

theorem assert {p : Cursor → Bool} (h : ∀ before, p ⟨before, rest⟩ = true) :
    (Regex.assert p).Prefers [] rest [] := by
  intro before groups
  rw [run]
  dsimp only [List.nil_append]
  rw [if_pos (h before)]
  rfl

/-- The first of two patterns is taken where it matches. -/
theorem altFirst (h : a.Prefers t rest gs) : (Regex.alt a b).Prefers t rest gs := by
  intro before groups
  rw [run, List.head?_append, h before groups, Option.some_or]

/-- The second is taken where the first does not match. -/
theorem altSecond (hnone : ∀ before groups, a.run ⟨⟨before, t ++ rest⟩, groups⟩ = [])
    (h : b.Prefers t rest gs) : (Regex.alt a b).Prefers t rest gs := by
  intro before groups
  rw [run, hnone, List.nil_append]
  exact h before groups

/-- A number of characters of a class. -/
theorem times {p : Char → Bool} (hall : t.all p = true) :
    (Regex.times t.length (.char p)).Prefers t rest [] := by
  have counted : ∀ fuel before groups, t.length ≤ fuel →
      (repeatRun (fun v => (Regex.char p).run v) true fuel t.length (some t.length)
        ⟨⟨before, t ++ rest⟩, groups⟩).head? =
          some ⟨⟨t.reverse ++ before, rest⟩, groups⟩ := by
    induction t with
    | nil =>
      intro fuel before groups _
      cases fuel with
      | zero => rfl
      | succ fuel => rfl
    | cons x t ih =>
      rw [List.all_cons, Bool.and_eq_true] at hall
      intro fuel before groups hfuel
      cases fuel with
      | zero => exact absurd hfuel (Nat.not_succ_le_zero _)
      | succ fuel =>
        refine head_repeatRun_cons hall.1 nofun ?_
        rw [List.reverse_cons, List.append_assoc]
        exact ih hall.2 fuel (x :: before) groups (Nat.le_of_succ_le_succ hfuel)
  intro before groups
  exact counted _ before groups (Nat.le_add_right _ _)

/-- An optional part stays out where it does not match. -/
theorem optStay (h : ∀ before groups, r.run ⟨⟨before, rest⟩, groups⟩ = []) :
    (Regex.opt r).Prefers [] rest [] := by
  intro before groups
  have hstay : ∀ fuel, (repeatRun (fun v => r.run v) true fuel 0 (some 1)
      ⟨⟨before, rest⟩, groups⟩).head? = some ⟨⟨before, rest⟩, groups⟩ := by
    intro fuel
    cases fuel with
    | zero => rfl
    | succ fuel =>
      rw [repeatRun]
      simp [h]
  exact hstay _

/-- It is taken where it matches. -/
theorem optTake (h : r.Prefers t rest gs) (hne : t ≠ []) : (Regex.opt r).Prefers t rest gs := by
  intro before groups
  have hpos := List.length_pos_iff.mpr hne
  have hlength : (t ++ rest).length = t.length + rest.length := List.length_append
  obtain ⟨fuel, hfuel⟩ : ∃ fuel, (t ++ rest).length = fuel + 1 :=
    Nat.exists_eq_succ_of_ne_zero (by omega)
  have hlast : ∀ w, repeatRun (fun v => r.run v) true fuel 0 (some 0) w = [w] := by
    intro w
    cases fuel with
    | zero => rfl
    | succ fuel => rfl
  obtain ⟨ws, hrun⟩ := List.head?_eq_some_iff.mp (h before groups)
  show (repeatRun (fun v => r.run v) true (0 + (t ++ rest).length) 0 (some 1)
    ⟨⟨before, t ++ rest⟩, groups⟩).head? = _
  rw [Nat.zero_add, hfuel, repeatRun, hrun, List.flatMap_cons]
  have hshorter : rest.length < (t ++ rest).length := by omega
  simp [hlast, hpos]

/-- Where a pattern prefers a way, that is its match. -/
theorem matchAt (h : r.Prefers t rest gs) (before : Text) :
    r.matchAt ⟨before, t ++ rest⟩ = some ⟨⟨before, t ++ rest⟩,
      ⟨⟨t.reverse ++ before, rest⟩, gs⟩⟩ := by
  unfold Regex.matchAt
  rw [h before [], List.append_nil, Option.map_some]

end Prefers

namespace Solid

variable {r a b : Regex}

theorem second (a : Regex) (hb : b.Solid) : (Regex.seq a b).Solid := by
  intro w v hv
  obtain ⟨u, hu, hv⟩ := mem_run_seq.mp hv
  obtain ⟨t, ht⟩ := a.run_consumes hu
  have hlength := congrArg List.length ht.1
  rw [List.length_append] at hlength
  have := hb u v hv
  omega

theorem alt (ha : a.Solid) (hb : b.Solid) : (Regex.alt a b).Solid := fun w v hv =>
  (List.mem_append.mp hv).elim (ha w v) (hb w v)

theorem litI {s : Text} (hs : s ≠ []) : (Regex.litI s).Solid := by
  match s, hs with
  | [c], _ => exact char _
  | c :: d :: s, _ => exact (char _).seq _

/-- A pattern that matches nowhere is not found. -/
theorem finditer_eq_nil (h : r.Solid) {s : Text}
    (hnone : ∀ n ≤ s.length, r.matchAt (.inText s n) = none) : r.finditer s = [] := by
  rw [List.eq_nil_iff_forall_not_mem]
  intro m hm
  obtain ⟨t, ht, here⟩ := h.matchAt_of_mem_finditer hm
  obtain ⟨hle, heq⟩ := ht.eq_inText
  rw [heq, hnone _ hle] at here
  cases here

/-- **A pattern that matches at one position is found there, and once.** -/
theorem finditer_eq_singleton (h : r.Solid) {s : Text} {n : Nat} {m : Match}
    (hm : r.matchAt (.inText s n) = some m)
    (only : ∀ k ≤ s.length, (r.matchAt (.inText s k)).isSome → k = n) : r.finditer s = [m] := by
  have hall : ∀ x ∈ r.finditer s, x = m := by
    intro x hx
    obtain ⟨t, ht, here⟩ := h.matchAt_of_mem_finditer hx
    obtain ⟨hle, heq⟩ := ht.eq_inText
    rw [heq] at here
    rw [only _ hle (by rw [here]; rfl), hm] at here
    exact (Option.some.inj here).symm
  have hfound : m ∈ r.finditer s := by
    refine h.mem_finditer_of_uncrossed (Cursor.start_passes_inText s n) ?_ hm
    -- no match begins before it
    intro c m' u v hu hv hne here
    obtain ⟨hle, heq⟩ := hu.eq_inText
    have hat := only _ hle (by rw [← heq, here]; rfl)
    have hsplit := (hu.trans hv).upTo
    rw [(Cursor.start_passes_inText s n).upTo] at hsplit
    have hlength := congrArg List.length hsplit
    rw [List.length_take, List.length_append] at hlength
    have := List.length_pos_iff.mpr hne
    omega
  have hordered := h.finditer_ordered s
  cases hlist : r.finditer s with
  | nil =>
    rw [hlist] at hfound
    cases hfound
  | cons x xs =>
    rw [hlist] at hall hordered
    cases xs with
    | nil => rw [hall x List.mem_cons_self]
    | cons y ys =>
      -- the same match twice would stand behind itself
      have hxy := (List.pairwise_cons.mp hordered).1 y List.mem_cons_self
      rw [hall x List.mem_cons_self, hall y (List.mem_cons_of_mem _ List.mem_cons_self)] at hxy
      have := (h.stop_eq hm).2
      omega

end Solid

/-! ## Patterns that match everywhere -/

/-- Wherever there is text, the pattern takes a part of it that `cut` cuts off. -/
structure Tiles (r : Regex) (cut : Text → Text × Text) : Prop where
  solid : r.Solid
  joined : ∀ s, (cut s).1 ++ (cut s).2 = s
  prefers : ∀ s, s ≠ [] → r.Prefers (cut s).1 (cut s).2 []

namespace Tiles

variable {r : Regex} {cut : Text → Text × Text} {s : Text}

theorem matchAt (h : r.Tiles cut) (before : Text) (hs : s ≠ []) :
    r.matchAt ⟨before, s⟩ = some ⟨⟨before, s⟩, ⟨⟨(cut s).1.reverse ++ before, (cut s).2⟩, []⟩⟩ := by
  have hm := (h.prefers s hs).matchAt before
  rwa [h.joined] at hm

theorem cut_ne_nil (h : r.Tiles cut) (hs : s ≠ []) : (cut s).1 ≠ [] := by
  have hm := h.matchAt [] hs
  have hpasses : (⟨[], s⟩ : Cursor).Passes ⟨(cut s).1.reverse ++ [], (cut s).2⟩ (cut s).1 :=
    ⟨(h.joined s).symm, rfl⟩
  have hne := h.solid.text_ne_nil hm
  rwa [Match.text, hpasses.upTo] at hne

theorem length_cut_lt (h : r.Tiles cut) (hs : s ≠ []) : (cut s).2.length < s.length := by
  have hlength := congrArg List.length (h.joined s)
  rw [List.length_append] at hlength
  have := List.length_pos_iff.mpr (h.cut_ne_nil hs)
  omega

/-- Nothing matches where there is no text. -/
theorem scanFrom_nil (h : r.Tiles cut) (fuel : Nat) (fresh : Bool) (before : Text) :
    r.scanFrom fuel fresh ⟨before, []⟩ = [] := by
  cases fuel with
  | zero => rfl
  | succ fuel =>
    have hnone : r.matchAt ⟨before, []⟩ = none := by
      by_contra hsome
      obtain ⟨m, hm⟩ := Option.ne_none_iff_exists'.mp hsome
      exact absurd (h.solid _ _ (matchAt_mem hm)) (Nat.not_lt_zero _)
    rw [h.solid.scanFrom_succ, hnone]

/-- The texts of the matches of a scan. -/
def matched (pieces : List Piece) : List Text :=
  (pieces.filterMap fun
    | .gap _ => none
    | .hit m => some m).map (·.text)

/-- One look of a scan cuts off the first part. -/
theorem matched_scanFrom (h : r.Tiles cut) (fuel : Nat) (fresh : Bool) (before : Text)
    (hs : s ≠ []) :
    matched (r.scanFrom (fuel + 1) fresh ⟨before, s⟩) =
      (cut s).1 :: matched (r.scanFrom fuel true ⟨(cut s).1.reverse ++ before, (cut s).2⟩) := by
  have hpasses : (⟨before, s⟩ : Cursor).Passes ⟨(cut s).1.reverse ++ before, (cut s).2⟩ (cut s).1 :=
    ⟨(h.joined s).symm, rfl⟩
  rw [h.solid.scanFrom_succ, h.matchAt before hs]
  exact congrArg (· :: _) hpasses.upTo

/-- What is found depends only on the text ahead, once the fuel is enough for it. -/
theorem matched_congr (h : r.Tiles cut) {fuel fuel' : Nat} {fresh fresh' : Bool}
    {before before' : Text} (hfuel : s.length ≤ fuel) (hfuel' : s.length ≤ fuel') :
    matched (r.scanFrom fuel fresh ⟨before, s⟩) =
      matched (r.scanFrom fuel' fresh' ⟨before', s⟩) := by
  induction fuel generalizing s fuel' fresh fresh' before before' with
  | zero =>
    obtain rfl : s = [] := List.eq_nil_of_length_eq_zero (Nat.le_zero.mp hfuel)
    rw [h.scanFrom_nil, h.scanFrom_nil]
  | succ fuel ih =>
    by_cases hs : s = []
    · subst hs
      rw [h.scanFrom_nil, h.scanFrom_nil]
    · have hshorter := h.length_cut_lt hs
      cases fuel' with
      | zero => omega
      | succ fuel' =>
        rw [h.matched_scanFrom fuel fresh before hs, h.matched_scanFrom fuel' fresh' before' hs]
        exact congrArg _ (ih (by omega) (by omega))

theorem findall_nil (h : r.Tiles cut) : r.findall [] = [] := by
  show matched (r.scanFrom _ true ⟨[], []⟩) = []
  rw [h.scanFrom_nil]
  rfl

/-- **The matches of a text are the part cut off and the matches of what is behind it.** -/
theorem findall_cons (h : r.Tiles cut) (hs : s ≠ []) :
    r.findall s = (cut s).1 :: r.findall (cut s).2 := by
  have hshorter := h.length_cut_lt hs
  show matched (r.scanFrom (2 * s.length + 1 + 1) true ⟨[], s⟩) =
    _ :: matched (r.scanFrom (2 * (cut s).2.length + 2) true ⟨[], (cut s).2⟩)
  rw [h.matched_scanFrom _ true [] hs]
  exact congrArg _ (h.matched_congr (by omega) (by omega))

/-- **The matches tile the text**: joined in order they give it back. -/
theorem flatten_findall (h : r.Tiles cut) (s : Text) : (r.findall s).flatten = s := by
  induction hlength : s.length using Nat.strong_induction_on generalizing s with
  | _ n ih =>
    by_cases hs : s = []
    · rw [hs, h.findall_nil]
      rfl
    · have hshorter := h.length_cut_lt hs
      rw [h.findall_cons hs, List.flatten_cons, ih _ (hlength ▸ hshorter) _ rfl, h.joined]

/-- Every match is cut off what is left of the text. -/
theorem exists_of_mem_findall (h : r.Tiles cut) {t : Text} (ht : t ∈ r.findall s) :
    ∃ u, u ≠ [] ∧ t = (cut u).1 := by
  induction hlength : s.length using Nat.strong_induction_on generalizing s with
  | _ n ih =>
    by_cases hs : s = []
    · rw [hs, h.findall_nil] at ht
      cases ht
    · rw [h.findall_cons hs] at ht
      rcases List.mem_cons.mp ht with rfl | hrest
      · exact ⟨s, hs, rfl⟩
      · exact ih _ (hlength ▸ h.length_cut_lt hs) hrest rfl

theorem ne_nil_of_mem_findall (h : r.Tiles cut) {t : Text} (ht : t ∈ r.findall s) : t ≠ [] := by
  obtain ⟨u, hu, rfl⟩ := h.exists_of_mem_findall ht
  exact h.cut_ne_nil hu

end Tiles

end Regex

end OmniCare
