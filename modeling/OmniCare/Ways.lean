import OmniCare.Fronts

/-! # The ways to match, by rules

`Regex.run` lists the ways to match in the order of preference.  Where the order does not matter,
rules are easier to reason with: `Takes r w v` says that the pattern can lead from `w` to `v`, with
one rule for each construct (`mem_run_iff`).

What a pattern takes depends on the text around it by its assertions only.  So a match stays one
where more text stands around (`Takes.within`), and a match that keeps inside was one before
(`Takes.of_within`).
-/
namespace OmniCare.Regex

/-- **The pattern can lead from one way to another.** -/
inductive Takes : Regex → Way → Way → Prop
  | eps {w : Way} : Takes eps w w
  | char {p : Char → Bool} {w : Way} {x : Char} {rest : Text} (ahead : w.cursor.after = x :: rest)
      (passes : p x = true) : Takes (char p) w ⟨⟨x :: w.cursor.before, rest⟩, w.groups⟩
  | assert {p : Cursor → Bool} {w : Way} (holds : p w.cursor = true) : Takes (assert p) w w
  | seq {a b : Regex} {w u v : Way} (first : Takes a w u) (second : Takes b u v) :
      Takes (seq a b) w v
  | altFirst {a b : Regex} {w v : Way} (h : Takes a w v) : Takes (alt a b) w v
  | altSecond {a b : Regex} {w v : Way} (h : Takes b w v) : Takes (alt a b) w v
  | stop {greedy : Bool} {hi : Option Nat} {r : Regex} {w : Way} : Takes (rep greedy 0 hi r) w w
  | more {greedy : Bool} {lo : Nat} {hi : Option Nat} {r : Regex} {w u v : Way}
      (room : hi ≠ some 0) (one : Takes r w u)
      (on : 0 < lo ∨ u.cursor.after.length < w.cursor.after.length)
      (rest : Takes (rep greedy (lo - 1) (hi.map (· - 1)) r) u v) : Takes (rep greedy lo hi r) w v
  | group {i : Nat} {r : Regex} {w v : Way} (h : Takes r w v) :
      Takes (group i r) w { v with groups := (i, w.cursor.upTo v.cursor) :: v.groups }
  | backref {i : Nat} {w : Way} {rest : Text} (ahead : w.cursor.after = w.group i ++ rest) :
      Takes (backref i) w ⟨⟨(w.group i).reverse ++ w.cursor.before, rest⟩, w.groups⟩

/-! ## The ways listed are the ways by the rules -/

section Repetition
variable {step : Way → List Way} {greedy : Bool} {fuel lo : Nat} {hi : Option Nat} {w v : Way}

/-- A repetition takes one more, or stops. -/
theorem mem_repeatRun_succ : v ∈ repeatRun step greedy (fuel + 1) lo hi w ↔
    (lo = 0 ∧ v = w) ∨ (hi ≠ some 0 ∧ ∃ u ∈ step w,
      (0 < lo ∨ u.cursor.after.length < w.cursor.after.length) ∧
        v ∈ repeatRun step greedy fuel (lo - 1) (hi.map (· - 1)) u) := by
  have hmore : v ∈ (if hi = some 0 then [] else (step w).flatMap fun u =>
      if 0 < lo ∨ u.cursor.after.length < w.cursor.after.length then
        repeatRun step greedy fuel (lo - 1) (hi.map (· - 1)) u else []) ↔
      (hi ≠ some 0 ∧ ∃ u ∈ step w,
        (0 < lo ∨ u.cursor.after.length < w.cursor.after.length) ∧
          v ∈ repeatRun step greedy fuel (lo - 1) (hi.map (· - 1)) u) := by
    by_cases hhi : hi = some 0
    · simp [hhi]
    · rw [if_neg hhi, List.mem_flatMap]
      constructor
      · rintro ⟨u, hu, hv⟩
        split at hv
        · exact ⟨hhi, u, hu, ‹_›, hv⟩
        · cases hv
      · rintro ⟨-, u, hu, hon, hv⟩
        exact ⟨u, hu, by rwa [if_pos hon]⟩
  rw [repeatRun]
  split
  · rename_i hlo
    rw [hmore, or_iff_right fun h => absurd h.1 (Nat.ne_of_gt hlo)]
  · rename_i hlo
    have hzero : lo = 0 := Nat.eq_zero_of_not_pos hlo
    rw [← hmore, and_iff_right hzero]
    split
    · rw [List.mem_append, List.mem_singleton, or_comm]
    · rw [List.mem_cons]

/-- More fuel finds what less fuel finds. -/
theorem repeatRun_mono {fuel' : Nat} (hle : fuel ≤ fuel')
    (h : v ∈ repeatRun step greedy fuel lo hi w) : v ∈ repeatRun step greedy fuel' lo hi w := by
  induction fuel generalizing fuel' lo hi w with
  | zero =>
    rw [repeatRun] at h
    split at h
    · rename_i hlo
      obtain rfl := List.mem_singleton.mp h
      cases fuel' with
      | zero => rwa [repeatRun, if_pos hlo]
      | succ fuel' => exact mem_repeatRun_succ.mpr (.inl ⟨hlo, rfl⟩)
    · cases h
  | succ fuel ih =>
    cases fuel' with
    | zero => exact absurd hle (Nat.not_succ_le_zero _)
    | succ fuel' =>
      rcases mem_repeatRun_succ.mp h with hstop | ⟨hhi, u, hu, hon, hv⟩
      · exact mem_repeatRun_succ.mpr (.inl hstop)
      · exact mem_repeatRun_succ.mpr
          (.inr ⟨hhi, u, hu, hon, ih (Nat.le_of_succ_le_succ hle) hv⟩)

theorem takes_of_mem_repeatRun {r : Regex} (hr : ∀ w v, v ∈ r.run w → r.Takes w v)
    (h : v ∈ repeatRun (fun u => r.run u) greedy fuel lo hi w) :
    (rep greedy lo hi r).Takes w v := by
  induction fuel generalizing lo hi w with
  | zero =>
    rw [repeatRun] at h
    split at h
    · rename_i hlo
      obtain rfl := List.mem_singleton.mp h
      subst hlo
      exact .stop
    · cases h
  | succ fuel ih =>
    rcases mem_repeatRun_succ.mp h with ⟨rfl, rfl⟩ | ⟨hhi, u, hu, hon, hv⟩
    · exact .stop
    · exact .more hhi (hr w u hu) hon (ih hv)

end Repetition

theorem takes_of_mem_run {r : Regex} {w v : Way} (h : v ∈ r.run w) : r.Takes w v := by
  induction r generalizing w v with
  | eps =>
    rw [List.mem_singleton.mp h]
    exact .eps
  | char p =>
    rw [run] at h
    split at h
    · cases h
    · rename_i x rest hafter
      split at h
      · rename_i hx
        obtain rfl := List.mem_singleton.mp h
        have hnext : w.cursor.next = ⟨x :: w.cursor.before, rest⟩ := by
          rw [Cursor.next, hafter]
        rw [hnext]
        exact .char hafter hx
      · cases h
  | assert p =>
    rw [run] at h
    split at h
    · rename_i hp
      rw [List.mem_singleton.mp h]
      exact .assert hp
    · cases h
  | seq a b iha ihb =>
    obtain ⟨u, hu, hv⟩ := mem_run_seq.mp h
    exact .seq (iha hu) (ihb hv)
  | alt a b iha ihb =>
    exact (List.mem_append.mp h).elim (fun h => .altFirst (iha h)) fun h => .altSecond (ihb h)
  | rep greedy lo hi r ih => exact takes_of_mem_repeatRun (fun _ _ => ih) h
  | group i r ih =>
    obtain ⟨u, hu, rfl⟩ := List.mem_map.mp h
    exact .group (ih hu)
  | backref i =>
    rw [run] at h
    split at h
    · cases h
    · rename_i rest hrest
      rw [List.mem_singleton.mp h]
      exact .backref (dropPrefix?_eq_some hrest)

/-- What the rules let a pattern take is listed. -/
theorem mem_run_of_takes {r : Regex} {w v : Way} (h : r.Takes w v) : v ∈ r.run w := by
  induction h with
  | eps => exact List.mem_singleton_self _
  | @char p w x rest ahead passes =>
    rw [run, ahead]
    dsimp only
    rw [if_pos passes, Cursor.next, ahead]
    exact List.mem_singleton_self _
  | assert holds =>
    rw [run, if_pos holds]
    exact List.mem_singleton_self _
  | seq _ _ iha ihb => exact mem_run_seq.mpr ⟨_, iha, ihb⟩
  | altFirst _ ih => exact List.mem_append_left _ ih
  | altSecond _ ih => exact List.mem_append_right _ ih
  | @stop greedy hi r w =>
    rw [run]
    exact repeatRun_mono (Nat.zero_le _) (List.mem_singleton_self w)
  | @more greedy lo hi r w u v room one on rest ihone ihrest =>
    rw [run] at ihrest ⊢
    obtain ⟨t, ht⟩ := r.run_consumes ihone
    have hlength := congrArg List.length ht.1
    rw [List.length_append] at hlength
    obtain ⟨fuel, hfuel⟩ : ∃ fuel, lo + w.cursor.after.length = fuel + 1 :=
      Nat.exists_eq_succ_of_ne_zero (by omega)
    rw [hfuel]
    exact mem_repeatRun_succ.mpr
      (.inr ⟨room, u, ihone, on, repeatRun_mono (by omega) ihrest⟩)
  | group _ ih => exact List.mem_map_of_mem ih
  | @backref i w rest ahead =>
    rw [run, ahead, Text.dropPrefix?_append]
    exact List.mem_singleton_self _

/-- **The ways that are listed are those by the rules.** -/
theorem mem_run_iff {r : Regex} {w v : Way} : v ∈ r.run w ↔ r.Takes w v :=
  ⟨takes_of_mem_run, mem_run_of_takes⟩

theorem Takes.passes {r : Regex} {w v : Way} (h : r.Takes w v) :
    ∃ t, w.cursor.Passes v.cursor t :=
  r.run_consumes (mem_run_iff.mpr h)

section Rules
variable {w v : Way}

theorem takes_char_iff {p : Char → Bool} : (char p).Takes w v ↔
    ∃ x, p x = true ∧ w.cursor.Passes v.cursor [x] ∧ v.groups = w.groups :=
  mem_run_iff.symm.trans mem_run_char

theorem takes_rep_char_iff {p : Char → Bool} {greedy : Bool} {lo : Nat} {hi : Option Nat} :
    (rep greedy lo hi (char p)).Takes w v ↔
      ∃ t, Repeats p lo hi t ∧ w.cursor.Passes v.cursor t ∧ v.groups = w.groups :=
  mem_run_iff.symm.trans mem_run_rep_char

theorem takes_lit_iff {s : Text} : (lit s).Takes w v ↔
    w.cursor.Passes v.cursor s ∧ v.groups = w.groups := by
  have hone : ∀ {c : Char} {w v : Way}, (char (· == c)).Takes w v ↔
      w.cursor.Passes v.cursor [c] ∧ v.groups = w.groups := by
    intro c w v
    rw [takes_char_iff]
    constructor
    · rintro ⟨x, hx, h⟩
      rwa [eq_of_beq hx] at h
    · exact fun h => ⟨c, beq_self_eq_true c, h⟩
  induction s generalizing w v with
  | nil =>
    rw [way_eq_iff]
    constructor
    · intro h
      cases h
      rfl
    · rintro rfl
      exact .eps
  | cons c s ih =>
    cases s with
    | nil => exact hone
    | cons d s =>
      constructor
      · intro h
        cases h with
        | seq first second =>
          obtain ⟨hfirst, hsame⟩ := hone.mp first
          obtain ⟨hrest, hgroups⟩ := ih.mp second
          exact ⟨hfirst.trans hrest, hgroups.trans hsame⟩
      · rintro ⟨hpasses, hgroups⟩
        obtain ⟨hfirst, hrest⟩ := hpasses.cons
        exact .seq (hone.mpr ⟨hfirst, (rfl : (⟨w.cursor.next, w.groups⟩ : Way).groups = w.groups)⟩)
          (ih.mpr ⟨hrest, hgroups⟩)

end Rules

theorem isSome_matchAt_iff {r : Regex} {c : Cursor} :
    (r.matchAt c).isSome = true ↔ ∃ v, r.Takes ⟨c, []⟩ v := by
  rw [matchAt, Option.isSome_map, List.isSome_head?]
  constructor
  · intro hne
    obtain ⟨v, hv⟩ := List.exists_mem_of_ne_nil _ hne
    exact ⟨v, mem_run_iff.mp hv⟩
  · rintro ⟨v, hv⟩
    exact List.ne_nil_of_mem (mem_run_iff.mpr hv)

/-- A search from a position finds the pattern there or further on. -/
theorem isSome_searchFrom_iff {r : Regex} {fuel : Nat} {before after : Text}
    (hfuel : after.length ≤ fuel) : (r.searchFrom fuel ⟨before.reverse, after⟩).isSome = true ↔
      ∃ x y v, after = x ++ y ∧ r.Takes ⟨⟨(before ++ x).reverse, y⟩, []⟩ v := by
  induction fuel generalizing before after with
  | zero =>
    obtain rfl := List.eq_nil_of_length_eq_zero (Nat.le_zero.mp hfuel)
    rw [searchFrom, isSome_matchAt_iff]
    constructor
    · rintro ⟨v, hv⟩
      exact ⟨[], [], v, rfl, by rwa [List.append_nil]⟩
    · rintro ⟨x, y, v, hsplit, hv⟩
      obtain ⟨rfl, rfl⟩ := List.append_eq_nil_iff.mp hsplit.symm
      exact ⟨v, by rwa [List.append_nil] at hv⟩
  | succ fuel ih =>
    rw [searchFrom]
    cases hmatch : r.matchAt ⟨before.reverse, after⟩ with
    | some m =>
      obtain ⟨v, hv⟩ := isSome_matchAt_iff.mp (by rw [hmatch]; rfl)
      exact iff_of_true rfl ⟨[], after, v, rfl, by rwa [List.append_nil]⟩
    | none =>
      have hnone : ¬ ∃ v, r.Takes ⟨⟨before.reverse, after⟩, []⟩ v := by
        rw [← isSome_matchAt_iff, hmatch]
        decide
      cases after with
      | nil =>
        refine iff_of_false (by simp) ?_
        rintro ⟨x, y, v, hsplit, hv⟩
        obtain ⟨rfl, rfl⟩ := List.append_eq_nil_iff.mp hsplit.symm
        exact hnone ⟨v, by rwa [List.append_nil] at hv⟩
      | cons c after =>
        have hnext : Cursor.next ⟨before.reverse, c :: after⟩ =
            ⟨(before ++ [c]).reverse, after⟩ := by
          rw [List.reverse_append]
          rfl
        dsimp only [List.isEmpty_cons]
        rw [if_neg (by decide), hnext, ih (Nat.le_of_succ_le_succ hfuel)]
        constructor
        · rintro ⟨x, y, v, rfl, hv⟩
          exact ⟨c :: x, y, v, rfl, by rwa [List.append_assoc] at hv⟩
        · rintro ⟨x, y, v, hsplit, hv⟩
          cases x with
          | nil =>
            obtain rfl : c :: after = y := hsplit
            exact absurd ⟨v, by rwa [List.append_nil] at hv⟩ hnone
          | cons d x =>
            rw [List.cons_append, List.cons.injEq] at hsplit
            obtain ⟨rfl, rfl⟩ := hsplit
            exact ⟨x, y, v, rfl, by rwa [List.append_assoc]⟩

/-- The pattern is found in a text if it can take something at some position. -/
theorem found_iff {r : Regex} {s : Text} : r.found s = true ↔
    ∃ before after v, s = before ++ after ∧ r.Takes ⟨⟨before.reverse, after⟩, []⟩ v :=
  @isSome_searchFrom_iff r s.length [] s (Nat.le_refl _)

/-! ## What is captured -/

/-- **What holds of every character ahead** holds of every character that is captured. -/
theorem Takes.all_captured {r : Regex} {p : Char → Bool} {w v : Way} (h : r.Takes w v)
    (hw : w.cursor.after.all p = true) (hgroups : ∀ g ∈ w.groups, g.2.all p = true) :
    v.cursor.after.all p = true ∧ ∀ g ∈ v.groups, g.2.all p = true := by
  induction h with
  | eps | assert | stop => exact ⟨hw, hgroups⟩
  | char ahead passes =>
    rw [ahead, List.all_cons, Bool.and_eq_true] at hw
    exact ⟨hw.2, hgroups⟩
  | seq _ _ iha ihb =>
    obtain ⟨hu, hgroups⟩ := iha hw hgroups
    exact ihb hu hgroups
  | altFirst _ ih | altSecond _ ih => exact ih hw hgroups
  | more _ _ _ _ ihone ihrest =>
    obtain ⟨hu, hgroups⟩ := ihone hw hgroups
    exact ihrest hu hgroups
  | @group i r w v h ih =>
    obtain ⟨hv, hgroups⟩ := ih hw hgroups
    obtain ⟨t, ht⟩ := h.passes
    rw [ht.1, List.all_append, Bool.and_eq_true] at hw
    refine ⟨hv, List.forall_mem_cons.mpr ⟨?_, hgroups⟩⟩
    rw [ht.upTo]
    exact hw.1
  | backref ahead =>
    rw [ahead, List.all_append, Bool.and_eq_true] at hw
    exact ⟨hw.2, hgroups⟩

/-- A match is searched for within the text. -/
theorem passes_of_search {r : Regex} {s : Text} {m : Match} (h : r.search s = some m) :
    ∃ t, (Cursor.start s).Passes m.from_ t := by
  have here : ∀ {c : Cursor}, r.matchAt c = some m → m.from_ = c := by
    intro c hc
    obtain ⟨w, -, rfl⟩ := Option.map_eq_some_iff.mp hc
    rfl
  have from_ : ∀ (fuel : Nat) (c : Cursor), (∃ t, (Cursor.start s).Passes c t) →
      r.searchFrom fuel c = some m → ∃ t, (Cursor.start s).Passes m.from_ t := by
    intro fuel
    induction fuel with
    | zero =>
      intro c hpasses hc
      rwa [here hc]
    | succ fuel ih =>
      rintro c ⟨t, ht⟩ hc
      rw [searchFrom] at hc
      split at hc
      · rename_i m' hm'
        cases hc
        rw [here hm']
        exact ⟨t, ht⟩
      · split at hc
        · cases hc
        · rename_i hafter
          obtain ⟨d, rest, hrest⟩ := List.exists_cons_of_ne_nil fun hnil =>
            hafter (List.isEmpty_iff.mpr hnil)
          exact ih _ ⟨_, ht.trans (Cursor.passes_next hrest)⟩ hc
  exact from_ _ _ ⟨[], .refl _⟩ h

theorem all_group_of_search {r : Regex} {p : Char → Bool} {s : Text} {m : Match}
    (h : r.search s = some m) (hs : s.all p = true) (i : Nat) : (m.group i).all p = true := by
  obtain ⟨t, ht⟩ := passes_of_search h
  have hafter : m.from_.after.all p = true := by
    have hsplit : s = t ++ m.from_.after := ht.1
    rw [hsplit, List.all_append, Bool.and_eq_true] at hs
    exact hs.2
  have htakes := mem_run_iff.mp (way_of_search h)
  obtain ⟨-, hgroups⟩ := htakes.all_captured hafter (by simp)
  rw [Match.group, Way.group]
  cases hlookup : m.way.groups.lookup i with
  | none => rfl
  | some t =>
    obtain ⟨l₁, l₂, heq, -⟩ := List.lookup_eq_some_iff.mp hlookup
    exact hgroups (i, t) (heq ▸ List.mem_append_right _ List.mem_cons_self)

/-- The pattern captures no group `i`. -/
def lacksGroup (i : Nat) : Regex → Bool
  | eps | char _ | assert _ | backref _ => true
  | seq a b | alt a b => a.lacksGroup i && b.lacksGroup i
  | rep _ _ _ r => r.lacksGroup i
  | group j r => i != j && r.lacksGroup i

theorem lacksGroup_lit (i : Nat) (s : Text) : (lit s).lacksGroup i = true := by
  fun_induction lit s with
  | case1 | case2 => rfl
  | case3 c s hs ih => exact Bool.and_eq_true_iff.mpr ⟨rfl, ih⟩

/-- What has been captured is kept by what captures another group. -/
theorem Takes.group_eq {r : Regex} {i : Nat} {w v : Way} (h : r.Takes w v)
    (hr : r.lacksGroup i = true) : v.group i = w.group i := by
  induction h with
  | eps | char | assert | stop | backref => rfl
  | seq _ _ iha ihb =>
    obtain ⟨ha, hb⟩ := Bool.and_eq_true_iff.mp hr
    rw [ihb hb, iha ha]
  | altFirst _ ih => exact ih (Bool.and_eq_true_iff.mp hr).1
  | altSecond _ ih => exact ih (Bool.and_eq_true_iff.mp hr).2
  | more _ _ _ _ ihone ihrest => rw [ihrest hr, ihone hr]
  | @group j r w v _ ih =>
    obtain ⟨hne, hr⟩ := Bool.and_eq_true_iff.mp hr
    rw [← ih hr, Way.group, Way.group, List.lookup_cons,
      beq_eq_false_iff_ne.mpr (bne_iff_ne.mp hne)]

/-- A group, and what comes behind it. -/
theorem Takes.group_seq {r b : Regex} {i : Nat} {w v : Way}
    (h : (Regex.seq (Regex.group i r) b).Takes w v) (hb : b.lacksGroup i = true) :
    ∃ u, r.Takes w u ∧ w.cursor.Passes u.cursor (v.group i) ∧
      b.Takes ⟨u.cursor, (i, v.group i) :: u.groups⟩ v := by
  cases h with
  | seq hgroup hbehind =>
  cases hgroup with
  | @group _ _ _ u htakes =>
  obtain ⟨g, hg⟩ := htakes.passes
  have hcaptured : v.group i = g := by
    rw [hbehind.group_eq hb, Way.group, List.lookup_cons_self, Option.getD_some, hg.upTo]
  rw [hg.upTo] at hbehind
  rw [hcaptured]
  exact ⟨u, htakes, hg, hbehind⟩

/-- What stands between two literal texts. -/
theorem Takes.enclosed {a b : Text} {r : Regex} {i : Nat} {w v : Way}
    (h : (cat [lit a, Regex.group i r, lit b]).Takes w v) :
    w.cursor.Passes v.cursor (a ++ (v.group i ++ b)) := by
  cases h with
  | seq hopen htakes =>
  obtain ⟨u, -, hbody, hclose⟩ := htakes.group_seq (lacksGroup_lit i b)
  exact (takes_lit_iff.mp hopen).1.trans (hbody.trans (takes_lit_iff.mp hclose).1)

/-- The least number of characters that a match has. -/
def least : Regex → Nat
  | eps | assert _ | backref _ => 0
  | char _ => 1
  | seq a b => a.least + b.least
  | alt a b => min a.least b.least
  | rep _ lo _ r => lo * r.least
  | group _ r => r.least

theorem Takes.least_le {r : Regex} {w v : Way} (h : r.Takes w v) {t : Text}
    (ht : w.cursor.Passes v.cursor t) : r.least ≤ t.length := by
  have hlength : ∀ {c d : Cursor} {u : Text}, c.Passes d u →
      c.after.length = u.length + d.after.length := by
    intro c d u hu
    rw [hu.1, List.length_append]
  suffices hleast : r.least + v.cursor.after.length ≤ w.cursor.after.length by
    have heq := hlength ht
    omega
  clear ht
  induction h with
  | eps | assert => exact Nat.le_of_eq (Nat.zero_add _)
  | char ahead _ =>
    rw [ahead, List.length_cons, Nat.add_comm]
    exact Nat.le_refl _
  | seq _ _ iha ihb =>
    rw [least]
    omega
  | altFirst _ ih => exact Nat.le_trans (Nat.add_le_add_right (Nat.min_le_left _ _) _) ih
  | altSecond _ ih => exact Nat.le_trans (Nat.add_le_add_right (Nat.min_le_right _ _) _) ih
  | stop => rw [least, Nat.zero_mul, Nat.zero_add]
  | @more greedy lo hi r w u v room one on rest ihone ihrest =>
    rw [least] at ihrest ⊢
    cases lo with
    | zero =>
      rw [Nat.zero_sub, Nat.zero_mul] at ihrest
      rw [Nat.zero_mul]
      omega
    | succ lo =>
      rw [Nat.add_sub_cancel] at ihrest
      rw [Nat.succ_mul]
      omega
  | group _ ih => exact ih
  | backref ahead =>
    rw [ahead, List.length_append, least, Nat.zero_add]
    exact Nat.le_add_left _ _

/-! ## More text around -/

end OmniCare.Regex

namespace OmniCare

/-- The same position with more text on both sides. -/
def Cursor.within (x y : Text) (c : Cursor) : Cursor := ⟨c.before ++ x.reverse, c.after ++ y⟩

theorem Cursor.Passes.within_upTo {c d : Cursor} {t : Text} (h : c.Passes d t) (x y : Text) :
    (c.within x y).upTo (d.within x y) = c.upTo d := by
  have hwithin : (c.within x y).Passes (d.within x y) t := by
    constructor
    · rw [Cursor.within, h.1, List.append_assoc]
      rfl
    · rw [Cursor.within, h.2, List.append_assoc]
      rfl
  rw [h.upTo, hwithin.upTo]

namespace Regex

/-- The same way with more text on both sides. -/
def Way.within (x y : Text) (w : Way) : Way := ⟨w.cursor.within x y, w.groups⟩

/-- Every assertion of the pattern has a property. -/
def Asserts (P : (Cursor → Bool) → Prop) : Regex → Prop
  | eps | char _ | backref _ => True
  | assert p => P p
  | seq a b | alt a b => a.Asserts P ∧ b.Asserts P
  | rep _ _ _ r | group _ r => r.Asserts P

variable {r : Regex} {x y : Text}

theorem Asserts.imp {P Q : (Cursor → Bool) → Prop} (h : r.Asserts P) (himp : ∀ p, P p → Q p) :
    r.Asserts Q := by
  induction r with
  | eps | char | backref => trivial
  | assert p => exact himp p h
  | seq a b iha ihb | alt a b iha ihb => exact ⟨iha h.1, ihb h.2⟩
  | rep _ _ _ r ih | group _ r ih => exact ih h

theorem asserts_lit (P : (Cursor → Bool) → Prop) (s : Text) : (lit s).Asserts P := by
  fun_induction lit s with
  | case1 | case2 => trivial
  | case3 c s hs ih => exact ⟨trivial, ih⟩

theorem asserts_litI (P : (Cursor → Bool) → Prop) (s : Text) : (litI s).Asserts P := by
  fun_induction litI s with
  | case1 | case2 => trivial
  | case3 c s hs ih => exact ⟨trivial, ih⟩

/-- **What a pattern takes it takes with more text around**, as far as its assertions hold there. -/
theorem Takes.within {w v : Way}
    (hr : r.Asserts fun p => ∀ c, p c = true → p (c.within x y) = true) (h : r.Takes w v) :
    r.Takes (w.within x y) (v.within x y) := by
  induction h with
  | eps => exact .eps
  | char ahead passes => exact .char (congrArg (· ++ y) ahead) passes
  | assert holds => exact .assert (hr _ holds)
  | seq _ _ iha ihb => exact .seq (iha hr.1) (ihb hr.2)
  | altFirst _ ih => exact .altFirst (ih hr.1)
  | altSecond _ ih => exact .altSecond (ih hr.2)
  | stop => exact .stop
  | @more greedy lo hi r w u v room one on rest ihone ihrest =>
    refine .more room (ihone hr) (on.imp_right fun hlt => ?_) (ihrest hr)
    show (u.cursor.after ++ y).length < (w.cursor.after ++ y).length
    rw [List.length_append, List.length_append]
    exact Nat.add_lt_add_right hlt _
  | @group i r w v h ih =>
    obtain ⟨t, ht⟩ := h.passes
    have hgroup := Takes.group (i := i) (ih hr)
    rw [Way.within, Way.within, ht.within_upTo] at hgroup
    exact hgroup
  | @backref i w rest ahead =>
    have hahead : (w.within x y).cursor.after = (w.within x y).group i ++ (rest ++ y) := by
      show w.cursor.after ++ y = w.group i ++ (rest ++ y)
      rw [ahead, List.append_assoc]
    have htake : (Regex.backref i).Takes (w.within x y) _ := .backref hahead
    have hbefore : (w.group i).reverse ++ (w.cursor.before ++ x.reverse) =
        (w.group i).reverse ++ w.cursor.before ++ x.reverse := (List.append_assoc _ _ _).symm
    unfold Way.within Cursor.within at htake ⊢
    dsimp only at htake ⊢
    rw [← hbefore]
    exact htake

/-- **What a pattern takes within more text it takes without**, as long as it keeps inside. -/
theorem Takes.of_within {w' v' : Way} (h : r.Takes w' v')
    (hr : r.Asserts fun p => ∀ c, p (c.within x y) = true → p c = true) {w : Way}
    (hw : w' = w.within x y) (hv : y <:+ v'.cursor.after) :
    ∃ v, v' = v.within x y ∧ r.Takes w v := by
  -- where a later way keeps inside, so does an earlier one
  have earlier : ∀ {r : Regex} {u v : Way}, r.Takes u v → y <:+ v.cursor.after →
      y <:+ u.cursor.after := by
    intro r u v huv hsuffix
    obtain ⟨t, ht⟩ := huv.passes
    rw [ht.1]
    exact hsuffix.trans (List.suffix_append _ _)
  induction h generalizing w with
  | eps => exact ⟨w, hw, .eps⟩
  | @char p w' c rest ahead passes =>
    subst hw
    obtain ⟨s, rfl⟩ : y <:+ rest := hv
    have hafter : w.cursor.after = c :: s := List.append_cancel_right (ahead : _ = (c :: s) ++ y)
    exact ⟨⟨⟨c :: w.cursor.before, s⟩, w.groups⟩, rfl, .char hafter passes⟩
  | assert holds =>
    subst hw
    exact ⟨w, rfl, .assert (hr _ holds)⟩
  | seq _ second iha ihb =>
    obtain ⟨u, rfl, hu⟩ := iha hr.1 hw (earlier second hv)
    obtain ⟨v, rfl, htake⟩ := ihb hr.2 rfl hv
    exact ⟨v, rfl, .seq hu htake⟩
  | altFirst _ ih =>
    obtain ⟨v, rfl, h⟩ := ih hr.1 hw hv
    exact ⟨v, rfl, .altFirst h⟩
  | altSecond _ ih =>
    obtain ⟨v, rfl, h⟩ := ih hr.2 hw hv
    exact ⟨v, rfl, .altSecond h⟩
  | stop => exact ⟨w, hw, .stop⟩
  | @more greedy lo hi r w' u' v' room one on rest ihone ihrest =>
    obtain ⟨u, rfl, hu⟩ := ihone hr hw (earlier rest hv)
    obtain ⟨v, rfl, hrest⟩ := ihrest hr rfl hv
    subst hw
    refine ⟨v, rfl, .more room hu (on.imp_right fun hlt => ?_) hrest⟩
    have hlt : (u.cursor.after ++ y).length < (w.cursor.after ++ y).length := hlt
    rw [List.length_append, List.length_append] at hlt
    exact Nat.lt_of_add_lt_add_right hlt
  | @group i r w' v' h ih =>
    obtain ⟨v, rfl, htake⟩ := ih hr hw hv
    subst hw
    obtain ⟨t, ht⟩ := htake.passes
    refine ⟨_, ?_, .group htake⟩
    rw [Way.within, Way.within, ht.within_upTo]
    rfl
  | @backref i w' rest ahead =>
    subst hw
    obtain ⟨s, rfl⟩ : y <:+ rest := hv
    have hafter : w.cursor.after = w.group i ++ s :=
      List.append_cancel_right (ahead.trans (List.append_assoc _ _ _).symm)
    refine ⟨_, ?_, .backref hafter⟩
    unfold Way.within Cursor.within
    dsimp only
    rw [List.append_assoc]
    rfl

/-- **A pattern that is found in a text is found with more text around it.** -/
theorem found_within {s : Text}
    (hr : r.Asserts fun p => ∀ c, p c = true → p (c.within x y) = true) (h : r.found s = true) :
    r.found (x ++ (s ++ y)) = true := by
  obtain ⟨before, after, v, rfl, hv⟩ := found_iff.mp h
  have hwithin := hv.within hr
  refine found_iff.mpr ⟨x ++ before, after ++ y, v.within x y, ?_, ?_⟩
  · rw [List.append_assoc, List.append_assoc]
  · rw [List.reverse_append]
    exact hwithin

/-! ## The ends of a match -/

/-- The pattern consumes nothing. -/
def still : Regex → Bool
  | eps | assert _ => true
  | seq a b | alt a b => a.still && b.still
  | char _ | rep _ _ _ _ | group _ _ | backref _ => false

/-- Every match has a first character, and it is another one. -/
def shunsFirst (x : Char) : Regex → Bool
  | eps | assert _ | backref _ => false
  | char p => !p x
  | seq a b => a.shunsFirst x || (a.still && b.shunsFirst x)
  | alt a b => a.shunsFirst x && b.shunsFirst x
  | rep _ lo _ r => decide (0 < lo) && r.shunsFirst x
  | group _ r => r.shunsFirst x

/-- Every match has a last character, and it is another one. -/
def shunsLast (x : Char) : Regex → Bool
  | eps | assert _ | backref _ => false
  | char p => !p x
  | seq a b => b.shunsLast x || (b.still && a.shunsLast x)
  | alt a b => a.shunsLast x && b.shunsLast x
  | rep _ lo _ r => decide (0 < lo) && r.shunsLast x
  | group _ r => r.shunsLast x

theorem Takes.of_still {w v : Way} (h : r.Takes w v) (hr : r.still = true) : v = w := by
  induction h with
  | eps | assert => rfl
  | seq _ _ iha ihb =>
    obtain ⟨ha, hb⟩ := Bool.and_eq_true_iff.mp hr
    rw [ihb hb, iha ha]
  | altFirst _ ih => exact ih (Bool.and_eq_true_iff.mp hr).1
  | altSecond _ ih => exact ih (Bool.and_eq_true_iff.mp hr).2
  | char | stop | more | group | backref => cases hr

theorem Takes.head_ne {c : Char} {w v : Way} (h : r.Takes w v) (hr : r.shunsFirst c = true) :
    w.cursor.after.head?.any (· != c) = true := by
  induction h with
  | eps | assert | backref => cases hr
  | char ahead passes =>
    rw [ahead]
    refine bne_iff_ne.mpr ?_
    rintro rfl
    rw [shunsFirst, passes] at hr
    cases hr
  | seq first _ iha ihb =>
    rcases Bool.or_eq_true_iff.mp hr with ha | hb
    · exact iha ha
    · obtain ⟨hstill, hb⟩ := Bool.and_eq_true_iff.mp hb
      rw [← first.of_still hstill]
      exact ihb hb
  | altFirst _ ih => exact ih (Bool.and_eq_true_iff.mp hr).1
  | altSecond _ ih => exact ih (Bool.and_eq_true_iff.mp hr).2
  | stop => cases hr
  | more _ _ _ _ ih _ => exact ih (Bool.and_eq_true_iff.mp hr).2
  | group _ ih => exact ih hr

theorem Takes.last_ne {c : Char} {w v : Way} (h : r.Takes w v) (hr : r.shunsLast c = true) :
    v.cursor.before.head?.any (· != c) = true := by
  -- a repetition of such patterns keeps it so
  suffices hboth : (r.shunsLast c = true → v.cursor.before.head?.any (· != c) = true) ∧
      ∀ greedy lo hi q, r = rep greedy lo hi q → q.shunsLast c = true →
        w.cursor.before.head?.any (· != c) = true → v.cursor.before.head?.any (· != c) = true from
    hboth.1 hr
  clear hr
  induction h with
  | eps | assert | backref =>
    constructor
    · intro hr
      cases hr
    · intro _ _ _ _ heq
      cases heq
  | @char p w x rest ahead passes =>
    constructor
    · intro hr
      refine bne_iff_ne.mpr ?_
      rintro rfl
      rw [shunsLast, passes] at hr
      cases hr
    · intro _ _ _ _ heq
      cases heq
  | seq _ second iha ihb =>
    constructor
    · intro hr
      rcases Bool.or_eq_true_iff.mp hr with hb | ha
      · exact ihb.1 hb
      · obtain ⟨hstill, ha⟩ := Bool.and_eq_true_iff.mp ha
        rw [second.of_still hstill]
        exact iha.1 ha
    · intro _ _ _ _ heq
      cases heq
  | altFirst _ ih =>
    constructor
    · exact fun hr => ih.1 (Bool.and_eq_true_iff.mp hr).1
    · intro _ _ _ _ heq
      cases heq
  | altSecond _ ih =>
    constructor
    · exact fun hr => ih.1 (Bool.and_eq_true_iff.mp hr).2
    · intro _ _ _ _ heq
      cases heq
  | stop =>
    constructor
    · intro hr
      cases hr
    · exact fun _ _ _ _ _ _ hw => hw
  | more _ _ _ _ ihone ihrest =>
    constructor
    · intro hr
      have hone := (Bool.and_eq_true_iff.mp hr).2
      exact ihrest.2 _ _ _ _ rfl hone (ihone.1 hone)
    · intro _ _ _ _ heq hone _
      cases heq
      exact ihrest.2 _ _ _ _ rfl hone (ihone.1 hone)
  | group _ ih =>
    constructor
    · exact ih.1
    · intro _ _ _ _ heq
      cases heq

/-- **A pattern that is found with more text around is found without**, if no match begins or ends
with a character of that text. -/
theorem found_of_within {s : Text}
    (hr : r.Asserts fun p => ∀ c, p (c.within x y) = true → p c = true)
    (hfirst : ∀ c ∈ x ++ y, r.shunsFirst c = true) (hlast : ∀ c ∈ y, r.shunsLast c = true)
    (h : r.found (x ++ (s ++ y)) = true) : r.found s = true := by
  by_cases hnone : x ++ y = []
  · obtain ⟨rfl, rfl⟩ := List.append_eq_nil_iff.mp hnone
    rwa [List.nil_append, List.append_nil] at h
  obtain ⟨before, after, v, hsplit, hv⟩ := found_iff.mp h
  have hhead : ∀ c ∈ x ++ y, after.head?.any (· != c) = true := fun c hc => hv.head_ne (hfirst c hc)
  have hahead : ∃ d t, after = d :: t ∧ d ∉ x ++ y := by
    obtain ⟨c, hc⟩ := List.exists_mem_of_ne_nil _ hnone
    cases after with
    | nil => exact absurd (hhead c hc) (by simp)
    | cons d t =>
      refine ⟨d, t, rfl, fun hd => ?_⟩
      have hne := hhead d hd
      rw [List.head?_cons, Option.any_some, bne_self_eq_false] at hne
      cases hne
  obtain ⟨d, t, hafter, hd⟩ := hahead
  -- the match begins in `s`
  have hbegins : ∃ a b, s = a ++ b ∧ before = x ++ a ∧ after = b ++ y := by
    rcases List.append_eq_append_iff.mp hsplit with ⟨a, ha, hrest⟩ | ⟨a, ha, hrest⟩
    · rcases List.append_eq_append_iff.mp hrest with ⟨b, -, hy⟩ | ⟨b, hb, hy⟩
      · refine absurd (List.mem_append_right x ?_) hd
        rw [hy, hafter]
        exact List.mem_append_right _ List.mem_cons_self
      · exact ⟨a, b, hb, ha, hy⟩
    · cases a with
      | nil => exact ⟨[], s, rfl, by rw [ha]; simp, hrest⟩
      | cons e a =>
        have heq : d = e := (List.cons.inj (hafter.symm.trans hrest)).1
        refine absurd (List.mem_append_left y ?_) hd
        rw [ha, heq]
        exact List.mem_append_right _ List.mem_cons_self
  obtain ⟨a, b, rfl, rfl, rfl⟩ := hbegins
  -- and it ends there
  have hends : y <:+ v.cursor.after := by
    obtain ⟨u, hahead, hbehind⟩ := hv.passes
    rcases List.append_eq_append_iff.mp hahead with ⟨z, hz, hy⟩ | ⟨z, -, hy⟩
    · rcases List.eq_nil_or_concat z with rfl | ⟨z, e, rfl⟩
      · exact ⟨[], hy⟩
      · rw [List.concat_eq_append] at hz hy
        have hlast := hv.last_ne (hlast e (by rw [hy]; simp))
        rw [hbehind, hz] at hlast
        simp at hlast
    · exact ⟨z, hy.symm⟩
  obtain ⟨v, rfl, htake⟩ := hv.of_within (w := ⟨⟨a.reverse, b⟩, []⟩) hr (by
    rw [List.reverse_append]
    rfl) hends
  exact found_iff.mpr ⟨a, b, v, rfl, htake⟩

end OmniCare.Regex
