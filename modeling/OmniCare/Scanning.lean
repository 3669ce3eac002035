import OmniCare.Regex

/-! # What a scan finds

A scan looks at a text from left to right, takes the match at the position it has come to and
goes on behind it, or passes one character where there is no match.  For a pattern that matches
no empty text (`Solid`) every match found is the match at its position
(`Solid.mem_finditer`), and the match at a position is found unless an earlier one runs across
that position (`Solid.mem_finditer_of_uncrossed`).  Where the characters that a match starts
with occur in it nowhere else, no match ever runs across another (`Solid.mem_finditer_iff`).

A repeated character class is matched by the texts over the class of the right length
(`mem_run_rep_char`); the most preferred one of `p*` ends where the class ends
(`head_run_star_char`).  What a group captures has the property that its pattern gives it
(`Captures.of_mem_finditer`).
-/
namespace OmniCare

/-- What is left behind a class does not begin with it. -/
theorem head_dropWhile (p : Char → Bool) (s : Text) : (s.dropWhile p).head?.any p = false := by
  induction s with
  | nil => rfl
  | cons x s ih =>
    by_cases hx : p x = true
    · rwa [List.dropWhile_cons_of_pos hx]
    · rw [List.dropWhile_cons_of_neg hx]
      exact Bool.eq_false_iff.mpr hx

namespace Cursor

theorem Passes.eq {c d : Cursor} (h : c.Passes d []) : d = c := by
  obtain ⟨hafter, hbefore⟩ := h
  cases c
  cases d
  simp only [List.nil_append, List.reverse_nil] at hafter hbefore
  rw [hafter, hbefore]

theorem passes_next {c : Cursor} {x : Char} {rest : Text} (h : c.after = x :: rest) :
    c.Passes c.next [x] := by
  simp [Passes, next, h]

/-- A position is passed on the way to one farther on. -/
theorem Passes.split {c d e : Cursor} {v w : Text} (hd : c.Passes d v) (he : c.Passes e w)
    (h : v.length ≤ w.length) : ∃ u, w = v ++ u ∧ d.Passes e u := by
  have hsame : w ++ e.after = v ++ d.after := he.1.symm.trans hd.1
  obtain ⟨u, rfl⟩ : v <+: w :=
    List.prefix_of_prefix_length_le ⟨d.after, rfl⟩ ⟨e.after, hsame⟩ h
  rw [List.append_assoc] at hsame
  refine ⟨u, rfl, (List.append_cancel_left hsame).symm, ?_⟩
  rw [he.2, hd.2, List.reverse_append, List.append_assoc]

/-- The first character on the way is passed first. -/
theorem Passes.cons {c d : Cursor} {x : Char} {t : Text} (h : c.Passes d (x :: t)) :
    c.Passes c.next [x] ∧ c.next.Passes d t := by
  have hnext := passes_next (h.1 : c.after = x :: (t ++ d.after))
  obtain ⟨u, hu, hrest⟩ := hnext.split h (Nat.le_add_left 1 t.length)
  obtain rfl : t = u := (List.cons.inj hu).2
  exact ⟨hnext, hrest⟩

/-- The position behind the first part of a text. -/
theorem start_passes (before after : Text) :
    (start (before ++ after)).Passes ⟨before.reverse, after⟩ before := by
  simp [Passes, start]

/-- A position of a text splits it. -/
theorem Passes.text_eq {s : Text} {d : Cursor} {t : Text} (h : (start s).Passes d t) :
    s = t ++ d.after ∧ d.before = t.reverse := by
  obtain ⟨hafter, hbefore⟩ := h
  exact ⟨hafter, hbefore.trans (List.append_nil _)⟩

end Cursor

namespace Regex

theorem matchAt_from {r : Regex} {c : Cursor} {m : Match} (h : r.matchAt c = some m) :
    m.from_ = c := by
  obtain ⟨w, -, rfl⟩ := Option.map_eq_some_iff.mp h
  rfl

theorem matchAt_mem {r : Regex} {c : Cursor} {m : Match} (h : r.matchAt c = some m) :
    m.way ∈ r.run ⟨c, []⟩ := by
  obtain ⟨w, hw, rfl⟩ := Option.map_eq_some_iff.mp h
  exact List.mem_of_mem_head? hw

/-- A match passes its text. -/
theorem matchAt_passes {r : Regex} {c : Cursor} {m : Match} (h : r.matchAt c = some m) :
    c.Passes m.way.cursor m.text := by
  obtain ⟨t, ht⟩ := r.run_consumes (matchAt_mem h)
  rw [Match.text, matchAt_from h, ht.upTo]
  exact ht

/-- Where there is a way to match, there is a match. -/
theorem exists_matchAt {r : Regex} {c : Cursor} {w : Way} (h : w ∈ r.run ⟨c, []⟩) :
    ∃ m, r.matchAt c = some m := by
  unfold matchAt
  cases hrun : r.run ⟨c, []⟩ with
  | nil =>
    rw [hrun] at h
    cases h
  | cons v ws => exact ⟨⟨c, v⟩, rfl⟩

theorem mem_finditer {r : Regex} {s : Text} {m : Match} :
    m ∈ r.finditer s ↔ Piece.hit m ∈ r.scan s := by
  unfold finditer
  rw [List.mem_filterMap]
  constructor
  · rintro ⟨x, hx, hm⟩
    cases x with
    | gap c => cases hm
    | hit m' =>
      cases hm
      exact hx
  · intro hm
    exact ⟨_, hm, rfl⟩

/-! ## Patterns that match no empty text -/

/-- Every way to match consumes something. -/
def Solid (r : Regex) : Prop :=
  ∀ w v, v ∈ r.run w → v.cursor.after.length < w.cursor.after.length

namespace Solid

variable {r : Regex}

theorem char (p : Char → Bool) : (Regex.char p).Solid := by
  intro w v hv
  rw [run] at hv
  split at hv
  · cases hv
  · rename_i x rest hafter
    split at hv
    · rw [List.mem_singleton.mp hv]
      simp [Cursor.next, hafter]
    · cases hv

theorem seq {a : Regex} (ha : a.Solid) (b : Regex) : (Regex.seq a b).Solid := by
  intro w v hv
  obtain ⟨u, hu, hv⟩ := List.mem_flatMap.mp hv
  obtain ⟨t, ht, -⟩ := b.run_consumes hv
  have hshorter := ha w u hu
  have hlength : u.cursor.after.length = t.length + v.cursor.after.length := by
    rw [ht, List.length_append]
  omega

theorem text_ne_nil (h : r.Solid) {c : Cursor} {m : Match} (hm : r.matchAt c = some m) :
    m.text ≠ [] := by
  intro hnil
  have hshorter := h _ _ (matchAt_mem hm)
  have hpasses := matchAt_passes hm
  rw [hnil] at hpasses
  rw [hpasses.eq] at hshorter
  exact absurd hshorter (Nat.lt_irrefl _)

/-- One look of a scan. -/
theorem scanFrom_succ (h : r.Solid) (fuel : Nat) (fresh : Bool) (c : Cursor) :
    r.scanFrom (fuel + 1) fresh c =
      match r.matchAt c with
      | some m => .hit m :: r.scanFrom fuel true m.way.cursor
      | none =>
          match c.after with
          | [] => []
          | x :: _ => .gap x :: r.scanFrom fuel true c.next := by
  rw [scanFrom, matchAt]
  cases hrun : r.run ⟨c, []⟩ with
  | nil => rfl
  | cons w ws =>
    have hshorter : w.cursor.after.length < c.after.length :=
      h _ _ (hrun ▸ List.mem_cons_self)
    simp [hshorter]

/-- **What a scan finds is the match at its position**, and whatever holds where the scan starts
and is kept by each of its looks holds there. -/
theorem scanFrom_invariant (h : r.Solid) {I : Cursor → Prop}
    (gap : ∀ c x rest, I c → r.matchAt c = none → c.after = x :: rest → I c.next)
    (hit : ∀ c m, I c → r.matchAt c = some m → I m.way.cursor)
    {fuel : Nat} {fresh : Bool} {c : Cursor} (hc : I c) {m : Match}
    (hm : Piece.hit m ∈ r.scanFrom fuel fresh c) :
    I m.from_ ∧ r.matchAt m.from_ = some m := by
  induction fuel generalizing fresh c with
  | zero =>
    obtain ⟨x, -, hx⟩ := List.mem_map.mp hm
    cases hx
  | succ fuel ih =>
    rw [h.scanFrom_succ] at hm
    cases here : r.matchAt c with
    | some m' =>
      rw [here] at hm
      rcases List.mem_cons.mp hm with heq | hm
      · cases heq
        rw [matchAt_from here]
        exact ⟨hc, here⟩
      · exact ih (hit c m' hc here) hm
    | none =>
      rw [here] at hm
      cases hafter : c.after with
      | nil =>
        rw [hafter] at hm
        cases hm
      | cons x rest =>
        rw [hafter] at hm
        rcases List.mem_cons.mp hm with heq | hm
        · cases heq
        · exact ih (gap c x rest hc here hafter) hm

theorem finditer_invariant (h : r.Solid) {I : Cursor → Prop}
    (gap : ∀ c x rest, I c → r.matchAt c = none → c.after = x :: rest → I c.next)
    (hit : ∀ c m, I c → r.matchAt c = some m → I m.way.cursor)
    {s : Text} (start : I (.start s)) {m : Match} (hm : m ∈ r.finditer s) :
    I m.from_ ∧ r.matchAt m.from_ = some m :=
  h.scanFrom_invariant gap hit start (mem_finditer.mp hm)

/-- A match that is found is the match at a position of the text. -/
theorem matchAt_of_mem_finditer (h : r.Solid) {s : Text} {m : Match} (hm : m ∈ r.finditer s) :
    ∃ t, (Cursor.start s).Passes m.from_ t ∧ r.matchAt m.from_ = some m := by
  obtain ⟨⟨t, ht⟩, here⟩ := h.finditer_invariant (I := fun c => ∃ t, (Cursor.start s).Passes c t)
    (fun c x rest hc _ hafter => ⟨_, hc.choose_spec.trans (Cursor.passes_next hafter)⟩)
    (fun c m hc here => ⟨_, hc.choose_spec.trans (matchAt_passes here)⟩)
    ⟨[], .refl _⟩ hm
  exact ⟨t, ht, here⟩

/-- A match ends behind its start, by the length of its text. -/
theorem stop_eq (h : r.Solid) {c : Cursor} {m : Match} (hm : r.matchAt c = some m) :
    m.stop = m.start + m.text.length ∧ m.start < m.stop := by
  have hpasses := matchAt_passes hm
  have hstart : m.start = c.offset := by rw [Match.start, matchAt_from hm]
  have hstop : m.stop = m.start + m.text.length := by
    rw [hstart, Match.stop, Cursor.offset, hpasses.2, List.length_append, List.length_reverse,
      Cursor.offset, Nat.add_comm]
  have hpos := List.length_pos_iff.mpr (h.text_ne_nil hm)
  exact ⟨hstop, by omega⟩

theorem scanFrom_ordered (h : r.Solid) (fuel : Nat) (fresh : Bool) (c : Cursor) :
    (r.scanFrom fuel fresh c).Pairwise fun x y =>
      ∀ m n, x = .hit m → y = .hit n → m.stop ≤ n.start := by
  induction fuel generalizing fresh c with
  | zero =>
    refine List.pairwise_map.mpr (List.pairwise_of_forall fun x y m n hx => ?_)
    cases hx
  | succ fuel ih =>
    rw [h.scanFrom_succ]
    cases here : r.matchAt c with
    | some m =>
      refine List.pairwise_cons.mpr ⟨?_, ih _ _⟩
      rintro _ hn m n ⟨⟩ rfl
      -- what is found later stands behind the end of this match
      refine (h.scanFrom_invariant (I := fun d => m.stop ≤ d.offset) ?_ ?_ (Nat.le_refl _) hn).1
      · intro d y rest hd _ hafter
        refine Nat.le_trans hd ?_
        rw [Cursor.next, hafter]
        exact Nat.le_succ _
      · intro d m' hd hm'
        have hstart : m'.start = d.offset := by rw [Match.start, matchAt_from hm']
        have hstop := h.stop_eq hm'
        show m.stop ≤ m'.stop
        omega
    | none =>
      dsimp only
      cases hafter : c.after with
      | nil => exact .nil
      | cons x rest =>
        refine List.pairwise_cons.mpr ⟨?_, ih _ _⟩
        intro y _ m n hx
        cases hx

/-- **The matches of a scan stand in order and apart.** -/
theorem finditer_ordered (h : r.Solid) (s : Text) :
    (r.finditer s).Pairwise fun m n => m.stop ≤ n.start := by
  refine List.pairwise_filterMap.mpr ((h.scanFrom_ordered _ _ _).imp fun {x y} hxy m hm n hn => ?_)
  cases x with
  | gap c => cases hm
  | hit x =>
    cases y with
    | gap c => cases hn
    | hit y =>
      cases hm
      cases hn
      exact hxy _ _ rfl rfl

/-- No match on the way from `c` to `d` runs across `d`. -/
def Uncrossed (r : Regex) (c d : Cursor) : Prop :=
  ∀ b m u v, c.Passes b u → b.Passes d v → v ≠ [] → r.matchAt b = some m →
    m.text.length ≤ v.length

theorem Uncrossed.of_passes {c b d : Cursor} {t : Text} (h : Uncrossed r c d)
    (hb : c.Passes b t) : Uncrossed r b d :=
  fun e m u v hu hv => h e m (t ++ u) v (hb.trans hu) hv

/-- **The match at a position is found**, unless an earlier one runs across the position. -/
theorem hit_mem_scanFrom (h : r.Solid) {fuel : Nat} {fresh : Bool} {c d : Cursor} {t : Text}
    (hfuel : c.after.length < fuel) (hcd : c.Passes d t) (hfree : Uncrossed r c d) {m : Match}
    (hm : r.matchAt d = some m) : Piece.hit m ∈ r.scanFrom fuel fresh c := by
  induction fuel generalizing fresh c t with
  | zero => exact absurd hfuel (Nat.not_lt_zero _)
  | succ fuel ih =>
    rw [h.scanFrom_succ]
    cases t with
    | nil =>
      rw [← hcd.eq, hm]
      exact List.mem_cons_self
    | cons x t =>
      cases here : r.matchAt c with
      | some m' =>
        have hpasses := matchAt_passes here
        have hlength := hfree c m' [] (x :: t) (.refl c) hcd nofun here
        obtain ⟨u, -, hu⟩ := hpasses.split hcd hlength
        have hshorter := h _ _ (matchAt_mem here)
        refine List.mem_cons_of_mem _ (ih ?_ hu (hfree.of_passes hpasses))
        exact Nat.lt_of_lt_of_le hshorter (Nat.le_of_lt_succ hfuel)
      | none =>
        have hafter : c.after = x :: (t ++ d.after) := hcd.1
        obtain ⟨hnext, hrest⟩ := hcd.cons
        dsimp only
        rw [hafter]
        refine List.mem_cons_of_mem _ (ih ?_ hrest (hfree.of_passes hnext))
        have hlength : c.next.after.length + 1 = c.after.length := by
          rw [Cursor.next, hafter]
          rfl
        omega

theorem mem_finditer_of_uncrossed (h : r.Solid) {s : Text} {d : Cursor} {t : Text}
    (hd : (Cursor.start s).Passes d t) (hfree : Uncrossed r (.start s) d) {m : Match}
    (hm : r.matchAt d = some m) : m ∈ r.finditer s := by
  refine mem_finditer.mpr (h.hit_mem_scanFrom ?_ hd hfree hm)
  show s.length < 2 * s.length + 2
  omega

/-- A match starts with a character of the class and has no other one of it. -/
def Solitary (r : Regex) (p : Char → Bool) : Prop :=
  ∀ c m, r.matchAt c = some m → ∃ x rest, m.text = x :: rest ∧ p x = true ∧ rest.any p = false

/-- Matches of a solitary pattern never run across each other. -/
theorem Solitary.uncrossed {p : Char → Bool} (h : Solitary r p) {c d : Cursor} {m : Match}
    (hm : r.matchAt d = some m) : Uncrossed r c d := by
  intro b m' u v _ hv hne here
  by_contra hlonger
  rw [Nat.not_le] at hlonger
  obtain ⟨w, htext, hw⟩ := hv.split (matchAt_passes here) (Nat.le_of_lt hlonger)
  obtain ⟨x, rest, hfirst, hx, -⟩ := h d m hm
  obtain ⟨y, rest', hfirst', -, hlack⟩ := h b m' here
  -- the first character of the match at `d` lies inside the other one
  cases v with
  | nil => exact hne rfl
  | cons z v =>
    cases w with
    | nil =>
      rw [htext, List.append_nil] at hlonger
      exact absurd hlonger (Nat.lt_irrefl _)
    | cons a w =>
      have hax : a = x := by
        have hahead := hw.1.symm.trans (matchAt_passes hm).1
        rw [hfirst] at hahead
        exact (List.cons.inj hahead).1
      have hrest : rest' = v ++ a :: w := (List.cons.inj (hfirst'.symm.trans htext)).2
      rw [hrest, List.any_append, List.any_cons, hax, hx, Bool.true_or, Bool.or_true] at hlack
      cases hlack

/-- **A solitary pattern is found wherever it matches.** -/
theorem mem_finditer_iff (h : r.Solid) {p : Char → Bool} (hp : Solitary r p) {s : Text}
    {m : Match} : m ∈ r.finditer s ↔
      ∃ before after, s = before ++ after ∧ r.matchAt ⟨before.reverse, after⟩ = some m := by
  constructor
  · intro hm
    obtain ⟨t, ht, here⟩ := h.matchAt_of_mem_finditer hm
    obtain ⟨htext, hbefore⟩ := ht.text_eq
    refine ⟨t, m.from_.after, htext, ?_⟩
    rw [← hbefore]
    exact here
  · rintro ⟨before, after, rfl, hm⟩
    exact h.mem_finditer_of_uncrossed (Cursor.start_passes before after) (hp.uncrossed hm) hm

end Solid

/-! ## Repeated characters -/

theorem mem_run_char {p : Char → Bool} {w v : Way} :
    v ∈ (char p).run w ↔
      ∃ x, p x = true ∧ w.cursor.Passes v.cursor [x] ∧ v.groups = w.groups := by
  obtain ⟨⟨before, after⟩, groups⟩ := w
  obtain ⟨⟨before', after'⟩, groups'⟩ := v
  cases after with
  | nil => simp [run, Cursor.Passes]
  | cons y rest =>
    simp only [run, Cursor.next, Cursor.Passes, List.cons_append, List.nil_append,
      List.reverse_singleton]
    constructor
    · intro h
      split at h
      · rename_i hy
        cases List.mem_singleton.mp h
        exact ⟨y, hy, ⟨rfl, rfl⟩, rfl⟩
      · cases h
    · rintro ⟨x, hx, ⟨hafter, rfl⟩, rfl⟩
      obtain ⟨rfl, rfl⟩ := List.cons.inj hafter
      rw [if_pos hx]
      exact List.mem_singleton.mpr rfl

/-- Where nothing is passed and nothing captured, the way is the same. -/
theorem way_eq_iff {w v : Way} :
    (w.cursor.Passes v.cursor [] ∧ v.groups = w.groups) ↔ v = w := by
  constructor
  · rintro ⟨hpasses, hgroups⟩
    cases v
    cases w
    simp only [Way.mk.injEq]
    exact ⟨hpasses.eq, hgroups⟩
  · rintro rfl
    exact ⟨.refl _, rfl⟩

theorem mem_run_seq {a b : Regex} {w v : Way} :
    v ∈ (seq a b).run w ↔ ∃ u, u ∈ a.run w ∧ v ∈ b.run u :=
  List.mem_flatMap

/-- A text over the class of a length within bounds. -/
structure Repeats (p : Char → Bool) (lo : Nat) (hi : Option Nat) (t : Text) : Prop where
  atLeast : lo ≤ t.length
  atMost : ∀ n, hi = some n → t.length ≤ n
  all : t.all p = true

theorem Repeats.cons {p : Char → Bool} {lo : Nat} {hi : Option Nat} {x : Char} {t : Text} :
    Repeats p lo hi (x :: t) ↔
      hi ≠ some 0 ∧ p x = true ∧ Repeats p (lo - 1) (hi.map (· - 1)) t := by
  constructor
  · rintro ⟨hlo, hhi, hall⟩
    rw [List.all_cons, Bool.and_eq_true] at hall
    rw [List.length_cons] at hlo
    refine ⟨fun hzero => ?_, hall.1, by omega, ?_, hall.2⟩
    · exact absurd (hhi 0 hzero) (Nat.not_succ_le_zero _)
    · intro n hn
      obtain ⟨k, hk, rfl⟩ := Option.map_eq_some_iff.mp hn
      have hlength := hhi k hk
      rw [List.length_cons] at hlength
      omega
  · rintro ⟨hzero, hx, hlo, hhi, hall⟩
    refine ⟨by rw [List.length_cons]; omega, ?_, by rw [List.all_cons, hx, hall]; rfl⟩
    rintro n rfl
    have hlength := hhi (n - 1) rfl
    have hpos : n ≠ 0 := fun h => hzero (h ▸ rfl)
    rw [List.length_cons]
    omega

/-- To repeat nothing is to stay. -/
theorem repeats_nil {p : Char → Bool} {lo : Nat} {hi : Option Nat} {w v : Way} :
    (Repeats p lo hi [] ∧ w.cursor.Passes v.cursor [] ∧ v.groups = w.groups) ↔
      lo = 0 ∧ v = w := by
  rw [way_eq_iff]
  constructor
  · rintro ⟨⟨hlo, -, -⟩, heq⟩
    exact ⟨Nat.le_zero.mp hlo, heq⟩
  · rintro ⟨rfl, heq⟩
    exact ⟨⟨Nat.le_refl _, fun n _ => Nat.zero_le n, rfl⟩, heq⟩

/-- To repeat something is to pass a character of the class first. -/
theorem repeats_cons {p : Char → Bool} {lo : Nat} {hi : Option Nat} {w v : Way} :
    (∃ x t, Repeats p lo hi (x :: t) ∧ w.cursor.Passes v.cursor (x :: t) ∧
        v.groups = w.groups) ↔
      hi ≠ some 0 ∧ ∃ u, u ∈ (char p).run w ∧
        ∃ t, Repeats p (lo - 1) (hi.map (· - 1)) t ∧ u.cursor.Passes v.cursor t ∧
          v.groups = u.groups := by
  constructor
  · rintro ⟨x, t, ht, hpasses, hgroups⟩
    obtain ⟨hzero, hx, ht⟩ := Repeats.cons.mp ht
    obtain ⟨hfirst, hrest⟩ := hpasses.cons
    exact ⟨hzero, ⟨w.cursor.next, w.groups⟩, mem_run_char.mpr ⟨x, hx, hfirst, rfl⟩, t, ht, hrest,
      hgroups⟩
  · rintro ⟨hzero, u, hu, t, ht, hrest, hgroups⟩
    obtain ⟨x, hx, hfirst, hsame⟩ := mem_run_char.mp hu
    exact ⟨x, t, Repeats.cons.mpr ⟨hzero, hx, ht⟩, hfirst.trans hrest, hgroups.trans hsame⟩

theorem mem_repeatRun_char {p : Char → Bool} {greedy : Bool} {fuel lo : Nat} {hi : Option Nat}
    {w v : Way} (hfuel : lo + w.cursor.after.length ≤ fuel) :
    v ∈ repeatRun (fun u => (char p).run u) greedy fuel lo hi w ↔
      ∃ t, Repeats p lo hi t ∧ w.cursor.Passes v.cursor t ∧ v.groups = w.groups := by
  induction fuel generalizing lo hi w with
  | zero =>
    obtain ⟨hlo, hafter⟩ : lo = 0 ∧ w.cursor.after.length = 0 := by omega
    rw [repeatRun, if_pos hlo, List.mem_singleton]
    constructor
    · intro hv
      exact ⟨[], repeats_nil.mpr ⟨hlo, hv⟩⟩
    · rintro ⟨t, ht, hpasses, hgroups⟩
      have hnil : t = [] := by
        have hlength := congrArg List.length hpasses.1
        rw [hafter, List.length_append] at hlength
        exact List.eq_nil_of_length_eq_zero (by omega)
      subst hnil
      exact (repeats_nil.mp ⟨ht, hpasses, hgroups⟩).2
  | succ fuel ih =>
    -- one more character, and then the rest of the copies
    have more : v ∈ (if hi = some 0 then [] else ((char p).run w).flatMap fun u =>
          if 0 < lo ∨ u.cursor.after.length < w.cursor.after.length then
            repeatRun (fun u => (char p).run u) greedy fuel (lo - 1) (hi.map (· - 1)) u else []) ↔
        ∃ x t, Repeats p lo hi (x :: t) ∧ w.cursor.Passes v.cursor (x :: t) ∧
          v.groups = w.groups := by
      rw [repeats_cons]
      by_cases hzero : hi = some 0
      · rw [if_pos hzero]
        exact iff_of_false List.not_mem_nil fun h => h.1 hzero
      · rw [if_neg hzero, List.mem_flatMap]
        constructor
        · rintro ⟨u, hu, hv⟩
          have hshorter := Solid.char p w u hu
          rw [if_pos (.inr hshorter)] at hv
          exact ⟨hzero, u, hu, (ih (by omega)).mp hv⟩
        · rintro ⟨-, u, hu, hv⟩
          have hshorter := Solid.char p w u hu
          refine ⟨u, hu, ?_⟩
          rw [if_pos (.inr hshorter)]
          exact (ih (by omega)).mpr hv
    have parts : v ∈ repeatRun (fun u => (char p).run u) greedy (fuel + 1) lo hi w ↔
        (∃ x t, Repeats p lo hi (x :: t) ∧ w.cursor.Passes v.cursor (x :: t) ∧
          v.groups = w.groups) ∨ (lo = 0 ∧ v = w) := by
      rw [repeatRun, ← more]
      generalize (if hi = some 0 then _ else _ : List Way) = ways
      by_cases hlo : 0 < lo
      · simp only [if_pos hlo, Nat.ne_of_gt hlo, false_and, or_false]
      · obtain rfl : lo = 0 := by omega
        rw [if_neg hlo]
        cases greedy with
        | true => simp only [if_true, List.mem_append, List.mem_singleton, true_and]
        | false => simp only [Bool.false_eq_true, if_false, List.mem_cons, true_and, or_comm]
    rw [parts, ← repeats_nil]
    constructor
    · rintro (⟨x, t, h⟩ | h)
      · exact ⟨x :: t, h⟩
      · exact ⟨[], h⟩
    · rintro ⟨t, h⟩
      cases t with
      | nil => exact .inr h
      | cons x t => exact .inl ⟨x, t, h⟩

/-- **The ways to repeat a character class.** -/
theorem mem_run_rep_char {p : Char → Bool} {greedy : Bool} {lo : Nat} {hi : Option Nat}
    {w v : Way} : v ∈ (rep greedy lo hi (char p)).run w ↔
      ∃ t, Repeats p lo hi t ∧ w.cursor.Passes v.cursor t ∧ v.groups = w.groups :=
  mem_repeatRun_char (Nat.le_refl _)

theorem head_repeatRun_char {p : Char → Bool} {fuel : Nat} {w : Way}
    (hfuel : w.cursor.after.length ≤ fuel) :
    (repeatRun (fun u => (char p).run u) true fuel 0 none w).head? =
      some ⟨⟨(w.cursor.after.takeWhile p).reverse ++ w.cursor.before,
        w.cursor.after.dropWhile p⟩, w.groups⟩ := by
  induction fuel generalizing w with
  | zero =>
    obtain ⟨⟨before, after⟩, groups⟩ := w
    obtain rfl : after = [] := List.eq_nil_of_length_eq_zero (Nat.le_zero.mp hfuel)
    rfl
  | succ fuel ih =>
    obtain ⟨⟨before, after⟩, groups⟩ := w
    cases after with
    | nil => rfl
    | cons x rest =>
      rw [repeatRun]
      cases hx : p x with
      | true =>
        have hstep : (char p).run ⟨⟨before, x :: rest⟩, groups⟩ =
            [⟨⟨x :: before, rest⟩, groups⟩] := by
          simp [run, hx, Cursor.next]
        have hmore := ih (w := ⟨⟨x :: before, rest⟩, groups⟩) (Nat.le_of_succ_le_succ hfuel)
        rw [List.takeWhile_cons_of_pos hx, List.dropWhile_cons_of_pos hx]
        simp [hstep, hmore, List.head?_append]
      | false =>
        have hstep : (char p).run ⟨⟨before, x :: rest⟩, groups⟩ = [] := by simp [run, hx]
        simp [hstep, hx]

/-- **The most preferred way to match `p*`** ends where the class ends. -/
theorem head_run_star_char {p : Char → Bool} {w : Way} :
    ((star (char p)).run w).head? =
      some ⟨⟨(w.cursor.after.takeWhile p).reverse ++ w.cursor.before,
        w.cursor.after.dropWhile p⟩, w.groups⟩ :=
  head_repeatRun_char (Nat.le_of_eq (Nat.zero_add _).symm)

/-- **The most preferred way to match `p{0,n}`** goes as far as the class and the bound do. -/
theorem head_run_upTo_char {p : Char → Bool} {n : Nat} {w : Way} :
    ((between 0 n (char p)).run w).head? =
      some ⟨⟨((w.cursor.after.take n).takeWhile p).reverse ++ w.cursor.before,
        w.cursor.after.drop ((w.cursor.after.take n).takeWhile p).length⟩, w.groups⟩ := by
  have bounded : ∀ fuel n w, w.cursor.after.length ≤ fuel →
      (repeatRun (fun u => (char p).run u) true fuel 0 (some n) w).head? =
        some ⟨⟨((w.cursor.after.take n).takeWhile p).reverse ++ w.cursor.before,
          w.cursor.after.drop ((w.cursor.after.take n).takeWhile p).length⟩, w.groups⟩ := by
    intro fuel
    induction fuel with
    | zero =>
      rintro n ⟨⟨before, after⟩, groups⟩ hfuel
      obtain rfl : after = [] := List.eq_nil_of_length_eq_zero (Nat.le_zero.mp hfuel)
      simp [repeatRun]
    | succ fuel ih =>
      rintro n ⟨⟨before, after⟩, groups⟩ hfuel
      rw [repeatRun]
      cases n with
      | zero => simp
      | succ n =>
        cases after with
        | nil => simp [run]
        | cons x rest =>
          cases hx : p x with
          | true =>
            have hstep : (char p).run ⟨⟨before, x :: rest⟩, groups⟩ =
                [⟨⟨x :: before, rest⟩, groups⟩] := by
              simp [run, hx, Cursor.next]
            have hmore := ih n ⟨⟨x :: before, rest⟩, groups⟩ (Nat.le_of_succ_le_succ hfuel)
            simp [hstep, hmore, List.head?_append, hx]
          | false =>
            have hstep : (char p).run ⟨⟨before, x :: rest⟩, groups⟩ = [] := by simp [run, hx]
            simp [hstep, hx]
  exact bounded _ n w (Nat.le_of_eq (Nat.zero_add _).symm)

/-- **The ways to match a literal text under `re.IGNORECASE`.** -/
theorem mem_run_litI {s : Text} {w v : Way} : v ∈ (litI s).run w ↔
    ∃ t, List.Forall₂ (fun a b => sameLetter a b = true) s t ∧ w.cursor.Passes v.cursor t ∧
      v.groups = w.groups := by
  have one : ∀ {c : Char} {w v : Way}, v ∈ (char (sameLetter c)).run w ↔
      ∃ t, List.Forall₂ (fun a b => sameLetter a b = true) [c] t ∧ w.cursor.Passes v.cursor t ∧
        v.groups = w.groups := by
    intro c w v
    rw [mem_run_char]
    constructor
    · rintro ⟨x, hx, h⟩
      exact ⟨[x], .cons hx .nil, h⟩
    · rintro ⟨t, ht, h⟩
      cases ht with
      | cons hx ht =>
        cases ht
        exact ⟨_, hx, h⟩
  induction s generalizing w v with
  | nil =>
    rw [litI, run, List.mem_singleton]
    constructor
    · intro heq
      exact ⟨[], .nil, way_eq_iff.mpr heq⟩
    · rintro ⟨t, ht, h⟩
      cases ht
      exact way_eq_iff.mp h
  | cons c s ih =>
    cases s with
    | nil => exact one
    | cons d s =>
      rw [litI, mem_run_seq]
      · constructor
        · rintro ⟨u, hu, hv⟩
          obtain ⟨x, hx, hfirst, hsame⟩ := mem_run_char.mp hu
          obtain ⟨t, ht, hrest, hgroups⟩ := ih.mp hv
          exact ⟨x :: t, .cons hx ht, hfirst.trans hrest, hgroups.trans hsame⟩
        · rintro ⟨t, ht, hpasses, hgroups⟩
          cases ht with
          | @cons _ x _ t hx ht =>
            obtain ⟨hfirst, hrest⟩ := hpasses.cons
            exact ⟨⟨w.cursor.next, w.groups⟩, mem_run_char.mpr ⟨x, hx, hfirst, rfl⟩,
              ih.mpr ⟨t, ht, hrest, hgroups⟩⟩
      · exact List.cons_ne_nil d s

/-! ## Optional parts and captured groups -/

/-- **The ways to match `r?`**: to stay, or to match `r` and consume something. -/
theorem mem_run_opt {r : Regex} {w v : Way} : v ∈ (opt r).run w ↔
    v = w ∨ v ∈ r.run w ∧ v.cursor.after.length < w.cursor.after.length := by
  have once : ∀ fuel (u : Way), repeatRun (fun u => r.run u) true fuel 0 (some 0) u = [u] := by
    intro fuel u
    cases fuel with
    | zero => rfl
    | succ fuel => rfl
  show v ∈ repeatRun _ true (0 + w.cursor.after.length) 0 (some 1) w ↔ _
  rw [Nat.zero_add]
  cases hlength : w.cursor.after.length with
  | zero =>
    rw [repeatRun, if_pos rfl, List.mem_singleton]
    exact ⟨.inl, fun h => h.resolve_right fun h => Nat.not_lt_zero _ h.2⟩
  | succ fuel =>
    rw [repeatRun, if_neg (Nat.lt_irrefl 0), if_pos rfl, if_neg (by decide), List.mem_append,
      List.mem_singleton, or_comm, List.mem_flatMap]
    refine or_congr_right ?_
    constructor
    · rintro ⟨u, hu, hv⟩
      split at hv
      · rename_i hshorter
        change v ∈ repeatRun (fun u => r.run u) true fuel 0 (some 0) u at hv
        rw [once] at hv
        obtain rfl := List.mem_singleton.mp hv
        exact ⟨hu, hlength ▸ hshorter.resolve_left (Nat.lt_irrefl 0)⟩
      · cases hv
    · rintro ⟨hv, hshorter⟩
      refine ⟨v, hv, ?_⟩
      rw [if_pos (.inr (hlength ▸ hshorter))]
      show v ∈ repeatRun (fun u => r.run u) true fuel 0 (some 0) v
      rw [once]
      exact List.mem_singleton_self v

/-- What every copy keeps is kept by their repetition. -/
theorem repeatRun_keeps {step : Way → List Way} {P : Way → Prop}
    (hstep : ∀ w v, P w → v ∈ step w → P v) {greedy : Bool} {fuel lo : Nat} {hi : Option Nat}
    {w v : Way} (hw : P w) (h : v ∈ repeatRun step greedy fuel lo hi w) : P v := by
  induction fuel generalizing lo hi w v with
  | zero =>
    rw [repeatRun] at h
    split at h
    · rwa [List.mem_singleton.mp h]
    · cases h
  | succ fuel ih =>
    have more : ∀ v ∈ (if hi = some 0 then [] else (step w).flatMap fun u =>
          if 0 < lo ∨ u.cursor.after.length < w.cursor.after.length then
            repeatRun step greedy fuel (lo - 1) (hi.map (· - 1)) u else []), P v := by
      intro v hv
      split at hv
      · cases hv
      · obtain ⟨u, hu, hv⟩ := List.mem_flatMap.mp hv
        split at hv
        · exact ih (hstep w u hw hu) hv
        · cases hv
    rw [repeatRun] at h
    split at h
    · exact more v h
    · split at h
      · rcases List.mem_append.mp h with h | h
        · exact more v h
        · rwa [List.mem_singleton.mp h]
      · rcases List.mem_cons.mp h with h | h
        · rwa [h]
        · exact more v h

/-- The pattern captures nothing. -/
def groupless : Regex → Bool
  | eps | char _ | assert _ | backref _ => true
  | seq a b | alt a b => a.groupless && b.groupless
  | rep _ _ _ r => r.groupless
  | group _ _ => false

theorem groups_of_groupless {r : Regex} (h : r.groupless = true) {w v : Way} (hv : v ∈ r.run w) :
    v.groups = w.groups := by
  induction r generalizing w v with
  | eps => rw [List.mem_singleton.mp hv]
  | char p =>
    obtain ⟨-, -, -, hgroups⟩ := mem_run_char.mp hv
    exact hgroups
  | assert p =>
    rw [run] at hv
    split at hv
    · rw [List.mem_singleton.mp hv]
    · cases hv
  | seq a b iha ihb =>
    obtain ⟨ha, hb⟩ := Bool.and_eq_true_iff.mp h
    obtain ⟨u, hu, hv⟩ := mem_run_seq.mp hv
    exact (ihb hb hv).trans (iha ha hu)
  | alt a b iha ihb =>
    obtain ⟨ha, hb⟩ := Bool.and_eq_true_iff.mp h
    exact (List.mem_append.mp hv).elim (iha ha) (ihb hb)
  | rep greedy lo hi r ih =>
    exact repeatRun_keeps (P := fun u => u.groups = w.groups)
      (fun u u' hu hu' => (ih h hu').trans hu) rfl hv
  | group i r ih => cases h
  | backref i =>
    rw [run] at hv
    split at hv
    · cases hv
    · rw [List.mem_singleton.mp hv]

/-- A match that is found is a way from a position of the text. -/
theorem way_of_mem_finditer {r : Regex} {s : Text} {m : Match} (hm : m ∈ r.finditer s) :
    ∃ t, (Cursor.start s).Passes m.from_ t ∧ m.way ∈ r.run ⟨m.from_, []⟩ := by
  have found : ∀ fuel fresh (c : Cursor), (∃ t, (Cursor.start s).Passes c t) →
      Piece.hit m ∈ r.scanFrom fuel fresh c →
        ∃ t, (Cursor.start s).Passes m.from_ t ∧ m.way ∈ r.run ⟨m.from_, []⟩ := by
    intro fuel
    induction fuel with
    | zero =>
      intro fresh c _ hmem
      obtain ⟨x, -, hx⟩ := List.mem_map.mp hmem
      cases hx
    | succ fuel ih =>
      rintro fresh c ⟨t, ht⟩ hmem
      rw [scanFrom] at hmem
      split at hmem
      · rename_i w hw
        have hway := List.mem_of_find?_eq_some hw
        rcases List.mem_cons.mp hmem with heq | hrest
        · cases heq
          exact ⟨t, ht, hway⟩
        · obtain ⟨u, hu⟩ := r.run_consumes hway
          exact ih _ _ ⟨_, ht.trans hu⟩ hrest
      · split at hmem
        · cases hmem
        · rename_i x rest hafter
          rcases List.mem_cons.mp hmem with heq | hrest
          · cases heq
          · exact ih _ _ ⟨_, ht.trans (Cursor.passes_next hafter)⟩ hrest
  exact found _ _ _ ⟨[], .refl _⟩ (mem_finditer.mp hm)

/-- So is the first match. -/
theorem way_of_search {r : Regex} {s : Text} {m : Match} (h : r.search s = some m) :
    m.way ∈ r.run ⟨m.from_, []⟩ := by
  have here : ∀ {c : Cursor}, r.matchAt c = some m → m.way ∈ r.run ⟨m.from_, []⟩ := by
    intro c hc
    obtain ⟨w, hw, rfl⟩ := Option.map_eq_some_iff.mp hc
    exact List.mem_of_head? hw
  have found : ∀ fuel (c : Cursor), r.searchFrom fuel c = some m → m.way ∈ r.run ⟨m.from_, []⟩ := by
    intro fuel
    induction fuel with
    | zero => exact fun c hc => here hc
    | succ fuel ih =>
      intro c hc
      rw [searchFrom] at hc
      split at hc
      · rename_i m' hm'
        cases hc
        exact here hm'
      · split at hc
        · cases hc
        · exact ih _ hc
  exact found _ _ h

/-- Whatever group `i` captures has a property. -/
def Captures (r : Regex) (i : Nat) (P : Text → Prop) : Prop :=
  ∀ w v, v ∈ r.run w → P (v.group i)

namespace Captures

variable {a b : Regex} {i : Nat} {P : Text → Prop}

theorem first (h : a.Captures i P) (hb : b.groupless = true) : (seq a b).Captures i P := by
  intro w v hv
  obtain ⟨u, hu, hv⟩ := mem_run_seq.mp hv
  have hcaptured := h w u hu
  rwa [Way.group, ← groups_of_groupless hb hv] at hcaptured

theorem second (h : b.Captures i P) : (seq a b).Captures i P := by
  intro w v hv
  obtain ⟨u, -, hv⟩ := mem_run_seq.mp hv
  exact h u v hv

theorem group {r : Regex} (h : ∀ w v t, v ∈ r.run w → w.cursor.Passes v.cursor t → P t) :
    (Regex.group i r).Captures i P := by
  intro w v hv
  obtain ⟨u, hu, rfl⟩ := List.mem_map.mp hv
  obtain ⟨t, ht⟩ := r.run_consumes hu
  have hcaptured := h w u t hu ht
  rw [← ht.upTo] at hcaptured
  rwa [Way.group, List.lookup_cons_self]

/-- What a match found in a text has captured. -/
theorem of_mem_finditer (h : a.Captures i P) {s : Text} {m : Match} (hm : m ∈ a.finditer s) :
    P (m.group i) := by
  obtain ⟨-, -, hway⟩ := way_of_mem_finditer hm
  exact h _ _ hway

theorem of_search (h : a.Captures i P) {s : Text} {m : Match} (hm : a.search s = some m) :
    P (m.group i) :=
  h _ _ (way_of_search hm)

end Captures
end Regex
end OmniCare
