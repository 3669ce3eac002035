import OmniCare.Preferring

/-! # Backtracking into a repetition

`Prefers` is about patterns each part of which takes its text first of all.  Here a part waits for
what stands behind it: a greedy repetition gives characters back until the rest matches
(`Prefers.starThen`), and a lazy one takes more until it does (`Prefers.lazyThen`).  `hits` lists
the matches from a position on, one after the other.
-/
namespace OmniCare.Regex

/-- There is no way to match at a text. -/
def Fails (r : Regex) (s : Text) : Prop := ∀ before groups, r.run ⟨⟨before, s⟩, groups⟩ = []

/-- Behind what the first part takes first of all, the second part may have choices of its own. -/
theorem Prefers.andThen {a b : Regex} {t rest before : Text} {gs groups : List (Nat × Text)}
    {v : Way} (ha : a.Prefers t rest gs)
    (hb : (b.run ⟨⟨t.reverse ++ before, rest⟩, gs ++ groups⟩).head? = some v) :
    ((Regex.seq a b).run ⟨⟨before, t ++ rest⟩, groups⟩).head? = some v := by
  obtain ⟨ws, hrun⟩ := List.head?_eq_some_iff.mp (ha before groups)
  rw [run, hrun, List.flatMap_cons, List.head?_append, hb, Option.some_or]

/-- A literal text. -/
theorem Prefers.lit (s rest : Text) : (Regex.lit s).Prefers s rest [] := by
  have hone : ∀ (c : Char) (rest : Text), (Regex.char (· == c)).Prefers [c] rest [] :=
    fun c _ => char (beq_self_eq_true c)
  induction s with
  | nil => exact fun _ _ => rfl
  | cons c s ih =>
    cases s with
    | nil => exact hone c rest
    | cons d s => exact (hone c (d :: s ++ rest)).seq ih

/-! ## Repetitions with something behind them -/

section Repetitions
variable {p : Char → Bool} {b : Regex} {t u rest : Text} {gs : List (Nat × Text)}

theorem run_char_cons {x : Char} (hx : p x = true) (before s : Text) (groups : List (Nat × Text)) :
    (char p).run ⟨⟨before, x :: s⟩, groups⟩ = [⟨⟨x :: before, s⟩, groups⟩] := by
  simp [run, hx, Cursor.next]

/-- A repetition takes one more character, or stops: first the one, then the other. -/
theorem repeatRun_char_succ (greedy : Bool) (fuel : Nat) (w : Way) :
    repeatRun (fun u => (char p).run u) greedy (fuel + 1) 0 none w =
      let more := ((char p).run w).flatMap fun v =>
        repeatRun (fun u => (char p).run u) greedy fuel 0 none v
      if greedy then more ++ [w] else w :: more := by
  have hmore : ((char p).run w).flatMap (fun v =>
        if 0 < 0 ∨ v.cursor.after.length < w.cursor.after.length then
          repeatRun (fun u => (char p).run u) greedy fuel 0 none v
        else []) = ((char p).run w).flatMap fun v =>
      repeatRun (fun u => (char p).run u) greedy fuel 0 none v :=
    List.flatMap_congr fun v hv => if_pos (.inr (Solid.char p _ _ hv))
  exact congrArg (fun more => if greedy then more ++ [w] else w :: more) hmore

/-- What a repetition could still take does not help. -/
theorem flatMap_more_eq_nil
    (hfail : ∀ s s', rest = s ++ s' → s ≠ [] → s.all p = true → b.Fails s') {fuel : Nat}
    (hfuel : rest.length ≤ fuel + 1) (before : Text) (groups : List (Nat × Text)) :
    (((char p).run ⟨⟨before, rest⟩, groups⟩).flatMap fun v =>
        repeatRun (fun u => (char p).run u) true fuel 0 none v).flatMap b.run = [] := by
  rw [List.eq_nil_iff_forall_not_mem]
  intro v hv
  obtain ⟨w, hw, hv⟩ := List.mem_flatMap.mp hv
  obtain ⟨z, hz, hw⟩ := List.mem_flatMap.mp hw
  obtain ⟨x, hx, hone, -⟩ := mem_run_char.mp hz
  have hlength : 1 + z.cursor.after.length = rest.length := by
    rw [show rest = [x] ++ z.cursor.after from hone.1, List.length_append]
    rfl
  obtain ⟨s, hs, hpasses, -⟩ := (mem_repeatRun_char (by omega)).mp hw
  have hnil := hfail (x :: s) w.cursor.after (hone.trans hpasses).1 (List.cons_ne_nil _ _)
    (by rw [List.all_cons, hx, hs.all]; rfl) w.cursor.before w.groups
  rw [hnil] at hv
  cases hv

/-- **A greedy repetition gives characters back** until what stands behind it matches. -/
theorem Prefers.starThen (ht : t.all p = true)
    (hfail : ∀ s s', u ++ rest = s ++ s' → s ≠ [] → s.all p = true → b.Fails s')
    (hb : b.Prefers u rest gs) : (Regex.seq (Regex.star (.char p)) b).Prefers (t ++ u) rest gs := by
  have main : ∀ fuel (before : Text) groups, (t ++ (u ++ rest)).length ≤ fuel →
      ((repeatRun (fun u => (Regex.char p).run u) true fuel 0 none
        ⟨⟨before, t ++ (u ++ rest)⟩, groups⟩).flatMap b.run).head? =
        some ⟨⟨(t ++ u).reverse ++ before, rest⟩, gs ++ groups⟩ := by
    induction t with
    | nil =>
      intro fuel before groups hfuel
      cases fuel with
      | zero =>
        rw [repeatRun, if_pos rfl, List.flatMap_singleton]
        exact hb before groups
      | succ fuel =>
        have hmore := flatMap_more_eq_nil hfail hfuel before groups
        rw [List.nil_append, repeatRun_char_succ]
        dsimp only
        rw [if_pos rfl, List.flatMap_append, hmore, List.nil_append, List.flatMap_singleton]
        exact hb before groups
    | cons x t ih =>
      rw [List.all_cons, Bool.and_eq_true] at ht
      intro fuel before groups hfuel
      cases fuel with
      | zero => exact absurd hfuel (Nat.not_succ_le_zero _)
      | succ fuel =>
        have hrest := ih ht.2 fuel (x :: before) groups (Nat.le_of_succ_le_succ hfuel)
        rw [List.cons_append, repeatRun_char_succ]
        dsimp only
        rw [run_char_cons ht.1, List.flatMap_singleton, if_pos rfl, List.flatMap_append,
          List.head?_append, hrest, Option.some_or, List.cons_append, List.reverse_cons,
          List.append_assoc]
        rfl
  intro before groups
  have h := main (0 + (t ++ (u ++ rest)).length) before groups (Nat.le_add_left _ _)
  rw [List.append_assoc]
  exact h

/-- **A lazy repetition takes more** until what stands behind it matches. -/
theorem Prefers.lazyThen (i : Nat) (hne : t ≠ []) (ht : t.all p = true)
    (hfail : ∀ s s', t = s ++ s' → s ≠ [] → s' ≠ [] → b.Fails (s' ++ (u ++ rest)))
    (hb : b.Prefers u rest gs) :
    (Regex.seq (.group i (.rep false 1 none (.char p))) b).Prefers (t ++ u) rest
      (gs ++ [(i, t)]) := by
  intro before groups
  let w : Way := ⟨⟨before, t ++ (u ++ rest)⟩, groups⟩
  let captured (v : Way) : Way := { v with groups := (i, w.cursor.upTo v.cursor) :: v.groups }
  have later : ∀ (fuel : Nat) (s s' : Text), t = s ++ s' → s ≠ [] → s'.length ≤ fuel →
      (((repeatRun (fun u => (Regex.char p).run u) false fuel 0 none
          ⟨⟨s.reverse ++ before, s' ++ (u ++ rest)⟩, groups⟩).map captured).flatMap b.run).head? =
        some ⟨⟨(t ++ u).reverse ++ before, rest⟩, gs ++ (i, t) :: groups⟩ := by
    intro fuel s s' hsplit hs hfuel
    induction s' generalizing fuel s with
    | nil =>
      obtain rfl : t = s := by rw [hsplit, List.append_nil]
      have hpasses : w.cursor.Passes ⟨t.reverse ++ before, u ++ rest⟩ t := ⟨rfl, rfl⟩
      have hfirst : ∃ more, repeatRun (fun u => (Regex.char p).run u) false fuel 0 none
          ⟨⟨t.reverse ++ before, u ++ rest⟩, groups⟩ =
            ⟨⟨t.reverse ++ before, u ++ rest⟩, groups⟩ :: more := by
        cases fuel with
        | zero => exact ⟨[], rfl⟩
        | succ fuel => exact ⟨_, rfl⟩
      obtain ⟨more, hmore⟩ := hfirst
      have hcaptured : captured ⟨⟨t.reverse ++ before, u ++ rest⟩, groups⟩ =
          ⟨⟨t.reverse ++ before, u ++ rest⟩, (i, t) :: groups⟩ := by
        simp only [captured, hpasses.upTo]
      rw [List.nil_append, hmore, List.map_cons, List.flatMap_cons, List.head?_append, hcaptured,
        hb, Option.some_or, List.reverse_append, List.append_assoc]
    | cons x s' ih =>
      have hx : p x = true := by
        rw [hsplit, List.all_append, List.all_cons, Bool.and_eq_true, Bool.and_eq_true] at ht
        exact ht.2.1
      cases fuel with
      | zero => exact absurd hfuel (Nat.not_succ_le_zero _)
      | succ fuel =>
        have hrest := ih fuel (s ++ [x]) (by rw [hsplit, List.append_assoc]; rfl) (by simp)
          (Nat.le_of_succ_le_succ hfuel)
        have hnone := hfail s (x :: s') hsplit hs (List.cons_ne_nil _ _)
        rw [List.reverse_append] at hrest
        rw [List.cons_append, repeatRun_char_succ]
        dsimp only
        rw [run_char_cons hx, List.flatMap_singleton, if_neg (by decide), List.map_cons,
          List.flatMap_cons, List.head?_append]
        rw [show b.run (captured ⟨⟨s.reverse ++ before, x :: (s' ++ (u ++ rest))⟩, groups⟩) = []
          from hnone _ _]
        exact hrest
  obtain ⟨x, t, rfl⟩ := List.exists_cons_of_ne_nil hne
  rw [List.all_cons, Bool.and_eq_true] at ht
  -- the first character is mandatory
  have hrun : (Regex.rep false 1 none (.char p)).run w =
      repeatRun (fun u => (Regex.char p).run u) false ((t ++ (u ++ rest)).length + 1) 0 none
        ⟨⟨x :: before, t ++ (u ++ rest)⟩, groups⟩ := by
    show repeatRun _ false (1 + ((t ++ (u ++ rest)).length + 1)) 1 none w = _
    rw [Nat.add_comm 1, repeatRun, if_pos Nat.zero_lt_one, if_neg (by decide)]
    show ((Regex.char p).run ⟨⟨before, x :: (t ++ (u ++ rest))⟩, groups⟩).flatMap _ = _
    rw [run_char_cons ht.1, List.flatMap_singleton, if_pos (.inl Nat.zero_lt_one)]
    rfl
  have h := later ((t ++ (u ++ rest)).length + 1) [x] t rfl (List.cons_ne_nil _ _)
    (by rw [List.length_append]; omega)
  rw [show ([x] : Text).reverse ++ before = x :: before from rfl, ← hrun] at h
  rw [List.append_assoc, List.append_assoc]
  exact h

end Repetitions

/-! ## The matches from a position on -/

/-- A piece, if it is a match. -/
def Piece.match? : Piece → Option Match
  | .gap _ => none
  | .hit m => some m

/-- The matches from a position on. -/
def hits (r : Regex) (c : Cursor) : List Match :=
  (r.scanFrom (c.after.length + 1) true c).filterMap Piece.match?

namespace Solid
variable {r : Regex} (h : r.Solid)
include h

/-- A scan depends on the text ahead only, once the fuel is enough for it. -/
theorem scanFrom_congr {fuel fuel' : Nat} {fresh fresh' : Bool} {c : Cursor}
    (hfuel : c.after.length < fuel) (hfuel' : c.after.length < fuel') :
    r.scanFrom fuel fresh c = r.scanFrom fuel' fresh' c := by
  induction fuel generalizing fuel' fresh fresh' c with
  | zero => exact absurd hfuel (Nat.not_lt_zero _)
  | succ fuel ih =>
    cases fuel' with
    | zero => exact absurd hfuel' (Nat.not_lt_zero _)
    | succ fuel' =>
      rw [h.scanFrom_succ, h.scanFrom_succ]
      cases here : r.matchAt c with
      | some m =>
        have hshorter := h _ _ (matchAt_mem here)
        have hshorter : m.way.cursor.after.length < c.after.length := hshorter
        exact congrArg (Piece.hit m :: ·) (ih (by omega) (by omega))
      | none =>
        cases hafter : c.after with
        | nil => rfl
        | cons x rest =>
          have hshorter : c.next.after.length < c.after.length := by
            rw [Cursor.next, hafter]
            exact Nat.lt_succ_self _
          exact congrArg (Piece.gap x :: ·) (ih (by omega) (by omega))

theorem finditer_eq_hits (s : Text) : r.finditer s = r.hits (.start s) := by
  have hscan : r.scan s = r.scanFrom (s.length + 1) true (.start s) :=
    h.scanFrom_congr (by show s.length < 2 * s.length + 2; omega) (Nat.lt_succ_self _)
  rw [finditer, hscan, hits]
  refine List.filterMap_congr fun x _ => ?_
  cases x <;> rfl

/-- Where the pattern matches, the match comes first. -/
theorem hits_of_match {c : Cursor} {m : Match} (hm : r.matchAt c = some m) :
    r.hits c = m :: r.hits m.way.cursor := by
  have hshorter : m.way.cursor.after.length < c.after.length := h _ _ (matchAt_mem hm)
  have hscan : r.scanFrom c.after.length true m.way.cursor =
      r.scanFrom (m.way.cursor.after.length + 1) true m.way.cursor :=
    h.scanFrom_congr hshorter (Nat.lt_succ_self _)
  rw [hits, h.scanFrom_succ, hm, hits, ← hscan]
  rfl

/-- Where it does not, the search goes on one character later. -/
theorem hits_of_none {before rest : Text} {x : Char}
    (hnone : r.matchAt ⟨before, x :: rest⟩ = none) :
    r.hits ⟨before, x :: rest⟩ = r.hits ⟨x :: before, rest⟩ := by
  rw [hits, h.scanFrom_succ, hnone]
  rfl

theorem hits_nil (before : Text) : r.hits ⟨before, []⟩ = [] := by
  have hnone : r.matchAt ⟨before, []⟩ = none := by
    by_contra hsome
    obtain ⟨m, hm⟩ := Option.ne_none_iff_exists'.mp hsome
    exact absurd (h _ _ (matchAt_mem hm)) (Nat.not_lt_zero _)
  rw [hits, h.scanFrom_succ, hnone]
  rfl

/-- **A stretch of text in which no match begins is passed over.** -/
theorem hits_skip {u rest before : Text}
    (hnone : ∀ a b, u = a ++ b → b ≠ [] →
      r.matchAt ⟨a.reverse ++ before, b ++ rest⟩ = none) :
    r.hits ⟨before, u ++ rest⟩ = r.hits ⟨u.reverse ++ before, rest⟩ := by
  induction u generalizing before with
  | nil => rfl
  | cons x u ih =>
    have hfirst : r.matchAt ⟨before, x :: (u ++ rest)⟩ = none :=
      hnone [] (x :: u) rfl (List.cons_ne_nil _ _)
    rw [List.cons_append, h.hits_of_none hfirst, ih, List.reverse_cons, List.append_assoc]
    · rfl
    · intro a b hsplit hb
      have hlater := hnone (x :: a) b (by rw [hsplit]; rfl) hb
      rwa [List.reverse_cons, List.append_assoc] at hlater

end Solid

end OmniCare.Regex
