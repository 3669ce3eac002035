import Mathlib.Logic.Function.Iterate
import Mathlib.Logic.Relation
import OmniCare.Ways

/-! # One replacement after another

`re.sub` replaces every match at once.  It can be read as one replacement after another, each in
the text that the one before has left (`sub_rewrites`): so what one replacement preserves the
substitution preserves (`sub_induction`), and a pattern that is not found leaves the text as it is,
where one that is found replaces something (`sub_cases`).

What changes nothing or makes its argument smaller comes to an end (`Shrinks.iterate`).
-/
namespace OmniCare.Regex

variable {r : Regex} {f : Match → Text} {s : Text}

/-- One match in a text is replaced.  What stands before it need no longer be what the pattern has
seen there. -/
inductive Rewrites (r : Regex) (f : Match → Text) : Text → Text → Prop
  | intro {c : Cursor} {v : Way} {t : Text} (x : Text) (takes : r.Takes ⟨c, []⟩ v)
      (passes : c.Passes v.cursor t) :
      Rewrites r f (x ++ (t ++ v.cursor.after)) (x ++ (f ⟨c, v⟩ ++ v.cursor.after))

/-- What a scan puts together. -/
def written (f : Match → Text) : Piece → Text
  | .gap c => [c]
  | .hit m => f m

theorem sub_eq (r : Regex) (f : Match → Text) (s : Text) :
    r.sub f s = (r.scan s).flatMap (written f) := by
  rw [sub]
  refine congrArg (fun g => (r.scan s).flatMap g) (funext fun piece => ?_)
  cases piece <;> rfl

/-- A match is replaced, and then the text behind it is scanned. -/
theorem scanFrom_rewrites (fuel : Nat) (fresh : Bool) (c : Cursor) (x : Text) :
    Relation.ReflTransGen (r.Rewrites f) (x ++ c.after)
      (x ++ (r.scanFrom fuel fresh c).flatMap (written f)) := by
  induction fuel generalizing fresh c x with
  | zero =>
    have hsame : (c.after.map Piece.gap).flatMap (written f) = c.after := by
      rw [List.flatMap_map]
      exact List.flatMap_singleton' _
    rw [scanFrom, hsame]
  | succ fuel ih =>
    rw [scanFrom]
    split
    · rename_i w hw
      have htakes : r.Takes ⟨c, []⟩ w := mem_run_iff.mp (List.mem_of_find?_eq_some hw)
      obtain ⟨t, ht⟩ := htakes.passes
      have hrest := ih (decide (w.cursor.after.length < c.after.length)) w.cursor (x ++ f ⟨c, w⟩)
      rw [List.append_assoc, List.append_assoc] at hrest
      refine .head ?_ hrest
      rw [ht.1]
      exact .intro x htakes ht
    · cases hafter : c.after with
      | nil => exact .refl
      | cons d rest =>
        have hrest := ih true c.next (x ++ [d])
        have hnext : c.next.after = rest := by rw [Cursor.next, hafter]
        rw [hnext, List.append_assoc, List.append_assoc] at hrest
        exact hrest

/-- **A substitution is one replacement after another.** -/
theorem sub_rewrites (r : Regex) (f : Match → Text) (s : Text) :
    Relation.ReflTransGen (r.Rewrites f) s (r.sub f s) := by
  rw [sub_eq]
  exact scanFrom_rewrites _ _ (.start s) []

/-- **What one replacement preserves the substitution preserves.** -/
theorem sub_induction {P : Text → Prop} (hstep : ∀ {s s'}, r.Rewrites f s s' → P s → P s')
    (hs : P s) : P (r.sub f s) := by
  have hchain := r.sub_rewrites f s
  generalize r.sub f s = out at hchain ⊢
  induction hchain with
  | refl => exact hs
  | tail _ hone ih => exact hstep hone ih

/-- A scan replaces something if the pattern is found, and nothing else. -/
theorem scanFrom_cases (fuel : Nat) (c : Cursor) (x : Text) (hfuel : c.after.length < fuel) :
    (r.searchFrom c.after.length c = none ∧
        (r.scanFrom fuel true c).flatMap (written f) = c.after) ∨
      ((r.searchFrom c.after.length c).isSome = true ∧
        Relation.TransGen (r.Rewrites f) (x ++ c.after)
          (x ++ (r.scanFrom fuel true c).flatMap (written f))) := by
  induction fuel generalizing c x with
  | zero => exact absurd hfuel (Nat.not_lt_zero _)
  | succ fuel ih =>
    have hfirst : (r.run ⟨c, []⟩).find? (fun w => true || w.cursor.after.length < c.after.length) =
        (r.run ⟨c, []⟩).head? := by
      cases r.run ⟨c, []⟩ <;> rfl
    have hsearch : r.matchAt c = (r.run ⟨c, []⟩).head?.map (⟨c, ·⟩) := rfl
    rw [scanFrom, hfirst]
    cases hrun : (r.run ⟨c, []⟩).head? with
    | some w =>
      right
      have htakes : r.Takes ⟨c, []⟩ w := mem_run_iff.mp (List.mem_of_head? hrun)
      obtain ⟨t, ht⟩ := htakes.passes
      have hrest := scanFrom_rewrites (r := r) (f := f) fuel
        (decide (w.cursor.after.length < c.after.length)) w.cursor (x ++ f ⟨c, w⟩)
      rw [List.append_assoc, List.append_assoc] at hrest
      refine ⟨?_, .trans_left (.single ?_) hrest⟩
      · cases c.after.length <;> rw [searchFrom, hsearch, hrun] <;> rfl
      · rw [ht.1]
        exact .intro x htakes ht
    | none =>
      rw [hrun] at hsearch
      cases hafter : c.after with
      | nil =>
        left
        exact ⟨hsearch, rfl⟩
      | cons d rest =>
        have hnext : c.next.after = rest := by rw [Cursor.next, hafter]
        have hlength : c.next.after.length < fuel := by
          rw [hnext]
          rw [hafter] at hfuel
          exact Nat.lt_of_succ_lt_succ hfuel
        have hmore := ih c.next (x ++ [d]) hlength
        rw [hnext, List.append_assoc, List.append_assoc] at hmore
        have hstep : r.searchFrom (d :: rest).length c = r.searchFrom rest.length c.next := by
          rw [List.length_cons, searchFrom, hsearch, hafter]
          rfl
        rw [hstep]
        refine hmore.imp (fun hnone => ⟨hnone.1, congrArg (d :: ·) hnone.2⟩) fun hsome => hsome

/-- **A substitution of what is not found changes nothing**, and one of what is found replaces
something. -/
theorem sub_cases (r : Regex) (f : Match → Text) (s : Text) :
    (r.found s = false ∧ r.sub f s = s) ∨
      (r.found s = true ∧ Relation.TransGen (r.Rewrites f) s (r.sub f s)) := by
  rw [sub_eq, found, search]
  refine (scanFrom_cases (2 * s.length + 2) (.start s) [] ?_).imp (fun h => ?_) fun h => h
  · show s.length < 2 * s.length + 2
    omega
  · exact ⟨by rw [show r.searchFrom s.length (.start s) = none from h.1]; rfl, h.2⟩

end OmniCare.Regex

/-! ## What shrinks -/

namespace OmniCare

variable {α : Type} {μ : α → Nat} {g : α → α} {a : α}

/-- Whatever the function changes becomes smaller. -/
def Shrinks (μ : α → Nat) (g : α → α) : Prop := ∀ a, g a = a ∨ μ (g a) < μ a

namespace Shrinks

theorem le (h : Shrinks μ g) (a : α) : μ (g a) ≤ μ a := by
  rcases h a with heq | hlt
  · rw [heq]
  · exact Nat.le_of_lt hlt

/-- **One function after another**: such a sequence shrinks, and it changes nothing exactly if none
of the functions does. -/
theorem foldl {gs : List (α → α)} (h : ∀ g ∈ gs, Shrinks μ g) (a : α) :
    (gs.foldl (fun a g => g a) a = a ∧ ∀ g ∈ gs, g a = a) ∨
      (μ (gs.foldl (fun a g => g a) a) < μ a ∧ ¬ ∀ g ∈ gs, g a = a) := by
  induction gs generalizing a with
  | nil => exact .inl ⟨rfl, by simp⟩
  | cons g gs ih =>
    obtain ⟨hg, hgs⟩ := List.forall_mem_cons.mp h
    rw [List.foldl_cons, List.forall_mem_cons]
    rcases hg a with heq | hlt
    · rw [heq, and_iff_right rfl]
      exact ih hgs a
    · refine .inr ⟨?_, fun hall => ?_⟩
      · rcases ih hgs (g a) with hsame | hless
        · rw [hsame.1]
          exact hlt
        · exact Nat.lt_trans hless.1 hlt
      · rw [hall.1] at hlt
        exact absurd hlt (Nat.lt_irrefl _)

/-- **It is repeated no more often than the measure says.** -/
theorem iterate (h : Shrinks μ g) {n : Nat} (hn : μ a ≤ n) : g (g^[n] a) = g^[n] a := by
  induction n generalizing a with
  | zero =>
    refine (h a).resolve_right fun hlt => ?_
    exact absurd (Nat.lt_of_lt_of_le hlt hn) (Nat.not_lt_zero _)
  | succ n ih =>
    rw [Function.iterate_succ_apply]
    rcases h a with heq | hlt
    · rw [heq, Function.iterate_fixed heq, heq]
    · exact ih (Nat.le_of_lt_succ (Nat.lt_of_lt_of_le hlt hn))

end Shrinks

end OmniCare
