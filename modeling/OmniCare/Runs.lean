import Mathlib.Data.List.Basic

/-! # Runs of a labelled transition system

A step takes a state and an action to a state and emits events.  A run is a sequence of
steps; it records its actions and, in order, everything emitted.  What holds initially and
is kept by every step holds of every run (`Run.invariant`), where the invariant may speak
of the state reached together with the events of the past.

A system given as a function that computes its step (`Computes`) is run by `play`, which
finds the run of a list of actions.  `restrict` keeps the steps that meet a condition, so
that its runs are the runs whose steps all meet it.
-/
namespace OmniCare

variable {σ α ε : Type*}

/-- The runs of a step relation from a state: actions, state reached, events emitted. -/
inductive Run (R : σ → α → σ → List ε → Prop) (s : σ) : List α → σ → List ε → Prop
  | initial : Run R s [] s []
  | step {as : List α} {a : α} {t u : σ} {es fs : List ε} :
      Run R s as t es → R t a u fs → Run R s (as ++ [a]) u (es ++ fs)

namespace Run

variable {R R' : σ → α → σ → List ε → Prop} {s t u : σ} {as bs : List α} {es fs : List ε}

/-- **An invariant of the state and the past holds of every run.** -/
theorem invariant {I : σ → List ε → Prop} (hinit : I s [])
    (hstep : ∀ {t es a u fs}, I t es → R t a u fs → I u (es ++ fs)) (h : Run R s as t es) :
    I t es := by
  induction h with
  | initial => exact hinit
  | step _ hs ih => exact hstep ih hs

/-- A run of a relation is a run of every relation that contains it. -/
theorem mono (hR : ∀ {t a u fs}, R t a u fs → R' t a u fs) (h : Run R s as t es) :
    Run R' s as t es := by
  induction h with
  | initial => exact .initial
  | step _ hs ih => exact .step ih (hR hs)

/-- Runs compose. -/
theorem trans (h : Run R s as t es) (h' : Run R t bs u fs) : Run R s (as ++ bs) u (es ++ fs) := by
  induction h' with
  | initial => simpa using h
  | step _ hs ih =>
    rw [← List.append_assoc, ← List.append_assoc]
    exact .step ih hs

/-- **Where every step comes down in rank, a run has no more steps than it has come down.** -/
theorem length_le {rank : σ → Nat} (hrank : ∀ {t a u fs}, R t a u fs → rank u < rank t)
    (h : Run R s as t es) : as.length + rank t ≤ rank s := by
  induction h with
  | initial => simp
  | step _ hs ih =>
    have hdown := hrank hs
    rw [List.length_append, List.length_singleton]
    omega

/-- A run of one step. -/
theorem single {a : α} (h : R s a t es) : Run R s [a] t es := .step .initial h

end Run

/-! ## Computed steps -/

/-- The step relation of a function that computes the step. -/
def Computes (step : σ → α → Option (σ × List ε)) (s : σ) (a : α) (t : σ) (es : List ε) : Prop :=
  step s a = some (t, es)

/-- Takes the steps of a list of actions. -/
def play (step : σ → α → Option (σ × List ε)) (s : σ) : List α → Option (σ × List ε)
  | [] => some (s, [])
  | a :: as =>
      (step s a).bind fun r => (play step r.1 as).map fun q => (q.1, r.2 ++ q.2)

/-- What `play` finds is a run. -/
theorem Run.of_play {step : σ → α → Option (σ × List ε)} {s t : σ} {as : List α} {es : List ε}
    (h : play step s as = some (t, es)) : Run (Computes step) s as t es := by
  induction as generalizing s es with
  | nil =>
    cases h
    exact .initial
  | cons a as ih =>
    obtain ⟨⟨u, fs⟩, hs, h⟩ := Option.bind_eq_some_iff.mp h
    obtain ⟨⟨v, gs⟩, hv, heq⟩ := Option.map_eq_some_iff.mp h
    cases heq
    exact (Run.single hs).trans (ih hv)

/-- A run ends with its last step. -/
theorem Run.last {R : σ → α → σ → List ε → Prop} {s u : σ} {as : List α} {a : α} {gs : List ε}
    (h : Run R s (as ++ [a]) u gs) :
    ∃ t es fs, Run R s as t es ∧ R t a u fs ∧ gs = es ++ fs := by
  generalize hbs : as ++ [a] = bs at h
  cases h with
  | initial => simp at hbs
  | step h hs =>
    obtain ⟨rfl, heq⟩ := List.append_inj' hbs rfl
    cases heq
    exact ⟨_, _, _, h, hs, rfl⟩

/-- **Two runs on the same actions.**  Where two related states take the same step, as far as the
world outside says the same to both (`S`), runs on the same actions emit the same events and end
in related states. -/
theorem Run.alike {R : σ → α → σ → List ε → Prop} {Q : σ → σ → Prop}
    {S : List ε → List ε → Prop}
    (hbefore : ∀ {es fs es' fs'}, S (es ++ fs) (es' ++ fs') → S es es')
    (hafter : ∀ {es fs fs'}, S (es ++ fs) (es ++ fs') → S fs fs')
    (hstep : ∀ {s t a s' t' fs gs}, Q s t → R s a s' fs → R t a t' gs → S fs gs →
      Q s' t' ∧ fs = gs)
    {s t s' t' : σ} {as : List α} {es es' : List ε} (h : Run R s as s' es)
    (h' : Run R t as t' es') (hrel : Q s t) (hsame : S es es') : Q s' t' ∧ es = es' := by
  induction h generalizing t' es' with
  | initial =>
    generalize has : ([] : List α) = as at h'
    cases h' with
    | initial => exact ⟨hrel, rfl⟩
    | step => simp at has
  | step _ hs ih =>
    obtain ⟨v, gs, gs', hrun, hs', rfl⟩ := h'.last
    obtain ⟨hrel', rfl⟩ := ih hrun (hbefore hsame)
    obtain ⟨hrel'', rfl⟩ := hstep hrel' hs hs' (hafter hsame)
    exact ⟨hrel'', rfl⟩

/-- Where steps are computed, the actions determine the run. -/
theorem Run.unique {step : σ → α → Option (σ × List ε)} {s t u : σ} {as : List α}
    {es fs : List ε} (h : Run (Computes step) s as t es) (h' : Run (Computes step) s as u fs) :
    t = u ∧ es = fs := by
  induction h generalizing u fs with
  | initial =>
    generalize has : ([] : List α) = as at h'
    cases h' with
    | initial => exact ⟨rfl, rfl⟩
    | step => simp at has
  | step _ hs ih =>
    obtain ⟨v, gs, hs', hrun, hs'', rfl⟩ := h'.last
    obtain ⟨rfl, rfl⟩ := ih hrun
    cases hs.symm.trans hs''
    exact ⟨rfl, rfl⟩

/-- A list of actions that can be played has a run; what is computed of it holds of it. -/
theorem exists_run_of_play (step : σ → α → Option (σ × List ε)) (s : σ) (as : List α)
    (p : σ → List ε → Bool) (h : (play step s as).any (fun r => p r.1 r.2) = true) :
    ∃ t es, Run (Computes step) s as t es ∧ p t es = true := by
  obtain ⟨r, hplay, hp⟩ := (Option.any_eq_true _ _).mp h
  exact ⟨r.1, r.2, .of_play hplay, hp⟩

/-- The steps that meet a condition on the state before and the action. -/
def restrict (ok : σ → α → Bool) (step : σ → α → Option (σ × List ε)) (s : σ) (a : α) :
    Option (σ × List ε) :=
  if ok s a then step s a else none

theorem restrict_eq_some {ok : σ → α → Bool} {step : σ → α → Option (σ × List ε)} {s : σ} {a : α}
    {r : σ × List ε} : restrict ok step s a = some r ↔ ok s a = true ∧ step s a = some r := by
  unfold restrict
  split <;> simp_all

/-- **An invariant of the steps that meet a condition holds of every run whose steps all
meet it.** -/
theorem Run.invariant_restrict {ok : σ → α → Bool} {step : σ → α → Option (σ × List ε)} {s t : σ}
    {as : List α} {es : List ε} {I : σ → List ε → Prop} (hinit : I s [])
    (hstep : ∀ {t es a u fs}, I t es → step t a = some (u, fs) → ok t a = true → I u (es ++ fs))
    (h : Run (Computes (restrict ok step)) s as t es) : I t es :=
  h.invariant hinit fun hI hs =>
    hstep hI (restrict_eq_some.mp hs).2 (restrict_eq_some.mp hs).1

/-- A run keeps to a condition, or it leaves it for good. -/
theorem Run.restrict_or {ok : σ → α → Bool} {step : σ → α → Option (σ × List ε)}
    {Q : σ → Prop} {s t : σ} {as : List α} {es : List ε}
    (hleave : ∀ {t a u fs}, step t a = some (u, fs) → ok t a = false → Q u)
    (hkeep : ∀ {t a u fs}, Q t → step t a = some (u, fs) → Q u)
    (h : Run (Computes step) s as t es) : Run (Computes (restrict ok step)) s as t es ∨ Q t := by
  induction h with
  | initial => exact .inl .initial
  | @step as a t u es fs _ hs ih =>
    obtain hrun | hq := ih
    · cases hok : ok t a with
      | true => exact .inl (.step hrun (restrict_eq_some.mpr ⟨hok, hs⟩))
      | false => exact .inr (hleave hs hok)
    · exact .inr (hkeep hq hs)

/-- The steps of one kind come down in rank and the others keep it: a run has no more of the first
than it has come down. -/
theorem Run.length_filter_le {R : σ → α → σ → List ε → Prop} {p : α → Bool} {f : σ → Nat}
    {I : σ → Prop} {s t : σ} {as : List α} {es : List ε} (hinit : I s)
    (hstep : ∀ {t a u fs}, R t a u fs → I t →
      (if p a then f u < f t else f u = f t) ∧ I u)
    (h : Run R s as t es) : (as.filter p).length + f t ≤ f s ∧ I t := by
  induction h with
  | initial => exact ⟨by simp, hinit⟩
  | @step as a t u es fs _ hs ih =>
    obtain ⟨hle, hI⟩ := ih
    obtain ⟨hdown, hI'⟩ := hstep hs hI
    refine ⟨?_, hI'⟩
    rw [List.filter_append, List.length_append]
    cases hown : p a with
    | true =>
      rw [hown, if_pos rfl] at hdown
      rw [List.filter_cons_of_pos hown, List.filter_nil, List.length_singleton]
      omega
    | false =>
      rw [hown, if_neg (by decide)] at hdown
      rw [List.filter_cons_of_neg (by rw [hown]; decide), List.filter_nil, List.length_nil]
      omega

end OmniCare
