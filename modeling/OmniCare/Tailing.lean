import Mathlib.Data.List.TakeWhile
import OmniCare.Runs

/-! # Following a log

A subscriber follows a log that only grows, from some entry on, and stops at the first terminal
event.  What it has given out is right (`Tails`) if it is a prefix of what follows, with nothing
behind a terminal event.  How many events are left up to the terminal one (`left`) does not change
when more is published, which makes it a measure of progress (`Run.count_le`).
-/
namespace OmniCare.Tailing

variable {E : Type*} (terminal : E → Bool)

/-- No event is terminal. -/
def Opens (l : List E) : Prop := ∀ e ∈ l, terminal e = false

/-- Some event is terminal. -/
def Ends (l : List E) : Prop := ∃ e ∈ l, terminal e = true

/-- The last event is the terminal one. -/
def Closed (l : List E) : Prop := ∃ before e, l = before ++ [e] ∧ terminal e = true ∧
  Opens terminal before

/-- **What has been given out of a log**, from an entry on: a prefix of what is there, and nothing
behind a terminal event. -/
structure Tails (seen : Nat) (log given : List E) : Prop where
  inOrder : given <+: log.drop seen
  stops : Opens terminal given ∨ Closed terminal given

/-- The number of events up to the terminal one. -/
def left (l : List E) : Nat := (l.takeWhile fun e => !terminal e).length + 1

variable {terminal} {seen : Nat} {log given l : List E} {e : E}

theorem opens_nil : Opens terminal [] := fun _ he => absurd he List.not_mem_nil

theorem Opens.concat (h : Opens terminal l) (he : terminal e = false) :
    Opens terminal (l ++ [e]) := by
  intro x hx
  rcases List.mem_append.mp hx with hx | hx
  · exact h x hx
  · rw [List.mem_singleton.mp hx]
    exact he

theorem Closed.not_opens (h : Closed terminal l) : ¬Opens terminal l := by
  obtain ⟨before, e, rfl, he, -⟩ := h
  intro hopens
  rw [hopens e (List.mem_append_right _ (List.mem_singleton_self e))] at he
  cases he

theorem Closed.last (h : Closed terminal (l ++ [e])) : terminal e = true := by
  obtain ⟨before, x, heq, hx, -⟩ := h
  rw [List.append_inj_right' heq rfl |> List.singleton_inj.mp]
  exact hx

theorem drop_concat (seen : Nat) (log : List E) (e : E) :
    log.drop seen <+: (log ++ [e]).drop seen := by
  rw [List.drop_append]
  exact List.prefix_append ..

/-- Publishing changes nothing of what has been given out. -/
theorem inOrder_publish (h : given <+: log.drop seen) (e : E) :
    given <+: (log ++ [e]).drop seen := h.trans (drop_concat seen log e)

/-- The next event is given out. -/
theorem inOrder_deliver (h : given <+: log.drop seen) {rest : List E}
    (hnext : log.drop (seen + given.length) = e :: rest) :
    given ++ [e] <+: log.drop seen ∧ log.drop (seen + (given ++ [e]).length) = rest := by
  obtain ⟨after, hafter⟩ := h
  have hrest : after = e :: rest := by
    rw [← List.drop_drop, ← hafter, List.drop_left] at hnext
    exact hnext
  constructor
  · exact ⟨rest, by rw [← hafter, hrest, List.append_assoc]; rfl⟩
  · have hdrop : log.drop (seen + given.length + 1) = (log.drop (seen + given.length)).drop 1 :=
      List.drop_drop.symm
    rw [List.length_append, List.length_singleton, ← Nat.add_assoc, hdrop, hnext]
    rfl

theorem Ends.ne_nil (h : Ends terminal l) : l ≠ [] := by
  rintro rfl
  obtain ⟨e, he, -⟩ := h
  cases he

theorem Ends.append (h : Ends terminal l) (l' : List E) : Ends terminal (l ++ l') := by
  obtain ⟨e, he, hterminal⟩ := h
  exact ⟨e, List.mem_append_left _ he, hterminal⟩

theorem Ends.of_cons (h : Ends terminal (e :: l)) (he : terminal e = false) :
    Ends terminal l := by
  obtain ⟨x, hx, hterminal⟩ := h
  rcases List.mem_cons.mp hx with rfl | hx
  · rw [he] at hterminal
    cases hterminal
  · exact ⟨x, hx, hterminal⟩

/-- While nothing terminal has been given out, the terminal event is still to come. -/
theorem ends_rest (h : given <+: log.drop seen) (hends : Ends terminal (log.drop seen))
    (hopens : Opens terminal given) : Ends terminal (log.drop (seen + given.length)) := by
  obtain ⟨after, hafter⟩ := h
  rw [← List.drop_drop, ← hafter, List.drop_left]
  obtain ⟨e, he, hterminal⟩ := hends
  rw [← hafter] at he
  refine ⟨e, (List.mem_append.mp he).resolve_left fun hgiven => ?_, hterminal⟩
  rw [hopens e hgiven] at hterminal
  cases hterminal

theorem ends_publish (h : Ends terminal (log.drop seen)) (e : E) :
    Ends terminal ((log ++ [e]).drop seen) := by
  obtain ⟨after, hafter⟩ := drop_concat seen log e
  exact hafter ▸ h.append after

theorem left_cons (he : terminal e = false) (l : List E) :
    left terminal (e :: l) = left terminal l + 1 := by
  unfold left
  rw [List.takeWhile_cons_of_pos (by simp [he])]
  rfl

/-- What is published later does not come before the terminal event. -/
theorem left_append (h : Ends terminal l) (l' : List E) :
    left terminal (l ++ l') = left terminal l := by
  unfold left
  obtain ⟨e, he, hterminal⟩ := h
  obtain ⟨a, b, rfl⟩ := List.append_of_mem he
  have hstop : ∀ z, (a ++ e :: z).takeWhile (fun e => !terminal e) =
      a.takeWhile fun e => !terminal e := by
    intro z
    rw [List.takeWhile_append, List.takeWhile_cons_of_neg (by simp [hterminal]), List.append_nil]
    split
    · rename_i hwhole
      exact ((List.takeWhile_prefix _).eq_of_length hwhole).symm
    · rfl
  rw [List.append_assoc, List.cons_append, hstop, hstop]

theorem left_publish (h : Ends terminal (log.drop seen)) (e : E) :
    left terminal ((log ++ [e]).drop seen) = left terminal (log.drop seen) := by
  obtain ⟨after, hafter⟩ := drop_concat seen log e
  rw [← hafter]
  exact left_append h after

theorem left_le (h : Ends terminal l) : left terminal l ≤ l.length := by
  obtain ⟨e, he, hterminal⟩ := h
  have hlt : (l.takeWhile fun e => !terminal e).length ≠ l.length := by
    intro hwhole
    have hall := (List.takeWhile_prefix _).eq_of_length hwhole
    have hmem : e ∈ l.takeWhile fun e => !terminal e := hall.symm ▸ he
    have := List.mem_takeWhile_imp hmem
    rw [hterminal] at this
    cases this
  have hle := (List.takeWhile_prefix (l := l) fun e => !terminal e).length_le
  unfold left
  omega

/-! ## Progress -/

/-- **Where a process's own steps come down in rank and no other step raises it, it takes no more
steps than the rank it starts with.** -/
theorem count_le {σ α ε : Type*} {R : σ → α → σ → List ε → Prop} {I : σ → Prop} {rank : σ → Nat}
    {own : α → Bool} (hkept : ∀ {t a u fs}, I t → R t a u fs → I u)
    (hown : ∀ {t a u fs}, I t → R t a u fs → own a = true → rank u < rank t)
    (hother : ∀ {t a u fs}, I t → R t a u fs → own a = false → rank u ≤ rank t)
    {s t : σ} {as : List α} {es : List ε} (h : Run R s as t es) (hs : I s) :
    I t ∧ (as.filter own).length + rank t ≤ rank s := by
  induction h with
  | initial => exact ⟨hs, Nat.le_of_eq (Nat.zero_add _)⟩
  | @step as a t u es fs _ hstep ih =>
    obtain ⟨ht, hle⟩ := ih
    refine ⟨hkept ht hstep, ?_⟩
    rw [List.filter_append, List.length_append]
    cases ha : own a with
    | true =>
      have := hown ht hstep ha
      rw [List.filter_cons_of_pos ha, List.filter_nil, List.length_singleton]
      omega
    | false =>
      have := hother ht hstep ha
      rw [List.filter_cons_of_neg (by simp [ha]), List.filter_nil, List.length_nil]
      omega

end OmniCare.Tailing
