import OmniCare.Scanning

/-! # What a rewriting leaves in front

A text begins with `p`.  Where a pattern matches at none of the positions of `p`, a rewriting of its
matches leaves `p` where it is (`Spares.sub`).  Most patterns cannot match there because of the
character they begin with (`Begins.spares`, `Begins.spares_line`); what a pattern cannot pass, it
cannot have passed (`Avoids`).
-/
namespace OmniCare

namespace Regex

/-- The pattern matches at no position of `p`, with `rest` behind it. -/
def Spares (r : Regex) (p rest : Text) : Prop :=
  ∀ before here, p = before ++ here → here ≠ [] →
    r.run ⟨⟨before.reverse, here ++ rest⟩, []⟩ = []

namespace Spares

variable {r : Regex} {p rest : Text}

/-- What is found stands behind `p`. -/
theorem le_start (h : r.Spares p rest) {m : Match} (hm : m ∈ r.finditer (p ++ rest)) :
    p.length ≤ m.start := by
  obtain ⟨t, ht, hway⟩ := way_of_mem_finditer hm
  obtain ⟨htext, hbefore⟩ := ht.text_eq
  have hstart : m.start = t.length := by
    rw [Match.start, Cursor.offset, hbefore, List.length_reverse]
  rw [hstart]
  by_contra hlt
  rcases List.append_eq_append_iff.mp htext with ⟨u, hu, -⟩ | ⟨u, hu, hafter⟩
  · rw [hu, List.length_append] at hlt
    omega
  · have hne : u ≠ [] := by
      rintro rfl
      rw [hu, List.append_nil] at hlt
      exact hlt (Nat.le_refl _)
    have hnone := h t u hu hne
    have hcursor : (⟨t.reverse, u ++ rest⟩ : Cursor) = m.from_ := by
      rw [← hbefore, ← hafter]
    rw [hcursor] at hnone
    rw [hnone] at hway
    cases hway

theorem scanFrom (h : r.Spares p rest) (f : Match → Text) :
    ∀ {fuel : Nat} {fresh : Bool} {before here : Text}, p = before ++ here → ∃ rest',
      ((r.scanFrom fuel fresh ⟨before.reverse, here ++ rest⟩).flatMap fun
        | .gap c => [c]
        | .hit m => f m) = here ++ rest' := by
  intro fuel
  induction fuel with
  | zero =>
    intro fresh before here _
    refine ⟨rest, ?_⟩
    rw [Regex.scanFrom, List.flatMap_map]
    exact List.flatMap_singleton' _
  | succ fuel ih =>
    intro fresh before here hp
    cases here with
    | nil => exact ⟨_, (List.nil_append _).symm⟩
    | cons x here =>
      have hnone := h before (x :: here) hp (List.cons_ne_nil _ _)
      have hnext : p = (before ++ [x]) ++ here := by rw [hp, List.append_assoc]; rfl
      obtain ⟨rest', hrest⟩ := @ih true (before ++ [x]) here hnext
      refine ⟨rest', ?_⟩
      rw [List.reverse_append] at hrest
      rw [Regex.scanFrom, hnone]
      exact congrArg (x :: ·) hrest

/-- **A rewriting leaves `p` in front.** -/
theorem sub (h : r.Spares p rest) (f : Match → Text) :
    ∃ rest', r.sub f (p ++ rest) = p ++ rest' :=
  h.scanFrom f (List.nil_append p).symm

end Spares

/-! ## Where a match begins -/

/-- Every match begins with a character of a class. -/
def Begins (r : Regex) (q : Char → Bool) : Prop :=
  ∀ w v, v ∈ r.run w → w.cursor.after.head?.any q = true

namespace Begins

variable {a b r : Regex} {q : Char → Bool} {p rest : Text}

theorem char {q' : Char → Bool} (h : ∀ c, q' c = true → q c = true) :
    (Regex.char q').Begins q := by
  intro w v hv
  obtain ⟨x, hx, hpasses, -⟩ := mem_run_char.mp hv
  rw [hpasses.1]
  exact h x hx

theorem seq (h : a.Begins q) : (Regex.seq a b).Begins q := by
  intro w v hv
  obtain ⟨u, hu, -⟩ := mem_run_seq.mp hv
  exact h w u hu

/-- A condition on the position comes first. -/
theorem behind_assert (f : Cursor → Bool) (h : b.Begins q) :
    (Regex.seq (.assert f) b).Begins q := by
  intro w v hv
  obtain ⟨u, hu, hv⟩ := mem_run_seq.mp hv
  rw [run] at hu
  split at hu
  · rw [← List.mem_singleton.mp hu]
    exact h u v hv
  · cases hu

/-- A repeated class comes first, none or more of it. -/
theorem behind_rep {q' : Char → Bool} {greedy : Bool} {lo : Nat} {hi : Option Nat}
    (hq' : ∀ c, q' c = true → q c = true) (h : b.Begins q) :
    (Regex.seq (.rep greedy lo hi (.char q')) b).Begins q := by
  intro w v hv
  obtain ⟨u, hu, hv⟩ := mem_run_seq.mp hv
  obtain ⟨t, ht, hpasses, -⟩ := mem_run_rep_char.mp hu
  cases t with
  | nil =>
    rw [← hpasses.eq]
    exact h u v hv
  | cons x t =>
    rw [hpasses.1]
    exact hq' x (Bool.and_eq_true_iff.mp ht.all).1

/-- At least one character of a class. -/
theorem rep {q' : Char → Bool} {greedy : Bool} {lo : Nat} {hi : Option Nat} (hlo : 0 < lo)
    (hq' : ∀ c, q' c = true → q c = true) : (Regex.rep greedy lo hi (.char q')).Begins q := by
  intro w v hv
  obtain ⟨t, ht, hpasses, -⟩ := mem_run_rep_char.mp hv
  cases t with
  | nil => exact absurd ht.atLeast (Nat.not_le_of_lt hlo)
  | cons x t =>
    rw [hpasses.1]
    exact hq' x (Bool.and_eq_true_iff.mp ht.all).1

theorem group (i : Nat) (h : r.Begins q) : (Regex.group i r).Begins q := by
  intro w v hv
  obtain ⟨u, hu, -⟩ := List.mem_map.mp hv
  exact h w u hu

theorem lit {s : Text} (hs : s.head?.any q = true) : (Regex.lit s).Begins q := by
  match s, hs with
  | [c], hs => exact char fun d hd => eq_of_beq hd ▸ hs
  | c :: d :: s, hs => exact (char fun d hd => eq_of_beq hd ▸ hs).seq

/-- A pattern that begins with a class spares a text without it. -/
theorem spares (h : r.Begins q) (hp : p.any q = false) : r.Spares p rest := by
  intro before here hsplit hne
  rw [List.eq_nil_iff_forall_not_mem]
  intro v hv
  have hhead := h _ _ hv
  cases here with
  | nil => exact hne rfl
  | cons x here =>
    have hx : q x = true := hhead
    rw [hsplit, List.any_append, List.any_cons, hx, Bool.true_or, Bool.or_true] at hp
    cases hp

/-- A pattern of a line that begins with a class spares one line that does not. -/
theorem spares_line (h : r.Begins q) (hhead : p.head?.any q = false)
    (hline : p.any (· == '\n') = false) : (Regex.seq .lineStart r).Spares p rest := by
  intro before here hsplit hne
  rw [List.eq_nil_iff_forall_not_mem]
  intro v hv
  obtain ⟨u, hu, hv⟩ := mem_run_seq.mp hv
  rw [lineStart, run] at hu
  split at hu
  · rename_i hstart
    obtain rfl := List.mem_singleton.mp hu
    have hclass := h _ _ hv
    dsimp only at hclass
    cases here with
    | nil => exact hne rfl
    | cons x here =>
      rcases List.eq_nil_or_concat before with rfl | ⟨before, c, rfl⟩
      · rw [hsplit] at hhead
        have hx : q x = true := hclass
        rw [List.nil_append, List.head?_cons, Option.any_some, hx] at hhead
        cases hhead
      · -- behind the first character of the line
        have hc : (c == '\n') = true := by simpa using hstart
        rw [hsplit] at hline
        simp [hc] at hline
  · cases hu

end Begins

/-! ## What a match cannot pass -/

/-- No match passes the character. -/
def Avoids (r : Regex) (x : Char) : Prop :=
  ∀ w v, v ∈ r.run w → ∃ t, w.cursor.Passes v.cursor t ∧ x ∉ t

namespace Avoids

variable {a b r : Regex} {x : Char}

theorem char {q : Char → Bool} (h : q x = false) : (Regex.char q).Avoids x := by
  intro w v hv
  obtain ⟨y, hy, hpasses, -⟩ := mem_run_char.mp hv
  refine ⟨[y], hpasses, fun hmem => ?_⟩
  rw [List.mem_singleton.mp hmem, hy] at h
  cases h

theorem assert (f : Cursor → Bool) : (Regex.assert f).Avoids x := by
  intro w v hv
  rw [run] at hv
  split at hv
  · rw [List.mem_singleton.mp hv]
    exact ⟨[], .refl _, List.not_mem_nil⟩
  · cases hv

theorem seq (ha : a.Avoids x) (hb : b.Avoids x) : (Regex.seq a b).Avoids x := by
  intro w v hv
  obtain ⟨u, hu, hv⟩ := mem_run_seq.mp hv
  obtain ⟨t, ht, hx⟩ := ha w u hu
  obtain ⟨t', ht', hx'⟩ := hb u v hv
  exact ⟨_, ht.trans ht', fun hmem => (List.mem_append.mp hmem).elim hx hx'⟩

theorem alt (ha : a.Avoids x) (hb : b.Avoids x) : (Regex.alt a b).Avoids x := fun w v hv =>
  (List.mem_append.mp hv).elim (ha w v) (hb w v)

theorem rep {greedy : Bool} {lo : Nat} {hi : Option Nat} (h : r.Avoids x) :
    (Regex.rep greedy lo hi r).Avoids x := by
  intro w v hv
  refine repeatRun_keeps (P := fun v => ∃ t, w.cursor.Passes v.cursor t ∧ x ∉ t) ?_
    ⟨[], .refl _, List.not_mem_nil⟩ hv
  rintro u v ⟨t, ht, hx⟩ hv
  obtain ⟨t', ht', hx'⟩ := h u v hv
  exact ⟨_, ht.trans ht', fun hmem => (List.mem_append.mp hmem).elim hx hx'⟩

theorem lit {s : Text} (h : s.all (fun c => !(x == c)) = true) : (Regex.lit s).Avoids x := by
  induction s with
  | nil =>
    intro w v hv
    rw [List.mem_singleton.mp hv]
    exact ⟨[], .refl _, List.not_mem_nil⟩
  | cons c s ih =>
    rw [List.all_cons, Bool.and_eq_true] at h
    have hc : (Regex.char (· == c)).Avoids x := char (by simpa using h.1)
    cases s with
    | nil => exact hc
    | cons d s => exact hc.seq (ih h.2)

theorem litI {s : Text} (h : s.all (fun c => !sameLetter c x) = true) :
    (Regex.litI s).Avoids x := by
  induction s with
  | nil =>
    intro w v hv
    rw [List.mem_singleton.mp hv]
    exact ⟨[], .refl _, List.not_mem_nil⟩
  | cons c s ih =>
    rw [List.all_cons, Bool.and_eq_true] at h
    have hc : (Regex.char (sameLetter c)).Avoids x := char (by simpa using h.1)
    cases s with
    | nil => exact hc
    | cons d s => exact hc.seq (ih h.2)

end Avoids

/-- What holds wherever the second of two patterns ends holds where both do. -/
theorem ends_seq {a b : Regex} {P : Way → Prop} (h : ∀ w v, v ∈ b.run w → P v) :
    ∀ w v, v ∈ (Regex.seq a b).run w → P v := by
  intro w v hv
  obtain ⟨u, -, hv⟩ := mem_run_seq.mp hv
  exact h u v hv

end Regex

/-! ## Trimming, and replacing a literal text -/

/-- Trimming stops at a character that is not trimmed. -/
theorem stripBy_append_cons {p : Char → Bool} {a b : Text} {c : Char}
    (hfirst : (a ++ [c]).head?.all (fun x => !p x) = true) (hc : p c = false) :
    ∃ rest, Text.stripBy p (a ++ c :: b) = a ++ c :: rest ∧ rest <+: b := by
  have hends : Text.stripBy p (a ++ [c]) = a ++ [c] := by
    refine Text.stripBy_of_ends (fun x hx => ?_) (fun x hx => ?_)
    · rw [Option.mem_def.mp hx] at hfirst
      simpa using hfirst
    · rw [List.getLast?_concat] at hx
      cases hx
      exact hc
  refine ⟨Text.rstripBy p b, ?_, Text.rstripBy_prefix p b⟩
  rw [List.append_cons, Text.stripBy_append (by rw [List.getLast?_concat]; simp [hc]), hends,
    List.append_assoc, List.singleton_append]

/-- What begins and ends with no space stays in front of a text that is trimmed. -/
theorem strip_front {p rest : Text} (hhead : p.head?.any isSpace = false)
    (hlast : p.getLast?.any isSpace = false) (hne : p ≠ []) :
    ∃ rest', Text.strip (p ++ rest) = p ++ rest' ∧ rest' <+: rest := by
  rcases List.eq_nil_or_concat p with rfl | ⟨a, c, rfl⟩
  · exact absurd rfl hne
  · rw [List.concat_eq_append] at hhead hlast ⊢
    rw [List.getLast?_concat] at hlast
    have hfirst : (a ++ [c]).head?.all (fun x => !isSpace x) = true := by
      cases hfirst : (a ++ [c]).head? with
      | none => rfl
      | some x =>
        rw [hfirst] at hhead
        exact Bool.not_eq_true' _ |>.mpr hhead
    obtain ⟨rest', hstrip, hprefix⟩ := stripBy_append_cons (b := rest) hfirst hlast
    exact ⟨rest', by rw [List.append_assoc, List.append_assoc]; exact hstrip, hprefix⟩

/-- A literal text that begins with a character that `p` does not have is replaced behind `p`. -/
theorem replace_front {p old : Text} (new rest : Text) {c : Char} (hold : old.head? = some c)
    (hp : c ∉ p) : Text.replace (p ++ rest) old new = p ++ Text.replace rest old new := by
  induction p with
  | nil => rfl
  | cons x p ih =>
    rw [List.mem_cons, not_or] at hp
    have hnot : Text.startsWith (x :: (p ++ rest)) old = false := by
      cases old with
      | nil => cases hold
      | cons y old =>
        cases hold
        simp [Text.startsWith, Text.dropPrefix?, hp.1]
    have hrest := ih hp.2
    unfold Text.replace at hrest ⊢
    rw [List.cons_append, Text.replaceFrom, hnot, if_neg Bool.false_ne_true, hrest]
    rfl

/-- A text is found in what is written around it. -/
theorem contains_append (before sub after : Text) :
    Text.contains (before ++ sub ++ after) sub = true := by
  have here : ∀ s : Text, Text.startsWith s sub = true → Text.contains s sub = true := by
    intro s hs
    cases s with
    | nil =>
      cases sub with
      | nil => rfl
      | cons => cases hs
    | cons c s =>
      rw [Text.contains, Text.find?, if_pos hs]
      rfl
  induction before with
  | nil =>
    refine here _ ?_
    rw [List.nil_append, Text.startsWith, Text.dropPrefix?_append]
    rfl
  | cons c before ih =>
    rw [List.cons_append, List.cons_append, Text.contains, Text.find?]
    split
    · rfl
    · rw [Option.isSome_map]
      exact ih

end OmniCare
