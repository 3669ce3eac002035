import OmniCare.Replacing
import OmniCare.Response
import OmniCare.Spans

/-! # Markdown stripped again

`strip_markdown` passes over a text once, with one substitution after another, and what it takes
off may have hidden a mark: of `- - item` it leaves `- item`.  Every substitution leaves less than
it takes, if a hash counts twice (a heading may gain a full stop and keep its length).  So the text
is left as it is exactly if it has no mark (`stripMarkdown_eq_iff`), and **stripped again and again
it comes to such a text** (`markdown_stripped_in_the_end`).
-/
namespace OmniCare

open Regex

/-- The substitutions of `strip_markdown` that come before `strip`. -/
def markSubstitutions : List (Regex × (Match → Text)) :=
  [(mdFence, fun _ => []), (mdRule, fun _ => []), (mdLink, (·.group 1)),
    (mdHeading, fun m => asSentence (m.group 1)), (mdBullet, fun _ => []),
    (mdOrdered, fun _ => []), (mdBold, (·.group 1)), (mdItalic, (·.group 1)),
    (mdCode, (·.group 1)), (blankRun, fun _ => [' ']), (.atLeast 3 (.lit "\n"), fun _ => "\n\n")]

/-- Nothing in a text is left to take off: no mark, no run of blanks or blank lines, and no white
space at an end. -/
def Speakable (t : Text) : Prop :=
  (∀ s ∈ markSubstitutions, s.1.found t = false) ∧ Text.strip t = t

/-- A line begins with the marker of a heading, of a bullet or of an ordered list. -/
def startsMarked (line : Text) : Bool :=
  [mdHeading, mdBullet, mdOrdered].any fun r => (r.matchStart line).isSome

/-! ## What a text weighs -/

/-- The characters of a text, its hashes counted twice. -/
def weight (t : Text) : Nat := t.length + t.count '#'

section Weight
variable {a b s t g : Text}

@[simp] theorem weight_append (a b : Text) : weight (a ++ b) = weight a + weight b := by
  simp only [weight, List.length_append, List.count_append]
  omega

theorem length_le_weight (t : Text) : t.length ≤ weight t := Nat.le_add_right _ _

theorem weight_le (h : s.Sublist t) : weight s ≤ weight t :=
  Nat.add_le_add h.length_le (h.count_le '#')

theorem strip_sublist (t : Text) : (Text.strip t).Sublist t := by
  have hright : ∀ t : Text, (t.reverse.dropWhile isSpace).reverse.Sublist t := by
    intro t
    have hsublist := (List.dropWhile_sublist (l := t.reverse) isSpace).reverse
    rwa [List.reverse_reverse] at hsublist
  exact (hright _).trans (List.dropWhile_sublist isSpace)

theorem shrinks_strip : Shrinks weight Text.strip := by
  intro t
  have hsub := strip_sublist t
  rcases Nat.lt_or_ge (Text.strip t).length t.length with hlt | hge
  · exact .inr (Nat.add_lt_add_of_lt_of_le hlt (hsub.count_le '#'))
  · exact .inl (hsub.eq_of_length_le hge)

end Weight

/-! ## What a substitution leaves -/

/-- What is put in the place of a match weighs less. -/
def Lightens (r : Regex) (f : Match → Text) : Prop :=
  ∀ (c : Cursor) (v : Way) (t : Text), r.Takes ⟨c, []⟩ v → c.Passes v.cursor t →
    weight (f ⟨c, v⟩) < weight t

section Lightens
variable {r : Regex} {f : Match → Text}

/-- **A substitution that lightens** changes a text exactly if it finds something. -/
theorem Lightens.sub (h : Lightens r f) (s : Text) :
    (r.found s = false ∧ r.sub f s = s) ∨ (r.found s = true ∧ weight (r.sub f s) < weight s) := by
  refine (sub_cases r f s).imp_right (And.imp_right fun hchain => ?_)
  have hone : ∀ {s s' : Text}, r.Rewrites f s s' → weight s' < weight s := by
    intro s s' hrewrites
    cases hrewrites with
    | intro x takes passes =>
      have hless := h _ _ _ takes passes
      simp only [weight_append]
      omega
  generalize r.sub f s = out at hchain ⊢
  induction hchain with
  | single hstep => exact hone hstep
  | tail _ hstep ih => exact Nat.lt_trans (hone hstep) ih

theorem Lightens.shrinks (h : Lightens r f) : Shrinks weight (r.sub f) := fun s =>
  (h.sub s).imp And.right And.right

theorem Lightens.sub_eq_iff (h : Lightens r f) {s : Text} : r.sub f s = s ↔ r.found s = false := by
  rcases h.sub s with ⟨hnone, hsame⟩ | ⟨hfound, hlt⟩
  · exact iff_of_true hsame hnone
  · refine iff_of_false (fun hsame => ?_) (by rw [hfound]; decide)
    rw [hsame] at hlt
    exact absurd hlt (Nat.lt_irrefl _)

/-- A text that is shorter than every match. -/
theorem lightens_text {new : Text} (h : weight new < r.least) : Lightens r fun _ => new :=
  fun _ _ _ takes passes => Nat.lt_of_lt_of_le h
    (Nat.le_trans (takes.least_le passes) (length_le_weight _))

/-- What is captured between two literal texts. -/
theorem lightens_enclosed {a b : Text} {r : Regex} (h : 0 < a.length + b.length) :
    Lightens (cat [lit a, group 1 r, lit b]) (·.group 1) := by
  intro c v t takes passes
  rw [← passes.upTo, takes.enclosed.upTo, weight_append, weight_append]
  show weight (v.group 1) < _
  have ha := length_le_weight a
  have hb := length_le_weight b
  omega

end Lightens

theorem lightens_link : Lightens mdLink (·.group 1) := by
  intro c v t takes passes
  cases takes with
  | @seq _ _ _ u _ hopen htakes =>
  obtain ⟨w, -, htext, hbehind⟩ := htakes.group_seq rfl
  obtain ⟨z, hz⟩ := hbehind.passes
  rw [← passes.upTo, ((takes_lit_iff.mp hopen).1.trans (htext.trans hz)).upTo, weight_append,
    weight_append]
  show weight (v.group 1) < _
  have hbracket : weight "[" = 1 := rfl
  omega

theorem lightens_italic : Lightens mdItalic (·.group 1) := by
  intro c v t takes passes
  cases takes with
  | seq hstart htakes =>
  cases hstart with
  | assert hstart =>
  cases htakes with
  | @seq _ _ _ u _ hopen htakes =>
  obtain ⟨x, -, hopen, -⟩ := takes_char_iff.mp hopen
  obtain ⟨w, -, htext, hbehind⟩ := htakes.group_seq rfl
  obtain ⟨z, hz⟩ := hbehind.passes
  rw [← passes.upTo, (hopen.trans (htext.trans hz)).upTo, weight_append, weight_append]
  show weight (v.group 1) < _
  have hmark := length_le_weight [x]
  rw [List.length_singleton] at hmark
  omega

/-- A heading loses a hash and gains a full stop at most. -/
theorem weight_asSentence (heading : Text) : weight (asSentence heading) ≤ weight heading + 1 := by
  have hstrip := weight_le (strip_sublist heading)
  have hstop : weight ['.'] = 1 := rfl
  rw [asSentence]
  split
  · omega
  · rw [weight_append]
    omega

theorem lightens_heading : Lightens mdHeading fun m => asSentence (m.group 1) := by
  intro c v t takes passes
  cases takes with
  | seq hstart htakes =>
  cases hstart with
  | assert hstart =>
  cases htakes with
  | @seq _ _ _ u₁ _ hblanks htakes =>
  cases htakes with
  | @seq _ _ _ u₂ _ hhashes htakes =>
  cases htakes with
  | @seq _ _ _ u₃ _ hgap htakes =>
  obtain ⟨b, -, hb, -⟩ := takes_rep_char_iff.mp hblanks
  obtain ⟨h, hh, hhashes, -⟩ := takes_rep_char_iff.mp hhashes
  obtain ⟨g, -, hgap, -⟩ := takes_rep_char_iff.mp hgap
  obtain ⟨w, -, htext, hbehind⟩ := htakes.group_seq rfl
  obtain ⟨z, hz⟩ := hbehind.passes
  rw [← passes.upTo, (hb.trans (hhashes.trans (hgap.trans (htext.trans hz)))).upTo]
  simp only [weight_append]
  have hsentence := weight_asSentence (v.group 1)
  have htwo : 2 ≤ weight h := by
    have hcount : h.count '#' = h.length :=
      List.count_eq_length.mpr fun x hx => (eq_of_beq (List.all_eq_true.mp hh.all x hx)).symm
    have hone := hh.atLeast
    rw [weight, hcount]
    omega
  show weight (asSentence (v.group 1)) < _
  omega

theorem lightens_of_mem : ∀ s ∈ markSubstitutions, Lightens s.1 s.2 := by
  simp only [markSubstitutions, List.forall_mem_cons]
  exact ⟨lightens_text (by decide), lightens_text (by decide), lightens_link, lightens_heading,
    lightens_text (by decide), lightens_text (by decide), lightens_enclosed (by decide),
    lightens_italic, lightens_enclosed (by decide), lightens_text (by decide),
    lightens_text (by decide), by simp⟩

/-! ## The whole pass -/

/-- The functions that are applied one after another. -/
def markPasses : List (Text → Text) := markSubstitutions.map fun s => s.1.sub s.2

theorem stripMarkdown_eq (t : Text) :
    stripMarkdown t = Text.strip (markPasses.foldl (fun t pass => pass t) t) := by
  rw [markPasses, List.foldl_map, stripMarkdown, markSubstitutions]
  simp only [List.foldl_cons, List.foldl_nil]
  rfl

theorem shrinks_of_mem : ∀ pass ∈ markPasses, Shrinks weight pass := by
  intro pass hpass
  obtain ⟨s, hs, rfl⟩ := List.mem_map.mp hpass
  exact (lightens_of_mem s hs).shrinks

/-- No pass changes a text exactly if no mark is found in it. -/
theorem passes_eq_iff (t : Text) : (∀ pass ∈ markPasses, pass t = t) ↔
    ∀ s ∈ markSubstitutions, s.1.found t = false := by
  rw [markPasses, List.forall_mem_map]
  exact forall₂_congr fun s hs => (lightens_of_mem s hs).sub_eq_iff

theorem shrinks_passes : ∀ pass ∈ markPasses ++ [Text.strip], Shrinks weight pass :=
  List.forall_mem_append.mpr ⟨shrinks_of_mem, by simpa using shrinks_strip⟩

theorem stripMarkdown_cases (t : Text) :
    (stripMarkdown t = t ∧ Speakable t) ∨
      (weight (stripMarkdown t) < weight t ∧ ¬ Speakable t) := by
  have hcases := Shrinks.foldl shrinks_passes t
  have hspeakable : (∀ pass ∈ markPasses ++ [Text.strip], pass t = t) ↔ Speakable t := by
    rw [List.forall_mem_append, passes_eq_iff, List.forall_mem_singleton]
    rfl
  rwa [hspeakable, List.foldl_append, List.foldl_cons, List.foldl_nil, ← stripMarkdown_eq]
    at hcases

/-- **A text is left as it is exactly if it has no mark.** -/
theorem stripMarkdown_eq_iff (t : Text) : stripMarkdown t = t ↔ Speakable t := by
  rcases stripMarkdown_cases t with ⟨hsame, hspeakable⟩ | ⟨hlt, hmarked⟩
  · exact iff_of_true hsame hspeakable
  · refine iff_of_false (fun hsame => ?_) hmarked
    rw [hsame] at hlt
    exact absurd hlt (Nat.lt_irrefl _)

theorem shrinks_stripMarkdown : Shrinks weight stripMarkdown := fun t =>
  (stripMarkdown_cases t).imp And.left And.left

/-! ## Lines -/

/-- A line stands at the start of the text or behind a line feed, and at the end or before one. -/
theorem exists_of_mem_splitOn {sep : Char} {t line : Text} (h : line ∈ Text.splitOn sep t) :
    ∃ x y, t = x ++ (line ++ y) ∧ (x = [] ∨ x.getLast? = some sep) ∧
      (y = [] ∨ y.head? = some sep) := by
  obtain ⟨before, after, hlines⟩ := List.append_of_mem h
  have htext := Text.join_splitOn sep t
  rw [hlines] at htext
  obtain ⟨y, hy, hbehind⟩ : ∃ y, Text.join [sep] (line :: after) = line ++ y ∧
      (y = [] ∨ y.head? = some sep) := by
    by_cases hafter : after = []
    · exact ⟨[], by simp [hafter, Text.join], .inl rfl⟩
    · exact ⟨sep :: Text.join [sep] after, by simp [Text.join_cons _ _ hafter], .inr rfl⟩
  by_cases hbefore : before = []
  · rw [hbefore, List.nil_append, hy] at htext
    exact ⟨[], y, htext.symm, .inl rfl, hbehind⟩
  · rw [Text.join_append [sep] hbefore (List.cons_ne_nil line after), hy] at htext
    exact ⟨Text.join [sep] before ++ [sep], y, htext.symm, .inr List.getLast?_concat, hbehind⟩

/-- What holds in a line holds in the text. -/
def Linewise (p : Cursor → Bool) : Prop :=
  ∀ x y : Text, (x = [] ∨ x.getLast? = some '\n') → (y = [] ∨ y.head? = some '\n') →
    ∀ c, p c = true → p (c.within x y) = true

theorem linewise_lineStart : Linewise fun c => c.before.head?.all (· == '\n') := by
  intro x y hx _ c hc
  show (c.before ++ x.reverse).head?.all (· == '\n') = true
  cases hbefore : c.before with
  | nil =>
    rw [List.nil_append, List.head?_reverse]
    rcases hx with rfl | hx
    · rfl
    · rw [hx]
      rfl
  | cons d before =>
    dsimp only at hc
    rwa [hbefore] at hc

theorem linewise_lineEnd : Linewise fun c => c.after.head?.all (· == '\n') := by
  intro x y _ hy c hc
  show (c.after ++ y).head?.all (· == '\n') = true
  cases hafter : c.after with
  | nil =>
    rw [List.nil_append]
    rcases hy with rfl | hy
    · rfl
    · rw [hy]
      rfl
  | cons d after =>
    dsimp only at hc
    rwa [hafter] at hc

/-- A pattern that matches at the start of a line is found in the text. -/
theorem found_of_line {r : Regex} {t line : Text} (hr : r.Asserts Linewise)
    (hline : line ∈ Text.splitOn '\n' t) (h : (r.matchStart line).isSome = true) :
    r.found t = true := by
  obtain ⟨x, y, rfl, hx, hy⟩ := exists_of_mem_splitOn hline
  refine found_within (hr.imp fun p hp => hp x y hx hy) ?_
  obtain ⟨m, hm⟩ := Option.isSome_iff_exists.mp h
  exact found_iff.mpr ⟨[], line, m.way, rfl, mem_run_iff.mp (matchAt_mem hm)⟩

theorem not_startsMarked {t line : Text} (h : Speakable t) (hline : line ∈ Text.splitOn '\n' t) :
    startsMarked line = false := by
  have hmarkers : ∀ r ∈ [mdHeading, mdBullet, mdOrdered], r.found t = false ∧
      r.Asserts Linewise := by
    have hnone := h.1
    simp only [markSubstitutions, List.forall_mem_cons] at hnone ⊢
    obtain ⟨-, -, -, hheading, hbullet, hordered, -⟩ := hnone
    refine ⟨⟨hheading, ?_⟩, ⟨hbullet, ?_⟩, ⟨hordered, ?_⟩, by simp⟩
    · exact ⟨linewise_lineStart, trivial, trivial, trivial, trivial, trivial, trivial, trivial,
        linewise_lineEnd⟩
    · exact ⟨linewise_lineStart, trivial, trivial, trivial⟩
    · exact ⟨linewise_lineStart, trivial, trivial, trivial, trivial⟩
  rw [startsMarked, List.any_eq_false]
  intro r hr hmatch
  obtain ⟨hnone, hlinewise⟩ := hmarkers r hr
  rw [found_of_line hlinewise hline hmatch] at hnone
  cases hnone

end OmniCare
