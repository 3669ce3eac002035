import Mathlib.Data.List.Forall2
import OmniCare.Preferring

/-! # The first place

`s.find` and `re.search` go from left to right to the first place where something stands.
`firstTail` is what stands behind that place; what is recognised at a place may depend on the text
ahead and on whether a word character stands before it.  A text in which nothing begins is passed
over (`firstTail_skip`), and where nothing begins in one text and ends in the next, the first text
is searched before the second (`firstTail_append`).
-/
namespace OmniCare

variable {f : Bool → Text → Option Text} {x y : Text} {inWord : Bool}

/-- What stands behind the first place where `f` recognises something. -/
def firstTail (f : Bool → Text → Option Text) : Bool → Text → Option Text
  | _, [] => none
  | inWord, c :: s => (f inWord (c :: s)).or (firstTail f (isWord c) s)

/-- Whether a word character stands before the end of a text. -/
def endsInWord (inWord : Bool) (s : Text) : Bool := (s.getLast?.map isWord).getD inWord

theorem endsInWord_cons (c : Char) (s : Text) :
    endsInWord inWord (c :: s) = endsInWord (isWord c) s := by
  cases s with
  | nil => rfl
  | cons d s => rw [endsInWord, endsInWord, List.getLast?_cons_cons]; rfl

/-- A text in which nothing begins is passed over. -/
theorem firstTail_skip (h : ∀ c ∈ x, ∀ inWord s, f inWord (c :: s) = none) :
    firstTail f inWord (x ++ y) = firstTail f (endsInWord inWord x) y := by
  induction x generalizing inWord with
  | nil => rfl
  | cons c x ih =>
    obtain ⟨hc, hx⟩ := List.forall_mem_cons.mp h
    rw [List.cons_append, firstTail, hc, Option.none_or, ih hx, endsInWord_cons]

/-- **What begins in the first of two texts ends there**: it is searched first. -/
theorem firstTail_append {g : Text → Text}
    (h : ∀ a b, x = a ++ b → b ≠ [] → ∀ inWord, f inWord (b ++ y) = (f inWord b).map g) :
    firstTail f inWord (x ++ y) =
      ((firstTail f inWord x).map g).or (firstTail f (endsInWord inWord x) y) := by
  induction x generalizing inWord with
  | nil => rfl
  | cons c x ih =>
    have hhere : f inWord (c :: (x ++ y)) = (f inWord (c :: x)).map g :=
      h [] (c :: x) rfl (List.cons_ne_nil _ _) inWord
    have hmore : firstTail f (isWord c) (x ++ y) = ((firstTail f (isWord c) x).map g).or
        (firstTail f (endsInWord (isWord c) x) y) :=
      ih fun a b hx => h (c :: a) b (by rw [hx]; rfl)
    rw [List.cons_append, firstTail, firstTail, hhere, hmore, endsInWord_cons]
    cases f inWord (c :: x) <;> rfl

/-- What is recognised the same behind a word character is found the same. -/
theorem firstTail_flag (h : ∀ inWord, f inWord y = f false y) :
    firstTail f inWord y = firstTail f false y := by
  cases y with
  | nil => rfl
  | cons c y => rw [firstTail, firstTail, h]

/-- **Between two texts** a third, in which something begins with the first character only. -/
theorem firstTail_between {c : Char} {k : Text}
    (hx : ∀ a b, x = a ++ b → b ≠ [] → ∀ inWord,
      f inWord (b ++ c :: (k ++ y)) = (f inWord b).map (· ++ c :: (k ++ y)))
    (hk : ∀ d ∈ k, ∀ inWord s, f inWord (d :: s) = none) (hy : ∀ inWord, f inWord y = f false y) :
    firstTail f inWord (x ++ c :: (k ++ y)) =
      ((firstTail f inWord x).map (· ++ c :: (k ++ y))).or
        ((f (endsInWord inWord x) (c :: (k ++ y))).or (firstTail f false y)) := by
  rw [firstTail_append hx, firstTail, firstTail_skip hk, firstTail_flag hy]

theorem firstTail_map {g : Text → Text} (x : Text) :
    firstTail (fun inWord s => (f inWord s).map g) inWord x = (firstTail f inWord x).map g := by
  induction x generalizing inWord with
  | nil => rfl
  | cons c x ih =>
    rw [firstTail, firstTail, ih]
    cases f inWord (c :: x) <;> rfl

/-- Where less is recognised, less is found. -/
theorem firstTail_eq_none {g : Bool → Text → Option Text}
    (h : ∀ inWord s, f inWord s = none → g inWord s = none) (hx : firstTail f inWord x = none) :
    firstTail g inWord x = none := by
  induction x generalizing inWord with
  | nil => rfl
  | cons c x ih =>
    rw [firstTail, Option.or_eq_none_iff] at hx ⊢
    exact ⟨h _ _ hx.1, ih hx.2⟩

/-- What is found is recognised at some place. -/
theorem exists_of_firstTail {t : Text} (h : firstTail f inWord x = some t) :
    ∃ inWord s, s <:+ x ∧ f inWord s = some t := by
  induction x generalizing inWord with
  | nil => cases h
  | cons c x ih =>
    rw [firstTail, Option.or_eq_some_iff] at h
    rcases h with h | ⟨-, h⟩
    · exact ⟨_, _, List.suffix_rfl, h⟩
    · obtain ⟨inWord, s, hs, ht⟩ := ih h
      exact ⟨inWord, s, hs.trans (List.suffix_cons c x), ht⟩

/-- What is found ends the text that is searched. -/
theorem firstTail_suffix (hf : ∀ inWord s t, f inWord s = some t → t <:+ s) {t : Text}
    (h : firstTail f inWord x = some t) : t <:+ x := by
  obtain ⟨_, s, hs, ht⟩ := exists_of_firstTail h
  exact (hf _ _ _ ht).trans hs

/-! ## Literal texts -/

/-- What is left of a text behind a literal one, as far as `same` tells characters apart. -/
def dropBy (same : Char → Char → Bool) : Text → Text → Option Text
  | [], s => some s
  | _ :: _, [] => none
  | a :: p, b :: s => if same a b then dropBy same p s else none

section Literals

variable {same : Char → Char → Bool} {a c : Char} {p b s rest : Text}

@[simp] theorem dropBy_nil (same : Char → Char → Bool) (s : Text) : dropBy same [] s = some s := by
  cases s <;> rfl

theorem dropBy_cons (same : Char → Char → Bool) (a c : Char) (p s : Text) :
    dropBy same (a :: p) (c :: s) = if same a c then dropBy same p s else none := rfl

theorem dropBy_of_head (h : same a c = false) : dropBy same (a :: p) (c :: s) = none := by
  rw [dropBy, h, if_neg (by decide)]

/-- A text begins with itself. -/
theorem dropBy_self {q : Text} (h : ∀ a ∈ p, same a a = true) :
    dropBy same (p ++ q) (p ++ s) = dropBy same q s := by
  induction p with
  | nil => rfl
  | cons a p ih =>
    obtain ⟨ha, hp⟩ := List.forall_mem_cons.mp h
    rw [List.cons_append, List.cons_append, dropBy, if_pos ha, ih hp]

/-- A text does not begin with more than it begins with. -/
theorem dropBy_append_eq_none {q : Text} (h : dropBy same p s = none) :
    dropBy same (p ++ q) s = none := by
  induction p generalizing s with
  | nil =>
    rw [dropBy_nil] at h
    cases h
  | cons a p ih =>
    cases s with
    | nil => rfl
    | cons c s =>
      rw [dropBy_cons] at h
      rw [List.cons_append, dropBy_cons]
      split
      · rename_i hsame
        rw [if_pos hsame] at h
        exact ih h
      · rfl

/-- An occurrence that has begun does not go on into a text whose first character has no place in
it but the first. -/
theorem dropBy_append (hb : b ≠ []) (hc : ∀ a ∈ p.tail, same a c = false) :
    dropBy same p (b ++ c :: s) = (dropBy same p b).map (· ++ c :: s) := by
  have inside : ∀ p b : Text, (∀ a ∈ p, same a c = false) →
      dropBy same p (b ++ c :: s) = (dropBy same p b).map (· ++ c :: s) := by
    intro p
    induction p with
    | nil =>
      intro b _
      cases b <;> rfl
    | cons a p ih =>
      intro b hp
      obtain ⟨ha, hp'⟩ := List.forall_mem_cons.mp hp
      cases b with
      | nil => exact dropBy_of_head ha
      | cons d b =>
        rw [List.cons_append, dropBy, dropBy]
        split
        · exact ih b hp'
        · rfl
  cases p with
  | nil => rfl
  | cons a p =>
    cases b with
    | nil => exact absurd rfl hb
    | cons d b =>
      rw [List.cons_append, dropBy, dropBy]
      split
      · exact inside p b hc
      · rfl

/-- An occurrence does not end with a character that its last one is not the same as. -/
theorem dropBy_concat (hp : p ≠ []) (hc : ∀ a ∈ p.getLast?, same a c = false) :
    dropBy same p (b ++ [c]) = (dropBy same p b).map (· ++ [c]) := by
  induction p generalizing b with
  | nil => exact absurd rfl hp
  | cons a p ih =>
    cases b with
    | nil =>
      cases p with
      | nil => exact dropBy_of_head (hc a rfl)
      | cons d p =>
        show (if same a c then dropBy same (d :: p) [] else none) = none
        split <;> rfl
    | cons d b =>
      rw [List.cons_append, dropBy, dropBy]
      split
      · cases p with
        | nil => rw [dropBy_nil, dropBy_nil, Option.map_some]
        | cons e p =>
          rw [List.getLast?_cons_cons] at hc
          exact ih (List.cons_ne_nil e p) hc
      · rfl

/-- The literal text stands at the beginning, character for character. -/
theorem dropBy_eq_some_iff :
    dropBy same p s = some rest ↔ ∃ t, s = t ++ rest ∧ List.Forall₂ (same · · = true) p t := by
  induction p generalizing s with
  | nil =>
    rw [dropBy_nil, Option.some_inj]
    constructor
    · rintro rfl
      exact ⟨[], rfl, .nil⟩
    · rintro ⟨t, rfl, ht⟩
      cases ht
      rfl
  | cons a p ih =>
    constructor
    · intro h
      cases s with
      | nil => cases h
      | cons d s =>
        rw [dropBy] at h
        split at h
        · rename_i hsame
          obtain ⟨t, rfl, ht⟩ := ih.mp h
          exact ⟨d :: t, rfl, .cons hsame ht⟩
        · cases h
    · rintro ⟨t, rfl, ht⟩
      cases ht with
      | cons hsame ht =>
        rw [List.cons_append, dropBy, if_pos hsame]
        exact ih.mpr ⟨_, rfl, ht⟩

theorem dropBy_suffix (h : dropBy same p s = some rest) : rest <:+ s := by
  obtain ⟨t, rfl, -⟩ := dropBy_eq_some_iff.mp h
  exact List.suffix_append _ _

/-- The two texts differ at a place that both have. -/
def clashes (same : Char → Char → Bool) : Text → Text → Bool
  | a :: p, c :: s => !same a c || clashes same p s
  | _, _ => false

theorem dropBy_of_clashes (h : clashes same p s = true) (t : Text) :
    dropBy same p (s ++ t) = none := by
  induction p generalizing s with
  | nil => cases h
  | cons a p ih =>
    cases s with
    | nil => cases h
    | cons c s =>
      rw [List.cons_append, dropBy]
      split
      · rename_i hsame
        rw [clashes, hsame] at h
        exact ih h
      · rfl

/-- A text that differs from the literal one wherever it could begin is passed over. -/
theorem firstTail_clear (hf : ∀ inWord s, dropBy same p s = none → f inWord s = none)
    (h : ∀ t ∈ x.tails, t ≠ [] → clashes same p t = true) :
    firstTail f inWord (x ++ y) = firstTail f (endsInWord inWord x) y := by
  induction x generalizing inWord with
  | nil => rfl
  | cons c x ih =>
    obtain ⟨hhere, hmore⟩ := List.forall_mem_cons.mp h
    have hnone : f inWord (c :: (x ++ y)) = none :=
      hf _ _ (dropBy_of_clashes (hhere (List.cons_ne_nil c x)) y)
    rw [List.cons_append, firstTail, hnone, Option.none_or, ih hmore, endsInWord_cons]

end Literals

/-! ## `s.find` -/

theorem dropPrefix?_eq_dropBy (p s : Text) : Text.dropPrefix? p s = dropBy (· == ·) p s := by
  induction p generalizing s with
  | nil => cases s <;> rfl
  | cons a p ih =>
    cases s with
    | nil => rfl
    | cons b s => rw [Text.dropPrefix?, dropBy, ih]

/-- What stands behind the first occurrence of a text. -/
def afterFirst (sub s : Text) : Option Text :=
  (Text.find? sub s).map fun n => s.drop (n + sub.length)

/-- `s.find` recognises a literal text. -/
theorem afterFirst_eq {sub : Text} (hsub : sub ≠ []) (s : Text) (inWord : Bool) :
    afterFirst sub s = firstTail (fun _ => dropBy (· == ·) sub) inWord s := by
  induction s generalizing inWord with
  | nil =>
    obtain ⟨c, sub, rfl⟩ := List.exists_cons_of_ne_nil hsub
    rfl
  | cons c s ih =>
    rw [firstTail, ← ih (isWord c), ← dropPrefix?_eq_dropBy, afterFirst, afterFirst, Text.find?,
      Text.startsWith]
    cases hprefix : Text.dropPrefix? sub (c :: s) with
    | some rest =>
      have hdrop : (c :: s).drop sub.length = rest := by
        rw [Regex.dropPrefix?_eq_some hprefix, List.drop_left]
      rw [Option.isSome_some, if_pos rfl, Option.map_some, Nat.zero_add, hdrop]
      rfl
    | none =>
      rw [Option.isSome_none, if_neg (by decide), Option.map_map, Option.none_or]
      congr 1
      funext n
      show (c :: s).drop (n + 1 + sub.length) = s.drop (n + sub.length)
      rw [Nat.add_right_comm, List.drop_succ_cons]

theorem contains_iff_afterFirst (sub s : Text) :
    Text.contains s sub = (afterFirst sub s).isSome := by
  rw [Text.contains, afterFirst, Option.isSome_map]

/-! ## A literal text as a word, and the rest of its line -/

namespace Regex

/-- `\bp\b(.*)` under `re.IGNORECASE`. -/
def wordThenLine (p : Text) : Regex := .cat [.wordEdge, .litI p, .wordEdge, .group 1 (.star .dot)]

/-- The word is recognised where no word character stands on either side. -/
def asWord (p : Text) (inWord : Bool) (s : Text) : Option Text :=
  if inWord then none else (dropBy sameLetter p s).filter (!·.head?.any isWord)

/-- The first and the last character of a text match only word characters. -/
structure Wordly (p : Text) : Prop where
  ne : p ≠ []
  first : ∀ a ∈ p.head?, ∀ c, sameLetter a c = true → isWord c = true
  last : ∀ a ∈ p.getLast?, ∀ c, sameLetter a c = true → isWord c = true

variable {p : Text}

/-- There is one way to match a literal text, if there is any. -/
theorem run_litI (p before s : Text) (groups : List (Nat × Text)) :
    (litI p).run ⟨⟨before, s⟩, groups⟩ =
      match dropBy sameLetter p s with
      | none => []
      | some rest => [⟨⟨(s.take p.length).reverse ++ before, rest⟩, groups⟩] := by
  have one : ∀ (a : Char) (before s : Text), (char (sameLetter a)).run ⟨⟨before, s⟩, groups⟩ =
      match dropBy sameLetter [a] s with
      | none => []
      | some rest => [⟨⟨(s.take 1).reverse ++ before, rest⟩, groups⟩] := by
    intro a before s
    cases s with
    | nil => rfl
    | cons c s =>
      rw [run, dropBy]
      simp only
      split <;> cases s <;> rfl
  induction p generalizing before s with
  | nil => cases s <;> rfl
  | cons a p ih =>
    cases p with
    | nil => exact one a before s
    | cons d p =>
      show ((char (sameLetter a)).run ⟨⟨before, s⟩, groups⟩).flatMap (litI (d :: p)).run = _
      rw [one]
      cases s with
      | nil => rfl
      | cons c s =>
        rw [dropBy_cons, dropBy_cons, dropBy_nil]
        cases hsame : sameLetter a c with
        | false => rfl
        | true =>
          rw [if_pos rfl, if_pos rfl]
          simp only [List.flatMap_cons, List.flatMap_nil, List.append_nil]
          rw [ih]
          cases dropBy sameLetter (d :: p) s with
          | none => rfl
          | some rest => simp

/-- What a wordly text matches begins and ends with a word character. -/
theorem Wordly.ends {t : Text} (hp : Wordly p)
    (ht : List.Forall₂ (sameLetter · · = true) p t) :
    t.head?.any isWord = true ∧ t.reverse.head?.any isWord = true := by
  constructor
  · cases ht with
    | nil => exact absurd rfl hp.ne
    | cons hsame _ => exact hp.first _ rfl _ hsame
  · have hlast := hp.last
    rw [← List.head?_reverse] at hlast
    have hreverse := List.rel_reverse ht
    generalize t.reverse = u at hreverse
    generalize hq : p.reverse = q at hreverse hlast
    cases hreverse with
    | nil => exact absurd (List.reverse_eq_nil_iff.mp hq) hp.ne
    | cons hsame _ => exact hlast _ rfl _ hsame

theorem asWord_suffix {inWord : Bool} {s t : Text} (h : asWord p inWord s = some t) : t <:+ s := by
  unfold asWord at h
  split at h
  · cases h
  · exact dropBy_suffix (Option.filter_eq_some_iff.mp h).1

/-- No word begins where a word character does not stand. -/
theorem asWord_of_head {s : Text} (hp : Wordly p) (hs : s.head?.any isWord = false)
    (inWord : Bool) : asWord p inWord s = none := by
  unfold asWord
  split
  · rfl
  · cases hdrop : dropBy sameLetter p s with
    | none => rfl
    | some rest =>
      obtain ⟨t, rfl, ht⟩ := dropBy_eq_some_iff.mp hdrop
      have hfirst := (hp.ends ht).1
      have hne : t ≠ [] := by
        rintro rfl
        cases hfirst
      rw [List.head?_append_of_ne_nil _ hne, hfirst] at hs
      cases hs

/-- A word that has begun in a text that does not end in a word character does not go on, and ends
in it. -/
theorem asWord_append {b s : Text} {c : Char} (hp : Wordly p) (hb : b ≠ [])
    (hlast : b.getLast?.any isWord = false) (hc : ∀ a ∈ p.tail, sameLetter a c = false)
    (inWord : Bool) :
    asWord p inWord (b ++ c :: s) = (asWord p inWord b).map (· ++ c :: s) := by
  unfold asWord
  split
  · rfl
  · rw [dropBy_append hb hc]
    cases hdrop : dropBy sameLetter p b with
    | none => rfl
    | some rest =>
      obtain ⟨t, rfl, ht⟩ := dropBy_eq_some_iff.mp hdrop
      cases rest with
      | nil =>
        have hword := (hp.ends ht).2
        rw [List.head?_reverse] at hword
        rw [List.append_nil, hword] at hlast
        cases hlast
      | cons d rest =>
        rw [Option.map_some, Option.filter_some, Option.filter_some, List.cons_append,
          List.head?_cons, List.head?_cons]
        split <;> rfl

/-- What the pattern captures at a place is the rest of the line behind the word. -/
theorem matchAt_wordThenLine (hp : Wordly p) (before s : Text) :
    ((wordThenLine p).matchAt ⟨before, s⟩).map (·.group 1) =
      (asWord p (before.head?.any isWord) s).map (·.takeWhile (· != '\n')) := by
  have hrun : (wordThenLine p).run ⟨⟨before, s⟩, []⟩ =
      (wordEdge.run ⟨⟨before, s⟩, []⟩).flatMap fun w =>
        ((litI p).run w).flatMap fun v =>
          (wordEdge.run v).flatMap (group 1 (star dot)).run := rfl
  have hedge : ∀ (before s : Text), wordEdge.run ⟨⟨before, s⟩, []⟩ =
      if before.head?.any isWord != s.head?.any isWord then [⟨⟨before, s⟩, []⟩] else [] :=
    fun _ _ => rfl
  have hlit := run_litI p before s []
  rw [matchAt, hrun, hedge, asWord]
  cases hdrop : dropBy sameLetter p s with
  | none =>
    rw [hdrop] at hlit
    split <;> split <;> simp [hlit]
  | some rest =>
    obtain ⟨t, rfl, ht⟩ := dropBy_eq_some_iff.mp hdrop
    obtain ⟨hfirst, hlast⟩ := hp.ends ht
    have hne : t ≠ [] := by
      rintro rfl
      cases hfirst
    rw [hdrop, ht.length_eq, List.take_left] at hlit
    rw [List.head?_append_of_ne_nil _ hne, hfirst]
    have hafter : (t.reverse ++ before).head?.any isWord = true := by
      rw [List.head?_append_of_ne_nil _ (by simpa using hne), hlast]
    cases before.head?.any isWord with
    | true => rfl
    | false =>
      rw [if_pos (by decide), if_neg (by decide), List.flatMap_singleton, hlit]
      simp only [List.flatMap_singleton, hedge, hafter]
      cases hrest : rest.head?.any isWord with
      | true =>
        rw [Option.filter_some, hrest]
        rfl
      | false =>
        rw [Option.filter_some, hrest, if_pos (by decide), List.flatMap_singleton, run,
          List.head?_map, dot, head_run_star_char]
        have hpasses : (⟨t.reverse ++ before, rest⟩ : Cursor).Passes
            ⟨(rest.takeWhile (· != '\n')).reverse ++ (t.reverse ++ before),
              rest.dropWhile (· != '\n')⟩ (rest.takeWhile (· != '\n')) :=
          ⟨List.takeWhile_append_dropWhile.symm, rfl⟩
        simp only [Option.map_some, hpasses.upTo]
        rfl

/-- **A pattern is searched from place to place.** -/
theorem search_eq_firstTail {r : Regex} {g : Match → Text}
    (h : ∀ before s, (r.matchAt ⟨before, s⟩).map g = f (before.head?.any isWord) s)
    (hnil : ∀ inWord, f inWord [] = none) (s : Text) :
    (r.search s).map g = firstTail f false s := by
  have from_ : ∀ (fuel : Nat) (before s : Text), s.length = fuel →
      (r.searchFrom fuel ⟨before, s⟩).map g = firstTail f (before.head?.any isWord) s := by
    intro fuel
    induction fuel with
    | zero =>
      intro before s hs
      obtain rfl := List.eq_nil_of_length_eq_zero hs
      exact (h before []).trans (hnil _)
    | succ fuel ih =>
      intro before s hs
      cases s with
      | nil => cases hs
      | cons c s =>
        have hmore := ih (c :: before) s (Nat.succ.inj hs)
        rw [searchFrom, firstTail, ← h]
        cases hmatch : r.matchAt ⟨before, c :: s⟩ with
        | some m => rw [Option.map_some, Option.some_or]
        | none =>
          rw [Option.map_none, Option.none_or]
          exact hmore
  exact from_ s.length [] s rfl

/-- **What the pattern captures** is the rest of the line behind the first such word. -/
theorem search_wordThenLine (hp : Wordly p) (s : Text) :
    ((wordThenLine p).search s).map (·.group 1) =
      (firstTail (asWord p) false s).map (·.takeWhile (· != '\n')) := by
  have hnil : ∀ inWord, asWord p inWord [] = none := fun inWord => asWord_of_head hp rfl inWord
  rw [← firstTail_map]
  refine search_eq_firstTail (matchAt_wordThenLine hp) (fun inWord => ?_) s
  rw [hnil, Option.map_none]

/-- In one line that is the rest of the text. -/
theorem search_wordThenLine_of_line (hp : Wordly p) {s : Text} (hs : '\n' ∉ s) :
    ((wordThenLine p).search s).map (·.group 1) = firstTail (asWord p) false s := by
  rw [search_wordThenLine hp]
  cases htail : firstTail (asWord p) false s with
  | none => rfl
  | some t =>
    have hsuffix := firstTail_suffix (fun _ _ _ => asWord_suffix) htail
    rw [Option.map_some, List.takeWhile_eq_self_iff.mpr]
    intro c hc
    have hne : c ≠ '\n' := by
      rintro rfl
      exact hs (hsuffix.mem hc)
    simpa using hne

end Regex

end OmniCare
