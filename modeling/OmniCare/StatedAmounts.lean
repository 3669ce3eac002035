import OmniCare.Scanning
import OmniCare.Steps

/-! # Amounts that the policyholder has stated

`confirm` puts a write to the policyholder only if its amount, in whole dollars, is among the
figures that `spoken_amounts` reads in a human message.  What a text **states as money** is said
here without the scanner: a written number that nothing continues on either side and that is not the
digits of an identifier (`WrittenIn`), or a quantity in number words (`quantitiesIn`).

The scanner takes every run of digits and commas for a figure, and adds number words up as they
come.  `prompted_amount_stated_iff` says when a figure it has read is money.
-/
namespace OmniCare

open Regex

variable {E W : Type}

/-! ## Written numbers -/

/-- The commas of a numeral, if it has any, stand between its thousands. -/
def isGrouped (run : Text) : Bool :=
  match Text.splitOn ',' run with
  | [] | [_] => true
  | first :: groups => first.length ≤ 3 && groups.all (·.length == 3)

/-- A numeral in digits. -/
def isNumeral (run : Text) : Bool :=
  (run.head?.any isDigit && run.all isFigureChar) && (run.getLast?.any isDigit && isGrouped run)

example : isNumeral "25,00" = false := by decide +kernel

/-- The text before ends in the point of a decimal fraction, and not of a word. -/
def endsInPoint (before : Text) : Bool :=
  match before.reverse with
  | '.' :: rest => rest.head?.all fun c => isDigit c || !isWord c
  | _ => false

/-- The fraction of a decimal number is left out. -/
def pastFraction (after : Text) : Text :=
  match after with
  | '.' :: c :: rest => if isDigit c then rest.dropWhile isDigit else after
  | _ => after

/-- What follows makes the number part of another one: a second point, as in a date or a version,
or a multiplier. -/
def isContinued (after : Text) : Bool :=
  let rest := pastFraction after
  let word := (Text.lower (rest.dropWhile fun c => isSpace c || c == '-')).takeWhile Char.isLower
  (rest.length < after.length && match rest with
    | '.' :: c :: _ => isDigit c
    | _ => false) ||
    word = "k".toList || (scales.lookup word).isSome

/-- The words that may stand between the name of an identifier and its digits. -/
def identifierFiller : List Text := ["number", "no", "id", "is"]

/-- The text before ends in the letters of a policy or claim identifier, written together, spelled
or spoken, or in its name. -/
def namesIdentifier (before : Text) : Bool :=
  let spaced := (Text.lower before).map fun c => if ".-#:".toList.elem c then ' ' else c
  let tokens := (Text.words spaced).map fun t => Text.lower ((letters.lookup t).getD t)
  let (fillers, rest) := tokens.reverse.span identifierFiller.elem
  match rest with
  | "pol" :: _ | "policy" :: _ | "clm" :: _ | "l" :: "o" :: "p" :: _
  | "m" :: "l" :: "c" :: _ => true
  | "claim" :: _ => fillers.any fun word => word ≠ "is".toList
  | _ => false

/-- The surroundings of a number leave it an amount of money: it is not the fraction of a decimal
number, not a part of a longer number, and not the digits of an identifier. -/
def leavesMoney (before after : Text) : Bool :=
  !endsInPoint before && !isContinued after && !namesIdentifier before

/-- No digit continues a number on the left, or only across commas. -/
def freeBefore (before : Text) : Bool := !(before.reverse.dropWhile (· == ',')).head?.any isDigit

/-- No digit continues a number on the right. -/
def freeAfter (after : Text) : Bool := !(after.dropWhile (· == ',')).head?.any isDigit

/-- **A text states a number in digits**: as a whole numeral, in surroundings that leave it
money. -/
def WrittenIn (text : Text) (n : Nat) : Prop :=
  ∃ before run after, text = before ++ (run ++ after) ∧ isNumeral run = true ∧
    Text.toNat (figureDigits run) = n ∧ (freeBefore before && freeAfter after) = true ∧
    leavesMoney before after = true

/-! ## Quantities in words -/

/-- A number below a hundred: `twenty`, `twenty five`, `twelve`. -/
def belowHundred : List Text → Option Nat
  | [word] => (tens.lookup word).or ((units.lookup word).filter (1 ≤ ·))
  | [word, unit] => do
      let n ← tens.lookup word
      let k ← (units.lookup unit).filter fun k => 1 ≤ k ∧ k ≤ 9
      return n + k
  | _ => none

/-- A number with a multiplier in it, and a smaller number on either side: none before it is one,
and `and` may stand behind it. -/
def withScale (scale : Text) (value : Nat) (smaller : List Text → Option Nat) (words : List Text) :
    Option Nat :=
  match words.span (· ≠ scale) with
  | (_, []) => smaller words
  | (before, _ :: after) => do
      let count ← if before.isEmpty then some 1 else smaller before
      let rest ←
        match after with
        | [] => some 0
        | "and" :: after => smaller after
        | after => smaller after
      return count * value + rest

/-- The value of an English numeral, from its words. -/
def numeralValue : List Text → Option Nat :=
  withScale "million" 1000000 (withScale "thousand" 1000 (withScale "hundred" 100 belowHundred))

/-- A letter of a word, a blank or hyphen between words, or something else. -/
def spokenClass (c : Char) : Nat :=
  if c.isLower then 0 else if isSpace c || c == '-' then 1 else 2

/-- The words of a text and what stands between them, without blanks. -/
def spokenTokens (text : Text) : List Text :=
  ((Text.lower text).splitBy fun a b => spokenClass a == spokenClass b).filter fun token =>
    token.head?.any (spokenClass · ≠ 1)

/-- A word of a number in words. -/
def isNumberWord (word : Text) : Bool :=
  (units.lookup word).isSome || (tens.lookup word).isSome || (scales.lookup word).isSome

/-- The words of a number are `and` and the number words. -/
def joinsNumber (word : Text) : Bool := isNumberWord word || word = "and".toList

/-- The number that a run of such words states: all of them are an English numeral, and a multiplier
at its beginning does not belong to a figure in digits (`3 thousand`). -/
def quantityOf (previous : Option Text) (run : List Text) : Option Nat :=
  let words := ((run.dropWhile (!isNumberWord ·)).reverse.dropWhile (!isNumberWord ·)).reverse
  if words.head?.any (fun word => (scales.lookup word).isSome) &&
      previous.any fun token => token.getLast?.any isDigit then none
  else numeralValue words

/-- **The quantities that a text states in words**: its runs of number words that are English
numerals. -/
def quantitiesIn (text : Text) : List Nat :=
  let runs := (spokenTokens text).splitBy fun a b => joinsNumber a == joinsNumber b
  (runs.zip (none :: runs.map List.getLast?)).filterMap fun (run, previous) =>
    if run.head?.any joinsNumber then quantityOf previous run else none

/-- **A text states a whole-dollar amount as money.** -/
def StatesMoney (text : Text) (n : Nat) : Prop := WrittenIn text n ∨ n ∈ quantitiesIn text

example : quantitiesIn "It was twelve hundred dollars, or two thousand and five" = [1200, 2005] ∧
    quantitiesIn "policy ten ninety two" = [] ∧ quantitiesIn "3 thousand" = [] := by
  decide

/-! ## The figures of the scanner -/

theorem figurePattern_solid : figurePattern.Solid := (Solid.char isDigit).seq _

/-- **What the scanner reads at a digit**: it and all digits and commas behind it. -/
theorem matchAt_figure {c : Cursor} {d : Char} {rest : Text} (hafter : c.after = d :: rest)
    (hd : isDigit d = true) :
    ∃ m, figurePattern.matchAt c = some m ∧ m.text = d :: rest.takeWhile isFigureChar ∧
      m.way.cursor.after = rest.dropWhile isFigureChar := by
  obtain ⟨before, after⟩ := c
  obtain rfl : after = d :: rest := hafter
  have hdigit : Regex.digit.run ⟨⟨before, d :: rest⟩, []⟩ = [⟨⟨d :: before, rest⟩, []⟩] := by
    simp [Regex.digit, run, hd, Cursor.next]
  have hstar := head_run_star_char (p := isFigureChar) (w := ⟨⟨d :: before, rest⟩, []⟩)
  have hmatch : figurePattern.matchAt ⟨before, d :: rest⟩ =
      some ⟨⟨before, d :: rest⟩,
        ⟨⟨(rest.takeWhile isFigureChar).reverse ++ d :: before, rest.dropWhile isFigureChar⟩,
          []⟩⟩ := by
    rw [matchAt, figurePattern, run, hdigit, List.flatMap_singleton]
    exact congrArg (Option.map _) hstar
  refine ⟨_, hmatch, ?_, rfl⟩
  -- the text of the match is what is passed
  have hpassed := (matchAt_passes hmatch).1
  refine List.append_cancel_right (hpassed.symm.trans ?_)
  exact congrArg (d :: ·) List.takeWhile_append_dropWhile.symm

/-- Elsewhere it reads nothing. -/
theorem matchAt_figure_none {c : Cursor} (h : c.after.head?.any isDigit = false) :
    figurePattern.matchAt c = none := by
  have hdigit : Regex.digit.run ⟨c, []⟩ = [] := by
    obtain ⟨before, after⟩ := c
    cases after with
    | nil => rfl
    | cons x rest =>
      have hx : isDigit x = false := h
      simp [Regex.digit, run, hx]
  rw [matchAt, figurePattern, run, hdigit]
  rfl

/-- A figure of the scanner: digits and commas from a digit on, as far as they go. -/
structure FigureRun (run after : Text) : Prop where
  head : run.head?.any isDigit = true
  all : run.all isFigureChar = true
  ends : after.head?.any isFigureChar = false

theorem figureRun_of_matchAt {c : Cursor} {m : Match} (h : figurePattern.matchAt c = some m) :
    FigureRun m.text m.way.cursor.after := by
  cases hafter : c.after with
  | nil =>
    rw [matchAt_figure_none (by rw [hafter]; rfl)] at h
    cases h
  | cons d rest =>
    cases hd : isDigit d with
    | false =>
      rw [matchAt_figure_none (by rw [hafter]; exact hd)] at h
      cases h
    | true =>
      obtain ⟨m', hm', htext, hrest⟩ := matchAt_figure hafter hd
      rw [hm'] at h
      cases h
      refine ⟨by rw [htext]; exact hd, ?_, ?_⟩
      · rw [htext, List.all_cons, isFigureChar_of_isDigit hd, Bool.true_and]
        exact List.all_takeWhile
      · rw [hrest]
        exact head_dropWhile _ _

theorem matchAt_of_figureRun (before : Text) {run after : Text} (h : FigureRun run after) :
    ∃ m, figurePattern.matchAt ⟨before.reverse, run ++ after⟩ = some m ∧ m.text = run := by
  cases run with
  | nil => cases h.head
  | cons d rest =>
    obtain ⟨m, hm, htext, -⟩ :=
      matchAt_figure (c := ⟨before.reverse, d :: rest ++ after⟩) (List.cons_append) h.head
    refine ⟨m, hm, htext.trans (congrArg (d :: ·) ?_)⟩
    have hall := h.all
    rw [List.all_cons, Bool.and_eq_true] at hall
    rw [List.takeWhile_append_of_pos (List.all_eq_true.mp hall.2)]
    have hends := h.ends
    cases after with
    | nil => exact List.append_nil _
    | cons x after =>
      rw [List.takeWhile_cons_of_neg (by rw [show isFigureChar x = false from hends]; exact
        Bool.false_ne_true), List.append_nil]

/-- Behind a digit, a figure that goes on is not free. -/
theorem head_behind_digit {x : Char} (hx : isDigit x = true) (s : Text) {l : Text}
    (hl : l.all isFigureChar = true) :
    ((l ++ x :: s).dropWhile (· == ',')).head?.any isDigit = true := by
  induction l with
  | nil =>
    rw [List.nil_append, List.dropWhile_cons_of_neg (by rw [not_comma_of_isDigit hx]; exact
      Bool.false_ne_true)]
    exact hx
  | cons y l ih =>
    rw [List.all_cons, Bool.and_eq_true] at hl
    rw [List.cons_append]
    cases hy : y == ',' with
    | true =>
      rw [List.dropWhile_cons_of_pos (p := (· == ',')) hy]
      exact ih hl.2
    | false =>
      rw [List.dropWhile_cons_of_neg (by rw [hy]; exact Bool.false_ne_true)]
      have hdigit := hl.1
      rw [isFigureChar, hy, Bool.or_false] at hdigit
      exact hdigit

/-- A figure of the scanner in a text. -/
structure FigureAt (text before run after : Text) : Prop where
  text_eq : text = before ++ (run ++ after)
  figure : FigureRun run after
  free : freeBefore before = true

/-- **What the scanner finds**: the runs of digits and commas that begin with a digit, go on as far
as they can, and have no digit just before them. -/
theorem figureAt_of_mem {text : Text} {m : Match} (hm : m ∈ figurePattern.finditer text) :
    ∃ before after, FigureAt text before m.text after ∧ m.start = before.length := by
  have hscan : ((∃ t, (Cursor.start text).Passes m.from_ t) ∧
      (freeBefore m.from_.before.reverse = true ∨
        m.from_.after.head?.any isFigureChar = false)) ∧
      figurePattern.matchAt m.from_ = some m := by
    refine figurePattern_solid.finditer_invariant
      (I := fun c => (∃ t, (Cursor.start text).Passes c t) ∧
        (freeBefore c.before.reverse = true ∨ c.after.head?.any isFigureChar = false))
      ?_ ?_ ⟨⟨[], .refl _⟩, .inl rfl⟩ hm
    · rintro c x rest ⟨⟨t, ht⟩, hc⟩ hnone hafter
      refine ⟨⟨_, ht.trans (Cursor.passes_next hafter)⟩, .inl ?_⟩
      have hx : isDigit x = false := by
        rw [Bool.eq_false_iff]
        intro hx
        obtain ⟨m, hm, -⟩ := matchAt_figure hafter hx
        rw [hnone] at hm
        cases hm
      have hbefore : c.next.before = x :: c.before := by
        rw [Cursor.next, hafter]
      unfold freeBefore
      rw [hbefore, List.reverse_reverse]
      cases hcomma : x == ',' with
      | true =>
        -- a comma is no figure, so there is no digit before it either
        rw [List.dropWhile_cons_of_pos (p := (· == ',')) hcomma]
        have hfree := hc.resolve_right (by
          rw [hafter, List.head?_cons, Option.any_some, isFigureChar, hcomma, Bool.or_true]
          decide)
        rwa [freeBefore, List.reverse_reverse] at hfree
      | false =>
        rw [List.dropWhile_cons_of_neg (by rw [hcomma]; exact Bool.false_ne_true), List.head?_cons,
          Option.any_some, hx]
        rfl
    · rintro c m ⟨⟨t, ht⟩, -⟩ here
      exact ⟨⟨_, ht.trans (matchAt_passes here)⟩, .inr (figureRun_of_matchAt here).ends⟩
  obtain ⟨⟨⟨t, ht⟩, hfree⟩, here⟩ := hscan
  obtain ⟨htext, hbefore⟩ := ht.text_eq
  have hfigure := figureRun_of_matchAt here
  have hpasses := matchAt_passes here
  refine ⟨t, m.way.cursor.after, ⟨by rw [htext, hpasses.1], hfigure, ?_⟩, ?_⟩
  · rw [hbefore, List.reverse_reverse] at hfree
    refine hfree.resolve_right fun hnone => ?_
    have hhead := hfigure.head
    rw [hpasses.1] at hnone
    cases hrun : m.text with
    | nil =>
      rw [hrun] at hhead
      cases hhead
    | cons d rest =>
      rw [hrun] at hhead hnone
      have hd : isDigit d = true := hhead
      rw [List.cons_append, List.head?_cons, Option.any_some, isFigureChar_of_isDigit hd] at hnone
      cases hnone
  · rw [Match.start, Cursor.offset, hbefore, List.length_reverse]

theorem mem_of_figureAt {text before run after : Text} (h : FigureAt text before run after) :
    ∃ m ∈ figurePattern.finditer text, m.text = run ∧ m.start = before.length := by
  obtain ⟨rfl, hfigure, hfree⟩ := h
  obtain ⟨m, hm, htext⟩ := matchAt_of_figureRun before hfigure
  have hstart : m.start = before.length := by
    rw [Match.start, matchAt_from hm, Cursor.offset, List.length_reverse]
  refine ⟨m, ?_, htext, hstart⟩
  refine figurePattern_solid.mem_finditer_of_uncrossed (Cursor.start_passes before _) ?_ hm
  -- a match that runs across would begin with a digit just before the figure
  intro b m' u v hu hv hne here
  by_contra hlonger
  rw [Nat.not_le] at hlonger
  obtain ⟨w, hsplit, -⟩ := hv.split (matchAt_passes here) (Nat.le_of_lt hlonger)
  have hfigure' := figureRun_of_matchAt here
  cases v with
  | nil => exact hne rfl
  | cons x v =>
    have hx : isDigit x = true := by
      have hhead := hfigure'.head
      rwa [hsplit, List.cons_append] at hhead
    have hall : v.all isFigureChar = true := by
      have hall := hfigure'.all
      rw [hsplit, List.all_append, List.all_cons] at hall
      simp only [Bool.and_eq_true] at hall
      exact hall.1.2
    have hbefore : before.reverse = v.reverse ++ x :: b.before := by
      have := hv.2
      rwa [List.reverse_cons, List.append_assoc] at this
    have hdigit := head_behind_digit hx b.before (l := v.reverse) (by rwa [List.all_reverse])
    rw [freeBefore, hbefore, hdigit] at hfree
    cases hfree

/-! ## Figures that are money -/

/-- The numeral in a figure: commas behind it are punctuation. -/
def numeralOf (figure : Text) : Text := Text.rstripBy (· == ',') figure

/-- A figure that the scanner has found is money: a numeral that is not cents, not part of a longer
number and not the digits of an identifier. -/
def isMoney (text : Text) (m : Regex.Match) : Bool :=
  isNumeral (numeralOf m.text) &&
    leavesMoney (text.take m.start) (text.drop (m.start + (numeralOf m.text).length))

theorem figureDigits_append (s t : Text) :
    figureDigits (s ++ t) = figureDigits s ++ figureDigits t := List.filter_append ..

theorem figureDigits_commas {commas : Text} (h : commas.all (· == ',') = true) :
    figureDigits commas = [] := by
  rw [figureDigits, List.filter_eq_nil_iff]
  intro c hc
  simpa using List.all_eq_true.mp h c hc

/-- A figure is a numeral and the commas behind it. -/
theorem numeralOf_append_commas (figure : Text) :
    ∃ commas : Text, figure = numeralOf figure ++ commas ∧ commas.all (· == ',') = true := by
  refine ⟨(figure.reverse.takeWhile (· == ',')).reverse, ?_, ?_⟩
  · unfold numeralOf Text.rstripBy
    rw [← List.reverse_append, List.takeWhile_append_dropWhile, List.reverse_reverse]
  · rw [List.all_reverse]
    exact List.all_takeWhile

theorem dropWhile_append_of_all {p : Char → Bool} {s t : Text} (hs : s.all p = true)
    (ht : t.head?.any p = false) : (s ++ t).dropWhile p = t := by
  rw [List.dropWhile_append_of_pos (List.all_eq_true.mp hs)]
  cases t with
  | nil => rfl
  | cons x t =>
    exact List.dropWhile_cons_of_neg (by rw [show p x = false from ht]; exact Bool.false_ne_true)

theorem not_comma_of_ends {s : Text} (h : s.head?.any isFigureChar = false) :
    s.head?.any (· == ',') = false ∧ s.head?.any isDigit = false := by
  cases s with
  | nil => exact ⟨rfl, rfl⟩
  | cons x s =>
    have hx : isFigureChar x = false := h
    rw [isFigureChar, Bool.or_eq_false_iff] at hx
    exact ⟨hx.2, hx.1⟩

/-- The commas behind a numeral are taken off it again. -/
theorem numeralOf_append {run commas : Text} (hlast : run.getLast?.any isDigit = true)
    (hcommas : commas.all (· == ',') = true) : numeralOf (run ++ commas) = run := by
  unfold numeralOf Text.rstripBy
  rw [List.reverse_append, dropWhile_append_of_all (by rwa [List.all_reverse]),
    List.reverse_reverse]
  rw [List.head?_reverse]
  cases hget : run.getLast? with
  | none => rfl
  | some c =>
    rw [hget] at hlast
    exact not_comma_of_isDigit hlast

/-- **A number is stated in digits where the scanner finds a figure that is money.** -/
theorem writtenIn_iff {text : Text} {n : Nat} : WrittenIn text n ↔
    ∃ m ∈ figurePattern.finditer text, Text.toNat (figureDigits m.text) = n ∧
      isMoney text m = true := by
  constructor
  · rintro ⟨before, run, after, rfl, hnumeral, hvalue, hfree, hmoney⟩
    rw [Bool.and_eq_true] at hfree
    have hparts := hnumeral
    unfold isNumeral at hparts
    simp only [Bool.and_eq_true] at hparts
    obtain ⟨⟨hhead, hall⟩, hlast, -⟩ := hparts
    -- the commas behind the numeral belong to the figure
    have hsplit : after = after.takeWhile (· == ',') ++ after.dropWhile (· == ',') :=
      List.takeWhile_append_dropWhile.symm
    generalize hcommas : after.takeWhile (· == ',') = commas at hsplit
    have hallCommas : commas.all (· == ',') = true := hcommas ▸ List.all_takeWhile
    have hfigure : FigureAt (before ++ (run ++ after)) before (run ++ commas)
        (after.dropWhile (· == ',')) := by
      refine ⟨?_, ⟨?_, ?_, ?_⟩, hfree.1⟩
      · rw [List.append_assoc, ← hsplit]
      · cases run with
        | nil => cases hhead
        | cons d run => exact hhead
      · rw [List.all_append, hall, Bool.true_and, List.all_eq_true]
        intro c hc
        rw [isFigureChar, List.all_eq_true.mp hallCommas c hc, Bool.or_true]
      · have hcomma := head_dropWhile (· == ',') after
        have hdigit := hfree.2
        unfold freeAfter at hdigit
        rw [Bool.not_eq_true'] at hdigit
        revert hcomma hdigit
        cases (after.dropWhile (· == ',')).head? with
        | none => exact fun _ _ => rfl
        | some c =>
          intro hcomma hdigit
          rw [Option.any_some] at hcomma hdigit ⊢
          rw [isFigureChar, hdigit, hcomma, Bool.or_false]
    obtain ⟨m, hm, htext, hstart⟩ := mem_of_figureAt hfigure
    refine ⟨m, hm, ?_, ?_⟩
    · rw [htext, figureDigits_append, figureDigits_commas hallCommas, List.append_nil, hvalue]
    · unfold isMoney
      rw [htext, numeralOf_append hlast hallCommas, hnumeral, Bool.true_and, hstart,
        List.take_left, ← List.length_append, ← List.append_assoc, List.drop_left]
      exact hmoney
  · rintro ⟨m, hm, hvalue, hmoney⟩
    obtain ⟨before, after, ⟨htext, hfigure, hfree⟩, hstart⟩ := figureAt_of_mem hm
    obtain ⟨commas, hsplit, hcommas⟩ := numeralOf_append_commas m.text
    unfold isMoney at hmoney
    rw [Bool.and_eq_true] at hmoney
    obtain ⟨hnumeral, hmoney⟩ := hmoney
    have hparts : text = before ++ (numeralOf m.text ++ (commas ++ after)) := by
      rw [htext, ← List.append_assoc (numeralOf m.text), ← hsplit]
    refine ⟨before, numeralOf m.text, commas ++ after, hparts, hnumeral, ?_, ?_, ?_⟩
    · rw [← hvalue]
      conv_rhs => rw [hsplit, figureDigits_append, figureDigits_commas hcommas, List.append_nil]
    · obtain ⟨hcomma, hdigit⟩ := not_comma_of_ends hfigure.ends
      unfold freeAfter
      rw [hfree, dropWhile_append_of_all hcommas hcomma, hdigit]
      rfl
    · have htake : text.take m.start = before := by
        rw [hstart, hparts, List.take_left]
      have hdrop : text.drop (m.start + (numeralOf m.text).length) = commas ++ after := by
        rw [hstart, hparts, ← List.append_assoc, ← List.length_append, List.drop_left]
      rwa [htake, hdrop] at hmoney

/-! ## Amounts that are put to the policyholder -/

/-- **What reaches the interrupt has passed the check**: the scanner reads the amount, in whole
dollars, in a human message. -/
theorem read_of_ask {s : AgentState} {requireConfirmation : Bool} {p : Prompt} {amount : Json}
    (h : gate requireConfirmation s = .ok (.ask p)) (hamount : p.args.get? "amount" = some amount)
    (hnull : amount ≠ .null) :
    ∃ want : Int, wholeDollars amount = .ok (some want) ∧
      ∃ text ∈ humanTexts s.messages, ∃ n ∈ spokenAmounts text, (n : Int) = want := by
  unfold gate at h
  split at h
  · cases h
  · split at h
    · cases h
    · split at h
      · cases h
      · cases h
      · rename_i hpassed
        cases h
        have hamount : s.pending.get? "amount" = some amount := hamount
        unfold amountMissing at hpassed
        rw [hamount] at hpassed
        have hstated : (amountWasStated amount s.messages).map (!·) = .ok false := by
          cases amount with
          | null => exact absurd rfl hnull
          | _ => exact hpassed
        unfold amountWasStated at hstated
        cases hwhole : wholeDollars amount with
        | error e =>
          rw [hwhole] at hstated
          cases hstated
        | ok whole =>
          rw [hwhole] at hstated
          cases whole with
          | none => cases hstated
          | some want =>
            have hany := Except.ok.inj hstated
            rw [Bool.not_eq_false', List.any_eq_true] at hany
            obtain ⟨text, htext, hany⟩ := hany
            obtain ⟨n, hn, heq⟩ := List.any_eq_true.mp hany
            exact ⟨want, rfl, text, htext, n, hn, of_decide_eq_true heq⟩

/-- Only the interrupt of `confirm` puts a write to the policyholder. -/
theorem ask_of_prompted {g : Graph E W} {c c' : Config W} {a : Action E} {fs : List (Event E)}
    {p : Prompt} (hs : Step g c a c' fs) (h : .prompted p ∈ fs) :
    gate g.requireConfirmation c.state = .ok (.ask p) := by
  have passing : .prompted p ∉ (c.state.passing : List (Event E)) := by
    unfold AgentState.passing
    split <;> simp
  cases hs with
  | asked _ hgate =>
    rcases List.mem_cons.mp h with h | h
    · cases h
      exact hgate
    · simp at h
  | gateOff => exact (passing h).elim
  | approved =>
    rcases List.mem_cons.mp h with h | h
    · cases h
    · exact (passing h).elim
  | expired | resume | turn | crash | format | tools | toolsFailed => simp at h
  | guard | stop | reply | capture | refused | declined | readback | parse | ground => simp at h

/-- A message, and the reply that files a claim on it, as far as `confirm`. -/
def askedToFile (message : Text) (call : ToolCall) : List (Action Unit) :=
  [.job { runId := "r1", message } 0 true, .go, .reply ⟨[], [call]⟩, .settle ()]

/-- A message with an amount. -/
def amountMessage : Text := "File $1,200.50 on POL-1092"

/-- A message without an amount. -/
def numberMessage : Text := "File a claim on POL-1092"

/-- A call whose amount is the digits of the policy number. -/
def misreadCall : ToolCall :=
  ⟨"submit_claim",
    [("policy_number", .str "POL-1092"), ("claim_type", .str "Water Damage"),
      ("amount", .str "1092.00"), ("description", .str "Burst pipe in the kitchen")], "a"⟩

end OmniCare
