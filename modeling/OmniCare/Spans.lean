import OmniCare.Citations
import OmniCare.Cutting
import OmniCare.Scanning

/-! # The spans of citations

`ground` cuts the invented citations out of an answer back to front, by the spans that
`_citation_spans` gives.  That is sound for spans that stand in order, apart and inside the text,
and they do not always: a citation in full is given the length that it has in the sections, and the
title behind a head is scanned without a look for the next head.  `spans_apart_iff` says for which
texts and citations they do.
-/
namespace OmniCare

/-! ## Words of a title -/

namespace Text

theorem splitOn_ne_nil (sep : Char) (s : Text) : splitOn sep s ≠ [] := by
  cases s with
  | nil => exact List.cons_ne_nil _ _
  | cons c s =>
    rw [splitOn]
    split
    · exact List.cons_ne_nil _ _
    · split <;> exact List.cons_ne_nil _ _

theorem splitOn_cons {sep c : Char} (h : c ≠ sep) {s w : Text} {ws : List Text}
    (hs : splitOn sep s = w :: ws) : splitOn sep (c :: s) = (c :: w) :: ws := by
  rw [splitOn, hs]
  simp [h]

theorem join_cons (sep w : Text) {ws : List Text} (h : ws ≠ []) :
    join sep (w :: ws) = w ++ sep ++ join sep ws := by
  obtain ⟨v, vs, rfl⟩ := List.exists_cons_of_ne_nil h
  unfold join
  rw [List.intercalate_cons_cons]

theorem join_append (sep : Text) {p q : List Text} (hp : p ≠ []) (hq : q ≠ []) :
    join sep (p ++ q) = join sep p ++ sep ++ join sep q := by
  induction p with
  | nil => exact absurd rfl hp
  | cons w p ih =>
    by_cases hnil : p = []
    · subst hnil
      have hone : join sep [w] = w := by simp [join, List.intercalate]
      rw [hone]
      exact join_cons sep w hq
    · rw [List.cons_append, join_cons sep w (by simp [hnil]), ih hnil, join_cons sep w hnil]
      simp only [List.append_assoc]

theorem join_splitOn (sep : Char) (s : Text) : join [sep] (splitOn sep s) = s := by
  induction s with
  | nil => rfl
  | cons c s ih =>
    obtain ⟨w, ws, hs⟩ := List.exists_cons_of_ne_nil (splitOn_ne_nil sep s)
    by_cases hc : c = sep
    · subst hc
      have hsplit : splitOn c (c :: s) = [] :: splitOn c s := by simp [splitOn]
      rw [hsplit, join_cons _ _ (splitOn_ne_nil c s), ih]
      rfl
    · rw [splitOn_cons hc hs]
      rw [hs] at ih
      by_cases hws : ws = []
      · subst hws
        simpa [join, List.intercalate] using ih
      · rw [join_cons _ _ hws] at ih ⊢
        rw [← ih]
        rfl

theorem splitOn_append_sep (sep : Char) (a b : Text) :
    splitOn sep (a ++ sep :: b) = splitOn sep a ++ splitOn sep b := by
  induction a with
  | nil => simp [splitOn]
  | cons c a ih =>
    obtain ⟨w, ws, ha⟩ := List.exists_cons_of_ne_nil (splitOn_ne_nil sep a)
    by_cases hc : c = sep
    · subst hc
      simp only [List.cons_append, splitOn, beq_self_eq_true, if_true, ih]
    · rw [ha, List.cons_append] at ih
      rw [List.cons_append, splitOn_cons hc ih, splitOn_cons hc ha]
      rfl

/-- What is put behind a text without a separator goes on its last word. -/
theorem exists_splitOn_append {sep : Char} {b : Text} (hb : sep ∉ b) (a : Text) :
    ∃ ws w, splitOn sep (a ++ b) = ws ++ [w ++ b] := by
  induction a with
  | nil =>
    refine ⟨[], [], ?_⟩
    induction b with
    | nil => rfl
    | cons c b ih =>
      rw [List.mem_cons, not_or] at hb
      exact splitOn_cons (Ne.symm hb.1) (ih hb.2)
  | cons c a ih =>
    obtain ⟨ws, w, ih⟩ := ih
    by_cases hc : c = sep
    · subst hc
      refine ⟨[] :: ws, w, ?_⟩
      simp only [List.cons_append, splitOn, beq_self_eq_true, if_true, ih]
    · cases ws with
      | nil => exact ⟨[], c :: w, splitOn_cons hc ih⟩
      | cons v ws => exact ⟨(c :: v) :: ws, w, splitOn_cons hc ih⟩

end Text

/-- The characters of `_CITATION_TAIL`. -/
def isTitleChar (c : Char) : Bool := !("\n,;)" : Text).elem c

/-- `_TITLE_TOKEN.match(token)`. -/
def isTitleToken (token : Text) : Bool := (titleToken.matchStart token).isSome

/-- The title that is scanned behind a head. -/
def scannedTitle (rest : Text) : Text := (rest.take 90).takeWhile isTitleChar

/-- The words of a title that are kept. -/
def keptTitle (rest : Text) : Text :=
  Text.join [' '] (keptTokens (Text.splitOn ' ' (scannedTitle rest)))

theorem citationTail_match (rest : Text) :
    ((citationTail.matchStart rest).map (·.text)).getD [] = scannedTitle rest := by
  have hhead := Regex.head_run_upTo_char (p := isTitleChar) (n := 90) (w := ⟨.start rest, []⟩)
  have hmatch : citationTail.matchStart rest = some ⟨.start rest,
      ⟨⟨(scannedTitle rest).reverse ++ [], rest.drop (scannedTitle rest).length⟩, []⟩⟩ := by
    unfold Regex.matchStart Regex.matchAt
    have hrun : (citationTail.run ⟨.start rest, []⟩).head? = _ := hhead
    rw [hrun]
    rfl
  rw [hmatch, Option.map_some, Option.getD_some, Regex.Match.text, Cursor.upTo]
  simp only [List.append_nil, List.length_reverse, Cursor.start, List.length_nil, Nat.sub_zero]
  have hprefix : scannedTitle rest <+: rest :=
    (List.takeWhile_prefix _).trans (List.take_prefix 90 rest)
  exact (List.prefix_iff_eq_take.mp hprefix).symm

/-! ## A title that runs into the next head -/

/-- The word of the next head that a title scan reaches, `gap` characters from where it starts. -/
def wordAhead (gap rest : Text) : Text :=
  ((rest.take (90 - gap.length)).takeWhile isTitleChar).takeWhile (· ≠ ' ')

/-- **The title behind a head runs into the next one**, `rest`, over the text between them: the gap
is short and has nothing that ends a title, and each word of it but the first is a title word, up to
the one in which the next head starts. -/
def runsInto (gap rest : Text) : Bool :=
  gap.length < 90 && gap.all isTitleChar &&
    (Text.splitOn ' ' (gap ++ wordAhead gap rest)).tail.all isTitleToken

theorem keptTokens_append {ws : List Text} (hne : ws ≠ [])
    (h : ws.tail.all isTitleToken = true) (more : List Text) :
    ∃ kept, keptTokens (ws ++ more) = ws ++ kept := by
  obtain ⟨w, ws, rfl⟩ := List.exists_cons_of_ne_nil hne
  refine ⟨more.takeWhile isTitleToken, congrArg (w :: ·) ?_⟩
  exact List.takeWhile_append_of_pos fun x hx => List.all_eq_true.mp h x hx

theorem keptTokens_stop {ws : List Text} (h : ws.tail.all isTitleToken = false)
    (more : List Text) :
    ∃ p q, keptTokens (ws ++ more) = p ∧ ws = p ++ q ∧ p ≠ [] ∧ q ≠ [] := by
  cases ws with
  | nil => cases h
  | cons w ws =>
    obtain ⟨x, hx, hnot⟩ := List.all_eq_false.mp h
    have hstop : (ws ++ more).takeWhile isTitleToken = ws.takeWhile isTitleToken := by
      obtain ⟨a, b, hab⟩ := List.append_of_mem hx
      have hends : ∀ z, (a ++ x :: z).takeWhile isTitleToken = a.takeWhile isTitleToken := by
        intro z
        rw [List.takeWhile_append, List.takeWhile_cons_of_neg hnot, List.append_nil]
        split
        · rename_i hwhole
          exact ((List.takeWhile_prefix _).eq_of_length hwhole).symm
        · rfl
      rw [List.tail_cons] at hab
      rw [hab, List.append_assoc, List.cons_append, hends, hends]
    refine ⟨w :: ws.takeWhile isTitleToken, ws.dropWhile isTitleToken, congrArg (w :: ·) hstop,
      congrArg (w :: ·) List.takeWhile_append_dropWhile.symm, List.cons_ne_nil _ _, fun hnil => ?_⟩
    exact hnot (List.dropWhile_eq_nil_iff.mp hnil x hx)

theorem length_join_le (sep : Text) {p : List Text} (hp : p ≠ []) (q : List Text) :
    (Text.join sep p).length ≤ (Text.join sep (p ++ q)).length := by
  by_cases hq : q = []
  · exact Nat.le_of_eq (by rw [hq, List.append_nil])
  · rw [Text.join_append sep hp hq, List.length_append, List.length_append]
    omega

/-- What is kept of a title is no longer than it. -/
theorem length_keptTitle_le (rest : Text) :
    (keptTitle rest).length ≤ (scannedTitle rest).length := by
  obtain ⟨w, ws, hs⟩ := List.exists_cons_of_ne_nil (Text.splitOn_ne_nil ' ' (scannedTitle rest))
  have hjoin := Text.join_splitOn ' ' (scannedTitle rest)
  have hle := length_join_le [' '] (List.cons_ne_nil w (ws.takeWhile isTitleToken))
    (ws.dropWhile isTitleToken)
  rw [List.cons_append, List.takeWhile_append_dropWhile, ← hs, hjoin] at hle
  unfold keptTitle
  rw [hs]
  exact hle

/-- The last word is no longer than all. -/
theorem length_le_join_concat (sep : Text) (words : List Text) (w : Text) :
    w.length ≤ (Text.join sep (words ++ [w])).length := by
  have hone : Text.join sep [w] = w := by simp [Text.join, List.intercalate]
  by_cases hnil : words = []
  · exact Nat.le_of_eq (by rw [hnil, List.nil_append, hone])
  · rw [Text.join_append sep hnil (List.cons_ne_nil _ _), hone, List.length_append]
    omega

/-- The title that is scanned over a gap, if nothing in the gap ends it. -/
theorem scannedTitle_append {gap : Text} (hlength : gap.length < 90)
    (hall : gap.all isTitleChar = true) (rest : Text) :
    scannedTitle (gap ++ rest) = gap ++ (rest.take (90 - gap.length)).takeWhile isTitleChar := by
  unfold scannedTitle
  rw [List.take_append, List.take_of_length_le (Nat.le_of_lt hlength)]
  exact List.takeWhile_append_of_pos fun c hc => List.all_eq_true.mp hall c hc

/-- Else it ends in the gap. -/
theorem length_scannedTitle_le {gap : Text}
    (h : gap.length < 90 → gap.all isTitleChar = false) (rest : Text) :
    (scannedTitle (gap ++ rest)).length ≤ gap.length := by
  by_cases hlength : gap.length < 90
  · obtain ⟨c, hc, hnot⟩ := List.all_eq_false.mp (h hlength)
    obtain ⟨a, b, rfl⟩ := List.append_of_mem hc
    have hstop : scannedTitle (a ++ c :: b ++ rest) = a.takeWhile isTitleChar := by
      unfold scannedTitle
      rw [List.take_append, List.take_of_length_le (Nat.le_of_lt hlength), List.append_assoc,
        List.takeWhile_append]
      split
      · rename_i hwhole
        rw [List.cons_append, List.takeWhile_cons_of_neg hnot, List.append_nil,
          (List.takeWhile_prefix _).eq_of_length hwhole]
      · rfl
    rw [hstop]
    refine Nat.le_trans (List.takeWhile_prefix _).length_le ?_
    rw [List.length_append]
    omega
  · refine Nat.le_trans (List.takeWhile_prefix _).length_le ?_
    rw [List.length_take]
    omega

/-- **The title that is kept reaches behind a gap exactly if it runs into what is there.** -/
theorem lt_length_keptTitle_iff {gap rest : Text} {x : Char} (hx : rest.head? = some x)
    (htitle : isTitleChar x = true) (hspace : x ≠ ' ') :
    gap.length < (keptTitle (gap ++ rest)).length ↔ runsInto gap rest = true := by
  unfold runsInto
  by_cases hopen : gap.length < 90 ∧ gap.all isTitleChar = true
  · obtain ⟨hlength, hall⟩ := hopen
    obtain ⟨rest', rfl⟩ : ∃ rest', rest = x :: rest' := by
      cases rest with
      | nil => cases hx
      | cons y rest' => exact ⟨rest', by cases hx; rfl⟩
    have hscanned := scannedTitle_append hlength hall (x :: rest')
    -- the word ahead, and what is scanned behind it
    obtain ⟨ahead, hahead⟩ : ∃ ahead, wordAhead gap (x :: rest') = x :: ahead := by
      unfold wordAhead
      obtain ⟨n, hn⟩ : ∃ n, 90 - gap.length = n + 1 := ⟨90 - gap.length - 1, by omega⟩
      rw [hn, List.take_succ_cons, List.takeWhile_cons_of_pos htitle,
        List.takeWhile_cons_of_pos (by simpa using hspace)]
      exact ⟨_, rfl⟩
    have hfree : ' ' ∉ wordAhead gap (x :: rest') := fun hmem => by
      simpa using List.mem_takeWhile_imp hmem
    obtain ⟨more, hmore⟩ : ∃ more, Text.splitOn ' ' (scannedTitle (gap ++ x :: rest')) =
        Text.splitOn ' ' (gap ++ wordAhead gap (x :: rest')) ++ more := by
      rw [hscanned, ← List.takeWhile_append_dropWhile (p := (· ≠ ' '))
        (l := ((x :: rest').take (90 - gap.length)).takeWhile isTitleChar), ← List.append_assoc]
      show ∃ more, Text.splitOn ' ' (gap ++ wordAhead gap (x :: rest') ++ _) = _
      cases hdrop : (((x :: rest').take (90 - gap.length)).takeWhile isTitleChar).dropWhile
          (· ≠ ' ') with
      | nil => exact ⟨[], by rw [List.append_nil, List.append_nil]⟩
      | cons y t =>
        have hy : y = ' ' := by
          have := List.head?_dropWhile_not (· ≠ ' ')
            (((x :: rest').take (90 - gap.length)).takeWhile isTitleChar)
          rw [hdrop] at this
          simpa using this
        subst hy
        exact ⟨_, Text.splitOn_append_sep ' ' _ t⟩
    have hjoin := Text.join_splitOn ' ' (gap ++ wordAhead gap (x :: rest'))
    have hne := Text.splitOn_ne_nil ' ' (gap ++ wordAhead gap (x :: rest'))
    unfold keptTitle
    rw [hmore]
    simp only [hlength, hall, decide_true, Bool.true_and]
    cases hwords : (Text.splitOn ' ' (gap ++ wordAhead gap (x :: rest'))).tail.all isTitleToken with
    | true =>
      obtain ⟨kept, hkept⟩ := keptTokens_append hne hwords more
      have hle := length_join_le [' '] hne kept
      rw [hjoin, List.length_append] at hle
      have hpos : 0 < (wordAhead gap (x :: rest')).length := by simp [hahead]
      rw [hkept]
      exact ⟨fun _ => rfl, fun _ => by omega⟩
    | false =>
      -- the last word, in which the next head starts, is not kept
      obtain ⟨p, q, hkept, hparts, hp, hq⟩ := keptTokens_stop hwords more
      obtain ⟨ws, w, hlast⟩ := Text.exists_splitOn_append hfree gap
      rw [hkept]
      refine ⟨fun hlt => ?_, nofun⟩
      exfalso
      have hq' : q = q.dropLast ++ [w ++ wordAhead gap (x :: rest')] := by
        have hgetLast : q.getLast hq = w ++ wordAhead gap (x :: rest') := by
          have := congrArg List.getLast? (hlast.symm.trans hparts)
          rw [List.getLast?_concat, List.getLast?_append, List.getLast?_eq_some_getLast hq] at this
          exact (Option.some.inj this).symm
        rw [← hgetLast, List.dropLast_concat_getLast]
      have hle := length_le_join_concat [' '] q.dropLast (w ++ wordAhead gap (x :: rest'))
      rw [← hq'] at hle
      rw [hparts, Text.join_append _ hp hq] at hjoin
      have hsum := congrArg List.length hjoin
      simp only [List.length_append, List.length_singleton] at hsum hle
      omega
  · have hend : gap.length < 90 → gap.all isTitleChar = false := fun hlt =>
      Bool.eq_false_iff.mpr fun hall => hopen ⟨hlt, hall⟩
    have hle := Nat.le_trans (length_keptTitle_le (gap ++ rest)) (length_scannedTitle_le hend rest)
    constructor
    · exact fun hlt => absurd hlt (Nat.not_lt.mpr hle)
    · intro hruns
      simp only [Bool.and_eq_true, decide_eq_true_eq] at hruns
      exact absurd ⟨hruns.1.1, hruns.1.2⟩ hopen

/-! ## Where a span ends -/

/-- The positions of a span. -/
def CitationSpan.range (s : CitationSpan) : Nat × Nat := (s.start, s.stop)

/-- One of two spans ends before the other starts. -/
def CitationSpan.Beside (s s' : CitationSpan) : Prop :=
  s.range.2 ≤ s'.range.1 ∨ s'.range.2 ≤ s.range.1

/-- Where a head leaves room up to the next one, or up to the end: the citation that stands there in
full is no longer, or, if there is none, the title behind it does not run into the next head. -/
def hasRoom (valid : List Text) (text : Text) (head : Regex.Match) (next : Option Regex.Match) :
    Bool :=
  match fullCitation valid text head, next with
  | some c, none => head.start + c.length ≤ text.length
  | some c, some n => head.start + c.length ≤ n.start
  | none, none => true
  | none, some n => !runsInto ((text.drop head.stop).take (n.start - head.stop)) (text.drop n.start)

/-- Every head leaves room. -/
def Roomy (valid : List Text) (text : Text) : List Regex.Match → Prop
  | [] => True
  | head :: rest => hasRoom valid text head rest.head? = true ∧ Roomy valid text rest

/-- The spans stand in order, apart and inside the text. -/
structure SpansApart (text : Text) (spans : List CitationSpan) : Prop where
  increasing : spans.Pairwise fun a b => a.start < b.start
  apart : Cutting.Apart text.length (spans.map CitationSpan.range)

/-- The ranges of the invented spans. -/
def inventedRanges (spans : List CitationSpan) : List (Nat × Nat) :=
  (spans.filter fun s => !s.real).map CitationSpan.range

/-- What is cut out of a text is the union of the invented spans, and the real ones stay. -/
structure CutsExactly (text : Text) (spans : List CitationSpan) : Prop where
  cut : cutInvented text spans = Cutting.outside text (inventedRanges spans)
  kept : ∀ s ∈ spans, s.real = true →
    ((text.take s.stop).drop s.start).IsInfix (cutInvented text spans)

theorem isTitleChar_of_isFileChar {c : Char} (h : isFileChar c = true) :
    isTitleChar c = true ∧ c ≠ ' ' := by
  constructor
  · by_contra hnot
    have hmem : c ∈ ("\n,;)" : Text) := by
      rw [isTitleChar, Bool.not_eq_true', Bool.not_eq_false] at hnot
      exact List.elem_iff.mp hnot
    have hnone : (("\n,;)" : Text).all fun c => !isFileChar c) = true := by decide
    have hc := List.all_eq_true.mp hnone c hmem
    rw [h] at hc
    cases hc
  · rintro rfl
    exact absurd h (by decide)

theorem citationHead_solid : citationHead.Solid := by
  refine Regex.Solid.seq (fun w v hv => ?_) _
  obtain ⟨t, ht, hpasses, -⟩ := Regex.mem_run_rep_char.mp hv
  have hlength := congrArg List.length hpasses.1
  rw [List.length_append] at hlength
  have := ht.atLeast
  omega

/-- A head of a text, and what is from it and behind it. -/
theorem head_of_mem {text : Text} {head : Regex.Match}
    (h : head ∈ citationHead.finditer text) :
    head.stop = head.start + head.text.length ∧ head.stop ≤ text.length ∧
      ∃ c rest, isFileChar c = true ∧ text.drop head.start = c :: rest := by
  obtain ⟨t, ht, hm⟩ := citationHead_solid.matchAt_of_mem_finditer h
  have hstop := (citationHead_solid.stop_eq hm).1
  have hstart : head.start = t.length := by
    rw [Regex.Match.start, Cursor.offset, ht.2]
    simp [Cursor.start]
  have hpasses := Regex.matchAt_passes hm
  have htext : text = t ++ head.from_.after := ht.1
  have hdrop : text.drop head.start = head.from_.after := by
    rw [hstart, htext, List.drop_left]
  refine ⟨hstop, ?_, ?_⟩
  · have hlength := congrArg List.length hpasses.1
    rw [htext, List.length_append]
    rw [List.length_append] at hlength
    omega
  · obtain ⟨u, hu, -⟩ := Regex.mem_run_seq.mp (Regex.matchAt_mem hm)
    obtain ⟨file, hfile, hpass, -⟩ := Regex.mem_run_rep_char.mp hu
    rw [hdrop, hpass.1]
    cases file with
    | nil => exact absurd hfile.atLeast (by decide)
    | cons c file =>
      have hall := hfile.all
      rw [List.all_cons, Bool.and_eq_true] at hall
      exact ⟨c, _, hall.1, rfl⟩

theorem citationSpan_start (valid : List Text) (text : Text) (head : Regex.Match) :
    (citationSpan text (longestFirst valid) head).start = head.start := by
  unfold citationSpan
  dsimp only
  split <;> rfl

/-- Where no citation stands in full, the span ends with the title that is kept. -/
theorem citationSpan_stop {valid : List Text} {text : Text} {head : Regex.Match}
    (h : fullCitation valid text head = none)
    (hstop : head.stop = head.start + head.text.length) :
    (citationSpan text (longestFirst valid) head).stop =
      head.stop + (keptTitle (text.drop head.stop)).length := by
  unfold fullCitation at h
  unfold citationSpan
  dsimp only
  rw [h, hstop]
  dsimp only
  rw [citationTail_match, List.drop_drop]
  rfl

/-- **Where a head leaves room, its span does**: it ends inside the text, and not behind the start
of the next head. -/
theorem hasRoom_iff {valid : List Text} {text : Text} {head : Regex.Match}
    (h : head ∈ citationHead.finditer text) {next : Option Regex.Match}
    (hnext : ∀ n ∈ next, n ∈ citationHead.finditer text ∧ head.stop ≤ n.start) :
    hasRoom valid text head next = true ↔
      (head.start ≤ (citationSpan text (longestFirst valid) head).stop ∧
        (citationSpan text (longestFirst valid) head).stop ≤ text.length) ∧
      ∀ n ∈ next, (citationSpan text (longestFirst valid) head).stop ≤ n.start := by
  obtain ⟨hstop, hinside, -⟩ := head_of_mem h
  unfold hasRoom
  cases hfull : fullCitation valid text head with
  | some c =>
    rw [citationSpan_full hfull]
    cases next with
    | none =>
      simp only [decide_eq_true_eq]
      exact ⟨fun hle => ⟨⟨Nat.le_add_right _ _, hle⟩, nofun⟩, fun hle => hle.1.2⟩
    | some n =>
      have hn := head_of_mem (hnext n rfl).1
      simp only [decide_eq_true_eq]
      refine ⟨fun hle => ⟨⟨Nat.le_add_right _ _, by omega⟩, ?_⟩, fun hle => hle.2 n rfl⟩
      rintro _ ⟨⟩
      exact hle
  | none =>
    rw [citationSpan_stop hfull hstop]
    have hkept : (keptTitle (text.drop head.stop)).length ≤ text.length - head.stop := by
      refine Nat.le_trans (length_keptTitle_le _) ?_
      rw [← List.length_drop]
      exact ((List.takeWhile_prefix _).trans (List.take_prefix 90 _)).length_le
    cases next with
    | none => exact ⟨fun _ => ⟨⟨by omega, by omega⟩, nofun⟩, fun _ => rfl⟩
    | some n =>
      obtain ⟨hn, hafter⟩ := hnext n rfl
      obtain ⟨-, hninside, c, rest, hc, hrest⟩ := head_of_mem hn
      have hsplit : text.drop head.stop =
          (text.drop head.stop).take (n.start - head.stop) ++ text.drop n.start := by
        have hdrop : text.drop n.start = (text.drop head.stop).drop (n.start - head.stop) := by
          rw [List.drop_drop]
          congr 1
          omega
        rw [hdrop, List.take_append_drop]
      have hgap : ((text.drop head.stop).take (n.start - head.stop)).length =
          n.start - head.stop := by
        rw [List.length_take, List.length_drop]
        have := (head_of_mem hn).1
        omega
      have hhead : (text.drop n.start).head? = some c := by
        rw [hrest]
        rfl
      have hruns : ((text.drop head.stop).take (n.start - head.stop)).length <
          (keptTitle ((text.drop head.stop).take (n.start - head.stop) ++
            text.drop n.start)).length ↔ _ :=
        lt_length_keptTitle_iff hhead (isTitleChar_of_isFileChar hc).1
          (isTitleChar_of_isFileChar hc).2
      rw [← hsplit, hgap] at hruns
      dsimp only
      rw [Bool.not_eq_true', ← Bool.not_eq_true, ← hruns]
      constructor
      · intro hnot
        refine ⟨⟨by omega, by omega⟩, ?_⟩
        rintro _ ⟨⟩
        omega
      · intro hle
        have := hle.2 n rfl
        omega

/-- The spans of some heads. -/
theorem apart_iff {valid : List Text} {text : Text} {heads : List Regex.Match}
    (hmem : ∀ m ∈ heads, m ∈ citationHead.finditer text)
    (hordered : heads.Pairwise fun m n => m.stop ≤ n.start) :
    Cutting.Apart text.length
        (heads.map fun m => (citationSpan text (longestFirst valid) m).range) ↔
      Roomy valid text heads := by
  induction heads with
  | nil => exact ⟨fun _ => trivial, fun _ => ⟨nofun, .nil⟩⟩
  | cons m rest ih =>
    obtain ⟨hlater, hordered⟩ := List.pairwise_cons.mp hordered
    have hrest : ∀ n ∈ rest, n ∈ citationHead.finditer text :=
      fun n hn => hmem n (List.mem_cons_of_mem _ hn)
    have hroom : hasRoom valid text m rest.head? = true ↔ _ :=
      hasRoom_iff (hmem m List.mem_cons_self) fun n hn =>
        ⟨hrest n (List.mem_of_head? hn), hlater n (List.mem_of_head? hn)⟩
    have hstart : ∀ n, (citationSpan text (longestFirst valid) n).range.1 = n.start :=
      citationSpan_start valid text
    rw [Roomy, ← ih hrest hordered, hroom]
    -- a span that ends before the next head ends before all of them
    have hall : (∀ n ∈ rest.head?, (citationSpan text (longestFirst valid) m).stop ≤ n.start) ↔
        ∀ n ∈ rest, (citationSpan text (longestFirst valid) m).stop ≤ n.start := by
      cases rest with
      | nil => exact ⟨fun _ => nofun, fun _ => nofun⟩
      | cons n rest =>
        constructor
        · intro hfirst x hx
          have hn := hfirst n rfl
          rcases List.mem_cons.mp hx with rfl | hx
          · exact hn
          · have hnx := (List.pairwise_cons.mp hordered).1 x hx
            have hstop := (head_of_mem (hrest n List.mem_cons_self)).1
            omega
        · rintro hall _ ⟨⟩
          exact hall n List.mem_cons_self
    rw [hall]
    constructor
    · intro h
      have hinside := h.inside _ List.mem_cons_self
      have hpairs := List.pairwise_cons.mp h.ordered
      rw [hstart] at hinside
      refine ⟨⟨hinside, fun n hn => ?_⟩,
        ⟨fun r hr => h.inside r (List.mem_cons_of_mem _ hr), hpairs.2⟩⟩
      have := hpairs.1 _ (List.mem_map_of_mem hn)
      rwa [hstart] at this
    · rintro ⟨⟨hinside, hafter⟩, h⟩
      refine ⟨?_, List.pairwise_cons.mpr ⟨?_, h.ordered⟩⟩
      · intro r hr
        rcases List.mem_cons.mp hr with rfl | hr
        · rw [hstart]
          exact hinside
        · exact h.inside r hr
      · intro r hr
        obtain ⟨n, hn, rfl⟩ := List.mem_map.mp hr
        rw [hstart]
        exact hafter n hn

/-! ## What the cut takes away -/

theorem cutInvented_eq (text : Text) (spans : List CitationSpan) :
    cutInvented text spans = Cutting.cutBack text (inventedRanges spans) := by
  induction spans with
  | nil => rfl
  | cons s spans ih =>
    unfold cutInvented inventedRanges at ih ⊢
    rw [List.foldr_cons, ih]
    cases hreal : s.real with
    | true => simp [hreal]
    | false => simp [hreal, Cutting.cutBack, CitationSpan.range]

/-- **Spans that stand in order, apart and inside the text are cut out exactly.** -/
theorem cutsExactly_of_apart {text : Text} {spans : List CitationSpan}
    (h : SpansApart text spans) : CutsExactly text spans := by
  have hsub : (inventedRanges spans).Sublist (spans.map CitationSpan.range) :=
    List.filter_sublist.map _
  have hcut : cutInvented text spans = Cutting.outside text (inventedRanges spans) := by
    rw [cutInvented_eq]
    exact Cutting.cutBack_eq_outside
      ⟨fun r hr => h.apart.inside r (hsub.subset hr), h.apart.ordered.sublist hsub⟩
  refine ⟨hcut, fun s hs hreal => ?_⟩
  rw [hcut]
  have hmem : s.range ∈ spans.map CitationSpan.range := List.mem_map_of_mem hs
  refine Cutting.infix_outside (r := s.range) (h.apart.inside _ hmem) fun x hx => ?_
  -- an invented span is another one, before or behind
  obtain ⟨y, hy, rfl⟩ := List.mem_map.mp hx
  obtain ⟨hy, hinvented⟩ := List.mem_filter.mp hy
  have hne : y ≠ s := by
    rintro rfl
    rw [hreal] at hinvented
    cases hinvented
  have hordered := List.pairwise_map.mp h.apart.ordered
  have : Std.Symm CitationSpan.Beside := ⟨fun _ _ => Or.symm⟩
  have hbeside : spans.Pairwise CitationSpan.Beside := hordered.imp Or.inl
  exact hbeside.forall hy hs hne

/-- **The spans of a text stand in order, apart and inside it, and what is cut out is exactly the
union of the invented ones, if and only if every citation head leaves room.** -/
theorem spans_apart_iff (valid : List Text) (text : Text) :
    (SpansApart text (citationSpans text valid) ∧ CutsExactly text (citationSpans text valid)) ↔
      Roomy valid text (citationHead.finditer text) := by
  have hordered := citationHead_solid.finditer_ordered text
  have hincreasing : (citationSpans text valid).Pairwise fun a b => a.start < b.start := by
    refine List.pairwise_map.mpr ((List.Pairwise.and_mem.mp hordered).imp ?_)
    rintro m n ⟨hm, -, hle⟩
    obtain ⟨t, -, hmatch⟩ := citationHead_solid.matchAt_of_mem_finditer hm
    have hlt := (citationHead_solid.stop_eq hmatch).2
    rw [citationSpan_start, citationSpan_start]
    omega
  rw [← apart_iff (fun _ h => h) hordered]
  constructor
  · rintro ⟨h, -⟩
    have hapart := h.apart
    rwa [citationSpans, List.map_map] at hapart
  · intro h
    have hspans : SpansApart text (citationSpans text valid) := by
      refine ⟨hincreasing, ?_⟩
      rw [citationSpans, List.map_map]
      exact h
    exact ⟨hspans, cutsExactly_of_apart hspans⟩

/-- An answer with an invented title that runs into another invented citation. -/
def runningTitle : Text := "See x.md § Policy.md § Nine and the rest of it."

/-- An answer that ends with the one section that was retrieved, but for its full stop. -/
def endingCitation : Text := "See policy.md § One"

/-- The spans of the first answer overlap, and their cut takes prose away; the span of the second
one ends behind the text. -/
theorem spans_overlap :
    ¬SpansApart runningTitle (citationSpans runningTitle []) ∧
      cutInvented runningTitle (citationSpans runningTitle []) = "See  it.".toList ∧
      Cutting.outside runningTitle (inventedRanges (citationSpans runningTitle [])) =
        "See  and the rest of it.".toList ∧
      ¬SpansApart endingCitation (citationSpans endingCitation ["policy.md § One.".toList]) := by
  refine ⟨fun h => ?_, by decide +kernel, by decide +kernel, fun h => ?_⟩
  · have hordered := List.pairwise_map.mp h.apart.ordered
    revert hordered
    decide +kernel
  · have hinside := h.apart.inside
    revert hinside
    decide

end OmniCare
