import OmniCare.Backtracking
import OmniCare.Chunking
import OmniCare.Spans

/-! # From sections to a document and back

A document is written as a preamble and its sections: `## title`, a blank line, the body.  Reading
it gives the sections back, one chunk for each, and the spans of the chunks tile the document from
the first heading to its end (`sections_recovered`).

Both ends of the heading pattern match line ends too.  `\s+` takes the one blank before a title,
which begins with something else.  Behind it the lazy title goes on to the end of the line, since no
shorter one has only blanks up to a line end, and then `\s*` takes both line feeds and gives the
second one back, so that the match ends between them.
-/
namespace OmniCare

/-! ## Documents -/

/-- A line that reads as a heading: `##`, and then a blank or nothing. -/
def isHeading (line : Text) : Bool :=
  Text.startsWith line "##" && (line.drop 2).head?.all isSpace

/-- No line of a text reads as a heading. -/
def Headless (s : Text) : Prop := (Text.splitOn '\n' s).any isHeading = false

instance (s : Text) : Decidable (Headless s) := inferInstanceAs (Decidable (_ = _))

/-- Nothing or whole lines, none of them a heading. -/
structure Preamble where
  text : Text
  whole : text = [] ∨ text.getLast? = some '\n'
  headless : Headless text

/-- A section: its title, its body, and the blanks behind it. -/
structure Section where
  title : Text
  body : Text
  gap : Text
  title_ne : title ≠ []
  title_trimmed : Text.strip title = title
  title_line : '\n' ∉ title
  body_ne : body ≠ []
  body_trimmed : Text.strip body = body
  body_headless : Headless body
  gap_blank : Text.isBlank gap = true

/-- A section as it is written. -/
def Section.render (s : Section) : Text :=
  "## ".toList ++ s.title ++ "\n\n".toList ++ s.body ++ s.gap

/-- Sections one after the other, each on lines of its own. -/
def renderSections : List Section → Text
  | [] => []
  | [s] => s.render
  | s :: rest => s.render ++ '\n' :: renderSections rest

/-- The spans of chunks follow one another without a gap from one place to another. -/
def SpansTile (start stop : Nat) : List Chunk → Prop
  | [] => start = stop
  | c :: cs => c.charStart = start ∧ start < c.charEnd ∧ SpansTile c.charEnd stop cs

/-! ## Where no heading begins -/

namespace Text

/-- A trimmed text begins and ends with something else than a blank. -/
theorem ends_of_strip {s : Text} (h : strip s = s) :
    s.head?.any isSpace = false ∧ s.getLast?.any isSpace = false := by
  have hdrop : s.dropWhile isSpace = s := by
    have htrimmed : rstripBy isSpace (s.dropWhile isSpace) <+: s.dropWhile isSpace :=
      rstripBy_prefix _ _
    have hlength := htrimmed.length_le
    rw [show rstripBy isSpace (s.dropWhile isSpace) = s from h] at hlength
    exact (List.dropWhile_suffix isSpace).eq_of_length_le hlength
  constructor
  · rw [← hdrop]
    exact head_dropWhile isSpace s
  · rw [← h]
    show ((s.dropWhile isSpace).reverse.dropWhile isSpace).reverse.getLast?.any isSpace = false
    rw [List.getLast?_reverse]
    exact head_dropWhile isSpace _

/-- Blanks around a trimmed text are trimmed. -/
theorem strip_padded {g s g' : Text} (hg : isBlank g = true) (hne : s ≠ []) (hs : strip s = s)
    (hg' : isBlank g' = true) : strip (g ++ (s ++ g')) = s := by
  obtain ⟨hfirst, hlast⟩ := ends_of_strip hs
  obtain ⟨c, t, rfl⟩ := List.exists_cons_of_ne_nil hne
  have hleft : lstripBy isSpace (g ++ (c :: t ++ g')) = c :: t ++ g' := by
    rw [lstripBy, List.dropWhile_append_of_pos (List.all_eq_true.mp hg)]
    exact List.dropWhile_cons_of_neg (by simpa using hfirst)
  have hblank : ∀ x ∈ g'.reverse, isSpace x = true := fun x hx =>
    List.all_eq_true.mp hg' x (List.mem_reverse.mp hx)
  rw [strip, stripBy, hleft, rstripBy, List.reverse_append, List.dropWhile_append_of_pos hblank]
  have hstop : (c :: t).reverse.dropWhile isSpace = (c :: t).reverse := by
    rw [← List.head?_reverse] at hlast
    cases hrev : (c :: t).reverse with
    | nil => rfl
    | cons x r =>
      rw [hrev] at hlast
      exact List.dropWhile_cons_of_neg (by simpa using hlast)
  rw [hstop, List.reverse_reverse]

/-- The first line of what begins at the start of a line is a line of the text. -/
theorem firstLine_mem {a b : Text} (ha : a = [] ∨ a.getLast? = some '\n') :
    b.takeWhile (· != '\n') ∈ splitOn '\n' (a ++ b) := by
  have hfirst : ∀ s : Text, s.takeWhile (· != '\n') ∈ (splitOn '\n' s).head? := by
    intro s
    induction s with
    | nil => rfl
    | cons c s ih =>
      by_cases hc : c = '\n'
      · subst hc
        rfl
      · obtain ⟨w, ws, hs⟩ := List.exists_cons_of_ne_nil (splitOn_ne_nil '\n' s)
        rw [hs] at ih
        rw [splitOn_cons hc hs, List.takeWhile_cons_of_pos (by simpa using hc)]
        rw [Option.mem_some_iff.mp ih]
        rfl
  rcases ha with rfl | ha
  · exact List.mem_of_mem_head? (hfirst b)
  · obtain ⟨a, rfl⟩ := List.getLast?_eq_some_iff.mp ha
    rw [List.append_assoc, List.singleton_append, splitOn_append_sep]
    exact List.mem_append_right _ (List.mem_of_mem_head? (hfirst b))

end Text

section Heading
open Regex

/-- The heading pattern behind the start of the line. -/
def headingTail : Regex :=
  .cat [.lit "##", .plus .space, .group 1 (.rep false 1 none .dot), .star .space, .lineEnd]

theorem sectionPattern_eq : sectionPattern = .seq .lineStart headingTail := rfl

theorem solid_sectionPattern : sectionPattern.Solid :=
  Solid.second _ (((Solid.char _).seq _).seq _)

/-- A heading is `##` and a blank. -/
theorem after_of_headingTail {w v : Way} (h : v ∈ headingTail.run w) :
    ∃ x rest, w.cursor.after = '#' :: '#' :: x :: rest ∧ isSpace x = true := by
  obtain ⟨u, hu, h⟩ := mem_run_seq.mp h
  obtain ⟨y, hy, hu⟩ := mem_run_seq.mp hu
  obtain ⟨a, ha, hpa, -⟩ := mem_run_char.mp hy
  obtain ⟨b, hb, hpb, -⟩ := mem_run_char.mp hu
  obtain ⟨z, hz, -⟩ := mem_run_seq.mp h
  obtain ⟨t, ht, hpt, -⟩ := mem_run_rep_char.mp hz
  cases t with
  | nil => exact absurd ht.atLeast (by decide)
  | cons x t =>
    obtain rfl := eq_of_beq ha
    obtain rfl := eq_of_beq hb
    refine ⟨x, t ++ z.cursor.after, ?_, List.all_eq_true.mp ht.all x List.mem_cons_self⟩
    exact ((hpa.trans hpb).trans hpt).1

/-- Where the pattern sees a heading the line is one, if more of it is there than one character. -/
theorem isHeading_firstLine {b rest r : Text} {x : Char} (h : b ++ rest = '#' :: '#' :: x :: r)
    (hx : isSpace x = true) (hb : b ≠ []) :
    (b = ['#'] ∧ rest.head? = some '#') ∨ isHeading (b.takeWhile (· != '\n')) = true := by
  cases b with
  | nil => exact absurd rfl hb
  | cons c b =>
    obtain ⟨rfl, hsecond⟩ := List.cons.inj h
    cases b with
    | nil => exact .inl ⟨rfl, by rw [show rest = '#' :: x :: r from hsecond]; rfl⟩
    | cons d b =>
      obtain ⟨rfl, hthird⟩ := List.cons.inj hsecond
      right
      show (b.takeWhile (· != '\n')).head?.all isSpace = true
      cases b with
      | nil => rfl
      | cons y b =>
        obtain ⟨rfl, -⟩ := List.cons.inj hthird
        by_cases hy : (y != '\n') = true
        · rw [List.takeWhile_cons_of_pos (p := (· != '\n')) hy]
          exact hx
        · rw [List.takeWhile_cons_of_neg (p := (· != '\n')) hy]
          rfl

theorem matchAt_section (before after : Text) : sectionPattern.matchAt ⟨before, after⟩ =
    if before.head?.all (· == '\n') then
      ((headingTail.run ⟨⟨before, after⟩, []⟩).head?).map (⟨⟨before, after⟩, ·⟩)
    else none := by
  rw [Regex.matchAt, sectionPattern_eq, run, lineStart, run]
  dsimp only
  split
  · rw [List.flatMap_singleton]
  · rfl

/-- **No heading begins in a headless text**, nor at its end and in what follows. -/
theorem matchAt_none_of_headless {u rest before : Text} (hu : Headless u)
    (hend : u.getLast? = some '\n' ∨ rest.head? ≠ some '#') (a b : Text) (hsplit : u = a ++ b)
    (hb : b ≠ []) : sectionPattern.matchAt ⟨a.reverse ++ before, b ++ rest⟩ = none := by
  rw [matchAt_section]
  split
  · rename_i hstart
    cases hrun : headingTail.run ⟨⟨a.reverse ++ before, b ++ rest⟩, []⟩ with
    | nil => rfl
    | cons v vs =>
      exfalso
      obtain ⟨x, r, hafter, hx⟩ := after_of_headingTail (hrun ▸ List.mem_cons_self)
      have hline : a = [] ∨ a.getLast? = some '\n' := by
        by_cases ha : a = []
        · exact .inl ha
        · right
          obtain ⟨c, l, hc⟩ := List.exists_cons_of_ne_nil (List.reverse_ne_nil_iff.mpr ha)
          rw [hc, List.cons_append, List.head?_cons, Option.all_some] at hstart
          rw [← List.head?_reverse, hc, List.head?_cons, eq_of_beq hstart]
      have hmem := Text.firstLine_mem (b := b) hline
      rw [← hsplit] at hmem
      have hplain : isHeading (b.takeWhile (· != '\n')) = false := by
        simpa using List.any_eq_false.mp hu _ hmem
      rcases isHeading_firstLine hafter hx hb with ⟨rfl, hrest⟩ | hheading
      · rcases hend with hend | hend
        · rw [hsplit, List.getLast?_concat] at hend
          exact absurd (Option.some.inj hend) (by decide)
        · exact hend hrest
      · rw [hplain] at hheading
        cases hheading
  · rfl

/-- Nor does one begin in blanks. -/
theorem matchAt_none_of_blank {u rest before : Text} (hu : Text.isBlank u = true) (a b : Text)
    (hsplit : u = a ++ b) (hb : b ≠ []) :
    sectionPattern.matchAt ⟨a.reverse ++ before, b ++ rest⟩ = none := by
  obtain ⟨c, b, rfl⟩ := List.exists_cons_of_ne_nil hb
  have hc : isSpace c = true := List.all_eq_true.mp hu c (by rw [hsplit]; simp)
  rw [matchAt_section]
  split
  · cases hrun : headingTail.run ⟨⟨a.reverse ++ before, c :: b ++ rest⟩, []⟩ with
    | nil => rfl
    | cons v vs =>
      obtain ⟨x, r, hafter, -⟩ := after_of_headingTail (hrun ▸ List.mem_cons_self)
      obtain ⟨rfl, -⟩ := List.cons.inj hafter
      exact absurd hc (by decide)
  · rfl

/-! ## The match of a heading -/

/-- What the match of a heading takes of a section. -/
def Section.heading (s : Section) : Text := "## ".toList ++ (s.title ++ ['\n'])

theorem lineEnd_fails {s : Text} (h : s.head?.all (· == '\n') = false) : lineEnd.Fails s := by
  intro before groups
  rw [lineEnd, run]
  exact if_neg (by rw [h]; decide)

/-- The two line feeds behind a title: the first is taken, the second is given back. -/
theorem prefers_lineFeeds {rest : Text} (hrest : rest.head?.any isSpace = false)
    (hne : rest ≠ []) :
    (Regex.seq (.star .space) .lineEnd).Prefers ['\n'] ('\n' :: rest) [] := by
  have hend : lineEnd.Prefers [] ('\n' :: rest) [] := Prefers.assert fun _ => rfl
  refine (Prefers.starThen (t := ['\n']) (by decide) ?_ hend).cast rfl rfl
  intro s s' hsplit hs hall
  obtain ⟨c, s, rfl⟩ := List.exists_cons_of_ne_nil hs
  obtain ⟨d, rest, rfl⟩ := List.exists_cons_of_ne_nil hne
  obtain ⟨rfl, hsecond⟩ := List.cons.inj hsplit
  have hd : isSpace d = false := hrest
  cases s with
  | nil =>
    obtain rfl : d :: rest = s' := hsecond
    refine lineEnd_fails ?_
    rw [List.head?_cons, Option.all_some, beq_eq_false_iff_ne]
    rintro rfl
    exact absurd hd (by decide)
  | cons y s =>
    obtain ⟨rfl, -⟩ := List.cons.inj hsecond
    rw [List.all_cons, List.all_cons, hd] at hall
    simp at hall

/-- Within a title there is no line end behind blanks. -/
theorem fails_within_title {t u : Text} (hlast : t.getLast?.any isSpace = false)
    (hline : '\n' ∉ t) (hne : t ≠ []) :
    (Regex.seq (.star .space) .lineEnd).Fails (t ++ u) := by
  intro before groups
  rw [List.eq_nil_iff_forall_not_mem]
  intro v hv
  obtain ⟨w, hw, hv⟩ := mem_run_seq.mp hv
  obtain ⟨s, hs, hpasses, -⟩ := mem_run_rep_char.mp hw
  have hsplit : t ++ u = s ++ w.cursor.after := hpasses.1
  have hfail : w.cursor.after.head?.all (· == '\n') = false := by
    rcases List.append_eq_append_iff.mp hsplit with ⟨r, rfl, -⟩ | ⟨r, rfl, hafter⟩
    · -- the blanks would go on behind the last character of the title
      exfalso
      obtain ⟨c, hc⟩ := Option.ne_none_iff_exists'.mp
        (fun h => hne (List.getLast?_eq_none_iff.mp h))
      rw [hc, Option.any_some, List.all_eq_true.mp hs.all c
        (List.mem_append_left _ (List.mem_of_getLast? hc))] at hlast
      cases hlast
    · cases r with
      | nil =>
        exfalso
        obtain ⟨c, hc⟩ := Option.ne_none_iff_exists'.mp
          (fun h => hne (List.getLast?_eq_none_iff.mp h))
        rw [hc, Option.any_some, List.all_eq_true.mp hs.all c
          (by simpa using List.mem_of_getLast? hc)] at hlast
        cases hlast
      | cons c r =>
        rw [hafter, List.cons_append, List.head?_cons, Option.all_some, beq_eq_false_iff_ne]
        rintro rfl
        exact hline (by simp)
  have hnone := lineEnd_fails hfail w.cursor.before w.groups
  rw [show (⟨⟨w.cursor.before, w.cursor.after⟩, w.groups⟩ : Way) = w from rfl] at hnone
  rw [hnone] at hv
  cases hv

/-- **The heading of a section is matched up to the first of the two line feeds**, and its group is
the title. -/
theorem prefers_heading (s : Section) {rest : Text} (hrest : rest.head?.any isSpace = false)
    (hne : rest ≠ []) :
    headingTail.Prefers s.heading ('\n' :: rest) [(1, s.title)] := by
  obtain ⟨hfirst, hlast⟩ := Text.ends_of_strip s.title_trimmed
  have hhashes : (Regex.lit "##").Prefers "##".toList
      (' ' :: (s.title ++ (['\n'] ++ '\n' :: rest))) [] :=
    (Prefers.char (x := '#') rfl).seq (Prefers.char (x := '#') rfl)
  have hblank : (Regex.plus .space).Prefers [' '] (s.title ++ (['\n'] ++ '\n' :: rest)) [] := by
    refine Prefers.plus (List.cons_ne_nil _ _) (by decide) ?_
    obtain ⟨c, t, ht⟩ := List.exists_cons_of_ne_nil s.title_ne
    rw [ht] at hfirst ⊢
    exact hfirst
  have htitle : (Regex.seq (.group 1 (.rep false 1 none .dot))
      (.seq (.star .space) .lineEnd)).Prefers (s.title ++ ['\n']) ('\n' :: rest)
        ([] ++ [(1, s.title)]) := by
    refine Prefers.lazyThen 1 s.title_ne ?_ ?_ (prefers_lineFeeds hrest hne)
    · rw [List.all_eq_true]
      intro c hc
      rw [bne_iff_ne]
      rintro rfl
      exact s.title_line hc
    · intro a b hsplit ha hb
      refine fails_within_title ?_ ?_ hb
      · rw [hsplit, List.getLast?_append_of_ne_nil _ hb] at hlast
        exact hlast
      · intro hmem
        exact s.title_line (by rw [hsplit]; exact List.mem_append_right _ hmem)
  have hrest : (s.title ++ ['\n']) ++ '\n' :: rest = s.title ++ (['\n'] ++ '\n' :: rest) :=
    List.append_assoc ..
  rw [← hrest] at hhashes hblank
  exact (hhashes.seq (hblank.seq htitle)).cast rfl rfl

/-! ## The matches of a document -/

/-- A section with some blanks behind it. -/
def Section.written (s : Section) (pad : Text) : Text := s.heading ++ '\n' :: (s.body ++ pad)

theorem Section.render_eq (s : Section) : s.render = s.written s.gap := by
  have hopen : "## ".toList = ['#', '#', ' '] := rfl
  have hgap : "\n\n".toList = ['\n', '\n'] := rfl
  simp [render, written, heading, hopen, hgap]

/-- Behind a section there are blanks up to the next one. -/
theorem renderSections_cons (s : Section) (rest : List Section) :
    ∃ pad, Text.isBlank pad = true ∧ (rest ≠ [] → pad.getLast? = some '\n') ∧
      renderSections (s :: rest) = s.written pad ++ renderSections rest := by
  cases rest with
  | nil =>
    refine ⟨s.gap, s.gap_blank, fun h => absurd rfl h, ?_⟩
    rw [renderSections, renderSections, s.render_eq, List.append_nil]
  | cons s' rest =>
    refine ⟨s.gap ++ ['\n'], ?_, fun _ => List.getLast?_concat, ?_⟩
    · rw [Text.isBlank_append, s.gap_blank]
      rfl
    · show s.render ++ '\n' :: renderSections (s' :: rest) = _
      rw [s.render_eq]
      simp [Section.written]

/-- The match of a heading that is written behind some text. -/
def Section.headingMatch (s : Section) (before rest : Text) : Regex.Match :=
  ⟨⟨before, s.heading ++ rest⟩, ⟨⟨s.heading.reverse ++ before, rest⟩, [(1, s.title)]⟩⟩

/-- **One section of a document**: its heading is matched, and nothing else of it. -/
theorem hits_section (s : Section) {before pad tail : Text}
    (hstart : before.head?.all (· == '\n') = true) (hpad : Text.isBlank pad = true)
    (hend : (pad ++ tail).head? ≠ some '#') :
    sectionPattern.hits ⟨before, s.written pad ++ tail⟩ =
      s.headingMatch before ('\n' :: (s.body ++ (pad ++ tail))) ::
        sectionPattern.hits ⟨(s.written pad).reverse ++ before, tail⟩ := by
  obtain ⟨hfirst, -⟩ := Text.ends_of_strip s.body_trimmed
  have hrest : (s.body ++ (pad ++ tail)).head?.any isSpace = false := by
    obtain ⟨c, t, ht⟩ := List.exists_cons_of_ne_nil s.body_ne
    rw [ht] at hfirst ⊢
    exact hfirst
  have hprefers := prefers_heading s hrest (List.append_ne_nil_of_left_ne_nil s.body_ne _)
  have hmatch : sectionPattern.matchAt ⟨before, s.heading ++ '\n' :: (s.body ++ (pad ++ tail))⟩ =
      some (s.headingMatch before ('\n' :: (s.body ++ (pad ++ tail)))) := by
    rw [matchAt_section, if_pos hstart, hprefers before []]
    rfl
  have hwritten : s.written pad ++ tail = s.heading ++ '\n' :: (s.body ++ (pad ++ tail)) := by
    simp [Section.written]
  have hafter : (s.written pad).reverse ++ before =
      pad.reverse ++ (s.body.reverse ++ (['\n'] ++ (s.heading.reverse ++ before))) := by
    simp [Section.written]
  -- the line feed, the body and the blanks are passed over
  rw [hwritten, hafter, solid_sectionPattern.hits_of_match hmatch]
  refine congrArg (_ :: ·) ?_
  show sectionPattern.hits ⟨s.heading.reverse ++ before,
    ['\n'] ++ (s.body ++ (pad ++ tail))⟩ = _
  rw [solid_sectionPattern.hits_skip (matchAt_none_of_blank rfl),
    solid_sectionPattern.hits_skip (matchAt_none_of_headless s.body_headless (.inr hend)),
    solid_sectionPattern.hits_skip (matchAt_none_of_blank hpad)]
  rfl

/-- **The first section of a document**: some blanks stand behind it, and the matches go on behind
them, at the start of a line if there is another section. -/
theorem hits_renderSections (s : Section) (rest : List Section) {before : Text}
    (hstart : before.head?.all (· == '\n') = true) :
    ∃ pad, Text.isBlank pad = true ∧
      renderSections (s :: rest) = s.written pad ++ renderSections rest ∧
      (rest ≠ [] → ((s.written pad).reverse ++ before).head?.all (· == '\n') = true) ∧
      sectionPattern.hits ⟨before, renderSections (s :: rest)⟩ =
        s.headingMatch before ('\n' :: (s.body ++ (pad ++ renderSections rest))) ::
          sectionPattern.hits ⟨(s.written pad).reverse ++ before, renderSections rest⟩ := by
  obtain ⟨pad, hpad, hfeed, hrender⟩ := renderSections_cons s rest
  have hend : (pad ++ renderSections rest).head? ≠ some '#' := by
    cases pad with
    | nil =>
      cases rest with
      | nil => decide
      | cons s' rest => cases hfeed (List.cons_ne_nil _ _)
    | cons c pad =>
      have hc : isSpace c = true := List.all_eq_true.mp hpad c List.mem_cons_self
      rw [List.cons_append, List.head?_cons, ne_eq, Option.some.injEq]
      rintro rfl
      exact absurd hc (by decide)
  have hlater : rest ≠ [] →
      ((s.written pad).reverse ++ before).head?.all (· == '\n') = true := by
    intro hne
    obtain ⟨pad, rfl⟩ := List.getLast?_eq_some_iff.mp (hfeed hne)
    simp [Section.written]
  exact ⟨pad, hpad, hrender, hlater, hrender ▸ hits_section s hstart hpad hend⟩

/-- The first match of a document is at its first section. -/
theorem head?_hits_start {sections : List Section} (hne : sections ≠ []) {before : Text}
    (hstart : before.head?.all (· == '\n') = true) :
    (sectionPattern.hits ⟨before, renderSections sections⟩).head?.map (·.start) =
      some before.length := by
  obtain ⟨s, rest, rfl⟩ := List.exists_cons_of_ne_nil hne
  obtain ⟨pad, -, -, -, hhits⟩ := hits_renderSections s rest hstart
  rw [hhits]
  rfl

end Heading

/-! ## The chunks of a document -/

/-- What `chunk_markdown` makes of a section. -/
theorem chunkAt_section (s : Section) (sourceFile before pad tail : Text)
    (hpad : Text.isBlank pad = true) :
    ∃ c, chunkAt (before.reverse ++ (s.written pad ++ tail)) sourceFile
        (s.headingMatch before ('\n' :: (s.body ++ (pad ++ tail))))
        (before.length + (s.written pad).length) = some c ∧
      c.sectionTitle = s.title ∧ c.text = s.title ++ "\n\n".toList ++ s.body ∧
      c.charStart = before.length ∧ c.charEnd = before.length + (s.written pad).length := by
  let m := s.headingMatch before ('\n' :: (s.body ++ (pad ++ tail)))
  have htitle : Text.strip (m.group 1) = s.title := s.title_trimmed
  have hstop : m.stop = before.length + s.heading.length := by
    show (s.heading.reverse ++ before).length = _
    rw [List.length_append, List.length_reverse, Nat.add_comm]
  have hbody : Text.strip (((before.reverse ++ (s.written pad ++ tail)).take
      (before.length + (s.written pad).length)).drop m.stop) = s.body := by
    have htake : (before.reverse ++ (s.written pad ++ tail)).take
        (before.length + (s.written pad).length) =
          (before.reverse ++ s.heading) ++ (['\n'] ++ (s.body ++ pad)) := by
      rw [← List.append_assoc before.reverse, List.take_left' (by simp)]
      simp [Section.written]
    rw [htake, hstop, List.drop_left' (by simp)]
    exact Text.strip_padded rfl s.body_ne s.body_trimmed hpad
  have hempty : s.body.isEmpty = false := List.isEmpty_eq_false_iff.mpr s.body_ne
  unfold chunkAt
  dsimp only
  rw [hbody, htitle, hempty]
  exact ⟨_, rfl, rfl, rfl, rfl, rfl⟩

/-- **Sections that are written from a place on are read back**, and their spans tile what is
written. -/
theorem chunksOf_sections (sourceFile : Text) (sections : List Section) {before text : Text}
    (hstart : sections ≠ [] → before.head?.all (· == '\n') = true)
    (htext : text = before.reverse ++ renderSections sections) :
    (chunksOf text sourceFile (sectionPattern.hits ⟨before, renderSections sections⟩)).map
        (fun c => (c.sectionTitle, c.text)) =
        sections.map (fun s => (s.title, s.title ++ "\n\n".toList ++ s.body)) ∧
      SpansTile before.length text.length
        (chunksOf text sourceFile (sectionPattern.hits ⟨before, renderSections sections⟩)) := by
  induction sections generalizing before with
  | nil =>
    rw [show renderSections [] = [] from rfl, solid_sectionPattern.hits_nil, htext]
    refine ⟨rfl, ?_⟩
    show before.length = (before.reverse ++ []).length
    rw [List.append_nil, List.length_reverse]
  | cons s rest ih =>
    obtain ⟨pad, hpad, hrender, hlater, hhits⟩ :=
      hits_renderSections s rest (hstart (List.cons_ne_nil _ _))
    have htext' : text = ((s.written pad).reverse ++ before).reverse ++ renderSections rest := by
      rw [htext, hrender]
      simp
    obtain ⟨hmap, htile⟩ := ih hlater htext'
    have hlength : ((s.written pad).reverse ++ before).length =
        before.length + (s.written pad).length := by
      rw [List.length_append, List.length_reverse, Nat.add_comm]
    -- the section ends where the next heading begins, or with the document
    have hstop : ((sectionPattern.hits ⟨(s.written pad).reverse ++ before,
        renderSections rest⟩).head?.map (·.start)).getD text.length =
          before.length + (s.written pad).length := by
      rw [← hlength]
      by_cases hrest : rest = []
      · subst hrest
        rw [htext', show renderSections [] = [] from rfl, solid_sectionPattern.hits_nil]
        simp [-List.reverse_append]
      · rw [head?_hits_start hrest (hlater hrest)]
        rfl
    obtain ⟨c, hc, htitle, hctext, hcstart, hcend⟩ :=
      chunkAt_section s sourceFile before pad (renderSections rest) hpad
    rw [← hrender, ← htext] at hc
    rw [hhits, chunksOf, hstop, hc, List.map_append, List.map_cons, hmap]
    rw [hlength, ← hcend] at htile
    have hpos : 0 < (s.written pad).length := by simp [Section.written, Section.heading]
    refine ⟨?_, hcstart, by omega, htile⟩
    rw [← hctext, ← htitle]
    rfl

/-- **A document gives its sections back**: one chunk for each, in order, with its title and its
text, and the spans of the chunks tile the document from the first heading to its end. -/
theorem sections_recovered (preamble : Preamble) (sections : List Section) (sourceFile : Text) :
    let text := preamble.text ++ renderSections sections
    let chunks := chunkMarkdown text sourceFile
    chunks.map (fun c => (c.sectionTitle, c.text)) =
        sections.map (fun s => (s.title, s.title ++ "\n\n".toList ++ s.body)) ∧
      SpansTile preamble.text.length text.length chunks := by
  have hstart : sections ≠ [] → preamble.text.reverse.head?.all (· == '\n') = true := by
    intro _
    rw [List.head?_reverse]
    rcases preamble.whole with h | h <;> rw [h] <;> rfl
  have hhead : preamble.text.getLast? = some '\n' ∨
      (renderSections sections).head? ≠ some '#' ∨ preamble.text = [] := by
    rcases preamble.whole with h | h
    · exact .inr (.inr h)
    · exact .inl h
  have hskip : sectionPattern.hits (.start (preamble.text ++ renderSections sections)) =
      sectionPattern.hits ⟨preamble.text.reverse, renderSections sections⟩ := by
    rcases preamble.whole with h | h
    · rw [h]
      rfl
    · have hnone := @matchAt_none_of_headless preamble.text (renderSections sections) []
        preamble.headless (.inl h)
      have hrest := solid_sectionPattern.hits_skip hnone
      rwa [List.append_nil] at hrest
  have hread := @chunksOf_sections sourceFile sections preamble.text.reverse
    (preamble.text ++ renderSections sections) hstart (by rw [List.reverse_reverse])
  rw [List.length_reverse, ← hskip, ← solid_sectionPattern.finditer_eq_hits] at hread
  exact hread

end OmniCare
