import OmniCare.Rendering

/-! # Nothing that is written becomes markup

Escaping leaves no angle bracket, and every step of the renderer puts whole tags around texts that
are woven of tags, or takes characters out that no tag has.
-/
namespace OmniCare.Markup

open Regex

/-! ## Tags -/

theorem isTag_of_emitted : ∀ t ∈ emittedTags, IsTag t := by decide

/-- The marks of the markdown that is rewritten. -/
def marks : Text := "*`[](.,;:!?)".toList

theorem not_mem_emitted : ∀ c ∈ marks, ∀ t ∈ emittedTags, c ∉ t := by decide

/-- A text is woven of the tags that the renderer emits. -/
abbrev Safe (s : Text) : Prop := Woven emittedTags s

theorem safe_of_emitted {t : Text} (h : emittedTags.elem t = true) : Safe t :=
  .of_mem (List.mem_of_elem_eq_true h)

/-- Marks are taken out of a text. -/
theorem Safe.cut {x m y : Text} (h : Safe (x ++ (m ++ y))) (hne : m ≠ [])
    (hm : ∀ c ∈ m, c ∈ marks) : Safe x ∧ Safe y :=
  h.cutText hne fun c hc => not_mem_emitted c (hm c hc)

/-! ## Within a line -/

section Inline
variable {s : Text}

/-- What stands between two marks is put between two tags. -/
theorem safe_enclosed {a b opening closing : Text} {r : Regex} (ha : a ≠ []) (hb : b ≠ [])
    (hmarks : ∀ c ∈ a ++ b, c ∈ marks) (hopening : Safe opening) (hclosing : Safe closing)
    (h : Safe s) : Safe ((cat [lit a, group 1 r, lit b]).sub
      (fun m => opening ++ m.group 1 ++ closing) s) := by
  refine sub_induction (fun hrewrites hs => ?_) h
  cases hrewrites with
  | @intro c v t x takes passes =>
  rw [← passes.upTo, takes.enclosed.upTo, List.append_assoc, List.append_assoc] at hs
  obtain ⟨hx, hs⟩ := hs.cut ha fun c hc => hmarks c (List.mem_append_left b hc)
  obtain ⟨hg, hy⟩ := hs.cut hb fun c hc => hmarks c (List.mem_append_right a hc)
  exact hx.append (((hopening.append hg).append hclosing).append hy)

theorem safe_italic (h : Safe s) : Safe (italicPattern.sub
    (fun m => m.group 1 ++ "<em>".toList ++ m.group 2 ++ "</em>".toList) s) := by
  refine sub_induction (fun hrewrites hs => ?_) h
  cases hrewrites with
  | @intro c v t x takes passes =>
  obtain ⟨w, -, hfirst, htakes⟩ := takes.group_seq rfl
  cases htakes with
  | @seq _ _ _ u _ hopen htakes =>
  obtain ⟨w, -, hsecond, htakes⟩ := htakes.group_seq rfl
  cases htakes with
  | @seq _ _ _ u' _ hclose hahead =>
  cases hahead with
  | assert hahead =>
  have hpasses := ((hfirst.trans (takes_lit_iff.mp hopen).1).trans hsecond).trans
    (takes_lit_iff.mp hclose).1
  rw [← passes.upTo, hpasses.upTo, List.append_assoc, List.append_assoc, List.append_assoc,
    ← List.append_assoc x] at hs
  obtain ⟨hx, hs⟩ := Safe.cut hs (by decide) (by decide)
  obtain ⟨hg, hy⟩ := Safe.cut hs (by decide) (by decide)
  have hopening : Safe "<em>" := safe_of_emitted (by decide)
  have hclosing : Safe "</em>" := safe_of_emitted (by decide)
  have hwhole := hx.append (((hopening.append hg).append hclosing).append hy)
  simpa only [List.append_assoc, Match.group] using hwhole

theorem safe_link (h : Safe s) : Safe (linkPattern.sub (·.group 1) s) := by
  refine sub_induction (fun hrewrites hs => ?_) h
  cases hrewrites with
  | @intro c v t x takes passes =>
  cases takes with
  | @seq _ _ _ u _ hopen htakes =>
  obtain ⟨w, -, htext, htakes⟩ := htakes.group_seq rfl
  cases htakes with
  | @seq _ _ _ u' _ hbetween htakes =>
  obtain ⟨w', -, hurl, hclose⟩ := htakes.group_seq rfl
  have hpasses := ((((takes_lit_iff.mp hopen).1.trans htext).trans
    (takes_lit_iff.mp hbetween).1).trans hurl).trans (takes_lit_iff.mp hclose).1
  rw [← passes.upTo, hpasses.upTo, List.append_assoc, List.append_assoc, List.append_assoc,
    List.append_assoc] at hs
  obtain ⟨hx, hs⟩ := Safe.cut hs (by decide) (by decide)
  obtain ⟨hg, hs⟩ := Safe.cut hs (by decide) (by decide)
  obtain ⟨-, hy⟩ := Safe.cut hs (by decide) (by decide)
  exact hx.append (hg.append hy)

/-- **What is put within a line is tags.** -/
theorem safe_inline (h : Safe s) : Safe (inline s) := by
  have hbold : Safe "<strong>" ∧ Safe "</strong>" :=
    ⟨safe_of_emitted (by decide), safe_of_emitted (by decide)⟩
  have hcode : Safe "<code>" ∧ Safe "</code>" :=
    ⟨safe_of_emitted (by decide), safe_of_emitted (by decide)⟩
  exact safe_link (safe_enclosed (by decide) (by decide) (by decide) hcode.1 hcode.2
    (safe_italic (safe_enclosed (by decide) (by decide) (by decide) hbold.1 hbold.2 h)))

end Inline

/-! ## Lines -/

/-- A text is put between two tags. -/
theorem Safe.between {opening closing s : Text} (h : Safe s)
    (hopening : emittedTags.elem opening = true) (hclosing : emittedTags.elem closing = true) :
    Safe (opening ++ s ++ closing) :=
  ((safe_of_emitted hopening).append h).append (safe_of_emitted hclosing)

theorem safe_item {s : Text} (h : Safe s) : Safe (Lines.item s) :=
  (safe_inline h).between (by decide) (by decide)

/-- A heading has one hash at least, and its level is 3 or 4. -/
theorem safe_heading {hashes title : Text} (hne : hashes ≠ []) (h : Safe title) :
    Safe (Lines.heading hashes title) := by
  have hlevel : min (hashes.length + 2) 4 ∈ [3, 4] := by
    have hpos := List.length_pos_of_ne_nil hne
    simp only [List.mem_cons, List.not_mem_nil, or_false]
    omega
  have htags : ∀ n ∈ [3, 4],
      emittedTags.elem ("<h".toList ++ Text.ofNat n ++ " class=\"md-h\">".toList) = true ∧
        emittedTags.elem ("</h".toList ++ (Text.ofNat n ++ ['>'])) = true := by decide
  obtain ⟨hopening, hclosing⟩ := htags _ hlevel
  rw [Lines.heading, List.append_assoc, List.append_assoc]
  exact (safe_inline h).between hopening hclosing

theorem headingPattern_captures : headingPattern.Captures 1 (· ≠ []) := by
  refine .second <| .second ?_
  intro w v hv
  obtain ⟨u, hu, hpasses, -⟩ := (mem_run_iff.mp hv).group_seq rfl
  obtain ⟨t, ht, ⟨hsame, -⟩, -⟩ := takes_rep_char_iff.mp hu
  obtain rfl : v.group 1 = t := List.append_cancel_right (hpasses.1.symm.trans hsame)
  exact List.ne_nil_of_length_pos ht.atLeast

/-- The tags of lists. -/
def listTags : List Text := ["ul", "ol"]

namespace Lines

/-- Everything that has been put together is woven of tags. -/
structure Sound (s : Lines) : Prop where
  blocks : ∀ b ∈ s.blocks, ∀ block ∈ b, Safe block.html
  list : ∀ list ∈ s.list, list.tag ∈ listTags ∧ ∀ i ∈ list.items, Safe i

variable {s : Lines}

theorem safe_list {tag : Text} {items : List Text} (htag : tag ∈ listTags)
    (hitems : ∀ i ∈ items, Safe i) :
    Safe ('<' :: tag ++ ['>'] ++ items.flatten ++ "</".toList ++ tag ++ ['>']) := by
  have htags : ∀ tag ∈ listTags, emittedTags.elem ('<' :: tag ++ ['>']) = true ∧
      emittedTags.elem ("</".toList ++ (tag ++ ['>'])) = true := by decide
  obtain ⟨hopening, hclosing⟩ := htags tag htag
  rw [List.append_assoc, List.append_assoc]
  exact Safe.between (Woven.flatten hitems) hopening hclosing

theorem Sound.closeList (h : s.Sound) : s.closeList.Sound := by
  obtain ⟨hblocks, hlist⟩ := h
  rw [Lines.closeList]
  split
  · rename_i list hsome
    obtain ⟨htag, hitems⟩ := hlist list hsome
    refine ⟨fun b hb => ?_, ?_⟩
    · rcases List.mem_append.mp hb with hb | hb
      · exact hblocks b hb
      · cases List.mem_singleton.mp hb
        rintro _ ⟨⟩
        exact safe_list htag hitems
    · rintro _ ⟨⟩
  · exact ⟨hblocks, hlist⟩

theorem Sound.pushBlock (h : s.Sound) {block : Option Block}
    (hblock : ∀ b ∈ block, Safe b.html) : (s.pushBlock block).Sound := by
  obtain ⟨hblocks, hlist⟩ := h.closeList
  refine ⟨fun b hb => ?_, hlist⟩
  rcases List.mem_append.mp hb with hb | hb
  · exact hblocks b hb
  · cases List.mem_singleton.mp hb
    exact hblock

theorem Sound.pushItem (h : s.Sound) {tag item : Text} (htag : tag ∈ listTags)
    (hitem : Safe item) : (s.pushItem tag item).Sound := by
  have hnew : ∀ i ∈ [item], Safe i := by simpa using hitem
  rw [Lines.pushItem]
  split
  · rename_i list hsome
    obtain ⟨hold, hitems⟩ := h.list list hsome
    split
    · refine ⟨h.blocks, ?_⟩
      rintro _ ⟨⟩
      exact ⟨hold, List.forall_mem_append.mpr ⟨hitems, hnew⟩⟩
    · refine ⟨h.closeList.blocks, ?_⟩
      rintro _ ⟨⟩
      exact ⟨htag, hnew⟩
  · refine ⟨h.blocks, ?_⟩
    rintro _ ⟨⟩
    exact ⟨htag, hnew⟩

/-- **One line** keeps it so. -/
theorem Sound.line (h : s.Sound) {line : Text} (hline : line.all isPlainChar = true) :
    (s.line line).Sound := by
  have hgroup : ∀ {r : Regex} {m : Match}, r.search line = some m → ∀ i, Safe (m.group i) :=
    fun hm i => .of_plain (all_group_of_search hm hline i)
  rw [Lines.line]
  split
  · rename_i m hm
    refine h.pushBlock ?_
    rintro _ ⟨⟩
    exact safe_heading (headingPattern_captures.of_search hm) (hgroup hm 2)
  · rename_i m _ hm
    exact h.pushItem (by decide) (safe_item (hgroup hm 1))
  · rename_i m _ _ hm
    exact h.pushItem (by decide) (safe_item (hgroup hm 1))
  · split
    · refine h.pushBlock ?_
      rintro _ ⟨⟩
    · have hinline : Safe (inline line) := safe_inline (.of_plain hline)
      refine h.pushBlock ?_
      rintro _ ⟨⟩
      dsimp only
      exact hinline

theorem Sound.foldl (h : s.Sound) {lines : List Text}
    (hlines : ∀ line ∈ lines, line.all isPlainChar = true) :
    (lines.foldl Lines.line s).Sound := by
  induction lines generalizing s with
  | nil => exact h
  | cons line lines ih =>
    obtain ⟨hline, hlines⟩ := List.forall_mem_cons.mp hlines
    exact ih (h.line hline) hlines

end Lines

/-! ## Paragraphs -/

namespace Page

/-- Everything that has been put together is woven of tags. -/
structure Sound (p : Page) : Prop where
  html : ∀ h ∈ p.html, Safe h
  para : ∀ h ∈ p.para, Safe h

variable {p : Page}

theorem Sound.flush (h : p.Sound) : p.flush.Sound := by
  rw [Page.flush]
  split
  · have hbreak : Safe "<br>" := safe_of_emitted (by decide)
    have hpara : Safe ("<p>".toList ++ Text.join "<br>" p.para ++ "</p>".toList) :=
      Safe.between (Woven.join hbreak h.para) (by decide) (by decide)
    refine ⟨List.forall_mem_append.mpr ⟨h.html, by simpa using hpara⟩, ?_⟩
    intro _ hmem
    cases hmem
  · exact h

/-- **One block** keeps it so. -/
theorem Sound.add (h : p.Sound) {b : Option Block} (hb : ∀ block ∈ b, Safe block.html) :
    (p.add b).Sound := by
  cases b with
  | none => exact h.flush
  | some block =>
    have hblock : ∀ html ∈ [block.html], Safe html := by simpa using hb
    obtain ⟨own, html⟩ := block
    cases own with
    | true => exact ⟨List.forall_mem_append.mpr ⟨h.flush.html, hblock⟩, h.flush.para⟩
    | false => exact ⟨h.html, List.forall_mem_append.mpr ⟨h.para, hblock⟩⟩

theorem Sound.foldl (h : p.Sound) {blocks : List (Option Block)}
    (hblocks : ∀ b ∈ blocks, ∀ block ∈ b, Safe block.html) : (blocks.foldl Page.add p).Sound := by
  induction blocks generalizing p with
  | nil => exact h
  | cons b blocks ih =>
    obtain ⟨hb, hblocks⟩ := List.forall_mem_cons.mp hblocks
    exact ih (h.add hb) hblocks

end Page

/-! ## The whole text -/

theorem all_escapeHtml (raw : Text) : (escapeHtml raw).all isPlainChar = true := by
  have hentity : ∀ c, (entity c).all isPlainChar = true := by
    intro c
    unfold entity
    split
    · decide
    · decide
    · decide
    · rename_i hless hgreater
      rw [List.all_cons, List.all_nil, Bool.and_true, isPlainChar, Bool.and_eq_true, bne_iff_ne,
        bne_iff_ne]
      exact ⟨hless, hgreater⟩
  rw [escapeHtml, List.all_flatMap]
  exact List.all_eq_true.mpr fun c _ => hentity c

theorem safe_spacedMark {s : Text} (h : Safe s) : Safe (spacedMark.sub (·.group 1) s) := by
  refine sub_induction (fun hrewrites hs => ?_) h
  cases hrewrites with
  | @intro c v t x takes passes =>
  cases takes with
  | @seq _ _ _ u _ hgap hmark =>
  obtain ⟨g, hg, hgap, hgroups⟩ := takes_rep_char_iff.mp hgap
  cases hmark with
  | @group _ _ _ w hmark =>
  obtain ⟨m, hm, hmark, -⟩ := takes_char_iff.mp hmark
  have hpasses : c.Passes w.cursor (g ++ [m]) := hgap.trans hmark
  have hcaptured : Match.group ⟨c, ⟨w.cursor, (1, u.cursor.upTo w.cursor) :: w.groups⟩⟩ 1 = [m] :=
    hmark.upTo
  have hmem : m ∈ ".,;:!?".toList := List.mem_of_elem_eq_true hm
  have hmarks : ∀ m ∈ ".,;:!?".toList, m ∈ marks ∧ isPlainChar m = true := by decide
  have hblank : '>' ∉ g := by
    intro hmem
    exact absurd (List.all_eq_true.mp hg.all _ hmem) (by decide)
  rw [← passes.upTo, hpasses.upTo, List.append_assoc, ← List.append_assoc x] at hs
  obtain ⟨hx, hy⟩ := hs.cut (List.cons_ne_nil m []) (by simpa using (hmarks m hmem).1)
  rw [hcaptured]
  exact (hx.left isTag_of_emitted hblank).append (.char (hmarks m hmem).2 hy)

theorem all_splitOn {p : Char → Bool} (sep : Char) {s : Text} (h : s.all p = true) :
    ∀ line ∈ Text.splitOn sep s, line.all p = true := by
  induction s with
  | nil => simp [Text.splitOn]
  | cons c s ih =>
    obtain ⟨hc, hs⟩ := Bool.and_eq_true_iff.mp h
    rw [Text.splitOn]
    split
    · exact List.forall_mem_cons.mpr ⟨rfl, ih hs⟩
    · split
      · simpa using hc
      · rename_i w ws hsplit
        have hmore := ih hs
        rw [hsplit] at hmore
        obtain ⟨hw, hws⟩ := List.forall_mem_cons.mp hmore
        exact List.forall_mem_cons.mpr ⟨Bool.and_eq_true_iff.mpr ⟨hc, hw⟩, hws⟩

theorem Safe.trim {s : Text} (h : Safe s) : Safe (trim s) :=
  (h.dropWhile isTag_of_emitted (by decide)).rdropWhile isTag_of_emitted (by decide)

/-- **Nothing that stands in an escaped text becomes markup.** -/
theorem safe_renderEscaped {escaped : Text} (h : escaped.all isPlainChar = true) :
    Safe (renderEscaped escaped) := by
  have hsub : ∀ (r : Regex) (new : Text) {s : Text}, new.all isPlainChar = true →
      s.all isPlainChar = true → (r.subText new s).all isPlainChar = true :=
    fun r _ _ hnew hs => all_sub hs fun _ => hnew
  have hlines : Lines.Sound {} := by
    refine ⟨?_, ?_⟩
    · intro _ hmem
      cases hmem
    · rintro _ ⟨⟩
  have hpage : Page.Sound {} := by
    refine ⟨?_, ?_⟩ <;>
    · intro _ hmem
      cases hmem
  have hplain := hsub wholeFence [] rfl (hsub blankRun [' '] rfl
    (hsub (.anyOf "【】「」") [' '] rfl h))
  have hpage := (hpage.foldl (hlines.foldl (all_splitOn '\n' hplain)).closeList.blocks).flush
  exact (safe_spacedMark (Woven.flatten hpage.html)).trim

/-- **Nothing a model or a policy text writes becomes markup**: when the tags that the renderer
emits are deleted, no angle bracket is left. -/
theorem rendered_answer_escaped (raw : Text) :
    '<' ∉ deleteAll emittedTags (renderText raw) ∧
      '>' ∉ deleteAll emittedTags (renderText raw) := by
  have hsafe : Safe (renderText raw) := safe_renderEscaped (all_escapeHtml raw)
  have hall := hsafe.all_deleteAll isTag_of_emitted isTag_of_emitted fun _ ht => ht
  rw [List.all_eq_true] at hall
  exact ⟨fun hmem => absurd (hall _ hmem) (by decide), fun hmem => absurd (hall _ hmem) (by decide)⟩

end OmniCare.Markup
