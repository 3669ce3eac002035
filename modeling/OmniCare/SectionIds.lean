import OmniCare.Blocks
import OmniCare.Indexing
import OmniCare.Sections

/-! # The ids of sections

The id of a section is the file name and the slug of what its title says before the first colon.
A slug keeps the words of that part, `[a-z0-9]+` in lower case, and nothing else of it: two sections
whose titles differ behind the colon only, or in punctuation, or in letters that are not ASCII, have
one id.  `chunk_ids_nodup_iff` says for which documents the ids are distinct, and that these are the
documents all of whose sections are found once they are ingested.
-/
namespace OmniCare

/-! ## Slugs -/

/-- A character that a slug keeps. -/
def isSlugChar (c : Char) : Bool := c.isLower || c.isDigit

/-- The words of a name: runs of letters and digits of ASCII, in lower case.  A name without any
counts as `section`. -/
def nameWords (name : Text) : List Text :=
  match Text.words ((Text.lower name).map fun c => if isSlugChar c then c else ' ') with
  | [] => ["section"]
  | ws => ws

namespace Text

theorem splitOn_of_not_mem {sep : Char} {w : Text} (h : sep ∉ w) : splitOn sep w = [w] := by
  induction w with
  | nil => rfl
  | cons c w ih =>
    obtain ⟨hc, hw⟩ := List.ne_and_not_mem_of_not_mem_cons h
    exact splitOn_cons (Ne.symm hc) (ih hw)

theorem join_singleton (sep w : Text) : join sep [w] = w := by simp [join, List.intercalate]

theorem splitOn_join {sep : Char} {ws : List Text} (hne : ws ≠ []) (h : ∀ w ∈ ws, sep ∉ w) :
    splitOn sep (join [sep] ws) = ws := by
  induction ws with
  | nil => exact absurd rfl hne
  | cons w ws ih =>
    have hw := h w List.mem_cons_self
    by_cases hws : ws = []
    · subst hws
      rw [join_singleton, splitOn_of_not_mem hw]
    · rw [join_cons _ _ hws, List.append_assoc, List.singleton_append, splitOn_append_sep,
        splitOn_of_not_mem hw, ih hws fun v hv => h v (List.mem_cons_of_mem w hv)]
      rfl

/-- Nothing is joined only where there are no words. -/
theorem join_eq_nil_iff {sep : Text} {ws : List Text} (h : ∀ w ∈ ws, w ≠ []) :
    join sep ws = [] ↔ ws = [] := by
  refine ⟨fun hnil => ?_, fun hws => hws ▸ rfl⟩
  cases ws with
  | nil => rfl
  | cons w ws =>
    have hw := h w List.mem_cons_self
    by_cases hws : ws = []
    · subst hws
      exact absurd ((join_singleton sep w).symm.trans hnil) hw
    · rw [join_cons _ _ hws, List.append_assoc] at hnil
      exact absurd (List.append_eq_nil_iff.mp hnil).1 hw

theorem rstripBy_eq_self {p : Char → Bool} {s : Text} (h : s.any p = false) :
    rstripBy p s = s := by
  rw [rstripBy]
  have hnone : ∀ c ∈ s.reverse, ¬ p c = true := fun c hc =>
    List.any_eq_false.mp h c (List.mem_reverse.mp hc)
  cases hs : s.reverse with
  | nil => exact (List.reverse_eq_nil_iff.mp hs).symm ▸ rfl
  | cons c t =>
    rw [List.dropWhile_cons_of_neg (hnone c (hs ▸ List.mem_cons_self)), ← hs, List.reverse_reverse]

/-- Trimming the right of a text goes on through a trimmed character only behind nothing else. -/
theorem rstripBy_append_cons {p : Char → Bool} {c : Char} (hc : p c = true) (a b : Text) :
    rstripBy p (a ++ c :: b) =
      if rstripBy p b = [] then rstripBy p a else a ++ c :: rstripBy p b := by
  have hreverse : (a ++ c :: b).reverse = b.reverse ++ (c :: a.reverse) := by simp
  simp only [rstripBy, hreverse, List.dropWhile_append, List.isEmpty_iff, List.reverse_eq_nil_iff]
  split
  · rw [List.dropWhile_cons_of_pos hc]
  · simp

end Text

/-- What a slug sees of a text: what it does not keep counts as a blank. -/
def slugMask (s : Text) : Text := s.map fun c => if isSlugChar c then c else ' '

theorem toNat_of_isSlugChar {c : Char} (h : isSlugChar c = true) : c.toNat < 128 := by
  rcases Bool.or_eq_true_iff.mp h with hlower | hdigit
  · have hle : c.val ≤ 'z'.val := of_decide_eq_true (Bool.and_eq_true_iff.mp hlower).2
    exact Nat.lt_of_le_of_lt (UInt32.le_iff_toNat_le.mp hle) (by decide)
  · have hle : c.val ≤ '9'.val := of_decide_eq_true (Bool.and_eq_true_iff.mp hdigit).2
    exact Nat.lt_of_le_of_lt (UInt32.le_iff_toNat_le.mp hle) (by decide)

theorem kept_of_isSlugChar {c : Char} (h : isSlugChar c = true) :
    isSpace c = false ∧ c ≠ '-' := by
  have hascii : ∀ n < 128, isSlugChar (Char.ofNat n) = true →
      isSpace (Char.ofNat n) = false ∧ Char.ofNat n ≠ '-' := by decide
  exact forall_ascii (P := fun c => isSlugChar c = true → isSpace c = false ∧ c ≠ '-') hascii
    (toNat_of_isSlugChar h) h

/-- A character that a slug does not keep. -/
abbrev isSlugGap (c : Char) : Bool := !isSlugChar c

theorem slugGap_eq : slugGap = .plus (.char isSlugGap) := rfl

theorem slugMask_word {w : Text} (hw : w.any isSlugGap = false) :
    slugMask w = w ∧ w.any isSpace = false ∧ w.any (· == '-') = false := by
  induction w with
  | nil => exact ⟨rfl, rfl, rfl⟩
  | cons c w ih =>
    rw [List.any_cons, Bool.or_eq_false_iff] at hw
    have hc : isSlugChar c = true := by simpa using hw.1
    obtain ⟨hmask, hspace, hhyphen⟩ := ih hw.2
    obtain ⟨hcspace, hchyphen⟩ := kept_of_isSlugChar hc
    refine ⟨?_, by simp [hcspace, hspace], by simp [hchyphen, hhyphen]⟩
    rw [slugMask, List.map_cons, hc] at *
    exact congrArg (c :: ·) hmask

theorem slugMask_run {g : Text} (hg : g.all isSlugGap = true) :
    (slugMask g).all isSpace = true := by
  rw [slugMask, List.all_map, List.all_eq_true]
  intro c hc
  have hgap : isSlugChar c = false := by simpa using List.all_eq_true.mp hg c hc
  rw [Function.comp, hgap]
  exact show isSpace ' ' = true by decide

theorem words_slugMask_append {w g : Text} (hw : w.any isSlugGap = false) (hne : g ≠ [])
    (hg : g.all isSlugGap = true) (s : Text) :
    Text.words (slugMask (w ++ (g ++ s))) =
      [w].filter (!·.isEmpty) ++ Text.words (slugMask s) := by
  have hmap : slugMask (w ++ (g ++ s)) = slugMask w ++ (slugMask g ++ slugMask s) := by
    simp [slugMask]
  obtain ⟨hmask, hspace, -⟩ := slugMask_word hw
  rw [hmap, hmask]
  exact Text.words_append hspace (by simpa [slugMask] using hne) (slugMask_run hg) _

/-- A text that begins with a character of the slug: its words, with hyphens between them. -/
theorem rstripBy_slug (s : Text) (hs : s.head?.any isSlugGap = false) :
    Text.rstripBy (· == '-') (slugGap.subText ['-'] s) =
      Text.join ['-'] (Text.words (slugMask s)) := by
  induction s using Text.runs_induction isSlugGap with
  | word w hw =>
    obtain ⟨hmask, hspace, hhyphen⟩ := slugMask_word hw
    rw [slugGap_eq, Regex.subText_of_none hw, Text.rstripBy_eq_self hhyphen, hmask,
      Text.words_of_none hspace]
    cases w with
    | nil => rfl
    | cons c w => exact (Text.join_singleton _ _).symm
  | run w g s hw hne hg hhead ih =>
    have hword : w ≠ [] := by
      rintro rfl
      obtain ⟨c, g, rfl⟩ := List.exists_cons_of_ne_nil hne
      rw [List.all_cons, Bool.and_eq_true] at hg
      rw [List.nil_append, List.cons_append, List.head?_cons, Option.any_some, hg.1] at hs
      cases hs
    obtain ⟨-, -, hhyphen⟩ := slugMask_word hw
    rw [slugGap_eq, Regex.subText_append hw hne hg hhead, ← slugGap_eq, List.singleton_append,
      Text.rstripBy_append_cons (by rfl), ih hhead, Text.rstripBy_eq_self hhyphen,
      words_slugMask_append hw hne hg, List.filter_cons_of_pos (by simpa using hword)]
    have hwords : ∀ v ∈ Text.words (slugMask s), v ≠ [] := fun v hv => (Text.mem_words hv).1
    split
    · rename_i hnil
      rw [(Text.join_eq_nil_iff hwords).mp hnil]
      exact (Text.join_singleton _ _).symm
    · rename_i hnil
      rw [List.filter_nil, List.singleton_append,
        Text.join_cons _ _ (fun h => hnil ((Text.join_eq_nil_iff hwords).mpr h)),
        List.append_assoc, List.singleton_append]

theorem lstripBy_slug {s : Text} (hs : s.head?.any isSlugGap = false) :
    Text.lstripBy (· == '-') (slugGap.subText ['-'] s) = slugGap.subText ['-'] s := by
  cases s with
  | nil => rfl
  | cons c s =>
    have hc : isSlugGap c = false := hs
    have hkept := kept_of_isSlugChar (c := c) (by simpa using hc)
    rw [slugGap_eq, Regex.subText_cons hc]
    exact List.dropWhile_cons_of_neg (by simpa using hkept.2)

theorem stripBy_slug (s : Text) :
    Text.stripBy (· == '-') (slugGap.subText ['-'] s) =
      Text.join ['-'] (Text.words (slugMask s)) := by
  have hrest := head_dropWhile isSlugGap s
  by_cases hs : s.head?.any isSlugGap = false
  · rw [Text.stripBy, lstripBy_slug hs, rstripBy_slug s hs]
  · -- a run at the beginning becomes a hyphen, which goes
    have hne : s.takeWhile isSlugGap ≠ [] := by
      cases s with
      | nil => exact absurd rfl hs
      | cons c s =>
        have hc : isSlugGap c = true := by simpa using hs
        rw [List.takeWhile_cons_of_pos hc]
        exact List.cons_ne_nil _ _
    have hsub := Regex.subText_append (w := []) rfl hne List.all_takeWhile hrest ['-']
    have hwords := words_slugMask_append (w := []) rfl hne List.all_takeWhile
      (s.dropWhile isSlugGap)
    rw [List.nil_append, List.takeWhile_append_dropWhile, ← slugGap_eq] at hsub
    rw [List.nil_append, List.takeWhile_append_dropWhile] at hwords
    rw [hsub, hwords, Text.stripBy, List.nil_append, List.singleton_append, Text.lstripBy,
      List.dropWhile_cons_of_pos (by rfl)]
    show Text.rstripBy _ (Text.lstripBy _ _) = _
    rw [lstripBy_slug hrest, rstripBy_slug _ hrest]
    rfl

theorem mem_nameWords {name w : Text} (h : w ∈ nameWords name) : w ≠ [] ∧ '-' ∉ w := by
  unfold nameWords at h
  split at h
  · obtain rfl := List.mem_singleton.mp h
    decide
  · obtain ⟨hne, hall⟩ := Text.mem_words h
    refine ⟨hne, fun hhyphen => ?_⟩
    obtain ⟨hmem, -⟩ := hall '-' hhyphen
    obtain ⟨c, -, hc⟩ := List.mem_map.mp hmem
    split at hc
    · rename_i hslug
      exact (kept_of_isSlugChar hslug).2 hc
    · exact absurd hc (by decide)

theorem nameWords_ne_nil (name : Text) : nameWords name ≠ [] := by
  unfold nameWords
  split
  · exact List.cons_ne_nil _ _
  · assumption

/-- **A slug is the words of its name, with hyphens between them.** -/
theorem slugify_eq (name : Text) : slugify name = Text.join ['-'] (nameWords name) := by
  unfold slugify
  dsimp only
  rw [stripBy_slug, nameWords, ← slugMask]
  have hwords : ∀ v ∈ Text.words (slugMask (Text.lower name)), v ≠ [] :=
    fun v hv => (Text.mem_words hv).1
  cases hname : Text.words (slugMask (Text.lower name)) with
  | nil => rfl
  | cons w ws =>
    rw [if_neg]
    rw [List.isEmpty_iff, Text.join_eq_nil_iff (hname ▸ hwords)]
    exact List.cons_ne_nil _ _

/-- **Two names have one slug exactly if they have the same words.** -/
theorem slugify_eq_iff {a b : Text} : slugify a = slugify b ↔ nameWords a = nameWords b := by
  have hsplit : ∀ name, Text.splitOn '-' (slugify name) = nameWords name := fun name => by
    rw [slugify_eq, Text.splitOn_join (nameWords_ne_nil name) fun w hw => (mem_nameWords hw).2]
  constructor
  · intro h
    rw [← hsplit a, h, hsplit b]
  · intro h
    rw [slugify_eq, h, slugify_eq]

/-! ## The sections of a document -/

/-- The titles of the sections that have a body, by the headings of the document. -/
def titlesFrom (text : Text) : List Regex.Match → List Text
  | [] => []
  | heading :: rest =>
      let stop := (rest.head?.map (·.start)).getD text.length
      let body := (text.take stop).drop heading.stop
      (if Text.isBlank body then [] else [Text.strip (heading.group 1)]) ++ titlesFrom text rest

/-- The titles of the sections of a document that have a body. -/
def titlesIn (text : Text) : List Text := titlesFrom text (sectionPattern.finditer text)

/-- The words that the id of a section keeps of its title: those before the first colon. -/
def idWords (title : Text) : List Text := nameWords (Text.partition ':' title).1

theorem map_chunksOf (text sourceFile : Text) (headings : List Regex.Match) :
    (chunksOf text sourceFile headings).map (·.chunkId) = (titlesFrom text headings).map
      fun title => sourceFile ++ "::".toList ++ slugify (Text.partition ':' title).1 := by
  induction headings with
  | nil => rfl
  | cons heading rest ih =>
    rw [chunksOf, titlesFrom, List.map_append, List.map_append, ih]
    congr 1
    unfold chunkAt
    dsimp only
    have hblank : ∀ s : Text, (Text.strip s).isEmpty = Text.isBlank s := fun s => by
      rw [Bool.eq_iff_iff, List.isEmpty_iff, Text.strip_eq_nil_iff]
    rw [hblank]
    split <;> rfl

theorem chunk_ids_nodup (text sourceFile : Text) :
    ((chunkMarkdown text sourceFile).map (·.chunkId)).Nodup ↔
      ((titlesIn text).map idWords).Nodup := by
  rw [chunkMarkdown, map_chunksOf, List.Nodup, List.Nodup, List.pairwise_map, List.pairwise_map,
    titlesIn]
  simp only [ne_eq, List.append_cancel_left_eq, slugify_eq_iff, idWords]

/-! ## The index -/

variable {V : Type}

/-- The last of the entries with a key is what a search from the end finds. -/
theorem find?_reverse_eq {α κ : Type*} [DecidableEq κ] (key : α → κ) (k : κ) (l : List α) :
    l.reverse.find? (fun e => key e = k) = (Keyed.withKey key k l).getLast? := by
  rw [← List.head?_filter, List.filter_reverse, List.head?_reverse]
  rfl

theorem getLast?_updated {α : Type*} (old : List α) {new : List α} (h : new ≠ []) :
    (Keyed.updated old new).getLast? = new.getLast? := by
  unfold Keyed.updated
  split
  · rfl
  · cases hlast : new.getLast? with
    | none => exact absurd (List.getLast?_eq_none_iff.mp hlast) h
    | some e => exact List.getLast?_concat

/-- **The last section with an id is what the id leads to**, whatever the index held before. -/
theorem byId_ingest (embed : Text → V) (index : HybridIndex V) {sections : List Chunk} {c : Chunk}
    (hc : c ∈ sections) :
    (index.ingest inMemoryVectorStore embed sections).byId c.chunkId =
      (sections.filter (·.chunkId = c.chunkId)).getLast? := by
  have hne : sections.filter (·.chunkId = c.chunkId) ≠ [] :=
    List.ne_nil_of_mem (List.mem_filter.mpr ⟨hc, by simp⟩)
  have hsections : sections.isEmpty = false := by
    rw [List.isEmpty_eq_false_iff]
    exact List.ne_nil_of_mem hc
  have hchunks : (index.ingest inMemoryVectorStore embed sections).chunks =
      (Keyed.upsertIndexed (fun e : Entry V => e.1.chunkId) index.stored
        (HybridIndex.embedded embed sections)).map (·.1) := by
    rw [HybridIndex.ingest, hsections]
    rfl
  rw [HybridIndex.byId, hchunks, find?_reverse_eq fun c : Chunk => c.chunkId, Keyed.withKey_map,
    List.getLast?_map]
  show ((Keyed.withKey (fun e : Entry V => e.1.chunkId) _ _).getLast?).map _ = _
  rw [Keyed.withKey_upsertIndexed, HybridIndex.withKey_embedded,
    getLast?_updated _ (by simpa [HybridIndex.embedded] using hne), HybridIndex.embedded,
    List.getLast?_map, Option.map_map]
  exact congrFun Option.map_id _

/-- A section begins where its heading does. -/
theorem charStart_of_chunkAt {text sourceFile : Text} {heading : Regex.Match} {stop : Nat}
    {c : Chunk} (hc : c ∈ chunkAt text sourceFile heading stop) : c.charStart = heading.start := by
  unfold chunkAt at hc
  dsimp only at hc
  split at hc
  · cases hc
  · cases hc
    rfl

theorem charStart_of_mem {text sourceFile : Text} {headings : List Regex.Match} {c : Chunk}
    (hc : c ∈ chunksOf text sourceFile headings) : ∃ m ∈ headings, c.charStart = m.start := by
  induction headings with
  | nil => cases hc
  | cons heading rest ih =>
    rw [chunksOf, List.mem_append, Option.mem_toList] at hc
    rcases hc with hc | hc
    · exact ⟨heading, List.mem_cons_self, charStart_of_chunkAt hc⟩
    · obtain ⟨m, hm, hstart⟩ := ih hc
      exact ⟨m, List.mem_cons_of_mem _ hm, hstart⟩

theorem chunksOf_nodup (text sourceFile : Text) {headings : List Regex.Match}
    (h : headings.Pairwise fun m n => m.start < n.start) :
    (chunksOf text sourceFile headings).Nodup := by
  induction headings with
  | nil => exact .nil
  | cons heading rest ih =>
    obtain ⟨hfirst, hrest⟩ := List.pairwise_cons.mp h
    have hone : (chunkAt text sourceFile heading
        ((rest.head?.map (·.start)).getD text.length)).toList.Nodup := by
      cases chunkAt text sourceFile heading _ <;> simp
    refine List.nodup_append'.mpr ⟨hone, ih hrest, fun c hc hlater => ?_⟩
    have hhere := charStart_of_chunkAt (Option.mem_toList.mp hc)
    obtain ⟨m, hm, hthere⟩ := charStart_of_mem hlater
    have hbefore := hfirst m hm
    omega

/-- The sections of a document are all different: they begin at different places. -/
theorem chunkMarkdown_nodup (text sourceFile : Text) : (chunkMarkdown text sourceFile).Nodup := by
  refine chunksOf_nodup text sourceFile ?_
  refine (solid_sectionPattern.finditer_ordered text).imp_of_mem fun {m n} hm _ hstop => ?_
  obtain ⟨-, -, here⟩ := solid_sectionPattern.matchAt_of_mem_finditer hm
  exact Nat.lt_of_lt_of_le (solid_sectionPattern.stop_eq here).2 hstop

/-- A section is stored, and its id leads to it. -/
structure HybridIndex.Has (index : HybridIndex V) (c : Chunk) : Prop where
  stored : c ∈ index.stored.map (·.1)
  found : index.byId c.chunkId = some c

/-- The sections that an index has once they are ingested are those with different ids. -/
theorem has_ingest_iff (embed : Text → V) (index : HybridIndex V) {sections : List Chunk}
    (hdistinct : sections.Nodup) :
    (∀ c ∈ sections, (index.ingest inMemoryVectorStore embed sections).Has c) ↔
      (sections.map (·.chunkId)).Nodup := by
  constructor
  · intro h
    refine hdistinct.map_on fun c hc d hd hid => ?_
    have hfound := (h c hc).found
    rw [hid, (h d hd).found] at hfound
    exact (Option.some.inj hfound).symm
  · intro h c hc
    have hself : c ∈ sections.filter (·.chunkId = c.chunkId) :=
      List.mem_filter.mpr ⟨hc, by simp⟩
    have hlast := List.getLast?_eq_some_getLast (List.ne_nil_of_mem hself)
    obtain ⟨hmem, hid⟩ := List.mem_filter.mp (List.mem_of_getLast? hlast)
    have hfound := byId_ingest embed index hc
    rw [hlast, List.inj_on_of_nodup_map h hmem hc (by simpa using hid)] at hfound
    exact ⟨List.mem_reverse.mp (List.mem_of_find?_eq_some hfound), hfound⟩

/-- **The ids of a document's sections are distinct, and the index has each section once the
document is ingested, exactly if** no two of the titles say the same words before the colon. -/
theorem sections_found_iff (embed : Text → V) (index : HybridIndex V) (text sourceFile : Text) :
    (((chunkMarkdown text sourceFile).map (·.chunkId)).Nodup ↔
        ((titlesIn text).map idWords).Nodup) ∧
      ((∀ c ∈ chunkMarkdown text sourceFile,
          (index.ingest inMemoryVectorStore embed (chunkMarkdown text sourceFile)).Has c) ↔
        ((titlesIn text).map idWords).Nodup) :=
  ⟨chunk_ids_nodup text sourceFile,
    (has_ingest_iff embed index (chunkMarkdown_nodup text sourceFile)).trans
      (chunk_ids_nodup text sourceFile)⟩

/-- A policy with two sections of one number. -/
def twoOfOneNumber : Text :=
  "## Section 1: Water\n\nUp to $500.\n\n## Section 1: Theft\n\nUp to $900.\n"

/-- **Two sections of one number have one id**, which leads to the second of them. -/
theorem same_number_lost :
    ¬ ((chunkMarkdown twoOfOneNumber "p.md").map (·.chunkId)).Nodup ∧
      ((({} : HybridIndex Unit).ingest inMemoryVectorStore (fun _ => ())
        (chunkMarkdown twoOfOneNumber "p.md")).byId "p.md::section-1").map (·.sectionTitle) =
          some "Section 1: Theft" := by
  decide +kernel


end OmniCare
