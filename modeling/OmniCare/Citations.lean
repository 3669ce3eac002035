import OmniCare.Sources

/-! # Citations of sections that were not retrieved

`ground` cuts the citations out of an answer that retrieval did not return, and accepts what stands
for a retrieved one in full, up to typography, or abbreviates exactly one of them.  An abbreviation
is any prefix, so `§ Section 1` passes for `§ Section 12: ...`; and what is left after the cuts is
not read again, so a cut may join the text around it into a citation.

How a citation head is **read** is its `HeadReading`; `published_cites` says for which answers every
head of the published text cites a retrieved section.
-/
namespace OmniCare

/-! ## Readings -/

/-- How the run at a citation head is read: as which retrieved citation in full, the run with its
typography flattened, and whether a word of the answer goes on behind it. -/
structure HeadReading where
  full : Option Text
  run : Text
  splits : Bool
  deriving DecidableEq, Repr

/-- A word goes on behind a position of a text. -/
def splitsWord (text : Text) (stop : Nat) : Bool :=
  (text.take stop).getLast?.any isWord && (text.drop stop).head?.any isWord

/-- The retrieved citation that stands in full at a citation head: the longest one. -/
def fullCitation (valid : List Text) (text : Text) (head : Regex.Match) : Option Text :=
  (longestFirst valid).find? fun c =>
    typographic ((text.drop head.start).take c.length) = typographic c

/-- The reading of a citation head of a text. -/
def readingAt (valid : List Text) (text : Text) (head : Regex.Match) : HeadReading :=
  let span := citationSpan text (longestFirst valid) head
  { full := fullCitation valid text head
    run := typographic ((text.take span.stop).drop span.start)
    splits := splitsWord text span.stop }

/-- The readings of the citation heads of a text. -/
def readings (valid : List Text) (text : Text) : List HeadReading :=
  (citationHead.finditer text).map (readingAt valid text)

/-- A run is a prefix of a retrieved citation. -/
def abbreviates (run citation : Text) : Bool := (typographic citation).startsWith run

example : abbreviates "a.md" "a.md § Section 1" = true := by decide +kernel

/-- A run is a prefix of a retrieved citation that ends where a word of the citation ends. -/
def endsAtBoundary (run citation : Text) : Bool :=
  match Text.dropPrefix? run (typographic citation) with
  | some rest => !(run.getLast?.any isWord && rest.head?.any isWord)
  | none => false

/-- `ground` accepts a reading. -/
def HeadReading.accepted (valid : List Text) (r : HeadReading) : Bool :=
  r.full.isSome || ((longestFirst valid).filter (abbreviates r.run)).length = 1

/-- A reading ends at a word boundary: of the answer, and if it is an abbreviation, of the citation
that it abbreviates. -/
def HeadReading.bounded (valid : List Text) (r : HeadReading) : Bool :=
  !r.splits && (r.full.isSome || valid.any (endsAtBoundary r.run))

/-- **A reading cites a retrieved section**: it is a citation in full, or an abbreviation of exactly
one that ends at a word boundary of it. -/
structure HeadReading.Cites (valid : List Text) (r : HeadReading) : Prop where
  whole : r.splits = false
  names : (∃ c ∈ valid, r.full = some c) ∨
    ∃ c ∈ valid, endsAtBoundary r.run c = true ∧ ∀ d ∈ valid, abbreviates r.run d = true → d = c

theorem mem_longestFirst {valid : List Text} {c : Text} : c ∈ longestFirst valid ↔ c ∈ valid :=
  (List.perm_insertionSort _ valid).mem_iff

theorem citationSpan_full {valid : List Text} {text c : Text} {head : Regex.Match}
    (h : fullCitation valid text head = some c) :
    citationSpan text (longestFirst valid) head = ⟨head.start, head.start + c.length, true⟩ := by
  unfold fullCitation at h
  unfold citationSpan
  dsimp only
  rw [h]

/-- The span at a head where no citation stands in full. -/
theorem exists_citationSpan_of_none {valid : List Text} {text : Text} {head : Regex.Match}
    (h : fullCitation valid text head = none) :
    ∃ stop, citationSpan text (longestFirst valid) head =
      ⟨head.start, stop, ((longestFirst valid).filter
        (abbreviates (typographic ((text.take stop).drop head.start)))).length = 1⟩ := by
  unfold fullCitation at h
  unfold citationSpan
  dsimp only
  rw [h]
  exact ⟨_, rfl⟩

/-- The spans of a text are real exactly if the readings of its heads are accepted. -/
theorem citationSpan_real (valid : List Text) (text : Text) (head : Regex.Match) :
    (citationSpan text (longestFirst valid) head).real =
      (readingAt valid text head).accepted valid := by
  unfold HeadReading.accepted
  cases hfull : fullCitation valid text head with
  | some c =>
    rw [citationSpan_full hfull, show (readingAt valid text head).full = some c from hfull]
    rfl
  | none =>
    obtain ⟨stop, hspan⟩ := exists_citationSpan_of_none hfull
    have hrun : (readingAt valid text head).run =
        typographic ((text.take stop).drop head.start) := by
      unfold readingAt
      dsimp only
      rw [hspan]
    rw [hspan, hrun, show (readingAt valid text head).full = none from hfull]
    rfl

theorem length_filter_eq_one {α : Type*} {p : α → Bool} {l : List α} (hl : l.Nodup) :
    (l.filter p).length = 1 ↔ ∃ c ∈ l, p c = true ∧ ∀ d ∈ l, p d = true → d = c := by
  have hnodup := hl.filter p
  have hmem : ∀ {c}, c ∈ l.filter p ↔ c ∈ l ∧ p c = true := List.mem_filter
  generalize l.filter p = found at hnodup hmem
  constructor
  · intro hone
    obtain ⟨c, rfl⟩ := List.length_eq_one_iff.mp hone
    obtain ⟨hc, hpc⟩ := hmem.mp (List.mem_singleton_self c)
    exact ⟨c, hc, hpc, fun d hd hpd => List.mem_singleton.mp (hmem.mpr ⟨hd, hpd⟩)⟩
  · rintro ⟨c, hc, hpc, honly⟩
    have heq : ∀ d ∈ found, d = c := fun d hd => honly d (hmem.mp hd).1 (hmem.mp hd).2
    match found, hmem.mpr ⟨hc, hpc⟩ with
    | [_], _ => rfl
    | a :: b :: _, _ =>
      have hab : a = b := (heq a (by simp)).trans (heq b (by simp)).symm
      simp [hab] at hnodup

theorem abbreviates_of_endsAtBoundary {run c : Text} (h : endsAtBoundary run c = true) :
    abbreviates run c = true := by
  unfold endsAtBoundary at h
  unfold abbreviates Text.startsWith
  split at h
  · rename_i hrest
    rw [hrest]
    rfl
  · cases h

/-- **A reading cites a retrieved section exactly if it is accepted and ends at a word
boundary.** -/
theorem HeadReading.cites_iff {valid : List Text} (hvalid : valid.Nodup) {text : Text}
    {head : Regex.Match} :
    (readingAt valid text head).Cites valid ↔
      (readingAt valid text head).accepted valid = true ∧
        (readingAt valid text head).bounded valid = true := by
  have hfull : ∀ c, (readingAt valid text head).full = some c → c ∈ valid := fun c hc =>
    mem_longestFirst.mp (List.mem_of_find?_eq_some hc)
  have hone := length_filter_eq_one (p := abbreviates (readingAt valid text head).run)
    ((List.perm_insertionSort (fun a b : Text => b.length ≤ a.length) valid).nodup_iff.mpr hvalid)
  simp only [List.mem_insertionSort] at hone
  generalize readingAt valid text head = r at hfull hone
  have hone : ((longestFirst valid).filter (abbreviates r.run)).length = 1 ↔
      ∃ c ∈ valid, abbreviates r.run c = true ∧ ∀ d ∈ valid, abbreviates r.run d = true → d = c :=
    hone
  unfold accepted bounded
  cases hr : r.full with
  | some c =>
    have hc := hfull c hr
    simp only [Option.isSome_some, Bool.true_or, Bool.and_true, true_and, Bool.not_eq_true']
    exact ⟨fun h => h.whole, fun h => ⟨h, .inl ⟨c, hc, hr⟩⟩⟩
  | none =>
    simp only [Option.isSome_none, Bool.false_or, decide_eq_true_eq, Bool.and_eq_true,
      Bool.not_eq_true', List.any_eq_true, hone]
    constructor
    · rintro ⟨hwhole, hnames⟩
      obtain ⟨c, hc, hboundary, honly⟩ := hnames.resolve_left (by rw [hr]; simp)
      exact ⟨⟨c, hc, abbreviates_of_endsAtBoundary hboundary, honly⟩, hwhole, c, hc, hboundary⟩
    · rintro ⟨⟨c, hc, -, honly⟩, hwhole, d, hd, hboundary⟩
      -- the citation that ends at the boundary is the only one abbreviated
      obtain rfl := honly d hd (abbreviates_of_endsAtBoundary hboundary)
      exact ⟨hwhole, .inr ⟨d, hc, hboundary, honly⟩⟩

/-! ## What is published -/

/-- A text has only citations of retrieved sections: no span of it is invented, and every head is
read as one of them. -/
structure Cited (valid : List Text) (text : Text) : Prop where
  real : ∀ span ∈ citationSpans text valid, span.real = true
  cites : ∀ r ∈ readings valid text, r.Cites valid

theorem cited_iff {valid : List Text} (hvalid : valid.Nodup) {text : Text} :
    Cited valid text ↔
      ∀ r ∈ readings valid text, r.accepted valid = true ∧ r.bounded valid = true := by
  have hspans : (∀ span ∈ citationSpans text valid, span.real = true) ↔
      ∀ r ∈ readings valid text, r.accepted valid = true := by
    unfold citationSpans readings
    simp only [List.forall_mem_map, citationSpan_real]
  have hcites : (∀ r ∈ readings valid text, r.Cites valid) ↔
      ∀ r ∈ readings valid text, r.accepted valid = true ∧ r.bounded valid = true := by
    unfold readings
    simp only [List.forall_mem_map, HeadReading.cites_iff hvalid]
  exact ⟨fun h => hcites.mp h.cites, fun h => ⟨hspans.mpr fun r hr => (h r hr).1, hcites.mpr h⟩⟩

/-- A head that is left when things have been taken out of an answer is read as one that `ground`
accepted in it, at least as fully, and ends no less at a word boundary. -/
def HeadReading.isKept (valid : List Text) (answer : List HeadReading) (r : HeadReading) : Bool :=
  !r.splits && answer.any fun r' =>
    (r'.accepted valid && r'.bounded valid) && (r'.run = r.run && (r.full.isSome || r'.full.isNone))

theorem HeadReading.of_isKept {valid : List Text} {answer : List HeadReading} {r : HeadReading}
    (h : r.isKept valid answer = true) : r.accepted valid = true ∧ r.bounded valid = true := by
  unfold isKept at h
  rw [Bool.and_eq_true, List.any_eq_true] at h
  obtain ⟨hwhole, r', -, h⟩ := h
  simp only [Bool.and_eq_true, Bool.or_eq_true, decide_eq_true_eq] at h
  obtain ⟨⟨haccepted, hbounded⟩, hrun, hfull⟩ := h
  unfold accepted at haccepted ⊢
  unfold bounded at hbounded ⊢
  rw [hwhole, Bool.true_and]
  rw [Bool.and_eq_true] at hbounded
  cases hr : r.full with
  | some c => exact ⟨rfl, rfl⟩
  | none =>
    have hnone : r'.full = none := by
      rw [hr] at hfull
      simpa using hfull
    rw [hnone, hrun] at haccepted hbounded
    exact ⟨haccepted, hbounded.2⟩

/-- **When every citation head that `ground` publishes cites a retrieved section**, for an answer:
it demands something instead; or it takes nothing out, and what it accepts ends at a word boundary;
or what it takes out makes no new citation and changes none that it has accepted. -/
def AgentState.citesSoundly (s : AgentState) (text : Text) : Bool :=
  s.demands text ||
    if s.sound text then (readings s.validCitations text).all (HeadReading.bounded s.validCitations)
    else (readings s.validCitations (s.remaining text)).all
      (HeadReading.isKept s.validCitations (readings s.validCitations text))

theorem validCitations_nodup (s : AgentState) : s.validCitations.Nodup := nodup_eraseDups _

/-- A text without the section sign has no citation head. -/
theorem cited_of_no_head (valid : List Text) {text : Text}
    (h : citationHead.finditer text = []) : Cited valid text := by
  refine ⟨fun span hspan => ?_, fun r hr => ?_⟩
  · unfold citationSpans at hspan
    rw [h] at hspan
    cases hspan
  · unfold readings at hr
    rw [h] at hr
    cases hr

/-- What `ground` demands instead of an answer cites nothing. -/
theorem cited_of_demands {s : AgentState} {text : Text} (h : s.demands text = true) :
    Cited s.validCitations (s.groundedText text) := by
  unfold AgentState.demands at h
  unfold AgentState.groundedText
  rw [Bool.or_eq_true] at h
  by_cases hnumber : inventsPolicyNumber s (s.remaining text) = true
  · rw [if_pos hnumber]
    exact cited_of_no_head _ (by decide +kernel)
  · rw [if_neg hnumber, if_pos (h.resolve_left hnumber)]
    exact cited_of_no_head _ (by decide +kernel)

/-- Where it demands nothing, `ground` publishes what it keeps of the answer. -/
theorem groundedText_of_not_demands {s : AgentState} {text : Text} (h : s.demands text = false) :
    s.groundedText text = s.kept text := by
  unfold AgentState.demands at h
  rw [Bool.or_eq_false_iff] at h
  unfold AgentState.groundedText
  rw [h.1, h.2, if_neg Bool.false_ne_true, if_neg Bool.false_ne_true]

/-- In an answer that `ground` finds nothing to take out of, it has accepted every head. -/
theorem accepted_of_sound {s : AgentState} {text : Text} (h : s.sound text = true) :
    ∀ r ∈ readings s.validCitations text, r.accepted s.validCitations = true := by
  unfold AgentState.sound at h
  rw [Bool.and_eq_true, List.all_eq_true] at h
  have hreal := h.1
  unfold citationSpans at hreal
  unfold readings
  simp only [List.forall_mem_map, citationSpan_real] at hreal ⊢
  exact hreal

/-- A state with one retrieved section, at an answer. -/
def answering (sectionTitle answer : Text) : AgentState :=
  { messages := [.human "How much is covered?", .ai answer []]
    retrieved := [Chunk.fill
      { chunkId := "c1", text := "Covered up to $25,000.", sourceFile := "sample_policy.md"
        sectionId := "1", sectionTitle, charStart := 0, charEnd := 22, citation := [] }] }

/-- An answer with an abbreviation of the section that was retrieved, and an invented citation. -/
def halfInvented : Text :=
  "It is covered (sample_policy.md § Section 1). See also other.md § Section 9."

/-- What is left of it. -/
def halfLeft : Text := "It is covered (sample_policy.md § Section 1). See also"

/-- An answer that names a section which was not retrieved. -/
def shortCitation : Text := "See sample_policy.md § Section 1."

/-- An answer with a citation inside brackets. -/
def bracketedCitation : Text := "Read policy.md (x.md § Foo) § Nine."

/-- What `ground` makes of it. -/
def joinedCitation : Text := "Read policy.md § Nine."

end OmniCare
