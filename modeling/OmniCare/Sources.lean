import OmniCare.Reporting

/-! # The sources of an answer

`capture` sets `sources` for the pause, and `ground` rebuilds it from the sections that the answer
names, those it quotes a figure from, or all that were retrieved.  `sources_retrieved` holds of
every reachable state; `sources_after_ground` says which sections are among the sources of an
answer.
-/
namespace OmniCare

variable {E W : Type}

/-! ## What ground collects -/

theorem nodup_eraseDups {α : Type*} [BEq α] [LawfulBEq α] (l : List α) : l.eraseDups.Nodup := by
  -- by induction on the length: what follows an item is filtered
  generalize hn : l.length = n
  induction n using Nat.strong_induction_on generalizing l with
  | _ n ih =>
    cases l with
    | nil => exact List.nodup_nil
    | cons a l =>
      rw [List.eraseDups_cons, List.nodup_cons]
      constructor
      · rw [List.mem_eraseDups, List.mem_filter]
        simp
      · refine ih _ ?_ _ rfl
        rw [← hn]
        exact Nat.lt_succ_of_le (List.length_filter_le _ _)

theorem mem_citationsOf {retrieved : List Chunk} {citation : Text} :
    citation ∈ citationsOf retrieved ↔ citation ≠ [] ∧ ∃ c ∈ retrieved, c.citation = citation := by
  unfold citationsOf
  rw [List.mem_filter, List.mem_map]
  simp [and_comm]

/-- A figure stands in the text of one retrieved section, and of no other. -/
def OnlyIn (n : Nat) (retrieved : List Chunk) (citation : Text) : Prop :=
  (∃ c ∈ retrieved, c.citation = citation ∧ n ∈ money c.text) ∧
    ∀ c ∈ retrieved, n ∈ money c.text → c.citation = citation

instance (n : Nat) (retrieved : List Chunk) (citation : Text) :
    Decidable (OnlyIn n retrieved citation) :=
  inferInstanceAs (Decidable (_ ∧ _))

/-- The sections that a figure attributes are those it stands in alone. -/
theorem mem_sectionsByFigure {text : Text} {retrieved : List Chunk} {citation : Text} :
    citation ∈ sectionsByFigure text retrieved ↔
      citation ≠ [] ∧ ∃ n ∈ money text, OnlyIn n retrieved citation := by
  have alone : ∀ (c : Chunk) (n : Nat),
      n ∉ (retrieved.filter (·.citation ≠ c.citation)).flatMap (fun other => money other.text) ↔
        ∀ other ∈ retrieved, n ∈ money other.text → other.citation = c.citation := by
    intro c n
    simp only [List.mem_flatMap, List.mem_filter, decide_eq_true_eq, not_exists, not_and]
    constructor
    · intro h other hother hn
      by_contra hne
      exact h other ⟨hother, hne⟩ hn
    · intro h other hother hn
      exact hother.2 (h other hother.1 hn)
  unfold sectionsByFigure
  dsimp only
  rw [List.mem_filterMap]
  constructor
  · rintro ⟨c, hc, h⟩
    split at h
    · rename_i hfigure
      cases h
      obtain ⟨hcitation, hany⟩ := Bool.and_eq_true_iff.mp hfigure
      obtain ⟨n, hn, hown⟩ := List.any_eq_true.mp hany
      obtain ⟨hshared, hanswer⟩ := Bool.and_eq_true_iff.mp hown
      refine ⟨by simpa using hcitation, n, by simpa using hanswer, ⟨c, hc, rfl, hn⟩, ?_⟩
      exact (alone c n).mp (by simpa using hshared)
    · cases h
  · rintro ⟨hcitation, n, hanswer, ⟨c, hc, rfl, hn⟩, honly⟩
    refine ⟨c, hc, if_pos ?_⟩
    rw [Bool.and_eq_true, List.any_eq_true]
    refine ⟨by simpa using hcitation, n, hn, ?_⟩
    have hshared := (alone c n).mpr honly
    rw [Bool.and_eq_true]
    exact ⟨by simpa using hshared, by simpa using hanswer⟩

/-- The sections that an answer names have been retrieved. -/
theorem citation_of_mem_namedSections {text : Text} {retrieved : List Chunk} {citation : Text}
    (h : citation ∈ namedSections text retrieved) : citation ∈ citationsOf retrieved := by
  obtain ⟨c, hc, h⟩ := List.mem_filterMap.mp h
  dsimp only at h
  split at h
  · rename_i hnamed
    cases h
    rw [mem_citationsOf]
    exact ⟨by simpa using (Bool.and_eq_true_iff.mp hnamed).1, c, hc, rfl⟩
  · cases h

theorem citation_of_mem_sectionsByFigure {text : Text} {retrieved : List Chunk} {citation : Text}
    (h : citation ∈ sectionsByFigure text retrieved) : citation ∈ citationsOf retrieved := by
  obtain ⟨hcitation, n, -, ⟨c, hc, hown, -⟩, -⟩ := mem_sectionsByFigure.mp h
  exact mem_citationsOf.mpr ⟨hcitation, c, hc, hown⟩

/-- The answer as `ground` reads it for its sources: its own removals and demands are made. -/
def AgentState.readText (s : AgentState) (content : Text) : Text :=
  (correctedText s (withoutInvented content (citationSpans content s.validCitations))).1

/-- What `ground` takes for the sources of an answer. -/
def AgentState.attributed (s : AgentState) (text : Text) : List Text :=
  let attributed := namedSections text s.retrieved ++ sectionsByFigure text s.retrieved
  if attributed.isEmpty then citationsOf s.retrieved else attributed

theorem groundNode_sources {s : AgentState} {i : Nat} {content : Text}
    (final : finalAnswer s.messages = some (i, content)) :
    (groundNode s).sources = (s.attributed (s.readText content)).eraseDups := by
  unfold groundNode
  rw [final]
  dsimp only
  split <;> rfl

theorem groundNode_sources_none {s : AgentState} (final : finalAnswer s.messages = none) :
    (groundNode s).sources = [] := by
  unfold groundNode
  rw [final]

theorem groundNode_retrieved (s : AgentState) : (groundNode s).retrieved = s.retrieved := by
  obtain ⟨_, _, _, _, h⟩ := groundNode_changes s
  rw [h]

theorem citation_of_mem_attributed {s : AgentState} {text citation : Text}
    (h : citation ∈ s.attributed text) : citation ∈ citationsOf s.retrieved := by
  unfold AgentState.attributed at h
  dsimp only at h
  split at h
  · exact h
  · rcases List.mem_append.mp h with hnamed | hfigure
    · exact citation_of_mem_namedSections hnamed
    · exact citation_of_mem_sectionsByFigure hfigure

theorem attributed_ne_nil {s : AgentState} (text : Text) {citation : Text}
    (h : citation ∈ citationsOf s.retrieved) : s.attributed text ≠ [] := by
  unfold AgentState.attributed
  dsimp only
  split
  · exact List.ne_nil_of_mem h
  · rename_i hne
    simpa using hne

theorem mem_attributed_of_figure {s : AgentState} {text citation : Text}
    (h : citation ∈ sectionsByFigure text s.retrieved) : citation ∈ s.attributed text := by
  have hmem := List.mem_append_right (namedSections text s.retrieved) h
  unfold AgentState.attributed
  dsimp only
  rw [if_neg]
  · exact hmem
  · rw [List.isEmpty_iff]
    exact List.ne_nil_of_mem hmem

/-! ## Every reachable state -/

/-- The sources are distinct citations of retrieved sections. -/
structure AgentState.Sourced (s : AgentState) : Prop where
  nodup : s.sources.Nodup
  retrieved : ∀ citation ∈ s.sources, ∃ c ∈ s.retrieved, c.citation = citation

/-- Neither the sources nor the retrieved sections change. -/
theorem AgentState.Sourced.congr {s t : AgentState} (h : s.Sourced)
    (hsources : t.sources = s.sources) (hretrieved : t.retrieved = s.retrieved) : t.Sourced := by
  refine ⟨hsources ▸ h.nodup, ?_⟩
  rw [hsources, hretrieved]
  exact h.retrieved

theorem sourced_of_nil {s : AgentState} (h : s.sources = []) : s.Sourced :=
  ⟨h ▸ List.nodup_nil, by rw [h]; exact nofun⟩

theorem guardNode_sources (s : AgentState) : (guardNode s).sources = [] := by
  unfold guardNode
  dsimp only
  split <;> rfl

/-- `capture` cites the section that it adds to those retrieved. -/
theorem captureNode_sourced (settlement : Option Json → Option Json → Option Split)
    {s : AgentState} (h : s.Sourced) : (captureNode settlement s).Sourced := by
  unfold captureNode
  split
  · exact h
  · dsimp only
    split
    · exact h.congr rfl rfl
    · rename_i split _
      split
      · exact h.congr rfl rfl
      · rename_i hcitation
        refine ⟨List.nodup_singleton _, fun citation hmem => ?_⟩
        obtain rfl := List.mem_singleton.mp hmem
        refine ⟨split.chunk, List.mem_append_right _ (List.mem_singleton_self _), ?_⟩
        unfold Split.chunk Chunk.fill
        rw [if_neg hcitation]

theorem Tooled.record_retrieved {t t' : Tooled} {call : ToolCall} {result : Json}
    {status : ToolStatus} (h : t.record call result status = .ok t') :
    ∃ chunks, t'.retrieved = t.retrieved ++ chunks := by
  obtain ⟨chunks, -, h⟩ := exists_ok_of_bind h
  cases h
  exact ⟨chunks, rfl⟩

theorem Tooled.finish_retrieved {t t' : Tooled} {call : ToolCall} {outcome : Outcome}
    (h : t.finish call outcome = .ok t') : ∃ chunks, t'.retrieved = t.retrieved ++ chunks := by
  cases outcome with
  | returned result => exact record_retrieved (ok_of_mapError h)
  | raised e => exact record_retrieved (ok_of_mapError h)
  | cancelled => cases h

/-- The tools node adds to what has been retrieved. -/
theorem runCalls_retrieved {tools : List (Tool E W)} {calls : List ToolCall} {es : List E}
    {t t' : Tooled} {w w' : W} {xs : List (Execution E)}
    (h : runCalls tools calls es t w = (.ok t', w', xs)) :
    ∃ chunks, t'.retrieved = t.retrieved ++ chunks := by
  induction calls generalizing es t w xs with
  | nil =>
    cases h
    exact ⟨[], (List.append_nil _).symm⟩
  | cons call calls ih =>
    rw [runCalls.eq_def] at h
    dsimp only at h
    split at h
    · have hrest := ih h
      exact hrest
    · cases h
    · split at h
      · cases h
      · rename_i e _ _ t₁ hfinish
        generalize hrest : runCalls tools calls _ t₁ _ = rest at h
        obtain ⟨result, w₂, xs₂⟩ := rest
        cases h
        obtain ⟨first, hfirst⟩ := Tooled.finish_retrieved hfinish
        obtain ⟨others, hothers⟩ := ih hrest
        exact ⟨first ++ others, by rw [hothers, hfirst, List.append_assoc]⟩

theorem readbackNode_frame (s : AgentState) :
    (readbackNode s).sources = s.sources ∧ (readbackNode s).retrieved = s.retrieved := by
  obtain ⟨_, h⟩ := readbackNode_changes s
  rw [h]
  exact ⟨rfl, rfl⟩

theorem parseNode_sources {s s' : AgentState} (h : parseNode s = .ok s') :
    s'.sources = s.sources := by
  obtain ⟨_, _, _, rfl⟩ := parseNode_changes h
  rfl

theorem formatNode_frame (s : AgentState) :
    (formatNode s).sources = s.sources ∧ (formatNode s).retrieved = s.retrieved := by
  obtain ⟨_, h⟩ := formatNode_changes s
  rw [h]
  exact ⟨rfl, rfl⟩

theorem groundNode_sourced (s : AgentState) : (groundNode s).Sourced := by
  cases final : finalAnswer s.messages with
  | none => exact sourced_of_nil (groundNode_sources_none final)
  | some found =>
    obtain ⟨i, content⟩ := found
    have hsources := groundNode_sources final
    refine ⟨hsources ▸ nodup_eraseDups _, fun citation hmem => ?_⟩
    rw [hsources, List.mem_eraseDups] at hmem
    rw [groundNode_retrieved]
    exact (mem_citationsOf.mp (citation_of_mem_attributed hmem)).2

/-- **A step keeps the sources distinct citations of retrieved sections.** -/
theorem Step.sourced {g : Graph E W} {c c' : Config W} {a : Action E} {fs : List (Event E)}
    (hs : Step g c a c' fs) (h : c.state.Sourced) : c'.state.Sourced := by
  cases hs with
  | guard => exact sourced_of_nil (guardNode_sources _)
  | capture => exact captureNode_sourced _ h
  | tools here ran =>
    obtain ⟨chunks, hretrieved⟩ := runCalls_retrieved ran
    refine ⟨h.nodup, fun citation hmem => ?_⟩
    obtain ⟨c, hc, hcitation⟩ := h.retrieved citation hmem
    refine ⟨c, ?_, hcitation⟩
    show c ∈ Tooled.retrieved _
    rw [hretrieved]
    exact List.mem_append_left _ hc
  | readback => exact h.congr (readbackNode_frame _).1 (readbackNode_frame _).2
  | parse _ parsed => exact h.congr (parseNode_sources parsed) (parseNode_frame parsed).2.1
  | ground => exact groundNode_sourced _
  | format => exact h.congr (formatNode_frame _).1 (formatNode_frame _).2
  | _ => exact h.congr rfl rfl

/-- In every reachable state, those suspended at the confirmation included, the sources are distinct
citations of sections retrieved in this turn. -/
theorem sourced_of_runs {g : Graph E W} {w : W} {as : List (Action E)} {c : Config W}
    {es : List (Event E)} (h : g.Runs (newThread w) as c es) : c.state.Sourced :=
  h.invariant (I := fun c _ => c.state.Sourced) (sourced_of_nil rfl) fun hI hs => hs.sourced hI

/-! ## After ground -/

/-- What a run from `format` on leaves as `ground` left it. -/
theorem sources_after_format {g : Graph E W} {c d : Config W} {as : List (Action E)}
    {es : List (Event E)} (here : c.next = .at .format) (h : g.RunsWhere goesOn c as d es) :
    d.state.sources = c.state.sources ∧ d.state.retrieved = c.state.retrieved := by
  have hleft : (d.next = .at .format ∨ d.running = none) ∧
      d.state.sources = c.state.sources ∧ d.state.retrieved = c.state.retrieved := by
    refine h.invariant_restrict
      (I := fun d _ => (d.next = .at .format ∨ d.running = none) ∧
        d.state.sources = c.state.sources ∧ d.state.retrieved = c.state.retrieved)
      ⟨.inl here, rfl, rfl⟩ ?_
    intro t es a u fs hI hstep ha
    obtain ⟨hnext, hsources, hretrieved⟩ := hI
    have hs := Graph.step_cases hstep
    have hrun := hs.running ha
    have hnext : t.next = .at .format := by
      rcases hnext with hnext | hstopped
      · exact hnext
      · rw [hstopped] at hrun
        cases hrun
    have elsewhere : ∀ {n : Node}, t.At n → n = .format :=
      fun here => Next.at.inj (here.2.symm.trans hnext)
    cases hs with
    | expired | resume | turn => cases ha
    | format =>
      exact ⟨.inr rfl, (formatNode_frame _).1.trans hsources,
        (formatNode_frame _).2.trans hretrieved⟩
    | crash => exact ⟨.inr rfl, hsources, hretrieved⟩
    | guard here | stop here | reply here | capture here | gateOff here | refused here
    | asked here | approved here | declined here | tools here | toolsFailed here | readback here
    | parse here | ground here =>
      cases elsewhere here
  exact hleft.2

/-- **The sources of an answer.**  In every reachable state they are distinct citations of retrieved
sections.  Once `ground` has run on an answer, and to the end of the job, they are not empty if some
retrieved section has a citation, and each figure of the answer, as `ground` reads it, has the one
retrieved section in which it stands among them. -/
theorem sources_of_answer {g : Graph E W} {w : W} {as : List (Action E)} {c : Config W}
    {es : List (Event E)} (h : g.Runs (newThread w) as c es) :
    (c.state.sources.Nodup ∧
      ∀ citation ∈ c.state.sources, ∃ chunk ∈ c.state.retrieved, chunk.citation = citation) ∧
    ∀ i content, c.At .ground → finalAnswer c.state.messages = some (i, content) →
      ∀ bs d fs, g.RunsWhere goesOn (c.goto .format (groundNode c.state)) bs d fs →
        ((∃ chunk ∈ d.state.retrieved, chunk.citation ≠ []) → d.state.sources ≠ []) ∧
        ∀ n ∈ money (c.state.readText content), ∀ citation ≠ [],
          OnlyIn n d.state.retrieved citation → citation ∈ d.state.sources := by
  have hsourced := sourced_of_runs h
  refine ⟨⟨hsourced.nodup, hsourced.retrieved⟩, fun i content _ final bs d fs hrun => ?_⟩
  obtain ⟨hsources, hretrieved⟩ := sources_after_format rfl hrun
  have hsources : d.state.sources = (c.state.attributed (c.state.readText content)).eraseDups :=
    hsources.trans (groundNode_sources final)
  have hretrieved : d.state.retrieved = c.state.retrieved :=
    hretrieved.trans (groundNode_retrieved _)
  rw [hsources, hretrieved]
  constructor
  · rintro ⟨chunk, hchunk, hcitation⟩ hnil
    have hmem : chunk.citation ∈ citationsOf c.state.retrieved :=
      mem_citationsOf.mpr ⟨hcitation, chunk, hchunk, rfl⟩
    obtain ⟨x, hx⟩ := List.exists_mem_of_ne_nil _
      (attributed_ne_nil (c.state.readText content) hmem)
    rw [← List.mem_eraseDups, hnil] at hx
    cases hx
  · intro n hn citation hcitation honly
    rw [List.mem_eraseDups]
    exact mem_attributed_of_figure (mem_sectionsByFigure.mpr ⟨hcitation, n, hn, honly⟩)

/-- A section of a policy, as the retrieval service returns it. -/
def foundSection (title text : Text) : Json :=
  .obj [("text", .str text), ("source_file", .str "sample_policy.md"),
    ("section_title", .str title)]

/-- A graph whose search returns two sections. -/
def policyGraph : Graph Unit Unit :=
  { tools :=
      [⟨"search_policy_documents", fun _ _ w =>
          (.returned (.obj [("chunks", .arr
            [foundSection "Section 1: Home Water Damage Coverage" "Covered up to $25,000.",
              foundSection "Section 2: Personal Property Protection" "Covered up to $10,000."])]),
            w)⟩] }

/-- A search and its answer. -/
def searched (channel : Channel) (answer : Text) : List (Action Unit) :=
  [.job { runId := "r1", message := "How much is covered?", channel } 0 true, .go,
    .reply ⟨[], [searchCall]⟩, .call [()], .reply ⟨answer, []⟩, .go, .go]

/-- The citation of the first of them. -/
def firstCitation : Text := "sample_policy.md § Section 1: Home Water Damage Coverage"

/-- An answer with a figure of the first section cites it. -/
theorem figure_cited :
    ∃ c es, policyGraph.Runs (newThread ()) (searched .text "You are covered up to $25,000.") c es ∧
      c.At .ground ∧ firstCitation ∈ (groundNode c.state).sources := by
  obtain ⟨c, es, h, hp⟩ := exists_run_of_play policyGraph.step (newThread ())
    (searched .text "You are covered up to $25,000.")
    (fun c _ => ((c.running.isSome ∧ c.next = .at .ground) ∧
        finalAnswer c.state.messages =
          some ((3 : Nat), ("You are covered up to $25,000." : Text))) ∧
      25000 ∈ money (c.state.readText "You are covered up to $25,000.") ∧
        OnlyIn 25000 (groundNode c.state).retrieved firstCitation)
    (by decide +kernel)
  obtain ⟨⟨here, final⟩, hfigure, honly⟩ := of_decide_eq_true hp
  exact ⟨c, es, h, here, ((sources_of_answer h).2 _ _ here final [] _ [] .initial).2 _ hfigure
    firstCitation (by decide) honly⟩

/-- A call that files a claim without saying which. -/
def emptyFilingCall : ToolCall := ⟨"submit_claim", [], "e"⟩

/-- Once a search is followed by an approved write without arguments, there is no answer and no
source.  And an answer on the voice channel may have its figure put together by `format`, after
`ground` has found no section for it. -/
theorem sources_incomplete :
    (∃ c es, policyGraph.Runs (newThread ())
        [.job { runId := "r1", message := "File a claim" } 0 true, .go, .reply ⟨[], [searchCall]⟩,
          .call [()], .reply ⟨[], [emptyFilingCall]⟩, .settle (), .go,
          .job { runId := "r2", message := "yes" } 0 true, .go, .go, .go] c es ∧
      c.next = .at .format ∧ (∃ chunk ∈ c.state.retrieved, chunk.citation ≠ []) ∧
      c.state.sources = []) ∧
    ∃ c es, policyGraph.Runs (newThread ())
        (searched .voice "Section 2 does not apply, the limit is **$25**,000." ++ [.go, .go]) c es ∧
      c.next = .done ∧
      c.state.finalText = "Section 2 does not apply, the limit is $25,000." ∧
      25000 ∈ money c.state.finalText ∧ OnlyIn 25000 c.state.retrieved firstCitation ∧
      firstCitation ∉ c.state.sources := by
  constructor
  · obtain ⟨c, es, h, hp⟩ := exists_run_of_play policyGraph.step (newThread ())
      [.job { runId := "r1", message := "File a claim" } 0 true, .go, .reply ⟨[], [searchCall]⟩,
        .call [()], .reply ⟨[], [emptyFilingCall]⟩, .settle (), .go,
        .job { runId := "r2", message := "yes" } 0 true, .go, .go, .go]
      (fun c _ => c.next = .at .format ∧ (∃ chunk ∈ c.state.retrieved, chunk.citation ≠ []) ∧
        c.state.sources = [])
      (by decide)
    exact ⟨c, es, h, of_decide_eq_true hp⟩
  · obtain ⟨c, es, h, hp⟩ := exists_run_of_play policyGraph.step (newThread ())
      (searched .voice "Section 2 does not apply, the limit is **$25**,000." ++ [.go, .go])
      (fun c _ => c.next = .done ∧
        c.state.finalText = "Section 2 does not apply, the limit is $25,000." ∧
        25000 ∈ money c.state.finalText ∧ OnlyIn 25000 c.state.retrieved firstCitation ∧
        firstCitation ∉ c.state.sources)
      (by decide +kernel)
    exact ⟨c, es, h, of_decide_eq_true hp⟩

end OmniCare
