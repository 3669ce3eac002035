import OmniCare.Publishing

/-! # What the gateway makes of a run

`AgentWorker.handle` takes a final state apart into events, and `_collect` of the gateway puts a
turn together from them.  `collect_rebuilds` says that for a run that does not fail the turn is the
one of the state: its text, its sources, its tool calls and, unless it was paused, its verdict.
-/
namespace OmniCare

variable {E W : Type}

/-- The loop of `_collect` over the events of a run. -/
def collect (ts : List RunEvent) : Except HttpError Collected := ts.foldlM Collected.add {}

/-- The text that `_collect` returns. -/
def Collected.answer (c : Collected) : Text := Text.strip c.text.flatten

/-- What the gateway answers is the turn of a thread that has come to rest: a paused thread asks
for its confirmation, any other has an answer and what is to be thought of it. -/
structure Rebuilds (d : Config W) (c : Collected) : Prop where
  sources : c.sources = d.state.sources
  paused : ∀ p, d.next = .paused p → c.answer = p.readback ∧
    c.toolCalls = d.state.toolInvocations.map Invocation.record ++ [awaitingCall p.args]
  answered : (∀ p, d.next ≠ .paused p) → c.answer = Text.strip d.state.finalText ∧
    c.toolCalls = d.state.toolInvocations.map Invocation.record ∧
    ∃ report, c.report = some report ∧ report.confidence = d.state.answerConfidence ∧
      report.confidenceReason = d.state.confidenceReason ∧ report.unknown = d.state.answerUnknown

/-! ## Collecting piece by piece -/

theorem foldlM_toolEnd (calls : List Invocation) (c : Collected) :
    (calls.map RunEvent.toolEnd).foldlM Collected.add c =
      .ok { c with toolCalls := c.toolCalls ++ calls.map Invocation.record } := by
  induction calls generalizing c with
  | nil =>
    rw [List.map_nil, List.map_nil, List.append_nil]
    rfl
  | cons call calls ih =>
    rw [List.map_cons, List.foldlM_cons]
    refine (ih _).trans ?_
    rw [List.map_cons, List.append_assoc, List.singleton_append]

/-- The events of a turn that is answered. -/
theorem collect_finishedEvents (s : AgentState) :
    collect (.started :: finishedEvents s) =
      .ok { text := if s.finalText.isEmpty then [] else [s.finalText], sources := s.sources
            toolCalls := s.toolInvocations.map Invocation.record
            report := some ⟨s.stoppedReason, s.answerConfidence, s.modelConfidence,
              s.confidenceReason, s.answerUnknown⟩ } := by
  unfold collect finishedEvents
  dsimp only
  rw [List.foldlM_cons, List.append_assoc]
  show List.foldlM Collected.add {} _ = _
  rw [List.foldlM_append, foldlM_toolEnd]
  show List.foldlM Collected.add _ _ = _
  rw [← AgentState.finalText]
  split <;> rfl

/-- The events of a turn that asks. -/
theorem collect_pausedEvents (s : AgentState) (p : Prompt) :
    collect (.started :: pausedEvents s p) =
      .ok { text := [p.readback], sources := s.sources
            toolCalls := s.toolInvocations.map Invocation.record ++ [awaitingCall p.args] } := by
  unfold collect pausedEvents
  rw [List.foldlM_cons]
  show List.foldlM Collected.add {} _ = _
  rw [List.foldlM_append, foldlM_toolEnd]
  rfl

/-- The question that is put to the policyholder has nothing to strip. -/
theorem strip_readbackOf (pending : Dict) (split : Option PendingSettlement) :
    Text.strip (readbackOf pending split) = readbackOf pending split := by
  have hlast : (readbackOf pending split).getLast? = some '?' := by
    unfold readbackOf
    dsimp only
    split
    · rw [List.getLast?_append_of_ne_nil _ (by decide)]
      decide
    · rw [List.getLast?_append_of_ne_nil _ (by simp),
        List.getLast?_append_of_ne_nil _ (by decide)]
      decide
  refine Text.stripBy_of_ends ?_ fun c hc => ?_
  · rintro c ⟨⟩
    decide
  · cases hlast.symm.trans hc
    decide

/-! ## A run -/

/-- **What the gateway collects from a run that does not fail is the turn of the state that the run
has come to.** -/
theorem collect_rebuilds {g : Graph E W} {c d c' : Config W} {j : Job} {now : ℚ} {ok : Bool}
    {as : List (Action E)} {fs es : List (Event E)}
    (hjob : g.step c (.job j now ok) = some (d, fs)) (h : g.RunsWhere goesOn d as c' es)
    (hend : c'.running = none)
    (hfine : ∀ r n message detail, (r, n, .error message detail) ∉ publishedOf (fs ++ es)) :
    ∃ ts gathered, publishedOf (fs ++ es) = numbered j.runId 0 ts ∧
      collect ts = .ok gathered ∧ Rebuilds c' gathered := by
  have hpublished := published_of_job hjob h
  generalize publishedOf (fs ++ es) = all at hpublished hfine
  cases hpublished with
  | late => exact absurd List.mem_cons_self (hfine _ _ _ _)
  | running _ here =>
    rw [hend] at here
    cases here
  | ended _ _ ending =>
    cases ending with
    | finished next =>
      refine ⟨_, _, rfl, collect_finishedEvents c'.state, rfl, ?_, fun _ => ⟨?_, rfl, _, rfl, ?_⟩⟩
      · intro p hp
        rw [next] at hp
        cases hp
      · unfold Collected.answer
        dsimp only
        split
        · rename_i hempty
          rw [List.isEmpty_iff.mp hempty]
          rfl
        · rw [List.flatten_singleton]
      · exact ⟨rfl, rfl, rfl⟩
    | paused next asked =>
      refine ⟨_, _, rfl, collect_pausedEvents c'.state _, rfl, ?_, fun hnot => ?_⟩
      · intro p hp
        cases next.symm.trans hp
        refine ⟨?_, rfl⟩
        unfold Collected.answer
        rw [List.flatten_singleton, asked]
        exact strip_readbackOf _ _
      · exact absurd next (hnot _)
    | failed failure =>
      have herror : ∃ message detail, failure.event = .error message detail := by
        cases failure with
        | timedOut => exact ⟨_, _, rfl⟩
        | raised e => exact ⟨_, _, rfl⟩
      obtain ⟨message, detail, herror⟩ := herror
      refine absurd ?_ (hfine j.runId 1 message detail)
      rw [herror]
      exact List.mem_cons_of_mem _ List.mem_cons_self

/-- No event is an error. -/
def errorFree (ts : List (Text × Nat × RunEvent)) : Bool :=
  ts.all fun t => match t.2.2 with
    | .error .. => false
    | _ => true

theorem not_mem_of_errorFree {ts : List (Text × Nat × RunEvent)} (h : errorFree ts = true)
    (r : Text) (n : Nat) (message : Text) (detail : Option Text) :
    (r, n, .error message detail) ∉ ts := fun hmem =>
  absurd (List.all_eq_true.mp h _ hmem) Bool.false_ne_true

/-- The gateway answers a greeting as the state does. -/
theorem greeting_rebuilt :
    ∃ c es ts gathered, bareGraph.RunsWhere goesOn
        ((newThread ()).startTurn { runId := "r1", message := "Hello" })
        [.go, .reply ⟨"Hi.", []⟩, .go, .go, .go, .go] c es ∧
      publishedOf ([.published "r1" 0 .started, .turnStarted "Hello" .done] ++ es) =
        numbered "r1" 0 ts ∧ collect ts = .ok gathered ∧ Rebuilds c gathered := by
  obtain ⟨c, es, h, hp⟩ := exists_run_of_play (restrict goesOn bareGraph.step)
    ((newThread ()).startTurn { runId := "r1", message := "Hello" })
    [.go, .reply ⟨"Hi.", []⟩, .go, .go, .go, .go]
    (fun c es => c.running.isNone ∧ errorFree (publishedOf es) = true) (by decide +kernel)
  obtain ⟨hend, hfine⟩ := of_decide_eq_true hp
  have hjob : bareGraph.step (newThread ())
      (.job { runId := "r1", message := "Hello" } 0 true) =
        some ((newThread ()).startTurn { runId := "r1", message := "Hello" },
          [.published "r1" 0 .started, .turnStarted "Hello" .done]) := rfl
  obtain ⟨ts, gathered, hts⟩ := collect_rebuilds hjob h (Option.isNone_iff_eq_none.mp hend)
    (not_mem_of_errorFree (by rw [publishedOf_append]; exact hfine))
  exact ⟨c, es, ts, gathered, h, hts⟩

end OmniCare
