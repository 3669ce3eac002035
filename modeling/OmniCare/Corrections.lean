import OmniCare.Publishing

/-! # Messages sent while a confirmation is pending

The worker passes such a message as a resume value, outside `messages`, and `confirm` adds its own
answer only.  So what the message says is lost to the checks on what the policyholder has stated:
`correction_recorded_iff` says when it is not.
-/
namespace OmniCare

variable {E W : Type}

theorem humanTexts_append (ms ns : List Message) :
    humanTexts (ms ++ ns) = humanTexts ms ++ humanTexts ns := List.filterMap_append

theorem humanTexts_append_other {ms ns : List Message} (h : ∀ m ∈ ns, m.isHuman = false) :
    humanTexts (ms ++ ns) = humanTexts ms := by
  have hnone : humanTexts ns = [] := by
    rw [humanTexts, List.filterMap_eq_nil_iff]
    intro m hm
    have := h m hm
    cases m with
    | human => cases this
    | _ => rfl
  rw [humanTexts_append, hnone, List.append_nil]

/-- **A running job adds no human message**, and changes none. -/
theorem Step.humanTexts_eq {g : Graph E W} {c c' : Config W} {a : Action E} {fs : List (Event E)}
    (hs : Step g c a c' fs) (ha : goesOn c a = true) :
    humanTexts c'.state.messages = humanTexts c.state.messages := by
  have adds : ∀ m : Message, m.isHuman = false →
      humanTexts (c.state.messages ++ [m]) = humanTexts c.state.messages :=
    fun m hm => humanTexts_append_other (by simpa using hm)
  cases hs with
  | expired | resume | turn => cases ha
  | gateOff | asked | approved | toolsFailed | crash => rfl
  | guard =>
    show humanTexts (guardNode c.state).messages = _
    cases hscreen : (screen (lastHuman c.state.messages)).allowed with
    | true => rw [(guardNode_allowed hscreen).1]
    | false =>
      rw [(guardNode_blocked hscreen).1]
      exact adds _ rfl
  | stop | reply | refused | declined => exact adds _ rfl
  | capture =>
    show humanTexts (captureNode _ c.state).messages = _
    rw [captureNode_messages]
  | @tools es t w xs here ran =>
    obtain ⟨ms, houtputs, hms⟩ := runCalls_outputs ran
    show humanTexts (c.state.messages ++ t.outputs) = _
    rw [houtputs, List.nil_append]
    refine humanTexts_append_other fun m hm => ?_
    obtain ⟨call, -, content, rfl⟩ := exists_answered hms hm
    rfl
  | readback => exact (readbackNode_reworded _).humanTexts
  | parse _ parsed => exact (parseNode_reworded parsed).humanTexts
  | ground => exact (groundNode_reworded _).humanTexts
  | format => exact (formatNode_reworded _).humanTexts

/-- What a job has added to the human messages, once it is accepted: its message if it starts a
turn, nothing if it resumes one. -/
theorem humanTexts_of_job {g : Graph E W} {c d c' : Config W} {j : Job} {now : ℚ} {ok : Bool}
    {as : List (Action E)} {fs es : List (Event E)}
    (hjob : g.step c (.job j now ok) = some (d, fs)) (h : g.RunsWhere goesOn d as c' es) :
    humanTexts c'.state.messages = humanTexts c.state.messages ++
      (if j.late now = false ∧ (ok = false ∨ c.next = .done) then [j.message] else []) := by
  have hlater : humanTexts c'.state.messages = humanTexts d.state.messages := by
    refine h.invariant_restrict
      (I := fun c' _ => humanTexts c'.state.messages = humanTexts d.state.messages) rfl ?_
    intro t es a u gs hI hstep ha
    exact ((Graph.step_cases hstep).humanTexts_eq ha).trans hI
  rw [hlater]
  have hcases := Graph.step_cases hjob
  generalize haction : Action.job j now ok = a at hcases
  cases hcases with
  | expired _ late =>
    cases haction
    have late : j.late now = true := late
    simp [late]
  | resume _ _ left =>
    cases haction
    rw [if_neg (by simp [left]), List.append_nil]
    rfl
  | turn _ intime fresh =>
    cases haction
    rw [if_pos ⟨intime, fresh⟩]
    exact humanTexts_append _ _
  | crash here =>
    have idle := Graph.idle_of_job hjob
    have hrun := here.1
    rw [idle] at hrun
    cases hrun
  | _ => cases haction

/-- **When a message sent while a confirmation is pending is recorded**: after its job it is among
the human messages of the thread if and only if it was already, or the worker could not read the
snapshot and started a new turn with it. -/
theorem correction_recorded_iff {g : Graph E W} {c d c' : Config W} {p : Prompt} {j : Job}
    {now : ℚ} {ok : Bool} {as : List (Action E)} {fs es : List (Event E)}
    (paused : c.next = .paused p)
    (hjob : g.step c (.job j now ok) = some (d, fs)) (h : g.RunsWhere goesOn d as c' es) :
    .human j.message ∈ c'.state.messages ↔
      .human j.message ∈ c.state.messages ∨ (j.late now = false ∧ ok = false) := by
  have hnext : c.next ≠ .done := by
    rw [paused]
    exact nofun
  rw [← mem_humanTexts, ← mem_humanTexts, humanTexts_of_job hjob h, List.mem_append]
  refine or_congr_right ?_
  by_cases hfresh : j.late now = false ∧ ok = false
  · rw [if_pos ⟨hfresh.1, .inl hfresh.2⟩]
    simp [hfresh]
  · have hresumes : ¬(j.late now = false ∧ (ok = false ∨ c.next = .done)) := by
      rintro ⟨intime, hok | hdone⟩
      · exact hfresh ⟨intime, hok⟩
      · exact hnext hdone
    rw [if_neg hresumes]
    simp [hfresh]

/-- A correction whose job cannot read the snapshot starts a turn, and is recorded. -/
theorem correction_recorded :
    ∃ c es, bareGraph.RunsWhere goesOn
        (({ next := .paused ⟨[], [], none⟩, world := () } : Config Unit).startTurn
          { runId := "r1", message := "No, on POL-2001" })
        [.go, .reply ⟨"Which claim is that?", []⟩, .go, .go, .go, .go] c es ∧
      approves "No, on POL-2001" = false ∧ .human "No, on POL-2001" ∈ c.state.messages := by
  obtain ⟨c, es, h, -⟩ := exists_run_of_play (restrict goesOn bareGraph.step)
    (({ next := .paused ⟨[], [], none⟩, world := () } : Config Unit).startTurn
      { runId := "r1", message := "No, on POL-2001" })
    [.go, .reply ⟨"Which claim is that?", []⟩, .go, .go, .go, .go] (fun c _ => c.running.isNone)
    (by decide)
  have hjob : bareGraph.step { next := .paused ⟨[], [], none⟩, world := () }
      (.job { runId := "r1", message := "No, on POL-2001" } 0 false) =
        some (({ next := .paused ⟨[], [], none⟩, world := () } : Config Unit).startTurn
            { runId := "r1", message := "No, on POL-2001" },
          [.published "r1" 0 .started,
            .turnStarted "No, on POL-2001" (.paused ⟨[], [], none⟩)]) := rfl
  exact ⟨c, es, h, by decide,
    (correction_recorded_iff rfl hjob h).mpr (.inr ⟨rfl, rfl⟩)⟩

/-- A correction sent while a confirmation is pending. -/
def correction : Text := "No, the amount is 900 and the policy is POL-2001"

/-- The write that the correction asks for. -/
def correctedCall : ToolCall :=
  ⟨"submit_claim", [("policy_number", .str "POL-2001"), ("claim_type", .str "Water Damage"),
    ("amount", .int 900), ("description", .str "Burst pipe in the kitchen")], "b"⟩

/-- Whether the confirm node demands a policy number that the policyholder has not given. -/
def demandsNumber (es : List (Event E)) : Bool :=
  es.any fun
    | .gateClosed (some answer) => answer = policyNumberNeeded
    | _ => false

/-- A correction is lost: after its job it is not among the human messages, and the write it asked
for is refused, as though nobody had given its policy number. -/
theorem correction_lost :
    ∃ c c' es es', (filingGraph true).Runs (newThread 0)
        [.job { runId := "r1", message := "File a $1200 water damage claim on POL-1092" } 0 true,
          .go, .reply ⟨[], [filingCall "a"]⟩, .settle (), .go,
          .job { runId := "r2", message := correction } 0 true, .go, .go, .go, .go] c es ∧
      c.running = none ∧ approves correction = false ∧ .human correction ∉ c.state.messages ∧
      (filingGraph true).Runs c
        [.job { runId := "r3", message := "Please file it as corrected" } 0 true, .go,
          .reply ⟨[], [correctedCall]⟩, .settle (), .go] c' es' ∧
      demandsNumber es' = true := by
  obtain ⟨c, es, h, hp⟩ := exists_run_of_play (filingGraph true).step (newThread 0)
    [.job { runId := "r1", message := "File a $1200 water damage claim on POL-1092" } 0 true,
      .go, .reply ⟨[], [filingCall "a"]⟩, .settle (), .go,
      .job { runId := "r2", message := correction } 0 true, .go, .go, .go, .go]
    (fun c _ => (c.running = none ∧ .human correction ∉ c.state.messages) ∧
      (play (filingGraph true).step c
        [.job { runId := "r3", message := "Please file it as corrected" } 0 true, .go,
          .reply ⟨[], [correctedCall]⟩, .settle (), .go]).any fun r => demandsNumber r.2)
    (by decide +kernel)
  obtain ⟨⟨hidle, hlost⟩, hplay⟩ := of_decide_eq_true hp
  obtain ⟨r, hr, hdemands⟩ := (Option.any_eq_true _ _).mp hplay
  exact ⟨c, r.1, es, r.2, h, hidle, by decide, hlost, .of_play hr, hdemands⟩

end OmniCare
