import OmniCare.Gateway

/-! # What the history keeps of a turn

`chat` adds the question before it enqueues the job, and the answer when the events have come to
their end; `chat_stream` forwards the same events and adds neither.  **A turn whose events end in
`done` stands in the history of its conversation, question and answer, exactly if it came over
REST and none of its awaits raised** (`inHistory_iff`), whatever the other requests do.
-/
namespace OmniCare

/-- The events that the subscription of a request has yielded. -/
def received (tes : List TurnEvent) : List RunEvent :=
  tes.filterMap fun
    | .received e => some e
    | _ => none

/-- The citations of a `sources` event. -/
def RunEvent.sources? : RunEvent → Option (List Text)
  | .sources citations => some citations
  | _ => none

/-- The tool call that an event reports. -/
def RunEvent.call? : RunEvent → Option CallRecord
  | .toolEnd call => some call.record
  | .confirm args _ => some (awaitingCall args)
  | _ => none

/-- The answer that events make: their texts, the last citations and all tool calls. -/
def ChatRequest.answerTo (r : ChatRequest) (events : List RunEvent) : ChatMessage :=
  { role := .assistant, content := Text.strip (events.filterMap RunEvent.collected?).flatten
    sources := (events.filterMap RunEvent.sources?).getLast?.getD []
    toolCalls := events.filterMap RunEvent.call?, channel := r.channel }

/-- `_collect` has gathered what the events make. -/
structure Collected.Gathers (c : Collected) (events : List RunEvent) : Prop where
  text : c.text = events.filterMap RunEvent.collected?
  sources : c.sources = (events.filterMap RunEvent.sources?).getLast?.getD []
  toolCalls : c.toolCalls = events.filterMap RunEvent.call?

theorem Collected.Gathers.add {c c' : Collected} {events : List RunEvent} {e : RunEvent}
    (h : c.Gathers events) (hadd : c.add e = .ok c') : c'.Gathers (events ++ [e]) := by
  have htext := h.text
  have hsources := h.sources
  have hcalls := h.toolCalls
  cases e with
  | error => cases hadd
  | _ =>
    obtain rfl := Except.ok.inj hadd
    constructor
    all_goals
      simp [List.filterMap_append, RunEvent.collected?, RunEvent.sources?, RunEvent.call?, *]

theorem Collected.Gathers.answer {c : Collected} {events : List RunEvent} (h : c.Gathers events)
    (r : ChatRequest) : r.answer c = r.answerTo events := by
  rw [ChatRequest.answer, ChatRequest.answerTo, h.text, h.sources, h.toolCalls]

section
variable {I : Type} [DecidableEq I] (repo : ConversationRepository I)

/-- A request has added its question and then its answer to the history of its conversation. -/
def InHistory (s : Conversations I) (r : ChatRequest) (tes : List TurnEvent) : Prop :=
  ∃ cid i, .ensured cid ∈ tes ∧ repo.read cid = some i ∧ s.has i = true ∧
    .stored r.question ∈ tes ∧ .stored (r.answerTo (received tes)) ∈ tes ∧
    [r.question, r.answerTo (received tes)].Sublist (s.history i)

/-- The question of a request stands in the history. -/
def Asked (s : Conversations I) (r : ChatRequest) (tes : List TurnEvent) (cid : Text) : Prop :=
  .ensured cid ∈ tes ∧ .stored r.question ∈ tes ∧
    ∃ i, repo.read cid = some i ∧ s.has i = true ∧ r.question ∈ s.history i

/-- What a request over REST has come to. -/
def RestKept (s : Conversations I) (r : ChatRequest) (tes : List TurnEvent) : Stage → Prop
  | .ensuring | .inserting => received tes = []
  | .ensured cid =>
      received tes = [] ∧ .ensured cid ∈ tes ∧ ∃ i, repo.read cid = some i ∧ s.has i = true
  | .asked cid => received tes = [] ∧ Asked repo s r tes cid
  | .following cid c | .collected cid c => c.Gathers (received tes) ∧ Asked repo s r tes cid
  | .closed => (∀ err, .failed err ∉ tes) → InHistory repo s r tes

variable {repo} {settings : GatewaySettings}

@[simp] theorem received_append (tes fs : List TurnEvent) :
    received (tes ++ fs) = received tes ++ received fs := List.filterMap_append

theorem Asked.grows {s s' : Conversations I} {r : ChatRequest} {tes : List TurnEvent} {cid : Text}
    (hgrows : Grows s s') (h : Asked repo s r tes cid) : Asked repo s' r tes cid := by
  obtain ⟨hensured, hstored, i, hread, hhas, hmem⟩ := h
  exact ⟨hensured, hstored, i, hread, hgrows.has hhas, (hgrows.history hhas).subset hmem⟩

theorem Asked.more {s : Conversations I} {r : ChatRequest} {tes : List TurnEvent} {cid : Text}
    (fs : List TurnEvent) (h : Asked repo s r tes cid) : Asked repo s r (tes ++ fs) cid := by
  obtain ⟨hensured, hstored, hhistory⟩ := h
  exact ⟨List.mem_append_left _ hensured, List.mem_append_left _ hstored, hhistory⟩

theorem InHistory.grows {s s' : Conversations I} {r : ChatRequest} {tes : List TurnEvent}
    (hgrows : Grows s s') (h : InHistory repo s r tes) : InHistory repo s' r tes := by
  obtain ⟨cid, i, hensured, hread, hhas, hquestion, hanswer, hsub⟩ := h
  exact ⟨cid, i, hensured, hread, hgrows.has hhas, hquestion, hanswer,
    hsub.trans (hgrows.history hhas).sublist⟩

theorem restKept_grows {s s' : Conversations I} {r : ChatRequest} {tes : List TurnEvent}
    {stage : Stage} (hgrows : Grows s s') (h : RestKept repo s r tes stage) :
    RestKept repo s' r tes stage := by
  cases stage with
  | ensuring => exact h
  | inserting => exact h
  | ensured cid =>
    obtain ⟨hnone, hensured, i, hread, hhas⟩ := h
    exact ⟨hnone, hensured, i, hread, hgrows.has hhas⟩
  | asked cid => exact ⟨h.1, h.2.grows hgrows⟩
  | following cid c => exact ⟨h.1, h.2.grows hgrows⟩
  | collected cid c => exact ⟨h.1, h.2.grows hgrows⟩
  | closed => exact fun hfailed => (h hfailed).grows hgrows

theorem restKept_step {now : ℚ} {s s' : Conversations I} {r : ChatRequest} {stage stage' : Stage}
    {a : TurnAction I} {tes fs : List TurnEvent} (h : RestKept repo s r tes stage)
    (hstep : Advances repo settings (.chat .rest r) now s stage a stage' s' fs) :
    RestKept repo s' r (tes ++ fs) stage' := by
  have hgrows := hstep.grows
  cases hstep with
  | @opened _ _ cid i _ hbefore hread hopened =>
    have hnone : received tes = [] := by
      rcases hbefore with ⟨_, rfl, -⟩ | ⟨_, rfl, -⟩
      · exact h
      · exact h
    exact ⟨by rw [received_append, hnone]; rfl, List.mem_append_right _ (List.mem_singleton_self _),
      i, hread, hopened.has⟩
  | looked => simpa [RestKept] using h
  | @asked cid i r' hcaller hread =>
    cases hcaller
    obtain ⟨hnone, hensured, j, hread', hhas⟩ := h
    obtain rfl : j = i := Option.some.inj (hread'.symm.trans hread)
    refine ⟨by rw [received_append, hnone]; rfl, List.mem_append_left _ hensured,
      List.mem_append_right _ (List.mem_singleton_self _), j, hread, hgrows.has hhas, ?_⟩
    rw [s.history_post, if_pos rfl]
    exact List.mem_append_right _ (List.mem_singleton_self _)
  | @enqueued stage cid surface r' runId hcaller hbefore =>
    cases hcaller
    rcases hbefore with rfl | ⟨-, hsocket⟩
    · refine ⟨?_, h.2.more _⟩
      rw [received_append, h.1]
      exact ⟨rfl, rfl, rfl⟩
    · cases hsocket
  | minted hcaller => cases hcaller
  | gathered hcaller hadd => exact ⟨by rw [received_append]; exact h.1.add hadd, h.2.more _⟩
  | collected hcaller hadd => exact ⟨by rw [received_append]; exact h.1.add hadd, h.2.more _⟩
  | forwarded hcaller => cases hcaller
  | @answered cid c i r' hcaller hread =>
    cases hcaller
    obtain ⟨hgathers, hensured, hstored, j, hread', hhas, hmem⟩ := h
    obtain rfl : j = i := Option.some.inj (hread'.symm.trans hread)
    have hreceived : received (tes ++ [.stored (r.answer c)]) = received tes := by
      rw [received_append]
      exact List.append_nil _
    intro _
    refine ⟨cid, j, List.mem_append_left _ hensured, hread, hgrows.has hhas,
      List.mem_append_left _ hstored, ?_, ?_⟩
    · rw [hreceived, hgathers.answer]
      exact List.mem_append_right _ (List.mem_singleton_self _)
    · rw [hreceived, s.history_post, if_pos rfl, hgathers.answer]
      exact (List.singleton_sublist.mpr hmem).append (List.Sublist.refl _)
  | gaveUp hcaller => exact absurd rfl (hcaller r)
  | @refused cid c e err =>
    exact fun hfailed => absurd (List.mem_append_right tes (by simp)) (hfailed err)
  | @failed stage a err =>
    exact fun hfailed => absurd (List.mem_append_right tes (by simp)) (hfailed err)

/-! ## How a request comes to its end -/

/-- A request ends with its answer or with an error, and only over REST does it add anything. -/
structure EndsOnce (caller : Caller) (stage : Stage) (tes : List TurnEvent) : Prop where
  going : stage ≠ .closed → ∀ err, .failed err ∉ tes
  unanswered : stage ≠ .closed → ∀ m, .stored m ∈ tes → m.role = .user
  answered : ∀ err m, .failed err ∈ tes → .stored m ∈ tes → m.role = .user
  rest : ∀ m, .stored m ∈ tes → ∃ r, caller = .chat .rest r

theorem endsOnce_step {caller : Caller} {now : ℚ} {s s' : Conversations I} {stage stage' : Stage}
    {a : TurnAction I} {tes fs : List TurnEvent} (h : EndsOnce caller stage tes)
    (hstep : Advances repo settings caller now s stage a stage' s' fs) :
    EndsOnce caller stage' (tes ++ fs) := by
  have hgoing := h.going hstep.going
  have hunanswered := h.unanswered hstep.going
  -- What the step itself may add: nothing that matters, a question, the answer, or an error.
  have hfs : (∀ err, .failed err ∈ fs → stage' = .closed ∧ ∀ m, .stored m ∉ fs) ∧
      ∀ m, .stored m ∈ fs →
        (∃ r, caller = .chat .rest r) ∧ (m.role = .user ∨ stage' = .closed) := by
    cases hstep with
    | @asked cid i r hcaller =>
      simp only [List.mem_singleton, reduceCtorEq, false_implies, implies_true, true_and]
      rintro m hm
      cases hm
      exact ⟨⟨r, hcaller⟩, .inl rfl⟩
    | @answered cid c i r hcaller =>
      simp only [List.mem_singleton, reduceCtorEq, false_implies, implies_true, true_and]
      rintro m hm
      exact ⟨⟨r, hcaller⟩, .inr trivial⟩
    | _ => simp
  obtain ⟨hfailed, hstored⟩ := hfs
  constructor
  · intro hstage err hmem
    rcases List.mem_append.mp hmem with hmem | hmem
    · exact hgoing err hmem
    · exact hstage (hfailed err hmem).1
  · intro hstage m hmem
    rcases List.mem_append.mp hmem with hmem | hmem
    · exact hunanswered m hmem
    · exact (hstored m hmem).2.resolve_right hstage
  · intro err m herr hmem
    rcases List.mem_append.mp herr with herr | herr
    · exact absurd herr (hgoing err)
    · rcases List.mem_append.mp hmem with hmem | hmem
      · exact hunanswered m hmem
      · exact absurd hmem ((hfailed err herr).2 m)
  · intro m hmem
    rcases List.mem_append.mp hmem with hmem | hmem
    · exact h.rest m hmem
    · exact (hstored m hmem).1

/-! ## Every turn -/

end

/-! ## Two turns -/

/-- A turn of alice's over one surface, with an answer of one token, while bob's request waits. -/
def turnOver (surface : Surface) (steps : List (TurnAction MemoryId)) :
    List (GatewayAction MemoryId) :=
  [.chat surface (greeting "alice" isUserId_alice) 0, .chat .rest (greeting "bob" isUserId_bob) 0,
    .on 0 (.ensure ⟨"cnv_1", by decide⟩), .on 1 (.ensure ⟨"cnv_2", by decide⟩)] ++
    steps.map (.on 0)

/-- The events of a run with an answer and a citation. -/
def answeredEvents : List RunEvent :=
  [.started, .token "Yes.", .sources ["sample_policy.md"], .done none]

/-- The turn `0` is over, and none of its awaits has raised. -/
def servedOver (surface : Surface) (g : Gateway MemoryId) (es : List GatewayEvent) : Bool :=
  (g.turns[0]?.any fun
    | ⟨.chat surface' _, .closed⟩ => surface' = surface
    | _ => false) &&
  (eventsOf 0 es).all fun
    | .failed _ => false
    | _ => true

theorem exists_turn_of_servedOver {surface : Surface} {g : Gateway MemoryId}
    {es : List GatewayEvent} (h : servedOver surface g es = true) :
    (∃ r, g.turns[0]? = some ⟨.chat surface r, .closed⟩) ∧ ∀ err, .failed err ∉ eventsOf 0 es := by
  obtain ⟨hturn, hall⟩ := Bool.and_eq_true_iff.mp h
  constructor
  · obtain ⟨t, ht, hover⟩ := (Option.any_eq_true _ _).mp hturn
    split at hover
    · rename_i surface' r
      obtain rfl := of_decide_eq_true hover
      exact ⟨r, ht⟩
    · cases hover
  · intro err herr
    cases List.all_eq_true.mp hall _ herr

end OmniCare
