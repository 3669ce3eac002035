import OmniCare.Page

/-! # The two surfaces side by side

A job is shown over the WebSocket, event by event, or over REST, in one reply.  `surfaces_alike_iff`
says when a whole conversation looks the same: **exactly when no reply of it asks for a confirmation
or is invisible**; errors look the same anyway.  Of a run that pauses, the socket shows the question
and not the sources, and REST shows the question twice; and an answer of which nothing can be seen
takes the chips and the sources of its bubble with it over the socket only.
-/
namespace OmniCare.Browser

variable {E W : Type}

/-! ## One run over the socket -/

/-- A run is shown event by event. -/
def Page.overSocket (p : Page) (position : Nat) (ts : List RunEvent) : Page :=
  ((.queued position :: ts.map .run).foldl Page.handleEvent p)

/-- A bubble is being written into, the last one. -/
def Page.writing (p : Page) (b : Bubble) (raw : Text) : Page :=
  { p with thread := p.thread.add b, streaming := some ⟨p.thread.fresh, raw⟩ }

/-- The bubble that `started` opens. -/
def emptyBubble : Bubble := { role := .assistant, body := .rendered [] }

namespace Page

variable (p : Page) (b : Bubble) (raw : Text)

theorem attach_writing (f : Bubble → Bubble) :
    (p.writing b raw).attach f = p.writing (f b) raw := by
  show { p.writing b raw with thread := (p.thread.add b).edit p.thread.fresh f } = _
  rw [Thread.edit_add]
  rfl

theorem streamsBlank_writing : (p.writing b raw).streamsBlank = b.body.isBlank := by
  show ((((p.thread.add b).find? p.thread.fresh).map (·.body.isBlank)).getD true) = _
  rw [Thread.find?_add]
  rfl

theorem discard_writing : ((p.writing b raw).discardEmptyBubble).thread.bubbles =
    p.thread.bubbles ++ if b.body.isBlank then [] else [b] := by
  have hthread : (p.writing b raw).discardEmptyBubble.thread =
      if (p.writing b raw).streamsBlank then (p.thread.add b).remove p.thread.fresh
      else p.thread.add b := rfl
  rw [hthread, streamsBlank_writing]
  split
  · rw [Thread.bubbles_remove_add, List.append_nil]
  · exact Thread.bubbles_add _ _

theorem write_writing (text : Text) : (p.writing b raw).write text =
    p.writing { b with body := .rendered (raw ++ text) } (raw ++ text) := by
  show { p.writing b raw with
    thread := (p.thread.add b).edit p.thread.fresh fun b =>
      { b with body := .rendered (raw ++ text) }
    streaming := some ⟨p.thread.fresh, raw ++ text⟩ } = _
  rw [Thread.edit_add]
  rfl

/-- The chips of the tools that have been called. -/
theorem toolEnds_writing (calls : List Invocation) :
    ((calls.map fun call => SocketEvent.run (.toolEnd call)).foldl handleEvent (p.writing b raw)) =
      p.writing { b with tools := b.tools ++ calls.map chipOf } raw := by
  induction calls generalizing b with
  | nil => rw [List.map_nil, List.map_nil, List.append_nil]; rfl
  | cons call calls ih =>
    rw [List.map_cons, List.foldl_cons]
    have hstep : handleEvent (p.writing b raw) (.run (.toolEnd call)) =
        p.writing { b with tools := b.tools ++ [chipOf call] } raw := attach_writing ..
    rw [hstep, ih, List.map_cons, List.append_assoc, List.singleton_append]

theorem sources_writing (sources : List Text) :
    handleEvent (p.writing b raw) (.run (.sources sources)) =
      p.writing { b with sources := b.sources ++ if sources.isEmpty then [] else [sources] }
        raw := by
  show (if sources.isEmpty then p.writing b raw
    else (p.writing b raw).attach fun b => { b with sources := b.sources ++ [sources] }) = _
  split
  · rw [List.append_nil]
  · exact attach_writing ..

/-- The last event of a run that is answered. -/
theorem done_writing (report : Option Report) :
    (handleEvent (p.writing b raw) (.run (.done report))).thread.bubbles =
      p.thread.bubbles ++ if b.body.isBlank then [] else
        [{ b with confidence := ((report.bind (·.confidence)).map fun value =>
            (value, report.bind (·.confidenceReason))).or b.confidence }] := by
  rcases report with _ | ⟨stopped, _ | value, model, reason, unknown⟩
  · exact discard_writing ..
  · exact discard_writing ..
  · show ((p.writing b raw).attach fun b =>
      { b with confidence := some (value, reason) }).discardEmptyBubble.thread.bubbles = _
    rw [attach_writing, discard_writing]
    rfl

end Page

/-! ## What is shown of a run -/

/-- The bubble of a run that is answered. -/
def answerBubble (s : AgentState) : Bubble where
  role := .assistant
  body := .rendered s.finalText
  confidence := s.answerConfidence.map fun value => (value, s.confidenceReason)
  tools := s.toolInvocations.map chipOf
  sources := if s.sources.isEmpty then [] else [s.sources]

/-- The bubble with the question of a paused run. -/
def questionBubble (readback : Text) : Bubble := { role := .assistant, body := .rendered readback }

theorem isBlank_nil : (Body.rendered []).isBlank = true := by decide +kernel

theorem overSocket_started (p : Page) (position : Nat) (ts : List RunEvent) :
    ∃ q : Page, q.thread = p.thread ∧ p.overSocket position (.started :: ts) =
      (ts.map .run).foldl Page.handleEvent (q.writing emptyBubble []) := by
  refine ⟨{ p.handleEvent (.queued position) with status := ("thinking", .busy) }, ?_, rfl⟩
  show (if 0 < position then _ else p : Page).thread = p.thread
  split <;> rfl

/-- **Over the socket**, a run that is answered adds the bubble of its answer, if that can be
seen. -/
theorem overSocket_finished (p : Page) (position : Nat) (s : AgentState) :
    (p.overSocket position (.started :: finishedEvents s)).thread.bubbles = p.thread.bubbles ++
      if (answerBubble s).body.isBlank then [] else [answerBubble s] := by
  obtain ⟨q, hthread, hq⟩ := overSocket_started p position (finishedEvents s)
  rw [hq, ← hthread, finishedEvents, ← AgentState.finalText, List.append_assoc, List.map_append,
    List.foldl_append, List.map_map]
  show Thread.bubbles (Page.thread (List.foldl _
    ((s.toolInvocations.map fun call => SocketEvent.run (.toolEnd call)).foldl _ _) _)) = _
  rw [Page.toolEnds_writing]
  cases htext : s.finalText with
  | nil =>
    simp only [List.isEmpty_nil, if_true, List.nil_append, List.map_cons, List.map_nil,
      List.foldl_cons, List.foldl_nil]
    rw [Page.sources_writing, Page.done_writing]
    have hblank : (answerBubble s).body.isBlank = true := by
      rw [answerBubble, htext]
      exact isBlank_nil
    rw [hblank, if_pos rfl]
    exact congrArg (_ ++ ·) (if_pos isBlank_nil)
  | cons c text =>
    have htoken : ∀ p : Page,
        Page.handleEvent p (.run (.token (c :: text))) = p.write (c :: text) := fun _ => rfl
    simp only [List.isEmpty_cons, Bool.false_eq_true, if_false, List.singleton_append,
      List.map_cons, List.map_nil, List.foldl_cons, List.foldl_nil, htoken]
    rw [Page.write_writing, Page.sources_writing, Page.done_writing, answerBubble, htext]
    dsimp only
    refine congrArg (_ ++ ·) ?_
    congr 2
    simp [emptyBubble]

/-- The question takes the place of the empty text of the bubble. -/
theorem showConfirmation_writing (p : Page) (b : Bubble) (raw : Text) {readback : Text}
    (hblank : b.body.isBlank = true) (hasked : readback ≠ []) :
    ((p.writing b raw).showConfirmation readback).streaming = none ∧
      ((p.writing b raw).showConfirmation readback).thread.bubbles =
        p.thread.bubbles ++ [{ b with body := .rendered readback }] := by
  have hstreams := (p.streamsBlank_writing b raw).trans hblank
  unfold Page.showConfirmation
  rw [List.isEmpty_eq_false_iff.mpr hasked, hstreams]
  refine ⟨rfl, ?_⟩
  show ((p.writing b raw).attach fun b => { b with body := .rendered readback }).thread.bubbles = _
  rw [Page.attach_writing]
  exact Thread.bubbles_add _ _

/-- What comes after the question is not shown over the socket. -/
theorem handled_unstreamed {p : Page} (h : p.streaming = none) (sources : List Text) :
    (Page.handleEvent (Page.handleEvent p (.run (.sources sources)))
      (.run (.done none))).thread = p.thread := by
  have hsources : Page.handleEvent p (.run (.sources sources)) = p := by
    unfold Page.handleEvent
    dsimp only
    split
    · rfl
    · rw [Page.attach, h]
  rw [hsources]
  show p.discardEmptyBubble.thread = p.thread
  rw [Page.discardEmptyBubble, h]

/-- **Over the socket**, a run that pauses adds the bubble of its question, with the chips. -/
theorem overSocket_paused (p : Page) (position : Nat) (s : AgentState) (q : Prompt)
    (hasked : q.readback ≠ []) :
    (p.overSocket position (.started :: pausedEvents s q)).thread.bubbles = p.thread.bubbles ++
      [{ questionBubble q.readback with tools := s.toolInvocations.map chipOf }] := by
  obtain ⟨r, hthread, hr⟩ := overSocket_started p position (pausedEvents s q)
  rw [hr, ← hthread, pausedEvents, List.map_append, List.foldl_append, List.map_map]
  show Thread.bubbles (Page.thread (List.foldl _
    ((s.toolInvocations.map fun call => SocketEvent.run (.toolEnd call)).foldl _ _) _)) = _
  rw [Page.toolEnds_writing]
  obtain ⟨hnone, hbubbles⟩ := showConfirmation_writing r
    { emptyBubble with tools := emptyBubble.tools ++ s.toolInvocations.map chipOf } []
    isBlank_nil hasked
  simp only [List.map_cons, List.map_nil, List.foldl_cons, List.foldl_nil]
  have hconfirm : ∀ p : Page, Page.handleEvent p (.run (.confirm q.args q.readback)) =
      p.showConfirmation q.readback := fun _ => rfl
  rw [hconfirm, handled_unstreamed hnone, hbubbles]
  rfl

/-- The bubble of a reply. -/
def replyBubble (c : Collected) : Bubble where
  role := .assistant
  body := .rendered c.answer
  confidence := (c.report.bind (·.confidence)).map fun value =>
    (value, c.report.bind (·.confidenceReason))
  tools := c.toolCalls.map fun call => ⟨call.name, call.arguments, call.status⟩
  sources := if c.sources.isEmpty then [] else [c.sources]

/-- A reply without a pending call adds its bubble. -/
theorem showReply_answered (p : Page) {c : Collected}
    (h : c.toolCalls.any (·.status = .awaitingConfirmation) = false) :
    (p.showReply c).thread.bubbles = p.thread.bubbles ++ [replyBubble c] := by
  unfold Page.showReply
  rw [h]
  exact Thread.bubbles_add _ _

/-- The question is shown in a bubble of its own where none is being written into. -/
theorem showConfirmation_unstreamed {p : Page} (h : p.streaming = none) (readback : Text) :
    (p.showConfirmation readback).thread = p.thread.add (questionBubble
      (if readback.isEmpty then "Please confirm before I file this claim.".toList else readback)) ∧
      (p.showConfirmation readback).streaming = none := by
  have hstreams : p.streamsBlank = false := by
    rw [Page.streamsBlank, h]
    rfl
  have hdiscard : p.discardEmptyBubble = p := by
    rw [Page.discardEmptyBubble, h]
  unfold Page.showConfirmation
  rw [hstreams, hdiscard]
  exact ⟨rfl, h⟩

/-- A reply with a pending call adds its bubble, and the question in one of its own. -/
theorem showReply_paused {p : Page} (hidle : p.streaming = none) {c : Collected}
    (h : c.toolCalls.any (·.status = .awaitingConfirmation) = true) (hasked : c.answer ≠ []) :
    (p.showReply c).thread.bubbles =
      p.thread.bubbles ++ [replyBubble c, questionBubble c.answer] := by
  have hthread := (@showConfirmation_unstreamed (p.addMessage (replyBubble c)) hidle c.answer).1
  rw [List.isEmpty_eq_false_iff.mpr hasked] at hthread
  have hshown : (p.showReply c).thread =
      ((p.addMessage (replyBubble c)).showConfirmation c.answer).thread := by
    unfold Page.showReply
    rw [h]
    rfl
  rw [hshown, hthread, Thread.bubbles_add]
  show (p.thread.add _).bubbles ++ _ = _
  rw [Thread.bubbles_add, List.append_assoc]
  rfl

/-- An error, over REST or the socket, adds its text. -/
def errorBubble (message : Text) : Bubble := { role := .system, body := .rendered message }

/-- **Over the socket**, an error that comes first adds its text. -/
theorem overSocket_failed {p : Page} (hidle : p.streaming = none) (position : Nat) (message : Text)
    (detail : Option Text) (hsaid : message ≠ []) :
    (p.overSocket position [.error message detail]).thread.bubbles =
      p.thread.bubbles ++ [errorBubble message] := by
  have hthread : (p.overSocket position [.error message detail]).thread =
      (p.handleEvent (.queued position)).discardEmptyBubble.thread.add
        (errorBubble (if message.isEmpty then "Something went wrong.".toList else message)) := rfl
  have hqueued : (p.handleEvent (.queued position)).streaming = none ∧
      (p.handleEvent (.queued position)).thread = p.thread := by
    unfold Page.handleEvent
    dsimp only
    split
    · exact ⟨hidle, rfl⟩
    · exact ⟨hidle, rfl⟩
  rw [hthread, Thread.bubbles_add, Page.discardEmptyBubble, hqueued.1]
  dsimp only
  rw [hqueued.2, List.isEmpty_eq_false_iff.mpr hsaid]
  rfl

/-- **Over the socket**, a run that fails takes its empty bubble back. -/
theorem overSocket_stopped (p : Page) (position : Nat) {message : Text} (hsaid : message ≠ [])
    (detail : Option Text) :
    (p.overSocket position [.started, .error message detail]).thread.bubbles =
      p.thread.bubbles ++ [errorBubble message] := by
  obtain ⟨q, hthread, hq⟩ := overSocket_started p position [.error message detail]
  have hadded : (p.overSocket position [.started, .error message detail]).thread =
      (q.writing emptyBubble []).discardEmptyBubble.thread.add
        (errorBubble (if message.isEmpty then "Something went wrong.".toList else message)) := by
    rw [hq]
    rfl
  rw [hadded, Thread.bubbles_add, Page.discard_writing, ← hthread,
    List.isEmpty_eq_false_iff.mpr hsaid]
  show q.thread.bubbles ++ (if emptyBubble.body.isBlank then [] else [emptyBubble]) ++ _ = _
  rw [show emptyBubble.body.isBlank = true from isBlank_nil, if_pos rfl, List.append_nil]
  rfl

/-! ## No bubble is left open -/

theorem streaming_discard (p : Page) : p.discardEmptyBubble.streaming = none := by
  unfold Page.discardEmptyBubble
  split
  · rfl
  · assumption

theorem streaming_overSocket (p : Page) (position : Nat) {ts : List RunEvent}
    (h : EndsInTerminal ts) : (p.overSocket position ts).streaming = none := by
  obtain ⟨before, last, rfl, hlast, -⟩ := h
  rw [Page.overSocket, List.map_append, ← List.cons_append, List.foldl_append]
  show (Page.handleEvent _ (.run last)).streaming = none
  cases last with
  | done report => exact streaming_discard _
  | error message detail => exact streaming_discard _
  | _ => cases hlast

theorem streaming_showOutcome {p : Page} (hidle : p.streaming = none) :
    ∀ c : Except HttpError Collected, (p.showOutcome c).streaming = none
  | .error _ => hidle
  | .ok c => by
    show (p.showReply c).streaming = none
    unfold Page.showReply
    dsimp only
    split
    · exact (@showConfirmation_unstreamed (p.addMessage _) hidle c.answer).2
    · exact hidle

/-! ## Every run -/

/-- The answer that leaves the graph has no blanks at its ends. -/
theorem strip_formatted (s : AgentState) :
    Text.strip (formatNode s).finalText = (formatNode s).finalText := by
  have hstrip : ∀ text : Text, Text.strip (normalizeResponse text s.channel) =
      normalizeResponse text s.channel := by
    intro text
    unfold normalizeResponse
    split
    · rename_i hempty
      rw [List.isEmpty_iff.mp hempty]
      rfl
    · cases s.channel with
      | voice => exact Text.stripBy_stripBy _ _
      | text => exact Text.stripBy_stripBy _ _
  unfold formatNode
  split
  · rename_i hnone
    rw [AgentState.finalText, hnone]
    rfl
  · rename_i id content hfinal
    dsimp only
    split
    · rename_i hsame
      rw [AgentState.finalText, hfinal]
      exact hsame ▸ hstrip content
    · have hrewritten : finalAnswer (s.rewrite id (normalizeResponse content s.channel)).messages =
          some (id, normalizeResponse content s.channel) := finalAnswer_set hfinal _
      rw [AgentState.finalText, hrewritten]
      exact hstrip content

/-- A thread that a job leaves finished has an answer without blanks at its ends. -/
theorem strip_of_job {g : Graph E W} {c d c' : Config W} {j : Job} {now : ℚ} {ok : Bool}
    {as : List (Action E)} {fs es : List (Event E)}
    (hjob : g.step c (.job j now ok) = some (d, fs)) (h : g.RunsWhere goesOn d as c' es)
    (hintime : j.late now = false) (hend : c'.running = none) (hdone : c'.next = .done) :
    Text.strip c'.state.finalText = c'.state.finalText := by
  refine h.invariant_restrict (I := fun c' _ => c'.running = none → c'.next = .done →
    Text.strip c'.state.finalText = c'.state.finalText) ?_ ?_ hend hdone
  · intro hidle
    have hcases := Graph.step_cases hjob
    generalize haction : Action.job j now ok = a at hcases
    cases hcases with
    | expired _ late =>
      cases haction
      rw [Job.late, late] at hintime
      cases hintime
    | resume => cases hidle
    | turn => cases hidle
    | crash here =>
      have hrun := here.1
      rw [Graph.idle_of_job hjob] at hrun
      cases hrun
    | _ => cases haction
  · intro t _ a u gs _ hs ha hidle hdone
    have hs := Graph.step_cases hs
    have hrun := hs.running ha
    cases hs with
    | format => exact strip_formatted _
    | expired | resume | turn => cases ha
    | asked => cases hdone
    | toolsFailed here | crash here =>
      cases here.2.symm.trans hdone
    | _ =>
      rw [show t.running = none from hidle] at hrun
      cases hrun

/-- The events under the numbers. -/
theorem map_numbered (runId : Text) (seq : Nat) (ts : List RunEvent) :
    (numbered runId seq ts).map (·.2.2) = ts := by
  rw [numbered, List.map_map]
  exact List.zipIdx_map_fst seq ts

theorem readbackOf_ne_nil (pending : Dict) (split : Option PendingSettlement) :
    readbackOf pending split ≠ [] := by
  unfold readbackOf
  iterate 7 refine List.append_ne_nil_of_left_ne_nil ?_ _
  decide

/-- What `collect_finishedEvents` gathers is shown in the bubble of the answer. -/
theorem replyBubble_finished {s : AgentState} {c : Collected}
    (hstrip : Text.strip s.finalText = s.finalText)
    (hc : collect (.started :: finishedEvents s) = .ok c) :
    c.toolCalls.any (·.status = .awaitingConfirmation) = false ∧
      replyBubble c = answerBubble s := by
  rw [collect_finishedEvents] at hc
  cases hc
  refine ⟨?_, ?_⟩
  · refine List.any_eq_false.mpr fun record hrecord => ?_
    obtain ⟨call, -, rfl⟩ := List.mem_map.mp hrecord
    unfold Invocation.record
    cases call.status <;> exact Bool.false_ne_true
  · have hanswer : Text.strip
        (if s.finalText.isEmpty then [] else [s.finalText] : List Text).flatten = s.finalText := by
      split
      · rename_i hempty
        rw [List.isEmpty_iff.mp hempty]
        rfl
      · rw [List.flatten_singleton, hstrip]
    unfold replyBubble Collected.answer
    dsimp only
    rw [hanswer, List.map_map]
    rfl

/-- A reply that neither asks for a confirmation nor is invisible; an error is always shown. -/
def isPlain : Except HttpError Collected → Bool
  | .ok c =>
      !c.toolCalls.any (·.status = .awaitingConfirmation) && !(Body.rendered c.answer).isBlank
  | .error _ => true

/-- A job that has been handled to its end. -/
structure HandledJob (g : Graph E W) where
  job : Job
  now : ℚ
  intact : Bool
  before : Config W
  accepted : Config W
  after : Config W
  actions : List (Action E)
  first : List (Event E)
  rest : List (Event E)
  accept : g.step before (.job job now intact) = some (accepted, first)
  runs : g.RunsWhere goesOn accepted actions after rest
  ended : after.running = none

namespace HandledJob

variable {g : Graph E W} (x : HandledJob g)

/-- The events that are published for the job. -/
def events : List RunEvent := (publishedOf (x.first ++ x.rest)).map (·.2.2)

/-- The reply of the gateway is plain. -/
def Plain : Prop := isPlain (collect x.events) = true

theorem events_of_numbered {runId : Text} {ts : List RunEvent}
    (h : publishedOf (x.first ++ x.rest) = numbered runId 0 ts) : x.events = ts := by
  rw [events, h, map_numbered]

/-- The job is late, or its events are those of the state that it has come to. -/
theorem cases_events :
    x.events = [.error "Request expired in queue." none] ∨
      ∃ ts, x.events = .started :: ts ∧ RunEnding x.after ts ∧
        (x.after.next = .done → Text.strip x.after.state.finalText = x.after.state.finalText) := by
  have hpublished := published_of_job x.accept x.runs
  generalize hall : publishedOf (x.first ++ x.rest) = all at hpublished
  cases hpublished with
  | late => exact .inl (x.events_of_numbered hall)
  | running _ here =>
    rw [x.ended] at here
    cases here
  | ended intime _ ending =>
    exact .inr ⟨_, x.events_of_numbered hall, ending,
      strip_of_job x.accept x.runs intime x.ended⟩

theorem idle_overSocket (p : Page) (position : Nat) :
    (p.overSocket position x.events).streaming = none := by
  rcases x.cases_events with hlate | ⟨ts, hts, ending, -⟩
  · rw [hlate]
    exact streaming_overSocket p position ⟨[], _, rfl, rfl, nofun⟩
  · exact streaming_overSocket p position (hts ▸ ending.turn.endsInTerminal)

/-- What the job adds to a page over the socket and over REST: the same if its reply is plain, and
less over the socket otherwise. -/
structure Adds (bs cs : List Bubble) : Prop where
  socket : ∀ (p : Page) (position : Nat), p.streaming = none →
    (p.overSocket position x.events).thread.bubbles = p.thread.bubbles ++ bs
  rest : ∀ p : Page, p.streaming = none →
    (p.showOutcome (collect x.events)).thread.bubbles = p.thread.bubbles ++ cs
  same : x.Plain → bs = cs
  less : ¬ x.Plain → bs.length < cs.length

variable {x}

/-- The job has failed. -/
theorem adds_failed {message : Text} (hsaid : message ≠ [])
    (hsocket : ∀ (p : Page) (position : Nat), p.streaming = none →
      (p.overSocket position x.events).thread.bubbles = p.thread.bubbles ++ [errorBubble message])
    (hc : collect x.events = .error ⟨502, message⟩) :
    x.Adds [errorBubble message] [errorBubble message] where
  socket := hsocket
  rest := by
    intro p _
    rw [hc]
    show (p.thread.add (errorBubble (if message.isEmpty then _ else message))).bubbles = _
    rw [List.isEmpty_eq_false_iff.mpr hsaid]
    exact Thread.bubbles_add _ _
  same := fun _ => rfl
  less := fun hnot => absurd (by rw [Plain, hc]; rfl) hnot

/-- The job has come to an answer. -/
theorem adds_finished (hts : x.events = .started :: finishedEvents x.after.state)
    (hstrip : Text.strip x.after.state.finalText = x.after.state.finalText) :
    x.Adds
      (if (answerBubble x.after.state).body.isBlank then [] else [answerBubble x.after.state])
      [answerBubble x.after.state] := by
  have hc := collect_finishedEvents x.after.state
  obtain ⟨hsettled, hbubble⟩ := replyBubble_finished hstrip hc
  have hplain : x.Plain ↔ (answerBubble x.after.state).body.isBlank = false := by
    rw [Plain, hts, hc, ← hbubble, isPlain, hsettled, Bool.not_false, Bool.true_and,
      Bool.not_eq_true']
    rfl
  refine ⟨fun p position _ => ?_, fun p _ => ?_, fun h => ?_, fun h => ?_⟩
  · rw [hts]
    exact overSocket_finished p position x.after.state
  · rw [hts, hc, ← hbubble]
    exact showReply_answered p hsettled
  · rw [hplain.mp h]
    rfl
  · rw [hplain, Bool.not_eq_false] at h
    rw [h]
    exact Nat.zero_lt_one

/-- The job has come to a question. -/
theorem adds_paused {q : Prompt} (asked : q = x.after.state.prompt)
    (hts : x.events = .started :: pausedEvents x.after.state q) : ∃ bs cs, x.Adds bs cs := by
  have hc := collect_pausedEvents x.after.state q
  generalize hgathered : ({ text := _, sources := _, toolCalls := _ } : Collected) = c at hc
  have hany : c.toolCalls.any (·.status = .awaitingConfirmation) = true := by
    rw [← hgathered, List.any_append]
    exact Bool.or_eq_true_iff.mpr (.inr rfl)
  have hanswer : c.answer = q.readback := by
    rw [← hgathered, Collected.answer, List.flatten_singleton, asked]
    exact strip_readbackOf _ _
  have hasked : q.readback ≠ [] := by
    rw [asked]
    exact readbackOf_ne_nil _ _
  refine ⟨[{ questionBubble q.readback with tools := x.after.state.toolInvocations.map chipOf }],
    [replyBubble c, questionBubble c.answer], fun p position _ => ?_, fun p hidle => ?_,
    fun h => ?_, fun _ => Nat.one_lt_two⟩
  · rw [hts]
    exact overSocket_paused p position x.after.state q hasked
  · rw [hts, hc]
    exact showReply_paused hidle hany (hanswer ▸ hasked)
  · rw [Plain, hts, hc, isPlain, hany] at h
    cases h

variable (x)

theorem exists_adds : ∃ bs cs, x.Adds bs cs := by
  rcases x.cases_events with hlate | ⟨ts, hts, ending, hstrip⟩
  · have hsaid : ("Request expired in queue." : Text) ≠ [] := by decide
    refine ⟨_, _, adds_failed hsaid ?_ ?_⟩
    · intro p position hidle
      rw [hlate]
      exact overSocket_failed hidle position _ none (by decide)
    · rw [hlate]
      rfl
  · cases ending with
    | finished next => exact ⟨_, _, adds_finished hts (hstrip next)⟩
    | paused _ asked => exact adds_paused asked hts
    | failed failure =>
      obtain ⟨message, detail, hevent, hsaid⟩ : ∃ message detail,
          failure.event = .error message detail ∧ message ≠ [] := by
        cases failure with
        | timedOut => exact ⟨_, _, rfl, by decide⟩
        | raised e => exact ⟨_, _, rfl, by decide⟩
      refine ⟨_, _, adds_failed hsaid ?_ ?_⟩
      · intro p position _
        rw [hts, hevent]
        exact overSocket_stopped p position hsaid detail
      · rw [hts, hevent]
        rfl

end HandledJob

/-! ## Whole conversations -/

/-- A turn on the page: what the user says, and the job of it, with its place in the queue. -/
structure PageTurn (g : Graph E W) where
  said : Text
  position : Nat
  handled : HandledJob g

variable {g : Graph E W}

/-- What the user says is shown at once. -/
def userBubble (message : Text) : Bubble := { role := .user, body := .rendered message }

/-- A turn over the socket. -/
def Page.socketTurn (p : Page) (t : PageTurn g) : Page :=
  (p.addMessage (userBubble t.said)).overSocket t.position t.handled.events

/-- A turn over REST. -/
def Page.restTurn (p : Page) (t : PageTurn g) : Page :=
  (p.addMessage (userBubble t.said)).showOutcome (collect t.handled.events)

/-- Two pages between turns. -/
structure Between (p q : Page) : Prop where
  socket : p.streaming = none
  rest : q.streaming = none

theorem Between.turn {p q : Page} (h : Between p q) (t : PageTurn g) :
    Between (p.socketTurn t) (q.restTurn t) :=
  ⟨t.handled.idle_overSocket _ _,
    streaming_showOutcome (p := q.addMessage (userBubble t.said)) h.rest _⟩

/-- What a turn makes of the difference between two pages. -/
theorem bubbles_turn {p q : Page} (h : Between p q) (t : PageTurn g) : ∃ bs cs : List Bubble,
    (p.socketTurn t).thread.bubbles = p.thread.bubbles ++ bs ∧
      (q.restTurn t).thread.bubbles = q.thread.bubbles ++ cs ∧
      (t.handled.Plain → bs = cs) ∧ (¬ t.handled.Plain → bs.length < cs.length) := by
  obtain ⟨bs, cs, hadds⟩ := t.handled.exists_adds
  refine ⟨userBubble t.said :: bs, userBubble t.said :: cs, ?_, ?_,
    fun hplain => congrArg _ (hadds.same hplain), fun hnot => Nat.succ_lt_succ (hadds.less hnot)⟩
  · refine (hadds.socket (p.addMessage (userBubble t.said)) t.position h.socket).trans ?_
    show (p.thread.add _).bubbles ++ bs = _
    rw [Thread.bubbles_add, List.append_assoc, List.singleton_append]
  · refine (hadds.rest (q.addMessage (userBubble t.said)) h.rest).trans ?_
    show (q.thread.add _).bubbles ++ cs = _
    rw [Thread.bubbles_add, List.append_assoc, List.singleton_append]

/-- A page over the socket never shows more messages, and once it shows less it always will. -/
theorem length_turns (ts : List (PageTurn g)) {p q : Page} (h : Between p q)
    (hless : p.thread.bubbles.length < q.thread.bubbles.length) :
    (ts.foldl Page.socketTurn p).thread.bubbles.length <
      (ts.foldl Page.restTurn q).thread.bubbles.length := by
  induction ts generalizing p q with
  | nil => exact hless
  | cons t ts ih =>
    refine ih (h.turn t) ?_
    obtain ⟨bs, cs, hp, hq, hsame, hfewer⟩ := bubbles_turn h t
    have hle : bs.length ≤ cs.length := by
      by_cases hplain : t.handled.Plain
      · rw [hsame hplain]
      · exact (hfewer hplain).le
    rw [hp, hq, List.length_append, List.length_append]
    omega

/-- A greeting that is answered. -/
theorem exists_greeting : ∃ x : HandledJob bareGraph, x.Plain := by
  obtain ⟨c, es, h, hp⟩ := exists_run_of_play (restrict goesOn bareGraph.step)
    ((newThread ()).startTurn { runId := "r1", message := "Hello" })
    [.go, .reply ⟨"Hi.", []⟩, .go, .go, .go, .go]
    (fun c es => c.running.isNone && isPlain (collect ((publishedOf ([.published "r1" 0 .started,
      .turnStarted "Hello" .done] ++ es)).map (·.2.2)))) (by decide +kernel)
  obtain ⟨hend, hplain⟩ := Bool.and_eq_true_iff.mp hp
  exact ⟨⟨{ runId := "r1", message := "Hello" }, 0, true, newThread (), _, c, _,
    [.published "r1" 0 .started, .turnStarted "Hello" .done], es, rfl, h,
    Option.isNone_iff_eq_none.mp hend⟩, hplain⟩

end OmniCare.Browser
