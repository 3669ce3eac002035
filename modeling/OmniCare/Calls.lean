import OmniCare.Subscriptions
import OmniCare.Surfaces
import OmniCare.Utterances

/-! # Calls

A turn of a call: `_AgentStream._run` of `voice/app/agent_llm.py` puts what was heard into the queue
of the agent, follows the events of the run, says what is to be said and passes on what is to be
shown.  **The caller hears one utterance a turn**, however the run and the subscription are
interleaved, and if nothing times out it is what REST would have answered (`heard_once`).
-/
namespace OmniCare

open Tailing

variable {E W : Type}

/-! ## What is said -/

/-- Said of a run that has failed. -/
def wentWrong : Text := "Sorry, something went wrong on my end. Could you try again?".toList

/-- Said where there is nothing to say. -/
def notCompleted : Text := "Sorry, I wasn't able to complete that. Could you try again?".toList

/-- `_spoken`.  No worker publishes a `tool_start`, which there are fillers for. -/
def RunEvent.spoken : RunEvent → Text
  | .token text => text
  | .confirm _ readback => readback
  | .error _ _ => wentWrong
  | _ => []

/-- A message to the browser, over the data channel. -/
inductive BrowserMessage
  | tool (name : Text) (status : CallStatus)
  | answerDelta (text : Text)
  | sources (cited : List Text)
  | confirm (readback : Text) (args : Dict)
  /-- The `state` of the end of a run. -/
  | listening
  deriving DecidableEq

/-- `browser_message`. -/
def RunEvent.browserMessage : RunEvent → Option BrowserMessage
  | .toolEnd call => some (.tool call.name call.record.status)
  | .token text => if text.isEmpty then none else some (.answerDelta text)
  | .sources cited => if cited.isEmpty then none else some (.sources cited)
  | .confirm args readback => some (.confirm readback args)
  | .done _ => some .listening
  | .started | .error _ _ => none

/-! ## The turn -/

/-- A turn of a call, with its subscription. -/
structure AgentStream where
  subscription : RedisSubscription
  spoke : Bool := false

/-- What comes out of a turn. -/
inductive CallOutput
  | shown (message : BrowserMessage)
  | said (text : Text)
  deriving DecidableEq

/-- What comes out of an event: `_on_event` first. -/
def RunEvent.outputs (e : RunEvent) : List CallOutput :=
  (e.browserMessage.map .shown).toList ++ if e.spoken.isEmpty then [] else [.said e.spoken]

/-- How a turn begins: with a job, or without one. -/
inductive TurnStart
  | silent
  | said (text : Text)
  | enqueued (job : Job)

/-- `_run` up to `enqueue`. -/
def startTurn (message runId userId conversationId : Text) (sttConfidence : Option ℚ)
    (deadlineAt : ℚ) : TurnStart :=
  if isProbablySilence message then .silent
  else if message.isEmpty then .said "Sorry, I didn't catch that. Could you say it again?".toList
  else
    .enqueued { runId, message, userId, conversationId, channel := .voice, sttConfidence
                deadlineAt := some deadlineAt }

example : isProbablySilence [] = true := by decide +kernel

/-- Nobody is told that nothing was heard: an empty message counts as silence. -/
theorem startTurn_cases (message runId userId conversationId : Text)
    (sttConfidence : Option ℚ) (deadlineAt : ℚ) :
    startTurn message runId userId conversationId sttConfidence deadlineAt = .silent ∨
      ∃ job, job.message = message ∧
        startTurn message runId userId conversationId sttConfidence deadlineAt = .enqueued job := by
  unfold startTurn
  split
  · exact .inl rfl
  · rename_i hheard
    split
    · rename_i hempty
      rw [List.isEmpty_iff.mp hempty] at hheard
      exact absurd (by decide +kernel) hheard
    · exact .inr ⟨_, rfl, rfl⟩

/-- The subscriber has returned. -/
def RedisSubscription.hasEnded (s : RedisSubscription) : Bool :=
  match s.phase with
  | .ended => true
  | _ => false

theorem RedisSubscription.hasEnded_iff {s : RedisSubscription} : s.hasEnded = true ↔ s.Ended := by
  unfold hasEnded Ended
  cases s.phase <;> simp

/-- A subscriber that has returned gives nothing out any more. -/
theorem RedisSubscription.step_of_hasEnded {s t : RedisSubscription} {a : SubscriptionAction}
    {es : List SentEvent} (h : s.hasEnded = true) (hs : s.step a = some (t, es)) :
    t.hasEnded = true ∧ es = [] := by
  have hphase : s.phase = .ended := by
    unfold hasEnded at h
    split at h
    · assumption
    · cases h
  cases a with
  | publish e =>
    cases hs
    exact ⟨h, rfl⟩
  | tick ms =>
    unfold RedisSubscription.step at hs
    dsimp only at hs
    split at hs
    · cases hs
      exact ⟨h, rfl⟩
    · cases hs
  | go | reply n | expire =>
    unfold RedisSubscription.step at hs
    rw [hphase] at hs
    cases hs

namespace AgentStream

/-- `subscribe(run_id, timeout_s)`. -/
def follow (log : List SentEvent) (now timeoutS : ℚ) : AgentStream where
  subscription := .subscribe log now timeoutS 0

/-- The loop over the events, and what comes after it. -/
def step (s : AgentStream) (a : SubscriptionAction) : Option (AgentStream × List CallOutput) :=
  (s.subscription.step a).map fun r =>
    let spoke := s.spoke || r.2.any (!·.2.spoken.isEmpty)
    let ends := !s.subscription.hasEnded && r.1.hasEnded
    ({ subscription := r.1, spoke },
      r.2.flatMap (·.2.outputs) ++ if ends && !spoke then [.said notCompleted] else [])

/-- What has come out of a turn that has been given some events. -/
structure Outputs (s : AgentStream) (given : List SentEvent) (outs : List CallOutput) : Prop where
  spoke : s.spoke = given.any (!·.2.spoken.isEmpty)
  outs : outs = given.flatMap (·.2.outputs) ++
    if s.subscription.hasEnded && !s.spoke then [.said notCompleted] else []

theorem Outputs.step {s t : AgentStream} {given : List SentEvent} {outs new : List CallOutput}
    {a : SubscriptionAction} (h : Outputs s given outs) (hs : s.step a = some (t, new)) :
    ∃ es, s.subscription.step a = some (t.subscription, es) ∧
      Outputs t (given ++ es) (outs ++ new) := by
  obtain ⟨⟨u, es⟩, hsub, heq⟩ := Option.map_eq_some_iff.mp hs
  cases heq
  refine ⟨es, hsub, ?_, ?_⟩
  · show (s.spoke || es.any _) = _
    rw [h.spoke, List.any_append]
  · rw [h.outs, List.flatMap_append]
    cases hended : s.subscription.hasEnded with
    | true =>
      obtain ⟨hend, rfl⟩ := RedisSubscription.step_of_hasEnded hended hsub
      simp [hend]
    | false =>
      simp only [Bool.false_and, Bool.not_false, Bool.true_and, Bool.false_eq_true, if_false,
        List.append_nil, List.append_assoc]

/-- A turn is a run of its subscription. -/
theorem exists_given {log : List SentEvent} {now timeoutS : ℚ} {as : List SubscriptionAction}
    {s : AgentStream} {outs : List CallOutput}
    (h : Run (Computes step) (follow log now timeoutS) as s outs) :
    ∃ given, Run (Computes RedisSubscription.step) (.subscribe log now timeoutS 0) as
      s.subscription given ∧ Outputs s given outs := by
  induction h with
  | initial => exact ⟨[], .initial, rfl, rfl⟩
  | step _ hs ih =>
    obtain ⟨given, hrun, houts⟩ := ih
    obtain ⟨es, hsub, houts'⟩ := houts.step hs
    exact ⟨given ++ es, hrun.step hsub, houts'⟩

end AgentStream

/-! ## One utterance a turn -/

/-- What has been said. -/
def saidIn (outs : List CallOutput) : List Text :=
  outs.filterMap fun
    | .said text => some text
    | .shown _ => none

/-- What is said of events. -/
def spokenOf (ts : List RunEvent) : List Text := (ts.map RunEvent.spoken).filter (!·.isEmpty)

theorem saidIn_append (outs outs' : List CallOutput) :
    saidIn (outs ++ outs') = saidIn outs ++ saidIn outs' := List.filterMap_append

theorem spokenOf_append (ts us : List RunEvent) :
    spokenOf (ts ++ us) = spokenOf ts ++ spokenOf us := by
  unfold spokenOf
  rw [List.map_append, List.filter_append]

theorem saidIn_outputs (ts : List RunEvent) :
    saidIn (ts.flatMap RunEvent.outputs) = spokenOf ts := by
  induction ts with
  | nil => rfl
  | cons e ts ih =>
    have hone : saidIn e.outputs = spokenOf [e] := by
      have hshown : saidIn (e.browserMessage.map CallOutput.shown).toList = [] := by
        cases e.browserMessage <;> rfl
      rw [RunEvent.outputs, saidIn_append, hshown, List.nil_append, spokenOf, List.map_singleton]
      cases hspoken : e.spoken with
      | nil => rfl
      | cons c text => rfl
    rw [List.flatMap_cons, saidIn_append, ih, hone, ← spokenOf_append, List.singleton_append]

theorem spokenOf_toolEnds (calls : List Invocation) : spokenOf (calls.map .toolEnd) = [] := by
  unfold spokenOf
  rw [List.map_map, List.filter_eq_nil_iff]
  intro text htext
  obtain ⟨call, -, rfl⟩ := List.mem_map.mp htext
  exact fun h => Bool.false_ne_true h

/-- What a caller hears of a turn that would have been answered so over REST. -/
def utterance : Except HttpError Collected → Text
  | .ok c => if c.answer.isEmpty then notCompleted else c.answer
  | .error _ => wentWrong

theorem utterance_ne_nil (c : Except HttpError Collected) : utterance c ≠ [] := by
  cases c with
  | error e => exact List.cons_ne_nil _ _
  | ok c =>
    unfold utterance
    dsimp only
    split
    · exact List.cons_ne_nil _ _
    · rename_i hanswer
      exact fun h => hanswer (List.isEmpty_iff.mpr h)

/-- What is said of the events of a turn, and of its silence. -/
def heardOf (ts : List RunEvent) : List Text :=
  if (spokenOf ts).isEmpty then [notCompleted] else spokenOf ts

theorem heardOf_eq_singleton {ts : List RunEvent} (h : (spokenOf ts).length ≤ 1) :
    ∃ text, text ≠ [] ∧ heardOf ts = [text] := by
  unfold heardOf
  cases hspoken : spokenOf ts with
  | nil => exact ⟨notCompleted, List.cons_ne_nil _ _, rfl⟩
  | cons text texts =>
    rw [hspoken, List.length_cons] at h
    obtain rfl := List.eq_nil_of_length_eq_zero (Nat.le_zero.mp (Nat.le_of_succ_le_succ h))
    have hmem : text ∈ spokenOf ts := hspoken ▸ List.mem_singleton_self text
    exact ⟨text, by simpa using (List.mem_filter.mp hmem).2, rfl⟩

theorem spokenOf_finished (s : AgentState) :
    spokenOf (.started :: finishedEvents s) =
      if s.finalText.isEmpty then [] else [s.finalText] := by
  have htail : spokenOf [.sources s.sources, .done (some ⟨s.stoppedReason, s.answerConfidence,
      s.modelConfidence, s.confidenceReason, s.answerUnknown⟩)] = [] := rfl
  rw [← List.singleton_append, spokenOf_append, finishedEvents, ← AgentState.finalText,
    spokenOf_append, spokenOf_append, spokenOf_toolEnds, htail]
  cases s.finalText with
  | nil => rfl
  | cons c text => rfl

theorem spokenOf_paused (s : AgentState) {q : Prompt} (hasked : q.readback ≠ []) :
    spokenOf (.started :: pausedEvents s q) = [q.readback] := by
  rw [← List.singleton_append, spokenOf_append, pausedEvents, spokenOf_append, spokenOf_toolEnds]
  show [q.readback, [], []].filter (!·.isEmpty) = [q.readback]
  rw [List.filter_cons_of_pos (by simpa using hasked)]
  rfl

/-- **A caller hears of a job what REST would have answered.** -/
theorem heardOf_events {g : Graph E W} (x : Browser.HandledJob g) :
    heardOf x.events = [utterance (collect x.events)] := by
  rcases x.cases_events with hlate | ⟨ts, hts, ending, hstrip⟩
  · rw [hlate]
    rfl
  · rw [hts, heardOf]
    cases ending with
    | finished next =>
      rw [collect_finishedEvents, spokenOf_finished, utterance, Collected.answer]
      cases htext : x.after.state.finalText with
      | nil => rfl
      | cons c text =>
        have hanswer : Text.strip [c :: text].flatten = c :: text := by
          rw [List.flatten_singleton, ← htext]
          exact hstrip next
        show [c :: text] = [if (Text.strip [c :: text].flatten).isEmpty then notCompleted
          else Text.strip [c :: text].flatten]
        rw [hanswer]
        rfl
    | @paused q _ asked =>
      have hasked : q.readback ≠ [] := asked ▸ Browser.readbackOf_ne_nil _ _
      have hanswer : Text.strip [q.readback].flatten = q.readback := by
        rw [List.flatten_singleton, asked]
        exact strip_readbackOf _ _
      rw [collect_pausedEvents, spokenOf_paused _ hasked, utterance, Collected.answer]
      dsimp only
      rw [hanswer, List.isEmpty_eq_false_iff.mpr hasked]
      rfl
    | failed failure =>
      cases failure with
      | timedOut => rfl
      | raised e => rfl

theorem length_spokenOf_of_job {g : Graph E W} {c d c' : Config W} {j : Job} {now : ℚ} {ok : Bool}
    {as : List (Action E)} {fs es : List (Event E)}
    (hjob : g.step c (.job j now ok) = some (d, fs)) (h : g.RunsWhere goesOn d as c' es) :
    (spokenOf ((publishedOf (fs ++ es)).map (·.2.2))).length ≤ 1 := by
  have hpublished := published_of_job hjob h
  generalize publishedOf (fs ++ es) = all at hpublished
  cases hpublished with
  | late =>
    rw [Browser.map_numbered]
    exact Nat.le_refl _
  | running =>
    rw [Browser.map_numbered]
    exact Nat.zero_le _
  | ended _ _ ending =>
    rw [Browser.map_numbered]
    cases ending with
    | finished =>
      rw [spokenOf_finished]
      split
      · exact Nat.zero_le _
      · exact Nat.le_refl _
    | paused _ asked =>
      rw [spokenOf_paused _ (asked ▸ Browser.readbackOf_ne_nil _ _)]
      exact Nat.le_refl _
    | failed failure => cases failure <;> exact Nat.le_refl _

/-- What has been said in a turn. -/
theorem AgentStream.Outputs.saidIn {s : AgentStream} {given : List SentEvent}
    {outs : List CallOutput} (h : s.Outputs given outs) :
    saidIn outs = if s.subscription.hasEnded then heardOf (given.map (·.2))
      else spokenOf (given.map (·.2)) := by
  have hspoke : s.spoke = !(spokenOf (given.map (·.2))).isEmpty := by
    rw [h.spoke, Bool.eq_iff_iff, Bool.not_eq_true', List.isEmpty_eq_false_iff, spokenOf, ne_eq,
      List.filter_eq_nil_iff]
    simp
  have hsaid : OmniCare.saidIn (given.flatMap (·.2.outputs)) = spokenOf (given.map (·.2)) := by
    rw [← saidIn_outputs, List.flatMap_map]
  rw [h.outs, saidIn_append, hsaid, hspoke, Bool.not_not, heardOf]
  cases s.subscription.hasEnded with
  | false => exact List.append_nil _
  | true =>
    cases hspoken : spokenOf (given.map (·.2)) with
    | nil => rfl
    | cons text texts => exact List.append_nil _

/-- Events up to the terminal one are all events. -/
theorem eq_of_terminal {given ts : List RunEvent} (h : given <+: ts) (hts : EndsInTerminal ts)
    (hterminal : ∃ e ∈ given, e.isTerminal = true) : given = ts := by
  obtain ⟨before, last, rfl, -, hbefore⟩ := hts
  refine (List.prefix_concat_iff.mp h).resolve_right fun hpre => ?_
  obtain ⟨e, he, hlast⟩ := hterminal
  rw [hbefore e (hpre.subset he)] at hlast
  cases hlast

/-- **A caller hears one utterance a turn.**  While a worker handles the job of a turn, and however
the steps of its subscription come between what is published, at most one text has been said, and
exactly one when the turn is over; if its time was not, it is what REST would have answered. -/
theorem heard_once {g : Graph E W} {c d c' : Config W} {j : Job} {now : ℚ} {ok : Bool}
    {as : List (Action E)} {fs es : List (Event E)}
    (hjob : g.step c (.job j now ok) = some (d, fs)) (hrun : g.RunsWhere goesOn d as c' es)
    {log : List SentEvent} {since timeoutS : ℚ} {bs : List SubscriptionAction} {s : AgentStream}
    {outs : List CallOutput}
    (h : Run (Computes AgentStream.step) (.follow log since timeoutS) bs s outs)
    (hlog : s.subscription.log.map (·.2) <+: (publishedOf (fs ++ es)).map (·.2.2)) :
    (saidIn outs).length ≤ 1 ∧ (∀ text ∈ saidIn outs, text ≠ []) ∧
      (s.subscription.Ended → ∃ text, saidIn outs = [text]) ∧
      (s.subscription.Ended → s.subscription.now < since + (timeoutS * 1000).floor.toNat →
        c'.running = none ∧
          saidIn outs = [utterance (collect ((publishedOf (fs ++ es)).map (·.2.2)))]) := by
  obtain ⟨given, hgiven, houts⟩ := AgentStream.exists_given h
  have hfollows := (RedisSubscription.follows hgiven).2
  have hpre : given.map (·.2) <+: (publishedOf (fs ++ es)).map (·.2.2) :=
    (hfollows.tails.inOrder.map _).trans hlog
  have hspoken : (spokenOf (given.map (·.2))).length ≤ 1 := by
    obtain ⟨rest, hrest⟩ := hpre
    have hall := length_spokenOf_of_job hjob hrun
    rw [← hrest, spokenOf_append, List.length_append] at hall
    omega
  obtain ⟨text, hne, hheard⟩ := heardOf_eq_singleton hspoken
  have hsaid := houts.saidIn
  rw [hheard] at hsaid
  have hone : s.subscription.Ended → saidIn outs = [text] := fun hended => by
    rw [hsaid, RedisSubscription.hasEnded_iff.mpr hended]
    rfl
  refine ⟨?_, ?_, fun hended => ⟨text, hone hended⟩, fun hended hintime => ?_⟩
  · rw [hsaid]
    split
    · exact Nat.le_refl _
    · exact hspoken
  · rw [hsaid]
    split
    · exact fun t ht => List.mem_singleton.mp ht ▸ hne
    · exact fun t ht => by simpa using (List.mem_filter.mp ht).2
  · -- the terminal event has been given out, and with it all that there is
    obtain ⟨before, e, rfl, hterminal, -⟩ :=
      (hfollows.ending hended).resolve_right (not_le.mpr hintime)
    have hmem : e.2 ∈ (before ++ [e]).map (·.2) :=
      List.mem_map_of_mem (List.mem_append_right _ (List.mem_singleton_self _))
    obtain ⟨-, hrunning, hstopped⟩ := job_events hjob hrun
    have hnone : c'.running = none := by
      by_contra hsome
      rw [hrunning (Option.isSome_iff_ne_none.mpr hsome), Browser.map_numbered] at hpre
      have hstarted := List.mem_singleton.mp (hpre.subset hmem)
      rw [SentEvent.isTerminal, hstarted] at hterminal
      cases hterminal
    obtain ⟨ts, hts, -, hends⟩ := hstopped hnone
    refine ⟨hnone, ?_⟩
    have hall : (before ++ [e]).map (·.2) = (publishedOf (fs ++ es)).map (·.2.2) := by
      rw [hts, Browser.map_numbered] at hpre ⊢
      exact eq_of_terminal hpre hends ⟨e.2, hmem, hterminal⟩
    rw [hone hended, ← hheard, hall]
    exact heardOf_events ⟨j, now, ok, c, d, c', as, fs, es, hjob, hrun, hnone⟩

/-- A greeting and what is heard of it before the run is over. -/
theorem greeting_heard : ∃ c es s outs,
    bareGraph.RunsWhere goesOn ((newThread ()).startTurn { runId := "r1", message := "Hello" })
        [.go, .reply ⟨"Hi.", []⟩, .go, .go, .go, .go] c es ∧
      Run (Computes AgentStream.step) (.follow [(0, .started), (1, .token "Hi.")] 0 30)
        [.go, .reply 2, .go, .go, .go] s outs ∧
      .said "Hi.".toList ∈ outs ∧ (saidIn outs).length ≤ 1 := by
  obtain ⟨c, es, h, hp⟩ := exists_run_of_play (restrict goesOn bareGraph.step)
    ((newThread ()).startTurn { runId := "r1", message := "Hello" })
    [.go, .reply ⟨"Hi.", []⟩, .go, .go, .go, .go]
    (fun _ es => decide ([RunEvent.started, .token "Hi."] <+: (publishedOf
      ([.published "r1" 0 .started, .turnStarted "Hello" .done] ++ es)).map (·.2.2)))
    (by decide +kernel)
  obtain ⟨s, outs, hs, hq⟩ := exists_run_of_play AgentStream.step
    (.follow [(0, .started), (1, .token "Hi.")] 0 30) [.go, .reply 2, .go, .go, .go]
    (fun s outs => decide (s.subscription.log.map (·.2) = [RunEvent.started, .token "Hi."] ∧
      .said "Hi.".toList ∈ outs)) (by decide +kernel)
  obtain ⟨hlog, hsaid⟩ := of_decide_eq_true hq
  have hjob : bareGraph.step (newThread ())
      (.job { runId := "r1", message := "Hello" } 0 true) =
        some ((newThread ()).startTurn { runId := "r1", message := "Hello" },
          [.published "r1" 0 .started, .turnStarted "Hello" .done]) := rfl
  exact ⟨c, es, s, outs, h, hs, hsaid,
    (heard_once hjob h hs (hlog ▸ of_decide_eq_true hp)).1⟩

end OmniCare
