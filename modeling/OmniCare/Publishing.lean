import OmniCare.Gateway

/-! # What the worker publishes for a job

`AgentWorker.handle` publishes the events of a run from several branches and from its exception
handlers.  Here a job is followed from its acceptance on, through any number of steps, replies and
failures: `job_events` says that it comes to an end within a number of steps that depends on the
iterations of the graph alone, that its events have one of the forms of `TurnEvents`, and that they
are numbered from 0 on without a gap.
-/
namespace OmniCare

variable {E W : Type}

/-! ## The events of a turn -/

/-- What is published, with its run id and its number. -/
def Event.published? : Event E → Option (Text × Nat × RunEvent)
  | .published runId seq e => some (runId, seq, e)
  | _ => none

/-- Everything published. -/
def publishedOf (es : List (Event E)) : List (Text × Nat × RunEvent) :=
  es.filterMap Event.published?

/-- Events under one run id, numbered on from a number. -/
def numbered (runId : Text) (seq : Nat) (ts : List RunEvent) : List (Text × Nat × RunEvent) :=
  (ts.zipIdx seq).map fun t => (runId, t.2, t.1)

/-- The events of a turn: it fails, it asks for a confirmation, or it is answered. -/
inductive TurnEvents : List RunEvent → Prop
  | failed (message : Text) (detail : Option Text) :
      TurnEvents [.started, .error message detail]
  | paused (calls : List Invocation) (args : Dict) (readback : Text) (sources : List Text) :
      TurnEvents (.started :: (calls.map .toolEnd ++
        [.confirm args readback, .sources sources, .done none]))
  | answered (calls : List Invocation) (token : Option Text) (sources : List Text)
      (report : Report) :
      TurnEvents (.started :: (calls.map .toolEnd ++ (token.toList.map .token ++
        [.sources sources, .done (some report)])))

/-- The last event is terminal, and no other one is. -/
def EndsInTerminal (ts : List RunEvent) : Prop :=
  ∃ before last, ts = before ++ [last] ∧ last.isTerminal = true ∧
    ∀ e ∈ before, e.isTerminal = false

theorem EndsInTerminal.prepend {ts before : List RunEvent} (h : EndsInTerminal ts)
    (hbefore : ∀ e ∈ before, e.isTerminal = false) : EndsInTerminal (before ++ ts) := by
  obtain ⟨middle, last, rfl, hlast, hmiddle⟩ := h
  refine ⟨before ++ middle, last, (List.append_assoc ..).symm, hlast, fun e he => ?_⟩
  exact (List.mem_append.mp he).elim (hbefore e) (hmiddle e)

theorem TurnEvents.endsInTerminal {ts : List RunEvent} (h : TurnEvents ts) : EndsInTerminal ts := by
  have calls : ∀ calls : List Invocation, ∀ e ∈ calls.map RunEvent.toolEnd,
      e.isTerminal = false := by
    intro calls e he
    obtain ⟨call, -, rfl⟩ := List.mem_map.mp he
    rfl
  have started : ∀ {ts : List RunEvent}, EndsInTerminal ts → EndsInTerminal (.started :: ts) :=
    fun h => h.prepend (fun _ he => List.mem_singleton.mp he ▸ rfl)
  cases h with
  | failed message detail =>
    exact started ⟨[], _, rfl, rfl, nofun⟩
  | paused cs args readback sources =>
    exact started (EndsInTerminal.prepend
      ⟨[.confirm args readback, .sources sources], _, rfl, rfl, by simp [RunEvent.isTerminal]⟩
      (calls cs))
  | answered cs token sources report =>
    refine started (EndsInTerminal.prepend (EndsInTerminal.prepend
      ⟨[.sources sources], _, rfl, rfl, by simp [RunEvent.isTerminal]⟩ fun e he => ?_) (calls cs))
    obtain ⟨text, -, rfl⟩ := List.mem_map.mp he
    rfl

theorem publishedOf_append (es fs : List (Event E)) :
    publishedOf (es ++ fs) = publishedOf es ++ publishedOf fs := List.filterMap_append

theorem publishedOf_publish (runId : Text) (seq : Nat) (ts : List RunEvent) :
    publishedOf (publish runId seq ts : List (Event E)) = numbered runId seq ts := by
  induction ts generalizing seq with
  | nil => rfl
  | cons e ts ih =>
    rw [publish, publishedOf, List.filterMap_cons, ← publishedOf, ih, numbered, numbered,
      List.zipIdx_cons]
    rfl

/-- What is published when a run stops, and what the thread is then. -/
inductive RunEnding (c : Config W) : List RunEvent → Prop
  | finished (next : c.next = .done) : RunEnding c (finishedEvents c.state)
  | paused {p : Prompt} (next : c.next = .paused p) (asked : p = c.state.prompt) :
      RunEnding c (pausedEvents c.state p)
  | failed (failure : Failure) : RunEnding c [failure.event]

theorem RunEnding.turn {c : Config W} {ts : List RunEvent} (h : RunEnding c ts) :
    TurnEvents (.started :: ts) := by
  cases h with
  | finished =>
    unfold finishedEvents
    dsimp only
    rw [List.append_assoc]
    split
    · exact .answered c.state.toolInvocations none c.state.sources _
    · exact .answered c.state.toolInvocations (some _) c.state.sources _
  | paused => exact .paused ..
  | failed failure =>
    cases failure with
    | timedOut => exact .failed ..
    | raised e => exact .failed ..

/-! ## One step -/

/-- **A step of a running job publishes nothing, or it ends the run** with what there is to say. -/
theorem Step.publishes {g : Graph E W} {c c' : Config W} {a : Action E} {fs : List (Event E)}
    (hs : Step g c a c' fs) (ha : goesOn c a = true) :
    (c'.running = c.running ∧ publishedOf fs = []) ∨
      (c'.running = none ∧ ∃ ts, publishedOf fs = numbered c.runId 1 ts ∧ RunEnding c' ts) := by
  have passing : publishedOf (c.state.passing : List (Event E)) = [] := by
    unfold AgentState.passing
    split <;> rfl
  have executed : ∀ xs : List (Execution E), publishedOf (xs.map Event.executed) = [] := by
    intro xs
    rw [publishedOf, List.filterMap_map, List.filterMap_eq_nil_iff]
    exact fun _ _ => rfl
  have ended : ∀ {ts : List RunEvent} {how : RunEnd},
      publishedOf (publish c.runId 1 ts ++ [.ended how] : List (Event E)) =
        numbered c.runId 1 ts := by
    intro ts how
    rw [publishedOf_append, publishedOf_publish]
    exact List.append_nil _
  cases hs with
  | expired | resume | turn => cases ha
  | guard | stop | reply | capture | refused | declined | readback | parse | ground =>
    exact .inl ⟨rfl, rfl⟩
  | gateOff => exact .inl ⟨rfl, passing⟩
  | approved => exact .inl ⟨rfl, passing⟩
  | tools => exact .inl ⟨rfl, executed _⟩
  | asked _ hgate => exact .inr ⟨rfl, _, ended, .paused rfl (gate_ask hgate)⟩
  | @toolsFailed es failure w xs =>
    refine .inr ⟨rfl, [failure.event], ?_, .failed failure⟩
    rw [publishedOf_append, executed, List.nil_append]
    exact ended
  | format => exact .inr ⟨rfl, _, ended, .finished rfl⟩
  | crash => exact .inr ⟨rfl, _, ended, .failed _⟩

/-! ## How long a job can take -/

/-- How often the model can still be called in this turn. -/
def Graph.callsLeft (g : Graph E W) (s : AgentState) : Nat := g.maxIterations - s.iterations

/-- A bound on the steps that are still to be taken from a node on. -/
def Graph.rankAt (g : Graph E W) (s : AgentState) : Node → Nat
  | .guard => 4 * g.maxIterations + 6
  | .capture => 4 * g.callsLeft s + 8
  | .confirm => 4 * g.callsLeft s + 7
  | .tools => 4 * g.callsLeft s + 6
  | .agent => 4 * g.callsLeft s + 5
  | .readback => 4
  | .parse => 3
  | .ground => 2
  | .format => 1

/-- A bound on the steps that a running job has still to take. -/
def Graph.rank (g : Graph E W) (c : Config W) : Nat :=
  match c.running, c.next with
  | some _, .at n => g.rankAt c.state n
  | _, _ => 0

theorem Graph.rank_le (g : Graph E W) (c : Config W) : g.rank c ≤ 4 * g.maxIterations + 8 := by
  unfold Graph.rank
  split
  · unfold Graph.rankAt Graph.callsLeft
    split <;> omega
  · exact Nat.zero_le _

theorem rank_at {g : Graph E W} {c : Config W} {n : Node} (here : c.At n) :
    g.rank c = g.rankAt c.state n := by
  obtain ⟨hrun, hnext⟩ := here
  obtain ⟨run, hrun⟩ := Option.isSome_iff_exists.mp hrun
  unfold Graph.rank
  rw [hrun, hnext]

theorem rank_stopped {g : Graph E W} {c : Config W} (h : c.running = none) : g.rank c = 0 := by
  unfold Graph.rank
  rw [h]

theorem rank_goto {g : Graph E W} {c : Config W} (hrun : c.running.isSome) (m : Node)
    (s : AgentState) : g.rank (c.goto m s) = g.rankAt s m :=
  rank_at (c := c.goto m s) ⟨hrun, rfl⟩

/-- The confirm node leads to the tools or to the tail. -/
theorem rank_afterConfirm {g : Graph E W} {c : Config W} (hrun : c.running.isSome)
    (s : AgentState) : g.rank (c.goto (routeAfterConfirm s) s) < g.rankAt s .confirm := by
  rw [rank_goto hrun]
  unfold routeAfterConfirm
  by_cases h : s.pending.isEmpty = true
  · rw [if_pos h]
    simp only [Graph.rankAt]
    omega
  · rw [if_neg h]
    exact Nat.lt_succ_self _

theorem captureNode_iterations (settlement : Option Json → Option Json → Option Split)
    (s : AgentState) : (captureNode settlement s).iterations = s.iterations := by
  obtain ⟨_, _, _, _, h⟩ := captureNode_changes settlement s
  rw [h]

/-- **Every step of a running job brings its end nearer**: a call of the model uses one of the
iterations up, and any other step leads on towards the next call or the end. -/
theorem Step.rank_lt {g : Graph E W} {c c' : Config W} {a : Action E} {fs : List (Event E)}
    (hs : Step g c a c' fs) (ha : goesOn c a = true) : g.rank c' < g.rank c := by
  have left : ∀ {n : Node}, c.At n → 0 < g.rank c := by
    intro n here
    rw [rank_at here]
    cases n <;> exact Nat.succ_pos _
  cases hs with
  | expired | resume | turn => cases ha
  | guard here =>
    rw [rank_at here, rank_goto here.1]
    cases hscreen : (screen (lastHuman c.state.messages)).allowed with
    | true =>
      obtain ⟨-, hallowed, hzero⟩ := guardNode_allowed hscreen
      rw [routeAfterGuard, hallowed]
      simp only [Bool.false_eq_true, if_false, Graph.rankAt, Graph.callsLeft, hzero]
      omega
    | false =>
      rw [routeAfterGuard, (guardNode_blocked hscreen).2]
      simp only [if_true, Graph.rankAt]
      omega
  | stop here =>
    rw [rank_at here, rank_goto here.1]
    simp only [Graph.rankAt]
    omega
  | @reply r here cap =>
    have hcap : c.state.iterations < g.maxIterations := by
      simpa [Graph.capped] using cap
    have hleft : g.callsLeft (agentNode c.state r) + 1 = g.callsLeft c.state := by
      show g.maxIterations - (c.state.iterations + 1) + 1 = g.maxIterations - c.state.iterations
      omega
    rw [rank_at here, rank_goto here.1]
    unfold routeAfterAgent
    dsimp only
    split
    · simp only [Graph.rankAt]
      omega
    · split
      · simp only [Graph.rankAt]
        omega
      · simp only [Graph.rankAt]
        omega
  | @capture e here =>
    rw [rank_at here, rank_goto here.1]
    simp only [Graph.rankAt, Graph.callsLeft, captureNode_iterations]
    exact Nat.lt_succ_self _
  | gateOff here | approved here | refused here | declined here =>
    rw [rank_at here]
    exact rank_afterConfirm here.1 _
  | tools here =>
    rw [rank_at here]
    exact lt_of_eq_of_lt (rank_goto here.1 _ _) (Nat.lt_succ_self _)
  | asked here | toolsFailed here | format here | crash here =>
    rw [rank_stopped rfl]
    exact left here
  | readback here | parse here | ground here =>
    rw [rank_at here, rank_goto here.1]
    simp only [Graph.rankAt]
    omega

/-! ## A job from its acceptance on -/

/-- The deadline of a job has passed. -/
def Job.late (j : Job) (now : ℚ) : Bool := j.deadlineAt.any (· < now)

/-- What a job has published while it runs, and when it has ended. -/
inductive Published (j : Job) (now : ℚ) (c : Config W) : List (Text × Nat × RunEvent) → Prop
  | late (h : j.late now = true) (stopped : c.running = none) :
      Published j now c (numbered j.runId 0 [.error "Request expired in queue." none])
  | running (h : j.late now = false) (here : c.running = some j.runId) :
      Published j now c (numbered j.runId 0 [.started])
  | ended (h : j.late now = false) (stopped : c.running = none) {ts : List RunEvent}
      (ending : RunEnding c ts) : Published j now c (numbered j.runId 0 (.started :: ts))

/-- A job, from its acceptance on, publishes what there is to say. -/
theorem published_of_job {g : Graph E W} {c d c' : Config W} {j : Job} {now : ℚ} {ok : Bool}
    {as : List (Action E)} {fs es : List (Event E)}
    (hjob : g.step c (.job j now ok) = some (d, fs)) (h : g.RunsWhere goesOn d as c' es) :
    Published j now c' (publishedOf (fs ++ es)) := by
  have idle := Graph.idle_of_job hjob
  -- the acceptance
  have haccepted : Published j now d (publishedOf fs) := by
    have hcases := Graph.step_cases hjob
    generalize haction : Action.job j now ok = a at hcases
    cases hcases with
    | expired _ late =>
      cases haction
      rw [publishedOf_publish]
      exact .late late idle
    | resume _ intime =>
      cases haction
      exact .running intime rfl
    | turn _ intime =>
      cases haction
      exact .running intime rfl
    | crash here =>
      have hrun := here.1
      rw [idle] at hrun
      cases hrun
    | _ => cases haction
  refine h.invariant_restrict (I := fun c' es => Published j now c' (publishedOf (fs ++ es)))
    (by rw [List.append_nil]; exact haccepted) ?_
  intro t es a u gs hI hs ha
  have hs := Graph.step_cases hs
  have hrun := hs.running ha
  rw [← List.append_assoc, publishedOf_append]
  generalize publishedOf (fs ++ es) = before at hI
  cases hI with
  | late _ stopped | ended _ stopped =>
    rw [stopped] at hrun
    cases hrun
  | running intime here =>
    rcases hs.publishes ha with ⟨hgoes, hnone⟩ | ⟨hstopped, ts, hts, hending⟩
    · rw [hnone, List.append_nil]
      exact .running intime (hgoes.trans here)
    · have hid : t.runId = j.runId := by rw [Config.runId, here, Option.getD_some]
      rw [hts, hid]
      exact .ended intime hstopped hending

/-- **A job comes to its end, and its events are those of a turn.**  From its acceptance on, at
most `4 * maxIterations + 8` steps are taken.  A late job has an error as its one event.  Any other
is started and, once it has ended, has the events of a turn; they are numbered from 0 on, and the
last one and no other is terminal. -/
theorem job_events {g : Graph E W} {c d c' : Config W} {j : Job} {now : ℚ} {ok : Bool}
    {as : List (Action E)} {fs es : List (Event E)}
    (hjob : g.step c (.job j now ok) = some (d, fs)) (h : g.RunsWhere goesOn d as c' es) :
    as.length ≤ 4 * g.maxIterations + 8 ∧
      (c'.running.isSome → publishedOf (fs ++ es) = numbered j.runId 0 [.started]) ∧
      (c'.running = none → ∃ ts, publishedOf (fs ++ es) = numbered j.runId 0 ts ∧
        (if j.late now then ∃ message, ts = [.error message none] else TurnEvents ts) ∧
        EndsInTerminal ts) := by
  have hlength : as.length + g.rank c' ≤ g.rank d :=
    Run.length_le (fun {t a u fs} hs =>
      (Graph.step_cases (restrict_eq_some.mp hs).2).rank_lt (restrict_eq_some.mp hs).1) h
  have hrank := g.rank_le d
  have hpublished := published_of_job hjob h
  refine ⟨by omega, ?_⟩
  generalize publishedOf (fs ++ es) = all at hpublished
  cases hpublished with
  | late late stopped =>
    rw [stopped, late]
    exact ⟨nofun, fun _ => ⟨_, rfl, ⟨_, rfl⟩, [], _, rfl, rfl, nofun⟩⟩
  | running _ here =>
    rw [here]
    exact ⟨fun _ => rfl, nofun⟩
  | ended intime stopped ending =>
    rw [stopped, intime]
    exact ⟨nofun, fun _ => ⟨_, rfl, ending.turn, ending.turn.endsInTerminal⟩⟩

/-- A greeting and its answer have the events of a turn. -/
theorem greeting_published :
    ∃ c es ts, bareGraph.RunsWhere goesOn
        ((newThread ()).startTurn { runId := "r1", message := "Hello" })
        [.go, .reply ⟨"Hi.", []⟩, .go, .go, .go, .go] c es ∧
      publishedOf (.published "r1" 0 .started :: .turnStarted "Hello" .done :: es) =
        numbered "r1" 0 ts ∧ TurnEvents ts := by
  obtain ⟨c, es, h, hp⟩ := exists_run_of_play (restrict goesOn bareGraph.step)
    ((newThread ()).startTurn { runId := "r1", message := "Hello" })
    [.go, .reply ⟨"Hi.", []⟩, .go, .go, .go, .go] (fun c _ => c.running.isNone) (by decide +kernel)
  have hjob : bareGraph.step (newThread ())
      (.job { runId := "r1", message := "Hello" } 0 true) =
        some ((newThread ()).startTurn { runId := "r1", message := "Hello" },
          [.published "r1" 0 .started, .turnStarted "Hello" .done]) := rfl
  obtain ⟨ts, hpublished, hturn, -⟩ :=
    (job_events hjob h).2.2 (Option.isNone_iff_eq_none.mp hp)
  exact ⟨c, es, ts, h, hpublished, hturn⟩

end OmniCare
