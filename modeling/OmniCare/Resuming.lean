import OmniCare.Steps

/-! # New turn or resume value

`AgentWorker.handle` passes a message on as a resume value when `snapshot.next` is not
empty.  A run that was suspended at the confirmation leaves it so, and so does a run that
failed or timed out in any node.  The last `ended` event of the past tells the two apart,
and `next` follows it (`leftBy_of_runs`).
-/
namespace OmniCare

variable {E W : Type}

/-- The end of a run, of an event that records one. -/
def Event.ended? : Event E → Option RunEnd
  | .ended how => some how
  | _ => none

/-- How the thread's last run ended. -/
def lastEnd (es : List (Event E)) : Option RunEnd := (es.filterMap Event.ended?).getLast?

/-- What the end of the last run leaves in the checkpoint. -/
def LeftBy : Option RunEnd → Next → Prop
  | none, next | some .finished, next => next = .done
  | some .paused, next => ∃ p, next = .paused p
  | some (.failed n), next => next = .at n

theorem lastEnd_append_quiet (es : List (Event E)) {fs : List (Event E)}
    (h : fs.filterMap Event.ended? = []) : lastEnd (es ++ fs) = lastEnd es := by
  rw [lastEnd, List.filterMap_append, h, List.append_nil, lastEnd]

theorem lastEnd_append_ended (es fs : List (Event E)) (how : RunEnd) :
    lastEnd (es ++ (fs ++ [.ended how])) = some how := by
  rw [lastEnd, ← List.append_assoc, List.filterMap_append]
  exact List.getLast?_concat

/-- What the checkpoint holds, whether or not a run is in progress. -/
structure Checkpointed (c : Config W) (es : List (Event E)) : Prop where
  idle : c.running = none → LeftBy (lastEnd es) c.next
  running : c.running.isSome → ∃ n, c.next = .at n

/-- A run in progress stands before a node. -/
theorem checkpointed_of_running {c : Config W} {es : List (Event E)} {n : Node}
    (hrun : c.running.isSome) (hnext : c.next = .at n) : Checkpointed c es where
  idle h := by rw [h] at hrun; cases hrun
  running _ := ⟨n, hnext⟩

/-- An idle thread whose last event ends a run in the way its checkpoint shows. -/
theorem checkpointed_of_ended {c : Config W} {es : List (Event E)} (fs : List (Event E))
    {how : RunEnd}
    (hidle : c.running = none) (hleft : LeftBy (some how) c.next) :
    Checkpointed c (es ++ (fs ++ [.ended how])) where
  idle _ := by rwa [lastEnd_append_ended]
  running h := by rw [hidle] at h; cases h

/-- **The checkpoint follows the end of the last run**, step by step. -/
theorem checkpointed_step {g : Graph E W} {c c' : Config W} {es fs : List (Event E)}
    {a : Action E} (hc : Checkpointed c es) (hs : Step g c a c' fs) :
    Checkpointed c' (es ++ fs) := by
  cases hs with
  | expired idle late =>
    refine ⟨fun _ => ?_, hc.running⟩
    rw [lastEnd_append_quiet _ (filterMap_publish _ (fun _ _ _ => rfl) _ _ _)]
    exact hc.idle idle
  | resume idle intime left =>
    cases hnext : c.next with
    | done => exact absurd hnext left
    | «at» n => exact checkpointed_of_running rfl (by rw [Config.resumeWith, hnext]; rfl)
    | paused p => exact checkpointed_of_running rfl (by rw [Config.resumeWith, hnext]; rfl)
  | turn => exact checkpointed_of_running rfl rfl
  | guard here | stop here | reply here | capture here | gateOff here | refused here
    | approved here | declined here | tools here | readback here | parse here
    | ground here => exact checkpointed_of_running here.1 rfl
  | asked =>
    exact checkpointed_of_ended (.prompted _ :: publish ..) rfl ⟨_, rfl⟩
  | toolsFailed here =>
    rw [← List.append_assoc]
    exact checkpointed_of_ended _ rfl here.2
  | format => exact checkpointed_of_ended _ rfl rfl
  | crash here => exact checkpointed_of_ended _ rfl here.2

theorem checkpointed_of_runs {g : Graph E W} {w : W} {as : List (Action E)} {c : Config W}
    {es : List (Event E)} (h : g.Runs (newThread w) as c es) : Checkpointed c es := by
  refine h.invariant ⟨fun _ => ?_, fun h => ?_⟩ checkpointed_step
  · show (newThread w).next = .done
    rfl
  · cases h

/-! ## How a message is passed on -/

/-- The message is given to the stopped run as a resume value. -/
structure PassedAsResume (c c' : Config W) (message : Text) : Prop where
  taken : c'.running.isSome
  value : c'.resume = some message
  state : c'.state = c.state
  next : c'.next = c.next.continued

/-- The message starts a new turn at `guard` as a human message. -/
structure StartsTurn (c c' : Config W) (message : Text) : Prop where
  taken : c'.running.isSome
  noValue : c'.resume = none
  messages : c'.state.messages = c.state.messages ++ [.human message]
  next : c'.next = .at .guard

/-- What is promised for a job the graph is invoked with: its message is a resume value
exactly if the last run ended paused, and starts a new turn otherwise. -/
def PassedAsPromised (es : List (Event E)) (c c' : Config W) (message : Text) : Prop :=
  c'.running.isSome →
    (PassedAsResume c c' message ↔ lastEnd es = some .paused) ∧
      (StartsTurn c c' message ↔ lastEnd es ≠ some .paused)

theorem not_passedAsResume_of_startsTurn {c c' : Config W} {message : Text}
    (h : StartsTurn c c' message) : ¬ PassedAsResume c c' message := by
  intro h'
  cases h'.value.symm.trans h.noValue

/-- Given as a resume value, a message is passed as promised exactly after a pause. -/
theorem passedAsPromised_of_resume {es : List (Event E)} {c c' : Config W} {message : Text}
    (h : PassedAsResume c c' message) :
    PassedAsPromised es c c' message ↔ lastEnd es = some .paused := by
  have hturn : ¬ StartsTurn c c' message := fun h' => not_passedAsResume_of_startsTurn h' h
  simp [PassedAsPromised, h, hturn, h.taken]

/-- As a new turn, it is passed as promised exactly when there was none. -/
theorem passedAsPromised_of_turn {es : List (Event E)} {c c' : Config W} {message : Text}
    (h : StartsTurn c c' message) :
    PassedAsPromised es c c' message ↔ lastEnd es ≠ some .paused := by
  have hresume := not_passedAsResume_of_startsTurn h
  simp [PassedAsPromised, h, hresume, h.taken]

/-- **A message is passed on as promised exactly if the last run did not stop inside a
node** — or the checkpoint could not be read and there was no pause to resume — or its
job was dropped because it had expired. -/
theorem job_passed_as_promised_iff {g : Graph E W} {w : W} {as : List (Action E)}
    {c c' : Config W} {es fs : List (Event E)} {j : Job} {now : ℚ} {snapshotOk : Bool}
    (h : g.Runs (newThread w) as c es) (hj : g.step c (.job j now snapshotOk) = some (c', fs)) :
    PassedAsPromised es c c' j.message ↔
      j.deadlineAt.any (· < now) = true ∨
        (snapshotOk = true ∧ ∀ n, lastEnd es ≠ some (.failed n)) ∨
        (snapshotOk = false ∧ lastEnd es ≠ some .paused) := by
  have hleft := (checkpointed_of_runs h).idle
  cases Graph.step_cases hj with
  | expired idle late => simp [PassedAsPromised, idle, late]
  | resume idle intime left =>
    have passed : PassedAsResume c (c.resumeWith j) j.message := ⟨rfl, rfl, rfl, rfl⟩
    rw [passedAsPromised_of_resume passed]
    have hleft := hleft idle
    rcases hend : lastEnd es with _ | _ | _ | n <;> rw [hend] at hleft
    · exact absurd hleft left
    · exact absurd hleft left
    · simp [intime]
    · simp [intime]
  | turn idle intime fresh =>
    have turn : StartsTurn c (c.startTurn j) j.message := ⟨rfl, rfl, rfl, rfl⟩
    rw [passedAsPromised_of_turn turn]
    have hleft := hleft idle
    rcases hend : lastEnd es with _ | _ | _ | n <;> rw [hend] at hleft
    · cases snapshotOk <;> simp [intime]
    · cases snapshotOk <;> simp [intime]
    · obtain ⟨p, hp⟩ := hleft
      cases snapshotOk <;> simp_all
    · cases snapshotOk <;> simp_all [LeftBy]
  | crash here => simp [Config.At, Graph.idle_of_job hj] at here

theorem first_job_passed_as_promised :
    ∃ c fs,
      bareGraph.step (newThread ()) (.job { runId := "r1", message := "Am I covered?" } 0 true) =
        some (c, fs) ∧
      PassedAsPromised (E := Unit) [] (newThread ()) c "Am I covered?" := by
  have hj : bareGraph.step (newThread ())
      (.job { runId := "r1", message := "Am I covered?" } 0 true) = some (_, _) := rfl
  refine ⟨_, _, hj, (job_passed_as_promised_iff .initial hj).mpr (.inr (.inl ⟨rfl, ?_⟩))⟩
  exact fun n h => nomatch h

/-- After a run that timed out, the next message is taken for the answer to a confirmation
that nobody asked. -/
theorem job_after_timeout_not_as_promised :
    ∃ c es c' fs,
      bareGraph.Runs (newThread ()) [.job { runId := "r1", message := "Am I covered?" } 0 true,
        .fail .timedOut] c es ∧
      bareGraph.step c (.job { runId := "r2", message := "Hello?" } 0 true) = some (c', fs) ∧
      ¬ PassedAsPromised es c c' "Hello?" := by
  refine ⟨_, _, _, _, .of_play rfl, rfl, fun h => ?_⟩
  have paused : lastEnd _ = some .paused := (h rfl).1.mp ⟨rfl, rfl, rfl, rfl⟩
  cases paused

end OmniCare
