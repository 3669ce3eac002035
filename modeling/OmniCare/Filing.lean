import OmniCare.Steps
import OmniCare.Submission

/-! # The claims store of a worker

`build_claims_tools` and `build_worker` put `submit_claim` over the stores behind the tools
node.  An execution that runs by itself is one of the runs of `Replicas` (`run_alone`); what
it leaves behind is read off `Course`, the list of what it can have done.

A run of the graph changes the stores by the tool calls it executes, in order, and by
nothing else (`Replay`).  So the claims that a job leaves are those it found and, for some of
the `submit_claim` calls it has executed, one claim each (`job_claims`), whether the job ends
in an error or not.
-/
namespace OmniCare

variable {S : Type}

/-! ## The course of one execution -/

/-- An execution of `submit_claim` that has made `n` awaits. -/
def Submission.run (repo : ClaimsRepository S) (call : Submission) (n : Nat) (stores : Stores S) :
    Phase × Stores S :=
  (advance repo call)^[n] (.looking, stores)

/-- What an execution can have done to the stores `before` when it comes to a phase. -/
inductive Course (repo : ClaimsRepository S) (call : Submission) (before : Stores S) :
    Phase → Stores S → Prop
  | looking : Course repo call before .looking before
  | found {existing : Text} (hit : call.key.bind before.lookup = some existing) :
      Course repo call before (.found existing) before
  | replayed {existing : Text} {claim : Claim}
      (hit : call.key.bind before.lookup = some existing)
      (get : repo.get existing before.repo = some claim) :
      Course repo call before (.returned ⟨claim, true⟩) before
  | appending (miss : call.key.bind before.lookup = none) :
      Course repo call before .appending before
  | recording {claim : Claim} {s : S} (miss : call.key.bind before.lookup = none)
      (appended : repo.append call.args before.repo = (.ok claim, s)) :
      Course repo call before (.recording claim) { before with repo := s }
  | recorded {claim : Claim} {after : Stores S} (miss : call.key.bind before.lookup = none)
      (appended : repo.append call.args before.repo = (.ok claim, after.repo)) :
      Course repo call before (.recorded claim) after
  | filed {claim : Claim} {after : Stores S} (miss : call.key.bind before.lookup = none)
      (appended : repo.append call.args before.repo = (.ok claim, after.repo)) :
      Course repo call before (.returned ⟨claim, false⟩) after
  | failed {e : PyError} {after : Stores S}
      (unchanged : repo.claims after.repo = repo.claims before.repo) :
      Course repo call before (.failed e) after

theorem course_advance {repo : ClaimsRepository S} {call : Submission} {before : Stores S}
    {phase : Phase} {stores : Stores S} (h : Course repo call before phase stores) :
    Course repo call before (advance repo call (phase, stores)).1
      (advance repo call (phase, stores)).2 := by
  cases h with
  | looking =>
    rw [advance]
    split
    · rename_i hit
      exact .found hit
    · rename_i miss
      exact .appending miss
  | found hit =>
    rw [advance]
    split
    · rename_i get
      exact .replayed hit get
    · exact .failed rfl
  | replayed hit get => exact .replayed hit get
  | appending miss =>
    rw [advance]
    split
    · rename_i appended
      exact .recording miss appended
    · rename_i failed
      exact .failed (repo.append_error failed)
  | recording miss appended =>
    rw [advance]
    split
    · exact .recorded miss appended
    · exact .recorded miss appended
  | recorded miss appended => exact .filed miss appended
  | filed miss appended => exact .filed miss appended
  | failed unchanged => exact .failed unchanged

/-- **However far an execution comes, it has taken this course.** -/
theorem course_run (repo : ClaimsRepository S) (call : Submission) (n : Nat)
    (before : Stores S) :
    Course repo call before (call.run repo n before).1 (call.run repo n before).2 := by
  induction n with
  | zero => exact .looking
  | succ n ih =>
    rw [Submission.run, Function.iterate_succ_apply']
    exact course_advance ih

/-- An execution adds one claim, the one it was asked for, or none. -/
theorem claims_of_course {repo : ClaimsRepository S} {call : Submission} {before after : Stores S}
    {phase : Phase} (h : Course repo call before phase after) :
    repo.claims after.repo = repo.claims before.repo ∨
      ∃ claim : Claim, claim.Files call.args ∧
        repo.claims after.repo = repo.claims before.repo ++ [claim] := by
  have added : ∀ {claim : Claim} {s : S}, repo.append call.args before.repo = (.ok claim, s) →
      ∃ claim : Claim, claim.Files call.args ∧
        repo.claims s = repo.claims before.repo ++ [claim] := by
    intro claim s appended
    obtain ⟨hfiles, hclaims, -⟩ := repo.append_ok appended
    exact ⟨claim, hfiles, hclaims⟩
  cases h with
  | looking | found | replayed | appending => exact .inl rfl
  | failed unchanged => exact .inl unchanged
  | recording _ appended | recorded _ appended | filed _ appended => exact .inr (added appended)

/-- An execution that is over stays as it is. -/
theorem advance_of_over (repo : ClaimsRepository S) (call : Submission) {phase : Phase}
    (h : phase.over = true) (stores : Stores S) :
    advance repo call (phase, stores) = (phase, stores) := by
  cases phase with
  | returned | failed => rfl
  | _ => cases h

/-- **An execution by itself is a run of the replicas.** -/
theorem run_alone (repo : ClaimsRepository S) (call : Submission) (n : Nat) (stores : Stores S) :
    ∃ as s es, Run (Computes (Replicas.step repo)) ⟨stores, []⟩ as s es ∧
      s.stores = (call.run repo n stores).2 ∧
      s.attempts = [⟨call, (call.run repo n stores).1, true⟩] := by
  induction n with
  | zero =>
    have hstart : Computes (Replicas.step repo) (⟨stores, []⟩ : Replicas S) (.start call)
        ⟨stores, [⟨call, .looking, true⟩]⟩ [] := rfl
    exact ⟨_, _, _, .single hstart, rfl, rfl⟩
  | succ n ih =>
    obtain ⟨as, s, es, h, hstores, hattempts⟩ := ih
    rw [Submission.run, Function.iterate_succ_apply', ← Submission.run]
    cases hover : (call.run repo n stores).1.over with
    | true =>
      rw [advance_of_over repo call hover]
      exact ⟨as, s, es, h, hstores, hattempts⟩
    | false =>
      have hget : s.attempts[0]? = some ⟨call, (call.run repo n stores).1, true⟩ := by
        rw [hattempts]
        rfl
      have hstep : s.step repo (.proceed 0) =
          some (s.proceed repo 0 ⟨call, (call.run repo n stores).1, true⟩) := by
        rw [Replicas.step, hget, Option.bind_some, hover]
        rfl
      refine ⟨_, _, _, h.step hstep, ?_, ?_⟩
      · show (advance repo call (_, s.stores)).2 = _
        rw [hstores]
      · show s.attempts.set 0 ⟨call, (advance repo call (_, s.stores)).1, true⟩ = _
        rw [hstores, hattempts]
        rfl

/-! ## The tools of a worker -/

/-- How what stops a call looks to its caller. -/
def Failure.outcome : Failure → Outcome
  | raised e => .raised e
  | timedOut => .cancelled

/-- The fields of a result that a replay has too. -/
def Claim.report (claim : Claim) : Dict :=
  [("confirmation_id", .str claim.claimId), ("status", .str claim.status.text),
    ("policy_number", .str claim.policyNumber), ("claim_type", .str claim.claimType.text),
    ("amount", .float (floatOfCents claim.cents)),
    ("readback", .str (phoneticReadback claim.claimId))]

/-- The other fields: the mark of a replay, or the payment split. -/
def Filed.extras (filed : Filed) (breakdown : Option Split) : Dict :=
  if filed.replayed then [("replayed", .bool true)]
  else
    match breakdown with
    | some split =>
        [("payment_breakdown", .obj split.asDict), ("payment_summary", .str split.summary)]
    | none => []

/-- What `submit_claim` returns. -/
def Filed.result (filed : Filed) (breakdown : Option Split) : Json :=
  .obj (filed.claim.report ++ filed.extras breakdown)

/-- What is outside the claims tools decides about a call. -/
structure Services where
  /-- What a tool comes to that only reads. -/
  reading : Outcome := .cancelled
  /-- The payment split, or what stops its computation. -/
  breakdown : Except Failure (Option Split) := .ok none
  /-- The number of awaits on the stores that `submit_claim` makes. -/
  awaits : Nat := 4
  /-- What stops `submit_claim` after these, if it is not over by then. -/
  stop : Failure := .timedOut

/-- A tool that only reads: `search_policy_documents`, `estimate_claim_payment` and
`get_claim_status`. -/
def readingTool {W : Type} (name : Text) : Tool Services W := ⟨name, fun e _ w => (e.reading, w)⟩

/-- What a call of `submit_claim` comes to when it ends in a phase, by itself or stopped. -/
def Phase.outcome (breakdown : Option Split) (stop : Failure) : Phase → Outcome
  | returned filed => .returned (filed.result breakdown)
  | failed e => .raised e
  | _ => stop.outcome

/-- `submit_claim`. -/
def submitClaimTool (repo : ClaimsRepository S) (key : SubmitClaimArgs → Option Text) :
    Tool Services (Stores S) where
  name := "submit_claim"
  ainvoke := fun e raw stores =>
    match SubmitClaimArgs.read raw with
    | none => (.raised validationError, stores)
    | some args =>
        match e.breakdown with
        | .error failure => (failure.outcome, stores)
        | .ok breakdown =>
            let (phase, stores) := Submission.run repo ⟨key args, args⟩ e.awaits stores
            (phase.outcome breakdown e.stop, stores)

/-- The key of a call: `idempotency_key(user_id, "submit_claim", args.model_dump(...), turn)`,
if there is an idempotency store. -/
def submitClaimKey (digest : Text → Text) (idempotency : Bool) (userId : Text) (turn : Int)
    (args : SubmitClaimArgs) : Option Text :=
  if idempotency then some (idempotencyKey digest userId "submit_claim" args.dump turn) else none

/-- `build_claims_tools`. -/
def buildClaimsTools (repo : ClaimsRepository S) (digest : Text → Text) (idempotency : Bool)
    (userId : Text := "anonymous") (turn : Int := 0) : List (Tool Services (Stores S)) :=
  [readingTool "estimate_claim_payment", readingTool "get_claim_status",
    submitClaimTool repo (submitClaimKey digest idempotency userId turn)]

/-- `build_worker`: the tools are bound to a repository and a store, and to no user or turn. -/
def buildWorker (repo : ClaimsRepository S) (digest : Text → Text) (idempotency : Bool)
    (requireConfirmation : Bool := true) (maxIterations : Nat := 5) :
    Graph Services (Stores S) where
  tools := readingTool "search_policy_documents" :: buildClaimsTools repo digest idempotency
  requireConfirmation
  maxIterations
  settlement := some fun e _ _ => e.breakdown.toOption.join

/-- The key that every call has in a worker with an idempotency store. -/
def workerKey (digest : Text → Text) (args : SubmitClaimArgs) : Text :=
  idempotencyKey digest "anonymous" "submit_claim" args.dump 0

/-! ## What a run does to the stores -/

section Replay

variable {E W : Type}

/-- The tool calls of a list, in order, lead from one state of the stores to another. -/
inductive Replay (tools : List (Tool E W)) : W → List (Execution E) → W → Prop
  | done {w : W} : Replay tools w [] w
  | call {w w' w'' : W} {tool : Tool E W} {x : Execution E} {xs : List (Execution E)}
      (found : findTool tools x.call.name = some tool)
      (gives : tool.ainvoke x.answer x.call.args w = (x.outcome, w'))
      (rest : Replay tools w' xs w'') : Replay tools w (x :: xs) w''

theorem Replay.append {tools : List (Tool E W)} {w w' w'' : W} {xs ys : List (Execution E)}
    (h : Replay tools w xs w') (h' : Replay tools w' ys w'') : Replay tools w (xs ++ ys) w'' := by
  induction h with
  | done => exact h'
  | call found gives _ ih => exact .call found gives (ih h')

theorem replay_runCalls {tools : List (Tool E W)} {calls : List ToolCall} {es : List E}
    {t : Tooled} {w w' : W} {r : Except Failure Tooled} {xs : List (Execution E)}
    (h : runCalls tools calls es t w = (r, w', xs)) : Replay tools w xs w' := by
  induction calls generalizing es t w xs with
  | nil =>
    cases h
    exact .done
  | cons call calls ih =>
    rw [runCalls.eq_def] at h
    dsimp only at h
    split at h
    · exact ih h
    · cases h
      exact .done
    · rename_i found
      split at h
      · cases h
        exact .call found rfl .done
      · cases h
        exact .call found rfl (ih rfl)

/-- The tool call that an event is about. -/
def Event.execution? : Event E → Option (Execution E)
  | .executed x => some x
  | _ => none

/-- The tool calls that are executed, in order. -/
def executions (es : List (Event E)) : List (Execution E) := es.filterMap Event.execution?

theorem executions_append (es fs : List (Event E)) :
    executions (es ++ fs) = executions es ++ executions fs := List.filterMap_append

theorem executions_publish (runId : Text) (seq : Nat) (es : List RunEvent) :
    executions (publish runId seq es : List (Event E)) = [] :=
  filterMap_publish _ (fun _ _ _ => rfl) runId seq es

theorem executions_executed (xs : List (Execution E)) :
    executions (xs.map .executed : List (Event E)) = xs := by
  rw [executions, List.filterMap_map]
  exact List.filterMap_some

theorem executions_passing (s : AgentState) :
    executions (s.passing : List (Event E)) = [] := by
  unfold AgentState.passing
  split <;> rfl

/-- A step changes the stores by the tool calls it executes. -/
theorem Step.replay {g : Graph E W} {c c' : Config W} {a : Action E} {fs : List (Event E)}
    (h : Step g c a c' fs) : Replay g.tools c.world (executions fs) c'.world := by
  have still : ∀ {fs : List (Event E)}, executions fs = [] →
      Replay g.tools c.world (executions fs) c.world := by
    intro fs hfs
    rw [hfs]
    exact .done
  cases h with
  | expired => exact still (executions_publish ..)
  | resume | turn | format | crash =>
    refine still ?_
    rw [executions_append, executions_publish]
    rfl
  | asked =>
    refine still ?_
    show executions (_ ++ _) = []
    rw [executions_append, executions_publish]
    rfl
  | gateOff => exact still (executions_passing _)
  | approved => exact still (executions_passing _)
  | tools here ran =>
    rw [executions_executed]
    exact replay_runCalls ran
  | toolsFailed here ran =>
    rw [executions_append, executions_executed, executions_append, executions_publish]
    show Replay _ _ (_ ++ []) _
    rw [List.append_nil]
    exact replay_runCalls ran
  | guard | stop | reply | capture | refused | declined | readback | parse | ground =>
    exact still rfl

/-- **A run changes the stores by the tool calls it executes, in order.** -/
theorem Graph.Runs.replay {g : Graph E W} {c c' : Config W} {as : List (Action E)}
    {es : List (Event E)} (h : g.Runs c as c' es) :
    Replay g.tools c.world (executions es) c'.world := by
  refine h.invariant (I := fun c' es => Replay g.tools c.world (executions es) c'.world) .done ?_
  intro t es a u fs hI hs
  rw [executions_append]
  exact hI.append hs.replay

end Replay

/-! ## The claims a job leaves -/

section Worker

variable {repo : ClaimsRepository S}

/-- A call of `submit_claim` with valid arguments takes some course; no other call touches
the stores. -/
theorem submitClaimTool_course {key : SubmitClaimArgs → Option Text} {e : Services} {raw : Dict}
    {before after : Stores S} {outcome : Outcome}
    (h : (submitClaimTool repo key).ainvoke e raw before = (outcome, after)) :
    after = before ∨ ∃ args phase, SubmitClaimArgs.read raw = some args ∧
      Course repo ⟨key args, args⟩ before phase after := by
  unfold submitClaimTool at h
  dsimp only at h
  cases hread : SubmitClaimArgs.read raw with
  | none =>
    rw [hread] at h
    cases h
    exact .inl rfl
  | some args =>
    rw [hread] at h
    have hcourse := course_run repo ⟨key args, args⟩ e.awaits before
    cases hbreakdown : e.breakdown with
    | error failure =>
      rw [hbreakdown] at h
      cases h
      exact .inl rfl
    | ok breakdown =>
      rw [hbreakdown] at h
      cases h
      exact .inr ⟨args, _, rfl, hcourse⟩

/-- The only tool of a worker that writes is `submit_claim`. -/
theorem worker_tool {digest : Text → Text} {idempotency requireConfirmation : Bool}
    {maxIterations : Nat} {name : Text} {tool : Tool Services (Stores S)}
    (h : findTool (buildWorker repo digest idempotency requireConfirmation maxIterations).tools
      name = some tool) :
    name = tool.name ∧
      (tool = submitClaimTool repo (submitClaimKey digest idempotency "anonymous" 0) ∨
        ∃ other, tool = readingTool other) := by
  have hname : tool.name = name := by simpa using List.find?_some h
  refine ⟨hname.symm, ?_⟩
  have hmem := List.mem_reverse.mp (List.mem_of_find?_eq_some h)
  change tool ∈ [readingTool _, readingTool _, readingTool _, _] at hmem
  rcases List.mem_cons.mp hmem with rfl | hmem
  · exact .inr ⟨_, rfl⟩
  rcases List.mem_cons.mp hmem with rfl | hmem
  · exact .inr ⟨_, rfl⟩
  rcases List.mem_cons.mp hmem with rfl | hmem
  · exact .inr ⟨_, rfl⟩
  · exact .inl (List.mem_singleton.mp hmem)

/-- The calls of write tools, in order. -/
def writeCalls {E : Type} (xs : List (Execution E)) : List ToolCall :=
  (xs.map (·.call)).filter ToolCall.isWrite

/-- **The calls of a worker add claims for some of the writes among them**, in order, each at
most one and with the arguments of its call. -/
theorem replay_claims {digest : Text → Text} {idempotency requireConfirmation : Bool}
    {maxIterations : Nat} {before after : Stores S} {xs : List (Execution Services)}
    (h : Replay (buildWorker repo digest idempotency requireConfirmation maxIterations).tools
      before xs after) :
    ∃ filed : List (ToolCall × Claim),
      repo.claims after.repo = repo.claims before.repo ++ filed.map Prod.snd ∧
      (filed.map Prod.fst).Sublist (writeCalls xs) ∧
      ∀ f ∈ filed, ∃ args, SubmitClaimArgs.read f.1.args = some args ∧ f.2.Files args := by
  induction h with
  | done => exact ⟨[], (List.append_nil _).symm, .slnil, nofun⟩
  | @call w w' w'' tool x xs found gives rest ih =>
    obtain ⟨filed, hclaims, hsub, hfiles⟩ := ih
    have hskip : (filed.map Prod.fst).Sublist (writeCalls (x :: xs)) :=
      hsub.trans (((List.sublist_cons_self x xs).map _).filter _)
    obtain ⟨hname, rfl | ⟨other, rfl⟩⟩ := worker_tool found
    · have hwrite : x.call.isWrite = true := by
        rw [ToolCall.isWrite, hname]
        show List.elem "submit_claim".toList writeTools = true
        decide
      rcases submitClaimTool_course gives with rfl | ⟨args, phase, hread, hcourse⟩
      · exact ⟨filed, hclaims, hskip, hfiles⟩
      · rcases claims_of_course hcourse with hsame | ⟨claim, hclaim, hnew⟩
        · exact ⟨filed, by rw [hclaims, hsame], hskip, hfiles⟩
        · refine ⟨(x.call, claim) :: filed, ?_, ?_, ?_⟩
          · rw [hclaims, hnew, List.append_assoc]
            rfl
          · have hcons : writeCalls (x :: xs) = x.call :: writeCalls xs := by
              rw [writeCalls, List.map_cons, List.filter_cons_of_pos hwrite]
              rfl
            rw [hcons]
            exact hsub.cons_cons x.call
          · intro f hf
            rcases List.mem_cons.mp hf with rfl | hf
            · exact ⟨args, hread, hclaim⟩
            · exact hfiles f hf
    · obtain rfl : w = w' := congrArg Prod.snd gives
      exact ⟨filed, hclaims, hskip, hfiles⟩

/-- **The claims after a job are those before it and, for some of the `submit_claim` calls
that the job has executed, one claim each**, whether or not the run ends in an error; without
such a call they are the claims before. -/
theorem job_claims {digest : Text → Text} {idempotency requireConfirmation : Bool}
    {maxIterations : Nat} {c c' : Config (Stores S)} {j : Job} {now : ℚ} {snapshotOk : Bool}
    {as : List (Action Services)} {es : List (Event Services)}
    (h : (buildWorker repo digest idempotency requireConfirmation maxIterations).Runs c
      (.job j now snapshotOk :: as) c' es) :
    (∃ filed : List (ToolCall × Claim),
      repo.claims c'.world.repo = repo.claims c.world.repo ++ filed.map Prod.snd ∧
      (filed.map Prod.fst).Sublist (writeCalls (executions es)) ∧
      ∀ f ∈ filed, ∃ args, SubmitClaimArgs.read f.1.args = some args ∧ f.2.Files args) ∧
    (writeCalls (executions es) = [] → repo.claims c'.world.repo = repo.claims c.world.repo) := by
  obtain ⟨filed, hclaims, hsub, hfiles⟩ := replay_claims h.replay
  refine ⟨⟨filed, hclaims, hsub, hfiles⟩, fun hnone => ?_⟩
  rw [hnone] at hsub
  have hempty : filed = [] := List.map_eq_nil_iff.mp (List.sublist_nil.mp hsub)
  rw [hclaims, hempty]
  exact List.append_nil _

end Worker

/-- A worker with an empty file of claims, whose digest is the payload itself. -/
def fileWorker : Graph Services (Stores (List Claim)) := buildWorker listRepository id true

/-- A failure of the model. -/
def modelDown : Failure := .raised ⟨"ConnectionError", "the provider is down"⟩

/-- The conversation up to the confirmation of a claim. -/
def untilConfirmation : List (Action Services) :=
  [.job { runId := "r1", message := "File a $1200 water damage claim on POL-1092" } 0 true, .go,
    .reply ⟨[], [filingCall "a"]⟩, .settle {}, .go]

/-- Whether a run has published an error. -/
def failsPublicly {E : Type} (es : List (Event E)) : Bool :=
  es.any fun | .published _ _ (.error ..) => true | _ => false

/-- The model fails before anything is filed: the claims stay. -/
theorem failed_job_keeps_claims :
    ∃ c es, fileWorker.Runs (newThread ⟨[], []⟩)
        [.job { runId := "r1", message := "Hello" } 0 true, .go, .fail modelDown] c es ∧
      failsPublicly es = true ∧ listRepository.claims c.world.repo = [] := by
  obtain ⟨c, es, h, hp⟩ := exists_run_of_play fileWorker.step (newThread ⟨[], []⟩)
    [.job { runId := "r1", message := "Hello" } 0 true, .go, .fail modelDown]
    (fun _ es => failsPublicly es = true ∧ writeCalls (executions es) = []) (by decide)
  obtain ⟨hfails, hnone⟩ := of_decide_eq_true hp
  exact ⟨c, es, h, hfails, (job_claims h).2 hnone⟩

/-- The model fails after the confirmed claim is filed: the policyholder is told of an error,
and the claim is there. -/
theorem failed_job_adds_claim :
    ∃ d es₁ c es₂, fileWorker.Runs (newThread ⟨[], []⟩) untilConfirmation d es₁ ∧
      fileWorker.Runs d
        [.job { runId := "r2", message := "yes" } 0 true, .go, .call [{}], .fail modelDown] c es₂ ∧
      failsPublicly es₂ = true ∧
      listRepository.claims c.world.repo ≠ listRepository.claims d.world.repo := by
  obtain ⟨d, es₁, h₁, hp⟩ := exists_run_of_play fileWorker.step (newThread ⟨[], []⟩)
    untilConfirmation
    (fun d _ => (play fileWorker.step d
        [.job { runId := "r2", message := "yes" } 0 true, .go, .call [{}], .fail modelDown]).any
      fun r => failsPublicly r.2 &&
        decide (listRepository.claims r.1.world.repo ≠ listRepository.claims d.world.repo))
    (by decide)
  obtain ⟨c, es₂, h₂, hp⟩ := exists_run_of_play _ d _ (fun c es => failsPublicly es &&
    decide (listRepository.claims c.world.repo ≠ listRepository.claims d.world.repo)) hp
  obtain ⟨hfails, hdiffer⟩ := Bool.and_eq_true_iff.mp hp
  exact ⟨d, es₁, c, es₂, h₁, h₂, hfails, of_decide_eq_true hdiffer⟩

end OmniCare
