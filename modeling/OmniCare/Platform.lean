import OmniCare.Filing

/-! # Many threads on one claims store

A platform is the threads of all conversations over the stores that their tools share.  Any
thread may take the next step, and a record of the idempotency store may run out of time
between two steps.  `AgentWorker.handle` puts a job on the thread of its conversation, or of
its user when it names no conversation.

The tools of `buildWorker` know no user and no turn, so all threads file under the same keys:
the key of a call is made of its arguments alone.  **Two calls of `submit_claim` that return
have each filed a claim of their own exactly if neither found a record of its arguments**
(`two_claims_iff`).
-/
namespace OmniCare

variable {S : Type}

/-- `thread_id`: `conversation_id or user_id`. -/
def Job.thread (j : Job) : Text := if j.conversationId.isEmpty then j.userId else j.conversationId

/-- The threads, and the stores they share: the stores in a thread itself are out of date. -/
structure Platform (W : Type) where
  threads : Text → Config W
  world : W

/-- What happens next. -/
inductive PlatformAction (E : Type)
  | on (thread : Text) (a : Action E)
  /-- The time of a record is up. -/
  | expire (key : Text)

/-- What can be seen of the platform. -/
inductive PlatformEvent (E : Type)
  | on (thread : Text) (e : Event E)
  | expired (key : Text)

/-- A job goes to its own thread. -/
def Action.belongs {E : Type} (thread : Text) : Action E → Bool
  | job j _ _ => j.thread = thread
  | _ => true

namespace Platform

variable {E : Type}

/-- A thread takes a step on the shared stores, or a record is dropped. -/
def step (g : Graph E (Stores S)) (p : Platform (Stores S)) :
    PlatformAction E → Option (Platform (Stores S) × List (PlatformEvent E))
  | .on thread a =>
      if a.belongs thread then
        (g.step { p.threads thread with world := p.world } a).map fun r =>
          (⟨Function.update p.threads thread r.1, r.1.world⟩, r.2.map (.on thread))
      else none
  | .expire key => some ({ p with world := p.world.expire key }, [.expired key])

/-- A platform on which nothing has been handled yet. -/
def new (stores : Stores S) : Platform (Stores S) := ⟨fun _ => newThread stores, stores⟩

end Platform

/-! ## The history of the stores -/

section History

variable {E : Type}

/-- What changes the stores: a tool call, or time. -/
inductive Change (E : Type)
  | executed (x : Execution E)
  | expired (key : Text)

/-- The change that an event of the platform is about. -/
def PlatformEvent.change? : PlatformEvent E → Option (Change E)
  | on _ e => e.execution?.map .executed
  | expired key => some (.expired key)

/-- The changes of the stores, in order. -/
def changes (es : List (PlatformEvent E)) : List (Change E) :=
  es.filterMap PlatformEvent.change?

/-- A change of the stores. -/
def Change.apply (tools : List (Tool E (Stores S))) (stores : Stores S) : Change E → Stores S
  | executed x =>
      match findTool tools x.call.name with
      | some tool => (tool.ainvoke x.answer x.call.args stores).2
      | none => stores
  | expired key => stores.expire key

/-- The stores before the `i`-th of some changes. -/
def storesBefore (tools : List (Tool E (Stores S))) (stores : Stores S) (cs : List (Change E))
    (i : Nat) : Stores S :=
  (cs.take i).foldl (Change.apply tools) stores

/-- What was observed of the tool calls among some changes is what the tools give. -/
def Recorded (tools : List (Tool E (Stores S))) (stores : Stores S) (cs : List (Change E)) : Prop :=
  ∀ (i : Nat) (x : Execution E), cs[i]? = some (.executed x) → ∃ tool,
    findTool tools x.call.name = some tool ∧
      (tool.ainvoke x.answer x.call.args (storesBefore tools stores cs i)).1 = x.outcome

variable {tools : List (Tool E (Stores S))}

theorem changes_append (es fs : List (PlatformEvent E)) :
    changes (es ++ fs) = changes es ++ changes fs := List.filterMap_append

theorem changes_on (thread : Text) (es : List (Event E)) :
    changes (es.map (.on thread)) = (executions es).map .executed := by
  rw [changes, List.filterMap_map, executions, List.map_filterMap]
  rfl

theorem storesBefore_append_left (stores : Stores S) {cs ds : List (Change E)} {i : Nat}
    (hi : i ≤ cs.length) :
    storesBefore tools stores (cs ++ ds) i = storesBefore tools stores cs i := by
  rw [storesBefore, List.take_append_of_le_length hi, storesBefore]

theorem storesBefore_append_right (stores : Stores S) (cs ds : List (Change E)) (i : Nat) :
    storesBefore tools stores (cs ++ ds) (cs.length + i) =
      storesBefore tools (storesBefore tools stores cs cs.length) ds i := by
  rw [storesBefore, List.take_length_add_append, List.foldl_append, storesBefore, storesBefore,
    List.take_length]

/-- Records of one part of the history after the other are records of the whole. -/
theorem Recorded.append {stores : Stores S} {cs ds : List (Change E)}
    (hcs : Recorded tools stores cs)
    (hds : Recorded tools (storesBefore tools stores cs cs.length) ds) :
    Recorded tools stores (cs ++ ds) := by
  intro i x hx
  by_cases hi : i < cs.length
  · rw [List.getElem?_append_left hi] at hx
    rw [storesBefore_append_left stores (by omega)]
    exact hcs i x hx
  · obtain ⟨k, rfl⟩ : ∃ k, i = cs.length + k := ⟨i - cs.length, by omega⟩
    rw [List.getElem?_append_right (by omega)] at hx
    rw [storesBefore_append_right]
    exact hds k x (by simpa using hx)

/-- The calls of one step lead where the step leads, and are recorded as they are. -/
theorem Replay.recorded {w w' : Stores S} {xs : List (Execution E)} (h : Replay tools w xs w') :
    storesBefore tools w (xs.map .executed) xs.length = w' ∧
      Recorded tools w (xs.map .executed) := by
  induction h with
  | done => exact ⟨rfl, nofun⟩
  | @call w w' w'' tool x xs found gives _ ih =>
    have happly : Change.apply tools w (.executed x) = w' := by
      simp only [Change.apply, found, gives]
    have hcons : ∀ k, storesBefore tools w ((x :: xs).map .executed) (k + 1) =
        storesBefore tools w' (xs.map .executed) k := by
      intro k
      rw [List.map_cons, storesBefore, List.take_succ_cons, List.foldl_cons, happly]
      rfl
    refine ⟨(hcons xs.length).trans ih.1, ?_⟩
    rintro (_ | i) y hy
    · obtain rfl : x = y := by simpa using hy
      exact ⟨tool, found, congrArg Prod.fst gives⟩
    · rw [hcons]
      exact ih.2 i y (by simpa using hy)

/-- **The stores of a platform have the history that can be seen.** -/
theorem platform_history {g : Graph E (Stores S)} {p p' : Platform (Stores S)}
    {as : List (PlatformAction E)} {es : List (PlatformEvent E)}
    (h : Run (Computes (Platform.step g)) p as p' es) :
    storesBefore g.tools p.world (changes es) (changes es).length = p'.world ∧
      Recorded g.tools p.world (changes es) := by
  refine h.invariant (I := fun p' es =>
    storesBefore g.tools p.world (changes es) (changes es).length = p'.world ∧
      Recorded g.tools p.world (changes es)) ⟨rfl, nofun⟩ ?_
  intro q es a q' fs ⟨hworld, hrecorded⟩ hstep
  rw [changes_append]
  -- it is enough to know the step's own part of the history
  suffices hnew : storesBefore g.tools q.world (changes fs) (changes fs).length = q'.world ∧
      Recorded g.tools q.world (changes fs) by
    rw [List.length_append, storesBefore_append_right, hworld]
    exact ⟨hnew.1, hrecorded.append (hworld ▸ hnew.2)⟩
  cases a with
  | expire key =>
    cases hstep
    refine ⟨rfl, ?_⟩
    rintro (_ | i) x hx <;> cases hx
  | on thread a =>
    rw [Computes, Platform.step] at hstep
    split at hstep
    · obtain ⟨⟨c, gs⟩, hc, heq⟩ := Option.map_eq_some_iff.mp hstep
      cases heq
      have hreplay := (Graph.step_cases hc).replay.recorded
      rw [changes_on, List.length_map]
      exact hreplay
    · cases hstep

end History

/-! ## Two claims -/

section Worker

variable {repo : ClaimsRepository S}

/-- The arguments and the result of a call of `submit_claim` that has returned. -/
def Change.submitted? : Change Services → Option (SubmitClaimArgs × Json)
  | executed x =>
      if x.call.name = "submit_claim".toList then
        match x.outcome with
        | .returned result => (SubmitClaimArgs.read x.call.args).map (·, result)
        | _ => none
      else none
  | expired _ => none

/-- `result["confirmation_id"]`. -/
def confirmationId : Json → Option Json
  | .obj fields => Dict.get? fields "confirmation_id"
  | _ => none

/-- The `i`-th change appends a claim. -/
def AppendsAt (repo : ClaimsRepository S) (tools : List (Tool Services (Stores S)))
    (stores : Stores S) (cs : List (Change Services)) (i : Nat) : Prop :=
  ∃ claim, repo.claims (storesBefore tools stores cs (i + 1)).repo =
    repo.claims (storesBefore tools stores cs i).repo ++ [claim]

theorem confirmationId_result (filed : Filed) (breakdown : Option Split) :
    confirmationId (filed.result breakdown) = some (.str filed.claim.claimId) := rfl

/-- A call that returns has gone one of two ways. -/
theorem submitClaimTool_returned {key : SubmitClaimArgs → Option Text} {e : Services} {raw : Dict}
    {before after : Stores S} {result : Json}
    (h : (submitClaimTool repo key).ainvoke e raw before = (.returned result, after)) :
    ∃ args filed breakdown, SubmitClaimArgs.read raw = some args ∧
      result = Filed.result filed breakdown ∧
      Course repo ⟨key args, args⟩ before (.returned filed) after := by
  unfold submitClaimTool at h
  dsimp only at h
  cases hread : SubmitClaimArgs.read raw with
  | none =>
    rw [hread] at h
    cases h
  | some args =>
    have hstop : ∀ failure : Failure, failure.outcome ≠ .returned result := by
      intro failure hfailure
      cases failure <;> cases hfailure
    have hcourse := course_run repo ⟨key args, args⟩ e.awaits before
    rw [hread] at h
    cases hbreakdown : e.breakdown with
    | error failure =>
      rw [hbreakdown] at h
      exact (hstop failure (congrArg Prod.fst h)).elim
    | ok breakdown =>
      rw [hbreakdown] at h
      dsimp only at h
      generalize Submission.run repo ⟨key args, args⟩ e.awaits before = r at h hcourse
      obtain ⟨phase, stores⟩ := r
      obtain ⟨hphase, rfl⟩ := Prod.mk.inj h
      cases phase with
      | returned filed =>
        obtain rfl := Outcome.returned.inj hphase
        exact ⟨args, filed, breakdown, rfl, rfl, hcourse⟩
      | failed e => cases hphase
      | _ => exact (hstop e.stop hphase).elim

variable {digest : Text → Text} {requireConfirmation : Bool} {maxIterations : Nat}

/-- A change only adds claims. -/
theorem claims_grow_apply (stores : Stores S) (c : Change Services) :
    repo.claims stores.repo <+: repo.claims (c.apply
      (buildWorker repo digest true requireConfirmation maxIterations).tools stores).repo := by
  have same : ∀ {after : Stores S}, repo.claims after.repo = repo.claims stores.repo →
      repo.claims stores.repo <+: repo.claims after.repo := fun h => h ▸ List.prefix_rfl
  cases c with
  | expired key => exact List.prefix_rfl
  | executed x =>
    rw [Change.apply]
    cases found : findTool (buildWorker repo digest true requireConfirmation maxIterations).tools
        x.call.name with
    | none => exact List.prefix_rfl
    | some tool =>
      dsimp only
      obtain ⟨-, rfl | ⟨other, rfl⟩⟩ := worker_tool found
      · rcases submitClaimTool_course (Prod.mk.eta (p := (submitClaimTool repo _).ainvoke ..)).symm
          with heq | ⟨args, phase, -, hcourse⟩
        · exact same (congrArg (fun s => repo.claims s.repo) heq)
        · rcases claims_of_course hcourse with hsame | ⟨claim, -, hnew⟩
          · exact same hsame
          · rw [hnew]
            exact List.prefix_append ..
      · exact List.prefix_rfl

/-- The claims before a change are still there before a later one. -/
theorem claims_grow (stores : Stores S) (cs : List (Change Services)) {i j : Nat} (hij : i ≤ j) :
    let tools := (buildWorker repo digest true requireConfirmation maxIterations).tools
    repo.claims (storesBefore tools stores cs i).repo <+:
      repo.claims (storesBefore tools stores cs j).repo := by
  intro tools
  obtain ⟨k, rfl⟩ := Nat.exists_eq_add_of_le hij
  rw [storesBefore, storesBefore, List.take_add, List.foldl_append]
  generalize (cs.take i).foldl (Change.apply tools) stores = before
  induction (cs.drop i).take k generalizing before with
  | nil => exact List.prefix_rfl
  | cons c rest ih => exact (claims_grow_apply before c).trans (ih _)

/-- **A call that returns appends a claim exactly if it finds no record, and then returns an id
that is not in the store yet and stays there.** -/
theorem submitted_cases {stores : Stores S} {cs : List (Change Services)} {i : Nat}
    {args : SubmitClaimArgs} {result : Json}
    (hrecorded : Recorded (buildWorker repo digest true requireConfirmation maxIterations).tools
      stores cs)
    (h : cs[i]?.bind Change.submitted? = some (args, result)) :
    let tools := (buildWorker repo digest true requireConfirmation maxIterations).tools
    (AppendsAt repo tools stores cs i ↔
      (storesBefore tools stores cs i).lookup (workerKey digest args) = none) ∧
    (AppendsAt repo tools stores cs i → ∃ claim : Claim,
      confirmationId result = some (.str claim.claimId) ∧
      repo.claims (storesBefore tools stores cs (i + 1)).repo =
        repo.claims (storesBefore tools stores cs i).repo ++ [claim] ∧
      claim.claimId ∉
        (repo.claims (storesBefore tools stores cs i).repo).map Claim.claimId) := by
  intro tools
  obtain ⟨c, hc, hsubmitted⟩ := Option.bind_eq_some_iff.mp h
  cases c with
  | expired key => cases hsubmitted
  | executed x =>
  have ⟨hname, hreturned, hread⟩ : x.call.name = "submit_claim".toList ∧
      x.outcome = .returned result ∧ SubmitClaimArgs.read x.call.args = some args := by
    simp only [Change.submitted?] at hsubmitted
    split at hsubmitted
    · rename_i hname
      split at hsubmitted
      · rename_i hreturned
        obtain ⟨args', hread, heq⟩ := Option.map_eq_some_iff.mp hsubmitted
        cases heq
        exact ⟨hname, hreturned, hread⟩
      · cases hsubmitted
    · cases hsubmitted
  obtain ⟨tool, found, houtcome⟩ := hrecorded i x hc
  -- the tool is `submit_claim`: no reading tool has its name
  have htool : tool = submitClaimTool repo (submitClaimKey digest true "anonymous" 0) := by
    rw [hname] at found
    exact (Option.some.inj found).symm
  subst htool
  have hafter : storesBefore tools stores cs (i + 1) =
      ((submitClaimTool repo (submitClaimKey digest true "anonymous" 0)).ainvoke x.answer
        x.call.args (storesBefore tools stores cs i)).2 := by
    have htake : cs.take (i + 1) = cs.take i ++ [.executed x] := by
      rw [List.take_add_one, hc]
      rfl
    rw [storesBefore, htake, List.foldl_append, ← storesBefore]
    show Change.apply tools _ (.executed x) = _
    rw [Change.apply]
    simp only [tools, found]
  generalize hbefore : storesBefore tools stores cs i = before at *
  generalize hgives : (submitClaimTool repo (submitClaimKey digest true "anonymous" 0)).ainvoke
    x.answer x.call.args before = given at *
  obtain ⟨outcome, after⟩ := given
  obtain rfl : outcome = .returned result := houtcome.trans hreturned
  obtain ⟨args', filed, breakdown, hread', rfl, hcourse⟩ := submitClaimTool_returned hgives
  obtain rfl : args = args' := Option.some.inj (hread.symm.trans hread')
  rw [confirmationId_result]
  unfold AppendsAt
  rw [hafter, hbefore]
  cases hcourse with
  | replayed hit get =>
    have hkeeps : ¬ ∃ claim, repo.claims before.repo = repo.claims before.repo ++ [claim] := by
      rintro ⟨claim, hclaims⟩
      have hlength := congrArg List.length hclaims
      simp at hlength
    refine ⟨iff_of_false hkeeps fun hmiss => ?_, fun happends => (hkeeps happends).elim⟩
    exact nomatch hmiss.symm.trans hit
  | filed miss appended =>
    obtain ⟨-, hclaims, hfresh⟩ := repo.append_ok appended
    exact ⟨iff_of_true ⟨_, hclaims⟩ miss, fun _ => ⟨_, rfl, hclaims, hfresh⟩⟩

/-- **Of two calls of `submit_claim` that have returned, on any threads and in any turns, both
append a claim and return different ids exactly if neither finds a record under its key, which
is made of its arguments alone.** -/
theorem two_claims_iff {p p' : Platform (Stores S)} {as : List (PlatformAction Services)}
    {es : List (PlatformEvent Services)}
    (h : Run (Computes (Platform.step
      (buildWorker repo digest true requireConfirmation maxIterations))) p as p' es)
    {i j : Nat} (hij : i < j) {args₁ args₂ : SubmitClaimArgs} {result₁ result₂ : Json}
    (h₁ : (changes es)[i]?.bind Change.submitted? = some (args₁, result₁))
    (h₂ : (changes es)[j]?.bind Change.submitted? = some (args₂, result₂)) :
    let tools := (buildWorker repo digest true requireConfirmation maxIterations).tools
    (AppendsAt repo tools p.world (changes es) i ∧ AppendsAt repo tools p.world (changes es) j ∧
        confirmationId result₁ ≠ confirmationId result₂) ↔
      (storesBefore tools p.world (changes es) i).lookup (workerKey digest args₁) = none ∧
        (storesBefore tools p.world (changes es) j).lookup (workerKey digest args₂) = none := by
  intro tools
  have hrecorded := (platform_history h).2
  obtain ⟨hiff₁, hid₁⟩ := submitted_cases hrecorded h₁
  obtain ⟨hiff₂, hid₂⟩ := submitted_cases hrecorded h₂
  rw [← hiff₁, ← hiff₂]
  refine ⟨fun ⟨happends₁, happends₂, _⟩ => ⟨happends₁, happends₂⟩, ?_⟩
  rintro ⟨happends₁, happends₂⟩
  refine ⟨happends₁, happends₂, fun hsame => ?_⟩
  obtain ⟨claim₁, hreturned₁, hclaims₁, -⟩ := hid₁ happends₁
  obtain ⟨claim₂, hreturned₂, -, hfresh₂⟩ := hid₂ happends₂
  have hids : claim₁.claimId = claim₂.claimId :=
    Json.str.inj (Option.some.inj (hreturned₁.symm.trans (hsame.trans hreturned₂)))
  -- the first claim is still there when the second call looks for a new id
  have hstill : claim₁ ∈ repo.claims (storesBefore tools p.world (changes es) j).repo := by
    refine (claims_grow p.world (changes es) hij).subset ?_
    rw [hclaims₁]
    exact List.mem_append_right _ List.mem_cons_self
  exact hfresh₂ (hids ▸ List.mem_map_of_mem hstill)

end Worker

/-- A user files a claim in a conversation and confirms it. -/
def filesAs (userId conversationId : Text) (amount : Nat) : List (PlatformAction Services) :=
  let job (message : Text) : Action Services :=
    .job { runId := conversationId, message, userId, conversationId } 0 true
  let call : ToolCall :=
    ⟨"submit_claim",
      [("policy_number", .str "POL-1092"), ("claim_type", .str "Water Damage"),
        ("amount", .int amount), ("description", .str "Burst pipe in the kitchen")], "a"⟩
  [job ("File a $".toList ++ Text.ofNat amount ++ " water damage claim on POL-1092".toList), .go,
    .reply ⟨[], [call]⟩, .settle {}, .go, job "yes", .go, .call [{}]].map (.on conversationId)

/-- The first two changes of a run, where both are submissions. -/
def firstTwo (es : List (PlatformEvent Services)) :
    Option ((SubmitClaimArgs × Json) × (SubmitClaimArgs × Json)) := do
  let first ← (changes es)[0]?.bind Change.submitted?
  let second ← (changes es)[1]?.bind Change.submitted?
  some (first, second)

theorem firstTwo_eq_some {es : List (PlatformEvent Services)} {first second : SubmitClaimArgs × Json}
    (h : firstTwo es = some (first, second)) :
    (changes es)[0]?.bind Change.submitted? = some first ∧
      (changes es)[1]?.bind Change.submitted? = some second := by
  unfold firstTwo at h
  obtain ⟨first, hfirst, h⟩ := Option.bind_eq_some_iff.mp h
  obtain ⟨second, hsecond, h⟩ := Option.bind_eq_some_iff.mp h
  cases h
  exact ⟨hfirst, hsecond⟩

/-- Claims for different amounts, by two users. -/
theorem different_claims_both_filed :
    ∃ p es args₁ args₂ result₁ result₂,
      Run (Computes (Platform.step fileWorker)) (.new ⟨[], []⟩)
        (filesAs "alice" "c1" 1200 ++ filesAs "bob" "c2" 900) p es ∧
      (changes es)[0]?.bind Change.submitted? = some (args₁, result₁) ∧
      (changes es)[1]?.bind Change.submitted? = some (args₂, result₂) ∧
      AppendsAt listRepository fileWorker.tools ⟨[], []⟩ (changes es) 0 ∧
      AppendsAt listRepository fileWorker.tools ⟨[], []⟩ (changes es) 1 ∧
      confirmationId result₁ ≠ confirmationId result₂ := by
  obtain ⟨p, es, h, hp⟩ := exists_run_of_play (Platform.step fileWorker) (.new ⟨[], []⟩)
    (filesAs "alice" "c1" 1200 ++ filesAs "bob" "c2" 900)
    (fun _ es => (firstTwo es).any fun two => decide
      ((storesBefore fileWorker.tools ⟨[], []⟩ (changes es) 1).lookup
        (workerKey id two.2.1) = none))
    (by decide +kernel)
  obtain ⟨⟨first, second⟩, htwo, hp⟩ := (Option.any_eq_true _ _).mp hp
  obtain ⟨h₁, h₂⟩ := firstTwo_eq_some htwo
  have hmiss := of_decide_eq_true hp
  have hboth := (two_claims_iff h Nat.one_pos h₁ h₂).mpr ⟨rfl, hmiss⟩
  exact ⟨p, es, first.1, second.1, first.2, second.2, h, h₁, h₂, hboth⟩

/-- A second user with a claim for the same amount is told the first user's id, and no claim of
theirs is filed. -/
theorem second_user_answered_with_first_claim :
    ∃ p es args result₁ result₂,
      Run (Computes (Platform.step fileWorker)) (.new ⟨[], []⟩)
        (filesAs "alice" "c1" 1200 ++ filesAs "bob" "c2" 1200) p es ∧
      (changes es)[0]?.bind Change.submitted? = some (args, result₁) ∧
      (changes es)[1]?.bind Change.submitted? = some (args, result₂) ∧
      ¬ (AppendsAt listRepository fileWorker.tools ⟨[], []⟩ (changes es) 0 ∧
        AppendsAt listRepository fileWorker.tools ⟨[], []⟩ (changes es) 1 ∧
        confirmationId result₁ ≠ confirmationId result₂) := by
  obtain ⟨p, es, h, hp⟩ := exists_run_of_play (Platform.step fileWorker) (.new ⟨[], []⟩)
    (filesAs "alice" "c1" 1200 ++ filesAs "bob" "c2" 1200)
    (fun _ es => (firstTwo es).any fun (two : (SubmitClaimArgs × Json) × SubmitClaimArgs × Json) =>
      decide (two.1.1 = two.2.1 ∧ confirmationId two.1.2 = confirmationId two.2.2))
    (by decide +kernel)
  obtain ⟨⟨⟨args, result₁⟩, ⟨args₂, result₂⟩⟩, htwo, hp⟩ := (Option.any_eq_true _ _).mp hp
  obtain ⟨h₁, h₂⟩ := firstTwo_eq_some htwo
  obtain ⟨hargs, hsame⟩ := of_decide_eq_true hp
  cases hargs
  exact ⟨p, es, args, result₁, result₂, h, h₁, h₂, fun hboth => hboth.2.2 hsame⟩

end OmniCare
