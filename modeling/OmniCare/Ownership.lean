import OmniCare.Gateway

/-! # Whose conversation it is

`ensure` is asked for a conversation of a user, and takes up the one that the request names without
a look at `user_id`; only where no id is given does it search among the user's own.  **The
conversation that it returns belongs to the user exactly if the request names no conversation of
another user**; in every run in which no request does, each job and each voice token leads to a
thread of the user it is for, and no thread is shared by two users (`ensure_owner`).
-/
namespace OmniCare

/-- The user and the thread to which an event gives access: the agent runs a job on its thread, and
whoever holds a token is heard on the thread of its room. -/
def TurnEvent.grant? : TurnEvent → Option (Text × Text)
  | .enqueued job => some (job.userId, job.thread)
  | .minted room identity => some (identity, conversationIdFromRoom room)
  | _ => none

/-- A room leads back to its conversation. -/
theorem conversationIdFromRoom_roomFor (cid : Text) :
    conversationIdFromRoom (roomFor cid) = cid := by
  rw [conversationIdFromRoom, roomFor, Text.dropPrefix?_append, Option.getD_some]

section
variable {I : Type} [DecidableEq I] (repo : ConversationRepository I)

/-- The user whose conversation a text names. -/
def ownerOf (s : Conversations I) (cid : Text) : Option Text := (repo.read cid).bind s.owner?

/-- The request names a conversation of another user. -/
def namesAnother (s : Conversations I) (userId : Text) (conversationId : Option Text) : Bool :=
  ((given conversationId).bind (ownerOf repo s)).any (· ≠ userId)

/-- When a statement of `ensure` is run, the request names no conversation of another user. -/
def asksForOwn (caller : Caller) (s : Conversations I) : TurnAction I → Bool
  | .ensure _ | .insert _ => !namesAnother repo s caller.userId caller.conversationId
  | _ => true

variable {repo} {settings : GatewaySettings}

theorem ownerOf_grows {s s' : Conversations I} (hgrows : Grows s s') {cid userId : Text}
    (h : ownerOf repo s cid = some userId) : ownerOf repo s' cid = some userId := by
  obtain ⟨i, hread, howner⟩ := Option.bind_eq_some_iff.mp h
  exact Option.bind_eq_some_iff.mpr ⟨i, hread, hgrows.owner howner⟩

/-- A conversation's id is not empty. -/
theorem ne_nil_of_ownerOf {s : Conversations I} {cid userId : Text}
    (h : ownerOf repo s cid = some userId) : cid ≠ [] := by
  rintro rfl
  rw [ownerOf, repo.read_nil] at h
  cases h

/-- What `ensure` comes to belongs to the user exactly if the request names nobody else's. -/
theorem Opened.owner_iff {s s' : Conversations I} {userId : Text} {c : Option Text} {i : I}
    (h : Opened repo.read s userId c i s') :
    s'.owner? i = some userId ↔ namesAnother repo s userId c = false := by
  cases h with
  | @named t hgiven hread hhas =>
    obtain ⟨v, hv⟩ := Option.isSome_iff_exists.mp (s.has_eq_isSome i ▸ hhas)
    rw [namesAnother, hgiven, Option.bind_some, ownerOf, hread, Option.bind_some, hv]
    simp
  | found hgiven howner =>
    rw [namesAnother, hgiven]
    exact iff_of_true howner rfl
  | made hread hnew howner =>
    refine iff_of_true ((howner i).trans (if_pos rfl)) ?_
    have hnone : s.owner? i = none := by
      rw [← Option.not_isSome_iff_eq_none, ← s.has_eq_isSome, hnew]
      exact Bool.false_ne_true
    unfold namesAnother
    cases hgiven : given c with
    | none => rfl
    | some t => rw [Option.bind_some, ownerOf, hread t hgiven, Option.bind_some, hnone]; rfl

theorem Advances.owner_iff {caller : Caller} {now : ℚ} {s s' : Conversations I}
    {stage stage' : Stage} {a : TurnAction I} {fs : List TurnEvent}
    (h : Advances repo settings caller now s stage a stage' s' fs) {cid : Text}
    (hmem : .ensured cid ∈ fs) :
    ownerOf repo s' cid = some caller.userId ↔
      namesAnother repo s caller.userId caller.conversationId = false := by
  cases h with
  | opened _ hread hopened =>
    cases List.mem_singleton.mp hmem
    rw [ownerOf, hread, Option.bind_some]
    exact hopened.owner_iff
  | _ => simp at hmem

/-! ## Runs -/

/-- The conversation that a request is at. -/
def Stage.conversation? : Stage → Option Text
  | .ensured cid | .asked cid | .following cid _ | .collected cid _ => some cid
  | _ => none

/-- A request has kept to the conversations of its user. -/
structure KeepsToOwn (repo : ConversationRepository I) (caller : Caller) (s : Conversations I)
    (stage : Stage) (tes : List TurnEvent) : Prop where
  ensured : ∀ cid, .ensured cid ∈ tes → ownerOf repo s cid = some caller.userId
  at_ensured : ∀ cid ∈ stage.conversation?, .ensured cid ∈ tes
  granted : ∀ e ∈ tes, ∀ userId thread, e.grant? = some (userId, thread) →
    userId = caller.userId ∧ .ensured thread ∈ tes

theorem keepsToOwn_grows {caller : Caller} {s s' : Conversations I} {stage : Stage}
    {tes : List TurnEvent} (hgrows : Grows s s') (h : KeepsToOwn repo caller s stage tes) :
    KeepsToOwn repo caller s' stage tes :=
  ⟨fun cid hmem => ownerOf_grows hgrows (h.ensured cid hmem), h.at_ensured, h.granted⟩

theorem thread_job (r : ChatRequest) (runId : Text) {cid : Text} (deadlineAt : ℚ)
    (h : cid ≠ []) : (r.job runId cid deadlineAt).thread = cid := by
  unfold Job.thread ChatRequest.job
  rw [if_neg]
  simpa using h

theorem keepsToOwn_step {caller : Caller} {now : ℚ} {s s' : Conversations I} {stage stage' : Stage}
    {a : TurnAction I} {tes fs : List TurnEvent} (h : KeepsToOwn repo caller s stage tes)
    (hok : asksForOwn repo caller s a = true)
    (hstep : Advances repo settings caller now s stage a stage' s' fs) :
    KeepsToOwn repo caller s' stage' (tes ++ fs) := by
  have hkept := keepsToOwn_grows hstep.grows h
  -- The step returns from `ensure`, or stays at its conversation and grants access to no other.
  have hnew : ∀ cid, .ensured cid ∈ fs → ownerOf repo s' cid = some caller.userId := by
    intro cid hmem
    refine (hstep.owner_iff hmem).mpr ?_
    cases hstep with
    | opened hbefore =>
      rcases hbefore with ⟨_, rfl, rfl⟩ | ⟨_, rfl, rfl⟩
      · simpa [asksForOwn] using hok
      · simpa [asksForOwn] using hok
    | _ => simp at hmem
  have hat : ∀ cid ∈ stage'.conversation?, .ensured cid ∈ tes ++ fs := by
    cases hstep with
    | opened =>
      rintro cid ⟨⟩
      exact List.mem_append_right _ (List.mem_singleton_self _)
    | @enqueued _ cid _ _ _ _ hbefore =>
      rintro _ ⟨⟩
      rcases hbefore with rfl | ⟨rfl, -⟩
      · exact List.mem_append_left _ (h.at_ensured cid rfl)
      · exact List.mem_append_left _ (h.at_ensured cid rfl)
    | @forwarded cid c e =>
      intro cid' hcid
      split at hcid
      · cases hcid
      · exact List.mem_append_left _ (h.at_ensured cid' hcid)
    | asked => exact fun cid hcid => List.mem_append_left _ (h.at_ensured cid hcid)
    | gathered => exact fun cid hcid => List.mem_append_left _ (h.at_ensured cid hcid)
    | collected => exact fun cid hcid => List.mem_append_left _ (h.at_ensured cid hcid)
    | _ => exact fun cid hcid => nomatch hcid
  refine ⟨fun cid hmem => ?_, hat, fun e hmem userId thread hgrant => ?_⟩
  · rcases List.mem_append.mp hmem with hmem | hmem
    · exact hkept.ensured cid hmem
    · exact hnew cid hmem
  · rcases List.mem_append.mp hmem with hmem | hmem
    · obtain ⟨huser, hensured⟩ := h.granted e hmem userId thread hgrant
      exact ⟨huser, List.mem_append_left _ hensured⟩
    · cases hstep with
      | @enqueued _ cid surface r runId hcaller hbefore =>
        cases List.mem_singleton.mp hmem
        have hensured : .ensured cid ∈ tes := by
          rcases hbefore with rfl | ⟨rfl, -⟩
          · exact h.at_ensured cid rfl
          · exact h.at_ensured cid rfl
        have hne := ne_nil_of_ownerOf (h.ensured cid hensured)
        obtain ⟨rfl, rfl⟩ := Prod.mk.inj (Option.some.inj hgrant)
        rw [thread_job r runId _ hne, hcaller]
        exact ⟨rfl, List.mem_append_left _ hensured⟩
      | @minted cid r hcaller =>
        cases List.mem_singleton.mp hmem
        obtain ⟨rfl, rfl⟩ := Prod.mk.inj (Option.some.inj hgrant)
        rw [conversationIdFromRoom_roomFor, hcaller]
        exact ⟨rfl, List.mem_append_left _ (h.at_ensured cid rfl)⟩
      | refused =>
        simp only [List.mem_cons, List.not_mem_nil, or_false] at hmem
        rcases hmem with rfl | rfl <;> cases hgrant
      | opened => cases List.mem_singleton.mp hmem; cases hgrant
      | looked => cases hmem
      | asked => cases List.mem_singleton.mp hmem; cases hgrant
      | gathered => cases List.mem_singleton.mp hmem; cases hgrant
      | collected => cases List.mem_singleton.mp hmem; cases hgrant
      | forwarded => cases List.mem_singleton.mp hmem; cases hgrant
      | answered => cases List.mem_singleton.mp hmem; cases hgrant
      | gaveUp => cases hmem
      | failed => cases List.mem_singleton.mp hmem; cases hgrant

/-- What the requests of a run lead to belongs to their users, and no thread to two of them. -/
structure OwnThreads (repo : ConversationRepository I) (g : Gateway I) (es : List GatewayEvent) :
    Prop where
  ensured : ∀ {n t cid}, g.turns[n]? = some t → .on n (.ensured cid) ∈ es →
    ownerOf repo g.store cid = some t.caller.userId
  granted : ∀ {n e userId thread}, .on n e ∈ es → e.grant? = some (userId, thread) →
    ownerOf repo g.store thread = some userId
  apart : ∀ {n m e f u v thread}, .on n e ∈ es → .on m f ∈ es → e.grant? = some (u, thread) →
    f.grant? = some (v, thread) → u = v

/-- **`ensure` returns a conversation of the user exactly if the request names nobody else's.  Where
no request does, jobs and tokens keep to the threads of their users.** -/
theorem ensure_owner :
    (∀ {g g' : Gateway I} {n : Nat} {a : TurnAction I} {t : Turn} {fs : List GatewayEvent}
        {cid : Text}, g.step repo settings (.on n a) = some (g', fs) → g.turns[n]? = some t →
      .on n (.ensured cid) ∈ fs →
      (ownerOf repo g'.store cid = some t.caller.userId ↔
        namesAnother repo g.store t.caller.userId t.caller.conversationId = false)) ∧
    ∀ {as : List (GatewayAction I)} {g : Gateway I} {es : List GatewayEvent},
      Run (Computes (restrict (Gateway.meets (asksForOwn repo)) (Gateway.step repo settings))) {}
        as g es → OwnThreads repo g es := by
  constructor
  · intro g g' n a t fs cid hs ht hmem
    obtain ⟨u, hu, hs⟩ := Option.bind_eq_some_iff.mp hs
    obtain rfl : u = t := Option.some.inj (hu.symm.trans ht)
    obtain ⟨⟨stage, s', fs'⟩, hadvance, heq⟩ := Option.map_eq_some_iff.mp hs
    cases heq
    obtain ⟨e, he, heq⟩ := List.mem_map.mp hmem
    cases heq
    exact (advances_of_advance hadvance).owner_iff he
  · intro as g es h
    have hkept := (turns_served
      (fun caller s stage tes => KeepsToOwn repo caller s stage tes)
      (fun _ _ => ⟨by simp, by simp [Stage.conversation?], by simp⟩)
      (fun hkept hok hstep => keepsToOwn_step hkept hok hstep)
      (fun hgrows hkept => keepsToOwn_grows hgrows hkept) h).2
    have hrun : Run (Computes (Gateway.step repo settings)) {} as g es :=
      h.mono fun hs => (restrict_eq_some.mp hs).2
    have hgranted : ∀ {n e userId thread}, .on n e ∈ es → e.grant? = some (userId, thread) →
        ownerOf repo g.store thread = some userId := by
      intro n e userId thread hmem hgrant
      obtain ⟨t, ht⟩ := turn_of_mem hrun hmem
      obtain ⟨rfl, hensured⟩ :=
        (hkept n t ht).granted e (mem_eventsOf.mpr hmem) userId thread hgrant
      exact (hkept n t ht).ensured thread hensured
    refine ⟨fun ht hmem => (hkept _ _ ht).ensured _ (mem_eventsOf.mpr hmem), hgranted, ?_⟩
    intro n m e f u v thread he hf hu hv
    exact Option.some.inj ((hgranted he hu).symm.trans (hgranted hf hv))

end

/-! ## Two users -/

/-- A request that names a conversation. -/
def greetingIn (userId conversationId : Text) (hu : isUserId userId = true)
    (hc : conversationId.length ≤ 64 ∧ Trimmed conversationId) : ChatRequest :=
  { greeting userId hu with
    conversationId := some conversationId
    conversationId_ok := by simpa using hc }

/-- Alice asks twice over REST, the second time in the conversation of the first. -/
theorem own_conversation_kept :
    ∃ (g : Gateway MemoryId) (es : List GatewayEvent),
      Run (Computes (restrict (Gateway.meets (asksForOwn inMemoryConversationRepo))
          (Gateway.step inMemoryConversationRepo {}))) {}
        [.chat .rest (greeting "alice" (by decide)) 0, .on 0 (.ensure ⟨"cnv_1", by decide⟩),
          .on 0 .addQuestion, .on 0 (.enqueue "run_1"),
          .chat .rest (greetingIn "alice" "cnv_1" (by decide) ⟨by decide, rfl⟩) 0,
          .on 1 (.ensure ⟨"cnv_2", by decide⟩), .on 1 .addQuestion, .on 1 (.enqueue "run_2")] g es ∧
      OwnThreads inMemoryConversationRepo g es := by
  obtain ⟨g, es, h, -⟩ := exists_run_of_play
    (restrict (Gateway.meets (asksForOwn inMemoryConversationRepo))
      (Gateway.step inMemoryConversationRepo {})) {}
    [.chat .rest (greeting "alice" (by decide)) 0, .on 0 (.ensure ⟨"cnv_1", by decide⟩),
      .on 0 .addQuestion, .on 0 (.enqueue "run_1"),
      .chat .rest (greetingIn "alice" "cnv_1" (by decide) ⟨by decide, rfl⟩) 0,
      .on 1 (.ensure ⟨"cnv_2", by decide⟩), .on 1 .addQuestion, .on 1 (.enqueue "run_2")]
    (fun _ _ => true) (by decide +kernel)
  exact ⟨g, es, h, ensure_owner.2 h⟩

/-- A UUID of ones. -/
def onesUuid : Uuid := ⟨List.replicate 32 1, by decide⟩

/-- Alice's first request, over REST, and bob's, which names her conversation: the steps of alice's
`ensure` depend on the repository. -/
def takeUp {I : Type} (aliceId bobId : I) (cid : Text)
    (hc : cid.length ≤ 64 ∧ Trimmed cid) (ensureAlice : List (TurnAction I)) :
    List (GatewayAction I) :=
  .chat .rest (greeting "alice" isUserId_alice) 0 :: .on 0 (.ensure aliceId) ::
    (ensureAlice ++ [TurnAction.addQuestion, TurnAction.enqueue "run_1"]).map (.on 0) ++
    [.chat .rest (greetingIn "bob" cid isUserId_bob hc) 0, .on 1 (.ensure bobId),
      .on 1 .addQuestion, .on 1 (.enqueue "run_2")]

/-- The second request has a job for bob on the thread of alice's job. -/
def sharesThread (es : List GatewayEvent) : Bool :=
  (eventsOf 0 es).any fun e => (eventsOf 1 es).any fun f =>
    match e.grant?, f.grant? with
    | some (u, thread), some (v, thread') => u = "alice" ∧ v = "bob" ∧ thread = thread'
    | _, _ => false

theorem not_ownThreads_of_sharesThread {I : Type} [DecidableEq I] {repo : ConversationRepository I}
    {g : Gateway I} {es : List GatewayEvent} (h : sharesThread es = true) :
    ¬ OwnThreads repo g es := by
  intro hown
  obtain ⟨e, he, h⟩ := List.any_eq_true.mp h
  obtain ⟨f, hf, h⟩ := List.any_eq_true.mp h
  split at h
  · rename_i u thread v thread' hu hv
    obtain ⟨rfl, rfl, rfl⟩ := of_decide_eq_true h
    exact absurd (hown.apart (mem_eventsOf.mp he) (mem_eventsOf.mp hf) hu hv) (by decide)
  · cases h

/-- Bob names alice's conversation and gets a job on her thread, with either repository. -/
theorem foreign_conversation_taken_up :
    (∃ (g : Gateway MemoryId) (es : List GatewayEvent),
      Run (Computes (Gateway.step inMemoryConversationRepo {})) {}
        (takeUp ⟨"cnv_1", by decide⟩ ⟨"cnv_2", by decide⟩ "cnv_1" ⟨by decide, rfl⟩ []) g es ∧
      sharesThread es = true ∧ ¬ OwnThreads inMemoryConversationRepo g es) ∧
    ∃ (g : Gateway Uuid) (es : List GatewayEvent),
      Run (Computes (Gateway.step postgresConversationRepo {})) {}
        (takeUp onesUuid ⟨List.replicate 32 2, by decide⟩ onesUuid.text ⟨by decide, rfl⟩
          [.insert onesUuid]) g es ∧
      sharesThread es = true ∧ ¬ OwnThreads postgresConversationRepo g es := by
  constructor
  · obtain ⟨g, es, h, hp⟩ := exists_run_of_play (Gateway.step inMemoryConversationRepo {}) {}
      (takeUp ⟨"cnv_1", by decide⟩ ⟨"cnv_2", by decide⟩ "cnv_1" ⟨by decide, rfl⟩ [])
      (fun _ es => sharesThread es) (by decide +kernel)
    exact ⟨g, es, h, hp, not_ownThreads_of_sharesThread hp⟩
  · obtain ⟨g, es, h, hp⟩ := exists_run_of_play (Gateway.step postgresConversationRepo {}) {}
      (takeUp onesUuid ⟨List.replicate 32 2, by decide⟩ onesUuid.text ⟨by decide, rfl⟩
        [.insert onesUuid])
      (fun _ es => sharesThread es) (by decide +kernel)
    exact ⟨g, es, h, hp, not_ownThreads_of_sharesThread hp⟩

end OmniCare
