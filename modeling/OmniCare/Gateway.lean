import OmniCare.Admission
import OmniCare.Conversations
import OmniCare.Platform
import OmniCare.Speaking

/-! # The gateway

`gateway/app/main.py`: any number of requests at once, over REST (`chat`), over the WebSocket
(`chat_stream`) and for a voice token (`voice_token`), on one conversation repository.  Between two
awaits of one request any other may go on, and any await may raise.  What the agent publishes for a
run is what the environment makes of it.

`Advances` says once what a step of a request can do, and `turns_served` turns what such a step
keeps, and what the other requests cannot spoil, into what every run keeps.
-/
namespace OmniCare

/-! ## `_collect` -/

/-- `HTTPException`. -/
structure HttpError where
  status : Nat
  detail : Text := []
  deriving DecidableEq, Repr

/-- `ToolCall.model_validate`, of what the state recorded. -/
def Invocation.record (call : Invocation) : CallRecord :=
  { name := call.name, arguments := call.arguments, result := some call.result
    status := match call.status with
      | .ok => .ok
      | .error => .error }

/-- The call of a prompt. -/
def awaitingCall (args : Dict) : CallRecord :=
  { name := "submit_claim", arguments := args, status := .awaitingConfirmation }

/-- `is_terminal`. -/
def RunEvent.isTerminal : RunEvent → Bool
  | .done _ | .error _ _ => true
  | _ => false

/-- What `_collect` has gathered. -/
structure Collected where
  text : List Text := []
  sources : List Text := []
  toolCalls : List CallRecord := []
  /-- The terminal event, of which the verdict is taken. -/
  report : Option Report := none

/-- One event in the loop of `_collect`. -/
def Collected.add (c : Collected) : RunEvent → Except HttpError Collected
  | .started => .ok c
  | .token text => .ok { c with text := c.text ++ [text] }
  | .sources sources => .ok { c with sources }
  | .toolEnd call => .ok { c with toolCalls := c.toolCalls ++ [call.record] }
  | .confirm args readback =>
      .ok { c with text := c.text ++ [readback], toolCalls := c.toolCalls ++ [awaitingCall args] }
  | .done report => .ok { c with report }
  | .error message _ => .error ⟨502, message⟩

/-! ## Requests -/

/-- `VoiceTokenRequest`. -/
structure VoiceTokenRequest where
  userId : Text
  conversationId : Option Text := none
  userId_ok : isUserId userId = true
  conversationId_ok : ∀ c ∈ conversationId, c.length ≤ 64

/-- Who is being served. -/
inductive Caller
  | chat (surface : Surface) (r : ChatRequest)
  | voiceToken (r : VoiceTokenRequest)

def Caller.userId : Caller → Text
  | .chat _ r => r.userId
  | .voiceToken r => r.userId

def Caller.conversationId : Caller → Option Text
  | .chat _ r => r.conversationId
  | .voiceToken r => r.conversationId

/-- The message of the user, as it is added to the history. -/
def ChatRequest.question (r : ChatRequest) : ChatMessage :=
  { role := .user, content := r.message, channel := r.channel }

/-- The message of the assistant, as it is added to the history. -/
def ChatRequest.answer (r : ChatRequest) (c : Collected) : ChatMessage :=
  { role := .assistant, content := Text.strip c.text.flatten, sources := c.sources
    toolCalls := c.toolCalls, channel := r.channel }

/-- The job of a request. -/
def ChatRequest.job (r : ChatRequest) (runId conversationId : Text) (deadlineAt : ℚ) : Job :=
  { runId, message := r.message, userId := r.userId, conversationId, channel := r.channel
    sttConfidence := r.sttConfidence, deadlineAt := some deadlineAt }

/-- `ROOM_PREFIX`. -/
def roomPrefix : Text := "omnicare-"

/-- `room_for`. -/
def roomFor (conversationId : Text) : Text := roomPrefix ++ conversationId

/-- `conversation_id_from_room`. -/
def conversationIdFromRoom (room : Text) : Text := (Text.dropPrefix? roomPrefix room).getD room

/-! ## One request -/

/-- How far a request has come. -/
inductive Stage
  | ensuring
  /-- In `ensure`, before its `INSERT`. -/
  | inserting
  | ensured (conversationId : Text)
  /-- The question has been added. -/
  | asked (conversationId : Text)
  /-- In `subscribe`. -/
  | following (conversationId : Text) (c : Collected)
  /-- `_collect` has returned. -/
  | collected (conversationId : Text) (c : Collected)
  | closed

/-- The next await of a request. -/
inductive TurnAction (I : Type)
  /-- `ensure`, with a random id. -/
  | ensure (newId : I)
  | insert (newId : I)
  | addQuestion
  | enqueue (runId : Text)
  /-- The subscription yields an event. -/
  | receive (e : RunEvent)
  /-- The subscription gives up. -/
  | timeOut
  | addAnswer
  | mint
  /-- The await raises. -/
  | fail

/-- What can be seen of a request. -/
inductive TurnEvent
  /-- `ensure` has returned. -/
  | ensured (conversationId : Text)
  | stored (m : ChatMessage)
  | enqueued (job : Job)
  | received (e : RunEvent)
  /-- A token for a room has been minted. -/
  | minted (room identity : Text)
  | failed (e : HttpError)

section
variable {I : Type} [DecidableEq I] (repo : ConversationRepository I) (settings : GatewaySettings)

/-- One step of `chat`, `chat_stream` or `voice_token`. -/
def Caller.advance (caller : Caller) (now : ℚ) (s : Conversations I) :
    Stage → TurnAction I → Option (Stage × Conversations I × List TurnEvent)
  | .ensuring, .ensure newId =>
      -- `uuid4` gives an id that is not in use
      if s.has newId then none
      else match repo.ensure newId now caller.userId caller.conversationId s with
        | .returns cid s => some (.ensured cid, s, [.ensured cid])
        | .inserts => some (.inserting, s, [])
        | .raises => some (.closed, s, [.failed ⟨500, []⟩])
  | .inserting, .insert newId =>
      if s.has newId then none
      else match repo.insert newId now caller.userId caller.conversationId s with
        | some (cid, s) => some (.ensured cid, s, [.ensured cid])
        | none => some (.closed, s, [.failed ⟨500, []⟩])
  | .ensured cid, .addQuestion =>
      match caller with
      | .chat .rest r =>
          match repo.addMessage cid r.question now s with
          | some s => some (.asked cid, s, [.stored r.question])
          | none => some (.closed, s, [.failed ⟨500, []⟩])
      | _ => none
  | .ensured cid, .enqueue runId =>
      match caller with
      | .chat .webSocket r =>
          some (.following cid {}, s, [.enqueued (r.job runId cid (now + settings.runTimeoutS))])
      | _ => none
  | .ensured cid, .mint =>
      match caller with
      | .voiceToken r => some (.closed, s, [.minted (roomFor cid) r.userId])
      | _ => none
  | .asked cid, .enqueue runId =>
      match caller with
      | .chat _ r =>
          some (.following cid {}, s, [.enqueued (r.job runId cid (now + settings.runTimeoutS))])
      | _ => none
  | .following cid c, .receive e =>
      match caller with
      | .chat .rest _ =>
          match c.add e with
          | .ok c =>
              some (if e.isTerminal then .collected cid c else .following cid c, s, [.received e])
          | .error err => some (.closed, s, [.received e, .failed err])
      | .chat .webSocket _ =>
          some (if e.isTerminal then .closed else .following cid c, s, [.received e])
      | _ => none
  | .following _ _, .timeOut =>
      match caller with
      | .chat .rest _ =>
          some (.closed, s,
            [.failed ⟨504, "The assistant did not respond in time. Please try again."⟩])
      | _ => some (.closed, s, [])
  | .collected cid c, .addAnswer =>
      match caller with
      | .chat .rest r =>
          match repo.addMessage cid (r.answer c) now s with
          | some s => some (.closed, s, [.stored (r.answer c)])
          | none => some (.closed, s, [.failed ⟨500, []⟩])
      | _ => none
  | .closed, .fail => none
  | _, .fail => some (.closed, s, [.failed ⟨500, []⟩])
  | _, _ => none

/-! ## All requests -/

/-- A request that is being served. -/
structure Turn where
  caller : Caller
  stage : Stage := .ensuring

/-- The gateway: the buckets of the limiter, the repository and the requests that have been
accepted. -/
structure Gateway (I : Type) [DecidableEq I] where
  now : ℚ := 0
  keys : BucketKeys := noKeys
  store : Conversations I := {}
  turns : List Turn := []

/-- What happens next. -/
inductive GatewayAction (I : Type)
  | elapse (time : ℚ)
  /-- A request comes, and observes the depth of the queue. -/
  | chat (surface : Surface) (r : ChatRequest) (depth : Nat)
  | voiceToken (r : VoiceTokenRequest)
  /-- An accepted request goes on. -/
  | on (n : Nat) (a : TurnAction I)

/-- What can be seen of the gateway. -/
inductive GatewayEvent
  | accepted (n : Nat)
  | refused
  | on (n : Nat) (e : TurnEvent)

/-- One step. -/
def Gateway.step (g : Gateway I) : GatewayAction I → Option (Gateway I × List GatewayEvent)
  | .elapse time => if 0 ≤ time then some ({ g with now := g.now + time }, []) else none
  | .chat surface r depth =>
      let admitted := admitRequest settings g.keys ⟨surface, r, g.now, depth⟩
      if admitted.2 = .enqueued then
        some ({ g with keys := admitted.1, turns := g.turns ++ [⟨.chat surface r, .ensuring⟩] },
          [.accepted g.turns.length])
      else some ({ g with keys := admitted.1 }, [.refused])
  | .voiceToken r =>
      some ({ g with turns := g.turns ++ [⟨.voiceToken r, .ensuring⟩] },
        [.accepted g.turns.length])
  | .on n a =>
      g.turns[n]?.bind fun t =>
        (t.caller.advance repo settings g.now g.store t.stage a).map fun r =>
          ({ g with store := r.2.1, turns := g.turns.set n { t with stage := r.1 } },
            r.2.2.map (.on n))

/-! ## What a step can do -/

/-- What a step of a request can do. -/
inductive Advances (caller : Caller) (now : ℚ) (s : Conversations I) :
    Stage → TurnAction I → Stage → Conversations I → List TurnEvent → Prop
  | opened {stage a cid i s'} (hbefore : (∃ newId, stage = .ensuring ∧ a = .ensure newId) ∨
        ∃ newId, stage = .inserting ∧ a = .insert newId)
      (hread : repo.read cid = some i)
      (hopened : Opened repo.read s caller.userId caller.conversationId i s') :
      Advances caller now s stage a (.ensured cid) s' [.ensured cid]
  | looked {newId} : Advances caller now s .ensuring (.ensure newId) .inserting s []
  | asked {cid i r} (hcaller : caller = .chat .rest r) (hread : repo.read cid = some i) :
      Advances caller now s (.ensured cid) .addQuestion (.asked cid) (s.post i r.question now)
        [.stored r.question]
  | enqueued {stage cid surface r runId} (hcaller : caller = .chat surface r)
      (hbefore : stage = .asked cid ∨ stage = .ensured cid ∧ surface = .webSocket) :
      Advances caller now s stage (.enqueue runId) (.following cid {}) s
        [.enqueued (r.job runId cid (now + settings.runTimeoutS))]
  | minted {cid r} (hcaller : caller = .voiceToken r) :
      Advances caller now s (.ensured cid) .mint .closed s [.minted (roomFor cid) r.userId]
  | gathered {cid c c' e r} (hcaller : caller = .chat .rest r) (hadd : c.add e = .ok c')
      (hgoesOn : e.isTerminal = false) :
      Advances caller now s (.following cid c) (.receive e) (.following cid c') s [.received e]
  | collected {cid c c' e r} (hcaller : caller = .chat .rest r) (hadd : c.add e = .ok c')
      (hterminal : e.isTerminal = true) :
      Advances caller now s (.following cid c) (.receive e) (.collected cid c') s [.received e]
  | forwarded {cid c e r} (hcaller : caller = .chat .webSocket r) :
      Advances caller now s (.following cid c) (.receive e)
        (if e.isTerminal then .closed else .following cid c) s [.received e]
  | answered {cid c i r} (hcaller : caller = .chat .rest r) (hread : repo.read cid = some i) :
      Advances caller now s (.collected cid c) .addAnswer .closed (s.post i (r.answer c) now)
        [.stored (r.answer c)]
  | gaveUp {cid c} (hcaller : ∀ r, caller ≠ .chat .rest r) :
      Advances caller now s (.following cid c) .timeOut .closed s []
  | refused {cid c e err} (hadd : c.add e = .error err) :
      Advances caller now s (.following cid c) (.receive e) .closed s [.received e, .failed err]
  | failed {stage a err} (hgoing : stage ≠ .closed) :
      Advances caller now s stage a .closed s [.failed err]

variable {repo settings}

theorem advances_of_advance {caller : Caller} {now : ℚ} {s s' : Conversations I}
    {stage stage' : Stage} {a : TurnAction I} {fs : List TurnEvent}
    (h : caller.advance repo settings now s stage a = some (stage', s', fs)) :
    Advances repo settings caller now s stage a stage' s' fs := by
  unfold Caller.advance at h
  split at h
  · rename_i newId
    split at h
    · cases h
    · rename_i hnew
      split at h
      · rename_i cid t hensure
        cases h
        obtain ⟨i, hread, hopened⟩ := repo.ensure_returns (by simpa using hnew) hensure
        exact .opened (.inl ⟨newId, rfl, rfl⟩) hread hopened
      · cases h
        exact .looked
      · cases h
        exact .failed nofun
  · rename_i newId
    split at h
    · cases h
    · rename_i hnew
      split at h
      · rename_i cid t hinsert
        cases h
        obtain ⟨i, hread, hopened⟩ := repo.insert_returns (by simpa using hnew) hinsert
        exact .opened (.inr ⟨newId, rfl, rfl⟩) hread hopened
      · cases h
        exact .failed nofun
  · split at h
    · split at h
      · rename_i hadd
        cases h
        obtain ⟨i, hread, rfl⟩ := repo.addMessage_some hadd
        exact .asked rfl hread
      · cases h
        exact .failed nofun
    · cases h
  · split at h
    · cases h
      exact .enqueued rfl (.inr ⟨rfl, rfl⟩)
    · cases h
  · split at h
    · cases h
      exact .minted rfl
    · cases h
  · split at h
    · cases h
      exact .enqueued rfl (.inl rfl)
    · cases h
  · split at h
    · split at h
      · rename_i hadd
        cases h
        split
        · rename_i hterminal
          exact .collected rfl hadd hterminal
        · rename_i hgoesOn
          exact .gathered rfl hadd (by simpa using hgoesOn)
      · rename_i hadd
        cases h
        exact .refused hadd
    · cases h
      exact .forwarded rfl
    · cases h
  · split at h
    · cases h
      exact .failed nofun
    · rename_i hcaller
      cases h
      exact .gaveUp fun r heq => hcaller r heq
  · split at h
    · split at h
      · rename_i hadd
        cases h
        obtain ⟨i, hread, rfl⟩ := repo.addMessage_some hadd
        exact .answered rfl hread
      · cases h
        exact .failed nofun
    · cases h
  · cases h
  · rename_i hgoing
    cases h
    exact .failed hgoing
  · cases h

theorem Advances.going {caller : Caller} {now : ℚ} {s s' : Conversations I} {stage stage' : Stage}
    {a : TurnAction I} {fs : List TurnEvent}
    (h : Advances repo settings caller now s stage a stage' s' fs) : stage ≠ .closed := by
  cases h with
  | opened hbefore => rcases hbefore with ⟨_, rfl, -⟩ | ⟨_, rfl, -⟩ <;> exact nofun
  | enqueued _ hbefore => rcases hbefore with rfl | ⟨rfl, -⟩ <;> exact nofun
  | failed hgoing => exact hgoing
  | _ => exact nofun

/-! ## What one request leaves of the others -/

/-- Conversations keep their owners, and what has been said in them. -/
structure Grows (s s' : Conversations I) : Prop where
  owner : ∀ {i userId}, s.owner? i = some userId → s'.owner? i = some userId
  history : ∀ {i}, s.has i = true → s.history i <+: s'.history i

theorem Grows.refl (s : Conversations I) : Grows s s := ⟨id, fun _ => List.prefix_refl _⟩

theorem Grows.has {s s' : Conversations I} (h : Grows s s') {i : I} (hi : s.has i = true) :
    s'.has i = true := by
  obtain ⟨userId, howner⟩ := Option.isSome_iff_exists.mp (s.has_eq_isSome i ▸ hi)
  exact s'.has_of_owner? (h.owner howner)

theorem Opened.grows {read : Text → Option I} {s s' : Conversations I} {userId : Text}
    {c : Option Text} {i : I} (h : Opened read s userId c i s') : Grows s s' := by
  cases h with
  | named => exact .refl s
  | found => exact .refl s
  | made _ hnew howner hhistory =>
    have hne : ∀ {j}, s.has j = true → j ≠ i := by
      rintro j hj rfl
      rw [hnew] at hj
      cases hj
    constructor
    · intro j v hj
      rw [howner, if_neg (hne (s.has_of_owner? hj)), hj]
    · intro j hj
      exact (hhistory j (hne hj)).symm ▸ List.prefix_refl _

theorem Opened.has {read : Text → Option I} {s s' : Conversations I} {userId : Text}
    {c : Option Text} {i : I} (h : Opened read s userId c i s') : s'.has i = true := by
  cases h with
  | named _ _ hhas => exact hhas
  | found _ howner => exact s.has_of_owner? howner
  | made _ _ howner => exact s'.has_of_owner? ((howner i).trans (if_pos rfl))

theorem grows_post (s : Conversations I) (i : I) (m : ChatMessage) (now : ℚ) :
    Grows s (s.post i m now) where
  owner h := by rw [s.owner?_post, h]
  history _ := by
    rw [s.history_post]
    exact List.prefix_append _ _

theorem Advances.grows {caller : Caller} {now : ℚ} {s s' : Conversations I} {stage stage' : Stage}
    {a : TurnAction I} {fs : List TurnEvent}
    (h : Advances repo settings caller now s stage a stage' s' fs) : Grows s s' := by
  cases h with
  | opened _ _ hopened => exact hopened.grows
  | asked => exact grows_post ..
  | answered => exact grows_post ..
  | _ => exact .refl s

/-! ## From a step of one request to runs of all -/

/-- What can be seen of the request `n`. -/
def eventsOf (n : Nat) (es : List GatewayEvent) : List TurnEvent :=
  es.filterMap fun
    | .on m e => if m = n then some e else none
    | _ => none

theorem eventsOf_append (n : Nat) (es fs : List GatewayEvent) :
    eventsOf n (es ++ fs) = eventsOf n es ++ eventsOf n fs := List.filterMap_append

theorem eventsOf_on (n m : Nat) (fs : List TurnEvent) :
    eventsOf n (fs.map (.on m)) = if m = n then fs else [] := by
  unfold eventsOf
  rw [List.filterMap_map]
  by_cases h : m = n
  · simp only [h, if_true]
    exact (List.filterMap_congr fun e _ => by simp).trans (List.filterMap_some)
  · simp only [h, if_false]
    exact List.filterMap_eq_nil_iff.mpr fun e _ => by simp [h]

theorem mem_eventsOf {n : Nat} {e : TurnEvent} {es : List GatewayEvent} :
    e ∈ eventsOf n es ↔ .on n e ∈ es := by
  unfold eventsOf
  rw [List.mem_filterMap]
  constructor
  · rintro ⟨e', hmem, heq⟩
    cases e' with
    | on m e' =>
      simp only [Option.ite_none_right_eq_some, Option.some.injEq] at heq
      obtain ⟨rfl, rfl⟩ := heq
      exact hmem
    | _ => cases heq
  · exact fun hmem => ⟨_, hmem, by simp⟩

/-- A condition on the steps of requests, as one on the steps of the gateway. -/
def Gateway.meets (ok : Caller → Conversations I → TurnAction I → Bool) (g : Gateway I) :
    GatewayAction I → Bool
  | .on n a => g.turns[n]?.any fun t => ok t.caller g.store a
  | _ => true

/-- A request that has not come has not been seen.  What holds of a request that has just come, is
kept by its own steps that meet a condition, and is not spoilt by what the others do, holds of it in
every run whose steps all meet the condition. -/
theorem turns_served {ok : Caller → Conversations I → TurnAction I → Bool}
    (Inv : Caller → Conversations I → Stage → List TurnEvent → Prop)
    (hinit : ∀ caller s, Inv caller s .ensuring [])
    (hstep : ∀ {caller now s s' stage stage' a tes fs}, Inv caller s stage tes →
      ok caller s a = true → Advances repo settings caller now s stage a stage' s' fs →
      Inv caller s' stage' (tes ++ fs))
    (hgrows : ∀ {caller s s' stage tes}, Grows s s' → Inv caller s stage tes →
      Inv caller s' stage tes)
    {as : List (GatewayAction I)} {g : Gateway I} {es : List GatewayEvent}
    (h : Run (Computes (restrict (Gateway.meets ok) (Gateway.step repo settings))) {} as g es) :
    (∀ n, g.turns.length ≤ n → eventsOf n es = []) ∧
      ∀ n t, g.turns[n]? = some t → Inv t.caller g.store t.stage (eventsOf n es) := by
  let Served (g : Gateway I) (es : List GatewayEvent) : Prop :=
    (∀ n, g.turns.length ≤ n → eventsOf n es = []) ∧
      ∀ n t, g.turns[n]? = some t → Inv t.caller g.store t.stage (eventsOf n es)
  -- A request that comes now has not been seen yet, and changes nothing for the others.
  have harrive : ∀ {g : Gateway I} {es fs caller keys}, Served g es → (∀ n, eventsOf n fs = []) →
      Served { g with keys, turns := g.turns ++ [⟨caller, .ensuring⟩] } (es ++ fs) := by
    intro g es fs caller keys hserved hfs
    constructor
    · intro n hn
      rw [eventsOf_append, hfs, List.append_nil]
      rw [List.length_append] at hn
      exact hserved.1 n (by omega)
    · intro n t ht
      rw [eventsOf_append, hfs, List.append_nil]
      by_cases hlt : n < g.turns.length
      · rw [List.getElem?_append_left hlt] at ht
        exact hserved.2 n t ht
      · have hlen : g.turns.length ≤ n := by omega
        rw [List.getElem?_append_right hlen] at ht
        obtain rfl := List.mem_singleton.mp (List.mem_of_getElem? ht)
        rw [hserved.1 n hlen]
        exact hinit caller g.store
  refine h.invariant_restrict (I := Served) ⟨fun _ _ => rfl, fun n t ht => by simp at ht⟩ ?_
  rintro g es a g' fs hserved hs hok
  cases a with
  | elapse time =>
    unfold Gateway.step at hs
    simp only at hs
    split at hs
    · cases hs
      simpa only [List.append_nil] using hserved
    · cases hs
  | chat surface r depth =>
    unfold Gateway.step at hs
    simp only at hs
    split at hs
    · cases hs
      exact harrive hserved fun _ => rfl
    · cases hs
      have hnone : ∀ n, eventsOf n (es ++ [.refused]) = eventsOf n es := by
        intro n
        rw [eventsOf_append]
        exact List.append_nil _
      exact ⟨fun n hn => (hnone n).trans (hserved.1 n hn), fun n t ht =>
        (hnone n).symm ▸ hserved.2 n t ht⟩
  | voiceToken r =>
    cases hs
    exact harrive hserved fun _ => rfl
  | on m a =>
    obtain ⟨u, hu, hs⟩ := Option.bind_eq_some_iff.mp hs
    obtain ⟨⟨stage, s', fs'⟩, hadvance, heq⟩ := Option.map_eq_some_iff.mp hs
    cases heq
    have hadvances := advances_of_advance hadvance
    have hok' : ok u.caller g.store a = true := by
      simpa [Gateway.meets, hu] using hok
    constructor
    · intro n hn
      rw [List.length_set] at hn
      have hne : m ≠ n := by
        rintro rfl
        rw [List.getElem?_eq_none hn] at hu
        cases hu
      rw [eventsOf_append, eventsOf_on, if_neg hne, List.append_nil]
      exact hserved.1 n hn
    · intro n t ht
      rw [eventsOf_append, eventsOf_on]
      by_cases hne : m = n
      · subst hne
        have hlt := (List.getElem?_eq_some_iff.mp hu).1
        rw [List.getElem?_set_self hlt] at ht
        obtain rfl := Option.some.inj ht
        rw [if_pos rfl]
        exact hstep (hserved.2 m u hu) hok' hadvances
      · rw [List.getElem?_set_ne hne] at ht
        rw [if_neg hne, List.append_nil]
        exact hgrows hadvances.grows (hserved.2 n t ht)

/-- Every run is a run whose steps meet the condition that is always met. -/
theorem run_meets {as : List (GatewayAction I)} {g : Gateway I} {es : List GatewayEvent}
    (h : Run (Computes (Gateway.step repo settings)) {} as g es) :
    Run (Computes (restrict (Gateway.meets fun _ _ _ => true) (Gateway.step repo settings))) {} as
      g es := by
  refine h.mono fun {g a g' fs} hs => restrict_eq_some.mpr ⟨?_, hs⟩
  cases a with
  | on n a =>
    obtain ⟨u, hu, -⟩ := Option.bind_eq_some_iff.mp hs
    simp [Gateway.meets, hu]
  | _ => rfl

/-- Only a request that has come is seen. -/
theorem turn_of_mem {as : List (GatewayAction I)} {g : Gateway I} {es : List GatewayEvent}
    (h : Run (Computes (Gateway.step repo settings)) {} as g es) {n : Nat} {e : TurnEvent}
    (hmem : .on n e ∈ es) : ∃ t, g.turns[n]? = some t := by
  have hnone := (turns_served (fun _ _ _ _ => True) (fun _ _ => trivial)
    (fun _ _ _ => trivial) (fun _ _ => trivial) (run_meets h)).1 n
  by_cases hlt : n < g.turns.length
  · exact ⟨_, List.getElem?_eq_getElem hlt⟩
  · rw [← mem_eventsOf, hnone (by omega)] at hmem
    cases hmem

end

end OmniCare
