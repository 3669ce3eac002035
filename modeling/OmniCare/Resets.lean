import OmniCare.Ownership

/-! # Starting over

`send` and the start of a call ask under the identity and in the conversation that the page holds;
`resetConversation` draws new ones of both.  But a reply is taken up whenever it comes, with the
conversation that it names, also if the page has been reset since it was asked for.

A reset begins a thread, and a reply leads back to the thread in which it was asked for
(`Threads`).  **Two messages are put in one conversation exactly if they are of one thread**
(`conversation_eq_iff`): what is said after a reset stays apart from what was said before as long as
no earlier reply is taken up after it (`apart_of_reset`), and a late reply leads all that follows
back (`late_reply_leads_back`).
-/
namespace OmniCare.Browser

/-! ## The page -/

/-- What `newUserId` draws. -/
abbrev UserId := {t : Text // Trimmed t}

/-- What `newConversationId` draws. -/
abbrev ConversationId := {t : Text // t ≠ [] ∧ Trimmed t}

/-- What is typed comes without a confidence. -/
theorem typed_confidence_ok : ∀ x ∈ (none : Option ℚ), 0 ≤ x ∧ x ≤ 1 := by simp

/-- `USER_ID` and `conversationId`. -/
structure Tab where
  userId : UserId
  conversationId : Option Text := none

namespace Tab

/-- The payload of `send`, as `ChatRequest` reads it. -/
def chatRequest (t : Tab) (message : Text) : Option ChatRequest :=
  if h : isUserId (Text.stripBy isTrimmed t.userId) = true ∧
      (1 ≤ (Text.stripBy isTrimmed message).length ∧
        (Text.stripBy isTrimmed message).length ≤ 4000) ∧
      ∀ c ∈ given t.conversationId, (Text.stripBy isTrimmed c).length ≤ 64 then
    some
      { userId := Text.stripBy isTrimmed t.userId
        message := Text.stripBy isTrimmed message
        conversationId := (given t.conversationId).map (Text.stripBy isTrimmed)
        userId_ok := h.1
        message_ok := h.2.1
        message_trimmed := Text.stripBy_stripBy _ _
        conversationId_ok := by
          intro c hc
          obtain ⟨c, hgiven, rfl⟩ := Option.mem_map.mp hc
          exact ⟨h.2.2 c hgiven, Text.stripBy_stripBy _ _⟩
        sttConfidence_ok := typed_confidence_ok }
  else none

/-- What the start of a call posts, as `VoiceTokenRequest` reads it. -/
def voiceTokenRequest (t : Tab) : Option VoiceTokenRequest :=
  if h : isUserId t.userId = true ∧ ∀ c ∈ given t.conversationId, c.length ≤ 64 then
    some ⟨t.userId, given t.conversationId, h.1, h.2⟩
  else none

end Tab

/-! ## The page and the gateway -/

/-- A page, and the gateway, which it shares with others. -/
structure Site (I : Type) [DecidableEq I] where
  gateway : Gateway I := {}
  tab : Tab
  /-- How often the page has been reset. -/
  resets : Nat := 0
  /-- The requests of the page that have been accepted. -/
  asked : List Nat := []
  /-- The replies on their way to the page: the request, and `conversation_id`. -/
  replies : List (Nat × Text) := []

/-- What happens next. -/
inductive SiteAction (I : Type)
  /-- A request of somebody else comes, or any request goes on. -/
  | gateway (a : GatewayAction I)
  | send (surface : Surface) (message : Text) (depth : Nat)
  /-- A call is started. -/
  | call
  /-- A reply comes: `conversationId` is what it names. -/
  | reply (n : Nat) (conversationId : Text)
  /-- `resetConversation`. -/
  | reset

/-- What can be seen. -/
inductive SiteEvent
  | gateway (e : GatewayEvent)
  /-- A request of the page has been accepted. -/
  | asked (n : Nat)
  | adopted (n : Nat)
  /-- The page has been reset for the `k`-th time. -/
  | reset (k : Nat)

/-- The request is over, and the body of its answer is sent. -/
def isAnswer : TurnEvent → Bool
  | .stored m => m.role = .assistant
  | .minted _ _ => true
  | _ => false

def accepted? : GatewayEvent → Option Nat
  | .accepted n => some n
  | _ => none

section
variable {I : Type} [DecidableEq I]

/-- What is drawn: the identity after `k` resets, and the conversation of the `k`-th.  No two of
either are the same. -/
structure Draws (repo : ConversationRepository I) where
  user : Nat → UserId
  conversation : Nat → ConversationId
  user_injective : Function.Injective user
  conversation_injective : ∀ {j k i}, repo.read (conversation j) = some i →
    repo.read (conversation k) = some i → j = k

/-- The replies to the page that are sent. -/
def Site.sent (s : Site I) (es : List GatewayEvent) : List (Nat × Text) :=
  es.filterMap fun
    | .on n e =>
        if n ∈ s.asked ∧ isAnswer e = true then
          (s.gateway.turns[n]?.bind (·.stage.conversation?)).map (n, ·)
        else none
    | _ => none

/-- The page posts a request. -/
def Site.post (repo : ConversationRepository I) (settings : GatewaySettings) (s : Site I)
    (a : GatewayAction I) : Option (Site I × List SiteEvent) :=
  (s.gateway.step repo settings a).map fun r =>
    ({ s with gateway := r.1, asked := s.asked ++ r.2.filterMap accepted? },
      r.2.map .gateway ++ (r.2.filterMap accepted?).map .asked)

variable {repo : ConversationRepository I} (settings : GatewaySettings) (draws : Draws repo)

/-- One step. -/
def Site.step (s : Site I) : SiteAction I → Option (Site I × List SiteEvent)
  | .gateway a =>
      (s.gateway.step repo settings a).map fun r =>
        ({ s with gateway := r.1, replies := s.replies ++ s.sent r.2 }, r.2.map .gateway)
  | .send surface message depth =>
      match s.tab.chatRequest message with
      | some r => s.post repo settings (.chat surface r depth)
      -- 422
      | none => some (s, [])
  | .call =>
      match s.tab.voiceTokenRequest with
      | some r => s.post repo settings (.voiceToken r)
      | none => some (s, [])
  | .reply n cid =>
      if (n, cid) ∈ s.replies then
        some ({ s with
          tab := { s.tab with conversationId := cid }
          replies := s.replies.erase (n, cid) }, [.adopted n])
      else none
  | .reset =>
      some ({ s with
        tab := ⟨draws.user (s.resets + 1), some (draws.conversation (s.resets + 1)).1⟩
        resets := s.resets + 1 }, [.reset (s.resets + 1)])

/-- A page that has just been loaded. -/
def Site.loaded : Site I := { tab := ⟨draws.user 0, none⟩ }

end

/-! ## Threads -/

/-- The thread that a page is in, by what it has seen, and those of its requests. -/
structure Threads where
  current : Nat := 0
  of : Nat → Option Nat := fun _ => none

def Threads.note (t : Threads) : SiteEvent → Threads
  | .gateway _ => t
  | .asked n => { t with of := Function.update t.of n (some t.current) }
  | .adopted n => { t with current := (t.of n).getD t.current }
  | .reset k => { t with current := k }

def threads (es : List SiteEvent) : Threads := es.foldl Threads.note {}

theorem threads_append (es fs : List SiteEvent) :
    threads (es ++ fs) = fs.foldl Threads.note (threads es) := List.foldl_append

theorem threads_gateway (es : List SiteEvent) (fs : List GatewayEvent) :
    threads (es ++ fs.map .gateway) = threads es := by
  rw [threads_append]
  induction fs with
  | nil => rfl
  | cons f fs ih => exact ih

section
variable {I : Type} [DecidableEq I] {repo : ConversationRepository I} {settings : GatewaySettings}

/-! ## What a step of the gateway can do -/

/-- The request that comes. -/
def caller? : GatewayAction I → Option Caller
  | .chat surface r _ => some (.chat surface r)
  | .voiceToken r => some (.voiceToken r)
  | _ => none

theorem gateway_cases {g g' : Gateway I} {a : GatewayAction I} {fs : List GatewayEvent}
    (h : g.step repo settings a = some (g', fs)) :
    (g'.store = g.store ∧ g'.turns = g.turns ∧ (fs = [] ∨ fs = [.refused])) ∨
      (∃ caller, caller? a = some caller ∧ g'.store = g.store ∧
        g'.turns = g.turns ++ [⟨caller, .ensuring⟩] ∧ fs = [.accepted g.turns.length]) ∨
      ∃ n t b stage tes, a = .on n b ∧ g.turns[n]? = some t ∧
        t.caller.advance repo settings g.now g.store t.stage b = some (stage, g'.store, tes) ∧
        g'.turns = g.turns.set n { t with stage } ∧ fs = tes.map (.on n) := by
  cases a with
  | elapse time =>
    unfold Gateway.step at h
    dsimp only at h
    split at h
    · cases h
      exact .inl ⟨rfl, rfl, .inl rfl⟩
    · cases h
  | chat surface r depth =>
    unfold Gateway.step at h
    dsimp only at h
    split at h
    · cases h
      exact .inr (.inl ⟨_, rfl, rfl, rfl, rfl⟩)
    · cases h
      exact .inl ⟨rfl, rfl, .inr rfl⟩
  | voiceToken r =>
    cases h
    exact .inr (.inl ⟨_, rfl, rfl, rfl, rfl⟩)
  | on n b =>
    obtain ⟨t, ht, h⟩ := Option.bind_eq_some_iff.mp h
    obtain ⟨⟨stage, s', tes⟩, hadvance, heq⟩ := Option.map_eq_some_iff.mp h
    cases heq
    exact .inr (.inr ⟨n, t, b, stage, tes, rfl, ht, hadvance, rfl, rfl⟩)

/-- A conversation that a request makes without naming one has the id that is drawn for it. -/
structure MakesDrawn (repo : ConversationRepository I) : Prop where
  ensure : ∀ {newId now userId c s cid s' i}, given c = none →
    repo.ensure newId now userId c s = .returns cid s' → repo.read cid = some i →
    s.has i = false → i = newId
  insert : ∀ {newId now userId c s cid s' i}, given c = none →
    repo.insert newId now userId c s = some (cid, s') → repo.read cid = some i → i = newId

theorem drawn_of_advance (hmakes : MakesDrawn repo) {caller : Caller} {now : ℚ}
    {s s' : Conversations I} {stage : Stage} {a : TurnAction I} {cid : Text}
    {fs : List TurnEvent} {i : I} (hgiven : given caller.conversationId = none)
    (h : caller.advance repo settings now s stage a = some (.ensured cid, s', fs))
    (hread : repo.read cid = some i) (hnew : s.has i = false) : a = .ensure i ∨ a = .insert i := by
  unfold Caller.advance at h
  split at h
  · split at h
    · cases h
    · split at h
      · rename_i hensure
        cases h
        exact .inl (congrArg _ (hmakes.ensure hgiven hensure hread hnew).symm)
      · cases h
      · cases h
  · split at h
    · cases h
    · split at h
      · rename_i hinsert
        cases h
        exact .inr (congrArg _ (hmakes.insert hgiven hinsert hread).symm)
      · cases h
  all_goals
    repeat' split at h
    all_goals cases h

/-- A step returns from `ensure`, or stays in its conversation. -/
theorem advances_conversation {caller : Caller} {now : ℚ} {s s' : Conversations I}
    {stage stage' : Stage} {a : TurnAction I} {fs : List TurnEvent}
    (h : Advances repo settings caller now s stage a stage' s' fs) :
    (∃ cid i, stage' = .ensured cid ∧ fs = [.ensured cid] ∧ repo.read cid = some i ∧
      Opened repo.read s caller.userId caller.conversationId i s') ∨
      (∀ i, s'.owner? i = s.owner? i) ∧ (∀ cid, .ensured cid ∉ fs) ∧
        ∀ cid ∈ stage'.conversation?, cid ∈ stage.conversation? := by
  cases h with
  | opened _ hread hopened => exact .inl ⟨_, _, rfl, rfl, hread, hopened⟩
  | enqueued _ hbefore =>
    refine .inr ⟨fun _ => rfl, by simp, ?_⟩
    rcases hbefore with rfl | ⟨rfl, -⟩
    · exact fun _ => id
    · exact fun _ => id
  | forwarded =>
    refine .inr ⟨fun _ => rfl, by simp, ?_⟩
    split
    · exact fun _ h => (Option.not_mem_none _ h).elim
    · exact fun _ => id
  | asked => exact .inr ⟨fun _ => s.owner?_post .., by simp, fun _ => id⟩
  | answered => exact .inr ⟨fun _ => s.owner?_post .., by simp, by simp [Stage.conversation?]⟩
  | _ => exact .inr ⟨fun _ => rfl, by simp, by simp [Stage.conversation?]⟩

/-! ## Whose the conversations are -/

variable (draws : Draws repo)

/-- The conversations that are drawn for the page belong to its identities. -/
def OwnDraws (s : Conversations I) : Prop :=
  ∀ {k i v}, repo.read (draws.conversation k) = some i → s.owner? i = some v → v = draws.user k

/-- A conversation of the thread `k`. -/
structure Lands (s : Conversations I) (cid : Text) (k : Nat) : Prop where
  owner : ownerOf repo s cid = some (draws.user k).1
  drawn : 1 ≤ k → repo.read cid = repo.read (draws.conversation k)

/-- A request is meant for the thread `k`: it names a conversation of the thread, or the one that
has been drawn for it, or it names none, before the first reset. -/
inductive Meant (s : Conversations I) (userId : Text) (c : Option Text) (k : Nat) : Prop
  | known {cid : Text} (hgiven : given c = some cid) (hlands : Lands draws s cid k)
  | drawn (hgiven : given c = some (draws.conversation k).1) (huser : userId = draws.user k)
      (hk : 1 ≤ k)
  | unnamed (hgiven : given c = none) (huser : userId = draws.user 0) (hk : k = 0)

/-- A request of somebody else names no conversation that is drawn for the page. -/
def NamesNone (c : Option Text) : Prop :=
  ∀ cid ∈ given c, ∀ i ∈ repo.read cid, ∀ k, repo.read (draws.conversation k) ≠ some i

/-- What the others name and draw is not what is drawn for the page, and the ids of conversations
have no blanks around them. -/
def SiteAction.Apart : SiteAction I → Prop
  | .gateway (.on _ (.ensure newId)) | .gateway (.on _ (.insert newId)) =>
      ∀ k, repo.read (draws.conversation k) ≠ some newId
  | .gateway a => ∀ caller ∈ caller? a, NamesNone draws caller.conversationId
  | .reply _ cid => Trimmed cid
  | _ => True

variable {draws}

theorem Lands.grows {s s' : Conversations I} (hgrows : Grows s s') {cid : Text} {k : Nat}
    (h : Lands draws s cid k) : Lands draws s' cid k :=
  ⟨ownerOf_grows hgrows h.owner, h.drawn⟩

theorem Meant.grows {s s' : Conversations I} (hgrows : Grows s s') {userId : Text}
    {c : Option Text} {k : Nat} (h : Meant draws s userId c k) : Meant draws s' userId c k := by
  cases h with
  | known hgiven hlands => exact .known hgiven (hlands.grows hgrows)
  | drawn hgiven huser hk => exact .drawn hgiven huser hk
  | unnamed hgiven huser hk => exact .unnamed hgiven huser hk

/-- Conversations of one thread only are of one thread. -/
theorem Lands.unique {s : Conversations I} {cid cid' : Text} {j k : Nat}
    (h : Lands draws s cid j) (h' : Lands draws s cid' k)
    (heq : repo.read cid = repo.read cid') : j = k := by
  have howner := h.owner
  rw [ownerOf, heq, ← ownerOf, h'.owner] at howner
  exact draws.user_injective (Subtype.ext (Option.some.inj howner).symm)

theorem ownDraws_made {s s' : Conversations I} {userId : Text} {i : I} (h : OwnDraws draws s)
    (howner : ∀ j, s'.owner? j = if j = i then some userId else s.owner? j)
    (hi : ∀ k, repo.read (draws.conversation k) = some i → userId = draws.user k) :
    OwnDraws draws s' := by
  intro k j v hread hj
  rw [howner] at hj
  split at hj
  · rename_i heq
    cases hj
    exact hi k (heq ▸ hread)
  · exact h hread hj

/-- A request of somebody else leaves the drawn conversations alone. -/
theorem ownDraws_opened {s s' : Conversations I} {userId : Text} {c : Option Text} {i : I}
    (h : Opened repo.read s userId c i s') (hown : OwnDraws draws s)
    (hnames : NamesNone draws c)
    (hdrawn : given c = none → s.has i = false →
      ∀ k, repo.read (draws.conversation k) ≠ some i) : OwnDraws draws s' := by
  cases h with
  | named => exact hown
  | found => exact hown
  | made hread hnew howner =>
    refine ownDraws_made hown howner fun k hk => absurd hk ?_
    cases hgiven : given c with
    | none => exact hdrawn hgiven hnew k
    | some cid => exact hnames cid hgiven i (hread cid hgiven) k

/-- A request of the page comes to a conversation of its thread. -/
theorem lands_opened {s s' : Conversations I} {userId : Text} {c : Option Text} {i : I} {k : Nat}
    (h : Opened repo.read s userId c i s') (hown : OwnDraws draws s)
    (hmeant : Meant draws s userId c k)
    (hdrawn : given c = none → s.has i = false →
      ∀ k, repo.read (draws.conversation k) ≠ some i)
    {cid : Text} (hcid : repo.read cid = some i) :
    OwnDraws draws s' ∧ Lands draws s' cid k := by
  cases h with
  | named hgiven hread hhas =>
    refine ⟨hown, ?_⟩
    cases hmeant with
    | known hgiven' hlands =>
      obtain rfl := Option.some.inj (hgiven.symm.trans hgiven')
      have hsame : repo.read cid = repo.read _ := hcid.trans hread.symm
      exact ⟨by rw [ownerOf, hsame]; exact hlands.owner, fun hk => hsame.trans (hlands.drawn hk)⟩
    | drawn hgiven' =>
      obtain rfl := Option.some.inj (hgiven.symm.trans hgiven')
      obtain ⟨v, hv⟩ := Option.isSome_iff_exists.mp (s.has_eq_isSome i ▸ hhas)
      refine ⟨?_, fun _ => hcid.trans hread.symm⟩
      rw [ownerOf, hcid, Option.bind_some, hv, hown hread hv]
    | unnamed hgiven' => rw [hgiven] at hgiven'; cases hgiven'
  | found hgiven howner =>
    refine ⟨hown, ?_⟩
    cases hmeant with
    | known hgiven' => rw [hgiven] at hgiven'; cases hgiven'
    | drawn hgiven' => rw [hgiven] at hgiven'; cases hgiven'
    | unnamed _ huser hk =>
      subst hk
      exact ⟨by rw [ownerOf, hcid, Option.bind_some, howner, huser], fun h => absurd h (by decide)⟩
  | made hread hnew howner =>
    have hmade : ownerOf repo s' cid = some userId := by
      rw [ownerOf, hcid, Option.bind_some, howner, if_pos rfl]
    cases hmeant with
    | known hgiven hlands =>
      -- The conversation is known, and so it is not made.
      have howned := hlands.owner
      rw [ownerOf, hread _ hgiven, Option.bind_some] at howned
      rw [s.has_of_owner? howned] at hnew
      cases hnew
    | drawn hgiven huser =>
      have hconversation := hread _ hgiven
      refine ⟨ownDraws_made hown howner fun j hj => ?_, huser ▸ hmade,
        fun _ => hcid.trans hconversation.symm⟩
      rw [huser, draws.conversation_injective hj hconversation]
    | unnamed hgiven huser hk =>
      subst hk
      exact ⟨ownDraws_made hown howner fun j hj => absurd hj (hdrawn hgiven hnew j),
        huser ▸ hmade, fun h => absurd h (by decide)⟩

/-! ## Runs -/

variable (draws) in
/-- A request, in the thread in which it was asked for if it is one of the page's. -/
def Asked (s : Conversations I) (t : Turn) : Option Nat → Prop
  | some k =>
      Meant draws s t.caller.userId t.caller.conversationId k ∧
        ∀ cid ∈ t.stage.conversation?, Lands draws s cid k
  | none => NamesNone draws t.caller.conversationId

variable (draws) in
/-- The page is in the thread that its events say, and so are its requests and their replies. -/
structure Follows (s : Site I) (es : List SiteEvent) : Prop where
  own : OwnDraws draws s.gateway.store
  tab : Meant draws s.gateway.store s.tab.userId s.tab.conversationId (threads es).current
  current_le : (threads es).current ≤ s.resets
  of_le : ∀ n k, (threads es).of n = some k → k ≤ s.resets
  trimmed : ∀ c ∈ given s.tab.conversationId, Trimmed c
  turns : ∀ n t, s.gateway.turns[n]? = some t → Asked draws s.gateway.store t ((threads es).of n)
  asked : ∀ n, n ∈ s.asked → ((threads es).of n).isSome = true
  came : ∀ n k, (threads es).of n = some k → n < s.gateway.turns.length
  seen : ∀ n e, .gateway (.on n e) ∈ es → n < s.gateway.turns.length
  ensured : ∀ n k cid, (threads es).of n = some k → .gateway (.on n (.ensured cid)) ∈ es →
    Lands draws s.gateway.store cid k
  replies : ∀ n cid, (n, cid) ∈ s.replies →
    ∃ k, (threads es).of n = some k ∧ Lands draws s.gateway.store cid k

theorem asked_grows {s s' : Conversations I} (hgrows : Grows s s') {t : Turn} {k : Option Nat}
    (h : Asked draws s t k) : Asked draws s' t k := by
  cases k with
  | none => exact h
  | some k => exact ⟨h.1.grows hgrows, fun cid hcid => (h.2 cid hcid).grows hgrows⟩

/-- One step of a request. -/
theorem asked_advance (hmakes : MakesDrawn repo) {t : Turn} {now : ℚ} {s s' : Conversations I}
    {stage : Stage} {a : TurnAction I} {fs : List TurnEvent} {k : Option Nat}
    (hadvance : t.caller.advance repo settings now s t.stage a = some (stage, s', fs))
    (hnew : ∀ i, a = .ensure i ∨ a = .insert i →
      ∀ k, repo.read (draws.conversation k) ≠ some i)
    (hown : OwnDraws draws s) (h : Asked draws s t k) :
    OwnDraws draws s' ∧ Asked draws s' { t with stage } k ∧
      ∀ j cid, k = some j → .ensured cid ∈ fs → Lands draws s' cid j := by
  have hadvances := advances_of_advance hadvance
  rcases advances_conversation hadvances with ⟨cid, i, rfl, rfl, hread, hopened⟩ |
    ⟨howner, hno, hat⟩
  · have hdrawn : given t.caller.conversationId = none → s.has i = false →
        ∀ k, repo.read (draws.conversation k) ≠ some i := fun hgiven hmissing =>
      hnew i (drawn_of_advance hmakes hgiven hadvance hread hmissing)
    cases k with
    | none => exact ⟨ownDraws_opened hopened hown h hdrawn, h, by simp⟩
    | some k =>
      obtain ⟨hown', hlands⟩ := lands_opened hopened hown h.1 hdrawn hread
      refine ⟨hown', ⟨h.1.grows hadvances.grows, ?_⟩, ?_⟩
      · rintro _ ⟨⟩
        exact hlands
      · rintro j cid' ⟨⟩ hmem
        cases List.mem_singleton.mp hmem
        exact hlands
  · refine ⟨fun hk hv => hown hk (howner _ ▸ hv), ?_, fun j cid _ hmem => absurd hmem (hno cid)⟩
    have hgrown := asked_grows hadvances.grows h
    cases k with
    | none => exact hgrown
    | some k => exact ⟨hgrown.1, fun cid hcid => hgrown.2 cid (hat cid hcid)⟩

namespace Follows

/-- Nothing has happened that matters. -/
theorem quiet {s : Site I} {es : List SiteEvent} (h : Follows draws s es) {g : Gateway I}
    {fs : List GatewayEvent} (hstore : g.store = s.gateway.store)
    (hturns : g.turns = s.gateway.turns) (hfs : fs = [] ∨ fs = [.refused]) :
    Follows draws { s with gateway := g } (es ++ fs.map .gateway) := by
  have hon : ∀ n e, .gateway (.on n e) ∈ es ++ fs.map SiteEvent.gateway →
      .gateway (.on n e) ∈ es := by
    intro n e hmem
    rcases hfs with rfl | rfl
    · simpa using hmem
    · simpa using hmem
  constructor
  all_goals simp only [threads_gateway, hstore, hturns]
  · exact h.own
  · exact h.tab
  · exact h.current_le
  · exact h.of_le
  · exact h.trimmed
  · exact h.turns
  · exact h.asked
  · exact h.came
  · exact fun n e hmem => h.seen n e (hon n e hmem)
  · exact fun n k cid hk hmem => h.ensured n k cid hk (hon n _ hmem)
  · exact h.replies

/-- A request of somebody else comes. -/
theorem arrive {s : Site I} {es : List SiteEvent} (h : Follows draws s es) {g : Gateway I}
    {caller : Caller} (hnames : NamesNone draws caller.conversationId)
    (hstore : g.store = s.gateway.store)
    (hturns : g.turns = s.gateway.turns ++ [⟨caller, .ensuring⟩]) :
    Follows draws { s with gateway := g }
      (es ++ [GatewayEvent.accepted s.gateway.turns.length].map .gateway) := by
  have hon : ∀ n e, .gateway (.on n e) ∈
      es ++ [GatewayEvent.accepted s.gateway.turns.length].map SiteEvent.gateway →
        .gateway (.on n e) ∈ es := fun n e hmem => by simpa using hmem
  have hlength : g.turns.length = s.gateway.turns.length + 1 := by
    rw [hturns, List.length_append]
    rfl
  constructor
  all_goals simp only [threads_gateway, hstore]
  · exact h.own
  · exact h.tab
  · exact h.current_le
  · exact h.of_le
  · exact h.trimmed
  · intro n t ht
    rw [hturns, List.getElem?_append] at ht
    split at ht
    · exact h.turns n t ht
    · rename_i hlen
      have hnone : (threads es).of n = none := by
        rw [← Option.not_isSome_iff_eq_none, Option.isSome_iff_exists]
        exact fun ⟨k, hk⟩ => hlen (h.came n k hk)
      obtain rfl := List.mem_singleton.mp (List.mem_of_getElem? ht)
      rw [hnone]
      exact hnames
  · exact h.asked
  · exact fun n k hk => hlength ▸ Nat.lt_succ_of_lt (h.came n k hk)
  · exact fun n e hmem => hlength ▸ Nat.lt_succ_of_lt (h.seen n e (hon n e hmem))
  · exact fun n k cid hk hmem => h.ensured n k cid hk (hon n _ hmem)
  · exact h.replies

/-- A request of the page comes. -/
theorem ask {s : Site I} {es : List SiteEvent} (h : Follows draws s es) {g : Gateway I}
    {caller : Caller} (huser : caller.userId = s.tab.userId)
    (hconversation : given caller.conversationId = given s.tab.conversationId)
    (hstore : g.store = s.gateway.store)
    (hturns : g.turns = s.gateway.turns ++ [⟨caller, .ensuring⟩]) :
    Follows draws
      { s with gateway := g, asked := s.asked ++ [s.gateway.turns.length] }
      (es ++ [.gateway (.accepted s.gateway.turns.length), .asked s.gateway.turns.length]) := by
  have hthreads : threads
      (es ++ [.gateway (.accepted s.gateway.turns.length), .asked s.gateway.turns.length]) =
        { threads es with
          of := Function.update (threads es).of s.gateway.turns.length
            (some (threads es).current) } := threads_append es _
  have hof : ∀ n ≠ s.gateway.turns.length, Function.update (threads es).of s.gateway.turns.length
      (some (threads es).current) n = (threads es).of n := fun n hn => Function.update_of_ne hn _ _
  have hon : ∀ n e, .gateway (.on n e) ∈ es ++
      [.gateway (.accepted s.gateway.turns.length), .asked s.gateway.turns.length] →
        .gateway (.on n e) ∈ es := fun n e hmem => by simpa using hmem
  have hlength : g.turns.length = s.gateway.turns.length + 1 := by
    rw [hturns, List.length_append]
    rfl
  have hmeant : Meant draws s.gateway.store caller.userId caller.conversationId
      (threads es).current := by
    cases h.tab with
    | known hgiven hlands => exact .known (hconversation.trans hgiven) hlands
    | drawn hgiven hu hk => exact .drawn (hconversation.trans hgiven) (huser.trans hu) hk
    | unnamed hgiven hu hk => exact .unnamed (hconversation.trans hgiven) (huser.trans hu) hk
  constructor
  all_goals simp only [hthreads, hstore]
  · exact h.own
  · exact h.tab
  · exact h.current_le
  · intro n k hk
    by_cases heq : n = s.gateway.turns.length
    · rw [heq, Function.update_self] at hk
      exact Option.some.inj hk ▸ h.current_le
    · rw [hof n heq] at hk
      exact h.of_le n k hk
  · exact h.trimmed
  · intro n t ht
    rw [hturns, List.getElem?_append] at ht
    split at ht
    · rename_i hlt
      rw [hof n hlt.ne]
      exact h.turns n t ht
    · rename_i hlen
      have hn := (List.getElem?_eq_some_iff.mp ht).1
      obtain rfl : n = s.gateway.turns.length := by
        rw [List.length_singleton] at hn
        omega
      obtain rfl := List.mem_singleton.mp (List.mem_of_getElem? ht)
      rw [Function.update_self]
      exact ⟨hmeant, fun cid hcid => (Option.not_mem_none _ hcid).elim⟩
  · intro n hn
    by_cases heq : n = s.gateway.turns.length
    · rw [heq, Function.update_self]
      rfl
    · rw [hof n heq]
      rcases List.mem_append.mp hn with hn | hn
      · exact h.asked n hn
      · exact absurd (List.mem_singleton.mp hn) heq
  · intro n k hk
    rw [hlength]
    by_cases heq : n = s.gateway.turns.length
    · omega
    · rw [hof n heq] at hk
      exact Nat.lt_succ_of_lt (h.came n k hk)
  · exact fun n e hmem => hlength ▸ Nat.lt_succ_of_lt (h.seen n e (hon n e hmem))
  · intro n k cid hk hmem
    have hlt := h.seen n _ (hon n _ hmem)
    rw [hof n hlt.ne] at hk
    exact h.ensured n k cid hk (hon n _ hmem)
  · intro n cid hmem
    obtain ⟨k, hk, hlands⟩ := h.replies n cid hmem
    exact ⟨k, (hof n (h.came n k hk).ne).trans hk, hlands⟩

/-- A request goes on. -/
theorem advance (hmakes : MakesDrawn repo) {s : Site I} {es : List SiteEvent}
    (h : Follows draws s es) {g : Gateway I} {n : Nat} {t : Turn} {b : TurnAction I}
    {stage : Stage} {tes : List TurnEvent} (ht : s.gateway.turns[n]? = some t)
    (hadvance : t.caller.advance repo settings s.gateway.now s.gateway.store t.stage b =
      some (stage, g.store, tes))
    (hnew : ∀ i, b = .ensure i ∨ b = .insert i →
      ∀ k, repo.read (draws.conversation k) ≠ some i)
    (hturns : g.turns = s.gateway.turns.set n { t with stage }) :
    Follows draws
      { s with gateway := g, replies := s.replies ++ s.sent (tes.map (.on n)) }
      (es ++ (tes.map (.on n)).map .gateway) := by
  have hgrows := (advances_of_advance hadvance).grows
  obtain ⟨hown, hasked, hensured⟩ :=
    asked_advance hmakes hadvance hnew h.own (h.turns n t ht)
  have hlt := (List.getElem?_eq_some_iff.mp ht).1
  have hlength : g.turns.length = s.gateway.turns.length := by rw [hturns, List.length_set]
  have hmem_on : ∀ m e, .gateway (.on m e) ∈
      es ++ (tes.map (GatewayEvent.on n)).map SiteEvent.gateway →
        .gateway (.on m e) ∈ es ∨ m = n ∧ e ∈ tes := by
    intro m e hmem
    rcases List.mem_append.mp hmem with hmem | hmem
    · exact .inl hmem
    · simp only [List.map_map, List.mem_map, Function.comp_apply, SiteEvent.gateway.injEq,
        GatewayEvent.on.injEq] at hmem
      obtain ⟨_, he, rfl, rfl⟩ := hmem
      exact .inr ⟨rfl, he⟩
  constructor
  all_goals simp only [threads_gateway, hlength]
  · exact hown
  · exact h.tab.grows hgrows
  · exact h.current_le
  · exact h.of_le
  · exact h.trimmed
  · intro m u hu
    rw [hturns] at hu
    by_cases heq : n = m
    · subst heq
      rw [List.getElem?_set_self hlt] at hu
      obtain rfl := Option.some.inj hu
      exact hasked
    · rw [List.getElem?_set_ne heq] at hu
      exact asked_grows hgrows (h.turns m u hu)
  · exact h.asked
  · exact h.came
  · intro m e hmem
    rcases hmem_on m e hmem with hmem | ⟨rfl, -⟩
    · exact h.seen m e hmem
    · exact hlt
  · intro m k cid hk hmem
    rcases hmem_on m _ hmem with hbefore | ⟨rfl, hnow⟩
    · exact (h.ensured m k cid hk hbefore).grows hgrows
    · exact hensured k cid hk hnow
  · intro m cid hmem
    rcases List.mem_append.mp hmem with hmem | hmem
    · obtain ⟨k, hk, hlands⟩ := h.replies m cid hmem
      exact ⟨k, hk, hlands.grows hgrows⟩
    · obtain ⟨e, he, heq⟩ := List.mem_filterMap.mp hmem
      obtain ⟨e, -, rfl⟩ := List.mem_map.mp he
      simp only [Option.ite_none_right_eq_some, ht, Option.bind_some, Option.map_eq_some_iff,
        Prod.mk.injEq] at heq
      obtain ⟨⟨hmine, -⟩, cid, hcid, rfl, rfl⟩ := heq
      obtain ⟨k, hk⟩ := Option.isSome_iff_exists.mp (h.asked n hmine)
      have hthread := h.turns n t ht
      rw [hk] at hthread
      exact ⟨k, hk, (hthread.2 cid hcid).grows hgrows⟩

/-- A reply comes. -/
theorem reply {s : Site I} {es : List SiteEvent} (h : Follows draws s es) {n : Nat} {cid : Text}
    (hmem : (n, cid) ∈ s.replies) (htrimmed : Trimmed cid) :
    Follows draws
      { s with
        tab := { s.tab with conversationId := cid }
        replies := s.replies.erase (n, cid) }
      (es ++ [.adopted n]) := by
  obtain ⟨k, hk, hlands⟩ := h.replies n cid hmem
  have hthreads : threads (es ++ [.adopted n]) = { threads es with current := k } := by
    rw [threads_append]
    show ({ threads es with current := ((threads es).of n).getD _ } : Threads) = _
    rw [hk, Option.getD_some]
  have hgiven : given (some cid) = some cid := by
    have hne := ne_nil_of_ownerOf hlands.owner
    simpa [given] using hne
  have hon : ∀ m e, .gateway (.on m e) ∈ es ++ [SiteEvent.adopted n] → .gateway (.on m e) ∈ es :=
    fun m e hmem => by simpa using hmem
  constructor
  all_goals simp only [hthreads]
  · exact h.own
  · exact .known hgiven hlands
  · exact h.of_le n k hk
  · exact h.of_le
  · intro c hc
    rw [hgiven] at hc
    obtain rfl := Option.some.inj hc
    exact htrimmed
  · exact h.turns
  · exact h.asked
  · exact h.came
  · exact fun m e hmem => h.seen m e (hon m e hmem)
  · exact fun m j c hj hmem => h.ensured m j c hj (hon m _ hmem)
  · exact fun m c hmem => h.replies m c (List.mem_of_mem_erase hmem)

/-- The page is reset. -/
theorem reset {s : Site I} {es : List SiteEvent} (h : Follows draws s es) :
    Follows draws
      { s with
        tab := ⟨draws.user (s.resets + 1), some (draws.conversation (s.resets + 1)).1⟩
        resets := s.resets + 1 }
      (es ++ [.reset (s.resets + 1)]) := by
  have hthreads : threads (es ++ [.reset (s.resets + 1)]) =
      { threads es with current := s.resets + 1 } := threads_append es _
  have hgiven : given (some (draws.conversation (s.resets + 1)).1) =
      some (draws.conversation (s.resets + 1)).1 := by
    simpa [given] using (draws.conversation (s.resets + 1)).2.1
  have hon : ∀ m e, .gateway (.on m e) ∈ es ++ [SiteEvent.reset (s.resets + 1)] →
      .gateway (.on m e) ∈ es := fun m e hmem => by simpa using hmem
  constructor
  all_goals simp only [hthreads]
  · exact h.own
  · exact .drawn hgiven rfl (Nat.le_add_left 1 _)
  · exact Nat.le_refl _
  · exact fun n k hk => Nat.le_succ_of_le (h.of_le n k hk)
  · intro c hc
    rw [hgiven] at hc
    obtain rfl := Option.some.inj hc
    exact (draws.conversation (s.resets + 1)).2.2
  · exact h.turns
  · exact h.asked
  · exact h.came
  · exact fun m e hmem => h.seen m e (hon m e hmem)
  · exact fun m j c hj hmem => h.ensured m j c hj (hon m _ hmem)
  · exact h.replies

end Follows

theorem userId_chatRequest {t : Tab} {message : Text} {r : ChatRequest}
    (h : t.chatRequest message = some r) : r.userId = t.userId := by
  obtain ⟨_, heq⟩ := Option.dite_none_right_eq_some.mp h
  exact (Option.some.inj heq) ▸ t.userId.2

theorem given_given (c : Option Text) : given (given c) = given c := by
  unfold given
  rw [Option.filter_filter]
  simp

theorem given_chatRequest {t : Tab} {message : Text} {r : ChatRequest}
    (htrimmed : ∀ c ∈ given t.conversationId, Trimmed c) (h : t.chatRequest message = some r) :
    given r.conversationId = given t.conversationId := by
  obtain ⟨_, heq⟩ := Option.dite_none_right_eq_some.mp h
  have hmap : (given t.conversationId).map (Text.stripBy isTrimmed) = given t.conversationId := by
    cases hgiven : given t.conversationId with
    | none => rfl
    | some c => exact congrArg some (htrimmed c hgiven)
  rw [← Option.some.inj heq]
  show given ((given t.conversationId).map _) = _
  rw [hmap, given_given]

theorem follows_post {s s' : Site I} {es fs : List SiteEvent} {a : GatewayAction I}
    {caller : Caller} (hcaller : caller? a = some caller) (h : Follows draws s es)
    (huser : caller.userId = s.tab.userId)
    (hconversation : given caller.conversationId = given s.tab.conversationId)
    (hs : s.post repo settings a = some (s', fs)) : Follows draws s' (es ++ fs) := by
  obtain ⟨⟨g, gs⟩, hg, heq⟩ := Option.map_eq_some_iff.mp hs
  cases heq
  rcases gateway_cases hg with ⟨hstore, hturns, hgs⟩ | ⟨c, hc, hstore, hturns, rfl⟩ |
    ⟨n, _, b, _, _, rfl, _⟩
  · have hnone : gs.filterMap accepted? = [] := by
      rcases hgs with rfl | rfl
      · rfl
      · rfl
    rw [hnone, List.map_nil, List.append_nil, List.append_nil]
    exact h.quiet hstore hturns hgs
  · obtain rfl := Option.some.inj (hc.symm.trans hcaller)
    exact h.ask huser hconversation hstore hturns
  · cases hcaller

/-- One step. -/
theorem follows_step (hmakes : MakesDrawn repo) {s s' : Site I} {es fs : List SiteEvent}
    {a : SiteAction I} (hapart : a.Apart draws) (h : Follows draws s es)
    (hs : s.step settings draws a = some (s', fs)) : Follows draws s' (es ++ fs) := by
  cases a with
  | gateway a =>
    obtain ⟨⟨g, gs⟩, hg, heq⟩ := Option.map_eq_some_iff.mp hs
    cases heq
    rcases gateway_cases hg with ⟨hstore, hturns, hgs⟩ | ⟨caller, hcaller, hstore, hturns, rfl⟩ |
      ⟨n, t, b, stage, tes, rfl, ht, hadvance, hturns, rfl⟩
    · have hsent : s.sent gs = [] := by
        rcases hgs with rfl | rfl
        · rfl
        · rfl
      rw [hsent, List.append_nil]
      exact h.quiet hstore hturns hgs
    · have hnames : NamesNone draws caller.conversationId := by
        cases a with
        | on n b => cases hcaller
        | _ => exact hapart _ hcaller
      rw [Site.sent, List.filterMap_cons_none rfl, List.filterMap_nil, List.append_nil]
      exact h.arrive hnames hstore hturns
    · refine h.advance hmakes ht hadvance ?_ hturns
      rintro i (rfl | rfl)
      · exact hapart
      · exact hapart
  | send surface message depth =>
    unfold Site.step at hs
    dsimp only at hs
    split at hs
    · rename_i r hr
      have hcaller : caller? (.chat surface r depth : GatewayAction I) =
          some (.chat surface r) := rfl
      exact follows_post hcaller h (userId_chatRequest hr) (given_chatRequest h.trimmed hr) hs
    · cases hs
      rwa [List.append_nil]
  | call =>
    unfold Site.step at hs
    dsimp only at hs
    split at hs
    · rename_i r hr
      obtain ⟨_, heq⟩ := Option.dite_none_right_eq_some.mp hr
      have hcaller : caller? (.voiceToken r : GatewayAction I) = some (.voiceToken r) := rfl
      obtain rfl := Option.some.inj heq
      exact follows_post hcaller h rfl (given_given _) hs
    · cases hs
      rwa [List.append_nil]
  | reply n cid =>
    obtain ⟨hmem, heq⟩ := Option.ite_none_right_eq_some.mp hs
    cases heq
    exact h.reply hmem hapart
  | reset =>
    cases hs
    exact h.reset

theorem follows_loaded : Follows draws (Site.loaded draws) [] where
  own _ h := by cases h
  tab := .unnamed rfl rfl rfl
  current_le := Nat.le_refl _
  of_le _ _ h := by cases h
  trimmed _ h := by cases h
  turns _ _ h := by simp [Site.loaded] at h
  asked _ h := by cases h
  came _ _ h := by cases h
  seen _ _ h := by cases h
  ensured _ _ _ h := by cases h
  replies _ _ h := by cases h

/-- What a run of the page and the gateway keeps. -/
theorem follows (hmakes : MakesDrawn repo) {as : List (SiteAction I)} {s : Site I}
    {es : List SiteEvent} (hapart : ∀ a ∈ as, a.Apart draws)
    (h : Run (Computes (Site.step settings draws)) (Site.loaded draws) as s es) :
    Follows draws s es := by
  induction h with
  | initial => exact follows_loaded
  | step _ hs ih =>
    exact follows_step hmakes (hapart _ (List.mem_append_right _ (List.mem_singleton_self _)))
      (ih fun a ha => hapart a (List.mem_append_left _ ha)) hs

/-- **Two messages are put in one conversation exactly if they are of one thread**, once the page
has been reset. -/
theorem conversation_eq_iff (hmakes : MakesDrawn repo) {as : List (SiteAction I)} {s : Site I}
    {es : List SiteEvent} (hapart : ∀ a ∈ as, a.Apart draws)
    (h : Run (Computes (Site.step settings draws)) (Site.loaded draws) as s es)
    {m n j k : Nat} {cid cid' : Text} (hm : (threads es).of m = some j)
    (hn : (threads es).of n = some k) (hcid : .gateway (.on m (.ensured cid)) ∈ es)
    (hcid' : .gateway (.on n (.ensured cid')) ∈ es) (hj : 1 ≤ j) :
    repo.read cid = repo.read cid' ↔ j = k := by
  have hfollows := follows hmakes hapart h
  have hlands := hfollows.ensured m j cid hm hcid
  have hlands' := hfollows.ensured n k cid' hn hcid'
  constructor
  · exact hlands.unique hlands'
  · rintro rfl
    rw [hlands.drawn hj, hlands'.drawn hj]

/-! ## A reset -/

/-- Requests are numbered as they come, and resets are counted. -/
theorem later_step {s s' : Site I} {a : SiteAction I} {fs : List SiteEvent}
    (hs : s.step settings draws a = some (s', fs)) :
    s.gateway.turns.length ≤ s'.gateway.turns.length ∧ s.resets ≤ s'.resets ∧
      (∀ p, .asked p ∈ fs → s.gateway.turns.length ≤ p) ∧ ∀ k, .reset k ∈ fs → s.resets < k := by
  have hgateway : ∀ {b : GatewayAction I} {g : Gateway I} {gs : List GatewayEvent},
      s.gateway.step repo settings b = some (g, gs) →
        s.gateway.turns.length ≤ g.turns.length ∧
          ∀ p ∈ gs.filterMap accepted?, s.gateway.turns.length ≤ p := by
    intro b g gs hg
    rcases gateway_cases hg with ⟨-, hturns, hgs⟩ | ⟨caller, -, -, hturns, rfl⟩ |
      ⟨n, t, _, stage, tes, -, -, -, hturns, rfl⟩
    · rcases hgs with rfl | rfl
      · exact ⟨hturns ▸ Nat.le_refl _, by simp⟩
      · exact ⟨hturns ▸ Nat.le_refl _, by simp [accepted?]⟩
    · exact ⟨by simp [hturns], by simp [accepted?]⟩
    · exact ⟨by simp [hturns], by simp [accepted?]⟩
  have hpost : ∀ {b : GatewayAction I}, s.post repo settings b = some (s', fs) →
      s.gateway.turns.length ≤ s'.gateway.turns.length ∧ s.resets ≤ s'.resets ∧
        (∀ p, .asked p ∈ fs → s.gateway.turns.length ≤ p) ∧
          ∀ k, .reset k ∈ fs → s.resets < k := by
    intro b hb
    obtain ⟨⟨g, gs⟩, hg, heq⟩ := Option.map_eq_some_iff.mp hb
    cases heq
    obtain ⟨hlength, haccepted⟩ := hgateway hg
    refine ⟨hlength, Nat.le_refl _, fun p hp => haccepted p ?_, fun k hk => by simp at hk⟩
    simpa using hp
  cases a with
  | gateway a =>
    obtain ⟨⟨g, gs⟩, hg, heq⟩ := Option.map_eq_some_iff.mp hs
    cases heq
    exact ⟨(hgateway hg).1, Nat.le_refl _, fun p hp => by simp at hp, fun k hk => by simp at hk⟩
  | send surface message depth =>
    unfold Site.step at hs
    dsimp only at hs
    split at hs
    · exact hpost hs
    · cases hs
      exact ⟨Nat.le_refl _, Nat.le_refl _, by simp, by simp⟩
  | call =>
    unfold Site.step at hs
    dsimp only at hs
    split at hs
    · exact hpost hs
    · cases hs
      exact ⟨Nat.le_refl _, Nat.le_refl _, by simp, by simp⟩
  | reply n cid =>
    obtain ⟨-, heq⟩ := Option.ite_none_right_eq_some.mp hs
    cases heq
    exact ⟨Nat.le_refl _, Nat.le_refl _, by simp, by simp⟩
  | reset =>
    cases hs
    exact ⟨Nat.le_refl _, Nat.le_succ _, by simp, by simp⟩

theorem later {s t : Site I} {as : List (SiteAction I)} {es : List SiteEvent}
    (h : Run (Computes (Site.step settings draws)) s as t es) :
    s.gateway.turns.length ≤ t.gateway.turns.length ∧ s.resets ≤ t.resets ∧
      (∀ p, .asked p ∈ es → s.gateway.turns.length ≤ p) ∧ ∀ k, .reset k ∈ es → s.resets < k := by
  refine h.invariant (I := fun t es =>
    s.gateway.turns.length ≤ t.gateway.turns.length ∧ s.resets ≤ t.resets ∧
      (∀ p, .asked p ∈ es → s.gateway.turns.length ≤ p) ∧ ∀ k, .reset k ∈ es → s.resets < k)
    ⟨Nat.le_refl _, Nat.le_refl _, by simp, by simp⟩ ?_
  rintro t es a u fs ⟨hlength, hresets, hasked, hreset⟩ hs
  obtain ⟨hlength', hresets', hasked', hreset'⟩ := later_step hs
  refine ⟨hlength.trans hlength', hresets.trans hresets', fun p hp => ?_, fun k hk => ?_⟩
  · rcases List.mem_append.mp hp with hp | hp
    · exact hasked p hp
    · exact hlength.trans (hasked' p hp)
  · rcases List.mem_append.mp hk with hk | hk
    · exact hreset k hk
    · exact hresets.trans_lt (hreset' k hk)

end

/-- A request keeps its thread. -/
theorem of_of_not_asked {t : Threads} {fs : List SiteEvent} {n : Nat} (h : .asked n ∉ fs) :
    (fs.foldl Threads.note t).of n = t.of n := by
  induction fs generalizing t with
  | nil => rfl
  | cons f fs ih =>
    rw [List.foldl_cons, ih fun hmem => h (List.mem_cons_of_mem _ hmem)]
    cases f with
    | asked m =>
      have hne : n ≠ m := by
        rintro rfl
        exact h List.mem_cons_self
      exact Function.update_of_ne hne _ _
    | _ => rfl

/-- After the `k`-th reset the page stays in the thread `k` or in a later one, unless a reply is
taken up that was asked for before. -/
theorem threads_after {t : Threads} {k : Nat} {fs : List SiteEvent}
    (hresets : ∀ j, .reset j ∈ fs → k ≤ j) (hlate : ∀ p, .adopted p ∈ fs → t.of p = none) :
    k ≤ (fs.foldl Threads.note { t with current := k }).current ∧
      ∀ p j, (fs.foldl Threads.note { t with current := k }).of p = some j →
        t.of p = some j ∨ k ≤ j := by
  induction fs using List.reverseRecOn with
  | nil => exact ⟨Nat.le_refl _, fun p j hp => .inl hp⟩
  | append_singleton fs f ih =>
    obtain ⟨hcurrent, hof⟩ := ih (fun j hj => hresets j (List.mem_append_left _ hj))
      fun p hp => hlate p (List.mem_append_left _ hp)
    rw [List.foldl_append, List.foldl_cons, List.foldl_nil]
    cases f with
    | gateway e => exact ⟨hcurrent, hof⟩
    | asked n =>
      refine ⟨hcurrent, fun p j hp => ?_⟩
      simp only [Threads.note] at hp
      by_cases heq : p = n
      · subst heq
        rw [Function.update_self] at hp
        exact .inr (Option.some.inj hp ▸ hcurrent)
      · rw [Function.update_of_ne heq] at hp
        exact hof p j hp
    | adopted n =>
      refine ⟨?_, hof⟩
      show k ≤ ((fs.foldl Threads.note { t with current := k }).of n).getD _
      cases hn : (fs.foldl Threads.note { t with current := k }).of n with
      | none => exact hcurrent
      | some j =>
        rcases hof n j hn with hbefore | hk
        · rw [hlate n (by simp)] at hbefore
          cases hbefore
        · exact hk
    | reset j => exact ⟨hresets j (by simp), hof⟩

section
variable {I : Type} [DecidableEq I] {repo : ConversationRepository I} {settings : GatewaySettings}
  {draws : Draws repo}

/-- **What is asked after a reset stays apart from what was asked before, as long as no reply is
taken up after it that was asked for before.** -/
theorem apart_of_reset (hmakes : MakesDrawn repo) {as bs : List (SiteAction I)} {s s' t : Site I}
    {es fs gs : List SiteEvent} (hapart : ∀ a ∈ as ++ .reset :: bs, a.Apart draws)
    (h : Run (Computes (Site.step settings draws)) (Site.loaded draws) as s es)
    (hreset : s.step settings draws .reset = some (s', gs))
    (h' : Run (Computes (Site.step settings draws)) s' bs t fs)
    (hlate : ∀ p, .adopted p ∈ fs → (threads es).of p = none)
    {m n j k : Nat} {cid cid' : Text} (hm : (threads es).of m = some j)
    (hn : (threads (es ++ (gs ++ fs))).of n = some k) (hnew : (threads es).of n = none)
    (hcid : .gateway (.on m (.ensured cid)) ∈ es ++ (gs ++ fs))
    (hcid' : .gateway (.on n (.ensured cid')) ∈ es ++ (gs ++ fs)) :
    repo.read cid ≠ repo.read cid' := by
  have hrun : Run (Computes (Site.step settings draws)) (Site.loaded draws) (as ++ .reset :: bs) t
      (es ++ (gs ++ fs)) := h.trans ((Run.single hreset).trans h')
  have hbefore := follows hmakes (fun a ha => hapart a (List.mem_append_left _ ha)) h
  have hfollows := follows hmakes hapart hrun
  cases hreset
  obtain ⟨-, -, hasked, hresets⟩ := later h'
  have hthreads : threads (es ++ ([.reset (s.resets + 1)] ++ fs)) =
      fs.foldl Threads.note { threads es with current := s.resets + 1 } := by
    rw [← List.append_assoc, threads_append, threads_append]
    rfl
  obtain ⟨-, hof⟩ := threads_after (fun j hj => (hresets j hj).le) hlate
  rw [← hthreads] at hof
  have hk : s.resets + 1 ≤ k := by
    rcases hof n k hn with h | h
    · rw [hnew] at h
      cases h
    · exact h
  have hm' : (threads (es ++ ([.reset (s.resets + 1)] ++ fs))).of m = some j := by
    rw [hthreads, of_of_not_asked fun hmem => (hbefore.came m j hm).not_ge (hasked m hmem)]
    exact hm
  have hlands := hfollows.ensured m j cid hm' hcid
  have hlands' := hfollows.ensured n k cid' hn hcid'
  intro heq
  have hj := hbefore.of_le m j hm
  rw [hlands.unique hlands' heq] at hj
  exact absurd hk hj.not_gt

end

/-! ## The two repositories -/

theorem inMemory_makesDrawn : MakesDrawn inMemoryConversationRepo where
  ensure := by
    intro newId now userId c s cid s' i hgiven h hread hnew
    unfold inMemoryConversationRepo InMemoryConversationRepo.ensure at h
    simp only [hgiven, Option.bind_none, Option.filter_none, Option.getD_none] at h
    split at h
    · rename_i row hrow
      obtain ⟨rfl, -⟩ := Ensure.returns.inj h
      have hi : row.id = i := Option.some.inj ((MemoryId.read_val row.id).symm.trans hread)
      rw [← hi, s.has_of_owner? (s.owner?_of_mem (List.mem_of_find?_eq_some hrow))] at hnew
      cases hnew
    · obtain ⟨rfl, -⟩ := Ensure.returns.inj h
      exact Option.some.inj (hread.symm.trans (MemoryId.read_val newId))
  insert _ h := by cases h

theorem postgres_makesDrawn : MakesDrawn postgresConversationRepo where
  ensure := by
    intro newId now userId c s cid s' i hgiven h hread hnew
    unfold postgresConversationRepo PostgresConversationRepo.ensure at h
    simp only [hgiven] at h
    split at h
    · rename_i j hlatest
      obtain ⟨rfl, -⟩ := Ensure.returns.inj h
      have hi : j = i := Option.some.inj ((Uuid.read_text j).symm.trans hread)
      rw [← hi, s.has_of_owner? (latest?_owner hlatest)] at hnew
      cases hnew
    · cases h
  insert := by
    intro newId now userId c s cid s' i hgiven h hread
    unfold postgresConversationRepo PostgresConversationRepo.insert at h
    obtain ⟨j, hj, heq⟩ := Option.map_eq_some_iff.mp h
    cases heq
    rw [hgiven, Option.getD_none] at hread
    exact Option.some.inj (hread.symm.trans (Uuid.read_text newId))

/-- Identities and conversations that are told apart by their lengths. -/
def countedDraws : Draws inMemoryConversationRepo where
  user k := ⟨List.replicate (k + 1) 'u', Text.stripBy_eq_self fun c hc => by
    rw [List.eq_of_mem_replicate hc]
    decide⟩
  conversation k := ⟨List.replicate (k + 1) 'c', List.cons_ne_nil _ _,
    Text.stripBy_eq_self fun c hc => by
      rw [List.eq_of_mem_replicate hc]
      decide⟩
  user_injective j k h := by
    have hlength := congrArg (fun u : UserId => u.1.length) h
    simpa using hlength
  conversation_injective := by
    intro j k i hj hk
    have hlength := congrArg (fun u : Option MemoryId => (u.map (·.1.length))) (hj.trans hk.symm)
    simpa [inMemoryConversationRepo, MemoryId.read] using hlength

/-- The conversation that a request of a run has come to. -/
def ensured? (n : Nat) (es : List SiteEvent) : Option Text :=
  es.findSome? fun
    | .gateway (.on m (.ensured cid)) => if m = n then some cid else none
    | _ => none

theorem mem_of_ensured? {n : Nat} {es : List SiteEvent} {cid : Text}
    (h : ensured? n es = some cid) : .gateway (.on n (.ensured cid)) ∈ es := by
  obtain ⟨e, hmem, he⟩ := List.exists_of_findSome?_eq_some h
  split at he
  · obtain ⟨rfl, heq⟩ := Option.ite_none_right_eq_some.mp he
    cases heq
    exact hmem
  · cases he

/-- The page is reset, asks over REST, and is reset again before the reply comes. -/
def lateReply : List (SiteAction MemoryId) :=
  [.reset, .send .rest "Hello" 0, .gateway (.on 0 (.ensure ⟨"x", by decide⟩)),
    .gateway (.on 0 .addQuestion), .gateway (.on 0 (.enqueue "run_1")),
    .gateway (.on 0 (.receive (.token "Hi."))), .gateway (.on 0 (.receive (.done none))),
    .gateway (.on 0 .addAnswer), .reset, .reply 0 "cc", .send .rest "Are you there?" 0,
    .gateway (.on 1 (.ensure ⟨"x", by decide⟩))]

theorem apart_lateReply : ∀ a ∈ lateReply, a.Apart countedDraws := by
  have hx : ∀ k, inMemoryConversationRepo.read (countedDraws.conversation k) ≠
      some ⟨"x", by decide⟩ := by
    intro k h
    have hhead := congrArg (fun u : Option MemoryId => u.bind (·.1.head?)) h
    simp [inMemoryConversationRepo, MemoryId.read, countedDraws, List.replicate_succ] at hhead
  have hno : ∀ caller ∈ (none : Option Caller), NamesNone countedDraws caller.conversationId :=
    fun caller h => (Option.not_mem_none caller h).elim
  have htrimmed : Trimmed "cc" := rfl
  simp only [lateReply, List.forall_mem_cons]
  exact ⟨trivial, trivial, hx, hno, hno, hno, hno, hno, trivial, htrimmed, trivial, hx,
    List.forall_mem_nil _⟩

/-- The reply leads back to the thread before the reset, and so does the message after it. -/
theorem late_reply_leads_back : ∃ (s : Site MemoryId) (es : List SiteEvent) (cid cid' : Text),
    Run (Computes (Site.step {} countedDraws)) (Site.loaded countedDraws) lateReply s es ∧
      s.resets = 2 ∧ .gateway (.on 0 (.ensured cid)) ∈ es ∧ .gateway (.on 1 (.ensured cid')) ∈ es ∧
        inMemoryConversationRepo.read cid = inMemoryConversationRepo.read cid' := by
  obtain ⟨s, es, h, hp⟩ := exists_run_of_play (Site.step {} countedDraws)
    (Site.loaded countedDraws) lateReply
    (fun s es => decide (s.resets = 2) && (ensured? 0 es).isSome && (ensured? 1 es).isSome &&
      decide ((threads es).of 0 = some 1) && decide ((threads es).of 1 = some 1))
    (by decide +kernel)
  simp only [Bool.and_eq_true, decide_eq_true_eq] at hp
  obtain ⟨⟨⟨⟨hresets, hfirst⟩, hsecond⟩, hm⟩, hn⟩ := hp
  obtain ⟨cid, hcid⟩ := Option.isSome_iff_exists.mp hfirst
  obtain ⟨cid', hcid'⟩ := Option.isSome_iff_exists.mp hsecond
  exact ⟨s, es, cid, cid', h, hresets, mem_of_ensured? hcid, mem_of_ensured? hcid',
    (conversation_eq_iff inMemory_makesDrawn apart_lateReply h hm hn (mem_of_ensured? hcid)
      (mem_of_ensured? hcid') (Nat.le_refl 1)).mpr rfl⟩

end OmniCare.Browser
