import OmniCare.Conversations

/-! # The calls of a conversation repository

What the two adapters reply to the calls of the port, and a repository under other ids.  The ids of
messages, which no call takes, are left out.
-/
namespace OmniCare

/-! ## The calls -/

/-- A call of a `ConversationRepository`. -/
inductive RepositoryCall
  | ensure (userId : Text) (conversationId : Option Text)
  | addMessage (conversationId : Text) (m : ChatMessage)
  | listForUser (userId : Text) (limit : Nat)
  | messages (conversationId : Text) (limit : Nat)

/-- What it replies. -/
inductive RepositoryReply
  | conversation (id : Text)
  | added
  | conversations (rows : List (Conversation Text))
  | messages (ms : List (ChatMessage × ℚ))
  | raised
  deriving DecidableEq

/-- `TEXT` holds no NUL. -/
def Storable (t : Text) : Bool := '\x00' ∉ t

mutual
/-- `JSONB` holds no NUL and no number that is not finite. -/
def Json.storable : Json → Bool
  | .null | .bool _ | .int _ | .float (.fin _ _) => true
  | .float _ => false
  | .str s => Storable s
  | .arr items => storableItems items
  | .obj fields => storableFields fields

def Json.storableItems : List Json → Bool
  | [] => true
  | v :: vs => v.storable && storableItems vs

def Json.storableFields : List (Text × Json) → Bool
  | [] => true
  | (k, v) :: fields => Storable k && v.storable && storableFields fields
end

def CallRecord.storable (call : CallRecord) : Bool :=
  Storable call.name && Json.storableFields call.arguments && call.result.all Json.storableFields

def ChatMessage.storable (m : ChatMessage) : Bool :=
  Storable m.content && m.sources.all Storable && m.toolCalls.all CallRecord.storable

/-- What PostgreSQL can be given. -/
def RepositoryCall.storable : RepositoryCall → Bool
  | .ensure userId _ => Storable userId
  | .addMessage _ m => m.storable
  | .listForUser userId _ => Storable userId
  | .messages _ _ => true

namespace Conversation

variable {I J K : Type}

/-- The row under another id. -/
def rename (f : I → J) (row : Conversation I) : Conversation J := { row with id := f row.id }

@[simp] theorem rename_id (f : I → J) (row : Conversation I) : (row.rename f).id = f row.id := rfl

@[simp] theorem rename_userId (f : I → J) (row : Conversation I) :
    (row.rename f).userId = row.userId := rfl

@[simp] theorem rename_updatedAt (f : I → J) (row : Conversation I) :
    (row.rename f).updatedAt = row.updatedAt := rfl

@[simp] theorem rename_rename (f : I → J) (h : J → K) (row : Conversation I) :
    (row.rename f).rename h = row.rename (h ∘ f) := rfl

end Conversation

namespace StoredMessage

variable {I J : Type}

/-- The message in a conversation under another id. -/
def rename (f : I → J) (m : StoredMessage I) : StoredMessage J :=
  { m with conversation := f m.conversation }

@[simp] theorem rename_conversation (f : I → J) (m : StoredMessage I) :
    (m.rename f).conversation = f m.conversation := rfl

/-- What is listed of a message. -/
def listed (m : StoredMessage I) : ChatMessage × ℚ := (m.message, m.createdAt)

@[simp] theorem listed_rename (f : I → J) (m : StoredMessage I) :
    (m.rename f).listed = m.listed := rfl

end StoredMessage

namespace Conversations

variable {I : Type} (s : Conversations I)

/-- The conversations of a user, the one that was updated last first. -/
def recent (userId : Text) : List (Conversation I) :=
  (s.rows.filter (·.userId = userId)).insertionSort fun a b => b.updatedAt ≤ a.updatedAt

/-- The user's conversation that was updated last. -/
def latest (userId : Text) : Option I := (s.recent userId).head?.map Conversation.id

/-- `list_for_user`. -/
def listForUser (text : I → Text) (userId : Text) (limit : Nat) : RepositoryReply :=
  .conversations (((s.recent userId).take limit).map (Conversation.rename text))

end Conversations

/-- A call of `ensure`, with its `INSERT` if it comes to one. -/
def ConversationRepository.open {I : Type} [DecidableEq I] (repo : ConversationRepository I)
    (newId : I) (now : ℚ) (userId : Text) (conversationId : Option Text) (s : Conversations I) :
    RepositoryReply × Conversations I :=
  match repo.ensure newId now userId conversationId s with
  | .returns cid s' => (.conversation cid, s')
  | .inserts =>
      match repo.insert newId now userId conversationId s with
      | some (cid, s') => (.conversation cid, s')
      | none => (.raised, s)
  | .raises => (.raised, s)

section
variable {I : Type} [DecidableEq I] {repo : ConversationRepository I} {newId : I} {now : ℚ}
  {userId cid : Text} {c : Option Text} {s s' : Conversations I}

theorem ConversationRepository.open_of_returns (h : repo.ensure newId now userId c s =
    .returns cid s') : repo.open newId now userId c s = (.conversation cid, s') := by
  unfold ConversationRepository.open
  rw [h]

theorem ConversationRepository.open_of_inserts (h : repo.ensure newId now userId c s = .inserts)
    (h' : repo.insert newId now userId c s = some (cid, s')) :
    repo.open newId now userId c s = (.conversation cid, s') := by
  unfold ConversationRepository.open
  rw [h]
  dsimp only
  rw [h']

end

/-- A call of `add_message`. -/
def ConversationRepository.add {I : Type} [DecidableEq I] (repo : ConversationRepository I)
    (conversationId : Text) (m : ChatMessage) (now : ℚ) (s : Conversations I) :
    RepositoryReply × Conversations I :=
  match repo.addMessage conversationId m now s with
  | some s' => (.added, s')
  | none => (.raised, s)

/-- `InMemoryConversationRepo.messages`: in the order in which they were added. -/
def InMemoryConversationRepo.messages (conversationId : Text) (limit : Nat)
    (s : Conversations MemoryId) : RepositoryReply :=
  .messages (((s.messages.filter (·.conversation.val = conversationId)).take limit).map
    StoredMessage.listed)

/-- `PostgresConversationRepo.messages`: by the time at which they were added. -/
def PostgresConversationRepo.messages (conversationId : Text) (limit : Nat)
    (s : Conversations Uuid) : RepositoryReply :=
  match Uuid.read conversationId with
  | some i =>
      .messages ((((s.messages.filter (·.conversation = i)).insertionSort
        fun a b => a.createdAt ≤ b.createdAt).take limit).map StoredMessage.listed)
  | none => .raised

def InMemoryConversationRepo.reply (newId : MemoryId) (now : ℚ) (s : Conversations MemoryId) :
    RepositoryCall → RepositoryReply × Conversations MemoryId
  | .ensure userId conversationId =>
      inMemoryConversationRepo.open newId now userId conversationId s
  | .addMessage conversationId m => inMemoryConversationRepo.add conversationId m now s
  | .listForUser userId limit => (s.listForUser Subtype.val userId limit, s)
  | .messages conversationId limit => (messages conversationId limit s, s)

def PostgresConversationRepo.answer (newId : Uuid) (now : ℚ) (s : Conversations Uuid) :
    RepositoryCall → RepositoryReply × Conversations Uuid
  | .ensure userId conversationId =>
      postgresConversationRepo.open newId now userId conversationId s
  | .addMessage conversationId m => postgresConversationRepo.add conversationId m now s
  | .listForUser userId limit => (s.listForUser Uuid.text userId limit, s)
  | .messages conversationId limit => (messages conversationId limit s, s)

/-- What cannot be stored raises, and a call that raises is rolled back. -/
def PostgresConversationRepo.reply (newId : Uuid) (now : ℚ) (s : Conversations Uuid)
    (call : RepositoryCall) : RepositoryReply × Conversations Uuid :=
  if call.storable then answer newId now s call else (.raised, s)

/-! ## Renaming -/

/-- `cnv_` and twelve digits: an id that is generated in memory. -/
def cnvId (digits : Fin 12 → Fin 16) : MemoryId :=
  ⟨"cnv_".toList ++ (List.ofFn digits).map Uuid.digitChar, by simp⟩

/-- A conversation under the id that its client has given it. -/
def Uuid.memoryId (u : Uuid) : MemoryId :=
  ⟨u.text, fun h => by
    have hread := u.read_text
    rw [h] at hread
    cases hread⟩

/-- What a call is with other ids. -/
def RepositoryCall.rename (f : Text → Text) : RepositoryCall → RepositoryCall
  | .ensure userId conversationId => .ensure userId (conversationId.map f)
  | .addMessage conversationId m => .addMessage (f conversationId) m
  | .listForUser userId limit => .listForUser userId limit
  | .messages conversationId limit => .messages (f conversationId) limit

def RepositoryReply.rename (f : Text → Text) : RepositoryReply → RepositoryReply
  | .conversation id => .conversation (f id)
  | .conversations rows => .conversations (rows.map (Conversation.rename f))
  | reply => reply

/-- The ids of conversations in a reply. -/
def RepositoryReply.ids : RepositoryReply → List Text
  | .conversation id => [id]
  | .conversations rows => rows.map Conversation.id
  | _ => []

theorem RepositoryReply.rename_congr {f g : Text → Text} {r : RepositoryReply}
    (h : ∀ t ∈ r.ids, f t = g t) : r.rename f = r.rename g := by
  cases r with
  | conversation id =>
    exact congrArg RepositoryReply.conversation (h id (List.mem_singleton_self id))
  | conversations rows =>
    refine congrArg RepositoryReply.conversations (List.map_congr_left fun row hrow => ?_)
    unfold Conversation.rename
    rw [h row.id (List.mem_map_of_mem hrow)]
  | added | messages | raised => rfl

/-! ## A repository under other ids -/

namespace Conversations

variable {I J : Type} {f : I → J} {s : Conversations I} {s' : Conversations J}

/-- A repository that is another one under other ids. -/
structure Renames (f : I → J) (s : Conversations I) (s' : Conversations J) : Prop where
  injective : Function.Injective f
  rows : s'.rows = s.rows.map (Conversation.rename f)
  messages : s'.messages = s.messages.map (StoredMessage.rename f)

namespace Renames

section
variable [DecidableEq I] [DecidableEq J]

theorem has (h : Renames f s s') (i : I) : s'.has (f i) = s.has i := by
  unfold Conversations.has
  rw [h.rows, List.any_map]
  congr 1
  funext row
  exact decide_eq_decide.mpr h.injective.eq_iff

end

theorem recent (h : Renames f s s') (userId : Text) :
    s'.recent userId = (s.recent userId).map (Conversation.rename f) := by
  unfold Conversations.recent
  rw [h.rows, List.filter_map]
  exact (List.map_insertionSort _ _ (Conversation.rename f) _ fun _ _ _ _ => Iff.rfl).symm

theorem latest (h : Renames f s s') (userId : Text) :
    s'.latest userId = (s.latest userId).map f := by
  unfold Conversations.latest
  rw [h.recent, List.head?_map, Option.map_map, Option.map_map]
  rfl

/-- The conversation that the user has had longest. -/
theorem first (h : Renames f s s') (userId : Text) :
    (s'.rows.find? (·.userId = userId)).map Conversation.id =
      ((s.rows.find? (·.userId = userId)).map Conversation.id).map f := by
  rw [h.rows, List.find?_map, Option.map_map, Option.map_map]
  rfl

theorem listForUser (h : Renames f s s') (text : I → Text) (text' : J → Text) (g : Text → Text)
    (hg : ∀ i, g (text i) = text' (f i)) (userId : Text) (limit : Nat) :
    s'.listForUser text' userId limit = (s.listForUser text userId limit).rename g := by
  unfold Conversations.listForUser
  show _ = RepositoryReply.conversations ((List.map _ _).map _)
  rw [h.recent, ← List.map_take, List.map_map, List.map_map]
  congr 1
  refine List.map_congr_left fun row _ => ?_
  show row.rename (text' ∘ f) = row.rename (g ∘ text)
  congr 1
  funext i
  exact (hg i).symm

variable [DecidableEq I] [DecidableEq J]

theorem messagesOf (h : Renames f s s') (i : I) :
    s'.messages.filter (·.conversation = f i) =
      (s.messages.filter (·.conversation = i)).map (StoredMessage.rename f) := by
  rw [h.messages, List.filter_map]
  congr 1
  refine List.filter_congr fun m _ => ?_
  exact decide_eq_decide.mpr h.injective.eq_iff

theorem post (h : Renames f s s') (i : I) (m : ChatMessage) (now : ℚ) :
    Renames f (s.post i m now) (s'.post (f i) m now) := by
  refine ⟨h.injective, ?_, ?_⟩
  · unfold Conversations.post
    dsimp only
    rw [h.rows, List.map_map, List.map_map]
    refine List.map_congr_left fun row _ => ?_
    show (if f row.id = f i then _ else _) = Conversation.rename f (if row.id = i then _ else _)
    by_cases hrow : row.id = i
    · rw [if_pos hrow, if_pos (congrArg f hrow)]
      rfl
    · rw [if_neg hrow, if_neg fun heq => hrow (h.injective heq)]
  · unfold Conversations.post
    dsimp only
    rw [h.messages, List.map_append]
    rfl

/-- A new conversation under its two ids; in memory it starts without messages. -/
theorem start (h : Renames f s s') {i : I} (hnew : s.has i = false)
    (hnone : ∀ m ∈ s.messages, m.conversation ≠ i) (userId : Text) (now : ℚ) :
    Renames f (s.start i userId now) ((s'.start (f i) userId now).clear (f i)) := by
  have hnew' : s'.has (f i) = false := (h.has i).trans hnew
  unfold Conversations.start
  rw [dif_neg (by rw [hnew]; exact Bool.false_ne_true),
    dif_neg (by rw [hnew']; exact Bool.false_ne_true)]
  refine ⟨h.injective, ?_, ?_⟩
  · show s'.rows ++ _ = (s.rows ++ _).map _
    rw [h.rows, List.map_append]
    rfl
  · show s'.messages.filter _ = s.messages.map _
    rw [h.messages, List.filter_eq_self]
    intro m hm
    obtain ⟨m, hmem, rfl⟩ := List.mem_map.mp hm
    exact decide_eq_true fun heq => hnone m hmem (h.injective heq)

omit [DecidableEq J] in
/-- Only the ids that are in use matter. -/
theorem congr {f' : I → J} (h : Renames f s s') (hf' : Function.Injective f')
    (hknown : ∀ m ∈ s.messages, s.has m.conversation = true)
    (hsame : ∀ i, s.has i = true → f i = f' i) : Renames f' s s' := by
  refine ⟨hf', h.rows.trans (List.map_congr_left fun row hrow => ?_),
    h.messages.trans (List.map_congr_left fun m hm => ?_)⟩
  · have hhas : s.has row.id = true := List.any_eq_true.mpr ⟨row, hrow, decide_eq_true rfl⟩
    unfold Conversation.rename
    rw [hsame _ hhas]
  · unfold StoredMessage.rename
    rw [hsame _ (hknown m hm)]

end Renames

end Conversations

/-! ## Ids -/

theorem Uuid.text_injective : Function.Injective Uuid.text := by
  intro u v h
  have hread := u.read_text
  rw [h, v.read_text] at hread
  exact (Option.some.inj hread).symm

/-- What is generated in memory is no UUID. -/
theorem read_cnvId (digits : Fin 12 → Fin 16) : Uuid.read (cnvId digits).val = none := by
  have hbytes : ∀ s : Text, Uuid.readBytes 16 ('c' :: 'n' :: s) = none := by
    intro s
    have hdigit : Uuid.digitOf 'n' = none := by decide
    simp [Uuid.readBytes, hdigit]
  show Uuid.read ('c' :: 'n' :: _) = none
  unfold Uuid.read
  split
  · rename_i heq
    cases heq
  · split
    · rename_i heq
      rw [hbytes] at heq
      cases heq
    · rfl

theorem cnvId_ne_memoryId (digits : Fin 12 → Fin 16) (u : Uuid) : cnvId digits ≠ u.memoryId := by
  intro h
  have hread := read_cnvId digits
  rw [h] at hread
  exact absurd (u.read_text.symm.trans hread) nofun

/-! ## What comes of `ensure` -/

section
variable {now : ℚ} {userId : Text}

theorem given_text {t : Text} (h : t ≠ []) : given (some t) = some t := by
  unfold given
  rw [Option.filter_some, if_pos]
  simpa using h

theorem MemoryId.given_val (m : MemoryId) : given (some m.val) = some m.val := given_text m.2

/-- `ensure` of a repository in memory, where the conversation is there. -/
theorem open_memory_known {newId m : MemoryId} {s : Conversations MemoryId}
    (h : s.has m = true) :
    inMemoryConversationRepo.open newId now userId (some m.val) s = (.conversation m.val, s) := by
  have hensure : InMemoryConversationRepo.ensure newId now userId (some m.val) s =
      .returns m.val s := by
    unfold InMemoryConversationRepo.ensure
    rw [m.given_val, Option.bind_some, m.read_val]
    dsimp only
    rw [Option.filter_some, if_pos h]
  exact ConversationRepository.open_of_returns hensure

/-- Where it is not, it is made. -/
theorem open_memory_unknown {newId m : MemoryId} {s : Conversations MemoryId}
    (h : s.has m = false) :
    inMemoryConversationRepo.open newId now userId (some m.val) s =
      (.conversation m.val, (s.start m userId now).clear m) := by
  have hensure : InMemoryConversationRepo.ensure newId now userId (some m.val) s =
      .returns m.val ((s.start m userId now).clear m) := by
    unfold InMemoryConversationRepo.ensure
    rw [m.given_val, Option.bind_some, m.read_val]
    dsimp only
    rw [Option.filter_some, if_neg (by simp [h])]
    rfl
  exact ConversationRepository.open_of_returns hensure

/-- Without an id, the user's first conversation is taken. -/
theorem open_memory_first {newId m : MemoryId} {s : Conversations MemoryId}
    (h : (s.rows.find? (·.userId = userId)).map Conversation.id = some m) :
    inMemoryConversationRepo.open newId now userId none s = (.conversation m.val, s) := by
  obtain ⟨row, hrow, rfl⟩ := Option.map_eq_some_iff.mp h
  have hensure : InMemoryConversationRepo.ensure newId now userId none s =
      .returns row.id.val s := by
    unfold InMemoryConversationRepo.ensure
    rw [hrow]
    rfl
  exact ConversationRepository.open_of_returns hensure

/-- With an empty id, or where the user has no conversation, one is made. -/
theorem open_memory_new {newId : MemoryId} {s : Conversations MemoryId} {c : Option Text}
    (h : c = none ∧ s.rows.find? (·.userId = userId) = none ∨ c = some []) :
    inMemoryConversationRepo.open newId now userId c s =
      (.conversation newId.val, (s.start newId userId now).clear newId) := by
  have hensure : InMemoryConversationRepo.ensure newId now userId c s =
      .returns newId.val ((s.start newId userId now).clear newId) := by
    unfold InMemoryConversationRepo.ensure
    obtain ⟨rfl, hfind⟩ | rfl := h
    · rw [hfind]
      rfl
    · rfl
  exact ConversationRepository.open_of_returns hensure

theorem Uuid.given_text (u : Uuid) : given (some u.text) = some u.text := u.memoryId.given_val

/-- `ensure` of a repository in Postgres, where the conversation is there. -/
theorem open_postgres_known {newId u : Uuid} {s : Conversations Uuid} (h : s.has u = true) :
    postgresConversationRepo.open newId now userId (some u.text) s =
      (.conversation u.text, s) := by
  have hensure : PostgresConversationRepo.ensure userId (some u.text) s = .returns u.text s := by
    unfold PostgresConversationRepo.ensure
    rw [u.given_text]
    dsimp only
    rw [u.read_text]
    exact if_pos h
  exact ConversationRepository.open_of_returns hensure

theorem open_postgres_unknown {newId u : Uuid} {s : Conversations Uuid} (h : s.has u = false) :
    postgresConversationRepo.open newId now userId (some u.text) s =
      (.conversation u.text, s.start u userId now) := by
  have hensure : PostgresConversationRepo.ensure userId (some u.text) s = .inserts := by
    unfold PostgresConversationRepo.ensure
    rw [u.given_text]
    dsimp only
    rw [u.read_text]
    exact if_neg (by simp [h])
  have hinsert : PostgresConversationRepo.insert newId now userId (some u.text) s =
      some (u.text, s.start u userId now) := by
    unfold PostgresConversationRepo.insert
    rw [u.given_text, Option.getD_some]
    dsimp only
    rw [u.read_text, Option.map_some]
  exact ConversationRepository.open_of_inserts hensure hinsert

/-- Without an id, the conversation that was updated last is taken. -/
theorem open_postgres_latest {newId u : Uuid} {s : Conversations Uuid} {c : Option Text}
    (hc : given c = none) (h : s.latest userId = some u) :
    postgresConversationRepo.open newId now userId c s = (.conversation u.text, s) := by
  have hensure : PostgresConversationRepo.ensure userId c s = .returns u.text s := by
    unfold PostgresConversationRepo.ensure
    rw [hc]
    dsimp only
    rw [show latest? userId s = some u from h]
  exact ConversationRepository.open_of_returns hensure

theorem open_postgres_new {newId : Uuid} {s : Conversations Uuid} {c : Option Text}
    (hc : given c = none) (h : s.latest userId = none) :
    postgresConversationRepo.open newId now userId c s =
      (.conversation newId.text, s.start newId userId now) := by
  have hensure : PostgresConversationRepo.ensure userId c s = .inserts := by
    unfold PostgresConversationRepo.ensure
    rw [hc]
    dsimp only
    rw [show latest? userId s = none from h]
  have hinsert : PostgresConversationRepo.insert newId now userId c s =
      some (newId.text, s.start newId userId now) := by
    unfold PostgresConversationRepo.insert
    rw [hc, Option.getD_none]
    dsimp only
    rw [newId.read_text, Option.map_some]
  exact ConversationRepository.open_of_inserts hensure hinsert

end

end OmniCare
