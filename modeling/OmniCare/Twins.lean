import OmniCare.Repositories
import OmniCare.Runs

/-! # The two adapters side by side

`InMemoryConversationRepo` is what the tests run on, `PostgresConversationRepo` what production runs
on.  `Twins` are one of each, given the same calls: where a call names a conversation whose id a
repository has generated, each gets the id that is its own.  `repositories_alike` says for which
calls they reply alike, up to these ids, and go on with the conversation that was updated last.
-/
namespace OmniCare

/-! ## Twins -/

/-- A repository of each kind. -/
structure Twins where
  memory : Conversations MemoryId := {}
  postgres : Conversations Uuid := {}
  /-- The ids that they have generated for the same conversations. -/
  generated : Uuid → Option MemoryId := fun _ => none
  /-- The time of the last call. -/
  clock : ℚ

/-- A call, with the ids of production, the time and the random ids. -/
structure TwinCall where
  call : RepositoryCall
  now : ℚ
  newUuid : Uuid
  newDigits : Fin 12 → Fin 16

/-- What both reply to a call. -/
structure Exchange where
  before : Twins
  call : RepositoryCall
  memory : RepositoryReply
  postgres : RepositoryReply

namespace Twins

variable (s : Twins)

/-- The id in memory of a conversation in Postgres. -/
def memoryId (u : Uuid) : MemoryId := (s.generated u).getD u.memoryId

/-- The renaming of generated ids. -/
def toMemory (t : Text) : Text :=
  match Uuid.read t with
  | some u => if u.text = t then (s.memoryId u).val else t
  | none => t

/-- The reply of the repository in memory. -/
def inMemory (a : TwinCall) : RepositoryReply × Conversations MemoryId :=
  InMemoryConversationRepo.reply (cnvId a.newDigits) a.now s.memory (a.call.rename s.toMemory)

/-- The reply of the repository in Postgres. -/
def inPostgres (a : TwinCall) : RepositoryReply × Conversations Uuid :=
  PostgresConversationRepo.reply a.newUuid a.now s.postgres a.call

/-- Both have made a conversation under an id of their own. -/
def bothGenerate (a : TwinCall) : Prop :=
  (s.inMemory a).1 = .conversation (cnvId a.newDigits).val ∧
    (s.inPostgres a).1 = .conversation a.newUuid.text

instance (a : TwinCall) : Decidable (s.bothGenerate a) := inferInstanceAs (Decidable (_ ∧ _))

/-- The state after a call. -/
def after (a : TwinCall) : Twins where
  memory := (s.inMemory a).2
  postgres := (s.inPostgres a).2
  generated u :=
    if s.bothGenerate a ∧ u = a.newUuid then some (cnvId a.newDigits) else s.generated u
  clock := a.now

/-- Both are called; random ids are not in use. -/
def step (a : TwinCall) : Option (Twins × List Exchange) :=
  if s.memory.has (cnvId a.newDigits) || s.postgres.has a.newUuid then none
  else some (s.after a, [⟨s, a.call, (s.inMemory a).1, (s.inPostgres a).1⟩])

/-- The clock goes on from call to call. -/
def later (a : TwinCall) : Bool := decide (s.clock < a.now)

end Twins

/-- An id as PostgreSQL writes it. -/
def canonical (t : Text) : Bool := (Uuid.read t).any (·.text = t)

/-- The two repositories reply alike to a call. -/
def RepositoryCall.alike (s : Conversations Uuid) : RepositoryCall → Bool
  -- The conversation that the user has had longest is the one that was updated last.
  | .ensure userId none => (s.rows.find? (·.userId = userId)).map Conversation.id = s.latest userId
  | .ensure userId (some []) => (s.latest userId).isNone
  | .ensure _ (some t) => canonical t
  | .addMessage t _ => (Uuid.read t).any fun u => u.text = t && s.has u
  | .listForUser _ _ => true
  | .messages t _ => (Uuid.read t).any fun u => u.text = t || (s.history u).isEmpty

/-- A call that both get alike, at a later time. -/
def Twins.alike (s : Twins) (a : TwinCall) : Bool :=
  s.later a && a.call.storable && a.call.alike s.postgres

/-! ## Ids -/

namespace Twins

variable {s : Twins}

theorem toMemory_text (u : Uuid) : s.toMemory u.text = (s.memoryId u).val := by
  unfold toMemory
  rw [u.read_text]
  exact if_pos rfl

/-- An id that is written in another way is no generated one. -/
theorem toMemory_of_ne {t : Text} {u : Uuid} (hread : Uuid.read t = some u) (hne : u.text ≠ t) :
    s.toMemory t = t := by
  unfold toMemory
  rw [hread]
  exact if_neg hne

/-- What is known of the ids that have been generated. -/
structure Generated (s : Twins) : Prop where
  inUse : ∀ {u m}, s.generated u = some m → s.postgres.has u = true
  cnv : ∀ {u m}, s.generated u = some m → ∃ digits, m = cnvId digits
  apart : ∀ {u v m}, s.generated u = some m → s.generated v = some m → u = v

theorem Generated.injective (h : s.Generated) : Function.Injective s.memoryId := by
  intro u v heq
  unfold memoryId at heq
  cases hu : s.generated u with
  | none =>
    cases hv : s.generated v with
    | none =>
      rw [hu, hv] at heq
      exact Uuid.text_injective (congrArg Subtype.val heq)
    | some m =>
      obtain ⟨digits, rfl⟩ := h.cnv hv
      rw [hu, hv] at heq
      exact absurd heq.symm (cnvId_ne_memoryId digits u)
  | some m =>
    cases hv : s.generated v with
    | none =>
      obtain ⟨digits, rfl⟩ := h.cnv hu
      rw [hu, hv] at heq
      exact absurd heq (cnvId_ne_memoryId digits v)
    | some m' =>
      rw [hu, hv] at heq
      obtain rfl : m = m' := heq
      exact h.apart hu hv

/-! ## What comes of a call -/

/-- Both repositories hold the same. -/
structure Sound (s : Twins) : Prop where
  generated : s.Generated
  same : Conversations.Renames s.memoryId s.postgres s.memory
  known : ∀ m ∈ s.postgres.messages, s.postgres.has m.conversation = true
  ordered : s.postgres.messages.Pairwise fun a b => a.createdAt ≤ b.createdAt
  clock : ∀ m ∈ s.postgres.messages, m.createdAt ≤ s.clock

/-- What a reply names is in use. -/
def InUse (s : Conversations Uuid) (r : RepositoryReply) : Prop :=
  ∀ t ∈ r.ids, ∃ u, t = Uuid.text u ∧ s.has u = true

/-- What both do for a call. -/
inductive Answered (s : Twins) (a : TwinCall) : Prop
  | reads (r : RepositoryReply) (memory : s.inMemory a = (r.rename s.toMemory, s.memory))
      (postgres : s.inPostgres a = (r, s.postgres)) (inUse : InUse s.postgres r)
      (continued : ∀ userId, a.call = .ensure userId none →
        ∃ u, s.postgres.latest userId = some u ∧ r = .conversation u.text)
  | opens (u : Uuid) (m : MemoryId) (userId : Text) (isNew : s.postgres.has u = false)
      (names : u = a.newUuid ∧ m = cnvId a.newDigits ∨
        m = s.memoryId u ∧ m ≠ cnvId a.newDigits)
      (memory : s.inMemory a = (.conversation m.val, (s.memory.start m userId a.now).clear m))
      (postgres : s.inPostgres a = (.conversation u.text, s.postgres.start u userId a.now))
      (first : ∀ userId', a.call = .ensure userId' none → s.postgres.latest userId' = none)
  | adds (u : Uuid) (m : ChatMessage) (hhas : s.postgres.has u = true)
      (memory : s.inMemory a = (.added, s.memory.post (s.memoryId u) m a.now))
      (postgres : s.inPostgres a = (.added, s.postgres.post u m a.now))
      (other : ∀ userId, a.call ≠ .ensure userId none)

end Twins

namespace Twins

variable {s : Twins} {a : TwinCall}

theorem latest_has {s : Conversations Uuid} {userId : Text} {u : Uuid}
    (h : s.latest userId = some u) : s.has u = true :=
  s.has_of_owner? (latest?_owner h)

theorem inPostgres_eq (hstorable : a.call.storable = true) :
    s.inPostgres a = PostgresConversationRepo.answer a.newUuid a.now s.postgres a.call := by
  unfold inPostgres PostgresConversationRepo.reply
  rw [if_pos hstorable]

theorem canonical_iff {t : Text} : canonical t = true ↔ ∃ u, t = Uuid.text u := by
  unfold canonical
  rw [Option.any_eq_true]
  constructor
  · rintro ⟨u, -, h⟩
    exact ⟨u, (of_decide_eq_true h).symm⟩
  · rintro ⟨u, rfl⟩
    exact ⟨u, u.read_text, decide_eq_true rfl⟩

/-- Both answer a call of `ensure` that names a conversation. -/
theorem Sound.answered_named (h : s.Sound) (hstorable : a.call.storable = true) {userId : Text}
    {u : Uuid}
    (hcall : a.call = .ensure userId (some u.text)) : s.Answered a := by
  have hpostgres := inPostgres_eq (s := s) hstorable
  have hmemory : s.inMemory a = inMemoryConversationRepo.open (cnvId a.newDigits) a.now userId
      (some (s.memoryId u).val) s.memory := by
    unfold inMemory
    rw [hcall]
    show inMemoryConversationRepo.open _ _ _ (some (s.toMemory u.text)) _ = _
    rw [toMemory_text]
  rw [hcall] at hpostgres
  have hother : ∀ userId', a.call ≠ .ensure userId' none := by
    intro userId' heq
    rw [hcall] at heq
    cases heq
  cases hhas : s.postgres.has u with
  | true =>
    have hhas' : s.memory.has (s.memoryId u) = true := (h.same.has u).trans hhas
    refine .reads (.conversation u.text) ?_ (hpostgres.trans (open_postgres_known hhas)) ?_
      fun userId' heq => absurd heq (hother userId')
    · rw [hmemory, open_memory_known hhas', RepositoryReply.rename, toMemory_text]
    · intro t ht
      exact ⟨u, List.mem_singleton.mp ht, hhas⟩
  | false =>
    have hhas' : s.memory.has (s.memoryId u) = false := (h.same.has u).trans hhas
    -- an id that is not in use has not been generated
    have hne : s.memoryId u ≠ cnvId a.newDigits := by
      intro heq
      cases hgen : s.generated u with
      | none =>
        unfold memoryId at heq
        rw [hgen] at heq
        exact cnvId_ne_memoryId _ _ heq.symm
      | some m =>
        have := h.generated.inUse hgen
        rw [hhas] at this
        cases this
    exact .opens u (s.memoryId u) userId hhas (.inr ⟨rfl, hne⟩)
      (hmemory.trans (open_memory_unknown hhas')) (hpostgres.trans (open_postgres_unknown hhas))
      fun userId' heq => absurd heq (hother userId')

/-- Both answer a call of `ensure` that names none. -/
theorem Sound.answered_unnamed (h : s.Sound) (hstorable : a.call.storable = true)
    (hfresh : s.postgres.has a.newUuid = false) {userId : Text} {c : Option Text}
    (hcall : a.call = .ensure userId c) (hc : c = none ∨ c = some [])
    (halike : a.call.alike s.postgres = true) : s.Answered a := by
  have hpostgres := inPostgres_eq (s := s) hstorable
  have hgiven : given c = none := by
    obtain rfl | rfl := hc <;> rfl
  have hsame : c.map s.toMemory = c := by
    obtain rfl | rfl := hc <;> rfl
  have hmemory : s.inMemory a = inMemoryConversationRepo.open (cnvId a.newDigits) a.now userId c
      s.memory := by
    unfold inMemory
    rw [hcall]
    show inMemoryConversationRepo.open _ _ _ (c.map s.toMemory) _ = _
    rw [hsame]
  rw [hcall] at hpostgres halike
  cases hlatest : s.postgres.latest userId with
  | none =>
    have hnew : c = none ∧ s.memory.rows.find? (·.userId = userId) = none ∨ c = some [] := by
      refine hc.imp_left fun hnone => ⟨hnone, ?_⟩
      subst hnone
      have hfirst := h.same.first userId
      rw [show _ = s.postgres.latest userId from of_decide_eq_true halike, hlatest] at hfirst
      exact Option.map_eq_none_iff.mp hfirst
    refine .opens a.newUuid (cnvId a.newDigits) userId hfresh (.inl ⟨rfl, rfl⟩)
      (hmemory.trans (open_memory_new hnew)) (hpostgres.trans (open_postgres_new hgiven hlatest)) ?_
    intro userId' heq
    obtain ⟨rfl, -⟩ := RepositoryCall.ensure.inj (hcall.symm.trans heq)
    exact hlatest
  | some u =>
    obtain rfl | rfl := hc
    · have hfirst := h.same.first userId
      rw [show _ = s.postgres.latest userId from of_decide_eq_true halike, hlatest] at hfirst
      refine .reads (.conversation u.text) ?_
        (hpostgres.trans (open_postgres_latest hgiven hlatest)) ?_ ?_
      · rw [hmemory, open_memory_first hfirst, RepositoryReply.rename, toMemory_text]
      · intro t ht
        exact ⟨u, List.mem_singleton.mp ht, latest_has hlatest⟩
      · intro userId' heq
        obtain ⟨rfl, -⟩ := RepositoryCall.ensure.inj (hcall.symm.trans heq)
        exact ⟨u, hlatest, rfl⟩
    · -- with an empty id, the user has no conversation
      have hnone : (s.postgres.latest userId).isNone = true := halike
      rw [hlatest] at hnone
      cases hnone

/-- Both answer a call of `add_message`. -/
theorem Sound.answered_add (h : s.Sound) (hstorable : a.call.storable = true) {u : Uuid}
    {m : ChatMessage} (hcall : a.call = .addMessage u.text m) (hhas : s.postgres.has u = true) :
    s.Answered a := by
  have hpostgres := inPostgres_eq (s := s) hstorable
  rw [hcall] at hpostgres
  refine .adds u m hhas ?_ (hpostgres.trans ?_) ?_
  · unfold inMemory
    rw [hcall]
    show inMemoryConversationRepo.add (s.toMemory u.text) m a.now s.memory = _
    rw [toMemory_text]
    unfold ConversationRepository.add
    rw [inMemoryConversationRepo.addMessage_eq (s.memoryId u).read_val ((h.same.has u).trans hhas)]
  · show postgresConversationRepo.add u.text m a.now s.postgres = _
    unfold ConversationRepository.add
    rw [postgresConversationRepo.addMessage_eq u.read_text hhas]
  · intro userId heq
    rw [hcall] at heq
    cases heq

/-- Both answer a call of `list_for_user`. -/
theorem Sound.answered_list (h : s.Sound) (hstorable : a.call.storable = true) {userId : Text}
    {limit : Nat} (hcall : a.call = .listForUser userId limit) : s.Answered a := by
  have hpostgres := inPostgres_eq (s := s) hstorable
  rw [hcall] at hpostgres
  refine .reads _ ?_ hpostgres ?_ ?_
  · unfold inMemory
    rw [hcall]
    refine Prod.ext ?_ rfl
    exact h.same.listForUser Uuid.text Subtype.val s.toMemory toMemory_text userId limit
  · intro t ht
    obtain ⟨_, hlisted, rfl⟩ := List.mem_map.mp ht
    obtain ⟨row, htaken, rfl⟩ := List.mem_map.mp hlisted
    have hrow := List.mem_of_mem_take htaken
    unfold Conversations.recent at hrow
    rw [List.mem_insertionSort] at hrow
    exact ⟨row.id, rfl, List.any_eq_true.mpr ⟨row, (List.mem_filter.mp hrow).1, decide_eq_true rfl⟩⟩
  · intro userId heq
    rw [hcall] at heq
    cases heq

/-- The messages of a conversation, as they are found in memory. -/
theorem Sound.messages_memory (h : s.Sound) {t : Text} {u : Uuid} (hread : Uuid.read t = some u)
    (hok : u.text = t ∨ s.postgres.messages.filter (·.conversation = u) = []) :
    s.memory.messages.filter (·.conversation.val = s.toMemory t) =
      (s.postgres.messages.filter (·.conversation = u)).map (StoredMessage.rename s.memoryId) := by
  by_cases htext : u.text = t
  · subst htext
    rw [toMemory_text, ← h.same.messagesOf u]
    refine List.filter_congr fun m _ => ?_
    exact decide_eq_decide.mpr Subtype.ext_iff.symm
  · -- written in another way, the id is that of no conversation in memory
    rw [hok.resolve_left htext, List.map_nil, toMemory_of_ne hread htext, h.same.messages,
      List.filter_eq_nil_iff]
    intro m hm
    obtain ⟨m, -, rfl⟩ := List.mem_map.mp hm
    rw [decide_eq_true_iff]
    intro heq
    have hid : (s.memoryId m.conversation).val = t := heq
    unfold memoryId at hid
    cases hgen : s.generated m.conversation with
    | none =>
      rw [hgen] at hid
      have hid : m.conversation.text = t := hid
      rw [← hid, Uuid.read_text] at hread
      exact htext (Option.some.inj hread ▸ hid)
    | some i =>
      obtain ⟨digits, rfl⟩ := h.generated.cnv hgen
      rw [hgen] at hid
      have hid : (cnvId digits).val = t := hid
      rw [← hid, read_cnvId] at hread
      cases hread

/-- Both answer a call of `messages`. -/
theorem Sound.answered_messages (h : s.Sound) (hstorable : a.call.storable = true) {t : Text}
    {u : Uuid} {limit : Nat} (hcall : a.call = .messages t limit) (hread : Uuid.read t = some u)
    (hok : u.text = t ∨ s.postgres.messages.filter (·.conversation = u) = []) : s.Answered a := by
  have hpostgres := inPostgres_eq (s := s) hstorable
  rw [hcall] at hpostgres
  refine .reads _ ?_ hpostgres ?_ ?_
  · unfold inMemory
    rw [hcall]
    refine Prod.ext ?_ rfl
    show InMemoryConversationRepo.messages (s.toMemory t) limit s.memory =
      (PostgresConversationRepo.messages t limit s.postgres).rename s.toMemory
    unfold InMemoryConversationRepo.messages PostgresConversationRepo.messages
    rw [h.messages_memory hread hok, hread]
    dsimp only [RepositoryReply.rename]
    -- the messages stand in the order of their times
    rw [(h.ordered.sublist List.filter_sublist).insertionSort_eq, ← List.map_take, List.map_map]
    rfl
  · intro t' ht
    unfold PostgresConversationRepo.messages at ht
    rw [hread] at ht
    cases ht
  · intro userId heq
    rw [hcall] at heq
    cases heq

/-- **What both do for a call that they get alike.** -/
theorem Sound.answered (h : s.Sound) (hfresh : s.postgres.has a.newUuid = false)
    (halike : s.alike a = true) : s.Answered a := by
  unfold alike at halike
  rw [Bool.and_eq_true, Bool.and_eq_true] at halike
  obtain ⟨⟨-, hstorable⟩, hcallAlike⟩ := halike
  cases hcall : a.call with
  | ensure userId c =>
    cases c with
    | none => exact h.answered_unnamed hstorable hfresh hcall (.inl rfl) hcallAlike
    | some t =>
      cases t with
      | nil => exact h.answered_unnamed hstorable hfresh hcall (.inr rfl) hcallAlike
      | cons x t =>
        rw [hcall] at hcallAlike
        obtain ⟨u, hu⟩ := canonical_iff.mp hcallAlike
        exact h.answered_named hstorable (hu ▸ hcall)
  | addMessage t m =>
    rw [hcall] at hcallAlike
    obtain ⟨u, -, hu⟩ := (Option.any_eq_true _ _).mp hcallAlike
    rw [Bool.and_eq_true, decide_eq_true_iff] at hu
    obtain ⟨rfl, hhas⟩ := hu
    exact h.answered_add hstorable hcall hhas
  | listForUser userId limit => exact h.answered_list hstorable hcall
  | messages t limit =>
    rw [hcall] at hcallAlike
    obtain ⟨u, hread, hu⟩ := (Option.any_eq_true _ _).mp hcallAlike
    rw [Bool.or_eq_true, decide_eq_true_iff, List.isEmpty_iff] at hu
    exact h.answered_messages hstorable hcall hread (hu.imp_right List.map_eq_nil_iff.mp)

/-! ## The state afterwards -/

theorem has_start {s : Conversations Uuid} {u v : Uuid} (hnew : s.has u = false) (userId : Text)
    (now : ℚ) : (s.start u userId now).has v = (decide (v = u) || s.has v) := by
  rw [Conversations.has_eq_isSome, s.owner?_start hnew]
  by_cases hv : v = u
  · rw [if_pos hv, decide_eq_true hv]
    rfl
  · rw [if_neg hv, decide_eq_false hv, Bool.false_or, Conversations.has_eq_isSome]

theorem start_messages (s : Conversations Uuid) (u : Uuid) (userId : Text) (now : ℚ) :
    (s.start u userId now).messages = s.messages := by
  unfold Conversations.start
  split <;> rfl

theorem has_post (s : Conversations Uuid) (u v : Uuid) (m : ChatMessage) (now : ℚ) :
    (s.post u m now).has v = s.has v := by
  rw [Conversations.has_eq_isSome, s.owner?_post, ← Conversations.has_eq_isSome]

theorem after_generated (hnot : ¬s.bothGenerate a) : (s.after a).generated = s.generated := by
  funext u
  exact if_neg fun h => hnot h.1

theorem after_memoryId (hnot : ¬s.bothGenerate a) : (s.after a).memoryId = s.memoryId := by
  funext u
  unfold memoryId
  rw [after_generated hnot]

/-- A call by which not both generate an id leaves the names as they are. -/
theorem Sound.generated_after (h : s.Sound) (hnot : ¬s.bothGenerate a)
    (hhas : ∀ u, s.postgres.has u = true → (s.after a).postgres.has u = true) :
    (s.after a).Generated := by
  refine ⟨fun {u _} hgen => ?_, ?_, ?_⟩
  · rw [after_generated hnot] at hgen
    exact hhas u (h.generated.inUse hgen)
  · rw [after_generated hnot]
    exact h.generated.cnv
  · rw [after_generated hnot]
    exact h.generated.apart

/-- What holds behind a call: the state is sound, and the ids in use have kept their names. -/
structure Goes (s : Twins) (a : TwinCall) : Prop where
  sound : (s.after a).Sound
  kept : ∀ u, s.postgres.has u = true →
    (s.after a).postgres.has u = true ∧ (s.after a).memoryId u = s.memoryId u

/-- A call that changes nothing. -/
theorem Sound.goes_reads (h : s.Sound) (hlater : s.later a = true) (hnot : ¬s.bothGenerate a)
    (hmemory : (s.inMemory a).2 = s.memory) (hpostgres : (s.inPostgres a).2 = s.postgres) :
    Goes s a := by
  have hmemory : (s.after a).memory = s.memory := hmemory
  have hpostgres : (s.after a).postgres = s.postgres := hpostgres
  have hlt : s.clock < a.now := of_decide_eq_true hlater
  refine ⟨⟨h.generated_after hnot fun u hu => by rwa [hpostgres], ?_, ?_, ?_, ?_⟩,
    fun u hu => ⟨?_, ?_⟩⟩
  · rw [after_memoryId hnot, hpostgres, hmemory]
    exact h.same
  · rw [hpostgres]
    exact h.known
  · rw [hpostgres]
    exact h.ordered
  · rw [hpostgres]
    exact fun m hm => (h.clock m hm).trans hlt.le
  · rwa [hpostgres]
  · rw [after_memoryId hnot]

/-- A message that is added. -/
theorem Sound.goes_adds (h : s.Sound) (hlater : s.later a = true) (hnot : ¬s.bothGenerate a)
    {u : Uuid} {m : ChatMessage} (hhas : s.postgres.has u = true)
    (hmemory : (s.inMemory a).2 = s.memory.post (s.memoryId u) m a.now)
    (hpostgres : (s.inPostgres a).2 = s.postgres.post u m a.now) : Goes s a := by
  have hmemory : (s.after a).memory = s.memory.post (s.memoryId u) m a.now := hmemory
  have hpostgres : (s.after a).postgres = s.postgres.post u m a.now := hpostgres
  have hlt : s.clock < a.now := of_decide_eq_true hlater
  refine ⟨⟨h.generated_after hnot fun v hv => by rwa [hpostgres, has_post], ?_, ?_, ?_, ?_⟩,
    fun v hv => ⟨?_, ?_⟩⟩
  · rw [after_memoryId hnot, hpostgres, hmemory]
    exact h.same.post u m a.now
  · intro x hx
    rw [hpostgres, has_post]
    rw [hpostgres] at hx
    rcases List.mem_append.mp hx with hx | hx
    · exact h.known x hx
    · rw [List.mem_singleton.mp hx]
      exact hhas
  · rw [hpostgres]
    refine List.pairwise_append.mpr ⟨h.ordered, List.pairwise_singleton _ _, ?_⟩
    intro x hx y hy
    rw [List.mem_singleton.mp hy]
    exact (h.clock x hx).trans hlt.le
  · intro x hx
    rw [hpostgres] at hx
    rcases List.mem_append.mp hx with hx | hx
    · exact (h.clock x hx).trans hlt.le
    · rw [List.mem_singleton.mp hx]
      exact le_rfl
  · rwa [hpostgres, has_post]
  · rw [after_memoryId hnot]

/-- A conversation that both make, under ids that are the same to the renaming. -/
theorem Sound.goes_starts (h : s.Sound) (hlater : s.later a = true)
    (hgenerated : (s.after a).Generated) {u : Uuid} {userId : Text}
    (hnew : s.postgres.has u = false)
    (hkept : ∀ v, s.postgres.has v = true → (s.after a).memoryId v = s.memoryId v)
    (hmemory : (s.inMemory a).2 =
      (s.memory.start ((s.after a).memoryId u) userId a.now).clear ((s.after a).memoryId u))
    (hpostgres : (s.inPostgres a).2 = s.postgres.start u userId a.now) : Goes s a := by
  have hmemory : (s.after a).memory =
      (s.memory.start ((s.after a).memoryId u) userId a.now).clear ((s.after a).memoryId u) :=
    hmemory
  have hpostgres : (s.after a).postgres = s.postgres.start u userId a.now := hpostgres
  have hlt : s.clock < a.now := of_decide_eq_true hlater
  have hmessages : (s.after a).postgres.messages = s.postgres.messages := by
    rw [hpostgres, start_messages]
  have hhas : ∀ v, s.postgres.has v = true → (s.after a).postgres.has v = true := by
    intro v hv
    rw [hpostgres, has_start hnew, hv, Bool.or_true]
  have hnone : ∀ m ∈ s.postgres.messages, m.conversation ≠ u := by
    intro m hm heq
    have := h.known m hm
    rw [heq, hnew] at this
    cases this
  refine ⟨⟨hgenerated, ?_, ?_, ?_, ?_⟩, fun v hv => ⟨hhas v hv, hkept v hv⟩⟩
  · have hrenames : Conversations.Renames (s.after a).memoryId s.postgres s.memory :=
      h.same.congr hgenerated.injective h.known fun v hv => (hkept v hv).symm
    rw [hmemory, hpostgres]
    exact hrenames.start hnew hnone userId a.now
  · rw [hmessages]
    exact fun m hm => hhas _ (h.known m hm)
  · rw [hmessages]
    exact h.ordered
  · rw [hmessages]
    exact fun m hm => (h.clock m hm).trans hlt.le

/-- A conversation under a name that its client has given it. -/
theorem Sound.goes_named (h : s.Sound) (hlater : s.later a = true) (hnot : ¬s.bothGenerate a)
    {u : Uuid} {userId : Text} (hnew : s.postgres.has u = false)
    (hmemory : (s.inMemory a).2 = (s.memory.start (s.memoryId u) userId a.now).clear (s.memoryId u))
    (hpostgres : (s.inPostgres a).2 = s.postgres.start u userId a.now) : Goes s a := by
  have hkept : ∀ v, s.postgres.has v = true → (s.after a).memoryId v = s.memoryId v :=
    fun v _ => by rw [after_memoryId hnot]
  refine h.goes_starts hlater (h.generated_after hnot fun v hv => ?_) hnew hkept ?_ hpostgres
  · rw [show (s.after a).postgres = _ from hpostgres, has_start hnew, hv, Bool.or_true]
  · rw [after_memoryId hnot]
    exact hmemory

/-- A conversation under two random ids. -/
theorem Sound.goes_generated (h : s.Sound) (hlater : s.later a = true) (hboth : s.bothGenerate a)
    {userId : Text} (hnew : s.postgres.has a.newUuid = false)
    (hnew' : s.memory.has (cnvId a.newDigits) = false)
    (hmemory : (s.inMemory a).2 =
      (s.memory.start (cnvId a.newDigits) userId a.now).clear (cnvId a.newDigits))
    (hpostgres : (s.inPostgres a).2 = s.postgres.start a.newUuid userId a.now) : Goes s a := by
  have hself : (s.after a).generated a.newUuid = some (cnvId a.newDigits) := if_pos ⟨hboth, rfl⟩
  have hother : ∀ v, v ≠ a.newUuid → (s.after a).generated v = s.generated v :=
    fun v hv => if_neg fun h => hv h.2
  have hmemoryId : (s.after a).memoryId a.newUuid = cnvId a.newDigits := by
    unfold memoryId
    rw [hself, Option.getD_some]
  have hkept : ∀ v, s.postgres.has v = true → (s.after a).memoryId v = s.memoryId v := by
    intro v hv
    unfold memoryId
    rw [hother v fun heq => by rw [heq, hnew] at hv; cases hv]
  -- the random id is none that has been generated before
  have hunused : ∀ v, s.generated v ≠ some (cnvId a.newDigits) := by
    intro v hgen
    have hin := (h.same.has v).trans (h.generated.inUse hgen)
    unfold memoryId at hin
    rw [hgen, Option.getD_some, hnew'] at hin
    cases hin
  refine h.goes_starts hlater ⟨?_, ?_, ?_⟩ hnew hkept (by rw [hmemoryId]; exact hmemory) hpostgres
  · intro v i hgen
    rw [show (s.after a).postgres = _ from hpostgres, has_start hnew]
    by_cases hv : v = a.newUuid
    · rw [decide_eq_true hv, Bool.true_or]
    · rw [hother v hv] at hgen
      rw [h.generated.inUse hgen, Bool.or_true]
  · intro v i hgen
    by_cases hv : v = a.newUuid
    · rw [hv, hself] at hgen
      exact ⟨_, (Option.some.inj hgen).symm⟩
    · rw [hother v hv] at hgen
      exact h.generated.cnv hgen
  · intro v w i hv hw
    by_cases hv' : v = a.newUuid
    · by_cases hw' : w = a.newUuid
      · rw [hv', hw']
      · rw [hv', hself] at hv
        rw [hother w hw', ← hv] at hw
        exact absurd hw (hunused w)
    · by_cases hw' : w = a.newUuid
      · rw [hw', hself] at hw
        rw [hother v hv', ← hw] at hv
        exact absurd hv (hunused v)
      · rw [hother v hv'] at hv
        rw [hother w hw'] at hw
        exact h.generated.apart hv hw

end Twins

/-! ## Replies -/

/-- **What the two repositories are to reply**: the same under the ids in memory; and to a user
without an id the conversation that was updated last. -/
structure Exchange.Alike (toMemory : Text → Text) (x : Exchange) : Prop where
  same : x.memory = x.postgres.rename toMemory
  continued : ∀ userId, x.call = .ensure userId none →
    (∀ u, x.before.postgres.latest userId = some u → x.postgres = .conversation u.text) ∧
      ∀ m, x.before.memory.latest userId = some m → x.memory = .conversation m.val

namespace Twins

variable {s : Twins} {a : TwinCall}

/-- Replies keep their names while the ids that are in use keep theirs. -/
theorem toMemory_congr {s' : Twins} {r : RepositoryReply} (hr : InUse s.postgres r)
    (hkept : ∀ u, s.postgres.has u = true → s'.memoryId u = s.memoryId u) :
    r.rename s'.toMemory = r.rename s.toMemory := by
  refine RepositoryReply.rename_congr fun t ht => ?_
  obtain ⟨u, rfl, hu⟩ := hr t ht
  rw [toMemory_text, toMemory_text, hkept u hu]

/-- What both reply is alike, and stays so. -/
structure Replied (s : Twins) (x : Exchange) : Prop where
  alike : x.Alike s.toMemory
  inUse : InUse s.postgres x.postgres

theorem Replied.kept {x : Exchange} (h : Replied s x) (hgoes : Goes s a) :
    Replied (s.after a) x := by
  refine ⟨⟨?_, h.alike.continued⟩, fun t ht => ?_⟩
  · rw [toMemory_congr h.inUse fun u hu => (hgoes.kept u hu).2]
    exact h.alike.same
  · obtain ⟨u, htext, hu⟩ := h.inUse t ht
    exact ⟨u, htext, (hgoes.kept u hu).1⟩

/-- **One call**: both reply alike, and hold the same afterwards. -/
theorem Sound.step (h : s.Sound) (hfresh : s.memory.has (cnvId a.newDigits) = false)
    (hfresh' : s.postgres.has a.newUuid = false) (halike : s.alike a = true) :
    Goes s a ∧ Replied (s.after a) ⟨s, a.call, (s.inMemory a).1, (s.inPostgres a).1⟩ := by
  have hlater : s.later a = true := by
    unfold alike at halike
    rw [Bool.and_eq_true, Bool.and_eq_true] at halike
    exact halike.1.1
  cases h.answered hfresh' halike with
  | reads r hmemory hpostgres inUse continued =>
    have hnot : ¬s.bothGenerate a := by
      rintro ⟨-, hboth⟩
      rw [hpostgres] at hboth
      obtain rfl : r = .conversation a.newUuid.text := hboth
      obtain ⟨u, htext, hu⟩ := inUse a.newUuid.text (List.mem_singleton_self _)
      rw [Uuid.text_injective htext, hu] at hfresh'
      cases hfresh'
    have hgoes := h.goes_reads hlater hnot (by rw [hmemory]) (by rw [hpostgres])
    rw [hmemory, hpostgres]
    have hreplied : Replied s ⟨s, a.call, r.rename s.toMemory, r⟩ := by
      refine ⟨⟨rfl, fun userId hcall => ?_⟩, inUse⟩
      obtain ⟨u, hlatest, rfl⟩ := continued userId hcall
      refine ⟨fun v hv => ?_, fun m hm => ?_⟩
      · rw [hlatest] at hv
        rw [Option.some.inj hv]
      · have hm : s.memory.latest userId = some m := hm
        rw [h.same.latest, hlatest] at hm
        rw [← Option.some.inj hm]
        exact congrArg RepositoryReply.conversation (toMemory_text u)
    exact ⟨hgoes, hreplied.kept hgoes⟩
  | adds u m hhas hmemory hpostgres other =>
    have hnot : ¬s.bothGenerate a := by
      rintro ⟨hboth, -⟩
      rw [hmemory] at hboth
      cases hboth
    have hgoes := h.goes_adds hlater hnot hhas (by rw [hmemory]) (by rw [hpostgres])
    rw [hmemory, hpostgres]
    exact ⟨hgoes, ⟨rfl, fun userId hcall => absurd hcall (other userId)⟩, nofun⟩
  | opens u m userId isNew names hmemory hpostgres first =>
    have hgoes : Goes s a ∧ m = (s.after a).memoryId u := by
      rcases names with ⟨rfl, rfl⟩ | ⟨rfl, hne⟩
      · have hboth : s.bothGenerate a := ⟨by rw [hmemory], by rw [hpostgres]⟩
        refine ⟨h.goes_generated hlater hboth hfresh' hfresh (by rw [hmemory]) (by rw [hpostgres]),
          ?_⟩
        unfold memoryId
        rw [show (s.after a).generated a.newUuid = _ from if_pos ⟨hboth, rfl⟩, Option.getD_some]
      · have hnot : ¬s.bothGenerate a := by
          rintro ⟨hboth, -⟩
          rw [hmemory] at hboth
          exact hne (Subtype.ext (RepositoryReply.conversation.inj hboth))
        refine ⟨h.goes_named hlater hnot isNew (by rw [hmemory]) (by rw [hpostgres]), ?_⟩
        rw [after_memoryId hnot]
    obtain ⟨hgoes, rfl⟩ := hgoes
    rw [hmemory]
    have hreply : (s.inPostgres a).1 = .conversation u.text := by rw [hpostgres]
    rw [hreply]
    refine ⟨hgoes, ⟨?_, fun userId' hcall => ?_⟩, fun t ht => ⟨u, List.mem_singleton.mp ht, ?_⟩⟩
    · exact congrArg RepositoryReply.conversation (toMemory_text u).symm
    · -- the user had no conversation
      have hnone : s.postgres.latest userId' = none := first userId' hcall
      refine ⟨fun v hv => ?_, fun m hm => ?_⟩
      · have hv : s.postgres.latest userId' = some v := hv
        rw [hnone] at hv
        cases hv
      · have hm : s.memory.latest userId' = some m := hm
        rw [h.same.latest, hnone] at hm
        cases hm
    · rw [show (s.after a).postgres = s.postgres.start u userId a.now by
        show (s.inPostgres a).2 = _
        rw [hpostgres], has_start isNew, decide_eq_true rfl, Bool.true_or]

/-! ## Runs -/

/-- Two empty repositories. -/
def empty (clock : ℚ) : Twins := { clock }

theorem sound_empty (clock : ℚ) : (empty clock).Sound where
  generated := ⟨nofun, nofun, nofun⟩
  same := ⟨fun _ _ h => Uuid.text_injective (congrArg Subtype.val h), rfl, rfl⟩
  known := nofun
  ordered := .nil
  clock := nofun

/-- **The two repositories reply alike** in every run of calls that they get alike: there is one
renaming of ids, which keeps different ids apart. -/
theorem repositories_alike {clock : ℚ} {as : List TwinCall} {s : Twins} {es : List Exchange}
    (h : Run (Computes (restrict alike step)) (empty clock) as s es) :
    Function.Injective s.memoryId ∧ ∀ x ∈ es, x.Alike s.toMemory := by
  have hboth : s.Sound ∧ ∀ x ∈ es, Replied s x := by
    refine h.invariant (I := fun s es => s.Sound ∧ ∀ x ∈ es, Replied s x)
      ⟨sound_empty clock, nofun⟩ fun {s es a s' fs} hs hstep => ?_
    obtain ⟨halike, hstep⟩ := restrict_eq_some.mp hstep
    unfold Twins.step at hstep
    split at hstep
    · cases hstep
    · rename_i hfresh
      rw [Bool.or_eq_true, not_or, Bool.not_eq_true, Bool.not_eq_true] at hfresh
      cases hstep
      obtain ⟨hgoes, hreplied⟩ := hs.1.step hfresh.1 hfresh.2 halike
      refine ⟨hgoes.sound, fun x hx => ?_⟩
      rcases List.mem_append.mp hx with hx | hx
      · exact (hs.2 x hx).kept hgoes
      · rw [List.mem_singleton.mp hx]
        exact hreplied
  exact ⟨hboth.1.generated.injective, fun x hx => (hboth.2 x hx).alike⟩

/-- A conversation that a client names. -/
def named : Uuid := ⟨List.replicate 32 ⟨11, by decide⟩, rfl⟩

/-- A call, at a time that also gives the random ids. -/
def callAt (n : Fin 16) (call : RepositoryCall) : TwinCall :=
  ⟨call, n.val, ⟨List.replicate 32 n, rfl⟩, fun _ => n⟩

/-- A greeting. -/
def greeting : ChatMessage := { role := .user, content := "Hello" }

/-- A user without an id, and one that names a conversation and asks for another user's. -/
theorem repositories_alike_for_two_users : ∃ s es,
    Run (Computes (restrict alike step)) (empty 0)
      [callAt 1 (.ensure "u1" none), callAt 2 (.ensure "u2" (some named.text)),
        callAt 3 (.addMessage named.text greeting), callAt 4 (.ensure "u1" (some named.text)),
        callAt 5 (.ensure "u1" none), callAt 6 (.listForUser "u1" 50),
        callAt 7 (.messages named.text 200)] s es ∧
      (Function.Injective s.memoryId ∧ ∀ x ∈ es, x.Alike s.toMemory) ∧ es.length = 7 := by
  obtain ⟨s, es, h, hp⟩ := exists_run_of_play (restrict alike step) (empty 0)
    [callAt 1 (.ensure "u1" none), callAt 2 (.ensure "u2" (some named.text)),
      callAt 3 (.addMessage named.text greeting), callAt 4 (.ensure "u1" (some named.text)),
      callAt 5 (.ensure "u1" none), callAt 6 (.listForUser "u1" 50),
      callAt 7 (.messages named.text 200)]
    (fun _ es => decide (es.length = 7)) (by decide)
  exact ⟨s, es, h, repositories_alike h, of_decide_eq_true hp⟩

/-- Once a user has named a second conversation, a message without an id goes to the first one in
memory, and to the second one in Postgres. -/
theorem second_conversation_left :
    ¬∀ as s es, Run (Computes (restrict later step)) (empty 0) as s es →
      ∃ f, ∀ x ∈ es, x.memory = x.postgres.rename f := by
  intro each
  let call : RepositoryCall := .ensure "u1" none
  obtain ⟨s, es, h, hp⟩ := exists_run_of_play (restrict later step) (empty 0)
    [callAt 1 call, callAt 2 (.ensure "u1" (some named.text)), callAt 3 call]
    (fun _ es => decide (es.map Exchange.postgres = [.conversation (callAt 1 call).newUuid.text,
        .conversation named.text, .conversation named.text] ∧
      es.map Exchange.memory = [.conversation (cnvId fun _ => 1).val, .conversation named.text,
        .conversation (cnvId fun _ => 1).val])) (by decide)
  obtain ⟨hpostgres, hmemory⟩ := of_decide_eq_true hp
  obtain ⟨f, hf⟩ := each _ s es h
  have hrenamed : es.map Exchange.memory = (es.map Exchange.postgres).map (·.rename f) := by
    rw [List.map_map]
    exact List.map_congr_left hf
  rw [hmemory, hpostgres] at hrenamed
  injection hrenamed with _ hrest
  injection hrest with hsecond hrest
  injection hrest with hthird _
  rw [← hsecond] at hthird
  exact absurd hthird (by decide)

end Twins

end OmniCare
