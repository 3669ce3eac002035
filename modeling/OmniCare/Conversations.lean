import OmniCare.Response
import OmniCare.AgentState
import Mathlib.Algebra.Order.Ring.Rat
import Mathlib.Data.List.Sort

/-! # Conversations

The two adapters of the port `libs/ports/conversations.py`: `InMemoryConversationRepo` and
`PostgresConversationRepo`.  They keep the same rows; in memory a conversation has any text for an
id, in Postgres a UUID, which can be written in several ways and is read back in one.

`ensure` gives a user a conversation to write to.  In memory it is one step; in Postgres it looks
first and inserts afterwards, and another request may come in between.  A
`ConversationRepository` is an adapter with what its `ensure` can come to (`Opened`): it goes on
with the conversation that is named, **whoever's it is**, or with one of the user's, or makes a new
one.
-/
namespace OmniCare

/-! ## Messages -/

/-- The roles of `app.messages`. -/
inductive Role
  | user
  | assistant
  | system
  deriving DecidableEq, Repr

/-- `ToolStatus`. -/
inductive CallStatus
  | ok
  | error
  | awaitingConfirmation
  | denied
  deriving DecidableEq, Repr

/-- `ToolCall` of `libs/contracts/chat.py`. -/
structure CallRecord where
  name : Text
  arguments : Dict := []
  result : Option Dict := none
  status : CallStatus := .ok
  deriving DecidableEq

/-- A message that `add_message` is given. -/
structure ChatMessage where
  role : Role
  content : Text
  sources : List Text := []
  toolCalls : List CallRecord := []
  channel : Channel := .text
  deriving DecidableEq

/-- A message as it is kept. -/
structure StoredMessage (I : Type) where
  conversation : I
  message : ChatMessage
  createdAt : ℚ
  deriving DecidableEq

/-! ## Rows -/

/-- A conversation. -/
structure Conversation (I : Type) where
  id : I
  userId : Text
  createdAt : ℚ
  updatedAt : ℚ
  deriving DecidableEq

/-- What a repository holds. -/
structure Conversations (I : Type) where
  rows : List (Conversation I) := []
  messages : List (StoredMessage I) := []
  rows_nodup : (rows.map Conversation.id).Nodup := by simp

namespace Conversations

variable {I : Type} [DecidableEq I] (s : Conversations I)

/-- There is a conversation with this id. -/
def has (i : I) : Bool := s.rows.any (·.id = i)

/-- The user whose conversation it is. -/
def owner? (i : I) : Option Text := (s.rows.find? (·.id = i)).map Conversation.userId

/-- The messages of a conversation, in the order in which they were added. -/
def history (i : I) : List ChatMessage :=
  (s.messages.filter (·.conversation = i)).map StoredMessage.message

/-- A new conversation, unless the id is in use. -/
def start (i : I) (userId : Text) (now : ℚ) : Conversations I :=
  if h : s.has i = true then s
  else
    { s with
      rows := s.rows ++ [⟨i, userId, now, now⟩]
      rows_nodup := by
        rw [List.map_append, List.nodup_append]
        refine ⟨s.rows_nodup, List.nodup_singleton _, ?_⟩
        rintro a ha b hb rfl
        obtain ⟨row, hrow, rfl⟩ := List.mem_map.mp ha
        exact h (List.any_eq_true.mpr ⟨row, hrow, by simpa using hb⟩) }

/-- Drops the messages of a conversation. -/
def clear (i : I) : Conversations I :=
  { s with messages := s.messages.filter (·.conversation ≠ i) }

/-- Adds a message, and notes the time in its conversation. -/
def post (i : I) (m : ChatMessage) (now : ℚ) : Conversations I where
  rows := s.rows.map fun row => if row.id = i then { row with updatedAt := now } else row
  messages := s.messages ++ [⟨i, m, now⟩]
  rows_nodup := by
    have hids : (s.rows.map fun row =>
        if row.id = i then { row with updatedAt := now } else row).map Conversation.id =
          s.rows.map Conversation.id := by
      rw [List.map_map]
      refine List.map_congr_left fun row _ => ?_
      show (if row.id = i then { row with updatedAt := now } else row).id = row.id
      split <;> rfl
    rw [hids]
    exact s.rows_nodup

theorem has_eq_isSome (i : I) : s.has i = (s.owner? i).isSome := by
  rw [has, owner?, Option.isSome_map, List.isSome_find?]

/-- No two rows have one id. -/
theorem owner?_of_mem {row : Conversation I} (h : row ∈ s.rows) :
    s.owner? row.id = some row.userId := by
  unfold owner?
  have hfind : s.rows.find? (·.id = row.id) = some row := by
    refine List.find?_eq_some_iff_append.mpr ⟨by simp, ?_⟩
    obtain ⟨before, after, heq⟩ := List.append_of_mem h
    refine ⟨before, after, heq, fun other hother => ?_⟩
    have hnodup := s.rows_nodup
    rw [heq, List.map_append, List.map_cons, List.nodup_append] at hnodup
    have hne := hnodup.2.2 other.id (List.mem_map_of_mem hother) row.id List.mem_cons_self
    simpa using hne
  rw [hfind, Option.map_some]

theorem has_of_owner? {i : I} {userId : Text} (h : s.owner? i = some userId) : s.has i = true := by
  rw [has_eq_isSome, h]
  rfl

@[simp] theorem clear_owner? (i j : I) : (s.clear i).owner? j = s.owner? j := rfl

theorem history_clear {i j : I} (h : j ≠ i) : (s.clear i).history j = s.history j := by
  unfold history clear
  rw [List.filter_filter]
  refine congrArg (List.map _) (List.filter_congr fun m _ => ?_)
  by_cases hm : m.conversation = j
  · simp [hm, h]
  · simp [hm]

@[simp] theorem history_start (i j : I) (userId : Text) (now : ℚ) :
    (s.start i userId now).history j = s.history j := by
  unfold start
  split <;> rfl

theorem owner?_start {i : I} (h : s.has i = false) (userId : Text) (now : ℚ) (j : I) :
    (s.start i userId now).owner? j = if j = i then some userId else s.owner? j := by
  unfold start owner?
  rw [dif_neg (by simp [h])]
  have hnone : s.rows.find? (·.id = i) = none := by
    rw [← Option.isNone_iff_eq_none, ← Option.not_isSome, List.isSome_find?]
    simpa [has] using h
  simp only [List.find?_append, Option.map_or]
  by_cases hj : j = i
  · subst hj
    simp [hnone]
  · have hij : i ≠ j := fun h => hj h.symm
    simp [hj, hij]

@[simp] theorem owner?_post (i : I) (m : ChatMessage) (now : ℚ) (j : I) :
    (s.post i m now).owner? j = s.owner? j := by
  unfold post owner?
  simp only [List.find?_map, Option.map_map]
  have hp : ((fun row : Conversation I => decide (row.id = j)) ∘ fun row =>
      if row.id = i then { row with updatedAt := now } else row) =
        fun row => decide (row.id = j) := by
    funext row
    by_cases hrow : row.id = i
    · simp [hrow]
    · simp [hrow]
  rw [hp]
  refine congrArg (Option.map · _) (funext fun row => ?_)
  by_cases hrow : row.id = i
  · simp [hrow]
  · simp [hrow]

theorem history_post (i : I) (m : ChatMessage) (now : ℚ) (j : I) :
    (s.post i m now).history j = s.history j ++ if i = j then [m] else [] := by
  unfold post history
  rw [List.filter_append, List.map_append]
  by_cases hij : i = j
  · simp [hij]
  · simp [hij]

end Conversations

/-! ## UUIDs -/

/-- A value of PostgreSQL's type `UUID`. -/
structure Uuid where
  digits : List (Fin 16)
  length_digits : digits.length = 32
  deriving DecidableEq

namespace Uuid

/-- The digits as they are written. -/
def hexDigits : Text := "0123456789abcdef"

def digitChar (d : Fin 16) : Char := hexDigits.getD d '0'

def digitOf (c : Char) : Option (Fin 16) := (List.finRange 16).find? (digitChar · = c.toLower)

theorem digitOf_digitChar : ∀ d : Fin 16, digitOf (digitChar d) = some d := by decide

theorem digitChar_ne_hyphen : ∀ d : Fin 16, digitChar d ≠ '-' := by decide

/-- `str` of some bytes: a hyphen stands before the last 12, 10, 8 and 6 of them. -/
def textOf : Nat → List (Fin 16) → Text
  | n + 1, a :: b :: ds =>
      digitChar a :: digitChar b ::
        if n ∈ [12, 10, 8, 6] then '-' :: textOf n ds else textOf n ds
  | _, _ => []

/-- `str`. -/
def text (u : Uuid) : Text := textOf 16 u.digits

/-- A hyphen may stand wherever an even number of bytes is left. -/
def skipHyphen (n : Nat) : Text → Text
  | '-' :: s => if n ≠ 0 ∧ n % 2 = 0 then s else '-' :: s
  | s => s

/-- Reads some bytes. -/
def readBytes : Nat → Text → Option (List (Fin 16) × Text)
  | 0, s => some ([], s)
  | n + 1, a :: b :: s => do
      let d ← digitOf a
      let e ← digitOf b
      let r ← readBytes n (skipHyphen n s)
      some (d :: e :: r.1, r.2)
  | _, _ => none

theorem length_of_readBytes {n : Nat} {s : Text} {r : List (Fin 16) × Text}
    (h : readBytes n s = some r) : r.1.length = 2 * n := by
  induction n generalizing s r with
  | zero =>
    unfold readBytes at h
    obtain rfl := Option.some.inj h
    rfl
  | succ n ih =>
    match s, h with
    | a :: b :: s, h =>
      simp only [readBytes, Option.bind_eq_bind, Option.bind_eq_some_iff] at h
      obtain ⟨d, -, e, -, r', hr, heq⟩ := h
      obtain rfl := Option.some.inj heq
      have := ih hr
      simp only [List.length_cons]
      omega

/-- What PostgreSQL reads as a UUID: the digits, with their hyphens or without, and possibly in
braces. -/
def read (s : Text) : Option Uuid :=
  match s with
  | '{' :: s =>
      match h : readBytes 16 s with
      | some (ds, ['}']) => some ⟨ds, length_of_readBytes h⟩
      | _ => none
  | s =>
      match h : readBytes 16 s with
      | some (ds, []) => some ⟨ds, length_of_readBytes h⟩
      | _ => none

theorem skipHyphen_textOf (n : Nat) (ds : List (Fin 16)) :
    skipHyphen n (textOf n ds) = textOf n ds := by
  match n, ds with
  | 0, _ => rfl
  | _ + 1, [] => rfl
  | _ + 1, [_] => rfl
  | n + 1, a :: b :: ds =>
    have hne := digitChar_ne_hyphen a
    unfold textOf skipHyphen
    split
    · rename_i s heq
      exact absurd (List.cons.inj heq).1 hne
    · rfl

theorem readBytes_textOf (n : Nat) (ds : List (Fin 16)) (h : ds.length = 2 * n) :
    readBytes n (textOf n ds) = some (ds, []) := by
  induction n generalizing ds with
  | zero =>
    obtain rfl := List.length_eq_zero_iff.mp h
    rfl
  | succ n ih =>
    match ds, h with
    | a :: b :: ds, h =>
      have hlen : ds.length = 2 * n := by
        simp only [List.length_cons] at h
        omega
      have hskip : skipHyphen n (if n ∈ [12, 10, 8, 6] then '-' :: textOf n ds else textOf n ds) =
          textOf n ds := by
        split
        · rename_i hmem
          have heven : n ≠ 0 ∧ n % 2 = 0 := by
            simp only [List.mem_cons, List.not_mem_nil, or_false] at hmem
            omega
          simp [skipHyphen, heven]
        · exact skipHyphen_textOf n ds
      simp only [textOf, readBytes, digitOf_digitChar, hskip, ih ds hlen, Option.bind_eq_bind,
        Option.bind_some]

/-- A UUID is read back from its text. -/
theorem read_text (u : Uuid) : read u.text = some u := by
  have hread := readBytes_textOf 16 u.digits u.length_digits
  have hbrace : ∀ s, u.text ≠ '{' :: s := by
    intro s heq
    have hnone : readBytes 16 ('{' :: s) = none := by
      cases s with
      | nil => rfl
      | cons b s =>
        have hdigit : digitOf '{' = none := by decide
        simp [readBytes, hdigit]
    unfold text at heq
    rw [heq, hnone] at hread
    cases hread
  unfold read
  split
  · rename_i s heq
    exact absurd heq (hbrace s)
  · split
    · rename_i ds heq
      rw [text, hread] at heq
      cases u
      simp only [Option.some.injEq, Prod.mk.injEq, and_true] at heq
      simp [heq]
    · rename_i hnone
      exact absurd hread (hnone _)

end Uuid

/-! ## The adapters -/

/-- `if conversation_id`. -/
def given (conversationId : Option Text) : Option Text := conversationId.filter (!·.isEmpty)

/-- What a step of `ensure` comes to. -/
inductive Ensure (I : Type)
  | returns (conversationId : Text) (s : Conversations I)
  /-- Nothing has been found: the `INSERT` comes next. -/
  | inserts
  | raises

section
variable {I : Type} [DecidableEq I]

/-- What `ensure` does for a user, with the conversation that it comes to. -/
inductive Opened (read : Text → Option I) (s : Conversations I) (userId : Text)
    (conversationId : Option Text) (i : I) : Conversations I → Prop
  /-- The conversation that the request names, whoever's it is. -/
  | named {t : Text} (hgiven : given conversationId = some t) (hread : read t = some i)
      (hhas : s.has i = true) : Opened read s userId conversationId i s
  /-- A conversation of the user's. -/
  | found (hgiven : given conversationId = none) (howner : s.owner? i = some userId) :
      Opened read s userId conversationId i s
  /-- A new conversation. -/
  | made {s' : Conversations I} (hread : ∀ t, given conversationId = some t → read t = some i)
      (hnew : s.has i = false)
      (howner : ∀ j, s'.owner? j = if j = i then some userId else s.owner? j)
      (hhistory : ∀ j, j ≠ i → s'.history j = s.history j) :
      Opened read s userId conversationId i s'

/-- An adapter: how it writes ids, the steps of `ensure`, and `add_message`. -/
structure ConversationRepository (I : Type) [DecidableEq I] where
  /-- The conversation that a text names. -/
  read : Text → Option I
  text : I → Text
  read_text : ∀ i, read (text i) = some i
  read_nil : read [] = none
  /-- `ensure`, up to its `INSERT` if it comes to one; the first argument is a random id. -/
  ensure : I → ℚ → Text → Option Text → Conversations I → Ensure I
  insert : I → ℚ → Text → Option Text → Conversations I → Option (Text × Conversations I)
  addMessage : Text → ChatMessage → ℚ → Conversations I → Option (Conversations I)
  ensure_returns : ∀ {newId now userId c s cid s'}, s.has newId = false →
    ensure newId now userId c s = .returns cid s' →
    ∃ i, read cid = some i ∧ Opened read s userId c i s'
  insert_returns : ∀ {newId now userId c s cid s'}, s.has newId = false →
    insert newId now userId c s = some (cid, s') →
    ∃ i, read cid = some i ∧ Opened read s userId c i s'
  addMessage_eq : ∀ {cid i m now s}, read cid = some i → s.has i = true →
    addMessage cid m now s = some (s.post i m now)
  addMessage_some : ∀ {cid m now s s'}, addMessage cid m now s = some s' →
    ∃ i, read cid = some i ∧ s' = s.post i m now

end

/-- The id of a conversation that is kept in memory. -/
abbrev MemoryId := {t : Text // t ≠ []}

/-- The id that a text is. -/
def MemoryId.read (t : Text) : Option MemoryId := if h : t ≠ [] then some ⟨t, h⟩ else none

/-- `InMemoryConversationRepo.ensure`: one step. -/
def InMemoryConversationRepo.ensure (newId : MemoryId) (now : ℚ) (userId : Text)
    (conversationId : Option Text) (s : Conversations MemoryId) : Ensure MemoryId :=
  let named := (given conversationId).bind MemoryId.read
  match named.filter s.has with
  | some i => .returns i s
  | none =>
      match conversationId, s.rows.find? (·.userId = userId) with
      | none, some row => .returns row.id s
      | _, _ =>
          let i := named.getD newId
          .returns i ((s.start i userId now).clear i)

/-- The user's conversation that was used last. -/
def latest? (userId : Text) (s : Conversations Uuid) : Option Uuid :=
  ((s.rows.filter (·.userId = userId)).insertionSort fun a b => b.updatedAt ≤ a.updatedAt).head?.map
    Conversation.id

/-- `PostgresConversationRepo.ensure`, up to its `INSERT`. -/
def PostgresConversationRepo.ensure (userId : Text) (conversationId : Option Text)
    (s : Conversations Uuid) : Ensure Uuid :=
  match given conversationId with
  | some t =>
      match Uuid.read t with
      | some i => if s.has i then .returns i.text s else .inserts
      -- the text cannot be compared with a `UUID`
      | none => .raises
  | none =>
      match latest? userId s with
      | some i => .returns i.text s
      | none => .inserts

/-- `INSERT INTO app.conversations … ON CONFLICT (id) DO NOTHING`. -/
def PostgresConversationRepo.insert (newId : Uuid) (now : ℚ) (userId : Text)
    (conversationId : Option Text) (s : Conversations Uuid) : Option (Text × Conversations Uuid) :=
  let text := (given conversationId).getD newId.text
  (Uuid.read text).map fun i => (text, s.start i userId now)

/-- `PostgresConversationRepo.add_message`: a message belongs to a conversation. -/
def PostgresConversationRepo.addMessage (conversationId : Text) (m : ChatMessage) (now : ℚ)
    (s : Conversations Uuid) : Option (Conversations Uuid) :=
  (Uuid.read conversationId).bind fun i => if s.has i then some (s.post i m now) else none

/-! ## What `ensure` comes to -/

theorem MemoryId.read_val (i : MemoryId) : MemoryId.read i = some i := dif_pos i.2

theorem InMemoryConversationRepo.opened {newId : MemoryId} {now : ℚ} {userId : Text}
    {c : Option Text} {s s' : Conversations MemoryId} {cid : Text} (hnew : s.has newId = false)
    (h : ensure newId now userId c s = .returns cid s') :
    ∃ i, MemoryId.read cid = some i ∧ Opened MemoryId.read s userId c i s' := by
  unfold ensure at h
  simp only at h
  split at h
  · rename_i i hfound
    obtain ⟨rfl, rfl⟩ := Ensure.returns.inj h
    obtain ⟨hnamed, hhas⟩ := Option.filter_eq_some_iff.mp hfound
    obtain ⟨t, hgiven, hread⟩ := Option.bind_eq_some_iff.mp hnamed
    exact ⟨i, i.read_val, .named hgiven hread hhas⟩
  · rename_i hfound
    have hmissing : s.has (((given c).bind MemoryId.read).getD newId) = false := by
      cases hnamed : (given c).bind MemoryId.read with
      | none => exact hnew
      | some i =>
        rw [hnamed] at hfound
        simpa using hfound
    split at h
    · rename_i row hrow
      obtain ⟨rfl, rfl⟩ := Ensure.returns.inj h
      have howner := s.owner?_of_mem (List.mem_of_find?_eq_some hrow)
      have huser : row.userId = userId := by simpa using List.find?_some hrow
      exact ⟨row.id, row.id.read_val, .found rfl (huser ▸ howner)⟩
    · obtain ⟨rfl, rfl⟩ := Ensure.returns.inj h
      refine ⟨_, MemoryId.read_val _, .made (fun t ht => ?_) hmissing (fun j => ?_) fun j hj => ?_⟩
      · have hne : t ≠ [] := by
          have := (Option.filter_eq_some_iff.mp ht).2
          simpa using this
        rw [ht, Option.bind_some, MemoryId.read, dif_pos hne, Option.getD_some]
      · rw [Conversations.clear_owner?, s.owner?_start hmissing]
      · rw [Conversations.history_clear _ hj, Conversations.history_start]

theorem latest?_owner {userId : Text} {s : Conversations Uuid} {i : Uuid}
    (h : latest? userId s = some i) : s.owner? i = some userId := by
  obtain ⟨row, hrow, rfl⟩ := Option.map_eq_some_iff.mp h
  have hmem := List.mem_of_head? hrow
  rw [List.mem_insertionSort, List.mem_filter, decide_eq_true_eq] at hmem
  exact hmem.2 ▸ s.owner?_of_mem hmem.1

theorem PostgresConversationRepo.opened {userId : Text} {c : Option Text}
    {s s' : Conversations Uuid} {cid : Text} (h : ensure userId c s = .returns cid s') :
    ∃ i, Uuid.read cid = some i ∧ Opened Uuid.read s userId c i s' := by
  unfold ensure at h
  split at h
  · rename_i t hgiven
    split at h
    · rename_i i hread
      split at h
      · rename_i hhas
        obtain ⟨rfl, rfl⟩ := Ensure.returns.inj h
        exact ⟨i, Uuid.read_text i, .named hgiven hread hhas⟩
      · cases h
    · cases h
  · rename_i hgiven
    split at h
    · rename_i i hlatest
      obtain ⟨rfl, rfl⟩ := Ensure.returns.inj h
      exact ⟨i, Uuid.read_text i, .found hgiven (latest?_owner hlatest)⟩
    · cases h

theorem PostgresConversationRepo.inserted {newId : Uuid} {now : ℚ} {userId : Text}
    {c : Option Text} {s s' : Conversations Uuid} {cid : Text} (hnew : s.has newId = false)
    (h : insert newId now userId c s = some (cid, s')) :
    ∃ i, Uuid.read cid = some i ∧ Opened Uuid.read s userId c i s' := by
  unfold insert at h
  obtain ⟨i, hread, heq⟩ := Option.map_eq_some_iff.mp h
  cases heq
  refine ⟨i, hread, ?_⟩
  have hgivenRead : ∀ t, given c = some t → Uuid.read t = some i := by
    intro t ht
    rwa [ht, Option.getD_some] at hread
  by_cases hhas : s.has i = true
  · -- The row has been inserted since: the id that is returned is the one that was asked for.
    have hsame : s.start i userId now = s := by
      unfold Conversations.start
      rw [dif_pos hhas]
    rw [hsame]
    cases hgiven : given c with
    | some t => exact .named hgiven (hgivenRead t hgiven) hhas
    | none =>
      rw [hgiven, Option.getD_none, Uuid.read_text] at hread
      rw [← Option.some.inj hread, hnew] at hhas
      cases hhas
  · have hmissing : s.has i = false := by simpa using hhas
    exact .made hgivenRead hmissing (fun j => s.owner?_start hmissing userId now j)
      (fun j _ => s.history_start i j userId now)

/-- `InMemoryConversationRepo`. -/
def inMemoryConversationRepo : ConversationRepository MemoryId where
  read := MemoryId.read
  text := Subtype.val
  read_text := MemoryId.read_val
  read_nil := rfl
  ensure := InMemoryConversationRepo.ensure
  insert _ _ _ _ _ := none
  addMessage cid m now s := (MemoryId.read cid).map fun i => s.post i m now
  ensure_returns := InMemoryConversationRepo.opened
  insert_returns _ h := by cases h
  addMessage_eq hread _ := by rw [hread, Option.map_some]
  addMessage_some h := by
    obtain ⟨i, hread, rfl⟩ := Option.map_eq_some_iff.mp h
    exact ⟨i, hread, rfl⟩

/-- `PostgresConversationRepo`. -/
def postgresConversationRepo : ConversationRepository Uuid where
  read := Uuid.read
  text := Uuid.text
  read_text := Uuid.read_text
  read_nil := rfl
  ensure _ _ := PostgresConversationRepo.ensure
  insert := PostgresConversationRepo.insert
  addMessage := PostgresConversationRepo.addMessage
  ensure_returns _ h := PostgresConversationRepo.opened h
  insert_returns := PostgresConversationRepo.inserted
  addMessage_eq hread hhas := by
    rw [PostgresConversationRepo.addMessage, hread, Option.bind_some, if_pos hhas]
  addMessage_some h := by
    obtain ⟨i, hread, hpost⟩ := Option.bind_eq_some_iff.mp h
    split at hpost
    · exact ⟨i, hread, (Option.some.inj hpost).symm⟩
    · cases hpost

end OmniCare
