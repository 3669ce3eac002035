import OmniCare.Indexing

/-! # The collection across restarts

`QdrantVectorStore` keeps its collection on disk and names the point of a chunk after the hash of
its id.  Each process has a hash of its own, so a chunk that is ingested again after a restart is
stored a second time, and `abs` gives two chunks one point if their hashes differ in sign only.
`holds_last_iff` says after which runs the collection has exactly the last payload of each chunk id.
-/
namespace OmniCare

variable {V : Type}

/-! ## Processes on one collection -/

/-- A stored point: its id, its payload and its vector. -/
abbrev Point (V : Type) := Nat × Entry V

/-- `model_dump(exclude={"score"})`. -/
def unscored (e : Entry V) : Entry V := ({ e.1 with score := .null }, e.2)

/-- The points of `_upsert_sync`. -/
def points (hash : Text → Int) (batch : List (Entry V)) : List (Point V) :=
  batch.map fun e => (pointId hash e.1.chunkId, unscored e)

/-- What happens to a collection: a process opens it, with its own hash of texts, or the process
that has it open upserts a batch. -/
inductive CollectionAction (V : Type) where
  | restart (hash : Text → Int)
  | upsert (batch : List (Entry V))

/-- The collection on disk, and the hash of the process that has it open. -/
structure Collection (V : Type) where
  hash : Text → Int
  stored : List (Point V) := []

namespace Collection

def step (c : Collection V) : CollectionAction V → Collection V
  | .restart hash => { c with hash }
  | .upsert batch => { c with stored := Keyed.upsertAll Prod.fst c.stored (points c.hash batch) }

def run (c : Collection V) (acts : List (CollectionAction V)) : Collection V := acts.foldl step c

/-- The payloads and vectors of the collection. -/
def entries (c : Collection V) : List (Entry V) := c.stored.map Prod.snd

end Collection

/-- The batches of a run. -/
def batches : List (CollectionAction V) → List (List (Entry V))
  | [] => []
  | .restart _ :: acts => batches acts
  | .upsert batch :: acts => batch :: batches acts

/-- The chunk id of an entry. -/
def entryId (e : Entry V) : Text := e.1.chunkId

/-- For each chunk id one entry is stored, the last that was upserted. -/
def HoldsLast (upserted stored : List (Entry V)) : Prop :=
  ∀ id, Keyed.withKey entryId id stored = (Keyed.withKey entryId id upserted).getLast?.toList

/-- What an action does but for payloads: a restart, or the chunk ids of a batch. -/
def CollectionAction.ids : CollectionAction V → (Text → Int) ⊕ List Text
  | .restart hash => .inl hash
  | .upsert batch => .inr (batch.map entryId)

/-- The points that are written, and the chunk ids they are written for. -/
def named (hash : Text → Int) : List ((Text → Int) ⊕ List Text) → List (Nat × Text)
  | [] => []
  | .inl hash' :: rest => named hash' rest
  | .inr ids :: rest => ids.map (fun id => (pointId hash id, id)) ++ named hash rest

/-- A point is written again exactly if the chunk id that it was written for is. -/
def PointsFollow (hash : Text → Int) (acts : List (CollectionAction V)) : Prop :=
  Keyed.LastAlike Prod.fst Prod.snd (named hash (acts.map CollectionAction.ids))

/-! ## What is left of a run -/

/-- The points that are written. -/
def written (hash : Text → Int) : List (CollectionAction V) → List (Point V)
  | [] => []
  | .restart hash' :: acts => written hash' acts
  | .upsert batch :: acts => points hash batch ++ written hash acts

theorem named_ids (hash : Text → Int) (acts : List (CollectionAction V)) :
    named hash (acts.map CollectionAction.ids) =
      (written hash acts).map fun p => (p.1, entryId p.2) := by
  induction acts generalizing hash with
  | nil => rfl
  | cons a acts ih =>
    cases a with
    | restart hash' => exact ih hash'
    | upsert batch =>
      simp only [List.map_cons, CollectionAction.ids, named, written, points, List.map_append,
        List.map_map, ih]
      rfl

theorem upserted_eq (hash : Text → Int) (acts : List (CollectionAction V)) :
    (written hash acts).map Prod.snd = (batches acts).flatten.map unscored := by
  induction acts generalizing hash with
  | nil => rfl
  | cons a acts ih =>
    cases a with
    | restart hash' => exact ih hash'
    | upsert batch =>
      simp only [written, batches, points, List.map_append, List.flatten_cons, List.map_map, ih]
      rfl

/-- The collection has what is written, point after point. -/
theorem stored_run (c : Collection V) (acts : List (CollectionAction V)) :
    (c.run acts).stored = Keyed.upsertAll Prod.fst c.stored (written c.hash acts) := by
  induction acts generalizing c with
  | nil => rfl
  | cons a acts ih =>
    refine (ih (c.step a)).trans ?_
    cases a with
    | restart hash' => rfl
    | upsert batch => exact (List.foldl_append ..).symm

/-- What holds last, by the points that are written. -/
theorem holdsLast_run_iff (hash : Text → Int) (acts : List (CollectionAction V)) :
    HoldsLast ((batches acts).flatten.map unscored) (Collection.run ⟨hash, []⟩ acts).entries ↔
      ∀ id, (Keyed.withKey (entryId ∘ Prod.snd) id
          (Keyed.upsertAll Prod.fst [] (written hash acts))).map Prod.snd =
        ((Keyed.withKey (entryId ∘ Prod.snd) id (written hash acts)).getLast?.map
          Prod.snd).toList := by
  refine forall_congr' fun id => ?_
  unfold Collection.entries
  rw [stored_run, ← upserted_eq hash, Keyed.withKey_map, Keyed.withKey_map, List.getLast?_map]

theorem pointsFollow_iff (hash : Text → Int) (acts : List (CollectionAction V)) :
    PointsFollow hash acts ↔
      Keyed.LastAlike Prod.fst (entryId ∘ Prod.snd) (written hash acts) := by
  unfold PointsFollow
  rw [named_ids, Keyed.lastAlike_map]
  rfl

/-- **Points that follow the chunk ids hold the last payloads.** -/
theorem holdsLast_of_pointsFollow {hash : Text → Int} {acts : List (CollectionAction V)}
    (h : PointsFollow hash acts) :
    HoldsLast ((batches acts).flatten.map unscored) (Collection.run ⟨hash, []⟩ acts).entries := by
  rw [holdsLast_run_iff]
  intro id
  rw [Keyed.withKey_of_lastAlike ((pointsFollow_iff hash acts).mp h)]
  cases (Keyed.withKey (entryId ∘ Prod.snd) id (written hash acts)).getLast? <;> rfl

/-- **And only they do**, if all payloads differ. -/
theorem pointsFollow_of_holdsLast {hash : Text → Int} {acts : List (CollectionAction V)}
    (hnodup : ((batches acts).flatten.map unscored).Nodup)
    (h : HoldsLast ((batches acts).flatten.map unscored)
      (Collection.run ⟨hash, []⟩ acts).entries) :
    PointsFollow hash acts := by
  rw [← upserted_eq hash] at hnodup
  rw [holdsLast_run_iff] at h
  rw [pointsFollow_iff]
  have hinjective := List.inj_on_of_nodup_map hnodup
  refine Keyed.lastAlike_of_withKey hnodup.of_map fun id => ?_
  have hid := h id
  cases hlast : (Keyed.withKey (entryId ∘ Prod.snd) id (written hash acts)).getLast? with
  | none =>
    rw [hlast] at hid
    exact List.map_eq_nil_iff.mp hid
  | some e =>
    -- one payload is one point
    rw [hlast] at hid
    obtain ⟨x, hx, hpayload⟩ := List.map_eq_singleton_iff.mp hid
    have hin : x ∈ written hash acts :=
      Keyed.mem_of_mem_upsertAll_nil (Keyed.mem_of_mem_withKey (hx ▸ List.mem_singleton_self x))
    have hein : e ∈ written hash acts :=
      Keyed.mem_of_mem_withKey (List.mem_of_getLast? hlast)
    rw [hx, hinjective hin hein hpayload]
    rfl

/-! ## Payloads that differ -/

/-- A batch whose chunks start where they are counted from `n`. -/
def counted (n : Nat) (batch : List (Entry V)) : List (Entry V) :=
  (batch.zipIdx n).map fun e => ({ e.1.1 with charStart := e.2 }, e.1.2)

/-- The same run, with payloads that differ. -/
def relabel (n : Nat) : List (CollectionAction V) → List (CollectionAction V)
  | [] => []
  | .restart hash :: acts => .restart hash :: relabel n acts
  | .upsert batch :: acts => .upsert (counted n batch) :: relabel (n + batch.length) acts

theorem relabel_ids (n : Nat) (acts : List (CollectionAction V)) :
    (relabel n acts).map CollectionAction.ids = acts.map CollectionAction.ids := by
  induction acts generalizing n with
  | nil => rfl
  | cons a acts ih =>
    cases a with
    | restart hash => exact congrArg (_ :: ·) (ih n)
    | upsert batch =>
      refine congrArg₂ (· :: ·) (congrArg Sum.inr ?_) (ih _)
      have hids : (counted n batch).map entryId = (batch.zipIdx n).map (entryId ∘ Prod.fst) := by
        rw [counted, List.map_map]
        rfl
      rw [hids, ← List.map_map, List.zipIdx_map_fst]

theorem relabel_starts (n : Nat) (acts : List (CollectionAction V)) :
    ∃ m, ((batches (relabel n acts)).flatten.map unscored).map (·.1.charStart) =
      List.range' n m := by
  induction acts generalizing n with
  | nil => exact ⟨0, rfl⟩
  | cons a acts ih =>
    cases a with
    | restart hash => exact ih n
    | upsert batch =>
      obtain ⟨m, hm⟩ := ih (n + batch.length)
      refine ⟨batch.length + m, ?_⟩
      have hstarts : ((counted n batch).map unscored).map (·.1.charStart) =
          List.range' n batch.length := by
        rw [counted, List.map_map, List.map_map, ← List.zipIdx_map_snd n batch]
        rfl
      rw [← List.range'_append_1, ← hm, ← hstarts]
      simp only [relabel, batches, List.flatten_cons, List.map_append]

theorem relabel_nodup (n : Nat) (acts : List (CollectionAction V)) :
    ((batches (relabel n acts)).flatten.map unscored).Nodup := by
  obtain ⟨m, hm⟩ := relabel_starts n acts
  refine List.Nodup.of_map (·.1.charStart) ?_
  rw [hm]
  exact List.nodup_range'

/-! ## The last payloads -/

/-- Points that are shared exactly by the writes of one chunk id follow the chunk ids: one process
whose hash gives different ids different points, or processes that agree on them. -/
theorem pointsFollow_of_shared {hash : Text → Int} {acts : List (CollectionAction V)}
    (h : ∀ x ∈ named hash (acts.map CollectionAction.ids),
      ∀ y ∈ named hash (acts.map CollectionAction.ids), x.1 = y.1 ↔ x.2 = y.2) :
    PointsFollow hash acts := Keyed.lastAlike_of_iff h

/-- In one process the collection is what `qdrantVectorStore` stores. -/
theorem entries_upserts (hash : Text → Int) (l : List (List (Entry V))) :
    (Collection.run ⟨hash, []⟩ (l.map .upsert)).entries =
      (l.map (·.map unscored)).foldl (qdrantVectorStore hash).upsert [] := by
  have stored : ∀ (l : List (List (Entry V))) entries,
      ((Collection.run ⟨hash, entries.map fun e => (pointId hash (entryId e), e)⟩
        (l.map .upsert)).entries : List (Entry V)) =
      (l.map (·.map unscored)).foldl (qdrantVectorStore hash).upsert entries := by
    intro l
    induction l with
    | nil =>
      intro entries
      exact (List.map_map ..).trans (List.map_id _)
    | cons batch l ih =>
      intro entries
      refine Eq.trans ?_ (ih _)
      have hpoints : points hash batch =
          (batch.map unscored).map fun e => (pointId hash (entryId e), e) := by
        rw [points, List.map_map]
        rfl
      unfold Collection.run
      rw [List.map_cons, List.foldl_cons, Collection.step, hpoints, Keyed.upsertAll_map]
      rfl
  exact stored l []

/-- What the in-memory store has after a run. -/
def memoryEntries (acts : List (CollectionAction V)) : List (Entry V) :=
  (batches acts).foldl inMemoryVectorStore.upsert []

/-- The first batch that has a chunk id has it once. -/
def NewOnce (acts : List (CollectionAction V)) : Prop :=
  ∀ id first, (batches acts).find? (fun b => Keyed.withKey entryId id b ≠ []) = some first →
    (Keyed.withKey entryId id first).length = 1

/-- Two stores that hold the last of the same payloads. -/
theorem perm_of_holdsLast {upserted upserted' stored stored' : List (Entry V)}
    (h : HoldsLast upserted stored) (h' : HoldsLast upserted' stored')
    (hlast : ∀ id, (Keyed.withKey entryId id upserted).getLast? =
      (Keyed.withKey entryId id upserted').getLast?) :
    stored.Perm stored' := by
  rw [Keyed.perm_iff_withKey entryId]
  intro id
  rw [h id, h' id, hlast id]

/-- Payloads that are the last already. -/
theorem getLast?_reingested {upserted batch : List (Entry V)}
    (h : ∀ e ∈ batch, (Keyed.withKey entryId (entryId e) upserted).getLast? = some e) (id : Text) :
    (Keyed.withKey entryId id (upserted ++ batch)).getLast? =
      (Keyed.withKey entryId id upserted).getLast? := by
  rw [Keyed.withKey_append, List.getLast?_append]
  cases hbatch : (Keyed.withKey entryId id batch).getLast? with
  | none => rfl
  | some e =>
    obtain ⟨rfl, before, after, rfl, -⟩ := Keyed.getLast?_withKey.mp hbatch
    exact (h e (List.mem_append_right _ List.mem_cons_self)).symm

theorem batches_append (acts acts' : List (CollectionAction V)) :
    batches (acts ++ acts') = batches acts ++ batches acts' := by
  induction acts with
  | nil => rfl
  | cons a acts ih =>
    cases a with
    | restart hash => exact ih
    | upsert batch => exact congrArg (batch :: ·) ih

/-- **When the collection holds the last payload of each chunk id**, whatever the payloads: a point
is written again exactly if its chunk id is.  The in-memory store does if no batch has a new chunk
id twice.  A restart and the same documents again then change nothing. -/
theorem holds_last_iff (hash : Text → Int) (acts : List (CollectionAction V)) :
    ((∀ acts' : List (CollectionAction V),
        acts'.map CollectionAction.ids = acts.map CollectionAction.ids →
          HoldsLast ((batches acts').flatten.map unscored)
            (Collection.run ⟨hash, []⟩ acts').entries) ↔ PointsFollow hash acts) ∧
      (HoldsLast (batches acts).flatten (memoryEntries acts) ↔ NewOnce acts) ∧
      ∀ hash' batch, PointsFollow hash acts →
        PointsFollow hash (acts ++ [.restart hash', .upsert batch]) →
        (∀ e ∈ batch.map unscored, (Keyed.withKey entryId (entryId e)
          ((batches acts).flatten.map unscored)).getLast? = some e) →
        (Collection.run ⟨hash, []⟩ (acts ++ [.restart hash', .upsert batch])).entries.Perm
          (Collection.run ⟨hash, []⟩ acts).entries := by
  refine ⟨⟨fun h => ?_, fun h acts' hids => ?_⟩, ?_, fun hash' batch h h' hbatch => ?_⟩
  · -- the condition does not depend on the payloads, so they may be told apart
    have hrelabelled := pointsFollow_of_holdsLast (relabel_nodup 0 acts)
      (h (relabel 0 acts) (relabel_ids 0 acts))
    unfold PointsFollow at hrelabelled ⊢
    rwa [relabel_ids] at hrelabelled
  · refine holdsLast_of_pointsFollow ?_
    unfold PointsFollow at h ⊢
    rwa [hids]
  · exact Keyed.indexed_last_iff _
  · refine perm_of_holdsLast (holdsLast_of_pointsFollow h') (holdsLast_of_pointsFollow h) ?_
    rw [batches_append, List.flatten_append, List.map_append]
    simp only [batches, List.flatten_cons, List.flatten_nil, List.append_nil]
    exact getLast?_reingested hbatch

/-- A chunk of a policy. -/
def storedChunk (id : Text) : Chunk where
  chunkId := id
  text := "Water damage from a burst pipe.".toList
  sourceFile := "sample_policy.md".toList
  sectionId := id
  sectionTitle := "Home Water Damage".toList
  charStart := 0
  charEnd := 31
  citation := "sample_policy.md § Home Water Damage".toList

def chunkA : Text := "doc::a".toList
def chunkB : Text := "doc::b".toList

/-- Two documents, ingested before and after a restart. -/
def reingested : List (CollectionAction Unit) :=
  let batch := [(storedChunk chunkA, ()), (storedChunk chunkB, ())]
  [.upsert batch, .restart fun id => polynomialHash id + 2, .upsert batch]

/-- A hash that tells the two apart by its sign. -/
def signedHash (id : Text) : Int := if id = chunkA then 5 else -5

/-- The documents are stored twice after the restart, and with hashes that differ in sign the second
one replaces the first. -/
theorem restart_stores_twice :
    (∀ id ∈ [chunkA, chunkB], ∀ id' ∈ [chunkA, chunkB], id ≠ id' →
        polynomialHash id ≠ polynomialHash id' ∧ signedHash id ≠ signedHash id') ∧
      (Collection.run ⟨polynomialHash, []⟩ reingested).entries.length = 4 ∧
      ¬HoldsLast ((batches reingested).flatten.map unscored)
        (Collection.run ⟨polynomialHash, []⟩ reingested).entries ∧
      ¬HoldsLast ((batches (reingested.take 1)).flatten.map unscored)
        (Collection.run ⟨signedHash, []⟩ (reingested.take 1)).entries := by
  refine ⟨by decide +kernel, by decide +kernel, fun h => ?_, fun h => ?_⟩
  · have hA := h chunkA
    revert hA
    decide +kernel
  · have hA := h chunkA
    revert hA
    decide +kernel

end OmniCare
