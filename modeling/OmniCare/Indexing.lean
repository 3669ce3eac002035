import OmniCare.Chunking
import OmniCare.Keyed

/-! # The retrieval index

`retrieval/app/index.py` over the two vector stores of `libs/adapters/vectorstore_qdrant.py`.  The
store keeps an entry for each section, and the index takes its chunk list and the corpus of BM25
from the store.  Neither store ever removes an entry, so what a document no longer has stays in all
three: `index_exact_iff` says after which versions of the directory they hold exactly the last one.

An entry is a chunk with its vector; `embed` is the embedding model, `hash` the hash of the process
on texts.  Scores are left out, but for the order they give to the results of a search.
-/
namespace OmniCare

variable {V : Type}

/-! ## The vector stores -/

/-- An indexed chunk and its vector. -/
abbrev Entry (V : Type) := Chunk × V

/-- `VectorStore`: what is stored, and what `all_chunks` gives of it. -/
structure VectorStore (V : Type) where
  upsert : List (Entry V) → List (Entry V) → List (Entry V)
  allChunks : List (Entry V) → List Chunk

/-- `InMemoryVectorStore`: its two lists, side by side.  The chunk ids are indexed once for each
`upsert`. -/
def inMemoryVectorStore : VectorStore V where
  upsert := Keyed.upsertIndexed fun e => e.1.chunkId
  allChunks entries := entries.map (·.1)

/-- `abs(hash(chunk.chunk_id)) % (2**63)`. -/
def pointId (hash : Text → Int) (chunkId : Text) : Nat := (hash chunkId).natAbs % 2 ^ 63

/-- The limit of the `scroll` of `all_chunks`. -/
def scrollLimit : Nat := 10000

/-- `QdrantVectorStore`: a collection has one point for each id, and `upsert` replaces or adds.
`scroll` goes by the ids. -/
def qdrantVectorStore (hash : Text → Int) : VectorStore V where
  upsert := Keyed.upsertAll fun e => pointId hash e.1.chunkId
  allChunks entries :=
    ((entries.insertionSort fun a b =>
      pointId hash a.1.chunkId ≤ pointId hash b.1.chunkId).map (·.1)).take scrollLimit

/-! ## The index -/

/-- `BM25`: the chunks it ranks. -/
structure BM25 where
  chunks : List Chunk

/-- `HybridIndex`. -/
structure HybridIndex (V : Type) where
  stored : List (Entry V) := []
  chunks : List Chunk := []
  bm25 : Option BM25 := none

namespace HybridIndex

variable (store : VectorStore V) (embed : Text → V)

/-- The entries of chunks: `embedder.embed([c.text for c in chunks])`. -/
def embedded (chunks : List Chunk) : List (Entry V) := chunks.map fun c => (c, embed c.text)

/-- `ingest`. -/
def ingest (index : HybridIndex V) (chunks : List Chunk) : HybridIndex V :=
  let stored :=
    if chunks.isEmpty then index.stored else store.upsert index.stored (embedded embed chunks)
  let all := store.allChunks stored
  { stored, chunks := all, bm25 := if all.isEmpty then none else some ⟨all⟩ }

/-- `ingest_directory`. -/
def ingestDirectory (index : HybridIndex V) (d : Directory) : HybridIndex V :=
  index.ingest store embed d.sections

/-- The index after one version of the directory after the other. -/
def ingested (versions : List Directory) : HybridIndex V :=
  versions.foldl (ingestDirectory store embed) {}

/-- `ready`. -/
def ready (index : HybridIndex V) : Bool := !index.chunks.isEmpty && index.bm25.isSome

/-- `by_id`: of several chunks with one id, the last. -/
def byId (index : HybridIndex V) (id : Text) : Option Chunk :=
  index.chunks.reverse.find? (·.chunkId = id)

/-- `search`, for the fused ranking of its two retrievers: `ordered` has the ids and scores, best
first. -/
def search (index : HybridIndex V) (ordered : List (Text × Json)) (topK : Nat) : List Chunk :=
  if index.ready then
    (ordered.take topK).filterMap fun (id, score) =>
      (index.byId id).map fun c => { c with score }
  else []

end HybridIndex

/-! ## After one version and another -/

/-- The index holds exactly these sections, one entry each: its store, its chunk list and the
corpus of BM25. -/
structure HybridIndex.Holds (embed : Text → V) (index : HybridIndex V) (sections : List Chunk) :
    Prop where
  stored : index.stored.Perm (embedded embed sections)
  chunks : index.chunks.Perm sections
  corpus : ((index.bm25.map (·.chunks)).getD []).Perm sections

/-- The sections of a directory that have an id. -/
def Directory.sectionsWith (id : Text) (d : Directory) : List Chunk :=
  d.sections.filter (·.chunkId = id)

/-- No section id of an earlier version is missing from the last one, and of the sections that share
an id, all but the last are those of the first version that had the id. -/
def SectionsKept (earlier : List Directory) (last : Directory) : Prop :=
  ∀ id first, earlier.find? (fun d => d.sectionsWith id ≠ []) = some first →
    last.sectionsWith id ≠ [] ∧
      (first.sectionsWith id).dropLast.Perm (last.sectionsWith id).dropLast

/-- The sections of the last version have different points, no point of an earlier version is
missing among them, and they are no more than `scroll` returns. -/
structure PointsKept (hash : Text → Int) (earlier : List Directory) (last : Directory) : Prop where
  distinct : (last.sections.map fun c => pointId hash c.chunkId).Nodup
  kept : ∀ d ∈ earlier, ∀ c ∈ d.sections,
    pointId hash c.chunkId ∈ last.sections.map fun c => pointId hash c.chunkId
  scrolled : last.sections.length ≤ scrollLimit

namespace HybridIndex

variable {embed : Text → V}

theorem embedded_injective : Function.Injective fun c : Chunk => (c, embed c.text) :=
  fun _ _ h => congrArg Prod.fst h

theorem perm_embedded {l l' : List Chunk} :
    (embedded embed l).Perm (embedded embed l') ↔ l.Perm l' :=
  List.map_perm_map_iff embedded_injective

theorem map_fst_embedded (l : List Chunk) : (embedded embed l).map (·.1) = l := by
  rw [embedded, List.map_map]
  exact List.map_id l

/-- What is stored after some versions. -/
theorem stored_ingested (embed : Text → V) {store : VectorStore V}
    (hnil : ∀ l, store.upsert l [] = l)
    (versions : List Directory) :
    (ingested store embed versions).stored =
      (versions.map fun d => embedded embed d.sections).foldl store.upsert [] := by
  induction versions using List.reverseRecOn with
  | nil => rfl
  | append_singleton versions d ih =>
    have hlast : (ingested store embed (versions ++ [d])).stored =
        store.upsert (ingested store embed versions).stored (embedded embed d.sections) := by
      unfold ingested
      rw [List.foldl_append, List.foldl_cons, List.foldl_nil]
      unfold ingestDirectory ingest
      dsimp only
      split
      · rename_i hempty
        rw [List.isEmpty_iff.mp hempty]
        exact (hnil _).symm
      · rfl
    rw [hlast, ih, List.map_append, List.foldl_append]
    rfl

/-- The chunk list and the corpus are what the store gives. -/
theorem chunks_ingested (embed : Text → V) (store : VectorStore V) (before : List Directory)
    (d : Directory) :
    let index := ingested store embed (before ++ [d])
    index.chunks = store.allChunks index.stored ∧
      (index.bm25.map (·.chunks)).getD [] = store.allChunks index.stored := by
  unfold ingested
  rw [List.foldl_append, List.foldl_cons, List.foldl_nil]
  unfold ingestDirectory ingest
  dsimp only
  refine ⟨rfl, ?_⟩
  generalize store.allChunks _ = all
  cases all <;> rfl

/-- What a search returns are chunks of the chunk list, with a score. -/
theorem exists_of_mem_search {index : HybridIndex V} {ordered : List (Text × Json)} {topK : Nat}
    {c : Chunk} (h : c ∈ index.search ordered topK) :
    ∃ found ∈ index.chunks, ∃ score, c = { found with score } := by
  unfold search at h
  split at h
  · obtain ⟨⟨id, score⟩, -, h⟩ := List.mem_filterMap.mp h
    obtain ⟨found, hfound, rfl⟩ := Option.map_eq_some_iff.mp h
    exact ⟨found, List.mem_reverse.mp (List.mem_of_find?_eq_some hfound), score, rfl⟩
  · cases h

theorem withKey_embedded (id : Text) (l : List Chunk) :
    Keyed.withKey (fun e : Entry V => e.1.chunkId) id (embedded embed l) =
      embedded embed (l.filter (·.chunkId = id)) := by
  unfold Keyed.withKey embedded
  rw [List.filter_map]
  rfl

/-- **The in-memory store.** -/
theorem memory_holds_iff (earlier : List Directory) (last : Directory) :
    (ingested inMemoryVectorStore embed (earlier ++ [last])).Holds embed last.sections ↔
      SectionsKept earlier last := by
  have hstored := stored_ingested embed (fun _ => rfl : ∀ l, inMemoryVectorStore.upsert l [] = l)
    (earlier ++ [last])
  have hchunks := chunks_ingested embed inMemoryVectorStore earlier last
  generalize ingested inMemoryVectorStore embed (earlier ++ [last]) = index at hstored hchunks
  -- the chunk list and the corpus are those of the store
  have hholds : index.Holds embed last.sections ↔
      index.stored.Perm (embedded embed last.sections) := by
    refine ⟨fun h => h.stored, fun h => ?_⟩
    have hall : (inMemoryVectorStore.allChunks index.stored).Perm last.sections := by
      have hmap := h.map (·.1)
      rwa [map_fst_embedded] at hmap
    exact ⟨h, hchunks.1 ▸ hall, hchunks.2 ▸ hall⟩
  rw [hholds, hstored, List.map_append]
  refine (Keyed.indexed_perm_iff _ _).trans ?_
  unfold SectionsKept Directory.sectionsWith
  refine forall_congr' fun id => ?_
  have hnil : ∀ l : List Chunk, embedded embed l ≠ [] ↔ l ≠ [] := fun l => by simp [embedded]
  have hdrop : ∀ l l' : List Chunk, (embedded embed l).dropLast.Perm (embedded embed l').dropLast ↔
      l.dropLast.Perm l'.dropLast := by
    intro l l'
    rw [embedded, embedded, ← List.map_dropLast, ← List.map_dropLast]
    exact perm_embedded
  have hfind : (earlier.map fun d => embedded embed d.sections).find?
        (fun b => Keyed.withKey (fun e : Entry V => e.1.chunkId) id b ≠ []) =
      (earlier.find? fun d => d.sections.filter (·.chunkId = id) ≠ []).map
        fun d => embedded embed d.sections := by
    rw [List.find?_map]
    refine congrArg (Option.map _) (congrArg (List.find? · earlier) (funext fun d => ?_))
    refine decide_eq_decide.mpr ?_
    rw [withKey_embedded]
    exact hnil _
  rw [hfind]
  simp only [withKey_embedded, hnil]
  cases earlier.find? fun d => d.sections.filter (·.chunkId = id) ≠ [] with
  | none => simp only [Option.map_none, reduceCtorEq, false_implies, implies_true]
  | some first =>
    simp only [Option.map_some, Option.some.injEq, forall_eq', withKey_embedded, hdrop]

/-- **Qdrant.** -/
theorem qdrant_holds_iff (hash : Text → Int) (earlier : List Directory) (last : Directory) :
    (ingested (qdrantVectorStore hash) embed (earlier ++ [last])).Holds embed last.sections ↔
      PointsKept hash earlier last := by
  have hstored := stored_ingested embed
    (fun _ => rfl : ∀ l, (qdrantVectorStore hash).upsert l [] = l) (earlier ++ [last])
  have hchunks := chunks_ingested embed (qdrantVectorStore hash) earlier last
  generalize ingested (qdrantVectorStore hash) embed (earlier ++ [last]) = index at hstored hchunks
  -- the chunk list and the corpus are those of the store, as far as `scroll` goes
  have hholds : index.Holds embed last.sections ↔
      index.stored.Perm (embedded embed last.sections) ∧ last.sections.length ≤ scrollLimit := by
    constructor
    · intro h
      refine ⟨h.stored, ?_⟩
      rw [← h.chunks.length_eq, hchunks.1]
      exact List.length_take_le _ _
    · rintro ⟨h, hlimit⟩
      have hsorted := (List.perm_insertionSort (fun a b : Entry V =>
        pointId hash a.1.chunkId ≤ pointId hash b.1.chunkId) index.stored).trans h
      have hall : ((qdrantVectorStore hash).allChunks index.stored).Perm last.sections := by
        have hmap := hsorted.map (·.1)
        rw [map_fst_embedded] at hmap
        refine (List.Perm.of_eq (List.take_of_length_le ?_)).trans hmap
        rw [hmap.length_eq]
        exact hlimit
      exact ⟨h, hchunks.1 ▸ hall, hchunks.2 ▸ hall⟩
  have hkeys : ∀ l : List Chunk,
      (embedded embed l).map (fun e : Entry V => pointId hash e.1.chunkId) =
        l.map fun c => pointId hash c.chunkId := by
    intro l
    rw [embedded, List.map_map]
    rfl
  have hkept : (∀ b ∈ earlier.map fun d => embedded embed d.sections, ∀ e ∈ b,
        pointId hash e.1.chunkId ∈ last.sections.map fun c => pointId hash c.chunkId) ↔
      ∀ d ∈ earlier, ∀ c ∈ d.sections,
        pointId hash c.chunkId ∈ last.sections.map fun c => pointId hash c.chunkId := by
    simp only [embedded, List.forall_mem_map]
  rw [hholds, hstored, List.map_append]
  have hexact := Keyed.all_perm_iff (fun e : Entry V => pointId hash e.1.chunkId)
    (earlier.map fun d => embedded embed d.sections) (embedded embed last.sections)
  rw [hkeys, hkept] at hexact
  refine (and_congr_left' hexact).trans ?_
  exact ⟨fun ⟨⟨hdistinct, hkept⟩, hlimit⟩ => ⟨hdistinct, hkept, hlimit⟩,
    fun h => ⟨⟨h.distinct, h.kept⟩, h.scrolled⟩⟩

/-- What an index that holds exactly some sections finds is one of them, with a score. -/
theorem exists_of_mem_search_of_holds {index : HybridIndex V} {sections : List Chunk}
    (h : index.Holds embed sections) {ordered : List (Text × Json)} {topK : Nat} {c : Chunk}
    (hc : c ∈ index.search ordered topK) :
    ∃ found ∈ sections, ∃ score, c = { found with score } := by
  obtain ⟨found, hfound, score, rfl⟩ := exists_of_mem_search hc
  exact ⟨found, h.chunks.mem_iff.mp hfound, score, rfl⟩

end HybridIndex

/-- **When the index holds exactly the sections of the last version** of the directory, after any
versions before it: with the in-memory store, and with Qdrant.  A search then returns sections of
that version only. -/
theorem index_exact_iff (embed : Text → V) (hash : Text → Int) (earlier : List Directory)
    (last : Directory) :
    ((HybridIndex.ingested inMemoryVectorStore embed (earlier ++ [last])).Holds embed
        last.sections ↔ SectionsKept earlier last) ∧
      ((HybridIndex.ingested (qdrantVectorStore hash) embed (earlier ++ [last])).Holds embed
        last.sections ↔ PointsKept hash earlier last) ∧
      ∀ index : HybridIndex V, index.Holds embed last.sections → ∀ ordered topK,
        ∀ c ∈ index.search ordered topK, ∃ found ∈ last.sections, ∃ score,
          c = { found with score } :=
  ⟨HybridIndex.memory_holds_iff earlier last, HybridIndex.qdrant_holds_iff hash earlier last,
    fun _ h _ _ _ hc => HybridIndex.exists_of_mem_search_of_holds h hc⟩

/-- A policy with two sections. -/
def policyBefore : Directory :=
  [("policy.md", "## Section 1: Water

Up to $25,000.

## Section 2: Property

Up to $500.
")]

/-- The policy with its second section withdrawn. -/
def policyAfter : Directory := [("policy.md", "## Section 1: Water

Up to $25,000.
")]

/-- A hash of texts. -/
def polynomialHash (id : Text) : Int := id.foldl (fun n c => n * 31 + c.toNat) 7

/-- After a section is withdrawn and the directory is ingested again, both stores have it still, and
a search cites it. -/
theorem withdrawn_section_found :
    let memory := HybridIndex.ingested inMemoryVectorStore (fun _ => ()) [policyBefore, policyAfter]
    let qdrant := HybridIndex.ingested (qdrantVectorStore polynomialHash) (fun _ => ())
      [policyBefore, policyAfter]
    ¬ memory.Holds (fun _ => ()) policyAfter.sections ∧
      ¬ qdrant.Holds (fun _ => ()) policyAfter.sections ∧
      (memory.search [("policy.md::section-2", .int 1)] 3).map (·.citation) =
        ["policy.md § Section 2: Property".toList] ∧
      ∀ c ∈ policyAfter.sections, c.citation ≠ "policy.md § Section 2: Property".toList := by
  have hsections : policyAfter.sections.length = 1 := by decide +kernel
  have hmemory : (HybridIndex.ingested inMemoryVectorStore (fun _ => ())
      [policyBefore, policyAfter]).stored.length = 2 := by decide +kernel
  have hqdrant : (HybridIndex.ingested (qdrantVectorStore polynomialHash) (fun _ => ())
      [policyBefore, policyAfter]).stored.length = 2 := by decide +kernel
  have hembedded : (HybridIndex.embedded (fun _ => ()) policyAfter.sections).length = 1 :=
    (List.length_map _).trans hsections
  refine ⟨fun h => ?_, fun h => ?_, by decide +kernel, by decide +kernel⟩
  · have := h.stored.length_eq
    omega
  · have := h.stored.length_eq
    omega

end OmniCare
