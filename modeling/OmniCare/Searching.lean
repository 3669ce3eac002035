import OmniCare.Analyzing
import OmniCare.Fusing
import OmniCare.Okapi

/-! # Searching the policy

The whole of a search: `BM25` of `retrieval/app/hybrid.py`, and `HybridIndex.search`, which fuses
its ranking with that of the vector store.  Scores are exact, and `log` is the logarithm, of which
only the sign matters.

BM25 ranks the chunks that share a term with the query (`mem_ranking_iff`), those in which an exact
term of the query stands among them (`exact_term_ranked`).  What both retrievers rank high is
returned, and so is what alone shares a term with the query (`search_surfaces`).
-/
namespace OmniCare

open RankFusion

/-! ## `BM25` -/

/-- The parameters of `BM25`. -/
def bm25Weights : Okapi.Weights ℚ where
  k₁ := 3 / 2
  b := 3 / 4
  k₁_nonneg := by norm_num
  b_nonneg := by norm_num
  b_le_one := by norm_num

namespace BM25

variable (log : ℚ → ℚ) (x : BM25)

def docs : List (List Text) := x.chunks.map fun c => analyze c.text

def avgLen : ℚ :=
  if x.docs.isEmpty then 0 else ((x.docs.map List.length).sum : ℚ) / x.docs.length

/-- In how many documents a term occurs. -/
def df (term : Text) : Nat := x.docs.countP (·.contains term)

/-- `_idf`. -/
def idf (term : Text) : ℚ := log (1 + (x.docs.length - x.df term + 1 / 2) / (x.df term + 1 / 2))

/-- The score of a document in the loop of `rank`. -/
def score (terms doc : List Text) : ℚ :=
  terms.foldl (fun score term =>
    let tf := doc.count term
    if tf = 0 then score
    else
      let denom := tf + bm25Weights.k₁ * (1 - bm25Weights.b +
        bm25Weights.b * (doc.length / if x.avgLen = 0 then 1 else x.avgLen))
      score + x.idf log term * (tf * (bm25Weights.k₁ + 1)) / denom) 0

/-- All that `rank` has scored, best first. -/
def ranking (query : Text) : List (Text × ℚ) :=
  ordered (x.chunks.filterMap fun c =>
    let score := x.score log (analyze query) (analyze c.text)
    if 0 < score then some (c.chunkId, score) else none)

/-- `rank`. -/
def rank (query : Text) (topK : Nat) : List Text := ((x.ranking log query).take topK).map (·.1)

end BM25

/-! ## What BM25 finds -/

namespace BM25

variable {log : ℚ → ℚ} (x : BM25)

theorem avgLen_nonneg : 0 ≤ x.avgLen := by
  unfold avgLen
  split
  · exact le_refl _
  · positivity

/-- Every term has some weight. -/
theorem idf_pos (hlog : ∀ y, 1 < y → 0 < log y) (term : Text) : 0 < x.idf log term := by
  have hle : (x.df term : ℚ) ≤ x.docs.length := Nat.cast_le.mpr List.countP_le_length
  have hpos : (0 : ℚ) ≤ x.df term := Nat.cast_nonneg _
  refine hlog _ (lt_add_of_pos_right 1 (div_pos ?_ ?_))
  · linarith
  · linarith

theorem score_eq (terms doc : List Text) :
    x.score log terms doc = bm25Weights.score (x.idf log)
      (doc.length / if x.avgLen = 0 then 1 else x.avgLen) doc terms := by
  unfold score Okapi.Weights.score
  rw [List.sum_eq_foldl, List.foldl_map]
  refine congrArg (fun f => List.foldl f 0 terms) (funext fun score => funext fun term => ?_)
  dsimp only
  split
  · rename_i hzero
    rw [hzero, Okapi.Weights.gain_zero, mul_zero, add_zero]
  · rw [Okapi.Weights.gain, mul_div_assoc]

theorem score_pos_iff (hlog : ∀ y, 1 < y → 0 < log y) (query text : Text) :
    0 < x.score log (analyze query) (analyze text) ↔ SharesTerm query text := by
  have hlength : (0 : ℚ) ≤ (analyze text).length / if x.avgLen = 0 then 1 else x.avgLen := by
    refine div_nonneg (Nat.cast_nonneg _) ?_
    split
    · exact zero_le_one
    · exact x.avgLen_nonneg
  rw [score_eq, bm25Weights.score_pos_iff hlength (x.idf_pos hlog)]
  rfl

/-- The ids that are ranked are those of the chunks that share a term with the query. -/
theorem mem_ranking_iff (hlog : ∀ y, 1 < y → 0 < log y) (query : Text) {id : Text} :
    id ∈ (x.ranking log query).map (·.1) ↔
      ∃ c ∈ x.chunks, c.chunkId = id ∧ SharesTerm query c.text := by
  unfold ranking
  rw [((ordered_perm _).map _).mem_iff, List.map_filterMap, List.mem_filterMap]
  refine exists_congr fun c => and_congr_right fun _ => ?_
  dsimp only
  rw [← x.score_pos_iff hlog]
  by_cases hpos : 0 < x.score log (analyze query) (analyze c.text)
  · simp [hpos]
  · simp [hpos]

theorem nodup_ranking (hids : (x.chunks.map Chunk.chunkId).Nodup) (query : Text) :
    ((x.ranking log query).map (·.1)).Nodup := by
  let p (c : Chunk) : Bool := 0 < x.score log (analyze query) (analyze c.text)
  have hscored : (x.chunks.filterMap fun c => Option.map (·.1)
      (if 0 < x.score log (analyze query) (analyze c.text) then
        some (c.chunkId, x.score log (analyze query) (analyze c.text)) else none)) =
        (x.chunks.filter p).map Chunk.chunkId := by
    rw [← List.filterMap_eq_map, List.filterMap_filter]
    refine List.filterMap_congr fun c _ => ?_
    by_cases hc : 0 < x.score log (analyze query) (analyze c.text)
    · simp [p, hc]
    · simp [p, hc]
  unfold ranking
  rw [((ordered_perm _).map _).nodup_iff, List.map_filterMap, hscored]
  exact hids.sublist (List.filter_sublist.map _)

theorem rank_eq (query : Text) (topK : Nat) :
    x.rank log query topK = ((x.ranking log query).map (·.1)).take topK := List.map_take.symm ▸ rfl

/-- **A chunk in which an exact term of the query stands is ranked**, as long as there is room. -/
theorem exact_term_ranked (hlog : ∀ y, 1 < y → 0 < log y) {c : Chunk} (hc : c ∈ x.chunks)
    {w query : Text} (hquery : StandsIn w query) (htext : StandsIn w c.text) {topK : Nat}
    (htopK : x.chunks.length ≤ topK) : c.chunkId ∈ x.rank log query topK := by
  have hlength : ((x.ranking log query).map (·.1)).length ≤ topK := by
    rw [List.length_map, BM25.ranking, (ordered_perm _).length_eq]
    exact (List.length_filterMap_le _ _).trans htopK
  rw [rank_eq, List.take_of_length_le hlength, x.mem_ranking_iff hlog]
  exact ⟨c, hc, rfl, sharesTerm_of_exact hquery htext⟩

end BM25

/-! ## `search` -/

/-- `search`: `dense` has the ids of the store's chunks, the most similar to the query first. -/
def HybridIndex.find {V : Type} (index : HybridIndex V) (log : ℚ → ℚ) (dense : List Text)
    (asFloat : ℚ → Json) (query : Text) (topK : Nat) : List Chunk :=
  let depth := max (topK * 2) 5
  let sparseIds := (index.bm25.map (·.rank log query depth)).getD []
  index.search
    ((fusedOrder (dense.take depth) sparseIds).map fun (id, score) => (id, asFloat score)) topK

/-- The corpus of BM25 is the chunk list, as `ingest` leaves it. -/
theorem corpus_ingest {V : Type} (store : VectorStore V) (embed : Text → V) (index : HybridIndex V)
    (chunks : List Chunk) (hne : (index.ingest store embed chunks).chunks ≠ []) :
    (index.ingest store embed chunks).bm25 = some ⟨(index.ingest store embed chunks).chunks⟩ :=
  if_neg fun hempty => hne (List.isEmpty_iff.mp hempty)

section
variable {V : Type} {index : HybridIndex V} {log : ℚ → ℚ} {dense : List Text} {query id : Text}
  {topK : Nat}

/-- What can be scored as much is few: then a chunk is returned. -/
theorem mem_find (asFloat : ℚ → Json) (few : List Text) (hcorpus : index.bm25 = some ⟨index.chunks⟩)
    (hfound : ∃ c ∈ index.chunks, c.chunkId = id) {first second : List Text}
    (hfirst : first = dense.take (max (topK * 2) 5))
    (hsecond : second = BM25.rank log ⟨index.chunks⟩ query (max (topK * 2) 5))
    (hid : id ∈ first ∪ second)
    (hfew : ∀ e ≠ id, fusedScore rrfK first second id ≤ fusedScore rrfK first second e → e ∈ few)
    (hlength : few.length < topK) :
    ∃ c ∈ index.find log dense asFloat query topK, c.chunkId = id := by
  obtain ⟨c, hc, hcid⟩ := hfound
  obtain ⟨found, hbyId⟩ : ∃ found, index.byId id = some found := by
    refine Option.isSome_iff_exists.mp (List.find?_isSome.mpr ⟨c, List.mem_reverse.mpr hc, ?_⟩)
    simpa using hcid
  have hready : index.ready = true := by
    unfold HybridIndex.ready
    rw [hcorpus, List.isEmpty_eq_false_iff.mpr (List.ne_nil_of_mem hc)]
    rfl
  obtain ⟨place, hplace, hplaceId⟩ := List.mem_map.mp (mem_keys_fusedOrder.mpr hid)
  have htake : place ∈ (fusedOrder first second).take topK := by
    have hscored : ∀ e ∈ reciprocalRankFusion [first, second],
        e.2 = fusedScore rrfK first second e.1 := fun e he =>
      score_of_mem_fusedOrder ((fusedOrder_perm first second).mem_iff.mpr he)
    have hplace' := (fusedOrder_perm first second).mem_iff.mp hplace
    refine mem_take_ordered (nodup_fusion _ _) hplace' (fun e he hne hbefore => ?_) hlength
    rw [hplaceId] at hne
    refine hfew e.1 hne ?_
    rw [← hscored e he, ← hplaceId, ← hscored place hplace']
    exact hbefore.elim le_of_lt fun h => h.1.le
  unfold HybridIndex.find HybridIndex.search
  rw [hcorpus, if_pos hready]
  dsimp only [Option.map_some, Option.getD_some]
  rw [← hfirst, ← hsecond, ← List.map_take]
  refine ⟨{ found with score := asFloat place.2 }, List.mem_filterMap.mpr
    ⟨_, List.mem_map_of_mem htake, ?_⟩, (index.chunkId_of_byId hbyId : found.chunkId = id)⟩
  dsimp only
  rw [hplaceId, hbyId]
  rfl

/-- The first of one ranking and one of the first four of the other: only two can score as much. -/
theorem mem_of_score_le_first {first second : List Text} (hfirst : first.Nodup)
    (hsecond : second.Nodup) {q : Nat} (hd₁ : first[0]? = some id) (hd₂ : second[q]? = some id)
    (hq : q ≤ 3) {e : Text} (hne : e ≠ id)
    (hle : weight (rrfK : ℚ) 1 first id + weight (rrfK : ℚ) 1 second id ≤
      weight (rrfK : ℚ) 1 first e + weight (rrfK : ℚ) 1 second e) : e ∈ second.take 2 := by
  by_contra hnot
  have hk : (0 : ℚ) < rrfK := by norm_num [rrfK]
  have hbehind : e ∉ first.take 1 := by
    rw [List.take_add_one, hd₁]
    simpa using hne
  have he₁ := weight_le_of_not_mem_take hk hfirst hbehind
  have he₂ := weight_le_of_not_mem_take hk hsecond hnot
  have hq' : (q : ℚ) ≤ 3 := by exact_mod_cast hq
  have hfourth : (1 : ℚ) / 64 ≤ 1 / (rrfK + 1 + q) := by
    refine one_div_le_one_div_of_le (by positivity) ?_
    norm_num [rrfK]
    linarith
  rw [weight_of_getElem? _ hfirst hd₁, weight_of_getElem? _ hsecond hd₂] at hle
  norm_num [rrfK] at hle he₁ he₂ hfourth
  linarith

end

/-! ## Two sections -/

/-- A chunk with a text. -/
def textChunk (id text : Text) : Chunk :=
  { chunkId := id, text, sourceFile := "policy.md", sectionId := id, sectionTitle := id
    charStart := 0, charEnd := text.length, citation := id }

def twoSections : HybridIndex Unit where
  chunks := [textChunk "water" "POL-1092: $25,000", textChunk "property" "Glasses"]
  bm25 := some ⟨[textChunk "water" "POL-1092: $25,000", textChunk "property" "Glasses"]⟩

theorem corpus_twoSections : twoSections.bm25 = some ⟨twoSections.chunks⟩ := rfl

/-- A sign for the logarithm. -/
theorem sub_one_pos : ∀ y : ℚ, 1 < y → 0 < y - 1 := fun _ h => sub_pos.mpr h

/-- The policy number of the query is found in the section that has it. -/
theorem policy_number_ranked :
    "water".toList ∈ BM25.rank (· - 1) ⟨twoSections.chunks⟩ "My POL-1092, please" 2 := by
  have hexact : ∀ rest : Text, rest.head?.any (fun c => isTermChar c || c == '-') = false →
      Exact "pol-1092" rest := fun rest hrest =>
    .identifier (x := 'p') (t := "ol") rfl rfl
      (by decide : ∀ p ∈ ["1092".toList], p ≠ [] ∧ p.all isTermChar = true) (.inr (by decide)) hrest
  have hquery : StandsIn "pol-1092" "My POL-1092, please" :=
    ⟨"my ", ", please", by decide, rfl, hexact _ rfl⟩
  have htext : StandsIn "pol-1092" "POL-1092: $25,000" :=
    ⟨[], ": $25,000", by decide, rfl, hexact _ rfl⟩
  exact BM25.exact_term_ranked ⟨twoSections.chunks⟩ sub_one_pos List.mem_cons_self hquery htext
    (by decide)

end OmniCare
