import OmniCare.Indexing
import OmniCare.RankFusion
import Mathlib.Data.List.Dedup

/-! # Two rankings, fused

`reciprocal_rank_fusion` and `fuse` of `retrieval/app/hybrid.py`, in exact arithmetic: the ranking
of the dense retriever and that of BM25 are fused by reciprocal ranks, and the best chunks are
looked up in the index.  **Agreement counts for more than any rank in one ranking, a higher rank for
more than a lower one, and what `fuse` returns are the best chunks of the union, in order**
(`rankings_fused`).  The first of these rests on how short the rankings are: they have to be shorter
than `k + 2`.
-/
namespace OmniCare

open RankFusion

/-- `RRF_K`. -/
def rrfK : Int := 60

/-- `reciprocal_rank_fusion`. -/
def reciprocalRankFusion (rankings : List (List Text)) (k : Int := rrfK) : Tally Text ℚ :=
  fusion (k : ℚ) rankings

/-- The order of `fuse`: the best score first, and of equal scores the smaller id. -/
def fusedOrder (denseIds sparseIds : List Text) : List (Text × ℚ) :=
  ordered (reciprocalRankFusion [denseIds, sparseIds])

/-- `fuse`: the chunks, each with the score that it is given. -/
def fuse (denseIds sparseIds : List Text) (byId : Text → Option Chunk) (topK : Nat) :
    List (Chunk × ℚ) :=
  ((fusedOrder denseIds sparseIds).take topK).filterMap fun (id, score) =>
    (byId id).map fun c => (c, score)

/-- What `search` returns is what `fuse` returns. -/
theorem search_eq_fuse {V : Type} {index : HybridIndex V} (hready : index.ready = true)
    (denseIds sparseIds : List Text) (asFloat : ℚ → Json) (topK : Nat) :
    index.search ((fusedOrder denseIds sparseIds).map fun (id, score) => (id, asFloat score)) topK =
      (fuse denseIds sparseIds index.byId topK).map fun r => { r.1 with score := asFloat r.2 } := by
  unfold HybridIndex.search fuse
  rw [if_pos hready, ← List.map_take, List.filterMap_map, List.map_filterMap]
  refine List.filterMap_congr fun r _ => ?_
  obtain ⟨id, score⟩ := r
  simp only [Function.comp_apply, Option.map_map]
  rfl

/-! ## What is promised -/

/-- The fused score of a document: nothing, if neither ranking has it. -/
def fusedScore (k : Int) (first second : List Text) (id : Text) : ℚ :=
  (reciprocalRankFusion [first, second] k).of id

/-- What is returned are the best `topK` documents of two rankings. -/
structure FusesBest (byId : Text → Option Chunk) (denseIds sparseIds : List Text) (topK : Nat)
    (out : List (Chunk × ℚ)) : Prop where
  length : out.length = min topK (denseIds ∪ sparseIds).dedup.length
  distinct : (out.map (·.1)).Nodup
  indexed : ∀ r ∈ out, r.1.chunkId ∈ denseIds ∪ sparseIds ∧ byId r.1.chunkId = some r.1 ∧
    r.2 = fusedScore rrfK denseIds sparseIds r.1.chunkId
  sorted : out.Pairwise fun r s => s.2 ≤ r.2
  best : ∀ d ∈ denseIds ∪ sparseIds, d ∉ out.map (·.1.chunkId) →
    ∀ r ∈ out, fusedScore rrfK denseIds sparseIds d ≤ r.2

/-- What is promised of the fusion of two rankings. -/
structure RankingsFused (k : Int) (first second : List Text) : Prop where
  /-- Agreement. -/
  agreed : ∀ d e, d ∈ first → d ∈ second → (e ∈ first ↔ e ∉ second) →
    fusedScore k first second e < fusedScore k first second d
  higher : ∀ d e, RanksAtLeast first d e → RanksAtLeast second d e →
    RanksHigher first d e ∨ RanksHigher second d e →
    fusedScore k first second e < fusedScore k first second d
  fused : ∀ {V : Type} (index : HybridIndex V) (topK : Nat),
    (∀ id ∈ first ∪ second, (index.byId id).isSome) →
    FusesBest index.byId first second topK (fuse first second index.byId topK)

/-! ## Scores -/

section
variable {k : Int} {first second : List Text} {d e : Text}

theorem fusedScore_eq (k : Int) (first second : List Text) (id : Text) :
    fusedScore k first second id = weight (k : ℚ) 1 first id + weight (k : ℚ) 1 second id := by
  rw [fusedScore, reciprocalRankFusion, of_fusion]
  simp

theorem weight_of_not_mem {k : ℚ} {ranking : List Text} (h : ranking.Nodup) (hd : d ∉ ranking) :
    weight k 1 ranking d = 0 := by
  rw [weight_eq k 1 h, if_neg hd]

/-- The rankings are shorter than the constant and two. -/
theorem fusedScore_lt_of_agreed (hk : 1 ≤ k) (hfirst : first.Nodup) (hsecond : second.Nodup)
    (hlen₁ : (first.length : Int) < k + 2) (hlen₂ : (second.length : Int) < k + 2)
    (hd₁ : d ∈ first) (hd₂ : d ∈ second) (he : e ∈ first ↔ e ∉ second) :
    fusedScore k first second e < fusedScore k first second d := by
  have hpos : (0 : ℚ) < k := by exact_mod_cast (by omega : (0 : Int) < k)
  have hcast₁ : (first.length : ℚ) ≤ k + 1 := by
    exact_mod_cast (by omega : (first.length : Int) ≤ k + 1)
  have hcast₂ : (second.length : ℚ) ≤ k + 1 := by
    exact_mod_cast (by omega : (second.length : Int) ≤ k + 1)
  rw [fusedScore_eq, fusedScore_eq]
  refine score_lt_of_agreed hpos hfirst hsecond hcast₁ hcast₂ hd₁ hd₂ ?_
  by_cases hmem : e ∈ first
  · rw [weight_of_not_mem hsecond (he.mp hmem), add_zero]
    exact weight_le hpos hfirst e
  · rw [weight_of_not_mem hfirst hmem, zero_add]
    exact weight_le hpos hsecond e

theorem fusedScore_lt_of_higher (hk : 1 ≤ k) (hfirst : first.Nodup) (hsecond : second.Nodup)
    (h₁ : RanksAtLeast first d e) (h₂ : RanksAtLeast second d e)
    (h : RanksHigher first d e ∨ RanksHigher second d e) :
    fusedScore k first second e < fusedScore k first second d := by
  have hpos : (0 : ℚ) < k := by exact_mod_cast (by omega : (0 : Int) < k)
  rw [fusedScore_eq, fusedScore_eq]
  rcases h with h | h
  · exact add_lt_add_of_lt_of_le (weight_strictMono hpos hfirst h) (weight_mono hpos hsecond h₂)
  · exact add_lt_add_of_le_of_lt (weight_mono hpos hfirst h₁) (weight_strictMono hpos hsecond h)

end

/-! ## What `fuse` returns -/

section
variable {denseIds sparseIds : List Text} {topK : Nat}

theorem fusedOrder_perm (denseIds sparseIds : List Text) :
    (fusedOrder denseIds sparseIds).Perm (reciprocalRankFusion [denseIds, sparseIds]) :=
  ordered_perm _

theorem nodup_fusedOrder (denseIds sparseIds : List Text) :
    ((fusedOrder denseIds sparseIds).map (·.1)).Nodup :=
  ((fusedOrder_perm denseIds sparseIds).map _).nodup_iff.mpr (nodup_fusion _ _)

theorem mem_keys_fusedOrder {id : Text} :
    id ∈ (fusedOrder denseIds sparseIds).map (·.1) ↔ id ∈ denseIds ∪ sparseIds := by
  rw [((fusedOrder_perm denseIds sparseIds).map _).mem_iff, reciprocalRankFusion, keys_fusion]
  simp

theorem score_of_mem_fusedOrder {r : Text × ℚ} (h : r ∈ fusedOrder denseIds sparseIds) :
    r.2 = fusedScore rrfK denseIds sparseIds r.1 :=
  (Tally.of_eq_of_mem (nodup_fusion _ _) ((fusedOrder_perm denseIds sparseIds).mem_iff.mp h)).symm

theorem length_fusedOrder (denseIds sparseIds : List Text) :
    (fusedOrder denseIds sparseIds).length = (denseIds ∪ sparseIds).dedup.length := by
  rw [← List.length_map (·.1)]
  refine List.Perm.length_eq ?_
  refine (List.perm_ext_iff_of_nodup (nodup_fusedOrder _ _) (List.nodup_dedup _)).mpr fun id => ?_
  rw [mem_keys_fusedOrder, List.mem_dedup]

/-- The chunk that is found for an id has it. -/
theorem HybridIndex.chunkId_of_byId {V : Type} {index : HybridIndex V} {id : Text} {c : Chunk}
    (h : index.byId id = some c) : c.chunkId = id := by
  simpa using List.find?_some h

/-- Where every id is found, a chunk stands for each place of the order. -/
theorem map_fuse {V : Type} {index : HybridIndex V}
    (hindexed : ∀ id ∈ denseIds ∪ sparseIds, (index.byId id).isSome) :
    (fuse denseIds sparseIds index.byId topK).map (fun r => (r.1.chunkId, r.2)) =
      (fusedOrder denseIds sparseIds).take topK := by
  have hall : ∀ r ∈ (fusedOrder denseIds sparseIds).take topK, (index.byId r.1).isSome := by
    intro r hr
    refine hindexed r.1 (mem_keys_fusedOrder.mp (List.mem_map_of_mem (List.mem_of_mem_take hr)))
  unfold fuse
  generalize (fusedOrder denseIds sparseIds).take topK = places at hall
  induction places with
  | nil => rfl
  | cons r rest ih =>
    obtain ⟨id, score⟩ := r
    obtain ⟨hsome, hrest⟩ := List.forall_mem_cons.mp hall
    obtain ⟨c, hc⟩ := Option.isSome_iff_exists.mp hsome
    rw [List.filterMap_cons]
    simp only [hc, Option.map_some, List.map_cons, ih hrest, index.chunkId_of_byId hc]

theorem fusesBest {V : Type} {index : HybridIndex V}
    (hindexed : ∀ id ∈ denseIds ∪ sparseIds, (index.byId id).isSome) :
    FusesBest index.byId denseIds sparseIds topK (fuse denseIds sparseIds index.byId topK) := by
  have hplaces : (fuse denseIds sparseIds index.byId topK).map (fun r => (r.1.chunkId, r.2)) =
      (fusedOrder denseIds sparseIds).take topK := map_fuse hindexed
  have hids : (fuse denseIds sparseIds index.byId topK).map (·.1.chunkId) =
      ((fusedOrder denseIds sparseIds).take topK).map (·.1) := by
    rw [← hplaces, List.map_map]
    rfl
  have hscores : (fuse denseIds sparseIds index.byId topK).map (·.2) =
      ((fusedOrder denseIds sparseIds).take topK).map (·.2) := by
    rw [← hplaces, List.map_map]
    rfl
  have hplace : ∀ r ∈ fuse denseIds sparseIds index.byId topK,
      (r.1.chunkId, r.2) ∈ (fusedOrder denseIds sparseIds).take topK := by
    intro r hr
    rw [← hplaces]
    exact List.mem_map_of_mem (f := fun r : Chunk × ℚ => (r.1.chunkId, r.2)) hr
  have hsorted := ordered_pairwise (reciprocalRankFusion [denseIds, sparseIds])
  refine ⟨?_, ?_, ?_, ?_, ?_⟩
  · rw [← length_fusedOrder, ← List.length_take, ← hplaces, List.length_map]
  · refine List.Nodup.of_map Chunk.chunkId ?_
    rw [List.map_map]
    show ((fuse denseIds sparseIds index.byId topK).map (·.1.chunkId)).Nodup
    rw [hids]
    exact (nodup_fusedOrder _ _).sublist ((List.take_sublist _ _).map _)
  · intro r hr
    have hmem := List.mem_of_mem_take (hplace r hr)
    refine ⟨mem_keys_fusedOrder.mp (List.mem_map_of_mem hmem), ?_, score_of_mem_fusedOrder hmem⟩
    obtain ⟨place, -, hfound⟩ := List.mem_filterMap.mp hr
    obtain ⟨c, hc, rfl⟩ := Option.map_eq_some_iff.mp hfound
    rw [index.chunkId_of_byId hc]
    exact hc
  · rw [← List.pairwise_map (f := fun r : Chunk × ℚ => r.2) (R := fun x y => y ≤ x), hscores,
      List.pairwise_map]
    exact hsorted.sublist (List.take_sublist _ _)
  · intro d hd homitted r hr
    -- what is omitted stands behind what is returned
    obtain ⟨place, hmem, rfl⟩ := List.mem_map.mp (mem_keys_fusedOrder.mpr hd)
    rw [← score_of_mem_fusedOrder hmem]
    have hsplit := List.take_append_drop topK (fusedOrder denseIds sparseIds)
    rw [← hsplit] at hmem
    rcases List.mem_append.mp hmem with htaken | hdropped
    · exact absurd (hids ▸ List.mem_map_of_mem htaken) homitted
    · have happart : ((fusedOrder denseIds sparseIds).take topK ++
          (fusedOrder denseIds sparseIds).drop topK).Pairwise fun a b => b.2 ≤ a.2 := by
        rw [hsplit]
        exact hsorted
      exact (List.pairwise_append.mp happart).2.2 _ (hplace r hr) _ hdropped

end

/-- **Rankings without duplicates, shorter than the constant and two, are fused as promised.** -/
theorem rankings_fused {k : Int} (hk : 1 ≤ k) {first second : List Text} (hfirst : first.Nodup)
    (hsecond : second.Nodup) (hlen₁ : (first.length : Int) < k + 2)
    (hlen₂ : (second.length : Int) < k + 2) : RankingsFused k first second where
  agreed _ _ := fusedScore_lt_of_agreed hk hfirst hsecond hlen₁ hlen₂
  higher _ _ := fusedScore_lt_of_higher hk hfirst hsecond
  fused _ _ := fusesBest

/-- Rankings of two documents out of three: the one that both have comes first. -/
theorem agreed_document_first :
    (fusedOrder ["a", "b"] ["b", "c"]).map (·.1) = ["b".toList, "a".toList, "c".toList] ∧
      RankingsFused rrfK ["a", "b"] ["b", "c"] :=
  ⟨by decide +kernel, rankings_fused (by decide) (by decide) (by decide) (by decide) (by decide)⟩

end OmniCare
