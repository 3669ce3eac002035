import OmniCare.Indexing
import OmniCare.Rules
import OmniCare.Runs

/-! # The sections a settlement is computed from

The retrieval service indexes its documents when it starts and at each `ingest`; it answers only
while it runs, after the warm-up.  A worker fetches the sections for its first settlements and keeps
them: `RetrievalClient._sections` is assigned once a fetch is answered, and from then on it is what
every settlement uses.

The claim types of the calls that wait for the sections are those of `settlement_for`; several
conversations of the worker may wait at a time, and a fetch may fail at any point of it.
-/
namespace OmniCare

variable {V : Type}

/-- A chunk as the `sections` endpoint returns it. -/
def Chunk.policySection (c : Chunk) : PolicySection := ⟨c.sectionTitle, c.text, c.sourceFile⟩

/-- The `sections` endpoint. -/
def HybridIndex.policySections (index : HybridIndex V) : List PolicySection :=
  index.chunks.map Chunk.policySection

/-- Where a fetch of the sections is. -/
inductive Fetch
  /-- The request is sent. -/
  | asked
  /-- The response is on its way. -/
  | answered (sections : List PolicySection)
  /-- The sections are assigned, and the HTTP client is being closed. -/
  | kept

/-- A call of the settlement provider that waits for the sections. -/
structure SettlementCall where
  claimType : Text
  fetch : Fetch := .asked

/-- The retrieval service and one worker. -/
structure Settling (V : Type) where
  /-- What the vector store has kept of the runs of the service before. -/
  disk : List (Entry V) := []
  /-- `app.state.index`, while the service answers. -/
  index : Option (HybridIndex V) := none
  /-- `RetrievalClient._sections`. -/
  sections : Option (List PolicySection) := none
  calls : Nat → Option SettlementCall := fun _ => none

namespace Settling

/-- What happens to the service and to the worker. -/
inductive Action
  /-- The service starts; its warm-up ends with the documents indexed. -/
  | start (d : Directory)
  | stop
  | ingest (d : Directory)
  /-- A settlement is asked for, in a conversation of the worker. -/
  | settle (n : Nat) (claimType : Text)
  | answer (n : Nat)
  | receive (n : Nat)
  | close (n : Nat)
  /-- The fetch raises: refused, timed out, answered with an error or with something else. -/
  | fail (n : Nat)

/-- What is seen of it. -/
inductive Event
  /-- The service has indexed its documents, and these are its sections. -/
  | indexed (sections : List PolicySection)
  /-- The service has answered a fetch. -/
  | answered (sections : List PolicySection)
  /-- `settlement_for` is called with these sections. -/
  | settled (claimType : Text) (sections : List PolicySection)

variable (store : VectorStore V) (embed : Text → V) (durable : Bool)

/-- The service once it has indexed a directory. -/
def indexing (s : Settling V) (index : HybridIndex V) (d : Directory) : Settling V × List Event :=
  let index := index.ingestDirectory store embed d
  ({ s with index := some index }, [.indexed index.policySections])

/-- The worker with a call that waits no more. -/
def withoutCall (s : Settling V) (n : Nat) : Settling V :=
  { s with calls := Function.update s.calls n none }

/-- The worker with a call at a point of its fetch. -/
def withCall (s : Settling V) (n : Nat) (call : SettlementCall) : Settling V :=
  { s with calls := Function.update s.calls n (some call) }

/-- One step.  A collection on disk outlives the service (`durable`), an in-memory store does
not. -/
def step (s : Settling V) : Action → Option (Settling V × List Event)
  | .start d =>
      match s.index with
      | none => some (s.indexing store embed { stored := s.disk } d)
      | some _ => none
  | .stop =>
      let stored := (s.index.map (·.stored)).getD s.disk
      some ({ s with index := none, disk := if durable then stored else [] }, [])
  | .ingest d => s.index.map fun index => s.indexing store embed index d
  | .settle n claimType =>
      match s.calls n with
      | some _ => none
      | none =>
          match s.sections with
          | some sections => some (s, [.settled claimType sections])
          | none => some (s.withCall n { claimType }, [])
  | .answer n =>
      match s.calls n, s.index with
      | some ⟨claimType, .asked⟩, some index =>
          some (s.withCall n ⟨claimType, .answered index.policySections⟩,
            [.answered index.policySections])
      | _, _ => none
  | .receive n =>
      match s.calls n with
      | some ⟨claimType, .answered sections⟩ =>
          some ({ s with sections := some sections }.withCall n ⟨claimType, .kept⟩, [])
      | _ => none
  | .close n =>
      match s.calls n, s.sections with
      -- `return self._sections`, which another call may have assigned since
      | some ⟨claimType, .kept⟩, some sections =>
          some (s.withoutCall n, [.settled claimType sections])
      | _, _ => none
  | .fail n => (s.calls n).map fun call => (s.withoutCall n, [.settled call.claimType []])

/-- What a step does, by the action. -/
inductive Step (s : Settling V) : Action → Settling V → List Event → Prop
  | start (d : Directory) (down : s.index = none) :
      Step s (.start d) (s.indexing store embed { stored := s.disk } d).1
        (s.indexing store embed { stored := s.disk } d).2
  | stop (disk : List (Entry V)) : Step s .stop { s with index := none, disk } []
  | ingest (d : Directory) {index : HybridIndex V} (up : s.index = some index) :
      Step s (.ingest d) (s.indexing store embed index d).1 (s.indexing store embed index d).2
  | cached {n : Nat} {claimType : Text} {l : List PolicySection} (here : s.sections = some l) :
      Step s (.settle n claimType) s [.settled claimType l]
  | asked {n : Nat} {claimType : Text} (missing : s.sections = none) :
      Step s (.settle n claimType) (s.withCall n { claimType }) []
  | answer {n : Nat} {claimType : Text} {index : HybridIndex V} (up : s.index = some index)
      (call : s.calls n = some { claimType }) :
      Step s (.answer n) (s.withCall n ⟨claimType, .answered index.policySections⟩)
        [.answered index.policySections]
  | receive {n : Nat} {claimType : Text} {l : List PolicySection}
      (call : s.calls n = some ⟨claimType, .answered l⟩) :
      Step s (.receive n) ({ s with sections := some l }.withCall n ⟨claimType, .kept⟩) []
  | close {n : Nat} {claimType : Text} {l : List PolicySection} (here : s.sections = some l) :
      Step s (.close n) (s.withoutCall n) [.settled claimType l]
  | fail {n : Nat} {claimType : Text} : Step s (.fail n) (s.withoutCall n) [.settled claimType []]

variable {store embed durable}

theorem step_cases {s t : Settling V} {a : Action} {fs : List Event}
    (h : step store embed durable s a = some (t, fs)) : Step store embed s a t fs := by
  cases a with
  | start d =>
    dsimp only [step] at h
    split at h
    · rename_i hdown
      cases h
      exact .start d hdown
    · cases h
  | stop =>
    cases h
    exact .stop _
  | ingest d =>
    obtain ⟨index, hup, h⟩ := Option.map_eq_some_iff.mp h
    cases h
    exact .ingest d hup
  | settle n claimType =>
    dsimp only [step] at h
    split at h
    · cases h
    · split at h
      · rename_i hsections
        cases h
        exact .cached hsections
      · rename_i hsections
        cases h
        exact .asked hsections
  | answer n =>
    dsimp only [step] at h
    split at h
    · rename_i hcall hup
      cases h
      exact .answer hup hcall
    · cases h
  | receive n =>
    dsimp only [step] at h
    split at h
    · rename_i hcall
      cases h
      exact .receive hcall
    · cases h
  | close n =>
    dsimp only [step] at h
    split at h
    · rename_i hsections
      cases h
      exact .close hsections
    · cases h
  | fail n =>
    obtain ⟨call, -, h⟩ := Option.map_eq_some_iff.mp h
    cases h
    exact .fail

/-! ## What is kept has been served -/

/-- The sections last indexed. -/
def lastIndexed (es : List Event) : Option (List PolicySection) :=
  (es.filterMap fun
    | .indexed sections => some sections
    | _ => none).getLast?

/-- A fetch was answered with these sections, which were the indexed ones then. -/
def Served (es : List Event) (sections : List PolicySection) : Prop :=
  ∃ before after, es = before ++ .answered sections :: after ∧ lastIndexed before = some sections

theorem Served.append {es : List Event} {l : List PolicySection} (h : Served es l)
    (fs : List Event) : Served (es ++ fs) l := by
  obtain ⟨before, after, rfl, hlast⟩ := h
  exact ⟨before, after ++ fs, by simp, hlast⟩

theorem lastIndexed_append (es fs : List Event) :
    lastIndexed (es ++ fs) = (lastIndexed fs).or (lastIndexed es) := by
  unfold lastIndexed
  rw [List.filterMap_append, List.getLast?_append]

theorem lastIndexed_eq_of_forall {fs : List Event} {l m : List PolicySection}
    (h : ∀ l', Event.indexed l' ∈ fs → l' = l) (hm : lastIndexed fs = some m) : m = l := by
  obtain ⟨e, he, hem⟩ := List.mem_filterMap.mp (List.mem_of_getLast? hm)
  cases e with
  | indexed l' =>
    cases hem
    exact h _ he
  | answered | settled => cases hem

/-- What holds of every run: the service answers with what was indexed last, and the sections that
are on their way or kept have been served. -/
structure Inv (s : Settling V) (es : List Event) : Prop where
  current : ∀ index, s.index = some index → lastIndexed es = some index.policySections
  awaited : ∀ n claimType l, s.calls n = some ⟨claimType, .answered l⟩ → Served es l
  cached : ∀ l, s.sections = some l → Served es l

/-- A step of the worker leaves the service alone, and what it has in the end has been served. -/
theorem Inv.of_worker {s t : Settling V} {es fs : List Event} (h : Inv s es)
    (hindex : t.index = s.index) (hnone : lastIndexed fs = none)
    (hcalls : ∀ n claimType l, t.calls n = some ⟨claimType, .answered l⟩ →
      s.calls n = some ⟨claimType, .answered l⟩ ∨ Served (es ++ fs) l)
    (hsections : ∀ l, t.sections = some l → s.sections = some l ∨ Served es l) :
    Inv t (es ++ fs) where
  current index hi := by
    rw [lastIndexed_append, hnone]
    exact h.current index (hindex ▸ hi)
  awaited n claimType l hn := (hcalls n claimType l hn).elim
    (fun hn => (h.awaited n claimType l hn).append fs) id
  cached l hl := (hsections l hl).elim (fun hl => (h.cached l hl).append fs) (·.append fs)

/-- Indexing leaves the worker alone. -/
theorem Inv.indexing {s : Settling V} {es : List Event} (h : Inv s es) (index : HybridIndex V)
    (d : Directory) :
    Inv (s.indexing store embed index d).1 (es ++ (s.indexing store embed index d).2) where
  current i hi := by
    cases hi
    rw [lastIndexed_append]
    rfl
  awaited n claimType l hn := (h.awaited n claimType l hn).append _
  cached l hl := (h.cached l hl).append _

/-- A call that is left was there when another one was dropped. -/
theorem calls_withoutCall {s : Settling V} {n m : Nat} {call : SettlementCall}
    (h : (s.withoutCall n).calls m = some call) : s.calls m = some call := by
  have h : Function.update s.calls n none m = some call := h
  by_cases hm : m = n
  · rw [hm, Function.update_self] at h
    cases h
  · rwa [Function.update_of_ne hm] at h

/-- A call is the one that moved, or as it was. -/
theorem calls_withCall {s : Settling V} {n m : Nat} {moved call : SettlementCall}
    (h : (s.withCall n moved).calls m = some call) : call = moved ∨ s.calls m = some call := by
  have h : Function.update s.calls n (some moved) m = some call := h
  by_cases hm : m = n
  · rw [hm, Function.update_self] at h
    exact .inl (Option.some.inj h).symm
  · rw [Function.update_of_ne hm] at h
    exact .inr h

theorem inv_step {s t : Settling V} {a : Action} {es fs : List Event} (h : Inv s es)
    (hs : step store embed durable s a = some (t, fs)) : Inv t (es ++ fs) := by
  cases step_cases hs with
  | start d => exact h.indexing _ d
  | ingest d => exact h.indexing _ d
  | stop =>
    exact ⟨nofun, fun n claimType l hn => (h.awaited n claimType l hn).append _,
      fun l hl => (h.cached l hl).append _⟩
  | cached => exact h.of_worker rfl rfl (fun _ _ _ hn => .inl hn) fun _ hl => .inl hl
  | asked =>
    refine h.of_worker rfl rfl (fun _ _ _ hn => ?_) fun _ hl => .inl hl
    exact .inl ((calls_withCall hn).resolve_left nofun)
  | @answer n claimType index hup hcall =>
    refine h.of_worker rfl rfl (fun m claimType' l hm => ?_) fun _ hl => .inl hl
    rcases calls_withCall hm with heq | hm
    · -- the answer is what was indexed last
      cases heq
      exact .inr ⟨es, [], rfl, h.current index hup⟩
    · exact .inl hm
  | @receive n claimType sections hcall =>
    refine h.of_worker rfl rfl (fun m claimType' l hm => ?_) fun l hl => ?_
    · exact .inl ((calls_withCall (s := { s with sections := some sections }) hm).resolve_left
        nofun)
    · cases hl
      exact .inr (h.awaited n claimType _ hcall)
  | close | fail =>
    exact h.of_worker rfl rfl (fun _ _ _ hn => .inl (calls_withoutCall hn)) fun _ hl => .inl hl

theorem inv_initial : Inv ({} : Settling V) [] where
  current _ h := by cases h
  awaited _ _ _ h := by cases h
  cached _ h := by cases h

theorem inv_run {as : List Action} {t : Settling V} {es : List Event}
    (h : Run (Computes (step store embed durable)) {} as t es) : Inv t es :=
  h.invariant inv_initial inv_step

/-- A settlement uses what is cached, or nothing where its fetch failed. -/
theorem sections_of_settled {s t : Settling V} {a : Action} {fs : List Event} {claimType : Text}
    {used : List PolicySection} (hs : step store embed durable s a = some (t, fs))
    (h : .settled claimType used ∈ fs) : s.sections = some used ∨ used = [] := by
  cases step_cases hs with
  | start | ingest | answer => cases List.mem_singleton.mp h
  | stop | asked | receive => cases h
  | cached hsections | close hsections =>
    cases List.mem_singleton.mp h
    exact .inl hsections
  | fail =>
    cases List.mem_singleton.mp h
    exact .inr rfl

theorem settlementTerms_nil (claimType : Text) : settlementTerms claimType [] = .ok none := by
  unfold settlementTerms governingSection
  split <;> rfl

/-- A policy with one section, covered up to a limit. -/
def waterPolicy (limit : Text) : Directory :=
  [("policy.md", "## Section 1: Water Damage

Covered up to ".toList ++ limit ++ " with a $500 deductible.
".toList)]

/-- Its section. -/
def waterSection (limit : Text) : PolicySection where
  title := "Section 1: Water Damage"
  text := "Section 1: Water Damage

Covered up to ".toList ++ limit ++ " with a $500 deductible.".toList
  sourceFile := "policy.md"

/-- The terms of the section with a limit of $25,000. -/
def waterTerms : Terms where
  limit := some (.fin 25000 0)
  deductible := some (.fin 500 0)
  sectionTitle := "Section 1: Water Damage"
  sourceFile := "policy.md"
  policySays := ["Section 1: Water Damage

Covered up to $25,000 with a $500 deductible."]
  exclusions := []

theorem settlementTerms_water :
    settlementTerms "Water Damage" [waterSection "$25,000"] = .ok (some waterTerms) := by
  decide +kernel

/-- A worker's first settlement is asked for, and the sections are fetched. -/
def firstFetch : List Action :=
  [.start (waterPolicy "$25,000"), .settle 0 "Water Damage", .answer 0, .receive 0]

end Settling
end OmniCare
