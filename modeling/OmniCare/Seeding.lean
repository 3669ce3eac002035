import OmniCare.Appends

/-! # Seeding a claims volume

`seed_claims` tests whether the claims file exists and then opens it for writing, outside the
file lock.  Between the two another replica may have started and filed a claim, which opening
the file throws away.  **No claim that has been filed is lost in any run in which no append
replaces the file while a starting replica that has missed it has yet to open it**
(`filed_claims_kept`).
-/
namespace OmniCare

namespace Volume

variable {v w : Volume} {seed : Text} {es fs : List VolumeEvent}

/-- Every claim that has been filed is in the file. -/
def NoneLost (v : Volume) (es : List VolumeEvent) : Prop :=
  ∀ claim ∈ filed es, ∃ claims, v.claims? = some claims ∧ claim ∈ claims

/-- No append replaces the file while a replica stands between its existence test, which found
no file, and opening the file. -/
def quiet (v : Volume) : VolumeAction → Bool
  | .proceed k _ =>
      match v.appends[k]?.map AppendCall.phase with
      | some (.writing _ _ []) => v.replicas.all (·.startup ≠ .absent)
      | _ => true
  | _ => true

/-- Replicas that are down or up, with nothing in flight, on whatever volume. -/
structure Idle (v : Volume) : Prop where
  replicas : ∀ x ∈ v.replicas, x.startup = .down ∨ x.startup = .up
  idle : v.lock = none ∧ v.appends = [] ∧ v.readings = []

/-- Only a step of an append replaces the claims file. -/
theorem proceed_of_replaced {a : VolumeAction} {k : Nat} {claim : Claim}
    (h : v.step seed a = some (w, [.replaced k claim])) : ∃ size, a = .proceed k size := by
  have mapped : ∀ {o : Option Volume},
      o.map (·, ([] : List VolumeEvent)) ≠ some (w, [.replaced k claim]) := by
    intro o ho
    obtain ⟨u, -, heq⟩ := Option.map_eq_some_iff.mp ho
    cases heq
  cases a with
  | proceed j size =>
    obtain ⟨c, here, h⟩ := Option.bind_eq_some_iff.mp h
    unfold proceed at h
    split at h
    case h_6 =>
      split at h
      · cases h
        exact ⟨size, rfl⟩
      · cases h
    case h_9 result phase =>
      -- the end of an append is no replacement
      split at h
      · cases h
      · have hevents := congrArg Prod.snd (Option.some.inj h)
        cases result <;> cases hevents
    all_goals first
      | cases h
      | (split at h <;> first | cases h | (split at h <;> cases h))
  | start r =>
    obtain ⟨x, -, h⟩ := Option.bind_eq_some_iff.mp h
    split at h <;> cases h
  | seed r size =>
    obtain ⟨x, -, h⟩ := Option.bind_eq_some_iff.mp h
    exact absurd h mapped
  | crash r => cases h
  | call r args =>
    rw [step] at h
    split at h <;> cases h
  | fault j =>
    obtain ⟨c, -, h⟩ := Option.bind_eq_some_iff.mp h
    exact absurd h mapped
  | cancel j =>
    obtain ⟨c, -, h⟩ := Option.bind_eq_some_iff.mp h
    exact absurd h mapped
  | look r =>
    rw [step] at h
    split at h
    · split at h <;> cases h
    · cases h
  | read j size =>
    obtain ⟨o, -, h⟩ := Option.bind_eq_some_iff.mp h
    obtain ⟨x, -, h⟩ := Option.bind_eq_some_iff.mp h
    have hevents := congrArg Prod.snd (Option.some.inj h)
    unfold readOn at hevents
    split at hevents <;> cases hevents

/-- Either nothing has been filed, or the file holds what an append has read and all that has
been filed. -/
structure Seeded (v : Volume) (es : List VolumeEvent) : Prop where
  orderly : Orderly v
  settled : filed es = [] ∨ ∃ base, Settled (base ++ filed es) v

theorem seeded_of_idle (h : Idle v) : Seeded v [] := by
  have nobody : ∀ {k : Nat} {c : AppendCall}, v.appends[k]? ≠ some c := by
    rw [h.idle.2.1]
    nofun
  refine ⟨⟨fun hc => absurd hc nobody, fun hc => absurd hc nobody, ?_⟩, .inl rfl⟩
  rintro file ⟨r, x, rest, hx, hseeding⟩
  rcases h.replicas _ (List.mem_of_getElem? hx) with hdown | hup
  · rw [hdown] at hseeding
    cases hseeding
  · rw [hup] at hseeding
    cases hseeding

theorem seeded_step {a : VolumeAction} (hv : Seeded v es) (h : v.step seed a = some (w, fs))
    (hquiet : quiet v a = true) : Seeded w (es ++ fs) := by
  have hmove := move_of_step h
  refine ⟨orderly_move hv.orderly hmove, ?_⟩
  rw [filed_append]
  rcases hv.settled with hnothing | ⟨base, hs⟩
  · rw [hnothing]
    cases hmove with
    | @replaced k file c claim disk here writing renamed =>
      -- the first claim is filed, and nobody is about to open the file
      obtain ⟨size, rfl⟩ := proceed_of_replaced h
      have hunmissed : ¬ v.Misses := by
        rintro ⟨r, x, hx, habsent⟩
        rw [quiet, here, Option.map_some, writing] at hquiet
        have := List.all_eq_true.mp hquiet x (List.mem_of_getElem? hx)
        rw [habsent] at this
        cases this
      obtain ⟨-, claims, hcontent, -⟩ := hv.orderly.draft here writing
      rw [List.append_nil] at hcontent
      exact .inr ⟨claims, settled_replaced hv.orderly hunmissed here writing renamed hcontent⟩
    | @ended k c result =>
      refine .inl ?_
      cases result <;> rfl
    | _ => exact .inl rfl
  · refine .inr ⟨base, ?_⟩
    rw [← List.append_assoc]
    exact settled_move hs hv.orderly hmove

/-- **In every run in which no append replaces the file between the existence test of a starting
replica and its opening of the file, no claim that has been filed is lost.** -/
theorem filed_claims_kept {v₀ : Volume} {as : List VolumeAction} (hidle : Idle v₀)
    (h : Run (Computes (restrict quiet (step seed))) v₀ as v es) : NoneLost v es := by
  have hseeded : Seeded v es := h.invariant_restrict (seeded_of_idle hidle) seeded_step
  intro claim hclaim
  rcases hseeded.settled with hnothing | ⟨base, hs⟩
  · rw [hnothing] at hclaim
    cases hclaim
  · obtain ⟨i, hi, hread⟩ := hs.file
    refine ⟨base ++ filed es, ?_, List.mem_append_right _ hclaim⟩
    rw [claims?, Disk.text?, hi]
    exact hread

/-- A volume without files, and some replicas that are down. -/
def bare (replicas : Nat) : Volume := { replicas := List.replicate replicas {} }

theorem idle_bare (replicas : Nat) : Idle (bare replicas) := by
  refine ⟨fun x hx => ?_, rfl, rfl, rfl⟩
  rw [List.eq_of_mem_replicate hx]
  exact .inl rfl

/-- A replica starts and seeds the file with an empty list. -/
def startAlone (r : Nat) : List VolumeAction :=
  [.start r, .seed r 0, .seed r 0, .seed r 9999, .seed r 0]

/-- A replica that starts later finds the file, and the claim of the first one stays. -/
theorem later_replica_keeps_claim :
    ∃ v es, Run (Computes (restrict quiet (step "[]".toList))) (bare 2)
        (startAlone 0 ++ .call 0 burstPipe :: undisturbed 0 ++ [.start 1, .seed 1 0]) v es ∧
      (filed es).length = 1 ∧ NoneLost v es := by
  obtain ⟨v, es, h, hp⟩ := exists_run_of_play (restrict quiet (step "[]".toList)) (bare 2)
    (startAlone 0 ++ .call 0 burstPipe :: undisturbed 0 ++ [.start 1, .seed 1 0])
    (fun _ es => (filed es).length = 1) (by decide +kernel)
  exact ⟨v, es, h, of_decide_eq_true hp, filed_claims_kept (idle_bare 2) h⟩

/-- A replica that has missed the file opens it after another one has filed a claim. -/
theorem late_seed_loses_claim :
    ∃ v es, Run (Computes (step "[]".toList)) (bare 2)
        ([.start 1, .seed 1 0] ++ startAlone 0 ++ .call 0 burstPipe :: undisturbed 0 ++
          [.seed 1 0]) v es ∧ ¬ NoneLost v es := by
  obtain ⟨v, es, h, hp⟩ := exists_run_of_play (step "[]".toList) (bare 2)
    ([.start 1, .seed 1 0] ++ startAlone 0 ++ .call 0 burstPipe :: undisturbed 0 ++ [.seed 1 0])
    (fun v es => filed es ≠ [] ∧ v.claims? = some []) (by decide +kernel)
  obtain ⟨hfiled, hempty⟩ := of_decide_eq_true hp
  refine ⟨v, es, h, fun hnone => ?_⟩
  obtain ⟨claim, hclaim⟩ := List.exists_mem_of_ne_nil _ hfiled
  obtain ⟨claims, hclaims, hmem⟩ := hnone claim hclaim
  rw [hempty] at hclaims
  cases hclaims
  cases hmem

end Volume
end OmniCare
