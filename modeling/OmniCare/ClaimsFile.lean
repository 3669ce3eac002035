import OmniCare.Amounts

/-! # The claims file

The text of `mock_claims.json`: what `JsonFileClaimsRepo._read` reads from it and what
`_append_sync` writes.  **What is written is read back, claim by claim**
(`readClaims_writeClaims`).
-/
namespace OmniCare

/-- A claim status, by its literal. -/
def ClaimStatus.read : Json → Option ClaimStatus
  | .str s => [submitted, underReview, approved, denied].find? fun t => t.text = s
  | _ => none

/-- The fields of `Claim`. -/
def claimFields : List Text :=
  ["claim_id", "policy_number", "claim_type", "status", "amount", "description"]

/-- The description of a record, empty by default. -/
def Claim.readDescription (fields : Dict) : Option {s : Text // Trimmed s} :=
  match Dict.get? fields "description" with
  | some description => trimmedText description
  | none => some ⟨[], rfl⟩

theorem trimmed_coe (s : {s : Text // Trimmed s}) : Trimmed s.1 := s.2

/-- `Claim.model_validate`. -/
def Claim.read : Json → Option Claim
  | .obj fields => do
      -- `extra="forbid"`
      let _ ← if fields.all fun field => claimFields.elem field.1 then some () else none
      let claimId ← trimmedText (← Dict.get? fields "claim_id")
      let policyNumber ← trimmedText (← Dict.get? fields "policy_number")
      let claimType ← ClaimType.read (← Dict.get? fields "claim_type")
      let status ← ClaimStatus.read (← Dict.get? fields "status")
      let cents ← readCents (← Dict.get? fields "amount")
      let description ← Claim.readDescription fields
      if h : isIdentifier claimPrefix claimId = true ∧
          isIdentifier policyPrefix policyNumber = true ∧
          (0 < cents ∧ cents < 1000000000000) ∧ description.1.length ≤ 1000 then
        some ⟨claimId, policyNumber, claimType, status, cents, description, h.1, h.2.1, h.2.2.1,
          h.2.2.2, trimmed_coe description⟩
      else none
  | _ => none

/-- The fields of `claim.model_dump(mode="json")`. -/
def Claim.asDict (claim : Claim) : Dict :=
  [("claim_id", .str claim.claimId), ("policy_number", .str claim.policyNumber),
    ("claim_type", .str claim.claimType.text), ("status", .str claim.status.text),
    ("amount", .float (floatOfCents claim.cents)), ("description", .str claim.description)]

/-- `claim.model_dump(mode="json")`. -/
def Claim.dump (claim : Claim) : Json := .obj claim.asDict

/-- The values that `for c in raw` goes over. -/
def Json.iterate : Json → Option (List Json)
  | .arr items => some items
  | .obj fields => some (fields.map fun field => .str field.1)
  | .str s => some (s.map fun c => .str [c])
  | _ => none

/-- `_read` of the text of a file; `none` is an exception. -/
def readClaims (text : Text) : Option (List Claim) := do
  let raw ← Json.loads (if text.isEmpty then "[]" else text)
  (← raw.iterate).mapM Claim.read

/-- The text that holds some claims: `json.dumps(payload, indent=2)`. -/
def writeClaims (claims : List Claim) : Text := Json.indented 0 (.arr (claims.map Claim.dump))

/-! ## What is written is read back -/

/-- An identifier has nothing to strip. -/
theorem trimmed_of_isIdentifier {pre s : Text} (hpre : pre.all (fun c => !isTrimmed c) = true)
    (h : isIdentifier pre s = true) : Trimmed s := by
  unfold isIdentifier at h
  split at h
  · rename_i digits hdrop
    rw [Bool.and_eq_true] at h
    refine Text.stripBy_eq_self fun c hc => ?_
    rw [Regex.dropPrefix?_eq_some hdrop] at hc
    rcases List.mem_append.mp hc with hc | hc
    · simpa using List.all_eq_true.mp hpre c hc
    · rw [isTrimmed, isSpace_of_isDigit (List.all_eq_true.mp h.2 c hc)]
      rfl
  · cases h

theorem trimmedText_of_trimmed {s : Text} (h : Trimmed s) :
    trimmedText (.str s) = some ⟨s, h⟩ := by
  rw [trimmedText]
  congr 2

theorem ClaimType.read_text (t : ClaimType) : ClaimType.read (.str t.text) = some t := by
  cases t <;> decide

theorem ClaimStatus.read_text (t : ClaimStatus) : ClaimStatus.read (.str t.text) = some t := by
  cases t <;> decide

/-- **A dumped claim passes its own checks.** -/
theorem Claim.read_dump (claim : Claim) : Claim.read claim.dump = some claim := by
  have hid := trimmedText_of_trimmed (trimmed_of_isIdentifier (by decide) claim.claimId_ok)
  have hpolicy :=
    trimmedText_of_trimmed (trimmed_of_isIdentifier (by decide) claim.policyNumber_ok)
  have hdescription := trimmedText_of_trimmed claim.description_trimmed
  have hcents := readCents_floatOfCents claim.cents_ok
  have hfields : claim.asDict.all (fun field => claimFields.elem field.1) = true := by
    simp only [Claim.asDict, List.all_cons, List.all_nil]
    decide
  have hget : Dict.get? claim.asDict "claim_id" = some (.str claim.claimId) ∧
      Dict.get? claim.asDict "policy_number" = some (.str claim.policyNumber) ∧
      Dict.get? claim.asDict "claim_type" = some (.str claim.claimType.text) ∧
      Dict.get? claim.asDict "status" = some (.str claim.status.text) ∧
      Dict.get? claim.asDict "amount" = some (.float (floatOfCents claim.cents)) ∧
      Dict.get? claim.asDict "description" = some (.str claim.description) :=
    ⟨rfl, rfl, rfl, rfl, rfl, rfl⟩
  obtain ⟨hgetId, hgetPolicy, hgetType, hgetStatus, hgetAmount, hgetDescription⟩ := hget
  have hread : Claim.readDescription claim.asDict =
      some ⟨claim.description, claim.description_trimmed⟩ := by
    rw [Claim.readDescription, hgetDescription]
    exact hdescription
  rw [Claim.dump, Claim.read, hfields, hgetId, hgetPolicy, hgetType, hgetStatus, hgetAmount, hread]
  simp only [if_true, Option.bind_eq_bind, Option.bind_some, hid, hpolicy, ClaimType.read_text,
    ClaimStatus.read_text, hcents]
  rw [dif_pos ⟨claim.claimId_ok, claim.policyNumber_ok, claim.cents_ok, claim.description_ok⟩]

/-- Every number of a dumped claim is read back, and it has each field once. -/
theorem Claim.readable_dump (claim : Claim) : claim.dump.Readable := by
  have hkeys : (claim.asDict.map Prod.fst).Nodup := by
    rw [Claim.asDict]
    simp only [List.map_cons, List.map_nil]
    decide
  exact ⟨hkeys, trivial, trivial, trivial, trivial, readsBack_floatOfCents claim.cents_ok, trivial,
    trivial⟩

/-- **A file that holds some claims is read as these claims.** -/
theorem readClaims_writeClaims (claims : List Claim) :
    readClaims (writeClaims claims) = some claims := by
  have hreadable : ∀ cs : List Claim, Json.ReadableItems (cs.map Claim.dump) := by
    intro cs
    induction cs with
    | nil => trivial
    | cons c cs ih => exact ⟨c.readable_dump, ih⟩
  have hne : (writeClaims claims).isEmpty = false := by
    cases claims <;> rfl
  have hmap : (claims.map Claim.dump).mapM Claim.read = some claims := by
    clear hne
    induction claims with
    | nil => rfl
    | cons c cs ih =>
      rw [List.map_cons, List.mapM_cons, c.read_dump, ih]
      rfl
  have hloads : Json.loads (writeClaims claims) = some (.arr (claims.map Claim.dump)) :=
    Json.loads_indented (v := .arr (claims.map Claim.dump)) (hreadable claims)
  rw [readClaims, hne, if_neg (by decide), hloads]
  exact hmap

end OmniCare
