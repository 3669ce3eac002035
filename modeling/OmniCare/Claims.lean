import OmniCare.Normalize
import OmniCare.PyJson

/-! # Claims and where they are kept

`libs/contracts/claims.py` and the adapters of the port `libs/ports/claims.py`.  A value of
`SubmitClaimArgs` or `Claim` has passed the checks of its contract.  A `ClaimsRepository` is
a store with the two laws every adapter keeps: `append` adds one claim with an id that is
new, or adds nothing.

Amounts are whole cents: the contracts allow two decimal places, and a `Decimal` keeps them
exactly.
-/
namespace OmniCare

/-! ## Contracts -/

/-- `ClaimType`. -/
inductive ClaimType
  | waterDamage
  | personalProperty
  deriving DecidableEq, Repr

/-- The literal of a claim type. -/
def ClaimType.text : ClaimType → Text
  | waterDamage => "Water Damage"
  | personalProperty => "Personal Property"

/-- `ClaimStatus`. -/
inductive ClaimStatus
  | submitted
  | underReview
  | approved
  | denied
  deriving DecidableEq, Repr

/-- The literal of a claim status. -/
def ClaimStatus.text : ClaimStatus → Text
  | submitted => "Submitted"
  | underReview => "Under Review"
  | approved => "Approved"
  | denied => "Denied"

/-- `^{prefix}\d{4}$`: `POLICY_NUMBER_PATTERN` and `CLAIM_ID_PATTERN`. -/
def isIdentifier (pre s : Text) : Bool :=
  match Text.dropPrefix? pre s with
  | some digits => digits.length == 4 && digits.all isDigit
  | none => false

/-- `POL-`, with which policy numbers begin. -/
def policyPrefix : Text := "POL-"

/-- `CLM-`, with which claim ids begin. -/
def claimPrefix : Text := "CLM-"

/-- White space as pydantic strips it: `isSpace` without the separators `\x1c` to `\x1f`. -/
def isTrimmed (c : Char) : Bool := isSpace c && !(28 ≤ c.toNat && c.toNat ≤ 31)

/-- A text as `str_strip_whitespace` leaves it. -/
def Trimmed (s : Text) : Prop := Text.stripBy isTrimmed s = s

/-- `SubmitClaimArgs`. -/
structure SubmitClaimArgs where
  policyNumber : Text
  claimType : ClaimType
  cents : Nat
  description : Text
  policyNumber_ok : isIdentifier policyPrefix policyNumber = true
  cents_ok : 0 < cents ∧ cents ≤ 100000000
  description_ok : 10 ≤ description.length ∧ description.length ≤ 1000
  description_trimmed : Trimmed description
  deriving DecidableEq

/-- `Claim`: a claim record. -/
structure Claim where
  claimId : Text
  policyNumber : Text
  claimType : ClaimType
  status : ClaimStatus
  cents : Nat
  description : Text := []
  claimId_ok : isIdentifier claimPrefix claimId = true
  policyNumber_ok : isIdentifier policyPrefix policyNumber = true
  cents_ok : 0 < cents ∧ cents < 1000000000000
  description_ok : description.length ≤ 1000
  description_trimmed : Trimmed description
  deriving DecidableEq

/-- The `float` of an amount. -/
def floatOfCents (cents : Nat) : PyFloat := .ofDecimal false cents (-2)

/-- pydantic's `ValidationError`. -/
def validationError : PyError := ⟨"ValidationError", []⟩

/-! ## Reading the arguments of a call -/

/-- `str_strip_whitespace`. -/
def trimmedText : Json → Option {s : Text // Trimmed s}
  | .str s => some ⟨Text.stripBy isTrimmed s, Text.stripBy_stripBy isTrimmed s⟩
  | _ => none

/-- A claim type, by its literal. -/
def ClaimType.read : Json → Option ClaimType
  | .str s => [waterDamage, personalProperty].find? fun t => t.text = s
  | _ => none

/-- A positive decimal of whole cents, with at most ten digits before the point. -/
def PyDecimal.cents? : PyDecimal → Option Nat
  | .fin (.ofNat m) e =>
      let digits := (Text.ofNat m).length
      if m = 0 ∨ 10 < digits + e then none
      else if 0 ≤ e + 2 then some (m * 10 ^ (e + 2).toNat)
      else
        let places := (-(e + 2)).toNat
        if places ≤ digits ∧ m % 10 ^ places = 0 then some (m / 10 ^ places) else none
  | _ => none

/-- An amount: a number, or a text that `Decimal` reads. -/
def readCents : Json → Option Nat
  | .null | .bool _ | .arr _ | .obj _ => none
  | amount => (PyDecimal.ofText amount.toStr).bind PyDecimal.cents?

/-- The fields of `SubmitClaimArgs`. -/
def submitClaimFields : List Text := ["policy_number", "claim_type", "amount", "description"]

/-- `SubmitClaimArgs.model_validate`. -/
def SubmitClaimArgs.read (raw : Dict) : Option SubmitClaimArgs := do
  -- `extra="forbid"`
  let _ ← if raw.all fun field => submitClaimFields.elem field.1 then some () else none
  let policyNumber ← trimmedText (← Dict.get? raw "policy_number")
  let claimType ← ClaimType.read (← Dict.get? raw "claim_type")
  let cents ← readCents (← Dict.get? raw "amount")
  let description ← trimmedText (← Dict.get? raw "description")
  if h : isIdentifier policyPrefix policyNumber = true ∧ (0 < cents ∧ cents ≤ 100000000) ∧
      (10 ≤ description.1.length ∧ description.1.length ≤ 1000) then
    some ⟨policyNumber, claimType, cents, description, h.1, h.2.1, h.2.2, description.2⟩
  else none

/-- `args.model_dump(mode="json")`, with sorted keys. -/
def SubmitClaimArgs.dump (args : SubmitClaimArgs) : Dict :=
  [("amount", .float (floatOfCents args.cents)), ("claim_type", .str args.claimType.text),
    ("description", .str args.description), ("policy_number", .str args.policyNumber)]

/-! ## Repositories -/

/-- The claim that is filed with some arguments, if its id passes the contract. -/
def Claim.file (claimId : Text) (args : SubmitClaimArgs) : Except PyError Claim :=
  if h : isIdentifier claimPrefix claimId = true then
    .ok
      { claimId, policyNumber := args.policyNumber, claimType := args.claimType
        status := .submitted, cents := args.cents, description := args.description
        claimId_ok := h, policyNumber_ok := args.policyNumber_ok
        cents_ok := ⟨args.cents_ok.1, Nat.lt_of_le_of_lt args.cents_ok.2 (by decide)⟩
        description_ok := args.description_ok.2
        description_trimmed := args.description_trimmed }
  else .error validationError

/-- The claim is the one that was asked for. -/
structure Claim.Files (claim : Claim) (args : SubmitClaimArgs) : Prop where
  policyNumber : claim.policyNumber = args.policyNumber
  claimType : claim.claimType = args.claimType
  cents : claim.cents = args.cents
  description : claim.description = args.description
  status : claim.status = .submitted

theorem Claim.files_of_file {claimId : Text} {args : SubmitClaimArgs} {claim : Claim}
    (h : Claim.file claimId args = .ok claim) : claim.Files args ∧ claim.claimId = claimId := by
  unfold Claim.file at h
  split at h
  · cases h
    exact ⟨⟨rfl, rfl, rfl, rfl, rfl⟩, rfl⟩
  · cases h

/-- `ClaimsRepository`. -/
structure ClaimsRepository (S : Type) where
  /-- The claims held, in the order in which they were added. -/
  claims : S → List Claim
  append : SubmitClaimArgs → S → Except PyError Claim × S
  append_ok : ∀ {args s claim s'}, append args s = (.ok claim, s') →
    claim.Files args ∧ claims s' = claims s ++ [claim] ∧
      claim.claimId ∉ (claims s).map Claim.claimId
  append_error : ∀ {args s e s'}, append args s = (.error e, s') → claims s' = claims s

/-- `get`: `none` is `ClaimNotFound`. -/
def ClaimsRepository.get {S : Type} (repo : ClaimsRepository S) (claimId : Text) (s : S) :
    Option Claim :=
  (repo.claims s).find? (·.claimId = claimId)

/-! ## Numbering -/

/-- `int(claim_id.split("-")[1])`. -/
def Claim.number (claim : Claim) : Nat := Text.toNat (claim.claimId.drop claimPrefix.length)

/-- `f"{n:04d}"`. -/
def fourDigits (n : Nat) : Text := (Text.ofNat n).leftpad 4 '0'

/-- The highest number in use, 8820 when there is none. -/
def highestNumber (claims : List Claim) : Nat := (claims.map Claim.number).max?.getD 8820

/-- `_next_id`. -/
def nextId (claims : List Claim) : Text := claimPrefix ++ fourDigits (highestNumber claims + 1)

theorem toNat_toDigits (n : Nat) : Text.toNat (Text.ofNat n) = n := by
  have hvalue : ∀ c ∈ Text.ofNat n, (digitValue c).getD 0 = c.toNat - 48 := by
    intro c hc
    have hdigit : c.isDigit = true := Nat.isDigit_of_mem_toDigits (by decide) (by decide) hc
    have hlt : c.toNat < 128 := by
      exact Nat.lt_of_le_of_lt (Char.isDigit_iff_toNat.mp hdigit).2 (by decide)
    rw [digitValue, if_pos hlt, if_pos hdigit]
    rfl
  have hfold : ∀ (s : Text), (∀ c ∈ s, (digitValue c).getD 0 = c.toNat - 48) → ∀ m,
      s.foldl (fun n c => n * 10 + (digitValue c).getD 0) m = Nat.ofDigitChars 10 s m := by
    intro s
    induction s with
    | nil => exact fun _ _ => rfl
    | cons c s ih =>
      intro hs m
      rw [List.foldl_cons, hs c List.mem_cons_self, Nat.ofDigitChars_cons, Nat.mul_comm,
        ih fun d hd => hs d (List.mem_cons_of_mem _ hd)]
      rfl
  rw [Text.toNat, hfold _ hvalue]
  exact Nat.ofDigitChars_ten_toDigits

/-- Leading zeros count for nothing. -/
theorem toNat_zeros (k : Nat) (s : Text) :
    Text.toNat (List.replicate k '0' ++ s) = Text.toNat s := by
  induction k with
  | zero => rfl
  | succ k ih =>
    rw [List.replicate_succ, List.cons_append]
    exact ih

theorem toNat_fourDigits (n : Nat) : Text.toNat (fourDigits n) = n := by
  rw [fourDigits, List.leftpad, toNat_zeros, toNat_toDigits]

/-- No claim has the next id. -/
theorem nextId_fresh (claims : List Claim) : nextId claims ∉ claims.map Claim.claimId := by
  intro hmem
  obtain ⟨claim, hclaim, hid⟩ := List.mem_map.mp hmem
  have hnumber : claim.number = highestNumber claims + 1 := by
    rw [Claim.number, hid, nextId, List.drop_left]
    exact toNat_fourDigits _
  have hmax : claim.number ≤ highestNumber claims := by
    have hin : claim.number ∈ claims.map Claim.number := List.mem_map_of_mem hclaim
    rw [highestNumber]
    cases hmax : (claims.map Claim.number).max? with
    | none =>
      rw [List.max?_eq_none_iff.mp hmax] at hin
      cases hin
    | some m => exact (List.max?_eq_some_iff.mp hmax).2 _ hin
  omega

/-! ## Adapters -/

/-- `append` of `InMemoryClaimsRepo` and, under its file lock, of `JsonFileClaimsRepo`. -/
def appendNext (args : SubmitClaimArgs) (claims : List Claim) :
    Except PyError Claim × List Claim :=
  match Claim.file (nextId claims) args with
  | .ok claim => (.ok claim, claims ++ [claim])
  | .error e => (.error e, claims)

/-- `InMemoryClaimsRepo` and `JsonFileClaimsRepo`. -/
def listRepository : ClaimsRepository (List Claim) where
  claims := id
  append := appendNext
  append_ok := by
    intro args s claim s' h
    unfold appendNext at h
    split at h
    · rename_i claim hfile
      cases h
      obtain ⟨hfiles, hid⟩ := Claim.files_of_file hfile
      exact ⟨hfiles, rfl, hid ▸ nextId_fresh s⟩
    · cases h
  append_error := by
    intro args s e s' h
    unfold appendNext at h
    split at h
    · cases h
    · cases h
      rfl

/-- `app.claims` and `app.claim_number_seq`. -/
structure ClaimsTable where
  rows : List Claim := []
  next : Nat := 9015

/-- `'CLM-' || lpad(n::text, 4, '0')`: a longer numeral is cut. -/
def sequenceId (n : Nat) : Text := claimPrefix ++ (fourDigits n).take 4

/-- `append` of `PostgresClaimsRepo`: the number is used up, whatever comes of it. -/
def insertNext (args : SubmitClaimArgs) (table : ClaimsTable) :
    Except PyError Claim × ClaimsTable :=
  let id := sequenceId table.next
  let table := { table with next := table.next + 1 }
  if id ∈ table.rows.map Claim.claimId then (.error ⟨"UniqueViolation", []⟩, table)
  else
    match Claim.file id args with
    | .ok claim => (.ok claim, { table with rows := table.rows ++ [claim] })
    | .error e => (.error e, table)

/-- `PostgresClaimsRepo`. -/
def tableRepository : ClaimsRepository ClaimsTable where
  claims := ClaimsTable.rows
  append := insertNext
  append_ok := by
    intro args s claim s' h
    unfold insertNext at h
    dsimp only at h
    split at h
    · cases h
    · rename_i hfresh
      split at h
      · rename_i claim hfile
        cases h
        obtain ⟨hfiles, hid⟩ := Claim.files_of_file hfile
        exact ⟨hfiles, rfl, hid ▸ hfresh⟩
      · cases h
  append_error := by
    intro args s e s' h
    unfold insertNext at h
    dsimp only at h
    split at h
    · cases h
      rfl
    · split at h
      · cases h
      · cases h
        rfl

/-- A claim for a burst pipe. -/
def burstPipe : SubmitClaimArgs where
  policyNumber := "POL-1092"
  claimType := .waterDamage
  cents := 120000
  description := "Burst pipe in the kitchen"
  policyNumber_ok := by decide +kernel
  cents_ok := by decide
  description_ok := by decide +kernel
  description_trimmed := by
    rw [Trimmed]
    decide +kernel

end OmniCare
