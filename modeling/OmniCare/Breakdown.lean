import OmniCare.Decimals
import OmniCare.Filing
import OmniCare.Governing

/-! # The payment split, before and after a claim is filed

`capture` computes the split of a claim from the arguments that the model wrote, for the prompt that
the policyholder confirms; `submit_claim` computes it once more from the arguments that the contract
has read, for what it returns.  Over the same sections both are the same
(`filed_split_as_shown`).
-/
namespace OmniCare

variable {S : Type}

/-- The precision of Python's decimal context. -/
def contextPrecision : Option Nat := some 28

/-- What is shown and returned of a settlement. -/
def Settlement.split (s : Settlement) : Except PyError Split := do
  let asDict ← s.asDict contextPrecision
  let summary ← s.summary contextPrecision
  pure { asDict, summary, citation := s.citation, policySays := s.policySays,
         sourceFile := s.sourceFile, sectionTitle := s.sectionTitle }

/-- The split that `capture` attaches: without one where the settlement fails. -/
def promptSplit (sections : List PolicySection) (claimType amount : Option Json) : Option Split :=
  match claimType with
  | some (.str claimType) =>
      let settlement :=
        settlementFor contextPrecision claimType (decimalOf (amount.getD .null)) sections
      settlement.toOption.join.bind fun s => s.split.toOption
  | _ => none

/-- The settlement of arguments that the contract has read. -/
def filedSettlement (sections : List PolicySection) (args : SubmitClaimArgs) :
    Except PyError (Option Settlement) :=
  settlementFor contextPrecision args.claimType.text (.ok (args.cents / 100)) sections

/-- `submit_claim`, over the sections of the policy. -/
def submitClaim (repo : ClaimsRepository S) (key : SubmitClaimArgs → Option Text)
    (sections : List PolicySection) (raw : Dict) (stores : Stores S) : Outcome × Stores S :=
  match SubmitClaimArgs.read raw with
  | none => (.raised validationError, stores)
  | some args =>
      match filedSettlement sections args with
      | .error e => (.raised e, stores)
      | .ok breakdown =>
          match Submission.run repo ⟨key args, args⟩ 4 stores with
          | (.returned filed, stores) =>
              if filed.replayed then (.returned (filed.result none), stores)
              else
                -- the claim has been appended
                match breakdown.mapM Settlement.split with
                | .error e => (.raised e, stores)
                | .ok split => (.returned (filed.result split), stores)
          | (.failed e, stores) => (.raised e, stores)
          -- four awaits are enough
          | (_, stores) => (.cancelled, stores)

/-! ## The same settlement -/

/-- A split depends on the claimed amount as far as it is rounded to cents. -/
theorem settlementFor_congr {x y : ℚ}
    (h : Rounding.roundHalfEven (x * 100) = Rounding.roundHalfEven (y * 100))
    (precision : Option Nat) (claimType : Text) (sections : List PolicySection) :
    settlementFor precision claimType (.ok x) sections =
      settlementFor precision claimType (.ok y) sections := by
  have hquantize : quantize precision x = quantize precision y := by
    unfold quantize
    rw [h]
  unfold settlementFor
  cases settlementTerms claimType sections with
  | error e => rfl
  | ok terms =>
    cases terms with
    | none => rfl
    | some t =>
      simp only [ok_bind]
      unfold settle
      rw [hquantize]

/-- The fields that the contract has read. -/
theorem SubmitClaimArgs.read_fields {raw : Dict} {args : SubmitClaimArgs}
    (h : SubmitClaimArgs.read raw = some args) :
    Dict.get? raw "claim_type" = some (.str args.claimType.text) ∧
      ∃ amount, Dict.get? raw "amount" = some amount ∧ readCents amount = some args.cents := by
  unfold SubmitClaimArgs.read at h
  dsimp only at h
  split at h
  · -- the guard, the policy number, the claim type, the amount and the description
    obtain ⟨_, -, h⟩ := Option.bind_eq_some_iff.mp h
    obtain ⟨_, -, h⟩ := Option.bind_eq_some_iff.mp h
    obtain ⟨policyNumber, -, h⟩ := Option.bind_eq_some_iff.mp h
    obtain ⟨typeField, htypeField, h⟩ := Option.bind_eq_some_iff.mp h
    obtain ⟨claimType, htype, h⟩ := Option.bind_eq_some_iff.mp h
    obtain ⟨amount, hamount, h⟩ := Option.bind_eq_some_iff.mp h
    obtain ⟨cents, hcents, h⟩ := Option.bind_eq_some_iff.mp h
    obtain ⟨_, -, h⟩ := Option.bind_eq_some_iff.mp h
    obtain ⟨description, -, h⟩ := Option.bind_eq_some_iff.mp h
    split at h
    · cases h
      refine ⟨?_, amount, hamount, hcents⟩
      cases typeField with
      | str text =>
        have htext : claimType.text = text := by simpa using List.find?_some htype
        rw [htypeField, htext]
      | _ => cases htype
    · cases h
  · cases h

/-- **Before and after, the same settlement is computed.** -/
theorem promptSplit_eq {raw : Dict} {args : SubmitClaimArgs}
    (h : SubmitClaimArgs.read raw = some args) (sections : List PolicySection) :
    promptSplit sections (Dict.get? raw "claim_type") (Dict.get? raw "amount") =
      (filedSettlement sections args).toOption.join.bind fun s => s.split.toOption := by
  obtain ⟨htype, amount, hamount, hcents⟩ := SubmitClaimArgs.read_fields h
  obtain ⟨x, hx, hround⟩ := cents_of_readCents hcents args.cents_ok.2
  have hsame : Rounding.roundHalfEven (x * 100) =
      Rounding.roundHalfEven ((args.cents : ℚ) / 100 * 100) := by
    rw [hround, div_mul_cancel₀ _ (by norm_num)]
    exact (Rounding.roundHalfEven_intCast (args.cents : ℤ)).symm
  rw [htype, hamount]
  show (settlementFor contextPrecision args.claimType.text (decimalOf amount)
    sections).toOption.join.bind _ = _
  rw [hx, settlementFor_congr hsame]
  rfl

/-- What a claim is filed with, when `submit_claim` returns. -/
theorem filed_of_submitClaim {repo : ClaimsRepository S} {key : SubmitClaimArgs → Option Text}
    {sections : List PolicySection} {raw : Dict} {args : SubmitClaimArgs}
    (hread : SubmitClaimArgs.read raw = some args) {stores after : Stores S} {fields : Dict}
    (h : submitClaim repo key sections raw stores = (.returned (.obj fields), after)) :
    ∃ filed split, fields = filed.claim.report ++ Filed.extras filed split ∧
      (filed.replayed = false →
        split = (filedSettlement sections args).toOption.join.bind fun s => s.split.toOption) := by
  unfold submitClaim at h
  rw [hread] at h
  dsimp only at h
  cases hsettled : filedSettlement sections args with
  | error e =>
    rw [hsettled] at h
    cases h
  | ok breakdown =>
    rw [hsettled] at h
    dsimp only at h
    split at h
    · rename_i filed _ _
      split at h
      · rename_i hreplayed
        cases h
        refine ⟨filed, none, rfl, fun hnew => ?_⟩
        rw [hreplayed] at hnew
        cases hnew
      · cases breakdown with
        | none =>
          cases h
          exact ⟨filed, none, rfl, fun _ => rfl⟩
        | some s =>
          have hmap : (some s).mapM Settlement.split = s.split.map some := rfl
          rw [hmap] at h
          cases hsplit : s.split with
          | error e =>
            rw [hsplit] at h
            cases h
          | ok split =>
            rw [hsplit] at h
            cases h
            refine ⟨filed, some split, rfl, fun _ => ?_⟩
            show some split = s.split.toOption
            rw [hsplit]
            rfl
    · cases h
    · cases h

/-- **The split that the policyholder confirms is the one that is returned when the claim is
filed**: with the same shares and figures and the same summary, or none in both. -/
theorem filed_split_as_shown {s : AgentState} {call : ToolCall} {args : SubmitClaimArgs}
    (hcall : (lastCalls s.messages).find? ToolCall.isWrite = some call)
    (hread : SubmitClaimArgs.read call.args = some args) (sections : List PolicySection)
    {repo : ClaimsRepository S} {key : SubmitClaimArgs → Option Text} {stores after : Stores S}
    {fields : Dict}
    (hfiled : submitClaim repo key sections call.args stores = (.returned (.obj fields), after))
    (hnew : fields.has "replayed" = false) :
    Dict.get? fields "payment_breakdown" =
      (captureNode (promptSplit sections) s).prompt.settlement.map (fun p => .obj p.fields) ∧
    Dict.get? fields "payment_summary" =
      (captureNode (promptSplit sections) s).prompt.settlement.map (.str ·.paymentSummary) := by
  obtain ⟨filed, split, rfl, hsplit⟩ := filed_of_submitClaim hread hfiled
  have hcaptured : (captureNode (promptSplit sections) s).pendingSettlement =
      (promptSplit sections (Dict.get? call.args "claim_type")
        (Dict.get? call.args "amount")).map fun split => ⟨split.asDict, split.summary⟩ := by
    unfold captureNode
    rw [hcall]
    dsimp only
    cases promptSplit sections (Dict.get? call.args "claim_type")
      (Dict.get? call.args "amount") with
    | none => rfl
    | some split =>
      dsimp only
      split <;> rfl
  have hnew : filed.replayed = false := by
    cases hreplayed : filed.replayed with
    | false => rfl
    | true =>
      unfold Filed.extras at hnew
      rw [hreplayed, if_pos rfl] at hnew
      exact absurd (show true = false from hnew) (by decide)
  show _ = (captureNode (promptSplit sections) s).pendingSettlement.map _ ∧
    _ = (captureNode (promptSplit sections) s).pendingSettlement.map _
  rw [hcaptured, promptSplit_eq hread, ← hsplit hnew]
  unfold Filed.extras
  rw [hnew]
  cases split with
  | none => exact ⟨rfl, rfl⟩
  | some split => exact ⟨rfl, rfl⟩

/-- A call whose amount is a float. -/
def floatCall : ToolCall :=
  ⟨"submit_claim",
    [("policy_number", .str "POL-1092"), ("claim_type", .str "Water Damage"),
      ("amount", .float (.fin 12005 (-1))), ("description", .str "Burst pipe in the kitchen")], "a"⟩

/-- The model has made the call. -/
def floatState : AgentState := { messages := [.ai [] [floatCall]] }

/-- The split of the claim. -/
def floatSummary : Text :=
  "Claim amount: $1,200.50\nOmniCare pays: $700.50\nYou pay: $500.00 ($500.00 deductible)"

/-- A new filing, and its summary of the split. -/
def newSummary : Outcome → Option Json
  | .returned (.obj fields) =>
      if Dict.has fields "replayed" then none else Dict.get? fields "payment_summary"
  | _ => none

theorem exists_fields_of_newSummary {o : Outcome} {summary : Json}
    (h : newSummary o = some summary) : ∃ fields, o = .returned (.obj fields) ∧
      Dict.has fields "replayed" = false ∧ Dict.get? fields "payment_summary" = some summary := by
  unfold newSummary at h
  split at h
  · rename_i fields
    split_ifs at h with hreplayed
    exact ⟨fields, rfl, Bool.eq_false_iff.mpr hreplayed, h⟩
  · cases h

/-- An amount of $1,200.50 is written as a float: what is confirmed is returned. -/
theorem float_split_filed :
    ∃ fields after, submitClaim listRepository (fun _ => none) [homeWater] floatCall.args
        ⟨[], []⟩ = (.returned (.obj fields), after) ∧
      Dict.get? fields "payment_summary" = some (.str floatSummary) ∧
      (captureNode (promptSplit [homeWater]) floatState).prompt.settlement.map
        (Json.str ·.paymentSummary) = some (.str floatSummary) := by
  have hread : (SubmitClaimArgs.read floatCall.args).isSome = true := by decide
  obtain ⟨args, hread⟩ := Option.isSome_iff_exists.mp hread
  have hfiled : newSummary (submitClaim listRepository (fun _ => none) [homeWater] floatCall.args
      ⟨[], []⟩).1 = some (.str floatSummary) := by decide +kernel
  obtain ⟨fields, houtcome, hnew, hsummary⟩ := exists_fields_of_newSummary hfiled
  have hcall : (lastCalls floatState.messages).find? ToolCall.isWrite = some floatCall := by
    decide
  have hshown := (filed_split_as_shown hcall hread [homeWater] (Prod.ext houtcome rfl) hnew).2
  refine ⟨fields, _, Prod.ext houtcome rfl, hsummary, ?_⟩
  rw [← hshown, hsummary]

end OmniCare
