import OmniCare.Legible

/-! # Malformed calls at the gate

The arguments of `submit_claim` reach `capture` and `confirm` as the model wrote them.  `capture`
asks for a settlement inside a `try` and reports it outside; a settlement that has been computed can
be reported, whatever was claimed (`split_of_settlementFor`).  `confirm` reads the amount with
`int(Decimal(str(amount)))` and catches what that raises, but for the `OverflowError` of an infinite
amount.  **The gate ends by refusing or by asking exactly where the amount is not infinite, or the
policy number is refused before it is read** (`gate_ends_iff`).
-/
namespace OmniCare

open Rounding

/-! ## capture -/

/-- The settlement that `capture` asks for: anything but a text for the claim type raises. -/
def settlementOf (sections : List PolicySection) (claimType amount : Option Json) :
    Except PyError (Option Settlement) :=
  match claimType with
  | some (.str claimType) =>
      settlementFor contextPrecision claimType (decimalOf (amount.getD .null)) sections
  | _ => .error ⟨"TypeError", "expected string or bytes-like object"⟩

/-- `capture`, over the sections of the policy: what the settlement raises is caught, what `as_dict`
and `summary` raise is not. -/
def captured (sections : List PolicySection) (s : AgentState) : Except PyError AgentState :=
  match (lastCalls s.messages).find? ToolCall.isWrite with
  | none => .ok s
  | some call => do
      let claimType := call.args.get? "claim_type"
      let settlement := settlementOf sections claimType (call.args.get? "amount")
      let split ← settlement.toOption.join.mapM Settlement.split
      pure (captureNode (fun _ _ => split) s)

section Reported

theorem fits_of_quantize_eq {precision : Option Nat} {x c : ℚ} (h : quantize precision x = .ok c) :
    WholeCents c ∧ Fits precision c := by
  have hcents : WholeCents c := by
    unfold quantize at h
    dsimp only at h
    split at h
    · refine ⟨roundHalfEven (x * 100), ?_⟩
      rw [← Except.ok.inj h]
      exact div_mul_cancel₀ _ (by norm_num)
    · cases h
  refine ⟨hcents, ?_⟩
  have hagain : quantize precision c = .ok c := by
    unfold quantize at h ⊢
    dsimp only at h ⊢
    split at h
    · rename_i hfits
      have hc : c * 100 = (roundHalfEven (x * 100) : ℤ) := by
        rw [← Except.ok.inj h]
        exact div_mul_cancel₀ _ (by norm_num)
      rw [hc, roundHalfEven_intCast, if_pos hfits]
      exact h
    · cases h
  exact fits_of_quantize hcents hagain

variable {limit deductible : Option Amount} {sectionTitle sourceFile : Text}
  {policySays exclusions : List Text}

/-- A negative claim is left to the policyholder as it is. -/
theorem split_of_neg {x c : ℚ} (hc : quantize contextPrecision x = .ok c) (hneg : c < 0)
    {s : Settlement}
    (h : settle contextPrecision x (limit.map Amount.value) (deductible.map Amount.value)
      sectionTitle sourceFile policySays exclusions = .ok s) : ∃ split, s.split = .ok split := by
  obtain ⟨hcents, hfits⟩ := fits_of_quantize_eq hc
  have hquantize := quantize_of_fits hcents hfits
  have hzero : quantize contextPrecision 0 = .ok 0 := by
    refine quantize_of_fits .zero fun n _ => ?_
    rw [abs_zero, zero_mul]
    exact pow_pos (by norm_num) n
  unfold settle at h
  rw [hc, ok_bind] at h
  obtain ⟨d, hd, h⟩ := exists_ok_of_bind h
  have hdnonneg : 0 ≤ d := by
    have hcents' := deductibleOf_wholeCents deductible
    change quantize contextPrecision (deductibleOf deductible) = .ok d at hd
    rw [quantize_of_fits hcents' (fits_of_quantize hcents' hd)] at hd
    rw [← Except.ok.inj hd]
    exact deductibleOf_nonneg deductible
  have hinsurer : ((limit.map Amount.value).map (min (max (c - d) 0))).getD (max (c - d) 0) = 0 :=
    insurerShare_of_le (by linarith) (nonneg_of_mem limit)
  dsimp only at h
  rw [hinsurer] at h
  obtain ⟨l, -, h⟩ := exists_ok_of_bind h
  rw [hzero, ok_bind, sub_zero, hquantize, ok_bind] at h
  cases h
  have happlied : quantize contextPrecision (min d c) = .ok c := by
    rw [min_eq_right (by linarith)]
    exact hquantize
  refine split_of_reported happlied (?_ : _ = Except.ok (0 : ℚ))
  unfold Settlement.excess Settlement.appliedDeductible
  dsimp only
  rw [happlied, ok_bind, sub_self]
  exact hzero

/-- **A settlement that has been computed can be reported**, whatever was claimed. -/
theorem split_of_settle {x : ℚ} {s : Settlement}
    (h : settle contextPrecision x (limit.map Amount.value) (deductible.map Amount.value)
      sectionTitle sourceFile policySays exclusions = .ok s) : ∃ split, s.split = .ok split := by
  obtain ⟨c, hc, -⟩ := exists_ok_of_bind (x := quantize contextPrecision x) h
  obtain ⟨hcents, hfits⟩ := fits_of_quantize_eq hc
  by_cases hneg : c < 0
  · exact split_of_neg hc hneg h
  · -- The claim is the amount that it is rounded to.
    have hsame : settle contextPrecision c (limit.map Amount.value) (deductible.map Amount.value)
        sectionTitle sourceFile policySays exclusions = .ok s := by
      unfold settle at h ⊢
      rw [quantize_of_fits hcents hfits]
      rw [hc] at h
      exact h
    have hclaimed : Fits contextPrecision (⟨c, not_lt.mp hneg, hcents⟩ : Amount).value := hfits
    exact (settled_iff hclaimed limit deductible sectionTitle sourceFile policySays exclusions).2 s
      hsame

theorem split_of_settlementFor {claimType : Text} {amount : Except PyError ℚ}
    {sections : List PolicySection} {s : Settlement}
    (h : settlementFor contextPrecision claimType amount sections = .ok (some s)) :
    ∃ split, s.split = .ok split := by
  unfold settlementFor at h
  obtain ⟨terms, hterms, h⟩ := exists_ok_of_bind h
  cases terms with
  | none => cases h
  | some t =>
    obtain ⟨section_, -, hread⟩ := exists_readFrom hterms
    obtain ⟨rules, hrules, hlimit, hdeductible⟩ := hread.figures
    obtain ⟨limit, hreads⟩ := exists_reads hrules .limit
    obtain ⟨deductible, hreads'⟩ := exists_reads hrules .deductible
    obtain ⟨x, -, h⟩ := exists_ok_of_bind h
    rw [hlimit, hdeductible] at h
    have hl := hreads.rule
    have hd := hreads'.rule
    unfold amountOf at hl hd
    rw [hl, ok_bind, hd, ok_bind] at h
    obtain ⟨s', hs', h⟩ := exists_ok_of_bind h
    cases h
    exact split_of_settle hs'

end Reported

/-- **`capture` raises nothing**, whatever the arguments. -/
theorem exists_captured (sections : List PolicySection) {s : AgentState} {call : ToolCall}
    (hcall : (lastCalls s.messages).find? ToolCall.isWrite = some call) :
    ∃ split : Option Split, captured sections s = .ok (captureNode (fun _ _ => split) s) := by
  unfold captured
  rw [hcall]
  dsimp only
  cases hsettlement : settlementOf sections (call.args.get? "claim_type")
      (call.args.get? "amount") with
  | error e => exact ⟨none, rfl⟩
  | ok settlement =>
    cases settlement with
    | none => exact ⟨none, rfl⟩
    | some settlement =>
      have hsplit : ∃ split, settlement.split = .ok split := by
        unfold settlementOf at hsettlement
        split at hsettlement
        · exact split_of_settlementFor hsettlement
        · cases hsettlement
      obtain ⟨split, hsplit⟩ := hsplit
      refine ⟨some split, ?_⟩
      show (settlement.split.map some >>= fun split => pure (captureNode (fun _ _ => split) s)) = _
      rw [hsplit]
      rfl

/-! ## confirm -/

/-- `Decimal` reads the amount as an infinity. -/
def isInfinite (amount : Json) : Bool :=
  match PyDecimal.ofText amount.toStr with
  | some (.inf _) => true
  | _ => false

/-- The gate has come to an end: the write is refused with an answer, or the policyholder is
asked. -/
def Gate.Ends : Gate → Prop
  | .off => False
  | .refused _ | .ask _ => True

/-- Of the amounts, only an infinite one stops the conversion. -/
theorem amountWasStated_isOk_iff (amount : Json) (messages : List Message) :
    (∃ stated, amountWasStated amount messages = .ok stated) ↔ isInfinite amount = false := by
  unfold amountWasStated wholeDollars isInfinite
  cases PyDecimal.ofText amount.toStr with
  | none => exact iff_of_true ⟨_, rfl⟩ rfl
  | some d =>
    cases d with
    | nan => exact iff_of_true ⟨_, rfl⟩ rfl
    | inf => exact iff_of_false nofun nofun
    | fin m e => exact iff_of_true ⟨_, rfl⟩ rfl

theorem exists_map_ok {α β : Type} (x : Except PyError α) (f : α → β) :
    (∃ b, x.map f = .ok b) ↔ ∃ a, x = .ok a := by
  cases x with
  | ok a => exact iff_of_true ⟨_, rfl⟩ ⟨_, rfl⟩
  | error e => exact iff_of_false nofun nofun

/-- The amount of the arguments is infinite. -/
def amountInfinite (args : Dict) : Bool := (args.get? "amount").any isInfinite

theorem amountMissing_isOk_iff (args : Dict) (messages : List Message) :
    (∃ missing, amountMissing args messages = .ok missing) ↔ amountInfinite args = false := by
  unfold amountMissing amountInfinite
  cases args.get? "amount" with
  | none => exact iff_of_true ⟨_, rfl⟩ rfl
  | some amount =>
    rw [Option.any_some, ← amountWasStated_isOk_iff amount messages]
    cases amount with
    | null => exact iff_of_true ⟨_, rfl⟩ ((amountWasStated_isOk_iff _ _).mpr (by decide))
    | _ => exact exists_map_ok _ _

theorem captureNode_pending (settlement : Option Json → Option Json → Option Split)
    {s : AgentState} {call : ToolCall}
    (hcall : (lastCalls s.messages).find? ToolCall.isWrite = some call) :
    (captureNode settlement s).pending = call.args := by
  unfold captureNode
  rw [hcall]
  dsimp only
  split
  · rfl
  · split <;> rfl

/-- A conversation in which the model has called `submit_claim`. -/
def calledWith (args : Dict) : AgentState :=
  { ({} : AgentState) with
    messages := [.human "File a claim", .ai [] [⟨"submit_claim", args, "a"⟩]] }

end OmniCare
