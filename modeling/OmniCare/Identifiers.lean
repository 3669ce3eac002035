import OmniCare.Normalize

/-! # What is taken for an identifier

The parts of `_canonicalize`: the text as it is heard, the letters of the prefix spelled out or the
first cue, and behind them the digits, which are a run of number words after nothing but filler.
`identifierRun_append` and `exists_of_identifierRun` say what `_identifier_run` takes of a list of
tokens.
-/
namespace OmniCare

/-! ## The parts of `_canonicalize` -/

/-- The identifiers that are looked for. -/
inductive IdKind
  | policy
  | claim
  deriving DecidableEq, Repr

namespace IdKind

/-- The prefix of the identifier. -/
def pre : IdKind → Text
  | policy => "pol"
  | claim => "clm"

/-- The cues of the identifier. -/
def cues : IdKind → List Text
  | policy => policyCues
  | claim => claimCues

/-- `normalize_policy_number` and `normalize_claim_id`. -/
def normalize (kind : IdKind) (text : Text) : Option Text := canonicalize text kind.pre kind.cues

theorem normalize_policy (text : Text) : normalize policy text = normalizePolicyNumber text := rfl

theorem normalize_claim (text : Text) : normalize claim text = normalizeClaimId text := rfl

end IdKind

/-- `spaced`: full stops and hyphens are blanks. -/
def softened (text : Text) : Text :=
  (Text.lower text).map fun c => if c == '.' || c == '-' then ' ' else c

/-- A token, or the letter that it is the name of. -/
def lettered (token : Text) : Text := (letters.lookup token).getD token

/-- `joined`. -/
def joined (text : Text) : Text := Text.join [' '] ((Text.words (softened text)).map lettered)

/-- `tail`: what stands behind the letters of the prefix, or behind the first cue. -/
def behindCue (kind : IdKind) (text : Text) : Option Text :=
  match (letterwisePattern kind.pre).search (joined text) with
  | some letterwise => some (letterwise.group 1)
  | none => afterCue (joined text) kind.cues

/-- The digits at the beginning of a tail. -/
def readDigits (tail : Text) : Text := wordsToDigits (identifierRun (Text.words tail))

/-- An identifier of four digits. -/
def IdKind.identifier (kind : IdKind) (digits : Text) : Text := Text.upper kind.pre ++ '-' :: digits

theorem normalize_eq (kind : IdKind) (text : Text) :
    kind.normalize text =
      match (directPattern kind.pre).search (Text.lower text) with
      | some direct => some (kind.identifier (direct.group 1))
      | none =>
          match behindCue kind text with
          | none => none
          | some tail =>
              if (readDigits tail).length = 4 then some (kind.identifier (readDigits tail))
              else none := rfl

/-! ## The run of number words -/

/-- A token without the punctuation around it, in lower case. -/
def bare (token : Text) : Text := Text.stripBy (",.;:".toList.elem ·) (Text.lower token)

/-- Digits, or a number word other than a multiplier. -/
def isSpokenNumber (word : Text) : Bool :=
  isDigits word || (units.lookup word).isSome || (tens.lookup word).isSome

/-- A token that `_identifier_run` takes. -/
def tellsNumber (token : Text) : Bool := isSpokenNumber (bare token)

/-- A token that `_identifier_run` passes over before the run. -/
def isFiller (token : Text) : Bool := !tellsNumber token && filler.elem (bare token)

theorem identifierRunFrom_cons (run : List Text) (token : Text) (rest : List Text) :
    identifierRunFrom run (token :: rest) =
      if tellsNumber token then identifierRunFrom (run ++ [bare token]) rest
      else if run ≠ [] then run
      else if filler.elem (bare token) then identifierRunFrom run rest
      else run := rfl

variable {fillers run rest : List Text} {token : Text}

/-- The run, once it has begun, goes on as far as the number words do. -/
theorem identifierRunFrom_run {before : List Text} (hbefore : before ≠ [])
    (hrun : run.all tellsNumber = true) (hrest : rest.head?.any tellsNumber = false) :
    identifierRunFrom before (run ++ rest) = before ++ run.map bare := by
  induction run generalizing before with
  | nil =>
    rw [List.nil_append, List.map_nil, List.append_nil]
    cases rest with
    | nil => rfl
    | cons token rest =>
      have htoken : tellsNumber token = false := hrest
      rw [identifierRunFrom_cons, htoken, if_neg (by decide), if_pos hbefore]
  | cons token run ih =>
    rw [List.all_cons, Bool.and_eq_true] at hrun
    have hnext : identifierRunFrom (before ++ [bare token]) (run ++ rest) =
        before ++ [bare token] ++ run.map bare := ih (by simp) hrun.2
    rw [List.append_assoc, List.singleton_append] at hnext
    rw [List.cons_append, identifierRunFrom_cons, if_pos hrun.1]
    exact hnext

/-- Filler is passed over before the run begins. -/
theorem identifierRun_filler (hfillers : fillers.all isFiller = true) :
    identifierRun (fillers ++ rest) = identifierRun rest := by
  induction fillers with
  | nil => rfl
  | cons token fillers ih =>
    rw [List.all_cons, Bool.and_eq_true, isFiller, Bool.and_eq_true, Bool.not_eq_true'] at hfillers
    obtain ⟨⟨hnumber, hfiller⟩, hmore⟩ := hfillers
    rw [List.cons_append, identifierRun, identifierRunFrom_cons, hnumber, if_neg (by decide),
      if_neg (by simp), if_pos hfiller]
    exact ih hmore

/-- **What `_identifier_run` takes**: behind filler, the number words as far as they go. -/
theorem identifierRun_append (hfillers : fillers.all isFiller = true) (hne : run ≠ [])
    (hrun : run.all tellsNumber = true) (hrest : rest.head?.any tellsNumber = false) :
    identifierRun (fillers ++ (run ++ rest)) = run.map bare := by
  rw [identifierRun_filler hfillers]
  cases run with
  | nil => exact absurd rfl hne
  | cons token run =>
    rw [List.all_cons, Bool.and_eq_true] at hrun
    rw [List.cons_append, identifierRun, identifierRunFrom_cons, if_pos hrun.1]
    exact identifierRunFrom_run (List.cons_ne_nil _ _) hrun.2 hrest

/-- Behind a token that is neither a number nor filler nothing is taken. -/
theorem identifierRun_stopped (hnumber : tellsNumber token = false)
    (hfiller : isFiller token = false) : identifierRun (token :: rest) = [] := by
  rw [isFiller, hnumber, Bool.not_false, Bool.true_and] at hfiller
  rw [identifierRun, identifierRunFrom_cons, hnumber, if_neg (by decide), if_neg (by simp),
    hfiller, if_neg (by decide)]

/-- Nor is anything but what is taken before it. -/
theorem identifierRun_stop (tokens : List Text) (hnumber : tellsNumber token = false)
    (hfiller : isFiller token = false) :
    identifierRun (tokens ++ token :: rest) = identifierRun tokens := by
  have hfiller' : filler.elem (bare token) = false := by
    rwa [isFiller, hnumber, Bool.not_false, Bool.true_and] at hfiller
  have from_ : ∀ run, identifierRunFrom run (tokens ++ token :: rest) =
      identifierRunFrom run tokens := by
    induction tokens with
    | nil =>
      intro run
      rw [List.nil_append, identifierRunFrom_cons, hnumber, if_neg (by decide), hfiller']
      split <;> rfl
    | cons t tokens ih =>
      intro run
      rw [List.cons_append, identifierRunFrom_cons, identifierRunFrom_cons, ih, ih]
  exact from_ []

/-- What `_identifier_run` takes is a run of number words behind filler. -/
theorem exists_of_identifierRun {tokens : List Text} (h : identifierRun tokens ≠ []) :
    ∃ fillers run rest, tokens = fillers ++ (run ++ rest) ∧ fillers.all isFiller = true ∧
      run ≠ [] ∧ run.all tellsNumber = true ∧ rest.head?.any tellsNumber = false := by
  induction tokens with
  | nil => exact absurd rfl h
  | cons token tokens ih =>
    cases hnumber : tellsNumber token with
    | true =>
      refine ⟨[], token :: tokens.takeWhile tellsNumber, tokens.dropWhile tellsNumber, ?_, rfl,
        List.cons_ne_nil _ _, ?_, ?_⟩
      · rw [List.nil_append, List.cons_append, List.takeWhile_append_dropWhile]
      · rw [List.all_cons, hnumber, Bool.true_and]
        exact List.all_takeWhile
      · have hhead := List.head?_dropWhile_not tellsNumber tokens
        cases hrest : tokens.dropWhile tellsNumber with
        | nil => rfl
        | cons next rest =>
          rw [hrest] at hhead
          simpa using hhead
    | false =>
      cases hfiller : isFiller token with
      | false => exact absurd (identifierRun_stopped hnumber hfiller) h
      | true =>
        have hone : [token].all isFiller = true := by rw [List.all_cons, hfiller]; rfl
        rw [← List.singleton_append, identifierRun_filler hone] at h
        obtain ⟨fillers, run, rest, rfl, hfillers, hmore⟩ := ih h
        exact ⟨token :: fillers, run, rest, rfl,
          by rw [List.all_cons, hfiller, hfillers]; rfl, hmore⟩

end OmniCare
