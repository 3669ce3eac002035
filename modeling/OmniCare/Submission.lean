import OmniCare.Claims
import OmniCare.Nodes
import OmniCare.Runs

/-! # Filing a claim, await by await

`submit_claim` of `agent/app/tools/claims.py` looks the idempotency key up, appends the claim
and records its id under the key, in three awaits on two stores.  `advance` is what an
execution does up to its next await.  `submitClaimTool` lets one execution run by itself;
`Replicas` interleaves any number of them, each of which may crash at any await, while Redis
may drop a record when its time is up.

**Every execution under one key returns the id of one claim, and no second claim is
appended, as long as a lookup finds the record, or comes when nothing has been appended and
nobody else is about to** (`one_claim_of_safe_lookups`).
-/
namespace OmniCare

variable {S : Type}

/-! ## Keys and stores -/

/-- The payload that `idempotency_key` digests: `json.dumps` with sorted keys. -/
def idempotencyPayload (userId tool : Text) (args : Dict) (turn : Int) : Text :=
  Json.dumps (.obj
    [("a", .obj args), ("n", .int turn), ("t", .str tool), ("u", .str userId)])

/-- `idempotency_key`, for the SHA-256 prefix `digest`. -/
def idempotencyKey (digest : Text → Text) (userId tool : Text) (args : Dict) (turn : Int) :
    Text :=
  digest (idempotencyPayload userId tool args turn)

/-- The stores that `submit_claim` writes to: the claims repository, and the ids recorded
under idempotency keys, the latest first. -/
structure Stores (S : Type) where
  repo : S
  records : List (Text × Text) := []

/-- `idempotency.get`. -/
def Stores.lookup (stores : Stores S) (key : Text) : Option Text := stores.records.lookup key

/-- `idempotency.put`. -/
def Stores.record (stores : Stores S) (key claimId : Text) : Stores S :=
  { stores with records := (key, claimId) :: stores.records.filter (·.1 ≠ key) }

/-- The time of a record is up. -/
def Stores.expire (stores : Stores S) (key : Text) : Stores S :=
  { stores with records := stores.records.filter (·.1 ≠ key) }

theorem lookup_filter_ne (records : List (Text × Text)) {key other : Text} (h : key ≠ other) :
    (records.filter (·.1 ≠ other)).lookup key = records.lookup key := by
  induction records with
  | nil => rfl
  | cons r records ih =>
    obtain ⟨k, v⟩ := r
    by_cases hk : k = other
    · have hne : (key == k) = false := beq_eq_false_iff_ne.mpr (hk ▸ h)
      rw [List.filter_cons_of_neg (by simpa using hk), ih, List.lookup_cons, hne]
    · rw [List.filter_cons_of_pos (by simpa using hk), List.lookup_cons, List.lookup_cons, ih]

namespace Stores

variable (stores : Stores S)

@[simp] theorem lookup_record (key claimId : Text) :
    (stores.record key claimId).lookup key = some claimId :=
  List.lookup_cons_self

theorem lookup_record_of_ne {key other : Text} (h : key ≠ other) (claimId : Text) :
    (stores.record other claimId).lookup key = stores.lookup key := by
  rw [lookup, record, List.lookup_cons, beq_eq_false_iff_ne.mpr h]
  exact lookup_filter_ne _ h

@[simp] theorem lookup_expire (key : Text) : (stores.expire key).lookup key = none := by
  rw [lookup, expire, List.lookup_eq_none_iff]
  intro r hr
  have hne : r.1 ≠ key := by simpa using (List.mem_filter.mp hr).2
  exact bne_iff_ne.mpr hne.symm

theorem lookup_expire_of_ne {key other : Text} (h : key ≠ other) :
    (stores.expire other).lookup key = stores.lookup key :=
  lookup_filter_ne _ h

end Stores

/-! ## One execution -/

/-- A call of `submit_claim` that has passed validation: its key, if there is an idempotency
store, and its arguments. -/
structure Submission where
  key : Option Text
  args : SubmitClaimArgs

/-- What a call of `submit_claim` comes to. -/
structure Filed where
  claim : Claim
  replayed : Bool

/-- Where an execution stands between two awaits. -/
inductive Phase
  /-- `idempotency.get` is next. -/
  | looking
  /-- The key has a record: `repo.get` is next. -/
  | found (existing : Text)
  /-- `repo.append` is next. -/
  | appending
  /-- The claim has been appended: `idempotency.put` is next. -/
  | recording (claim : Claim)
  /-- Its id has been recorded. -/
  | recorded (claim : Claim)
  | returned (filed : Filed)
  | failed (e : PyError)

/-- The execution has come to its end. -/
def Phase.over : Phase → Bool
  | returned _ | failed _ => true
  | _ => false

/-- `ClaimNotFound`. -/
def claimNotFound (claimId : Text) : PyError :=
  ⟨"ClaimNotFound", "No claim with id ".toList ++ Json.reprText claimId⟩

/-- The body of `submit_claim` from one await to the next. -/
def advance (repo : ClaimsRepository S) (call : Submission) : Phase × Stores S → Phase × Stores S
  | (.looking, stores) =>
      match call.key.bind stores.lookup with
      | some existing => (.found existing, stores)
      | none => (.appending, stores)
  | (.found existing, stores) =>
      match repo.get existing stores.repo with
      | some claim => (.returned ⟨claim, true⟩, stores)
      | none => (.failed (claimNotFound existing), stores)
  | (.appending, stores) =>
      match repo.append call.args stores.repo with
      | (.ok claim, s) => (.recording claim, { stores with repo := s })
      | (.error e, s) => (.failed e, { stores with repo := s })
  | (.recording claim, stores) =>
      match call.key with
      | some key => (.recorded claim, stores.record key claim.claimId)
      | none => (.recorded claim, stores)
  | (.recorded claim, stores) => (.returned ⟨claim, false⟩, stores)
  | (.returned filed, stores) => (.returned filed, stores)
  | (.failed e, stores) => (.failed e, stores)

/-! ## Replicas -/

/-- One execution of `submit_claim` in some replica. -/
structure Attempt where
  call : Submission
  phase : Phase := .looking
  /-- It has not crashed. -/
  alive : Bool := true

/-- The stores and everything that has been started on them. -/
structure Replicas (S : Type) where
  stores : Stores S
  attempts : List Attempt := []

/-- What happens next. -/
inductive ReplicaAction
  | start (call : Submission)
  /-- An execution goes on to its next await. -/
  | proceed (i : Nat)
  | crash (i : Nat)
  | expire (key : Text)

/-- What can be seen of the executions. -/
inductive FilingEvent
  | appended (key : Option Text) (claim : Claim)
  | answered (key : Option Text) (filed : Filed)

/-- What is seen when an execution comes to a phase. -/
def Phase.seen (key : Option Text) : Phase → List FilingEvent
  | recording claim => [.appended key claim]
  | returned filed => [.answered key filed]
  | _ => []

namespace Replicas

/-- An execution goes on. -/
def proceed (repo : ClaimsRepository S) (s : Replicas S) (i : Nat) (a : Attempt) :
    Replicas S × List FilingEvent :=
  let (phase, stores) := advance repo a.call (a.phase, s.stores)
  (⟨stores, s.attempts.set i { a with phase }⟩, phase.seen a.call.key)

/-- One step of one replica, or of time. -/
def step (repo : ClaimsRepository S) (s : Replicas S) :
    ReplicaAction → Option (Replicas S × List FilingEvent)
  | .start call => some ({ s with attempts := s.attempts ++ [{ call }] }, [])
  | .proceed i =>
      s.attempts[i]?.bind fun a =>
        if a.alive && !a.phase.over then some (s.proceed repo i a) else none
  | .crash i =>
      s.attempts[i]?.map fun a =>
        ({ s with attempts := s.attempts.set i { a with alive := false } }, [])
  | .expire key => some ({ s with stores := s.stores.expire key }, [])

end Replicas

/-! ## The executions under one key -/

/-- The claim that an event appends under a key. -/
def FilingEvent.appended? (key : Text) : FilingEvent → Option Claim
  | appended k claim => if k = some key then some claim else none
  | answered .. => none

/-- The claims appended under a key, in order. -/
def filedUnder (key : Text) (es : List FilingEvent) : List Claim :=
  es.filterMap (FilingEvent.appended? key)

/-- At most one claim has been appended under the key, and every result under the key has its
id. -/
structure OneClaim (key : Text) (es : List FilingEvent) : Prop where
  atMostOne : (filedUnder key es).length ≤ 1
  answers : ∀ filed, .answered (some key) filed ∈ es →
    (filedUnder key es).map Claim.claimId = [filed.claim.claimId]

/-- The execution has appended its claim, or returned the claim of another one. -/
def Phase.pastAppend : Phase → Bool
  | recording _ | recorded _ | returned _ => true
  | _ => false

/-- The execution is about to append. -/
def Attempt.aboutToAppend (a : Attempt) : Bool :=
  a.alive && match a.phase with
    | .appending => true
    | _ => false

/-- The execution is about to look its key up. -/
def Attempt.aboutToLook (a : Attempt) : Bool :=
  a.alive && match a.phase with
    | .looking => true
    | _ => false

/-- Nothing has been appended under the key, and nobody is about to. -/
def Replicas.clear (s : Replicas S) (key : Text) : Bool :=
  s.attempts.all fun a =>
    a.call.key ≠ some key || !(a.phase.pastAppend || a.aboutToAppend)

/-- The step is not a lookup of the key, or the lookup finds its record, or it comes when
nothing has been appended under the key and nobody is about to. -/
def safeLookup (key : Text) (s : Replicas S) : ReplicaAction → Bool
  | .proceed i =>
      match s.attempts[i]? with
      | some a =>
          a.call.key ≠ some key || !a.aboutToLook || (s.stores.lookup key).isSome || s.clear key
      | none => true
  | _ => true

/-- What an execution under a key knows of the claims appended under it. -/
def Attempt.Knows (a : Attempt) (filed : List Claim) : Prop :=
  match a.phase with
  | .looking | .failed _ => True
  | .found existing => filed.map Claim.claimId = [existing]
  | .appending => a.alive = true → filed = []
  | .recording claim | .recorded claim => filed = [claim]
  | .returned result => filed.map Claim.claimId = [result.claim.claimId]

/-- The `i`-th execution is one under the key. -/
def Replicas.Under (s : Replicas S) (key : Text) (i : Nat) (a : Attempt) : Prop :=
  s.attempts[i]? = some a ∧ a.call.key = some key

/-- What holds of a key, whatever has happened, if its lookups have been safe. -/
structure Orderly (key : Text) (s : Replicas S) (es : List FilingEvent) : Prop where
  oneClaim : OneClaim key es
  record : ∀ claimId, s.stores.lookup key = some claimId →
    (filedUnder key es).map Claim.claimId = [claimId]
  knows : ∀ {i a}, s.Under key i a → a.Knows (filedUnder key es)
  alone : ∀ {i j a b}, s.Under key i a → s.Under key j b → a.aboutToAppend = true →
    b.aboutToAppend = true → i = j
  traced : filedUnder key es ≠ [] → ∃ i a, s.Under key i a ∧ a.phase.pastAppend = true

theorem filedUnder_append (key : Text) (es fs : List FilingEvent) :
    filedUnder key (es ++ fs) = filedUnder key es ++ filedUnder key fs := List.filterMap_append

/-- After an execution has changed, the executions are the changed one and the others. -/
theorem under_set {s : Replicas S} {stores : Stores S} {key : Text} {i j : Nat} {a b : Attempt}
    (h : Replicas.Under ⟨stores, s.attempts.set i a⟩ key j b) :
    j = i ∧ b = a ∧ a.call.key = some key ∨ j ≠ i ∧ s.Under key j b := by
  obtain ⟨hget, hkey⟩ := h
  change (s.attempts.set i a)[j]? = some b at hget
  rw [List.getElem?_set] at hget
  split at hget
  · rename_i hij
    split at hget
    · cases hget
      exact .inl ⟨hij.symm, rfl, hkey⟩
    · cases hget
  · rename_i hij
    exact .inr ⟨fun h => hij h.symm, hget, hkey⟩

/-- **An execution may change as long as it appends nothing, and knows and tells what is
true.** -/
theorem orderly_set {key : Text} {s : Replicas S} {es fs : List FilingEvent}
    (hs : Orderly key s es) {i : Nat} {a a' : Attempt} {stores : Stores S}
    (hget : s.attempts[i]? = some a) (hcall : a'.call = a.call) (hquiet : filedUnder key fs = [])
    (hanswers : ∀ filed, .answered (some key) filed ∈ fs →
      (filedUnder key es).map Claim.claimId = [filed.claim.claimId])
    (hrecord : ∀ claimId, stores.lookup key = some claimId →
      (filedUnder key es).map Claim.claimId = [claimId])
    (hknows : s.Under key i a → a'.Knows (filedUnder key es))
    (halone : s.Under key i a → a'.aboutToAppend = true →
      ∀ j b, s.Under key j b → b.aboutToAppend = true → j = i)
    (htraced : a.phase.pastAppend = true → a'.phase.pastAppend = true) :
    Orderly key ⟨stores, s.attempts.set i a'⟩ (es ++ fs) := by
  have hfiled : filedUnder key (es ++ fs) = filedUnder key es := by
    rw [filedUnder_append, hquiet, List.append_nil]
  have here : ∀ {key' : Text}, a'.call.key = some key' → s.Under key' i a :=
    fun h => ⟨hget, hcall ▸ h⟩
  constructor
  · constructor
    · rw [hfiled]
      exact hs.oneClaim.atMostOne
    · intro filed hmem
      rw [hfiled]
      exact (List.mem_append.mp hmem).elim (hs.oneClaim.answers filed) (hanswers filed)
  · rw [hfiled]
    exact hrecord
  · intro j b hb
    rw [hfiled]
    rcases under_set hb with ⟨-, rfl, hkey⟩ | ⟨-, hb⟩
    · exact hknows (here hkey)
    · exact hs.knows hb
  · intro j k b c hb hc hbappend hcappend
    rcases under_set hb with ⟨rfl, rfl, hkey⟩ | ⟨-, hb'⟩
    · rcases under_set hc with ⟨rfl, -, -⟩ | ⟨-, hc'⟩
      · rfl
      · exact (halone (here hkey) hbappend k c hc' hcappend).symm
    · rcases under_set hc with ⟨rfl, rfl, hkey⟩ | ⟨-, hc'⟩
      · exact halone (here hkey) hcappend j b hb' hbappend
      · exact hs.alone hb' hc' hbappend hcappend
  · rw [hfiled]
    intro hne
    obtain ⟨j, b, ⟨hb, hkey⟩, hpast⟩ := hs.traced hne
    by_cases hij : i = j
    · subst hij
      obtain rfl := Option.some.inj (hget.symm.trans hb)
      refine ⟨i, a', ⟨?_, hcall ▸ hkey⟩, htraced hpast⟩
      exact List.getElem?_set_self (List.getElem?_eq_some_iff.mp hget).1
    · refine ⟨j, b, ⟨?_, hkey⟩, hpast⟩
      exact (List.getElem?_set_ne hij).trans hb

/-- Once the claim is appended, every execution under the key that has not failed knows it. -/
theorem orderly_appended {key : Text} {s : Replicas S} {es : List FilingEvent}
    (hs : Orderly key s es) {i : Nat} {a : Attempt} (ha : s.Under key i a)
    (happend : a.aboutToAppend = true) (claim : Claim) {repo : S} :
    Orderly key
      ⟨{ s.stores with repo }, s.attempts.set i { a with phase := .recording claim }⟩
      (es ++ [.appended (some key) claim]) := by
  have hphase : a.alive = true ∧ a.phase = .appending := by
    unfold Attempt.aboutToAppend at happend
    obtain ⟨halive, hphase⟩ := Bool.and_eq_true_iff.mp happend
    refine ⟨halive, ?_⟩
    split at hphase
    · assumption
    · cases hphase
  have hnone : filedUnder key es = [] := by
    have := hs.knows ha
    unfold Attempt.Knows at this
    rw [hphase.2] at this
    exact this hphase.1
  have hfiled : filedUnder key (es ++ [.appended (some key) claim]) = [claim] := by
    rw [filedUnder_append, hnone]
    simp [filedUnder, FilingEvent.appended?]
  have hbefore : ∀ {x : Text}, (filedUnder key es).map Claim.claimId ≠ [x] := by
    intro x h
    rw [hnone] at h
    cases h
  constructor
  · constructor
    · rw [hfiled]
      exact Nat.le_refl 1
    · intro filed hmem
      rcases List.mem_append.mp hmem with hmem | hmem
      · exact (hbefore (hs.oneClaim.answers filed hmem)).elim
      · simp at hmem
  · intro claimId h
    exact (hbefore (hs.record claimId h)).elim
  · intro j b hb
    rw [hfiled]
    rcases under_set hb with ⟨-, rfl, -⟩ | ⟨hne, hb⟩
    · rfl
    · have hknows := hs.knows hb
      unfold Attempt.Knows at hknows ⊢
      split <;> rename_i hb' <;> rw [hb'] at hknows
      · trivial
      · trivial
      · exact (hbefore hknows).elim
      · intro halive
        have : b.aboutToAppend = true := by
          rw [Attempt.aboutToAppend, halive, hb']
          rfl
        exact (hne (hs.alone hb ha this happend)).elim
      · rw [hnone] at hknows
        cases hknows
      · rw [hnone] at hknows
        cases hknows
      · exact (hbefore hknows).elim
  · intro j k b c hb hc hbappend hcappend
    have hrest : ∀ {j : Nat} {b : Attempt}, Replicas.Under
        ⟨{ s.stores with repo }, s.attempts.set i { a with phase := .recording claim }⟩ key j b →
        b.aboutToAppend = true → s.Under key j b := by
      intro j b hb hbappend
      rcases under_set hb with ⟨-, rfl, -⟩ | ⟨-, hb⟩
      · simp [Attempt.aboutToAppend] at hbappend
      · exact hb
    exact hs.alone (hrest hb hbappend) (hrest hc hcappend) hbappend hcappend
  · intro _
    refine ⟨i, { a with phase := .recording claim }, ⟨?_, ha.2⟩, rfl⟩
    exact List.getElem?_set_self (List.getElem?_eq_some_iff.mp ha.1).1

theorem orderly_start {key : Text} {s : Replicas S} {es : List FilingEvent}
    (hs : Orderly key s es) (call : Submission) :
    Orderly key { s with attempts := s.attempts ++ [{ call }] } (es ++ []) := by
  rw [List.append_nil]
  have cases : ∀ {j : Nat} {b : Attempt},
      Replicas.Under { s with attempts := s.attempts ++ [{ call }] } key j b →
        s.Under key j b ∨ b.phase = .looking := by
    rintro j b ⟨hget, hkey⟩
    rcases Nat.lt_or_ge j s.attempts.length with hj | hj
    · exact .inl ⟨by rwa [List.getElem?_append_left hj] at hget, hkey⟩
    · rw [List.getElem?_append_right hj] at hget
      have hb := List.mem_of_getElem? hget
      rw [List.mem_singleton.mp hb]
      exact .inr rfl
  have old : ∀ {j : Nat} {b : Attempt},
      Replicas.Under { s with attempts := s.attempts ++ [{ call }] } key j b →
        b.aboutToAppend = true → s.Under key j b := by
    intro j b hb happend
    rcases cases hb with hb | hphase
    · exact hb
    · simp [Attempt.aboutToAppend, hphase] at happend
  refine ⟨hs.oneClaim, hs.record, ?_, ?_, ?_⟩
  · intro j b hb
    rcases cases hb with hb | hphase
    · exact hs.knows hb
    · unfold Attempt.Knows
      rw [hphase]
      trivial
  · intro j k b c hb hc hbappend hcappend
    exact hs.alone (old hb hbappend) (old hc hcappend) hbappend hcappend
  · intro hne
    obtain ⟨j, b, ⟨hget, hkey⟩, hpast⟩ := hs.traced hne
    refine ⟨j, b, ⟨?_, hkey⟩, hpast⟩
    exact (List.getElem?_append_left (List.getElem?_eq_some_iff.mp hget).1).trans hget

theorem orderly_expire {key : Text} {s : Replicas S} {es : List FilingEvent}
    (hs : Orderly key s es) (other : Text) :
    Orderly key { s with stores := s.stores.expire other } (es ++ []) := by
  rw [List.append_nil]
  refine ⟨hs.oneClaim, ?_, hs.knows, hs.alone, hs.traced⟩
  intro claimId h
  by_cases hkey : key = other
  · rw [← hkey, Stores.lookup_expire] at h
    cases h
  · rw [Stores.lookup_expire_of_ne _ hkey] at h
    exact hs.record claimId h

/-- An execution that crashes has done what it has done. -/
theorem orderly_crash {key : Text} {s : Replicas S} {es : List FilingEvent}
    (hs : Orderly key s es) {i : Nat} {a : Attempt} (hget : s.attempts[i]? = some a) :
    Orderly key { s with attempts := s.attempts.set i { a with alive := false } } (es ++ []) := by
  refine orderly_set hs hget rfl rfl nofun hs.record (fun ha => ?_) (fun _ h => ?_) id
  · have hknows := hs.knows ha
    unfold Attempt.Knows at hknows ⊢
    dsimp only
    split <;> rename_i hphase <;> rw [hphase] at hknows
    · trivial
    · trivial
    · exact hknows
    · exact nofun
    · exact hknows
    · exact hknows
    · exact hknows
  · cases h

/-- Where a lookup is safe and finds no record, nothing has been appended and nobody is about
to. -/
theorem clear_of_safe {key : Text} {s : Replicas S} {i : Nat} {a : Attempt}
    (safe : safeLookup key s (.proceed i) = true) (ha : s.Under key i a)
    (hlook : a.aboutToLook = true) (hnone : s.stores.lookup key = none) : s.clear key = true := by
  simpa [safeLookup, ha.1, ha.2, hlook, hnone] using safe

theorem filed_of_clear {key : Text} {s : Replicas S} {es : List FilingEvent}
    (hs : Orderly key s es) (hclear : s.clear key = true) : filedUnder key es = [] ∧
      ∀ j b, s.Under key j b → b.aboutToAppend = false := by
  have hall : ∀ j b, s.Under key j b → b.phase.pastAppend = false ∧ b.aboutToAppend = false := by
    rintro j b ⟨hget, hkey⟩
    have := List.all_eq_true.mp hclear b (List.mem_of_getElem? hget)
    simpa [hkey] using this
  refine ⟨?_, fun j b hb => (hall j b hb).2⟩
  by_contra hne
  obtain ⟨j, b, hb, hpast⟩ := hs.traced hne
  rw [(hall j b hb).1] at hpast
  cases hpast

/-- An execution records its claim under its own key. -/
theorem lookup_advance (repo : ClaimsRepository S) (call : Submission) (phase : Phase)
    (stores : Stores S) {key : Text} (hkey : call.key ≠ some key) :
    (advance repo call (phase, stores)).2.lookup key = stores.lookup key := by
  cases phase with
  | looking | found | appending =>
    rw [advance]
    split <;> rfl
  | recording claim =>
    rw [advance]
    split
    · rename_i own hown
      refine Stores.lookup_record_of_ne _ ?_ _
      rintro rfl
      exact hkey hown
    · rfl
  | recorded claim => rfl
  | returned filed => rfl
  | failed e => rfl

theorem pastAppend_advance (repo : ClaimsRepository S) (call : Submission) {phase : Phase}
    (stores : Stores S) (h : phase.pastAppend = true) :
    (advance repo call (phase, stores)).1.pastAppend = true := by
  cases phase with
  | recording claim =>
    rw [advance]
    split <;> rfl
  | recorded claim => rfl
  | returned filed => rfl
  | _ => cases h

/-- An execution under another key is of no concern. -/
theorem orderly_proceed_other {key : Text} {repo : ClaimsRepository S} {s : Replicas S}
    {es : List FilingEvent} (hs : Orderly key s es) {i : Nat} {a : Attempt}
    (hget : s.attempts[i]? = some a) (hkey : a.call.key ≠ some key) :
    Orderly key (s.proceed repo i a).1 (es ++ (s.proceed repo i a).2) := by
  have hseen : ∀ phase : Phase, filedUnder key (phase.seen a.call.key) = [] ∧
      ∀ filed, .answered (some key) filed ∉ phase.seen a.call.key := by
    intro phase
    cases phase with
    | recording claim =>
      refine ⟨?_, by simp [Phase.seen]⟩
      simp [filedUnder, Phase.seen, FilingEvent.appended?, hkey]
    | returned filed =>
      refine ⟨by simp [filedUnder, Phase.seen, FilingEvent.appended?], ?_⟩
      simp [Phase.seen, Ne.symm hkey]
    | _ => exact ⟨rfl, fun _ h => nomatch h⟩
  refine orderly_set hs hget rfl (hseen _).1 (fun filed hmem => ((hseen _).2 filed hmem).elim) ?_
    (fun ha => (hkey ha.2).elim) (fun ha => (hkey ha.2).elim) (pastAppend_advance repo a.call _)
  intro claimId h
  exact hs.record claimId ((lookup_advance repo a.call a.phase s.stores hkey).symm.trans h)

/-- **An execution goes on**, await by await. -/
theorem orderly_proceed {key : Text} {repo : ClaimsRepository S} {s : Replicas S}
    {es : List FilingEvent} (hs : Orderly key s es) {i : Nat} {a : Attempt}
    (hget : s.attempts[i]? = some a) (halive : a.alive = true) (hover : a.phase.over = false)
    (safe : safeLookup key s (.proceed i) = true) :
    Orderly key (s.proceed repo i a).1 (es ++ (s.proceed repo i a).2) := by
  by_cases hkey : a.call.key = some key
  swap
  · exact orderly_proceed_other hs hget hkey
  have ha : s.Under key i a := ⟨hget, hkey⟩
  have hknows := hs.knows ha
  unfold Attempt.Knows at hknows
  unfold Replicas.proceed
  cases hphase : a.phase with
  | looking =>
    rw [advance, hkey, Option.bind_some]
    cases hlookup : s.stores.lookup key with
    | some existing =>
      exact orderly_set hs hget rfl rfl nofun hs.record (fun _ => hs.record existing hlookup)
        (fun _ h => by simp [Attempt.aboutToAppend] at h) (by simp [hphase, Phase.pastAppend])
    | none =>
      have hlook : a.aboutToLook = true := by
        rw [Attempt.aboutToLook, halive, hphase]
        rfl
      obtain ⟨hnone, hnobody⟩ := filed_of_clear hs (clear_of_safe safe ha hlook hlookup)
      refine orderly_set hs hget rfl rfl nofun hs.record (fun _ _ => hnone)
        (fun _ _ j b hb happend => ?_) (by simp [hphase, Phase.pastAppend])
      rw [hnobody j b hb] at happend
      cases happend
  | found existing =>
    rw [hphase] at hknows
    rw [advance]
    cases hget' : repo.get existing s.stores.repo with
    | some claim =>
      have hid : claim.claimId = existing := by simpa using List.find?_some hget'
      have hclaim : (filedUnder key es).map Claim.claimId = [claim.claimId] := hid ▸ hknows
      refine orderly_set hs hget rfl (by simp [filedUnder, Phase.seen, FilingEvent.appended?]) ?_
        hs.record (fun _ => hclaim) (fun _ h => by simp [Attempt.aboutToAppend] at h) (fun _ => rfl)
      intro filed hmem
      obtain ⟨-, rfl⟩ : some key = a.call.key ∧ filed = ⟨claim, true⟩ := by
        simpa [Phase.seen] using hmem
      exact hclaim
    | none =>
      exact orderly_set hs hget rfl rfl nofun hs.record (fun _ => trivial)
        (fun _ h => by simp [Attempt.aboutToAppend] at h) (by simp [hphase, Phase.pastAppend])
  | appending =>
    rw [advance]
    have happend : a.aboutToAppend = true := by
      rw [Attempt.aboutToAppend, halive, hphase]
      rfl
    generalize hrepo : repo.append a.call.args s.stores.repo = outcome
    obtain ⟨_ | claim, repo'⟩ := outcome
    · exact orderly_set hs hget rfl rfl nofun hs.record (fun _ => trivial)
        (fun _ h => by simp [Attempt.aboutToAppend] at h) (by simp [hphase, Phase.pastAppend])
    · dsimp only
      rw [hkey]
      exact orderly_appended hs ha happend claim
  | recording claim =>
    rw [hphase] at hknows
    rw [advance, hkey]
    refine orderly_set hs hget rfl rfl nofun ?_ (fun _ => hknows)
      (fun _ h => by simp [Attempt.aboutToAppend] at h) (fun _ => rfl)
    intro claimId h
    rw [Stores.lookup_record] at h
    cases h
    rw [hknows]
    rfl
  | recorded claim =>
    rw [hphase] at hknows
    rw [advance]
    have hclaim : (filedUnder key es).map Claim.claimId = [claim.claimId] := by rw [hknows]; rfl
    refine orderly_set hs hget rfl (by simp [filedUnder, Phase.seen, FilingEvent.appended?]) ?_
      hs.record (fun _ => hclaim) (fun _ h => by simp [Attempt.aboutToAppend] at h) (fun _ => rfl)
    intro filed hmem
    obtain ⟨-, rfl⟩ : some key = a.call.key ∧ filed = ⟨claim, false⟩ := by
      simpa [Phase.seen] using hmem
    exact hclaim
  | returned filed =>
    rw [hphase] at hover
    cases hover
  | failed e =>
    rw [hphase] at hover
    cases hover

theorem orderly_step {key : Text} {repo : ClaimsRepository S} {s s' : Replicas S}
    {es fs : List FilingEvent} {action : ReplicaAction} (hs : Orderly key s es)
    (hstep : s.step repo action = some (s', fs)) (safe : safeLookup key s action = true) :
    Orderly key s' (es ++ fs) := by
  cases action with
  | start call =>
    cases hstep
    exact orderly_start hs call
  | proceed i =>
    obtain ⟨a, hget, h⟩ := Option.bind_eq_some_iff.mp hstep
    split at h
    · rename_i hgoes
      obtain ⟨halive, hover⟩ := Bool.and_eq_true_iff.mp hgoes
      obtain rfl := (Prod.mk.inj (Option.some.inj h)).1
      obtain rfl := (Prod.mk.inj (Option.some.inj h)).2
      exact orderly_proceed hs hget halive (by simpa using hover) safe
    · cases h
  | crash i =>
    obtain ⟨a, hget, h⟩ := Option.map_eq_some_iff.mp hstep
    cases h
    exact orderly_crash hs hget
  | expire other =>
    cases hstep
    exact orderly_expire hs other

/-- **If every lookup of a key is safe, then at most one claim is appended under it, and every
execution that returns a result under it returns the id of that claim**, in whatever order the
executions go on, crash and are started again, and whenever the record expires. -/
theorem one_claim_of_safe_lookups (repo : ClaimsRepository S) {key : Text} {stores : Stores S}
    (hnone : stores.lookup key = none) {as : List ReplicaAction} {s : Replicas S}
    {es : List FilingEvent}
    (h : Run (Computes (restrict (safeLookup key) (Replicas.step repo))) ⟨stores, []⟩ as s es) :
    OneClaim key es := by
  have hinit : Orderly key (⟨stores, []⟩ : Replicas S) [] := by
    refine ⟨⟨Nat.zero_le 1, nofun⟩, ?_, ?_, ?_, fun h => (h rfl).elim⟩
    · intro claimId h
      rw [hnone] at h
      cases h
    · rintro i a ⟨hget, -⟩
      cases hget
    · rintro i j a b ⟨hget, -⟩
      cases hget
  exact (h.invariant_restrict (I := Orderly key) hinit orderly_step).oneClaim

/-- A retry after an answer that got lost is a replay. -/
theorem retry_after_answer_replays :
    ∃ s es, Run (Computes (restrict (safeLookup "k") (Replicas.step listRepository)))
        ⟨⟨[], []⟩, []⟩
        ([.start ⟨some "k", burstPipe⟩, .proceed 0, .proceed 0, .proceed 0, .proceed 0] ++
          [.start ⟨some "k", burstPipe⟩, .proceed 1, .proceed 1]) s es ∧
      OneClaim "k" es := by
  obtain ⟨s, es, h, -⟩ := exists_run_of_play
    (restrict (safeLookup "k") (Replicas.step listRepository)) ⟨⟨[], []⟩, []⟩
    ([.start ⟨some "k", burstPipe⟩, .proceed 0, .proceed 0, .proceed 0, .proceed 0] ++
      [.start ⟨some "k", burstPipe⟩, .proceed 1, .proceed 1])
    (fun _ _ => true) (by decide)
  exact ⟨s, es, h, one_claim_of_safe_lookups listRepository rfl h⟩

/-- A retry after a crash between the append and the record files a second claim. -/
theorem retry_after_crash_files_again :
    ∃ s es, Run (Computes (Replicas.step listRepository)) ⟨⟨[], []⟩, []⟩
        [.start ⟨some "k", burstPipe⟩, .proceed 0, .proceed 0, .crash 0,
          .start ⟨some "k", burstPipe⟩, .proceed 1, .proceed 1] s es ∧
      ¬ OneClaim "k" es := by
  obtain ⟨s, es, h, hp⟩ := exists_run_of_play (Replicas.step listRepository) ⟨⟨[], []⟩, []⟩
    [.start ⟨some "k", burstPipe⟩, .proceed 0, .proceed 0, .crash 0,
      .start ⟨some "k", burstPipe⟩, .proceed 1, .proceed 1]
    (fun _ es => (filedUnder "k" es).length = 2) (by decide)
  have htwo := of_decide_eq_true hp
  refine ⟨s, es, h, fun hone => ?_⟩
  have := hone.atMostOne
  omega

end OmniCare
