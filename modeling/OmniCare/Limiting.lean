import OmniCare.Admission

/-! # The bucket of one caller

The script of `RedisRateLimiter`, run for one bucket at any times that do not go back.  Redis drops
the key when it expires, and the next run of the script begins with a full bucket.  A key that is
kept for ever would have had the time to fill up by then, so the script returns the same for both
(`Tracks.bucketScript_eq`), and what holds of a token bucket holds of the script: **the tokens keep
to the capacity, the admissions to the rate, who waits as told is admitted, and the expiry changes
no decision** (`limiter_sound`).
-/
namespace OmniCare

/-- A run of the script: when, the key it leaves, and what `check` makes of it. -/
structure Checked where
  now : ℚ
  key : BucketKey
  result : CheckResult

/-- The runs of the script for one bucket. -/
def checks (rate : BucketRate ℚ) : Option BucketKey → List ℚ → List Checked
  | _, [] => []
  | key, now :: rest =>
      let r := bucketScript rate now 1 key
      ⟨now, r.1, r.2⟩ :: checks rate (some r.1) rest

/-- The key that does not expire. -/
def BucketKey.kept (key : BucketKey) : BucketKey := { key with expires := none }

/-- The runs of the script, if the key is kept for ever. -/
def keptChecks (rate : BucketRate ℚ) : Option BucketKey → List ℚ → List Checked
  | _, [] => []
  | key, now :: rest =>
      let r := bucketScript rate now 1 (key.map BucketKey.kept)
      ⟨now, r.1, r.2⟩ :: keptChecks rate (some r.1) rest

theorem results_checks (rate : BucketRate ℚ) (key : Option BucketKey) (now : ℚ) (rest : List ℚ) :
    (checks rate key (now :: rest)).map Checked.result =
      (bucketScript rate now 1 key).2 ::
        (checks rate (some (bucketScript rate now 1 key).1) rest).map Checked.result := rfl

theorem results_keptChecks (rate : BucketRate ℚ) (key : Option BucketKey) (now : ℚ)
    (rest : List ℚ) :
    (keptChecks rate key (now :: rest)).map Checked.result =
      (bucketScript rate now 1 (key.map BucketKey.kept)).2 ::
        (keptChecks rate (some (bucketScript rate now 1 (key.map BucketKey.kept)).1) rest).map
          Checked.result := rfl

/-- The run comes within `T` from `lo` on, and its request is admitted. -/
def Checked.admittedIn (lo T : ℚ) (c : Checked) : Bool :=
  c.result = .allowed ∧ lo ≤ c.now ∧ c.now ≤ lo + T

/-- Who is told to wait, and comes back after that with nobody in between, is admitted. -/
def Checked.Waited (c d : Checked) : Prop :=
  ∀ retryAfter, c.result = .limited retryAfter → c.now + retryAfter ≤ d.now → d.result = .allowed

/-- What is promised of the requests at these times. -/
structure Limits (rate : BucketRate ℚ) (times : List ℚ) : Prop where
  stored : ∀ c ∈ checks rate none times,
    0 ≤ c.key.bucket.tokens ∧ c.key.bucket.tokens ≤ rate.capacity
  window : ∀ lo T : ℚ, 0 ≤ T →
    (((checks rate none times).filter (Checked.admittedIn lo T)).length : ℚ) ≤
      rate.capacity + rate.refill * T
  waited : (checks rate none times).IsChain Checked.Waited
  expiry : (checks rate none times).map Checked.result =
    (keptChecks rate none times).map Checked.result

/-! ## One run of the script -/

section
variable {rate : BucketRate ℚ} {b : Bucket ℚ} {key : Option BucketKey} {now : ℚ}

/-- What the script leaves is the bucket, with an expiry that has the time to fill it. -/
theorem bucketScript_key (hrefill : 0 < rate.refill) :
    (bucketScript rate now 1 key).1 =
      ⟨((readBucket now key).getD ⟨rate.capacity, now⟩).take rate 1 now,
        some (now + (⌈rate.capacity / rate.refill⌉ + 1))⟩ := by
  unfold bucketScript
  simp only [hrefill.ne', if_false]

/-- **The script sees no difference between the key and the bucket that is kept for ever.** -/
theorem Tracks.bucketScript_eq (h : Tracks rate b key) (hrefill : 0 < rate.refill)
    (hb : 0 ≤ b.tokens) (hnow : b.ts ≤ now) :
    bucketScript rate now 1 key = bucketScript rate now 1 (some ⟨b, none⟩) := by
  have hlevel := h.level hrefill hb hnow
  have hread : (readBucket now (some ⟨b, none⟩)).getD ⟨rate.capacity, now⟩ = b := rfl
  have htake : ((readBucket now key).getD ⟨rate.capacity, now⟩).take rate 1 now =
      b.take rate 1 now := by
    unfold Bucket.take
    rw [hlevel]
  unfold bucketScript
  simp only [hread, hlevel, htake]

theorem Tracks.bucketScript_fst (h : Tracks rate b key) (hrefill : 0 < rate.refill)
    (hb : 0 ≤ b.tokens) (hnow : b.ts ≤ now) :
    (bucketScript rate now 1 key).1.bucket = b.take rate 1 now :=
  congrArg BucketKey.bucket (h.script hrefill hb hnow).1

/-- The script tells a caller whom it does not admit how long the bucket takes to have a token. -/
theorem retryAfter_of_limited (hrefill : 0 < rate.refill) {retryAfter : Int}
    (h : (bucketScript rate now 1 key).2 = .limited retryAfter) :
    1 - (bucketScript rate now 1 key).1.bucket.tokens ≤ retryAfter * rate.refill := by
  unfold bucketScript at h ⊢
  simp only [hrefill.ne', if_false] at h ⊢
  split at h
  · cases h
  · obtain rfl := CheckResult.limited.inj h
    rw [← div_le_iff₀ hrefill]
    refine (Int.le_ceil _).trans ?_
    exact_mod_cast le_max_right _ _

end

/-! ## Any number of runs -/

section
variable {rate : BucketRate ℚ}

/-- What the keys of consecutive runs have in common with a bucket that is kept for ever. -/
structure Standing (rate : BucketRate ℚ) (b : Bucket ℚ) (key : Option BucketKey)
    (times : List ℚ) : Prop where
  tracks : Tracks rate b key
  nonneg : 0 ≤ b.tokens
  sorted : (b.ts :: times).Pairwise (· ≤ ·)

namespace Standing

variable {b : Bucket ℚ} {key : Option BucketKey} {now : ℚ} {rest times : List ℚ}

theorem le_now (h : Standing rate b key (now :: rest)) : b.ts ≤ now :=
  List.rel_of_pairwise_cons h.sorted List.mem_cons_self

/-- **A run of the script leaves it so.** -/
theorem next (h : Standing rate b key (now :: rest)) (hrefill : 0 < rate.refill)
    (hcapacity : 0 ≤ rate.capacity) :
    Standing rate (b.take rate 1 now) (some (bucketScript rate now 1 key).1) rest where
  tracks := (h.tracks.script hrefill h.nonneg h.le_now).1
  nonneg := Bucket.take_nonneg hcapacity hrefill.le h.nonneg h.le_now
  sorted := h.sorted.of_cons

theorem stored (h : Standing rate b key times) (hrefill : 0 < rate.refill)
    (hcapacity : 0 ≤ rate.capacity) : ∀ c ∈ checks rate key times,
      0 ≤ c.key.bucket.tokens ∧ c.key.bucket.tokens ≤ rate.capacity := by
  induction times generalizing b key with
  | nil => exact nofun
  | cons now rest ih =>
    have hnext := h.next hrefill hcapacity
    have hbucket := h.tracks.bucketScript_fst hrefill h.nonneg h.le_now
    refine List.forall_mem_cons.mpr ⟨?_, ih hnext⟩
    rw [hbucket]
    exact ⟨hnext.nonneg, Bucket.take_le zero_le_one now⟩

/-- The script admits the requests that the bucket admits. -/
theorem admissions (h : Standing rate b key times) (hrefill : 0 < rate.refill)
    (hcapacity : 0 ≤ rate.capacity) :
    ((checks rate key times).filter (·.result = .allowed)).map Checked.now =
      b.admissions rate 1 times := by
  induction times generalizing b key with
  | nil => rfl
  | cons now rest ih =>
    have hallowed := (h.tracks.script hrefill h.nonneg h.le_now).2
    have htail := ih (h.next hrefill hcapacity)
    unfold checks Bucket.admissions
    by_cases hlevel : 1 ≤ b.level rate now
    · rw [List.filter_cons_of_pos (by simpa using hallowed.mpr hlevel), if_pos hlevel,
        List.map_cons, htail]
    · rw [List.filter_cons_of_neg (by simpa using fun heq => hlevel (hallowed.mp heq)),
        if_neg hlevel, htail]

theorem waited (h : Standing rate b key times) (hrefill : 0 < rate.refill)
    (hcapacity : 1 ≤ rate.capacity) : (checks rate key times).IsChain Checked.Waited := by
  induction times generalizing b key with
  | nil => exact .nil
  | cons now rest ih =>
    have hnext := h.next hrefill (zero_le_one.trans hcapacity)
    have htail := ih hnext
    cases rest with
    | nil => exact .singleton _
    | cons later rest =>
      refine .cons_cons (fun retryAfter hlimited hlate => ?_) htail
      have hmissing := retryAfter_of_limited hrefill hlimited
      rw [h.tracks.bucketScript_fst hrefill h.nonneg h.le_now] at hmissing
      refine (hnext.tracks.script hrefill hnext.nonneg hnext.le_now).2.mpr ?_
      refine Bucket.le_level_of_waited hcapacity (hmissing.trans ?_)
      refine mul_le_mul_of_nonneg_right ?_ hrefill.le
      have hwait : now + retryAfter ≤ later := hlate
      rw [Bucket.take_ts]
      linarith

/-- The key that is kept for ever holds the bucket. -/
theorem expiry (h : Standing rate b key times) (hrefill : 0 < rate.refill)
    (hcapacity : 0 ≤ rate.capacity) {kept : BucketKey} (hkept : kept.bucket = b) :
    (checks rate key times).map Checked.result =
      (keptChecks rate (some kept) times).map Checked.result := by
  induction times generalizing b key kept with
  | nil => rfl
  | cons now rest ih =>
    have hsame := h.tracks.bucketScript_eq hrefill h.nonneg h.le_now
    have hbucket := h.tracks.bucketScript_fst hrefill h.nonneg h.le_now
    have heq : bucketScript rate now 1 key =
        bucketScript rate now 1 ((some kept).map BucketKey.kept) := by
      rw [hsame, ← hkept]
      rfl
    rw [results_checks, results_keptChecks, ← heq]
    exact congrArg _ (ih (h.next hrefill hcapacity) hbucket)

end Standing

/-- Before its first request, a full bucket stands for the key. -/
theorem standing_of_new (hcapacity : 0 ≤ rate.capacity) {now : ℚ} {rest : List ℚ}
    (hsorted : (now :: rest).Pairwise (· ≤ ·)) :
    Standing rate ⟨rate.capacity, now⟩ none (now :: rest) where
  tracks := le_refl _
  nonneg := hcapacity
  sorted := List.pairwise_cons.mpr
    ⟨List.forall_mem_cons.mpr ⟨le_refl _, fun _ => List.rel_of_pairwise_cons hsorted⟩, hsorted⟩

/-- **Whenever the requests come**, the stored tokens lie between nothing and the capacity, no
window admits more than the capacity and what flows in, who waits as told is admitted, and no
decision depends on the expiry of the key. -/
theorem limiter_sound (hrefill : 0 < rate.refill) (hcapacity : 1 ≤ rate.capacity) {times : List ℚ}
    (hsorted : times.Pairwise (· ≤ ·)) : Limits rate times := by
  have hnonneg : 0 ≤ rate.capacity := zero_le_one.trans hcapacity
  cases times with
  | nil =>
    refine ⟨nofun, fun lo T hT => ?_, .nil, rfl⟩
    have hflow : 0 ≤ rate.refill * T := mul_nonneg hrefill.le hT
    simp only [checks, List.filter_nil, List.length_nil, Nat.cast_zero]
    linarith
  | cons now rest =>
    have hstanding := standing_of_new hnonneg hsorted
    refine ⟨hstanding.stored hrefill hnonneg, fun lo T hT => ?_,
      hstanding.waited hrefill hcapacity, ?_⟩
    · have hadmitted := hstanding.admissions hrefill hnonneg
      have hwindow := Bucket.taken_in_window_le 1 lo hnonneg hrefill.le hT (now :: rest) _
        hstanding.nonneg hstanding.sorted
      rw [← hadmitted, List.filter_map, List.length_map, List.filter_filter, mul_one] at hwindow
      rw [mul_comm]
      refine le_trans (le_of_eq ?_) hwindow
      refine congrArg (fun l => ((List.length l : Nat) : ℚ)) (List.filter_congr fun c _ => ?_)
      rw [Checked.admittedIn, Function.comp_apply, Bool.decide_and, Bool.and_comm]
    · -- the first run of the script finds no key, with or without an expiry
      rw [results_checks, results_keptChecks]
      refine congrArg _ (Standing.expiry (hstanding.next hrefill hnonneg) hrefill hnonneg ?_)
      exact hstanding.tracks.bucketScript_fst hrefill hnonneg (le_refl _)

/-- The third of three requests at once is told to wait two seconds, and does. -/
theorem third_request_waits :
    (checks ⟨2, 1 / 2⟩ none [0, 0, 0, 2]).map Checked.result =
        [.allowed, .allowed, .limited 2, .allowed] ∧
      Limits ⟨2, 1 / 2⟩ [0, 0, 0, 2] :=
  ⟨by decide +kernel, limiter_sound (by norm_num) (by norm_num) (by decide +kernel)⟩

end

end OmniCare
