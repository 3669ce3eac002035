import OmniCare.Claims
import OmniCare.Graph
import OmniCare.Queues
import OmniCare.TokenBucket
import Mathlib.Data.Rat.Floor

/-! # Admission

What a request passes before the gateway enqueues a job for it (`gateway/app/main.py`), with the
rate limiters of `libs/adapters`.  A request over REST asks the limiter for a token of its user and
is turned away when the queue is deeper than `max_queue_depth`; a request over the WebSocket is
asked for neither.

**The jobs of a user in a window of length `T` number at most `burst + per_minute / 60 * T` if none
of the user's requests in it comes over the WebSocket, and no job is enqueued above
`max_queue_depth` exactly if no request over the WebSocket finds the queue that deep**
(`jobs_bounded`).
-/
namespace OmniCare

/-! ## Requests -/

/-- `^[A-Za-z0-9_\-]+$`, with at most 64 characters. -/
def isUserId (s : Text) : Bool :=
  1 ≤ s.length && s.length ≤ 64 && s.all fun c => c.isAlphanum || c == '_' || c == '-'

/-- `ChatRequest`. -/
structure ChatRequest where
  userId : Text
  message : Text
  conversationId : Option Text := none
  channel : Channel := .text
  sttConfidence : Option ℚ := none
  userId_ok : isUserId userId = true
  message_ok : 1 ≤ message.length ∧ message.length ≤ 4000
  message_trimmed : Trimmed message
  conversationId_ok : ∀ c ∈ conversationId, c.length ≤ 64 ∧ Trimmed c
  sttConfidence_ok : ∀ x ∈ sttConfidence, 0 ≤ x ∧ x ≤ 1

/-- How a request reaches the gateway: `chat` or `chat_stream`. -/
inductive Surface
  | rest
  | webSocket
  deriving DecidableEq, Repr

/-- A request, when it comes, and the depth of the queue that it observes. -/
structure Arrival where
  surface : Surface
  request : ChatRequest
  now : ℚ
  depth : Nat

/-- `GatewaySettings`. -/
structure GatewaySettings where
  redisUrl : Text := "redis://localhost:6379/0"
  rateLimitPerMinute : Int := 30
  rateLimitBurst : Int := 10
  maxQueueDepth : Nat := 50
  runTimeoutS : ℚ := 30

/-! ## Rate limiters -/

/-- What `check` does. -/
inductive CheckResult
  | allowed
  /-- `RateLimited`. -/
  | limited (retryAfter : Int)
  /-- The script fails. -/
  | failed
  deriving DecidableEq, Repr

/-- The hash of a bucket, and when its key expires. -/
structure BucketKey where
  bucket : Bucket ℚ
  expires : Option ℚ

/-- `HMGET`: a key that has expired is not there any more. -/
def readBucket (now : ℚ) (key : Option BucketKey) : Option (Bucket ℚ) :=
  key.bind fun k => if k.expires.any (· ≤ now) then none else some k.bucket

/-- `_SCRIPT`: the key afterwards, and what `check` makes of the result. -/
def bucketScript (rate : BucketRate ℚ) (now cost : ℚ) (key : Option BucketKey) :
    BucketKey × CheckResult :=
  let bucket := (readBucket now key).getD ⟨rate.capacity, now⟩
  let after := bucket.take rate cost now
  if rate.refill = 0 then
    -- `EXPIRE` does not take `capacity / 0`: the script ends here, with the hash written
    (⟨after, none⟩, .failed)
  else
    (⟨after, some (now + (⌈rate.capacity / rate.refill⌉ + 1))⟩,
      if cost ≤ bucket.level rate now then .allowed
      else .limited (max 1 ⌈(cost - after.tokens) / rate.refill⌉))

/-- The keys of Redis. -/
abbrev BucketKeys := Text → Option BucketKey

/-- `f"rl:{scope}:{identity}"`. -/
def bucketName (scope identity : Text) : Text :=
  "rl:".toList ++ scope ++ ":".toList ++ identity

theorem bucketName_inj {scope a b : Text} (h : bucketName scope a = bucketName scope b) : a = b :=
  List.append_cancel_left h

/-- The scope in which `chat` asks. -/
def chatScope : Text := "chat"

/-- The limiter that the gateway asks. -/
inductive RateLimiter
  /-- `RedisRateLimiter`. -/
  | redis (rate : BucketRate ℚ)
  /-- `InMemoryRateLimiter`. -/
  | inMemory

/-- The limiter of `build_deps`. -/
def buildRateLimiter (s : GatewaySettings) : RateLimiter :=
  if s.redisUrl.isEmpty then .inMemory
  else .redis ⟨max s.rateLimitBurst 1, s.rateLimitPerMinute / 60⟩

/-- `check`. -/
def RateLimiter.check (scope identity : Text) (now : ℚ) (keys : BucketKeys) :
    RateLimiter → BucketKeys × CheckResult
  | .redis rate =>
      let name := bucketName scope identity
      let r := bucketScript rate now 1 (keys name)
      (Function.update keys name (some r.1), r.2)
  | .inMemory => (keys, .allowed)

/-! ## The two surfaces -/

/-- What becomes of a request. -/
inductive Admission
  /-- A job is enqueued. -/
  | enqueued
  /-- Status 429. -/
  | tooMany (retryAfter : Int)
  /-- Status 500. -/
  | failed
  deriving DecidableEq, Repr

/-- `chat` and `chat_stream`, up to `enqueue`. -/
def admitRequest (s : GatewaySettings) (keys : BucketKeys) (a : Arrival) : BucketKeys × Admission :=
  match a.surface with
  | .rest =>
      match (buildRateLimiter s).check chatScope a.request.userId a.now keys with
      | (keys, .limited retryAfter) => (keys, .tooMany retryAfter)
      | (keys, .failed) => (keys, .failed)
      | (keys, .allowed) =>
          if saturated a.depth s.maxQueueDepth then (keys, .tooMany 5) else (keys, .enqueued)
  | .webSocket => (keys, .enqueued)

/-- The requests of a sequence for which a job is enqueued. -/
def jobs (s : GatewaySettings) : BucketKeys → List Arrival → List Arrival
  | _, [] => []
  | keys, a :: as =>
      let r := admitRequest s keys a
      if r.2 = .enqueued then a :: jobs s r.1 as else jobs s r.1 as

theorem jobs_sublist (s : GatewaySettings) (keys : BucketKeys) (as : List Arrival) :
    (jobs s keys as).Sublist as := by
  induction as generalizing keys with
  | nil => exact List.Sublist.refl _
  | cons a as ih =>
    unfold jobs
    simp only
    split
    · exact (ih _).cons_cons a
    · exact (ih _).cons a

/-! ## The bucket of a user -/

/-- The key under which a user's bucket is kept. -/
def Arrival.key (a : Arrival) : Text := bucketName chatScope a.request.userId

/-- The key stands for a bucket that is kept for ever. -/
def Tracks (rate : BucketRate ℚ) (b : Bucket ℚ) : Option BucketKey → Prop
  | none => rate.capacity ≤ b.tokens
  | some k => k = ⟨b, some (b.ts + (⌈rate.capacity / rate.refill⌉ + 1))⟩

/-- What the script finds is as full as the bucket that is kept for ever: a key is dropped only
when the bucket has had the time to fill up. -/
theorem Tracks.level {rate : BucketRate ℚ} {b : Bucket ℚ} {key : Option BucketKey}
    (h : Tracks rate b key) (hrefill : 0 < rate.refill) (hb : 0 ≤ b.tokens) {now : ℚ}
    (hnow : b.ts ≤ now) :
    ((readBucket now key).getD ⟨rate.capacity, now⟩).level rate now = b.level rate now := by
  have hfull : (⟨rate.capacity, now⟩ : Bucket ℚ).level rate now = rate.capacity := by
    simp [Bucket.level]
  cases key with
  | none =>
    show (⟨rate.capacity, now⟩ : Bucket ℚ).level rate now = _
    rw [hfull, Bucket.level_of_full hrefill.le hnow h]
  | some k =>
    obtain rfl : k = _ := h
    unfold readBucket
    simp only [Option.bind_some, Option.any_some]
    split
    · rename_i hexpired
      have hlate := of_decide_eq_true hexpired
      have hceil : rate.capacity / rate.refill ≤ ⌈rate.capacity / rate.refill⌉ := Int.le_ceil _
      have hidle : rate.capacity ≤ (now - b.ts) * rate.refill :=
        (div_le_iff₀ hrefill).mp (by linarith)
      rw [Option.getD_none, hfull, Bucket.level_of_idle hb hidle]
    · rfl

theorem Tracks.script {rate : BucketRate ℚ} {b : Bucket ℚ} {key : Option BucketKey}
    (h : Tracks rate b key) (hrefill : 0 < rate.refill) (hb : 0 ≤ b.tokens) {now : ℚ}
    (hnow : b.ts ≤ now) :
    Tracks rate (b.take rate 1 now) (some (bucketScript rate now 1 key).1) ∧
      ((bucketScript rate now 1 key).2 = .allowed ↔ 1 ≤ b.level rate now) := by
  have hlevel := h.level hrefill hb hnow
  have htake : ((readBucket now key).getD ⟨rate.capacity, now⟩).take rate 1 now =
      b.take rate 1 now := by
    unfold Bucket.take
    rw [hlevel]
  unfold bucketScript
  simp only [hrefill.ne', if_false, hlevel, htake]
  constructor
  · rfl
  · by_cases hcost : 1 ≤ b.level rate now
    · simp [hcost]
    · simp [hcost]

/-! ## Any window -/

section
variable {s : GatewaySettings} {rate : BucketRate ℚ}

/-- The requests of a user over REST. -/
def Arrival.isRestOf (u : Text) (a : Arrival) : Bool :=
  a.request.userId = u ∧ a.surface = .rest

/-- What a request does to the bucket of a user. -/
theorem admit_key (hlimiter : buildRateLimiter s = .redis rate) (keys : BucketKeys) (a : Arrival)
    (u : Text) :
    (admitRequest s keys a).1 (bucketName chatScope u) =
      if a.isRestOf u then some (bucketScript rate a.now 1 (keys (bucketName chatScope u))).1
      else keys (bucketName chatScope u) := by
  unfold admitRequest Arrival.isRestOf
  cases hsurface : a.surface with
  | webSocket => simp
  | rest =>
    simp only [hlimiter, RateLimiter.check, and_true, decide_eq_true_eq]
    have hkeys : Function.update keys (bucketName chatScope a.request.userId)
          (some (bucketScript rate a.now 1 (keys (bucketName chatScope a.request.userId))).1)
          (bucketName chatScope u) =
        if a.request.userId = u then
          some (bucketScript rate a.now 1 (keys (bucketName chatScope u))).1
        else keys (bucketName chatScope u) := by
      by_cases hu : a.request.userId = u
      · subst hu
        simp
      · have hne : bucketName chatScope u ≠ bucketName chatScope a.request.userId :=
          fun h => hu (bucketName_inj h).symm
        simp [hu, Function.update_of_ne hne]
    cases hcheck : (bucketScript rate a.now 1 (keys (bucketName chatScope a.request.userId))).2 with
    | allowed =>
      simp only
      split <;> exact hkeys
    | limited retryAfter => exact hkeys
    | failed => exact hkeys

/-- A job over REST has passed the limiter. -/
theorem allowed_of_rest (hlimiter : buildRateLimiter s = .redis rate) {keys : BucketKeys}
    {a : Arrival} (hrest : a.surface = .rest) (h : (admitRequest s keys a).2 = .enqueued) :
    (bucketScript rate a.now 1 (keys a.key)).2 = .allowed := by
  unfold admitRequest at h
  simp only [hrest, hlimiter, RateLimiter.check] at h
  unfold Arrival.key
  cases hcheck : (bucketScript rate a.now 1 (keys (bucketName chatScope a.request.userId))).2 with
  | allowed => rfl
  | limited retryAfter =>
    rw [hcheck] at h
    cases h
  | failed =>
    rw [hcheck] at h
    cases h

/-- The times at which a user's requests over REST get a job are times at which a bucket of the
user admits them. -/
theorem rest_jobs_sublist (hlimiter : buildRateLimiter s = .redis rate) (hrefill : 0 < rate.refill)
    (hcapacity : 0 ≤ rate.capacity) (u : Text) (as : List Arrival) :
    ∀ (keys : BucketKeys) (b : Bucket ℚ), Tracks rate b (keys (bucketName chatScope u)) →
      0 ≤ b.tokens → (b.ts :: as.map Arrival.now).Pairwise (· ≤ ·) →
      (((jobs s keys as).filter (Arrival.isRestOf u)).map Arrival.now).Sublist
        (b.admissions rate 1 ((as.filter (Arrival.isRestOf u)).map Arrival.now)) := by
  induction as with
  | nil => exact fun _ _ _ _ _ => List.Sublist.refl _
  | cons a as ih =>
    intro keys b htracks hb hsorted
    have hnow : b.ts ≤ a.now := List.rel_of_pairwise_cons hsorted List.mem_cons_self
    have hkey := admit_key hlimiter keys a u
    by_cases hu : a.isRestOf u = true
    · have hscript := htracks.script hrefill hb hnow
      have htail := ih (admitRequest s keys a).1 (b.take rate 1 a.now)
        (by rw [hkey, if_pos hu]; exact hscript.1)
        (Bucket.take_nonneg hcapacity hrefill.le hb hnow) hsorted.of_cons
      rw [List.filter_cons_of_pos hu, List.map_cons]
      unfold jobs Bucket.admissions
      by_cases hjob : (admitRequest s keys a).2 = .enqueued
      · have hof : a.request.userId = u ∧ a.surface = .rest := of_decide_eq_true hu
        have hallowed := allowed_of_rest hlimiter hof.2 hjob
        rw [Arrival.key, hof.1] at hallowed
        simp only [hjob, if_true, hscript.2.mp hallowed, List.filter_cons_of_pos hu,
          List.map_cons]
        exact htail.cons_cons a.now
      · simp only [hjob, if_false]
        split
        · exact htail.cons a.now
        · exact htail
    · have hsame : (b.ts :: as.map Arrival.now).Pairwise (· ≤ ·) :=
        hsorted.sublist ((List.sublist_cons_self _ _).cons_cons _)
      have htail := ih (admitRequest s keys a).1 b (by rw [hkey, if_neg hu]; exact htracks) hb hsame
      rw [List.filter_cons_of_neg hu]
      unfold jobs
      simp only
      split
      · rwa [List.filter_cons_of_neg hu]
      · exact htail

theorem no_rest_jobs (hlimiter : buildRateLimiter s = .redis rate) (hrefill : rate.refill = 0)
    {keys : BucketKeys} {a : Arrival} (hrest : a.surface = .rest) :
    (admitRequest s keys a).2 ≠ .enqueued := by
  intro h
  have hallowed := allowed_of_rest hlimiter hrest h
  unfold bucketScript at hallowed
  simp [hrefill] at hallowed

end

theorem exists_admit_of_mem_jobs {s : GatewaySettings} {as : List Arrival} {a : Arrival} :
    ∀ {keys : BucketKeys}, a ∈ jobs s keys as →
      a ∈ as ∧ ∃ keys, (admitRequest s keys a).2 = .enqueued := by
  induction as with
  | nil => exact fun h => nomatch h
  | cons b as ih =>
    intro keys h
    unfold jobs at h
    simp only at h
    split at h
    · rename_i hjob
      rcases List.mem_cons.mp h with rfl | hmem
      · exact ⟨List.mem_cons_self, keys, hjob⟩
      · exact ⟨List.mem_cons_of_mem _ (ih hmem).1, (ih hmem).2⟩
    · exact ⟨List.mem_cons_of_mem _ (ih h).1, (ih h).2⟩

/-- Every request over the WebSocket gets a job. -/
theorem mem_jobs_of_webSocket {s : GatewaySettings} {as : List Arrival} {a : Arrival}
    (hmem : a ∈ as) (hsocket : a.surface = .webSocket) :
    ∀ keys : BucketKeys, a ∈ jobs s keys as := by
  induction as with
  | nil => cases hmem
  | cons b as ih =>
    intro keys
    unfold jobs
    simp only
    rcases List.mem_cons.mp hmem with rfl | hmem
    · rw [if_pos (by unfold admitRequest; simp [hsocket])]
      exact List.mem_cons_self
    · split
      · exact List.mem_cons_of_mem _ (ih hmem _)
      · exact ih hmem _

/-- A request over REST that finds the queue too deep gets no job. -/
theorem depth_le_of_rest {s : GatewaySettings} {keys : BucketKeys} {a : Arrival}
    (hrest : a.surface = .rest) (h : (admitRequest s keys a).2 = .enqueued) :
    a.depth ≤ s.maxQueueDepth := by
  unfold admitRequest at h
  rw [hrest] at h
  simp only at h
  split at h
  · cases h
  · cases h
  · by_cases hdepth : saturated a.depth s.maxQueueDepth = true
    · simp [hdepth] at h
    · simpa [saturated] using hdepth

/-- No key has been written yet. -/
def noKeys : BucketKeys := fun _ => none

/-- The request comes within `T` from `lo` on. -/
def Arrival.within (lo T : ℚ) (a : Arrival) : Bool := lo ≤ a.now ∧ a.now ≤ lo + T

/-- The jobs over REST keep within what a bucket of the user lets through. -/
theorem rest_jobs_le {s : GatewaySettings} {rate : BucketRate ℚ}
    (hlimiter : buildRateLimiter s = .redis rate) (hrefill : 0 ≤ rate.refill)
    (hcapacity : 0 ≤ rate.capacity) {as : List Arrival}
    (hsorted : (as.map Arrival.now).Pairwise (· ≤ ·)) (u : Text) (lo : ℚ) {T : ℚ}
    (hT : 0 ≤ T) :
    (((jobs s noKeys as).filter fun a => a.isRestOf u && a.within lo T).length : ℚ) ≤
      rate.capacity + T * rate.refill := by
  have hflow : 0 ≤ T * rate.refill := mul_nonneg hT hrefill
  rcases hrefill.eq_or_lt with hzero | hpos
  · have hnone : (jobs s noKeys as).filter (fun a => a.isRestOf u && a.within lo T) = [] := by
      refine List.filter_eq_nil_iff.mpr fun a hmem hrest => ?_
      obtain ⟨-, keys, hjob⟩ := exists_admit_of_mem_jobs hmem
      have hof : a.request.userId = u ∧ a.surface = .rest :=
        of_decide_eq_true (Bool.and_eq_true_iff.mp hrest).1
      exact no_rest_jobs hlimiter hzero.symm hof.2 hjob
    rw [hnone, List.length_nil, Nat.cast_zero]
    linarith
  · -- A full bucket stands for the key that has not been written yet.
    let b : Bucket ℚ := ⟨rate.capacity, (as.map Arrival.now).headD 0⟩
    have hfrom : (b.ts :: as.map Arrival.now).Pairwise (· ≤ ·) := by
      cases as with
      | nil => exact List.pairwise_singleton _ _
      | cons a as =>
        refine List.pairwise_cons.mpr ⟨fun t ht => ?_, hsorted⟩
        rcases List.mem_cons.mp ht with rfl | ht
        · exact le_refl _
        · exact List.rel_of_pairwise_cons hsorted ht
    have htimes : (b.ts :: (as.filter (Arrival.isRestOf u)).map Arrival.now).Pairwise (· ≤ ·) :=
      hfrom.sublist ((List.filter_sublist.map _).cons_cons _)
    have hsub := rest_jobs_sublist hlimiter hpos hcapacity u as noKeys b (le_refl rate.capacity)
      hcapacity hfrom
    have hwindow := Bucket.taken_in_window_le 1 lo hcapacity hpos.le hT _ b
      hcapacity htimes
    have hlen := (hsub.filter fun t => decide (lo ≤ t ∧ t ≤ lo + T)).length_le
    rw [List.filter_map, List.length_map, List.filter_filter] at hlen
    have hcast : (((jobs s noKeys as).filter fun a => a.isRestOf u && a.within lo T).length : ℚ) ≤
        ((b.admissions rate 1 ((as.filter (Arrival.isRestOf u)).map Arrival.now)).filter
          fun t => decide (lo ≤ t ∧ t ≤ lo + T)).length := by
      refine Nat.cast_le.mpr (le_trans (le_of_eq ?_) hlen)
      refine congrArg List.length (List.filter_congr fun a _ => ?_)
      exact Bool.and_comm _ _
    linarith

/-- The jobs of a user within `T` from `lo` on. -/
def jobsOf (s : GatewaySettings) (as : List Arrival) (u : Text) (lo T : ℚ) : List Arrival :=
  (jobs s noKeys as).filter fun a => a.request.userId = u ∧ a.within lo T

/-- **Where no request of the user in a window comes over the WebSocket, the user's jobs in it keep
the rate; jobs keep to the depth of the queue exactly if the requests over the WebSocket do.** -/
theorem jobs_bounded (s : GatewaySettings) (hredis : s.redisUrl ≠ [])
    (hburst : 1 ≤ s.rateLimitBurst) (hrate : 0 ≤ s.rateLimitPerMinute) (as : List Arrival)
    (hsorted : (as.map Arrival.now).Pairwise (· ≤ ·)) :
    (∀ (u : Text) (lo T : ℚ), 0 ≤ T →
      (∀ a ∈ as, a.request.userId = u → a.within lo T → a.surface ≠ .webSocket) →
      ((jobsOf s as u lo T).length : ℚ) ≤ s.rateLimitBurst + s.rateLimitPerMinute / 60 * T) ∧
    ((∀ a ∈ jobs s noKeys as, a.depth ≤ s.maxQueueDepth) ↔
      ∀ a ∈ as, a.surface = .webSocket → a.depth ≤ s.maxQueueDepth) := by
  constructor
  · intro u lo T hT hrest
    have hlimiter : buildRateLimiter s =
        .redis ⟨s.rateLimitBurst, s.rateLimitPerMinute / 60⟩ := by
      unfold buildRateLimiter
      rw [List.isEmpty_eq_false_iff.mpr hredis, max_eq_left (by exact_mod_cast hburst)]
      rfl
    have hrefill : (0 : ℚ) ≤ s.rateLimitPerMinute / 60 :=
      div_nonneg (Int.cast_nonneg hrate) (by norm_num)
    have hcapacity : (0 : ℚ) ≤ s.rateLimitBurst := Int.cast_nonneg (by omega)
    have hsame : jobsOf s as u lo T =
        (jobs s noKeys as).filter fun a => a.isRestOf u && a.within lo T := by
      refine List.filter_congr fun a hmem => ?_
      have hnot := hrest a ((jobs_sublist s noKeys as).subset hmem)
      by_cases hu : a.request.userId = u
      · by_cases hwithin : a.within lo T = true
        · have hsurface : a.surface = .rest := by
            cases hsurface : a.surface with
            | rest => rfl
            | webSocket => exact absurd hsurface (hnot hu hwithin)
          simp [Arrival.isRestOf, hu, hwithin, hsurface]
        · simp [hwithin]
      · simp [Arrival.isRestOf, hu]
    have hle := rest_jobs_le hlimiter hrefill hcapacity hsorted u lo hT
    rw [hsame]
    linarith
  · constructor
    · intro hjobs a hmem hsocket
      exact hjobs a (mem_jobs_of_webSocket hmem hsocket noKeys)
    · intro hsocket a hmem
      obtain ⟨hin, keys, hjob⟩ := exists_admit_of_mem_jobs hmem
      cases hsurface : a.surface with
      | rest => exact depth_le_of_rest hsurface hjob
      | webSocket => exact hsocket a hin hsurface

/-- A request with no conversation id. -/
def greeting (userId : Text) (h : isUserId userId = true) : ChatRequest :=
  { userId, message := "Hello"
    userId_ok := h
    message_ok := by decide
    message_trimmed := rfl
    conversationId_ok := by simp
    sttConfidence_ok := by simp }

theorem isUserId_alice : isUserId "alice" = true := by decide

theorem isUserId_bob : isUserId "bob" = true := by decide

/-- Alice asks over REST and over the WebSocket. -/
def askedOver (surface : Surface) (now : ℚ) (depth : Nat) : Arrival :=
  ⟨surface, greeting "alice" isUserId_alice, now, depth⟩

/-- Alice asks twice over REST within a second, and over the WebSocket an hour later. -/
theorem two_turns_keep_rate :
    ((jobsOf {} [askedOver .rest 0 0, askedOver .rest 1 7, askedOver .webSocket 3600 0]
      "alice" 0 1).length : ℚ) ≤ 10 + 30 / 60 * 1 := by
  refine (jobs_bounded {} (by decide) (by decide) (by decide)
    [askedOver .rest 0 0, askedOver .rest 1 7, askedOver .webSocket 3600 0] ?_).1
      "alice" 0 1 (by norm_num) ?_
  · simp [askedOver]
  · simp [askedOver, Arrival.within]

/-- Eleven requests at once over the WebSocket, in front of a queue that is too deep, get a job
each: one more than the burst, and none of them below the limit. -/
theorem webSocket_not_limited :
    let as := List.replicate 11 (askedOver .webSocket 0 51)
    (as.map Arrival.now).Pairwise (· ≤ ·) ∧
      ¬ ((jobsOf {} as "alice" 0 0).length : ℚ) ≤ 10 + 30 / 60 * 0 ∧
      ¬ ∀ a ∈ jobs {} noKeys as, a.depth ≤ 50 := by
  refine ⟨by decide +kernel, ?_, ?_⟩
  · have hlen : (jobsOf {} (List.replicate 11 (askedOver .webSocket 0 51)) "alice" 0 0).length =
        11 := by
      decide +kernel
    rw [hlen]
    norm_num
  · exact fun h => absurd (h (askedOver .webSocket 0 51)
      (mem_jobs_of_webSocket (by simp) rfl noKeys)) (by decide)

end OmniCare
