import OmniCare.Runs
import OmniCare.Streams
import Mathlib.Algebra.Order.Ring.Nat
import Mathlib.Data.List.Perm.Subperm

/-! # Queue depth

`RedisQueue` and `InMemoryQueue` of `libs/adapters` through one history of operations, and the
admission test of the gateway on their `depth`.

A job completes by the terminal event of its run, which the worker publishes, and then by the
`ack` of its entry.  `InMemoryQueue.depth` counts the jobs whose terminal event is still to
come.  `RedisQueue.depth` is the count that `XPENDING` gives, and an entry is pending only once
it has been delivered: **it counts the jobs that are not completed exactly if none of them is
waiting to be delivered** (`depth_iff`).
-/
namespace OmniCare

variable {C J : Type}

/-- `InMemoryQueue`: its jobs and `_pending`. -/
structure InMemoryQueue (J : Type) where
  jobs : List J := []
  pending : Nat := 0

namespace InMemoryQueue

/-- `enqueue`. -/
def enqueue (q : InMemoryQueue J) (job : J) : InMemoryQueue J :=
  ⟨q.jobs ++ [job], q.pending + 1⟩

/-- `publish`, for a terminal event. -/
def publishTerminal (q : InMemoryQueue J) : InMemoryQueue J := { q with pending := q.pending - 1 }

/-- `depth`. -/
def depth (q : InMemoryQueue J) : Nat := q.pending

end InMemoryQueue

/-- `RedisQueue.depth`. -/
def Stream.depth (s : Stream C J) : Nat := s.pendingCount

/-- The gateway turns a request away. -/
def saturated (depth maxQueueDepth : Nat) : Bool := maxQueueDepth < depth

/-- The two queues side by side. -/
structure Queues (C J : Type) where
  redis : Stream C J := {}
  memory : InMemoryQueue J := {}
  /-- The entries whose terminal event has been published, and which are not acked yet. -/
  finishing : List Nat := []
  /-- `jobs:chat:dead`. -/
  dead : List Nat := []

/-- One operation of a history. -/
inductive QueueAction (C J : Type)
  | enqueue (job : J)
  | consume (w : C) (count now : Nat)
  /-- The terminal event of the job's run is published. -/
  | finish (entry : Nat)
  | ack (entry : Nat)
  | deadLetter (entry : Nat)

/-- What counts. -/
inductive QueueEvent
  | enqueued
  | completed
  deriving DecidableEq, Repr

namespace Queues

variable (q : Queues C J)

/-- The entry is acked. -/
def complete (entry : Nat) : Queues C J :=
  { q with redis := q.redis.ack entry, finishing := q.finishing.erase entry }

/-- The operations, where each job completes by one terminal event and one ack. -/
def step (q : Queues C J) : QueueAction C J → Option (Queues C J × List QueueEvent)
  | .enqueue job =>
      some ({ q with redis := q.redis.add job, memory := q.memory.enqueue job }, [.enqueued])
  | .consume w count now => some ({ q with redis := q.redis.read w count now }, [])
  | .finish entry =>
      if entry ∈ q.redis.pending.map Pending.entry ∧ entry ∉ q.finishing then
        some ({ q with
          memory := q.memory.publishTerminal, finishing := entry :: q.finishing }, [])
      else none
  | .ack entry => if entry ∈ q.finishing then some (q.complete entry, [.completed]) else none
  | .deadLetter entry =>
      if entry ∈ q.finishing then
        some ({ q.complete entry with dead := q.dead ++ [entry] }, [.completed])
      else none

end Queues

/-- The jobs enqueued and not yet completed. -/
def outstanding (es : List QueueEvent) : Nat := es.count .enqueued - es.count .completed

/-- Both depths are the number of jobs enqueued and not yet completed, and the gateway admits the
same requests with either queue. -/
structure DepthsAgree (q : Queues C J) (es : List QueueEvent) : Prop where
  redis : q.redis.depth = outstanding es
  memory : q.memory.depth = outstanding es
  admission : ∀ maxQueueDepth,
    saturated q.redis.depth maxQueueDepth = saturated q.memory.depth maxQueueDepth

/-- How the two queues count through a history. -/
structure Counted (q : Queues C J) (es : List QueueEvent) : Prop where
  enqueued : q.redis.entries.length = es.count .enqueued
  delivered : q.redis.pendingCount + es.count .completed = q.redis.delivered
  memory : q.memory.pending + es.count .completed + q.finishing.length = es.count .enqueued
  finishing : q.finishing ⊆ q.redis.pending.map Pending.entry
  nodup : q.finishing.Nodup

theorem length_read (s : Stream C J) (w : C) (count now : Nat) :
    (s.read w count now).pendingCount + s.delivered =
      s.pendingCount + (s.read w count now).delivered := by
  show (s.pending ++ _).length + _ = _ + (_ + _)
  rw [List.length_append, List.length_map, Stream.pendingCount]
  omega

theorem length_ack {s : Stream C J} {n : Nat} (h : n ∈ s.pending.map Pending.entry) :
    (s.ack n).pendingCount + 1 = s.pendingCount := by
  have hfilter : (s.ack n).pending.map Pending.entry = (s.pending.map Pending.entry).erase n := by
    rw [s.pending_nodup.erase_eq_filter, List.filter_map]
    refine congrArg _ (List.filter_congr fun p _ => ?_)
    exact decide_not
  have hlength := List.length_erase_of_mem h
  rw [← hfilter, List.length_map, List.length_map] at hlength
  have hpos := List.length_pos_of_mem h
  rw [List.length_map] at hpos
  rw [Stream.pendingCount, Stream.pendingCount]
  omega

variable {q q' : Queues C J} {es fs : List QueueEvent}

theorem counted_complete (h : Counted q es) {n : Nat} (hn : n ∈ q.finishing) :
    Counted (q.complete n) (es ++ [.completed]) := by
  have hack := length_ack (h.finishing hn)
  have herase := List.length_erase_of_mem hn
  have hpos := List.length_pos_of_mem hn
  have hdelivered := h.delivered
  have hmemory := h.memory
  have hcompleted : (es ++ [QueueEvent.completed]).count .completed = es.count .completed + 1 := by
    simp
  have henqueued : (es ++ [QueueEvent.completed]).count .enqueued = es.count .enqueued := by
    simp
  constructor
  · rw [henqueued]
    exact h.enqueued
  · rw [hcompleted]
    show (q.redis.ack n).pendingCount + _ = q.redis.delivered
    omega
  · rw [hcompleted, henqueued]
    show q.memory.pending + _ + (q.finishing.erase n).length = _
    omega
  · intro m hm
    obtain ⟨hne, hm⟩ := (h.nodup.mem_erase_iff).mp hm
    obtain ⟨p, hp, rfl⟩ := List.mem_map.mp (h.finishing hm)
    exact List.mem_map_of_mem (List.mem_filter.mpr ⟨hp, decide_eq_true hne⟩)
  · exact h.nodup.erase n

theorem counted_step {a : QueueAction C J} (h : Counted q es) (hstep : q.step a = some (q', fs)) :
    Counted q' (es ++ fs) := by
  cases a with
  | enqueue job =>
    cases hstep
    have henqueued := h.enqueued
    have hmemory := h.memory
    constructor
    · show (q.redis.entries ++ [job]).length = _
      simp [henqueued]
    · show q.redis.pendingCount + _ = q.redis.delivered
      simpa using h.delivered
    · show q.memory.pending + 1 + _ + _ = _
      simp
      omega
    · exact h.finishing
    · exact h.nodup
  | consume w count now =>
    cases hstep
    rw [List.append_nil]
    have hread := length_read q.redis w count now
    have hdelivered := h.delivered
    refine ⟨h.enqueued, ?_, h.memory, fun n hn => ?_, h.nodup⟩
    · show (q.redis.read w count now).pendingCount + _ = (q.redis.read w count now).delivered
      omega
    · show n ∈ (q.redis.pending ++ _).map Pending.entry
      rw [List.map_append]
      exact List.mem_append_left _ (h.finishing hn)
  | finish entry =>
    rw [Queues.step] at hstep
    split at hstep
    · rename_i hpending
      cases hstep
      rw [List.append_nil]
      have hnodup : (entry :: q.finishing).Nodup := List.nodup_cons.mpr ⟨hpending.2, h.nodup⟩
      have hsub : entry :: q.finishing ⊆ q.redis.pending.map Pending.entry :=
        List.cons_subset.mpr ⟨hpending.1, h.finishing⟩
      -- something is left to count down from: more entries are pending than are finishing
      have hroom : q.finishing.length + 1 ≤ q.redis.pendingCount := by
        have := (List.subperm_of_subset hnodup hsub).length_le
        simpa [Stream.pendingCount] using this
      have hdelivered := h.delivered
      have hmemory := h.memory
      have henqueued := h.enqueued
      have hle := q.redis.delivered_le
      refine ⟨h.enqueued, h.delivered, ?_, hsub, hnodup⟩
      show q.memory.pending - 1 + _ + (entry :: q.finishing).length = _
      rw [List.length_cons]
      omega
    · cases hstep
  | ack entry =>
    rw [Queues.step] at hstep
    split at hstep
    · rename_i hfinishing
      cases hstep
      exact counted_complete h hfinishing
    · cases hstep
  | deadLetter entry =>
    rw [Queues.step] at hstep
    split at hstep
    · rename_i hfinishing
      cases hstep
      exact { counted_complete h hfinishing with }
    · cases hstep

/-- **After any history, both depths are the number of jobs enqueued and not yet completed
exactly if no job is waiting to be delivered, and none is between its terminal event and its
ack.** -/
theorem depth_iff {as : List (QueueAction C J)} (h : Run (Computes Queues.step) {} as q es) :
    DepthsAgree q es ↔ q.redis.undelivered = [] ∧ q.finishing = [] := by
  have hcounted : Counted q es :=
    h.invariant (I := Counted) ⟨rfl, rfl, rfl, List.nil_subset _, List.nodup_nil⟩ counted_step
  have hwaiting := q.redis.length_undelivered
  have hle := q.redis.delivered_le
  have henqueued := hcounted.enqueued
  have hdelivered := hcounted.delivered
  have hmemory := hcounted.memory
  constructor
  · intro hagree
    have hredis := hagree.redis
    have hmem := hagree.memory
    rw [Stream.depth, outstanding] at hredis
    rw [InMemoryQueue.depth, outstanding] at hmem
    constructor
    · rw [← List.length_eq_zero_iff]
      omega
    · rw [← List.length_eq_zero_iff]
      omega
  · rintro ⟨hnone, hfinishing⟩
    rw [hnone, List.length_nil] at hwaiting
    rw [hfinishing, List.length_nil] at hmemory
    have hredis : q.redis.depth = outstanding es := by
      rw [Stream.depth, outstanding]
      omega
    have hmem : q.memory.depth = outstanding es := by
      rw [InMemoryQueue.depth, outstanding]
      omega
    exact ⟨hredis, hmem, fun max => by rw [hredis, hmem]⟩

/-- Two jobs, one of them completed and the other one delivered. -/
theorem delivered_jobs_counted :
    ∃ (q : Queues Unit Unit) (es : List QueueEvent),
      Run (Computes Queues.step) {}
        [.enqueue (), .enqueue (), .consume () 2 0, .finish 0, .ack 0] q es ∧
      DepthsAgree q es := by
  obtain ⟨q, es, h, hp⟩ := exists_run_of_play Queues.step ({} : Queues Unit Unit)
    [.enqueue (), .enqueue (), .consume () 2 0, .finish 0, .ack 0]
    (fun q _ => q.redis.undelivered = [] ∧ q.finishing = []) (by decide +kernel)
  exact ⟨q, es, h, (depth_iff h).mpr (of_decide_eq_true hp)⟩

/-- Fifty-one jobs that no worker has taken yet: with Redis the depth is zero and the next request
is admitted, in memory it is turned away. -/
theorem waiting_jobs_not_counted :
    ∃ (q : Queues Unit Unit) (es : List QueueEvent),
      Run (Computes Queues.step) {} (List.replicate 51 (.enqueue ())) q es ∧
      saturated q.redis.depth 50 = false ∧ saturated q.memory.depth 50 = true ∧
      ¬ DepthsAgree q es := by
  obtain ⟨q, es, h, hp⟩ := exists_run_of_play Queues.step ({} : Queues Unit Unit)
    (List.replicate 51 (.enqueue ()))
    (fun q _ => saturated q.redis.depth 50 = false ∧ saturated q.memory.depth 50 = true)
    (by decide +kernel)
  obtain ⟨hredis, hmemory⟩ := of_decide_eq_true hp
  refine ⟨q, es, h, hredis, hmemory, fun hagree => ?_⟩
  have hsame := hagree.admission 50
  rw [hredis, hmemory] at hsame
  cases hsame

end OmniCare
