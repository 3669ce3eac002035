import Mathlib.Data.List.Nodup
import Mathlib.Data.List.Range

/-! # A stream with one consumer group

The part of Redis Streams that a work queue needs, over any type of jobs and consumers.  Entries
are numbered in the order in which they are added.  The group delivers each entry once
(`read`), keeps what it has delivered in its list of pending entries until that is
acknowledged (`ack`), and may hand a pending entry that nobody has touched for a while to
another consumer (`autoclaim`).

An entry that has been delivered and is not pending any more never becomes pending again
(`Gone.extends`).
-/
namespace OmniCare

/-- An entry that has been delivered and not acknowledged. -/
structure Pending (C : Type) where
  entry : Nat
  owner : C
  /-- When it was last delivered. -/
  since : Nat
  deriving DecidableEq, Repr

/-- A stream and its consumer group. -/
structure Stream (C J : Type) where
  entries : List J := []
  /-- The entries before this one have been delivered. -/
  delivered : Nat := 0
  /-- The pending entries, in the order of the stream. -/
  pending : List (Pending C) := []
  delivered_le : delivered ≤ entries.length := by simp
  pending_lt : ∀ p ∈ pending, p.entry < delivered := by simp
  pending_nodup : (pending.map Pending.entry).Nodup := by simp

namespace Stream

variable {C J : Type} (s : Stream C J)

/-- `XADD`. -/
def add (job : J) : Stream C J :=
  { s with
    entries := s.entries ++ [job]
    delivered_le := by
      rw [List.length_append]
      exact Nat.le_add_right_of_le s.delivered_le }

/-- The entries that have not been delivered, with their numbers. -/
def undelivered : List (Nat × J) :=
  (s.entries.drop s.delivered).zipIdx s.delivered |>.map Prod.swap

theorem mem_undelivered {n : Nat} {job : J} (h : (n, job) ∈ s.undelivered) :
    s.delivered ≤ n ∧ n < s.entries.length := by
  obtain ⟨⟨j, k⟩, hmem, heq⟩ := List.mem_map.mp h
  obtain ⟨rfl, rfl⟩ := Prod.mk.inj heq
  have hlt := List.snd_lt_add_of_mem_zipIdx hmem
  have hle := List.le_snd_of_mem_zipIdx hmem
  rw [List.length_drop] at hlt
  have := s.delivered_le
  omega

theorem undelivered_numbers :
    s.undelivered.map Prod.fst = List.range' s.delivered (s.entries.length - s.delivered) := by
  rw [undelivered, List.map_map]
  show ((s.entries.drop s.delivered).zipIdx s.delivered).map Prod.snd = _
  rw [List.zipIdx_map_snd, List.length_drop]

theorem length_undelivered : s.undelivered.length = s.entries.length - s.delivered := by
  rw [undelivered, List.length_map, List.length_zipIdx, List.length_drop]

/-- What `read` delivers. -/
def unread (count : Nat) : List (Nat × J) := s.undelivered.take count

theorem unread_numbers (count : Nat) :
    (s.unread count).map Prod.fst = List.range' s.delivered (s.unread count).length := by
  rw [unread, List.map_take, undelivered_numbers, List.length_take, length_undelivered]
  rcases Nat.le_total count (s.entries.length - s.delivered) with hle | hle
  · rw [List.take_range'_of_length_ge hle, Nat.min_eq_left hle]
  · rw [List.take_range'_of_length_le hle, Nat.min_eq_right hle]

/-- `XREADGROUP` with `>`. -/
def read (owner : C) (count now : Nat) : Stream C J where
  entries := s.entries
  delivered := s.delivered + (s.unread count).length
  pending := s.pending ++ (s.unread count).map fun e => ⟨e.1, owner, now⟩
  delivered_le := by
    have hlength : (s.unread count).length ≤ s.undelivered.length := List.length_take_le' ..
    have hall := s.length_undelivered
    have := s.delivered_le
    omega
  pending_lt := by
    intro p hp
    rcases List.mem_append.mp hp with hp | hp
    · exact Nat.lt_add_right _ (s.pending_lt p hp)
    · obtain ⟨e, he, rfl⟩ := List.mem_map.mp hp
      have hmem : e.1 ∈ (s.unread count).map Prod.fst := List.mem_map_of_mem he
      rw [unread_numbers, List.mem_range'_1] at hmem
      exact hmem.2
  pending_nodup := by
    have hnew : ((s.unread count).map fun e => (⟨e.1, owner, now⟩ : Pending C)).map
        Pending.entry = List.range' s.delivered (s.unread count).length := by
      rw [List.map_map, ← unread_numbers]
      rfl
    rw [List.map_append, hnew]
    refine s.pending_nodup.append (List.nodup_range' ..) ?_
    intro n hold hfresh
    obtain ⟨p, hp, rfl⟩ := List.mem_map.mp hold
    have hlt := s.pending_lt p hp
    have hle := (List.mem_range'_1.mp hfresh).1
    omega

/-- The pending entries that nobody has touched for some time. -/
def stale (minIdle now : Nat) : List (Pending C) :=
  s.pending.filter fun p => minIdle ≤ now - p.since

/-- The entries that `autoclaim` reassigns. -/
def claimable (minIdle count now : Nat) : List Nat :=
  ((s.stale minIdle now).take count).map Pending.entry

/-- `XAUTOCLAIM`. -/
def autoclaim (owner : C) (minIdle count now : Nat) : Stream C J :=
  let taken := s.claimable minIdle count now
  let move (p : Pending C) : Pending C :=
    if p.entry ∈ taken then { p with owner, since := now } else p
  have same : ∀ p, (move p).entry = p.entry := by
    intro p
    unfold move
    split <;> rfl
  { s with
    pending := s.pending.map move
    pending_lt := by
      intro p hp
      obtain ⟨q, hq, rfl⟩ := List.mem_map.mp hp
      rw [same]
      exact s.pending_lt q hq
    pending_nodup := by
      rw [List.map_map, show Pending.entry ∘ move = Pending.entry from funext same]
      exact s.pending_nodup }

/-- `XACK`. -/
def ack (entry : Nat) : Stream C J :=
  { s with
    pending := s.pending.filter (·.entry ≠ entry)
    pending_lt := fun p hp => s.pending_lt p (List.mem_of_mem_filter hp)
    pending_nodup := s.pending_nodup.sublist (List.filter_sublist.map _) }

/-- The count that `XPENDING` gives. -/
def pendingCount : Nat := s.pending.length

/-! ## Entries that are done with -/

/-- The entry has been delivered and is not pending. -/
def Gone (n : Nat) : Prop := n < s.delivered ∧ ∀ p ∈ s.pending, p.entry ≠ n

/-- Nothing is taken back: every pending entry of the later stream was pending, or had not been
delivered. -/
structure Extends (s' : Stream C J) : Prop where
  delivered : s.delivered ≤ s'.delivered
  pending : ∀ p' ∈ s'.pending, (∃ p ∈ s.pending, p.entry = p'.entry) ∨ s.delivered ≤ p'.entry

variable {s} {s' : Stream C J}

/-- **What is done with stays so.** -/
theorem Gone.extends {n : Nat} (h : s.Gone n) (hs : s.Extends s') : s'.Gone n := by
  refine ⟨Nat.lt_of_lt_of_le h.1 hs.delivered, ?_⟩
  rintro p' hp' rfl
  rcases hs.pending p' hp' with ⟨p, hp, hsame⟩ | hle
  · exact h.2 p hp hsame
  · exact Nat.not_lt_of_le hle h.1

theorem Extends.refl (s : Stream C J) : s.Extends s :=
  ⟨Nat.le_refl _, fun p hp => .inl ⟨p, hp, rfl⟩⟩

theorem extends_add (job : J) : s.Extends (s.add job) :=
  ⟨Nat.le_refl _, fun p hp => .inl ⟨p, hp, rfl⟩⟩

theorem extends_read (owner : C) (count now : Nat) : s.Extends (s.read owner count now) := by
  refine ⟨Nat.le_add_right .., fun p hp => ?_⟩
  rcases List.mem_append.mp hp with hp | hp
  · exact .inl ⟨p, hp, rfl⟩
  · obtain ⟨e, he, rfl⟩ := List.mem_map.mp hp
    exact .inr (s.mem_undelivered (List.mem_of_mem_take he)).1

theorem extends_autoclaim (owner : C) (minIdle count now : Nat) :
    s.Extends (s.autoclaim owner minIdle count now) := by
  refine ⟨Nat.le_refl _, fun p hp => ?_⟩
  obtain ⟨q, hq, rfl⟩ := List.mem_map.mp hp
  refine .inl ⟨q, hq, ?_⟩
  split <;> rfl

theorem extends_ack (entry : Nat) : s.Extends (s.ack entry) :=
  ⟨Nat.le_refl _, fun p hp => .inl ⟨p, List.mem_of_mem_filter hp, rfl⟩⟩

theorem gone_ack {n : Nat} (h : n < s.delivered) : (s.ack n).Gone n :=
  ⟨h, fun p hp => by simpa using (List.mem_filter.mp hp).2⟩

/-- What `read` has delivered is delivered. -/
theorem lt_delivered_read (owner : C) (count now : Nat) {e : Nat × J}
    (h : e ∈ s.unread count) : e.1 < (s.read owner count now).delivered := by
  have hmem : e.1 ∈ (s.unread count).map Prod.fst := List.mem_map_of_mem h
  rw [unread_numbers, List.mem_range'_1] at hmem
  exact hmem.2

/-- `autoclaim` takes nothing where nothing is stale. -/
theorem claimable_eq_nil {minIdle now : Nat} (h : (s.stale minIdle now).isEmpty = true)
    (count : Nat) : s.claimable minIdle count now = [] := by
  rw [claimable, List.isEmpty_iff.mp h, List.take_nil]
  rfl

end Stream

end OmniCare
