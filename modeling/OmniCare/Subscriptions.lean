import OmniCare.Gateway
import OmniCare.Tailing

/-! # Subscribing to the events of a run

`subscribe` of `libs/adapters/queue_redis.py` and of `libs/adapters/queue_memory.py`, as loops that
take a step between one await or yield and the next, while others publish and the clock goes on.
Over any such interleaving, and any batches that Redis replies with, both give out an in-order
prefix of what is published and end right after the terminal event, unless their time is over first
(`subscriptions_follow`).

A stream is the list of its entries, and the id of an entry is its number, counted from 1; time is
counted in milliseconds.
-/
namespace OmniCare

open Tailing

/-- A published event with its `seq`. -/
abbrev SentEvent := Nat × RunEvent

def SentEvent.isTerminal (e : SentEvent) : Bool := e.2.isTerminal

/-- What happens around a subscriber, and its own steps: to go on, to get a reply of some entries
from Redis, and to have waited long enough. -/
inductive SubscriptionAction
  | publish (e : SentEvent)
  | tick (ms : ℚ)
  | go
  | reply (n : Nat)
  | expire

/-- The steps of the subscriber. -/
def SubscriptionAction.own : SubscriptionAction → Bool
  | .publish _ | .tick _ => false
  | _ => true

/-! ## Redis -/

/-- The `count` of `xread`. -/
def readCount : Nat := 32

/-- Where `RedisQueue.subscribe` stands: before the test of its loop, in `xread`, in the loop over
the entries of a reply, or at a `yield` in it. -/
inductive RedisPhase
  | checking
  | reading (since : ℚ) (block : Nat)
  | delivering (batch : List SentEvent)
  | yielding (e : SentEvent) (batch : List SentEvent)
  | ended

/-- A stream and one call of `RedisQueue.subscribe`. -/
structure RedisSubscription where
  log : List SentEvent
  now : ℚ
  /-- The id of the last entry. -/
  cursor : Nat
  deadlineMs : Nat
  spent : Nat := 0
  phase : RedisPhase := .checking

namespace RedisSubscription

/-- `subscribe(run_id, timeout_s, last_id)`. -/
def subscribe (log : List SentEvent) (now timeoutS : ℚ) (lastId : Nat) : RedisSubscription where
  log := log
  now := now
  cursor := lastId
  deadlineMs := (timeoutS * 1000).floor.toNat

/-- A step, and the events that it yields. -/
def step (s : RedisSubscription) : SubscriptionAction → Option (RedisSubscription × List SentEvent)
  | .publish e => some ({ s with log := s.log ++ [e] }, [])
  | .tick ms => if 0 ≤ ms then some ({ s with now := s.now + ms }, []) else none
  | .go =>
      match s.phase with
      | .checking =>
          if s.spent < s.deadlineMs then
            some ({ s with phase := .reading s.now (min 1000 (s.deadlineMs - s.spent)) }, [])
          else some ({ s with phase := .ended }, [])
      | .delivering [] => some ({ s with phase := .checking }, [])
      | .delivering (e :: batch) =>
          some ({ s with cursor := s.cursor + 1, phase := .yielding e batch }, [e])
      | .yielding e batch =>
          let phase := if SentEvent.isTerminal e then .ended else .delivering batch
          some ({ s with phase }, [])
      | _ => none
  | .reply n =>
      match s.phase with
      | .reading _ _ =>
          if 0 < n ∧ n ≤ readCount ∧ s.cursor + n ≤ s.log.length then
            some ({ s with phase := .delivering ((s.log.drop s.cursor).take n) }, [])
          else none
      | _ => none
  | .expire =>
      match s.phase with
      | .reading since block =>
          if s.log.length ≤ s.cursor ∧ since + block ≤ s.now then
            some ({ s with spent := s.spent + block, phase := .checking }, [])
          else none
      | _ => none

/-- The subscriber has returned. -/
def Ended (s : RedisSubscription) : Prop :=
  match s.phase with
  | .ended => True
  | _ => False

end RedisSubscription

/-! ## In memory -/

/-- Where `InMemoryQueue.subscribe` stands: in its inner loop, at a `yield` in it, or waiting for
`wakeup`. -/
inductive MemoryPhase
  | looping
  | yielding (e : SentEvent)
  | waiting
  | ended
  deriving DecidableEq

/-- The events of a run in an `InMemoryQueue`, and one call of `subscribe`. -/
structure MemorySubscription where
  log : List SentEvent
  wakeup : Bool
  now : ℚ
  deadline : ℚ
  cursor : Nat := 0
  phase : MemoryPhase := .looping

namespace MemorySubscription

/-- `subscribe(run_id, timeout_s)`. -/
def subscribe (log : List SentEvent) (wakeup : Bool) (now timeoutS : ℚ) : MemorySubscription where
  log := log
  wakeup := wakeup
  now := now
  deadline := now + timeoutS * 1000

/-- A step, and the events that it yields. -/
def step (s : MemorySubscription) :
    SubscriptionAction → Option (MemorySubscription × List SentEvent)
  | .publish e => some ({ s with log := s.log ++ [e], wakeup := true }, [])
  | .tick ms => if 0 ≤ ms then some ({ s with now := s.now + ms }, []) else none
  | .go =>
      match s.phase with
      | .looping =>
          match s.log.drop s.cursor with
          | e :: _ => some ({ s with cursor := s.cursor + 1, phase := .yielding e }, [e])
          | [] =>
              if s.deadline - s.now ≤ 0 then some ({ s with phase := .ended }, [])
              else some ({ s with wakeup := false, phase := .waiting }, [])
      | .yielding e =>
          let phase := if SentEvent.isTerminal e then .ended else .looping
          some ({ s with phase }, [])
      | .waiting => if s.wakeup then some ({ s with phase := .looping }, []) else none
      | .ended => none
  | .reply _ => none
  | .expire =>
      match s.phase with
      | .waiting => if s.deadline ≤ s.now then some ({ s with phase := .ended }, []) else none
      | _ => none

end MemorySubscription

/-! ## What both give out -/

/-- **A subscription follows a stream** from behind the entry `seen`: it gives out an in-order
prefix of what is published there and nothing behind a terminal event, which its next step is the
end after; it has ended only after the terminal event or after its time; and as soon as the terminal
event is published it can go on until it has ended, which takes it a bounded number of steps. -/
structure Follows {S : Type} (step : S → SubscriptionAction → Option (S × List SentEvent))
    (Ended : S → Prop) (seen : Nat) (log given : List SentEvent) (timedOut : Prop) (s : S) :
    Prop where
  tails : Tails SentEvent.isTerminal seen log given
  ending : Ended s → Closed SentEvent.isTerminal given ∨ timedOut
  closes : Closed SentEvent.isTerminal given → ¬Ended s → ∀ a t es, a.own = true →
    step s a = some (t, es) → Ended t ∧ es = []
  goesOn : Ends SentEvent.isTerminal (log.drop seen) → ¬Ended s →
    ∃ a r, a.own = true ∧ step s a = some r
  ends : Ends SentEvent.isTerminal (log.drop seen) → ∀ as t es, Run (Computes step) s as t es →
    (as.filter SubscriptionAction.own).length ≤ 5 * log.length + 2

namespace RedisSubscription

variable {s t : RedisSubscription} {seen : Nat} {startedAt : ℚ} {given : List SentEvent}

/-- What each place of the loop knows. -/
def Knows (startedAt : ℚ) (s : RedisSubscription) (given : List SentEvent) : Prop :=
  match s.phase with
  | .checking => Opens SentEvent.isTerminal given
  | .reading since _ => Opens SentEvent.isTerminal given ∧ startedAt + s.spent ≤ since
  | .delivering batch => Opens SentEvent.isTerminal given ∧ batch <+: s.log.drop s.cursor
  | .yielding e batch => batch <+: s.log.drop s.cursor ∧
      ∃ before, given = before ++ [e] ∧ Opens SentEvent.isTerminal before
  | .ended => Closed SentEvent.isTerminal given ∨
      Opens SentEvent.isTerminal given ∧ startedAt + s.deadlineMs ≤ s.now

/-- The invariant of the loop. -/
structure Inv (seen : Nat) (startedAt : ℚ) (s : RedisSubscription) (given : List SentEvent) :
    Prop where
  cursor : s.cursor = seen + given.length
  inOrder : given <+: s.log.drop seen
  spent : startedAt + s.spent ≤ s.now
  knows : Knows startedAt s given

theorem inv_subscribe (log : List SentEvent) (now timeoutS : ℚ) (lastId : Nat) :
    Inv lastId now (subscribe log now timeoutS lastId) [] :=
  ⟨rfl, List.nil_prefix, by simp [subscribe], opens_nil⟩

/-- **One step of the loop.** -/
theorem Inv.step (h : Inv seen startedAt s given) {a : SubscriptionAction} {es : List SentEvent}
    (hs : s.step a = some (t, es)) : Inv seen startedAt t (given ++ es) := by
  obtain ⟨hcursor, hinOrder, hspent, hknows⟩ := h
  cases a with
  | publish e =>
    cases hs
    rw [List.append_nil]
    refine ⟨hcursor, inOrder_publish hinOrder e, hspent, ?_⟩
    have hlater : ∀ batch : List SentEvent, batch <+: s.log.drop s.cursor →
        batch <+: (s.log ++ [e]).drop s.cursor := fun batch hb => inOrder_publish hb e
    unfold Knows at hknows ⊢
    dsimp only at hknows ⊢
    cases hphase : s.phase with
    | checking | reading since block | ended =>
      rw [hphase] at hknows
      exact hknows
    | delivering batch =>
      rw [hphase] at hknows
      exact ⟨hknows.1, hlater batch hknows.2⟩
    | yielding x batch =>
      rw [hphase] at hknows
      exact ⟨hlater batch hknows.1, hknows.2⟩
  | tick ms =>
    rw [RedisSubscription.step] at hs
    split at hs
    · rename_i hms
      cases hs
      rw [List.append_nil]
      refine ⟨hcursor, hinOrder, by dsimp only; linarith, ?_⟩
      unfold Knows at hknows ⊢
      dsimp only at hknows ⊢
      cases hphase : s.phase with
      | checking | reading since block | delivering batch | yielding x batch =>
        rw [hphase] at hknows
        exact hknows
      | ended =>
        rw [hphase] at hknows
        exact hknows.imp id fun ho => ⟨ho.1, by linarith [ho.2]⟩
    · cases hs
  | go =>
    unfold Knows at hknows
    rw [RedisSubscription.step] at hs
    cases hphase : s.phase with
    | checking =>
      rw [hphase] at hs hknows
      dsimp only at hs hknows
      split at hs
      · cases hs
        rw [List.append_nil]
        exact ⟨hcursor, hinOrder, hspent, hknows, hspent⟩
      · -- the time is over
        rename_i hover
        cases hs
        rw [List.append_nil]
        refine ⟨hcursor, hinOrder, hspent, .inr ⟨hknows, ?_⟩⟩
        have hle : (s.deadlineMs : ℚ) ≤ s.spent := by exact_mod_cast Nat.not_lt.mp hover
        dsimp only
        linarith
    | reading since block =>
      rw [hphase] at hs
      cases hs
    | delivering batch =>
      rw [hphase] at hs hknows
      dsimp only at hknows
      obtain ⟨hopens, rest, hrest⟩ := hknows
      cases batch with
      | nil =>
        cases hs
        rw [List.append_nil]
        exact ⟨hcursor, hinOrder, hspent, hopens⟩
      | cons e batch =>
        cases hs
        rw [hcursor] at hrest
        obtain ⟨horder, hdrop⟩ := inOrder_deliver hinOrder hrest.symm
        rw [List.length_append, List.length_singleton, ← Nat.add_assoc, ← hcursor] at hdrop
        refine ⟨by simp [hcursor, Nat.add_assoc], horder, hspent, ⟨rest, ?_⟩, given, rfl, hopens⟩
        exact hdrop.symm
    | yielding e batch =>
      rw [hphase] at hs hknows
      dsimp only at hknows
      obtain ⟨hbatch, before, rfl, hopens⟩ := hknows
      cases hs
      rw [List.append_nil]
      refine ⟨hcursor, hinOrder, hspent, ?_⟩
      unfold Knows
      dsimp only
      cases he : SentEvent.isTerminal e with
      | true => exact .inl ⟨before, e, rfl, he, hopens⟩
      | false => exact ⟨hopens.concat he, hbatch⟩
    | ended =>
      rw [hphase] at hs
      cases hs
  | reply n =>
    unfold Knows at hknows
    rw [RedisSubscription.step] at hs
    cases hphase : s.phase with
    | reading since block =>
      rw [hphase] at hs hknows
      dsimp only at hs
      split at hs
      · cases hs
        rw [List.append_nil]
        exact ⟨hcursor, hinOrder, hspent, hknows.1, List.take_prefix ..⟩
      · cases hs
    | checking | delivering batch | yielding e batch | ended =>
      rw [hphase] at hs
      cases hs
  | expire =>
    unfold Knows at hknows
    rw [RedisSubscription.step] at hs
    cases hphase : s.phase with
    | reading since block =>
      rw [hphase] at hs hknows
      dsimp only at hs hknows
      split at hs
      · rename_i hwaited
        cases hs
        rw [List.append_nil]
        refine ⟨hcursor, hinOrder, ?_, hknows.1⟩
        have := hwaited.2
        push_cast
        linarith [hknows.2]
      · cases hs
    | checking | delivering batch | yielding e batch | ended =>
      rw [hphase] at hs
      cases hs

/-- The steps that the subscriber has left, by its place and the events up to the terminal one. -/
def rank (s : RedisSubscription) : Nat :=
  let n := 5 * left SentEvent.isTerminal (s.log.drop s.cursor)
  match s.phase with
  | .checking => n
  | .reading _ _ => n - 1
  | .delivering [] => n + 1
  | .delivering (_ :: _) => n - 2
  | .yielding e _ => if SentEvent.isTerminal e then 1 else n + 2
  | .ended => 0

/-- The terminal event is published. -/
def Due (seen : Nat) (startedAt : ℚ) (s : RedisSubscription) : Prop :=
  (∃ given, Inv seen startedAt s given) ∧ Ends SentEvent.isTerminal (s.log.drop seen)

/-- The subscriber publishes nothing, and its deadline stays. -/
theorem log_step {a : SubscriptionAction} {es : List SentEvent} (hs : s.step a = some (t, es)) :
    (t.log = s.log ∨ ∃ e, t.log = s.log ++ [e]) ∧ t.deadlineMs = s.deadlineMs := by
  cases a with
  | publish e =>
    cases hs
    exact ⟨.inr ⟨e, rfl⟩, rfl⟩
  | tick ms =>
    rw [RedisSubscription.step] at hs
    split at hs <;> cases hs
    exact ⟨.inl rfl, rfl⟩
  | go =>
    rw [RedisSubscription.step] at hs
    split at hs
    · split at hs <;> (cases hs; exact ⟨.inl rfl, rfl⟩)
    · cases hs
      exact ⟨.inl rfl, rfl⟩
    · cases hs
      exact ⟨.inl rfl, rfl⟩
    · cases hs
      exact ⟨.inl rfl, rfl⟩
    · cases hs
  | reply n | expire =>
    rw [RedisSubscription.step] at hs
    split at hs
    · split at hs <;> cases hs
      exact ⟨.inl rfl, rfl⟩
    · cases hs

theorem Due.step (h : Due seen startedAt s) {a : SubscriptionAction} {es : List SentEvent}
    (hs : s.step a = some (t, es)) : Due seen startedAt t := by
  obtain ⟨⟨given, hinv⟩, hends⟩ := h
  refine ⟨⟨_, hinv.step hs⟩, ?_⟩
  rcases (log_step hs).1 with hlog | ⟨e, hlog⟩
  · rwa [hlog]
  · rw [hlog]
    exact ends_publish hends e

/-- While nothing terminal has been given out, the terminal event is in what is to come. -/
theorem Inv.ends_rest (h : Inv seen startedAt s given)
    (hends : Ends SentEvent.isTerminal (s.log.drop seen))
    (hopens : Opens SentEvent.isTerminal given) :
    Ends SentEvent.isTerminal (s.log.drop s.cursor) :=
  h.cursor ▸ Tailing.ends_rest h.inOrder hends hopens

/-- What others do leaves the rank. -/
theorem rank_other (h : Due seen startedAt s) {a : SubscriptionAction} {es : List SentEvent}
    (hs : s.step a = some (t, es)) (ha : a.own = false) : t.rank ≤ s.rank := by
  obtain ⟨⟨given, hinv⟩, hends⟩ := h
  cases a with
  | publish e =>
    cases hs
    have hknows := hinv.knows
    have hsame : Opens SentEvent.isTerminal given →
        left SentEvent.isTerminal ((s.log ++ [e]).drop s.cursor) =
          left SentEvent.isTerminal (s.log.drop s.cursor) :=
      fun hopens => left_publish (hinv.ends_rest hends hopens) e
    unfold Knows at hknows
    unfold rank
    dsimp only
    cases hphase : s.phase with
    | checking =>
      rw [hphase] at hknows
      rw [hsame hknows]
    | reading since block =>
      rw [hphase] at hknows
      rw [hsame hknows.1]
    | delivering batch =>
      rw [hphase] at hknows
      rw [hsame hknows.1]
    | yielding x batch =>
      rw [hphase] at hknows
      obtain ⟨-, before, rfl, hopens⟩ := hknows
      dsimp only
      split
      · exact Nat.le_refl _
      · rename_i hx
        rw [hsame (hopens.concat (Bool.not_eq_true _ ▸ hx))]
    | ended => exact Nat.le_refl _
  | tick ms =>
    rw [RedisSubscription.step] at hs
    split at hs <;> cases hs
    exact Nat.le_refl _
  | go | reply n | expire => cases ha

/-- **Its own steps bring the rank down.** -/
theorem rank_own (h : Due seen startedAt s) {a : SubscriptionAction} {es : List SentEvent}
    (hs : s.step a = some (t, es)) (ha : a.own = true) : t.rank < s.rank := by
  obtain ⟨⟨given, hinv⟩, hends⟩ := h
  have hknows := hinv.knows
  have hpos : 0 < left SentEvent.isTerminal (s.log.drop s.cursor) := Nat.succ_pos _
  unfold Knows at hknows
  cases a with
  | publish e | tick ms => cases ha
  | go =>
    rw [RedisSubscription.step] at hs
    cases hphase : s.phase with
    | checking =>
      rw [hphase] at hs
      dsimp only at hs
      split at hs <;> (cases hs; simp only [rank, hphase]; omega)
    | reading since block =>
      rw [hphase] at hs
      cases hs
    | delivering batch =>
      rw [hphase] at hs hknows
      cases batch with
      | nil =>
        cases hs
        simp only [rank, hphase]
        omega
      | cons e batch =>
        -- the event given out is the next one of those left
        obtain ⟨-, rest, hrest⟩ := hknows
        have hdrop : s.log.drop (s.cursor + 1) = batch ++ rest := by
          have htail : s.log.drop (s.cursor + 1) = (s.log.drop s.cursor).drop 1 :=
            List.drop_drop.symm
          rw [htail, ← hrest]
          rfl
        cases hs
        simp only [rank, hphase]
        rw [hdrop]
        cases he : SentEvent.isTerminal e with
        | true =>
          simp only [if_true]
          omega
        | false =>
          have hleft := left_cons he (batch ++ rest)
          rw [List.cons_append] at hrest
          rw [hrest] at hleft
          simp only [Bool.false_eq_true, if_false]
          omega
    | yielding e batch =>
      rw [hphase] at hs
      cases hs
      simp only [rank, hphase]
      cases he : SentEvent.isTerminal e with
      | true => exact Nat.one_pos
      | false =>
        cases batch with
        | nil =>
          simp only [Bool.false_eq_true, if_false]
          omega
        | cons x batch =>
          simp only [Bool.false_eq_true, if_false]
          omega
    | ended =>
      rw [hphase] at hs
      cases hs
  | reply n =>
    rw [RedisSubscription.step] at hs
    cases hphase : s.phase with
    | reading since block =>
      rw [hphase] at hs
      dsimp only at hs
      split at hs
      · rename_i hn
        have hlength : ((s.log.drop s.cursor).take n).length = n := by
          rw [List.length_take, List.length_drop]
          omega
        cases hs
        simp only [rank, hphase]
        cases hbatch : (s.log.drop s.cursor).take n with
        | nil =>
          rw [hbatch] at hlength
          exact absurd hlength.symm (Nat.ne_of_gt hn.1)
        | cons x batch =>
          dsimp only
          omega
      · cases hs
    | checking | delivering batch | yielding e batch | ended =>
      rw [hphase] at hs
      cases hs
  | expire =>
    rw [RedisSubscription.step] at hs
    cases hphase : s.phase with
    | reading since block =>
      rw [hphase] at hs hknows
      dsimp only at hs
      split at hs
      · -- it would not have waited with the terminal event there
        rename_i hwaited
        have hnil := List.drop_eq_nil_of_le hwaited.1
        exact absurd hnil (hinv.ends_rest hends hknows.1).ne_nil
      · cases hs
    | checking | delivering batch | yielding e batch | ended =>
      rw [hphase] at hs
      cases hs

theorem rank_le (h : Due seen startedAt s) : s.rank ≤ 5 * s.log.length + 2 := by
  obtain ⟨⟨given, hinv⟩, hends⟩ := h
  have hknows := hinv.knows
  have hle : Opens SentEvent.isTerminal given →
      left SentEvent.isTerminal (s.log.drop s.cursor) ≤ s.log.length := fun hopens =>
    Nat.le_trans (left_le (hinv.ends_rest hends hopens)) (by rw [List.length_drop]; omega)
  unfold Knows at hknows
  unfold rank
  dsimp only
  cases hphase : s.phase with
  | checking =>
    rw [hphase] at hknows
    have := hle hknows
    dsimp only
    omega
  | reading since block =>
    rw [hphase] at hknows
    have := hle hknows.1
    dsimp only
    omega
  | delivering batch =>
    rw [hphase] at hknows
    have := hle hknows.1
    cases batch <;> (dsimp only; omega)
  | yielding e batch =>
    rw [hphase] at hknows
    obtain ⟨-, before, rfl, hopens⟩ := hknows
    dsimp only
    split
    · omega
    · rename_i he
      have := hle (hopens.concat (Bool.not_eq_true _ ▸ he))
      omega
  | ended => exact Nat.zero_le _

/-- It can go on with the terminal event there. -/
theorem exists_step (h : Due seen startedAt s) (hended : ¬s.Ended) :
    ∃ a r, SubscriptionAction.own a = true ∧ s.step a = some r := by
  obtain ⟨⟨given, hinv⟩, hends⟩ := h
  have hknows := hinv.knows
  unfold Knows at hknows
  cases hphase : s.phase with
  | checking =>
    refine ⟨.go, ?_⟩
    simp only [RedisSubscription.step, hphase]
    split <;> exact ⟨_, rfl, rfl⟩
  | reading since block =>
    rw [hphase] at hknows
    have hne := (hinv.ends_rest hends hknows.1).ne_nil
    have hlt : s.cursor + 1 ≤ s.log.length := by
      by_contra hnot
      exact hne (List.drop_eq_nil_of_le (by omega))
    refine ⟨.reply 1, ?_⟩
    simp only [RedisSubscription.step, hphase]
    rw [if_pos ⟨Nat.one_pos, by decide, hlt⟩]
    exact ⟨_, rfl, rfl⟩
  | delivering batch =>
    refine ⟨.go, ?_⟩
    cases batch <;> simp only [RedisSubscription.step, hphase] <;> exact ⟨_, rfl, rfl⟩
  | yielding e batch =>
    refine ⟨.go, ?_⟩
    simp only [RedisSubscription.step, hphase]
    exact ⟨_, rfl, rfl⟩
  | ended =>
    refine absurd ?_ hended
    unfold Ended
    rw [hphase]
    trivial

/-- **The Redis subscriber follows its stream.** -/
theorem follows {log : List SentEvent} {now timeoutS : ℚ} {as : List SubscriptionAction}
    (h : Run (Computes step) (subscribe log now timeoutS seen) as s given) :
    Inv seen now s given ∧
      Follows step Ended seen s.log given (now + (timeoutS * 1000).floor.toNat ≤ s.now) s := by
  have hinv : Inv seen now s given :=
    h.invariant (inv_subscribe log now timeoutS seen) fun ht hs => ht.step hs
  have hdeadline : s.deadlineMs = (timeoutS * 1000).floor.toNat :=
    h.invariant (I := fun s _ => s.deadlineMs = (timeoutS * 1000).floor.toNat) rfl
      fun ht hs => (log_step hs).2.trans ht
  have hknows := hinv.knows
  unfold Knows at hknows
  rw [← hdeadline]
  refine ⟨hinv, ⟨hinv.inOrder, ?_⟩, ?_, ?_, fun hends => exists_step ⟨⟨_, hinv⟩, hends⟩, ?_⟩
  · cases hphase : s.phase with
    | checking =>
      rw [hphase] at hknows
      exact .inl hknows
    | reading since block =>
      rw [hphase] at hknows
      exact .inl hknows.1
    | delivering batch =>
      rw [hphase] at hknows
      exact .inl hknows.1
    | yielding e batch =>
      rw [hphase] at hknows
      obtain ⟨-, before, rfl, hopens⟩ := hknows
      cases he : SentEvent.isTerminal e with
      | true => exact .inr ⟨before, e, rfl, he, hopens⟩
      | false => exact .inl (hopens.concat he)
    | ended =>
      rw [hphase] at hknows
      exact hknows.symm.imp And.left id
  · intro hended
    unfold Ended at hended
    cases hphase : s.phase with
    | ended =>
      rw [hphase] at hknows
      exact hknows.imp id And.right
    | checking | reading since block | delivering batch | yielding e batch =>
      rw [hphase] at hended
      exact hended.elim
  · intro hclosed hended a t es ha hs
    cases hphase : s.phase with
    | checking =>
      rw [hphase] at hknows
      exact absurd hknows hclosed.not_opens
    | reading since block =>
      rw [hphase] at hknows
      exact absurd hknows.1 hclosed.not_opens
    | delivering batch =>
      rw [hphase] at hknows
      exact absurd hknows.1 hclosed.not_opens
    | yielding e batch =>
      rw [hphase] at hknows
      obtain ⟨-, before, rfl, -⟩ := hknows
      have he := hclosed.last
      cases a with
      | publish x | tick ms => cases ha
      | go =>
        simp only [RedisSubscription.step, hphase, he, if_true] at hs
        cases hs
        exact ⟨trivial, rfl⟩
      | reply n | expire =>
        simp only [RedisSubscription.step, hphase] at hs
        cases hs
    | ended =>
      unfold Ended at hended
      rw [hphase] at hended
      exact absurd trivial hended
  · intro hends bs u fs hrun
    have hdue : Due seen now s := ⟨⟨given, hinv⟩, hends⟩
    have hcount : (bs.filter SubscriptionAction.own).length + u.rank ≤ s.rank :=
      (count_le (R := Computes step) (I := Due seen now) (fun ht hs => ht.step hs)
        (fun ht hs => rank_own ht hs) (fun ht hs => rank_other ht hs) hrun hdue).2
    have hle := rank_le hdue
    omega

/-- **A subscriber that comes back with the id of the last event it received goes on behind it.** -/
theorem resumes {log : List SentEvent} {now timeoutS now' timeoutS' : ℚ}
    {as bs : List SubscriptionAction} {given' : List SentEvent} (later : List SentEvent)
    (h : Run (Computes step) (subscribe log now timeoutS seen) as s given)
    (h' : Run (Computes step) (subscribe (s.log ++ later) now' timeoutS' s.cursor) bs t given') :
    given ++ given' <+: t.log.drop seen := by
  have hinv := (follows h).1
  have hinv' := (follows h').1
  -- the stream only grows
  have hgrown : s.log ++ later <+: t.log :=
    h'.invariant (I := fun t _ => s.log ++ later <+: t.log) (List.prefix_refl _) fun ht hs => by
      rcases (log_step hs).1 with hlog | ⟨e, hlog⟩
      · rwa [hlog]
      · rw [hlog]
        exact ht.trans (List.prefix_append ..)
  obtain ⟨rest, hrest⟩ := (List.prefix_append _ _).trans hgrown
  have hgiven : given <+: t.log.drop seen := by
    rw [← hrest, List.drop_append]
    exact hinv.inOrder.trans (List.prefix_append ..)
  obtain ⟨after, hafter⟩ := hgiven
  have horder := hinv'.inOrder
  rw [hinv.cursor, ← List.drop_drop, ← hafter, List.drop_left] at horder
  rw [← hafter]
  exact (List.prefix_append_right_inj given).mpr horder

end RedisSubscription

namespace MemorySubscription

variable {s t : MemorySubscription} {given : List SentEvent}

/-- The subscriber has returned. -/
def Ended (s : MemorySubscription) : Prop := s.phase = .ended

/-- What each place of the loop knows; one that waits without being woken has seen everything. -/
def Knows (s : MemorySubscription) (given : List SentEvent) : Prop :=
  match s.phase with
  | .looping => Opens SentEvent.isTerminal given
  | .yielding e => ∃ before, given = before ++ [e] ∧ Opens SentEvent.isTerminal before
  | .waiting => Opens SentEvent.isTerminal given ∧ (s.wakeup = false → s.log.length ≤ s.cursor)
  | .ended => Closed SentEvent.isTerminal given ∨
      Opens SentEvent.isTerminal given ∧ s.deadline ≤ s.now

/-- The invariant of the loop. -/
structure Inv (s : MemorySubscription) (given : List SentEvent) : Prop where
  cursor : s.cursor = 0 + given.length
  inOrder : given <+: s.log.drop 0
  knows : Knows s given

theorem inv_subscribe (log : List SentEvent) (wakeup : Bool) (now timeoutS : ℚ) :
    Inv (subscribe log wakeup now timeoutS) [] := ⟨rfl, List.nil_prefix, opens_nil⟩

/-- **One step of the loop.** -/
theorem Inv.step (h : Inv s given) {a : SubscriptionAction} {es : List SentEvent}
    (hs : s.step a = some (t, es)) : Inv t (given ++ es) := by
  obtain ⟨hcursor, hinOrder, hknows⟩ := h
  unfold Knows at hknows
  cases a with
  | publish e =>
    cases hs
    rw [List.append_nil]
    refine ⟨hcursor, inOrder_publish hinOrder e, ?_⟩
    unfold Knows
    dsimp only
    cases hphase : s.phase with
    | looping | yielding x | ended =>
      rw [hphase] at hknows
      exact hknows
    | waiting =>
      rw [hphase] at hknows
      exact ⟨hknows.1, nofun⟩
  | tick ms =>
    rw [MemorySubscription.step] at hs
    split at hs
    · rename_i hms
      cases hs
      rw [List.append_nil]
      refine ⟨hcursor, hinOrder, ?_⟩
      unfold Knows
      dsimp only
      cases hphase : s.phase with
      | looping | yielding x | waiting =>
        rw [hphase] at hknows
        exact hknows
      | ended =>
        rw [hphase] at hknows
        exact hknows.imp id fun ho => ⟨ho.1, by linarith [ho.2]⟩
    · cases hs
  | go =>
    rw [MemorySubscription.step] at hs
    cases hphase : s.phase with
    | looping =>
      rw [hphase] at hs hknows
      dsimp only at hs hknows
      cases hrest : s.log.drop s.cursor with
      | cons e rest =>
        rw [hrest] at hs
        cases hs
        rw [hcursor] at hrest
        exact ⟨by simp [hcursor], (inOrder_deliver hinOrder hrest).1, given, rfl, hknows⟩
      | nil =>
        rw [hrest] at hs
        dsimp only at hs
        split at hs
        · rename_i hover
          cases hs
          rw [List.append_nil]
          exact ⟨hcursor, hinOrder, .inr ⟨hknows, by dsimp only; linarith⟩⟩
        · -- nothing is there, so it may wait to be woken
          cases hs
          rw [List.append_nil]
          exact ⟨hcursor, hinOrder, hknows, fun _ => List.drop_eq_nil_iff.mp hrest⟩
    | yielding e =>
      rw [hphase] at hs hknows
      obtain ⟨before, rfl, hopens⟩ := hknows
      cases hs
      rw [List.append_nil]
      refine ⟨hcursor, hinOrder, ?_⟩
      unfold Knows
      dsimp only
      cases he : SentEvent.isTerminal e with
      | true => exact .inl ⟨before, e, rfl, he, hopens⟩
      | false => exact hopens.concat he
    | waiting =>
      rw [hphase] at hs hknows
      dsimp only at hs
      split at hs
      · cases hs
        rw [List.append_nil]
        exact ⟨hcursor, hinOrder, hknows.1⟩
      · cases hs
    | ended =>
      rw [hphase] at hs
      cases hs
  | reply n => cases hs
  | expire =>
    rw [MemorySubscription.step] at hs
    cases hphase : s.phase with
    | waiting =>
      rw [hphase] at hs hknows
      dsimp only at hs
      split at hs
      · rename_i hover
        cases hs
        rw [List.append_nil]
        exact ⟨hcursor, hinOrder, .inr ⟨hknows.1, hover⟩⟩
      · cases hs
    | looping | yielding e | ended =>
      rw [hphase] at hs
      cases hs

/-- The steps that the subscriber has left, by its place and the events up to the terminal one. -/
def rank (s : MemorySubscription) : Nat :=
  let n := 2 * left SentEvent.isTerminal (s.log.drop s.cursor)
  match s.phase with
  | .looping => n + 1
  | .yielding e => if SentEvent.isTerminal e then 1 else n + 2
  | .waiting => n + 2
  | .ended => 0

/-- The terminal event is published. -/
def Due (s : MemorySubscription) : Prop :=
  (∃ given, Inv s given) ∧ Ends SentEvent.isTerminal (s.log.drop 0)

/-- The subscriber publishes nothing, and its deadline stays. -/
theorem log_step {a : SubscriptionAction} {es : List SentEvent} (hs : s.step a = some (t, es)) :
    (t.log = s.log ∨ ∃ e, t.log = s.log ++ [e]) ∧ t.deadline = s.deadline := by
  cases a with
  | publish e =>
    cases hs
    exact ⟨.inr ⟨e, rfl⟩, rfl⟩
  | tick ms =>
    rw [MemorySubscription.step] at hs
    split at hs <;> cases hs
    exact ⟨.inl rfl, rfl⟩
  | go =>
    rw [MemorySubscription.step] at hs
    split at hs
    · split at hs
      · cases hs
        exact ⟨.inl rfl, rfl⟩
      · split at hs <;> (cases hs; exact ⟨.inl rfl, rfl⟩)
    · cases hs
      exact ⟨.inl rfl, rfl⟩
    · split at hs <;> cases hs
      exact ⟨.inl rfl, rfl⟩
    · cases hs
  | reply n => cases hs
  | expire =>
    rw [MemorySubscription.step] at hs
    split at hs
    · split at hs <;> cases hs
      exact ⟨.inl rfl, rfl⟩
    · cases hs

theorem Due.step (h : Due s) {a : SubscriptionAction} {es : List SentEvent}
    (hs : s.step a = some (t, es)) : Due t := by
  obtain ⟨⟨given, hinv⟩, hends⟩ := h
  refine ⟨⟨_, hinv.step hs⟩, ?_⟩
  rcases (log_step hs).1 with hlog | ⟨e, hlog⟩
  · rwa [hlog]
  · rw [hlog]
    exact ends_publish hends e

/-- While nothing terminal has been given out, the terminal event is in what is to come. -/
theorem Inv.ends_rest (h : Inv s given) (hends : Ends SentEvent.isTerminal (s.log.drop 0))
    (hopens : Opens SentEvent.isTerminal given) :
    Ends SentEvent.isTerminal (s.log.drop s.cursor) :=
  h.cursor ▸ Tailing.ends_rest h.inOrder hends hopens

/-- What others do leaves the rank. -/
theorem rank_other (h : Due s) {a : SubscriptionAction} {es : List SentEvent}
    (hs : s.step a = some (t, es)) (ha : a.own = false) : t.rank ≤ s.rank := by
  obtain ⟨⟨given, hinv⟩, hends⟩ := h
  cases a with
  | publish e =>
    cases hs
    have hknows := hinv.knows
    have hsame : Opens SentEvent.isTerminal given →
        left SentEvent.isTerminal ((s.log ++ [e]).drop s.cursor) =
          left SentEvent.isTerminal (s.log.drop s.cursor) :=
      fun hopens => left_publish (hinv.ends_rest hends hopens) e
    unfold Knows at hknows
    unfold rank
    dsimp only
    cases hphase : s.phase with
    | looping =>
      rw [hphase] at hknows
      rw [hsame hknows]
    | yielding x =>
      rw [hphase] at hknows
      obtain ⟨before, rfl, hopens⟩ := hknows
      dsimp only
      split
      · exact Nat.le_refl _
      · rename_i hx
        rw [hsame (hopens.concat (Bool.not_eq_true _ ▸ hx))]
    | waiting =>
      rw [hphase] at hknows
      rw [hsame hknows.1]
    | ended => exact Nat.le_refl _
  | tick ms =>
    rw [MemorySubscription.step] at hs
    split at hs <;> cases hs
    exact Nat.le_refl _
  | go | reply n | expire => cases ha

/-- **Its own steps bring the rank down.** -/
theorem rank_own (h : Due s) {a : SubscriptionAction} {es : List SentEvent}
    (hs : s.step a = some (t, es)) (ha : a.own = true) : t.rank < s.rank := by
  obtain ⟨⟨given, hinv⟩, hends⟩ := h
  have hknows := hinv.knows
  unfold Knows at hknows
  cases a with
  | publish e | tick ms => cases ha
  | go =>
    rw [MemorySubscription.step] at hs
    cases hphase : s.phase with
    | looping =>
      rw [hphase] at hs hknows
      dsimp only at hs
      cases hrest : s.log.drop s.cursor with
      | nil => exact absurd hrest (hinv.ends_rest hends hknows).ne_nil
      | cons e rest =>
        -- the event given out is the next one of those left
        have hdrop : s.log.drop (s.cursor + 1) = rest := by
          have htail : s.log.drop (s.cursor + 1) = (s.log.drop s.cursor).drop 1 :=
            List.drop_drop.symm
          rw [htail, hrest]
          rfl
        rw [hrest] at hs
        cases hs
        simp only [rank, hphase]
        rw [hdrop, hrest]
        cases he : SentEvent.isTerminal e with
        | true =>
          have hpos : 0 < left SentEvent.isTerminal (e :: rest) := Nat.succ_pos _
          simp only [if_true]
          omega
        | false =>
          have hleft := left_cons he rest
          simp only [Bool.false_eq_true, if_false]
          omega
    | yielding e =>
      rw [hphase] at hs
      cases hs
      simp only [rank, hphase]
      cases he : SentEvent.isTerminal e with
      | true => exact Nat.one_pos
      | false => exact Nat.lt_succ_self _
    | waiting =>
      rw [hphase] at hs
      dsimp only at hs
      split at hs
      · cases hs
        simp only [rank, hphase]
        exact Nat.lt_succ_self _
      · cases hs
    | ended =>
      rw [hphase] at hs
      cases hs
  | reply n => cases hs
  | expire =>
    rw [MemorySubscription.step] at hs
    cases hphase : s.phase with
    | waiting =>
      rw [hphase] at hs
      dsimp only at hs
      split at hs
      · cases hs
        simp only [rank, hphase]
        exact Nat.succ_pos _
      · cases hs
    | looping | yielding e | ended =>
      rw [hphase] at hs
      cases hs

theorem rank_le (h : Due s) : s.rank ≤ 2 * s.log.length + 2 := by
  obtain ⟨⟨given, hinv⟩, hends⟩ := h
  have hknows := hinv.knows
  have hle : Opens SentEvent.isTerminal given →
      left SentEvent.isTerminal (s.log.drop s.cursor) ≤ s.log.length := fun hopens =>
    Nat.le_trans (left_le (hinv.ends_rest hends hopens)) (by rw [List.length_drop]; omega)
  unfold Knows at hknows
  unfold rank
  dsimp only
  cases hphase : s.phase with
  | looping =>
    rw [hphase] at hknows
    have := hle hknows
    dsimp only
    omega
  | yielding e =>
    rw [hphase] at hknows
    obtain ⟨before, rfl, hopens⟩ := hknows
    dsimp only
    split
    · omega
    · rename_i he
      have := hle (hopens.concat (Bool.not_eq_true _ ▸ he))
      omega
  | waiting =>
    rw [hphase] at hknows
    have := hle hknows.1
    dsimp only
    omega
  | ended => exact Nat.zero_le _

/-- It can go on with the terminal event there: no wakeup is lost. -/
theorem exists_step (h : Due s) (hended : ¬s.Ended) :
    ∃ a r, SubscriptionAction.own a = true ∧ s.step a = some r := by
  obtain ⟨⟨given, hinv⟩, hends⟩ := h
  have hknows := hinv.knows
  unfold Knows at hknows
  refine ⟨.go, ?_⟩
  cases hphase : s.phase with
  | looping =>
    simp only [MemorySubscription.step, hphase]
    split
    · exact ⟨_, rfl, rfl⟩
    · split <;> exact ⟨_, rfl, rfl⟩
  | yielding e =>
    simp only [MemorySubscription.step, hphase]
    exact ⟨_, rfl, rfl⟩
  | waiting =>
    rw [hphase] at hknows
    have hwakeup : s.wakeup = true := by
      by_contra hnot
      have hle := hknows.2 (Bool.not_eq_true _ ▸ hnot)
      exact (hinv.ends_rest hends hknows.1).ne_nil (List.drop_eq_nil_of_le hle)
    simp only [MemorySubscription.step, hphase, hwakeup, if_true]
    exact ⟨_, rfl, rfl⟩
  | ended => exact absurd hphase hended

/-- **The in-memory subscriber follows its stream.** -/
theorem follows {log : List SentEvent} {wakeup : Bool} {now timeoutS : ℚ}
    {as : List SubscriptionAction}
    (h : Run (Computes step) (subscribe log wakeup now timeoutS) as s given) :
    Follows step Ended 0 s.log given (now + timeoutS * 1000 ≤ s.now) s := by
  have hinv : Inv s given :=
    h.invariant (inv_subscribe log wakeup now timeoutS) fun ht hs => ht.step hs
  have hdeadline : s.deadline = now + timeoutS * 1000 :=
    h.invariant (I := fun s _ => s.deadline = now + timeoutS * 1000) rfl
      fun ht hs => (log_step hs).2.trans ht
  have hknows := hinv.knows
  unfold Knows at hknows
  rw [← hdeadline]
  refine ⟨⟨hinv.inOrder, ?_⟩, ?_, ?_, fun hends => exists_step ⟨⟨_, hinv⟩, hends⟩, ?_⟩
  · cases hphase : s.phase with
    | looping =>
      rw [hphase] at hknows
      exact .inl hknows
    | yielding e =>
      rw [hphase] at hknows
      obtain ⟨before, rfl, hopens⟩ := hknows
      cases he : SentEvent.isTerminal e with
      | true => exact .inr ⟨before, e, rfl, he, hopens⟩
      | false => exact .inl (hopens.concat he)
    | waiting =>
      rw [hphase] at hknows
      exact .inl hknows.1
    | ended =>
      rw [hphase] at hknows
      exact hknows.symm.imp And.left id
  · intro hended
    rw [show s.phase = .ended from hended] at hknows
    exact hknows.imp id And.right
  · intro hclosed hended a t es ha hs
    cases hphase : s.phase with
    | looping =>
      rw [hphase] at hknows
      exact absurd hknows hclosed.not_opens
    | waiting =>
      rw [hphase] at hknows
      exact absurd hknows.1 hclosed.not_opens
    | yielding e =>
      rw [hphase] at hknows
      obtain ⟨before, rfl, -⟩ := hknows
      have he := hclosed.last
      cases a with
      | publish x | tick ms => cases ha
      | go =>
        simp only [MemorySubscription.step, hphase, he, if_true] at hs
        cases hs
        exact ⟨rfl, rfl⟩
      | reply n => cases hs
      | expire =>
        simp only [MemorySubscription.step, hphase] at hs
        cases hs
    | ended => exact absurd hphase hended
  · intro hends bs u fs hrun
    have hdue : Due s := ⟨⟨given, hinv⟩, hends⟩
    have hcount : (bs.filter SubscriptionAction.own).length + u.rank ≤ s.rank :=
      (count_le (R := Computes step) (I := Due) (fun ht hs => ht.step hs)
        (fun ht hs => rank_own ht hs) (fun ht hs => rank_other ht hs) hrun hdue).2
    have hle := rank_le hdue
    omega

end MemorySubscription

/-- **Both subscribers follow their stream**, whatever is published before and meanwhile and however
Redis splits it.  In Redis, a subscriber that comes back with the id of the last event it received
goes on behind that event. -/
theorem subscriptions_follow :
    (∀ log now timeoutS lastId as t given,
      Run (Computes RedisSubscription.step) (.subscribe log now timeoutS lastId) as t given →
        Follows RedisSubscription.step RedisSubscription.Ended lastId t.log given
          (now + (timeoutS * 1000).floor.toNat ≤ t.now) t ∧
        ∀ later now' timeoutS' bs u given',
          Run (Computes RedisSubscription.step)
            (.subscribe (t.log ++ later) now' timeoutS' t.cursor) bs u given' →
          given ++ given' <+: u.log.drop lastId) ∧
    ∀ log wakeup now timeoutS as t given,
      Run (Computes MemorySubscription.step) (.subscribe log wakeup now timeoutS) as t given →
        Follows MemorySubscription.step MemorySubscription.Ended 0 t.log given
          (now + timeoutS * 1000 ≤ t.now) t := by
  constructor
  · intro log now timeoutS lastId as t given h
    exact ⟨(RedisSubscription.follows h).2, fun later _ _ _ _ _ h' =>
      RedisSubscription.resumes later h h'⟩
  · intro log wakeup now timeoutS as t given h
    exact MemorySubscription.follows h

/-- An event published before, one published at a yield. -/
example : (play RedisSubscription.step (.subscribe [(0, .started)] 0 1 0)
    [.go, .reply 1, .go, .publish (1, .done none), .go, .go, .go, .reply 1, .go, .go]).map
      (·.2) = some [(0, .started), (1, .done none)] := by decide +kernel

end OmniCare
