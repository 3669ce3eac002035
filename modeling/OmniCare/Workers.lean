import OmniCare.Runs
import OmniCare.Streams
import Mathlib.Algebra.Order.Ring.Nat
import Mathlib.Logic.Function.Basic

/-! # Worker replicas on one job stream

`AgentWorker.run_forever` of `agent/app/worker.py` over `RedisQueue` of
`libs/adapters/queue_redis.py`, await by await.  Any number of replicas share the stream
`jobs:chat`; a replica may crash between any two awaits and be started again under its name.

`run_forever` calls `reclaim_stalled`, which moves stale entries to the caller and returns how
many there were.  The entries themselves are dropped, and `consume` delivers new entries only,
so what has been reassigned is handled by nobody.  **An iteration leaves nothing behind under
its worker's name in every run in which no call of `reclaim_stalled` finds a stale entry**
(`iteration_leaves_nothing`).
-/
namespace OmniCare

variable {C J : Type}

/-! ## The loop -/

/-- `min_idle_ms` of `reclaim_stalled`. -/
def minIdleMs : Nat := 60000

/-- `count` of `reclaim_stalled`. -/
def reclaimCount : Nat := 10

/-- `count` of `consume`. -/
def consumeCount : Nat := 1

/-- Where `run_forever` stands. -/
inductive Loop (J : Type)
  /-- The replica does not run. -/
  | down
  /-- `reclaim_stalled` is next. -/
  | top
  /-- `consume` is next. -/
  | reading
  /-- `handle` is next, for the first of the jobs. -/
  | handling (entry : Nat) (job : J) (rest : List (Nat × J))
  /-- The job has been handled: `ack` is next. -/
  | acking (entry : Nat) (job : J) (rest : List (Nat × J))
  /-- `handle` or `ack` has raised: the `XADD` of `dead_letter` is next. -/
  | burying (entry : Nat) (job : J) (rest : List (Nat × J))
  /-- The `ack` of `dead_letter` is next. -/
  | buried (entry : Nat) (rest : List (Nat × J))

/-- The replicas, the job stream and the stream of dead letters. -/
structure Replicated (C J : Type) where
  stream : Stream C J := {}
  dead : List (Nat × J) := []
  loops : C → Loop J := fun _ => .down
  /-- The clock of Redis, in milliseconds. -/
  now : Nat := 0

/-- What happens next.  `ok` says whether a call returns or raises. -/
inductive WorkerAction (C J : Type)
  | enqueue (job : J)
  | elapse (ms : Nat)
  | start (w : C)
  | crash (w : C)
  | reclaim (w : C) (ok : Bool)
  | consume (w : C)
  | handle (w : C) (ok : Bool)
  | ack (w : C) (ok : Bool)
  | deadLetter (w : C)

/-- What can be seen of a worker. -/
inductive WorkerEvent (C : Type)
  /-- An iteration begins. -/
  | began (w : C)
  | reassigned (w : C) (entry : Nat)
  | delivered (w : C) (entry : Nat)
  | handled (w : C) (entry : Nat)
  /-- The entry has been acked, by itself or in `dead_letter`. -/
  | acked (w : C) (entry : Nat)
  /-- The iteration has come to its end. -/
  | ended (w : C)
  deriving DecidableEq, Repr

/-- The `for` loop goes on with the rest of the jobs. -/
def Loop.next : List (Nat × J) → Loop J
  | [] => .top
  | (entry, job) :: rest => .handling entry job rest

/-- When the `for` loop has come to its end, so has the iteration. -/
def endOf (w : C) (rest : List (Nat × J)) : List (WorkerEvent C) :=
  if rest.isEmpty then [.ended w] else []

theorem mem_endOf {w : C} {rest : List (Nat × J)} {e : WorkerEvent C} (h : e ∈ endOf w rest) :
    e = .ended w := by
  unfold endOf at h
  split at h
  · exact List.mem_singleton.mp h
  · cases h

theorem rest_of_ended {w : C} {rest : List (Nat × J)}
    (h : (.ended w : WorkerEvent C) ∈ endOf w rest) : rest = [] := by
  unfold endOf at h
  split at h
  · rename_i hempty
    exact List.isEmpty_iff.mp hempty
  · cases h

namespace Replicated

variable [DecidableEq C] (s : Replicated C J)

/-- A worker goes on. -/
def goto (w : C) (loop : Loop J) : Replicated C J :=
  { s with loops := Function.update s.loops w loop }

/-- The stream changes. -/
def onStream (stream : Stream C J) : Replicated C J := { s with stream }

/-- One step: an enqueued job, time, or one await of one worker. -/
def step (s : Replicated C J) :
    WorkerAction C J → Option (Replicated C J × List (WorkerEvent C))
  | .enqueue job => some (s.onStream (s.stream.add job), [])
  | .elapse ms => some ({ s with now := s.now + ms }, [])
  | .start w =>
      match s.loops w with
      | .down => some (s.goto w .top, [])
      | _ => none
  | .crash w => some (s.goto w .down, [])
  | .reclaim w ok =>
      match s.loops w with
      | .top =>
          -- `contextlib.suppress(Exception)`
          if ok then
            let entries := s.stream.claimable minIdleMs reclaimCount s.now
            let stream := s.stream.autoclaim w minIdleMs reclaimCount s.now
            some ((s.onStream stream).goto w .reading, .began w :: entries.map (.reassigned w))
          else some (s.goto w .reading, [.began w])
      | _ => none
  | .consume w =>
      match s.loops w with
      | .reading =>
          let jobs := s.stream.unread consumeCount
          let stream := s.stream.read w consumeCount s.now
          some ((s.onStream stream).goto w (.next jobs),
            jobs.map (fun e => .delivered w e.1) ++ endOf w jobs)
      | _ => none
  | .handle w ok =>
      match s.loops w with
      | .handling entry job rest =>
          some (s.goto w (if ok then .acking entry job rest else .burying entry job rest),
            [.handled w entry])
      | _ => none
  | .ack w ok =>
      match s.loops w with
      | .acking entry job rest =>
          if ok then
            some ((s.onStream (s.stream.ack entry)).goto w (.next rest),
              .acked w entry :: endOf w rest)
          else some (s.goto w (.burying entry job rest), [])
      | .buried entry rest =>
          if ok then
            some ((s.onStream (s.stream.ack entry)).goto w (.next rest),
              .acked w entry :: endOf w rest)
          else some (s.goto w .down, [])
      | _ => none
  | .deadLetter w =>
      match s.loops w with
      | .burying entry job rest =>
          some (({ s with dead := s.dead ++ [(entry, job)] } : Replicated C J).goto w
            (.buried entry rest), [])
      | _ => none

end Replicated

/-! ## What an iteration leaves behind -/

/-- The events since the last iteration of a worker has begun. -/
def iteration [DecidableEq C] (w : C) (es : List (WorkerEvent C)) : List (WorkerEvent C) :=
  (es.reverse.takeWhile (· ≠ .began w)).reverse

/-- The entry has been handled, and acked after that. -/
def HandledAndAcked (w : C) (n : Nat) (es : List (WorkerEvent C)) : Prop :=
  [.handled w n, .acked w n].Sublist es

/-- At the end of an iteration nothing that it has been given is pending under its worker's
name: it has all been handled and acked. -/
def LeavesNothing [DecidableEq C] (s : Replicated C J) (es : List (WorkerEvent C)) : Prop :=
  ∀ w, es.getLast? = some (.ended w) → ∀ n,
    .delivered w n ∈ iteration w es ∨ .reassigned w n ∈ iteration w es →
      HandledAndAcked w n (iteration w es) ∧
        ∀ p ∈ s.stream.pending, ¬ (p.entry = n ∧ p.owner = w)

/-- The step is not a call of `reclaim_stalled` that finds a stale entry. -/
def nothingStale (s : Replicated C J) : WorkerAction C J → Bool
  | .reclaim _ true => (s.stream.stale minIdleMs s.now).isEmpty
  | _ => true

section Iteration

variable [DecidableEq C] {w : C} {es fs : List (WorkerEvent C)}

theorem iteration_append (h : .began w ∉ fs) : iteration w (es ++ fs) = iteration w es ++ fs := by
  have hall : ∀ e ∈ fs.reverse, decide (e ≠ .began w) = true := by
    intro e he
    refine decide_eq_true ?_
    rintro rfl
    exact h (List.mem_reverse.mp he)
  rw [iteration, List.reverse_append, List.takeWhile_append_of_pos hall, List.reverse_append,
    List.reverse_reverse, iteration]

theorem iteration_began (h : .began w ∉ fs) : iteration w (es ++ .began w :: fs) = fs := by
  rw [List.append_cons, iteration_append h, iteration, List.reverse_append]
  simp

/-- Of what an iteration has been given, all is done with but what is still to be done. -/
structure Accounts (w : C) (s : Replicated C J) (es : List (WorkerEvent C)) (todo : List Nat) :
    Prop where
  reassigned : ∀ n, .reassigned w n ∉ iteration w es
  delivered : ∀ n, .delivered w n ∈ iteration w es →
    n ∈ todo ∨ HandledAndAcked w n (iteration w es) ∧ s.stream.Gone n
  todo : ∀ n ∈ todo, n < s.stream.delivered

/-- What holds of a worker where it stands. -/
def Loop.Accounted (w : C) (s : Replicated C J) (es : List (WorkerEvent C)) : Loop J → Prop
  | .down | .top => True
  | .reading => Accounts w s es []
  | .handling entry _ rest => Accounts w s es (entry :: rest.map Prod.fst)
  | .acking entry _ rest | .burying entry _ rest | .buried entry rest =>
      Accounts w s es (entry :: rest.map Prod.fst) ∧ .handled w entry ∈ iteration w es

/-- What holds of all workers, whatever has happened. -/
structure Accounted (s : Replicated C J) (es : List (WorkerEvent C)) : Prop where
  loops : ∀ w, (s.loops w).Accounted w s es
  ended : ∀ w, es.getLast? = some (.ended w) → Accounts w s es []

variable {s s' : Replicated C J} {todo : List Nat}

omit [DecidableEq C] in
theorem HandledAndAcked.append {n : Nat} (h : HandledAndAcked w n es)
    (fs : List (WorkerEvent C)) : HandledAndAcked w n (es ++ fs) :=
  h.trans (List.sublist_append_left es fs)

/-- Events that give the worker nothing leave its accounts as they are. -/
theorem Accounts.append (h : Accounts w s es todo) (hs : s.stream.Extends s'.stream)
    (hbegan : .began w ∉ fs) (hreassigned : ∀ n, .reassigned w n ∉ fs)
    (hdelivered : ∀ n, .delivered w n ∉ fs) : Accounts w s' (es ++ fs) todo := by
  constructor
  · intro n hmem
    rw [iteration_append hbegan] at hmem
    exact (List.mem_append.mp hmem).elim (h.reassigned n) (hreassigned n)
  · intro n hmem
    rw [iteration_append hbegan] at hmem ⊢
    rcases List.mem_append.mp hmem with hmem | hmem
    · rcases h.delivered n hmem with htodo | ⟨hdone, hgone⟩
      · exact .inl htodo
      · exact .inr ⟨hdone.append fs, hgone.extends hs⟩
    · exact (hdelivered n hmem).elim
  · exact fun n hn => Nat.lt_of_lt_of_le (h.todo n hn) hs.delivered

/-- A step of which a worker sees nothing. -/
theorem Loop.Accounted.append {loop : Loop J} (h : loop.Accounted w s es)
    (hs : s.stream.Extends s'.stream) (hbegan : .began w ∉ fs)
    (hreassigned : ∀ n, .reassigned w n ∉ fs) (hdelivered : ∀ n, .delivered w n ∉ fs) :
    loop.Accounted w s' (es ++ fs) := by
  have hmem : ∀ {n}, .handled w n ∈ iteration w es → .handled w n ∈ iteration w (es ++ fs) := by
    intro n hn
    rw [iteration_append hbegan]
    exact List.mem_append_left _ hn
  cases loop with
  | down => trivial
  | top => trivial
  | reading => exact Accounts.append h hs hbegan hreassigned hdelivered
  | handling => exact Accounts.append h hs hbegan hreassigned hdelivered
  | acking => exact ⟨Accounts.append h.1 hs hbegan hreassigned hdelivered, hmem h.2⟩
  | burying => exact ⟨Accounts.append h.1 hs hbegan hreassigned hdelivered, hmem h.2⟩
  | buried => exact ⟨Accounts.append h.1 hs hbegan hreassigned hdelivered, hmem h.2⟩

/-- The worker of an event. -/
def WorkerEvent.worker : WorkerEvent C → C
  | began w | reassigned w _ | delivered w _ | handled w _ | acked w _ | ended w => w

/-- **A step of one worker is accounted for if the worker is.** -/
theorem accounted_goto (h : Accounted s es) (hs : s.stream.Extends s'.stream) {loop : Loop J}
    (hloops : s'.loops = Function.update s.loops w loop)
    (hworker : ∀ e ∈ fs, e.worker = w) (hloop : loop.Accounted w s' (es ++ fs))
    (hended : .ended w ∈ fs → Accounts w s' (es ++ fs) []) : Accounted s' (es ++ fs) := by
  have hothers : ∀ {v : C} {e : WorkerEvent C}, v ≠ w → e.worker = v → e ∉ fs := by
    rintro v e hne rfl hmem
    exact hne (hworker e hmem)
  constructor
  · intro v
    rw [hloops]
    by_cases hv : v = w
    · rw [hv, Function.update_self]
      exact hloop
    · rw [Function.update_of_ne hv]
      exact (h.loops v).append hs (hothers hv rfl) (fun _ => hothers hv rfl)
        (fun _ => hothers hv rfl)
  · intro v hlast
    rcases List.eq_nil_or_concat' fs with rfl | ⟨gs, e, rfl⟩
    · rw [List.append_nil] at hlast
      exact (h.ended v hlast).append hs nofun nofun nofun
    · rw [← List.append_assoc, List.getLast?_concat] at hlast
      obtain rfl := Option.some.inj hlast
      have hmem : .ended v ∈ gs ++ [.ended v] := List.mem_append_right _ List.mem_cons_self
      obtain rfl : v = w := hworker _ hmem
      exact hended hmem

/-- A step of no worker. -/
theorem accounted_still (h : Accounted s es) (hs : s.stream.Extends s'.stream)
    (hloops : s'.loops = s.loops) : Accounted s' (es ++ []) := by
  constructor
  · intro w
    rw [hloops]
    exact (h.loops w).append hs nofun nofun nofun
  · intro w hlast
    rw [List.append_nil] at hlast
    exact (h.ended w hlast).append hs nofun nofun nofun

/-- Once an entry has been handled and acked, the rest of the jobs is to be done. -/
theorem Accounts.ack {n : Nat} (h : Accounts w s es (n :: todo))
    (hhandled : .handled w n ∈ iteration w es) (hs' : s'.stream = s.stream.ack n)
    (rest : List (Nat × J)) : Accounts w s' (es ++ .acked w n :: endOf w rest) todo := by
  have hend : ∀ e ∈ endOf w rest, e = .ended w := fun _ => mem_endOf
  have hbegan : (.began w : WorkerEvent C) ∉ .acked w n :: endOf w rest := by
    intro hmem
    rcases List.mem_cons.mp hmem with hmem | hmem
    · cases hmem
    · cases hend _ hmem
  have hacked : Accounts w s' (es ++ .acked w n :: endOf w rest) (n :: todo) :=
    h.append (hs' ▸ Stream.extends_ack n) hbegan
    (fun m hmem => (List.mem_cons.mp hmem).elim nofun fun hmem => nomatch hend _ hmem)
    (fun m hmem => (List.mem_cons.mp hmem).elim nofun fun hmem => nomatch hend _ hmem)
  refine ⟨hacked.reassigned, fun m hmem => ?_,
    fun m hm => hacked.todo m (List.mem_cons_of_mem _ hm)⟩
  rcases hacked.delivered m hmem with htodo | hdone
  · rcases List.mem_cons.mp htodo with rfl | htodo
    · refine .inr ⟨?_, hs' ▸ Stream.gone_ack (h.todo m List.mem_cons_self)⟩
      rw [iteration_append hbegan]
      exact (List.singleton_sublist.mpr hhandled).append
        ((List.nil_sublist _).cons_cons _)
    · exact .inl htodo
  · exact .inr hdone

theorem accounted_next {w : C} {rest : List (Nat × J)}
    (h : Accounts w s es (rest.map Prod.fst)) : (Loop.next rest).Accounted w s es := by
  cases rest with
  | nil => trivial
  | cons e rest => exact h

/-- What `consume` delivers is to be done. -/
theorem Accounts.consume (h : Accounts w s es []) (hs' : s'.stream = s.stream.read w consumeCount
    s.now) : Accounts w s'
      (es ++ ((s.stream.unread consumeCount).map (fun e => .delivered w e.1) ++
        endOf w (s.stream.unread consumeCount)))
      ((s.stream.unread consumeCount).map Prod.fst) := by
  generalize hjobs : s.stream.unread consumeCount = jobs
  have hmem : ∀ e ∈ jobs.map (fun e => WorkerEvent.delivered w e.1) ++ endOf w jobs,
      e = .ended w ∨ ∃ n ∈ jobs.map Prod.fst, e = .delivered w n := by
    intro e he
    rcases List.mem_append.mp he with he | he
    · obtain ⟨job, hjob, rfl⟩ := List.mem_map.mp he
      exact .inr ⟨job.1, List.mem_map_of_mem hjob, rfl⟩
    · exact .inl (mem_endOf he)
  have hbegan : .began w ∉ jobs.map (fun e => WorkerEvent.delivered w e.1) ++ endOf w jobs := by
    intro he
    rcases hmem _ he with he | ⟨n, -, he⟩ <;> cases he
  have hextends : s.stream.Extends s'.stream := hs' ▸ Stream.extends_read ..
  constructor
  · intro n he
    rw [iteration_append hbegan] at he
    rcases List.mem_append.mp he with he | he
    · exact h.reassigned n he
    · rcases hmem _ he with he | ⟨m, -, he⟩ <;> cases he
  · intro n he
    rw [iteration_append hbegan] at he ⊢
    rcases List.mem_append.mp he with he | he
    · rcases h.delivered n he with hnone | ⟨hdone, hgone⟩
      · cases hnone
      · exact .inr ⟨hdone.append _, hgone.extends hextends⟩
    · rcases hmem _ he with he | ⟨m, hm, he⟩
      · cases he
      · cases he
        exact .inl hm
  · intro n hn
    obtain ⟨job, hjob, rfl⟩ := List.mem_map.mp hn
    rw [hs']
    exact Stream.lt_delivered_read _ _ _ (hjobs ▸ hjob)

/-- **Every step is accounted for, if it does not reassign anything.** -/
theorem accounted_step {a : WorkerAction C J} (h : Accounted s es)
    (hstep : s.step a = some (s', fs)) (ok : nothingStale s a = true) :
    Accounted s' (es ++ fs) := by
  have still := Stream.Extends.refl s.stream
  have next : ∀ {w : C} {entry : Nat} {rest : List (Nat × J)},
      Accounts w s es (entry :: rest.map Prod.fst) ∧ .handled w entry ∈ iteration w es →
      Accounted ((s.onStream (s.stream.ack entry)).goto w (.next rest))
        (es ++ .acked w entry :: endOf w rest) := by
    intro w entry rest ⟨hw, hhandled⟩
    have hacked : Accounts w ((s.onStream (s.stream.ack entry)).goto w (.next rest)) _ _ :=
      hw.ack hhandled rfl rest
    refine accounted_goto h (Stream.extends_ack entry) rfl ?_ (accounted_next hacked) ?_
    · intro e he
      rcases List.mem_cons.mp he with rfl | he
      · rfl
      · rw [mem_endOf he]
        rfl
    · intro he
      have hend : .ended w ∈ endOf w rest := by simpa using he
      rw [rest_of_ended hend] at hacked ⊢
      exact hacked
  cases a with
  | enqueue job =>
    cases hstep
    exact accounted_still h (Stream.extends_add job) rfl
  | elapse ms =>
    cases hstep
    exact accounted_still h still rfl
  | start w =>
    rw [Replicated.step] at hstep
    split at hstep
    · cases hstep
      exact accounted_goto h still rfl nofun trivial nofun
    · cases hstep
  | crash w =>
    cases hstep
    exact accounted_goto h still rfl nofun trivial nofun
  | reclaim w returns =>
    rw [Replicated.step] at hstep
    split at hstep
    · -- the accounts of an iteration that has just begun are empty
      have fresh : ∀ s' : Replicated C J, Accounts w s' (es ++ [.began w]) [] := by
        intro s'
        have hnew : iteration w (es ++ [.began w]) = [] := iteration_began nofun
        refine ⟨fun n => ?_, fun n he => ?_, nofun⟩
        · rw [hnew]
          nofun
        · rw [hnew] at he
          cases he
      split at hstep
      · rename_i hreturns
        rw [hreturns] at ok
        rw [Stream.claimable_eq_nil ok] at hstep
        cases hstep
        refine accounted_goto h (Stream.extends_autoclaim ..) rfl ?_ (fresh _) (fun _ => fresh _)
        simp [WorkerEvent.worker]
      · cases hstep
        exact accounted_goto h still rfl (by simp [WorkerEvent.worker]) (fresh _) (fun _ => fresh _)
    · cases hstep
  | consume w =>
    rw [Replicated.step] at hstep
    split at hstep
    · rename_i hloop
      cases hstep
      have hw := h.loops w
      rw [hloop] at hw
      have hconsumed : Accounts w ((s.onStream (s.stream.read w consumeCount s.now)).goto w
          (.next (s.stream.unread consumeCount))) _ _ := Accounts.consume hw rfl
      refine accounted_goto h (Stream.extends_read ..) rfl ?_ (accounted_next hconsumed) ?_
      · intro e he
        rcases List.mem_append.mp he with he | he
        · obtain ⟨job, -, rfl⟩ := List.mem_map.mp he
          rfl
        · rw [mem_endOf he]
          rfl
      · intro he
        have hend : .ended w ∈ endOf w (s.stream.unread consumeCount) := by simpa using he
        rw [rest_of_ended hend] at hconsumed ⊢
        exact hconsumed
    · cases hstep
  | handle w returns =>
    rw [Replicated.step] at hstep
    split at hstep
    · rename_i entry job rest hloop
      cases hstep
      have hw := h.loops w
      rw [hloop] at hw
      have hquiet : ∀ s' : Replicated C J, s.stream.Extends s'.stream →
          Accounts w s' (es ++ [.handled w entry]) (entry :: rest.map Prod.fst) ∧
            .handled w entry ∈ iteration w (es ++ [.handled w entry]) := by
        intro s' hs
        refine ⟨hw.append hs (by simp) (by simp) (by simp), ?_⟩
        rw [iteration_append (by simp)]
        exact List.mem_append_right _ List.mem_cons_self
      refine accounted_goto h still rfl (by simp [WorkerEvent.worker]) ?_ (by simp)
      cases returns with
      | true => exact hquiet _ still
      | false => exact hquiet _ still
    · cases hstep
  | ack w returns =>
    rw [Replicated.step] at hstep
    split at hstep
    · rename_i entry job rest hloop
      have hw := h.loops w
      rw [hloop] at hw
      split at hstep
      · cases hstep
        exact next hw
      · cases hstep
        refine accounted_goto h still rfl nofun ?_ nofun
        exact ⟨hw.1.append still nofun nofun nofun, by simpa using hw.2⟩
    · rename_i entry rest hloop
      have hw := h.loops w
      rw [hloop] at hw
      split at hstep
      · cases hstep
        exact next hw
      · cases hstep
        exact accounted_goto h still rfl nofun trivial nofun
    · cases hstep
  | deadLetter w =>
    rw [Replicated.step] at hstep
    split at hstep
    · rename_i entry job rest hloop
      cases hstep
      have hw := h.loops w
      rw [hloop] at hw
      refine accounted_goto h still rfl nofun ?_ nofun
      exact ⟨hw.1.append still nofun nofun nofun, by simpa using hw.2⟩
    · cases hstep

/-- **In every run in which no call of `reclaim_stalled` finds a stale entry, every iteration
leaves nothing behind.** -/
theorem iteration_leaves_nothing {s₀ : Replicated C J} (hdown : ∀ w, s₀.loops w = .down)
    {as : List (WorkerAction C J)}
    (h : Run (Computes (restrict nothingStale Replicated.step)) s₀ as s es) :
    LeavesNothing s es := by
  have haccounted : Accounted s es := by
    refine h.invariant_restrict (I := Accounted) ⟨fun w => ?_, fun w hlast => ?_⟩ accounted_step
    · rw [hdown w]
      trivial
    · cases hlast
  intro w hlast n hgiven
  have hw := haccounted.ended w hlast
  rcases hgiven with hdelivered | hreassigned
  · rcases hw.delivered n hdelivered with hnone | ⟨hdone, hgone⟩
    · cases hnone
    · exact ⟨hdone, fun p hp hmine => hgone.2 p hp hmine.1⟩
  · exact (hw.reassigned n hreassigned).elim

end Iteration

/-- A worker handles a job and ends its iteration. -/
theorem handled_job_left_behind_by_nobody :
    ∃ (s : Replicated Bool Unit) (es : List (WorkerEvent Bool)),
      Run (Computes (restrict nothingStale Replicated.step)) {}
        [.enqueue (), .start true, .reclaim true true, .consume true, .handle true true,
          .ack true true] s es ∧
      .delivered true 0 ∈ iteration true es ∧ es.getLast? = some (.ended true) ∧
      LeavesNothing s es := by
  obtain ⟨s, es, h, hp⟩ := exists_run_of_play (restrict nothingStale Replicated.step)
    ({} : Replicated Bool Unit)
    [.enqueue (), .start true, .reclaim true true, .consume true, .handle true true,
      .ack true true]
    (fun _ es => .delivered true 0 ∈ iteration true es ∧ es.getLast? = some (.ended true))
    (by decide)
  obtain ⟨hdelivered, hlast⟩ := of_decide_eq_true hp
  exact ⟨s, es, h, hdelivered, hlast, iteration_leaves_nothing (fun _ => rfl) h⟩

/-- A job that a crashed worker had is reassigned to another one, which does not handle it. -/
theorem reassigned_job_left_behind :
    ∃ (s : Replicated Bool Unit) (es : List (WorkerEvent Bool)),
      Run (Computes Replicated.step) {}
        [.enqueue (), .start true, .reclaim true true, .consume true, .crash true,
          .elapse 60000, .start false, .reclaim false true, .consume false] s es ∧
      ¬ LeavesNothing s es := by
  obtain ⟨s, es, h, hp⟩ := exists_run_of_play Replicated.step ({} : Replicated Bool Unit)
    [.enqueue (), .start true, .reclaim true true, .consume true, .crash true,
      .elapse 60000, .start false, .reclaim false true, .consume false]
    (fun s es => es.getLast? = some (.ended false) ∧ .reassigned false 0 ∈ iteration false es ∧
      ⟨0, false, 60000⟩ ∈ s.stream.pending)
    (by decide)
  obtain ⟨hlast, hreassigned, hpending⟩ := of_decide_eq_true hp
  refine ⟨s, es, h, fun hnothing => ?_⟩
  exact (hnothing false hlast 0 (.inr hreassigned)).2 _ hpending ⟨rfl, rfl⟩

end OmniCare
