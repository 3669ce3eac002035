import OmniCare.ClaimsFile
import OmniCare.Disk
import OmniCare.Runs

/-! # Replicas on one claims volume

`JsonFileClaimsRepo` of `libs/adapters/claims_json.py` in any number of worker replicas that
share one claims file, step by step: `append` under its two locks, the reads of `get` and
`list_ids`, and `seed_claims` of `agent/app/worker.py`, with which a replica starts.  A text is
read and written in pieces.  A replica may crash between any two steps, an append may fail at
each of them, and the task that waits for an append may be cancelled while its thread goes on.

An append reads the whole file, writes the whole file to a temporary name and gives it the name
of the claims file in one step.  The file lock is held from the first of these steps to the
last, so a temporary file belongs to one append at a time (`Orderly`), and what that append has
read is still in the file when it replaces it (`Settled`).  Both hold after any number of steps
of any replicas, from a file that holds claims.
-/
namespace OmniCare

/-! ## The volume -/

/-- The files of `JsonFileClaimsRepo`. -/
inductive FileName
  /-- `self.path`. -/
  | target
  /-- `self.path.with_suffix(".json.tmp")`. -/
  | temporary
  deriving DecidableEq, Repr

/-- Where `append` stands. -/
inductive Appending
  /-- The lock of the process is next. -/
  | waiting
  /-- The file lock is next. -/
  | queued
  /-- `_read` is next. -/
  | locked
  /-- The claims file is open. -/
  | reading (file : Nat) (got : Text)
  /-- `_read` has returned. -/
  | found (claims : List Claim)
  /-- The temporary file is open; when all is written, `os.replace` is next. -/
  | writing (claim : Claim) (file : Nat) (rest : Text)
  /-- `_append_sync` returns or raises (`none`): the file lock is released next. -/
  | leaving (result : Option Claim)
  /-- The lock of the process is released next. -/
  | finished (result : Option Claim)
  | closed

/-- Whether the file lock is held. -/
def Appending.holdsLock : Appending → Bool
  | locked | reading .. | found _ | writing .. | leaving _ => true
  | waiting | queued | finished _ | closed => false

/-- A call of `append`. -/
structure AppendCall where
  /-- The replica that runs it. -/
  replica : Nat
  args : SubmitClaimArgs
  phase : Appending := .waiting
  /-- The task has been cancelled. -/
  abandoned : Bool := false

/-- Where a replica stands. -/
inductive Startup
  | down
  /-- `target.exists()` is next. -/
  | starting
  /-- The file did not exist: opening it is next. -/
  | absent
  /-- The seed is written to the file that has been opened. -/
  | seeding (file : Nat) (rest : Text)
  | up
  deriving DecidableEq

/-- A worker replica. -/
structure Replica where
  startup : Startup := .down
  /-- The append that holds the `asyncio.Lock`. -/
  holder : Option Nat := none

/-- A `_read` of `get` or `list_ids`. -/
structure Reading where
  replica : Nat
  file : Nat
  got : Text

/-- The claims volume and the replicas that share it. -/
structure Volume where
  disk : Disk FileName Char := {}
  replicas : List Replica := []
  /-- The append that holds the file lock. -/
  lock : Option Nat := none
  appends : List AppendCall := []
  /-- `none` is a read that is over. -/
  readings : List (Option Reading) := []

/-- What happens next.  `size` is how much is read or written at once. -/
inductive VolumeAction
  | start (replica : Nat)
  | seed (replica size : Nat)
  | crash (replica : Nat)
  | call (replica : Nat) (args : SubmitClaimArgs)
  | proceed (append size : Nat)
  /-- The file lock is not acquired in time, or the file system raises an error. -/
  | fault (append : Nat)
  | cancel (append : Nat)
  | look (replica : Nat)
  | read (reading size : Nat)

/-- What can be seen of the claims volume. -/
inductive VolumeEvent
  /-- `os.replace` has put the claim of an append into the file. -/
  | replaced (append : Nat) (claim : Claim)
  | returned (append : Nat) (claim : Claim)
  | failed (append : Nat)
  /-- What a read comes to; `none` is an exception. -/
  | observed (claims : Option (List Claim))
  deriving DecidableEq

/-- How an append ends for its caller. -/
def VolumeEvent.ending (append : Nat) : Option Claim → VolumeEvent
  | some claim => .returned append claim
  | none => .failed append

namespace Volume

variable (v : Volume)

/-- `_read` of the claims file; `none` is an exception. -/
def claims? : Option (List Claim) :=
  match v.disk.text? .target with
  | some text => readClaims text
  | none => some []

/-- A replica goes on. -/
def settle (r : Nat) (x : Replica) (startup : Startup) : Volume :=
  { v with replicas := v.replicas.set r { x with startup } }

/-- An append goes on. -/
def goto (k : Nat) (c : AppendCall) (phase : Appending) : Volume :=
  { v with appends := v.appends.set k { c with phase } }

/-- The lock of a process changes hands. -/
def hold (r : Nat) (holder : Option Nat) : Volume :=
  { v with replicas := v.replicas.modify r fun x => { x with holder } }

/-- The append that holds the file lock, unless a replica is gone. -/
def lockWithout (r : Nat) : Option Nat :=
  v.lock.filter fun k => v.appends[k]?.any (·.replica != r)

/-- A replica crashes: the operating system releases its file lock. -/
def crashed (r : Nat) : Volume where
  disk := v.disk
  replicas := v.replicas.modify r fun _ => {}
  lock := v.lockWithout r
  appends := v.appends.map fun c => if c.replica = r then { c with phase := .closed } else c
  readings := v.readings.map fun x => x.filter (·.replica != r)

/-- `seed_claims`. -/
def seedClaims (seed : Text) (size r : Nat) (x : Replica) : Option Volume :=
  match x.startup with
  | .starting =>
      match v.disk.dir .target with
      | some _ => some (v.settle r x .up)
      | none => some (v.settle r x .absent)
  | .absent =>
      let file := v.disk.opened .target
      some { v.settle r x (.seeding file seed) with disk := v.disk.truncate .target }
  | .seeding _ [] => some (v.settle r x .up)
  | .seeding file rest =>
      some { v.settle r x (.seeding file (rest.drop size)) with
        disk := v.disk.write file (rest.take size) }
  | .down | .up => none

/-- The next step of `append`. -/
def proceed (size k : Nat) (c : AppendCall) : Option (Volume × List VolumeEvent) :=
  match c.phase with
  | .waiting =>
      if v.replicas[c.replica]?.any (·.holder.isNone) then
        some ((v.goto k c .queued).hold c.replica (some k), [])
      else none
  | .queued =>
      if v.lock.isNone then some ({ v.goto k c .locked with lock := some k }, []) else none
  | .locked =>
      match v.disk.dir .target with
      | some file => some (v.goto k c (.reading file []), [])
      | none => some (v.goto k c (.found []), [])
  | .reading file got =>
      match (v.disk.content file).drop got.length with
      | [] =>
          match readClaims got with
          | some claims => some (v.goto k c (.found claims), [])
          | none => some (v.goto k c (.leaving none), [])
      | more => some (v.goto k c (.reading file (got ++ more.take size)), [])
  | .found claims =>
      match Claim.file (nextId claims) c.args with
      | .ok claim =>
          let file := v.disk.opened .temporary
          some ({ v.goto k c (.writing claim file (writeClaims (claims ++ [claim]))) with
            disk := v.disk.truncate .temporary }, [])
      | .error _ => some (v.goto k c (.leaving none), [])
  | .writing claim _ [] =>
      match v.disk.rename .temporary .target with
      | some disk => some ({ v.goto k c (.leaving (some claim)) with disk }, [.replaced k claim])
      | none => some (v.goto k c (.leaving none), [])
  | .writing claim file rest =>
      some ({ v.goto k c (.writing claim file (rest.drop size)) with
        disk := v.disk.write file (rest.take size) }, [])
  | .leaving result => some ({ v.goto k c (.finished result) with lock := none }, [])
  | .finished result =>
      if c.abandoned then some (v.goto k c .closed, [])
      else some ((v.goto k c .closed).hold c.replica none, [.ending k result])
  | .closed => none

/-- An exception in `_append_sync` before the file is replaced. -/
def fault (k : Nat) (c : AppendCall) : Option Volume :=
  match c.phase with
  | .queued => some (v.goto k c (.finished none))
  | .locked | .reading .. | .found _ | .writing .. => some (v.goto k c (.leaving none))
  | .waiting | .leaving _ | .finished _ | .closed => none

/-- The task of an append is cancelled: it leaves the lock of its process, and the thread of
`asyncio.to_thread` goes on. -/
def cancel (k : Nat) (c : AppendCall) : Option Volume :=
  match c.phase with
  | .waiting => some (v.goto k c .closed)
  | .closed => none
  | _ =>
      if c.abandoned then none
      else
        some ({ v with appends := v.appends.set k { c with abandoned := true } }.hold
          c.replica none)

/-- The next step of a read. -/
def readOn (size j : Nat) (x : Reading) : Volume × List VolumeEvent :=
  match (v.disk.content x.file).drop x.got.length with
  | [] => ({ v with readings := v.readings.set j none }, [.observed (readClaims x.got)])
  | more =>
      ({ v with readings := v.readings.set j (some { x with got := x.got ++ more.take size }) }, [])

/-- One step of one replica.  `seed` is the fixture that `seed_claims` copies. -/
def step (seed : Text) (v : Volume) : VolumeAction → Option (Volume × List VolumeEvent)
  | .start r => do
      let x ← v.replicas[r]?
      if x.startup = .down then some (v.settle r x .starting, []) else none
  | .seed r size => do
      let x ← v.replicas[r]?
      (v.seedClaims seed size r x).map (·, [])
  | .crash r => some (v.crashed r, [])
  | .call r args =>
      if v.replicas[r]?.any (·.startup = .up) then
        some ({ v with appends := v.appends ++ [{ replica := r, args }] }, [])
      else none
  | .proceed k size => do v.proceed size k (← v.appends[k]?)
  | .fault k => do (v.fault k (← v.appends[k]?)).map (·, [])
  | .cancel k => do (v.cancel k (← v.appends[k]?)).map (·, [])
  | .look r =>
      if v.replicas[r]?.any (·.startup = .up) then
        match v.disk.dir .target with
        | some file => some ({ v with readings := v.readings ++ [some ⟨r, file, []⟩] }, [])
        | none => some (v, [.observed (some [])])
      else none
  | .read j size => do
      let x ← (← v.readings[j]?)
      some (v.readOn size j x)

/-! ## What a step can do -/

variable {v : Volume}

/-- The steps, one by one. -/
inductive Move (seed : Text) (v : Volume) : Volume → List VolumeEvent → Prop
  | start {r : Nat} {x : Replica} (here : v.replicas[r]? = some x) :
      Move seed v (v.settle r x .starting) []
  | found {r : Nat} {x : Replica} (here : v.replicas[r]? = some x) :
      Move seed v (v.settle r x .up) []
  | missed {r : Nat} {x : Replica} (here : v.replicas[r]? = some x)
      (missing : v.disk.dir .target = none) : Move seed v (v.settle r x .absent) []
  | seedOpened {r : Nat} {x : Replica} (here : v.replicas[r]? = some x)
      (absent : x.startup = .absent) :
      Move seed v { v.settle r x (.seeding (v.disk.opened .target) seed) with
        disk := v.disk.truncate .target } []
  | seeded {r : Nat} {x : Replica} {file : Nat} {rest : Text} (size : Nat)
      (here : v.replicas[r]? = some x) (seeding : x.startup = .seeding file rest) :
      Move seed v { v.settle r x (.seeding file (rest.drop size)) with
        disk := v.disk.write file (rest.take size) } []
  | crash (r : Nat) : Move seed v (v.crashed r) []
  | call (r : Nat) (args : SubmitClaimArgs) :
      Move seed v { v with appends := v.appends ++ [{ replica := r, args }] } []
  | queue {k : Nat} {c : AppendCall} (here : v.appends[k]? = some c)
      (waiting : c.phase = .waiting) :
      Move seed v ((v.goto k c .queued).hold c.replica (some k)) []
  | acquire {k : Nat} {c : AppendCall} (here : v.appends[k]? = some c) (queued : c.phase = .queued)
      (free : v.lock = none) : Move seed v { v.goto k c .locked with lock := some k } []
  | opened {k file : Nat} {c : AppendCall} (here : v.appends[k]? = some c)
      (locked : c.phase = .locked) (there : v.disk.dir .target = some file) :
      Move seed v (v.goto k c (.reading file [])) []
  | nothing {k : Nat} {c : AppendCall} (here : v.appends[k]? = some c) (locked : c.phase = .locked)
      (missing : v.disk.dir .target = none) : Move seed v (v.goto k c (.found [])) []
  | read {k file : Nat} {c : AppendCall} {got piece : Text} (here : v.appends[k]? = some c)
      (reading : c.phase = .reading file got)
      (more : piece <+: (v.disk.content file).drop got.length) :
      Move seed v (v.goto k c (.reading file (got ++ piece))) []
  | parsed {k file : Nat} {c : AppendCall} {got : Text} {claims : List Claim}
      (here : v.appends[k]? = some c) (reading : c.phase = .reading file got)
      (all : (v.disk.content file).drop got.length = []) (read : readClaims got = some claims) :
      Move seed v (v.goto k c (.found claims)) []
  | drafted {k : Nat} {c : AppendCall} {claims : List Claim} {claim : Claim}
      (here : v.appends[k]? = some c) (found : c.phase = .found claims)
      (file : Claim.file (nextId claims) c.args = .ok claim) :
      Move seed v { v.goto k c
          (.writing claim (v.disk.opened .temporary) (writeClaims (claims ++ [claim]))) with
        disk := v.disk.truncate .temporary } []
  | written {k file : Nat} {c : AppendCall} {claim : Claim} {rest : Text} (size : Nat)
      (here : v.appends[k]? = some c) (writing : c.phase = .writing claim file rest) :
      Move seed v { v.goto k c (.writing claim file (rest.drop size)) with
        disk := v.disk.write file (rest.take size) } []
  | replaced {k file : Nat} {c : AppendCall} {claim : Claim} {disk : Disk FileName Char}
      (here : v.appends[k]? = some c) (writing : c.phase = .writing claim file [])
      (renamed : v.disk.rename .temporary .target = some disk) :
      Move seed v { v.goto k c (.leaving (some claim)) with disk } [.replaced k claim]
  | raised {k : Nat} {c : AppendCall} (here : v.appends[k]? = some c)
      (holds : c.phase.holdsLock = true) (inside : ∀ result, c.phase ≠ .leaving result) :
      Move seed v (v.goto k c (.leaving none)) []
  | refused {k : Nat} {c : AppendCall} (here : v.appends[k]? = some c)
      (queued : c.phase = .queued) : Move seed v (v.goto k c (.finished none)) []
  | released {k : Nat} {c : AppendCall} {result : Option Claim} (here : v.appends[k]? = some c)
      (leaving : c.phase = .leaving result) :
      Move seed v { v.goto k c (.finished result) with lock := none } []
  | ended {k : Nat} {c : AppendCall} {result : Option Claim} (here : v.appends[k]? = some c)
      (finished : c.phase = .finished result) :
      Move seed v ((v.goto k c .closed).hold c.replica none) [.ending k result]
  | dropped {k : Nat} {c : AppendCall} (here : v.appends[k]? = some c)
      (outside : c.phase.holdsLock = false) : Move seed v (v.goto k c .closed) []
  | cancelled {k : Nat} {c : AppendCall} (here : v.appends[k]? = some c) :
      Move seed v
        ({ v with appends := v.appends.set k { c with abandoned := true } }.hold c.replica none) []
  | looked {r file : Nat} (there : v.disk.dir .target = some file) :
      Move seed v { v with readings := v.readings ++ [some ⟨r, file, []⟩] } []
  | lookedInVain (missing : v.disk.dir .target = none) : Move seed v v [.observed (some [])]
  | readOn {j : Nat} {x : Reading} {piece : Text} (here : v.readings[j]? = some (some x))
      (more : piece <+: (v.disk.content x.file).drop x.got.length) :
      Move seed v
        { v with readings := v.readings.set j (some { x with got := x.got ++ piece }) } []
  | observed {j : Nat} {x : Reading} (here : v.readings[j]? = some (some x))
      (all : (v.disk.content x.file).drop x.got.length = []) :
      Move seed v { v with readings := v.readings.set j none } [.observed (readClaims x.got)]

theorem move_of_proceed {seed : Text} {size k : Nat} {c : AppendCall} {w : Volume}
    {es : List VolumeEvent} (here : v.appends[k]? = some c)
    (h : v.proceed size k c = some (w, es)) : Move seed v w es := by
  unfold proceed at h
  split at h
  · rename_i waiting
    split at h
    · cases h
      exact .queue here waiting
    · cases h
  · rename_i queued
    split at h
    · rename_i free
      cases h
      exact .acquire here queued (Option.isNone_iff_eq_none.mp free)
    · cases h
  · rename_i locked
    split at h
    · rename_i there
      cases h
      exact .opened here locked there
    · rename_i missing
      cases h
      exact .nothing here locked missing
  · rename_i reading
    split at h
    · rename_i all
      split at h
      · rename_i read
        cases h
        exact .parsed here reading all read
      · cases h
        exact .raised here (by rw [reading]; rfl) (by rw [reading]; rintro _ ⟨⟩)
    · cases h
      exact .read here reading (List.take_prefix ..)
  · rename_i found
    split at h
    · rename_i file
      cases h
      exact .drafted here found file
    · cases h
      exact .raised here (by rw [found]; rfl) (by rw [found]; rintro _ ⟨⟩)
  · rename_i writing
    split at h
    · rename_i renamed
      cases h
      exact .replaced here writing renamed
    · cases h
      exact .raised here (by rw [writing]; rfl) (by rw [writing]; rintro _ ⟨⟩)
  · rename_i writing
    cases h
    exact .written size here writing
  · rename_i leaving
    cases h
    exact .released here leaving
  · rename_i finished
    split at h
    · cases h
      exact .dropped here (by rw [finished]; rfl)
    · cases h
      exact .ended here finished
  · cases h

theorem move_of_seedClaims {seed : Text} {size r : Nat} {x : Replica} {w : Volume}
    (here : v.replicas[r]? = some x) (h : v.seedClaims seed size r x = some w) :
    Move seed v w [] := by
  unfold seedClaims at h
  split at h
  · split at h
    · cases h
      exact .found here
    · rename_i missing
      cases h
      exact .missed here missing
  · rename_i absent
    cases h
    exact .seedOpened here absent
  · cases h
    exact .found here
  · rename_i seeding
    cases h
    exact .seeded size here seeding
  · cases h
  · cases h

theorem move_of_fault {seed : Text} {k : Nat} {c : AppendCall} {w : Volume}
    (here : v.appends[k]? = some c) (h : v.fault k c = some w) : Move seed v w [] := by
  unfold fault at h
  split at h <;> rename_i phase <;> cases h
  · exact .refused here phase
  all_goals exact .raised here (by rw [phase]; rfl) (by rw [phase]; rintro _ ⟨⟩)

theorem move_of_cancel {seed : Text} {k : Nat} {c : AppendCall} {w : Volume}
    (here : v.appends[k]? = some c) (h : v.cancel k c = some w) : Move seed v w [] := by
  unfold cancel at h
  split at h
  · rename_i waiting
    cases h
    exact .dropped here (by rw [waiting]; rfl)
  · cases h
  · split at h
    · cases h
    · cases h
      exact .cancelled here

theorem move_of_readOn (seed : Text) (size : Nat) {j : Nat} {x : Reading}
    (here : v.readings[j]? = some (some x)) :
    Move seed v (v.readOn size j x).1 (v.readOn size j x).2 := by
  unfold readOn
  split
  · rename_i all
    exact .observed here all
  · exact .readOn here (List.take_prefix ..)

/-- **Every step is one of these.** -/
theorem move_of_step {seed : Text} {a : VolumeAction} {w : Volume} {es : List VolumeEvent}
    (h : v.step seed a = some (w, es)) : Move seed v w es := by
  have mapped : ∀ {o : Option Volume}, o.map (·, ([] : List VolumeEvent)) = some (w, es) →
      o = some w ∧ es = [] := by
    intro o ho
    obtain ⟨u, hu, heq⟩ := Option.map_eq_some_iff.mp ho
    cases heq
    exact ⟨hu, rfl⟩
  cases a with
  | start r =>
    obtain ⟨x, here, h⟩ := Option.bind_eq_some_iff.mp h
    split at h
    · cases h
      exact .start here
    · cases h
  | seed r size =>
    obtain ⟨x, here, h⟩ := Option.bind_eq_some_iff.mp h
    obtain ⟨hw, rfl⟩ := mapped h
    exact move_of_seedClaims here hw
  | crash r =>
    cases h
    exact .crash r
  | call r args =>
    rw [step] at h
    split at h
    · cases h
      exact .call r args
    · cases h
  | proceed k size =>
    obtain ⟨c, here, h⟩ := Option.bind_eq_some_iff.mp h
    exact move_of_proceed here h
  | fault k =>
    obtain ⟨c, here, h⟩ := Option.bind_eq_some_iff.mp h
    obtain ⟨hw, rfl⟩ := mapped h
    exact move_of_fault here hw
  | cancel k =>
    obtain ⟨c, here, h⟩ := Option.bind_eq_some_iff.mp h
    obtain ⟨hw, rfl⟩ := mapped h
    exact move_of_cancel here hw
  | look r =>
    rw [step] at h
    split at h
    · split at h
      · rename_i there
        cases h
        exact .looked there
      · rename_i missing
        cases h
        exact .lookedInVain missing
    · cases h
  | read j size =>
    obtain ⟨o, ho, h⟩ := Option.bind_eq_some_iff.mp h
    obtain ⟨x, rfl, h⟩ := Option.bind_eq_some_iff.mp h
    have hmove := move_of_readOn seed size ho
    rwa [Option.some.inj h] at hmove

/-! ## Who writes which file -/

/-- A replica writes the seed to a file. -/
def Seeds (v : Volume) (file : Nat) : Prop :=
  ∃ (r : Nat) (x : Replica) (rest : Text), v.replicas[r]? = some x ∧ x.startup = .seeding file rest

/-- A replica stands between its existence test, which the file failed, and opening it. -/
def Misses (v : Volume) : Prop :=
  ∃ (r : Nat) (x : Replica), v.replicas[r]? = some x ∧ x.startup = .absent

/-- What holds of an append in a list still holds when another one changes. -/
theorem get_set {α : Type} {l : List α} {k j : Nat} {a b : α} (h : (l.set k a)[j]? = some b) :
    j = k ∧ b = a ∨ j ≠ k ∧ l[j]? = some b := by
  rw [List.getElem?_set] at h
  split at h
  · rename_i hkj
    split at h
    · cases h
      exact .inl ⟨hkj.symm, rfl⟩
    · cases h
  · rename_i hkj
    exact .inr ⟨Ne.symm hkj, h⟩

theorem get_modify {α : Type} {l : List α} {r j : Nat} {f : α → α} {b : α}
    (h : (l.modify r f)[j]? = some b) : ∃ a, l[j]? = some a ∧ (b = a ∨ b = f a) := by
  rw [List.getElem?_modify] at h
  obtain ⟨a, ha, hb⟩ := Option.map_eq_some_iff.mp h
  refine ⟨a, ha, ?_⟩
  split at hb
  · exact .inr hb.symm
  · exact .inl hb.symm

theorem startup_of_settle {r j : Nat} {x y : Replica} {startup : Startup}
    (h : (v.settle r x startup).replicas[j]? = some y) :
    y.startup = startup ∨ v.replicas[j]? = some y := by
  rcases get_set h with ⟨-, rfl⟩ | ⟨-, h⟩
  · exact .inl rfl
  · exact .inr h

theorem startup_of_hold {r j : Nat} {holder : Option Nat} {y : Replica}
    (h : (v.hold r holder).replicas[j]? = some y) :
    ∃ x, v.replicas[j]? = some x ∧ y.startup = x.startup := by
  obtain ⟨x, hx, rfl | rfl⟩ := get_modify h
  · exact ⟨_, hx, rfl⟩
  · exact ⟨x, hx, rfl⟩

theorem startup_of_crashed {r j : Nat} {y : Replica} (h : (v.crashed r).replicas[j]? = some y) :
    y.startup = .down ∨ v.replicas[j]? = some y := by
  obtain ⟨x, hx, rfl | rfl⟩ := get_modify h
  · exact .inr hx
  · exact .inl rfl

/-- **A replica begins to write a file only when it opens the claims file after it has missed
it.** -/
theorem Move.seeds {seed : Text} {w : Volume} {es : List VolumeEvent} (h : Move seed v w es)
    {file : Nat} (hw : w.Seeds file) :
    v.Seeds file ∨
      v.Misses ∧ file = v.disk.opened .target ∧ w.disk = v.disk.truncate .target := by
  obtain ⟨r, y, rest, hy, hseeding⟩ := hw
  have same : ∀ {x : Replica}, v.replicas[r]? = some x → y.startup = x.startup → v.Seeds file :=
    fun hx heq => ⟨r, _, rest, hx, heq.symm.trans hseeding⟩
  cases h with
  | start | found | missed =>
    rcases startup_of_settle hy with heq | hy
    · rw [hseeding] at heq
      cases heq
    · exact .inl (same hy rfl)
  | seedOpened here absent =>
    rcases startup_of_settle hy with heq | hy
    · rw [hseeding] at heq
      cases heq
      exact .inr ⟨⟨_, _, here, absent⟩, rfl, rfl⟩
    · exact .inl (same hy rfl)
  | seeded size here seeding =>
    rcases startup_of_settle hy with heq | hy
    · rw [hseeding] at heq
      cases heq
      exact .inl ⟨_, _, _, here, seeding⟩
    · exact .inl (same hy rfl)
  | crash =>
    rcases startup_of_crashed hy with heq | hy
    · rw [hseeding] at heq
      cases heq
    · exact .inl (same hy rfl)
  | queue | ended | cancelled =>
    obtain ⟨x, hx, heq⟩ := startup_of_hold hy
    exact .inl (same hx heq)
  | _ => exact .inl (same hy rfl)

/-- What a step does to the files. -/
inductive Touches (v : Volume) : Disk FileName Char → Prop
  | nothing : Touches v v.disk
  | seedOpened (missed : v.Misses) : Touches v (v.disk.truncate .target)
  | seeded {file : Nat} (seeds : v.Seeds file) (piece : Text) : Touches v (v.disk.write file piece)
  | drafted : Touches v (v.disk.truncate .temporary)
  | written {k file : Nat} {c : AppendCall} {claim : Claim} {rest : Text}
      (here : v.appends[k]? = some c) (writing : c.phase = .writing claim file rest)
      (piece : Text) : Touches v (v.disk.write file piece)
  | replaced {disk : Disk FileName Char} (renamed : v.disk.rename .temporary .target = some disk) :
      Touches v disk

theorem Move.touches {seed : Text} {w : Volume} {es : List VolumeEvent} (h : Move seed v w es) :
    v.Touches w.disk := by
  cases h with
  | seedOpened here absent => exact .seedOpened ⟨_, _, here, absent⟩
  | seeded size here seeding => exact .seeded ⟨_, _, _, here, seeding⟩ _
  | drafted => exact .drafted
  | written size here writing => exact .written here writing _
  | replaced here writing renamed => exact .replaced renamed
  | _ => exact .nothing

/-- A replica misses the file only when it is not there. -/
theorem Move.misses {seed : Text} {w : Volume} {es : List VolumeEvent} (h : Move seed v w es)
    (hw : w.Misses) : v.Misses ∨ v.disk.dir .target = none := by
  obtain ⟨r, y, hy, habsent⟩ := hw
  have same : ∀ {x : Replica}, v.replicas[r]? = some x → y.startup = x.startup → v.Misses :=
    fun hx heq => ⟨r, _, hx, heq.symm.trans habsent⟩
  cases h with
  | missed here missing => exact .inr missing
  | start | found | seedOpened | seeded =>
    rcases startup_of_settle hy with heq | hy
    · rw [habsent] at heq
      cases heq
    · exact .inl (same hy rfl)
  | crash =>
    rcases startup_of_crashed hy with heq | hy
    · rw [habsent] at heq
      cases heq
    · exact .inl (same hy rfl)
  | queue | ended | cancelled =>
    obtain ⟨x, hx, heq⟩ := startup_of_hold hy
    exact .inl (same hx heq)
  | _ => exact .inl (same hy rfl)

/-! ## One append at a time -/

/-- What an append that writes the temporary file relies on. -/
def Drafts (d : Disk FileName Char) (claim : Claim) (file : Nat) (rest : Text) : Prop :=
  d.dir .temporary = some file ∧ ∃ claims : List Claim,
    d.content file ++ rest = writeClaims (claims ++ [claim]) ∧
      claim.claimId ∉ claims.map Claim.claimId

/-- The file lock has one holder, the temporary file is the one the holder writes, and no
replica writes the seed to it. -/
structure Orderly (v : Volume) : Prop where
  lock : ∀ {k : Nat} {c : AppendCall}, v.appends[k]? = some c → c.phase.holdsLock = true →
    v.lock = some k
  draft : ∀ {k : Nat} {c : AppendCall} {claim : Claim} {file : Nat} {rest : Text},
    v.appends[k]? = some c → c.phase = .writing claim file rest → Drafts v.disk claim file rest
  seeding : ∀ {file : Nat}, v.Seeds file →
    file < v.disk.files.length ∧ v.disk.dir .temporary ≠ some file

/-- While an append holds the file lock, no other one does. -/
theorem Orderly.others (ho : Orderly v) {k j : Nat} {c d : AppendCall}
    (here : v.appends[k]? = some c) (holds : c.phase.holdsLock = true) (hj : j ≠ k)
    (hd : v.appends[j]? = some d) : d.phase.holdsLock = false := by
  rw [Bool.eq_false_iff]
  intro hholds
  have := ho.lock hd hholds
  rw [ho.lock here holds] at this
  exact hj (Option.some.inj this).symm

theorem Touches.length_le {d : Disk FileName Char} (h : v.Touches d) :
    v.disk.files.length ≤ d.files.length := by
  cases h with
  | nothing => exact Nat.le_refl _
  | seedOpened | drafted => exact v.disk.length_le_truncate _
  | seeded | written => exact (v.disk.length_write ..).ge
  | replaced renamed =>
    obtain ⟨i, -, hfiles, -⟩ := v.disk.rename_eq_some renamed
    rw [hfiles]

/-- A file that is there and not temporary does not become temporary. -/
theorem Touches.temporary {d : Disk FileName Char} (h : v.Touches d) {file : Nat}
    (hlt : file < v.disk.files.length) (hne : v.disk.dir .temporary ≠ some file) :
    d.dir .temporary ≠ some file := by
  cases h with
  | nothing | seeded | written => exact hne
  | seedOpened =>
    rw [v.disk.dir_truncate_of_ne (by decide)]
    exact hne
  | drafted =>
    rw [v.disk.dir_truncate_self, Disk.opened]
    intro heq
    cases hdir : v.disk.dir .temporary with
    | some i =>
      rw [hdir] at heq hne
      exact hne heq
    | none =>
      rw [hdir] at heq
      cases heq
      exact Nat.lt_irrefl _ hlt
  | replaced renamed =>
    obtain ⟨i, -, -, hdir⟩ := v.disk.rename_eq_some renamed
    rw [hdir]
    simp

theorem Orderly.seeding_move (ho : Orderly v) {seed : Text} {w : Volume} {es : List VolumeEvent}
    (h : Move seed v w es) {file : Nat} (hw : w.Seeds file) :
    file < w.disk.files.length ∧ w.disk.dir .temporary ≠ some file := by
  rcases h.seeds hw with hv | ⟨-, rfl, hdisk⟩
  · obtain ⟨hlt, hne⟩ := ho.seeding hv
    exact ⟨Nat.lt_of_lt_of_le hlt h.touches.length_le, h.touches.temporary hlt hne⟩
  · rw [hdisk]
    refine ⟨v.disk.opened_lt _, ?_⟩
    rw [v.disk.dir_truncate_of_ne (by decide)]
    exact fun hdir => v.disk.ne_opened (by decide) hdir rfl

/-- A replica that seeds leaves the temporary file alone. -/
theorem Orderly.drafts_seeding (ho : Orderly v) {d : Disk FileName Char} {claim : Claim}
    {file : Nat} {rest : Text} (hd : Drafts v.disk claim file rest)
    (h : d = v.disk ∨ d = v.disk.truncate .target ∨
      ∃ seeded piece, v.Seeds seeded ∧ d = v.disk.write seeded piece) :
    Drafts d claim file rest := by
  obtain ⟨hdir, claims, hcontent, hfresh⟩ := hd
  rcases h with rfl | rfl | ⟨seeded, piece, hseeds, rfl⟩
  · exact ⟨hdir, claims, hcontent, hfresh⟩
  · refine ⟨(v.disk.dir_truncate_of_ne (by decide)).trans hdir, claims, ?_, hfresh⟩
    rw [v.disk.content_truncate_of_ne (v.disk.ne_opened (by decide) hdir)]
    exact hcontent
  · refine ⟨hdir, claims, ?_, hfresh⟩
    have hne : file ≠ seeded := by
      rintro rfl
      exact (ho.seeding hseeds).2 hdir
    rw [v.disk.content_write_of_ne hne]
    exact hcontent

section Step

variable {seed : Text} {w : Volume} {es : List VolumeEvent}

/-- An append goes on without touching the file lock or a file. -/
theorem Orderly.advance (ho : Orderly v) (h : Move seed v w es) {k : Nat} {c c' : AppendCall}
    (here : v.appends[k]? = some c) (hcalls : w.appends = v.appends.set k c')
    (hlock : w.lock = v.lock) (hdisk : w.disk = v.disk)
    (hholds : c'.phase.holdsLock = true → c.phase.holdsLock = true)
    (hdraft : ∀ {claim : Claim} {file : Nat} {rest : Text},
      c'.phase = .writing claim file rest → c.phase = c'.phase) : Orderly w := by
  refine ⟨fun {j d} hd hholdsD => ?_, fun {j d claim file rest} hd hwriting => ?_,
    ho.seeding_move h⟩
  · rw [hlock]
    rw [hcalls] at hd
    rcases get_set hd with ⟨rfl, rfl⟩ | ⟨-, hd⟩
    · exact ho.lock here (hholds hholdsD)
    · exact ho.lock hd hholdsD
  · rw [hdisk]
    rw [hcalls] at hd
    rcases get_set hd with ⟨rfl, rfl⟩ | ⟨-, hd⟩
    · exact ho.draft here ((hdraft hwriting).trans hwriting)
    · exact ho.draft hd hwriting

/-- A replica or a read goes on: no append does. -/
theorem Orderly.aside (ho : Orderly v) (h : Move seed v w es) (hcalls : w.appends = v.appends)
    (hlock : w.lock = v.lock)
    (hdisk : w.disk = v.disk ∨ w.disk = v.disk.truncate .target ∨
      ∃ seeded piece, v.Seeds seeded ∧ w.disk = v.disk.write seeded piece) : Orderly w := by
  refine ⟨fun hd hholds => ?_, fun hd hwriting => ?_, ho.seeding_move h⟩
  · rw [hlock]
    rw [hcalls] at hd
    exact ho.lock hd hholds
  · rw [hcalls] at hd
    exact ho.drafts_seeding (ho.draft hd hwriting) hdisk

/-- The holder of the file lock goes on; no other append writes. -/
theorem Orderly.inside (ho : Orderly v) (h : Move seed v w es) {k : Nat} {c c' : AppendCall}
    (here : v.appends[k]? = some c) (holds : c.phase.holdsLock = true)
    (hcalls : w.appends = v.appends.set k c')
    (hlock : c'.phase.holdsLock = true → w.lock = some k)
    (hdraft : ∀ {claim : Claim} {file : Nat} {rest : Text},
      c'.phase = .writing claim file rest → Drafts w.disk claim file rest) : Orderly w := by
  refine ⟨fun {j d} hd hholdsD => ?_, fun {j d claim file rest} hd hwriting => ?_,
    ho.seeding_move h⟩
  · rw [hcalls] at hd
    rcases get_set hd with ⟨rfl, rfl⟩ | ⟨hj, hd⟩
    · exact hlock hholdsD
    · rw [ho.others here holds hj hd] at hholdsD
      cases hholdsD
  · rw [hcalls] at hd
    rcases get_set hd with ⟨rfl, rfl⟩ | ⟨hj, hd⟩
    · exact hdraft hwriting
    · have := ho.others here holds hj hd
      rw [hwriting] at this
      cases this

/-- A new append waits; the other ones stand where they stood. -/
theorem get_call {r k : Nat} {args : SubmitClaimArgs} {c : AppendCall}
    (h : (v.appends ++ [{ replica := r, args }])[k]? = some c) :
    c.phase = .waiting ∨ v.appends[k]? = some c := by
  rw [List.getElem?_append] at h
  split at h
  · exact .inr h
  · rw [List.getElem?_singleton] at h
    split at h
    · cases h
      exact .inl rfl
    · cases h

/-- An append of a replica that goes on is not over when another replica crashes. -/
theorem get_crashed {r k : Nat} {c : AppendCall} (h : (v.crashed r).appends[k]? = some c) :
    c.phase = .closed ∨ v.appends[k]? = some c ∧ c.replica ≠ r := by
  rw [crashed, List.getElem?_map] at h
  obtain ⟨d, hd, heq⟩ := Option.map_eq_some_iff.mp h
  split at heq
  · rw [← heq]
    exact .inl rfl
  · rename_i hne
    cases heq
    exact .inr ⟨hd, hne⟩

/-- **Every step keeps the order.** -/
theorem orderly_move (ho : Orderly v) (h : Move seed v w es) : Orderly w := by
  have hmove := h
  cases h with
  | start | found | missed | looked | lookedInVain | readOn | observed =>
    exact ho.aside hmove rfl rfl (.inl rfl)
  | seedOpened => exact ho.aside hmove rfl rfl (.inr (.inl rfl))
  | seeded size here seeding =>
    exact ho.aside hmove rfl rfl (.inr (.inr ⟨_, _, ⟨_, _, _, here, seeding⟩, rfl⟩))
  | queue here waiting => exact ho.advance hmove here rfl rfl rfl (nofun) (nofun)
  | opened here locked | nothing here locked =>
    exact ho.advance hmove here rfl rfl rfl (by rw [locked]; exact id) (nofun)
  | read here reading | parsed here reading =>
    exact ho.advance hmove here rfl rfl rfl (by rw [reading]; exact id) (nofun)
  | raised here holds => exact ho.advance hmove here rfl rfl rfl (fun _ => holds) (nofun)
  | refused here | ended here | dropped here =>
    exact ho.advance hmove here rfl rfl rfl (nofun) (nofun)
  | cancelled here => exact ho.advance hmove here rfl rfl rfl id (fun _ => rfl)
  | @drafted k c claims claim here found made =>
    have holds := congrArg Appending.holdsLock found
    refine ho.inside hmove here holds rfl (fun _ => ho.lock here holds) ?_
    intro claim file rest hwriting
    cases hwriting
    refine ⟨v.disk.dir_truncate_self _, claims, ?_, ?_⟩
    · show (v.disk.truncate _).content _ ++ _ = _
      rw [v.disk.content_truncate_self]
      rfl
    · rw [(Claim.files_of_file made).2]
      exact nextId_fresh _
  | written size here writing =>
    have holds := congrArg Appending.holdsLock writing
    refine ho.inside hmove here holds rfl (fun _ => ho.lock here holds) ?_
    intro claim file rest hwriting
    cases hwriting
    obtain ⟨hdir, claims, hcontent, hfresh⟩ := ho.draft here writing
    refine ⟨hdir, claims, ?_, hfresh⟩
    rw [v.disk.content_write_self (v.disk.dir_lt hdir), List.append_assoc, List.take_append_drop]
    exact hcontent
  | replaced here writing renamed =>
    have holds := congrArg Appending.holdsLock writing
    exact ho.inside hmove here holds rfl (fun _ => ho.lock here holds) (nofun)
  | released here leaving =>
    exact ho.inside hmove here (by rw [leaving]; rfl) rfl (nofun) (nofun)
  | acquire here queued free =>
    have nobody : ∀ {j : Nat} {d : AppendCall}, v.appends[j]? = some d →
        d.phase.holdsLock = true → False := by
      intro j d hd hholds
      have := ho.lock hd hholds
      rw [free] at this
      cases this
    refine ⟨fun hd hholds => ?_, fun hd hwriting => ?_, ho.seeding_move hmove⟩
    · rcases get_set hd with ⟨rfl, -⟩ | ⟨-, hd⟩
      · rfl
      · exact (nobody hd hholds).elim
    · rcases get_set hd with ⟨-, rfl⟩ | ⟨-, hd⟩
      · cases hwriting
      · exact (nobody hd (by rw [hwriting]; rfl)).elim
  | call r args =>
    refine ⟨fun hd hholds => ?_, fun hd hwriting => ?_, ho.seeding_move hmove⟩
    · rcases get_call hd with hphase | hd
      · rw [hphase] at hholds
        cases hholds
      · exact ho.lock hd hholds
    · rcases get_call hd with hphase | hd
      · rw [hphase] at hwriting
        cases hwriting
      · exact ho.draft hd hwriting
  | crash r =>
    refine ⟨fun {k c} hd hholds => ?_, fun hd hwriting => ?_, ho.seeding_move hmove⟩
    · rcases get_crashed hd with hphase | ⟨hd, hne⟩
      · rw [hphase] at hholds
        cases hholds
      · show v.lock.filter _ = some k
        rw [ho.lock hd hholds, Option.filter_some, hd, if_pos]
        simpa using hne
    · rcases get_crashed hd with hphase | ⟨hd, -⟩
      · rw [hphase] at hwriting
        cases hwriting
      · exact ho.draft hd hwriting

end Step

/-! ## The file holds its claims -/

/-- The claims that have been put into the file, in order. -/
def filed (es : List VolumeEvent) : List Claim :=
  es.filterMap fun e => match e with
    | .replaced _ claim => some claim
    | _ => none

theorem filed_append (es fs : List VolumeEvent) : filed (es ++ fs) = filed es ++ filed fs :=
  List.filterMap_append

/-- What an append knows about the file that holds some claims. -/
def Follows (d : Disk FileName Char) (claims : List Claim) : Appending → Prop
  | .reading file got => d.dir .target = some file ∧ got <+: d.content file
  | .found read => read = claims
  | .writing claim file rest => d.content file ++ rest = writeClaims (claims ++ [claim]) ∧
      claim.claimId ∉ claims.map Claim.claimId
  | _ => True

theorem follows_of_outside {d : Disk FileName Char} {claims : List Claim} {phase : Appending}
    (h : phase.holdsLock = false) : Follows d claims phase := by
  cases phase with
  | reading | found | writing => cases h
  | _ => trivial

/-- The file holds some claims, nobody is about to write into it, and the append that holds the
file lock has read these claims. -/
structure Settled (claims : List Claim) (v : Volume) : Prop where
  file : ∃ i, v.disk.dir .target = some i ∧ readClaims (v.disk.content i) = some claims
  unmissed : ¬ v.Misses
  unseeded : ∀ {i : Nat}, v.disk.dir .target = some i → ¬ v.Seeds i
  calls : ∀ {k : Nat} {c : AppendCall}, v.appends[k]? = some c → Follows v.disk claims c.phase

/-- A file that is not temporary and not being seeded is not written. -/
theorem Touches.content {d : Disk FileName Char} (h : v.Touches d) (ho : Orderly v)
    (hmisses : ¬ v.Misses) {i : Nat} (hlt : i < v.disk.files.length)
    (htemporary : v.disk.dir .temporary ≠ some i) (hseeds : ¬ v.Seeds i) :
    d.content i = v.disk.content i := by
  cases h with
  | nothing => rfl
  | seedOpened missed => exact absurd missed hmisses
  | seeded seeds =>
    refine v.disk.content_write_of_ne ?_ _
    rintro rfl
    exact hseeds seeds
  | drafted =>
    refine v.disk.content_truncate_of_ne ?_
    rintro rfl
    rw [Disk.opened] at htemporary hlt
    cases hdir : v.disk.dir .temporary with
    | some j =>
      rw [hdir] at htemporary
      exact htemporary rfl
    | none =>
      rw [hdir] at hlt
      exact Nat.lt_irrefl _ hlt
  | written here writing =>
    refine v.disk.content_write_of_ne ?_ _
    rintro rfl
    exact htemporary (ho.draft here writing).1
  | replaced renamed =>
    obtain ⟨j, -, hfiles, -⟩ := v.disk.rename_eq_some renamed
    rw [Disk.content, hfiles]
    rfl

section Step

variable {seed : Text} {w : Volume} {es : List VolumeEvent} {claims : List Claim}

/-- The claims file is not written as long as it is not replaced. -/
theorem Settled.content (hs : Settled claims v) (ho : Orderly v) (h : Move seed v w es) {i : Nat}
    (hi : v.disk.dir .target = some i) : w.disk.content i = v.disk.content i := by
  refine h.touches.content ho hs.unmissed (v.disk.dir_lt hi) (fun htemporary => ?_)
    (hs.unseeded hi)
  cases v.disk.dir_inj hi htemporary

theorem Settled.keep (hs : Settled claims v) (ho : Orderly v) (h : Move seed v w es)
    (hdir : w.disk.dir .target = v.disk.dir .target)
    (hcalls : ∀ {k : Nat} {c : AppendCall}, w.appends[k]? = some c →
      Follows w.disk claims c.phase) : Settled claims w := by
  obtain ⟨i, hi, hread⟩ := hs.file
  refine ⟨⟨i, hdir.trans hi, ?_⟩, fun hmisses => ?_, fun {j} hj hseeds => ?_, hcalls⟩
  · rw [hs.content ho h hi]
    exact hread
  · rcases h.misses hmisses with hmisses | hnone
    · exact hs.unmissed hmisses
    · rw [hi] at hnone
      cases hnone
  · rcases h.seeds hseeds with hseeds | ⟨hmisses, -⟩
    · exact hs.unseeded (hdir.symm.trans hj) hseeds
    · exact hs.unmissed hmisses

/-- An append goes on without touching a file. -/
theorem Settled.advance (hs : Settled claims v) (ho : Orderly v) (h : Move seed v w es) {k : Nat}
    {c' : AppendCall} (hcalls : w.appends = v.appends.set k c') (hdisk : w.disk = v.disk)
    (hfollows : Follows v.disk claims c'.phase) : Settled claims w := by
  refine hs.keep ho h (by rw [hdisk]) fun hd => ?_
  rw [hdisk]
  rw [hcalls] at hd
  rcases get_set hd with ⟨-, rfl⟩ | ⟨-, hd⟩
  · exact hfollows
  · exact hs.calls hd

/-- The holder of the file lock goes on. -/
theorem Settled.inside (hs : Settled claims v) (ho : Orderly v) (h : Move seed v w es) {k : Nat}
    {c c' : AppendCall} (here : v.appends[k]? = some c) (holds : c.phase.holdsLock = true)
    (hcalls : w.appends = v.appends.set k c') (hdir : w.disk.dir .target = v.disk.dir .target)
    (hfollows : Follows w.disk claims c'.phase) : Settled claims w := by
  refine hs.keep ho h hdir fun hd => ?_
  rw [hcalls] at hd
  rcases get_set hd with ⟨-, rfl⟩ | ⟨hj, hd⟩
  · exact hfollows
  · exact follows_of_outside (ho.others here holds hj hd)

/-- A replica or a read goes on: no append does. -/
theorem Settled.aside (hs : Settled claims v) (ho : Orderly v) (h : Move seed v w es)
    (hcalls : w.appends = v.appends)
    (hdisk : w.disk = v.disk ∨ ∃ seeded piece, v.Seeds seeded ∧
      w.disk = v.disk.write seeded piece) : Settled claims w := by
  have hdir : ∀ n, w.disk.dir n = v.disk.dir n := by
    intro n
    rcases hdisk with heq | ⟨_, _, -, heq⟩ <;> rw [heq]
    rfl
  refine hs.keep ho h (hdir _) fun {k c} hd => ?_
  rw [hcalls] at hd
  have hfollows := hs.calls hd
  cases hphase : c.phase with
  | reading file got =>
    rw [hphase] at hfollows
    refine ⟨(hdir _).trans hfollows.1, ?_⟩
    rw [hs.content ho h hfollows.1]
    exact hfollows.2
  | found read =>
    rw [hphase] at hfollows
    exact hfollows
  | writing claim file rest =>
    rw [hphase] at hfollows
    have hcontent : w.disk.content file = v.disk.content file := by
      rcases hdisk with heq | ⟨seeded, piece, hseeds, heq⟩
      · rw [heq]
      · rw [heq]
        refine v.disk.content_write_of_ne ?_ _
        rintro rfl
        exact (ho.seeding hseeds).2 (ho.draft hd hphase).1
    rw [Follows, hcontent]
    exact hfollows
  | _ => trivial

/-- **A claim that is put into the file is there, with all that its append has read.** -/
theorem settled_replaced (ho : Orderly v) (hmisses : ¬ v.Misses) {k file : Nat} {c : AppendCall}
    {claim : Claim} {disk : Disk FileName Char} (here : v.appends[k]? = some c)
    (writing : c.phase = .writing claim file [])
    (renamed : v.disk.rename .temporary .target = some disk)
    (hcontent : v.disk.content file = writeClaims claims) :
    Settled claims { v.goto k c (.leaving (some claim)) with disk } := by
  have holds := congrArg Appending.holdsLock writing
  obtain ⟨i, hi, hfiles, hdir⟩ := v.disk.rename_eq_some renamed
  have hfile : i = file := by
    have := (ho.draft here writing).1
    rw [hi] at this
    exact Option.some.inj this
  have htarget : disk.dir .target = some file := by
    rw [hdir, hfile]
    rfl
  refine ⟨⟨file, htarget, ?_⟩, hmisses, fun {j} hj hseeds => ?_, fun {j d} hd => ?_⟩
  · show readClaims (disk.content file) = _
    rw [Disk.content, hfiles, ← Disk.content, hcontent]
    exact readClaims_writeClaims claims
  · -- the file was temporary a step ago
    rw [htarget] at hj
    cases hj
    exact (ho.seeding hseeds).2 (ho.draft here writing).1
  · rcases get_set hd with ⟨-, rfl⟩ | ⟨hj, hd⟩
    · trivial
    · exact follows_of_outside (ho.others here holds hj hd)

/-- **Every step keeps the claims of the file, and adds the one that an append puts there.** -/
theorem settled_move (hs : Settled claims v) (ho : Orderly v) (h : Move seed v w es) :
    Settled (claims ++ filed es) w := by
  have hmove := h
  have nothing : filed es = [] → Settled claims w → Settled (claims ++ filed es) w := by
    intro hfiled hs
    rwa [hfiled, List.append_nil]
  have htruncate : (v.disk.truncate .temporary).dir .target = v.disk.dir .target :=
    v.disk.dir_truncate_of_ne (by decide)
  cases h with
  | @replaced k file c claim disk here writing renamed =>
    refine settled_replaced ho hs.unmissed here writing renamed ?_
    have hfollows := hs.calls here
    rw [writing, Follows, List.append_nil] at hfollows
    exact hfollows.1
  | start | found | missed | looked | lookedInVain | readOn | observed =>
    exact nothing rfl (hs.aside ho hmove rfl (.inl rfl))
  | seedOpened here absent => exact absurd ⟨_, _, here, absent⟩ hs.unmissed
  | seeded size here seeding =>
    exact nothing rfl (hs.aside ho hmove rfl (.inr ⟨_, _, ⟨_, _, _, here, seeding⟩, rfl⟩))
  | queue | raised | refused | dropped => exact nothing rfl (hs.advance ho hmove rfl rfl trivial)
  | @ended k c result here finished =>
    refine nothing ?_ (hs.advance ho hmove rfl rfl trivial)
    cases result <;> rfl
  | opened here locked there =>
    exact nothing rfl (hs.advance ho hmove rfl rfl ⟨there, List.nil_prefix⟩)
  | nothing here locked missing =>
    obtain ⟨i, hi, -⟩ := hs.file
    rw [hi] at missing
    cases missing
  | read here reading more =>
    have hfollows := hs.calls here
    rw [reading] at hfollows
    refine nothing rfl (hs.advance ho hmove rfl rfl ⟨hfollows.1, ?_⟩)
    -- what has been read is the beginning of the file, and the piece comes after it
    obtain ⟨t, ht⟩ := hfollows.2
    rw [← ht, List.drop_left] at more
    rw [← ht]
    exact (List.prefix_append_right_inj _).mpr more
  | @parsed k file c got read here reading all hread =>
    have hfollows := hs.calls here
    rw [reading] at hfollows
    have hgot : got = v.disk.content file := by
      obtain ⟨t, ht⟩ := hfollows.2
      rw [← ht, List.drop_left] at all
      rw [← ht, all, List.append_nil]
    obtain ⟨i, hi, hclaims⟩ := hs.file
    rw [hfollows.1] at hi
    cases hi
    rw [← hgot, hread] at hclaims
    exact nothing rfl (hs.advance ho hmove rfl rfl (Option.some.inj hclaims))
  | @drafted k c read claim here found made =>
    have hfollows := hs.calls here
    rw [found] at hfollows
    obtain rfl : read = claims := hfollows
    have hfresh : claim.claimId ∉ read.map Claim.claimId := by
      rw [(Claim.files_of_file made).2]
      exact nextId_fresh read
    refine nothing rfl
      (hs.inside ho hmove here (by rw [found]; rfl) rfl htruncate ⟨?_, hfresh⟩)
    show (v.disk.truncate _).content _ ++ _ = _
    rw [v.disk.content_truncate_self]
    rfl
  | @written k file c claim rest size here writing =>
    have hfollows := hs.calls here
    rw [writing] at hfollows
    refine nothing rfl (hs.inside ho hmove here (by rw [writing]; rfl) rfl rfl ⟨?_, hfollows.2⟩)
    have hdir := (ho.draft here writing).1
    show (v.disk.write _ _).content _ ++ _ = _
    rw [v.disk.content_write_self (v.disk.dir_lt hdir), List.append_assoc, List.take_append_drop]
    exact hfollows.1
  | @released k c result here leaving =>
    exact nothing rfl (hs.inside ho hmove here (by rw [leaving]; rfl) rfl rfl trivial)
  | @acquire k c here queued free => exact nothing rfl (hs.advance ho hmove rfl rfl trivial)
  | cancelled here =>
    have hfollows := hs.calls here
    exact nothing rfl (hs.advance ho hmove rfl rfl hfollows)
  | call r args =>
    refine nothing rfl (hs.keep ho hmove rfl fun {k c} hd => ?_)
    rcases get_call hd with hphase | hd
    · rw [hphase]
      trivial
    · exact hs.calls hd
  | crash r =>
    refine nothing rfl (hs.keep ho hmove rfl fun {k c} hd => ?_)
    rcases get_crashed hd with hphase | ⟨hd, -⟩
    · rw [hphase]
      trivial
    · exact hs.calls hd

end Step

end Volume

end OmniCare
