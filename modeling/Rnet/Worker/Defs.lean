import Rnet.Lib.Runs
import Mathlib.Logic.Function.Basic

/-!
# The worker pool, step by step

One `WorkerPool` of `n` workers and the threads that call `submit`, one atomic action a step: the locks of
`GLOBAL_SENDERS`, the look at the table, the `send` on a bounded channel, each `recv` and `try_recv`, each run of a
task, and in `shutdown` the `take`, the drop of each sender and the `join` of each worker. `n` channels have one
sender each, and the one at position `i` of the table belongs to the worker `i`; when it is dropped the channel is
disconnected.

What a task does is left out, except that it ends or panics. The history `log` is only recorded.
-/

namespace Rnet.Worker

/-- The messages a channel holds: `bounded(10000)`. -/
def CAPACITY : Nat := 10000

/-- The closure that a call of `submit` boxes, known by its call: the one with the number `num` of `thread`. -/
structure Task (ι : Type) where
  thread : ι
  num : Nat
  shardIdx : Nat
  deriving DecidableEq

/-- Where a thread stands in `submit`. -/
inductive SubmitPc (ι : Type)
  | out
  /-- before the read lock -/
  | called (task : Task ι)
  /-- with the read lock, before it looks at the table -/
  | looking (task : Task ι)
  /-- in `send`, on the sender at position `idx` -/
  | sending (task : Task ι) (idx : Nat)
  /-- before the read lock is released -/
  | leaving
  /-- the remainder by a length of zero panicked -/
  | panicked
  deriving DecidableEq

/-- Where the thread of a worker stands. -/
inductive WorkerPc (ι : Type)
  | unborn
  | recv
  | running (task : Task ι)
  | tryRecv
  | stopped
  | panicked
  deriving DecidableEq

/-- Where the thread that owns the pool stands, in `WorkerPool::new` and in `shutdown`. -/
inductive Phase
  /-- `k` workers are spawned -/
  | spawning (k : Nat)
  /-- with the write lock, before `is_none` -/
  | installing
  /-- `new` has returned -/
  | ready
  /-- with the write lock, before `take` -/
  | taking
  /-- with the write lock, and `k` of the senders taken are dropped -/
  | dropping (k : Nat)
  /-- `k` workers are joined -/
  | joining (k : Nat)
  /-- `shutdown` has returned -/
  | returned
  deriving DecidableEq

inductive Event (ι : Type)
  /-- `submit` is called -/
  | called (task : Task ι)
  /-- `send` answered `Ok` -/
  | enqueued (task : Task ι)
  /-- the pool was not running, or `send` answered an error -/
  | dropped (task : Task ι)
  /-- the worker `i` begins to run the task -/
  | started (i : Nat) (task : Task ι)
  | finished (i : Nat) (task : Task ι)
  /-- `shutdown` took the senders -/
  | took
  /-- `shutdown` returned -/
  | returned
  deriving DecidableEq

structure State (ι : Type) where
  /-- `GLOBAL_SENDERS`, by the length of its vector -/
  globalSenders : Option Nat
  /-- the threads that hold the read lock -/
  readers : List ι
  phase : Phase
  /-- the channels -/
  queues : Nat → List (Task ι)
  workers : Nat → WorkerPc ι
  threads : ι → SubmitPc ι
  /-- so many calls of `submit` each thread has begun -/
  calls : ι → Nat
  log : List (Event ι)

inductive Label (ι : Type)
  /-- the next action of `WorkerPool::new` -/
  | new
  /-- the next action of `WorkerPool::shutdown` -/
  | shutdown
  /-- a thread calls `submit` -/
  | call (t : ι) (shardIdx : Nat)
  /-- the next action of the thread's `submit` -/
  | submit (t : ι)
  /-- the next action of a worker, whose task ends when it runs one -/
  | worker (i : Nat)
  /-- the task of a worker panics -/
  | panics (i : Nat)
  deriving DecidableEq

variable {ι : Type}

namespace SubmitPc

/-- The thread holds the read lock. -/
def reads : SubmitPc ι → Bool
  | .looking _ | .sending _ _ | .leaving => true
  | .out | .called _ | .panicked => false

/-- The task of the call, as long as nothing is decided about it. -/
def task? : SubmitPc ι → Option (Task ι)
  | .called task | .looking task | .sending task _ => some task
  | .out | .leaving | .panicked => none

end SubmitPc

namespace WorkerPc

/-- The thread has ended and its receiver is dropped. -/
def ended : WorkerPc ι → Bool
  | .stopped | .panicked => true
  | .unborn | .recv | .running _ | .tryRecv => false

/-- The task it runs. -/
def current : WorkerPc ι → List (Task ι)
  | .running task => [task]
  | .unborn | .recv | .tryRecv | .stopped | .panicked => []

end WorkerPc

namespace Phase

/-- The owner of the pool holds the write lock. -/
def writes : Phase → Bool
  | .installing | .taking | .dropping _ => true
  | .spawning _ | .ready | .joining _ | .returned => false

/-- The sender of channel `i` is dropped. -/
def disconnected : Phase → Nat → Bool
  | .dropping k, i => decide (i < k)
  | .joining _, _ | .returned, _ => true
  | .spawning _, _ | .installing, _ | .ready, _ | .taking, _ => false

/-- `WorkerPool::new` has returned. -/
def made : Phase → Bool
  | .spawning _ | .installing => false
  | .ready | .taking | .dropping _ | .joining _ | .returned => true

/-- `WorkerPool::shutdown` has the write lock, or had it. -/
def begun : Phase → Bool
  | .spawning _ | .installing | .ready => false
  | .taking | .dropping _ | .joining _ | .returned => true

end Phase

namespace State

/-- Before `WorkerPool::new`. -/
def initial : State ι where
  globalSenders := none
  readers := []
  phase := .spawning 0
  queues := fun _ => []
  workers := fun _ => .unborn
  threads := fun _ => .out
  calls := fun _ => 0
  log := []

def record (s : State ι) (e : Event ι) : State ι := { s with log := s.log ++ [e] }

/-- The next action of `WorkerPool::new`. -/
def new (n : Nat) (s : State ι) : Option (State ι) :=
  match s.phase with
  | .spawning k =>
    if k < n then some { s with workers := Function.update s.workers k .recv, phase := .spawning (k + 1) }
    else if s.readers.isEmpty then some { s with phase := .installing }
    else none
  | .installing => some { s with globalSenders := some (s.globalSenders.getD n), phase := .ready }
  | .ready | .taking | .dropping _ | .joining _ | .returned => none

/-- The next action of `WorkerPool::shutdown`. The senders taken are dropped before the write lock is. -/
def shutdown (n : Nat) (s : State ι) : Option (State ι) :=
  match s.phase with
  | .ready => if s.readers.isEmpty then some { s with phase := .taking } else none
  | .taking => some ({ s with globalSenders := none, phase := .dropping 0 }.record .took)
  | .dropping k => some { s with phase := if k < n then .dropping (k + 1) else .joining 0 }
  | .joining k =>
    if k < n then if (s.workers k).ended then some { s with phase := .joining (k + 1) } else none
    else some ({ s with phase := .returned }.record .returned)
  | .spawning _ | .installing | .returned => none

/-- `recv` or `try_recv` answered `Ok(task)`. -/
def take (s : State ι) (i : Nat) (task : Task ι) (rest : List (Task ι)) : State ι :=
  { s with
    queues := Function.update s.queues i rest
    workers := Function.update s.workers i (.running task) }.record (.started i task)

def setWorker (s : State ι) (i : Nat) (pc : WorkerPc ι) : State ι :=
  { s with workers := Function.update s.workers i pc }

/-- The next action of a worker. -/
def worker (s : State ι) (i : Nat) : Option (State ι) :=
  match s.workers i, s.queues i with
  | .recv, task :: rest | .tryRecv, task :: rest => some (s.take i task rest)
  | .recv, [] => if s.phase.disconnected i then some (s.setWorker i .stopped) else none
  | .running task, _ => some ((s.setWorker i .tryRecv).record (.finished i task))
  | .tryRecv, [] => some (s.setWorker i .recv)
  | .unborn, _ | .stopped, _ | .panicked, _ => none

/-- The task of a worker panics: its thread ends, and the channel goes with its receiver. -/
def panics (s : State ι) (i : Nat) : Option (State ι) :=
  match s.workers i with
  | .running _ => some { s.setWorker i .panicked with queues := Function.update s.queues i [] }
  | .unborn | .recv | .tryRecv | .stopped | .panicked => none

variable [DecidableEq ι]

def goto (s : State ι) (t : ι) (pc : SubmitPc ι) : State ι := { s with threads := Function.update s.threads t pc }

/-- A thread calls `submit`. -/
def call (s : State ι) (t : ι) (shardIdx : Nat) : Option (State ι) :=
  match s.threads t with
  | .out =>
    let task : Task ι := ⟨t, s.calls t, shardIdx⟩
    some ({ s.goto t (.called task) with calls := Function.update s.calls t (s.calls t + 1) }.record (.called task))
  | .called _ | .looking _ | .sending _ _ | .leaving | .panicked => none

/-- The next action of `submit`. -/
def submit (s : State ι) (t : ι) : Option (State ι) :=
  match s.threads t with
  | .called task => if s.phase.writes then none else some { s.goto t (.looking task) with readers := t :: s.readers }
  | .looking task =>
    match s.globalSenders with
    | none => some ((s.goto t .leaving).record (.dropped task))
    | some 0 => some { s.goto t .panicked with readers := s.readers.erase t }
    | some len => some (s.goto t (.sending task (task.shardIdx % len)))
  | .sending task idx =>
    if (s.workers idx).ended then some ((s.goto t .leaving).record (.dropped task))
    else if (s.queues idx).length < CAPACITY then
      some ({ s.goto t .leaving with
        queues := Function.update s.queues idx (s.queues idx ++ [task]) }.record (.enqueued task))
    else none
  | .leaving => some { s.goto t .out with readers := s.readers.erase t }
  | .out | .panicked => none

def step (n : Nat) (s : State ι) : Label ι → Option (State ι)
  | .new => s.new n
  | .shutdown => s.shutdown n
  | .call t shardIdx => s.call t shardIdx
  | .submit t => s.submit t
  | .worker i => s.worker i
  | .panics i => s.panics i

/-! ## What the steps can do -/

/-- Every step, with its guard. -/
inductive Next (n : Nat) (s : State ι) : Label ι → State ι → Prop
  | spawns {k : Nat} (hphase : s.phase = .spawning k) (hk : k < n) :
      Next n s .new { s with workers := Function.update s.workers k .recv, phase := .spawning (k + 1) }
  | newLocks {k : Nat} (hphase : s.phase = .spawning k) (hk : n ≤ k) (hfree : s.readers = []) :
      Next n s .new { s with phase := .installing }
  | installs (hphase : s.phase = .installing) :
      Next n s .new { s with globalSenders := some (s.globalSenders.getD n), phase := .ready }
  | shutdownLocks (hphase : s.phase = .ready) (hfree : s.readers = []) : Next n s .shutdown { s with phase := .taking }
  | takes (hphase : s.phase = .taking) :
      Next n s .shutdown ({ s with globalSenders := none, phase := .dropping 0 }.record .took)
  | drops {k : Nat} (hphase : s.phase = .dropping k) (hk : k < n) :
      Next n s .shutdown { s with phase := .dropping (k + 1) }
  | unlocks {k : Nat} (hphase : s.phase = .dropping k) (hk : n ≤ k) : Next n s .shutdown { s with phase := .joining 0 }
  | joins {k : Nat} (hphase : s.phase = .joining k) (hk : k < n) (hended : (s.workers k).ended) :
      Next n s .shutdown { s with phase := .joining (k + 1) }
  | returns {k : Nat} (hphase : s.phase = .joining k) (hk : n ≤ k) :
      Next n s .shutdown ({ s with phase := .returned }.record .returned)
  | calls {t : ι} {shardIdx : Nat} {task : Task ι} (hout : s.threads t = .out)
      (htask : task = ⟨t, s.calls t, shardIdx⟩) :
      Next n s (.call t shardIdx) ({ s.goto t (.called task) with
        calls := Function.update s.calls t (s.calls t + 1) }.record (.called task))
  | reads {t : ι} {task : Task ι} (hpc : s.threads t = .called task) (hfree : s.phase.writes = false) :
      Next n s (.submit t) { s.goto t (.looking task) with readers := t :: s.readers }
  | finds {t : ι} {task : Task ι} {len : Nat} (hpc : s.threads t = .looking task) (htable : s.globalSenders = some len)
      (hlen : len ≠ 0) :
      Next n s (.submit t) (s.goto t (.sending task (task.shardIdx % len)))
  | misses {t : ι} {task : Task ι} (hpc : s.threads t = .looking task) (htable : s.globalSenders = none) :
      Next n s (.submit t) ((s.goto t .leaving).record (.dropped task))
  | divides {t : ι} {task : Task ι} (hpc : s.threads t = .looking task) (htable : s.globalSenders = some 0) :
      Next n s (.submit t) { s.goto t .panicked with readers := s.readers.erase t }
  | refused {t : ι} {task : Task ι} {idx : Nat} (hpc : s.threads t = .sending task idx)
      (hended : (s.workers idx).ended) :
      Next n s (.submit t) ((s.goto t .leaving).record (.dropped task))
  | sends {t : ι} {task : Task ι} {idx : Nat} (hpc : s.threads t = .sending task idx)
      (halive : (s.workers idx).ended = false) (hroom : (s.queues idx).length < CAPACITY) :
      Next n s (.submit t) ({ s.goto t .leaving with
        queues := Function.update s.queues idx (s.queues idx ++ [task]) }.record (.enqueued task))
  | leaves {t : ι} (hpc : s.threads t = .leaving) :
      Next n s (.submit t) { s.goto t .out with readers := s.readers.erase t }
  | pops {i : Nat} {task : Task ι} {rest : List (Task ι)} (hpc : s.workers i = .recv ∨ s.workers i = .tryRecv)
      (hqueue : s.queues i = task :: rest) : Next n s (.worker i) (s.take i task rest)
  | stops {i : Nat} (hpc : s.workers i = .recv) (hqueue : s.queues i = []) (hgone : s.phase.disconnected i) :
      Next n s (.worker i) (s.setWorker i .stopped)
  | finishes {i : Nat} {task : Task ι} (hpc : s.workers i = .running task) :
      Next n s (.worker i) ((s.setWorker i .tryRecv).record (.finished i task))
  | turns {i : Nat} (hpc : s.workers i = .tryRecv) (hqueue : s.queues i = []) :
      Next n s (.worker i) (s.setWorker i .recv)
  | panics {i : Nat} {task : Task ι} (hpc : s.workers i = .running task) :
      Next n s (.panics i) { s.setWorker i .panicked with queues := Function.update s.queues i [] }

variable {n : Nat} {s s' : State ι}

/-- **What a step can do.** -/
theorem step_next {l : Label ι} (h : step n s l = some s') : Next n s l s' := by
  cases l with
  | new =>
    simp only [step, new] at h
    split at h
    · rename_i hphase
      split at h
      · rename_i hk
        cases h
        exact .spawns hphase hk
      · rename_i hk
        split at h
        · rename_i hfree
          cases h
          exact .newLocks hphase (Nat.le_of_not_lt hk) (List.isEmpty_iff.mp hfree)
        · cases h
    · rename_i hphase
      cases h
      exact .installs hphase
    all_goals cases h
  | shutdown =>
    simp only [step, shutdown] at h
    split at h
    · rename_i hphase
      split at h
      · rename_i hfree
        cases h
        exact .shutdownLocks hphase (List.isEmpty_iff.mp hfree)
      · cases h
    · rename_i hphase
      cases h
      exact .takes hphase
    · rename_i k hphase
      cases h
      by_cases hk : k < n
      · rw [if_pos hk]
        exact .drops hphase hk
      · rw [if_neg hk]
        exact .unlocks hphase (Nat.le_of_not_lt hk)
    · rename_i hphase
      split at h
      · rename_i hk
        split at h
        · rename_i hended
          cases h
          exact .joins hphase hk hended
        · cases h
      · rename_i hk
        cases h
        exact .returns hphase (Nat.le_of_not_lt hk)
    all_goals cases h
  | call t shardIdx =>
    simp only [step, call] at h
    split at h
    · rename_i hout
      cases h
      exact .calls hout rfl
    all_goals cases h
  | submit t =>
    simp only [step, submit] at h
    split at h
    · rename_i hpc
      split at h
      · cases h
      · rename_i hfree
        cases h
        exact .reads hpc (Bool.eq_false_iff.mpr hfree)
    · rename_i hpc
      split at h
      · rename_i htable
        cases h
        exact .misses hpc htable
      · rename_i htable
        cases h
        exact .divides hpc htable
      · rename_i hlen htable
        cases h
        exact .finds hpc htable hlen
    · rename_i hpc
      split at h
      · rename_i hended
        cases h
        exact .refused hpc hended
      · rename_i halive
        split at h
        · rename_i hroom
          cases h
          exact .sends hpc (Bool.eq_false_iff.mpr halive) hroom
        · cases h
    · rename_i hpc
      cases h
      exact .leaves hpc
    all_goals cases h
  | worker i =>
    simp only [step, worker] at h
    split at h
    · rename_i hpc hqueue
      cases h
      exact .pops (Or.inl hpc) hqueue
    · rename_i hpc hqueue
      cases h
      exact .pops (Or.inr hpc) hqueue
    · rename_i hpc hqueue
      split at h
      · rename_i hgone
        cases h
        exact .stops hpc hqueue hgone
      · cases h
    · rename_i hpc
      cases h
      exact .finishes hpc
    · rename_i hpc hqueue
      cases h
      exact .turns hpc hqueue
    all_goals cases h
  | panics i =>
    simp only [step, panics] at h
    split at h
    · rename_i hpc
      cases h
      exact .panics hpc
    all_goals cases h

end State
end Rnet.Worker
