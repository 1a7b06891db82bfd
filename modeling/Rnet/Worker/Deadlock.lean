import Rnet.Command
import Rnet.Lib.Runs
import Rnet.Lib.WaitGraphs
import Rnet.Worker.Defs

/-!
# Workers that wait for each other

The pool once more, now with what its tasks do: a task computes, calls `send_command` and calls `submit`, on the
thread of the worker that runs it. `submit` takes the read lock and keeps it while it waits for room in a channel. The
read lock is refused while `shutdown` holds the write lock, and may be refused while `shutdown` waits for it.

So a worker may wait for room in the channel of a worker that waits for it, or for itself: `full_channel_deadlock`. In
a run in which no `submit` of a task closes such a circle, and none meets a `shutdown` at the lock, there is always a
worker that can go on (`never_deadlocked`).
-/

namespace Rnet.Worker.Deadlock

open Runs WaitGraphs Relation

/-- What a task still has to do. It ends after finitely many steps; how it goes on may depend on what it computes. -/
inductive Task
  | finished
  | compute (next : Nat → Task)
  /-- `EngineHandler::send_command`: its channel has no bound, and the wake does not wait -/
  | sendCommand (gfd : Gfd) (command : Command) (next : Task)
  | submit (task : Task) (shardIdx : Nat) (next : Task)

/-- Where a thread stands in `submit`. -/
inductive SubmitPc
  | out
  /-- before the read lock -/
  | called (task : Task) (shardIdx : Nat)
  /-- the read lock was refused, and the thread is parked -/
  | parked (task : Task) (shardIdx : Nat)
  /-- with the read lock, before it looks at the table -/
  | looking (task : Task) (shardIdx : Nat)
  /-- in `send`, on the sender at position `idx` -/
  | sending (task : Task) (idx : Nat)
  /-- before the read lock is released -/
  | leaving
  /-- the remainder by a length of zero panicked -/
  | panicked

/-- Where the thread of a worker stands, outside `submit`. -/
inductive WorkerPc
  | recv
  | running (task : Task)
  | tryRecv
  | stopped

/-- Where the owner of the pool stands, in `shutdown`. -/
inductive Phase
  | ready
  /-- before the write lock -/
  | waiting
  /-- with the write lock, before `take` -/
  | taking
  /-- with the write lock, before the senders are dropped -/
  | dropping
  /-- `k` workers are joined -/
  | joining (k : Nat)
  | returned
  deriving DecidableEq

namespace Phase

/-- The owner holds the write lock. -/
def holds : Phase → Bool
  | .taking | .dropping => true
  | .ready | .waiting | .joining _ | .returned => false

/-- The owner holds the write lock or waits for it. -/
def asks : Phase → Bool
  | .waiting | .taking | .dropping => true
  | .ready | .joining _ | .returned => false

/-- The senders are dropped. -/
def disconnected : Phase → Bool
  | .joining _ | .returned => true
  | .ready | .waiting | .taking | .dropping => false

end Phase

variable {ι : Type}

/-- The threads that call `submit` are those of the workers, known by their number, and all others. -/
structure State (ι : Type) where
  /-- `GLOBAL_SENDERS`, by the length of its vector -/
  globalSenders : Option Nat
  /-- the threads that hold the read lock -/
  readers : List (Nat ⊕ ι)
  phase : Phase
  /-- the channels -/
  queues : Nat → List Task
  workers : Nat → WorkerPc
  threads : Nat ⊕ ι → SubmitPc

inductive Label (ι : Type)
  /-- the next action of `WorkerPool::shutdown` -/
  | shutdown
  /-- the next action of a worker or of the task that it runs, which computes `result` -/
  | worker (i result : Nat)
  /-- another thread calls `submit` -/
  | call (t : ι) (task : Task) (shardIdx : Nat)
  /-- the next action of the thread's `submit` -/
  | submit (t : Nat ⊕ ι)
  /-- the thread's `submit` is refused the read lock -/
  | park (t : Nat ⊕ ι)

namespace State

/-- After `WorkerPool::new(n)`, with anything in the channels. -/
def initial (n : Nat) (queues : Nat → List Task) : State ι where
  globalSenders := some n
  readers := []
  phase := .ready
  queues := queues
  workers := fun i => if i < n then .recv else .stopped
  threads := fun _ => .out

/-- The next action of `WorkerPool::shutdown`. -/
def shutdown (n : Nat) (s : State ι) : Option (State ι) :=
  match s.phase with
  | .ready => some { s with phase := .waiting }
  | .waiting => if s.readers.isEmpty then some { s with phase := .taking } else none
  | .taking => some { s with globalSenders := none, phase := .dropping }
  | .dropping => some { s with phase := .joining 0 }
  | .joining k =>
    if k < n then
      match s.workers k with
      | .stopped => some { s with phase := .joining (k + 1) }
      | .recv | .running _ | .tryRecv => none
    else some { s with phase := .returned }
  | .returned => none

def setWorker (s : State ι) (i : Nat) (pc : WorkerPc) : State ι :=
  { s with workers := Function.update s.workers i pc }

def setQueue (s : State ι) (i : Nat) (queue : List Task) : State ι :=
  { s with queues := Function.update s.queues i queue }

variable [DecidableEq ι]

def goto (s : State ι) (t : Nat ⊕ ι) (pc : SubmitPc) : State ι :=
  { s with threads := Function.update s.threads t pc }

/-- The next action of a worker that is not in `submit`. -/
def worker (s : State ι) (i result : Nat) : Option (State ι) :=
  match s.threads (.inl i), s.workers i, s.queues i with
  | .out, .recv, task :: rest | .out, .tryRecv, task :: rest => some ((s.setWorker i (.running task)).setQueue i rest)
  | .out, .recv, [] => if s.phase.disconnected then some (s.setWorker i .stopped) else none
  | .out, .tryRecv, [] => some (s.setWorker i .recv)
  | .out, .running .finished, _ => some (s.setWorker i .tryRecv)
  | .out, .running (.compute next), _ => some (s.setWorker i (.running (next result)))
  | .out, .running (.sendCommand _ _ next), _ => some (s.setWorker i (.running next))
  | .out, .running (.submit task shardIdx next), _ =>
    some ((s.setWorker i (.running next)).goto (.inl i) (.called task shardIdx))
  | .out, .stopped, _ => none
  | .called _ _, _, _ | .parked _ _, _, _ | .looking _ _, _, _ | .sending _ _, _, _
  | .leaving, _, _ | .panicked, _, _ =>
    none

/-- Another thread calls `submit`. -/
def call (s : State ι) (t : ι) (task : Task) (shardIdx : Nat) : Option (State ι) :=
  match s.threads (.inr t) with
  | .out => some (s.goto (.inr t) (.called task shardIdx))
  | .called _ _ | .parked _ _ | .looking _ _ | .sending _ _ | .leaving | .panicked => none

/-- The next action of `submit`. -/
def submit (s : State ι) (t : Nat ⊕ ι) : Option (State ι) :=
  match s.threads t with
  | .called task shardIdx | .parked task shardIdx =>
    if s.phase.holds then none else some { s.goto t (.looking task shardIdx) with readers := t :: s.readers }
  | .looking task shardIdx =>
    match s.globalSenders with
    | none => some (s.goto t .leaving)
    | some 0 => some { s.goto t .panicked with readers := s.readers.erase t }
    | some len => some (s.goto t (.sending task (shardIdx % len)))
  | .sending task idx =>
    match s.workers idx with
    | .stopped => some (s.goto t .leaving)
    | .recv | .running _ | .tryRecv =>
      if (s.queues idx).length < CAPACITY then some ((s.goto t .leaving).setQueue idx (s.queues idx ++ [task]))
      else none
  | .leaving => some { s.goto t .out with readers := s.readers.erase t }
  | .out | .panicked => none

/-- The read lock is refused. -/
def park (s : State ι) (t : Nat ⊕ ι) : Option (State ι) :=
  match s.threads t with
  | .called task shardIdx => if s.phase.asks then some (s.goto t (.parked task shardIdx)) else none
  | .out | .parked _ _ | .looking _ _ | .sending _ _ | .leaving | .panicked => none

def step (n : Nat) (s : State ι) : Label ι → Option (State ι)
  | .shutdown => s.shutdown n
  | .worker i result => s.worker i result
  | .call t task shardIdx => s.call t task shardIdx
  | .submit t => s.submit t
  | .park t => s.park t

end State

/-! ## What the steps can do -/

namespace State

/-- Every step, with its guard. -/
inductive Next [DecidableEq ι] (n : Nat) (s : State ι) : Label ι → State ι → Prop
  | asks (hphase : s.phase = .ready) : Next n s .shutdown { s with phase := .waiting }
  | locks (hphase : s.phase = .waiting) (hfree : s.readers = []) : Next n s .shutdown { s with phase := .taking }
  | takes (hphase : s.phase = .taking) : Next n s .shutdown { s with globalSenders := none, phase := .dropping }
  | drops (hphase : s.phase = .dropping) : Next n s .shutdown { s with phase := .joining 0 }
  | joins {k : Nat} (hphase : s.phase = .joining k) (hk : k < n) (hstopped : s.workers k = .stopped) :
      Next n s .shutdown { s with phase := .joining (k + 1) }
  | returns {k : Nat} (hphase : s.phase = .joining k) (hk : n ≤ k) : Next n s .shutdown { s with phase := .returned }
  | pops {i result : Nat} {task : Task} {rest : List Task} (hout : s.threads (.inl i) = .out)
      (hpc : s.workers i = .recv ∨ s.workers i = .tryRecv) (hqueue : s.queues i = task :: rest) :
      Next n s (.worker i result) ((s.setWorker i (.running task)).setQueue i rest)
  | stops {i result : Nat} (hout : s.threads (.inl i) = .out) (hpc : s.workers i = .recv) (hqueue : s.queues i = [])
      (hgone : s.phase.disconnected = true) : Next n s (.worker i result) (s.setWorker i .stopped)
  | turns {i result : Nat} (hout : s.threads (.inl i) = .out) (hpc : s.workers i = .tryRecv)
      (hqueue : s.queues i = []) : Next n s (.worker i result) (s.setWorker i .recv)
  | finishes {i result : Nat} (hout : s.threads (.inl i) = .out) (hpc : s.workers i = .running .finished) :
      Next n s (.worker i result) (s.setWorker i .tryRecv)
  | computes {i result : Nat} {next : Nat → Task} (hout : s.threads (.inl i) = .out)
      (hpc : s.workers i = .running (.compute next)) :
      Next n s (.worker i result) (s.setWorker i (.running (next result)))
  | commands {i result : Nat} {gfd : Gfd} {command : Command} {next : Task} (hout : s.threads (.inl i) = .out)
      (hpc : s.workers i = .running (.sendCommand gfd command next)) :
      Next n s (.worker i result) (s.setWorker i (.running next))
  | submits {i result shardIdx : Nat} {task next : Task} (hout : s.threads (.inl i) = .out)
      (hpc : s.workers i = .running (.submit task shardIdx next)) :
      Next n s (.worker i result) ((s.setWorker i (.running next)).goto (.inl i) (.called task shardIdx))
  | calls {t : ι} {task : Task} {shardIdx : Nat} (hout : s.threads (.inr t) = .out) :
      Next n s (.call t task shardIdx) (s.goto (.inr t) (.called task shardIdx))
  | reads {t : Nat ⊕ ι} {task : Task} {shardIdx : Nat}
      (hpc : s.threads t = .called task shardIdx ∨ s.threads t = .parked task shardIdx)
      (hfree : s.phase.holds = false) :
      Next n s (.submit t) { s.goto t (.looking task shardIdx) with readers := t :: s.readers }
  | misses {t : Nat ⊕ ι} {task : Task} {shardIdx : Nat} (hpc : s.threads t = .looking task shardIdx)
      (htable : s.globalSenders = none) : Next n s (.submit t) (s.goto t .leaving)
  | divides {t : Nat ⊕ ι} {task : Task} {shardIdx : Nat} (hpc : s.threads t = .looking task shardIdx)
      (htable : s.globalSenders = some 0) :
      Next n s (.submit t) { s.goto t .panicked with readers := s.readers.erase t }
  | finds {t : Nat ⊕ ι} {task : Task} {shardIdx len : Nat} (hpc : s.threads t = .looking task shardIdx)
      (htable : s.globalSenders = some len) (hlen : len ≠ 0) :
      Next n s (.submit t) (s.goto t (.sending task (shardIdx % len)))
  | refused {t : Nat ⊕ ι} {task : Task} {idx : Nat} (hpc : s.threads t = .sending task idx)
      (hstopped : s.workers idx = .stopped) : Next n s (.submit t) (s.goto t .leaving)
  | sends {t : Nat ⊕ ι} {task : Task} {idx : Nat} (hpc : s.threads t = .sending task idx)
      (hroom : (s.queues idx).length < CAPACITY) :
      Next n s (.submit t) ((s.goto t .leaving).setQueue idx (s.queues idx ++ [task]))
  | leaves {t : Nat ⊕ ι} (hpc : s.threads t = .leaving) :
      Next n s (.submit t) { s.goto t .out with readers := s.readers.erase t }
  | parks {t : Nat ⊕ ι} {task : Task} {shardIdx : Nat} (hpc : s.threads t = .called task shardIdx)
      (hasks : s.phase.asks = true) : Next n s (.park t) (s.goto t (.parked task shardIdx))

variable [DecidableEq ι] {n : Nat} {s s' : State ι}

theorem shutdown_next (h : s.shutdown n = some s') : Next n s .shutdown s' := by
  unfold shutdown at h
  split at h
  · rename_i hphase
    cases h
    exact .asks hphase
  · rename_i hphase
    split at h
    · rename_i hfree
      cases h
      exact .locks hphase (List.isEmpty_iff.mp hfree)
    · cases h
  · rename_i hphase
    cases h
    exact .takes hphase
  · rename_i hphase
    cases h
    exact .drops hphase
  · rename_i hphase
    split at h
    · rename_i hk
      split at h
      · rename_i hstopped
        cases h
        exact .joins hphase hk hstopped
      all_goals cases h
    · rename_i hk
      cases h
      exact .returns hphase (Nat.le_of_not_lt hk)
  · cases h

theorem worker_next {i result : Nat} (h : s.worker i result = some s') : Next n s (.worker i result) s' := by
  unfold worker at h
  split at h
  · rename_i hout hpc hqueue
    cases h
    exact .pops hout (Or.inl hpc) hqueue
  · rename_i hout hpc hqueue
    cases h
    exact .pops hout (Or.inr hpc) hqueue
  · rename_i hout hpc hqueue
    split at h
    · rename_i hgone
      cases h
      exact .stops hout hpc hqueue hgone
    · cases h
  · rename_i hout hpc hqueue
    cases h
    exact .turns hout hpc hqueue
  · rename_i hout hpc
    cases h
    exact .finishes hout hpc
  · rename_i hout hpc
    cases h
    exact .computes hout hpc
  · rename_i hout hpc
    cases h
    exact .commands hout hpc
  · rename_i hout hpc
    cases h
    exact .submits hout hpc
  all_goals cases h

theorem call_next {t : ι} {task : Task} {shardIdx : Nat} (h : s.call t task shardIdx = some s') :
    Next n s (.call t task shardIdx) s' := by
  unfold call at h
  split at h
  · rename_i hout
    cases h
    exact .calls hout
  all_goals cases h

theorem submit_next {t : Nat ⊕ ι} (h : s.submit t = some s') : Next n s (.submit t) s' := by
  unfold submit at h
  split at h
  · rename_i hpc
    split at h
    · cases h
    · rename_i hfree
      cases h
      exact .reads (Or.inl hpc) (Bool.eq_false_iff.mpr hfree)
  · rename_i hpc
    split at h
    · cases h
    · rename_i hfree
      cases h
      exact .reads (Or.inr hpc) (Bool.eq_false_iff.mpr hfree)
  · rename_i hpc
    split at h
    · rename_i htable
      cases h
      exact .misses hpc htable
    · rename_i htable
      cases h
      exact .divides hpc htable
    · rename_i hlen htable
      cases h
      exact .finds hpc htable hlen
  · rename_i hpc
    split at h
    · rename_i hstopped
      cases h
      exact .refused hpc hstopped
    all_goals
      split at h
      · rename_i hroom
        cases h
        exact .sends hpc hroom
      · cases h
  · rename_i hpc
    cases h
    exact .leaves hpc
  all_goals cases h

theorem park_next {t : Nat ⊕ ι} (h : s.park t = some s') : Next n s (.park t) s' := by
  unfold park at h
  split at h
  · rename_i hpc
    split at h
    · rename_i hasks
      cases h
      exact .parks hpc hasks
    · cases h
  all_goals cases h

/-- **What a step can do.** -/
theorem step_next {l : Label ι} (h : step n s l = some s') : Next n s l s' := by
  cases l with
  | shutdown => exact shutdown_next h
  | worker i result => exact worker_next h
  | call t task shardIdx => exact call_next h
  | submit t => exact submit_next h
  | park t => exact park_next h

end State

/-! ## Who waits for whom -/

namespace State

/-- No message can be put into the channel, and there is still someone who takes some out. -/
def Full (s : State ι) (i : Nat) : Prop := s.workers i ≠ .stopped ∧ CAPACITY ≤ (s.queues i).length

/-- The worker `i` is in `send`, on the channel of `j`, which has no room. -/
def Waits (s : State ι) (i j : Nat) : Prop := (∃ task, s.threads (.inl i) = .sending task j) ∧ s.Full j

/-- The worker cannot go on: its task waits for room in a channel, or for the read lock, which a shutdown holds or
waits for. -/
def Blocked (s : State ι) (i : Nat) : Prop :=
  (∃ j, s.Waits i j) ∨ (∃ task shardIdx, s.threads (.inl i) = .parked task shardIdx) ∧ s.phase.asks = true

/-- There is a task, in a channel or running, and all workers are blocked. -/
def Deadlocked (n : Nat) (s : State ι) : Prop :=
  (∃ i, i < n ∧ (s.queues i ≠ [] ∨ ∃ task, s.workers i = .running task)) ∧ ∀ i, i < n → s.Blocked i

end State

open Rnet.Worker.Deadlock.State

/-! ## Runs whose steps are harmless -/

/-- No task is refused the read lock by a shutdown, and no step makes a worker wait for one that waits for it: a task
goes on to `send` on a full channel only if the worker there does not wait, through others, for its own worker; and a
channel in which workers are about to send is filled only if its worker does not wait for one of them. -/
def Harmless (s : State ι) : Label ι → Prop
  | .park t => ∀ i, t = .inl i → s.phase.asks = false
  | .submit t =>
    match s.threads t with
    | .looking _ shardIdx => ∀ len i, s.globalSenders = some len → len ≠ 0 → t = .inl i → s.Full (shardIdx % len) →
        ¬ReflTransGen s.Waits (shardIdx % len) i
    | .sending _ idx => s.workers idx ≠ .stopped → CAPACITY ≤ (s.queues idx).length + 1 → ∀ i task, .inl i ≠ t →
        s.threads (.inl i) = .sending task idx → ¬ReflTransGen s.Waits idx i
    | .out | .called _ _ | .parked _ _ | .leaving | .panicked => True
  | .shutdown | .worker _ _ | .call _ _ _ => True

variable {n : Nat} {s s' : State ι} {l : Label ι} {x y : Nat}

/-- No task is parked at the lock, and every sender is one of the pool's. -/
structure Placed (n : Nat) (s : State ι) : Prop where
  unparked : ∀ i task shardIdx, s.threads (.inl i) ≠ .parked task shardIdx
  inRange : ∀ t task idx, s.threads t = .sending task idx → idx < n
  table : ∀ len, s.globalSenders = some len → len = n

structure Sound (n : Nat) (s : State ι) : Prop extends Placed n s where
  circle : Acyclic s.Waits

theorem Sound.initial (queues : Nat → List Task) : Sound n (initial n queues : State ι) where
  unparked := fun _ _ _ h => by cases h
  inRange := fun _ _ _ h => by cases h
  table := fun _ h => (Option.some.inj h).symm
  circle := acyclic_of_isEmpty fun _ _ ⟨⟨_, h⟩, _⟩ => by cases h

/-- Each worker waits, directly or through others, for one that does not wait. -/
theorem Sound.waits_for_free (h : Sound n s) {i : Nat} (hi : i < n) :
    ∃ j, j < n ∧ ReflTransGen s.Waits i j ∧ ¬s.Blocked j := by
  obtain ⟨j, hj, hij, hfree⟩ := exists_free (Set.finite_lt_nat n) h.circle hi
  refine ⟨j, hj, hij, ?_⟩
  rintro (⟨k, ⟨task, hsending⟩, hfull⟩ | ⟨⟨task, shardIdx, hparked⟩, -⟩)
  · exact hfree k (h.inRange _ task k hsending) ⟨⟨task, hsending⟩, hfull⟩
  · exact h.unparked j task shardIdx hparked

theorem Sound.not_deadlocked (h : Sound n s) : ¬s.Deadlocked n := by
  rintro ⟨⟨i, hi, -⟩, hall⟩
  obtain ⟨j, hj, -, hfree⟩ := h.waits_for_free hi
  exact hfree (hall j hj)

/-! ## How the waits change -/

theorem waits_setWorker {i : Nat} {pc : WorkerPc} (hpc : s.workers i ≠ .stopped) (h : (s.setWorker i pc).Waits x y) :
    s.Waits x y := by
  obtain ⟨hsending, hstopped, hlen⟩ := h
  refine ⟨hsending, fun hy => ?_, hlen⟩
  have hne : y ≠ i := by
    rintro rfl
    exact hpc hy
  exact hstopped (by simpa [setWorker, hne] using hy)

theorem setWorker_waits {i : Nat} {pc : WorkerPc} (hi : y ≠ i) (h : s.Waits x y) : (s.setWorker i pc).Waits x y := by
  obtain ⟨hsending, hstopped, hfull⟩ := h
  exact ⟨hsending, by simpa [setWorker, hi] using hstopped, hfull⟩

theorem waits_setQueue {i : Nat} {queue : List Task} (hlen : queue.length ≤ (s.queues i).length)
    (h : (s.setQueue i queue).Waits x y) : s.Waits x y := by
  obtain ⟨hsending, hstopped, hfull⟩ := h
  refine ⟨hsending, hstopped, ?_⟩
  by_cases hy : y = i
  · subst hy
    exact Nat.le_trans (by simpa [setQueue] using hfull) hlen
  · simpa [setQueue, hy] using hfull

theorem not_out_of_waits (h : s.Waits x y) : s.threads (.inl x) ≠ .out := by
  obtain ⟨⟨task, hsending⟩, -⟩ := h
  simp [hsending]

variable [DecidableEq ι]

theorem waits_goto {t : Nat ⊕ ι} (pc : SubmitPc) (hpc : ∀ task j, pc ≠ .sending task j)
    (h : (s.goto t pc).Waits x y) : s.Waits x y := by
  obtain ⟨⟨task, hsending⟩, hfull⟩ := h
  have hne : .inl x ≠ t := by
    rintro rfl
    exact hpc task y (by simpa [goto] using hsending)
  exact ⟨⟨task, by simpa [goto, hne] using hsending⟩, hfull⟩

/-- **The workers that begin to wait** in a harmless step wait for a worker that does not wait for them. -/
theorem new_waits (hok : Harmless s l) (hs : Next n s l s') :
    ∃ b, ∀ x y, s'.Waits x y → s.Waits x y ∨ y = b ∧ ¬ReflTransGen s.Waits b x := by
  cases hs with
  | asks | locks | takes | drops | joins | returns => exact ⟨0, fun x y h => Or.inl h⟩
  | pops hout hpc hqueue =>
    refine ⟨0, fun x y h => Or.inl (waits_setWorker ?_ (waits_setQueue ?_ h))⟩
    · rcases hpc with hpc | hpc <;> simp [hpc]
    · simp [setWorker, hqueue]
  | stops hout hpc => exact ⟨0, fun x y h => Or.inl (waits_setWorker (by simp [hpc]) h)⟩
  | turns hout hpc => exact ⟨0, fun x y h => Or.inl (waits_setWorker (by simp [hpc]) h)⟩
  | finishes hout hpc => exact ⟨0, fun x y h => Or.inl (waits_setWorker (by simp [hpc]) h)⟩
  | computes hout hpc => exact ⟨0, fun x y h => Or.inl (waits_setWorker (by simp [hpc]) h)⟩
  | commands hout hpc => exact ⟨0, fun x y h => Or.inl (waits_setWorker (by simp [hpc]) h)⟩
  | submits hout hpc => exact ⟨0, fun x y h => Or.inl (waits_setWorker (by simp [hpc]) (waits_goto _ (by simp) h))⟩
  | calls hout => exact ⟨0, fun x y h => Or.inl (waits_goto _ (by simp) h)⟩
  | @reads t task shardIdx hpc hfree =>
    exact ⟨0, fun x y h => Or.inl (waits_goto (t := t) (.looking task shardIdx) (by simp) h)⟩
  | misses hpc htable => exact ⟨0, fun x y h => Or.inl (waits_goto _ (by simp) h)⟩
  | @divides t => exact ⟨0, fun x y h => Or.inl (waits_goto (t := t) .panicked (by simp) h)⟩
  | @finds t task shardIdx len hpc htable hlen =>
    refine ⟨shardIdx % len, fun x y h => ?_⟩
    obtain ⟨⟨task', hsending⟩, hfull⟩ := h
    by_cases hx : .inl x = t
    · subst hx
      have hy : y = shardIdx % len := by
        have hpc' : SubmitPc.sending task (shardIdx % len) = .sending task' y := by simpa [goto] using hsending
        cases hpc'
        rfl
      subst hy
      simp only [Harmless, hpc] at hok
      exact Or.inr ⟨rfl, hok len x htable hlen rfl hfull⟩
    · exact Or.inl ⟨⟨task', by simpa [goto, hx] using hsending⟩, hfull⟩
  | refused hpc hstopped => exact ⟨0, fun x y h => Or.inl (waits_goto _ (by simp) h)⟩
  | @sends t task idx hpc hroom =>
    refine ⟨idx, fun x y h => ?_⟩
    obtain ⟨⟨task', hsending⟩, hstopped, hfull⟩ := h
    have hx : .inl x ≠ t := by
      rintro rfl
      simp [goto, setQueue] at hsending
    have hsending' : s.threads (.inl x) = .sending task' y := by simpa [goto, setQueue, hx] using hsending
    by_cases hy : y = idx
    · subst hy
      simp only [Harmless, hpc] at hok
      have hlast : CAPACITY ≤ (s.queues y).length + 1 := by simpa [setQueue] using hfull
      exact Or.inr ⟨rfl, hok hstopped hlast x task' hx hsending'⟩
    · exact Or.inl ⟨⟨task', hsending'⟩, hstopped, by simpa [goto, setQueue, hy] using hfull⟩
  | @leaves t hpc => exact ⟨0, fun x y h => Or.inl (waits_goto (t := t) .out (by simp) h)⟩
  | parks hpc hasks => exact ⟨0, fun x y h => Or.inl (waits_goto _ (by simp) h)⟩

/-! ## The steps keep it -/

theorem Placed.goto (h : Placed n s) (t : Nat ⊕ ι) (pc : SubmitPc)
    (hparked : ∀ i task shardIdx, t = .inl i → pc ≠ .parked task shardIdx)
    (hrange : ∀ task idx, pc = .sending task idx → idx < n) : Placed n (s.goto t pc) where
  unparked := by
    intro i task shardIdx hi
    by_cases hit : .inl i = t
    · subst hit
      exact hparked i task shardIdx rfl (by simpa [State.goto] using hi)
    · exact h.unparked i task shardIdx (by simpa [State.goto, hit] using hi)
  inRange := by
    intro u task idx hu
    by_cases hut : u = t
    · subst hut
      exact hrange task idx (by simpa [State.goto] using hu)
    · exact h.inRange u task idx (by simpa [State.goto, hut] using hu)
  table := h.table

theorem Placed.step (h : Placed n s) (hok : Harmless s l) (hs : Next n s l s') : Placed n s' := by
  cases hs with
  | asks | locks | drops | joins | returns => exact ⟨h.unparked, h.inRange, h.table⟩
  | takes => exact ⟨h.unparked, h.inRange, fun _ hlen => by cases hlen⟩
  | pops | stops | turns | finishes | computes | commands => exact ⟨h.unparked, h.inRange, h.table⟩
  | @submits i _ shardIdx task next =>
    have hset : Placed n (s.setWorker i (.running next)) := ⟨h.unparked, h.inRange, h.table⟩
    exact hset.goto (.inl i) (.called task shardIdx) (by simp) (by simp)
  | @calls t task shardIdx => exact h.goto (.inr t) (.called task shardIdx) (by simp) (by simp)
  | @reads t task shardIdx =>
    have hgoto := h.goto t (.looking task shardIdx) (by simp) (by simp)
    exact ⟨hgoto.unparked, hgoto.inRange, h.table⟩
  | @misses t => exact h.goto t .leaving (by simp) (by simp)
  | @divides t =>
    have hgoto := h.goto t .panicked (by simp) (by simp)
    exact ⟨hgoto.unparked, hgoto.inRange, h.table⟩
  | @finds t task shardIdx len hpc htable hlen =>
    refine h.goto t (.sending task (shardIdx % len)) (by simp) fun task' idx hsending => ?_
    cases hsending
    obtain rfl := h.table len htable
    exact Nat.mod_lt _ (Nat.pos_of_ne_zero hlen)
  | @refused t => exact h.goto t .leaving (by simp) (by simp)
  | @sends t =>
    have hgoto := h.goto t .leaving (by simp) (by simp)
    exact ⟨hgoto.unparked, hgoto.inRange, h.table⟩
  | @leaves t =>
    have hgoto := h.goto t .out (by simp) (by simp)
    exact ⟨hgoto.unparked, hgoto.inRange, h.table⟩
  | @parks t task shardIdx hpc hasks =>
    refine h.goto t (.parked task shardIdx) (fun i _ _ ht _ => ?_) (by simp)
    -- a task would be refused the lock
    exact Bool.false_ne_true ((hok i ht).symm.trans hasks)

theorem Sound.step (h : Sound n s) (hok : Harmless s l) (hs : Deadlock.State.step n s l = some s') : Sound n s' := by
  have hnext := step_next hs
  obtain ⟨b, hnew⟩ := new_waits hok hnext
  exact ⟨h.toPlaced.step hok hnext, h.circle.insert hnew⟩

/-- **The workers do not wait for each other in a circle**, in any run whose steps are harmless: however many there are,
whatever is in the channels at the start, and whatever the tasks do. -/
theorem never_deadlocked {queues : Nat → List Task} {ls : List (Label ι)}
    (hok : Along (step n) Harmless (initial n queues) ls) (hrun : run (step n) (initial n queues) ls = some s) :
    ¬s.Deadlocked n :=
  (run_invariant (P := Sound n) (fun _ _ _ h hl hs => h.step hl hs) (.initial queues) hok hrun).not_deadlocked

/-- A task of the first worker, which submits to the shard of the second one, and a full channel there. -/
def crowded (i : Nat) : List Task :=
  if i = 0 then [.submit .finished 1 .finished] else List.replicate CAPACITY .finished

/-- The task waits in `send` with the read lock, and a shutdown waits for the write lock. -/
def crowd : List (Label Unit) := [.worker 0 0, .worker 0 0, .submit (.inl 0), .submit (.inl 0), .shutdown]

/-- The second worker can go on. -/
theorem never_deadlocked_crowd : ∃ s, run (step 2) (initial 2 crowded) crowd = some s ∧ s.Waits 0 1 ∧
    s.phase = .waiting ∧ ¬s.Deadlocked 2 := by
  have hok : Along (step 2) Harmless (initial 2 crowded) crowd := by
    simp [crowd, crowded, Along, Harmless, Full, step, State.initial, worker, setWorker, setQueue, State.goto, submit,
      Phase.holds]
    -- when the first worker goes on to `send`, the second one does not wait
    intro h
    rcases ReflTransGen.cases_head h with h | ⟨j, ⟨⟨task, hsending⟩, -⟩, -⟩
    · cases h
    · simp at hsending
  have hrun : ∃ s, run (step 2) (initial 2 crowded) crowd = some s ∧ s.Waits 0 1 ∧ s.phase = .waiting := by
    simp [crowd, crowded, run, step, State.initial, worker, setWorker, setQueue, State.goto, submit, State.shutdown,
      Phase.holds]
    exact ⟨⟨.finished, by simp⟩, by simp, by simp [crowded]⟩
  obtain ⟨s, hrun, hwaits, hphase⟩ := hrun
  exact ⟨s, hrun, hwaits, hphase, never_deadlocked hok hrun⟩

/-! ## A circle is for ever -/

theorem goto_waits {t : Nat ⊕ ι} (pc : SubmitPc) (ht : .inl x ≠ t) (h : s.Waits x y) : (s.goto t pc).Waits x y := by
  obtain ⟨⟨task, hsending⟩, hfull⟩ := h
  exact ⟨⟨task, by simpa [State.goto, ht] using hsending⟩, hfull⟩

/-- A worker that waits for one that is not out of `submit` goes on to wait. -/
theorem waits_of_next (hs : Next n s l s') (hx : s.Waits x y) (hy : s.threads (.inl y) ≠ .out) : s'.Waits x y := by
  obtain ⟨⟨task, hsending⟩, hstopped, hfull⟩ := id hx
  have houtside : ∀ {i}, s.threads (.inl i) = .out → y ≠ i := by
    rintro i hout rfl
    exact hy hout
  cases hs with
  | asks | locks | takes | drops | joins | returns => exact hx
  | @pops i _ _ _ hout =>
    obtain ⟨hsending', hstopped', -⟩ := setWorker_waits (houtside hout) hx
    exact ⟨hsending', hstopped', by simpa [setQueue, setWorker, houtside hout] using hfull⟩
  | stops hout => exact setWorker_waits (houtside hout) hx
  | turns hout => exact setWorker_waits (houtside hout) hx
  | finishes hout => exact setWorker_waits (houtside hout) hx
  | computes hout => exact setWorker_waits (houtside hout) hx
  | commands hout => exact setWorker_waits (houtside hout) hx
  | @submits i _ _ _ _ hout =>
    refine goto_waits _ (fun hxi => ?_) (setWorker_waits (houtside hout) hx)
    rw [hxi] at hsending
    cases hout.symm.trans hsending
  | calls => exact goto_waits _ (by simp) hx
  | @reads t task' shardIdx hpc =>
    have ht : .inl x ≠ t := by
      rintro rfl
      rcases hpc with hpc | hpc <;> cases hpc.symm.trans hsending
    exact goto_waits (.looking task' shardIdx) ht hx
  | misses hpc =>
    refine goto_waits _ ?_ hx
    rintro rfl
    cases hpc.symm.trans hsending
  | @divides t _ _ hpc =>
    have ht : .inl x ≠ t := by
      rintro rfl
      cases hpc.symm.trans hsending
    exact goto_waits .panicked ht hx
  | finds hpc =>
    refine goto_waits _ ?_ hx
    rintro rfl
    cases hpc.symm.trans hsending
  | refused hpc hidx =>
    refine goto_waits _ ?_ hx
    rintro rfl
    cases hpc.symm.trans hsending
    exact hstopped hidx
  | @sends t task' idx hpc hroom =>
    have ht : .inl x ≠ t := by
      rintro rfl
      cases hpc.symm.trans hsending
      exact Nat.not_lt_of_le hfull hroom
    obtain ⟨hsending', hstopped', -⟩ := goto_waits .leaving ht hx
    refine ⟨hsending', hstopped', ?_⟩
    by_cases hidx : y = idx
    · subst hidx
      simpa [setQueue] using Nat.le_succ_of_le hfull
    · simpa [setQueue, State.goto, hidx] using hfull
  | @leaves t hpc =>
    have ht : .inl x ≠ t := by
      rintro rfl
      cases hpc.symm.trans hsending
    exact goto_waits .out ht hx
  | parks hpc =>
    refine goto_waits _ ?_ hx
    rintro rfl
    cases hpc.symm.trans hsending

/-- **Workers that wait for each other in a circle never go on**, whatever the other threads and the shutdown do. -/
theorem circle_for_ever {ls : List (Label ι)} {i : Nat} (h : TransGen s.Waits i i)
    (hrun : run (step n) s ls = some s') : TransGen s'.Waits i i := by
  refine run_invariant' (P := fun s => TransGen s.Waits i i) (fun s l s' h hs => ?_) h hrun
  obtain ⟨j, hij, -⟩ := TransGen.head'_iff.mp h
  have hkept : ∀ x y, s.Waits x y → s.threads (.inl y) ≠ .out → s'.Waits x y := fun _ _ => waits_of_next (step_next hs)
  exact transGen_of_kept hkept (fun _ _ => not_out_of_waits) h (not_out_of_waits hij)

/-- A `submit` that is not harmless closes a circle. -/
theorem circle_of_not_harmless {t : Nat ⊕ ι} (hs : step n s (.submit t) = some s') (hno : ¬Harmless s (.submit t)) :
    ∃ i, TransGen s'.Waits i i := by
  have hnext := step_next hs
  -- who waits for a worker that is not out of `submit` goes on to wait
  have hkept : ∀ x y, s.Waits x y → s.threads (.inl y) ≠ .out → s'.Waits x y := fun _ _ => waits_of_next hnext
  have hpath : ∀ {i j}, ReflTransGen s.Waits j i → s.threads (.inl i) ≠ .out → ReflTransGen s'.Waits j i := fun h hi =>
    reflTransGen_of_kept hkept (fun _ _ => not_out_of_waits) h hi
  by_contra hacyclic
  refine hno ?_
  cases hnext with
  | reads hpc => rcases hpc with hpc | hpc <;> simp [Harmless, hpc]
  | misses hpc htable => simp [Harmless, hpc, htable]
  | divides hpc htable =>
    simp only [Harmless, hpc, htable]
    rintro len i hlen hne
    exact absurd (Option.some.inj hlen).symm hne
  | @finds _ task shardIdx len hpc htable hlen =>
    simp only [Harmless, hpc, htable]
    rintro len' i hlen' - rfl hfull hwaits
    cases hlen'
    exact hacyclic ⟨i, .head' ⟨⟨task, by simp [State.goto]⟩, hfull⟩ (hpath hwaits (by simp [hpc]))⟩
  | refused hpc hstopped => simp [Harmless, hpc, hstopped]
  | @sends _ task idx hpc hroom =>
    simp only [Harmless, hpc]
    intro hstopped hlast i task' hi hsending hwaits
    refine hacyclic ⟨i, .head' ⟨⟨task', ?_⟩, hstopped, ?_⟩ (hpath hwaits (by simp [hsending]))⟩
    · simpa [State.goto, setQueue, hi] using hsending
    · simpa [setQueue] using hlast
  | leaves hpc => simp [Harmless, hpc]

/-- A task that submits to the shard of the first worker. -/
def resubmit : Task := .submit .finished 0 .finished

/-- The only worker takes a task from a full channel, another thread fills the channel up again, and the task
submits. -/
def refill : List (Label Unit) :=
  [.worker 0 0, .call () resubmit 0, .submit (.inr ()), .submit (.inr ()), .submit (.inr ()), .submit (.inr ()),
    .worker 0 0, .submit (.inl 0), .submit (.inl 0)]

theorem refill_circle : ∃ s, run (step 1) (initial 1 fun _ => List.replicate CAPACITY resubmit) refill = some s ∧
    TransGen s.Waits 0 0 := by
  obtain ⟨k, hk⟩ : ∃ k, CAPACITY = k + 1 := ⟨9999, rfl⟩
  rw [show List.replicate CAPACITY resubmit = resubmit :: List.replicate k resubmit by rw [hk, List.replicate_succ]]
  simp [refill, run, step, State.initial, worker, setWorker, setQueue, call, State.goto, submit, Phase.holds, resubmit,
    hk]
  exact .single ⟨⟨.finished, by simp⟩, by simp, by simp [hk]⟩

/-- The only worker waits for itself. -/
theorem deadlocked_of_circle {s : State Unit} (h : TransGen s.Waits 0 0) : s.Deadlocked 1 := by
  obtain ⟨j, hj, -⟩ := TransGen.head'_iff.mp h
  obtain ⟨k, -, -, -, hlen⟩ := TransGen.tail'_iff.mp h
  refine ⟨⟨0, Nat.one_pos, Or.inl fun hnil => ?_⟩, fun i hi => ?_⟩
  · rw [hnil] at hlen
    exact absurd hlen (by decide)
  · obtain rfl := Nat.lt_one_iff.mp hi
    exact Or.inl ⟨j, hj⟩

/-- One worker, a full channel, and a task that submits to its own shard: the worker waits for itself, for ever. -/
theorem full_channel_deadlock :
    (∃ s, run (step 1) (initial 1 fun _ => List.replicate CAPACITY resubmit) refill = some s ∧
      ∀ (ls : List (Label Unit)) (s' : State Unit), run (step 1) s ls = some s' → s'.Deadlocked 1) ∧
    ¬ ∀ (n : Nat) (queues : Nat → List Task) (ls : List (Label Unit)) (s : State Unit),
      (∀ i, (queues i).length ≤ CAPACITY) → run (step n) (initial n queues) ls = some s → ¬s.Deadlocked n := by
  obtain ⟨s, hrun, hcircle⟩ := refill_circle
  refine ⟨⟨s, hrun, fun ls s' h => deadlocked_of_circle (circle_for_ever hcircle h)⟩, fun hall => ?_⟩
  exact hall 1 _ refill s (by simp) hrun (deadlocked_of_circle hcircle)

end Rnet.Worker.Deadlock
