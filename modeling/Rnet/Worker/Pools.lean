import Rnet.Lib.Runs
import Rnet.Worker.Defs
import Mathlib.Logic.Function.Basic

/-!
# Several pools in one process

Any number of `WorkerPool`s, whose owners go through `new` and `shutdown` one action a step, as the single pool of the
step by step model does, and one `GLOBAL_SENDERS` for all of them. `new` puts its senders there only if the table is
empty; a pool that finds other senders drops its own when `new` returns. `shutdown` takes whatever senders are there,
drops them, and joins its own workers.

So the shutdown of a pool takes the senders of another one, if they are in the table. Where no shutdown finds them
there, the pool that is in use is `Unharmed` in every run (`others_unharmed`).
-/

namespace Rnet.Worker.Pools

open Runs

/-- Where the owner of a pool stands, in `WorkerPool::new` and in `shutdown`. -/
inductive Phase
  /-- `k` workers are spawned -/
  | spawning (k : Nat)
  /-- with the write lock, before `is_none` -/
  | installing
  /-- the table was not empty, and `k` of the pool's own senders are dropped -/
  | refused (k : Nat)
  /-- `new` has returned -/
  | ready
  /-- with the write lock, before `take` -/
  | taking
  /-- with the write lock, and `k` of the senders taken are dropped -/
  | dropping (taken : Option Nat) (k : Nat)
  /-- `k` workers are joined -/
  | joining (k : Nat)
  /-- `shutdown` has returned -/
  | returned
  deriving DecidableEq

namespace Phase

/-- `shutdown` has taken what was in the table. -/
def past : Phase → Bool
  | .dropping _ _ | .joining _ | .returned => true
  | .spawning _ | .installing | .refused _ | .ready | .taking => false

/-- So many workers are spawned. -/
def spawned (count : Nat) : Phase → Nat
  | .spawning k => k
  | .installing | .refused _ | .ready | .taking | .dropping _ _ | .joining _ | .returned => count

end Phase

variable {ι : Type}

/-- Pools are numbered, and a worker or its channel is known by the pool and the position there. -/
structure State (ι : Type) where
  /-- `GLOBAL_SENDERS`, by the pool whose senders are there -/
  globalSenders : Option Nat
  /-- the pool whose owner holds the write lock -/
  writer : Option Nat
  /-- the threads that hold the read lock -/
  readers : List ι
  phases : Nat → Phase
  /-- the senders of the pool were put into the table; only recorded -/
  installed : Nat → Bool
  /-- so many senders of the pool are dropped -/
  dropped : Nat → Nat
  queues : Nat × Nat → List (Task ι)
  workers : Nat × Nat → WorkerPc ι
  threads : ι → SubmitPc ι
  /-- so many calls of `submit` each thread has begun -/
  calls : ι → Nat

inductive Label (ι : Type)
  /-- the next action of the pool's `new` -/
  | new (p : Nat)
  /-- the next action of the pool's `shutdown` -/
  | shutdown (p : Nat)
  /-- a thread calls `submit` -/
  | call (t : ι) (shardIdx : Nat)
  /-- the next action of the thread's `submit` -/
  | submit (t : ι)
  /-- the next action of a worker, whose task ends when it runs one -/
  | worker (c : Nat × Nat)
  /-- the task of a worker panics -/
  | panics (c : Nat × Nat)
  deriving DecidableEq

namespace State

/-- Before any pool is made. -/
def initial : State ι where
  globalSenders := none
  writer := none
  readers := []
  phases := fun _ => .spawning 0
  installed := fun _ => false
  dropped := fun _ => 0
  queues := fun _ => []
  workers := fun _ => .unborn
  threads := fun _ => .out
  calls := fun _ => 0

/-- The write lock can be had. -/
def free (s : State ι) : Bool := s.writer.isNone && s.readers.isEmpty

def enter (s : State ι) (p : Nat) (phase : Phase) : State ι := { s with phases := Function.update s.phases p phase }

/-- One more sender of the pool is dropped. -/
def dropSender (s : State ι) (p k : Nat) : State ι := { s with dropped := Function.update s.dropped p (k + 1) }

def setWorker (s : State ι) (c : Nat × Nat) (pc : WorkerPc ι) : State ι :=
  { s with workers := Function.update s.workers c pc }

def setQueue (s : State ι) (c : Nat × Nat) (queue : List (Task ι)) : State ι :=
  { s with queues := Function.update s.queues c queue }

/-- The next action of `WorkerPool::new`, which is called with `counts p`. -/
def new (counts : Nat → Nat) (s : State ι) (p : Nat) : Option (State ι) :=
  match s.phases p with
  | .spawning k =>
    if k < counts p then some ((s.setWorker (p, k) .recv).enter p (.spawning (k + 1)))
    else if s.free then some { s.enter p .installing with writer := some p }
    else none
  | .installing =>
    match s.globalSenders with
    | none =>
      some { s.enter p .ready with
        globalSenders := some p, writer := none, installed := Function.update s.installed p true }
    | some _ => some { s.enter p (.refused 0) with writer := none }
  | .refused k =>
    if k < counts p then some ((s.dropSender p k).enter p (.refused (k + 1))) else some (s.enter p .ready)
  | .ready | .taking | .dropping _ _ | .joining _ | .returned => none

/-- The next action of `WorkerPool::shutdown`. -/
def shutdown (counts : Nat → Nat) (s : State ι) (p : Nat) : Option (State ι) :=
  match s.phases p with
  | .ready => if s.free then some { s.enter p .taking with writer := some p } else none
  | .taking => some { s.enter p (.dropping s.globalSenders 0) with globalSenders := none }
  | .dropping none _ => some { s.enter p (.joining 0) with writer := none }
  | .dropping (some r) k =>
    if k < counts r then some ((s.dropSender r k).enter p (.dropping (some r) (k + 1)))
    else some { s.enter p (.joining 0) with writer := none }
  | .joining k =>
    if k < counts p then if (s.workers (p, k)).ended then some (s.enter p (.joining (k + 1))) else none
    else some (s.enter p .returned)
  | .spawning _ | .installing | .refused _ | .returned => none

/-- The next action of a worker. -/
def worker (s : State ι) (c : Nat × Nat) : Option (State ι) :=
  match s.workers c, s.queues c with
  | .recv, task :: rest | .tryRecv, task :: rest => some ((s.setWorker c (.running task)).setQueue c rest)
  | .recv, [] => if c.2 < s.dropped c.1 then some (s.setWorker c .stopped) else none
  | .running _, _ => some (s.setWorker c .tryRecv)
  | .tryRecv, [] => some (s.setWorker c .recv)
  | .unborn, _ | .stopped, _ | .panicked, _ => none

/-- The task of a worker panics: its thread ends, and the channel goes with its receiver. -/
def panics (s : State ι) (c : Nat × Nat) : Option (State ι) :=
  match s.workers c with
  | .running _ => some ((s.setWorker c .panicked).setQueue c [])
  | .unborn | .recv | .tryRecv | .stopped | .panicked => none

variable [DecidableEq ι]

def goto (s : State ι) (t : ι) (pc : SubmitPc ι) : State ι := { s with threads := Function.update s.threads t pc }

/-- A thread calls `submit`. -/
def call (s : State ι) (t : ι) (shardIdx : Nat) : Option (State ι) :=
  match s.threads t with
  | .out =>
    some { s.goto t (.called ⟨t, s.calls t, shardIdx⟩) with calls := Function.update s.calls t (s.calls t + 1) }
  | .called _ | .looking _ | .sending _ _ | .leaving | .panicked => none

/-- The next action of `submit`. The senders are borrowed from the table, which the read lock keeps as it is. -/
def submit (counts : Nat → Nat) (s : State ι) (t : ι) : Option (State ι) :=
  match s.threads t, s.globalSenders with
  | .called task, _ =>
    if s.writer.isSome then none else some { s.goto t (.looking task) with readers := t :: s.readers }
  | .looking _, none => some (s.goto t .leaving)
  | .looking task, some q =>
    if counts q = 0 then some { s.goto t .panicked with readers := s.readers.erase t }
    else some (s.goto t (.sending task (task.shardIdx % counts q)))
  | .sending task idx, some q =>
    if (s.workers (q, idx)).ended then some (s.goto t .leaving)
    else if (s.queues (q, idx)).length < CAPACITY then
      some ((s.goto t .leaving).setQueue (q, idx) (s.queues (q, idx) ++ [task]))
    else none
  | .leaving, _ => some { s.goto t .out with readers := s.readers.erase t }
  | .sending _ _, none | .out, _ | .panicked, _ => none

def step (counts : Nat → Nat) (s : State ι) : Label ι → Option (State ι)
  | .new p => s.new counts p
  | .shutdown p => s.shutdown counts p
  | .call t shardIdx => s.call t shardIdx
  | .submit t => s.submit counts t
  | .worker c => s.worker c
  | .panics c => s.panics c

end State

/-! ## What the steps do to the pools -/

namespace State

/-- Nothing changes in the table, the phases and the workers. -/
structure SamePools (s s' : State ι) : Prop where
  globalSenders : s'.globalSenders = s.globalSenders
  phases : s'.phases = s.phases
  installed : s'.installed = s.installed
  dropped : s'.dropped = s.dropped
  workers : s'.workers = s.workers

/-- One worker takes a step: it stops only where its sender is dropped. -/
structure OneWorks (s : State ι) (c : Nat × Nat) (s' : State ι) : Prop where
  globalSenders : s'.globalSenders = s.globalSenders
  phases : s'.phases = s.phases
  installed : s'.installed = s.installed
  dropped : s'.dropped = s.dropped
  others : ∀ d, d ≠ c → s'.workers d = s.workers d
  born : s'.workers c ≠ .unborn
  stopped : s'.workers c = .stopped → c.2 < s.dropped c.1

/-- Every step of an owner, with what it needs; of the others, what they leave alone. -/
inductive Next (counts : Nat → Nat) (s : State ι) : Label ι → State ι → Prop
  | spawns {p k : Nat} (hphase : s.phases p = .spawning k) (hk : k < counts p) :
      Next counts s (.new p) ((s.setWorker (p, k) .recv).enter p (.spawning (k + 1)))
  | newLocks {p k : Nat} (hphase : s.phases p = .spawning k) (hk : counts p ≤ k) (hfree : s.free = true) :
      Next counts s (.new p) { s.enter p .installing with writer := some p }
  | installs {p : Nat} (hphase : s.phases p = .installing) (htable : s.globalSenders = none) :
      Next counts s (.new p) { s.enter p .ready with
        globalSenders := some p, writer := none, installed := Function.update s.installed p true }
  | refuses {p q : Nat} (hphase : s.phases p = .installing) (htable : s.globalSenders = some q) :
      Next counts s (.new p) { s.enter p (.refused 0) with writer := none }
  | dropsOwn {p k : Nat} (hphase : s.phases p = .refused k) (hk : k < counts p) :
      Next counts s (.new p) ((s.dropSender p k).enter p (.refused (k + 1)))
  | made {p k : Nat} (hphase : s.phases p = .refused k) (hk : counts p ≤ k) : Next counts s (.new p) (s.enter p .ready)
  | shutdownLocks {p : Nat} (hphase : s.phases p = .ready) (hfree : s.free = true) :
      Next counts s (.shutdown p) { s.enter p .taking with writer := some p }
  | takes {p : Nat} (hphase : s.phases p = .taking) :
      Next counts s (.shutdown p) { s.enter p (.dropping s.globalSenders 0) with globalSenders := none }
  | drops {p r k : Nat} (hphase : s.phases p = .dropping (some r) k) (hk : k < counts r) :
      Next counts s (.shutdown p) ((s.dropSender r k).enter p (.dropping (some r) (k + 1)))
  | unlocks {p k : Nat} {taken : Option Nat} (hphase : s.phases p = .dropping taken k)
      (hall : ∀ r, taken = some r → counts r ≤ k) :
      Next counts s (.shutdown p) { s.enter p (.joining 0) with writer := none }
  | joins {p k : Nat} (hphase : s.phases p = .joining k) (hk : k < counts p)
      (hended : (s.workers (p, k)).ended = true) : Next counts s (.shutdown p) (s.enter p (.joining (k + 1)))
  | returns {p k : Nat} (hphase : s.phases p = .joining k) (hk : counts p ≤ k) :
      Next counts s (.shutdown p) (s.enter p .returned)
  | submits {l : Label ι} {s' : State ι} (h : SamePools s s') (hl : ∀ p, l ≠ .new p ∧ l ≠ .shutdown p) :
      Next counts s l s'
  | works {l : Label ι} {c : Nat × Nat} {s' : State ι} (h : OneWorks s c s') (hl : ∀ p, l ≠ .new p ∧ l ≠ .shutdown p) :
      Next counts s l s'

variable {counts : Nat → Nat} {s s' : State ι}

theorem oneWorks_setWorker {c : Nat × Nat} {pc : WorkerPc ι} (hborn : pc ≠ .unborn)
    (hstopped : pc = .stopped → c.2 < s.dropped c.1) : OneWorks s c (s.setWorker c pc) where
  globalSenders := rfl
  phases := rfl
  installed := rfl
  dropped := rfl
  others := fun _ hd => Function.update_of_ne hd _ _
  born := by simpa only [setWorker, Function.update_self] using hborn
  stopped := by simpa only [setWorker, Function.update_self] using hstopped

theorem OneWorks.setQueue {c : Nat × Nat} (h : OneWorks s c s') (d : Nat × Nat) (queue : List (Task ι)) :
    OneWorks s c (s'.setQueue d queue) where
  globalSenders := h.globalSenders
  phases := h.phases
  installed := h.installed
  dropped := h.dropped
  others := h.others
  born := h.born
  stopped := h.stopped

theorem worker_works {c : Nat × Nat} (h : s.worker c = some s') : OneWorks s c s' := by
  unfold worker at h
  split at h
  · cases h
    exact (oneWorks_setWorker (by simp) (by simp)).setQueue _ _
  · cases h
    exact (oneWorks_setWorker (by simp) (by simp)).setQueue _ _
  · split at h
    · rename_i hdropped
      cases h
      exact oneWorks_setWorker (by simp) fun _ => hdropped
    · cases h
  · cases h
    exact oneWorks_setWorker (by simp) (by simp)
  · cases h
    exact oneWorks_setWorker (by simp) (by simp)
  all_goals cases h

theorem panics_works {c : Nat × Nat} (h : s.panics c = some s') : OneWorks s c s' := by
  unfold panics at h
  split at h
  · cases h
    exact (oneWorks_setWorker (by simp) (by simp)).setQueue _ _
  all_goals cases h

theorem call_same [DecidableEq ι] {t : ι} {shardIdx : Nat} (h : s.call t shardIdx = some s') : SamePools s s' := by
  unfold call at h
  split at h
  · cases h
    exact ⟨rfl, rfl, rfl, rfl, rfl⟩
  all_goals cases h

theorem submit_same [DecidableEq ι] {t : ι} (h : s.submit counts t = some s') : SamePools s s' := by
  unfold submit at h
  split at h
  · split at h
    · cases h
    · cases h
      exact ⟨rfl, rfl, rfl, rfl, rfl⟩
  · cases h
    exact ⟨rfl, rfl, rfl, rfl, rfl⟩
  · split at h
    all_goals
      cases h
      exact ⟨rfl, rfl, rfl, rfl, rfl⟩
  · split at h
    · cases h
      exact ⟨rfl, rfl, rfl, rfl, rfl⟩
    · split at h
      · cases h
        exact ⟨rfl, rfl, rfl, rfl, rfl⟩
      · cases h
  · cases h
    exact ⟨rfl, rfl, rfl, rfl, rfl⟩
  all_goals cases h

theorem new_next {p : Nat} (h : s.new counts p = some s') : Next counts s (.new p) s' := by
  unfold new at h
  split at h
  · rename_i hphase
    split at h
    · rename_i hk
      cases h
      exact .spawns hphase hk
    · rename_i hk
      split at h
      · rename_i hfree
        cases h
        exact .newLocks hphase (Nat.le_of_not_lt hk) hfree
      · cases h
  · rename_i hphase
    split at h
    · rename_i htable
      cases h
      exact .installs hphase htable
    · rename_i htable
      cases h
      exact .refuses hphase htable
  · rename_i hphase
    split at h
    · rename_i hk
      cases h
      exact .dropsOwn hphase hk
    · rename_i hk
      cases h
      exact .made hphase (Nat.le_of_not_lt hk)
  all_goals cases h

theorem shutdown_next {p : Nat} (h : s.shutdown counts p = some s') : Next counts s (.shutdown p) s' := by
  unfold shutdown at h
  split at h
  · rename_i hphase
    split at h
    · rename_i hfree
      cases h
      exact .shutdownLocks hphase hfree
    · cases h
  · rename_i hphase
    cases h
    exact .takes hphase
  · rename_i hphase
    cases h
    exact .unlocks hphase (by simp)
  · rename_i hphase
    split at h
    · rename_i hk
      cases h
      exact .drops hphase hk
    · rename_i hk
      cases h
      exact .unlocks hphase fun r hr => Option.some.inj hr ▸ Nat.le_of_not_lt hk
  · rename_i hphase
    split at h
    · rename_i hk
      split at h
      · rename_i hended
        cases h
        exact .joins hphase hk hended
      · cases h
    · rename_i hk
      cases h
      exact .returns hphase (Nat.le_of_not_lt hk)
  all_goals cases h

theorem step_next [DecidableEq ι] {l : Label ι} (h : step counts s l = some s') : Next counts s l s' := by
  cases l with
  | new p => exact new_next h
  | shutdown p => exact shutdown_next h
  | call t shardIdx => exact .submits (call_same h) (by simp)
  | submit t => exact .submits (submit_same h) (by simp)
  | worker c => exact .works (worker_works h) (by simp)
  | panics c => exact .works (panics_works h) (by simp)

end State

open Rnet.Worker.Pools.State

variable {counts : Nat → Nat} {s s' : State ι} {l : Label ι}

/-! ## Pools that are left alone -/

/-- The senders of the pool were put into the table, and its shutdown has not begun. -/
def InUse (s : State ι) (q : Nat) : Prop := s.installed q = true ∧ s.phases q = .ready

/-- A shutdown that takes finds no senders of another pool, and no pool without workers is installed once another one
was shut down. -/
def Spares (counts : Nat → Nat) (s : State ι) : Label ι → Prop
  | .shutdown p => s.phases p = .taking → ∀ q, s.globalSenders = some q → q = p
  | .new p => s.phases p = .installing → s.globalSenders = none → counts p = 0 →
      ∀ q, q ≠ p → (s.phases q).past = false
  | .call _ _ | .submit _ | .worker _ | .panics _ => True

/-- What a pool may be like in each phase: it owns what it drops, and loses no sender before its shutdown. -/
def Phase.Fits (p : Nat) (installed : Bool) (dropped : Nat) : Phase → Prop
  | .spawning _ | .installing => installed = false ∧ dropped = 0
  | .refused _ => installed = false
  | .ready => installed = true → dropped = 0
  | .dropping taken _ => ∀ r, taken = some r → r = p
  | .taking | .joining _ | .returned => True

/-- What holds of the pools as long as every shutdown takes its own senders. -/
structure Apart (counts : Nat → Nat) (s : State ι) : Prop where
  table : ∀ q, InUse s q → s.globalSenders = some q
  fits : ∀ p, (s.phases p).Fits p (s.installed p) (s.dropped p)
  stopped : ∀ q i, s.workers (q, i) = .stopped → 0 < s.dropped q
  born : ∀ q i, i < (s.phases q).spawned (counts q) → s.workers (q, i) ≠ .unborn
  alone : ∀ q, InUse s q → counts q = 0 → ∀ p, p ≠ q → (s.phases p).past = false

theorem Apart.initial : Apart counts (initial : State ι) where
  table := fun _ h => absurd h.1 (by simp [State.initial])
  fits := fun _ => ⟨rfl, rfl⟩
  stopped := fun _ _ h => by cases h
  born := fun _ _ h => absurd h (Nat.not_lt_zero _)
  alone := fun _ h => absurd h.1 (by simp [State.initial])

/-- What the phase of a pool says about it. -/
theorem Apart.fits_of (h : Apart counts s) {p : Nat} {phase : Phase} (hphase : s.phases p = phase) :
    phase.Fits p (s.installed p) (s.dropped p) := hphase ▸ h.fits p

theorem Apart.same (h : Apart counts s) (hs : SamePools s s') : Apart counts s' := by
  obtain ⟨htable, hphases, hinstalled, hdropped, hworkers⟩ := hs
  constructor <;> simp only [InUse, htable, hphases, hinstalled, hdropped, hworkers]
  · exact h.table
  · exact h.fits
  · exact h.stopped
  · exact h.born
  · exact h.alone

theorem Apart.works {c : Nat × Nat} (h : Apart counts s) (hs : OneWorks s c s') : Apart counts s' := by
  obtain ⟨htable, hphases, hinstalled, hdropped, hothers, hborn, hstopped⟩ := hs
  constructor <;> simp only [InUse, htable, hphases, hinstalled, hdropped]
  · exact h.table
  · exact h.fits
  · intro q i hi
    by_cases hc : (q, i) = c
    · subst hc
      exact Nat.zero_lt_of_lt (hstopped hi)
    · exact h.stopped q i (hothers _ hc ▸ hi)
  · intro q i hi
    by_cases hc : (q, i) = c
    · exact hc ▸ hborn
    · exact hothers _ hc ▸ h.born q i hi
  · exact h.alone

/-! ### Owners

An owner's step changes the phase of its pool, so what is said about another pool stays as it was. -/

theorem phases_enter_self (s : State ι) (p : Nat) (phase : Phase) : (s.enter p phase).phases p = phase :=
  Function.update_self ..

theorem phases_enter_of_ne {p q : Nat} (h : q ≠ p) (phase : Phase) : (s.enter p phase).phases q = s.phases q :=
  Function.update_of_ne h ..

/-- A pool that has another phase is in use as before. -/
theorem inUse_enter {p q : Nat} {phase : Phase} (hready : phase = .ready → s.installed p = false)
    (h : InUse (s.enter p phase) q) : q ≠ p ∧ InUse s q := by
  have hq : q ≠ p := by
    rintro rfl
    have hnot := hready ((phases_enter_self s q phase).symm.trans h.2)
    exact Bool.false_ne_true (hnot.symm.trans h.1)
  exact ⟨hq, h.1, (phases_enter_of_ne hq phase).symm.trans h.2⟩

theorem Apart.enter (h : Apart counts s) (p : Nat) (phase : Phase) (hfits : phase.Fits p (s.installed p) (s.dropped p))
    (hready : phase = .ready → s.installed p = false)
    (hborn : ∀ i, i < phase.spawned (counts p) → s.workers (p, i) ≠ .unborn)
    (hpast : phase.past = true → (s.phases p).past = true ∨ ∀ q, ¬InUse s q) : Apart counts (s.enter p phase) where
  table := fun q hq => h.table q (inUse_enter hready hq).2
  fits := by
    intro q
    by_cases hqp : q = p
    · subst hqp
      rw [phases_enter_self]
      exact hfits
    · rw [phases_enter_of_ne hqp]
      exact h.fits q
  stopped := h.stopped
  born := by
    intro q i hi
    by_cases hqp : q = p
    · subst hqp
      exact hborn i (phases_enter_self s q phase ▸ hi)
    · exact h.born q i (phases_enter_of_ne hqp phase ▸ hi)
  alone := by
    intro q hq hcount r hr
    have huse := (inUse_enter hready hq).2
    have halone := h.alone q huse hcount r hr
    by_cases hrp : r = p
    · subst hrp
      rw [phases_enter_self]
      by_contra hyes
      rcases hpast ((Bool.not_eq_false _).mp hyes) with hpast | hnone
      · exact Bool.false_ne_true (halone.symm.trans hpast)
      · exact hnone q huse
    · rwa [phases_enter_of_ne hrp]

/-- The pool goes on after its workers are spawned, and its shutdown takes nothing. -/
theorem Apart.goes (h : Apart counts s) {p : Nat} {before : Phase} (hphase : s.phases p = before) (phase : Phase)
    (hspawned : before.spawned (counts p) = counts p) (hfits : phase.Fits p (s.installed p) (s.dropped p))
    (hready : phase = .ready → s.installed p = false) (hnot : phase.spawned (counts p) = counts p)
    (hpast : phase.past = true → before.past = true) : Apart counts (s.enter p phase) := by
  refine h.enter p phase hfits hready (fun i hi => h.born p i ?_) fun hp => Or.inl ?_
  · rw [hphase, hspawned]
    rwa [hnot] at hi
  · rw [hphase]
    exact hpast hp

/-- A sender is dropped of a pool that may lose it. -/
theorem Apart.dropSender (h : Apart counts s) {p : Nat} (k : Nat)
    (hfits : (s.phases p).Fits p (s.installed p) (k + 1)) : Apart counts (s.dropSender p k) where
  table := h.table
  fits := by
    intro q
    by_cases hqp : q = p
    · subst hqp
      simpa only [State.dropSender, Function.update_self] using hfits
    · simpa only [State.dropSender, Function.update_of_ne hqp] using h.fits q
  stopped := by
    intro q i hi
    by_cases hqp : q = p
    · subst hqp
      simp only [State.dropSender, Function.update_self]
      exact Nat.succ_pos k
    · simp only [State.dropSender, Function.update_of_ne hqp]
      exact h.stopped q i hi
  born := h.born
  alone := h.alone

/-- The shutdown of a pool takes its own senders, or finds none. -/
theorem Apart.takes (h : Apart counts s) {p : Nat} (hphase : s.phases p = .taking)
    (hspares : ∀ q, s.globalSenders = some q → q = p) :
    Apart counts { s.enter p (.dropping s.globalSenders 0) with globalSenders := none } := by
  have hnone : ∀ q, ¬InUse s q := by
    intro q hq
    obtain rfl := hspares q (h.table q hq)
    cases hphase.symm.trans hq.2
  have hready : Phase.dropping s.globalSenders 0 = .ready → s.installed p = false := fun hr => by cases hr
  have henter := h.enter p (.dropping s.globalSenders 0) hspares hready
    (fun i hi => h.born p i (by rwa [hphase])) fun _ => Or.inr hnone
  exact { henter with table := fun q hq => absurd (inUse_enter hready hq).2 (hnone q) }

/-- A pool whose `new` found the table empty. -/
theorem Apart.installs (h : Apart counts s) {p : Nat} (hphase : s.phases p = .installing)
    (htable : s.globalSenders = none) (hspares : counts p = 0 → ∀ q, q ≠ p → (s.phases q).past = false) :
    Apart counts { s.enter p .ready with
      globalSenders := some p, writer := none, installed := Function.update s.installed p true } := by
  have hnone : ∀ q, ¬InUse s q := fun q hq => by cases (h.table q hq).symm.trans htable
  obtain ⟨hinstalled, hdropped⟩ := h.fits_of hphase
  have henter := h.goes hphase .ready rfl (fun _ => hdropped) (fun _ => hinstalled) rfl fun hp => by cases hp
  -- the pool is the only one in use
  have honly : ∀ q, Function.update s.installed p true q = true ∧ (s.enter p .ready).phases q = .ready → q = p := by
    rintro q ⟨hq, hready⟩
    by_contra hqp
    rw [Function.update_of_ne hqp] at hq
    rw [phases_enter_of_ne hqp] at hready
    exact hnone q ⟨hq, hready⟩
  constructor
  · exact fun q hq => congrArg some (honly q hq).symm
  · intro q
    have hfits := henter.fits q
    by_cases hqp : q = p
    · subst hqp
      rw [phases_enter_self] at hfits ⊢
      exact fun _ => hdropped
    · change ((s.enter p .ready).phases q).Fits q (Function.update s.installed p true q) (s.dropped q)
      rwa [Function.update_of_ne hqp]
  · exact henter.stopped
  · exact henter.born
  · intro q hq hcount r hr
    obtain rfl := honly q hq
    exact (congrArg Phase.past (phases_enter_of_ne hr .ready)).trans (hspares hcount r hr)

theorem Apart.step [DecidableEq ι] (h : Apart counts s) (hok : Spares counts s l) (hs : step counts s l = some s') :
    Apart counts s' := by
  cases step_next hs with
  | @spawns p k hphase hk =>
    have hworks : Apart counts (s.setWorker (p, k) .recv) := h.works (oneWorks_setWorker (by simp) (by simp))
    have hfresh : s.installed p = false ∧ s.dropped p = 0 := h.fits_of hphase
    refine hworks.enter p (.spawning (k + 1)) hfresh (fun hr => by cases hr) (fun i hi => ?_)
      fun hp => by cases hp
    by_cases hik : i = k
    · subst hik
      simp [setWorker]
    · refine hworks.born p i ?_
      change i < (s.phases p).spawned (counts p)
      rw [hphase]
      have hlt : i < k + 1 := hi
      exact show i < k by omega
  | @newLocks p k hphase hk hfree =>
    have hfresh : s.installed p = false ∧ s.dropped p = 0 := h.fits_of hphase
    refine (h.enter p .installing hfresh (fun hr => by cases hr) (fun i hi => h.born p i ?_)
      fun hp => by cases hp).same ⟨rfl, rfl, rfl, rfl, rfl⟩
    rw [hphase]
    exact Nat.lt_of_lt_of_le hi hk
  | installs hphase htable => exact h.installs hphase htable (hok hphase htable)
  | @refuses p q hphase htable =>
    exact (h.goes hphase (.refused 0) rfl (h.fits_of hphase).1 (fun hr => by cases hr) rfl fun hp => by cases hp).same
      ⟨rfl, rfl, rfl, rfl, rfl⟩
  | @dropsOwn p k hphase hk =>
    have hinstalled : s.installed p = false := h.fits_of hphase
    have hdrop := h.dropSender k (by rw [hphase]; exact hinstalled)
    exact hdrop.goes hphase (.refused (k + 1)) rfl hinstalled (fun hr => by cases hr) rfl fun hp => by cases hp
  | @made p k hphase hk =>
    have hinstalled : s.installed p = false := h.fits_of hphase
    refine h.goes hphase .ready rfl (fun hyes => ?_) (fun _ => hinstalled) rfl fun hp => by cases hp
    cases hinstalled.symm.trans hyes
  | shutdownLocks hphase hfree =>
    exact (h.goes hphase .taking rfl trivial (fun hr => by cases hr) rfl fun hp => by cases hp).same
      ⟨rfl, rfl, rfl, rfl, rfl⟩
  | takes hphase => exact h.takes hphase (hok hphase)
  | @drops p r k hphase hk =>
    have hown := h.fits_of hphase
    obtain rfl := hown r rfl
    have hdrop := h.dropSender k (by rw [hphase]; exact hown)
    exact hdrop.goes hphase (.dropping (some r) (k + 1)) rfl hown (fun hr => by cases hr) rfl fun _ => rfl
  | unlocks hphase hall =>
    exact (h.goes hphase (.joining 0) rfl trivial (fun hr => by cases hr) rfl fun _ => rfl).same
      ⟨rfl, rfl, rfl, rfl, rfl⟩
  | @joins p k hphase hk hended =>
    exact h.goes hphase (.joining (k + 1)) rfl trivial (fun hr => by cases hr) rfl fun _ => rfl
  | returns hphase hk => exact h.goes hphase .returned rfl trivial (fun hr => by cases hr) rfl fun _ => rfl
  | submits hsame hl => exact h.same hsame
  | works hone hl => exact h.works hone

/-! ## What the other pools notice -/

variable [DecidableEq ι]

/-- The workers of the pool go on, and what is submitted is put into their channels. A worker that has ended did so in a
task that panicked. -/
structure Unharmed (counts : Nat → Nat) (s : State ι) (q : Nat) : Prop where
  works : ∀ i, i < counts q → s.workers (q, i) = .panicked ∨ s.workers (q, i) = .recv ∧ s.queues (q, i) = [] ∨
    ∃ s', step counts s (.worker (q, i)) = some s'
  stays : ∀ i, i < counts q → s.workers (q, i) ≠ .stopped ∧
    ∀ s', step counts s (.worker (q, i)) = some s' → s'.workers (q, i) ≠ .stopped
  enqueues : ∀ t shardIdx, s.threads t = .out → s.writer = none →
    (s.workers (q, shardIdx % counts q)).ended = false → (s.queues (q, shardIdx % counts q)).length < CAPACITY →
    ∃ s', run (step counts) s [.call t shardIdx, .submit t, .submit t, .submit t, .submit t] = some s' ∧
      s'.threads t = .out ∧
      s'.queues (q, shardIdx % counts q) = s.queues (q, shardIdx % counts q) ++ [⟨t, s.calls t, shardIdx⟩]

/-- A whole call of `submit` that finds the senders of a pool, with room in the channel of its shard. -/
theorem submit_enqueues {q shardIdx : Nat} {t : ι} (hout : s.threads t = .out) (hfree : s.writer = none)
    (htable : s.globalSenders = some q) (hcount : counts q ≠ 0)
    (halive : (s.workers (q, shardIdx % counts q)).ended = false)
    (hroom : (s.queues (q, shardIdx % counts q)).length < CAPACITY) :
    ∃ s', run (step counts) s [.call t shardIdx, .submit t, .submit t, .submit t, .submit t] = some s' ∧
      s'.threads t = .out ∧
      s'.queues (q, shardIdx % counts q) = s.queues (q, shardIdx % counts q) ++ [⟨t, s.calls t, shardIdx⟩] := by
  simp [run, step, call, submit, goto, setQueue, hout, hfree, htable, hcount, halive, hroom]

theorem Apart.unharmed (h : Apart counts s) {p q : Nat} (hpq : p ≠ q) (hpast : (s.phases p).past = true)
    (hq : InUse s q) : Unharmed counts s q := by
  have htable := h.table q hq
  have hwhole : s.dropped q = 0 := h.fits_of hq.2 hq.1
  have hcount : counts q ≠ 0 := fun hzero => Bool.false_ne_true ((h.alone q hq hzero p hpq).symm.trans hpast)
  have hstopped : ∀ i, s.workers (q, i) ≠ .stopped := fun i hi => Nat.ne_of_gt (h.stopped q i hi) hwhole
  have hborn : ∀ i, i < counts q → s.workers (q, i) ≠ .unborn := by
    intro i hi
    exact h.born q i (by rwa [hq.2])
  refine ⟨fun i hi => ?_, fun i hi => ⟨hstopped i, fun s' hs => ?_⟩, fun t shardIdx hout hfree halive hroom =>
    submit_enqueues hout hfree htable hcount halive hroom⟩
  · cases hpc : s.workers (q, i) with
    | unborn => exact absurd hpc (hborn i hi)
    | stopped => exact absurd hpc (hstopped i)
    | panicked => exact Or.inl rfl
    | running task =>
      refine Or.inr (Or.inr ?_)
      simp [State.step, worker, hpc]
    | recv =>
      cases hqueue : s.queues (q, i) with
      | nil => exact Or.inr (Or.inl ⟨rfl, rfl⟩)
      | cons task rest =>
        refine Or.inr (Or.inr ?_)
        simp [State.step, worker, hpc, hqueue]
    | tryRecv =>
      refine Or.inr (Or.inr ?_)
      cases hqueue : s.queues (q, i) <;> simp [State.step, worker, hpc, hqueue]
  · intro hs'
    have hlt := (worker_works hs).stopped hs'
    rw [show s.dropped (q, i).1 = 0 from hwhole] at hlt
    exact Nat.not_lt_zero _ hlt

/-- **The shutdown of a pool leaves the pool that is in use unharmed**, in every run in which no shutdown finds the
senders of another pool in the table. -/
theorem others_unharmed {ls : List (Label ι)} (hok : Along (step counts) (Spares counts) initial ls)
    (hrun : run (step counts) initial ls = some s) {p q : Nat} (hpq : p ≠ q) (hpast : (s.phases p).past = true)
    (hq : InUse s q) : Unharmed counts s q :=
  (run_invariant (P := Apart counts) (fun _ _ _ h hl hs => h.step hl hs) .initial hok hrun).unharmed hpq hpast hq

/-- One pool is shut down, and the next one is made. -/
def successors : List (Label Unit) :=
  [.new 0, .new 0, .new 0, .shutdown 0, .shutdown 0, .shutdown 0, .shutdown 0, .worker (0, 0), .shutdown 0, .shutdown 0,
    .new 1, .new 1, .new 1]

theorem others_unharmed_two : ∃ s, run (step fun _ => 1) initial successors = some s ∧ Unharmed (fun _ => 1) s 1 := by
  have hok : Along (step fun _ => 1) (Spares fun _ => 1) initial successors := by
    -- the only senders that a shutdown finds are those of pool 0
    refine .of_check (b := fun s l => s.globalSenders = none || s.globalSenders = some 0 && l = .shutdown 0)
      (fun s l htest => ?_) (by decide)
    cases l with
    | shutdown p =>
      intro _ q hq
      rcases Bool.or_eq_true_iff.mp htest with hnone | hzero
      · rw [of_decide_eq_true hnone] at hq
        cases hq
      · obtain ⟨htable, hp⟩ := Bool.and_eq_true_iff.mp hzero
        rw [of_decide_eq_true htable] at hq
        cases hq
        cases of_decide_eq_true hp
        rfl
    | new p => exact fun _ _ hcount => absurd hcount Nat.one_ne_zero
    | call t shardIdx => trivial
    | submit t => trivial
    | worker c => trivial
    | panics c => trivial
  obtain ⟨s, hrun, hs⟩ := exists_of_any (o := run (step fun _ => 1) initial successors)
    (b := fun s => (s.phases 0).past && (s.installed 1 && s.phases 1 = .ready)) (by decide)
  obtain ⟨hpast, huse⟩ := Bool.and_eq_true_iff.mp hs
  obtain ⟨hinstalled, hready⟩ := Bool.and_eq_true_iff.mp huse
  exact ⟨s, hrun, others_unharmed hok hrun (by decide : (0 : Nat) ≠ 1) hpast ⟨hinstalled, of_decide_eq_true hready⟩⟩

/-- A second pool is made while the first one is in use, and is shut down; then a task is submitted. -/
def second : List (Label Unit) :=
  [.new 0, .new 0, .new 0, .new 1, .new 1, .new 1, .new 1, .new 1, .shutdown 1, .shutdown 1, .shutdown 1, .shutdown 1,
    .worker (1, 0), .shutdown 1, .shutdown 1, .call () 0, .submit (), .submit (), .submit (), .worker (0, 0)]

/-- The second pool takes the senders of the first one: the task is in no channel, and the worker of the first pool
ends. -/
theorem second_takes_first : (∃ s, run (step fun _ => 1) initial second = some s ∧ s.phases 1 = .returned ∧ InUse s 0 ∧
      s.threads () = .out ∧ s.queues (0, 0) = [] ∧ s.workers (0, 0) = .stopped) ∧
    ¬ ∀ (counts : Nat → Nat) (ls : List (Label Unit)) (s : State Unit), run (step counts) initial ls = some s →
      ∀ p q, p ≠ q → (s.phases p).past = true → InUse s q → Unharmed counts s q := by
  obtain ⟨s, hrun, hs⟩ := exists_of_any (o := run (step fun _ => 1) initial second)
    (b := fun s => decide (s.phases 1 = .returned ∧ (s.installed 0 = true ∧ s.phases 0 = .ready) ∧ s.threads () = .out ∧
      s.queues (0, 0) = [] ∧ s.workers (0, 0) = .stopped)) (by decide)
  obtain ⟨hreturned, huse, hout, hqueue, hstopped⟩ := of_decide_eq_true hs
  refine ⟨⟨s, hrun, hreturned, huse, hout, hqueue, hstopped⟩, fun hall => ?_⟩
  have hunharmed := hall (fun _ => 1) second s hrun 1 0 (by decide) (by rw [hreturned]; rfl) huse
  exact (hunharmed.stays 0 Nat.one_pos).1 hstopped

end Rnet.Worker.Pools
