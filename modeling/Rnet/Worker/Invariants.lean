import Rnet.Worker.Defs
import Mathlib.Data.List.Nodup

/-!
# What the steps of the worker pool keep

* `Guarded`: the read lock, the table and where the threads stand fit together;
* `Numbered`: the calls of a thread are numbered in the order of its calls;
* `Kept`: what was sent on a channel was started, or is in it still, and a worker runs one task at a time.
-/

namespace Rnet.Worker

open Runs State

variable {ι : Type} {n : Nat}

/-- The table of a pool, by where its owner stands. -/
def Phase.table (n : Nat) : Phase → Option Nat
  | .ready | .taking => some n
  | .spawning _ | .installing | .dropping _ | .joining _ | .returned => none

/-- So many workers have a thread. -/
def Phase.spawned (n : Nat) : Phase → Nat
  | .spawning k => k
  | .installing | .ready | .taking | .dropping _ | .joining _ | .returned => n

/-! ## The lock and the table -/

/-- The locks exclude each other, and `send` goes on while the table is there. -/
structure Guarded (n : Nat) (s : State ι) : Prop where
  reader : ∀ t, t ∈ s.readers ↔ (s.threads t).reads = true
  nodup : s.readers.Nodup
  apart : s.phase.writes = true → s.readers = []
  table : s.globalSenders = s.phase.table n
  sender : ∀ t task idx, s.threads t = .sending task idx → s.globalSenders = some n ∧ idx = task.shardIdx % n
  born : ∀ i < s.phase.spawned n, s.workers i ≠ .unborn
  fresh : ∀ k, s.phase = .spawning k → ∀ i, k ≤ i → s.workers i = .unborn
  gone : ∀ i, s.workers i = .stopped → s.phase.disconnected i = true

theorem Guarded.initial : Guarded n (initial : State ι) where
  reader := fun t => by simp [State.initial, SubmitPc.reads]
  nodup := List.nodup_nil
  apart := fun _ => rfl
  table := rfl
  sender := fun t task idx h => by cases h
  born := fun i hi => absurd hi (Nat.not_lt_zero i)
  fresh := fun _ _ _ _ => rfl
  gone := nofun

/-- With the write lock held no thread is in `send`. -/
theorem Guarded.idle {s : State ι} (hg : Guarded n s) (hfree : s.readers = []) (t : ι) (task : Task ι) (idx : Nat) :
    s.threads t ≠ .sending task idx := by
  intro hpc
  have hmem : t ∈ s.readers := (hg.reader t).mpr (by rw [hpc]; rfl)
  rw [hfree] at hmem
  cases hmem

/-- The table is there from the end of `new` to the `take` of `shutdown`. -/
theorem Guarded.installed {s : State ι} {len : Nat} (hg : Guarded n s) (htable : s.globalSenders = some len) :
    (s.phase = .ready ∨ s.phase = .taking) ∧ s.phase.spawned n = n := by
  have htable' : s.phase.table n = some len := by rw [← hg.table, htable]
  cases hphase : s.phase <;> rw [hphase] at htable' <;> cases htable'
  · exact ⟨Or.inl rfl, rfl⟩
  · exact ⟨Or.inr rfl, rfl⟩

variable [DecidableEq ι] {s s' : State ι} {l : Label ι}

/-- A step of a thread that neither takes nor releases the lock. -/
theorem Guarded.goes (hg : Guarded n s) {t : ι} {pc : SubmitPc ι} (hreads : pc.reads = (s.threads t).reads)
    (hpc : ∀ task idx, pc = .sending task idx → s.globalSenders = some n ∧ idx = task.shardIdx % n) :
    Guarded n (s.goto t pc) where
  reader := fun t' => by
    by_cases ht : t' = t
    · subst ht
      simpa [goto, hreads] using hg.reader t'
    · simpa [goto, Function.update_of_ne ht] using hg.reader t'
  nodup := hg.nodup
  apart := hg.apart
  table := hg.table
  sender := fun t' task idx h => by
    by_cases ht : t' = t
    · subst ht
      exact hpc task idx (by simpa [goto] using h)
    · exact hg.sender t' task idx (by simpa [goto, Function.update_of_ne ht] using h)
  born := hg.born
  fresh := hg.fresh
  gone := hg.gone

/-- A thread takes the lock. -/
theorem Guarded.enters (hg : Guarded n s) {t : ι} {task : Task ι} (hpc : s.threads t = .called task)
    (hfree : s.phase.writes = false) : Guarded n { s.goto t (.looking task) with readers := t :: s.readers } where
  reader := fun t' => by
    by_cases ht : t' = t
    · subst ht
      simp [goto, SubmitPc.reads]
    · simpa [goto, Function.update_of_ne ht, ht] using hg.reader t'
  nodup := by
    refine List.nodup_cons.mpr ⟨fun hmem => ?_, hg.nodup⟩
    have hreads := (hg.reader t).mp hmem
    rw [hpc] at hreads
    cases hreads
  apart := fun hw => by
    have hw' : s.phase.writes = true := hw
    rw [hfree] at hw'
    cases hw'
  table := hg.table
  sender := fun t' task' idx h => by
    by_cases ht : t' = t
    · subst ht
      simp [goto] at h
    · exact hg.sender t' task' idx (by simpa [goto, Function.update_of_ne ht] using h)
  born := hg.born
  fresh := hg.fresh
  gone := hg.gone

/-- A thread releases the lock. -/
theorem Guarded.releases (hg : Guarded n s) {t : ι} {pc : SubmitPc ι} (hpc : pc.reads = false) :
    Guarded n { s.goto t pc with readers := s.readers.erase t } where
  reader := fun t' => by
    by_cases ht : t' = t
    · subst ht
      simp [goto, hpc, hg.nodup.mem_erase_iff]
    · simpa [goto, Function.update_of_ne ht, hg.nodup.mem_erase_iff, ht] using hg.reader t'
  nodup := hg.nodup.erase t
  apart := fun hw => by
    show s.readers.erase t = []
    rw [hg.apart hw, List.erase_nil]
  table := hg.table
  sender := fun t' task idx h => by
    by_cases ht : t' = t
    · subst ht
      have hpc' : pc = .sending task idx := by simpa [goto] using h
      rw [hpc'] at hpc
      cases hpc
    · exact hg.sender t' task idx (by simpa [goto, Function.update_of_ne ht] using h)
  born := hg.born
  fresh := hg.fresh
  gone := hg.gone

omit [DecidableEq ι] in
/-- A worker goes on. -/
theorem Guarded.works (hg : Guarded n s) {i : Nat} {pc : WorkerPc ι} (hold : s.workers i ≠ .unborn)
    (hpc : pc ≠ .unborn) (hstop : pc = .stopped → s.phase.disconnected i = true) : Guarded n (s.setWorker i pc) where
  reader := hg.reader
  nodup := hg.nodup
  apart := hg.apart
  table := hg.table
  sender := hg.sender
  born := fun j hj => by
    by_cases hji : j = i
    · subst hji
      simpa [setWorker] using hpc
    · simpa [setWorker, Function.update_of_ne hji] using hg.born j hj
  fresh := fun k hphase j hj => by
    have hji : j ≠ i := by
      rintro rfl
      exact hold (hg.fresh k hphase j hj)
    simpa [setWorker, Function.update_of_ne hji] using hg.fresh k hphase j hj
  gone := fun j h => by
    by_cases hji : j = i
    · subst hji
      exact hstop (by simpa [setWorker] using h)
    · exact hg.gone j (by simpa [setWorker, Function.update_of_ne hji] using h)

omit [DecidableEq ι] in
/-- The owner of the pool goes on. -/
theorem Guarded.owns (hg : Guarded n s) {phase : Phase} {table : Option Nat} (htable : table = phase.table n)
    (hdone : ∀ k, phase ≠ .spawning k) (hapart : phase.writes = true → s.readers = [])
    (hborn : phase.spawned n ≤ s.phase.spawned n)
    (hsender : table = s.globalSenders ∨ s.readers = [])
    (hgone : ∀ i, s.phase.disconnected i = true → phase.disconnected i = true) :
    Guarded n { s with phase, globalSenders := table } where
  reader := hg.reader
  nodup := hg.nodup
  apart := hapart
  table := htable
  sender := fun t task idx h => by
    obtain rfl | hfree := hsender
    · exact hg.sender t task idx h
    · exact absurd h (hg.idle hfree t task idx)
  born := fun i hi => hg.born i (Nat.lt_of_lt_of_le hi hborn)
  fresh := fun k hphase => absurd hphase (hdone k)
  gone := fun i h => hgone i (hg.gone i h)

omit [DecidableEq ι] in
/-- What is queued, counted and recorded does not matter. -/
theorem Guarded.beside (hg : Guarded n s) (queues : Nat → List (Task ι)) (calls : ι → Nat) (log : List (Event ι)) :
    Guarded n { s with queues, calls, log } :=
  ⟨hg.reader, hg.nodup, hg.apart, hg.table, hg.sender, hg.born, hg.fresh, hg.gone⟩

theorem Guarded.step (hg : Guarded n s) (h : step n s l = some s') : Guarded n s' := by
  cases step_next h with
  | spawns hphase hk =>
    rename_i k
    have htable : s.globalSenders = none := by rw [hg.table, hphase]; rfl
    refine ⟨hg.reader, hg.nodup, nofun, htable, hg.sender, fun i hi => ?_, fun k' hk' i hi => ?_, fun i h => ?_⟩
    · by_cases hik : i = k
      · subst hik
        simp
      · have hi' : i < k + 1 := hi
        have hold := hg.born i (by rw [hphase]; exact Nat.lt_of_le_of_ne (Nat.le_of_lt_succ hi') hik)
        simpa [Function.update_of_ne hik] using hold
    · obtain rfl : k + 1 = k' := Phase.spawning.inj hk'
      have hik : i ≠ k := by omega
      simpa [Function.update_of_ne hik] using hg.fresh k hphase i (by omega)
    · by_cases hik : i = k
      · subst hik
        simp at h
      · have hgone := hg.gone i (by simpa [Function.update_of_ne hik] using h)
        rw [hphase] at hgone
        cases hgone
  | newLocks hphase hk hfree =>
    exact hg.owns (hg.table.trans (by rw [hphase]; rfl)) nofun (fun _ => hfree) (by rw [hphase]; exact hk)
      (Or.inl rfl) (fun i h => by rw [hphase] at h; cases h)
  | installs hphase =>
    have htable : s.globalSenders = none := by rw [hg.table, hphase]; rfl
    have hfree := hg.apart (by rw [hphase]; rfl)
    exact hg.owns (by rw [htable]; rfl) nofun nofun (by rw [hphase]; exact Nat.le_refl n) (Or.inr hfree)
      (fun i h => by rw [hphase] at h; cases h)
  | shutdownLocks hphase hfree =>
    exact hg.owns (hg.table.trans (by rw [hphase]; rfl)) nofun (fun _ => hfree) (by rw [hphase]; exact Nat.le_refl n)
      (Or.inl rfl) (fun i h => by rw [hphase] at h; cases h)
  | takes hphase =>
    have hfree := hg.apart (by rw [hphase]; rfl)
    have hg' : Guarded n { s with phase := .dropping 0, globalSenders := none } :=
      hg.owns rfl nofun (fun _ => hfree) (by rw [hphase]; exact Nat.le_refl n) (Or.inr hfree)
        (fun i h => by rw [hphase] at h; cases h)
    exact hg'.beside _ _ _
  | drops hphase hk =>
    have hfree := hg.apart (by rw [hphase]; rfl)
    refine hg.owns (hg.table.trans (by rw [hphase]; rfl)) nofun (fun _ => hfree) (by rw [hphase]; exact Nat.le_refl n)
      (Or.inl rfl) (fun i h => ?_)
    rw [hphase] at h
    exact decide_eq_true (Nat.lt_succ_of_lt (of_decide_eq_true h))
  | unlocks hphase hk =>
    exact hg.owns (hg.table.trans (by rw [hphase]; rfl)) nofun nofun (by rw [hphase]; exact Nat.le_refl n) (Or.inl rfl)
      (fun _ _ => rfl)
  | joins hphase hk hended =>
    exact hg.owns (hg.table.trans (by rw [hphase]; rfl)) nofun nofun (by rw [hphase]; exact Nat.le_refl n) (Or.inl rfl)
      (fun _ _ => rfl)
  | returns hphase hk =>
    have hg' : Guarded n { s with phase := .returned, globalSenders := s.globalSenders } :=
      hg.owns (hg.table.trans (by rw [hphase]; rfl)) nofun nofun (by rw [hphase]; exact Nat.le_refl n) (Or.inl rfl)
      (fun _ _ => rfl)
    exact hg'.beside _ _ _
  | @calls t shardIdx task hout htask =>
    have hg' : Guarded n (s.goto t (.called task)) := hg.goes (by rw [hout]; rfl) (fun _ _ h => by cases h)
    exact hg'.beside _ _ _
  | reads hpc hfree => exact hg.enters hpc hfree
  | @finds t task len hpc htable hlen =>
    refine hg.goes (by rw [hpc]; rfl) (fun _ _ h => ?_)
    obtain ⟨rfl, rfl⟩ := SubmitPc.sending.inj h
    have htable' : s.phase.table n = some len := by rw [← hg.table, htable]
    cases hphase : s.phase <;> rw [hphase] at htable' <;> cases htable' <;> exact ⟨htable, rfl⟩
  | misses hpc htable =>
    have hg' : Guarded n (s.goto _ .leaving) := hg.goes (by rw [hpc]; rfl) (fun _ _ h => by cases h)
    exact hg'.beside _ _ _
  | divides hpc htable => exact hg.releases rfl
  | refused hpc hended =>
    have hg' : Guarded n (s.goto _ .leaving) := hg.goes (by rw [hpc]; rfl) (fun _ _ h => by cases h)
    exact hg'.beside _ _ _
  | sends hpc halive hroom =>
    have hg' : Guarded n (s.goto _ .leaving) := hg.goes (by rw [hpc]; rfl) (fun _ _ h => by cases h)
    exact hg'.beside _ _ _
  | leaves hpc => exact hg.releases rfl
  | @pops i task rest hpc hqueue =>
    have hg' : Guarded n (s.setWorker i (.running task)) :=
      hg.works (by obtain h | h := hpc <;> simp [h]) nofun nofun
    exact hg'.beside _ _ _
  | stops hpc hqueue hgone => exact hg.works (by simp [hpc]) nofun fun _ => hgone
  | @finishes i task hpc =>
    have hg' : Guarded n (s.setWorker i .tryRecv) := hg.works (by simp [hpc]) nofun nofun
    exact hg'.beside _ _ _
  | turns hpc hqueue => exact hg.works (by simp [hpc]) nofun nofun
  | @panics i task hpc =>
    have hg' : Guarded n (s.setWorker i .panicked) := hg.works (by simp [hpc]) nofun nofun
    exact hg'.beside _ _ _

/-! ## The numbers of the calls -/

/-- The task an event sends. -/
def Event.sent? : Event ι → Option (Task ι)
  | .enqueued task => some task
  | .called _ | .dropped _ | .started _ _ | .finished _ _ | .took | .returned => none

/-- A thread is in its latest call, and it sends its tasks in the order of its calls. -/
structure Numbered (s : State ι) : Prop where
  current : ∀ t task, (s.threads t).task? = some task → task.thread = t ∧ task.num < s.calls t
  sent : ∀ task, .enqueued task ∈ s.log → task.num < s.calls task.thread ∧
    ∀ cur, (s.threads task.thread).task? = some cur → task.num < cur.num
  sorted : (s.log.filterMap Event.sent?).Pairwise fun a b => a.thread = b.thread → a.num < b.num

omit [DecidableEq ι] in
theorem Numbered.initial : Numbered (initial : State ι) where
  current := fun t task h => by cases h
  sent := fun task h => by cases h
  sorted := List.Pairwise.nil

omit [DecidableEq ι] in
/-- The owner of the pool and the workers send nothing. -/
theorem Numbered.beside (hn : Numbered s) (globalSenders : Option Nat) (readers : List ι) (phase : Phase)
    (queues : Nat → List (Task ι)) (workers : Nat → WorkerPc ι) :
    Numbered { s with globalSenders, readers, phase, queues, workers } :=
  ⟨hn.current, hn.sent, hn.sorted⟩

omit [DecidableEq ι] in
theorem Numbered.record (hn : Numbered s) {e : Event ι} (he : e.sent? = none) : Numbered (s.record e) where
  current := hn.current
  sent := fun task h => by
    rcases List.mem_append.mp h with h | h
    · exact hn.sent task h
    · obtain rfl := List.mem_singleton.mp h
      cases he
  sorted := by
    simpa [State.record, he] using hn.sorted

/-- A call goes on. -/
theorem Numbered.goes (hn : Numbered s) {t : ι} {pc : SubmitPc ι}
    (hpc : ∀ task, pc.task? = some task → (s.threads t).task? = some task) : Numbered (s.goto t pc) where
  current := fun t' task h => by
    by_cases ht : t' = t
    · subst ht
      exact hn.current t' task (hpc task (by simpa [goto] using h))
    · exact hn.current t' task (by simpa [goto, Function.update_of_ne ht] using h)
  sent := fun task h => by
    refine ⟨(hn.sent task h).1, fun cur hcur => ?_⟩
    by_cases ht : task.thread = t
    · subst ht
      exact (hn.sent task h).2 cur (hpc cur (by simpa [goto] using hcur))
    · exact (hn.sent task h).2 cur (by simpa [goto, Function.update_of_ne ht] using hcur)
  sorted := hn.sorted

/-- A call begins. -/
theorem Numbered.begins (hn : Numbered s) {t : ι} {shardIdx : Nat} :
    Numbered { s.goto t (.called ⟨t, s.calls t, shardIdx⟩) with
      calls := Function.update s.calls t (s.calls t + 1) } where
  current := fun t' task h => by
    by_cases ht : t' = t
    · subst ht
      obtain rfl : (⟨t', s.calls t', shardIdx⟩ : Task ι) = task := by simpa [goto, SubmitPc.task?] using h
      simp
    · have hold := hn.current t' task (by simpa [goto, Function.update_of_ne ht] using h)
      simpa [Function.update_of_ne ht] using hold
  sent := fun task h => by
    have hold := hn.sent task h
    by_cases ht : task.thread = t
    · subst ht
      refine ⟨by simpa using Nat.lt_succ_of_lt hold.1, fun cur hcur => ?_⟩
      obtain rfl : (⟨task.thread, s.calls task.thread, shardIdx⟩ : Task ι) = cur := by
        simpa [goto, SubmitPc.task?] using hcur
      exact hold.1
    · simpa [goto, Function.update_of_ne ht] using hold
  sorted := hn.sorted

/-- The task of a call is sent. -/
theorem Numbered.sends (hn : Numbered s) {t : ι} {task : Task ι} (htask : (s.threads t).task? = some task) :
    Numbered ((s.goto t .leaving).record (.enqueued task)) where
  current := by
    have hleaving : Numbered (s.goto t .leaving) := hn.goes fun _ h => by cases h
    exact hleaving.current
  sent := fun old h => by
    obtain ⟨rfl, hnum⟩ := hn.current t task htask
    rcases List.mem_append.mp h with h | h
    · exact (hn.goes (fun _ h => by cases h)).sent old h
    · obtain rfl : old = task := by simpa using h
      exact ⟨hnum, fun cur hcur => by simp [State.record, goto, SubmitPc.task?] at hcur⟩
  sorted := by
    obtain ⟨rfl, -⟩ := hn.current t task htask
    have hlast : ∀ old ∈ s.log.filterMap Event.sent?, old.thread = task.thread → old.num < task.num := by
      intro old hold hthread
      obtain ⟨e, he, hsent⟩ := List.mem_filterMap.mp hold
      cases e <;> cases hsent
      exact (hn.sent old he).2 task (by rw [hthread]; exact htask)
    have happend := List.pairwise_append.mpr ⟨hn.sorted, List.pairwise_singleton _ task, fun old hold new hnew =>
      List.mem_singleton.mp hnew ▸ hlast old hold⟩
    simpa [State.record, goto, Event.sent?] using happend

theorem Numbered.step (hn : Numbered s) (h : step n s l = some s') : Numbered s' := by
  cases step_next h with
  | spawns _ _ | newLocks _ _ _ | installs _ | shutdownLocks _ _ | drops _ _ | unlocks _ _ | joins _ _ _ =>
    exact hn.beside _ _ _ _ _
  | takes hphase => exact (hn.beside _ _ _ _ _).record rfl
  | returns hphase hk => exact (hn.beside _ _ _ _ _).record rfl
  | calls hout htask =>
    subst htask
    exact hn.begins.record rfl
  | reads hpc hfree => exact (hn.goes (fun _ h => by rw [hpc]; exact h)).beside _ _ _ _ _
  | finds hpc htable hlen => exact hn.goes (fun _ h => by rw [hpc]; exact h)
  | misses hpc htable => exact (hn.goes (fun _ h => by cases h)).record rfl
  | divides hpc htable => exact (hn.goes (fun _ h => by cases h)).beside _ _ _ _ _
  | refused hpc hended => exact (hn.goes (fun _ h => by cases h)).record rfl
  | sends hpc halive hroom => exact (hn.sends (by rw [hpc]; rfl)).beside _ _ _ _ _
  | leaves hpc => exact (hn.goes (fun _ h => by cases h)).beside _ _ _ _ _
  | pops hpc hqueue => exact (hn.beside _ _ _ _ _).record rfl
  | stops hpc hqueue hgone => exact hn.beside _ _ _ _ _
  | finishes hpc => exact (hn.beside _ _ _ _ _).record rfl
  | turns hpc hqueue => exact hn.beside _ _ _ _ _
  | panics hpc => exact hn.beside _ _ _ _ _

/-! ## The channels and the workers -/

/-- The task an event sends on channel `i`. -/
def Event.sentOn? (n i : Nat) : Event ι → Option (Task ι)
  | .enqueued task => if task.shardIdx % n = i then some task else none
  | .called _ | .dropped _ | .started _ _ | .finished _ _ | .took | .returned => none

/-- The task the worker `i` begins to run. -/
def Event.startedBy? (i : Nat) : Event ι → Option (Task ι)
  | .started j task => if j = i then some task else none
  | .called _ | .enqueued _ | .dropped _ | .finished _ _ | .took | .returned => none

/-- The task the worker `i` is done with. -/
def Event.finishedBy? (i : Nat) : Event ι → Option (Task ι)
  | .finished j task => if j = i then some task else none
  | .called _ | .enqueued _ | .dropped _ | .started _ _ | .took | .returned => none

/-- The event is not about the tasks of channel `i`. -/
structure Event.Beside (n i : Nat) (e : Event ι) : Prop where
  sent : e.sentOn? n i = none
  started : e.startedBy? i = none
  finished : e.finishedBy? i = none

/-- So many workers are joined. -/
def Phase.joined (n : Nat) : Phase → Nat
  | .joining k => k
  | .returned => n
  | .spawning _ | .installing | .ready | .taking | .dropping _ => 0

/-- What was sent on a channel was started or is in it, in this order, and what was started is finished or runs. -/
structure Kept (n : Nat) (s : State ι) (i : Nat) : Prop where
  taken : s.log.filterMap (Event.startedBy? i) ++ s.queues i = s.log.filterMap (Event.sentOn? n i)
  worked : s.log.filterMap (Event.finishedBy? i) ++ (s.workers i).current = s.log.filterMap (Event.startedBy? i)
  sound : s.workers i ≠ .panicked
  stopped : s.workers i = .stopped → s.queues i = []
  unborn : s.workers i = .unborn → s.queues i = []
  joined : i < s.phase.joined n → s.workers i = .stopped

variable {i : Nat}

omit [DecidableEq ι] in
theorem Kept.initial : Kept n (initial : State ι) i where
  taken := rfl
  worked := rfl
  sound := nofun
  stopped := nofun
  unborn := fun _ => rfl
  joined := fun hi => absurd hi (Nat.not_lt_zero i)

omit [DecidableEq ι] in
theorem Kept.record (hk : Kept n s i) {e : Event ι} (he : e.Beside n i) : Kept n (s.record e) i where
  taken := by simpa [State.record, he.started, he.sent] using hk.taken
  worked := by simpa [State.record, he.finished, he.started] using hk.worked
  sound := hk.sound
  stopped := hk.stopped
  unborn := hk.unborn
  joined := hk.joined

omit [DecidableEq ι] in
/-- Nothing happens to the channel and its worker. -/
theorem Kept.frame (hk : Kept n s i) (hlog : s'.log = s.log) (hqueue : s'.queues i = s.queues i)
    (hworker : s'.workers i = s.workers i) (hjoined : i < s'.phase.joined n → s.workers i = .stopped) :
    Kept n s' i where
  taken := by rw [hlog, hqueue]; exact hk.taken
  worked := by rw [hlog, hworker]; exact hk.worked
  sound := by rw [hworker]; exact hk.sound
  stopped := fun h => by
    rw [hworker] at h
    exact hqueue.trans (hk.stopped h)
  unborn := fun h => by
    rw [hworker] at h
    exact hqueue.trans (hk.unborn h)
  joined := fun h => hworker.trans (hjoined h)

omit [DecidableEq ι] in
/-- A worker is spawned. -/
theorem Kept.spawns (hk : Kept n s i) {k : Nat} (hphase : s.phase = .spawning k) (hfresh : s.workers k = .unborn) :
    Kept n { s with workers := Function.update s.workers k .recv, phase := .spawning (k + 1) } i := by
  by_cases hi : i = k
  · subst hi
    have hworked := hk.worked
    rw [hfresh] at hworked
    refine ⟨hk.taken, ?_, ?_, ?_, ?_, fun h => absurd h (Nat.not_lt_zero i)⟩
    · simpa [WorkerPc.current] using hworked
    all_goals simp
  · exact hk.frame rfl rfl (Function.update_of_ne hi _ _)
      (fun h => absurd h (Nat.not_lt_zero i))

omit [DecidableEq ι] in
/-- A task is sent to a worker that lives. -/
theorem Kept.sends (hk : Kept n s i) {idx : Nat} {task : Task ι} (hidx : idx = task.shardIdx % n)
    (halive : (s.workers idx).ended = false) (hborn : s.workers idx ≠ .unborn) :
    Kept n ({ s with queues := Function.update s.queues idx (s.queues idx ++ [task]) }.record (.enqueued task)) i := by
  by_cases hi : i = idx
  · subst hi
    refine ⟨?_, ?_, hk.sound, fun h => ?_, fun h => absurd h hborn, hk.joined⟩
    · simp [State.record, Event.startedBy?, Event.sentOn?, List.filterMap_cons, hidx.symm, ← hk.taken]
    · simpa [State.record, Event.finishedBy?, Event.startedBy?, List.filterMap_cons] using hk.worked
    · have h' : s.workers i = .stopped := h
      rw [h'] at halive
      cases halive
  · have hother : task.shardIdx % n ≠ i := fun h => hi (h.symm.trans hidx.symm)
    have hk' : Kept n { s with queues := Function.update s.queues idx (s.queues idx ++ [task]) } i :=
      hk.frame rfl (Function.update_of_ne hi _ _) rfl hk.joined
    exact hk'.record ⟨if_neg hother, rfl, rfl⟩

omit [DecidableEq ι] in
/-- A worker takes a task. -/
theorem Kept.takes (hk : Kept n s i) {j : Nat} {task : Task ι} {rest : List (Task ι)}
    (hpc : s.workers j = .recv ∨ s.workers j = .tryRecv) (hqueue : s.queues j = task :: rest) :
    Kept n (s.take j task rest) i := by
  have hidle : (s.workers j).current = [] := by obtain h | h := hpc <;> rw [h] <;> rfl
  have hlive : s.workers j ≠ .stopped := by obtain h | h := hpc <;> simp [h]
  by_cases hi : i = j
  · subst hi
    have hworked := hk.worked
    rw [hidle, List.append_nil] at hworked
    refine ⟨?_, ?_, ?_, ?_, ?_, fun h => absurd (hk.joined h) hlive⟩
    · simp [take, State.record, Event.startedBy?, Event.sentOn?, List.filterMap_cons, ← hk.taken, hqueue]
    · simp [take, State.record, Event.finishedBy?, Event.startedBy?, List.filterMap_cons, hworked, WorkerPc.current]
    all_goals simp [take, State.record]
  · have hk' : Kept n { s with
        queues := Function.update s.queues j rest
        workers := Function.update s.workers j (.running task) } i :=
      hk.frame rfl (Function.update_of_ne hi _ _) (Function.update_of_ne hi _ _) hk.joined
    exact hk'.record ⟨rfl, if_neg (Ne.symm hi), rfl⟩

omit [DecidableEq ι] in
/-- A worker is done with its task. -/
theorem Kept.finishes (hk : Kept n s i) {j : Nat} {task : Task ι} (hpc : s.workers j = .running task) :
    Kept n ((s.setWorker j .tryRecv).record (.finished j task)) i := by
  by_cases hi : i = j
  · subst hi
    have hworked := hk.worked
    rw [hpc] at hworked
    refine ⟨?_, ?_, ?_, ?_, ?_, fun h => absurd (hk.joined h) (by simp [hpc])⟩
    · simpa [setWorker, State.record, Event.startedBy?, Event.sentOn?, List.filterMap_cons] using hk.taken
    · simpa [setWorker, State.record, Event.finishedBy?, Event.startedBy?, List.filterMap_cons, WorkerPc.current] using
        hworked
    all_goals simp [setWorker, State.record]
  · have hk' : Kept n (s.setWorker j .tryRecv) i := hk.frame rfl rfl (Function.update_of_ne hi _ _) hk.joined
    exact hk'.record ⟨rfl, rfl, if_neg (Ne.symm hi)⟩

omit [DecidableEq ι] in
/-- A worker goes back to `recv`. -/
theorem Kept.turns (hk : Kept n s i) {j : Nat} (hpc : s.workers j = .tryRecv) : Kept n (s.setWorker j .recv) i := by
  by_cases hi : i = j
  · subst hi
    have hworked := hk.worked
    rw [hpc] at hworked
    refine ⟨hk.taken, ?_, ?_, ?_, ?_, fun h => absurd (hk.joined h) (by simp [hpc])⟩
    · simpa [setWorker, WorkerPc.current] using hworked
    all_goals simp [setWorker]
  · exact hk.frame rfl rfl (Function.update_of_ne hi _ _) hk.joined

omit [DecidableEq ι] in
/-- A worker ends, with its channel empty and disconnected. -/
theorem Kept.stops (hk : Kept n s i) {j : Nat} (hpc : s.workers j = .recv) (hqueue : s.queues j = []) :
    Kept n (s.setWorker j .stopped) i := by
  by_cases hi : i = j
  · subst hi
    have hworked := hk.worked
    rw [hpc] at hworked
    refine ⟨hk.taken, ?_, ?_, fun _ => hqueue, ?_, fun _ => ?_⟩
    · simpa [setWorker, WorkerPc.current] using hworked
    all_goals simp [setWorker]
  · exact hk.frame rfl rfl (Function.update_of_ne hi _ _) hk.joined

theorem Kept.step (hk : ∀ i, Kept n s i) (hg : Guarded n s) (hn : 0 < n) (hl : ∀ i, l ≠ .panics i)
    (h : step n s l = some s') (i : Nat) : Kept n s' i := by
  cases step_next h with
  | spawns hphase hlt => exact (hk i).spawns hphase (hg.fresh _ hphase _ (Nat.le_refl _))
  | newLocks hphase hle hfree =>
    exact (hk i).frame rfl rfl rfl (fun h => absurd h (Nat.not_lt_zero i))
  | installs hphase =>
    exact (hk i).frame rfl rfl rfl (fun h => absurd h (Nat.not_lt_zero i))
  | shutdownLocks hphase hfree =>
    exact (hk i).frame rfl rfl rfl (fun h => absurd h (Nat.not_lt_zero i))
  | takes hphase =>
    have hk' : Kept n { s with globalSenders := none, phase := .dropping 0 } i :=
      (hk i).frame rfl rfl rfl (fun h => absurd h (Nat.not_lt_zero i))
    exact hk'.record ⟨rfl, rfl, rfl⟩
  | drops hphase hlt =>
    exact (hk i).frame rfl rfl rfl (fun h => absurd h (Nat.not_lt_zero i))
  | unlocks hphase hle =>
    exact (hk i).frame rfl rfl rfl (fun h => absurd h (Nat.not_lt_zero i))
  | @joins k hphase hlt hended =>
    refine (hk i).frame rfl rfl rfl (fun h => ?_)
    obtain hik | rfl := Nat.lt_succ_iff_lt_or_eq.mp (show i < k + 1 from h)
    · exact (hk i).joined (by rw [hphase]; exact hik)
    · have hsound := (hk i).sound
      cases hw : s.workers i <;> rw [hw] at hended hsound <;> first | rfl | exact absurd rfl hsound | cases hended
  | returns hphase hle =>
    have hk' : Kept n { s with phase := .returned } i :=
      (hk i).frame rfl rfl rfl (fun h => (hk i).joined (by rw [hphase]; exact Nat.lt_of_lt_of_le h hle))
    exact hk'.record ⟨rfl, rfl, rfl⟩
  | @calls t shardIdx task hout htask =>
    have hk' : Kept n { s.goto t (.called task) with calls := Function.update s.calls t (s.calls t + 1) } i :=
      (hk i).frame rfl rfl rfl (hk i).joined
    exact hk'.record ⟨rfl, rfl, rfl⟩
  | reads hpc hfree => exact (hk i).frame rfl rfl rfl (hk i).joined
  | finds hpc htable hlen => exact (hk i).frame rfl rfl rfl (hk i).joined
  | @misses t task hpc htable =>
    have hk' : Kept n (s.goto t .leaving) i := (hk i).frame rfl rfl rfl (hk i).joined
    exact hk'.record ⟨rfl, rfl, rfl⟩
  | divides hpc htable => exact (hk i).frame rfl rfl rfl (hk i).joined
  | @refused t task idx hpc hended =>
    have hk' : Kept n (s.goto t .leaving) i := (hk i).frame rfl rfl rfl (hk i).joined
    exact hk'.record ⟨rfl, rfl, rfl⟩
  | @sends t task idx hpc halive hroom =>
    have hk' : Kept n (s.goto t .leaving) i := (hk i).frame rfl rfl rfl (hk i).joined
    obtain ⟨htable, hidx⟩ := hg.sender t task idx hpc
    obtain ⟨-, hspawned⟩ := hg.installed htable
    refine (hk'.sends hidx halive (hg.born idx ?_))
    rw [hspawned, hidx]
    exact Nat.mod_lt _ hn
  | leaves hpc => exact (hk i).frame rfl rfl rfl (hk i).joined
  | pops hpc hqueue => exact (hk i).takes hpc hqueue
  | stops hpc hqueue hgone => exact (hk i).stops hpc hqueue
  | finishes hpc => exact (hk i).finishes hpc
  | turns hpc hqueue => exact (hk i).turns hpc
  | panics hpc => exact absurd rfl (hl _)

/-! ## What a step of the pool does to the threads and to its owner -/

/-- Only its own steps move a thread, and a call begins with one. -/
theorem step_thread (h : State.step n s l = some s') (t : ι) :
    s'.threads t = s.threads t ∨ l = .submit t ∨ (s.threads t = .out ∧ ∃ shardIdx, l = .call t shardIdx) := by
  have hgoto : ∀ {u pc}, t ≠ u → (s.goto u pc).threads t = s.threads t := fun hne => Function.update_of_ne hne _ _
  cases l with
  | new | shutdown | worker _ | panics _ => cases step_next h <;> exact Or.inl rfl
  | call u shardIdx =>
    by_cases ht : t = u
    · subst ht
      cases step_next h with
      | calls hout htask => exact Or.inr (Or.inr ⟨hout, shardIdx, rfl⟩)
    · cases step_next h
      exact Or.inl (hgoto ht)
  | submit u =>
    by_cases ht : t = u
    · exact Or.inr (Or.inl (by rw [ht]))
    · cases step_next h <;> exact Or.inl (hgoto ht)

/-- The owner of the pool goes forward. -/
theorem step_phase (h : State.step n s l = some s') : (s.phase.made = true → s'.phase.made = true) ∧
    (s'.phase.begun = true → s.phase.begun = true ∨ l = .shutdown) := by
  cases step_next h with
  | spawns hphase _ | newLocks hphase _ _ | installs hphase => exact ⟨by simp [hphase, Phase.made], nofun⟩
  | shutdownLocks _ _ | takes _ | drops _ _ | unlocks _ _ | joins _ _ _ | returns _ _ =>
    exact ⟨fun _ => rfl, fun _ => Or.inr rfl⟩
  | calls _ _ | reads _ _ | finds _ _ _ | misses _ _ | divides _ _ | refused _ _ | sends _ _ _ | leaves _ =>
    exact ⟨id, Or.inl⟩
  | pops _ _ | stops _ _ _ | finishes _ | turns _ _ | panics _ => exact ⟨id, Or.inl⟩

/-- What is recorded stays. -/
theorem log_grows (h : State.step n s l = some s') : s.log <+: s'.log := by
  cases step_next h <;> first | exact List.prefix_refl _ | exact List.prefix_append _ _

theorem log_grows_run {ls : List (Label ι)} (hrun : Runs.run (State.step n) s ls = some s') : s.log <+: s'.log :=
  run_invariant' (P := fun t => s.log <+: t.log) (fun _ _ _ hp h => hp.trans (log_grows h)) (List.prefix_refl _) hrun

end Rnet.Worker
