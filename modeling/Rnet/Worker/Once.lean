import Rnet.Worker.Invariants
import Rnet.Lib.Histories
import Mathlib.Data.List.Nodup

/-!
# Accepted tasks run once, in order

`Served` is what the pool owes to the tasks that were sent: each is run once, by the worker of its shard, those of one
thread on one shard one after the other, and all before `shutdown` returns. `runs_each_once` is that for every run of
a pool with a worker in which no task panics, with a bound on the steps a worker needs for what is in its channel.
-/

namespace Rnet.Worker

open Runs Histories State

variable {ι : Type} {n : Nat}

/-- `shutdown` has taken the senders. -/
def Phase.past : Phase → Bool
  | .dropping _ | .joining _ | .returned => true
  | .spawning _ | .installing | .ready | .taking => false

/-! ## The order of the events -/

structure Ordered (n : Nat) (s : State ι) : Prop where
  inTurn : ∀ a, .enqueued a ∈ s.log → ∀ i b, a.thread = b.thread → a.shardIdx % n = i → a.num < b.num →
    Whenever s.log (.started i b) fun pre => .finished i a ∈ pre
  early : ∀ task, .enqueued task ∈ s.log → Whenever s.log (.called task) fun pre => .took ∉ pre
  closed : .took ∈ s.log ∨ .returned ∈ s.log → s.phase.past
  done : ∀ task, .enqueued task ∈ s.log → Whenever s.log .returned fun pre => .finished (task.shardIdx % n) task ∈ pre

theorem Ordered.initial : Ordered n (initial : State ι) where
  inTurn := fun a h => by cases h
  early := fun task h => by cases h
  closed := fun h => by rcases h with h | h <;> cases h
  done := fun task h => by cases h

variable {s s' : State ι} {l : Label ι} {i : Nat}

/-- What was sent on the channel `i`. -/
theorem mem_sentOn {log : List (Event ι)} {task : Task ι} :
    task ∈ log.filterMap (Event.sentOn? n i) ↔ .enqueued task ∈ log ∧ task.shardIdx % n = i := by
  simp only [List.mem_filterMap]
  constructor
  · rintro ⟨e, he, h⟩
    cases e <;> simp only [Event.sentOn?] at h <;> try cases h
    split at h
    · rename_i hi
      cases h
      exact ⟨he, hi⟩
    · cases h
  · rintro ⟨he, hi⟩
    exact ⟨_, he, if_pos hi⟩

theorem mem_startedBy {log : List (Event ι)} {task : Task ι} :
    task ∈ log.filterMap (Event.startedBy? i) ↔ .started i task ∈ log := by
  simp only [List.mem_filterMap]
  constructor
  · rintro ⟨e, he, h⟩
    cases e <;> simp only [Event.startedBy?] at h <;> try cases h
    split at h
    · rename_i hi
      cases h
      exact hi ▸ he
    · cases h
  · exact fun he => ⟨_, he, if_pos rfl⟩

theorem mem_finishedBy {log : List (Event ι)} {task : Task ι} :
    task ∈ log.filterMap (Event.finishedBy? i) ↔ .finished i task ∈ log := by
  simp only [List.mem_filterMap]
  constructor
  · rintro ⟨e, he, h⟩
    cases e <;> simp only [Event.finishedBy?] at h <;> try cases h
    split at h
    · rename_i hi
      cases h
      exact hi ▸ he
    · cases h
  · exact fun he => ⟨_, he, if_pos rfl⟩

/-- What is run was sent on the channel. -/
theorem Kept.sent_of_started (hk : Kept n s i) {task : Task ι} (h : .started i task ∈ s.log) :
    .enqueued task ∈ s.log ∧ task.shardIdx % n = i := by
  refine mem_sentOn.mp ?_
  rw [← hk.taken]
  exact List.mem_append_left _ (mem_startedBy.mpr h)

/-- A channel gets the tasks of a thread in the order of its calls. -/
theorem Numbered.sortedOn (hn : Numbered s) :
    (s.log.filterMap (Event.sentOn? n i)).Pairwise fun a b => a.thread = b.thread → a.num < b.num := by
  have hfilter : s.log.filterMap (Event.sentOn? n i) =
      (s.log.filterMap Event.sent?).filter fun task => task.shardIdx % n = i := by
    rw [List.filter_filterMap]
    congr 1
    funext e
    cases e <;> simp [Event.sentOn?, Event.sent?, Option.filter]
  rw [hfilter]
  exact hn.sorted.sublist List.filter_sublist

theorem Numbered.nodupOn (hn : Numbered s) : (s.log.filterMap (Event.sentOn? n i)).Nodup :=
  List.Pairwise.imp (fun {a b} (hab : a.thread = b.thread → a.num < b.num) (heq : a = b) =>
    Nat.lt_irrefl b.num (heq ▸ hab (heq ▸ rfl))) hn.sortedOn

/-- With the worker ended, all that was sent on the channel is done. -/
theorem Kept.finished_of_stopped (hk : Kept n s i) (hstopped : s.workers i = .stopped) {task : Task ι}
    (h : .enqueued task ∈ s.log) (hi : task.shardIdx % n = i) : .finished i task ∈ s.log := by
  have htaken := hk.taken
  have hworked := hk.worked
  rw [hk.stopped hstopped, List.append_nil] at htaken
  rw [hstopped, WorkerPc.current, List.append_nil, htaken] at hworked
  exact mem_finishedBy.mp (hworked ▸ mem_sentOn.mpr ⟨h, hi⟩)

/-- **The order of one step.** The task at the head of a channel comes after the earlier ones of its thread. -/
theorem Kept.finished_of_head (hk : Kept n s i) (hn : Numbered s) {a b : Task ι} {rest : List (Task ι)}
    (hidle : (s.workers i).current = []) (hqueue : s.queues i = b :: rest) (ha : .enqueued a ∈ s.log)
    (hi : a.shardIdx % n = i) (hthread : a.thread = b.thread) (hnum : a.num < b.num) : .finished i a ∈ s.log := by
  have hworked := hk.worked
  rw [hidle, List.append_nil] at hworked
  have hmem : a ∈ s.log.filterMap (Event.startedBy? i) ++ b :: rest := by
    rw [← hqueue, hk.taken]
    exact mem_sentOn.mpr ⟨ha, hi⟩
  rcases List.mem_append.mp hmem with h | h
  · exact mem_finishedBy.mp (hworked ▸ h)
  · exfalso
    rcases List.mem_cons.mp h with rfl | h
    · exact Nat.lt_irrefl _ hnum
    · have hsorted := hn.sortedOn (n := n) (i := i)
      rw [← hk.taken, hqueue] at hsorted
      have hafter := (List.pairwise_cons.mp (List.pairwise_append.mp hsorted).2.1).1 a h hthread.symm
      exact Nat.lt_asymm hnum hafter

/-! ## What the steps keep -/

/-- The phase may change, and nothing is recorded. -/
theorem Ordered.frame (ho : Ordered n s) (hlog : s'.log = s.log) (hpast : s.phase.past → s'.phase.past) :
    Ordered n s' := by
  obtain ⟨hinTurn, hearly, hclosed, hdone⟩ := ho
  rw [← hlog] at hinTurn hearly hclosed hdone
  exact ⟨hinTurn, hearly, fun h => hpast (hclosed h), hdone⟩

/-- Nothing is sent. -/
theorem Ordered.record (ho : Ordered n s) {e : Event ι} (he : e.sent? = none)
    (hinTurn : ∀ i b, e = .started i b → ∀ a, .enqueued a ∈ s.log → a.thread = b.thread → a.shardIdx % n = i →
      a.num < b.num → .finished i a ∈ s.log)
    (hearly : ∀ task, e = .called task → .enqueued task ∉ s.log)
    (hclosed : e = .took ∨ e = .returned → s.phase.past)
    (hdone : e = .returned → ∀ task, .enqueued task ∈ s.log → .finished (task.shardIdx % n) task ∈ s.log) :
    Ordered n (s.record e) := by
  have hsent : ∀ task, .enqueued task ∈ (s.record e).log → .enqueued task ∈ s.log := fun task h => by
    rcases List.mem_append.mp h with h | h
    · exact h
    · obtain rfl := List.mem_singleton.mp h
      cases he
  refine ⟨fun a ha i b hthread hi hnum => ?_, fun task htask => ?_, fun h => ?_, fun task htask => ?_⟩
  · exact whenever_snoc.mpr ⟨ho.inTurn a (hsent a ha) i b hthread hi hnum,
      fun heq => hinTurn i b heq a (hsent a ha) hthread hi hnum⟩
  · exact whenever_snoc.mpr ⟨ho.early task (hsent task htask), fun heq => absurd (hsent task htask) (hearly task heq)⟩
  · simp only [State.record, List.mem_append, List.mem_singleton] at h
    rcases h with (h | rfl) | (h | rfl)
    · exact ho.closed (Or.inl h)
    · exact hclosed (Or.inl rfl)
    · exact ho.closed (Or.inr h)
    · exact hclosed (Or.inr rfl)
  · exact whenever_snoc.mpr ⟨ho.done task (hsent task htask), fun heq => hdone heq task (hsent task htask)⟩

/-- A task is sent before the `take`, and it is the latest of its thread. -/
theorem Ordered.sends (ho : Ordered n s) {task : Task ι} (hpast : s.phase.past = false)
    (hlatest : ∀ b, .enqueued b ∈ s.log → task.thread = b.thread → b.num < task.num)
    (hstarted : ∀ i b, .started i b ∈ s.log → .enqueued b ∈ s.log) : Ordered n (s.record (.enqueued task)) := by
  have hopen : ¬(.took ∈ s.log ∨ .returned ∈ s.log) := fun h => by
    have hdone := ho.closed h
    rw [hpast] at hdone
    cases hdone
  have hcases : ∀ a, .enqueued a ∈ (s.record (.enqueued task)).log → .enqueued a ∈ s.log ∨ a = task := fun a h => by
    simpa [State.record] using h
  refine ⟨fun a ha i b hthread hi hnum => ?_, fun a ha => ?_, fun h => ?_, fun a ha => ?_⟩
  · refine whenever_snoc.mpr ⟨?_, fun h => by cases h⟩
    rcases hcases a ha with ha | rfl
    · exact ho.inTurn a ha i b hthread hi hnum
    · exact whenever_of_notMem fun hb => Nat.lt_asymm hnum (hlatest b (hstarted i b hb) hthread)
  · refine whenever_snoc.mpr ⟨?_, fun h => by cases h⟩
    rcases hcases a ha with ha | rfl
    · exact ho.early a ha
    · exact fun pre post heq hmem => hopen (Or.inl (heq ▸ List.mem_append_left _ hmem))
  · exact absurd (by simpa [State.record] using h) hopen
  · refine whenever_snoc.mpr ⟨?_, fun h => by cases h⟩
    rcases hcases a ha with ha | rfl
    · exact ho.done a ha
    · exact whenever_of_notMem fun h => hopen (Or.inr h)

/-- The invariant of a pool. -/
structure Sound (n : Nat) (s : State ι) : Prop where
  guarded : Guarded n s
  numbered : Numbered s
  kept : ∀ i, Kept n s i
  ordered : Ordered n s

theorem Sound.initial : Sound n (initial : State ι) := ⟨.initial, .initial, fun _ => .initial, .initial⟩

variable [DecidableEq ι]

theorem Ordered.step (hs : Sound n s) (hn : 0 < n) (h : step n s l = some s') : Ordered n s' := by
  obtain ⟨hg, hnum, hk, ho⟩ := hs
  cases step_next h with
  | spawns hphase hlt => exact ho.frame rfl (by rw [hphase]; nofun)
  | newLocks hphase hle hfree => exact ho.frame rfl (by rw [hphase]; nofun)
  | installs hphase => exact ho.frame rfl (by rw [hphase]; nofun)
  | shutdownLocks hphase hfree => exact ho.frame rfl (by rw [hphase]; nofun)
  | takes hphase =>
    have ho' : Ordered n { s with globalSenders := none, phase := .dropping 0 } := ho.frame rfl fun _ => rfl
    exact ho'.record rfl nofun nofun (fun _ => rfl) nofun
  | drops hphase hlt => exact ho.frame rfl fun _ => rfl
  | unlocks hphase hle => exact ho.frame rfl fun _ => rfl
  | joins hphase hlt hended => exact ho.frame rfl fun _ => rfl
  | returns hphase hle =>
    have ho' : Ordered n { s with phase := .returned } := ho.frame rfl fun _ => rfl
    refine ho'.record rfl nofun nofun (fun _ => rfl) fun _ task htask => ?_
    have hstopped : s.workers (task.shardIdx % n) = .stopped :=
      (hk _).joined (by rw [hphase]; exact Nat.lt_of_lt_of_le (Nat.mod_lt _ hn) hle)
    exact (hk _).finished_of_stopped hstopped htask rfl
  | @calls t shardIdx task hout htask =>
    have ho' : Ordered n { s.goto t (.called task) with calls := Function.update s.calls t (s.calls t + 1) } :=
      ho.frame rfl id
    refine ho'.record rfl nofun (fun task' heq hmem => ?_) (fun h => by rcases h with h | h <;> cases h) nofun
    -- the number of the new call was not given before
    obtain rfl := Event.called.inj heq
    have hlt := (hnum.sent task hmem).1
    rw [htask] at hlt
    exact Nat.lt_irrefl _ hlt
  | reads hpc hfree => exact ho.frame rfl id
  | finds hpc htable hlen => exact ho.frame rfl id
  | @misses t task hpc htable =>
    have ho' : Ordered n (s.goto t .leaving) := ho.frame rfl id
    exact ho'.record rfl nofun nofun (fun h => by rcases h with h | h <;> cases h) nofun
  | divides hpc htable => exact ho.frame rfl id
  | @refused t task idx hpc hended =>
    have ho' : Ordered n (s.goto t .leaving) := ho.frame rfl id
    exact ho'.record rfl nofun nofun (fun h => by rcases h with h | h <;> cases h) nofun
  | @sends t task idx hpc halive hroom =>
    have ho' : Ordered n { s.goto t .leaving with
      queues := Function.update s.queues idx (s.queues idx ++ [task]) } := ho.frame rfl id
    have hpast : s.phase.past = false := by
      obtain ⟨hphase | hphase, -⟩ := hg.installed (hg.sender t task idx hpc).1 <;> rw [hphase] <;> rfl
    have htask : (s.threads t).task? = some task := by rw [hpc]; rfl
    obtain ⟨rfl, -⟩ := hnum.current t task htask
    refine ho'.sends hpast (fun b hb hthread => ?_) (fun i b hb => ((hk i).sent_of_started hb).1)
    exact (hnum.sent b hb).2 task (hthread ▸ htask)
  | leaves hpc => exact ho.frame rfl id
  | @pops i task rest hpc hqueue =>
    have ho' : Ordered n { s with
      queues := Function.update s.queues i rest
      workers := Function.update s.workers i (.running task) } := ho.frame rfl id
    have hidle : (s.workers i).current = [] := by obtain h | h := hpc <;> rw [h] <;> rfl
    refine ho'.record rfl (fun j b heq a ha hthread hi hlt => ?_) nofun
      (fun h => by rcases h with h | h <;> cases h) nofun
    obtain ⟨rfl, rfl⟩ := Event.started.inj heq
    exact (hk i).finished_of_head hnum hidle hqueue ha hi hthread hlt
  | stops hpc hqueue hgone => exact ho.frame rfl id
  | @finishes i task hpc =>
    have ho' : Ordered n (s.setWorker i .tryRecv) := ho.frame rfl id
    exact ho'.record rfl nofun nofun (fun h => by rcases h with h | h <;> cases h) nofun
  | turns hpc hqueue => exact ho.frame rfl id
  | panics hpc => exact ho.frame rfl id

theorem Sound.step (hs : Sound n s) (hn : 0 < n) (hl : ∀ i, l ≠ .panics i) (h : step n s l = some s') : Sound n s' where
  guarded := hs.guarded.step h
  numbered := hs.numbered.step h
  kept := Kept.step hs.kept hs.guarded hn hl h
  ordered := Ordered.step hs hn h

theorem Sound.run (hs : Sound n s) (hn : 0 < n) {ls : List (Label ι)} (hcalm : ∀ i, .panics i ∉ ls)
    (hrun : run (State.step n) s ls = some s') : Sound n s' := by
  have hok : Along (State.step n) (fun _ l => ∀ i, l ≠ .panics i) s ls :=
    .of_labels fun l hl i heq => hcalm i (heq ▸ hl)
  exact run_invariant (fun s l s' hs hl h => hs.step hn hl h) hs hok hrun

/-! ## Progress of a worker -/

/-- The starts and the ends of tasks of a worker. -/
def State.work (s : State ι) (i : Nat) : Nat :=
  (s.log.filterMap (Event.startedBy? i)).length + (s.log.filterMap (Event.finishedBy? i)).length

/-- So many tasks were sent on the channel, and so many of them are done. -/
def State.sentCount (n : Nat) (s : State ι) (i : Nat) : Nat := (s.log.filterMap (Event.sentOn? n i)).length

def State.doneCount (s : State ι) (i : Nat) : Nat := (s.log.filterMap (Event.finishedBy? i)).length

omit [DecidableEq ι] in
/-- The counts, by what the worker runs and what is in its channel. -/
theorem Kept.counts (hk : Kept n s i) :
    s.work i = 2 * s.doneCount i + (s.workers i).current.length ∧
      s.sentCount n i = s.doneCount i + (s.workers i).current.length + (s.queues i).length := by
  have htaken := congrArg List.length hk.taken
  have hworked := congrArg List.length hk.worked
  rw [List.length_append] at htaken hworked
  unfold State.work State.sentCount State.doneCount
  omega

omit [DecidableEq ι] in
theorem WorkerPc.length_current (pc : WorkerPc ι) : pc.current.length ≤ 1 := by
  cases pc <;> simp [WorkerPc.current]

/-- **A worker is never stuck** while a task sent to it is not done. -/
theorem Kept.enabled (hk : Kept n s i) (hopen : s.doneCount i < s.sentCount n i) :
    (State.step n s (.worker i)).isSome := by
  obtain ⟨-, hcount⟩ := hk.counts
  simp only [State.step, worker]
  cases hpc : s.workers i with
  | running task => rfl
  | recv =>
    cases hqueue : s.queues i with
    | nil => simp [hpc, hqueue, WorkerPc.current] at hcount; omega
    | cons task rest => rfl
  | tryRecv => cases s.queues i <;> rfl
  | unborn => simp [hpc, hk.unborn hpc, WorkerPc.current] at hcount; omega
  | stopped => simp [hpc, hk.stopped hpc, WorkerPc.current] at hcount; omega
  | panicked => exact absurd hpc hk.sound

/-- Each step of a worker with an open task is a start or an end. -/
theorem Kept.work_step (hk : Kept n s i) (hopen : s.doneCount i < s.sentCount n i) (h : State.step n s l = some s') :
    s.work i + (if l = .worker i then 1 else 0) ≤ s'.work i := by
  by_cases hl : l = .worker i
  · subst hl
    rw [if_pos rfl]
    obtain ⟨-, hcount⟩ := hk.counts
    cases step_next h with
    | pops hpc hqueue =>
      simp only [State.work, Event.startedBy?, Event.finishedBy?, take, State.record, List.filterMap_append, ↓reduceIte,
        Option.some.injEq, List.filterMap_cons_some, List.filterMap_nil, List.length_append, List.length_cons,
        List.length_nil, Nat.zero_add, List.filterMap_cons, List.append_nil]
      omega
    | stops hpc hqueue hgone => simp [hpc, hqueue, WorkerPc.current] at hcount; omega
    | finishes hpc =>
      simp only [State.work, Event.startedBy?, Event.finishedBy?, State.record, setWorker, List.filterMap_append,
        List.filterMap_cons, List.filterMap_nil, List.append_nil, ↓reduceIte, List.length_append, List.length_cons,
        List.length_nil, Nat.zero_add]
      omega
    | turns hpc hqueue => simp [hpc, hqueue, WorkerPc.current] at hcount; omega
  · rw [if_neg hl]
    have hp := log_grows h
    have hstarted := (hp.filterMap (Event.startedBy? i)).length_le
    have hfinished := (hp.filterMap (Event.finishedBy? i)).length_le
    unfold State.work
    omega

/-- **The progress of a run.** The tasks sent at its start are done, or each step of the worker was a start or an
end. -/
theorem Sound.work_run (hs : Sound n s) (hn : 0 < n) {ls : List (Label ι)} (hcalm : ∀ i, .panics i ∉ ls)
    (hrun : Runs.run (State.step n) s ls = some s') :
    s.sentCount n i ≤ s'.doneCount i ∨ s.work i + ls.count (.worker i) ≤ s'.work i := by
  induction ls generalizing s with
  | nil =>
    cases hrun
    exact Or.inr (Nat.le_refl _)
  | cons l ls ih =>
    obtain ⟨t, hstep, hrest⟩ := run_cons.mp hrun
    have ht : Sound n t := hs.step hn (fun j hj => hcalm j (hj ▸ List.mem_cons_self)) hstep
    have hgrow : s.sentCount n i ≤ t.sentCount n i := ((log_grows hstep).filterMap (Event.sentOn? n i)).length_le
    have hkeep : s.doneCount i ≤ s'.doneCount i :=
      ((log_grows_run hrun).filterMap (Event.finishedBy? i)).length_le
    rcases Nat.lt_or_ge (s.doneCount i) (s.sentCount n i) with hopen | hdone
    · rcases ih ht (fun j hj => hcalm j (List.mem_cons_of_mem _ hj)) hrest with h | h
      · exact Or.inl (Nat.le_trans hgrow h)
      · have hwork := (hs.kept i).work_step hopen hstep
        refine Or.inr ?_
        rw [List.count_cons]
        by_cases hl : l = .worker i
        · rw [if_pos hl] at hwork
          simp only [hl, beq_self_eq_true, if_true]
          omega
        · rw [if_neg hl] at hwork
          simp only [beq_iff_eq, hl, if_false]
          omega
    · exact Or.inl (Nat.le_trans hdone hkeep)

omit [DecidableEq ι] in
/-- With all that was sent before done, a task sent before is done. -/
theorem Kept.finished_of_counts {t : State ι} (ht : Kept n t i) (hlog : s.log <+: t.log)
    (hdone : s.sentCount n i ≤ t.doneCount i) {task : Task ι} (htask : .enqueued task ∈ s.log)
    (hi : task.shardIdx % n = i) : .finished i task ∈ t.log := by
  obtain ⟨p, hp, rfl⟩ := List.mem_iff_getElem.mp (mem_sentOn.mpr ⟨htask, hi⟩)
  have hsent := hlog.filterMap (Event.sentOn? n i)
  have hfinished : t.log.filterMap (Event.finishedBy? i) <+: t.log.filterMap (Event.sentOn? n i) := by
    rw [← ht.taken, ← ht.worked, List.append_assoc]
    exact List.prefix_append _ _
  have hp' : p < (t.log.filterMap (Event.finishedBy? i)).length := Nat.lt_of_lt_of_le hp hdone
  rw [hsent.getElem hp, ← hfinished.getElem hp']
  exact mem_finishedBy.mp (List.getElem_mem hp')

/-! ## What the pool owes to the tasks -/

/-- What holds of the tasks that were sent, at any moment. -/
structure Served (n : Nat) (s : State ι) : Prop where
  /-- a task is run once at most, and by the worker of its shard only -/
  once : ∀ task i, s.log.count (.started i task) ≤ if i = task.shardIdx % n then 1 else 0
  /-- only what was sent is run, and only what is run ends -/
  sent : ∀ task i, s.log.count (.finished i task) ≤ s.log.count (.started i task) ∧
    (.started i task ∈ s.log → .enqueued task ∈ s.log)
  /-- the tasks that one thread sends to one shard run one after the other, in the order of its calls -/
  inTurn : ∀ a b, .enqueued a ∈ s.log → .enqueued b ∈ s.log → a.thread = b.thread →
    a.shardIdx % n = b.shardIdx % n → a.num < b.num →
    Whenever s.log (.started (b.shardIdx % n) b) fun pre => .finished (a.shardIdx % n) a ∈ pre
  /-- when `shutdown` returns, what was sent and what will be is done -/
  done : ∀ task, .enqueued task ∈ s.log → Whenever s.log .returned fun pre => .finished (task.shardIdx % n) task ∈ pre
  /-- a call that begins after `shutdown` took the senders sends nothing -/
  late : ∀ task, Whenever s.log (.called task) fun pre => .took ∈ pre → .enqueued task ∉ s.log

theorem count_startedBy (log : List (Event ι)) (task : Task ι) :
    log.count (.started i task) = (log.filterMap (Event.startedBy? i)).count task := by
  rw [List.count_filterMap, List.count_eq_countP]
  refine List.countP_congr fun e _ => ?_
  cases e <;> simp [Event.startedBy?]

theorem count_finishedBy (log : List (Event ι)) (task : Task ι) :
    log.count (.finished i task) = (log.filterMap (Event.finishedBy? i)).count task := by
  rw [List.count_filterMap, List.count_eq_countP]
  refine List.countP_congr fun e _ => ?_
  cases e <;> simp [Event.finishedBy?]

theorem Kept.count_started (hk : Kept n s i) (hn : Numbered s) (task : Task ι) :
    s.log.count (.started i task) ≤ if i = task.shardIdx % n then 1 else 0 := by
  have hle : s.log.count (.started i task) ≤ (s.log.filterMap (Event.sentOn? n i)).count task := by
    rw [count_startedBy, ← hk.taken, List.count_append]
    exact Nat.le_add_right _ _
  refine Nat.le_trans hle ?_
  rw [hn.nodupOn.count]
  split
  · rename_i hmem
    exact Nat.le_of_eq (if_pos (mem_sentOn.mp hmem).2.symm).symm
  · exact Nat.zero_le _

theorem Kept.count_finished (hk : Kept n s i) (task : Task ι) :
    s.log.count (.finished i task) ≤ s.log.count (.started i task) := by
  rw [count_startedBy, count_finishedBy, ← hk.worked, List.count_append]
  exact Nat.le_add_right _ _

theorem Sound.served (hs : Sound n s) : Served n s where
  once := fun task i => (hs.kept i).count_started hs.numbered task
  sent := fun task i => ⟨(hs.kept i).count_finished task, fun h => ((hs.kept i).sent_of_started h).1⟩
  inTurn := fun a b ha _ hthread hshard hnum => by
    rw [hshard]
    exact hs.ordered.inTurn a ha _ b hthread hshard hnum
  done := hs.ordered.done
  late := fun task pre post heq htook hsent => hs.ordered.early task hsent pre post heq htook

/-- **Tasks run once, in order.** In every run of a pool with a worker in which no task panics, whatever the order of
the steps: what was sent is run once, by the worker of its shard, those of one thread on one shard one after the other,
all before `shutdown` returns, and nothing is sent after the `take`. While a task that was sent is not done its worker
is never stuck, and as many steps of it as this bound says are enough. -/
theorem runs_each_once (hn : 0 < n) {ls : List (Label ι)} (hcalm : ∀ i, .panics i ∉ ls)
    (hrun : run (State.step n) initial ls = some s) :
    Served n s ∧ ∀ task, .enqueued task ∈ s.log → ∀ i, i = task.shardIdx % n →
      (.finished i task ∉ s.log → (State.step n s (.worker i)).isSome) ∧
      ∀ ms t, run (State.step n) s ms = some t → (∀ j, .panics j ∉ ms) →
        (s.workers i).current.length + 2 * (s.queues i).length ≤ ms.count (.worker i) →
        t.log.count (.started i task) = 1 ∧ t.log.count (.finished i task) = 1 := by
  have hs : Sound n s := Sound.initial.run hn hcalm hrun
  refine ⟨hs.served, fun task htask i hi => ⟨fun hopen => ?_, fun ms t hms hcalm' hsteps => ?_⟩⟩
  · refine (hs.kept i).enabled (Nat.lt_of_not_le fun hdone => hopen ?_)
    exact (hs.kept i).finished_of_counts (List.prefix_refl _) hdone htask hi.symm
  · have ht : Sound n t := hs.run hn hcalm' hms
    have hdone : s.sentCount n i ≤ t.doneCount i := by
      rcases hs.work_run hn hcalm' hms with h | h
      · exact h
      · obtain ⟨hwork, hcount⟩ := (hs.kept i).counts
        obtain ⟨hwork', -⟩ := (ht.kept i).counts
        have hone := (t.workers i).length_current
        omega
    have hfinished := (ht.kept i).finished_of_counts (log_grows_run hms) hdone htask hi.symm
    have hpos : 0 < t.log.count (.finished i task) := List.count_pos_iff.mpr hfinished
    have hle := (ht.kept i).count_finished task
    have hone := (ht.kept i).count_started ht.numbered task
    rw [if_pos hi] at hone
    omega

/-- Two workers and two threads: the pool is made, three tasks are sent to it, and it is shut down. -/
def brief : List (Label Bool) :=
  [.new, .new, .new, .new, .call true 3, .submit true, .submit true, .submit true, .submit true, .worker 1,
    .call true 5, .submit true, .submit true, .submit true, .call false 2, .submit false, .submit false, .submit false,
    .submit false, .submit true, .shutdown, .shutdown, .shutdown, .shutdown, .shutdown, .worker 0, .worker 0, .worker 0,
    .worker 0, .worker 1, .worker 1, .worker 1, .worker 1, .worker 1, .shutdown, .shutdown, .shutdown]

theorem runs_each_once_brief : ∃ s, run (State.step 2) initial brief = some s ∧ .returned ∈ s.log ∧
    .enqueued ⟨true, 1, 5⟩ ∈ s.log ∧ Served 2 s := by
  obtain ⟨s, hs, hb⟩ := exists_of_any (o := run (State.step 2) initial brief)
    (b := fun s => decide (.returned ∈ s.log ∧ .enqueued ⟨true, 1, 5⟩ ∈ s.log)) (by decide)
  obtain ⟨hreturned, hsent⟩ := of_decide_eq_true hb
  exact ⟨s, hs, hreturned, hsent, (runs_each_once (by decide) (by simp [brief]) hs).1⟩

end Rnet.Worker
