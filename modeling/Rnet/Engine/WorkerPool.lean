import Rnet.Engine.FailedStart
import Rnet.Engine.ShutdownRequests
import Rnet.Worker.Invariants

/-!
# The worker pool of an engine

`Engine::run` makes the `WorkerPool` and shuts it down when it has joined all threads. The callbacks of the loops call
`worker::submit`, and so may any other thread. `run_reuse_port` makes the pool before it spawns a loop;
`run_user_lb` makes it last, with the loops and the acceptor already running, so that a callback may look for the
senders before they are there, and its task is dropped (`submit_before_pool`). From then on, and with `reuse_port`
always, what a callback submits is sent, unless a task that panicked has ended the worker of its shard
(`submit_reaches_pool`).
-/

namespace Rnet

open Runs Worker

variable {η κ Msg ι : Type}

/-- A callback may come next: in every phase but around `poll`, and in the ticks that are due. -/
def Machine.callsBack (m : Machine η κ) : Bool :=
  match m.phase with
  | .start => m.el.options.ticker
  | .draining (_ + 1) _ | .events (_ :: _) | .accepting _ _ _ => true
  | .ticking => m.nextTick
  | .top | .polling _ | .draining 0 _ | .events [] | .exited _ | .dropped => false

/-- An engine and the pool that its `run` makes, the first of the process. The pool knows the thread of a loop by the
loop's position; `ι` are all other threads. -/
structure Process (η κ ι : Type) where
  startup : Startup η κ
  workerCount : Nat
  pool : Worker.State (Nat ⊕ ι)

inductive ProcessLabel (η ι : Type)
  | engine (l : StartupLabel η)
  | pool (l : Worker.Label (Nat ⊕ ι))

namespace Process

/-- Before the first step of `run`. -/
def initial (mode : Mode) (minted : Nat) (cores : List (EventLoop η κ)) : Process η κ ι where
  startup := .initial mode minted cores
  workerCount := cores.length
  pool := .initial

/-- The thread of a loop is not in `submit`. -/
def outside (s : Process η κ ι) (p : Nat) : Bool :=
  match s.pool.threads (.inl p) with
  | .out => true
  | .called _ | .looking _ | .sending _ _ | .leaving | .panicked => false

/-- `run_reuse_port` spawns when the pool is made. A loop waits for its callback, which may be in `submit`; what others
do to it does not. -/
def engineMay (s : Process η κ ι) : StartupLabel η → Bool
  | .run => s.startup.mode ≠ .reusePort || s.startup.run ≠ .spawning || s.pool.phase = .ready
  | .engine (.loop _ (.accept _ _ _)) | .engine (.loop _ (.handler _)) => true
  | .engine (.loop p _) => s.outside p
  | .fail | .call | .acceptor | .acceptorReturns | .acceptorFails | .engine _ => true

/-- The threads that `run` joins have ended. -/
def joined (s : Process η κ ι) : Bool :=
  (s.startup.engine.eventloops.all fun m => match m.phase with | .dropped => true | _ => false) &&
    s.startup.acceptor.all fun a => a.thread = some .stopped

/-- `WorkerPool::new` comes before the loops are spawned with `reuse_port`, and after all threads are spawned
otherwise; `shutdown` comes when all are joined. A loop calls `submit` in a callback. -/
def poolMay (s : Process η κ ι) : Worker.Label (Nat ⊕ ι) → Bool
  | .new =>
    match s.startup.mode with
    | .userLb => s.startup.run = .joining
    | .reusePort => s.startup.run = .spawning && s.startup.spawned = 0
  | .shutdown => s.startup.run = .joining && s.joined
  | .call (.inl p) _ => p < s.startup.spawned && s.startup.engine.eventloops[p]?.any (·.callsBack)
  | .call (.inr _) _ | .submit _ | .worker _ | .panics _ => true

variable [Codec κ Msg] [EventHandler η κ Msg] [DecidableEq ι]

def step (s : Process η κ ι) : ProcessLabel η ι → Option (Process η κ ι)
  | .engine l => if s.engineMay l then (s.startup.step l).map fun startup => { s with startup } else none
  | .pool l => if s.poolMay l then (State.step s.workerCount s.pool l).map fun pool => { s with pool } else none

/-- A callback's `submit` looks for the senders when `WorkerPool::new` has returned, and sends to a worker that no task
has panicked. -/
def timely (s : Process η κ ι) : ProcessLabel η ι → Bool
  | .pool (.submit (.inl p)) =>
    match s.pool.threads (.inl p) with
    | .looking _ => s.startup.mode = .reusePort || s.pool.phase.made
    | .sending _ idx => s.pool.workers idx ≠ .panicked
    | .out | .called _ | .leaving | .panicked => true
  | .engine _ | .pool _ => true

/-- What the callbacks submit is sent: of each call either the task is in its channel, or the call goes on. -/
structure Accepts (s : Process η κ ι) : Prop where
  sent : ∀ p task, task.thread = .inl p → .called task ∈ s.pool.log →
    .enqueued task ∈ s.pool.log ∨ (s.pool.threads (.inl p)).task? = some task
  kept : ∀ p task, task.thread = .inl p → .dropped task ∉ s.pool.log

end Process

/-! ## What a step of the start-up does to the loops -/

section

variable [Codec κ Msg] [EventHandler η κ Msg]

/-- A loop that is dropped stays so. -/
theorem Machine.step_dropped {m m' : Machine η κ} {l : Label η} (h : m.step l = some m')
    (hdropped : m.phase = .dropped) :
    m'.phase = .dropped := by
  cases l with
  | advance => simp [Machine.step, Machine.advance, hdropped] at h
  | poll evs => simp [Machine.step, hdropped] at h
  | pollError e => simp [Machine.step, hdropped] at h
  | tick due => simp [Machine.step, hdropped] at h
  | drop => simp [Machine.step, hdropped] at h
  | trigger cmd | accept socket localAddr peerAddr | mint n | handler hd =>
    cases h
    exact hdropped

/-- What others do to a loop leaves it where it is. -/
theorem Machine.step_outer {m m' : Machine η κ} {l : Label η} (h : m.step l = some m')
    (hl : (∃ socket localAddr peerAddr, l = .accept socket localAddr peerAddr) ∨ ∃ hd, l = .handler hd) :
    m'.phase = m.phase := by
  obtain ⟨socket, localAddr, peerAddr, rfl⟩ | ⟨hd, rfl⟩ := hl <;> cases h <;> rfl

namespace Startup

variable {s s' : Startup η κ} {l : StartupLabel η}

/-- What a step does to the loops: one is made, one gets its thread, or they go on. -/
inductive Loops (s : Startup η κ) (l : StartupLabel η) (s' : Startup η κ) : Prop
  | makes (el : EventLoop η κ) (hl : l = .run) (hrun : s.run = .making) (hcores : s.cores = el :: s'.cores)
      (hloops : s'.engine.eventloops = s.engine.eventloops ++ [Machine.initial el])
      (hspawned : s'.spawned = s.spawned + if s.mode = .userLb then 1 else 0)
  | spawns (hl : l = .run) (hrun : s.run = .spawning) (hcores : s'.cores = s.cores) (hengine : s'.engine = s.engine)
      (hlt : s.spawned < s.engine.eventloops.length) (hspawned : s'.spawned = s.spawned + 1)
  | goes (hcores : s'.cores = s.cores) (hspawned : s'.spawned = s.spawned)
      (hengine : s'.engine = s.engine ∨ (∃ p, s.engine.step (.shutdown p) = some s'.engine) ∨
        ∃ l', l = .engine l' ∧ s.engine.step l' = some s'.engine)

theorem runNext_loops (h : s.runNext = some s') : Loops s .run s' ∧ s'.mode = s.mode ∧ s.run ≠ .joining := by
  unfold runNext at h
  cases hrun : s.run with
  | making =>
    simp only [hrun] at h
    cases hcores : s.cores with
    | nil =>
      rw [hcores] at h
      cases h
      exact ⟨.goes hcores.symm rfl (Or.inl rfl), rfl, by simp⟩
    | cons el cores =>
      rw [hcores] at h
      cases h
      refine ⟨.makes el rfl hrun hcores rfl ?_, rfl, by simp⟩
      cases hmode : s.mode <;> simp [make, hmode]
  | spawning =>
    simp only [hrun] at h
    split at h
    · rename_i hlt
      cases h
      exact ⟨.spawns rfl hrun rfl rfl hlt rfl, rfl, by simp⟩
    · cases h
      exact ⟨.goes rfl rfl (Or.inl rfl), rfl, by simp⟩
  | setWorkers | newAcceptor | setAcceptor | spawnAcceptor =>
    simp only [hrun] at h
    cases h
    exact ⟨.goes rfl rfl (Or.inl rfl), rfl, by simp⟩
  | joining | failed => simp only [hrun] at h; cases h

theorem callNext_loops (h : s.callNext = some s') : s'.cores = s.cores ∧
    (s'.engine = s.engine ∨ ∃ p, s.engine.step (.shutdown p) = some s'.engine) := by
  unfold callNext at h
  split at h
  · split at h <;> cases h
    exact ⟨rfl, Or.inl rfl⟩
  · cases h
    exact ⟨rfl, Or.inl rfl⟩
  · cases h
    exact ⟨rfl, Or.inl rfl⟩
  · split at h <;> cases h <;> exact ⟨rfl, Or.inl rfl⟩
  · split at h
    · obtain ⟨engine, hengine, rfl⟩ := Option.map_eq_some_iff.mp h
      exact ⟨rfl, Or.inr ⟨_, hengine⟩⟩
    · cases h
      exact ⟨rfl, Or.inl rfl⟩
  · cases h

theorem step_loops (h : s.step l = some s') :
    Loops s l s' ∧ s'.mode = s.mode ∧ (s.run = .joining → s'.run = .joining) := by
  cases l with
  | run =>
    obtain ⟨hloops, hmode, hrun⟩ := runNext_loops h
    exact ⟨hloops, hmode, fun hj => absurd hj hrun⟩
  | fail =>
    obtain ⟨hrun, rfl⟩ := runFails_some h
    exact ⟨.goes rfl rfl (Or.inl rfl), rfl, fun hj => by rw [hj] at hrun; obtain h | h := hrun <;> cases h⟩
  | call =>
    obtain ⟨hmode, hrun, hspawned, -⟩ := callNext_frame h
    obtain ⟨hcores, hengine⟩ := callNext_loops h
    exact ⟨.goes hcores hspawned (hengine.imp_right Or.inl), hmode, fun hj => hrun.trans hj⟩
  | acceptor | acceptorReturns | acceptorFails =>
    obtain ⟨a, a', -, rfl, -⟩ := step_acceptor (by simp) h
    exact ⟨.goes rfl rfl (Or.inl rfl), rfl, id⟩
  | engine l =>
    obtain rfl | ⟨engine, hengine, rfl⟩ := engineNext_some h
    · exact ⟨.goes rfl rfl (Or.inl rfl), rfl, id⟩
    · exact ⟨.goes rfl rfl (Or.inr (Or.inr ⟨l, rfl, hengine⟩)), rfl, id⟩

/-- The loops are counted. -/
theorem Loops.counts (h : Loops s l s') (hle : s.spawned ≤ s.engine.eventloops.length) :
    s'.spawned ≤ s'.engine.eventloops.length ∧
      s'.engine.eventloops.length + s'.cores.length = s.engine.eventloops.length + s.cores.length ∧
      s.spawned ≤ s'.spawned := by
  cases h with
  | makes el hl hrun hcores hloops hspawned =>
    rw [hspawned, hloops, hcores, List.length_append, List.length_singleton, List.length_cons]
    split <;> omega
  | spawns hl hrun hcores hengine hlt hspawned =>
    rw [hspawned, hcores, hengine]
    omega
  | goes hcores hspawned hengine =>
    have hlength : s'.engine.eventloops.length = s.engine.eventloops.length := by
      obtain hsame | ⟨p, hstep⟩ | ⟨l', -, hstep⟩ := hengine
      · rw [hsame]
      · exact Engine.step_length hstep
      · exact Engine.step_length hstep
    rw [hspawned, hcores, hlength]
    omega

/-- A step of the engine takes a loop elsewhere only by a step of its own, and one that is dropped stays so. -/
theorem acts_phase {e e' : Engine η κ} {k : EngineLabel η} {p : Nat} {m m' : Machine η κ}
    (h : Engine.Acts e k e' p m m') : (m.phase = .dropped → m'.phase = .dropped) ∧
      (m'.phase = m.phase ∨ ∃ l', k = .loop p l' ∧
        (∀ socket localAddr peerAddr, l' ≠ .accept socket localAddr peerAddr) ∧
        ∀ hd, l' ≠ .handler hd) := by
  cases h with
  | stays => exact ⟨id, Or.inl rfl⟩
  | gets cmd hcmd => exact ⟨id, Or.inl rfl⟩
  | @runs l' _ hl hown hstep hs' =>
    refine ⟨fun hdropped => Machine.step_dropped hstep hdropped, ?_⟩
    by_cases hlabel : (∃ socket localAddr peerAddr, l' = .accept socket localAddr peerAddr) ∨ ∃ hd, l' = .handler hd
    · have hphase : m'.phase = (m.sync e.minted).phase := Machine.step_outer hstep hlabel
      exact Or.inl hphase
    · exact Or.inr ⟨l', hl, fun socket localAddr peerAddr h => hlabel (Or.inl ⟨_, _, _, h⟩),
        fun hd h => hlabel (Or.inr ⟨_, h⟩)⟩

/-- **What happens to one loop** in a step of the start-up. -/
theorem Loops.loop (h : Loops s l s') {p : Nat} {m' : Machine η κ} (hm' : s'.engine.eventloops[p]? = some m')
    (hp : s.run = .making → p < s.engine.eventloops.length) : ∃ m, s.engine.eventloops[p]? = some m ∧
      (m.phase = .dropped → m'.phase = .dropped) ∧
      (m'.phase = m.phase ∨ ∃ l', l = .engine (.loop p l') ∧
        (∀ socket localAddr peerAddr, l' ≠ .accept socket localAddr peerAddr) ∧ ∀ hd, l' ≠ .handler hd) := by
  cases h with
  | makes el hl hrun hcores hloops hspawned =>
    rw [hloops, List.getElem?_append_left (hp hrun)] at hm'
    exact ⟨m', hm', id, Or.inl rfl⟩
  | spawns hl hrun hcores hengine hlt hspawned =>
    rw [hengine] at hm'
    exact ⟨m', hm', id, Or.inl rfl⟩
  | goes hcores hspawned hengine =>
    obtain hsame | ⟨q, hstep⟩ | ⟨k, rfl, hstep⟩ := hengine
    · rw [hsame] at hm'
      exact ⟨m', hm', id, Or.inl rfl⟩
    · obtain ⟨m, hm, hacts⟩ := Engine.step_acts hstep hm'
      obtain ⟨hdropped, hphase | ⟨l', hl', -⟩⟩ := acts_phase hacts
      · exact ⟨m, hm, hdropped, Or.inl hphase⟩
      · cases hl'
    · obtain ⟨m, hm, hacts⟩ := Engine.step_acts hstep hm'
      obtain ⟨hdropped, hphase | ⟨l', rfl, hl'⟩⟩ := acts_phase hacts
      · exact ⟨m, hm, hdropped, Or.inl hphase⟩
      · exact ⟨m, hm, hdropped, Or.inr ⟨l', rfl, hl'⟩⟩

end Startup
end

/-! ## The pool and the start-up together -/

namespace Process

variable {s s' : Process η κ ι}

theorem outside_iff {p : Nat} : s.outside p = true ↔ s.pool.threads (.inl p) = .out := by
  unfold outside
  cases s.pool.threads (.inl p) <;> simp

/-- The pool is made and shut down when the loops are not in `submit`. -/
structure Fits [DecidableEq ι] (s : Process η κ ι) : Prop where
  guarded : Guarded s.workerCount s.pool
  numbered : Numbered s.pool
  spawned : s.startup.spawned ≤ s.startup.engine.eventloops.length
  counted : s.startup.engine.eventloops.length + s.startup.cores.length = s.workerCount
  inside : ∀ p, s.pool.threads (.inl p) ≠ .out → p < s.startup.spawned ∧
    ∀ m : Machine η κ, s.startup.engine.eventloops[p]? = some m → m.phase ≠ .dropped
  made : s.startup.mode = .reusePort → 0 < s.startup.spawned → s.pool.phase.made = true
  ended : s.pool.phase.begun = true → s.startup.run = .joining ∧
    ∀ (p : Nat) (m : Machine η κ), s.startup.engine.eventloops[p]? = some m → m.phase = .dropped

variable [DecidableEq ι]

theorem initial_fits {mode : Mode} {minted : Nat} {cores : List (EventLoop η κ)} :
    (initial mode minted cores : Process η κ ι).Fits where
  guarded := .initial
  numbered := .initial
  spawned := Nat.le_refl 0
  counted := Nat.zero_add _
  inside := fun _ h => absurd rfl h
  made := fun _ h => absurd h (Nat.lt_irrefl 0)
  ended := nofun

variable [Codec κ Msg] [EventHandler η κ Msg]

/-- The start-up goes on. -/
theorem Fits.engine (hf : s.Fits) {l : StartupLabel η} {startup : Startup η κ} (hmay : s.engineMay l = true)
    (h : s.startup.step l = some startup) : ({ s with startup } : Process η κ ι).Fits := by
  obtain ⟨hloops, hmode, hjoining⟩ := Startup.step_loops h
  obtain ⟨hspawned, hcount, hgrows⟩ := hloops.counts hf.spawned
  refine ⟨hf.guarded, hf.numbered, hspawned, hcount.trans hf.counted, fun p hp => ?_, fun hm hpos => ?_, fun hb => ?_⟩
  · obtain ⟨hlt, hlive⟩ := hf.inside p hp
    refine ⟨Nat.lt_of_lt_of_le hlt hgrows, fun m' hm' hdropped => ?_⟩
    obtain ⟨m, hm, -, hphase | ⟨l', rfl, haccept, hhandler⟩⟩ :=
      hloops.loop hm' fun _ => Nat.lt_of_lt_of_le hlt hf.spawned
    · exact hlive m hm (hphase ▸ hdropped)
    · -- a step of its own: the loop is not in `submit`
      have houtside : s.outside p = true := by
        cases l' with
        | accept socket localAddr peerAddr => exact absurd rfl (haccept _ _ _)
        | handler hd => exact absurd rfl (hhandler _)
        | advance | poll _ | pollError _ | tick _ | trigger _ | mint _ | drop => exact hmay
      exact hp (outside_iff.mp houtside)
  · have hm' : s.startup.mode = .reusePort := hmode ▸ hm
    cases hloops with
    | makes el hl hrun hcores hloops hspawned =>
      rw [hm'] at hspawned
      exact hf.made hm' (by simpa [hspawned] using hpos)
    | spawns hl hrun hcores hengine hlt hspawned =>
      subst hl
      have hready : s.pool.phase = .ready := by simpa [engineMay, hm', hrun] using hmay
      show s.pool.phase.made = true
      rw [hready]
      rfl
    | goes hcores hspawned hengine => exact hf.made hm' (by rw [← hspawned]; exact hpos)
  · obtain ⟨hrun, hall⟩ := hf.ended hb
    refine ⟨hjoining hrun, fun p m' hm' => ?_⟩
    obtain ⟨m, hm, hdropped, -⟩ := hloops.loop hm' fun hmaking => by rw [hrun] at hmaking; cases hmaking
    exact hdropped (hall p m hm)

omit [Codec κ Msg] [EventHandler η κ Msg] in
/-- The pool goes on. -/
theorem Fits.pool (hf : s.Fits) {l : Worker.Label (Nat ⊕ ι)} {pool : Worker.State (Nat ⊕ ι)} (hmay : s.poolMay l = true)
    (h : State.step s.workerCount s.pool l = some pool) : ({ s with pool } : Process η κ ι).Fits := by
  obtain ⟨hmade, hbegun⟩ := step_phase h
  refine ⟨hf.guarded.step h, hf.numbered.step h, hf.spawned, hf.counted, fun p hp => ?_,
    fun hm hpos => hmade (hf.made hm hpos), fun hb => ?_⟩
  · by_cases hout : s.pool.threads (.inl p) = .out
    · rcases step_thread h (.inl p) with hsame | rfl | ⟨-, shardIdx, rfl⟩
      · exact absurd (hsame.trans hout) hp
      · simp [State.step, State.submit, hout] at h
      · -- the callback that calls
        simp only [poolMay, Bool.and_eq_true, decide_eq_true_eq] at hmay
        obtain ⟨hlt, hcalls⟩ := hmay
        refine ⟨hlt, fun m hm hdropped => ?_⟩
        rw [hm] at hcalls
        simp [Machine.callsBack, hdropped] at hcalls
    · exact hf.inside p hout
  · rcases hbegun hb with hb | rfl
    · exact hf.ended hb
    · simp only [poolMay, joined, Bool.and_eq_true, decide_eq_true_eq] at hmay
      obtain ⟨hrun, hall, -⟩ := hmay
      refine ⟨hrun, fun p m hm => ?_⟩
      have hdropped := List.all_eq_true.mp hall m (List.mem_of_getElem? hm)
      split at hdropped
      · assumption
      · cases hdropped

/-! ## What the callbacks submit is sent -/

omit [Codec κ Msg] [EventHandler η κ Msg] [DecidableEq ι] in
/-- Nothing new is called or dropped, and no thread moves. -/
theorem Accepts.beside (ha : s.Accepts) {pool : Worker.State (Nat ⊕ ι)} {es : List (Worker.Event (Nat ⊕ ι))}
    (hlog : pool.log = s.pool.log ++ es) (hcalled : ∀ task, .called task ∉ es) (hdropped : ∀ task, .dropped task ∉ es)
    (hthreads : pool.threads = s.pool.threads) : ({ s with pool } : Process η κ ι).Accepts where
  sent p task hp h := by
    have h : Event.called task ∈ pool.log := h
    rw [hlog] at h
    have hold := ha.sent p task hp ((List.mem_append.mp h).resolve_right (hcalled task))
    show Event.enqueued task ∈ pool.log ∨ (pool.threads (.inl p)).task? = some task
    rw [hlog, hthreads]
    exact hold.imp_left (List.mem_append_left _)
  kept p task hp h := by
    have h : Event.dropped task ∈ pool.log := h
    rw [hlog] at h
    exact ha.kept p task hp ((List.mem_append.mp h).resolve_right (hdropped task))

omit [Codec κ Msg] [EventHandler η κ Msg] in
/-- A thread goes on in its call, which is over when its task is sent. -/
theorem Accepts.moves (ha : s.Accepts) {pool : Worker.State (Nat ⊕ ι)} {es : List (Worker.Event (Nat ⊕ ι))}
    {t : Nat ⊕ ι} {pc : SubmitPc (Nat ⊕ ι)} (hlog : pool.log = s.pool.log ++ es)
    (hcalled : ∀ task, .called task ∈ es → task.thread = t ∧ pc.task? = some task)
    (hdropped : ∀ p task, task.thread = .inl p → .dropped task ∉ es)
    (hthreads : pool.threads = Function.update s.pool.threads t pc)
    (hpc : ∀ p, t = .inl p → ∀ task, (s.pool.threads t).task? = some task →
      .enqueued task ∈ es ∨ pc.task? = some task) :
    ({ s with pool } : Process η κ ι).Accepts where
  sent p task hp h := by
    have h : Event.called task ∈ pool.log := h
    show Event.enqueued task ∈ pool.log ∨ (pool.threads (.inl p)).task? = some task
    rw [hlog] at h ⊢
    rw [hthreads]
    rcases List.mem_append.mp h with h | h
    · by_cases ht : t = .inl p
      · subst ht
        rw [Function.update_self]
        rcases ha.sent p task hp h with hsent | htask
        · exact Or.inl (List.mem_append_left _ hsent)
        · exact (hpc p rfl task htask).imp_left (List.mem_append_right _)
      · rw [Function.update_of_ne (Ne.symm ht)]
        exact (ha.sent p task hp h).imp_left (List.mem_append_left _)
    · obtain ⟨ht, htask⟩ := hcalled task h
      rw [← hp, ht, Function.update_self]
      exact Or.inr htask
  kept p task hp h := by
    have h : Event.dropped task ∈ pool.log := h
    rw [hlog] at h
    exact ha.kept p task hp ((List.mem_append.mp h).resolve_right (hdropped p task hp))

omit [Codec κ Msg] [EventHandler η κ Msg] in
/-- **While a callback is in `submit`**, the pool is not being shut down; when it looks in time, the table is there. -/
theorem Fits.ready (hf : s.Fits) {p : Nat} (hp : s.pool.threads (.inl p) ≠ .out)
    (htime : s.startup.mode = .reusePort ∨ s.pool.phase.made = true) : s.pool.phase = .ready := by
  obtain ⟨hlt, hlive⟩ := hf.inside p hp
  have hmade : s.pool.phase.made = true := htime.elim (fun hmode => hf.made hmode (Nat.zero_lt_of_lt hlt)) id
  have hopen : s.pool.phase.begun = false := by
    refine Bool.eq_false_iff.mpr fun hb => ?_
    have hlt' : p < s.startup.engine.eventloops.length := Nat.lt_of_lt_of_le hlt hf.spawned
    exact hlive _ (List.getElem?_eq_getElem hlt') ((hf.ended hb).2 p _ (List.getElem?_eq_getElem hlt'))
  cases hphase : s.pool.phase with
  | ready => rfl
  | spawning _ | installing => rw [hphase] at hmade; cases hmade
  | taking | dropping _ | joining _ | returned => rw [hphase] at hopen; cases hopen

omit [Codec κ Msg] [EventHandler η κ Msg] in
/-- A pool with a loop has a worker. -/
theorem Fits.workerCount_pos (hf : s.Fits) {p : Nat} (hp : s.pool.threads (.inl p) ≠ .out) : 0 < s.workerCount := by
  have hlt := (hf.inside p hp).1
  have hspawned := hf.spawned
  have hcounted := hf.counted
  omega

omit [Codec κ Msg] [EventHandler η κ Msg] in
theorem Accepts.pool (ha : s.Accepts) (hf : s.Fits) {l : Worker.Label (Nat ⊕ ι)} {pool : Worker.State (Nat ⊕ ι)}
    (htime : s.timely (.pool l) = true) (h : State.step s.workerCount s.pool l = some pool) :
    ({ s with pool } : Process η κ ι).Accepts := by
  have hlogSame : ∀ log : List (Worker.Event (Nat ⊕ ι)), log = log ++ [] := fun log => (List.append_nil log).symm
  cases State.step_next h with
  | spawns _ _ | newLocks _ _ _ | installs _ | shutdownLocks _ _ | drops _ _ | unlocks _ _ | joins _ _ _ =>
    exact ha.beside (hlogSame _) (by simp) (by simp) rfl
  | stops _ _ _ | turns _ _ | panics _ => exact ha.beside (hlogSame _) (by simp) (by simp) rfl
  | takes _ | returns _ _ | pops _ _ | finishes _ => exact ha.beside rfl (by simp) (by simp) rfl
  | @calls t shardIdx task hout htask =>
    refine ha.moves rfl (fun task' h' => ?_) (by simp) rfl (fun p hp task' h' => ?_)
    · obtain rfl : task' = task := by simpa using h'
      exact ⟨by rw [htask], rfl⟩
    · rw [hout] at h'
      cases h'
  | reads hpc hfree =>
    refine ha.moves (hlogSame _) (by simp) (by simp) rfl fun p hp task' h' => ?_
    rw [hpc] at h'
    exact Or.inr h'
  | finds hpc htable hlen =>
    refine ha.moves (hlogSame _) (by simp) (by simp) rfl fun p hp task' h' => ?_
    rw [hpc] at h'
    exact Or.inr h'
  | @misses t task hpc htable =>
    have hnot : ∀ p, t ≠ .inl p := by
      rintro p rfl
      have hready := hf.ready (by rw [hpc]; nofun) (by simpa [timely, hpc] using htime)
      rw [hf.guarded.table, hready] at htable
      cases htable
    have hthread : task.thread = t := (hf.numbered.current t task (by rw [hpc]; rfl)).1
    refine ha.moves rfl (by simp) (fun p task' hp h' => ?_) rfl fun p hp => absurd hp (hnot p)
    obtain rfl : task' = task := by simpa using h'
    exact hnot p (hthread.symm.trans hp)
  | @divides t task hpc htable =>
    have hnot : ∀ p, t ≠ .inl p := by
      rintro p rfl
      have hpos := hf.workerCount_pos (p := p) (by rw [hpc]; nofun)
      obtain ⟨hphase, -⟩ := hf.guarded.installed htable
      have hzero : s.workerCount = 0 := by
        rw [hf.guarded.table] at htable
        rcases hphase with hphase | hphase <;> rw [hphase] at htable <;> exact Option.some.inj htable
      exact Nat.lt_irrefl 0 (hzero ▸ hpos)
    exact ha.moves (hlogSame _) (by simp) (by simp) rfl fun p hp => absurd hp (hnot p)
  | @refused t task idx hpc hended =>
    have hnot : ∀ p, t ≠ .inl p := by
      rintro p rfl
      have hsound : s.pool.workers idx ≠ .panicked := by simpa [timely, hpc] using htime
      obtain ⟨htable, -⟩ := hf.guarded.sender _ task idx hpc
      obtain ⟨hphase, -⟩ := hf.guarded.installed htable
      cases hworker : s.pool.workers idx with
      | panicked => exact hsound hworker
      | stopped =>
        have hgone := hf.guarded.gone idx hworker
        rcases hphase with hphase | hphase <;> rw [hphase] at hgone <;> cases hgone
      | unborn | recv | running _ | tryRecv => rw [hworker] at hended; cases hended
    have hthread : task.thread = t := (hf.numbered.current t task (by rw [hpc]; rfl)).1
    refine ha.moves rfl (by simp) (fun p task' hp h' => ?_) rfl fun p hp => absurd hp (hnot p)
    obtain rfl : task' = task := by simpa using h'
    exact hnot p (hthread.symm.trans hp)
  | @sends t task idx hpc halive hroom =>
    refine ha.moves rfl (by simp) (by simp) rfl fun p hp task' h' => ?_
    rw [hpc] at h'
    obtain rfl := Option.some.inj h'
    exact Or.inl List.mem_cons_self
  | leaves hpc =>
    refine ha.moves (hlogSame _) (by simp) (by simp) rfl fun p hp task' h' => ?_
    rw [hpc] at h'
    cases h'

theorem step_pool {l : Worker.Label (Nat ⊕ ι)} (h : s.step (.pool l) = some s') : s.poolMay l = true ∧
    ∃ pool, State.step s.workerCount s.pool l = some pool ∧ s' = { s with pool } := by
  simp only [step] at h
  split at h
  · rename_i hmay
    obtain ⟨pool, hpool, rfl⟩ := Option.map_eq_some_iff.mp h
    exact ⟨hmay, pool, hpool, rfl⟩
  · cases h

theorem step_engine {l : StartupLabel η} (h : s.step (.engine l) = some s') : s.engineMay l = true ∧
    ∃ startup, s.startup.step l = some startup ∧ s' = { s with startup } := by
  simp only [step] at h
  split at h
  · rename_i hmay
    obtain ⟨startup, hstartup, rfl⟩ := Option.map_eq_some_iff.mp h
    exact ⟨hmay, startup, hstartup, rfl⟩
  · cases h

theorem Fits.step (hf : s.Fits) {l : ProcessLabel η ι} (h : s.step l = some s') : s'.Fits := by
  cases l with
  | engine l =>
    obtain ⟨hmay, startup, hstartup, rfl⟩ := step_engine h
    exact hf.engine hmay hstartup
  | pool l =>
    obtain ⟨hmay, pool, hpool, rfl⟩ := step_pool h
    exact hf.pool hmay hpool

theorem Accepts.step (ha : s.Accepts) (hf : s.Fits) {l : ProcessLabel η ι} (htime : s.timely l = true)
    (h : s.step l = some s') : s'.Accepts := by
  cases l with
  | engine l =>
    obtain ⟨-, startup, -, rfl⟩ := step_engine h
    exact ⟨ha.sent, ha.kept⟩
  | pool l =>
    obtain ⟨-, pool, hpool, rfl⟩ := step_pool h
    exact ha.pool hf htime hpool

/-- What is recorded stays. -/
theorem step_log {l : ProcessLabel η ι} (h : s.step l = some s') : s.pool.log <+: s'.pool.log := by
  cases l with
  | engine l =>
    obtain ⟨-, startup, -, rfl⟩ := step_engine h
    exact List.prefix_refl _
  | pool l =>
    obtain ⟨-, pool, hpool, rfl⟩ := step_pool h
    exact log_grows hpool

/-- **A step that comes too early**, or to a worker that is gone, drops a task. -/
theorem Fits.drops (hf : s.Fits) {l : ProcessLabel η ι} (hearly : ¬s.timely l = true) (h : s.step l = some s') :
    ∃ p task, task.thread = .inl p ∧ .dropped task ∈ s'.pool.log := by
  unfold timely at hearly
  split at hearly
  · rename_i p
    obtain ⟨-, pool, hpool, rfl⟩ := step_pool h
    have hcurrent := hf.numbered.current (.inl p)
    split at hearly
    · rename_i task hpc
      have htable : s.pool.globalSenders = none := by
        rw [hf.guarded.table]
        cases hphase : s.pool.phase <;> simp [hphase, Worker.Phase.made] at hearly <;> rfl
      simp only [State.step, State.submit, hpc, htable] at hpool
      cases hpool
      exact ⟨p, task, (hcurrent task (by rw [hpc]; rfl)).1, by simp [State.record]⟩
    · rename_i task idx hpc
      have hended : (s.pool.workers idx).ended = true := by
        have hpanicked : s.pool.workers idx = .panicked := by simpa using hearly
        rw [hpanicked]
        rfl
      simp only [State.step, State.submit, hpc, hended, if_true] at hpool
      cases hpool
      exact ⟨p, task, (hcurrent task (by rw [hpc]; rfl)).1, by simp [State.record]⟩
    all_goals exact absurd rfl hearly
  all_goals exact absurd rfl hearly

omit [DecidableEq ι] in
theorem initial_accepts {mode : Mode} {minted : Nat} {cores : List (EventLoop η κ)} :
    (initial mode minted cores : Process η κ ι).Accepts where
  sent p task hp h := by cases h
  kept p task hp h := by cases h

/-- **What the callbacks submit is sent**, in a run of either start-up and of all threads in any order, if and only if
every `submit` of a callback looks for the senders in time and sends to a worker that no task has panicked. With
`reuse_port` every look is in time. -/
theorem submit_reaches_pool {mode : Mode} {minted : Nat} {cores : List (EventLoop η κ)} {ls : List (ProcessLabel η ι)}
    (hrun : run step (initial mode minted cores : Process η κ ι) ls = some s) :
    s.Accepts ↔ Along step (fun s l => s.timely l = true) (initial mode minted cores) ls := by
  constructor
  · intro ha
    by_contra hnot
    obtain ⟨ks, l, ms, s₁, s₂, rfl, hks, -, hearly, hstep, hms⟩ := exists_of_not_along hrun hnot
    have hf : s₁.Fits := run_invariant' (fun _ _ _ hf h => hf.step h) initial_fits hks
    obtain ⟨p, task, hp, hdropped⟩ := hf.drops hearly hstep
    have hlog : s₂.pool.log <+: s.pool.log :=
      run_invariant' (P := fun t => s₂.pool.log <+: t.pool.log) (fun _ _ _ hlog h => hlog.trans (step_log h))
        (List.prefix_refl _) hms
    exact ha.kept p task hp (hlog.subset hdropped)
  · intro hall
    have hboth : s.Fits ∧ s.Accepts :=
      run_invariant (P := fun s => s.Fits ∧ s.Accepts)
        (fun _ _ _ hs htime h => ⟨hs.1.step h, hs.2.step hs.1 htime h⟩) ⟨initial_fits, initial_accepts⟩ hall hrun
    exact hboth.2

/-! ## One loop, whose first callback submits a task -/

open EventLoop Engine

/-- A loop with a tick before anything else. -/
def clock : List (EventLoop Bystander RawCodec) := [.new 0 ⟨64, 8, true⟩ ⟨⟩ [] [] (fun _ => 0) 0]

/-- The loop's `on_tick` submits. -/
def tickSubmits : List (ProcessLabel Bystander Empty) :=
  [.pool (.call (.inl 0) 5), .pool (.submit (.inl 0)), .pool (.submit (.inl 0)), .pool (.submit (.inl 0))]

/-- With `reuse_port` the pool is there before the loop is. -/
def poolFirst : List (ProcessLabel Bystander Empty) :=
  [.engine .run, .engine .run, .engine .run, .pool .new, .pool .new, .pool .new, .engine .run] ++ tickSubmits

theorem submit_reaches_pool_first : ∃ s, run step (initial .reusePort 0 clock : Process _ _ Empty) poolFirst = some s ∧
    .enqueued ⟨.inl 0, 0, 5⟩ ∈ s.pool.log ∧ s.Accepts := by
  obtain ⟨s, hs, hsent⟩ := exists_of_any (o := run step (initial .reusePort 0 clock : Process _ _ Empty) poolFirst)
    (b := fun s => decide (.enqueued ⟨.inl 0, 0, 5⟩ ∈ s.pool.log)) (by decide +kernel)
  refine ⟨s, hs, of_decide_eq_true hsent, (submit_reaches_pool hs).mpr ?_⟩
  exact .of_check (b := fun s l => s.timely l) (fun _ _ h => h) (by decide +kernel)

/-- With the user's load balancing the first loop runs before the pool is made. -/
theorem submit_before_pool : ∃ s,
    run step (initial .userLb 0 clock : Process _ _ Empty) (.engine .run :: tickSubmits) = some s ∧
    .dropped ⟨.inl 0, 0, 5⟩ ∈ s.pool.log ∧ ¬s.Accepts := by
  obtain ⟨s, hs, hdropped⟩ := exists_of_any
    (o := run step (initial .userLb 0 clock : Process _ _ Empty) (.engine .run :: tickSubmits))
    (b := fun s => decide (.dropped ⟨.inl 0, 0, 5⟩ ∈ s.pool.log)) (by decide +kernel)
  exact ⟨s, hs, of_decide_eq_true hdropped, fun ha => ha.kept 0 _ rfl (of_decide_eq_true hdropped)⟩

end Process
end Rnet
