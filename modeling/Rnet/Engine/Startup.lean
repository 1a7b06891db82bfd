import Rnet.Engine.Routing

/-!
# Start-up and shutdown

`Engine::run` starts the threads of an engine, in one of two ways, and `EngineHandler::shutdown`, called meanwhile from
another thread, asks them to stop. The call reads two cells that `run` sets once, `acceptor` and `eventloops`, one after
the other, and what is not set yet it does not stop. The steps of `run`, of the call, of the loops and of the acceptor's
thread come in any order.
-/

namespace Rnet

open Programs Relation Runs

variable {η κ Msg : Type}

/-- `options.reuse_port` -/
inductive Mode
  | userLb
  | reusePort
  deriving DecidableEq, Repr

/-- Where `run_user_lb` or `run_reuse_port` stands. -/
inductive RunPhase
  /-- in the loop over the cores, which in one mode also spawns -/
  | making
  /-- before `set_workers` -/
  | setWorkers
  /-- before `Acceptor::new` -/
  | newAcceptor
  /-- before `set_acceptor` -/
  | setAcceptor
  /-- before the acceptor's thread is spawned -/
  | spawnAcceptor
  /-- in the loop that spawns the threads of the loops -/
  | spawning
  /-- everything is started, and `run` joins the threads -/
  | joining
  /-- `run` has returned an error -/
  | failed
  deriving DecidableEq, Repr

/-- Where `Acceptor::run` stands. -/
inductive AcceptorPhase
  | checking
  | polling
  | stopped
  deriving DecidableEq, Repr

structure Acceptor where
  isRunning : Bool
  awoken : Bool
  /-- where its thread stands, once it is spawned -/
  thread : Option AcceptorPhase
  deriving DecidableEq, Repr

/-- Where the call of `EngineHandler::shutdown` stands. -/
inductive CallPhase
  /-- not called, or before `self.acceptor.get()` -/
  | idle
  /-- before `is_running.store(false)` -/
  | storing
  /-- before `waker.wake()` -/
  | waking
  /-- before `self.eventloops.get()` -/
  | loading
  /-- before `shutdown` on the handle at position `p` of `n` -/
  | triggering (p n : Nat)
  | returned
  deriving DecidableEq, Repr

structure Startup (η κ : Type) where
  mode : Mode
  run : RunPhase
  /-- the loops still to be made, one for each core left -/
  cores : List (EventLoop η κ)
  /-- the loops made so far -/
  engine : Engine η κ
  /-- so many of them have a thread -/
  spawned : Nat
  acceptor : Option Acceptor
  /-- the cell `eventloops`: the handles at these positions -/
  eventloops : Option Nat
  /-- the cell `acceptor` is set -/
  acceptorCell : Bool
  call : CallPhase

inductive StartupLabel (η : Type)
  /-- the next step of `Engine::run` -/
  | run
  /-- the next step of `Engine::run` fails -/
  | fail
  /-- the next step of the call of `shutdown` -/
  | call
  /-- the acceptor's thread goes on -/
  | acceptor
  /-- a poll of the acceptor's thread returns without the wake event -/
  | acceptorReturns
  /-- `register` or `poll` fails in the acceptor's thread -/
  | acceptorFails
  /-- the loops go on, and other threads send commands -/
  | engine (l : EngineLabel η)

namespace Startup

/-- Before the first step of `run`. -/
def initial (mode : Mode) (minted : Nat) (cores : List (EventLoop η κ)) : Startup η κ where
  mode := mode
  run := .making
  cores := cores
  engine := ⟨minted, []⟩
  spawned := 0
  acceptor := none
  eventloops := none
  acceptorCell := false
  call := .idle

/-- `EventLoop::new` and `push`; `run_user_lb` spawns the thread at once. -/
def make (s : Startup η κ) (el : EventLoop η κ) (cores : List (EventLoop η κ)) : Startup η κ :=
  { s with
    cores
    engine := { s.engine with eventloops := s.engine.eventloops ++ [Machine.initial el] }
    spawned := match s.mode with
      | .userLb => s.spawned + 1
      | .reusePort => s.spawned }

/-- The next step of `Engine::run`. A cell is set once. -/
def runNext (s : Startup η κ) : Option (Startup η κ) :=
  match s.run with
  | .making =>
    match s.cores with
    | [] => some { s with run := .setWorkers }
    | el :: cores => some (s.make el cores)
  | .setWorkers => some { s with
      eventloops := some (s.eventloops.getD s.engine.eventloops.length)
      run := match s.mode with
        | .userLb => .newAcceptor
        | .reusePort => .spawning }
  | .newAcceptor => some { s with acceptor := some ⟨true, false, none⟩, run := .setAcceptor }
  | .setAcceptor => some { s with acceptorCell := true, run := .spawnAcceptor }
  | .spawnAcceptor => some { s with
      acceptor := s.acceptor.map fun a => { a with thread := some .checking }
      run := .joining }
  | .spawning =>
    if s.spawned < s.engine.eventloops.length then some { s with spawned := s.spawned + 1 }
    else some { s with run := .joining }
  | .joining | .failed => none

/-- The steps with a `?`: they make loops, listeners and the acceptor. -/
def runFails (s : Startup η κ) : Option (Startup η κ) :=
  match s.run with
  | .making | .newAcceptor => some { s with run := .failed }
  | .setWorkers | .setAcceptor | .spawnAcceptor | .spawning | .joining | .failed => none

/-- One step of `Acceptor::run`: the check at the top of its loop, or the wake event of a poll. The connections it hands
to the loops are steps of the loops. -/
def acceptorNext (a : Acceptor) : Option Acceptor :=
  match a.thread with
  | some .checking => some { a with thread := some (if a.isRunning then .polling else .stopped) }
  | some .polling =>
    if a.awoken then
      if a.isRunning then some { a with awoken := false, thread := some .checking }
      else some { a with thread := some .stopped }
    else none
  | some .stopped | none => none

variable [Codec κ Msg] [EventHandler η κ Msg]

/-- The next step of `EngineHandler::shutdown`, called when a first loop has its thread. -/
def callNext (s : Startup η κ) : Option (Startup η κ) :=
  match s.call with
  | .idle =>
    if s.spawned = 0 then none else some { s with call := if s.acceptorCell then .storing else .loading }
  | .storing => some { s with acceptor := s.acceptor.map fun a => { a with isRunning := false }, call := .waking }
  | .waking => some { s with acceptor := s.acceptor.map fun a => { a with awoken := true }, call := .loading }
  | .loading =>
    match s.eventloops with
    | none => some { s with call := .returned }
    | some n => some { s with call := .triggering 0 n }
  | .triggering p n =>
    if p < n then (s.engine.step (.shutdown p)).map fun engine => { s with engine, call := .triggering (p + 1) n }
    else some { s with call := .returned }
  | .returned => none

/-- The loops with a thread go on; `send_command` finds them when the cell is set; the acceptor hands over connections
when its thread is there. What a callback sends to its own loop is in the loop's step here, whether the cell is set or
not. -/
def engineNext (s : Startup η κ) (l : EngineLabel η) : Option (Startup η κ) :=
  let go := (s.engine.step l).map fun engine => { s with engine }
  match l with
  | .loop p (.accept _ _ _) => if p < s.spawned ∧ s.acceptor.any (·.thread.isSome) then go else none
  | .loop p _ => if p < s.spawned then go else none
  | .sendCommand _ _ => if s.eventloops.isSome then go else some s
  | .mint _ => go
  | .shutdown _ => none

def step (s : Startup η κ) : StartupLabel η → Option (Startup η κ)
  | .run => s.runNext
  | .fail => s.runFails
  | .call => s.callNext
  | .acceptor => (s.acceptor.bind acceptorNext).map fun a => { s with acceptor := some a }
  | .acceptorReturns =>
    match s.acceptor with
    | some ⟨isRunning, awoken, some .polling⟩ => some { s with acceptor := some ⟨isRunning, awoken, some .checking⟩ }
    | _ => none
  | .acceptorFails =>
    match s.acceptor with
    | some ⟨isRunning, awoken, some _⟩ => some { s with acceptor := some ⟨isRunning, awoken, some .stopped⟩ }
    | _ => none
  | .engine l => s.engineNext l

end Startup

/-! ## What the steps can do -/

namespace Startup

variable [Codec κ Msg] [EventHandler η κ Msg] {s s' : Startup η κ}

/-- The loops take a step of the engine, or nothing happens. -/
theorem engineNext_some {l : EngineLabel η} (h : s.engineNext l = some s') :
    s' = s ∨ ∃ engine, s.engine.step l = some engine ∧ s' = { s with engine } := by
  have hgo : (s.engine.step l).map (fun engine => { s with engine }) = some s' →
      ∃ engine, s.engine.step l = some engine ∧ s' = { s with engine } := fun h => by
    obtain ⟨engine, he, rfl⟩ := Option.map_eq_some_iff.mp h
    exact ⟨engine, he, rfl⟩
  unfold engineNext at h
  dsimp only at h
  split at h
  · split at h
    · exact Or.inr (hgo h)
    · cases h
  · split at h
    · exact Or.inr (hgo h)
    · cases h
  · split at h
    · exact Or.inr (hgo h)
    · exact Or.inl (Option.some.inj h).symm
  · exact Or.inr (hgo h)
  · cases h

/-- What the acceptor's thread does to its flag and to what is left to wake it. -/
structure Goes (l : StartupLabel η) (a a' : Acceptor) : Prop where
  /-- the flag is left alone -/
  isRunning : a'.isRunning = a.isRunning
  /-- with the flag down the thread does not go to `poll` any more -/
  leaves : a.isRunning = false → a'.thread ≠ some .polling
  /-- the thread ends on a flag that is down, or on an error -/
  stops : a.isRunning → l ≠ .acceptorFails → a'.thread ≠ some .stopped

/-- **What the acceptor's thread can do.** -/
theorem step_acceptor {l : StartupLabel η} (hl : l = .acceptor ∨ l = .acceptorReturns ∨ l = .acceptorFails)
    (h : s.step l = some s') :
    ∃ a a', s.acceptor = some a ∧ s' = { s with acceptor := some a' } ∧ Goes l a a' := by
  rcases hl with rfl | rfl | rfl
  · obtain ⟨a', ha, rfl⟩ := Option.map_eq_some_iff.mp h
    obtain ⟨a, ha, hnext⟩ := Option.bind_eq_some_iff.mp ha
    refine ⟨a, a', ha, rfl, ?_⟩
    unfold acceptorNext at hnext
    split at hnext
    · cases hnext
      exact ⟨rfl, fun hdown => by simp [hdown], fun hup _ => by simp [hup]⟩
    · split at hnext
      · split at hnext <;> rename_i hrunning <;> cases hnext
        · exact ⟨rfl, fun _ => by simp, fun _ _ => by simp⟩
        · exact ⟨rfl, fun _ => by simp, fun hup => absurd hup hrunning⟩
      · cases hnext
    · cases hnext
    · cases hnext
  · simp only [step] at h
    split at h
    · rename_i ha
      cases h
      exact ⟨_, _, ha, rfl, rfl, fun _ => by simp, fun _ _ => by simp⟩
    · cases h
  · simp only [step] at h
    split at h
    · rename_i ha
      cases h
      exact ⟨_, _, ha, rfl, rfl, fun _ => by simp, fun _ hne => absurd rfl hne⟩
    · cases h

omit [Codec κ Msg] [EventHandler η κ Msg] in
/-- `run` does nothing to the call, makes the acceptor and gives it a thread. -/
theorem runNext_frame (h : s.runNext = some s') : s'.mode = s.mode ∧ s'.call = s.call ∧
    (s'.acceptor = s.acceptor ∨ s'.acceptor = some ⟨true, false, none⟩ ∨
      s'.acceptor = s.acceptor.map fun a => { a with thread := some .checking }) := by
  unfold runNext at h
  split at h
  · split at h <;> cases h <;> exact ⟨rfl, rfl, Or.inl rfl⟩
  · cases h
    exact ⟨rfl, rfl, Or.inl rfl⟩
  · cases h
    exact ⟨rfl, rfl, Or.inr (Or.inl rfl)⟩
  · cases h
    exact ⟨rfl, rfl, Or.inl rfl⟩
  · cases h
    exact ⟨rfl, rfl, Or.inr (Or.inr rfl)⟩
  · split at h <;> cases h <;> exact ⟨rfl, rfl, Or.inl rfl⟩
  all_goals cases h

end Startup
end Rnet
