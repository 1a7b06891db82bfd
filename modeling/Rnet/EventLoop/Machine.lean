import Rnet.EventLoop.Defs
import Rnet.Lib.Runs

/-!
# The main loop as a state machine

`run_loop` of `event_loop.rs`, one command, one accepted connection, one event or one tick a step, and in between
everything that may happen in other threads: commands sent to the loop, descriptors made by other loops, a change of
the handler's shared state. What `poll` returns, and whether a tick is due, is part of the label.
-/

namespace Rnet

open Programs

/-- `WAKE_TOKEN`, the largest `usize`. -/
def WAKE_TOKEN : Nat := 2 ^ 64 - 1

def LISTENER_TOKEN_START : Nat := 2 ^ 64 - 1 - 1024

def isListenerToken (token : Nat) : Option Nat :=
  if LISTENER_TOKEN_START ≤ token ∧ token < 2 ^ 64 - 1 then some (token - LISTENER_TOKEN_START) else none

/-- Where `run_loop` stands. `evs` are the events of the last poll still to be handled. -/
inductive Phase
  /-- before the first tick -/
  | start
  /-- at the top of the loop -/
  | top
  /-- before `poll`, which gets a zero timeout if commands were pending -/
  | polling (pending : Bool)
  /-- in `process_command`, with so many iterations left -/
  | draining (left : Nat) (evs : List EventLoop.Event)
  | events (evs : List EventLoop.Event)
  /-- in `accept_process`, which has taken the listeners out -/
  | accepting (idx : Nat) (listeners : List Listener) (evs : List EventLoop.Event)
  /-- after the events -/
  | ticking
  /-- `run_loop` has returned -/
  | exited (res : IoResult Unit)
  /-- the `EventLoop` is dropped, and with it every socket it still had -/
  | dropped

structure Machine (η κ : Type) where
  el : EventLoop η κ
  phase : Phase
  /-- `next_tick` is set -/
  nextTick : Bool

inductive Label (η : Type)
  /-- the next action of the loop -/
  | advance
  | poll (evs : List EventLoop.Event)
  | pollError (e : IoError)
  | tick (due : Bool)
  /-- another thread calls `trigger`, with the command's own priority -/
  | trigger (cmd : Command)
  /-- the acceptor sends a connection to the urgent queue -/
  | accept (socket : Socket) (localAddr peerAddr : NetworkAddress)
  /-- other loops make descriptors -/
  | mint (n : Nat)
  /-- the handler's state changes -/
  | handler (h : η)
  | drop

namespace Machine

variable {η κ Msg : Type}

/-- The loop goes on in another phase. -/
def goto (m : Machine η κ) (phase : Phase) : Machine η κ := { m with phase }

/-- Run a method; on an error `run_loop` returns it. -/
def call {α : Type} (m : Machine η κ) (p : LoopM η κ α) (next : α → Phase) : Machine η κ :=
  match p m.el with
  | .ok a el => { m with el, phase := next a }
  | .error e el => { m with el, phase := .exited (.error e) }

/-- `try_recv` on the urgent queue, then on the common one, as one step. What comes between the two to the urgent queue
leaves both queues as if it came after the step, and what comes to the common one as if it came before, so that no run
is left out. In `Rnet.Wake` they are two steps. -/
def takeCommand (h : EventLoopHandle) : Option (Queued × EventLoopHandle) :=
  match h.urgent with
  | q :: rest => some (q, { h with urgent := rest })
  | [] =>
    match h.common with
    | q :: rest => some (q, { h with common := rest })
    | [] => none

variable [Codec κ Msg] [EventHandler η κ Msg]

/-- A tick; the next one is due if the delay is not zero. -/
def runTick (m : Machine η κ) : Machine η κ :=
  match EventLoop.onTick m.el with
  | .ok delay el => { el, phase := .top, nextTick := delay != 0 }
  | .error e el => { m with el, phase := .exited (.error e) }

/-- The first tick, before the loop: a shutdown is no error here. -/
def firstTick (m : Machine η κ) : Machine η κ :=
  if m.el.options.ticker then
    match EventLoop.onTick m.el with
    | .ok delay el => { el, phase := .top, nextTick := delay != 0 }
    | .error _ el => { m with el, phase := .exited (.ok ()) }
  else { m with phase := .top, nextTick := false }

/-- One event of the batch. -/
def handleEvent (m : Machine η κ) (ev : EventLoop.Event) (evs : List EventLoop.Event) : Machine η κ :=
  if ev.token = WAKE_TOKEN then
    { m with
      el := { m.el with handle := { m.el.handle with awoken := false } }
      phase := .draining MAX_ASYNC_TASK_ONE_TIME evs }
  else
    match isListenerToken ev.token with
    | some idx =>
      match m.el.listeners with
      | none => m.goto (.events evs)
      | some ls => { m with el := { m.el with listeners := none }, phase := .accepting idx ls evs }
    | none => m.call (EventLoop.processIo ev.token ev) fun _ => .events evs

/-- The listeners are put back. -/
def restore (m : Machine η κ) (ls : List Listener) (phase : Phase) : Machine η κ :=
  { m with el := { m.el with listeners := some ls }, phase }

/-- One iteration of the loop of `accept_process`. -/
def acceptOne (m : Machine η κ) (idx : Nat) (ls : List Listener) (evs : List EventLoop.Event) : Machine η κ :=
  match ls[idx]? with
  | none => m.restore ls (.events evs)
  | some l =>
    match l.accept with
    | (.error _, l) => m.restore (ls.set idx l) (.events evs)
    | (.ok (socket, peerAddr), l) =>
      match l.localAddr with
      | .error e => m.restore (ls.set idx l) (.exited (.error e))
      | .ok localAddr =>
        match EventLoop.register socket localAddr peerAddr m.el with
        | .ok () el => { m with el, phase := .accepting idx (ls.set idx l) evs }
        | .error e el => { m with el }.restore (ls.set idx l) (.exited (.error e))

/-- The next action of the loop. -/
def advance (m : Machine η κ) : Option (Machine η κ) :=
  match m.phase with
  | .start => some m.firstTick
  | .top => some (m.goto (.polling (!m.el.handle.urgent.isEmpty || !m.el.handle.common.isEmpty)))
  | .draining 0 evs => some (m.goto (.events evs))
  | .draining (left + 1) evs =>
    match takeCommand m.el.handle with
    | none => some (m.goto (.events evs))
    | some (q, h) =>
      some ({ m with el := m.el.withHandle h }.call (EventLoop.handleCommand q.cmd) fun _ => .draining left evs)
  | .events [] => some (m.goto .ticking)
  | .events (ev :: evs) => some (m.handleEvent ev evs)
  | .accepting idx ls evs => some (m.acceptOne idx ls evs)
  | .polling _ | .ticking | .exited _ | .dropped => none

/-- Another thread puts a command into a queue and wakes the loop. -/
def receive (m : Machine η κ) (priority : Prioity) (cmd : Command) : Machine η κ :=
  { m with el := m.el.withHandle (m.el.handle.trigger priority ⟨cmd, none⟩).2 }

/-- The sockets of the connections still in the slab are dropped. -/
def dropAll (el : EventLoop η κ) : EventLoop η κ :=
  (el.connections.keys.filterMap el.connections.get).foldl (fun el i => el.record (.drops i.id)) el

def step (m : Machine η κ) : Label η → Option (Machine η κ)
  | .advance => m.advance
  | .poll evs =>
    match m.phase with
    | .polling pending => some (m.goto (if pending then .draining MAX_ASYNC_TASK_ONE_TIME evs else .events evs))
    | _ => none
  | .pollError e =>
    match m.phase with
    | .polling _ => some (m.goto (if e.kind = .interrupted then .top else .exited (.error e)))
    | _ => none
  | .tick due =>
    match m.phase with
    | .ticking => some (if m.nextTick && due then m.runTick else m.goto .top)
    | _ => none
  | .trigger cmd => some (m.receive cmd.priority cmd)
  | .accept socket localAddr peerAddr => some (m.receive .high (.register socket localAddr peerAddr))
  | .mint n => some { m with el := { m.el with minted := m.el.minted + n } }
  | .handler h => some { m with el := { m.el with handler := h } }
  | .drop =>
    match m.phase with
    | .exited _ => some { m with el := dropAll m.el, phase := .dropped }
    | _ => none

end Machine

namespace EventLoop

variable {η κ : Type}

/-- `EventLoop::new`, with what the system will answer, the memory it hands out and the descriptors made so far. -/
def new (loopId : UInt8) (options : Options) (handler : η) (results wakes : List (IoResult Unit)) (heap : Nat → UInt8)
    (minted : Nat) : EventLoop η κ where
  loopId := loopId
  poll := ⟨results, []⟩
  listeners := none
  options := options
  connections := Slab.empty
  handler := handler
  ioBuffer := ⟨[], (List.range options.readBufferCap).map heap, heap⟩
  handle := ⟨loopId.toNat, [], [], false, wakes, 0⟩
  connectionPool := []
  minted := minted
  trace := []

/-- `EventLoop::listener` -/
def listener (el : EventLoop η κ) (listeners : List Listener) : EventLoop η κ := { el with listeners := some listeners }

/-- `EventLoop::run`, on what `run_loop` returned: an interruption is no error. -/
def runResult (res : IoResult Unit) : IoResult Unit :=
  match res with
  | .error e => if e.kind = .interrupted then .ok () else .error e
  | .ok () => .ok ()

/-- A loop as it is before `run`: no connections, nothing queued, nothing recorded. Everything else is free. -/
structure Fresh (el : EventLoop η κ) : Prop where
  connections : el.connections = Slab.empty
  pool : el.connectionPool = []
  urgent : el.handle.urgent = []
  common : el.handle.common = []
  connCount : el.handle.connCount = 0
  trace : el.trace = []

theorem new_fresh (loopId : UInt8) (options : Options) (handler : η) (results wakes : List (IoResult Unit))
    (heap : Nat → UInt8) (minted : Nat) :
    (new loopId options handler results wakes heap minted : EventLoop η κ).Fresh := ⟨rfl, rfl, rfl, rfl, rfl, rfl⟩

end EventLoop
end Rnet
