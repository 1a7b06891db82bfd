import Rnet.Handler
import Rnet.Lib.Programs
import Rnet.Lib.Slab

/-!
# Event loops

`event_loop.rs`, from `reregister` to `shutdown`; `run_loop` is in `Rnet.EventLoop.Machine`. The methods are programs
over the state of the loop that fail with an `io::Error` and keep what they did until then.

The results of the poller, the listeners and the sockets are lists of answers still to come, as for sockets. `MONO_SEQ`
is `minted`, the number of descriptors made in the process. `trace` records the callbacks and the connections dropped,
and `Poller.registered` the registrations of sockets; no method looks at them.
-/

namespace Rnet

/-- The options the loop reads. `tcp_no_delay` only chooses a socket option whose result is printed. -/
structure Options where
  maxBatchSize : Nat
  readBufferCap : Nat
  ticker : Bool
  deriving DecidableEq, Repr

/-- A byte buffer: its bytes, the memory it owns beyond them, and what memory it is given holds. -/
structure BytesMut where
  bytes : Bytes
  spare : Bytes
  heap : Nat → UInt8

namespace BytesMut

def len (b : BytesMut) : Nat := b.bytes.length

def capacity (b : BytesMut) : Nat := b.bytes.length + b.spare.length

/-- Room for `additional` bytes beyond the length. -/
def reserve (b : BytesMut) (additional : Nat) : BytesMut :=
  { b with spare := b.spare ++ (List.range (additional - b.spare.length)).map b.heap }

/-- `set_len`: the memory beyond the length becomes bytes as it is. -/
def setLen (b : BytesMut) (n : Nat) : BytesMut :=
  { b with bytes := (b.bytes ++ b.spare).take n, spare := (b.bytes ++ b.spare).drop n }

/-- A read puts its bytes at the front. -/
def fill (b : BytesMut) (bs : Bytes) : BytesMut := { b with bytes := bs ++ b.bytes.drop bs.length }

/-- `split_to`: the bytes split off, and the rest. -/
def splitTo (b : BytesMut) (n : Nat) : Bytes × BytesMut := (b.bytes.take n, { b with bytes := b.bytes.drop n })

/-- `process_read` makes the buffer as long as the option says. -/
def prepare (b : BytesMut) (cap : Nat) : BytesMut :=
  let b := if b.capacity < cap then b.reserve cap else b
  if b.len < cap then b.setLen cap else b

end BytesMut

structure Poller where
  /-- the results of `register`, `reregister` and `deregister` still to come; past the last one they succeed -/
  results : List (IoResult Unit)
  /-- a record of the keys whose sockets were registered or registered anew, the first ones in front -/
  registered : List Nat

structure Listener where
  addr : NetworkAddress
  /-- the answers of `accept` still to come; past the last one it would block -/
  accepts : List (IoResult (Socket × NetworkAddress))
  interest : Option Interest

namespace Listener

def localAddr (l : Listener) : IoResult NetworkAddress := .ok l.addr

def accept (l : Listener) : IoResult (Socket × NetworkAddress) × Listener :=
  (l.accepts.headD (.error .wouldBlock), { l with accepts := l.accepts.tail })

end Listener

/-- What the loop did with a connection: a callback, with the connection before and after it; the carry-over of
`process_read`; the drop of its socket. -/
inductive Obs (κ : Type)
  | opens (before after : Incarnation κ) (action : Action)
  | traffic (before after : Incarnation κ) (action : Action)
  | merged (i : Incarnation κ)
  | closes (before after : Incarnation κ) (action : Action)
  | ticks (before after : Slab (Incarnation κ)) (action : Action)
  | drops (id : Nat)

structure EventLoop (η κ : Type) where
  loopId : UInt8
  poll : Poller
  listeners : Option (List Listener)
  options : Options
  connections : Slab (Incarnation κ)
  handler : η
  ioBuffer : BytesMut
  handle : EventLoopHandle
  connectionPool : List (Connection κ)
  minted : Nat
  trace : List (Obs κ)

/-- The error that makes `run` return `Ok`. -/
def IoError.eventLoopShutdown : IoError := ⟨.interrupted, "EventLoop Shutdown"⟩

abbrev LoopM (η κ α : Type) := EStateM IoError (EventLoop η κ) α

namespace EventLoop

open Programs

variable {η κ Msg : Type}

/-! ## The parts of the state -/

def setIncarnation (el : EventLoop η κ) (key : Nat) (i : Incarnation κ) : EventLoop η κ :=
  { el with connections := el.connections.set key i }

def record (el : EventLoop η κ) (obs : Obs κ) : EventLoop η κ := { el with trace := el.trace ++ [obs] }

/-- A result of the poller is used up. -/
def polled (el : EventLoop η κ) : EventLoop η κ := { el with poll := { el.poll with results := el.poll.results.tail } }

/-- The poller has registered the socket of the connection at `key`. -/
def registering (el : EventLoop η κ) (key : Nat) : EventLoop η κ :=
  { el with poll := { el.poll with registered := el.poll.registered ++ [key] } }

def withHandle (el : EventLoop η κ) (h : EventLoopHandle) : EventLoop η κ := { el with handle := h }

/-- The loop takes the connection at `key` out of the slab and puts it into the pool, without its socket. -/
def recycle (el : EventLoop η κ) (key : Nat) (i : Incarnation κ) : EventLoop η κ :=
  { el with
    connections := el.connections.remove key
    connectionPool := { i.conn with socket := none } :: el.connectionPool
    handle := { el.handle with connCount := el.handle.connCount - 1 } }.record (.drops i.id)

/-- The next operation of the poller: its error is the method's. -/
def pollResult : LoopM η κ Unit := do
  let el ← get
  set el.polled
  match el.poll.results.headD (.ok ()) with
  | .ok () => return
  | .error e => throw e

/-- `self.trigger(priority, command)`, whose answer the loop ignores. -/
def trigger (cmd : Command) : LoopM η κ Unit :=
  modify fun el => el.withHandle (el.handle.trigger cmd.priority ⟨cmd, none⟩).2

/-- `Token(key)`'s socket is registered for reading, and for writing while output is queued. -/
def reregister (key : Nat) : LoopM η κ Unit := do
  match (← get).connections.get key with
  | none => return
  | some i =>
    match i.conn.socket with
    | none => throw .unwrapNone
    | some s =>
      let interest : Interest := if i.conn.queued.isEmpty then .readable else .readableWritable
      pollResult
      modify fun el => (el.registering key).setIncarnation key
        { i with conn := { i.conn with socket := some { s with interest := interest } } }

/-! ## Callbacks -/

variable [Codec κ Msg] [EventHandler η κ Msg]

/-- A callback on a connection: its operations, what they leave in the queues, and the record of the call. -/
def callback (el : EventLoop η κ) (i : Incarnation κ) (r : Reaction κ Msg × η)
    (obs : Incarnation κ → Incarnation κ → Action → Obs κ) : Incarnation κ × EventLoop η κ :=
  let (i', h) := Op.applyAll r.1.ops i el.handle
  (i', { el with handler := r.2, handle := h }.record (obs i i' r.1.action))

def onTraffic (key : Nat) (i : Incarnation κ) : LoopM η κ Action := do
  let el ← get
  let r := EventHandler.onTraffic el.handler i.conn
  let (i', el) := el.callback i r .traffic
  set (el.setIncarnation key i')
  return r.1.action

/-- The loop ignores the action of `on_close`. -/
def onClose (key : Nat) (i : Incarnation κ) : LoopM η κ (Incarnation κ) := do
  let el ← get
  let (i', el) := el.callback i (EventHandler.onClose el.handler i.conn) .closes
  set (el.setIncarnation key i')
  return i'

/-- `on_open` gets a connection that is not in the slab yet. -/
def onOpen (i : Incarnation κ) : LoopM η κ (Action × Incarnation κ) := do
  let el ← get
  let r := EventHandler.onOpen el.handler i.conn
  let (i', el) := el.callback i r .opens
  set el
  return (r.1.action, i')

/-! ## Closing -/

/-- What `close_connection` does to the output: a last flush, or nothing more goes out. -/
def lastOutput (graceful : Bool) (c : Connection κ) : Connection κ :=
  if graceful then c.flush.2 else { c with outBuffer := none }

def closeConnection (key : Nat) (graceful : Bool) : LoopM η κ Unit := do
  match (← get).connections.get key with
  | none => return
  | some i =>
    let i ← onClose key { i with conn := lastOutput graceful i.conn }
    if i.conn.socket.isSome then pollResult
    modify (·.recycle key i)

/-- `close_connection(key, true)` on each key, whatever it answers. -/
def closeAll : List Nat → LoopM η κ Unit
  | [] => return
  | key :: keys => do
    ignore (closeConnection key true)
    closeAll keys

/-- The listeners are deregistered, whatever the poller answers. -/
def deregisterAll : List Listener → LoopM η κ Unit
  | [] => return
  | _ :: ls => do
    modify (·.polled)
    deregisterAll ls

def shutdown : LoopM η κ Unit := do
  deregisterAll ((← get).listeners.getD [])
  modify fun el => { el with listeners := none }
  closeAll (← get).connections.keys

/-! ## Reading -/

/-- One iteration of the loop of `process_read` whose `read` is answered `a`: the end of the loop, or the number of
bytes read. -/
def readOnce (key : Nat) (a : ReadAnswer) : LoopM η κ (IoStatus ⊕ Nat) := do
  let el ← get
  let ioBuffer := el.ioBuffer.prepare el.options.readBufferCap
  match el.connections.get key with
  | none => throw .unwrapNone
  | some i =>
    match i.conn.socket with
    | none => throw .unwrapNone
    | some s =>
      match s.answerRead a ioBuffer.len with
      | (.error e, s) =>
        set ({ el with ioBuffer }.setIncarnation key { i with conn := { i.conn with socket := some s } })
        return .inl (if e.kind = .wouldBlock then .completed else .closed false)
      | (.ok bs, s) =>
        let i := { i with conn := { i.conn with socket := some s } }
        if bs = [] then
          set ({ el with ioBuffer }.setIncarnation key i)
          return .inl (.closed true)
        else
          let (read, ioBuffer) := (ioBuffer.fill bs).splitTo bs.length
          let i := { i with conn := i.conn.receive read }
          set ({ el with ioBuffer }.setIncarnation key i)
          match ← onTraffic key i with
          | .close => return .inl (.closed true)
          | .shutdown => return .inl .shutdown
          | .none =>
            match (← get).connections.get key with
            | none => throw .unwrapNone
            | some i =>
              let i := { i with conn := i.conn.carryOver }
              modify fun el => (el.setIncarnation key i).record (.merged i)
              return .inr bs.length

/-- The loop of `process_read`, on the answers its reads still get; past the last one a read would block. -/
def readLoop (key : Nat) : List ReadAnswer → Nat → LoopM η κ IoStatus
  | [], bytesRead => do
    if (← get).options.maxBatchSize ≤ bytesRead then return .yield
    match ← readOnce key .wouldBlock with
    | .inl status => return status
    | .inr _ => return .completed
  | a :: answers, bytesRead => do
    if (← get).options.maxBatchSize ≤ bytesRead then return .yield
    match ← readOnce key a with
    | .inl status => return status
    | .inr n => readLoop key answers (bytesRead + n)

def processRead (key : Nat) : LoopM η κ IoStatus := do
  match (← get).connections.get key with
  | none => return .completed
  | some i =>
    if i.conn.closed then return .completed
    readLoop key ((i.conn.socket.map Socket.reads).getD []) 0

def readSocket (key : Nat) : LoopM η κ Unit := do
  match ← processRead key with
  | .closed graceful => closeConnection key graceful
  | .yield => trigger (.read key)
  | .completed => return
  | .shutdown =>
    shutdown
    throw .eventLoopShutdown

/-! ## Writing -/

omit [Codec κ Msg] [EventHandler η κ Msg] in
def processWrite (key : Nat) : LoopM η κ IoStatus := do
  let el ← get
  match el.connections.get key with
  | none => return .completed
  | some i =>
    let (res, c) := i.conn.processWrite el.options.maxBatchSize
    set (el.setIncarnation key { i with conn := c })
    match res with
    | .ok status => return status
    | .error e => throw e

def writeSocket (key : Nat) : LoopM η κ Unit := do
  match ← processWrite key with
  | .closed graceful => closeConnection key graceful
  | .yield => trigger (.write key)
  | .completed => reregister key
  | .shutdown => trigger .shutdown

/-! ## Registering -/

/-- The connection made for a socket, as an incarnation. -/
def incarnation (el : EventLoop η κ) (socket : Socket) (localAddr peerAddr : NetworkAddress) : Incarnation κ where
  id := el.minted
  before := socket.received
  consumed := []
  conn := .opened el.connectionPool.head? (.new el.minted socket.fd el.loopId el.connections.vacantKey)
    { socket with interest := some .readable } localAddr peerAddr

/-- The loop has made an incarnation, from the last pooled object if there is one, for the socket that it has
registered. -/
def minting (el : EventLoop η κ) : EventLoop η κ :=
  { el.registering el.connections.vacantKey with minted := el.minted + 1, connectionPool := el.connectionPool.tail }

/-- The connection enters the slab at the vacant key. -/
def enter (el : EventLoop η κ) (i : Incarnation κ) : EventLoop η κ :=
  { el with
    connections := el.connections.insert i
    handle := { el.handle with connCount := el.handle.connCount + 1 } }

def register (socket : Socket) (localAddr peerAddr : NetworkAddress) : LoopM η κ Unit := do
  let token := (← get).connections.vacantKey
  pollResult
  let el ← get
  set el.minting
  match ← onOpen (el.incarnation socket localAddr peerAddr) with
  | (.close, i) =>
    -- the entry is still vacant: nothing is closed, and the connection is dropped
    closeConnection token true
    modify (·.record (.drops i.id))
  | (.none, i) => modify (·.enter i)
  | (.shutdown, i) =>
    shutdown
    modify (·.record (.drops i.id))
    throw .eventLoopShutdown

/-! ## Commands and events -/

/-- `AsyncWrite(gfd, data)` -/
def asyncWrite (gfd : Gfd) (data : Bytes) : LoopM η κ Unit := do
  let el ← get
  if gfd.eventLoopIndex ≠ el.loopId.toNat then return
  let token := gfd.slabIndex
  match el.connections.get token with
  | none => return
  | some i =>
    if i.conn.gfd ≠ gfd then return
    let (res, c) := i.conn.write data
    set (el.setIncarnation token { i with conn := c })
    match res with
    | .error _ => closeConnection token false
    | .ok _ => reregister token

/-- `Command::Wake`: the loop wakes itself. -/
def wake : LoopM η κ Unit := do
  let el ← get
  let (res, h) := el.handle.wake
  set (el.withHandle h)
  match res with
  | .ok () => return
  | .error e => throw e

/-- One command of `process_command`. -/
def handleCommand (cmd : Command) : LoopM η κ Unit := do
  match cmd with
  | .none => return
  | .asyncWrite gfd data => asyncWrite gfd data
  | .register socket localAddr peerAddr => register socket localAddr peerAddr
  | .close key => closeConnection key true
  | .read key => readSocket key
  | .write key => writeSocket key
  | .wake => wake
  | .shutdown =>
    shutdown
    throw .eventLoopShutdown

/-- What one event of the poll says. -/
structure Event where
  token : Nat
  readable : Bool
  writable : Bool
  error : Bool
  readClosed : Bool
  deriving DecidableEq, Repr

def processIo (key : Nat) (ev : Event) : LoopM η κ Unit := do
  if (ev.error || ev.readClosed) && (!ev.readable && !ev.writable) then closeConnection key false
  else
    if ev.error || ev.writable then writeSocket key
    if ev.error || ev.readable then readSocket key
    reregister key

/-- One operation of `on_tick` on the connection at a key. -/
def tickOp (el : EventLoop η κ) (op : Nat × Op κ Msg) : EventLoop η κ :=
  match el.connections.get op.1 with
  | none => el
  | some i =>
    let (i', h) := op.2.apply i el.handle
    { el with handle := h }.setIncarnation op.1 i'

/-- The live connections, by key. -/
def occupants (el : EventLoop η κ) : List (Nat × Connection κ) :=
  el.connections.keys.filterMap fun k => (el.connections.get k).map fun i => (k, i.conn)

/-- `on_tick`: the delay until the next one. A shutdown ends `run_loop`. -/
def onTick : LoopM η κ Nat := do
  let el ← get
  let (r, h) := EventHandler.onTick el.handler el.occupants
  let el' := r.ops.foldl tickOp { el with handler := h }
  set (el'.record (.ticks el.connections el'.connections r.action))
  if r.action = .shutdown then
    shutdown
    throw .eventLoopShutdown
  return r.delay

end EventLoop
end Rnet
