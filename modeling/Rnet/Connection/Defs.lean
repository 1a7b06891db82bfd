import Rnet.Codec
import Rnet.Gfd
import Rnet.Lib.Chunks

/-!
# Connections

`connection.rs`. Unread input sits in `inBuffer` (carried over from earlier reads) followed by `ioBuffer` (the
current read); output the socket did not take sits in `outBuffer`. The functions return the connection afterwards;
`unwrap` on a missing socket is the error `IoError.unwrapNone`.

`write` and `write_bytes`, `write_vectored` and `write_vectored_bytes` are one function each up to the buffer types;
all four are `writeOrQueue`. The drain loops of `flush` and of `EventLoop::process_write` are `drainLoop`, without
and with a batch limit. Lengths are natural numbers: the buffers of one call are in memory at once.
-/

namespace Rnet

open Chunks

def IO_MAX : Nat := 1024

inductive NetworkAddress
  | tcp (addr : String)
  | unix (path : String)
  deriving DecidableEq, Repr

structure Connection (κ : Type) where
  gfd : Gfd
  socket : Option Socket
  localAddr : NetworkAddress
  peerAddr : NetworkAddress
  closed : Bool
  ioBuffer : Option Bytes
  inBuffer : Option Bytes
  outBuffer : Option (List Bytes)
  codec : Option κ
  deriving DecidableEq, Repr

/-- How a pass over a connection's socket ended. -/
inductive IoStatus
  | completed
  | yield
  | closed (graceful : Bool)
  | shutdown
  deriving DecidableEq, Repr

namespace Connection

variable {κ Msg : Type}

def new (gfd : Gfd) (socket : Socket) (localAddr peerAddr : NetworkAddress) : Connection κ where
  gfd := gfd
  socket := some socket
  localAddr := localAddr
  peerAddr := peerAddr
  closed := false
  ioBuffer := none
  inBuffer := none
  outBuffer := none
  codec := none

def reset (c : Connection κ) (gfd : Gfd) (socket : Socket) (localAddr peerAddr : NetworkAddress) : Connection κ :=
  { c with
    gfd := gfd
    socket := some socket
    localAddr := localAddr
    peerAddr := peerAddr
    closed := false
    codec := none
    inBuffer := c.inBuffer.map fun _ => []
    ioBuffer := c.ioBuffer.map fun _ => []
    outBuffer := c.outBuffer.map fun _ => [] }

/-- The connection `register` makes for a socket: a pooled object reset, or a new one. -/
def opened (pooled : Option (Connection κ)) (gfd : Gfd) (socket : Socket) (localAddr peerAddr : NetworkAddress) :
    Connection κ :=
  match pooled with
  | some c => c.reset gfd socket localAddr peerAddr
  | none => new gfd socket localAddr peerAddr

/-! ## Input -/

def inBufLen (c : Connection κ) : Nat := (c.inBuffer.map List.length).getD 0

def ioBufLen (c : Connection κ) : Nat := (c.ioBuffer.map List.length).getD 0

/-- The input the handler has not consumed. -/
def unread (c : Connection κ) : Bytes := c.inBuffer.getD [] ++ c.ioBuffer.getD []

/-- `n` bounded by the unread input: the common head of the accessors. -/
def actualLen (c : Connection κ) (n : Option Nat) : Option Nat :=
  match n with
  | some n => if c.inBufLen + c.ioBufLen < n then none else some n
  | none => some (c.inBufLen + c.ioBufLen)

def nextContiguous (c : Connection κ) (n : Option Nat) : Option Bytes × Connection κ :=
  match c.actualLen n with
  | none => (none, c)
  | some len =>
    if c.inBufLen = 0 then
      match c.ioBuffer with
      | some io => (some (io.take len), { c with ioBuffer := some (io.drop len) })
      | none => (none, c)
    else
      match c.inBuffer with
      | none => (none, c)
      | some inb =>
        if len ≤ c.inBufLen then (some (inb.take len), { c with inBuffer := some (inb.drop len) })
        else
          -- `len` reaches into `io_buffer`, which is therefore there
          let copy := len - c.inBufLen
          let io := c.ioBuffer.getD []
          (some (inb ++ io.take copy), { c with inBuffer := none, ioBuffer := some (io.drop copy) })

/-- The part of `next_vectored` that takes from `in_buffer`: the chunk, and the connection afterwards. -/
def takeIn (c : Connection κ) (len : Nat) : List Bytes × Connection κ :=
  match c.inBuffer with
  | none => ([], c)
  | some inb =>
    let n := min len inb.length
    let rest := inb.drop n
    (if 0 < n then [inb.take n] else [], { c with inBuffer := if rest = [] then none else some rest })

def nextVectored (c : Connection κ) (n : Option Nat) : Option (List Bytes) × Connection κ :=
  if n = some 0 then (none, c)
  else
    match c.actualLen n with
    | none => (none, c)
    | some len =>
      let (chunks, c') := c.takeIn len
      let remaining := len - chunks.flatten.length
      if 0 < remaining then
        match c'.ioBuffer with
        | some io => (some (chunks ++ [io.take remaining]), { c' with ioBuffer := some (io.drop remaining) })
        | none => (some chunks, c')
      else (some chunks, c')

def peek (c : Connection κ) (n : Option Nat) : Option Bytes :=
  match c.actualLen n with
  | none => none
  | some len =>
    if c.inBufLen = 0 then c.ioBuffer.map (·.take len)
    else
      match c.inBuffer with
      | none => none
      | some inb =>
        if len ≤ c.inBufLen then some (inb.take len)
        else some (inb ++ (c.ioBuffer.getD []).take (len - c.inBufLen))

def discard (c : Connection κ) (n : Option Nat) : Option Nat × Connection κ :=
  match c.actualLen n with
  | none => (none, c)
  | some len =>
    if c.inBufLen = 0 then
      match c.ioBuffer with
      | some io => (some len, { c with ioBuffer := some (io.drop len) })
      | none => (none, c)
    else
      let inb := c.inBuffer.getD []
      if len ≤ c.inBufLen then
        let rest := inb.drop len
        (some len, { c with inBuffer := if rest = [] then none else some rest })
      else (some len, { c with inBuffer := none, ioBuffer := some ((c.ioBuffer.getD []).drop (len - c.inBufLen)) })

/-- `Read::read` into a buffer of `len` bytes: the bytes copied into it. -/
def read (c : Connection κ) (len : Nat) : Bytes × Connection κ :=
  let (chunks, c') := c.takeIn len
  let got := chunks.flatten
  if got.length = len then (got, c')
  else
    match c'.ioBuffer with
    | none => (got, c')
    | some io =>
      let n := min (len - got.length) io.length
      (got ++ io.take n, { c' with ioBuffer := some (io.drop n) })

def setCodec (c : Connection κ) (codec : κ) : Connection κ := { c with codec := some codec }

def nextMessage [Codec κ Msg] (c : Connection κ) : IoResult (Option Msg) × Connection κ :=
  match c.codec, c.inBuffer with
  | some codec, some inb =>
    let (res, codec, inb) := Codec.decode codec inb
    (res, { c with codec := some codec, inBuffer := some inb })
  | _, _ => (.ok none, c)

/-- `process_read` hands the bytes of one read to the connection. -/
def receive (c : Connection κ) (bs : Bytes) : Connection κ := { c with ioBuffer := some bs }

/-- `process_read` carries the rest of `io_buffer` over into `in_buffer`. -/
def carryOver (c : Connection κ) : Connection κ :=
  match c.ioBuffer with
  | none => c
  | some io =>
    if io = [] then { c with ioBuffer := none }
    else
      match c.inBuffer with
      | some inb => { c with ioBuffer := none, inBuffer := some (inb ++ io) }
      | none => { c with ioBuffer := none, inBuffer := some io }

/-! ## Output -/

/-- The chunks waiting in `out_buffer`. -/
def queued (c : Connection κ) : List Bytes := c.outBuffer.getD []

/-- Push chunks at the back of `out_buffer`, making it if need be. -/
def enqueue (c : Connection κ) (chunks : List Bytes) : Connection κ :=
  { c with outBuffer := some (c.queued ++ chunks) }

/-- Write to the socket unless output is queued; queue what the socket did not take. `call` is the write call on
the socket, `rest n` the chunks left when `n` bytes went out. -/
def writeOrQueue (c : Connection κ) (call : Socket → IoResult Nat × Socket) (bufs : List Bytes)
    (rest : Nat → List Bytes) : IoResult Nat × Connection κ :=
  let len := bufs.flatten.length
  if c.queued ≠ [] then (.ok len, c.enqueue bufs)
  else
    match c.socket with
    | none => (.error .unwrapNone, c)
    | some s =>
      match call s with
      | (.ok n, s) =>
        let c := { c with socket := some s }
        (.ok len, if n < len then c.enqueue (rest n) else c)
      | (.error e, s) =>
        let c := { c with socket := some s }
        if e.isTransient then (.ok len, c.enqueue bufs) else (.error e, c)

def writeBytes (c : Connection κ) (buf : Bytes) : IoResult Nat × Connection κ :=
  c.writeOrQueue (·.write buf) [buf] (fun n => [buf.drop n])

def write (c : Connection κ) (buf : Bytes) : IoResult Nat × Connection κ :=
  c.writeOrQueue (·.write buf) [buf] (fun n => [buf.drop n])

/-- The loop of `write_vectored_bytes` over the buffers after a partial write. -/
def unsentBytes : Nat → List Bytes → List Bytes
  | _, [] => []
  | written, buf :: bufs =>
    if buf.length ≤ written then unsentBytes (written - buf.length) bufs
    else if 0 < written then buf.drop written :: unsentBytes 0 bufs
    else buf :: unsentBytes written bufs

def writeVectoredBytes (c : Connection κ) (bufs : List Bytes) : IoResult Nat × Connection κ :=
  if bufs.flatten.length = 0 then (.ok 0, c)
  else c.writeOrQueue (·.writeVectored bufs) bufs (unsentBytes · bufs)

def writeVectored (c : Connection κ) (bufs : List Bytes) : IoResult Nat × Connection κ :=
  if bufs.flatten.length = 0 then (.ok 0, c)
  else c.writeOrQueue (·.writeVectored bufs) bufs (unsent · bufs)

def send [Codec κ Msg] (c : Connection κ) (msg : Msg) : IoResult Unit × Connection κ :=
  match c.codec with
  | none => (.error ⟨.other, "No codec set"⟩, c)
  | some codec =>
    let (res, codec, buf) := Codec.encode codec msg []
    let c := { c with codec := some codec }
    match res with
    | .error e => (.error e, c)
    | .ok () =>
      let (res, c) := c.writeBytes buf
      (res.map fun _ => (), c)

/-- Why the drain loop stopped. -/
inductive DrainStop
  | drained
  | batchFull
  | tookNothing
  | blocked
  | failed (e : IoError)
  deriving DecidableEq, Repr

structure Drained where
  stop : DrainStop
  sock : Socket
  out : List Bytes
  /-- the number of bytes each `write_vectored` call offered -/
  offers : List Nat
  deriving DecidableEq, Repr

/-- The loop that writes `out_buffer` to the socket, at most `IO_MAX` chunks a call. It recurses on the answers the
socket still has to give; past the last one the call would block. -/
def drainLoop (limit : Option Nat) : List WriteAnswer → Socket → List Bytes → Nat → Drained
  | answers, sock, out, written =>
    if out = [] then ⟨.drained, sock, out, []⟩
    else if limit.any (· ≤ written) then ⟨.batchFull, sock, out, []⟩
    else
      let batch := (out.take IO_MAX).flatten
      match answers with
      | [] => ⟨.blocked, sock, out, [batch.length]⟩
      | a :: answers =>
        match sock.answerWrite a batch with
        | (.ok 0, sock) => ⟨.tookNothing, sock, out, [batch.length]⟩
        | (.ok n, sock) =>
          let r := drainLoop limit answers sock (advance n out) (written + n)
          { r with offers := batch.length :: r.offers }
        | (.error e, sock) =>
          if e.kind = .wouldBlock then ⟨.blocked, sock, out, [batch.length]⟩
          else if e.kind = .interrupted then
            let r := drainLoop limit answers sock out written
            { r with offers := batch.length :: r.offers }
          else ⟨.failed e, sock, out, [batch.length]⟩

/-- Drain `out_buffer`, with the socket's own answers. -/
def drain (limit : Option Nat) (s : Socket) (out : List Bytes) : Drained := drainLoop limit s.writes s out 0

/-- What `flush` makes of the end of its loop; without a limit the loop has no full batch. -/
def DrainStop.flushed : DrainStop → IoResult Unit
  | .drained | .batchFull => .ok ()
  | .tookNothing => .error ⟨.writeZero, "connection closed"⟩
  | .blocked => .error ⟨.wouldBlock, "flush would block"⟩
  | .failed e => .error e

/-- What `process_write` makes of the end of its loop. -/
def DrainStop.status : DrainStop → IoStatus
  | .batchFull => .yield
  | .tookNothing | .failed _ => .closed false
  | .drained | .blocked => .completed

def flush (c : Connection κ) : IoResult Unit × Connection κ :=
  match c.outBuffer, c.socket with
  | _, none => (.error .unwrapNone, c)
  | none, some s =>
    let (res, s) := s.flush
    (res, { c with socket := some s })
  | some out, some s =>
    let r := drain none s out
    let c := { c with socket := some r.sock, outBuffer := some r.out }
    match r.stop.flushed with
    | .error e => (.error e, c)
    | .ok () =>
      let (res, s) := r.sock.flush
      (res, { c with socket := some s })

/-- `EventLoop::process_write` on the connection it found. -/
def processWrite (maxBatch : Nat) (c : Connection κ) : IoResult IoStatus × Connection κ :=
  if c.queued = [] then (.ok .completed, c)
  else
    match c.socket with
    | none => (.error .unwrapNone, c)
    | some s =>
      let r := drain (some maxBatch) s c.queued
      (.ok r.stop.status, { c with socket := some r.sock, outBuffer := some r.out })

/-- The connection a drain leaves. -/
def drained (c : Connection κ) (r : Drained) : Connection κ :=
  { c with socket := some r.sock, outBuffer := some r.out }

theorem flush_none {c : Connection κ} {s : Socket} (hs : c.socket = some s) (ho : c.outBuffer = none) :
    c.flush = (.ok (), c) := by
  cases c
  simp only at hs ho
  subst hs ho
  rfl

theorem flush_some {c : Connection κ} {s : Socket} {out : List Bytes} (hs : c.socket = some s)
    (ho : c.outBuffer = some out) : c.flush = ((drain none s out).stop.flushed, c.drained (drain none s out)) := by
  unfold flush
  rw [hs, ho]
  cases h : (drain none s out).stop <;> simp [h, DrainStop.flushed, Socket.flush, drained]

theorem processWrite_some {c : Connection κ} {s : Socket} (hs : c.socket = some s) (hq : c.queued ≠ [])
    (maxBatch : Nat) : c.processWrite maxBatch =
      (.ok (drain (some maxBatch) s c.queued).stop.status, c.drained (drain (some maxBatch) s c.queued)) := by
  simp [processWrite, hs, hq, drained]

theorem processWrite_nil {c : Connection κ} (hq : c.queued = []) (maxBatch : Nat) :
    c.processWrite maxBatch = (.ok .completed, c) := by
  simp [processWrite, hq]

end Connection
end Rnet
