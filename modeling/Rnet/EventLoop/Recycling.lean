import Rnet.EventLoop.Identity

/-!
# Recycled connections

`reset` empties the buffers a pooled connection has and leaves those it has not; a new connection has none. What a
user of the connection can see of it are the answers of the operations and the calls they make to the codec
(`observe`). An `out_buffer` that is there and empty is never told from one that is not there (`Alike.act`), but an
empty `io_buffer` is (`peek` answers `Some`), and so is an empty `in_buffer` (`next_message` calls the codec). So a
recycled connection behaves like a new one if and only if it was pooled without input buffers (`recycled_alike_iff`).
One that is closed in the middle of a read, by the action of `on_traffic`, is pooled with the buffer of that read
(`closed_in_read_differs`).
-/

namespace Rnet

open Chunks

variable {κ Msg η : Type}

/-! ## What can be seen of a connection -/

/-- A call to a codec. -/
inductive CodecCall (κ Msg : Type)
  | decode (codec : κ) (src : Bytes)
  | encode (codec : κ) (msg : Msg)
  deriving DecidableEq

/-- What an operation returns. -/
inductive Answer (Msg : Type)
  | unit
  | bytes (res : Option Bytes)
  | chunks (res : Option (List Bytes))
  | count (res : Option Nat)
  | message (res : IoResult (Option Msg))
  | written (res : IoResult Nat)
  | done (res : IoResult Unit)
  deriving DecidableEq

namespace Op

variable [Codec κ Msg]

def answer (op : Op κ Msg) (c : Connection κ) : Answer Msg :=
  match op with
  | .nextContiguous n => .bytes (c.nextContiguous n).1
  | .nextVectored n => .chunks (c.nextVectored n).1
  | .peek n => .bytes (c.peek n)
  | .discard n => .count (c.discard n).1
  | .read len => .bytes (some (c.read len).1)
  | .nextMessage => .message c.nextMessage.1
  | .write buf => .written (c.write buf).1
  | .writeBytes buf => .written (c.writeBytes buf).1
  | .writeVectored bufs => .written (c.writeVectored bufs).1
  | .writeVectoredBytes bufs => .written (c.writeVectoredBytes bufs).1
  | .send msg => .done (c.send msg).1
  | .flush => .done c.flush.1
  | .setCodec _ | .close | .sendCommand _ _ => .unit

omit [Codec κ Msg] in
/-- The calls an operation makes to the codec of the connection. -/
def calls (op : Op κ Msg) (c : Connection κ) : List (CodecCall κ Msg) :=
  match op with
  | .nextMessage =>
    match c.codec, c.inBuffer with
    | some codec, some src => [.decode codec src]
    | _, _ => []
  | .send msg => (c.codec.map (CodecCall.encode · msg)).toList
  | _ => []

end Op

/-- What happens to a connection: an operation, or the loop's part of a read or a write in between. -/
inductive Act (κ Msg : Type)
  | op (op : Op κ Msg)
  | receive (bs : Bytes)
  | carryOver
  | processWrite (maxBatch : Nat)

namespace Act

variable [Codec κ Msg]

/-- What is seen of it, and the connection afterwards. -/
def perform (act : Act κ Msg) (c : Connection κ) : Option (Answer Msg × List (CodecCall κ Msg)) × Connection κ :=
  match act with
  | .op o => (some (o.answer c, o.calls c), (o.perform c).2)
  | .receive bs => (none, c.receive bs)
  | .carryOver => (none, c.carryOver)
  | .processWrite maxBatch => (none, (c.processWrite maxBatch).2)

end Act

/-- Everything that is seen of a connection. -/
def observe [Codec κ Msg] : List (Act κ Msg) → Connection κ → List (Option (Answer Msg × List (CodecCall κ Msg)))
  | [], _ => []
  | act :: acts, c => (act.perform c).1 :: observe acts (act.perform c).2

/-! ## Connections that differ in an empty `out_buffer` -/

namespace Connection

variable {c c' : Connection κ}

/-- The connection with another `out_buffer`. -/
def withOut (c : Connection κ) (out : Option (List Bytes)) : Connection κ := { c with outBuffer := out }

/-- Nothing but an empty `out_buffer` may be there in one and missing in the other. -/
def Alike (c c' : Connection κ) : Prop := ∃ out, c' = c.withOut out ∧ out.getD [] = c.queued

theorem Alike.refl (c : Connection κ) : Alike c c := ⟨c.outBuffer, rfl, rfl⟩

section WithOut

variable (c) (out : Option (List Bytes)) (n : Option Nat) (len : Nat)

@[simp] theorem actualLen_withOut : (c.withOut out).actualLen n = c.actualLen n := rfl
@[simp] theorem inBufLen_withOut : (c.withOut out).inBufLen = c.inBufLen := rfl
@[simp] theorem inBuffer_withOut : (c.withOut out).inBuffer = c.inBuffer := rfl
@[simp] theorem ioBuffer_withOut : (c.withOut out).ioBuffer = c.ioBuffer := rfl
@[simp] theorem socket_withOut : (c.withOut out).socket = c.socket := rfl
@[simp] theorem codec_withOut : (c.withOut out).codec = c.codec := rfl
@[simp] theorem queued_withOut : (c.withOut out).queued = out.getD [] := rfl

/-- The accessors do not look at the output. -/
theorem nextContiguous_withOut : (c.withOut out).nextContiguous n =
    ((c.nextContiguous n).1, (c.nextContiguous n).2.withOut out) := by
  simp only [nextContiguous, actualLen_withOut, inBufLen_withOut, inBuffer_withOut, ioBuffer_withOut]
  cases c.actualLen n with
  | none => rfl
  | some len =>
    by_cases h0 : c.inBufLen = 0
    · simp only [h0, if_true]
      cases c.ioBuffer <;> rfl
    · simp only [h0, if_false]
      cases c.inBuffer with
      | none => rfl
      | some inb => by_cases hle : len ≤ c.inBufLen <;> simp only [hle, if_true, if_false] <;> rfl

theorem takeIn_withOut : (c.withOut out).takeIn len = ((c.takeIn len).1, (c.takeIn len).2.withOut out) := by
  simp only [takeIn, inBuffer_withOut]
  cases c.inBuffer <;> rfl

theorem nextVectored_withOut : (c.withOut out).nextVectored n =
    ((c.nextVectored n).1, (c.nextVectored n).2.withOut out) := by
  simp only [nextVectored, actualLen_withOut, takeIn_withOut, ioBuffer_withOut]
  by_cases h0 : n = some 0
  · simp only [h0, if_true]
  · simp only [h0, if_false]
    cases c.actualLen n with
    | none => rfl
    | some len =>
      by_cases hrem : 0 < len - (c.takeIn len).1.flatten.length
      · simp only [hrem, if_true]
        cases (c.takeIn len).2.ioBuffer <;> rfl
      · simp only [hrem, if_false]

theorem discard_withOut : (c.withOut out).discard n = ((c.discard n).1, (c.discard n).2.withOut out) := by
  simp only [discard, actualLen_withOut, inBufLen_withOut, inBuffer_withOut, ioBuffer_withOut]
  cases c.actualLen n with
  | none => rfl
  | some len =>
    by_cases h0 : c.inBufLen = 0
    · simp only [h0, if_true]
      cases c.ioBuffer <;> rfl
    · by_cases hle : len ≤ c.inBufLen <;> simp only [h0, hle, if_true, if_false] <;> rfl

theorem read_withOut : (c.withOut out).read len = ((c.read len).1, (c.read len).2.withOut out) := by
  simp only [read, takeIn_withOut, ioBuffer_withOut]
  by_cases hlen : (c.takeIn len).1.flatten.length = len
  · simp only [hlen, if_true]
  · simp only [hlen, if_false]
    cases (c.takeIn len).2.ioBuffer <;> rfl

theorem nextMessage_withOut [Codec κ Msg] : (c.withOut out).nextMessage =
    (c.nextMessage.1, c.nextMessage.2.withOut out) := by
  simp only [nextMessage, codec_withOut, inBuffer_withOut]
  cases c.codec with
  | none => rfl
  | some codec => cases c.inBuffer <;> rfl

theorem carryOver_withOut : (c.withOut out).carryOver = c.carryOver.withOut out := by
  simp only [carryOver, ioBuffer_withOut, inBuffer_withOut]
  cases c.ioBuffer with
  | none => rfl
  | some io =>
    by_cases hio : io = []
    · simp only [hio, if_true]
      rfl
    · simp only [hio, if_false]
      cases c.inBuffer <;> rfl

end WithOut

/-- What an accessor leaves has the output it found. -/
theorem Alike.withOut {bs : Bytes} {d : Connection κ} {out : Option (List Bytes)} (hout : out.getD [] = c.queued)
    (h : Consumes c bs d) : Alike d (d.withOut out) := ⟨out, rfl, by rw [hout, queued, queued, h.outBuffer]⟩

/-- A write looks at the output only through what is queued. -/
theorem Alike.writeOrQueue (h : Alike c c') (call : Socket → IoResult Nat × Socket) (bufs : List Bytes)
    (rest : Nat → List Bytes) : (c'.writeOrQueue call bufs rest).1 = (c.writeOrQueue call bufs rest).1 ∧
      Alike (c.writeOrQueue call bufs rest).2 (c'.writeOrQueue call bufs rest).2 := by
  obtain ⟨out, rfl, hout⟩ := h
  have henq : ∀ (s : Option Socket) (chunks : List Bytes),
      ({ c.withOut out with socket := s } : Connection κ).enqueue chunks =
        ({ c with socket := s } : Connection κ).enqueue chunks := by
    intro s chunks
    have hq : ({ c.withOut out with socket := s } : Connection κ).queued = c.queued := hout
    rw [enqueue, hq]
    rfl
  simp only [Connection.writeOrQueue, queued_withOut, hout, socket_withOut]
  split
  · exact ⟨rfl, by rw [show (c.withOut out).enqueue bufs = c.enqueue bufs from henq c.socket bufs]; exact .refl _⟩
  · cases hs : c.socket with
    | none => exact ⟨rfl, out, rfl, hout⟩
    | some s =>
      have hsock : ∀ t : Socket, Alike ({ c with socket := some t } : Connection κ)
          ({ c.withOut out with socket := some t } : Connection κ) := fun t => ⟨out, rfl, hout⟩
      cases hcall : call s with
      | mk res t =>
        cases res with
        | error e =>
          simp only [hcall, henq]
          by_cases he : e.isTransient = true
          · rw [if_pos he, if_pos he]
            exact ⟨rfl, .refl _⟩
          · rw [if_neg he, if_neg he]
            exact ⟨rfl, hsock t⟩
        | ok n =>
          simp only [hcall, henq]
          refine ⟨trivial, ?_⟩
          by_cases hn : n < bufs.flatten.length
          · rw [if_pos hn, if_pos hn]
            exact .refl _
          · rw [if_neg hn, if_neg hn]
            exact hsock t

/-- With nothing queued, a flush does nothing, whether the buffer is there or not. -/
theorem flush_queued_nil {s : Socket} (hs : c.socket = some s) (hq : c.queued = []) : c.flush = (.ok (), c) := by
  cases ho : c.outBuffer with
  | none => exact flush_none hs ho
  | some out =>
    obtain rfl : out = [] := by rwa [queued, ho] at hq
    have hd : drain none s [] = ⟨.drained, s, [], []⟩ := by
      unfold drain
      rw [drainLoop.eq_def]
      rfl
    rw [flush_some hs ho, hd]
    cases c
    simp only at hs ho
    subst hs ho
    rfl

theorem Alike.flush (h : Alike c c') : c'.flush.1 = c.flush.1 ∧ Alike c.flush.2 c'.flush.2 := by
  obtain ⟨out, rfl, hout⟩ := h
  cases hs : c.socket with
  | none => exact ⟨by simp [Connection.flush, hs], out, by simp [Connection.flush, hs], by simpa [Connection.flush, hs]⟩
  | some s =>
    have hs' : (c.withOut out).socket = some s := hs
    by_cases hq : c.queued = []
    · rw [flush_queued_nil hs hq, flush_queued_nil hs' (hout.trans hq)]
      exact ⟨rfl, out, rfl, hout⟩
    · obtain ⟨o, ho⟩ : ∃ o, c.outBuffer = some o := by
        cases ho : c.outBuffer with
        | none => exact absurd (by rw [queued, ho]; rfl) hq
        | some o => exact ⟨o, rfl⟩
      obtain rfl : out = some o := by
        rw [queued, ho] at hout hq
        cases out with
        | none => exact absurd hout.symm hq
        | some o' => exact congrArg some hout
      rw [flush_some hs ho, flush_some hs' rfl]
      exact ⟨rfl, .refl _⟩

theorem Alike.processWrite (h : Alike c c') (maxBatch : Nat) :
    Alike (c.processWrite maxBatch).2 (c'.processWrite maxBatch).2 := by
  obtain ⟨out, rfl, hout⟩ := h
  have hq' : (c.withOut out).queued = c.queued := hout
  by_cases hq : c.queued = []
  · rw [processWrite_nil hq, processWrite_nil (hq'.trans hq)]
    exact ⟨out, rfl, hout⟩
  · cases hs : c.socket with
    | none =>
      have h : ∀ d : Connection κ, d.socket = none → (d.processWrite maxBatch).2 = d := by
        intro d hd
        simp only [Connection.processWrite, hd]
        split <;> rfl
      rw [h c hs, h (c.withOut out) hs]
      exact ⟨out, rfl, hout⟩
    | some s =>
      rw [processWrite_some hs hq, processWrite_some (c := c.withOut out) hs (by rwa [hq']), hq']
      exact .refl _

variable [Codec κ Msg]

theorem Alike.send (h : Alike c c') (msg : Msg) :
    (c'.send msg).1 = (c.send msg).1 ∧ Alike (c.send msg).2 (c'.send msg).2 := by
  obtain ⟨out, rfl, hout⟩ := h
  simp only [Connection.send, codec_withOut]
  cases c.codec with
  | none => exact ⟨rfl, out, rfl, hout⟩
  | some codec =>
    rcases henc : Codec.encode codec msg [] with ⟨⟨e⟩ | ⟨u⟩, codec', buf⟩
    · simp only [henc]
      exact ⟨trivial, out, rfl, hout⟩
    · simp only [henc]
      have h' : Alike ({ c with codec := some codec' } : Connection κ) { c.withOut out with codec := some codec' } :=
        ⟨out, rfl, hout⟩
      obtain ⟨h₁, h₂⟩ := h'.writeOrQueue (·.write buf) [buf] fun n => [buf.drop n]
      exact ⟨congrArg (Except.map fun _ => ()) h₁, h₂⟩

/-- **No operation tells alike connections apart.** -/
theorem Alike.op (h : Alike c c') (op : Op κ Msg) :
    op.answer c' = op.answer c ∧ op.calls c' = op.calls c ∧ Alike (op.perform c).2 (op.perform c').2 := by
  have hcalls : op.calls c' = op.calls c := by
    obtain ⟨out, rfl, -⟩ := h
    rfl
  -- the accessors give the same and leave the output alone, the writes see what is queued
  cases op with
  | write buf =>
    obtain ⟨h₁, h₂⟩ := h.writeOrQueue (·.write buf) [buf] fun n => [buf.drop n]
    exact ⟨congrArg Answer.written h₁, hcalls, h₂⟩
  | writeBytes buf =>
    obtain ⟨h₁, h₂⟩ := h.writeOrQueue (·.write buf) [buf] fun n => [buf.drop n]
    exact ⟨congrArg Answer.written h₁, hcalls, h₂⟩
  | writeVectored bufs =>
    obtain ⟨h₁, h₂⟩ := h.writeOrQueue (·.writeVectored bufs) bufs (unsent · bufs)
    simp only [Op.answer, Op.perform, Connection.writeVectored]
    split
    · exact ⟨rfl, hcalls, h⟩
    · exact ⟨congrArg Answer.written h₁, hcalls, h₂⟩
  | writeVectoredBytes bufs =>
    obtain ⟨h₁, h₂⟩ := h.writeOrQueue (·.writeVectored bufs) bufs (unsentBytes · bufs)
    simp only [Op.answer, Op.perform, Connection.writeVectoredBytes]
    split
    · exact ⟨rfl, hcalls, h⟩
    · exact ⟨congrArg Answer.written h₁, hcalls, h₂⟩
  | send msg =>
    obtain ⟨h₁, h₂⟩ := h.send msg
    exact ⟨congrArg Answer.done h₁, hcalls, h₂⟩
  | flush => exact ⟨congrArg Answer.done h.flush.1, hcalls, h.flush.2⟩
  | peek n =>
    obtain ⟨out, rfl, hout⟩ := h
    exact ⟨rfl, hcalls, out, rfl, hout⟩
  | nextContiguous n =>
    obtain ⟨out, rfl, hout⟩ := h
    simp only [Op.answer, Op.perform, nextContiguous_withOut]
    exact ⟨trivial, hcalls, .withOut hout (c.nextContiguous_consumes n)⟩
  | nextVectored n =>
    obtain ⟨out, rfl, hout⟩ := h
    simp only [Op.answer, Op.perform, nextVectored_withOut]
    exact ⟨trivial, hcalls, .withOut hout (c.nextVectored_consumes n)⟩
  | discard n =>
    obtain ⟨out, rfl, hout⟩ := h
    simp only [Op.answer, Op.perform, discard_withOut]
    exact ⟨trivial, hcalls, .withOut hout (c.discard_consumes n)⟩
  | read len =>
    obtain ⟨out, rfl, hout⟩ := h
    simp only [Op.answer, Op.perform, read_withOut]
    exact ⟨trivial, hcalls, .withOut hout (c.read_consumes len)⟩
  | nextMessage =>
    obtain ⟨out, rfl, hout⟩ := h
    simp only [Op.answer, Op.perform, nextMessage_withOut]
    refine ⟨trivial, hcalls, out, rfl, hout.trans ?_⟩
    unfold Connection.nextMessage
    split <;> rfl
  | setCodec codec =>
    obtain ⟨out, rfl, hout⟩ := h
    exact ⟨rfl, hcalls, out, rfl, hout⟩
  | close | sendCommand gfd cmd => exact ⟨rfl, hcalls, h⟩

theorem Alike.act (h : Alike c c') (act : Act κ Msg) :
    (act.perform c').1 = (act.perform c).1 ∧ Alike (act.perform c).2 (act.perform c').2 := by
  cases act with
  | op op =>
    obtain ⟨ha, hcalls, h'⟩ := h.op op
    refine ⟨?_, h'⟩
    simp only [Act.perform, ha, hcalls]
  | receive bs =>
    obtain ⟨out, rfl, hout⟩ := h
    exact ⟨rfl, out, rfl, hout⟩
  | carryOver =>
    obtain ⟨out, rfl, hout⟩ := h
    refine ⟨rfl, out, carryOver_withOut c out, hout.trans ?_⟩
    show c.queued = c.carryOver.queued
    unfold Connection.carryOver
    cases c.ioBuffer with
    | none => rfl
    | some io =>
      simp only
      split
      · rfl
      · cases c.inBuffer <;> rfl
  | processWrite maxBatch => exact ⟨rfl, h.processWrite maxBatch⟩

/-- **Alike connections look the same for ever.** -/
theorem Alike.observe (acts : List (Act κ Msg)) :
    ∀ {c c' : Connection κ}, Alike c c' → observe acts c' = observe acts c := by
  induction acts with
  | nil => exact fun _ => rfl
  | cons act acts ih =>
    intro c c' h
    obtain ⟨ha, h'⟩ := h.act act
    rw [Rnet.observe, Rnet.observe, ha, ih h']

/-! ## Reset and new -/

/-- The buffers a pooled connection does not have are missing after `reset` as well. -/
theorem reset_alike (hio : c.ioBuffer = none) (hin : c.inBuffer = none) (gfd : Gfd) (socket : Socket)
    (localAddr peerAddr : NetworkAddress) :
    Alike (.new gfd socket localAddr peerAddr) (c.reset gfd socket localAddr peerAddr) := by
  refine ⟨c.outBuffer.map fun _ => [], ?_, ?_⟩
  · simp [reset, new, withOut, hio, hin]
  · cases c.outBuffer <;> rfl

/-- **A recycled connection is indistinguishable from a new one if and only if it was pooled without input buffers**:
without them no sequence of operations sees a difference, and with one of them `peek` or `next_message` does at once. -/
theorem recycled_alike_iff [Inhabited κ] (c : Connection κ) (gfd : Gfd) (socket : Socket)
    (localAddr peerAddr : NetworkAddress) :
    (∀ acts : List (Act κ Msg), Rnet.observe acts (c.reset gfd socket localAddr peerAddr) =
      Rnet.observe acts (.new gfd socket localAddr peerAddr)) ↔ c.ioBuffer = none ∧ c.inBuffer = none := by
  constructor
  · intro h
    have hio : c.ioBuffer = none := by
      have hpeek := h [.op (.peek none)]
      cases hio : c.ioBuffer with
      | none => rfl
      | some io =>
        cases hin : c.inBuffer <;>
          simp [Rnet.observe, Act.perform, Op.answer, Op.calls, peek, actualLen, inBufLen, ioBufLen, reset, new,
            hio, hin]
            at hpeek
    refine ⟨hio, ?_⟩
    have hmsg := h [.op (.setCodec (some default)), .op .nextMessage]
    cases hin : c.inBuffer with
    | none => rfl
    | some inb => simp [Rnet.observe, Act.perform, Op.answer, Op.calls, Op.perform, reset, new, hin] at hmsg
  · rintro ⟨hio, hin⟩ acts
    exact (reset_alike hio hin gfd socket localAddr peerAddr).observe acts

end Connection

/-! ## What is pooled -/

namespace Connection

variable [Codec κ Msg]

/-- No operation takes the buffer of the current read away. -/
theorem perform_ioBuffer (op : Op κ Msg) {c : Connection κ} (h : c.ioBuffer.isSome) :
    (op.perform c).2.ioBuffer.isSome := by
  obtain ⟨io, hio⟩ := Option.isSome_iff_exists.mp h
  cases op with
  | nextContiguous n =>
    show (c.nextContiguous n).2.ioBuffer.isSome
    unfold nextContiguous
    cases c.actualLen n with
    | none => exact h
    | some len =>
      simp only
      split
      · simp [hio]
      · cases c.inBuffer with
        | none => exact h
        | some inb =>
          simp only
          split
          · exact h
          · rfl
  | nextVectored n =>
    have hin : ∀ len, (c.takeIn len).2.ioBuffer = some io := fun len => by
      unfold takeIn
      cases c.inBuffer <;> exact hio
    show (c.nextVectored n).2.ioBuffer.isSome
    unfold nextVectored
    split
    · exact h
    · cases c.actualLen n with
      | none => exact h
      | some len =>
        simp only [hin]
        split
        · rfl
        · simp [hin]
  | discard n =>
    show (c.discard n).2.ioBuffer.isSome
    unfold discard
    cases c.actualLen n with
    | none => exact h
    | some len =>
      simp only
      split
      · simp [hio]
      · split
        · exact h
        · rfl
  | read len =>
    have hin : (c.takeIn len).2.ioBuffer = some io := by
      unfold takeIn
      cases c.inBuffer <;> exact hio
    show (c.read len).2.ioBuffer.isSome
    unfold read
    simp only [hin]
    split
    · simp [hin]
    · rfl
  | nextMessage =>
    show c.nextMessage.2.ioBuffer.isSome
    unfold nextMessage
    simp only
    split <;> exact h
  | write buf => rw [Op.perform, (c.write_sameInput buf).ioBuffer]; exact h
  | writeBytes buf => rw [Op.perform, (c.writeBytes_sameInput buf).ioBuffer]; exact h
  | writeVectored bufs => rw [Op.perform, (c.writeVectored_sameInput bufs).ioBuffer]; exact h
  | writeVectoredBytes bufs => rw [Op.perform, (c.writeVectoredBytes_sameInput bufs).ioBuffer]; exact h
  | send msg => rw [Op.perform, (c.send_sameInput msg).ioBuffer]; exact h
  | flush => rw [Op.perform, c.flush_sameInput.ioBuffer]; exact h
  | peek n | setCodec codec | close | sendCommand gfd cmd => exact h

end Connection

namespace EventLoop

variable [Codec κ Msg] [EventHandler η κ Msg] {el : EventLoop η κ}

omit [EventHandler η κ Msg] in
theorem applyAll_ioBuffer (ops : List (Op κ Msg)) : ∀ (i : Incarnation κ) (h : EventLoopHandle),
    i.conn.ioBuffer.isSome → (Op.applyAll ops i h).1.conn.ioBuffer.isSome := by
  induction ops with
  | nil => exact fun _ _ h => h
  | cons op ops ih => exact fun i h hio => ih _ _ (Connection.perform_ioBuffer op hio)

/-- A connection that is closed in the middle of a read is pooled with the buffer of the read. -/
theorem closing_ioBuffer {i : Incarnation κ} (h : i.conn.ioBuffer.isSome) (graceful : Bool) :
    (el.closing i graceful).1.conn.ioBuffer.isSome := by
  refine applyAll_ioBuffer _ _ _ ?_
  unfold lastOutput
  split
  · rw [i.conn.flush_sameInput.ioBuffer]
    exact h
  · exact h

/-- **Whoever `on_traffic` closes is not recycled as new**: the object that `close_connection` pools shows it. -/
theorem closed_in_read_differs [Inhabited κ] {key : Nat} {i : Incarnation κ} (h : i.conn.ioBuffer.isSome)
    (graceful : Bool) (gfd : Gfd) (socket : Socket) (localAddr peerAddr : NetworkAddress) :
    ∃ c ∈ (el.gone key i graceful).connectionPool, ∃ acts : List (Act κ Msg),
      observe acts (c.reset gfd socket localAddr peerAddr) ≠ observe acts (.new gfd socket localAddr peerAddr) := by
  refine ⟨_, List.mem_cons_self, ?_⟩
  by_contra hall
  simp only [not_exists, not_not] at hall
  have hio : (el.closing i graceful).1.conn.ioBuffer.isSome := closing_ioBuffer h graceful
  rw [((Connection.recycled_alike_iff _ gfd socket localAddr peerAddr).mp hall).1] at hio
  cases hio

end EventLoop

/-! ## A run -/

/-- A handler that closes every connection on its first bytes. -/
inductive Closer
  | mk

instance : EventHandler Closer RawCodec RawMsg where
  onOpen h _ := (⟨[], .none⟩, h)
  onTraffic h _ := (⟨[], .close⟩, h)
  onClose h _ := (⟨[], .none⟩, h)
  onTick h _ := (⟨[], 0, .none⟩, h)

namespace Machine

open EventLoop Runs

/-- A connection comes and sends a byte. -/
def oneByte : List (Label Closer) :=
  [.accept ⟨4, [], [.data [1]], [], [], none⟩ (.tcp "a") (.tcp "b"), .advance, .advance, .poll [], .advance, .advance,
    .advance, .tick false, .advance, .poll [⟨0, true, false, false, false⟩], .advance]

/-- The connection is in the pool, and the next one made of it answers `peek` where a new one does not. -/
theorem recycled_differs : ∃ m c,
    run step (initial (new 0 ⟨64, 8, false⟩ Closer.mk [] [] (fun _ => 0) 0)) oneByte = some m ∧
      m.el.connectionPool = [c] ∧ ∃ acts : List (Act RawCodec RawMsg),
        observe acts (c.reset (.new 1 5 0 0) ⟨5, [], [], [], [], none⟩ (.tcp "a") (.tcp "c")) ≠
          observe acts (.new (.new 1 5 0 0) ⟨5, [], [], [], [], none⟩ (.tcp "a") (.tcp "c")) := by
  have hrun : (run step (initial (new 0 ⟨64, 8, false⟩ Closer.mk [] [] (fun _ => 0) 0)) oneByte).any
      (fun m => decide (m.el.connectionPool.length = 1) &&
        m.el.connectionPool.all fun c => c.ioBuffer.isSome && c.inBuffer.isNone) = true := by decide +kernel
  obtain ⟨m, hm, hat⟩ := exists_of_any hrun
  obtain ⟨hlen, hall⟩ := Bool.and_eq_true_iff.mp hat
  obtain ⟨c, hc⟩ := List.length_eq_one_iff.mp (of_decide_eq_true hlen)
  rw [hc, List.all_cons, List.all_nil, Bool.and_true, Bool.and_eq_true, Option.isSome_iff_exists,
    Option.isNone_iff_eq_none] at hall
  obtain ⟨⟨io, hio⟩, hin⟩ := hall
  refine ⟨m, c, hm, hc, [.op (.peek none)], ?_⟩
  simp [observe, Act.perform, Op.answer, Connection.peek, Connection.actualLen, Connection.inBufLen,
    Connection.ioBufLen, Connection.reset, Connection.new, hio, hin]

end Machine
end Rnet
