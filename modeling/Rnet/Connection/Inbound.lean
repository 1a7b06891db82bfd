import Rnet.Handler
import Rnet.Connection.Outbound

/-!
# What the operations of a callback leave alone

`SameInput c c'`: output moved, and the two buffers of unread input, the descriptor and the reading side of the socket
are as before. Every write, flush and drain does so. `Consumes c bs c'`: `bs` was taken off the front of the unread
input, and nothing else changed but the codec. Every accessor does so, with the bytes it hands out or skips
(`nextContiguous_consumes` and so on).
-/

namespace Rnet

/-- What a write leaves alone: the descriptor, the answers to reads, what was received, the registration. -/
def Socket.inputSide (s : Socket) : Int × List ReadAnswer × Bytes × Option Interest :=
  (s.fd, s.reads, s.received, s.interest)

@[simp] theorem Socket.answerWrite_inputSide (s : Socket) (a : WriteAnswer) (bs : Bytes) :
    (s.answerWrite a bs).2.inputSide = s.inputSide := by
  cases a <;> rfl

@[simp] theorem Socket.write_inputSide (s : Socket) (bs : Bytes) : (s.write bs).2.inputSide = s.inputSide :=
  s.answerWrite_inputSide _ bs

/-- What depends on the reading side only is the same when the reading side is. -/
theorem Socket.map_of_inputSide {α : Type*} (f : Int × List ReadAnswer × Bytes × Option Interest → α)
    {a b : Option Socket} (h : b.map inputSide = a.map inputSide) :
    b.map (fun s => f s.inputSide) = a.map (fun s => f s.inputSide) := by
  have h' := congrArg (Option.map f) h
  rwa [Option.map_map, Option.map_map] at h'

namespace Connection

variable {κ Msg : Type}

/-! ## Output moves -/

structure SameInput (c c' : Connection κ) : Prop where
  gfd : c'.gfd = c.gfd
  closed : c'.closed = c.closed
  inBuffer : c'.inBuffer = c.inBuffer
  ioBuffer : c'.ioBuffer = c.ioBuffer
  socket : c'.socket.map Socket.inputSide = c.socket.map Socket.inputSide

namespace SameInput

variable {c c' c'' : Connection κ}

theorem refl (c : Connection κ) : SameInput c c := ⟨rfl, rfl, rfl, rfl, rfl⟩

theorem trans (h : SameInput c c') (h' : SameInput c' c'') : SameInput c c'' where
  gfd := h'.gfd.trans h.gfd
  closed := h'.closed.trans h.closed
  inBuffer := h'.inBuffer.trans h.inBuffer
  ioBuffer := h'.ioBuffer.trans h.ioBuffer
  socket := h'.socket.trans h.socket

theorem unread (h : SameInput c c') : c'.unread = c.unread := by
  rw [Connection.unread, Connection.unread, h.inBuffer, h.ioBuffer]

theorem enqueue (c : Connection κ) (chunks : List Bytes) : SameInput c (c.enqueue chunks) := ⟨rfl, rfl, rfl, rfl, rfl⟩

/-- The socket was written to. -/
theorem ofSocket {s t : Socket} (hs : c.socket = some s) (ht : t.inputSide = s.inputSide) (out : Option (List Bytes)) :
    SameInput c { c with socket := some t, outBuffer := out } := ⟨rfl, rfl, rfl, rfl, by simp [hs, ht]⟩

end SameInput

theorem writeOrQueue_sameInput (c : Connection κ) {call : Socket → IoResult Nat × Socket} {bufs : List Bytes}
    {rest : Nat → List Bytes} (hcall : ∀ s, call s = s.write bufs.flatten) :
    SameInput c (c.writeOrQueue call bufs rest).2 := by
  unfold writeOrQueue
  split
  · exact .enqueue c bufs
  · cases hs : c.socket with
    | none => exact .refl c
    | some s =>
      have ht := s.write_inputSide bufs.flatten
      have h : ∀ out, SameInput c { c with socket := some (s.write bufs.flatten).2, outBuffer := out } :=
        SameInput.ofSocket hs ht
      simp only [hcall]
      split
      · rename_i n t hw
        rw [hw] at h
        simp only
        split
        · exact (h c.outBuffer).trans (.enqueue _ _)
        · exact h c.outBuffer
      · rename_i e t hw
        rw [hw] at h
        split
        · exact (h c.outBuffer).trans (.enqueue _ _)
        · exact h c.outBuffer

theorem writeBytes_sameInput (c : Connection κ) (buf : Bytes) : SameInput c (c.writeBytes buf).2 :=
  c.writeOrQueue_sameInput fun s => by simp

theorem write_sameInput (c : Connection κ) (buf : Bytes) : SameInput c (c.write buf).2 := c.writeBytes_sameInput buf

theorem writeVectored_sameInput (c : Connection κ) (bufs : List Bytes) : SameInput c (c.writeVectored bufs).2 := by
  unfold writeVectored
  split
  · exact .refl c
  · exact c.writeOrQueue_sameInput fun _ => rfl

theorem writeVectoredBytes_sameInput (c : Connection κ) (bufs : List Bytes) :
    SameInput c (c.writeVectoredBytes bufs).2 := by
  unfold writeVectoredBytes
  split
  · exact .refl c
  · exact c.writeOrQueue_sameInput fun _ => rfl

theorem send_sameInput [Codec κ Msg] (c : Connection κ) (msg : Msg) : SameInput c (c.send msg).2 := by
  unfold send
  cases c.codec with
  | none => exact .refl c
  | some codec =>
    simp only
    split
    · exact ⟨rfl, rfl, rfl, rfl, rfl⟩
    · have h : SameInput c { c with codec := some (Codec.encode codec msg []).2.1 } := ⟨rfl, rfl, rfl, rfl, rfl⟩
      exact h.trans (writeBytes_sameInput _ _)

theorem drainLoop_inputSide (limit : Option Nat) :
    ∀ (answers : List WriteAnswer) (sock : Socket) (out : List Bytes) (written : Nat),
      (drainLoop limit answers sock out written).sock.inputSide = sock.inputSide := by
  intro answers
  induction answers with
  | nil =>
    intro sock out written
    rw [drainLoop]
    split
    · rfl
    · split <;> rfl
  | cons a answers ih =>
    intro sock out written
    have hs := sock.answerWrite_inputSide a (out.take IO_MAX).flatten
    rw [drainLoop]
    split
    · rfl
    split
    · rfl
    simp only
    split
    · rename_i sock' h
      rw [h] at hs
      exact hs
    · rename_i n sock' _ h
      rw [h] at hs
      exact (ih _ _ _).trans hs
    · rename_i e sock' h
      rw [h] at hs
      split
      · exact hs
      · split
        · exact (ih _ _ _).trans hs
        · exact hs

theorem drained_sameInput {c : Connection κ} {s : Socket} (hs : c.socket = some s) (limit : Option Nat)
    (out : List Bytes) : SameInput c (c.drained (drain limit s out)) :=
  .ofSocket hs (drainLoop_inputSide limit s.writes s out 0) _

theorem flush_sameInput (c : Connection κ) : SameInput c c.flush.2 := by
  cases hs : c.socket with
  | none => simpa [flush, hs] using SameInput.refl c
  | some s =>
    cases ho : c.outBuffer with
    | none => rw [flush_none hs ho]; exact .refl c
    | some out => rw [flush_some hs ho]; exact drained_sameInput hs none out

theorem processWrite_sameInput (maxBatch : Nat) (c : Connection κ) : SameInput c (c.processWrite maxBatch).2 := by
  by_cases hq : c.queued = []
  · rw [processWrite_nil hq]; exact .refl c
  · cases hs : c.socket with
    | none => simpa [processWrite, hs, hq] using SameInput.refl c
    | some s => rw [processWrite_some hs hq]; exact drained_sameInput hs _ _

/-! ## Input is consumed -/

/-- Only the input buffers and the codec may differ. -/
structure SameOutput (c c' : Connection κ) : Prop where
  gfd : c'.gfd = c.gfd
  closed : c'.closed = c.closed
  socket : c'.socket = c.socket
  outBuffer : c'.outBuffer = c.outBuffer

/-- The current read has nothing left. -/
def Settled (c : Connection κ) : Prop := c.ioBuffer.getD [] = []

structure Consumes (c : Connection κ) (bs : Bytes) (c' : Connection κ) : Prop extends SameOutput c c' where
  unread : c.unread = bs ++ c'.unread
  settled : c.Settled → c'.Settled

theorem Consumes.nothing (c : Connection κ) : Consumes c [] c := ⟨⟨rfl, rfl, rfl, rfl⟩, rfl, id⟩

/-- Bytes are taken off the front of the current read, the older ones being used up. -/
theorem Consumes.ofIo {c : Connection κ} {io : Bytes} {b : Option Bytes} (hio : c.ioBuffer = some io)
    (hin : b.getD [] = []) (n : Nat) :
    Consumes c (c.inBuffer.getD [] ++ io.take n) { c with inBuffer := b, ioBuffer := some (io.drop n) } where
  gfd := rfl
  closed := rfl
  socket := rfl
  outBuffer := rfl
  unread := by simp [Connection.unread, hio, hin, List.append_assoc]
  settled h := by
    have hnil : io = [] := by simpa [Settled, hio] using h
    simp [Settled, hnil]

/-- Bytes are taken off the front of the older input. -/
theorem Consumes.ofIn {c : Connection κ} {inb : Bytes} {rest : Option Bytes} (hin : c.inBuffer = some inb) {n : Nat}
    (hrest : rest.getD [] = inb.drop n) : Consumes c (inb.take n) { c with inBuffer := rest } where
  gfd := rfl
  closed := rfl
  socket := rfl
  outBuffer := rfl
  unread := by
    rw [Connection.unread, Connection.unread, hin, hrest, ← List.append_assoc, List.take_append_drop]
    rfl
  settled := id

theorem inBuffer_nil {c : Connection κ} (h : c.inBufLen = 0) : c.inBuffer.getD [] = [] := by
  unfold inBufLen at h
  cases hi : c.inBuffer with
  | none => rfl
  | some inb => simpa [hi] using h

theorem nextContiguous_consumes (c : Connection κ) (n : Option Nat) :
    Consumes c ((c.nextContiguous n).1.getD []) (c.nextContiguous n).2 := by
  unfold nextContiguous
  cases hlen : c.actualLen n with
  | none => exact .nothing c
  | some len =>
    simp only
    by_cases h0 : c.inBufLen = 0
    · rw [if_pos h0]
      cases hio : c.ioBuffer with
      | none => exact .nothing c
      | some io =>
        have h := Consumes.ofIo (c := c) hio (inBuffer_nil h0) len
        rw [inBuffer_nil h0] at h
        exact h
    · rw [if_neg h0]
      cases hin : c.inBuffer with
      | none => exact .nothing c
      | some inb =>
        simp only
        by_cases hle : len ≤ c.inBufLen
        · rw [if_pos hle]
          exact .ofIn hin rfl
        · rw [if_neg hle]
          cases hio : c.ioBuffer with
          | some io =>
            have h := Consumes.ofIo (c := c) (b := none) hio rfl (len - c.inBufLen)
            rw [hin] at h
            exact h
          | none =>
            exact ⟨⟨rfl, rfl, rfl, rfl⟩, by simp [Connection.unread, hin, hio], fun _ => by simp [Settled]⟩

theorem takeIn_flatten (c : Connection κ) (len : Nat) :
    (c.takeIn len).1.flatten = (c.inBuffer.getD []).take len := by
  unfold takeIn
  cases c.inBuffer with
  | none => simp
  | some inb =>
    have htake : inb.take (min len inb.length) = inb.take len := by simp [List.take_eq_take_min]
    simp only [Option.getD_some]
    split
    · simp [htake]
    · rename_i h
      rw [Nat.eq_zero_of_not_pos h] at htake
      exact htake

theorem takeIn_rest (c : Connection κ) (len : Nat) :
    (c.takeIn len).2.inBuffer.getD [] = (c.inBuffer.getD []).drop len := by
  unfold takeIn
  cases hin : c.inBuffer with
  | none => simp [hin]
  | some inb =>
    have hdrop : inb.drop (min len inb.length) = inb.drop len := by
      rcases Nat.le_total len inb.length with h | h
      · rw [Nat.min_eq_left h]
      · rw [Nat.min_eq_right h, List.drop_of_length_le h, List.drop_length]
    simp only [hdrop, Option.getD_some]
    split
    · rename_i h
      exact h.symm
    · rfl

theorem takeIn_consumes (c : Connection κ) (len : Nat) : Consumes c (c.takeIn len).1.flatten (c.takeIn len).2 := by
  have hio : (c.takeIn len).2.ioBuffer = c.ioBuffer := by unfold takeIn; cases c.inBuffer <;> rfl
  refine ⟨?_, ?_, ?_⟩
  · unfold takeIn
    cases c.inBuffer <;> exact ⟨rfl, rfl, rfl, rfl⟩
  · rw [Connection.unread, Connection.unread, takeIn_flatten, takeIn_rest, hio, ← List.append_assoc,
      List.take_append_drop]
  · rw [Settled, Settled, hio]
    exact id

/-- `takeIn` stops short only when the older input is used up. -/
theorem takeIn_exhausts {c : Connection κ} {len : Nat} (h : (c.takeIn len).1.flatten.length < len) :
    (c.takeIn len).2.inBuffer.getD [] = [] := by
  rw [takeIn_flatten, List.length_take] at h
  rw [takeIn_rest, List.drop_of_length_le (by omega)]

theorem Consumes.trans {c c' c'' : Connection κ} {bs bs' : Bytes} (h : Consumes c bs c') (h' : Consumes c' bs' c'') :
    Consumes c (bs ++ bs') c'' where
  gfd := h'.gfd.trans h.gfd
  closed := h'.closed.trans h.closed
  socket := h'.socket.trans h.socket
  outBuffer := h'.outBuffer.trans h.outBuffer
  unread := by rw [h.unread, h'.unread, List.append_assoc]
  settled hs := h'.settled (h.settled hs)

/-- The chunks of `next_vectored`. -/
theorem nextVectored_consumes (c : Connection κ) (n : Option Nat) :
    Consumes c (((c.nextVectored n).1.getD []).flatten) (c.nextVectored n).2 := by
  unfold nextVectored
  split
  · exact .nothing c
  · cases hlen : c.actualLen n with
    | none => exact .nothing c
    | some len =>
      have h := c.takeIn_consumes len
      simp only
      split
      · rename_i hrem
        cases hio : (c.takeIn len).2.ioBuffer with
        | none => exact h
        | some io =>
          have hin := takeIn_exhausts (by omega : (c.takeIn len).1.flatten.length < len)
          have h' := Consumes.ofIo hio hin (len - (c.takeIn len).1.flatten.length)
          rw [hin] at h'
          simpa using h.trans h'
      · exact h

theorem read_consumes (c : Connection κ) (len : Nat) : Consumes c (c.read len).1 (c.read len).2 := by
  have h := c.takeIn_consumes len
  unfold read
  simp only
  split
  · exact h
  · rename_i hne
    cases hio : (c.takeIn len).2.ioBuffer with
    | none => exact h
    | some io =>
      have hle : (c.takeIn len).1.flatten.length ≤ len := by rw [takeIn_flatten]; exact List.length_take_le _ _
      have hin := takeIn_exhausts (by omega : (c.takeIn len).1.flatten.length < len)
      have h' := Consumes.ofIo hio hin (min (len - (c.takeIn len).1.flatten.length) io.length)
      rw [hin] at h'
      exact h.trans h'

theorem discard_consumes (c : Connection κ) (n : Option Nat) :
    Consumes c (c.unread.take ((c.discard n).1.getD 0)) (c.discard n).2 := by
  unfold discard
  cases hlen : c.actualLen n with
  | none => simpa using Consumes.nothing c
  | some len =>
    simp only
    by_cases h0 : c.inBufLen = 0
    · rw [if_pos h0]
      cases hio : c.ioBuffer with
      | none => simpa using Consumes.nothing c
      | some io =>
        have h := Consumes.ofIo (c := c) hio (inBuffer_nil h0) len
        rw [inBuffer_nil h0] at h
        simpa [Connection.unread, inBuffer_nil h0, hio] using h
    · rw [if_neg h0]
      cases hin : c.inBuffer with
      | none => simp [inBufLen, hin] at h0
      | some inb =>
        have hl : c.inBufLen = inb.length := by simp [inBufLen, hin]
        simp only [hl, Option.getD_some]
        by_cases hle : len ≤ inb.length
        · rw [if_pos hle]
          have htake : c.unread.take len = inb.take len := by
            rw [Connection.unread, hin, Option.getD_some, List.take_append_of_le_length hle]
          simp only [Option.getD_some, htake]
          refine .ofIn hin ?_
          split
          · rename_i h
            exact h.symm
          · rfl
        · rw [if_neg hle]
          have htake : c.unread.take len = inb ++ (c.ioBuffer.getD []).take (len - inb.length) := by
            rw [Connection.unread, hin, Option.getD_some, List.take_append, List.take_of_length_le (by omega)]
          simp only [Option.getD_some, htake]
          cases hio : c.ioBuffer with
          | some io =>
            have h := Consumes.ofIo (c := c) (b := none) hio rfl (len - inb.length)
            rw [hin] at h
            exact h
          | none =>
            exact ⟨⟨rfl, rfl, rfl, rfl⟩, by simp [Connection.unread, hin, hio], fun _ => by simp [Settled]⟩

/-- The carry-over moves unread input, and touches nothing else. -/
structure CarriesOver (c c' : Connection κ) : Prop extends SameOutput c c' where
  unread : c'.unread = c.unread

theorem carryOver_carries (c : Connection κ) : CarriesOver c c.carryOver := by
  unfold carryOver
  cases hio : c.ioBuffer with
  | none => exact ⟨⟨rfl, rfl, rfl, rfl⟩, rfl⟩
  | some io =>
    simp only
    split
    · rename_i hnil
      exact ⟨⟨rfl, rfl, rfl, rfl⟩, by simp [unread, hio, hnil]⟩
    · cases hin : c.inBuffer with
      | none => exact ⟨⟨rfl, rfl, rfl, rfl⟩, by simp [unread, hio, hin]⟩
      | some inb => exact ⟨⟨rfl, rfl, rfl, rfl⟩, by simp [unread, hio, hin]⟩

/-! ## One operation -/

/-- **Every operation but `next_message` takes the bytes it reports off the front of the unread input.** -/
theorem perform_unread [Codec κ Msg] {op : Op κ Msg} (hop : op ≠ .nextMessage) (c : Connection κ) :
    c.unread = (op.perform c).1 ++ (op.perform c).2.unread := by
  cases op with
  | nextContiguous n => exact (c.nextContiguous_consumes n).unread
  | nextVectored n => exact (c.nextVectored_consumes n).unread
  | peek n => rfl
  | discard n => exact (c.discard_consumes n).unread
  | read len => exact (c.read_consumes len).unread
  | setCodec codec => rfl
  | nextMessage => exact absurd rfl hop
  | write buf => exact (c.write_sameInput buf).unread.symm
  | writeBytes buf => exact (c.writeBytes_sameInput buf).unread.symm
  | writeVectored bufs => exact (c.writeVectored_sameInput bufs).unread.symm
  | writeVectoredBytes bufs => exact (c.writeVectoredBytes_sameInput bufs).unread.symm
  | send msg => exact (c.send_sameInput msg).unread.symm
  | flush => exact c.flush_sameInput.unread.symm
  | close => rfl
  | sendCommand gfd cmd => rfl

/-- What every operation leaves alone. -/
structure Stable (c c' : Connection κ) : Prop where
  gfd : c'.gfd = c.gfd
  closed : c'.closed = c.closed
  socket : c'.socket.map Socket.inputSide = c.socket.map Socket.inputSide
  settled : c.Settled → c'.Settled

theorem Stable.refl (c : Connection κ) : Stable c c := ⟨rfl, rfl, rfl, id⟩

theorem Stable.trans {c c' c'' : Connection κ} (h : Stable c c') (h' : Stable c' c'') : Stable c c'' :=
  ⟨h'.gfd.trans h.gfd, h'.closed.trans h.closed, h'.socket.trans h.socket, h'.settled ∘ h.settled⟩

theorem SameInput.stable {c c' : Connection κ} (h : SameInput c c') : Stable c c' :=
  ⟨h.gfd, h.closed, h.socket, fun hs => by rw [Settled, h.ioBuffer]; exact hs⟩

theorem Consumes.stable {c c' : Connection κ} {bs : Bytes} (h : Consumes c bs c') : Stable c c' :=
  ⟨h.gfd, h.closed, by rw [h.socket], h.settled⟩

theorem nextMessage_stable [Codec κ Msg] (c : Connection κ) : Stable c c.nextMessage.2 := by
  unfold nextMessage
  split
  · exact ⟨rfl, rfl, rfl, id⟩
  · exact .refl c

theorem perform_stable [Codec κ Msg] (op : Op κ Msg) (c : Connection κ) : Stable c (op.perform c).2 := by
  cases op with
  | nextContiguous n => exact (c.nextContiguous_consumes n).stable
  | nextVectored n => exact (c.nextVectored_consumes n).stable
  | peek n => exact .refl c
  | discard n => exact (c.discard_consumes n).stable
  | read len => exact (c.read_consumes len).stable
  | setCodec codec => exact ⟨rfl, rfl, rfl, id⟩
  | nextMessage => exact c.nextMessage_stable
  | write buf => exact (c.write_sameInput buf).stable
  | writeBytes buf => exact (c.writeBytes_sameInput buf).stable
  | writeVectored bufs => exact (c.writeVectored_sameInput bufs).stable
  | writeVectoredBytes bufs => exact (c.writeVectoredBytes_sameInput bufs).stable
  | send msg => exact (c.send_sameInput msg).stable
  | flush => exact c.flush_sameInput.stable
  | close => exact .refl c
  | sendCommand gfd cmd => exact .refl c

end Connection

/-! ## A callback's operations -/

/-- What `Connection::close` puts into the queue for the connection with descriptor `g`. -/
def closeRequest (g : Gfd) : Queued := ⟨.close g.slabIndex, some g⟩

namespace Op

variable {κ Msg : Type} [Codec κ Msg]

/-- The operations of a callback leave the incarnation alone but for its connection. -/
theorem applyAll_stable (ops : List (Op κ Msg)) (i : Incarnation κ) (h : EventLoopHandle) :
    (applyAll ops i h).1.id = i.id ∧ (applyAll ops i h).1.before = i.before ∧
      i.conn.Stable (applyAll ops i h).1.conn := by
  induction ops generalizing i h with
  | nil => exact ⟨rfl, rfl, .refl _⟩
  | cons op ops ih =>
    obtain ⟨hid, hbefore, hs⟩ := ih (op.apply i h).1 (op.apply i h).2
    exact ⟨hid, hbefore, (Connection.perform_stable op i.conn).trans hs⟩

/-- **What was consumed and what is unread stay the same together**, if no message is decoded. -/
theorem applyAll_unread {ops : List (Op κ Msg)} (hops : ∀ op ∈ ops, op ≠ .nextMessage) (i : Incarnation κ)
    (h : EventLoopHandle) :
    (applyAll ops i h).1.consumed ++ (applyAll ops i h).1.conn.unread = i.consumed ++ i.conn.unread := by
  induction ops generalizing i h with
  | nil => rfl
  | cons op ops ih =>
    have hop := Connection.perform_unread (hops op List.mem_cons_self) i.conn
    rw [applyAll, ih fun o ho => hops o (List.mem_cons_of_mem _ ho), hop]
    simp [apply, List.append_assoc]

omit [Codec κ Msg] in
/-- One operation asks for nothing in the name of another connection. -/
theorem commands_origin {op : Op κ Msg} {idx : Nat} {c : Connection κ} {q : Queued} (hq : q ∈ op.commands idx c) :
    q.origin = Option.none ∨ q = closeRequest c.gfd := by
  cases op with
  | close => exact Or.inr (List.mem_singleton.mp hq)
  | sendCommand gfd cmd =>
    simp only [commands] at hq
    split at hq
    · rw [List.mem_singleton.mp hq]
      exact Or.inl rfl
    · cases hq
  | _ => cases hq

/-- **What the operations of a callback put into the queues.** -/
theorem applyAll_gets (ops : List (Op κ Msg)) (i : Incarnation κ) (h : EventLoopHandle) :
    ∃ qs, h.Gets qs (applyAll ops i h).2 ∧
      ∀ q ∈ qs, ∃ op ∈ ops, ∃ c : Connection κ, c.gfd = i.conn.gfd ∧ q ∈ op.commands h.idx c := by
  induction ops generalizing i h with
  | nil => exact ⟨[], .refl h, by simp⟩
  | cons op ops ih =>
    obtain ⟨qs, hg, hqs⟩ := ih (op.apply i h).1 (op.apply i h).2
    have hg₁ := EventLoopHandle.triggerAll_gets (op.commands h.idx i.conn) h
    have hidx : (op.apply i h).2.idx = h.idx := hg₁.idx
    refine ⟨_, hg₁.trans hg, fun q hq => ?_⟩
    rcases List.mem_append.mp hq with hq | hq
    · exact ⟨op, List.mem_cons_self, i.conn, rfl, hq⟩
    · obtain ⟨op', hop', c, hc, hq⟩ := hqs q hq
      have hgfd : (op.apply i h).1.conn.gfd = i.conn.gfd := (Connection.perform_stable op i.conn).gfd
      exact ⟨op', List.mem_cons_of_mem _ hop', c, hc.trans hgfd, hidx ▸ hq⟩

end Op
end Rnet
