import Rnet.Connection.Defs

/-!
# The outbound byte stream

`outStream c` is what the socket has taken followed by what is queued. One lemma per operation says what it adds:
a write call adds its payload if it answers `Ok` and nothing otherwise (`write_stream`, `writeVectored_stream`,
`writeVectoredBytes_stream`, `send_stream`), the drains add nothing (`flush_stream`, `processWrite_stream`). So after
any sequence of calls the stream is the concatenation of the accepted payloads (`runCalls_stream`).
-/

namespace Rnet

open Chunks

namespace Connection

variable {κ Msg : Type}

/-! ## Streams -/

/-- The bytes the socket has taken so far. -/
def sent (c : Connection κ) : Bytes := (c.socket.map Socket.taken).getD []

/-- The bytes taken, then the bytes queued. -/
def outStream (c : Connection κ) : Bytes := c.sent ++ c.queued.flatten

@[simp] theorem outStream_enqueue (c : Connection κ) (bufs : List Bytes) :
    (c.enqueue bufs).outStream = c.outStream ++ bufs.flatten := by
  simp [outStream, sent, queued, enqueue]

/-- What a write call answering `res` adds to the stream. -/
def accepted {α : Type} (res : IoResult α) (payload : Bytes) : Bytes :=
  match res with
  | .ok _ => payload
  | .error _ => []

@[simp] theorem accepted_ok {α : Type} (a : α) (payload : Bytes) :
    accepted (Except.ok a : IoResult α) payload = payload := rfl

@[simp] theorem accepted_error {α : Type} (e : IoError) (payload : Bytes) :
    accepted (Except.error e : IoResult α) payload = [] := rfl

@[simp] theorem accepted_map {α β : Type} (f : α → β) (res : IoResult α) (payload : Bytes) :
    accepted (res.map f) payload = accepted res payload := by
  cases res <;> rfl

/-! ## Write calls -/

/-- The loop of `write_vectored_bytes` leaves what the loop of `write_vectored` leaves. -/
theorem unsentBytes_eq : ∀ (n : Nat) (bufs : List Bytes), unsentBytes n bufs = unsent n bufs
  | _, [] => rfl
  | n, buf :: bufs => by
    rw [unsentBytes, unsent, unsentBytes_eq, unsentBytes_eq, unsentBytes_eq]
    split
    · rfl
    · split
      · rfl
      · obtain rfl : n = 0 := by omega
        rfl

/-- **A write call adds its payload iff it answers `Ok`.** -/
theorem writeOrQueue_stream (c : Connection κ) {call : Socket → IoResult Nat × Socket} {bufs : List Bytes}
    {rest : Nat → List Bytes} (hcall : ∀ s, call s = s.write bufs.flatten)
    (hrest : ∀ n, (rest n).flatten = bufs.flatten.drop n) :
    (c.writeOrQueue call bufs rest).2.outStream =
      c.outStream ++ accepted (c.writeOrQueue call bufs rest).1 bufs.flatten := by
  unfold writeOrQueue
  split
  · simp
  · rename_i hq
    have hq : c.queued = [] := not_not.mp hq
    cases hs : c.socket with
    | none => simp
    | some s =>
      simp only [hcall]
      rcases hw : s.write bufs.flatten with ⟨⟨e⟩ | ⟨n⟩, s'⟩
      · have ht := Socket.write_error hw
        simp only
        split <;> simp [outStream, sent, queued, enqueue, ht, hs]
      · obtain ⟨hn, ht⟩ := Socket.write_ok hw
        have hqs : ({ c with socket := some s' } : Connection κ).queued = [] := hq
        have hstream : ({ c with socket := some s' } : Connection κ).outStream =
            c.outStream ++ bufs.flatten.take n := by
          simp [outStream, sent, hqs, hq, ht, hs]
        simp only [accepted_ok]
        split
        · rw [outStream_enqueue, hstream, hrest, List.append_assoc, List.take_append_drop]
        · rename_i hlt
          rw [hstream, List.take_of_length_le (by omega)]

theorem writeBytes_stream (c : Connection κ) (buf : Bytes) :
    (c.writeBytes buf).2.outStream = c.outStream ++ accepted (c.writeBytes buf).1 buf := by
  have h : (c.writeBytes buf).2.outStream = c.outStream ++ accepted (c.writeBytes buf).1 [buf].flatten :=
    c.writeOrQueue_stream (by simp) (by simp)
  rwa [List.flatten_singleton] at h

theorem write_stream (c : Connection κ) (buf : Bytes) :
    (c.write buf).2.outStream = c.outStream ++ accepted (c.write buf).1 buf := c.writeBytes_stream buf

theorem writeVectored_stream (c : Connection κ) (bufs : List Bytes) :
    (c.writeVectored bufs).2.outStream = c.outStream ++ accepted (c.writeVectored bufs).1 bufs.flatten := by
  unfold writeVectored
  split
  · rename_i h0
    simp [List.length_eq_zero_iff.mp h0]
  · exact c.writeOrQueue_stream (fun _ => rfl) (fun n => flatten_unsent n bufs)

theorem writeVectoredBytes_stream (c : Connection κ) (bufs : List Bytes) :
    (c.writeVectoredBytes bufs).2.outStream = c.outStream ++ accepted (c.writeVectoredBytes bufs).1 bufs.flatten := by
  unfold writeVectoredBytes
  split
  · rename_i h0
    simp [List.length_eq_zero_iff.mp h0]
  · exact c.writeOrQueue_stream (fun _ => rfl) (fun n => by rw [unsentBytes_eq, flatten_unsent])

/-- The bytes `send` encodes a message to. -/
def encoded [Codec κ Msg] (c : Connection κ) (msg : Msg) : Bytes :=
  match c.codec with
  | none => []
  | some codec => (Codec.encode codec msg []).2.2

theorem send_stream [Codec κ Msg] (c : Connection κ) (msg : Msg) :
    (c.send msg).2.outStream = c.outStream ++ accepted (c.send msg).1 (c.encoded msg) := by
  unfold send encoded
  cases hc : c.codec with
  | none => simp
  | some codec =>
    simp only
    rcases Codec.encode codec msg [] with ⟨⟨e⟩ | ⟨u⟩, codec', buf⟩
    · simp [outStream, sent, queued]
    · simp only [accepted_map]
      exact writeBytes_stream { c with codec := some codec' } buf

/-! ## Drains -/

/-- **The drain loop moves bytes from the queue to the socket.** -/
theorem drainLoop_stream (limit : Option Nat) :
    ∀ (answers : List WriteAnswer) (sock : Socket) (out : List Bytes) (written : Nat),
      (drainLoop limit answers sock out written).sock.taken ++
        (drainLoop limit answers sock out written).out.flatten = sock.taken ++ out.flatten := by
  intro answers
  induction answers with
  | nil =>
    intro sock out written
    rw [drainLoop]
    split
    · rfl
    · split <;> rfl
  | cons a answers ih =>
    intro sock out written
    rw [drainLoop]
    split
    · rfl
    split
    · rfl
    simp only
    split
    · rename_i sock' h
      obtain ⟨-, ht⟩ := Socket.answerWrite_ok h
      simp [ht]
    · rename_i n sock' _ h
      obtain ⟨hn, ht⟩ := Socket.answerWrite_ok h
      obtain ⟨tail, htail⟩ := prefix_flatten_take IO_MAX out
      -- what the socket took is a prefix of the whole queue as well
      have htake : (out.take IO_MAX).flatten.take n = out.flatten.take n := by
        rw [← htail, List.take_append_of_le_length hn]
      rw [ih, ht, htake, flatten_advance, List.append_assoc, List.take_append_drop]
    · rename_i e sock' h
      have ht := Socket.answerWrite_error h
      split
      · simp [ht]
      · split
        · rw [ih, ht]
        · simp [ht]

theorem drain_stream (limit : Option Nat) (s : Socket) (out : List Bytes) :
    (drain limit s out).sock.taken ++ (drain limit s out).out.flatten = s.taken ++ out.flatten :=
  drainLoop_stream limit s.writes s out 0

theorem outStream_drained {c : Connection κ} {s : Socket} (hs : c.socket = some s) (limit : Option Nat) :
    (c.drained (drain limit s c.queued)).outStream = c.outStream := by
  simpa [outStream, sent, queued, drained, hs] using drain_stream limit s c.queued

theorem flush_stream (c : Connection κ) : c.flush.2.outStream = c.outStream := by
  cases hs : c.socket with
  | none => simp [flush, hs]
  | some s =>
    cases ho : c.outBuffer with
    | none => rw [flush_none hs ho]
    | some out =>
      obtain rfl : c.queued = out := by simp [queued, ho]
      rw [flush_some hs ho]
      exact outStream_drained hs none

theorem processWrite_stream (maxBatch : Nat) (c : Connection κ) :
    (c.processWrite maxBatch).2.outStream = c.outStream := by
  by_cases hq : c.queued = []
  · rw [processWrite_nil hq]
  · cases hs : c.socket with
    | none => simp [processWrite, hs, hq]
    | some s =>
      rw [processWrite_some hs hq]
      exact outStream_drained hs _

/-! ## Sequences of calls -/

/-- The calls that move output, and `set_codec`, on which `send` depends. `Command::AsyncWrite` makes a `write`. -/
inductive Call (κ Msg : Type)
  | setCodec (codec : κ)
  | write (buf : Bytes)
  | writeBytes (buf : Bytes)
  | writeVectored (bufs : List Bytes)
  | writeVectoredBytes (bufs : List Bytes)
  | send (msg : Msg)
  | flush
  | processWrite

/-- Make a call in a loop that was set up with `max_batch_size = maxBatch`: the payload it accepted (nothing for a
drain), and the connection afterwards. -/
def Call.perform [Codec κ Msg] (maxBatch : Nat) (call : Call κ Msg) (c : Connection κ) : Bytes × Connection κ :=
  match call with
  | .setCodec codec => ([], c.setCodec codec)
  | .write buf => (accepted (c.write buf).1 buf, (c.write buf).2)
  | .writeBytes buf => (accepted (c.writeBytes buf).1 buf, (c.writeBytes buf).2)
  | .writeVectored bufs => (accepted (c.writeVectored bufs).1 bufs.flatten, (c.writeVectored bufs).2)
  | .writeVectoredBytes bufs => (accepted (c.writeVectoredBytes bufs).1 bufs.flatten, (c.writeVectoredBytes bufs).2)
  | .send msg => (accepted (c.send msg).1 (c.encoded msg), (c.send msg).2)
  | .flush => ([], c.flush.2)
  | .processWrite => ([], (c.processWrite maxBatch).2)

/-- Make the calls in order: the accepted payloads in call order, and the connection afterwards. -/
def runCalls [Codec κ Msg] (maxBatch : Nat) (c : Connection κ) : List (Call κ Msg) → Bytes × Connection κ
  | [] => ([], c)
  | call :: calls =>
    let (a, c) := call.perform maxBatch c
    let (as, c) := runCalls maxBatch c calls
    (a ++ as, c)

theorem perform_stream [Codec κ Msg] (maxBatch : Nat) (call : Call κ Msg) (c : Connection κ) :
    (call.perform maxBatch c).2.outStream = c.outStream ++ (call.perform maxBatch c).1 := by
  cases call with
  | setCodec codec => simp [Call.perform, setCodec, outStream, sent, queued]
  | write buf => exact c.write_stream buf
  | writeBytes buf => exact c.writeBytes_stream buf
  | writeVectored bufs => exact c.writeVectored_stream bufs
  | writeVectoredBytes bufs => exact c.writeVectoredBytes_stream bufs
  | send msg => exact c.send_stream msg
  | flush => simpa [Call.perform] using c.flush_stream
  | processWrite => simpa [Call.perform] using c.processWrite_stream maxBatch

/-- **The stream grows by exactly the accepted payloads.** -/
theorem runCalls_stream [Codec κ Msg] (maxBatch : Nat) (calls : List (Call κ Msg)) (c : Connection κ) :
    (c.runCalls maxBatch calls).2.outStream = c.outStream ++ (c.runCalls maxBatch calls).1 := by
  induction calls generalizing c with
  | nil => simp [runCalls]
  | cons call calls ih => simp [runCalls, ih, perform_stream]

theorem outStream_opened (pooled : Option (Connection κ)) (gfd : Gfd) (socket : Socket)
    (localAddr peerAddr : NetworkAddress) : (opened pooled gfd socket localAddr peerAddr).outStream = socket.taken := by
  cases pooled with
  | none => simp [opened, new, outStream, sent, queued]
  | some c => cases h : c.outBuffer <;> simp [opened, reset, outStream, sent, queued, h]

/-- **The outbound byte stream is exact.** Any calls on any connection add to what its socket has taken and what is
queued the payloads of the writes that answered `Ok`, and nothing else. A connection opened on `socket`, fresh or
recycled, starts with nothing queued. -/
theorem outbound_exact [Codec κ Msg] (maxBatch : Nat) (calls : List (Call κ Msg)) :
    (∀ c : Connection κ,
      (c.runCalls maxBatch calls).2.sent ++ (c.runCalls maxBatch calls).2.queued.flatten =
        c.sent ++ c.queued.flatten ++ (c.runCalls maxBatch calls).1) ∧
    ∀ (pooled : Option (Connection κ)) (gfd : Gfd) (socket : Socket) (localAddr peerAddr : NetworkAddress),
      let c := opened pooled gfd socket localAddr peerAddr
      (c.runCalls maxBatch calls).2.sent ++ (c.runCalls maxBatch calls).2.queued.flatten =
        socket.taken ++ (c.runCalls maxBatch calls).1 := by
  constructor
  · intro c
    exact runCalls_stream maxBatch calls c
  · intro pooled gfd socket localAddr peerAddr
    have h := runCalls_stream maxBatch calls (opened pooled gfd socket localAddr peerAddr)
    rwa [outStream_opened] at h

end Connection
end Rnet
