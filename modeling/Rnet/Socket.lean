import Mathlib.Data.List.Basic

/-!
# Sockets and what the operating system answers

`socket.rs` wraps a TCP or Unix stream; both forward to the operating system. A `Socket` carries the answers its
reads and writes will get, in order, and a record of what it took and gave. Any behaviour of the system is some list
of answers: an answer that promises more bytes than a call can move is cut to what the call offers, and a call past
the end of the list would block. `TcpStream::flush` and `UnixStream::flush` do nothing and succeed.
-/

namespace Rnet

abbrev Bytes := List UInt8

/-- The `io::ErrorKind`s that the program tells apart; `panicked` stands for an `unwrap` on `None`. -/
inductive ErrorKind
  | wouldBlock
  | interrupted
  | writeZero
  | other
  | os (code : Nat)
  | panicked
  deriving DecidableEq, Repr

structure IoError where
  kind : ErrorKind
  message : String
  deriving DecidableEq, Repr

abbrev IoResult := Except IoError

def IoError.wouldBlock : IoError := ⟨.wouldBlock, "operation would block"⟩
def IoError.interrupted : IoError := ⟨.interrupted, "operation interrupted"⟩
def IoError.fatal (code : Nat) : IoError := ⟨.os code, "os error"⟩

/-- The panic of `socket.as_mut().unwrap()` on a connection without a socket. -/
def IoError.unwrapNone : IoError := ⟨.panicked, "called Option::unwrap() on a None value"⟩

/-- `e.kind() == WouldBlock || e.kind() == Interrupted` -/
def IoError.isTransient (e : IoError) : Bool := e.kind = .wouldBlock || e.kind = .interrupted

/-- The interest a source is registered with (`mio::Interest`). -/
inductive Interest
  | readable
  | readableWritable
  deriving DecidableEq, Repr

/-- What one `write` or `write_vectored` call on the socket is answered. -/
inductive WriteAnswer
  | took (n : Nat)
  | wouldBlock
  | interrupted
  | fatal (code : Nat)
  deriving DecidableEq, Repr

/-- What one `read` call on the socket is answered; `data []` is the end of the stream. -/
inductive ReadAnswer
  | data (bs : Bytes)
  | wouldBlock
  | interrupted
  | fatal (code : Nat)
  deriving DecidableEq, Repr

structure Socket where
  fd : Int
  /-- the answers to the writes still to come -/
  writes : List WriteAnswer
  /-- the answers to the reads still to come -/
  reads : List ReadAnswer
  /-- the bytes the system has taken so far -/
  taken : Bytes
  /-- the bytes the system has delivered so far -/
  received : Bytes
  /-- what the socket is registered for, if it is registered -/
  interest : Option Interest
  deriving DecidableEq, Repr

namespace Socket

/-- One write call that offers `offered` and is answered `a`. -/
def answerWrite (s : Socket) (a : WriteAnswer) (offered : Bytes) : IoResult Nat × Socket :=
  match a with
  | .took n => (.ok (min n offered.length), { s with writes := s.writes.tail, taken := s.taken ++ offered.take n })
  | .wouldBlock => (.error .wouldBlock, { s with writes := s.writes.tail })
  | .interrupted => (.error .interrupted, { s with writes := s.writes.tail })
  | .fatal code => (.error (.fatal code), { s with writes := s.writes.tail })

def write (s : Socket) (buf : Bytes) : IoResult Nat × Socket := s.answerWrite (s.writes.headD .wouldBlock) buf

def writeVectored (s : Socket) (bufs : List Bytes) : IoResult Nat × Socket := s.write bufs.flatten

/-- One read call into a buffer of `len` bytes that is answered `a`: the bytes put into the buffer. -/
def answerRead (s : Socket) (a : ReadAnswer) (len : Nat) : IoResult Bytes × Socket :=
  match a with
  | .data bs =>
    (.ok (bs.take len), { s with reads := s.reads.tail, received := s.received ++ bs.take len })
  | .wouldBlock => (.error .wouldBlock, { s with reads := s.reads.tail })
  | .interrupted => (.error .interrupted, { s with reads := s.reads.tail })
  | .fatal code => (.error (.fatal code), { s with reads := s.reads.tail })

def flush (s : Socket) : IoResult Unit × Socket := (.ok (), s)

/-! ## What a write does -/

/-- An answered write: how much went out. -/
theorem answerWrite_ok {s s' : Socket} {a : WriteAnswer} {bs : Bytes} {n : Nat}
    (h : s.answerWrite a bs = (.ok n, s')) : n ≤ bs.length ∧ s'.taken = s.taken ++ bs.take n := by
  cases a with
  | took m =>
    simp only [answerWrite, Prod.mk.injEq, Except.ok.injEq] at h
    obtain ⟨rfl, rfl⟩ := h
    refine ⟨Nat.min_le_right _ _, ?_⟩
    rcases Nat.le_total m bs.length with hm | hm
    · simp [Nat.min_eq_left hm]
    · simp [Nat.min_eq_right hm, List.take_of_length_le hm]
  | wouldBlock => simp [answerWrite] at h
  | interrupted => simp [answerWrite] at h
  | fatal code => simp [answerWrite] at h

/-- A failed write sends nothing. -/
theorem answerWrite_error {s s' : Socket} {a : WriteAnswer} {bs : Bytes} {e : IoError}
    (h : s.answerWrite a bs = (.error e, s')) : s'.taken = s.taken := by
  cases a <;> simp [answerWrite] at h <;> rw [← h.2]

theorem write_ok {s s' : Socket} {bs : Bytes} {n : Nat} (h : s.write bs = (.ok n, s')) :
    n ≤ bs.length ∧ s'.taken = s.taken ++ bs.take n := answerWrite_ok h

theorem write_error {s s' : Socket} {bs : Bytes} {e : IoError} (h : s.write bs = (.error e, s')) :
    s'.taken = s.taken := answerWrite_error h

end Socket
end Rnet
