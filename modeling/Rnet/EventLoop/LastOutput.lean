import Rnet.EventLoop.Identity

/-!
# The output of a connection that is closed

`close_connection` flushes the queued output, or drops it, and then calls `on_close`, which may write to the socket as
long as it likes (`closeWith`). After a drop what `on_close` writes goes out behind a hole, unless nothing was queued or
the socket takes nothing any more; after a flush everything accepted before is out if the socket took it without a
break (`Takes`). `closing_intact_iff`: whatever `on_close` does, the output is intact under exactly these conditions.
-/

namespace Rnet

open Chunks

variable {κ Msg η : Type}

/-! ## Operations and the outbound stream -/

namespace Op

variable [Codec κ Msg]

/-- The bytes a call of an operation accepts. -/
def accepts (op : Op κ Msg) (c : Connection κ) : Bytes :=
  match op with
  | .write buf => Connection.accepted (c.write buf).1 buf
  | .writeBytes buf => Connection.accepted (c.writeBytes buf).1 buf
  | .writeVectored bufs => Connection.accepted (c.writeVectored bufs).1 bufs.flatten
  | .writeVectoredBytes bufs => Connection.accepted (c.writeVectoredBytes bufs).1 bufs.flatten
  | .send msg => Connection.accepted (c.send msg).1 (c.encoded msg)
  | .nextContiguous _ | .nextVectored _ | .peek _ | .discard _ | .read _ | .setCodec _ | .nextMessage | .flush | .close
  | .sendCommand _ _ => []

/-- The bytes they accept. -/
def acceptsAll : List (Op κ Msg) → Connection κ → Bytes
  | [], _ => []
  | op :: ops, c => op.accepts c ++ acceptsAll ops (op.perform c).2

end Op

namespace Connection

variable {c c' : Connection κ}

/-- The write answers the socket still has to give. -/
def writes (c : Connection κ) : List WriteAnswer := (c.socket.map Socket.writes).getD []

theorem Consumes.outStream {bs : Bytes} (h : Consumes c bs c') : c'.outStream = c.outStream := by
  rw [Connection.outStream, Connection.outStream, sent, sent, queued, queued, h.socket, h.outBuffer]

variable [Codec κ Msg]

theorem nextMessage_outStream (c : Connection κ) : c.nextMessage.2.outStream = c.outStream := by
  unfold nextMessage
  split <;> rfl

/-- **Every operation adds what it accepts to the outbound stream.** -/
theorem perform_outStream (op : Op κ Msg) (c : Connection κ) :
    (op.perform c).2.outStream = c.outStream ++ op.accepts c := by
  cases op with
  | write buf => exact c.write_stream buf
  | writeBytes buf => exact c.writeBytes_stream buf
  | writeVectored bufs => exact c.writeVectored_stream bufs
  | writeVectoredBytes bufs => exact c.writeVectoredBytes_stream bufs
  | send msg => exact c.send_stream msg
  | flush => exact c.flush_stream.trans (List.append_nil _).symm
  | nextContiguous n => exact (c.nextContiguous_consumes n).outStream.trans (List.append_nil _).symm
  | nextVectored n => exact (c.nextVectored_consumes n).outStream.trans (List.append_nil _).symm
  | discard n => exact (c.discard_consumes n).outStream.trans (List.append_nil _).symm
  | read len => exact (c.read_consumes len).outStream.trans (List.append_nil _).symm
  | nextMessage => exact c.nextMessage_outStream.trans (List.append_nil _).symm
  | peek n | setCodec codec | close | sendCommand gfd cmd => exact (List.append_nil _).symm

theorem performAll_outStream (ops : List (Op κ Msg)) :
    ∀ c : Connection κ, (Op.performAll ops c).outStream = c.outStream ++ Op.acceptsAll ops c := by
  induction ops with
  | nil => exact fun c => (List.append_nil _).symm
  | cons op ops ih =>
    intro c
    show (Op.performAll ops (op.perform c).2).outStream = _
    rw [ih, perform_outStream, Op.acceptsAll, List.append_assoc]

omit [Codec κ Msg] in
theorem prefix_outStream (c : Connection κ) : c.sent <+: c.outStream := List.prefix_append _ _

end Connection

/-! ## What an operation does with the answers of the socket -/

/-- The socket got further in its answers, and took some bytes or none. -/
structure Socket.Later (s t : Socket) : Prop where
  writes : t.writes <:+ s.writes
  taken : s.taken <+: t.taken
  /-- nothing is taken without an answer that takes something -/
  stingy : (∀ a ∈ s.writes, ∀ n, a ≠ .took (n + 1)) → t.taken = s.taken

namespace Socket.Later

variable {s t u : Socket}

theorem refl (s : Socket) : s.Later s := ⟨List.suffix_refl _, List.prefix_refl _, fun _ => rfl⟩

theorem trans (h : s.Later t) (h' : t.Later u) : s.Later u where
  writes := h'.writes.trans h.writes
  taken := h.taken.trans h'.taken
  stingy hs := (h'.stingy fun a ha => hs a (h.writes.subset ha)).trans (h.stingy hs)

theorem answerWrite (s : Socket) {a : WriteAnswer} (ha : a ∈ s.writes ∨ a = .wouldBlock) (bs : Bytes) :
    s.Later (s.answerWrite a bs).2 := by
  cases a with
  | took n =>
    refine ⟨List.tail_suffix _, List.prefix_append _ _, fun hs => ?_⟩
    cases n with
    | zero => simp [Socket.answerWrite]
    | succ n => exact absurd rfl (hs _ (ha.resolve_right (by simp)) n)
  | wouldBlock | interrupted | fatal code => exact ⟨List.tail_suffix _, List.prefix_refl _, fun _ => rfl⟩

theorem write (s : Socket) (bs : Bytes) : s.Later (s.write bs).2 := by
  refine .answerWrite s ?_ bs
  cases s.writes with
  | nil => exact Or.inr rfl
  | cons a rest => exact Or.inl List.mem_cons_self

end Socket.Later

namespace Connection

variable {c c' c'' : Connection κ}

/-- The same for the socket of a connection. -/
def Later (c c' : Connection κ) : Prop :=
  c'.socket = c.socket ∨ ∃ s t, c.socket = some s ∧ c'.socket = some t ∧ s.Later t

theorem Later.refl (c : Connection κ) : Later c c := Or.inl rfl

theorem Later.trans (h : Later c c') (h' : Later c' c'') : Later c c'' := by
  rcases h with h | ⟨s, t, hs, ht, h⟩
  · rcases h' with h' | ⟨t', u, ht', hu, h'⟩
    · exact Or.inl (h'.trans h)
    · exact Or.inr ⟨t', u, h ▸ ht', hu, h'⟩
  · rcases h' with h' | ⟨t', u, ht', hu, h'⟩
    · exact Or.inr ⟨s, t, hs, h'.trans ht, h⟩
    · obtain rfl : t = t' := Option.some.inj (ht.symm.trans ht')
      exact Or.inr ⟨s, u, hs, hu, h.trans h'⟩

theorem drainLoop_later (limit : Option Nat) : ∀ (answers : List WriteAnswer) (sock : Socket) (out : List Bytes)
    (written : Nat), sock.writes = answers → sock.Later (drainLoop limit answers sock out written).sock := by
  intro answers
  induction answers with
  | nil =>
    intro sock out written _
    rw [drainLoop]
    split
    · exact .refl _
    · split <;> exact .refl _
  | cons a answers ih =>
    intro sock out written hw
    have ha := Socket.Later.answerWrite sock (a := a) (Or.inl (by rw [hw]; exact List.mem_cons_self))
      (out.take IO_MAX).flatten
    have htail : (sock.answerWrite a (out.take IO_MAX).flatten).2.writes = answers := by
      have : sock.writes.tail = answers := by rw [hw]; rfl
      cases a <;> exact this
    rw [drainLoop]
    split
    · exact .refl _
    split
    · exact .refl _
    simp only
    split
    · rename_i sock' h
      rw [h] at ha
      exact ha
    · rename_i n sock' _ h
      rw [h] at ha htail
      exact ha.trans (ih _ _ _ htail)
    · rename_i e sock' h
      rw [h] at ha htail
      split
      · exact ha
      · split
        · exact ha.trans (ih _ _ _ htail)
        · exact ha

theorem flush_later (c : Connection κ) : Later c c.flush.2 := by
  cases hs : c.socket with
  | none => exact Or.inl (by simp [flush, hs])
  | some s =>
    cases ho : c.outBuffer with
    | none => rw [flush_none hs ho]; exact .refl c
    | some out =>
      rw [flush_some hs ho]
      exact Or.inr ⟨s, _, hs, rfl, drainLoop_later none _ _ _ _ rfl⟩

theorem writeOrQueue_later (c : Connection κ) {call : Socket → IoResult Nat × Socket} {bufs : List Bytes}
    {rest : Nat → List Bytes} (hcall : ∀ s, call s = s.write bufs.flatten) :
    Later c (c.writeOrQueue call bufs rest).2 := by
  unfold writeOrQueue
  split
  · exact .refl c
  · cases hs : c.socket with
    | none => exact .refl c
    | some s =>
      have hl := Socket.Later.write s bufs.flatten
      simp only [hcall]
      split
      · rename_i n t hw
        rw [hw] at hl
        refine Or.inr ⟨s, t, hs, ?_, hl⟩
        simp only
        split <;> rfl
      · rename_i e t hw
        rw [hw] at hl
        refine Or.inr ⟨s, t, hs, ?_, hl⟩
        split <;> rfl

theorem writeBytes_later (c : Connection κ) (buf : Bytes) : Later c (c.writeBytes buf).2 :=
  c.writeOrQueue_later fun s => by simp

theorem perform_later [Codec κ Msg] (op : Op κ Msg) (c : Connection κ) : Later c (op.perform c).2 := by
  cases op with
  | write buf => exact c.writeBytes_later buf
  | writeBytes buf => exact c.writeBytes_later buf
  | writeVectored bufs =>
    show Later c (c.writeVectored bufs).2
    unfold writeVectored
    split
    · exact .refl c
    · exact c.writeOrQueue_later fun _ => rfl
  | writeVectoredBytes bufs =>
    show Later c (c.writeVectoredBytes bufs).2
    unfold writeVectoredBytes
    split
    · exact .refl c
    · exact c.writeOrQueue_later fun _ => rfl
  | send msg =>
    show Later c (c.send msg).2
    unfold send
    cases c.codec with
    | none => exact .refl c
    | some codec =>
      simp only
      split
      · exact Or.inl rfl
      · exact .trans (Or.inl rfl) (writeBytes_later { c with codec := some (Codec.encode codec msg []).2.1 } _)
  | flush => exact c.flush_later
  | nextContiguous n => exact Or.inl (c.nextContiguous_consumes n).socket
  | nextVectored n => exact Or.inl (c.nextVectored_consumes n).socket
  | discard n => exact Or.inl (c.discard_consumes n).socket
  | read len => exact Or.inl (c.read_consumes len).socket
  | nextMessage =>
    refine Or.inl ?_
    show c.nextMessage.2.socket = _
    unfold nextMessage
    split <;> rfl
  | peek n | setCodec codec | close | sendCommand gfd cmd => exact .refl c

theorem performAll_later [Codec κ Msg] (ops : List (Op κ Msg)) : ∀ c : Connection κ, Later c (Op.performAll ops c) := by
  induction ops with
  | nil => exact .refl
  | cons op ops ih => exact fun c => (c.perform_later op).trans (ih _)

end Connection

/-! ## Closing -/

namespace Connection

variable [Codec κ Msg] {c : Connection κ} {s : Socket}

/-- What `close_connection` makes of a connection: a last flush or none, and the operations of `on_close`. -/
def closeWith (graceful : Bool) (ops : List (Op κ Msg)) (c : Connection κ) : Connection κ :=
  Op.performAll ops (EventLoop.lastOutput graceful c)

omit [Codec κ Msg] in
/-- The write answers used up from one state of a connection to a later one. -/
def answersUntil (c c' : Connection κ) : List WriteAnswer := c.writes.take (c.writes.length - c'.writes.length)

/-- What should hold of the output when a connection is closed: what the socket took is a prefix of what was accepted,
and after a graceful close in which the socket reported no fatal error it is all that was accepted before. -/
structure Intact (graceful : Bool) (ops : List (Op κ Msg)) (c : Connection κ) : Prop where
  isPrefix : (c.closeWith graceful ops).sent <+: c.outStream ++ Op.acceptsAll ops (EventLoop.lastOutput graceful c)
  complete : graceful = true → (∀ code, .fatal code ∉ c.answersUntil (c.closeWith graceful ops)) →
    c.outStream <+: (c.closeWith graceful ops).sent

/-- The socket takes all that is queued without a break, or reports a fatal error: no answer blocks and none takes
nothing while there are bytes in the queue. -/
def Takes : List WriteAnswer → List Bytes → Prop
  | [], out => out.flatten = []
  | .took n :: answers, out =>
    out.flatten = [] ∨
      0 < min n (out.take IO_MAX).flatten.length ∧ Takes answers (advance (min n (out.take IO_MAX).flatten.length) out)
  | .interrupted :: answers, out => Takes answers out
  | .wouldBlock :: _, out => out.flatten = []
  | .fatal _ :: _, _ => True

/-- The condition: after a flush, that the socket takes what is queued; after a drop, that nothing was queued or that
the socket takes nothing more. -/
def Unbroken (graceful : Bool) (c : Connection κ) : Prop :=
  if graceful then Takes c.writes c.queued else c.queued.flatten = [] ∨ ∀ a ∈ c.writes, ∀ n, a ≠ .took (n + 1)

/-! ## A graceful close -/

omit [Codec κ Msg] in
theorem takes_of_nil {out : List Bytes} (h : out.flatten = []) : ∀ answers, Takes answers out
  | [] => h
  | .took _ :: _ => Or.inl h
  | .interrupted :: answers => takes_of_nil h answers
  | .wouldBlock :: _ => h
  | .fatal _ :: _ => trivial

omit [Codec κ Msg] in
/-- **The flush loop** empties the queue of bytes, or comes to a fatal error, if and only if the socket takes it all. -/
theorem drainLoop_takes : ∀ (answers : List WriteAnswer) (sock : Socket) (out : List Bytes) (written : Nat),
    sock.writes = answers → ∃ used, answers = used ++ (drainLoop none answers sock out written).sock.writes ∧
      (Takes answers out →
        (drainLoop none answers sock out written).out.flatten = [] ∨ ∃ code, .fatal code ∈ used) ∧
      (¬Takes answers out →
        (drainLoop none answers sock out written).out.flatten ≠ [] ∧ ∀ code, .fatal code ∉ used) := by
  intro answers
  induction answers with
  | nil =>
    intro sock out written hw
    rw [drainLoop]
    split
    · rename_i hnil
      exact ⟨[], by simp [hw], fun _ => Or.inl (by rw [hnil]; rfl),
        fun h => absurd (takes_of_nil (by rw [hnil]; rfl) _) h⟩
    · exact ⟨[], by simp [hw], Or.inl, fun h => ⟨h, by simp⟩⟩
  | cons a answers ih =>
    intro sock out written hw
    have htail : sock.writes.tail = answers := by rw [hw]; rfl
    rw [drainLoop]
    split
    · rename_i hnil
      exact ⟨[], by simp [hw], fun _ => Or.inl (by rw [hnil]; rfl),
        fun h => absurd (takes_of_nil (by rw [hnil]; rfl) _) h⟩
    rw [if_neg (by simp)]
    cases a with
    | took n =>
      simp only [Socket.answerWrite]
      split
      · rename_i sock' h
        simp only [Prod.mk.injEq, Except.ok.injEq] at h
        obtain ⟨h0, rfl⟩ := h
        refine ⟨[.took n], by simp [htail], fun ht => ?_, fun ht => ⟨fun hnil => ht (Or.inl hnil), by simp⟩⟩
        exact ht.elim Or.inl fun ht => absurd h0 (Nat.ne_of_gt ht.1)
      · rename_i m sock' hm h
        simp only [Prod.mk.injEq, Except.ok.injEq] at h
        obtain ⟨rfl, rfl⟩ := h
        have hpos : 0 < min n (out.take IO_MAX).flatten.length := Nat.pos_of_ne_zero fun h0 => hm h0
        have hne : out.flatten ≠ [] := by
          intro hnil
          have hle := (prefix_flatten_take IO_MAX out).length_le
          rw [hnil, List.length_nil] at hle
          omega
        have hiff : Takes (.took n :: answers) out ↔
            Takes answers (advance (min n (out.take IO_MAX).flatten.length) out) :=
          ⟨fun h => (h.resolve_left hne).2, fun h => Or.inr ⟨hpos, h⟩⟩
        obtain ⟨used, hused, hyes, hno⟩ := ih { sock with
          writes := sock.writes.tail
          taken := sock.taken ++ (out.take IO_MAX).flatten.take n }
          (advance (min n (out.take IO_MAX).flatten.length) out)
            (written + min n (out.take IO_MAX).flatten.length) htail
        refine ⟨.took n :: used, congrArg (List.cons _) hused, fun ht => ?_, fun ht => ?_⟩
        · exact (hyes (hiff.mp ht)).imp_right (Exists.imp fun _ => List.mem_cons_of_mem _)
        · obtain ⟨h₁, h₂⟩ := hno fun h => ht (hiff.mpr h)
          exact ⟨h₁, fun code hc => (List.mem_cons.mp hc).elim (by simp) (h₂ code)⟩
      · rename_i e sock' h
        simp at h
    | wouldBlock => exact ⟨[.wouldBlock], by simp [Socket.answerWrite, IoError.wouldBlock, htail],
        fun ht => Or.inl ht, fun ht => ⟨ht, by simp⟩⟩
    | interrupted =>
      obtain ⟨used, hused, hyes, hno⟩ := ih { sock with writes := sock.writes.tail } out written htail
      refine ⟨.interrupted :: used, congrArg (List.cons _) hused, fun ht => ?_, fun ht => ?_⟩
      · exact (hyes ht).imp_right (Exists.imp fun _ => List.mem_cons_of_mem _)
      · obtain ⟨h₁, h₂⟩ := hno ht
        exact ⟨h₁, fun code hc => (List.mem_cons.mp hc).elim (by simp) (h₂ code)⟩
    | fatal code =>
      refine ⟨[.fatal code], by simp [Socket.answerWrite, IoError.fatal, htail], fun _ => Or.inr ⟨code, ?_⟩,
        fun ht => absurd trivial ht⟩
      exact List.mem_singleton_self _

omit [Codec κ Msg] in
/-- A flush, by what the socket still has to answer. -/
theorem flush_takes (hs : c.socket = some s) : ∃ used, c.writes = used ++ c.flush.2.writes ∧
    (Takes c.writes c.queued → c.flush.2.queued.flatten = [] ∨ ∃ code, .fatal code ∈ used) ∧
    (¬Takes c.writes c.queued → c.flush.2.queued.flatten ≠ [] ∧ ∀ code, .fatal code ∉ used) := by
  have hw : c.writes = s.writes := by simp [writes, hs]
  cases ho : c.outBuffer with
  | none =>
    have hq : c.queued = [] := by simp [queued, ho]
    rw [flush_none hs ho, hq]
    exact ⟨[], rfl, fun _ => Or.inl rfl, fun h => absurd (takes_of_nil rfl _) h⟩
  | some out =>
    have hq : c.queued = out := by simp [queued, ho]
    rw [flush_some hs ho, hq, hw]
    exact drainLoop_takes s.writes s out 0 rfl

omit [Codec κ Msg] in
theorem Later.sent {c c' : Connection κ} (h : Later c c') : c.sent <+: c'.sent := by
  rcases h with h | ⟨s, t, hs, ht, h⟩
  · have hsent : c'.sent = c.sent := by rw [Connection.sent, Connection.sent, h]
    exact hsent ▸ List.prefix_refl c.sent
  · rw [Connection.sent, Connection.sent, hs, ht]
    exact h.taken

omit [Codec κ Msg] in
theorem Later.writes {c c' : Connection κ} (h : Later c c') : c'.writes <:+ c.writes := by
  rcases h with h | ⟨s, t, hs, ht, h⟩
  · have hwrites : c'.writes = c.writes := by rw [Connection.writes, Connection.writes, h]
    exact hwrites ▸ List.suffix_refl c.writes
  · rw [Connection.writes, Connection.writes, hs, ht]
    exact h.writes

omit [Codec κ Msg] in
/-- A socket that takes nothing more takes nothing more. -/
theorem Later.stingy {c c' : Connection κ} (h : Later c c') (hst : ∀ a ∈ c.writes, ∀ n, a ≠ .took (n + 1)) :
    c'.sent = c.sent := by
  rcases h with h | ⟨s, t, hs, ht, h⟩
  · rw [Connection.sent, Connection.sent, h]
  · rw [Connection.sent, Connection.sent, hs, ht]
    exact h.stingy (by rwa [Connection.writes, hs] at hst)

/-- If the output that was queued is not dropped, or was none, nothing is sent out of order. -/
theorem prefix_closeWith {graceful : Bool} (h : (EventLoop.lastOutput graceful c).outStream = c.outStream)
    (ops : List (Op κ Msg)) : (c.closeWith graceful ops).sent <+:
      c.outStream ++ Op.acceptsAll ops (EventLoop.lastOutput graceful c) := by
  rw [← h, ← performAll_outStream]
  exact prefix_outStream _

/-- **A graceful close** keeps the output intact if and only if the flush takes it all, or comes to a fatal error. -/
theorem graceful_intact_iff (hs : c.socket = some s) :
    (∀ ops : List (Op κ Msg), Intact true ops c) ↔ Takes c.writes c.queued := by
  obtain ⟨used, hused, hyes, hno⟩ := flush_takes hs
  have hout : (EventLoop.lastOutput true c).outStream = c.outStream := c.flush_stream
  constructor
  · intro h
    by_contra hnot
    obtain ⟨hq, hfatal⟩ := hno hnot
    -- a callback that does nothing: what the flush left is lost
    have hall := (h []).complete rfl fun code hc => hfatal code <| by
      have hlen : c.writes.length - c.flush.2.writes.length = used.length := by
        rw [hused, List.length_append, Nat.add_sub_cancel]
      have hc : .fatal code ∈ c.writes.take (c.writes.length - c.flush.2.writes.length) := hc
      rwa [hlen, hused, List.take_left] at hc
    have hle : c.outStream.length ≤ c.flush.2.sent.length := hall.length_le
    rw [← c.flush_stream, Connection.outStream, List.length_append] at hle
    exact hq (List.length_eq_zero_iff.mp (by omega))
  · intro h ops
    refine ⟨prefix_closeWith hout ops, fun _ hfatal => ?_⟩
    have hlater : Later c.flush.2 (c.closeWith true ops) := performAll_later ops c.flush.2
    rcases hyes h with hq | ⟨code, hc⟩
    · rw [← c.flush_stream, Connection.outStream, hq, List.append_nil]
      exact hlater.sent
    · refine absurd ?_ (hfatal code)
      have hle := hlater.writes.length_le
      have hlen : used.length ≤ c.writes.length - (c.closeWith true ops).writes.length := by
        rw [hused, List.length_append]
        omega
      have hpre : used <+: c.writes.take (c.writes.length - (c.closeWith true ops).writes.length) :=
        List.prefix_take_iff.mpr ⟨⟨_, hused.symm⟩, hlen⟩
      exact hpre.subset hc

/-! ## A close that drops the queue -/

omit [Codec κ Msg] in
/-- One flush of a single byte: it goes out, it is tried again, or it stays. -/
theorem flush_single {x : UInt8} {a : WriteAnswer} {answers : List WriteAnswer} (hs : c.socket = some s)
    (ho : c.outBuffer = some [[x]]) (hw : s.writes = a :: answers) :
    (∃ n, a = .took (n + 1) ∧ c.flush.2.sent = c.sent ++ [x]) ∨
    (∀ n, a ≠ .took (n + 1)) ∧
      (c.flush.2 = { c with socket := some { s with writes := answers } } ∨
        c.flush.2 = ({ c with socket := some { s with writes := answers } } : Connection κ).flush.2) := by
  have htail : s.writes.tail = answers := by rw [hw]; rfl
  have hdrain : drain none s [[x]] = drainLoop none (a :: answers) s [[x]] 0 := by rw [drain, hw]
  rw [flush_some hs ho, hdrain]
  cases a with
  | took n =>
    cases n with
    | zero =>
      refine Or.inr ⟨by simp, Or.inl ?_⟩
      rw [drainLoop]
      simp [Socket.answerWrite, drained, htail, ho]
    | succ n =>
      refine Or.inl ⟨n, rfl, ?_⟩
      have hempty : ∀ (s : Socket) k, (drainLoop none answers s [] k).sock = s := fun _ _ => by
        rw [drainLoop]
        simp
      rw [drainLoop]
      simp [Socket.answerWrite, drained, htail, IO_MAX, Connection.sent, hs, advance, hempty]
  | wouldBlock =>
    refine Or.inr ⟨by simp, Or.inl ?_⟩
    rw [drainLoop]
    simp [Socket.answerWrite, IoError.wouldBlock, drained, htail, ho]
  | interrupted =>
    refine Or.inr ⟨by simp, Or.inr ?_⟩
    rw [flush_some (c := { c with socket := some { s with writes := answers } }) rfl ho]
    rw [drainLoop]
    simp [Socket.answerWrite, IoError.interrupted, drained, htail, drain]
  | fatal code =>
    refine Or.inr ⟨by simp, Or.inl ?_⟩
    rw [drainLoop]
    simp [Socket.answerWrite, IoError.fatal, drained, htail, ho]

/-- Flushes until a queued byte is out. -/
theorem exists_flushes {x : UInt8} : ∀ (answers : List WriteAnswer) (c : Connection κ) (s : Socket),
    c.socket = some s → c.outBuffer = some [[x]] → s.writes = answers → (∃ n, .took (n + 1) ∈ answers) →
      ∃ ops : List (Op κ Msg), (Op.performAll ops c.flush.2).sent = c.sent ++ [x]
  | [], _, _, _, _, _, ⟨_, hn⟩ => by cases hn
  | a :: answers, c, s, hs, ho, hw, ⟨n, hn⟩ => by
    rcases flush_single hs ho hw with ⟨_, -, hsent⟩ | ⟨hne, hflush⟩
    · exact ⟨[], hsent⟩
    · let c' : Connection κ := { c with socket := some { s with writes := answers } }
      have hrest : .took (n + 1) ∈ answers := (List.mem_cons.mp hn).resolve_left fun h => hne n h.symm
      have hsent : c'.sent = c.sent := by simp [c', Connection.sent, hs]
      obtain ⟨ops, hops⟩ := exists_flushes answers c' _ rfl ho rfl ⟨n, hrest⟩
      rw [hsent] at hops
      rcases hflush with h | h
      · exact ⟨.flush :: ops, by rw [h]; exact hops⟩
      · exact ⟨ops, by rw [h]; exact hops⟩

/-- A callback can get any byte out, if the socket takes anything at all. -/
theorem exists_ops (x : UInt8) : ∀ (answers : List WriteAnswer) (c : Connection κ) (s : Socket),
    c.socket = some s → c.outBuffer = none → s.writes = answers → (∃ n, .took (n + 1) ∈ answers) →
      ∃ ops : List (Op κ Msg), (Op.performAll ops c).sent = c.sent ++ [x]
  | [], _, _, _, _, _, ⟨_, hn⟩ => by cases hn
  | a :: answers, c, s, hs, ho, hw, ⟨n, hn⟩ => by
    have hq : c.queued = [] := by simp [queued, ho]
    have htail : s.writes.tail = answers := by rw [hw]; rfl
    have hhead : s.write [x] = s.answerWrite a [x] := by simp [Socket.write, hw]
    have hrest : (∀ n, a ≠ .took (n + 1)) → ∃ n, .took (n + 1) ∈ answers := fun hne =>
      ⟨n, (List.mem_cons.mp hn).resolve_left fun h => hne n h.symm⟩
    -- either the byte is out, or it is queued, or the write failed
    have hqueue : (∀ n, a ≠ .took (n + 1)) → (c.write [x]).2 =
        ({ c with socket := some { s with writes := answers }, outBuffer := some [[x]] } : Connection κ) →
        ∃ ops : List (Op κ Msg), (Op.performAll ops c).sent = c.sent ++ [x] := by
      intro hne hc
      obtain ⟨ops, hops⟩ : ∃ ops : List (Op κ Msg), (Op.performAll ops (c.write [x]).2.flush.2).sent = _ :=
        exists_flushes answers (c.write [x]).2 _ (by rw [hc]) (by rw [hc]) rfl (hrest hne)
      refine ⟨.write [x] :: .flush :: ops, hops.trans ?_⟩
      rw [hc]
      simp [Connection.sent, hs]
    cases a with
    | took m =>
      cases m with
      | zero =>
        refine hqueue (by simp) ?_
        simp [Connection.write, writeOrQueue, hs, hhead, Socket.answerWrite, enqueue, htail, queued, ho]
      | succ m =>
        refine ⟨[.write [x]], ?_⟩
        show (c.write [x]).2.sent = _
        simp [Connection.write, writeOrQueue, hq, hs, hhead, Socket.answerWrite, Connection.sent]
    | wouldBlock =>
      refine hqueue (by simp) ?_
      simp [Connection.write, writeOrQueue, hs, hhead, Socket.answerWrite, enqueue, htail, IoError.wouldBlock,
        IoError.isTransient, queued, ho]
    | interrupted =>
      refine hqueue (by simp) ?_
      simp [Connection.write, writeOrQueue, hs, hhead, Socket.answerWrite, enqueue, htail, IoError.interrupted,
        IoError.isTransient, queued, ho]
    | fatal code =>
      have hc : (c.write [x]).2 = { c with socket := some { s with writes := answers } } := by
        simp [Connection.write, writeOrQueue, hq, hs, hhead, Socket.answerWrite, htail, IoError.fatal,
          IoError.isTransient]
      obtain ⟨ops, hops⟩ := exists_ops x answers (c.write [x]).2 _ (by rw [hc]) (by rw [hc]; exact ho) rfl
        (hrest (by simp))
      refine ⟨.write [x] :: ops, hops.trans ?_⟩
      rw [hc]
      simp [Connection.sent, hs]

/-- **A close that drops the queue** keeps the output intact if and only if nothing is dropped, or nothing more goes
out. -/
theorem dropping_intact_iff (hs : c.socket = some s) : (∀ ops : List (Op κ Msg), Intact false ops c) ↔
    c.queued.flatten = [] ∨ ∀ a ∈ c.writes, ∀ n, a ≠ .took (n + 1) := by
  have hsent : (EventLoop.lastOutput false c).sent = c.sent := rfl
  have hout : (EventLoop.lastOutput false c).outStream = c.sent := List.append_nil _
  constructor
  · intro h
    by_contra hnot
    rw [not_or] at hnot
    obtain ⟨hq, hw⟩ := hnot
    obtain ⟨y, rest, hy⟩ := List.exists_cons_of_ne_nil hq
    -- a byte that differs from the first one dropped
    obtain ⟨x, hx⟩ : ∃ x : UInt8, x ≠ y := ⟨y + 1, by simp⟩
    have htook : ∃ n, .took (n + 1) ∈ s.writes := by
      push Not at hw
      obtain ⟨a, ha, n, rfl⟩ := hw
      exact ⟨n, by simpa [writes, hs] using ha⟩
    obtain ⟨ops, hops⟩ : ∃ ops : List (Op κ Msg), (Op.performAll ops (EventLoop.lastOutput false c)).sent = _ :=
      exists_ops x s.writes (EventLoop.lastOutput false c) s hs rfl rfl htook
    have hpre := (h ops).isPrefix
    rw [closeWith, hops, hsent, Connection.outStream, hy, List.append_assoc, List.cons_append,
      List.prefix_append_right_inj, List.cons_prefix_cons] at hpre
    exact hx hpre.1
  · rintro (hq | hw) ops
    · refine ⟨prefix_closeWith ?_ ops, fun h => by cases h⟩
      rw [hout, Connection.outStream, hq, List.append_nil]
    · refine ⟨?_, fun h => by cases h⟩
      have hst : (c.closeWith false ops).sent = c.sent :=
        (performAll_later ops (EventLoop.lastOutput false c)).stingy hw
      rw [hst]
      exact (prefix_outStream c).trans (List.prefix_append _ _)

end Connection

/-! ## Closing in a loop -/

namespace EventLoop

open Programs

variable [Codec κ Msg] [EventHandler η κ Msg] {el : EventLoop η κ} {key : Nat} {i : Incarnation κ}

/-- The connection `on_close` leaves. -/
theorem closing_conn (el : EventLoop η κ) (i : Incarnation κ) (graceful : Bool) : (el.closing i graceful).1.conn =
    i.conn.closeWith graceful (EventHandler.onClose el.handler (lastOutput graceful i.conn)).1.ops :=
  Op.applyAll_conn _ _ _

/-- `close_connection` calls `on_close` and sends nothing afterwards, however it ends. -/
theorem closeConnection_trace (hi : el.connections.get key = some i) (graceful : Bool) :
    ∃ t, (final (closeConnection key graceful) el).trace = el.trace ++ el.closeObs i graceful :: t := by
  rcases closeConnection_cases hi graceful with ⟨t, h, rfl | rfl⟩ | ⟨e, h, -⟩
  · exact ⟨[.drops i.id], by rw [final_of_ok h]; exact gone_trace el key i graceful⟩
  · exact ⟨[.drops i.id], by rw [final_of_ok h]; exact gone_trace el key i graceful⟩
  · exact ⟨[], by rw [final_of_error h]; rfl⟩

end EventLoop

namespace Connection

open Programs

variable {c : Connection κ} {s : Socket}

/-- In whatever loop the connection is closed, and whatever the handler's `on_close` does: the output is intact when
`close_connection` is done. -/
def ClosesIntact (Msg : Type) [Codec κ Msg] (graceful : Bool) (c : Connection κ) : Prop :=
  ∀ (η : Type) [EventHandler η κ Msg] (el : EventLoop η κ) (key : Nat) (i : Incarnation κ),
    el.connections.get key = some i → i.conn = c →
      (∃ before after action t,
        (final (EventLoop.closeConnection key graceful) el).trace = el.trace ++ .closes before after action :: t ∧
          after.conn = c.closeWith graceful (EventHandler.onClose el.handler (EventLoop.lastOutput graceful c)).1.ops) ∧
        Intact graceful (EventHandler.onClose el.handler (EventLoop.lastOutput graceful c)).1.ops c

/-- A handler whose `on_close` does what it is given. -/
structure Scripted (κ Msg : Type) where
  ops : List (Op κ Msg)

instance : EventHandler (Scripted κ Msg) κ Msg where
  onOpen h _ := (⟨[], .none⟩, h)
  onTraffic h _ := (⟨[], .none⟩, h)
  onClose h _ := (⟨h.ops, .none⟩, h)
  onTick h _ := (⟨[], 0, .none⟩, h)

/-- A loop with such a handler and one connection. -/
def scriptedLoop (ops : List (Op κ Msg)) (c : Connection κ) : EventLoop (Scripted κ Msg) κ :=
  { (.new 0 ⟨64, 8, false⟩ ⟨ops⟩ [] [] (fun _ => 0) 0 : EventLoop (Scripted κ Msg) κ) with
    connections := Slab.empty.insert ⟨0, [], [], c⟩ }

theorem scriptedLoop_get (ops : List (Op κ Msg)) (c : Connection κ) :
    (scriptedLoop ops c).connections.get 0 = some ⟨0, [], [], c⟩ := Slab.get_insert_self

/-- **Closing keeps the output intact**, whatever the handler does, if and only if it is unbroken: after a flush, the
socket takes all that is queued or reports a fatal error; after a drop, nothing was queued or the socket takes nothing
more. -/
theorem closing_intact_iff [Codec κ Msg] (graceful : Bool) (hs : c.socket = some s) :
    ClosesIntact Msg graceful c ↔ Unbroken graceful c := by
  have hiff : (∀ ops : List (Op κ Msg), Intact graceful ops c) ↔ Unbroken graceful c := by
    cases graceful with
    | true => exact graceful_intact_iff hs
    | false => exact dropping_intact_iff hs
  rw [← hiff]
  constructor
  · intro h ops
    exact (h _ (scriptedLoop ops c) 0 _ (scriptedLoop_get ops c) rfl).2
  · rintro h η _ el key i hi rfl
    obtain ⟨t, ht⟩ := EventLoop.closeConnection_trace hi graceful
    exact ⟨⟨_, _, _, t, ht, EventLoop.closing_conn el i graceful⟩, h _⟩

/-- A connection on whose socket one more byte can be written, with one byte queued. -/
def oneQueued (writes : List WriteAnswer) : Connection RawCodec :=
  { (.new (.new 0 4 0 0) ⟨4, writes, [], [], [], some .readable⟩ (.tcp "a") (.tcp "b") : Connection RawCodec) with
    outBuffer := some [[97]] }

theorem closing_intact_iff_taken : (ClosesIntact RawMsg true (oneQueued [.took 1]) ↔
    Unbroken true (oneQueued [.took 1])) ∧ Unbroken true (oneQueued [.took 1]) :=
  ⟨closing_intact_iff true rfl, Or.inr ⟨by decide, rfl⟩⟩

/-- A close that drops the queued byte lets `on_close` write behind it; a graceful close leaves the byte in the queue
when the socket would block. -/
theorem closing_not_intact : ¬ClosesIntact RawMsg false (oneQueued [.took 1]) ∧
    ¬ClosesIntact RawMsg true (oneQueued []) := by
  constructor
  · intro h
    have hpre := (h _ (scriptedLoop [.write [98]] (oneQueued [.took 1])) 0 _ (scriptedLoop_get _ _) rfl).2.isPrefix
    exact absurd hpre (by decide)
  · intro h
    have hall := (h _ (scriptedLoop [] (oneQueued [])) 0 _ (scriptedLoop_get _ _) rfl).2.complete rfl
      fun code (hc : .fatal code ∈ ([] : List WriteAnswer)) => absurd hc List.not_mem_nil
    exact absurd hall (by decide)

end Connection
end Rnet
