import Rnet.EventLoop.Connections
import Rnet.EventLoop.Input
import Rnet.EventLoop.Transients

/-!
# What a server does with its input

The handlers of the examples leave the work to `on_traffic`: it takes a part of the input, and what it makes of it is a
function of the connection it is called on. It hands closures to the worker pool, or it writes answers. What all the
calls on one connection have made can be read off the records (`made`).

`Reacts makes Q` says that a call of `on_traffic` keeps a relation `Q` between the bytes received, those still unread,
those of the last read, the codec and what was made. Then `Q` holds of every live connection in every run
(`run_reacts`), whatever is written to it. `Answers` says moreover that what is made is written to the connection, and
nothing else is. Then it is what the connection has sent and queued since it was opened, unless its socket fails
(`run_answers`).
-/

namespace Rnet

open Programs Relation

variable {η κ Msg τ : Type}

/-! ## What was made -/

section

variable {makes : Connection κ → List τ} {trace obs : List (Obs κ)} {id : Nat}

/-- What a call of `on_traffic` makes, if it makes `makes c` when it is called on `c`. -/
def Obs.made (makes : Connection κ → List τ) (id : Nat) : Obs κ → List τ
  | .traffic before _ _ => if before.id = id then makes before.conn else []
  | .opens _ _ _ | .merged _ | .closes _ _ _ | .ticks _ _ _ | .drops _ => []

/-- What the calls of `on_traffic` on one connection have made. -/
def made (makes : Connection κ → List τ) (trace : List (Obs κ)) (id : Nat) : List τ := trace.flatMap (Obs.made makes id)

theorem made_append : made makes (trace ++ obs) id = made makes trace id ++ made makes obs id := List.flatMap_append

theorem made_elsewhere (h : ∀ o ∈ obs, o.Elsewhere id) : made makes obs id = [] := by
  refine List.flatMap_eq_nil_iff.mpr fun o ho => ?_
  have ho := h o ho
  cases o with
  | traffic before after action => exact if_neg ho
  | _ => rfl

/-- A call on the connection. -/
theorem made_traffic {before after j : Incarnation κ} {action : Action} (hid : before.id = id) :
    made makes (trace ++ [.traffic before after action, .merged j]) id = made makes trace id ++ makes before.conn := by
  rw [made_append]
  simp [made, Obs.made, hid]

/-- The bytes of the last read of a connection. -/
def lastRead (trace : List (Obs κ)) (id : Nat) : Bytes := (made (fun c => [c.ioBuffer.getD []]) trace id).getLastD []

theorem lastRead_elsewhere (h : ∀ o ∈ obs, o.Elsewhere id) : lastRead (trace ++ obs) id = lastRead trace id := by
  rw [lastRead, made_append, made_elsewhere h, List.append_nil, lastRead]

theorem lastRead_traffic {before after j : Incarnation κ} {action : Action} {bs : Bytes} (hid : before.id = id)
    (hio : before.conn.ioBuffer = some bs) :
    lastRead (trace ++ [.traffic before after action, .merged j]) id = bs := by
  rw [lastRead, made_traffic hid, hio, List.getLastD_concat]
  rfl

end

namespace Connection

variable {c c' : Connection κ}

/-! ## The codec -/

theorem carryOver_codec (c : Connection κ) : c.carryOver.codec = c.codec := by
  unfold carryOver
  cases c.ioBuffer with
  | none => rfl
  | some io =>
    dsimp only
    split
    · rfl
    · cases c.inBuffer <;> rfl

/-! ## Sockets that fail no write -/

/-- The connection is open, and its socket fails no write. -/
def Reliable (c : Connection κ) : Prop := ∃ s, c.socket = some s ∧ ∀ code, .fatal code ∉ s.writes

/-- A write to such a connection is accepted. -/
theorem Reliable.writeOrQueue (h : c.Reliable) {call : Socket → IoResult Nat × Socket} {bufs : List Bytes}
    {rest : Nat → List Bytes} (hcall : ∀ s, call s = s.write bufs.flatten) :
    ∃ n, (c.writeOrQueue call bufs rest).1 = .ok n := by
  obtain ⟨s, hs, hno⟩ := h
  unfold Connection.writeOrQueue
  split
  · exact ⟨_, rfl⟩
  · simp only [hs, hcall, Socket.write]
    cases hw : s.writes with
    | nil => exact ⟨_, rfl⟩
    | cons a rest =>
      cases a with
      | took n => exact ⟨_, rfl⟩
      | wouldBlock => exact ⟨_, rfl⟩
      | interrupted => exact ⟨_, rfl⟩
      | fatal code => exact absurd (hw ▸ List.mem_cons_self) (hno code)

/-- What the socket has answered is behind it. -/
theorem Reliable.later (h : c.Reliable) (hl : c.Later c') : c'.Reliable := by
  obtain ⟨s, hs, hno⟩ := h
  rcases hl with hl | ⟨s', t, hs', ht, hl⟩
  · exact ⟨s, hl.trans hs, hno⟩
  · obtain rfl : s = s' := Option.some.inj (hs.symm.trans hs')
    exact ⟨t, ht, fun code hmem => hno code (hl.writes.subset hmem)⟩

theorem processWrite_later (maxBatch : Nat) (c : Connection κ) : Later c (c.processWrite maxBatch).2 := by
  by_cases hq : c.queued = []
  · rw [processWrite_nil hq]
    exact .refl c
  · cases hs : c.socket with
    | none => simpa [processWrite, hs, hq] using Later.refl c
    | some s =>
      rw [processWrite_some hs hq]
      exact Or.inr ⟨s, _, hs, rfl, drainLoop_later _ _ _ _ _ rfl⟩

/-- The answers were written to the connection, unless a write failed. -/
def Writes (c : Connection κ) (answers : List Bytes) (c' : Connection κ) : Prop :=
  ∃ out, c'.outStream = c.outStream ++ out ∧ out.Sublist answers.flatten ∧ (c.Reliable → out = answers.flatten)

theorem Writes.none (h : c'.outStream = c.outStream) : c.Writes [] c' :=
  ⟨[], by rw [h, List.append_nil], List.Sublist.refl _, fun _ => rfl⟩

/-- One write. -/
theorem Writes.of_accepted {α : Type} {res : IoResult α} {buf : Bytes}
    (hout : c'.outStream = c.outStream ++ accepted res buf) (hok : c.Reliable → ∃ a, res = .ok a) :
    c.Writes [buf] c' := by
  refine ⟨accepted res buf, hout, ?_, fun hc => ?_⟩
  · cases res with
    | ok a => simp
    | error e => simp
  · obtain ⟨a, rfl⟩ := hok hc
    simp

theorem Writes.congr {c'' : Connection κ} {answers : List Bytes} (h : c.Writes answers c')
    (hout : c''.outStream = c'.outStream) : c.Writes answers c'' := by
  obtain ⟨out, ho, hsub, hrel⟩ := h
  exact ⟨out, hout.trans ho, hsub, hrel⟩

theorem Writes.trans {c'' : Connection κ} {answers answers' : List Bytes} (h : c.Writes answers c')
    (hl : c.Reliable → c'.Reliable) (h' : c'.Writes answers' c'') : c.Writes (answers ++ answers') c'' := by
  obtain ⟨out, ho, hsub, hrel⟩ := h
  obtain ⟨out', ho', hsub', hrel'⟩ := h'
  refine ⟨out ++ out', by rw [ho', ho, List.append_assoc], ?_, fun hc => ?_⟩
  · rw [List.flatten_append]
    exact hsub.append hsub'
  · rw [List.flatten_append, hrel hc, hrel' (hl hc)]

end Connection

open Connection

namespace Incarnation

variable {i j : Incarnation κ}

theorem received_congr (h : j.conn.socket.map Socket.inputSide = i.conn.socket.map Socket.inputSide) :
    j.received = i.received := congrArg (·.getD []) (received_of_inputSide h)

/-- An answer that brings nothing. -/
theorem received_readsNothing {s : Socket} {a : ReadAnswer} {n : Nat} (hs : i.conn.socket = some s)
    (ha : ∀ bs, (s.answerRead a n).1 = .ok bs → bs = []) :
    ({ i with conn := { i.conn with socket := some (s.answerRead a n).2 } } : Incarnation κ).received = i.received := by
  rw [received_of_socket hs]
  show (s.answerRead a n).2.received = s.received
  cases a with
  | data bs =>
    have hnil : bs.take n = [] := ha _ rfl
    simp [Socket.answerRead, hnil]
  | wouldBlock | interrupted | fatal => rfl

end Incarnation

/-! ## Reacting -/

/-- A relation between the bytes received, those unread, those of the last read, the codec and what was made. -/
structure Reacts (η : Type) {κ Msg τ : Type} [Codec κ Msg] [EventHandler η κ Msg] (makes : Connection κ → List τ)
    (Q : Bytes → Bytes → Bytes → Option κ → List τ → Prop) : Prop where
  onOpen : ∀ (h : η) (c : Connection κ), c.unread = [] →
    Q [] (Op.performAll (EventHandler.onOpen h c).1.ops c).unread []
      (Op.performAll (EventHandler.onOpen h c).1.ops c).codec []
  onTraffic : ∀ (h : η) (c : Connection κ) (bs total rest last : Bytes) (ts : List τ), c.ioBuffer = some bs → bs ≠ [] →
    c.unread = rest ++ bs → Q total rest last c.codec ts →
      Q (total ++ bs) (Op.performAll (EventHandler.onTraffic h c).1.ops c).unread bs
        (Op.performAll (EventHandler.onTraffic h c).1.ops c).codec (ts ++ makes c)
  onTick : ∀ (h : η) (conns : List (Nat × Connection κ)), ∀ op ∈ (EventHandler.onTick h conns).1.ops,
    ∃ bs, op.2 = .writeBytes bs

/-- `Q` holds of the connection. -/
def Reacted (makes : Connection κ → List τ) (Q : Bytes → Bytes → Bytes → Option κ → List τ → Prop)
    (trace : List (Obs κ)) (i : Incarnation κ) : Prop :=
  ∃ delivered, i.received = i.before ++ delivered ∧
    Q delivered i.conn.unread (lastRead trace i.id) i.conn.codec (made makes trace i.id)

section

variable [Codec κ Msg] [EventHandler η κ Msg] {makes : Connection κ → List τ}
  {Q : Bytes → Bytes → Bytes → Option κ → List τ → Prop}

theorem Reacts.upholds (h : Reacts η makes Q) (W : Gfd → Bytes → Prop) : Upholds η W (Reacted makes Q) where
  others := by
    rintro trace i obs hobs ⟨delivered, hd, hq⟩
    refine ⟨delivered, hd, ?_⟩
    rw [lastRead_elsewhere hobs, made_append, made_elsewhere hobs, List.append_nil]
    exact hq
  opens := by
    intro trace handler hd id pooled gfd socket localAddr peerAddr before after htrace hbefore _ hafter
    obtain ⟨hid, hsaved, hstable⟩ := Op.applyAll_stable (EventHandler.onOpen handler before.conn).1.ops before hd
    rw [← hafter] at hid hsaved hstable
    have hreceived : after.received = after.before := by
      rw [Incarnation.received_congr hstable.socket, hsaved, hbefore]
      exact Incarnation.received_of_socket (opened_socket _ _ _ _ _)
    have hunread : before.conn.unread = [] := by
      rw [hbefore]
      exact opened_unread _ _ _ _ _
    have hnone : ∀ {τ : Type} (makes : Connection κ → List τ),
        made makes (trace ++ [.opens before after .none]) after.id = [] := by
      intro τ makes
      rw [hid, hbefore, made_append, made_elsewhere htrace]
      rfl
    refine ⟨[], by rw [hreceived, List.append_nil], ?_⟩
    rw [lastRead, hnone, hnone, hafter, Op.applyAll_conn]
    exact h.onOpen handler before.conn hunread
  happens := by
    rintro trace i obs j hj ⟨delivered, hd, hq⟩
    have hkeep : ∀ {l : Incarnation κ}, l.id = i.id → l.before = i.before → l.received = i.received →
        l.conn.unread = i.conn.unread → l.conn.codec = i.conn.codec → Reacted makes Q (trace ++ []) l := by
      intro l hid hbefore hreceived hunread hcodec
      refine ⟨delivered, by rw [hreceived, hbefore, hd], ?_⟩
      rw [hid, hunread, hcodec, List.append_nil]
      exact hq
    cases hj with
    | registers s interest hs => exact hkeep rfl rfl (by simp [Incarnation.received, hs]) rfl rfl
    | writes maxBatch =>
      have hsame := i.conn.processWrite_sameInput maxBatch
      exact hkeep rfl rfl (Incarnation.received_congr hsame.socket) hsame.unread (processWrite_codec _ _)
    | handed data n _ _ =>
      have hsame := i.conn.write_sameInput data
      exact hkeep rfl rfl (Incarnation.received_congr hsame.socket) hsame.unread (writeOrQueue_codec _)
    | readsNothing s a n hs ha => exact hkeep rfl rfl (Incarnation.received_readsNothing hs ha) rfl rfl
    | traffic handler hd' s a n s' bs before after hs ha hne hset hbefore hact hafter =>
      have hpass := Incarnation.passes_receive hs hset ha
      rw [← hbefore] at hpass
      obtain ⟨hid, hsaved, hstable⟩ := Op.applyAll_stable (EventHandler.onTraffic handler before.conn).1.ops before hd'
      rw [← hafter] at hid hsaved hstable
      have hconn : after.conn = Op.performAll (EventHandler.onTraffic handler before.conn).1.ops before.conn := by
        rw [hafter, Op.applyAll_conn]
      have hcodec : before.conn.codec = i.conn.codec := by rw [hbefore]; rfl
      have hcarry := after.conn.carryOver_carries
      refine ⟨delivered ++ bs, ?_, ?_⟩
      · have hreceived : after.received = i.received ++ bs :=
          (Incarnation.received_congr hstable.socket).trans hpass.received
        have hsaved : after.before = i.before := by rw [hsaved, hbefore]
        show (after.conn.carryOver.socket.map Socket.received).getD [] = after.before ++ _
        rw [hcarry.socket, hsaved, ← List.append_assoc, ← hd]
        exact hreceived
      · have hio : before.conn.ioBuffer = some bs := by rw [hbefore]; rfl
        show Q _ after.conn.carryOver.unread (lastRead _ after.id) after.conn.carryOver.codec (made makes _ after.id)
        rw [hcarry.unread, carryOver_codec, hid, made_traffic rfl, lastRead_traffic rfl hio, hpass.id, hconn]
        exact h.onTraffic handler before.conn bs _ _ _ _ hio hne hpass.unread (hcodec ▸ hq)
    | ticks handler conns key op hd' hop =>
      obtain ⟨bs, hbs⟩ := h.onTick handler conns _ hop
      obtain rfl : op = .writeBytes bs := hbs
      have hsame := i.conn.writeBytes_sameInput bs
      exact hkeep rfl rfl (Incarnation.received_congr hsame.socket) hsame.unread (writeOrQueue_codec _)

end

/-! ## Answering -/

/-- What `on_traffic` makes it writes to the connection, and other callbacks and threads write nothing to it. -/
structure Answers (η : Type) {κ Msg : Type} [Codec κ Msg] [EventHandler η κ Msg] (makes : Connection κ → List Bytes)
    (Q : Bytes → Bytes → Bytes → Option κ → List Bytes → Prop) : Prop where
  reacts : Reacts η makes Q
  onTraffic : ∀ (h : η) (c : Connection κ) (bs total rest last : Bytes) (ts : List Bytes), c.ioBuffer = some bs →
    bs ≠ [] → c.unread = rest ++ bs → Q total rest last c.codec ts →
      c.Writes (makes c) (Op.performAll (EventHandler.onTraffic h c).1.ops c)
  onTick : ∀ (h : η) (conns : List (Nat × Connection κ)), (EventHandler.onTick h conns).1.ops = []
  sends : SendsOnly η fun _ _ => False

/-- What was made since the connection was opened was written to it. -/
def Answered (makes : Connection κ → List Bytes) (trace : List (Obs κ)) (i : Incarnation κ) : Prop :=
  ∃ before start, .opens before start .none ∈ trace ∧ start.id = i.id ∧
    start.conn.Writes (made makes trace i.id) i.conn ∧ (start.conn.Reliable → i.conn.Reliable)

section

variable [Codec κ Msg] [EventHandler η κ Msg] {makes : Connection κ → List Bytes}
  {Q : Bytes → Bytes → Bytes → Option κ → List Bytes → Prop}

theorem Answers.upholds (h : Answers η makes Q) :
    Upholds η (fun _ _ => False) fun trace i => Reacted makes Q trace i ∧ Answered makes trace i where
  others := by
    rintro trace i obs hobs ⟨hreacted, before, start, hmem, hid, hwrites, hrel⟩
    have hreacted := (h.reacts.upholds fun _ _ => False).others hobs hreacted
    refine ⟨hreacted, before, start, List.mem_append_left _ hmem, hid, ?_, hrel⟩
    rw [made_append, made_elsewhere hobs, List.append_nil]
    exact hwrites
  opens := by
    intro trace handler hd id pooled gfd socket localAddr peerAddr before after htrace hbefore hact hafter
    have hreacted := (h.reacts.upholds fun _ _ => False).opens trace handler hd id pooled gfd socket localAddr peerAddr
      before after htrace hbefore hact hafter
    refine ⟨hreacted, before, after, List.mem_append_right _ (List.mem_singleton_self _), rfl, ?_, fun hs => hs⟩
    have hid : after.id = id := by rw [hafter, (Op.applyAll_stable _ before hd).1, hbefore]
    rw [hid, made_append, made_elsewhere htrace]
    exact .none rfl
  happens := by
    rintro trace i obs j hj ⟨hreacted, before₀, start, hmem, hid, hwrites, hrel⟩
    refine ⟨(h.reacts.upholds _).happens hj hreacted, before₀, start, List.mem_append_left _ hmem, ?_⟩
    have hkeep : ∀ {l : Incarnation κ}, l.id = i.id → l.conn.outStream = i.conn.outStream → i.conn.Later l.conn →
        start.id = l.id ∧ start.conn.Writes (made makes (trace ++ []) l.id) l.conn ∧
          (start.conn.Reliable → l.conn.Reliable) := by
      intro l hl hout hlater
      rw [hl, List.append_nil]
      exact ⟨hid, hwrites.congr hout, fun hs => (hrel hs).later hlater⟩
    cases hj with
    | registers s interest hs =>
      refine hkeep rfl (by simp [outStream, sent, queued, hs]) ?_
      exact Or.inr ⟨s, _, hs, rfl, List.suffix_refl _, List.prefix_refl _, fun _ => rfl⟩
    | writes maxBatch =>
      exact hkeep rfl (i.conn.processWrite_stream maxBatch) (i.conn.processWrite_later maxBatch)
    | handed data n hW _ => exact hW.elim
    | readsNothing s a n hs _ =>
      refine hkeep rfl ?_ (EventLoop.later_answerRead i.conn hs rfl)
      cases a <;> simp [outStream, sent, queued, hs, Socket.answerRead]
    | traffic handler hd s a n s' bs before after hs ha hne hset hbefore hact hafter =>
      obtain ⟨delivered, -, hq⟩ := hreacted
      have hpass := Incarnation.passes_receive hs hset ha
      rw [← hbefore] at hpass
      have hlater : i.conn.Later before.conn := by
        rw [hbefore]
        exact EventLoop.later_answerRead i.conn hs ha
      have hcodec : before.conn.codec = i.conn.codec := by rw [hbefore]; rfl
      have hafterId : after.id = before.id := by rw [hafter, (Op.applyAll_stable _ before hd).1]
      have hconn : after.conn = Op.performAll (EventHandler.onTraffic handler before.conn).1.ops before.conn := by
        rw [hafter, Op.applyAll_conn]
      have hnew : before.conn.Writes (makes before.conn) after.conn := by
        rw [hconn]
        exact h.onTraffic handler before.conn bs _ _ _ _ (by rw [hbefore]; rfl) hne hpass.unread (hcodec ▸ hq)
      have hrest : before.conn.Later after.conn := by
        rw [hconn]
        exact performAll_later _ _
      have hcarry := after.conn.carryOver_carries
      have hout : after.conn.carryOver.outStream = after.conn.outStream := by
        simp [outStream, sent, queued, hcarry.socket, hcarry.outBuffer]
      have hsame : before.conn.outStream = i.conn.outStream := by rw [hpass.output, List.append_nil]
      have hreliable : start.conn.Reliable → before.conn.Reliable := fun hs => (hrel hs).later hlater
      refine ⟨by rw [hid, ← hpass.id, ← hafterId], ?_, fun hs => ?_⟩
      · show start.conn.Writes (made makes _ after.id) after.conn.carryOver
        rw [hafterId, made_traffic rfl, hpass.id]
        exact ((hwrites.congr hsame).trans hreliable hnew).congr hout
      · exact ((hreliable hs).later hrest).later (Or.inl hcarry.socket)
    | ticks handler conns key op hd hop =>
      rw [h.onTick] at hop
      cases hop

end

/-! ## Runs -/

namespace Machine

open EventLoop Runs

variable [Codec κ Msg] [EventHandler η κ Msg] {el : EventLoop η κ} {ls : List (Label η)} {m : Machine η κ} {k : Nat}
  {i : Incarnation κ}

/-- **What was made of the input of a live connection** is as `Q` says, in every run as long as the loop runs. -/
theorem run_reacts {makes : Connection κ → List τ} {Q : Bytes → Bytes → Bytes → Option κ → List τ → Prop}
    (h : Reacts η makes Q) (hfresh : el.Fresh) (hrun : run step (initial el) ls = some m) (hlive : m.phase.Live)
    (hi : m.el.connections.get k = some i) :
    Reacted makes Q m.el.trace i := by
  have hany : ∀ cmd : Command, cmd.Brings fun _ _ => True := fun cmd => by cases cmd <;> trivial
  exact run_connections (h.upholds fun _ _ => True) (fun gfd cmd _ => hany cmd) hfresh (fun cmd _ => hany cmd) hrun
    hlive k i hi

/-- **It is what the connection sends**, without `AsyncWrite`s from other threads. -/
theorem run_answers {makes : Connection κ → List Bytes} {Q : Bytes → Bytes → Bytes → Option κ → List Bytes → Prop}
    (h : Answers η makes Q) (hfresh : el.Fresh) (hls : ∀ gfd data, .trigger (.asyncWrite gfd data) ∉ ls)
    (hrun : run step (initial el) ls = some m) (hlive : m.phase.Live) (hi : m.el.connections.get k = some i) :
    Reacted makes Q m.el.trace i ∧ Answered makes m.el.trace i := by
  have hannounced : Announced (η := η) (fun _ _ => False) ls := by
    intro cmd hcmd
    cases cmd with
    | asyncWrite gfd data => exact hls gfd data hcmd
    | _ => trivial
  exact run_connections h.upholds h.sends hfresh hannounced hrun hlive k i hi

end Machine
end Rnet
