import Rnet.EventLoop.Machine
import Rnet.Connection.Inbound

/-!
# What the methods of the loop can do

Every method of the loop is a sequence of a few effects on connections in the slab, each at one key (`Effect`), or on
the connection it is about to register (`Registers`). One lemma per method says so (`reregister_leads` to
`asyncWrite_leads`): a method that goes well has touched the connection at its own key only; a shutdown touches all of
them, and always ends `run_loop`. So an invariant is checked once for each effect and holds for all methods.
-/

namespace Rnet

open Programs Relation

/-! ## The effects -/

namespace Connection

variable {κ : Type}

/-- What the loop itself does with the output of a connection. -/
inductive Served (c : Connection κ) : Connection κ → Prop
  | interest (s : Socket) (interest : Interest) (hs : c.socket = some s) :
      Served c { c with socket := some { s with interest := some interest } }
  | processWrite (maxBatch : Nat) : Served c (c.processWrite maxBatch).2
  | write (data : Bytes) : Served c (c.write data).2

end Connection

namespace EventLoop

variable {η κ Msg : Type}

/-- The buffer of the loop is no longer than the option says. -/
def Fits (el : EventLoop η κ) : Prop := el.ioBuffer.len ≤ el.options.readBufferCap

/-- Only what no connection and no queue depends on differs. -/
structure Neutral (el el' : EventLoop η κ) : Prop where
  loopId : el'.loopId = el.loopId
  options : el'.options = el.options
  connections : el'.connections = el.connections
  connectionPool : el'.connectionPool = el.connectionPool
  minted : el'.minted = el.minted
  trace : el'.trace = el.trace
  results : el'.poll.results <:+ el.poll.results
  registered : el.poll.registered <+: el'.poll.registered
  idx : el'.handle.idx = el.handle.idx
  connCount : el'.handle.connCount = el.handle.connCount
  urgent : el'.handle.urgent = el.handle.urgent
  common : el'.handle.common = el.handle.common
  wakes : el'.handle.wakes <:+ el.handle.wakes
  fits : el.Fits → el'.Fits

variable [Codec κ Msg] [EventHandler η κ Msg]

/-- The connection got the bytes of a read, and `on_traffic` was called. -/
def hears (el : EventLoop η κ) (key : Nat) (i : Incarnation κ) (s : Socket) (bs : Bytes) :
    Incarnation κ × EventLoop η κ :=
  let i := { i with conn := { i.conn with socket := some s }.receive bs }
  (el.setIncarnation key i).callback i (EventHandler.onTraffic el.handler i.conn) .traffic

/-- The action of that `on_traffic`. -/
def heard (el : EventLoop η κ) (i : Incarnation κ) (s : Socket) (bs : Bytes) : Action :=
  (EventHandler.onTraffic el.handler ({ i.conn with socket := some s }.receive bs)).1.action

/-- The last output went out, and `on_close` was called. -/
def closing (el : EventLoop η κ) (i : Incarnation κ) (graceful : Bool) : Incarnation κ × EventLoop η κ :=
  el.callback { i with conn := lastOutput graceful i.conn }
    (EventHandler.onClose el.handler (lastOutput graceful i.conn)) .closes

/-- A connection was made for a socket, and `on_open` was called. -/
def opening (el : EventLoop η κ) (socket : Socket) (localAddr peerAddr : NetworkAddress) :
    Incarnation κ × EventLoop η κ :=
  el.minting.callback (el.incarnation socket localAddr peerAddr)
    (EventHandler.onOpen el.handler (el.incarnation socket localAddr peerAddr).conn) .opens

/-- The action of that `on_open`. -/
def openAction (el : EventLoop η κ) (socket : Socket) (localAddr peerAddr : NetworkAddress) : Action :=
  (EventHandler.onOpen el.handler (el.incarnation socket localAddr peerAddr).conn).1.action

/-- One effect of a method on the connection at `key`. Without `serving`, the loop does nothing but read and hand the
input to the handler. -/
inductive Effect (serving : Prop) (key : Nat) (el : EventLoop η κ) : EventLoop η κ → Prop
  | neutral {el' : EventLoop η κ} (h : el.Neutral el') : Effect serving key el el'
  /-- the loop, not a callback, puts a command into a queue -/
  | push (priority : Prioity) (cmd : Command) (hcmd : cmd.addressee = none) :
      Effect serving key el (el.withHandle (el.handle.trigger priority ⟨cmd, none⟩).2)
  | serves (i : Incarnation κ) (c : Connection κ) (hi : el.connections.get key = some i) (hc : i.conn.Served c)
      (hserving : serving) : Effect serving key el (el.setIncarnation key { i with conn := c })
  /-- a read that fails, or finds the end of the stream -/
  | readsNothing (i : Incarnation κ) (s : Socket) (a : ReadAnswer) (n : Nat) (hi : el.connections.get key = some i)
      (hs : i.conn.socket = some s) (ha : ∀ bs, (s.answerRead a n).1 = .ok bs → bs = []) :
      Effect serving key el (el.setIncarnation key
        { i with conn := { i.conn with socket := some (s.answerRead a n).2 } })
  /-- a read, `on_traffic` with `Action::None`, and the carry-over -/
  | traffic (i : Incarnation κ) (s : Socket) (a : ReadAnswer) (n : Nat) (s' : Socket) (bs : Bytes)
      (hi : el.connections.get key = some i) (hs : i.conn.socket = some s) (ha : s.answerRead a n = (.ok bs, s'))
      (hne : bs ≠ []) (hset : i.conn.Settled) (hact : el.heard i s' bs = .none) :
      Effect serving key el ((((el.hears key i s' bs).2.setIncarnation key (el.hears key i s' bs).1).setIncarnation key
        { (el.hears key i s' bs).1 with conn := (el.hears key i s' bs).1.conn.carryOver }).record
          (.merged { (el.hears key i s' bs).1 with conn := (el.hears key i s' bs).1.conn.carryOver }))
  /-- a read and an `on_traffic` that ends the reading -/
  | lastTraffic (i : Incarnation κ) (s : Socket) (a : ReadAnswer) (n : Nat) (s' : Socket) (bs : Bytes)
      (hi : el.connections.get key = some i) (hs : i.conn.socket = some s) (ha : s.answerRead a n = (.ok bs, s'))
      (hne : bs ≠ []) (hset : i.conn.Settled) (hact : el.heard i s' bs ≠ .none) :
      Effect serving key el ((el.hears key i s' bs).2.setIncarnation key (el.hears key i s' bs).1)
  | closes (i : Incarnation κ) (graceful : Bool) (hi : el.connections.get key = some i) (hserving : serving) :
      Effect serving key el (((el.closing i graceful).2.setIncarnation key (el.closing i graceful).1).recycle key
        (el.closing i graceful).1)
  /-- `on_close` was called, but the poller would not let the socket go -/
  | failsToClose (i : Incarnation κ) (graceful : Bool) (e : IoError) (hi : el.connections.get key = some i)
      (he : el.poll.results.head? = some (.error e)) (hserving : serving) :
      Effect serving key el ((el.closing i graceful).2.setIncarnation key (el.closing i graceful).1)
  /-- one operation of a tick -/
  | ticks (op : Op κ Msg) (h : η) (connections : List (Nat × Connection κ))
      (hop : (key, op) ∈ (EventHandler.onTick h connections).1.ops) (hserving : serving) :
      Effect serving key el (el.tickOp (key, op))
  | recordsTick (before after : Slab (Incarnation κ)) (action : Action) (hserving : serving) :
      Effect serving key el (el.record (.ticks before after action))

/-- An effect somewhere. -/
def AnyEffect (el el' : EventLoop η κ) : Prop := ∃ key, Effect True key el el'

theorem Effect.serving {serving : Prop} {key : Nat} {el el' : EventLoop η κ} (h : Effect serving key el el') :
    Effect True key el el' := by
  cases h with
  | neutral h => exact .neutral h
  | push priority cmd hcmd => exact .push priority cmd hcmd
  | serves i c hi hc _ => exact .serves i c hi hc trivial
  | readsNothing i s a n hi hs ha => exact .readsNothing i s a n hi hs ha
  | traffic i s a n s' bs hi hs ha hne hset hact => exact .traffic i s a n s' bs hi hs ha hne hset hact
  | lastTraffic i s a n s' bs hi hs ha hne hset hact => exact .lastTraffic i s a n s' bs hi hs ha hne hset hact
  | closes i graceful hi _ => exact .closes i graceful hi trivial
  | failsToClose i graceful e hi he _ => exact .failsToClose i graceful e hi he trivial
  | ticks op h conns hop _ => exact .ticks op h conns hop trivial
  | recordsTick before after action _ => exact .recordsTick before after action trivial

theorem Effect.any {serving : Prop} {key : Nat} {el el' : EventLoop η κ} (h : Effect serving key el el') :
    AnyEffect el el' := ⟨key, h.serving⟩

/-- A sequence of effects at one key is a sequence of effects. -/
theorem effects_any {serving : Prop} {key : Nat} {el el' : EventLoop η κ}
    (h : ReflTransGen (Effect serving key) el el') : ReflTransGen AnyEffect el el' :=
  ReflTransGen.mono (fun _ _ => Effect.any) _ _ h

/-- What `register` does besides: the connection it makes is not in the slab while `on_open` runs. -/
inductive Registers (el : EventLoop η κ) : EventLoop η κ → Prop
  | admits (socket : Socket) (localAddr peerAddr : NetworkAddress)
      (hact : el.openAction socket localAddr peerAddr = .none) :
      Registers el ((el.opening socket localAddr peerAddr).2.enter (el.opening socket localAddr peerAddr).1)
  /-- `on_open` answered otherwise: the connection does not enter the slab -/
  | refuses (socket : Socket) (localAddr peerAddr : NetworkAddress)
      (hact : el.openAction socket localAddr peerAddr ≠ .none) :
      Registers el (el.opening socket localAddr peerAddr).2
  | dropsRefused (before after : Incarnation κ) (action : Action) (hobs : .opens before after action ∈ el.trace)
      (hact : action ≠ .none) : Registers el (el.record (.drops after.id))

/-! ## The parts that touch no connection -/

section Neutral

variable (el : EventLoop η κ)

omit [Codec κ Msg] [EventHandler η κ Msg]

theorem neutral_polled : el.Neutral el.polled :=
  ⟨rfl, rfl, rfl, rfl, rfl, rfl, List.tail_suffix _, List.prefix_refl _, rfl, rfl, rfl, rfl, List.suffix_refl _, id⟩

theorem neutral_registering (key : Nat) : el.Neutral (el.registering key) :=
  ⟨rfl, rfl, rfl, rfl, rfl, rfl, List.suffix_refl _, List.prefix_append _ _, rfl, rfl, rfl, rfl, List.suffix_refl _, id⟩

theorem neutral_ioBuffer {b : BytesMut} (hb : b.len ≤ max el.ioBuffer.len el.options.readBufferCap) :
    el.Neutral { el with ioBuffer := b } :=
  ⟨rfl, rfl, rfl, rfl, rfl, rfl, List.suffix_refl _, List.prefix_refl _, rfl, rfl, rfl, rfl, List.suffix_refl _,
    fun hfits => hb.trans (Nat.max_le.mpr ⟨hfits, Nat.le_refl _⟩)⟩

theorem neutral_listeners (ls : Option (List Listener)) : el.Neutral { el with listeners := ls } :=
  ⟨rfl, rfl, rfl, rfl, rfl, rfl, List.suffix_refl _, List.prefix_refl _, rfl, rfl, rfl, rfl, List.suffix_refl _, id⟩

theorem neutral_handler (h : η) : el.Neutral { el with handler := h } :=
  ⟨rfl, rfl, rfl, rfl, rfl, rfl, List.suffix_refl _, List.prefix_refl _, rfl, rfl, rfl, rfl, List.suffix_refl _, id⟩

theorem neutral_wake : el.Neutral (el.withHandle el.handle.wake.2) := by
  unfold EventLoopHandle.wake
  split
  · exact ⟨rfl, rfl, rfl, rfl, rfl, rfl, List.suffix_refl _, List.prefix_refl _, rfl, rfl, rfl, rfl,
      List.suffix_refl _, id⟩
  · exact ⟨rfl, rfl, rfl, rfl, rfl, rfl, List.suffix_refl _, List.prefix_refl _, rfl, rfl, rfl, rfl,
      List.tail_suffix _, id⟩

end Neutral

section Methods

variable {el el' : EventLoop η κ} {key : Nat} {serving : Prop}

/-- A result of the poller is used up either way. -/
theorem pollResult_cases (el : EventLoop η κ) :
    pollResult el = .ok ⟨⟩ el.polled ∨ ∃ e, pollResult el = .error e el.polled ∧
      el.poll.results.head? = some (.error e) := by
  unfold pollResult
  simp only [get_bind, set_bind]
  cases hr : el.poll.results with
  | nil => exact Or.inl rfl
  | cons r rs =>
    cases r with
    | ok u => exact Or.inl rfl
    | error e => exact Or.inr ⟨e, rfl, rfl⟩

theorem pollResult_ok {t : EventLoop η κ} (h : pollResult el = .ok ⟨⟩ t) : t = el.polled := by
  rcases pollResult_cases el with h' | ⟨e, h', -⟩ <;> rw [h'] at h <;> cases h
  rfl

theorem pollResult_leads (el : EventLoop η κ) : Leads (Effect serving key) AnyEffect pollResult el := by
  have hp : Effect serving key el el.polled := .neutral el.neutral_polled
  rcases pollResult_cases el with h | ⟨e, h, -⟩
  · exact .of_ok h (.single hp)
  · exact .of_error h (.single hp.any)

theorem trigger_leads {cmd : Command} (hcmd : cmd.addressee = none) (el : EventLoop η κ) :
    Leads (Effect serving key) AnyEffect (trigger cmd) el := .of_modify (.single (.push cmd.priority cmd hcmd))

theorem reregister_leads (key : Nat) (el : EventLoop η κ) : Leads (Effect True key) AnyEffect (reregister key) el := by
  unfold reregister
  apply Leads.get_bind
  cases hi : el.connections.get key with
  | none => exact .pure _
  | some i =>
    simp only
    cases hs : i.conn.socket with
    | none => exact .throw _
    | some s =>
      refine .bind (fun _ _ => Effect.any) (pollResult_leads el) fun _ t ht => ?_
      obtain rfl := pollResult_ok ht
      refine .of_modify (.head (.neutral (neutral_registering _ key)) (.single ?_))
      exact .serves i _ hi (.interest s _ hs) trivial

/-! ## Closing -/

/-- The state in which `on_close` has been called on the connection at `key`. -/
def closed (el : EventLoop η κ) (key : Nat) (i : Incarnation κ) (graceful : Bool) : EventLoop η κ :=
  (el.closing i graceful).2.setIncarnation key (el.closing i graceful).1

/-- **Closing a live connection**: `on_close` is called, and the connection leaves the slab, unless the poller fails to
let its socket go. -/
theorem closeConnection_cases {i : Incarnation κ} (hi : el.connections.get key = some i) (graceful : Bool) :
    (∃ t, closeConnection key graceful el = .ok ⟨⟩ t ∧
      (t = (el.closed key i graceful).recycle key (el.closing i graceful).1 ∨
        t = ((el.closed key i graceful).recycle key (el.closing i graceful).1).polled)) ∨
    ∃ e, closeConnection key graceful el = .error e (el.closed key i graceful).polled ∧
      el.poll.results.head? = some (.error e) := by
  have hc : closeConnection key graceful el =
      (do
        if (el.closing i graceful).1.conn.socket.isSome then pollResult
        modify fun el' => el'.recycle key (el.closing i graceful).1 : LoopM η κ Unit) (el.closed key i graceful) := by
    unfold closeConnection
    rw [get_bind, hi]
    rfl
  rw [hc]
  split
  · rcases pollResult_cases (el.closed key i graceful) with h | ⟨e, h, he⟩
    · exact Or.inl ⟨_, by rw [bind_apply, h]; rfl, Or.inr rfl⟩
    · exact Or.inr ⟨e, by rw [bind_apply, h], he⟩
  · exact Or.inl ⟨_, rfl, Or.inl rfl⟩

theorem closeConnection_none (h : el.connections.get key = none) (graceful : Bool) :
    closeConnection key graceful el = .ok ⟨⟩ el := by
  unfold closeConnection
  rw [get_bind, h]
  rfl

theorem closeConnection_leads (key : Nat) (graceful : Bool) (el : EventLoop η κ) :
    Leads (Effect True key) (Effect True key) (closeConnection key graceful) el := by
  cases hi : el.connections.get key with
  | none => exact .of_ok (closeConnection_none hi graceful) .refl
  | some i =>
    have hclose : Effect True key el ((el.closed key i graceful).recycle key (el.closing i graceful).1) :=
      .closes i graceful hi trivial
    rcases closeConnection_cases hi graceful with ⟨t, h, rfl | rfl⟩ | ⟨e, h, he⟩
    · exact .of_ok h (.single hclose)
    · exact .of_ok h (.tail (.single hclose) (.neutral (neutral_polled _)))
    · exact .of_error h (.tail (.single (.failsToClose i graceful e hi he trivial)) (.neutral (neutral_polled _)))

theorem closeAll_leads : ∀ (keys : List Nat) (el : EventLoop η κ), Leads AnyEffect AnyEffect (closeAll keys) el
  | [], _ => .pure _
  | key :: keys, el => by
    have h := (closeConnection_leads key true el).mono (fun _ _ => Effect.any) fun _ _ => Effect.any
    exact .bind (fun _ _ => id) (.ignore h) fun _ t _ => closeAll_leads keys t

theorem deregisterAll_leads :
    ∀ (ls : List Listener) (el : EventLoop η κ), Leads AnyEffect AnyEffect (deregisterAll ls) el
  | [], _ => .pure _
  | _ :: ls, el =>
    .modify_bind (fun _ _ => id) (.single ⟨0, .neutral el.neutral_polled⟩) (deregisterAll_leads ls _)

theorem shutdown_leads (el : EventLoop η κ) : Leads AnyEffect AnyEffect shutdown el := by
  unfold shutdown
  refine .get_bind (.bind (fun _ _ => id) (deregisterAll_leads _ el) fun _ t _ => ?_)
  refine .modify_bind (fun _ _ => id) (.single ⟨0, .neutral (neutral_listeners _ _)⟩) (.get_bind ?_)
  exact closeAll_leads _ _

theorem deregisterAll_ok : ∀ (ls : List Listener) (el : EventLoop η κ), ∃ t, deregisterAll ls el = .ok ⟨⟩ t
  | [], el => ⟨el, rfl⟩
  | _ :: ls, el => deregisterAll_ok ls el.polled

theorem closeAll_ok : ∀ (keys : List Nat) (el : EventLoop η κ), ∃ t, closeAll keys el = .ok ⟨⟩ t
  | [], el => ⟨el, rfl⟩
  | key :: keys, el => closeAll_ok keys (final (closeConnection key true) el)

/-- A shutdown never fails. -/
theorem shutdown_ok (el : EventLoop η κ) : ∃ t, shutdown el = .ok ⟨⟩ t := by
  obtain ⟨t, ht⟩ := deregisterAll_ok (el.listeners.getD []) el
  obtain ⟨u, hu⟩ := closeAll_ok { t with listeners := none }.connections.keys { t with listeners := none }
  refine ⟨u, ?_⟩
  unfold shutdown
  rw [get_bind, bind_apply, ht]
  exact hu

/-! ## Reading -/

/-- The current read of the connection at `key` has nothing left. -/
def SettledAt (el : EventLoop η κ) (key : Nat) : Prop := ∀ i, el.connections.get key = some i → i.conn.Settled

/-- How an iteration of the loop of `process_read` may end. -/
inductive ReadOutcome (key : Nat) (el : EventLoop η κ) : IoStatus ⊕ Nat → EventLoop η κ → Prop
  | stops (status : IoStatus) (t : EventLoop η κ) (ht : ReflTransGen (Effect False key) el t) (hset : t.SettledAt key)
      (hst : status = .completed ∨ ∃ graceful, status = .closed graceful) : ReadOutcome key el (.inl status) t
  | goesOn (n : Nat) (t : EventLoop η κ) (ht : ReflTransGen (Effect False key) el t) (hset : t.SettledAt key) :
      ReadOutcome key el (.inr n) t
  /-- `on_traffic` asked for a close or a shutdown; the rest of the read stays where it is -/
  | ends (status : IoStatus) (t : EventLoop η κ) (ht : ReflTransGen (Effect False key) el t)
      (hst : status = .closed true ∨ status = .shutdown) : ReadOutcome key el (.inl status) t

theorem carryOver_settled (c : Connection κ) : c.carryOver.Settled := by
  unfold Connection.carryOver Connection.Settled
  cases hio : c.ioBuffer with
  | none => simp [hio]
  | some io =>
    simp only
    split
    · rfl
    · cases c.inBuffer <;> rfl

omit [Codec κ Msg] [EventHandler η κ Msg] in
theorem get_setIncarnation {i : Incarnation κ} (hi : el.connections.get key = some i) (i' : Incarnation κ) (k : Nat) :
    (el.setIncarnation key i').connections.get k = if k = key then some i' else el.connections.get k :=
  Slab.get_set hi

omit [Codec κ Msg] [EventHandler η κ Msg] in
theorem get_setIncarnation_self {i : Incarnation κ} (hi : el.connections.get key = some i) (j : Incarnation κ) :
    (el.setIncarnation key j).connections.get key = some j := (get_setIncarnation hi j key).trans (if_pos rfl)

/-- What is split off is what was read, whatever the buffer held before. -/
theorem splitTo_fill (b : BytesMut) (bs : Bytes) : ((b.fill bs).splitTo bs.length).1 = bs := by
  simp [BytesMut.fill, BytesMut.splitTo]

theorem splitTo_fill_len (b : BytesMut) (bs : Bytes) : ((b.fill bs).splitTo bs.length).2.len ≤ b.len := by
  simp [BytesMut.fill, BytesMut.splitTo, BytesMut.len]

/-- The buffer is made as long as the option says, if it is not longer. -/
theorem prepare_len (b : BytesMut) (cap : Nat) : (b.prepare cap).len = max b.len cap := by
  have hroom : cap ≤ (if b.capacity < cap then b.reserve cap else b).capacity := by
    split
    · simp only [BytesMut.capacity, BytesMut.reserve, List.length_append, List.length_map, List.length_range]
      omega
    · omega
  have hlen : (if b.capacity < cap then b.reserve cap else b).len = b.len := by split <;> rfl
  unfold BytesMut.prepare
  generalize (if b.capacity < cap then b.reserve cap else b) = b' at hroom hlen
  simp only
  split
  · rename_i hlt
    simp only [BytesMut.capacity] at hroom
    simp only [BytesMut.len, BytesMut.setLen, List.length_take, List.length_append] at hlt hlen ⊢
    omega
  · omega

/-- The loop with another buffer. -/
def buffered (el : EventLoop η κ) (b : BytesMut) : EventLoop η κ := { el with ioBuffer := b }

/-- The length of the buffer that `process_read` offers to a read. -/
def offered (el : EventLoop η κ) : Nat := (el.ioBuffer.prepare el.options.readBufferCap).len

omit [Codec κ Msg] [EventHandler η κ Msg] in
theorem offered_eq (el : EventLoop η κ) : el.offered = max el.ioBuffer.len el.options.readBufferCap := prepare_len _ _

omit [Codec κ Msg] [EventHandler η κ Msg] in
theorem neutral_buffered {b : BytesMut} (hb : b.len ≤ el.offered) : el.Neutral (el.buffered b) :=
  neutral_ioBuffer el (hb.trans (Nat.le_of_eq el.offered_eq))

/-- **An iteration of the loop of `process_read`**, on a connection `i` with its socket `s` and a read answered `a`. -/
inductive Reads (key : Nat) (el : EventLoop η κ) (i : Incarnation κ) (s : Socket) (a : ReadAnswer) :
    IoStatus ⊕ Nat → EventLoop η κ → Prop
  | fails (e : IoError) (s' : Socket) (b : BytesMut) (hb : b.len ≤ el.offered)
      (hr : s.answerRead a el.offered = (.error e, s')) :
      Reads key el i s a (.inl (if e.kind = .wouldBlock then .completed else .closed false))
        ((el.buffered b).setIncarnation key { i with conn := { i.conn with socket := some s' } })
  | ended (s' : Socket) (b : BytesMut) (hb : b.len ≤ el.offered) (hr : s.answerRead a el.offered = (.ok [], s')) :
      Reads key el i s a (.inl (.closed true))
        ((el.buffered b).setIncarnation key { i with conn := { i.conn with socket := some s' } })
  | goesOn (bs : Bytes) (s' : Socket) (b : BytesMut) (hb : b.len ≤ el.offered)
      (hr : s.answerRead a el.offered = (.ok bs, s')) (hne : bs ≠ []) (hact : (el.buffered b).heard i s' bs = .none) :
      Reads key el i s a (.inr bs.length)
        (((((el.buffered b).hears key i s' bs).2.setIncarnation key
          ((el.buffered b).hears key i s' bs).1).setIncarnation key { ((el.buffered b).hears key i s' bs).1 with
            conn := ((el.buffered b).hears key i s' bs).1.conn.carryOver }).record
          (.merged { ((el.buffered b).hears key i s' bs).1 with
            conn := ((el.buffered b).hears key i s' bs).1.conn.carryOver }))
  | stopped (bs : Bytes) (s' : Socket) (b : BytesMut) (hb : b.len ≤ el.offered)
      (hr : s.answerRead a el.offered = (.ok bs, s')) (hne : bs ≠ []) (hact : (el.buffered b).heard i s' bs ≠ .none) :
      Reads key el i s a (.inl (if (el.buffered b).heard i s' bs = .close then .closed true else .shutdown))
        (((el.buffered b).hears key i s' bs).2.setIncarnation key ((el.buffered b).hears key i s' bs).1)

theorem readOnce_of_socket {i : Incarnation κ} {s : Socket} (hi : el.connections.get key = some i)
    (hs : i.conn.socket = some s) (a : ReadAnswer) : ∃ r t, readOnce key a el = .ok r t ∧ Reads key el i s a r t := by
  unfold readOnce
  simp only [get_bind, hi, hs]
  generalize hb : el.ioBuffer.prepare el.options.readBufferCap = b
  have hlen : b.len = el.offered := by rw [offered, hb]
  rw [hlen]
  rcases hr : s.answerRead a el.offered with ⟨⟨e⟩ | ⟨bs⟩, s'⟩
  · exact ⟨_, _, rfl, .fails e s' b (Nat.le_of_eq hlen) hr⟩
  · simp only
    split
    · rename_i hnil
      exact ⟨_, _, rfl, .ended s' b (Nat.le_of_eq hlen) (by rw [hr, hnil])⟩
    · rename_i hne
      rw [splitTo_fill]
      have hb' := (splitTo_fill_len b bs).trans (Nat.le_of_eq hlen)
      generalize ((b.fill bs).splitTo bs.length).2 = b' at hb'
      let i₁ : Incarnation κ := { i with conn := { i.conn with socket := some s' }.receive bs }
      have hon : onTraffic key i₁ ({ el with ioBuffer := b' }.setIncarnation key i₁) =
          .ok ((el.buffered b').heard i s' bs)
          (((el.buffered b').hears key i s' bs).2.setIncarnation key ((el.buffered b').hears key i s' bs).1) := rfl
      have hget : (((el.buffered b').hears key i s' bs).2.setIncarnation key
          ((el.buffered b').hears key i s' bs).1).connections.get key =
            some ((el.buffered b').hears key i s' bs).1 := by
        have h₁ : ((el.buffered b').hears key i s' bs).2.connections.get key = some i₁ := get_setIncarnation_self hi i₁
        exact get_setIncarnation_self h₁ _
      rw [set_bind, bind_apply, hon]
      have hstop : ∀ h, Reads key el i s a _ _ := .stopped bs s' b' hb' hr hne
      cases hact : (el.buffered b').heard i s' bs with
      | none =>
        simp only [get_bind, hget, modify_bind]
        exact ⟨_, _, rfl, .goesOn bs s' b' hb' hr hne hact⟩
      | close =>
        rw [hact] at hstop
        exact ⟨_, _, rfl, hstop (by simp)⟩
      | shutdown =>
        rw [hact] at hstop
        exact ⟨_, _, rfl, hstop (by simp)⟩

/-- The connection or its socket is missing. -/
theorem readOnce_unwrapNone {a : ReadAnswer} (h : ∀ i, el.connections.get key = some i → i.conn.socket = none) :
    readOnce key a el = .error .unwrapNone el := by
  unfold readOnce
  rw [get_bind]
  cases hi : el.connections.get key with
  | none => rfl
  | some i => simp only [h i hi]; rfl

theorem Reads.outcome {i : Incarnation κ} {s : Socket} {a : ReadAnswer} {r : IoStatus ⊕ Nat}
    (hi : el.connections.get key = some i) (hs : i.conn.socket = some s) (hset : el.SettledAt key)
    (h : Reads key el i s a r t) : ReadOutcome key el r t := by
  have hbuf : ∀ {b : BytesMut}, b.len ≤ el.offered → Effect False key el (el.buffered b) := fun hb =>
    .neutral (neutral_buffered hb)
  have hget : ∀ {b : BytesMut}, (el.buffered b).connections.get key = some i := hi
  have hsettled : ∀ {b : BytesMut} {s' : Socket},
      ((el.buffered b).setIncarnation key { i with conn := { i.conn with socket := some s' } }).SettledAt key := by
    intro b s' j hj
    rw [get_setIncarnation_self hget] at hj
    cases hj
    exact hset i hi
  cases h with
  | fails e s' b hb hr =>
    have he : Effect False key (el.buffered b) _ := .readsNothing i s a el.offered hi hs (by simp [hr])
    rw [hr] at he
    refine .stops _ _ (.tail (.single (hbuf hb)) he) hsettled ?_
    split
    · exact Or.inl rfl
    · exact Or.inr ⟨false, rfl⟩
  | ended s' b hb hr =>
    have he : Effect False key (el.buffered b) _ := .readsNothing i s a el.offered hi hs (by simp [hr])
    rw [hr] at he
    exact .stops _ _ (.tail (.single (hbuf hb)) he) hsettled (Or.inr ⟨true, rfl⟩)
  | goesOn bs s' b hb hr hne hact =>
    refine .goesOn _ _ (.tail (.single (hbuf hb)) (.traffic i s a el.offered s' bs hi hs hr hne (hset i hi) hact)) ?_
    intro j hj
    have h₁ : ((el.buffered b).hears key i s' bs).2.connections.get key = _ := get_setIncarnation_self hi _
    have h₂ := get_setIncarnation_self h₁ ((el.buffered b).hears key i s' bs).1
    cases (get_setIncarnation_self h₂ _).symm.trans hj
    exact carryOver_settled _
  | stopped bs s' b hb hr hne hact =>
    refine .ends _ _ (.tail (.single (hbuf hb)) (.lastTraffic i s a el.offered s' bs hi hs hr hne (hset i hi) hact)) ?_
    split
    · exact Or.inl rfl
    · exact Or.inr rfl

/-- **An iteration that ends well** is one of these. -/
theorem readOnce_some {a : ReadAnswer} {r : IoStatus ⊕ Nat} {t : EventLoop η κ} (h : readOnce key a el = .ok r t) :
    ∃ i s, el.connections.get key = some i ∧ i.conn.socket = some s ∧ Reads key el i s a r t := by
  by_cases hex : ∃ i s, el.connections.get key = some i ∧ i.conn.socket = some s
  · obtain ⟨i, s, hi, hs⟩ := hex
    obtain ⟨r', t', h', hr⟩ := readOnce_of_socket hi hs a
    cases h'.symm.trans h
    exact ⟨i, s, hi, hs, hr⟩
  · have hnone : ∀ i, el.connections.get key = some i → i.conn.socket = none := fun i hi =>
      Option.eq_none_iff_forall_ne_some.mpr fun s hs => hex ⟨i, s, hi, hs⟩
    rw [readOnce_unwrapNone hnone] at h
    cases h

theorem readOnce_outcome {a : ReadAnswer} (hset : el.SettledAt key) :
    (∃ r t, readOnce key a el = .ok r t ∧ ReadOutcome key el r t) ∨
      (readOnce key a el = .error .unwrapNone el ∧ ∀ i, el.connections.get key = some i → i.conn.socket = none) := by
  by_cases h : ∃ i s, el.connections.get key = some i ∧ i.conn.socket = some s
  · obtain ⟨i, s, hi, hs⟩ := h
    obtain ⟨r, t, hr, ho⟩ := readOnce_of_socket hi hs a
    exact Or.inl ⟨r, t, hr, ho.outcome hi hs hset⟩
  · have hnone : ∀ i, el.connections.get key = some i → i.conn.socket = none := fun i hi =>
      Option.eq_none_iff_forall_ne_some.mpr fun s hs => h ⟨i, s, hi, hs⟩
    exact Or.inr ⟨readOnce_unwrapNone hnone, hnone⟩

/-- The status after which the connection is given up. -/
def Giving (status : IoStatus) : Prop := (∃ graceful, status = .closed graceful) ∨ status = .shutdown

theorem readLoop_outcome : ∀ (answers : List ReadAnswer) (bytesRead : Nat) (el : EventLoop η κ), el.SettledAt key →
    (∃ status t, readLoop key answers bytesRead el = .ok status t ∧ ReflTransGen (Effect False key) el t ∧
      (t.SettledAt key ∨ Giving status)) ∨
    ∃ t, readLoop key answers bytesRead el = .error .unwrapNone t ∧ ReflTransGen (Effect False key) el t
  | [], bytesRead, el, hset => by
    unfold readLoop
    simp only [get_bind]
    split
    · exact Or.inl ⟨_, _, rfl, .refl, Or.inl hset⟩
    · rcases readOnce_outcome (a := .wouldBlock) hset with ⟨r, t, h, ho⟩ | ⟨h, -⟩
      · rw [bind_apply, h]
        cases ho with
        | stops status t ht hs _ => exact Or.inl ⟨_, _, rfl, ht, Or.inl hs⟩
        | goesOn n t ht hs => exact Or.inl ⟨_, _, rfl, ht, Or.inl hs⟩
        | ends status t ht hst => exact Or.inl ⟨_, _, rfl, ht, Or.inr (hst.imp_left fun h => ⟨true, h⟩)⟩
      · rw [bind_apply, h]
        exact Or.inr ⟨_, rfl, .refl⟩
  | a :: answers, bytesRead, el, hset => by
    unfold readLoop
    simp only [get_bind]
    split
    · exact Or.inl ⟨_, _, rfl, .refl, Or.inl hset⟩
    · rcases readOnce_outcome (a := a) hset with ⟨r, t, h, ho⟩ | ⟨h, -⟩
      · rw [bind_apply, h]
        cases ho with
        | stops status t ht hs _ => exact Or.inl ⟨_, _, rfl, ht, Or.inl hs⟩
        | ends status t ht hst => exact Or.inl ⟨_, _, rfl, ht, Or.inr (hst.imp_left fun h => ⟨true, h⟩)⟩
        | goesOn n t ht hs =>
          rcases readLoop_outcome answers (bytesRead + n) t hs with ⟨status, u, hu, hp, hst⟩ | ⟨u, hu, hp⟩
          · exact Or.inl ⟨_, _, hu, ht.trans hp, hst⟩
          · exact Or.inr ⟨_, hu, ht.trans hp⟩
      · rw [bind_apply, h]
        exact Or.inr ⟨_, rfl, .refl⟩

theorem processRead_outcome (hset : el.SettledAt key) :
    (∃ status t, processRead key el = .ok status t ∧ ReflTransGen (Effect False key) el t ∧
      (t.SettledAt key ∨ Giving status)) ∨
    ∃ t, processRead key el = .error .unwrapNone t ∧ ReflTransGen (Effect False key) el t := by
  unfold processRead
  simp only [get_bind]
  cases hi : el.connections.get key with
  | none => exact Or.inl ⟨_, _, rfl, .refl, Or.inl hset⟩
  | some i =>
    simp only
    split
    · exact Or.inl ⟨_, _, rfl, .refl, Or.inl hset⟩
    · exact readLoop_outcome _ 0 el hset

theorem readSocket_leads (hset : el.SettledAt key) : Leads (Effect True key) AnyEffect (readSocket key) el := by
  unfold readSocket
  have hread : Leads (Effect True key) AnyEffect (processRead key) el := by
    rcases processRead_outcome hset with ⟨status, t, h, ht, -⟩ | ⟨t, h, ht⟩
    · exact .of_ok h (ReflTransGen.mono (fun _ _ => Effect.serving) _ _ ht)
    · exact .of_error h (effects_any ht)
  refine .bind (fun _ _ => Effect.any) hread fun status t _ => ?_
  cases status with
  | closed graceful => exact (closeConnection_leads key graceful t).mono (fun _ _ => id) (fun _ _ => Effect.any)
  | «yield» => exact trigger_leads rfl t
  | completed => exact .pure _
  | shutdown => exact .bind_throw (shutdown_leads t)

/-! ## Writing, registering, commands and events -/

theorem processWrite_leads (key : Nat) (el : EventLoop η κ) :
    Leads (Effect True key) AnyEffect (processWrite (η := η) (κ := κ) key) el := by
  unfold processWrite
  apply Leads.get_bind
  cases hi : el.connections.get key with
  | none => exact .pure _
  | some i =>
    refine .set_bind (fun _ _ => Effect.any) (.single (.serves i _ hi (.processWrite _) trivial)) ?_
    split
    · exact .pure _
    · exact .throw _

theorem writeSocket_leads (key : Nat) (el : EventLoop η κ) :
    Leads (Effect True key) AnyEffect (writeSocket key) el := by
  unfold writeSocket
  refine .bind (fun _ _ => Effect.any) (processWrite_leads key el) fun status t _ => ?_
  cases status with
  | closed graceful => exact (closeConnection_leads key graceful t).mono (fun _ _ => id) (fun _ _ => Effect.any)
  | «yield» => exact trigger_leads rfl t
  | completed => exact reregister_leads key t
  | shutdown => exact trigger_leads rfl t

/-- The trace only grows. -/
theorem Effect.prefix_trace (h : Effect serving key el el') : el.trace <+: el'.trace := by
  cases h with
  | neutral h => exact h.trace ▸ List.prefix_refl el.trace
  | push priority cmd _ => exact List.prefix_refl _
  | serves i c hi hc _ => exact List.prefix_refl _
  | readsNothing i s a n hi hs ha => exact List.prefix_refl _
  | traffic i s a n s' bs => exact (List.prefix_append _ _).trans (List.prefix_append _ _)
  | lastTraffic i s a n s' bs => exact List.prefix_append _ _
  | closes i graceful hi _ => exact (List.prefix_append _ _).trans (List.prefix_append _ _)
  | failsToClose i graceful e hi he _ => exact List.prefix_append _ _
  | ticks op h conns hop _ =>
    unfold tickOp
    split <;> exact List.prefix_refl _
  | recordsTick before after action _ => exact List.prefix_append _ _

theorem prefix_trace (h : ReflTransGen AnyEffect el el') : el.trace <+: el'.trace :=
  invariant_of_steps (P := fun t => el.trace <+: t.trace) h (fun _ _ ⟨_, he⟩ ht => ht.trans he.prefix_trace)
    (List.prefix_refl _)

/-- A socket that the poller takes: `on_open` is called, and its action decides. -/
theorem register_opens (socket : Socket) (localAddr peerAddr : NetworkAddress) {el : EventLoop η κ}
    (hpoll : pollResult el = .ok ⟨⟩ el.polled) :
    (el.polled.openAction socket localAddr peerAddr = .none ∧
      register socket localAddr peerAddr el = .ok ⟨⟩ ((el.polled.opening socket localAddr peerAddr).2.enter
        (el.polled.opening socket localAddr peerAddr).1)) ∨
    (el.polled.openAction socket localAddr peerAddr = .close ∧
      register socket localAddr peerAddr el = .ok ⟨⟩ ((el.polled.opening socket localAddr peerAddr).2.record
        (.drops (el.polled.opening socket localAddr peerAddr).1.id))) ∨
    (el.polled.openAction socket localAddr peerAddr = .shutdown ∧
      ∃ t, shutdown (el.polled.opening socket localAddr peerAddr).2 = .ok ⟨⟩ t ∧
        register socket localAddr peerAddr el = .error .eventLoopShutdown (t.record
          (.drops (el.polled.opening socket localAddr peerAddr).1.id))) := by
  have hopen : onOpen (el.polled.incarnation socket localAddr peerAddr) el.polled.minting =
      .ok (el.polled.openAction socket localAddr peerAddr, (el.polled.opening socket localAddr peerAddr).1)
        (el.polled.opening socket localAddr peerAddr).2 := rfl
  unfold register
  rw [get_bind, bind_apply, hpoll]
  simp only [get_bind, set_bind]
  rw [bind_apply, hopen]
  simp only
  cases hact : el.polled.openAction socket localAddr peerAddr with
  | none => exact Or.inl ⟨rfl, rfl⟩
  | close =>
    have hvac : (el.polled.opening socket localAddr peerAddr).2.connections.get el.connections.vacantKey = none :=
      Slab.get_vacantKey _
    refine Or.inr (Or.inl ⟨rfl, ?_⟩)
    simp only
    rw [bind_apply, closeConnection_none hvac]
    rfl
  | shutdown =>
    obtain ⟨t, ht⟩ := shutdown_ok (el.polled.opening socket localAddr peerAddr).2
    refine Or.inr (Or.inr ⟨rfl, t, ht, ?_⟩)
    simp only
    rw [bind_apply, ht]
    rfl

/-- **Registering a socket**: the poller refuses it, or `on_open` is called and its action decides. -/
theorem register_cases (socket : Socket) (localAddr peerAddr : NetworkAddress) (el : EventLoop η κ) :
    (∃ e, register socket localAddr peerAddr el = .error e el.polled ∧ el.poll.results.head? = some (.error e)) ∨
    (el.polled.openAction socket localAddr peerAddr = .none ∧
      register socket localAddr peerAddr el = .ok ⟨⟩ ((el.polled.opening socket localAddr peerAddr).2.enter
        (el.polled.opening socket localAddr peerAddr).1)) ∨
    (el.polled.openAction socket localAddr peerAddr = .close ∧
      register socket localAddr peerAddr el = .ok ⟨⟩ ((el.polled.opening socket localAddr peerAddr).2.record
        (.drops (el.polled.opening socket localAddr peerAddr).1.id))) ∨
    (el.polled.openAction socket localAddr peerAddr = .shutdown ∧
      ∃ t, shutdown (el.polled.opening socket localAddr peerAddr).2 = .ok ⟨⟩ t ∧
        register socket localAddr peerAddr el = .error .eventLoopShutdown (t.record
          (.drops (el.polled.opening socket localAddr peerAddr).1.id))) := by
  rcases pollResult_cases el with h | ⟨e, h, he⟩
  · exact Or.inr (register_opens socket localAddr peerAddr h)
  · refine Or.inl ⟨e, ?_, he⟩
    unfold register
    rw [get_bind, bind_apply, h]

/-- Where a registration went well and there is something at the new key, it is what `on_open` left. -/
theorem register_entered {socket : Socket} {localAddr peerAddr : NetworkAddress} {el t : EventLoop η κ}
    (h : register socket localAddr peerAddr el = .ok ⟨⟩ t) {i : Incarnation κ}
    (hi : t.connections.get el.connections.vacantKey = some i) :
    i = (el.polled.opening socket localAddr peerAddr).1 ∧
      t = (el.polled.opening socket localAddr peerAddr).2.enter (el.polled.opening socket localAddr peerAddr).1 := by
  rcases register_cases socket localAddr peerAddr el with ⟨e, h', -⟩ | ⟨ha, h'⟩ | ⟨ha, h'⟩ | ⟨ha, u, hu, h'⟩ <;>
    rw [h'] at h <;> cases h
  · exact ⟨(Option.some.inj (Slab.get_insert_self.symm.trans hi)).symm, rfl⟩
  · have hvac : (el.polled.opening socket localAddr peerAddr).2.connections.get el.connections.vacantKey = none :=
      Slab.get_vacantKey _
    cases hvac.symm.trans hi

theorem asyncWrite_leads (gfd : Gfd) (data : Bytes) (el : EventLoop η κ) :
    Leads (Effect True gfd.slabIndex) AnyEffect (asyncWrite gfd data) el := by
  unfold asyncWrite
  apply Leads.get_bind
  by_cases hl : gfd.eventLoopIndex ≠ el.loopId.toNat
  · rw [if_pos hl]
    exact .pure _
  · rw [if_neg hl]
    dsimp only
    cases hi : el.connections.get gfd.slabIndex with
    | none => exact .pure _
    | some i =>
      simp only
      by_cases hg : i.conn.gfd ≠ gfd
      · rw [if_pos hg]
        exact .pure _
      · rw [if_neg hg]
        refine .set_bind (fun _ _ => Effect.any) (.single (.serves i _ hi (.write data) trivial)) ?_
        split
        · exact (closeConnection_leads _ _ _).mono (fun _ _ => id) (fun _ _ => Effect.any)
        · exact reregister_leads _ _

theorem wake_leads (key : Nat) (el : EventLoop η κ) :
    Leads (Effect serving key) AnyEffect (wake (η := η) (κ := κ)) el := by
  unfold wake
  apply Leads.get_bind
  refine .set_bind (fun _ _ => Effect.any) (.single (.neutral el.neutral_wake)) ?_
  split
  · exact .pure _
  · exact .throw _

end Methods

end EventLoop
end Rnet
