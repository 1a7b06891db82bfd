import Rnet.EventLoop.Lifecycle
import Rnet.EventLoop.Queues

/-!
# Slab, pool and counter

`conn_count` goes up when a connection enters the slab and down when it leaves (`Effect.counts`), modulo `2^64`; so it
is the number of connections while the keys are below `2^24`, and is positive whenever it is decremented. Live
connections have their sockets, connections in the pool have none, and so does no operation of a callback, whatever
came before it, come to an `unwrap` of a socket that is not there (`Op.not_panics`). `slab_consistent` puts this
together.
-/

namespace Rnet

open Programs Relation

variable {κ Msg η : Type}

/-! ## Callbacks do not panic -/

namespace Op

variable [Codec κ Msg]

/-- An operation comes to the `unwrap` of a socket that is not there. -/
def Panics (op : Op κ Msg) (c : Connection κ) : Prop :=
  match op with
  | .write buf => (c.write buf).1 = .error .unwrapNone
  | .writeBytes buf => (c.writeBytes buf).1 = .error .unwrapNone
  | .writeVectored bufs => (c.writeVectored bufs).1 = .error .unwrapNone
  | .writeVectoredBytes bufs => (c.writeVectoredBytes bufs).1 = .error .unwrapNone
  | .send msg =>
    ∃ codec, c.codec = some codec ∧ (Codec.encode codec msg []).1 = .ok () ∧
      (({ c with codec := some (Codec.encode codec msg []).2.1 } : Connection κ).writeBytes
        (Codec.encode codec msg []).2.2).1 = .error .unwrapNone
  | .flush => c.flush.1 = .error .unwrapNone
  | .nextContiguous _ | .nextVectored _ | .peek _ | .discard _ | .read _ | .setCodec _ | .nextMessage | .close
  | .sendCommand _ _ => False

end Op

namespace Connection

variable {c : Connection κ}

/-- A socket never answers with a panic. -/
theorem answerWrite_not_panics {s t : Socket} {a : WriteAnswer} {bs : Bytes} {e : IoError}
    (h : s.answerWrite a bs = (.error e, t)) : e ≠ .unwrapNone := by
  cases a <;> cases h <;> simp [IoError.wouldBlock, IoError.interrupted, IoError.fatal, IoError.unwrapNone]

theorem writeOrQueue_not_panics (hs : c.socket.isSome) {call : Socket → IoResult Nat × Socket} {bufs : List Bytes}
    {rest : Nat → List Bytes} (hcall : ∀ s, call s = s.write bufs.flatten) :
    (c.writeOrQueue call bufs rest).1 ≠ .error .unwrapNone := by
  obtain ⟨s, hs⟩ := Option.isSome_iff_exists.mp hs
  unfold writeOrQueue
  split
  · simp
  · simp only [hs, hcall]
    split
    · simp
    · rename_i e t h
      split
      · simp
      · simpa using answerWrite_not_panics h

theorem drainLoop_not_panics {limit : Option Nat} : ∀ (answers : List WriteAnswer) (sock : Socket) (out : List Bytes)
    (written : Nat), (drainLoop limit answers sock out written).stop ≠ .failed .unwrapNone := by
  intro answers
  induction answers with
  | nil =>
    intro sock out written
    rw [drainLoop]
    split
    · simp
    · split <;> simp
  | cons a answers ih =>
    intro sock out written
    rw [drainLoop]
    split
    · simp
    split
    · simp
    simp only
    split
    · simp
    · exact ih _ _ _
    · rename_i e sock' h
      split
      · simp
      · split
        · exact ih _ _ _
        · simpa using answerWrite_not_panics h

theorem flush_not_panics (hs : c.socket.isSome) : c.flush.1 ≠ .error .unwrapNone := by
  obtain ⟨s, hs⟩ := Option.isSome_iff_exists.mp hs
  cases ho : c.outBuffer with
  | none => simp [flush_none hs ho]
  | some out =>
    rw [flush_some hs ho]
    have hd : (drain none s out).stop ≠ .failed .unwrapNone := drainLoop_not_panics _ _ _ _
    cases h : (drain none s out).stop with
    | failed e =>
      rw [h] at hd
      simpa [DrainStop.flushed] using hd
    | drained | batchFull | tookNothing | blocked => simp [DrainStop.flushed, IoError.unwrapNone]

end Connection

namespace Op

variable [Codec κ Msg] {c : Connection κ}

/-- **With the socket there, no operation panics.** -/
theorem not_panics (hs : c.socket.isSome) (op : Op κ Msg) : ¬op.Panics c := by
  cases op with
  | write buf => exact Connection.writeOrQueue_not_panics hs fun s => by simp
  | writeBytes buf => exact Connection.writeOrQueue_not_panics hs fun s => by simp
  | writeVectored bufs =>
    show (c.writeVectored bufs).1 ≠ .error .unwrapNone
    unfold Connection.writeVectored
    split
    · simp
    · exact Connection.writeOrQueue_not_panics hs fun _ => rfl
  | writeVectoredBytes bufs =>
    show (c.writeVectoredBytes bufs).1 ≠ .error .unwrapNone
    unfold Connection.writeVectoredBytes
    split
    · simp
    · exact Connection.writeOrQueue_not_panics hs fun _ => rfl
  | send msg =>
    rintro ⟨codec, -, -, h⟩
    have hs' : ({ c with codec := some (Codec.encode codec msg []).2.1 } : Connection κ).socket.isSome := hs
    exact absurd h (Connection.writeOrQueue_not_panics hs' fun s => by simp)
  | flush => exact Connection.flush_not_panics hs
  | nextContiguous _ | nextVectored _ | peek _ | discard _ | read _ | setCodec _ | nextMessage | close
  | sendCommand _ _ => exact id

/-- The operations leave the socket where it is. -/
theorem performAll_socket (ops : List (Op κ Msg)) :
    ∀ c : Connection κ, (performAll ops c).socket.isSome = c.socket.isSome := by
  induction ops with
  | nil => exact fun _ => rfl
  | cons op ops ih =>
    intro c
    have h := congrArg Option.isSome (c.perform_stable op).socket
    rw [Option.isSome_map, Option.isSome_map] at h
    exact (ih _).trans h

end Op

/-- Whatever a callback does with the connection, it never comes to a panic. -/
def Connection.Steady (Msg : Type) [Codec κ Msg] (c : Connection κ) : Prop :=
  ∀ (ops : List (Op κ Msg)) (op : Op κ Msg), ¬op.Panics (Op.performAll ops c)

theorem Connection.steady [Codec κ Msg] {c : Connection κ} (hs : c.socket.isSome) : c.Steady Msg := fun ops op =>
  op.not_panics (by rw [Op.performAll_socket, hs])

/-- The connection a callback was called on. -/
def Obs.subject : Obs κ → Option (Incarnation κ)
  | .opens before _ _ | .traffic before _ _ | .closes before _ _ => some before
  | .merged _ | .ticks _ _ _ | .drops _ => none

namespace EventLoop

/-- **What slab, pool and counter should be.** -/
structure Consistent (el : EventLoop η κ) : Prop where
  /-- `conn_count` is the number of connections -/
  count : el.handle.connCount.toNat = el.connections.keys.length
  socket : ∀ k i, el.connections.get k = some i → i.conn.socket.isSome
  slabIndex : ∀ k i, el.connections.get k = some i → i.conn.gfd.slabIndex = k
  eventLoopIndex : ∀ k i, el.connections.get k = some i → i.conn.gfd.eventLoopIndex = el.loopId.toNat
  pool : ∀ c ∈ el.connectionPool, c.socket = none

/-- All slab keys fit into a descriptor. -/
def SmallKeys (el : EventLoop η κ) : Prop := ∀ k i, el.connections.get k = some i → k < 2 ^ 24

/-- The invariant, whatever the keys are. -/
structure Counted (el : EventLoop η κ) : Prop where
  sound : el.Sound
  count : el.handle.connCount = .ofNat el.connections.keys.length
  pool : ∀ c ∈ el.connectionPool, c.socket = none
  subjects : ∀ obs ∈ el.trace, ∀ i ∈ obs.subject, i.conn.socket.isSome

variable {el el' t : EventLoop η κ} {key : Nat} {serving : Prop}

theorem Counted.consistent (h : el.Counted) (hsmall : el.SmallKeys) : el.Consistent where
  count := by
    have hle : el.connections.keys.length ≤ 2 ^ 24 := Slab.length_keys_le hsmall
    rw [h.count, UInt64.toNat_ofNat']
    exact Nat.mod_eq_of_lt (by omega)
  socket := h.sound.socketed
  slabIndex k i hi := by
    obtain ⟨s, -, hg⟩ := h.sound.gfd hi
    rw [hg, Gfd.slabIndex_new, Nat.mod_eq_of_lt (hsmall k i hi)]
  eventLoopIndex k i hi := by
    obtain ⟨s, -, hg⟩ := h.sound.gfd hi
    rw [hg, Gfd.eventLoopIndex_new]
  pool := h.pool

variable [Codec κ Msg] [EventHandler η κ Msg]

omit [EventHandler η κ Msg] in
/-- A callback leaves the counter alone. -/
theorem callback_connCount (el : EventLoop η κ) (i : Incarnation κ) (r : Reaction κ Msg × η)
    (obs : Incarnation κ → Incarnation κ → Action → Obs κ) :
    (el.callback i r obs).2.handle.connCount = el.handle.connCount := by
  obtain ⟨qs, hg, -⟩ := Op.applyAll_gets r.1.ops i el.handle
  exact hg.connCount

theorem closed_connCount (el : EventLoop η κ) (key : Nat) (i : Incarnation κ) (graceful : Bool) :
    (el.closed key i graceful).handle.connCount = el.handle.connCount := callback_connCount el _ _ .closes

/-- **What an effect does to the counter and to the number of connections**: nothing, or one less of both. -/
theorem Effect.counts (h : Effect serving key el el') :
    (el'.handle.connCount = el.handle.connCount ∧ el'.connections.keys.length = el.connections.keys.length) ∨
      (el'.handle.connCount = el.handle.connCount - 1 ∧
        el'.connections.keys.length + 1 = el.connections.keys.length) := by
  cases h with
  | neutral h => exact Or.inl ⟨h.connCount, by rw [h.connections]⟩
  | push priority cmd _ => exact Or.inl ⟨(el.handle.trigger_gets priority ⟨cmd, none⟩).connCount, rfl⟩
  | serves i c hi hc _ => exact Or.inl ⟨rfl, Slab.length_keys_set _ _ _⟩
  | readsNothing i s a n hi hs ha => exact Or.inl ⟨rfl, Slab.length_keys_set _ _ _⟩
  | traffic i s a n s' bs =>
    refine Or.inl ⟨callback_connCount (el.setIncarnation key _) _ _ .traffic, ?_⟩
    exact (Slab.length_keys_set _ _ _).trans ((Slab.length_keys_set _ _ _).trans (Slab.length_keys_set _ _ _))
  | lastTraffic i s a n s' bs =>
    refine Or.inl ⟨callback_connCount (el.setIncarnation key _) _ _ .traffic, ?_⟩
    exact (Slab.length_keys_set _ _ _).trans (Slab.length_keys_set _ _ _)
  | closes i graceful hi _ =>
    refine Or.inr ⟨congrArg (· - 1) (el.closed_connCount key i graceful), ?_⟩
    have hi' : (el.closed key i graceful).connections.get key = some _ :=
      get_setIncarnation_self (show (el.closing i graceful).2.connections.get key = some i from hi) _
    exact (Slab.length_keys_remove hi').trans (Slab.length_keys_set _ _ _)
  | failsToClose i graceful e hi he _ => exact Or.inl ⟨el.closed_connCount key i graceful, Slab.length_keys_set _ _ _⟩
  | ticks op hd conns hop _ =>
    unfold tickOp
    cases hi : el.connections.get key with
    | none => exact Or.inl ⟨rfl, rfl⟩
    | some i =>
      exact Or.inl ⟨(EventLoopHandle.triggerAll_gets (op.commands el.handle.idx i.conn) el.handle).connCount,
        Slab.length_keys_set _ _ _⟩
  | recordsTick before after action _ => exact Or.inl ⟨rfl, rfl⟩

/-- What is pooled has no socket. -/
theorem Effect.pool (h : Effect serving key el el') (hp : ∀ c ∈ el.connectionPool, c.socket = none) :
    ∀ c ∈ el'.connectionPool, c.socket = none := by
  cases h with
  | neutral h => rwa [h.connectionPool]
  | closes i graceful hi _ =>
    intro c hc
    rcases List.mem_cons.mp hc with rfl | hc
    · rfl
    · exact hp c hc
  | ticks op hd conns hop _ =>
    unfold tickOp
    split <;> exact hp
  | _ => exact hp

/-- Whoever a callback is called on has its socket. -/
theorem Effect.subjects (h : Effect serving key el el') (hs : el.Socketed) :
    ∃ new, el'.trace = el.trace ++ new ∧ ∀ obs ∈ new, ∀ i ∈ obs.subject, i.conn.socket.isSome := by
  have hnone : ∃ new, el.trace = el.trace ++ new ∧ ∀ obs ∈ new, ∀ i ∈ obs.subject, i.conn.socket.isSome :=
    ⟨[], (List.append_nil _).symm, by simp⟩
  have hclosing : ∀ (i : Incarnation κ) (graceful : Bool), el.connections.get key = some i →
      (lastOutput graceful i.conn).socket.isSome := by
    intro i graceful hi
    have h := hs key i hi
    rwa [← Option.isSome_map (f := Socket.fd), ← (Incarnation.Same.lastOutput graceful i).fd, Option.isSome_map] at h
  cases h with
  | neutral h =>
    rw [h.trace]
    exact hnone
  | push _ _ _ | serves _ _ _ _ _ | readsNothing _ _ _ _ _ _ _ => exact hnone
  | traffic i s a n s' bs hi hs' ha hne hset hact =>
    let j : Incarnation κ := { i with conn := { i.conn with socket := some s' }.receive bs }
    let i' := (el.hears key i s' bs).1
    have htrace : ((el.trace ++ [.traffic j i' (el.heard i s' bs)]) ++
        [.merged { i' with conn := i'.conn.carryOver }]) =
        el.trace ++ [.traffic j i' (el.heard i s' bs), .merged { i' with conn := i'.conn.carryOver }] :=
      List.append_assoc _ _ _
    refine ⟨_, htrace, ?_⟩
    simp [Obs.subject, Connection.receive, j]
  | lastTraffic i s a n s' bs hi hs' ha hne hset hact =>
    let j : Incarnation κ := { i with conn := { i.conn with socket := some s' }.receive bs }
    refine ⟨[.traffic j _ _], rfl, ?_⟩
    simp [Obs.subject, Connection.receive, j]
  | closes i graceful hi _ =>
    refine ⟨[el.closeObs i graceful, .drops i.id], gone_trace el key i graceful, ?_⟩
    simpa [Obs.subject, closeObs] using hclosing i graceful hi
  | failsToClose i graceful e hi he _ =>
    refine ⟨[el.closeObs i graceful], rfl, ?_⟩
    simpa [Obs.subject, closeObs] using hclosing i graceful hi
  | ticks op hd conns hop _ =>
    unfold tickOp
    split <;> exact hnone
  | recordsTick before after action _ => exact ⟨[_], rfl, by simp [Obs.subject]⟩

theorem Effect.counted (h : Effect serving key el el') (hc : el.Counted) : el'.Counted where
  sound := h.sound hc.sound
  count := by
    rcases h.counts with ⟨hcount, hlen⟩ | ⟨hcount, hlen⟩
    · rw [hcount, hlen, hc.count]
    · rw [hcount, hc.count, ← hlen, UInt64.ofNat_add]
      exact UInt64.add_sub_cancel _ _
  pool := h.pool hc.pool
  subjects := by
    obtain ⟨new, hnew, hsub⟩ := h.subjects hc.sound.socketed
    rw [hnew]
    exact fun obs ho => (List.mem_append.mp ho).elim (hc.subjects obs) (hsub obs)

theorem Registers.counted (hr : Registers el el') (hc : el.Counted) : el'.Counted := by
  have hpool : ∀ c ∈ el.connectionPool.tail, c.socket = none := fun c h => hc.pool c (List.mem_of_mem_tail h)
  have hopen : ∀ (socket : Socket) (localAddr peerAddr : NetworkAddress),
      ∀ obs ∈ (el.opening socket localAddr peerAddr).2.trace, ∀ i ∈ obs.subject, i.conn.socket.isSome := by
    intro socket localAddr peerAddr obs ho i hi
    rcases List.mem_append.mp (show obs ∈ el.trace ++ [_] from ho) with ho | ho
    · exact hc.subjects obs ho i hi
    · rw [List.mem_singleton.mp ho] at hi
      cases hi
      rw [incarnation_socket]
      rfl
  have hcount : ∀ (socket : Socket) (localAddr peerAddr : NetworkAddress),
      (el.opening socket localAddr peerAddr).2.handle.connCount = el.handle.connCount := fun _ _ _ =>
    callback_connCount el.minting _ _ .opens
  cases hr with
  | admits socket localAddr peerAddr hact =>
    refine ⟨hc.sound.admits socket localAddr peerAddr, ?_, hpool, hopen socket localAddr peerAddr⟩
    show (el.opening socket localAddr peerAddr).2.handle.connCount + 1 = .ofNat (Slab.insert _ _).keys.length
    rw [Slab.length_keys_insert, UInt64.ofNat_add, hcount, hc.count]
    rfl
  | refuses socket localAddr peerAddr hact =>
    exact ⟨hc.sound.keeps (.of_eq rfl) (Nat.le_succ _) rfl, (hcount _ _ _).trans hc.count, hpool, hopen _ _ _⟩
  | dropsRefused before after action hobs hact =>
    refine ⟨hc.sound.keeps (.of_eq rfl) (Nat.le_refl _) rfl, hc.count, hc.pool, fun obs ho => ?_⟩
    rcases List.mem_append.mp ho with ho | ho
    · exact hc.subjects obs ho
    · rw [List.mem_singleton.mp ho]
      simp [Obs.subject]

theorem Evolves.counted (h : Evolves el el') (hc : el.Counted) : el'.Counted := by
  cases h with
  | change h => exact h.elim (fun ⟨_, he⟩ => he.counted hc) fun hr => hr.counted hc
  | takes hq =>
    obtain ⟨-, -, -, hcount, -⟩ := Machine.takeCommand_some hq
    exact ⟨hc.sound.keeps (.of_eq rfl) (Nat.le_refl _) rfl, hcount.trans hc.count, hc.pool, hc.subjects⟩
  | gets priority cmd =>
    have hg := el.handle.trigger_gets priority ⟨cmd, none⟩
    exact ⟨hc.sound.keeps (.of_eq rfl) (Nat.le_refl _) rfl, hg.connCount.trans hc.count, hc.pool, hc.subjects⟩
  | mints n => exact ⟨hc.sound.keeps (.of_eq rfl) (Nat.le_add_right _ _) rfl, hc.count, hc.pool, hc.subjects⟩
  | drops hi =>
    refine ⟨hc.sound.keeps (.of_eq rfl) (Nat.le_refl _) rfl, hc.count, hc.pool, fun obs ho => ?_⟩
    rcases List.mem_append.mp ho with ho | ho
    · exact hc.subjects obs ho
    · rw [List.mem_singleton.mp ho]
      simp [Obs.subject]

theorem counted_of_evolves (h : ReflTransGen Evolves el t) (hc : el.Counted) : t.Counted :=
  invariant_of_steps h (fun _ _ he ht => he.counted ht) hc

omit [Codec κ Msg] [EventHandler η κ Msg] in
theorem Fresh.counted (h : el.Fresh) : el.Counted where
  sound := h.sound
  count := by
    rw [h.connCount, h.connections]
    rfl
  pool := by simp [h.pool]
  subjects := by simp [h.trace]

theorem Evolves.length_le (h : Evolves el el') : el'.connections.keys.length ≤ el.connections.keys.length + 1 := by
  cases h with
  | change h =>
    rcases h with ⟨key, he⟩ | hr
    · rcases he.counts with ⟨-, hlen⟩ | ⟨-, hlen⟩ <;> omega
    · cases hr with
      | admits socket localAddr peerAddr hact => exact Nat.le_of_eq (Slab.length_keys_insert _ _)
      | refuses socket localAddr peerAddr hact => exact Nat.le_succ _
      | dropsRefused before after action hobs hact => exact Nat.le_succ _
  | takes _ | gets _ _ | mints _ | drops _ => exact Nat.le_succ _

/-- **The counter never underflows**: whatever takes one off finds it positive. -/
theorem Evolves.no_underflow (h : Evolves el el') (hc : el.Counted) (hsmall : el.SmallKeys)
    (hdec : el'.handle.connCount = el.handle.connCount - 1) : 0 < el.handle.connCount.toNat := by
  by_contra hzero
  have hcount := (hc.consistent hsmall).count
  have hlen := h.length_le
  have h0 : el.handle.connCount = 0 := UInt64.toNat.inj (by simp; omega)
  have hmax : el'.handle.connCount.toNat = 2 ^ 64 - 1 := by
    rw [hdec, h0]
    rfl
  rw [(h.counted hc).count, UInt64.toNat_ofNat', Nat.mod_eq_of_lt (by omega)] at hmax
  omega

end EventLoop

/-! ## Runs -/

namespace EventLoop

variable [Codec κ Msg] [EventHandler η κ Msg] {el el' t : EventLoop η κ} {key : Nat} {serving : Prop}

/-- The answers of the poller and of the system's wakes are used up in order. -/
structure Answers (el t : EventLoop η κ) : Prop where
  results : t.poll.results <:+ el.poll.results
  wakes : t.handle.wakes <:+ el.handle.wakes

theorem Evolves.answers (h : Evolves el el') : el.Answers el' := by
  refine ⟨?_, h.sameHandle.wakes⟩
  cases h with
  | change h => exact h.results
  | takes _ | gets _ _ | mints _ | drops _ => exact List.suffix_refl _

theorem answers_of_evolves (h : ReflTransGen Evolves el t) : el.Answers t :=
  invariant_of_steps (P := fun t => el.Answers t) h
    (fun _ _ he ht => ⟨he.answers.results.trans ht.results, he.answers.wakes.trans ht.wakes⟩)
    ⟨List.suffix_refl _, List.suffix_refl _⟩

end EventLoop

namespace Machine

open EventLoop Runs

variable [Codec κ Msg] [EventHandler η κ Msg] {m m' : Machine η κ} {l : Label η} {el : EventLoop η κ} {e : IoError}

/-- A wake that is refused was answered so. -/
theorem mem_of_wake {h : EventLoopHandle} (he : h.wake.1 = .error e) : .error e ∈ h.wakes := by
  unfold EventLoopHandle.wake at he
  split at he
  · cases he
  · cases hw : h.wakes with
    | nil =>
      rw [hw] at he
      cases he
    | cons r rs =>
      rw [hw] at he
      rw [show r = .error e from he]
      exact List.mem_cons_self

/-- **Why `run_loop` returns an error in a step**: `poll` failed, or a method did, by a shutdown or by an answer of the
poller or of a wake. -/
theorem Moves.error (h : Moves m l m') (hcalm : m.Calm) (hs : m.el.Socketed) (hphase : m'.phase = .exited (.error e)) :
    m.phase = .exited (.error e) ∨ l = .pollError e ∨ e = .eventLoopShutdown ∨ .error e ∈ m.el.poll.results ∨
      .error e ∈ m.el.handle.wakes := by
  rcases h.exited hphase with h | ⟨e', hl, -, he, -⟩ | ⟨task, el₀, e', t, hst, hrun, hres, -⟩
  · exact Or.inl h
  · cases he
    exact Or.inr (Or.inl hl)
  · obtain rfl : e = e' := hres.elim Except.error.inj fun h => by cases h.2
    have hsame : el₀.connections = m.el.connections ∧ el₀.poll = m.el.poll ∧ el₀.handle.wakes = m.el.handle.wakes := by
      obtain ⟨h', rfl, -, hwakes, -⟩ := hst.withHandle
      exact ⟨rfl, rfl, hwakes⟩
    have hs₀ : el₀.Socketed := hs.keeps (.of_eq hsame.1)
    rcases Task.failsBy hs₀ (hst.settled hcalm) hrun with hf | ⟨-, he, -⟩
    · cases hf with
      | shutdown u v hu hc hsh he ht => exact Or.inr (Or.inr (Or.inl he))
      | polled u hu he ht =>
        have hmem := (results_of_changes hu).subset (List.mem_of_mem_head? he)
        rw [hsame.2.1] at hmem
        exact Or.inr (Or.inr (Or.inr (Or.inl hmem)))
    · exact Or.inr (Or.inr (Or.inr (Or.inr (hsame.2.2 ▸ mem_of_wake he))))

/-- No `unwrap` of a socket can panic: not in a callback on a live connection, whatever it has done before, not in any
callback so far, and `run_loop` has not returned for such a reason. `results` and `wakes` are what the poller and the
wakes of the system had to answer from the start, `ls` are the steps. -/
structure PanicFree (el : EventLoop η κ) (ls : List (Label η)) (m : Machine η κ) : Prop where
  live : ∀ k i, m.el.connections.get k = some i → i.conn.Steady Msg
  callbacks : ∀ obs ∈ m.el.trace, ∀ i ∈ obs.subject, i.conn.Steady Msg
  exits : ∀ e, m.phase = .exited (.error e) →
    e = .eventLoopShutdown ∨ .error e ∈ el.poll.results ∨ .error e ∈ el.handle.wakes ∨ .pollError e ∈ ls

/-- **Slab, pool and counter are consistent** in every state that a run reaches, and also within its steps; what takes
one off the counter finds it positive; and no `unwrap` of a socket panics. -/
theorem slab_consistent (hfresh : el.Fresh) {ls : List (Label η)} (hrun : run step (initial el) ls = some m) :
    (m.el.SmallKeys → m.el.Consistent) ∧ ReflTransGen Evolves el m.el ∧
      (∀ t t', ReflTransGen Evolves el t → Evolves t t' → t.SmallKeys → t.Consistent ∧
        (t'.handle.connCount = t.handle.connCount - 1 → 0 < t.handle.connCount.toNat)) ∧ m.PanicFree el ls := by
  let Good (m : Machine η κ) : Prop := m.Calm ∧ ReflTransGen Evolves el m.el ∧ ∀ e, m.phase = .exited (.error e) →
    e = .eventLoopShutdown ∨ .error e ∈ el.poll.results ∨ .error e ∈ el.handle.wakes ∨ .pollError e ∈ ls
  have hinv : Good m := by
    refine run_invariant (P := Good) (fun s l s' ⟨hcalm, hpath, hexit⟩ hl hstep => ?_)
      ⟨initial_calm hfresh, .refl, fun e h => by cases h⟩ (.of_labels fun _ => id) hrun
    have hm := step_moves hstep
    refine ⟨hm.calm hcalm, hpath.trans (hm.evolves hcalm), fun e hphase => ?_⟩
    have hans := answers_of_evolves hpath
    rcases hm.error hcalm (counted_of_evolves hpath hfresh.counted).sound.socketed hphase with h | rfl | h | h | h
    · exact hexit e h
    · exact Or.inr (Or.inr (Or.inr hl))
    · exact Or.inl h
    · exact Or.inr (Or.inl (hans.results.subset h))
    · exact Or.inr (Or.inr (Or.inl (hans.wakes.subset h)))
  obtain ⟨-, hpath, hexit⟩ := hinv
  have hcount := counted_of_evolves hpath hfresh.counted
  refine ⟨hcount.consistent, hpath, fun t t' ht he hsmall => ?_, ?_⟩
  · have hc := counted_of_evolves ht hfresh.counted
    exact ⟨hc.consistent hsmall, he.no_underflow hc hsmall⟩
  · exact ⟨fun k i hi => Connection.steady (hcount.sound.socketed k i hi),
      fun obs ho i hi => Connection.steady (hcount.subjects obs ho i hi), hexit⟩

/-- One connection has come and sent a byte. -/
theorem slab_consistent_visit : ∃ m, run step (initial (doormanLoop .admits)) (visit.take 11) = some m ∧
    m.el.connections.keys = [0] ∧ m.el.Consistent ∧ m.PanicFree (doormanLoop .admits) (visit.take 11) := by
  have hrun : (run step (initial (doormanLoop .admits)) (visit.take 11)).any
      (fun m => decide (m.el.connections.keys = [0])) = true := by decide +kernel
  obtain ⟨m, hm, hkeys⟩ := exists_of_any hrun
  have hkeys : m.el.connections.keys = [0] := of_decide_eq_true hkeys
  obtain ⟨hcons, -, -, hfree⟩ := slab_consistent (new_fresh _ _ _ _ _ _ _) hm
  refine ⟨m, hm, hkeys, hcons fun k i hi => ?_, hfree⟩
  have hk := Slab.mem_keys.mpr ⟨i, hi⟩
  rw [hkeys, List.mem_singleton] at hk
  omega

end Machine
end Rnet
