import Rnet.EventLoop.Steps

/-!
# The input of every connection is exact

`Incarnation.Exact`: what the socket has delivered since it was registered is what the callbacks have consumed, followed
by the unread input. Every effect keeps it for the connection it touches (`Effect.exact`): a read adds the same bytes
on both sides because nothing is left of the read before, and the rest moves input between the buffers or not at all.
A registered connection starts with empty buffers, also when its object comes from the pool (`opened_unread`). So it
holds at every callback and after every carry-over, for any number of connections (`inbound_exact`).
-/

namespace Rnet

open Programs Relation

variable {η κ Msg : Type}

/-! ## One incarnation -/

/-- The input of an incarnation is all there, in order, and nothing else is. -/
def Incarnation.Exact (i : Incarnation κ) : Prop :=
  ∃ s, i.conn.socket = some s ∧ s.received = i.before ++ (i.consumed ++ i.conn.unread)

/-- What the loop saw is exact: at both ends of each callback and after the carry-over. -/
def Obs.Exact : Obs κ → Prop
  | .opens before after _ | .traffic before after _ | .closes before after _ => before.Exact ∧ after.Exact
  | .merged i => i.Exact
  | .ticks _ _ _ | .drops _ => True

/-- No callback of the handler decodes messages: it takes its input as bytes. -/
def ReadsBytes (η : Type) [EventHandler η κ Msg] : Prop := ∀ op : Op κ Msg, Performs η op → op ≠ .nextMessage

namespace Incarnation

variable {i j : Incarnation κ}

/-- Neither the bytes delivered nor the bytes consumed or unread change. -/
theorem Exact.keep (h : i.Exact) (hbefore : j.before = i.before)
    (hsock : j.conn.socket.map Socket.received = i.conn.socket.map Socket.received)
    (hbytes : j.consumed ++ j.conn.unread = i.consumed ++ i.conn.unread) : j.Exact := by
  obtain ⟨s, hs, hr⟩ := h
  rw [hs, Option.map_some] at hsock
  obtain ⟨t, ht, htr⟩ := Option.map_eq_some_iff.mp hsock
  exact ⟨t, ht, by rw [htr, hr, hbefore, hbytes]⟩

theorem received_of_inputSide {c c' : Connection κ}
    (h : c'.socket.map Socket.inputSide = c.socket.map Socket.inputSide) :
    c'.socket.map Socket.received = c.socket.map Socket.received := Socket.map_of_inputSide (fun x => x.2.2.1) h

/-- The operations of a callback. -/
theorem Exact.applyAll [Codec κ Msg] {ops : List (Op κ Msg)} (hops : ∀ op ∈ ops, op ≠ .nextMessage) (h : i.Exact)
    (hd : EventLoopHandle) : (Op.applyAll ops i hd).1.Exact := by
  obtain ⟨-, hbefore, hst⟩ := Op.applyAll_stable ops i hd
  exact h.keep hbefore (received_of_inputSide hst.socket) (Op.applyAll_unread hops i hd)

/-- One operation of a tick. -/
theorem Exact.apply [Codec κ Msg] {op : Op κ Msg} (hop : op ≠ .nextMessage) (h : i.Exact) (hd : EventLoopHandle) :
    (op.apply i hd).1.Exact :=
  h.applyAll (fun o (ho : o ∈ [op]) => by rwa [List.mem_singleton.mp ho]) hd

/-- What the loop does with the output. -/
theorem Exact.served {c : Connection κ} (h : i.Exact) (hc : i.conn.Served c) :
    ({ i with conn := c } : Incarnation κ).Exact := by
  have hsame : ∀ {c : Connection κ}, i.conn.SameInput c → ({ i with conn := c } : Incarnation κ).Exact := fun hs =>
    h.keep rfl (received_of_inputSide hs.socket) (by rw [hs.unread])
  cases hc with
  | interest s interest hs => exact h.keep rfl (by simp [hs]) rfl
  | processWrite maxBatch => exact hsame (i.conn.processWrite_sameInput maxBatch)
  | write data => exact hsame (i.conn.write_sameInput data)

theorem Exact.lastOutput (h : i.Exact) (graceful : Bool) :
    ({ i with conn := EventLoop.lastOutput graceful i.conn } : Incarnation κ).Exact := by
  unfold EventLoop.lastOutput
  split
  · have hs := i.conn.flush_sameInput
    exact h.keep rfl (received_of_inputSide hs.socket) (by rw [hs.unread])
  · exact h.keep rfl rfl rfl

/-- **A read** adds the same bytes on both sides. -/
theorem Exact.receive {s s' : Socket} {a : ReadAnswer} {n : Nat} {bs : Bytes} (h : i.Exact)
    (hs : i.conn.socket = some s) (ha : s.answerRead a n = (.ok bs, s')) (hset : i.conn.Settled) :
    ({ i with conn := { i.conn with socket := some s' }.receive bs } : Incarnation κ).Exact := by
  obtain ⟨t, ht, hr⟩ := h
  obtain rfl : s = t := Option.some.inj (hs.symm.trans ht)
  have hs' : s'.received = s.received ++ bs := by
    cases a with
    | data ds =>
      simp only [Socket.answerRead, Prod.mk.injEq, Except.ok.injEq] at ha
      obtain ⟨rfl, rfl⟩ := ha
      rfl
    | wouldBlock => simp [Socket.answerRead] at ha
    | interrupted => simp [Socket.answerRead] at ha
    | fatal code => simp [Socket.answerRead] at ha
  have hun : i.conn.unread = i.conn.inBuffer.getD [] := by
    rw [Connection.unread, hset, List.append_nil]
  refine ⟨s', rfl, ?_⟩
  rw [hs', hr, hun]
  simp [Connection.receive, Connection.unread, List.append_assoc]

/-- A read that brings nothing. -/
theorem Exact.readsNothing {s : Socket} {a : ReadAnswer} {n : Nat} (h : i.Exact) (hs : i.conn.socket = some s)
    (ha : ∀ bs, (s.answerRead a n).1 = .ok bs → bs = []) :
    ({ i with conn := { i.conn with socket := some (s.answerRead a n).2 } } : Incarnation κ).Exact := by
  have hr : (s.answerRead a n).2.received = s.received := by
    cases a with
    | data ds =>
      have := ha _ rfl
      simp [Socket.answerRead, this]
    | wouldBlock => rfl
    | interrupted => rfl
    | fatal code => rfl
  exact h.keep rfl (by simp [hs, hr]) rfl

/-- **The carry-over** moves the rest of the read behind the older input. -/
theorem Exact.carryOver (h : i.Exact) : ({ i with conn := i.conn.carryOver } : Incarnation κ).Exact := by
  have hc := i.conn.carryOver_carries
  exact h.keep rfl (by rw [hc.socket]) (by rw [hc.unread])

end Incarnation

namespace Connection

/-- A pooled object keeps no unread input of its previous user. -/
theorem opened_unread (pooled : Option (Connection κ)) (gfd : Gfd) (socket : Socket)
    (localAddr peerAddr : NetworkAddress) : (opened pooled gfd socket localAddr peerAddr).unread = [] := by
  cases pooled with
  | none => rfl
  | some c => cases hi : c.inBuffer <;> cases ho : c.ioBuffer <;> simp [opened, reset, unread, hi, ho]

theorem opened_socket (pooled : Option (Connection κ)) (gfd : Gfd) (socket : Socket)
    (localAddr peerAddr : NetworkAddress) : (opened pooled gfd socket localAddr peerAddr).socket = some socket := by
  cases pooled <;> rfl

end Connection

/-! ## All connections -/

namespace EventLoop

/-- All connections and everything recorded are exact. -/
structure InputExact (el : EventLoop η κ) : Prop where
  live : ∀ {k i}, el.connections.get k = some i → i.Exact
  trace : ∀ obs ∈ el.trace, obs.Exact

namespace InputExact

variable {el el' : EventLoop η κ} {key : Nat} {i : Incarnation κ}

theorem setIncarnation (h : el.InputExact) (hi : i.Exact) : (el.setIncarnation key i).InputExact where
  live {k j} hj := by
    by_cases hk : k = key
    · subst hk
      cases hg : el.connections.get k with
      | none =>
        have hnone : (el.connections.set k i).get k = none := by rw [Slab.set, dif_neg (by simp [hg]), hg]
        rw [EventLoop.setIncarnation, hnone] at hj
        cases hj
      | some i₀ =>
        rw [get_setIncarnation hg, if_pos rfl] at hj
        cases hj
        exact hi
    · rw [EventLoop.setIncarnation, Slab.get_set_ne hk] at hj
      exact h.live hj
  trace := h.trace

theorem record (h : el.InputExact) {obs : Obs κ} (hobs : obs.Exact) : (el.record obs).InputExact where
  live := h.live
  trace o ho := by
    rcases List.mem_append.mp ho with ho | ho
    · exact h.trace o ho
    · rw [List.mem_singleton.mp ho]
      exact hobs

/-- Only what no connection depends on differs. -/
theorem congr (h : el.InputExact) (hc : el'.connections = el.connections) (ht : el'.trace = el.trace) :
    el'.InputExact := by
  refine ⟨fun {k i} hi => ?_, fun obs hobs => ?_⟩
  · rw [hc] at hi
    exact h.live hi
  · rw [ht] at hobs
    exact h.trace obs hobs

theorem recycle (h : el.InputExact) : (el.recycle key i).InputExact := by
  unfold EventLoop.recycle
  refine record ?_ (show (Obs.drops i.id).Exact from trivial)
  refine ⟨fun {k j} hj => ?_, h.trace⟩
  rw [Slab.get_remove] at hj
  split at hj
  · cases hj
  · exact h.live hj

theorem enter (h : el.InputExact) (hi : i.Exact) : (el.enter i).InputExact where
  live {k j} hj := by
    rcases Slab.of_get_insert hj with ⟨-, rfl⟩ | hj
    · exact hi
    · exact h.live hj
  trace := h.trace

variable [Codec κ Msg]

/-- A callback on an exact connection. -/
theorem callback (h : el.InputExact) (hi : i.Exact) {r : Reaction κ Msg × η}
    (hops : ∀ op ∈ r.1.ops, op ≠ .nextMessage) {obs : Incarnation κ → Incarnation κ → Action → Obs κ}
    (hobs : ∀ b a act, b.Exact → a.Exact → (obs b a act).Exact) :
    (el.callback i r obs).1.Exact ∧ (el.callback i r obs).2.InputExact := by
  have ha := hi.applyAll hops el.handle
  refine ⟨ha, ?_⟩
  unfold EventLoop.callback
  have h' : ({ el with handler := r.2, handle := (Op.applyAll r.1.ops i el.handle).2 } : EventLoop η κ).InputExact :=
    h.congr rfl rfl
  exact h'.record (hobs _ _ _ hi ha)

end InputExact

variable [Codec κ Msg] [EventHandler η κ Msg] {el el' : EventLoop η κ} {key : Nat} {serving : Prop}

theorem InputExact.hears (h : el.InputExact) (hbytes : ReadsBytes η) {i : Incarnation κ}
    {s s' : Socket} {a : ReadAnswer} {n : Nat} {bs : Bytes} (hi : el.connections.get key = some i)
    (hs : i.conn.socket = some s) (ha : s.answerRead a n = (.ok bs, s')) (hset : i.conn.Settled) :
    (el.hears key i s' bs).1.Exact ∧ (el.hears key i s' bs).2.InputExact := by
  have hr := (h.live hi).receive hs ha hset
  exact (h.setIncarnation hr).callback hr (fun op hop => hbytes op (.onTraffic hop)) fun _ _ _ hb ha => ⟨hb, ha⟩

theorem InputExact.closing (h : el.InputExact) (hbytes : ReadsBytes η) {i : Incarnation κ}
    (hi : el.connections.get key = some i) (graceful : Bool) :
    (el.closing i graceful).1.Exact ∧ (el.closing i graceful).2.InputExact :=
  h.callback ((h.live hi).lastOutput graceful) (fun op hop => hbytes op (.onClose hop)) fun _ _ _ hb ha => ⟨hb, ha⟩

theorem InputExact.opening (h : el.InputExact) (hbytes : ReadsBytes η) (socket : Socket)
    (localAddr peerAddr : NetworkAddress) :
    (el.opening socket localAddr peerAddr).1.Exact ∧ (el.opening socket localAddr peerAddr).2.InputExact := by
  have hi : (el.incarnation socket localAddr peerAddr).Exact :=
    ⟨_, Connection.opened_socket _ _ _ _ _, by simp [incarnation, Connection.opened_unread]⟩
  have hm : el.minting.InputExact := h.congr rfl rfl
  exact hm.callback hi (fun op hop => hbytes op (.onOpen hop)) fun _ _ _ hb ha => ⟨hb, ha⟩

/-- **Every effect keeps all connections exact.** -/
theorem Effect.exact (hbytes : ReadsBytes η) (he : Effect serving key el el')
    (h : el.InputExact) : el'.InputExact := by
  cases he with
  | neutral hn => exact h.congr hn.connections hn.trace
  | push priority cmd _ => exact h.congr rfl rfl
  | serves i c hi hc _ => exact h.setIncarnation ((h.live hi).served hc)
  | readsNothing i s a n hi hs ha => exact h.setIncarnation ((h.live hi).readsNothing hs ha)
  | traffic i s a n s' bs hi hs ha hne hset hact =>
    obtain ⟨hi', hel⟩ := h.hears hbytes hi hs ha hset
    exact ((hel.setIncarnation hi').setIncarnation hi'.carryOver).record hi'.carryOver
  | lastTraffic i s a n s' bs hi hs ha hne hset hact =>
    obtain ⟨hi', hel⟩ := h.hears hbytes hi hs ha hset
    exact hel.setIncarnation hi'
  | closes i graceful hi _ =>
    obtain ⟨hi', hel⟩ := h.closing hbytes hi graceful
    exact (hel.setIncarnation hi').recycle
  | failsToClose i graceful e hi he _ =>
    obtain ⟨hi', hel⟩ := h.closing hbytes hi graceful
    exact hel.setIncarnation hi'
  | ticks op hd conns hop _ =>
    unfold tickOp
    cases hi : el.connections.get key with
    | none => exact h
    | some i =>
      have h' : (el.withHandle (op.apply i el.handle).2).InputExact := h.congr rfl rfl
      exact h'.setIncarnation ((h.live hi).apply (hbytes _ (.onTick hop)) el.handle)
  | recordsTick before after action _ => exact h.record trivial

theorem Registers.exact (hbytes : ReadsBytes η) (hr : Registers el el') (h : el.InputExact) :
    el'.InputExact := by
  cases hr with
  | admits socket localAddr peerAddr hact =>
    obtain ⟨hi, hel⟩ := h.opening hbytes socket localAddr peerAddr
    exact hel.enter hi
  | refuses socket localAddr peerAddr hact => exact (h.opening hbytes socket localAddr peerAddr).2
  | dropsRefused before after action hobs hact => exact h.record trivial

theorem Evolves.exact (hbytes : ReadsBytes η) (he : Evolves el el') (h : el.InputExact) :
    el'.InputExact := by
  cases he with
  | change hc =>
    rcases hc with ⟨key, he⟩ | hr
    · exact he.exact hbytes h
    · exact hr.exact hbytes h
  | takes hq => exact h.congr rfl rfl
  | gets priority cmd => exact h.congr rfl rfl
  | mints n => exact h.congr rfl rfl
  | drops hi => exact h.record trivial

end EventLoop

namespace Machine

open EventLoop Runs

variable [Codec κ Msg] [EventHandler η κ Msg]

/-- **Inbound streams are exact and isolated.** In every run of a loop, at both ends of every callback, after every
carry-over and for every live connection, what was consumed and what is unread together are what the connection's own
socket delivered since it was registered. -/
theorem inbound_exact (hbytes : ReadsBytes η) {el : EventLoop η κ} (hfresh : el.Fresh)
    {ls : List (Label η)} {m : Machine η κ} (hrun : run step (initial el) ls = some m) :
    (∀ obs ∈ m.el.trace, obs.Exact) ∧ ∀ k i, m.el.connections.get k = some i → i.Exact := by
  have h0 : el.InputExact :=
    ⟨fun {k i} hi => by simp [hfresh.connections] at hi, fun obs hobs => by simp [hfresh.trace] at hobs⟩
  have h := (run_evolves (fun _ _ he => he.exact hbytes) hfresh h0 hrun).1
  exact ⟨h.trace, fun _ _ => h.live⟩

end Machine

/-- A handler that takes at most three bytes of each read. -/
inductive Sipper
  | mk

instance : EventHandler Sipper RawCodec RawMsg where
  onOpen h _ := (⟨[], .none⟩, h)
  onTraffic h _ := (⟨[.nextContiguous (some 2), .read 1], .none⟩, h)
  onClose h _ := (⟨[], .none⟩, h)
  onTick h _ := (⟨[], 0, .none⟩, h)

theorem sipper_readsBytes : ReadsBytes Sipper := by
  rintro op (hop | hop | hop | hop)
  · cases hop
  · rcases List.mem_pair.mp hop with rfl | rfl <;> simp
  · cases hop
  · cases hop

namespace Machine

open EventLoop Runs

/-- Two connections, the second in the object of the first, which left two bytes behind. -/
def sips : List (Label Sipper) :=
  [.accept ⟨4, [], [.data [1, 2, 3, 4, 5], .data []], [], [], none⟩ (.tcp "a") (.tcp "b"), .advance, .advance, .poll [],
    .advance, .advance, .advance, .tick false, .advance, .poll [⟨0, true, false, false, false⟩], .advance,
    .accept ⟨5, [], [.data [6]], [], [], none⟩ (.tcp "a") (.tcp "c"), .advance, .tick false, .advance, .poll [],
    .advance, .advance, .advance, .tick false, .advance, .poll [⟨0, true, false, false, false⟩], .advance]

theorem inbound_exact_sips :
    ∃ m, run step (initial (new 0 ⟨64, 8, false⟩ Sipper.mk [] [] (fun _ => 0) 0)) sips = some m ∧
      (∀ obs ∈ m.el.trace, obs.Exact) ∧ ∀ k i, m.el.connections.get k = some i → i.Exact := by
  have hsome : (run step (initial (new 0 ⟨64, 8, false⟩ Sipper.mk [] [] (fun _ => 0) 0)) sips).isSome = true := by
    decide +kernel
  obtain ⟨m, hm⟩ := Option.isSome_iff_exists.mp hsome
  exact ⟨m, hm, inbound_exact sipper_readsBytes (new_fresh _ _ _ _ _ _ _) hm⟩

end Machine
end Rnet
