import Rnet.EventLoop.Steps

/-!
# Who is who

An effect changes neither the number of an incarnation nor its descriptor (`Effect.same`), and a registration makes a
new number. So in every run the live connections have sockets, different numbers below `minted`, and the descriptor made
from the number, the socket, the loop and the slab key (`Sound`). With fewer than `2^32` descriptors made, different
numbers make different descriptors (`Gfd.seq_inj`).
-/

namespace Rnet

open Programs Relation

variable {η κ Msg : Type}

/-! ## What an effect leaves alone -/

/-- The same incarnation, later. -/
structure Incarnation.Same (i j : Incarnation κ) : Prop where
  id : j.id = i.id
  gfd : j.conn.gfd = i.conn.gfd
  fd : j.conn.socket.map Socket.fd = i.conn.socket.map Socket.fd

namespace Incarnation.Same

variable {i j k : Incarnation κ} {c : Connection κ}

theorem refl (i : Incarnation κ) : i.Same i := ⟨rfl, rfl, rfl⟩

theorem trans (h : i.Same j) (h' : j.Same k) : i.Same k := ⟨h'.id.trans h.id, h'.gfd.trans h.gfd, h'.fd.trans h.fd⟩

theorem fd_of_inputSide {c c' : Connection κ} (h : c'.socket.map Socket.inputSide = c.socket.map Socket.inputSide) :
    c'.socket.map Socket.fd = c.socket.map Socket.fd := Socket.map_of_inputSide (fun x => x.1) h

theorem ofStable (h : i.conn.Stable c) : i.Same { i with conn := c } := ⟨rfl, h.gfd, fd_of_inputSide h.socket⟩

theorem applyAll [Codec κ Msg] (ops : List (Op κ Msg)) (i : Incarnation κ) (h : EventLoopHandle) :
    i.Same (Op.applyAll ops i h).1 := by
  obtain ⟨hid, -, hs⟩ := Op.applyAll_stable ops i h
  exact ⟨hid, hs.gfd, fd_of_inputSide hs.socket⟩

theorem served (h : i.conn.Served c) : i.Same { i with conn := c } := by
  cases h with
  | interest s interest hs => exact ⟨rfl, rfl, by simp [hs]⟩
  | processWrite maxBatch => exact ofStable (i.conn.processWrite_sameInput maxBatch).stable
  | write data => exact ofStable (i.conn.write_sameInput data).stable

theorem lastOutput (graceful : Bool) (i : Incarnation κ) :
    i.Same { i with conn := EventLoop.lastOutput graceful i.conn } := by
  unfold EventLoop.lastOutput
  split
  · exact ofStable i.conn.flush_sameInput.stable
  · exact ⟨rfl, rfl, rfl⟩

theorem answerRead {s : Socket} (hs : i.conn.socket = some s) (a : ReadAnswer) (n : Nat) :
    i.Same { i with conn := { i.conn with socket := some (s.answerRead a n).2 } } :=
  ⟨rfl, rfl, by cases a <;> simp [hs, Socket.answerRead]⟩

theorem carryOver (i : Incarnation κ) : i.Same { i with conn := i.conn.carryOver } := by
  unfold Connection.carryOver
  cases i.conn.ioBuffer with
  | none => exact refl i
  | some io =>
    simp only
    split
    · exact ⟨rfl, rfl, rfl⟩
    · cases i.conn.inBuffer <;> exact ⟨rfl, rfl, rfl⟩

end Incarnation.Same

namespace Incarnation

variable [Codec κ Msg] {i j : Incarnation κ}

/-- One thing that happens to a connection while it is in the slab. -/
inductive Step (i : Incarnation κ) : Incarnation κ → Prop
  | served {c : Connection κ} (hc : i.conn.Served c) : Step i { i with conn := c }
  | reads {s : Socket} (hs : i.conn.socket = some s) (a : ReadAnswer) (n : Nat) :
      Step i { i with conn := { i.conn with socket := some (s.answerRead a n).2 } }
  | receives (bs : Bytes) : Step i { i with conn := i.conn.receive bs }
  | performs (ops : List (Op κ Msg)) (h : EventLoopHandle) : Step i (Op.applyAll ops i h).1
  | lastOutput (graceful : Bool) : Step i { i with conn := EventLoop.lastOutput graceful i.conn }
  | carriesOver : Step i { i with conn := i.conn.carryOver }

theorem Step.same (h : Step i j) : i.Same j := by
  cases h with
  | served hc => exact .served hc
  | reads hs a n => exact .answerRead hs a n
  | receives bs => exact ⟨rfl, rfl, rfl⟩
  | performs ops h => exact .applyAll ops i h
  | lastOutput graceful => exact .lastOutput graceful i
  | carriesOver => exact .carryOver i

theorem same_of_steps (h : ReflTransGen Step i j) : i.Same j :=
  invariant_of_steps (P := fun j => i.Same j) h (fun _ _ hs hi => hi.trans hs.same) (.refl i)

end Incarnation

namespace EventLoop

/-- A live connection afterwards is one from before, at the same key. -/
def Keeps (el el' : EventLoop η κ) : Prop :=
  ∀ (k : Nat) (j : Incarnation κ), el'.connections.get k = some j → ∃ i, el.connections.get k = some i ∧ i.Same j

theorem Keeps.of_eq {el el' : EventLoop η κ} (h : el'.connections = el.connections) : el.Keeps el' := by
  intro k j hj
  rw [h] at hj
  exact ⟨j, hj, .refl j⟩

theorem Keeps.trans {el el' el'' : EventLoop η κ} (h : el.Keeps el') (h' : el'.Keeps el'') : el.Keeps el'' := by
  intro k j hj
  obtain ⟨i, hi, hij⟩ := h' k j hj
  obtain ⟨i₀, hi₀, h₀⟩ := h k i hi
  exact ⟨i₀, hi₀, h₀.trans hij⟩

variable [Codec κ Msg] [EventHandler η κ Msg] {el el' : EventLoop η κ} {key : Nat} {serving : Prop}

/-- The record of `on_close`. -/
def closeObs (el : EventLoop η κ) (i : Incarnation κ) (graceful : Bool) : Obs κ :=
  .closes { i with conn := lastOutput graceful i.conn } (el.closing i graceful).1
    (EventHandler.onClose el.handler (lastOutput graceful i.conn)).1.action

theorem closing_same (el : EventLoop η κ) (i : Incarnation κ) (graceful : Bool) : i.Same (el.closing i graceful).1 :=
  (Incarnation.Same.lastOutput graceful i).trans (.applyAll _ _ _)

theorem closed_trace (key : Nat) (i : Incarnation κ) (graceful : Bool) :
    (el.closed key i graceful).trace = el.trace ++ [el.closeObs i graceful] := rfl

/-- The state after a connection has been closed. -/
def gone (el : EventLoop η κ) (key : Nat) (i : Incarnation κ) (graceful : Bool) : EventLoop η κ :=
  (el.closed key i graceful).recycle key (el.closing i graceful).1

theorem gone_trace (el : EventLoop η κ) (key : Nat) (i : Incarnation κ) (graceful : Bool) :
    (el.gone key i graceful).trace = el.trace ++ [el.closeObs i graceful, .drops i.id] := by
  rw [← (closing_same el i graceful).id]
  show (el.trace ++ [_]) ++ [_] = _
  rw [List.append_assoc]
  rfl

theorem gone_get (el : EventLoop η κ) (key : Nat) (i : Incarnation κ) (graceful : Bool) (k : Nat) :
    (el.gone key i graceful).connections.get k = if k = key then none else el.connections.get k := by
  refine Slab.get_remove.trans ?_
  split
  · rfl
  · rename_i hk
    exact Slab.get_set_ne hk

/-- A read and the `on_traffic` that follows it. -/
theorem hears_steps {i : Incarnation κ} {s s' : Socket} {a : ReadAnswer} {n : Nat} {bs : Bytes}
    (hs : i.conn.socket = some s) (ha : s.answerRead a n = (.ok bs, s')) :
    ReflTransGen Incarnation.Step i (el.hears key i s' bs).1 := by
  have h₁ : Incarnation.Step i { i with conn := { i.conn with socket := some (s.answerRead a n).2 } } := .reads hs a n
  rw [ha] at h₁
  exact ((ReflTransGen.single h₁).tail (.receives bs)).tail (.performs _ _)

theorem closing_steps (el : EventLoop η κ) (i : Incarnation κ) (graceful : Bool) :
    ReflTransGen Incarnation.Step i (el.closing i graceful).1 :=
  (ReflTransGen.single (.lastOutput graceful)).tail (.performs _ _)

/-- **A live connection after an effect** was live before, at the same key, and went through some steps. -/
theorem Effect.steps (h : Effect serving key el el') {k : Nat} {j : Incarnation κ}
    (hj : el'.connections.get k = some j) :
    ∃ i, el.connections.get k = some i ∧ ReflTransGen Incarnation.Step i j := by
  by_cases hk : k = key
  · subst hk
    cases h with
    | neutral h => exact ⟨j, h.connections ▸ hj, .refl⟩
    | push priority cmd _ => exact ⟨j, hj, .refl⟩
    | serves i c hi hc _ =>
      cases (get_setIncarnation_self hi _).symm.trans hj
      exact ⟨i, hi, .single (.served hc)⟩
    | readsNothing i s a n hi hs ha =>
      cases (get_setIncarnation_self hi _).symm.trans hj
      exact ⟨i, hi, .single (.reads hs a n)⟩
    | traffic i s a n s' bs hi hs ha hne hset hact =>
      have h₁ : (el.hears k i s' bs).2.connections.get k = _ := get_setIncarnation_self hi _
      cases (get_setIncarnation_self (get_setIncarnation_self h₁ (el.hears k i s' bs).1) _).symm.trans hj
      exact ⟨i, hi, (hears_steps hs ha).tail .carriesOver⟩
    | lastTraffic i s a n s' bs hi hs ha hne hset hact =>
      have h₁ : (el.hears k i s' bs).2.connections.get k = _ := get_setIncarnation_self hi _
      cases (get_setIncarnation_self h₁ (el.hears k i s' bs).1).symm.trans hj
      exact ⟨i, hi, hears_steps hs ha⟩
    | closes i graceful hi _ => cases ((gone_get el k i graceful k).trans (if_pos rfl)).symm.trans hj
    | failsToClose i graceful e hi he _ =>
      have h₁ : (el.closing i graceful).2.connections.get k = some i := hi
      cases (get_setIncarnation_self h₁ (el.closing i graceful).1).symm.trans hj
      exact ⟨i, hi, closing_steps el i graceful⟩
    | ticks op hd conns hop _ =>
      unfold tickOp at hj
      cases hi : el.connections.get k with
      | none =>
        rw [hi] at hj
        cases hi.symm.trans hj
      | some i =>
        rw [hi] at hj
        have h₁ : (el.withHandle (op.apply i el.handle).2).connections.get k = some i := hi
        cases (get_setIncarnation_self h₁ (op.apply i el.handle).1).symm.trans hj
        exact ⟨i, rfl, .single (.performs [op] el.handle)⟩
    | recordsTick before after action _ => exact ⟨j, hj, .refl⟩
  · exact ⟨j, (h.frame hk).symm.trans hj, .refl⟩

/-- **An effect leaves every incarnation where and who it is**, unless it closes it. -/
theorem Effect.same (h : Effect serving key el el') : el.Keeps el' := fun _ _ hj => by
  obtain ⟨i, hi, hij⟩ := h.steps hj
  exact ⟨i, hi, Incarnation.same_of_steps hij⟩

/-- An effect makes no descriptors. -/
theorem Effect.minted (h : Effect serving key el el') : el'.minted = el.minted ∧ el'.loopId = el.loopId := by
  cases h with
  | neutral h => exact ⟨h.minted, h.loopId⟩
  | ticks op hd conns hop _ =>
    unfold tickOp
    split <;> exact ⟨rfl, rfl⟩
  | _ => exact ⟨rfl, rfl⟩

/-! ## The invariant -/

/-- The live connections are what `register` made, at the keys it put them. -/
structure Sound (el : EventLoop η κ) : Prop where
  gfd : ∀ {k i}, el.connections.get k = some i →
    ∃ s, i.conn.socket = some s ∧ i.conn.gfd = .new i.id s.fd el.loopId k
  minted : ∀ {k i}, el.connections.get k = some i → i.id < el.minted
  distinct : ∀ {k k' i j}, el.connections.get k = some i → el.connections.get k' = some j → i.id = j.id → k = k'

omit [Codec κ Msg] [EventHandler η κ Msg] in
theorem Sound.keeps (h : el.Sound) (hk : el.Keeps el') (hm : el.minted ≤ el'.minted) (hl : el'.loopId = el.loopId) :
    el'.Sound where
  gfd {k j} hj := by
    obtain ⟨i, hi, hij⟩ := hk _ _ hj
    obtain ⟨s, hs, hg⟩ := h.gfd hi
    have hfd := hij.fd
    rw [hs, Option.map_some] at hfd
    obtain ⟨t, ht, htfd⟩ := Option.map_eq_some_iff.mp hfd
    exact ⟨t, ht, by rw [hij.gfd, hij.id, htfd, hl, hg]⟩
  minted {k j} hj := by
    obtain ⟨i, hi, hij⟩ := hk _ _ hj
    rw [hij.id]
    exact Nat.lt_of_lt_of_le (h.minted hi) hm
  distinct {k k' j j'} hj hj' hid := by
    obtain ⟨i, hi, hij⟩ := hk _ _ hj
    obtain ⟨i', hi', hij'⟩ := hk _ _ hj'
    exact h.distinct hi hi' (by rw [← hij.id, ← hij'.id, hid])

theorem Effect.sound (he : Effect serving key el el') (h : el.Sound) : el'.Sound :=
  h.keeps he.same (Nat.le_of_eq he.minted.1.symm) he.minted.2

/-- The incarnation a registration makes, after `on_open`. -/
theorem opening_same (el : EventLoop η κ) (socket : Socket) (localAddr peerAddr : NetworkAddress) :
    (el.incarnation socket localAddr peerAddr).Same (el.opening socket localAddr peerAddr).1 := .applyAll _ _ _

omit [Codec κ Msg] [EventHandler η κ Msg] in
theorem incarnation_gfd (el : EventLoop η κ) (socket : Socket) (localAddr peerAddr : NetworkAddress) :
    (el.incarnation socket localAddr peerAddr).conn.gfd =
      .new el.minted socket.fd el.loopId el.connections.vacantKey := by
  unfold incarnation Connection.opened
  cases el.connectionPool.head? <;> rfl

omit [Codec κ Msg] [EventHandler η κ Msg] in
theorem incarnation_socket (el : EventLoop η κ) (socket : Socket) (localAddr peerAddr : NetworkAddress) :
    (el.incarnation socket localAddr peerAddr).conn.socket = some { socket with interest := some .readable } := by
  unfold incarnation Connection.opened
  cases el.connectionPool.head? <;> rfl

theorem opening_gfd (el : EventLoop η κ) (socket : Socket) (localAddr peerAddr : NetworkAddress) :
    (el.opening socket localAddr peerAddr).1.conn.gfd =
      .new el.minted socket.fd el.loopId el.connections.vacantKey :=
  (opening_same el socket localAddr peerAddr).gfd.trans (incarnation_gfd el socket localAddr peerAddr)

theorem opening_socket (el : EventLoop η κ) (socket : Socket) (localAddr peerAddr : NetworkAddress) :
    ∃ s, (el.opening socket localAddr peerAddr).1.conn.socket = some s ∧ s.fd = socket.fd := by
  have h := (opening_same el socket localAddr peerAddr).fd
  rw [incarnation_socket, Option.map_some] at h
  exact Option.map_eq_some_iff.mp h

theorem Sound.admits (h : el.Sound) (socket : Socket) (localAddr peerAddr : NetworkAddress) :
    ((el.opening socket localAddr peerAddr).2.enter (el.opening socket localAddr peerAddr).1).Sound := by
  have hid : (el.opening socket localAddr peerAddr).1.id = el.minted := (opening_same el socket localAddr peerAddr).id
  have hget : ∀ {k j}, ((el.opening socket localAddr peerAddr).2.enter
      (el.opening socket localAddr peerAddr).1).connections.get k = some j →
      (k = el.connections.vacantKey ∧ j = (el.opening socket localAddr peerAddr).1) ∨
        el.connections.get k = some j := Slab.of_get_insert
  refine ⟨fun {k j} hj => ?_, fun {k j} hj => ?_, fun {k k' j j'} hj hj' hjj => ?_⟩
  · rcases hget hj with ⟨rfl, rfl⟩ | hj
    · obtain ⟨s, hs, hfd⟩ := opening_socket el socket localAddr peerAddr
      exact ⟨s, hs, by rw [hid, hfd]; exact opening_gfd el socket localAddr peerAddr⟩
    · exact h.gfd hj
  · rcases hget hj with ⟨-, rfl⟩ | hj
    · rw [hid]
      exact Nat.lt_succ_self _
    · exact Nat.lt_succ_of_lt (h.minted hj)
  · rcases hget hj with ⟨rfl, rfl⟩ | hj₀ <;> rcases hget hj' with ⟨rfl, rfl⟩ | hj₀'
    · rfl
    · have := h.minted hj₀'
      omega
    · have := h.minted hj₀
      omega
    · exact h.distinct hj₀ hj₀' hjj

theorem Registers.sound (hr : Registers el el') (h : el.Sound) : el'.Sound := by
  cases hr with
  | admits socket localAddr peerAddr hact => exact h.admits socket localAddr peerAddr
  | refuses socket localAddr peerAddr hact => exact h.keeps (.of_eq rfl) (Nat.le_succ _) rfl
  | dropsRefused before after action hobs hact => exact h.keeps (.of_eq rfl) (Nat.le_refl _) rfl

theorem Evolves.sound (he : Evolves el el') (h : el.Sound) : el'.Sound := by
  cases he with
  | change hc =>
    rcases hc with ⟨key, he⟩ | hr
    · exact he.sound h
    · exact hr.sound h
  | takes hq => exact h.keeps (.of_eq rfl) (Nat.le_refl _) rfl
  | gets priority cmd => exact h.keeps (.of_eq rfl) (Nat.le_refl _) rfl
  | mints n => exact h.keeps (.of_eq rfl) (Nat.le_add_right _ _) rfl
  | drops hi => exact h.keeps (.of_eq rfl) (Nat.le_refl _) rfl

omit [Codec κ Msg] [EventHandler η κ Msg] in
theorem Fresh.sound (h : el.Fresh) : el.Sound := by
  refine ⟨fun {k i} hi => ?_, fun {k i} hi => ?_, fun {k k' i j} hi => ?_⟩ <;> simp [h.connections] at hi

end EventLoop
end Rnet
