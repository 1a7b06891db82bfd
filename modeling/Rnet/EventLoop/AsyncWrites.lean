import Rnet.Connection.Outbound
import Rnet.EventLoop.Errors
import Rnet.EventLoop.Queues

/-!
# Asynchronous writes

`AsyncWrite(gfd, data)` finds its connection by the slab key in the descriptor and compares the descriptor. If it
finds the connection, `data` is appended to its output, or it is closed because its socket failed
(`asyncWrite_delivers`); otherwise nothing happens (`asyncWrite_misses`). No other connection is touched
(`asyncWrite_frame`).

Where all senders name the loop by the descriptor they write to, the commands that wait in the queues of a loop are for
descriptors of that loop (`Routed`).
-/

namespace Rnet

open Programs Relation

variable {η κ Msg : Type}

/-- A write fails for good: what is only a delay is queued. -/
theorem Connection.write_error {c : Connection κ} {data : Bytes} {e : IoError} (h : (c.write data).1 = .error e) :
    e.isTransient = false := by
  unfold write writeOrQueue at h
  dsimp only at h
  split at h
  · cases h
  · cases hs : c.socket with
    | none =>
      rw [hs] at h
      cases h
      rfl
    | some s =>
      simp only [hs] at h
      rcases hw : s.write data with ⟨⟨e'⟩ | ⟨n⟩, s'⟩
      · simp only [hw] at h
        split at h
        · cases h
        · rename_i ht
          cases h
          exact eq_false_of_ne_true ht
      · simp only [hw] at h
        cases h

namespace EventLoop

/-! ## One command -/

/-- What an `AsyncWrite` does with the connection it is for. `trace` is what was recorded before, and `live` says
whether the loop goes on. -/
inductive Delivers (live : Prop) (key : Nat) (i : Incarnation κ) (data : Bytes) (trace : List (Obs κ))
    (t : EventLoop η κ) : Prop
  | appends {n : Nat} {j : Incarnation κ} (hwrite : (i.conn.write data).1 = .ok n)
      (hj : t.connections.get key = some j) (hsame : i.Same j) (hout : j.conn.outStream = i.conn.outStream ++ data)
  /-- the socket failed, and the connection got `on_close` -/
  | closes {e : IoError} {before after : Incarnation κ} {action : Action} {rest : List (Obs κ)}
      (hwrite : (i.conn.write data).1 = .error e) (he : e.isTransient = false)
      (htrace : t.trace = trace ++ .closes before after action :: rest) (hid : before.id = i.id)
      (hgone : live → t.connections.get key = none)

theorem Delivers.mono {live live' : Prop} {key : Nat} {i : Incarnation κ} {data : Bytes} {trace : List (Obs κ)}
    {t : EventLoop η κ} (h : Delivers live key i data trace t) (hl : live' → live) :
    Delivers live' key i data trace t := by
  cases h with
  | appends hwrite hj hsame hout => exact .appends hwrite hj hsame hout
  | closes hwrite he htrace hid hgone => exact .closes hwrite he htrace hid fun h => hgone (hl h)

variable [Codec κ Msg] [EventHandler η κ Msg] {el el' t : EventLoop η κ} {key : Nat} {gfd : Gfd} {data : Bytes}
  {i : Incarnation κ}

omit [Codec κ Msg] [EventHandler η κ Msg] in
/-- A registration changes no output, whether the poller makes it or not. -/
theorem reregister_final (hi : el.connections.get key = some i) (hs : i.conn.socket.isSome) :
    ∃ j, (final (reregister key) el).connections.get key = some j ∧ i.Same j ∧ j.conn.outStream = i.conn.outStream := by
  obtain ⟨s, hs⟩ := Option.isSome_iff_exists.mp hs
  have hi' : (el.polled.registering key).connections.get key = some i := hi
  have hr : reregister key el = (pollResult >>= fun _ => modify fun el => (el.registering key).setIncarnation key
      { i with conn := { i.conn with socket := some { s with
        interest := some (if i.conn.queued.isEmpty then .readable else .readableWritable) } } } :
      LoopM η κ Unit) el := by
    unfold reregister
    rw [get_bind]
    simp only [hi, hs]
  rw [final, hr, bind_apply]
  rcases pollResult_cases el with h | ⟨e, h, -⟩
  · rw [h]
    refine ⟨_, get_setIncarnation_self hi' _, ⟨rfl, rfl, by simp [hs]⟩, ?_⟩
    simp [Connection.outStream, Connection.sent, Connection.queued, hs]
  · rw [h]
    exact ⟨i, hi, .refl i, rfl⟩

/-- A connection that is closed gets `on_close`, and is gone if the loop goes on. -/
theorem closeConnection_final_trace (hi : el.connections.get key = some i) (graceful : Bool) :
    ∃ rest, (final (closeConnection key graceful) el).trace = el.trace ++ el.closeObs i graceful :: rest := by
  rcases closeConnection_cases hi graceful with ⟨t, h, rfl | rfl⟩ | ⟨e, h, -⟩
  · rw [final_of_ok h]
    exact ⟨_, gone_trace el key i graceful⟩
  · rw [final_of_ok h]
    exact ⟨_, gone_trace el key i graceful⟩
  · rw [final_of_error h]
    exact ⟨[], closed_trace key i graceful⟩

/-- A command for a connection that is not there does nothing. -/
theorem asyncWrite_misses (h : ∀ i, el.connections.get gfd.slabIndex = some i → i.conn.gfd ≠ gfd) (data : Bytes) :
    asyncWrite gfd data el = .ok ⟨⟩ el := by
  unfold asyncWrite
  rw [get_bind]
  dsimp only
  split
  · rfl
  · cases hi : el.connections.get gfd.slabIndex with
    | none => rfl
    | some i =>
      simp only [if_pos (h i hi)]
      rfl

/-- **A command for a live connection** appends to its output, or closes it. -/
theorem asyncWrite_delivers (hl : gfd.eventLoopIndex = el.loopId.toNat)
    (hi : el.connections.get gfd.slabIndex = some i) (hg : i.conn.gfd = gfd) (hs : i.conn.socket.isSome) :
    Delivers (asyncWrite gfd data el = .ok ⟨⟩ (final (asyncWrite gfd data) el)) gfd.slabIndex i data el.trace
      (final (asyncWrite gfd data) el) := by
  let j : Incarnation κ := { i with conn := (i.conn.write data).2 }
  have hj : (el.setIncarnation gfd.slabIndex j).connections.get gfd.slabIndex = some j := get_setIncarnation_self hi j
  have hsame : i.Same j := .served (.write data)
  have hjs : j.conn.socket.isSome := by
    rw [← Option.isSome_map (f := Socket.fd), hsame.fd, Option.isSome_map]
    exact hs
  have hout : j.conn.outStream = _ := i.conn.write_stream data
  cases hw : (i.conn.write data).1 with
  | ok n =>
    have hrun : asyncWrite gfd data el = reregister gfd.slabIndex (el.setIncarnation gfd.slabIndex j) := by
      unfold asyncWrite
      rw [get_bind, if_neg (not_not.mpr hl)]
      simp only [hi, if_neg (not_not.mpr hg), set_bind, hw]
      rfl
    rw [hw] at hout
    obtain ⟨u, hu, hju, hout'⟩ := reregister_final (i := j) hj hjs
    refine .appends hw ?_ (hsame.trans hju) (hout'.trans hout)
    rw [final, hrun]
    exact hu
  | error e =>
    have hrun : asyncWrite gfd data el = closeConnection gfd.slabIndex false (el.setIncarnation gfd.slabIndex j) := by
      unfold asyncWrite
      rw [get_bind, if_neg (not_not.mpr hl)]
      simp only [hi, if_neg (not_not.mpr hg), set_bind, hw]
      rfl
    obtain ⟨rest, hrest⟩ := closeConnection_final_trace hj false
    have hfinal : final (asyncWrite gfd data) el =
        final (closeConnection gfd.slabIndex false) (el.setIncarnation gfd.slabIndex j) := by
      rw [final, hrun]
      rfl
    have hid : ({ j with conn := lastOutput false j.conn } : Incarnation κ).id = i.id := rfl
    refine .closes hw (Connection.write_error hw) (by rw [hfinal]; exact hrest) hid fun hok => ?_
    rw [hrun] at hok
    exact closeConnection_ok hok

/-- **No other connection is touched.** -/
theorem asyncWrite_frame (hs : el.Socketed) {k : Nat} (hk : k ≠ gfd.slabIndex) :
    (final (asyncWrite gfd data) el).connections.get k = el.connections.get k := by
  cases h : asyncWrite gfd data el with
  | ok a t =>
    rw [final_of_ok h]
    exact frame ((asyncWrite_leads gfd data el).ok h) hk
  | error e t =>
    rw [final_of_error h]
    -- an `AsyncWrite` shuts nothing down
    cases asyncWrite_failsBy (C := fun _ => False) hs gfd data e t h with
    | shutdown u v hu hc hsh he ht => exact hc.elim
    | polled u hu he ht =>
      rw [ht]
      exact frame hu hk

/-! ## What waits in the queues -/

/-- Every `AsyncWrite` in the queues is for a descriptor that names this loop. -/
def Routed (el : EventLoop η κ) : Prop :=
  ∀ q ∈ el.handle.queued, ∀ g ∈ q.cmd.addressee, g.eventLoopIndex = el.handle.idx

end EventLoop

/-- A command is sent by the descriptor it is for. -/
def Command.AddressedTo (cmd : Command) (gfd : Gfd) : Prop := ∀ g ∈ cmd.addressee, g = gfd

/-- Every `AsyncWrite(g, _)` that a callback sends is sent by `send_command(g, _)`. -/
def Addressed (η : Type) {κ Msg : Type} [EventHandler η κ Msg] : Prop :=
  ∀ (gfd : Gfd) (cmd : Command), Performs η (.sendCommand gfd cmd : Op κ Msg) → cmd.AddressedTo gfd

namespace EventLoop

variable [Codec κ Msg] [EventHandler η κ Msg] {el el' t : EventLoop η κ} {key : Nat} {serving : Prop}

omit [Codec κ Msg] in
theorem Sends.routed (haddr : Addressed η) {idx : Nat} {g₀ g : Gfd} {q : Queued} (h : Sends η idx g₀ q)
    (hg : g ∈ q.cmd.addressee) : g.eventLoopIndex = idx := by
  obtain ⟨op, hop, c, -, hq⟩ := h
  cases op with
  | close =>
    rw [List.mem_singleton.mp hq] at hg
    cases hg
  | sendCommand gfd cmd =>
    simp only [Op.commands] at hq
    split at hq
    · rename_i hidx
      rw [List.mem_singleton.mp hq] at hg
      rw [haddr gfd cmd hop g hg, hidx]
    · cases hq
  | _ => cases hq

omit [Codec κ Msg] [EventHandler η κ Msg] in
/-- Only commands that name this loop are new in the queues. -/
theorem Routed.grows (h : el.Routed) (hidx : el'.handle.idx = el.handle.idx)
    (hnew : ∀ q ∈ el'.handle.queued, q ∈ el.handle.queued ∨ ∀ g ∈ q.cmd.addressee, g.eventLoopIndex = el.handle.idx) :
    el'.Routed := by
  intro q hq g hg
  rw [hidx]
  exact (hnew q hq).elim (fun hq => h q hq g hg) fun hq => hq g hg

theorem Effect.routed (haddr : Addressed η) (he : Effect serving key el el') (h : el.Routed) : el'.Routed := by
  refine h.grows he.grown.idx fun q hq => ?_
  rcases he.queued hq with hq | ⟨-, hq⟩ | ⟨i, hi, hs⟩
  · exact Or.inl hq
  · exact Or.inr fun g hg => by rw [hq] at hg; cases hg
  · exact Or.inr fun g hg => hs.routed haddr hg

theorem Registers.routed (haddr : Addressed η) (hr : Registers el el') (h : el.Routed) : el'.Routed := by
  refine h.grows hr.grown.idx fun q hq => ?_
  cases hr with
  | admits socket localAddr peerAddr hact =>
    exact (queued_opening (show q ∈ (el.opening socket localAddr peerAddr).2.handle.queued from hq)).imp_right
      fun hs g hg => hs.routed haddr hg
  | refuses socket localAddr peerAddr hact => exact (queued_opening hq).imp_right fun hs g hg => hs.routed haddr hg
  | dropsRefused before after action hobs hact => exact Or.inl hq

/-- **Every step keeps the queues in order**, if the commands that come from other threads are for this loop. -/
theorem routed_of_moves {m m' : Machine η κ} {l : Label η} (haddr : Addressed η) (h : Machine.Moves m l m')
    (hcalm : m.Calm) (hl : ∀ cmd, l = .trigger cmd → ∀ g ∈ cmd.addressee, g.eventLoopIndex = m.el.handle.idx)
    (hr : m.el.Routed) : m'.el.Routed := by
  have hneutral : ∀ {el el' : EventLoop η κ}, el.Neutral el' → el.Routed → el'.Routed := fun hn =>
    (show Effect True 0 _ _ from .neutral hn).routed haddr
  have hchanges : ∀ {el el' : EventLoop η κ}, ReflTransGen Change el el' → el.Routed → el'.Routed := fun hp =>
    invariant_of_steps hp fun _ _ hc hr => hc.elim (fun ⟨_, he⟩ => he.routed haddr hr) fun hg => hg.routed haddr hr
  have hstart : ∀ {task : Task} {el₀ : EventLoop η κ}, Machine.Starts m l task el₀ → el₀.Routed := by
    intro task el₀ hst
    obtain ⟨h', rfl, hidx, -, hqueued⟩ := hst.withHandle
    exact hr.grows hidx fun q hq => Or.inl (hqueued q hq)
  cases h with
  | idles hel _ => exact hneutral hel hr
  | pollFails _ => exact hr
  | gets priority cmd hcmd =>
    have hgets := m.el.handle.trigger_gets priority ⟨cmd, none⟩
    refine hr.grows hgets.idx fun q hq => (hgets.mem_queued.mp hq).imp_right fun hq g hg => ?_
    rw [List.mem_singleton.mp hq] at hg
    rcases hcmd with rfl | ⟨s, la, pa, -, rfl⟩
    · exact hl cmd rfl g hg
    · cases hg
  | mints n => exact hr
  | drops _ =>
    rw [Machine.dropAll, recordAll_eq]
    exact hr
  | works hst hrun hel _ => exact hneutral hel (hchanges ((Task.changes _ (hst.settled hcalm)).ok hrun) (hstart hst))
  | ends hst hrun hel _ _ =>
    exact hneutral hel (hchanges ((Task.changes _ (hst.settled hcalm)).error hrun) (hstart hst))

end EventLoop
end Rnet
