import Rnet.Command
import Mathlib.Tactic.Tauto

/-!
# Handlers and what they may do

The trait `EventHandler` of `handler.rs`, and the handle of an event loop, which every connection holds. A callback
answers with the operations it performs on the connection it is given, in order, and an action. It sees the whole
connection, so any deterministic callback is such a list; `Op.perform` and `Op.commands` say what one operation does to
the connection and to the queues of the loop. A handler is shared between threads: its state may also change between
two callbacks.

`Incarnation` is a connection as the loop keeps it, with what only the proofs need: a number of its own, what its
socket had delivered before it was registered, and what its callbacks have consumed.
-/

namespace Rnet

inductive Action
  | none
  | close
  | shutdown
  deriving DecidableEq, Repr

/-! ## The handle of an event loop -/

/-- A command in a queue, and the connection whose `close` put it there. -/
structure Queued where
  cmd : Command
  origin : Option Gfd
  deriving DecidableEq, Repr

structure EventLoopHandle where
  idx : Nat
  urgent : List Queued
  common : List Queued
  awoken : Bool
  /-- the results of the system wakes still to come; past the last one they succeed -/
  wakes : List (IoResult Unit)
  connCount : UInt64

namespace EventLoopHandle

/-- `Waker::wake` -/
def wake (h : EventLoopHandle) : IoResult Unit × EventLoopHandle :=
  if h.awoken then (.ok (), h)
  else (h.wakes.headD (.ok ()), { h with awoken := true, wakes := h.wakes.tail })

/-- `send` on the channel the priority and the length of the urgent queue choose. -/
def push (h : EventLoopHandle) (priority : Prioity) (q : Queued) : EventLoopHandle :=
  if spills priority h.urgent.length then { h with common := h.common ++ [q] }
  else { h with urgent := h.urgent ++ [q] }

/-- The send does not fail while the loop, and with it the receivers, is there. -/
def trigger (h : EventLoopHandle) (priority : Prioity) (q : Queued) : IoResult Bool × EventLoopHandle :=
  match (h.push priority q).wake with
  | (.error _, h) => (.ok false, h)
  | (.ok (), h) => (.ok true, h)

/-- Commands triggered one after the other, each with its own priority. -/
def triggerAll (h : EventLoopHandle) (qs : List Queued) : EventLoopHandle :=
  qs.foldl (fun h q => (h.trigger q.cmd.priority q).2) h

/-- All waiting commands. -/
def queued (h : EventLoopHandle) : List Queued := h.urgent ++ h.common

/-- The queues got the commands `qs` at their ends; the system may have been woken. -/
structure Gets (h : EventLoopHandle) (qs : List Queued) (h' : EventLoopHandle) : Prop where
  idx : h'.idx = h.idx
  connCount : h'.connCount = h.connCount
  wakes : h'.wakes <:+ h.wakes
  queues : ∃ us cs, h'.urgent = h.urgent ++ us ∧ h'.common = h.common ++ cs ∧ (us ++ cs).Perm qs

variable {h h' h'' : EventLoopHandle} {qs qs' : List Queued}

theorem Gets.refl (h : EventLoopHandle) : Gets h [] h :=
  ⟨rfl, rfl, List.suffix_refl _, [], [], by simp, by simp, List.Perm.refl _⟩

theorem Gets.trans (h₁ : Gets h qs h') (h₂ : Gets h' qs' h'') : Gets h (qs ++ qs') h'' where
  idx := h₂.idx.trans h₁.idx
  connCount := h₂.connCount.trans h₁.connCount
  wakes := h₂.wakes.trans h₁.wakes
  queues := by
    obtain ⟨us, cs, hu, hc, hp⟩ := h₁.queues
    obtain ⟨us', cs', hu', hc', hp'⟩ := h₂.queues
    refine ⟨us ++ us', cs ++ cs', by rw [hu', hu, List.append_assoc], by rw [hc', hc, List.append_assoc], ?_⟩
    have hcomm : (us ++ us' ++ (cs ++ cs')).Perm (us ++ cs ++ (us' ++ cs')) := by
      rw [List.append_assoc, List.append_assoc, ← List.append_assoc us', ← List.append_assoc cs]
      exact (List.perm_append_comm.append_right _).append_left _
    exact hcomm.trans (hp.append hp')

theorem Gets.mem_queued (hg : Gets h qs h') {q : Queued} : q ∈ h'.queued ↔ q ∈ h.queued ∨ q ∈ qs := by
  obtain ⟨us, cs, hu, hc, hp⟩ := hg.queues
  rw [queued, queued, hu, hc, ← hp.mem_iff]
  simp only [List.mem_append]
  tauto

theorem wake_gets (h : EventLoopHandle) : Gets h [] h.wake.2 := by
  unfold wake
  split
  · exact .refl h
  · exact ⟨rfl, rfl, List.tail_suffix _, [], [], by simp, by simp, List.Perm.refl _⟩

theorem push_gets (h : EventLoopHandle) (priority : Prioity) (q : Queued) : Gets h [q] (h.push priority q) := by
  unfold push
  split
  · exact ⟨rfl, rfl, List.suffix_refl _, [], [q], by simp, rfl, List.Perm.refl _⟩
  · exact ⟨rfl, rfl, List.suffix_refl _, [q], [], rfl, by simp, List.Perm.refl _⟩

theorem trigger_gets (h : EventLoopHandle) (priority : Prioity) (q : Queued) : Gets h [q] (h.trigger priority q).2 := by
  have hw := (h.push_gets priority q).trans (wake_gets _)
  unfold trigger
  split <;> rename_i heq <;> rw [heq] at hw <;> exact hw

theorem triggerAll_gets (qs : List Queued) (h : EventLoopHandle) : Gets h qs (h.triggerAll qs) := by
  induction qs generalizing h with
  | nil => exact .refl h
  | cons q qs ih => exact (h.trigger_gets _ q).trans (ih _)

end EventLoopHandle

/-! ## Callbacks -/

/-- What a callback can do with a connection. -/
inductive Op (κ Msg : Type)
  | nextContiguous (n : Option Nat)
  | nextVectored (n : Option Nat)
  | peek (n : Option Nat)
  | discard (n : Option Nat)
  | read (len : Nat)
  /-- `set_codec`, or an assignment to the public field -/
  | setCodec (codec : Option κ)
  | nextMessage
  | write (buf : Bytes)
  | writeBytes (buf : Bytes)
  | writeVectored (bufs : List Bytes)
  | writeVectoredBytes (bufs : List Bytes)
  | send (msg : Msg)
  | flush
  | close
  /-- `EngineHandler::send_command` -/
  | sendCommand (gfd : Gfd) (cmd : Command)

structure Reaction (κ Msg : Type) where
  ops : List (Op κ Msg)
  action : Action

/-- The operations of `on_tick`, each on the connection at a key of the slab, the delay and the action. -/
structure TickReaction (κ Msg : Type) where
  ops : List (Nat × Op κ Msg)
  delay : Nat
  action : Action

/-- A callback answers with its reaction and the handler afterwards. -/
class EventHandler (η : Type) (κ Msg : outParam Type) where
  onOpen : η → Connection κ → Reaction κ Msg × η
  onTraffic : η → Connection κ → Reaction κ Msg × η
  onClose : η → Connection κ → Reaction κ Msg × η
  onTick : η → List (Nat × Connection κ) → TickReaction κ Msg × η

/-- The operations a callback of the handler can perform. -/
inductive Performs (η : Type) {κ Msg : Type} [EventHandler η κ Msg] : Op κ Msg → Prop
  | onOpen {h : η} {c : Connection κ} {op : Op κ Msg} (hop : op ∈ (EventHandler.onOpen h c).1.ops) : Performs η op
  | onTraffic {h : η} {c : Connection κ} {op : Op κ Msg} (hop : op ∈ (EventHandler.onTraffic h c).1.ops) : Performs η op
  | onClose {h : η} {c : Connection κ} {op : Op κ Msg} (hop : op ∈ (EventHandler.onClose h c).1.ops) : Performs η op
  | onTick {h : η} {conns : List (Nat × Connection κ)} {key : Nat} {op : Op κ Msg}
      (hop : (key, op) ∈ (EventHandler.onTick h conns).1.ops) : Performs η op

structure Incarnation (κ : Type) where
  /-- the number of descriptors made before its own -/
  id : Nat
  before : Bytes
  consumed : Bytes
  conn : Connection κ

namespace Op

variable {κ Msg : Type} [Codec κ Msg]

/-- Perform an operation on a connection: the input bytes the callback got or skipped, and the connection. Messages
are counted nowhere: how many bytes `next_message` consumes is up to the codec. -/
def perform (op : Op κ Msg) (c : Connection κ) : Bytes × Connection κ :=
  match op with
  | .nextContiguous n => ((c.nextContiguous n).1.getD [], (c.nextContiguous n).2)
  | .nextVectored n => (((c.nextVectored n).1.getD []).flatten, (c.nextVectored n).2)
  | .peek _ => ([], c)
  | .discard n => (c.unread.take ((c.discard n).1.getD 0), (c.discard n).2)
  | .read len => c.read len
  | .setCodec codec => ([], { c with codec := codec })
  | .nextMessage => ([], c.nextMessage.2)
  | .write buf => ([], (c.write buf).2)
  | .writeBytes buf => ([], (c.writeBytes buf).2)
  | .writeVectored bufs => ([], (c.writeVectored bufs).2)
  | .writeVectoredBytes bufs => ([], (c.writeVectoredBytes bufs).2)
  | .send msg => ([], (c.send msg).2)
  | .flush => ([], c.flush.2)
  | .close | .sendCommand _ _ => ([], c)

omit [Codec κ Msg] in
/-- The commands an operation puts into the queues of the loop with index `idx`, which owns the connection.
`Connection::close` names the slab key only; `send_command` goes to the loop its descriptor names. -/
def commands (op : Op κ Msg) (idx : Nat) (c : Connection κ) : List Queued :=
  match op with
  | .close => [⟨.close c.gfd.slabIndex, some c.gfd⟩]
  | .sendCommand gfd cmd => if gfd.eventLoopIndex = idx then [⟨cmd, Option.none⟩] else []
  | _ => []

/-- One operation of a callback. -/
def apply (op : Op κ Msg) (i : Incarnation κ) (h : EventLoopHandle) : Incarnation κ × EventLoopHandle :=
  ({ i with consumed := i.consumed ++ (op.perform i.conn).1, conn := (op.perform i.conn).2 },
    h.triggerAll (op.commands h.idx i.conn))

/-- The operations of a callback, in order. -/
def applyAll : List (Op κ Msg) → Incarnation κ → EventLoopHandle → Incarnation κ × EventLoopHandle
  | [], i, h => (i, h)
  | op :: ops, i, h => applyAll ops (op.apply i h).1 (op.apply i h).2

/-- What the operations make of the connection. -/
def performAll (ops : List (Op κ Msg)) (c : Connection κ) : Connection κ := ops.foldl (fun c op => (op.perform c).2) c

theorem applyAll_conn (ops : List (Op κ Msg)) :
    ∀ (i : Incarnation κ) (h : EventLoopHandle), (applyAll ops i h).1.conn = performAll ops i.conn := by
  induction ops with
  | nil => exact fun _ _ => rfl
  | cons op ops ih => exact fun i h => ih _ _

end Op
end Rnet
