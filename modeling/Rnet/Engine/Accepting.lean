import Rnet.Engine.Balancer
import Rnet.Engine.Routing
import Rnet.Lib.Backlogs

/-!
# Draining a listener

After an edge on a listener, `Acceptor::accept_loop` hands the connections of its backlog to the workers, and
`EventLoop::accept_process` registers them. Both go on to the next connection after an `Ok` and leave after an error,
whichever it is: `WouldBlock`, an error that concerns one connection or one that concerns the call. So they empty the
backlog if and only if the first error they meet is `WouldBlock` (`edge_drains_backlog`); an interrupted `accept` leaves
everybody behind it waiting for the next client (`interrupted_accept_strands`).

`accept_loop` is a state machine, one iteration a step, and in between the workers do what they like. `accept_process`
is a phase of the main loop.
-/

namespace Rnet.Accepting

open Programs Runs Backlogs

/-- An answer of `accept`. -/
abbrev AcceptAnswer := IoResult (Socket × NetworkAddress)

instance : WouldBlock IoError where
  wouldBlock := .wouldBlock
  blocks e := e.kind = .wouldBlock
  blocks_wouldBlock := rfl

/-! ## The acceptor -/

structure Worker where
  handle : EventLoopHandle
  /-- the receivers of its channels are still there -/
  receiving : Bool

/-- `urgent_sender.send(cmd)`; after an error the connection is dropped, otherwise the worker is woken. -/
def Worker.send (w : Worker) (cmd : Command) : Worker :=
  if w.receiving then
    { w with handle := ({ w.handle with urgent := w.handle.urgent ++ [⟨cmd, none⟩] } : EventLoopHandle).wake.2 }
  else w

/-- Where the acceptor stands in a call of `accept_loop`. -/
inductive Pc
  | called (index : Nat)
  | looping (index : Nat) (localAddr : NetworkAddress)
  | returned
  deriving DecidableEq, Repr

structure Acceptor where
  listeners : List Listener
  workers : List Worker
  loadBalancing : Balancer.LoadBalancing
  /-- `RoundRobin::next` -/
  next : Nat
  pc : Pc

inductive Label
  /-- the next step of `accept_loop` -/
  | advance
  /-- the workers process commands, stop, get commands from others -/
  | workers (ws : List Worker)

namespace Acceptor

/-- `LeastConnections::select` -/
def leastConnections (workers : List Worker) : Nat :=
  ((workers.zipIdx.foldl (fun best w => some (Balancer.better best w.2 w.1.handle.connCount.toNat)) none).map
    Prod.fst).getD 0

/-- `Balancer::select` -/
def select (a : Acceptor) : Nat × Acceptor :=
  match a.loadBalancing with
  | .roundRobin =>
    if a.workers.isEmpty then (0, a)
    else (a.next % a.workers.length, { a with next := (a.next + 1) % 2 ^ 64 })
  | .leastConnections => (leastConnections a.workers, a)

/-- A connection is given to the worker that `select` names, if there is one. -/
def dispatch (a : Acceptor) (cmd : Command) : Acceptor :=
  let (idx, a) := a.select
  { a with workers := a.workers.modify idx (·.send cmd) }

/-- One iteration of the loop of `accept_loop`. -/
def acceptOne (a : Acceptor) (index : Nat) (localAddr : NetworkAddress) (l : Listener) : Acceptor :=
  match l.accept with
  -- `WouldBlock` and every other error end the loop alike
  | (.error _, l) => { a with listeners := a.listeners.set index l, pc := .returned }
  | (.ok (socket, peerAddr), l) =>
    { a with listeners := a.listeners.set index l }.dispatch (.register socket localAddr peerAddr)

/-- The indexing of `listeners` may panic. -/
def step (a : Acceptor) : Label → Option Acceptor
  | .advance =>
    match a.pc with
    | .called index =>
      (a.listeners[index]?).map fun l =>
        match l.localAddr with
        | .ok localAddr => { a with pc := .looping index localAddr }
        | .error _ => { a with pc := .returned }
    | .looping index localAddr => (a.listeners[index]?).map (a.acceptOne index localAddr)
    | .returned => none
  | .workers ws => some { a with workers := ws }

/-- What `accept` answers in a step. -/
def accepts (a : Acceptor) : Label → Option AcceptAnswer
  | .advance =>
    match a.pc with
    | .looping index _ => (a.listeners[index]?).map fun l => l.accept.1
    | .called _ | .returned => none
  | .workers _ => none

/-- The answers the call has ahead of it. -/
def script (a : Acceptor) : Option (List AcceptAnswer) :=
  match a.pc with
  | .called index | .looping index _ => (a.listeners[index]?).map Listener.accepts
  | .returned => none

/-- `select` moves the counter at most, and a worker gets the command. -/
theorem dispatch_frame (a : Acceptor) (cmd : Command) :
    (a.dispatch cmd).listeners = a.listeners ∧ (a.dispatch cmd).pc = a.pc := by
  unfold dispatch select
  cases a.loadBalancing with
  | leastConnections => exact ⟨rfl, rfl⟩
  | roundRobin =>
    dsimp only
    split <;> exact ⟨rfl, rfl⟩

end Acceptor

/-! ## `select` -/

/-- `select`, with the counters read one after the other, from the one at `k` on. -/
theorem run_select (n : Nat) : ∀ (k : Nat) (best : Option (Nat × Nat)) (s : Balancer.State),
    s.pc = .selecting k best → s.loadBalancing = .leastConnections → s.workers.length = k + n →
    run Balancer.State.step s (List.replicate (n + 1) .select) = some { s with
      pc := .sending (((((s.workers.map Balancer.Worker.connCount).drop k).zipIdx k).foldl
        (fun best w => some (Balancer.better best w.2 w.1)) best).map Prod.fst |>.getD 0) } := by
  induction n with
  | zero =>
    intro k best s hpc hlb hlen
    have hnone : s.workers[k]? = none := List.getElem?_eq_none (Nat.le_of_eq hlen)
    have hdrop : (s.workers.map Balancer.Worker.connCount).drop k = [] :=
      List.drop_eq_nil_of_le (by rw [List.length_map]; exact Nat.le_of_eq hlen)
    simp [run, Balancer.State.step, Balancer.State.select, hpc, hlb, hnone, hdrop]
  | succ n ih =>
    intro k best s hpc hlb hlen
    have hk : k < s.workers.length := by omega
    have hstep : Balancer.State.step s .select =
        some { s with pc := .selecting (k + 1) (some (Balancer.better best k s.workers[k].connCount)) } := by
      simp [Balancer.State.step, Balancer.State.select, hpc, hlb, hk]
    have hk' : k < (s.workers.map Balancer.Worker.connCount).length := by rw [List.length_map]; exact hk
    have hrest := ih (k + 1) (some (Balancer.better best k s.workers[k].connCount))
      { s with pc := .selecting (k + 1) (some (Balancer.better best k s.workers[k].connCount)) } rfl hlb
      (hlen.trans (Nat.add_right_comm k n 1))
    rw [List.replicate_succ, run_cons_some hstep, hrest, List.drop_eq_getElem_cons hk', List.getElem_map]
    rfl

/-- A burst of `select` steps names the worker that `leastConnections` computes. -/
theorem run_leastConnections (ws : List Worker) (s : Balancer.State) (hpc : s.pc = .selecting 0 none)
    (hlb : s.loadBalancing = .leastConnections)
    (hws : s.workers.map Balancer.Worker.connCount = ws.map fun w => w.handle.connCount.toNat) :
    run Balancer.State.step s (List.replicate (s.workers.length + 1) .select) =
      some { s with pc := .sending (Acceptor.leastConnections ws) } := by
  rw [run_select s.workers.length 0 none s hpc hlb (Nat.zero_add _).symm, hws, List.drop_zero,
    Acceptor.leastConnections, List.zipIdx_map, List.foldl_map]
  rfl

/-! ## `accept_loop` -/

/-- What `accept` answers depends on the first answer the listener has in store. -/
theorem accept_cases (l : Listener) :
    (∃ c rest, l.accepts = .ok c :: rest ∧ l.accept = (.ok c, { l with accepts := rest })) ∨
      ∃ e l', upToError l.accepts = [.error e] ∧ l.accept = (.error e, l') := by
  unfold Listener.accept
  cases l.accepts with
  | nil => exact Or.inr ⟨.wouldBlock, _, rfl, rfl⟩
  | cons answer rest =>
    cases answer with
    | ok c => exact Or.inl ⟨c, rest, rfl, rfl⟩
    | error e => exact Or.inr ⟨e, _, rfl, rfl⟩

/-- **`accept_loop` goes on** until the first error. -/
theorem acceptor_drains :
    Drains Acceptor.step Acceptor.accepts Acceptor.script fun a => a.pc = .returned := by
  intro a l a' as hs hstep
  cases l with
  | workers ws =>
    cases hstep
    exact .idles rfl hs
  | advance =>
    cases hpc : a.pc with
    | returned =>
      simp only [Acceptor.script, hpc] at hs
      cases hs
    | called index =>
      simp only [Acceptor.script, hpc] at hs
      obtain ⟨li, hli, rfl⟩ := Option.map_eq_some_iff.mp hs
      simp only [Acceptor.step, hpc, hli, Listener.localAddr, Option.map_some, Option.some.injEq] at hstep
      subst hstep
      exact .idles (by simp [Acceptor.accepts, hpc]) (by simp [Acceptor.script, hli])
    | looping index localAddr =>
      simp only [Acceptor.script, hpc] at hs
      obtain ⟨li, hli, rfl⟩ := Option.map_eq_some_iff.mp hs
      have hindex : index < a.listeners.length := (List.getElem?_eq_some_iff.mp hli).1
      simp only [Acceptor.step, hpc, hli, Option.map_some, Option.some.injEq] at hstep
      subst hstep
      obtain ⟨c, rest, has, haccept⟩ | ⟨e, li', has, haccept⟩ := accept_cases li
      · refine .takes c rest has (by simp [Acceptor.accepts, hpc, hli, haccept]) (Or.inl ?_)
        obtain ⟨socket, peerAddr⟩ := c
        simp only [Acceptor.acceptOne, haccept, Acceptor.script, Acceptor.dispatch_frame, hpc,
          List.getElem?_set_self hindex, Option.map_some]
      · refine .ends e has (by simp [Acceptor.accepts, hpc, hli, haccept]) ?_
        simp [Acceptor.acceptOne, haccept, Acceptor.script]

/-- A call of `accept_loop` for a listener that has `script` in store was answered `answers` when it returns. -/
inductive AcceptLoop : List AcceptAnswer → List AcceptAnswer → Prop
  | intro {a a' : Acceptor} {index : Nat} {l : Listener} {ls : List Label} (hcall : a.pc = .called index)
      (hl : a.listeners[index]? = some l) (hunder : Along Acceptor.step (fun a _ => a.script.isSome = true) a ls)
      (hrun : run Acceptor.step a ls = some a') (hreturned : a'.pc = .returned) :
      AcceptLoop l.accepts (outputs Acceptor.step Acceptor.accepts a ls)

/-! ## The main loop -/

section

open EventLoop

variable {η κ Msg : Type} [Codec κ Msg] [EventHandler η κ Msg]

/-- The label `accept` of the main loop is a `send` of the acceptor. -/
theorem accept_eq_send (m : Machine η κ) (socket : Socket) (localAddr peerAddr : NetworkAddress) :
    Machine.step m (.accept socket localAddr peerAddr) = some { m with
      el := m.el.withHandle ((⟨m.el.handle, true⟩ : Worker).send (.register socket localAddr peerAddr)).handle } := by
  simp only [Machine.step, Machine.receive, Worker.send, if_true]
  unfold EventLoopHandle.trigger
  split <;> rename_i h <;> simp [EventLoopHandle.push] at h <;> simp [h]

/-- What `accept` answers in a step of the main loop. -/
def accepts (m : Machine η κ) : Rnet.Label η → Option AcceptAnswer
  | .advance =>
    match m.phase with
    | .accepting idx ls _ => (ls[idx]?).map fun l => l.accept.1
    | _ => none
  | _ => none

/-- The answers `accept_process` has ahead of it. -/
def script (m : Machine η κ) : Option (List AcceptAnswer) :=
  match m.phase with
  | .accepting idx ls _ => (ls[idx]?).map Listener.accepts
  | _ => none

/-- `accept_process` has returned to the batch of events. -/
def Returned (m : Machine η κ) : Prop := ∃ evs, m.phase = .events evs

/-- **`accept_process` goes on** until the first error, or until a registration fails. -/
theorem machine_drains : Drains Machine.step (accepts (η := η) (κ := κ)) script Returned := by
  intro m l m' as hs hstep
  cases hphase : m.phase with
  | accepting idx ls evs =>
    simp only [script, hphase] at hs
    obtain ⟨li, hli, rfl⟩ := Option.map_eq_some_iff.mp hs
    have hidx : idx < ls.length := (List.getElem?_eq_some_iff.mp hli).1
    have hsame : ∀ el, script (⟨el, .accepting idx ls evs, m.nextTick⟩ : Machine η κ) = some li.accepts := fun el => by
      simp [script, hli]
    cases l with
    | advance =>
      have hout : accepts m .advance = some li.accept.1 := by simp [accepts, hphase, hli]
      simp only [Machine.step, Machine.advance, hphase, Option.some.injEq] at hstep
      subst hstep
      obtain ⟨c, rest, has, haccept⟩ | ⟨e, li', has, haccept⟩ := accept_cases li
      · rw [haccept] at hout
        refine .takes c rest has hout ?_
        obtain ⟨socket, peerAddr⟩ := c
        simp only [Machine.acceptOne, hli, haccept, Listener.localAddr]
        split
        · exact Or.inl (by simp [script, List.getElem?_set_self hidx])
        · refine Or.inr ⟨rfl, fun h => ?_⟩
          obtain ⟨evs', h⟩ := h
          cases h
      · rw [haccept] at hout
        refine .ends e has hout ?_
        simp [Machine.acceptOne, hli, haccept, script, Machine.restore]
    | trigger cmd =>
      cases hstep
      exact .idles rfl (by simp [script, Machine.receive, hphase, hli])
    | accept socket localAddr peerAddr =>
      cases hstep
      exact .idles rfl (by simp [script, Machine.receive, hphase, hli])
    | mint n =>
      cases hstep
      exact .idles rfl (by simp [script, hphase, hli])
    | handler hd =>
      cases hstep
      exact .idles rfl (by simp [script, hphase, hli])
    | poll evs' => simp [Machine.step, hphase] at hstep
    | pollError e => simp [Machine.step, hphase] at hstep
    | tick due => simp [Machine.step, hphase] at hstep
    | drop => simp [Machine.step, hphase] at hstep
  | _ =>
    simp only [script, hphase] at hs
    cases hs

/-- The same of `accept_process`, which returns without the loop terminating. -/
inductive AcceptProcess (η κ : Type) {Msg : Type} [Codec κ Msg] [EventHandler η κ Msg] :
    List AcceptAnswer → List AcceptAnswer → Prop
  | intro {m m' : Machine η κ} {idx : Nat} {listeners : List Listener} {evs evs' : List Event} {l : Listener}
      {ls : List (Rnet.Label η)} (hphase : m.phase = .accepting idx listeners evs) (hl : listeners[idx]? = some l)
      (hunder : Along Machine.step (fun m _ => (script m).isSome = true) m ls) (hrun : run Machine.step m ls = some m')
      (hreturned : m'.phase = .events evs') : AcceptProcess η κ l.accepts (outputs Machine.step accepts m ls)

omit [Codec κ Msg] [EventHandler η κ Msg] in
theorem AcceptLoop.answers {script answers : List AcceptAnswer} (h : AcceptLoop script answers) :
    answers = upToError script := by
  cases h with
  | intro hcall hl hunder hrun hreturned =>
    exact acceptor_drains.outputs (by simp [Acceptor.script, hcall, hl]) hunder hrun
      (by simp [Acceptor.script, hreturned]) hreturned

theorem AcceptProcess.answers {script answers : List AcceptAnswer} (h : AcceptProcess η κ script answers) :
    answers = upToError script := by
  cases h with
  | intro hphase hl hunder hrun hreturned =>
    exact machine_drains.outputs (by simp [Accepting.script, hphase, hl]) hunder hrun
      (by simp [Accepting.script, hreturned]) ⟨_, hreturned⟩

/-- **An edge drains the backlog exactly if the first error is `WouldBlock`**: for every script of answers, whatever
happens meanwhile, in both loops. That `accept` was answered `WouldBlock` and that nobody waits without an edge come to
the same. -/
theorem edge_drains_backlog {script answers : List AcceptAnswer}
    (h : AcceptLoop script answers ∨ AcceptProcess η κ script answers) :
    (Blocked answers ↔ FirstErrorBlocks script) ∧ (NobodyWaits answers ↔ FirstErrorBlocks script) := by
  have hclient : Nonempty (Socket × NetworkAddress) := ⟨⟨0, [], [], [], [], none⟩, .tcp ""⟩
  have hanswers : answers = upToError script := h.elim AcceptLoop.answers AcceptProcess.answers
  subst hanswers
  exact ⟨blocked_upToError script, nobodyWaits_upToError script⟩

end

/-! ## One client -/

def client : Socket × NetworkAddress := ⟨⟨7, [], [], [], [], none⟩, .tcp "b"⟩

/-- A listener whose `accept` will be answered so. -/
def listenerOf (script : List AcceptAnswer) : Listener := ⟨.tcp "a", script, none⟩

/-- An acceptor without workers, called for its only listener. -/
def acceptorOf (script : List AcceptAnswer) : Acceptor := ⟨[listenerOf script], [], .roundRobin, 0, .called 0⟩

/-- A loop that listens itself. -/
def loopOf (script : List AcceptAnswer) : EventLoop Bystander RawCodec :=
  (EventLoop.new 0 ⟨64, 8, false⟩ ⟨⟩ [] [] (fun _ => 0) 0).listener [listenerOf script]

/-- The client is accepted, and the next `accept` would block. -/
theorem edge_drains_backlog_client : Blocked [.ok client, .error IoError.wouldBlock] ∧
    NobodyWaits [.ok client, .error IoError.wouldBlock] := by
  have hpass : AcceptLoop [.ok client] [.ok client, .error IoError.wouldBlock] :=
    @AcceptLoop.intro (acceptorOf [.ok client]) _ 0 _ [.advance, .advance, .advance] rfl rfl
      (.of_check (b := fun a _ => a.script.isSome) (fun _ _ h => h) rfl) rfl rfl
  obtain ⟨hblocked, hnobody⟩ := edge_drains_backlog (η := Bystander) (κ := RawCodec) (Or.inl hpass)
  have hfirst : FirstErrorBlocks ([.ok client] : List AcceptAnswer) := rfl
  exact ⟨hblocked.mpr hfirst, hnobody.mpr hfirst⟩

/-- The readable event of the first listener. -/
def listenerEvent : EventLoop.Event := ⟨LISTENER_TOKEN_START, true, false, false, false⟩

/-- `accept` is interrupted once: both loops leave the client in the backlog, and no edge is to come. -/
theorem interrupted_accept_strands :
    AcceptLoop [.error .interrupted, .ok client] [.error .interrupted] ∧
      (∃ m, run Machine.step (Machine.initial (loopOf [.error .interrupted, .ok client]))
          [.advance, .advance, .poll [listenerEvent], .advance, .advance] = some m ∧ m.phase = .events []) ∧
      AcceptProcess Bystander RawCodec [.error .interrupted, .ok client] [.error .interrupted] ∧
      run Backlogs.step ⟨[client], false⟩ [.fails IoError.interrupted] = some ⟨[client], false⟩ ∧
      outputs Backlogs.step answer ⟨[client], false⟩ [.fails IoError.interrupted] = [.error .interrupted] ∧
      ¬Blocked ([.error .interrupted] : List AcceptAnswer) ∧
      ¬NobodyWaits ([.error .interrupted] : List AcceptAnswer) := by
  have hrun : run Backlogs.step ⟨[client], false⟩ [.fails IoError.interrupted] = some ⟨[client], false⟩ := rfl
  have hout : outputs Backlogs.step answer ⟨[client], false⟩ [.fails IoError.interrupted] = [.error .interrupted] := rfl
  refine ⟨?_, ⟨_, rfl, rfl⟩, ?_, hrun, hout, ?_, fun h => ?_⟩
  · exact @AcceptLoop.intro (acceptorOf [.error .interrupted, .ok client]) _ 0 _ [.advance, .advance] rfl rfl
      (.of_check (b := fun a _ => a.script.isSome) (fun _ _ h => h) rfl) rfl rfl
  · exact @AcceptProcess.intro Bystander RawCodec _ _ _
      ⟨loopOf [], .accepting 0 [listenerOf [.error .interrupted, .ok client]] [], false⟩ _ 0 _ [] [] _ [.advance]
      rfl rfl (.of_check (b := fun m _ => (script m).isSome) (fun _ _ h => h) rfl) rfl rfl
  · simp [Blocked, IoError.interrupted, blocks]
  · rcases h _ _ _ hrun hout with hempty | hedge
    · cases hempty
    · cases hedge

end Rnet.Accepting
