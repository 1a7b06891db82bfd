import Mathlib.Data.List.Nodup
import Rnet.EventLoop.Arrivals
import Rnet.EventLoop.ShutdownAnswers
import Rnet.Servers.Serving

/-!
# Servers that work through the worker pool

Some handlers of the examples leave the work to the worker pool: a callback submits a closure, the worker of the loop
runs it, and it sends `AsyncWrite`s back. What a closure sends may depend on what the handler shares between its
callbacks and its closures (`Work`). A system here is the loop, the channel of its worker, the worker, and what is
shared (`Relay`). There are as many workers as loops, so the worker runs closures of this loop alone; closures of other
loops only trigger commands, as any thread may. There are 256 loops at most, so that `send_command` finds this one by
the number in a descriptor.

`submit` drops closures while the pool is not made (`run_user_lb` starts the loops before it). From then on the worker
runs the closures in the order in which they were submitted, and each command they send goes into the urgent queue
(`run_tells`), so their data arrives as `async_writes_arrive` says.
-/

namespace Rnet

open Programs Relation

/-! ## Records and descriptors -/

section

variable {η κ Msg : Type}

/-- The number and the descriptor of a connection that `on_traffic` or `on_close` is called on. -/
def Obs.named : Obs κ → Option (Nat × Gfd)
  | .traffic before _ _ | .closes before _ _ => some (before.id, before.conn.gfd)
  | .opens _ _ _ | .merged _ | .ticks _ _ _ | .drops _ => none

namespace EventLoop

/-- Every call of a callback was on a connection with the descriptor it was issued. -/
def Named (el : EventLoop η κ) : Prop := ∀ o ∈ el.trace, ∀ p ∈ o.named, p ∈ issued el.trace

/-- No two connections are issued one descriptor, as long as the counter does not wrap. -/
theorem Numbered.unique {el : EventLoop η κ} (h : el.Numbered) (hm : el.minted ≤ 2 ^ 32) {id id' : Nat} {g : Gfd}
    (hid : (id, g) ∈ Rnet.issued el.trace) (hid' : (id', g) ∈ Rnet.issued el.trace) : id = id' := by
  obtain ⟨hlt, fd, k, hg⟩ := h.issued _ hid
  obtain ⟨hlt', fd', k', hg'⟩ := h.issued _ hid'
  exact Gfd.seq_inj (Nat.lt_of_lt_of_le hlt hm) (Nat.lt_of_lt_of_le hlt' hm) (hg.symm.trans hg')

/-- One connection is issued one descriptor. -/
theorem Numbered.functional {el : EventLoop η κ} (h : el.Numbered) {id : Nat} {g g' : Gfd}
    (hg : (id, g) ∈ Rnet.issued el.trace) (hg' : (id, g') ∈ Rnet.issued el.trace) : g = g' :=
  congrArg Prod.snd (List.inj_on_of_nodup_map h.once hg hg' rfl)

variable [Codec κ Msg] [EventHandler η κ Msg] {el el' t : EventLoop η κ} {key : Nat} {serving : Prop}

theorem Effect.named (he : Effect serving key el el') (hn : el.Numbered) (h : el.Named) : el'.Named := by
  intro o hmem p hp
  rw [he.issued]
  -- a record behind the old ones, on the connection at the key or on none
  have hnew : ∀ {u : EventLoop η κ} {new : Obs κ}, (o ∈ u.trace → p ∈ Rnet.issued el.trace) → o ∈ u.trace ++ [new] →
      (new.named = none ∨ ∃ i, el.connections.get key = some i ∧ new.named = some (i.id, i.conn.gfd)) →
        p ∈ Rnet.issued el.trace := by
    intro u new hold hmem hrecord
    rcases List.mem_append.mp hmem with hmem | hmem
    · exact hold hmem
    · rw [List.mem_singleton.mp hmem] at hp
      rcases hrecord with hnone | ⟨i, hi, hsome⟩
      · rw [hnone] at hp
        cases hp
      · rw [hsome] at hp
        cases hp
        exact hn.live hi
  have hold : o ∈ el.trace → p ∈ Rnet.issued el.trace := fun ho => h o ho p hp
  have hread : ∀ {i : Incarnation κ} {s' : Socket} {bs : Bytes}, el.connections.get key = some i →
      o ∈ (el.hears key i s' bs).2.trace → p ∈ Rnet.issued el.trace := fun {i} _ _ hi hmem =>
    hnew (u := el) hold hmem (Or.inr ⟨i, hi, rfl⟩)
  have hclose : ∀ {i : Incarnation κ} {graceful : Bool}, el.connections.get key = some i →
      o ∈ (el.closing i graceful).2.trace → p ∈ Rnet.issued el.trace := fun {i} graceful hi hmem => by
    refine hnew (u := el) hold hmem (Or.inr ⟨i, hi, ?_⟩)
    have hsame := Incarnation.Same.lastOutput graceful i
    exact congrArg some (Prod.ext hsame.id hsame.gfd)
  cases he with
  | neutral hel => exact hold (hel.trace ▸ hmem)
  | push _ _ _ | serves _ _ _ _ _ | readsNothing _ _ _ _ _ _ _ => exact hold hmem
  | traffic i s a n s' bs hi hs ha hne hset hact =>
    exact hnew (u := (el.hears key i s' bs).2) (hread hi) hmem (Or.inl rfl)
  | lastTraffic i s a n s' bs hi hs ha hne hset hact => exact hread hi hmem
  | closes i graceful hi _ => exact hnew (u := (el.closing i graceful).2) (hclose hi) hmem (Or.inl rfl)
  | failsToClose i graceful e hi he _ => exact hclose hi hmem
  | ticks op hd conns hop _ =>
    refine hold ?_
    unfold tickOp at hmem
    split at hmem <;> exact hmem
  | recordsTick b a act _ => exact hnew (u := el) hold hmem (Or.inl rfl)

/-- Records stay. -/
theorem trace_of_evolves (h : ReflTransGen Evolves el t) : el.trace <+: t.trace := by
  refine invariant_of_steps (P := fun t => el.trace <+: t.trace) h (fun u v he hu => hu.trans ?_) (List.prefix_refl _)
  cases he with
  | change hc => exact prefix_of_changes (.single hc)
  | takes _ | gets _ _ | mints _ => exact List.prefix_refl _
  | drops hi => exact List.prefix_append _ _

theorem Evolves.named (he : Evolves el t) (hn : el.Numbered) (h : el.Named) : t.Named := by
  have hrecord : ∀ {u : EventLoop η κ} {new : Obs κ}, u.trace = el.trace ++ [new] → new.named = none → u.Named := by
    intro u new htrace hnone o hmem p hp
    rw [htrace, issued_append]
    rw [htrace] at hmem
    rcases List.mem_append.mp hmem with hmem | hmem
    · exact List.mem_append_left _ (h o hmem p hp)
    · rw [List.mem_singleton.mp hmem, hnone] at hp
      cases hp
  cases he with
  | change hc =>
    rcases hc with ⟨key, he⟩ | hr
    · exact he.named hn h
    · cases hr with
      | admits socket localAddr peerAddr hact | refuses socket localAddr peerAddr hact => exact hrecord rfl rfl
      | dropsRefused before after action hobs hact => exact hrecord rfl rfl
  | takes _ | gets _ _ | mints _ => exact h
  | drops hi => exact hrecord rfl rfl

end EventLoop

/-- What happens to a live connection is no `on_close`. -/
theorem Happens.not_closes [Codec κ Msg] [EventHandler η κ Msg] {W : Gfd → Bytes → Prop} {i j : Incarnation κ}
    {obs : List (Obs κ)} (h : Happens η W i obs j) :
    j.id = i.id ∧ ∀ before after action, .closes before after action ∉ obs := by
  cases h with
  | registers _ _ _ | writes _ | handed _ _ _ _ | readsNothing _ _ _ _ _ => exact ⟨rfl, fun _ _ _ h => by cases h⟩
  | traffic handler hd s a n s' bs before after hs ha hne hset hbefore hact hafter =>
    have hid : after.id = i.id := by rw [hafter, (Op.applyAll_stable _ before hd).1, hbefore]
    exact ⟨hid, fun _ _ _ h => by simp at h⟩
  | ticks handler conns key op hd hop => exact ⟨rfl, fun _ _ _ h => by cases h⟩

/-- `on_close` was not called on the connection. -/
def NotClosed (trace : List (Obs κ)) (i : Incarnation κ) : Prop :=
  ∀ before after action, .closes before after action ∈ trace → before.id ≠ i.id

theorem notClosed_upholds [Codec κ Msg] [EventHandler η κ Msg] (W : Gfd → Bytes → Prop) : Upholds η W NotClosed where
  others hobs h before after action hmem := by
    rcases List.mem_append.mp hmem with hmem | hmem
    · exact h before after action hmem
    · exact hobs _ hmem
  opens := by
    intro trace handler hd id pooled gfd socket localAddr peerAddr before after htrace hbefore _ hafter b a action hmem
    have hid : after.id = id := by rw [hafter, (Op.applyAll_stable _ before hd).1, hbefore]
    rcases List.mem_append.mp hmem with hmem | hmem
    · rw [hid]
      exact htrace _ hmem
    · cases List.mem_singleton.mp hmem
  happens := by
    intro trace i obs j hj h before after action hmem
    obtain ⟨hid, hno⟩ := hj.not_closes
    rcases List.mem_append.mp hmem with hmem | hmem
    · exact hid ▸ h before after action hmem
    · exact absurd hmem (hno before after action)

namespace Machine

open EventLoop

variable [Codec κ Msg] [EventHandler η κ Msg] {m m' : Machine η κ} {l : Label η} {k : Nat} {j : Incarnation κ}

/-- **A live connection has not been closed.** -/
theorem run_notClosed {el : EventLoop η κ} (hfresh : el.Fresh) {ls : List (Label η)}
    (hrun : Runs.run step (initial el) ls = some m) (hlive : m.phase.Live) (hj : m.el.connections.get k = some j) :
    NotClosed m.el.trace j := by
  have hany : ∀ cmd : Command, cmd.Brings fun _ _ => True := fun cmd => by cases cmd <;> trivial
  exact run_connections (notClosed_upholds fun _ _ => True) (fun gfd cmd _ => hany cmd) hfresh (fun cmd _ => hany cmd)
    hrun hlive k j hj

/-- **A new connection** is as its `on_open` left it. -/
theorem step_opens (hstep : step m l = some m') (hcalm : m.Calm) (hs : m.el.Sound) (hlive : m'.phase.Live)
    (hj : m'.el.connections.get k = some j) (hnew : m.el.minted ≤ j.id) :
    ∃ before, .opens before j .none ∈ m'.el.trace := by
  have hold : m.el.connections.get k ≠ some j := fun h => by
    have := hs.minted h
    omega
  cases step_moves hstep with
  | idles hel _ => exact absurd (hel.connections ▸ hj) hold
  | pollFails _ | drops _ | ends _ _ _ _ _ => exact hlive.elim
  | gets priority cmd hcmd => exact absurd hj hold
  | mints n => exact absurd hj hold
  | @works _ task el₀ t el' phase nextTick hst hrun hel _ =>
    have hj : t.connections.get k = some j := hel.connections ▸ hj
    have hs₀ : el₀.Sound ∧ el₀.minted = m.el.minted := by
      obtain ⟨h', rfl, -⟩ := hst.withHandle
      exact ⟨hs.keeps (.of_eq rfl) (Nat.le_refl _) rfl, rfl⟩
    have hset := hst.settled hcalm
    -- effects make no connections
    have heffects : ReflTransGen AnyEffect el₀ t → False := fun hp => by
      obtain ⟨i, hi, hij⟩ := keeps_of_effects hp k j hj
      have := hs₀.1.minted hi
      rw [← hij.id, hs₀.2] at this
      omega
    have hregister : ∀ {socket : Socket} {localAddr peerAddr : NetworkAddress},
        register socket localAddr peerAddr el₀ = .ok ⟨⟩ t → ∃ before, .opens before j .none ∈ t.trace := by
      intro socket localAddr peerAddr hrun
      by_cases hk : k = el₀.connections.vacantKey
      · rcases register_cases socket localAddr peerAddr el₀ with ⟨e, h', -⟩ | ⟨hact, h'⟩ | ⟨-, h'⟩ | ⟨-, u, hu, h'⟩ <;>
          rw [h'] at hrun <;> cases hrun
        · rw [hk] at hj
          cases Slab.get_insert_self.symm.trans hj
          have hnone : (EventHandler.onOpen el₀.polled.handler
              (el₀.polled.incarnation socket localAddr peerAddr).conn).1.action = .none := hact
          refine ⟨el₀.polled.incarnation socket localAddr peerAddr, List.mem_append_right _ (List.mem_singleton.mpr ?_)⟩
          rw [← hnone]
          rfl
        · have hvac : (el₀.polled.opening socket localAddr peerAddr).2.connections.get
              el₀.connections.vacantKey = none := Slab.get_vacantKey _
          rw [hk] at hj
          cases hvac.symm.trans hj
      · rw [register_frame hrun hk] at hj
        have := hs₀.1.minted hj
        omega
    rw [hel.trace]
    cases hst with
    | command hphase hq hcmd => exact (heffects (effects_any ((handleCommand_leads hcmd hset).ok hrun))).elim
    | io hphase _ _ => exact (heffects (effects_any ((processIo_leads _ (hset _)).ok hrun))).elim
    | ordered _ _ _ | accepted _ _ => exact hregister hrun
    | first _ _ | tick _ _ =>
      obtain ⟨delay, u, hu, hrun⟩ := bind_ok.mp hrun
      cases hrun
      exact (heffects ((onTick_leads _).ok hu)).elim

/-- The machine is one that a run of the loop reaches. -/
def Reaches (el : EventLoop η κ) (m : Machine η κ) : Prop := ∃ ls, Runs.run step (initial el) ls = some m

/-- What is known of such a machine. -/
structure Facts (el : EventLoop η κ) (m : Machine η κ) : Prop where
  calm : m.Calm
  numbered : m.el.Numbered
  named : m.el.Named
  idx : m.el.handle.idx = el.handle.idx
  loopId : m.el.loopId = el.loopId

theorem Reaches.facts {el : EventLoop η κ} (hfresh : el.Fresh) (h : Reaches el m) : Facts el m := by
  obtain ⟨ls, hrun⟩ := h
  obtain ⟨hpath, hcalm⟩ := run_path hfresh hrun
  obtain ⟨hn, hgrows⟩ := numbered_of_evolves hpath hfresh.numbered
  have hnamed : m.el.Numbered ∧ m.el.Named := by
    refine invariant_of_steps (P := fun t : EventLoop η κ => t.Numbered ∧ t.Named) hpath
      (fun _ _ he ht => ⟨(he.numbered ht.1).1, he.named ht.1 ht.2⟩) ⟨hfresh.numbered, fun o hmem => ?_⟩
    simp [hfresh.trace] at hmem
  exact ⟨hcalm, hn, hnamed.2, (sameHandle_of_evolves hpath).idx, hgrows.loopId⟩

theorem Reaches.run {el : EventLoop η κ} (h : Reaches el m) {ls : List (Label η)}
    (hrun : Runs.run step m ls = some m') : Reaches el m' := by
  obtain ⟨ls₀, hrun₀⟩ := h
  exact ⟨ls₀ ++ ls, (Runs.run_append hrun₀).trans hrun⟩

theorem Reaches.step {el : EventLoop η κ} (h : Reaches el m) (hstep : m.step l = some m') : Reaches el m' :=
  h.run (Runs.run_cons_some hstep : Runs.run Machine.step m [l] = some m')

end Machine

end

/-! ## The loop and its worker -/

/-- What the callbacks of a handler do besides their operations, by their records, and what their closures send. -/
structure Work (κ C S : Type) where
  /-- the closures that a callback submits -/
  submitted : Obs κ → List C
  /-- what a callback makes of what is shared -/
  update : S → Obs κ → S
  /-- the `AsyncWrite`s that a closure sends, by descriptor and data, in some order -/
  sends : S → C → List (Gfd × Bytes)

/-- What the worker does: it is about to run a closure, or it still sends what one told it to; `sending []` waits. -/
inductive Working (C : Type)
  | running (closure : C)
  | sending (rest : List (Gfd × Bytes))

/-- The loop, the pool with the channel of the loop's worker, the worker, and what is shared. -/
structure Relay (η κ C S : Type) where
  machine : Machine η κ
  /-- `GLOBAL_SENDERS` holds the senders -/
  pool : Bool
  queue : List C
  /-- a record of the closures that `submit` dropped -/
  dropped : List C
  working : Working C
  shared : S

/-- The data among them for the connection with descriptor `g`. -/
def sentTo (g : Gfd) (ps : List (Gfd × Bytes)) : Bytes := ps.flatMap fun p => if p.1 = g then p.2 else []

section

variable {g : Gfd} {ps qs : List (Gfd × Bytes)}

theorem sentTo_cons (g : Gfd) (p : Gfd × Bytes) (ps : List (Gfd × Bytes)) :
    sentTo g (p :: ps) = (Command.asyncWrite p.1 p.2).dataFor g ++ sentTo g ps := List.flatMap_cons

theorem sentTo_append (g : Gfd) (ps qs : List (Gfd × Bytes)) : sentTo g (ps ++ qs) = sentTo g ps ++ sentTo g qs :=
  List.flatMap_append

/-- What goes to another connection. -/
theorem sentTo_none (h : ∀ p ∈ ps, p.1 ≠ g) : sentTo g ps = [] :=
  List.flatMap_eq_nil_iff.mpr fun p hp => if_neg (h p hp)

end

namespace Relay

open EventLoop Runs

variable {η κ Msg C S : Type} [Codec κ Msg] [EventHandler η κ Msg]

/-- A command is sent in a step of its own, so the loop may do anything between two of them. -/
inductive Act (η : Type)
  | loop (l : Label η)
  /-- `WorkerPool::new` puts the senders into `GLOBAL_SENDERS`, while the loop takes a step in which `submit` was called
  `n` times so far -/
  | makesPool (l : Label η) (n : Nat)
  /-- `recv` or `try_recv` answers a closure -/
  | takes
  /-- the closure runs, and visits what is shared in the order that `ps` shows -/
  | runs (ps : List (Gfd × Bytes))
  /-- the closure calls `send_command` -/
  | sends

/-- The step that the loop takes. -/
def Act.label : Act η → Option (Label η)
  | .loop l | .makesPool l _ => some l
  | .takes | .runs _ | .sends => none

/-- The data that others send to a connection. -/
def Act.dataFor (g : Gfd) : Act η → Bytes
  | .loop l | .makesPool l _ => l.dataFor g
  | .takes | .runs _ | .sends => []

/-- The loop starts: after the pool was made (`run_reuse_port`) or before (`run_user_lb`). -/
def start (el : EventLoop η κ) (pool : Bool) (shared : S) : Relay η κ C S :=
  ⟨.initial el, pool, [], [], .sending [], shared⟩

/-- `submit` of some closures, one after the other. -/
def submit (cs : List C) (s : Relay η κ C S) : Relay η κ C S :=
  if s.pool then { s with queue := s.queue ++ cs } else { s with dropped := s.dropped ++ cs }

/-- The closures that `submit` is called with while the loop goes on to `m`. -/
def calls (w : Work κ C S) (s : Relay η κ C S) (m : Machine η κ) : List C :=
  (m.el.trace.drop s.machine.el.trace.length).flatMap w.submitted

/-- The loop has gone on to `m`, and its callbacks to what is shared. -/
def goes (w : Work κ C S) (s : Relay η κ C S) (m : Machine η κ) : Relay η κ C S :=
  { s with machine := m, shared := (m.el.trace.drop s.machine.el.trace.length).foldl w.update s.shared }

/-- The closures submitted and not yet run. -/
def pending (s : Relay η κ C S) : List C :=
  match s.working with
  | .running closure => closure :: s.queue
  | .sending _ => s.queue

/-- What the closure that ran has still to send. -/
def unsent (s : Relay η κ C S) : List (Gfd × Bytes) :=
  match s.working with
  | .running _ => []
  | .sending rest => rest

/-- `send_command(gfd, AsyncWrite(gfd, data))`: another loop gets the command, if the descriptor names one. By the time
there is a worker, `set_workers` was called. -/
def send (m : Machine η κ) (p : Gfd × Bytes) : Option (Machine η κ) :=
  if p.1.eventLoopIndex = m.el.handle.idx then m.step (.trigger (.asyncWrite p.1 p.2)) else some m

/-- One step. The closures that the loop submits go to the end of the channel if the pool is made, and are dropped
otherwise. Left out is that `submit` waits when the channel is full, that a callback waits for a closure that has locked
what is shared, and the shutdown of the pool: `run` calls it after all loops have returned. -/
def step (w : Work κ C S) (s : Relay η κ C S) : Act η → Option (Relay η κ C S)
  | .loop l => (s.machine.step l).map fun m => submit (s.calls w m) (s.goes w m)
  | .makesPool l n =>
    if s.pool then none
    else (s.machine.step l).map fun m =>
      submit ((s.calls w m).drop n) { submit ((s.calls w m).take n) (s.goes w m) with pool := true }
  | .takes =>
    match s.working, s.queue with
    | .sending [], closure :: rest => some { s with queue := rest, working := .running closure }
    | _, _ => none
  | .runs ps =>
    match s.working with
    | .running closure => if ps.Perm (w.sends s.shared closure) then some { s with working := .sending ps } else none
    | .sending _ => none
  | .sends =>
    match s.working with
    | .sending (p :: rest) => (send s.machine p).map fun m => { s with machine := m, working := .sending rest }
    | _ => none

variable {w : Work κ C S} {g : Gfd} {s s' t : Relay η κ C S} {m m' : Machine η κ} {acts : List (Act η)}
  {closure : C} {p : Gfd × Bytes} {ps : List (Gfd × Bytes)}

/-! ### Steps -/

section

omit [Codec κ Msg] [EventHandler η κ Msg]

theorem submit_eq (cs : List C) (s : Relay η κ C S) : submit cs s =
    { s with
      queue := s.queue ++ if s.pool then cs else []
      dropped := s.dropped ++ if s.pool then [] else cs } := by
  unfold submit
  cases s.pool <;> simp

/-- Closures that go to the end of the channel are pending. -/
theorem pending_append (s : Relay η κ C S) (late : List C) {pool : Bool} {dropped : List C} {shared : S} :
    pending ⟨m, pool, s.queue ++ late, dropped, s.working, shared⟩ = s.pending ++ late := by
  unfold pending
  cases s.working <;> rfl

end

/-- What a step does, case by case. -/
inductive Moves (w : Work κ C S) (s : Relay η κ C S) : Act η → Relay η κ C S → Prop
  /-- what is submitted before the pool is made is dropped, the rest goes into the channel -/
  | loop {a : Act η} {l : Label η} {m : Machine η κ} {pool : Bool} {early late : List C} (hl : a.label = some l)
      (hstep : s.machine.step l = some m) (hsplit : s.calls w m = early ++ late)
      (hmade : s.pool = true → pool = true ∧ early = []) (hnot : pool = false → late = []) :
      Moves w s a ⟨m, pool, s.queue ++ late, s.dropped ++ early, s.working, (s.goes w m).shared⟩
  | takes {closure : C} {rest : List C} (hw : s.working = .sending []) (hq : s.queue = closure :: rest) :
      Moves w s .takes { s with queue := rest, working := .running closure }
  | runs {closure : C} {ps : List (Gfd × Bytes)} (hw : s.working = .running closure)
      (hps : ps.Perm (w.sends s.shared closure)) : Moves w s (.runs ps) { s with working := .sending ps }
  | sends {p : Gfd × Bytes} {rest : List (Gfd × Bytes)} {m : Machine η κ} (hw : s.working = .sending (p :: rest))
      (hsend : send s.machine p = some m) : Moves w s .sends { s with machine := m, working := .sending rest }

theorem step_moves {a : Act η} (h : step w s a = some s') : Moves w s a s' := by
  cases a with
  | loop l =>
    obtain ⟨m, hm, rfl⟩ := Option.map_eq_some_iff.mp h
    rw [submit_eq]
    refine .loop rfl hm ?_ (fun hpool => ?_) fun hpool => ?_
    · show s.calls w m = _
      cases (s.goes w m).pool <;> simp
    · exact ⟨hpool, if_pos hpool⟩
    · exact if_neg (Bool.not_eq_true _ ▸ hpool)
  | makesPool l n =>
    simp only [step] at h
    split at h
    · cases h
    · rename_i hpool
      obtain ⟨m, hm, rfl⟩ := Option.map_eq_some_iff.mp h
      have hsubmit : submit ((s.calls w m).drop n) { submit ((s.calls w m).take n) (s.goes w m) with pool := true } =
          ⟨m, true, s.queue ++ (s.calls w m).drop n, s.dropped ++ (s.calls w m).take n, s.working,
            (s.goes w m).shared⟩ := by
        simp [submit_eq, goes, hpool]
      rw [hsubmit]
      exact .loop rfl hm (List.take_append_drop n _).symm (fun hmade => absurd hmade hpool) nofun
  | takes =>
    simp only [step] at h
    split at h
    · rename_i hw hq
      cases h
      exact .takes hw hq
    · cases h
  | runs ps =>
    simp only [step] at h
    split at h
    · rename_i hw
      split at h
      · rename_i hps
        cases h
        exact .runs hw hps
      · cases h
    · cases h
  | sends =>
    simp only [step] at h
    split at h
    · rename_i hw
      obtain ⟨m, hm, rfl⟩ := Option.map_eq_some_iff.mp h
      exact .sends hw hm
    · cases h

/-- A command for this loop is a step of it. -/
theorem send_here (hp : p.1.eventLoopIndex = m.el.handle.idx) :
    send m p = m.step (.trigger (.asyncWrite p.1 p.2)) := if_pos hp

/-- **A `send_command`** changes no records, and brings its data to the loop. -/
theorem send_labels (h : send m p = some m') : m'.el.trace = m.el.trace ∧ ∃ ls, run Machine.step m ls = some m' ∧
    ∀ g : Gfd, g.eventLoopIndex = m.el.handle.idx → ls.flatMap (Label.dataFor g) = sentTo g [p] := by
  unfold send at h
  split at h
  · refine ⟨?_, [_], run_cons.mpr ⟨m', h, rfl⟩, fun g _ => rfl⟩
    cases h
    rfl
  · rename_i hp
    cases h
    refine ⟨rfl, [], rfl, fun g hg => ?_⟩
    have hne : p.1 ≠ g := by
      rintro rfl
      exact hp hg
    rw [sentTo_none fun q hq => by rwa [List.mem_singleton.mp hq]]
    rfl

/-- What the system does is a run of the loop. -/
theorem machine_run : ∀ {acts : List (Act η)} {s : Relay η κ C S}, run (step w) s acts = some s' →
    ∃ ls, run Machine.step s.machine ls = some s'.machine
  | [], s, h => by
    cases h
    exact ⟨[], rfl⟩
  | a :: acts, s, h => by
    obtain ⟨t, hstep, hrun⟩ := run_cons.mp h
    obtain ⟨ls, hls⟩ := machine_run hrun
    cases step_moves hstep with
    | @loop _ l m _ _ _ hl hm _ _ _ => exact ⟨l :: ls, (run_cons_some hm).trans hls⟩
    | takes _ _ | runs _ _ => exact ⟨ls, hls⟩
    | @sends p rest m hw hsend =>
      obtain ⟨-, ls₀, hls₀, -⟩ := send_labels hsend
      exact ⟨ls₀ ++ ls, (run_append hls₀).trans hls⟩

/-- What is shared is what the callbacks have made of it. -/
theorem start_run {el : EventLoop η κ} (hfresh : el.Fresh) {pool : Bool} {shared : S}
    (hrun : run (step w) (start el pool shared) acts = some s) : Machine.Reaches el s.machine ∧
      s.shared = s.machine.el.trace.foldl w.update shared := by
  refine run_invariant' (P := fun s : Relay η κ C S => Machine.Reaches el s.machine ∧
    s.shared = s.machine.el.trace.foldl w.update shared) ?_ ⟨⟨[], rfl⟩, ?_⟩ hrun
  · rintro s a s' ⟨hreaches, hshared⟩ hstep
    cases step_moves hstep with
    | @loop _ l m _ _ _ hl hm _ _ _ =>
      obtain ⟨obs, hobs⟩ := trace_of_evolves ((Machine.step_moves hm).evolves (hreaches.facts hfresh).calm)
      refine ⟨hreaches.step hm, ?_⟩
      show (m.el.trace.drop _).foldl w.update s.shared = m.el.trace.foldl w.update shared
      rw [← hobs, List.drop_left, List.foldl_append, hshared]
    | takes _ _ | runs _ _ => exact ⟨hreaches, hshared⟩
    | @sends p rest m hw hsend =>
      obtain ⟨htrace, ls, hls, -⟩ := send_labels hsend
      exact ⟨hreaches.run hls, htrace ▸ hshared⟩
  · show shared = el.trace.foldl w.update shared
    rw [hfresh.trace]
    rfl

/-- Once the pool is made, nothing is dropped any more. -/
theorem run_dropped {acts : List (Act η)} (hpool : s.pool = true) (hrun : run (step w) s acts = some s') :
    s'.pool = true ∧ s'.dropped = s.dropped := by
  refine run_invariant' (P := fun t : Relay η κ C S => t.pool = true ∧ t.dropped = s.dropped) ?_ ⟨hpool, rfl⟩ hrun
  rintro t a t' ⟨hpool, hdropped⟩ hstep
  cases step_moves hstep with
  | loop hl hm hsplit hmade hnot =>
    obtain ⟨hpool', rfl⟩ := hmade hpool
    exact ⟨hpool', (List.append_nil _).trans hdropped⟩
  | takes _ _ | runs _ _ | sends _ _ => exact ⟨hpool, hdropped⟩

omit [Codec κ Msg] [EventHandler η κ Msg] in
theorem drop_split {α : Type} {xs ys zs : List α} (h : xs <+: ys) (h' : ys <+: zs) :
    zs.drop xs.length = ys.drop xs.length ++ zs.drop ys.length := by
  obtain ⟨as, rfl⟩ := h
  obtain ⟨bs, rfl⟩ := h'
  rw [List.drop_left, List.append_assoc, List.drop_left, ← List.append_assoc, List.drop_left]

/-! ### Runs -/

/-- What the worker has still to send to a connection, if a closure sends it `f closure`. -/
def toSend (g : Gfd) (f : C → Bytes) (s : Relay η κ C S) : Bytes := sentTo g s.unsent ++ s.pending.flatMap f

omit [Codec κ Msg] [EventHandler η κ Msg] in
/-- Closures that are submitted to the pool go behind what the worker has still to send. -/
theorem toSend_append (f : C → Bytes) (s : Relay η κ C S) (late : List C) {pool : Bool} {dropped : List C}
    {shared : S} : toSend g f ⟨m, pool, s.queue ++ late, dropped, s.working, shared⟩ =
      s.toSend g f ++ late.flatMap f := by
  rw [toSend, pending_append, List.flatMap_append, ← List.append_assoc]
  rfl

/-- A closure that runs sends `f closure` to the connection. -/
def Tells (w : Work κ C S) (g : Gfd) (f : C → Bytes) (s : Relay η κ C S) (a : Act η) : Prop :=
  ∀ ps closure, a = .runs ps → s.working = .running closure → ps.Perm (w.sends s.shared closure) →
    sentTo g ps = f closure

/-- **What the worker does is a run of the loop**: the commands that its closures send, in the order in which the
closures were submitted, merge with those of other threads. Only what is submitted before the pool is made is lost. -/
theorem run_tells {f : C → Bytes} (acts : List (Act η)) : ∀ {s : Relay η κ C S}, s.machine.Calm →
    g.eventLoopIndex = s.machine.el.handle.idx → Along (step w) (Tells w g f) s acts → run (step w) s acts = some s' →
      ∃ ls told lost kept, run Machine.step s.machine ls = some s'.machine ∧
        Merges (acts.flatMap (Act.dataFor g)) told (ls.flatMap (Label.dataFor g)) ∧
        (s'.machine.el.trace.drop s.machine.el.trace.length).flatMap w.submitted = lost ++ kept ∧
        s'.dropped = s.dropped ++ lost ∧ (s.pool = true → lost = []) ∧
        told ++ s'.toSend g f = s.toSend g f ++ kept.flatMap f := by
  induction acts with
  | nil =>
    intro s hcalm hg htells hrun
    cases hrun
    exact ⟨[], [], [], [], rfl, .nil, by simp, by simp, fun _ => rfl, by simp⟩
  | cons a acts ih =>
    intro s hcalm hg htells hrun
    obtain ⟨t, hstep, hrun⟩ := run_cons.mp hrun
    have htells' := htells.2 t hstep
    cases step_moves hstep with
    | @loop _ l m pool early late hl hm hcalls hmade hnot =>
      have hmoves := Machine.step_moves hm
      have hpath := hmoves.evolves hcalm
      obtain ⟨ls, told, lost, kept, hls, hmerges, hsplit, hdropped, hlost, htold⟩ :=
        ih (hmoves.calm hcalm) (hg.trans (sameHandle_of_evolves hpath).idx.symm) htells' hrun
      have hlater := trace_of_evolves (Machine.run_later (hmoves.calm hcalm) hls).1
      -- the pool is made before the first of the closures that are kept
      have hboth : late ++ (lost ++ kept) = lost ++ (late ++ kept) := by
        cases pool with
        | true => rw [hlost rfl, List.nil_append, List.nil_append]
        | false => rw [hnot rfl, List.nil_append, List.nil_append]
      refine ⟨l :: ls, told, early ++ lost, late ++ kept, (run_cons_some hm).trans hls, ?_, ?_, ?_, fun hpool => ?_, ?_⟩
      · have hleft := (Merges.left_only (l.dataFor g)).append hmerges
        rw [List.nil_append] at hleft
        have hdata : a.dataFor g = l.dataFor g := by cases a <;> cases hl <;> rfl
        rw [List.flatMap_cons, List.flatMap_cons, hdata]
        exact hleft
      · have hcalls : (m.el.trace.drop s.machine.el.trace.length).flatMap w.submitted = early ++ late := hcalls
        rw [drop_split (trace_of_evolves hpath) hlater, List.flatMap_append, hcalls, hsplit, List.append_assoc, hboth,
          List.append_assoc]
      · rw [hdropped, List.append_assoc]
      · obtain ⟨hpool', rfl⟩ := hmade hpool
        exact hlost hpool'
      · rw [htold, toSend_append, List.flatMap_append, List.append_assoc]
    | @takes closure rest hw hq =>
      obtain ⟨ls, told, lost, kept, hls, hmerges, hsplit, hdropped, hlost, htold⟩ :=
        ih (s := { s with queue := rest, working := .running closure }) hcalm hg htells' hrun
      refine ⟨ls, told, lost, kept, hls, hmerges, hsplit, hdropped, hlost, htold.trans ?_⟩
      unfold toSend pending unsent
      rw [hw, hq]
    | @runs closure ps hw hps =>
      obtain ⟨ls, told, lost, kept, hls, hmerges, hsplit, hdropped, hlost, htold⟩ :=
        ih (s := { s with working := .sending ps }) hcalm hg htells' hrun
      refine ⟨ls, told, lost, kept, hls, hmerges, hsplit, hdropped, hlost, htold.trans ?_⟩
      have hnow := htells.1 ps closure rfl hw hps
      unfold toSend pending unsent
      rw [hw]
      show sentTo g ps ++ _ ++ _ = [] ++ (closure :: s.queue).flatMap f ++ _
      rw [hnow, List.flatMap_cons, List.nil_append]
    | @sends p rest m hw hsend =>
      obtain ⟨htrace, ls₀, hls₀, hdata⟩ := send_labels hsend
      obtain ⟨hpath, hcalm', -⟩ := Machine.run_later hcalm hls₀
      obtain ⟨ls, told, lost, kept, hls, hmerges, hsplit, hdropped, hlost, htold⟩ :=
        ih (s := { s with machine := m, working := .sending rest }) hcalm'
          (hg.trans (sameHandle_of_evolves hpath).idx.symm) htells' hrun
      refine ⟨ls₀ ++ ls, sentTo g [p] ++ told, lost, kept, (run_append hls₀).trans hls, ?_, htrace ▸ hsplit, hdropped,
        hlost, ?_⟩
      · rw [List.flatMap_cons, List.flatMap_append, hdata g hg]
        exact (Merges.right_only _).append hmerges
      · rw [List.append_assoc, htold]
        unfold toSend pending unsent
        rw [hw, ← List.append_assoc, ← List.append_assoc, ← sentTo_append]
        rfl

end Relay

end Rnet
