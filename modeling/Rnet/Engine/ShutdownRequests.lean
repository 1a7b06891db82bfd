import Rnet.Engine.Startup

/-!
# Requests for a shutdown

`EngineHandler::shutdown` is called while `Engine::run` may still be at start-up. Its request is kept if and only if
the call finds what it looks for (`shutdown_request_kept`): with `reuse_port` it always does, since the registry is
published before the first thread runs; in the other mode the loops run before the two cells are set, and a call that
looks for the acceptor before `set_acceptor` does not stop it. Then the loops may stop, and the acceptor goes on for
ever, so that `run` does not return (`shutdown_request_lost`).

The invariant of start-up is `Inv`. A timely call keeps `Kept`, and one that comes too early leaves `Missed` behind;
both are about where the call stands.
-/

namespace Rnet

open Programs Relation Runs

variable {η κ Msg : Type}

/-! ## A loop that is asked to stop -/

namespace Machine

open EventLoop

variable [Codec κ Msg] [EventHandler η κ Msg] {m m' : Machine η κ} {l : Label η}

/-- The loop has stopped, or it has a `Shutdown` in its queues. -/
def Stopping (m : Machine η κ) : Prop := ¬m.phase.Live ∨ ∃ q ∈ m.el.handle.queued, q.cmd = .shutdown

/-- **A loop that is asked to stop stays so** until it stops. -/
theorem Moves.stopping (h : Moves m l m') (hcalm : m.Calm) (hs : m.Stopping) : m'.Stopping := by
  by_cases hlive : m'.phase.Live
  · obtain ⟨q, hq, hcmd⟩ := hs.resolve_left (not_not.mpr (h.live hlive))
    rcases h.waiting hcalm hq (by simp [hcmd]) hlive with hq | ⟨el₀, t, -, hrun, -⟩
    · exact Or.inr ⟨q, hq, hcmd⟩
    · rw [hcmd] at hrun
      obtain ⟨_, _, _, hrun⟩ := bind_ok.mp hrun
      cases hrun
  · exact Or.inl hlive

end Machine

namespace Engine

variable [Codec κ Msg] [EventHandler η κ Msg] {s s' : Engine η κ} {l : EngineLabel η} {q : Nat} {m m' : Machine η κ}

theorem Acts.stopping (h : Acts s l s' q m m') (hcalm : m.Calm) : m'.Calm ∧ (m.Stopping → m'.Stopping) := by
  cases h with
  | stays => exact ⟨hcalm, id⟩
  | runs _ _ hstep _ =>
    have hm := Machine.step_moves hstep
    exact ⟨hm.calm hcalm, hm.stopping hcalm⟩
  | gets cmd _ =>
    have hm : Machine.Moves m (.trigger cmd) (m.receive cmd.priority cmd) := .gets cmd.priority cmd (Or.inl rfl)
    exact ⟨hm.calm hcalm, hm.stopping hcalm⟩

/-- `EventLoopHandle::shutdown` asks the loop to stop. -/
theorem shutdown_stopping {p : Nat} (h : step s (.shutdown p) = some s') (hm : s'.eventloops[p]? = some m) :
    m.Stopping := by
  cases h
  rw [List.getElem?_modify_eq] at hm
  obtain ⟨m₀, -, rfl⟩ := Option.map_eq_some_iff.mp hm
  refine Or.inr ⟨⟨.shutdown, none⟩, ?_, rfl⟩
  exact (m₀.el.handle.trigger_gets .high ⟨.shutdown, none⟩).mem_queued.mpr (Or.inr (List.mem_singleton_self _))

end Engine

/-! ## What start-up has done -/

namespace Startup

variable {s s' : Startup η κ}

/-- What `run` has done when it stands where it stands. -/
def Reached (s : Startup η κ) : Prop :=
  match s.run with
  | .making => s.eventloops = none ∧ s.acceptorCell = false
  | .setWorkers => s.acceptorCell = false
  | .newAcceptor => s.mode = .userLb ∧ s.eventloops.isSome ∧ s.acceptorCell = false
  | .setAcceptor => s.mode = .userLb ∧ s.eventloops.isSome ∧ s.acceptor.isSome
  | .spawnAcceptor => s.mode = .userLb ∧ s.eventloops.isSome ∧ s.acceptorCell
  | .spawning => s.mode = .reusePort ∧ s.eventloops.isSome
  | .joining => s.eventloops.isSome ∧ (s.mode = .userLb → s.acceptorCell)
  | .failed => True

/-- The invariant of start-up. -/
structure Inv (s : Startup η κ) : Prop where
  reached : s.Reached
  calm : ∀ (p : Nat) (m : Machine η κ), s.engine.eventloops[p]? = some m → m.Calm
  fresh : ∀ el ∈ s.cores, el.Fresh
  /-- the registry is complete when it is published -/
  registry : ∀ n, s.eventloops = some n → n = s.engine.eventloops.length
  acceptorCell : s.acceptorCell → s.eventloops.isSome ∧ s.acceptor.isSome
  /-- in one mode, no thread runs before the registry is published -/
  spawned : s.mode = .reusePort → 0 < s.spawned → s.eventloops.isSome
  /-- only the call puts the flag down -/
  isRunning : s.call = .idle → ∀ a, s.acceptor = some a → a.isRunning
  storing : s.call = .storing ∨ s.call = .waking → s.acceptorCell
  /-- the loops that the call has come to -/
  triggering : ∀ p n, s.call = .triggering p n → s.eventloops = some n ∧
    ∀ q < p, ∀ m, s.engine.eventloops[q]? = some m → m.Stopping

variable [Codec κ Msg] [EventHandler η κ Msg]

omit [Codec κ Msg] [EventHandler η κ Msg] in
theorem Inv.runNext (hs : s.Inv) (h : s.runNext = some s') : s'.Inv := by
  have hr := hs.reached
  unfold Reached at hr
  unfold Startup.runNext at h
  cases hrun : s.run with
  | making =>
    simp only [hrun] at h hr
    cases hcores : s.cores with
    | nil =>
      rw [hcores] at h
      cases h
      exact { hs with reached := hr.2, fresh := fun el hel => by cases hel }
    | cons el cores =>
      rw [hcores] at h
      cases h
      have hfresh := hs.fresh
      rw [hcores] at hfresh
      refine { hs with
        reached := by simpa [Reached, make, hrun] using hr
        calm := fun p m hm => ?_
        fresh := fun el hel => hfresh el (List.mem_cons_of_mem _ hel)
        registry := fun n hn => absurd (hr.1.symm.trans hn) (by simp)
        spawned := fun hmode hlt => hs.spawned hmode (by simpa [make, show s.mode = .reusePort from hmode] using hlt)
        triggering := fun p n hcall => absurd (hr.1.symm.trans (hs.triggering p n hcall).1) (by simp) }
      rcases List.mem_append.mp (List.mem_of_getElem? hm) with hm | hm
      · obtain ⟨p, hp⟩ := List.getElem?_of_mem hm
        exact hs.calm p m hp
      · rw [List.mem_singleton.mp hm]
        exact Machine.initial_calm (hfresh el List.mem_cons_self)
  | setWorkers =>
    simp only [hrun] at h hr
    cases h
    have hlen : s.eventloops.getD s.engine.eventloops.length = s.engine.eventloops.length := by
      cases hn : s.eventloops with
      | none => rfl
      | some n => exact hs.registry n hn
    exact { hs with
      reached := by cases hmode : s.mode <;> simp [Reached, hr]
      registry := fun n hn => (Option.some.inj hn).symm.trans hlen
      acceptorCell := fun hcell => ⟨rfl, (hs.acceptorCell hcell).2⟩
      spawned := fun _ _ => rfl
      triggering := fun p n hcall => ⟨by simp [(hs.triggering p n hcall).1], (hs.triggering p n hcall).2⟩ }
  | newAcceptor =>
    simp only [hrun] at h hr
    cases h
    exact { hs with
      reached := ⟨hr.1, hr.2.1, rfl⟩
      acceptorCell := fun hcell => absurd (hr.2.2.symm.trans hcell) (by simp)
      isRunning := fun _ a ha => by cases ha; rfl }
  | setAcceptor =>
    simp only [hrun] at h hr
    cases h
    exact { hs with reached := ⟨hr.1, hr.2.1, rfl⟩, acceptorCell := fun _ => hr.2, storing := fun _ => rfl }
  | spawnAcceptor =>
    simp only [hrun] at h hr
    cases h
    refine { hs with
      reached := ⟨hr.2.1, fun _ => hr.2.2⟩
      acceptorCell := fun hcell => (hs.acceptorCell hcell).imp_right fun ha => (Option.isSome_map ..).trans ha
      isRunning := fun hcall a ha => ?_ }
    obtain ⟨a₀, ha₀, rfl⟩ := Option.map_eq_some_iff.mp ha
    exact hs.isRunning hcall a₀ ha₀
  | spawning =>
    simp only [hrun] at h hr
    split at h
    · cases h
      exact { hs with reached := by simpa [Reached, hrun] using hr, spawned := fun _ _ => hr.2 }
    · cases h
      exact { hs with reached := ⟨hr.2, fun hmode => absurd (hr.1.symm.trans hmode) (by simp)⟩ }
  | joining => simp only [hrun] at h; cases h
  | failed => simp only [hrun] at h; cases h

omit [Codec κ Msg] [EventHandler η κ Msg] in
theorem Inv.runFails (hs : s.Inv) (h : s.runFails = some s') : s'.Inv := by
  unfold Startup.runFails at h
  split at h
  · cases h
    exact { hs with reached := trivial }
  · cases h
    exact { hs with reached := trivial }
  all_goals cases h

/-- A step of the engine. -/
theorem Inv.engine (hs : s.Inv) {l : EngineLabel η} {engine : Engine η κ} (h : s.engine.step l = some engine) :
    ({ s with engine } : Startup η κ).Inv := by
  have hacts : ∀ (p : Nat) (m' : Machine η κ), engine.eventloops[p]? = some m' →
      ∃ m, s.engine.eventloops[p]? = some m ∧ m'.Calm ∧ (m.Stopping → m'.Stopping) := fun p m' hm' => by
    obtain ⟨m, hm, ha⟩ := Engine.step_acts h hm'
    exact ⟨m, hm, ha.stopping (hs.calm _ m hm)⟩
  refine { hs with
    calm := fun p m' hm' => ?_
    registry := fun n hn => (hs.registry n hn).trans (Engine.step_length h).symm
    triggering := fun p n hcall => ⟨(hs.triggering p n hcall).1, fun q hq m' hm' => ?_⟩ }
  · obtain ⟨m, -, hcalm, -⟩ := hacts p m' hm'
    exact hcalm
  · obtain ⟨m, hm, -, hstop⟩ := hacts q m' hm'
    exact hstop ((hs.triggering p n hcall).2 q hq m hm)

theorem Inv.engineNext (hs : s.Inv) {l : EngineLabel η} (h : s.engineNext l = some s') : s'.Inv := by
  rcases engineNext_some h with rfl | ⟨engine, he, rfl⟩
  · exact hs
  · exact hs.engine he

omit [Codec κ Msg] [EventHandler η κ Msg] in
/-- Whatever happens to the acceptor, it stays there. -/
theorem Inv.acceptor (hs : s.Inv) {acceptor : Option Acceptor} (h : s.acceptor.isSome → acceptor.isSome)
    (hrunning : s.call = .idle → ∀ a, acceptor = some a → a.isRunning) : ({ s with acceptor } : Startup η κ).Inv := by
  refine { hs with
    reached := ?_
    acceptorCell := fun hcell => (hs.acceptorCell hcell).imp_right h
    isRunning := hrunning }
  have hr := hs.reached
  unfold Reached at hr ⊢
  cases hrun : s.run <;> simp only [hrun] at hr ⊢
  case setAcceptor => exact hr.imp_right fun hr => hr.imp_right h
  all_goals exact hr

omit [Codec κ Msg] [EventHandler η κ Msg] in
/-- The call goes on: what it relies on where it stands is there. -/
theorem Inv.goto (hs : s.Inv) {call : CallPhase} (hne : call ≠ .idle)
    (hcell : call = .storing ∨ call = .waking → s.acceptorCell)
    (hloops : ∀ p n, call = .triggering p n → s.eventloops = some n ∧
      ∀ q < p, ∀ m, s.engine.eventloops[q]? = some m → m.Stopping) : ({ s with call } : Startup η κ).Inv :=
  { hs with isRunning := fun h => absurd h hne, storing := hcell, triggering := hloops }

theorem Inv.callNext (hs : s.Inv) (h : s.callNext = some s') : s'.Inv := by
  unfold Startup.callNext at h
  cases hcall : s.call with
  | idle =>
    simp only [hcall] at h
    split at h
    · cases h
    · cases h
      by_cases hcell : s.acceptorCell = true
      · rw [if_pos hcell]
        exact hs.goto (by simp) (fun _ => hcell) (by simp)
      · rw [if_neg hcell]
        exact hs.goto (by simp) (by simp) (by simp)
  | storing =>
    simp only [hcall] at h
    cases h
    have ha : ({ s with acceptor := s.acceptor.map fun a => { a with isRunning := false } } : Startup η κ).Inv :=
      hs.acceptor (fun h => (Option.isSome_map ..).trans h) (fun h => absurd (hcall.symm.trans h) (by simp))
    exact ha.goto (by simp) (fun _ => hs.storing (Or.inl hcall)) (by simp)
  | waking =>
    simp only [hcall] at h
    cases h
    have ha : ({ s with acceptor := s.acceptor.map fun a => { a with awoken := true } } : Startup η κ).Inv :=
      hs.acceptor (fun h => (Option.isSome_map ..).trans h) (fun h => absurd (hcall.symm.trans h) (by simp))
    exact ha.goto (by simp) (by simp) (by simp)
  | loading =>
    simp only [hcall] at h
    cases hn : s.eventloops with
    | none =>
      rw [hn] at h
      cases h
      have hr := hs.goto (show CallPhase.returned ≠ .idle by simp) (by simp) (by simp)
      rwa [hn] at hr
    | some n =>
      rw [hn] at h
      cases h
      have ht := hs.goto (show CallPhase.triggering 0 n ≠ .idle by simp) (by simp) (fun p' n' hc => by
        cases hc
        exact ⟨hn, by simp⟩)
      rwa [hn] at ht
  | triggering p n =>
    simp only [hcall] at h
    split at h
    · obtain ⟨engine, he, rfl⟩ := Option.map_eq_some_iff.mp h
      have hse := hs.engine he
      refine hse.goto (by simp) (by simp) fun p' n' hc => ?_
      cases hc
      refine ⟨(hs.triggering p n hcall).1, fun q hlt m hm => ?_⟩
      rcases Nat.lt_succ_iff_lt_or_eq.mp hlt with hlt | rfl
      · exact (hse.triggering p n hcall).2 q hlt m hm
      · exact Engine.shutdown_stopping he hm
    · cases h
      exact hs.goto (by simp) (by simp) (by simp)
  | returned => simp only [hcall] at h; cases h

theorem Inv.step (hs : s.Inv) {l : StartupLabel η} (h : s.step l = some s') : s'.Inv := by
  cases l with
  | run => exact hs.runNext h
  | fail => exact hs.runFails h
  | call => exact hs.callNext h
  | acceptor | acceptorReturns | acceptorFails =>
    obtain ⟨a, a', ha, rfl, hgoes⟩ := step_acceptor (by simp) h
    exact hs.acceptor (fun _ => rfl) fun hcall b hb => by
      cases hb
      exact hgoes.isRunning.trans (hs.isRunning hcall a ha)
  | engine l => exact hs.engineNext h

omit [Codec κ Msg] [EventHandler η κ Msg] in
theorem initial_inv {mode : Mode} {minted : Nat} {cores : List (EventLoop η κ)} (hcores : ∀ el ∈ cores, el.Fresh) :
    (initial mode minted cores).Inv where
  reached := ⟨rfl, rfl⟩
  calm p m hm := by cases hm
  fresh := hcores
  registry n hn := by cases hn
  acceptorCell h := by cases h
  spawned _ h := by cases h
  isRunning _ a ha := by cases ha
  storing h := by rcases h with h | h <;> cases h
  triggering p n h := by cases h

/-! ## The request -/

end Startup

/-- The acceptor's thread has stopped, or it stops when it goes on. -/
def Acceptor.Joinable (a : Acceptor) : Prop :=
  a.thread.isSome → a.thread = some .stopped ∨ ∃ a', Startup.acceptorNext a = some a' ∧ a'.thread = some .stopped

/-- A flag that is down, and no `poll` without the wake event. -/
structure Acceptor.Leaving (a : Acceptor) : Prop where
  isRunning : a.isRunning = false
  awoken : a.thread = some .polling → a.awoken

theorem Acceptor.Leaving.joinable {a : Acceptor} (h : a.Leaving) : a.Joinable := by
  intro ht
  obtain ⟨isRunning, awoken, thread⟩ := a
  obtain rfl : isRunning = false := h.isRunning
  rcases thread with _ | _ | _ | _
  · cases ht
  · exact Or.inr ⟨_, rfl, rfl⟩
  · obtain rfl : awoken = true := h.awoken rfl
    exact Or.inr ⟨_, rfl, rfl⟩
  · exact Or.inl rfl

namespace Startup

variable [Codec κ Msg] [EventHandler η κ Msg] {s s' : Startup η κ}

/-- The request has arrived: every loop has stopped or has a `Shutdown` in its queues, the acceptor's flag is down, and
its thread can be joined. -/
structure Honoured (s : Startup η κ) : Prop where
  loops : ∀ (p : Nat) (m : Machine η κ), s.engine.eventloops[p]? = some m → m.Stopping
  acceptor : s.mode = .userLb → ∃ a, s.acceptor = some a ∧ a.isRunning = false ∧ a.Joinable

/-- Where there is an acceptor, the call looks for it when `set_acceptor` has been done. -/
def Timely (s : Startup η κ) : StartupLabel η → Prop
  | .call => s.call = .idle → s.mode = .userLb → s.acceptorCell
  | _ => True

/-- What a timely call finds and does. -/
structure Kept (s : Startup η κ) : Prop where
  eventloops : s.call ≠ .idle → s.eventloops.isSome
  acceptorCell : s.call ≠ .idle → s.mode = .userLb → s.acceptorCell
  stored : s.call ≠ .idle → s.call ≠ .storing → s.mode = .userLb →
    ∃ a, s.acceptor = some a ∧ a.isRunning = false ∧ (s.call ≠ .waking → a.Leaving)
  returned : s.call = .returned → ∀ (p : Nat) (m : Machine η κ), s.engine.eventloops[p]? = some m → m.Stopping

/-- What a call leaves that came too early: it does not go to the acceptor any more. -/
structure Missed (s : Startup η κ) : Prop where
  mode : s.mode = .userLb
  call : s.call = .loading ∨ (∃ p n, s.call = .triggering p n) ∨ s.call = .returned
  isRunning : ∀ a, s.acceptor = some a → a.isRunning

omit [Codec κ Msg] [EventHandler η κ Msg] in
/-- Behind `waker.wake()` the call leaves an acceptor that stops. -/
theorem Kept.leaving (hk : s.Kept) (hcall : s.call ≠ .idle) (hst : s.call ≠ .storing) (hw : s.call ≠ .waking)
    (hmode : s.mode = .userLb) (next : CallPhase) :
    ∃ a, s.acceptor = some a ∧ a.isRunning = false ∧ (next ≠ .waking → a.Leaving) := by
  obtain ⟨a, ha, hdown, hleaving⟩ := hk.stored hcall hst hmode
  exact ⟨a, ha, hdown, fun _ => hleaving hw⟩

omit [Codec κ Msg] [EventHandler η κ Msg] in
theorem Kept.runNext (hs : s.Inv) (hk : s.Kept) (h : s.runNext = some s') : s'.Kept := by
  have hr := hs.reached
  unfold Reached at hr
  unfold Startup.runNext at h
  cases hrun : s.run with
  | making =>
    simp only [hrun] at h hr
    cases hcores : s.cores with
    | nil =>
      rw [hcores] at h
      cases h
      exact { hk with }
    | cons el cores =>
      rw [hcores] at h
      cases h
      -- a timely call has found the registry
      have hidle : s.call = .idle := by
        by_contra hcall
        have := hk.eventloops hcall
        rw [hr.1] at this
        cases this
      exact { hk with returned := fun hret => absurd (hidle.symm.trans hret) (by simp) }
  | setWorkers =>
    simp only [hrun] at h hr
    cases h
    exact { hk with eventloops := fun _ => rfl }
  | newAcceptor =>
    simp only [hrun] at h hr
    cases h
    have hidle : s.call = .idle := by
      by_contra hcall
      have := hk.acceptorCell hcall hr.1
      rw [hr.2.2] at this
      cases this
    exact { hk with stored := fun hcall => absurd hidle hcall }
  | setAcceptor =>
    simp only [hrun] at h hr
    cases h
    exact { hk with acceptorCell := fun _ _ => rfl }
  | spawnAcceptor =>
    simp only [hrun] at h hr
    cases h
    refine { hk with stored := fun hcall hst hmode => ?_ }
    obtain ⟨a, ha, hdown, -⟩ := hk.stored hcall hst hmode
    exact ⟨{ a with thread := some .checking }, by simp [ha], hdown, fun _ => ⟨hdown, fun hp => by cases hp⟩⟩
  | spawning =>
    simp only [hrun] at h hr
    split at h <;> cases h <;> exact { hk with }
  | joining => simp only [hrun] at h; cases h
  | failed => simp only [hrun] at h; cases h

theorem Kept.callNext (hs : s.Inv) (hk : s.Kept) (ht : s.Timely (η := η) .call)
    (h : s.callNext = some s') : s'.Kept := by
  unfold Startup.callNext at h
  cases hcall : s.call with
  | idle =>
    simp only [hcall] at h
    split at h
    · cases h
    · rename_i hspawned
      cases h
      have hcell := ht hcall
      have hloops : s.eventloops.isSome := by
        cases hmode : s.mode with
        | userLb => exact (hs.acceptorCell (hcell hmode)).1
        | reusePort => exact hs.spawned hmode (Nat.pos_of_ne_zero hspawned)
      refine ⟨fun _ => hloops, fun _ => hcell, fun _ hst hmode => absurd ?_ hst, fun hret => ?_⟩
      · exact if_pos (hcell hmode)
      · have hret : (if s.acceptorCell = true then CallPhase.storing else CallPhase.loading) = .returned := hret
        split at hret <;> cases hret
  | storing =>
    simp only [hcall] at h
    cases h
    have hne : s.call ≠ .idle := by simp [hcall]
    obtain ⟨a, ha⟩ := Option.isSome_iff_exists.mp (hs.acceptorCell (hs.storing (Or.inl hcall))).2
    exact ⟨fun _ => hk.eventloops hne, fun _ => hk.acceptorCell hne,
      fun _ _ _ => ⟨{ a with isRunning := false }, by simp [ha], rfl, fun hw => absurd rfl hw⟩,
        fun hret => by cases hret⟩
  | waking =>
    simp only [hcall] at h
    cases h
    have hne : s.call ≠ .idle := by simp [hcall]
    refine ⟨fun _ => hk.eventloops hne, fun _ => hk.acceptorCell hne, fun _ _ hmode => ?_, fun hret => by cases hret⟩
    obtain ⟨a, ha, hdown, -⟩ := hk.stored hne (by simp [hcall]) hmode
    exact ⟨{ a with awoken := true }, by simp [ha], hdown, fun _ => ⟨hdown, fun _ => rfl⟩⟩
  | loading =>
    simp only [hcall] at h
    have hne : s.call ≠ .idle := by simp [hcall]
    obtain ⟨n, hn⟩ := Option.isSome_iff_exists.mp (hk.eventloops hne)
    simp only [hn] at h
    cases h
    exact ⟨fun _ => rfl, fun _ => hk.acceptorCell hne,
      fun _ _ hmode => hk.leaving hne (by simp [hcall]) (by simp [hcall]) hmode _, fun hret => by cases hret⟩
  | triggering p n =>
    simp only [hcall] at h
    have hne : s.call ≠ .idle := by simp [hcall]
    obtain ⟨hn, hq⟩ := hs.triggering p n hcall
    split at h
    · obtain ⟨engine, he, rfl⟩ := Option.map_eq_some_iff.mp h
      exact ⟨fun _ => hk.eventloops hne, fun _ => hk.acceptorCell hne,
        fun _ _ hmode => hk.leaving hne (by simp [hcall]) (by simp [hcall]) hmode _, fun hret => by cases hret⟩
    · rename_i hlt
      cases h
      refine ⟨fun _ => hk.eventloops hne, fun _ => hk.acceptorCell hne,
        fun _ _ hmode => hk.leaving hne (by simp [hcall]) (by simp [hcall]) hmode _, fun _ q m hm => hq q ?_ m hm⟩
      -- the call has come to the end of the registry
      have hlen : q < s.engine.eventloops.length := (List.getElem?_eq_some_iff.mp hm).1
      have := hs.registry n hn
      omega
  | returned => simp only [hcall] at h; cases h

omit [Codec κ Msg] [EventHandler η κ Msg] in
/-- The acceptor's thread does not touch the flag, and with the flag down it does not go back to `poll`. -/
theorem Kept.acceptor (hk : s.Kept) {l : StartupLabel η} {a a' : Acceptor} (ha : s.acceptor = some a)
    (hgoes : Goes l a a') : ({ s with acceptor := some a' } : Startup η κ).Kept := by
  refine { hk with stored := fun hcall hst hmode => ?_ }
  obtain ⟨a₀, ha₀, hdown, -⟩ := hk.stored hcall hst hmode
  obtain rfl : a = a₀ := Option.some.inj (ha.symm.trans ha₀)
  have hdown' := hgoes.isRunning.trans hdown
  exact ⟨a', rfl, hdown', fun _ => ⟨hdown', fun hp => absurd hp (hgoes.leaves hdown)⟩⟩

theorem Kept.step (hs : s.Inv) (hk : s.Kept) {l : StartupLabel η} (ht : s.Timely l) (h : s.step l = some s') :
    s'.Kept := by
  cases l with
  | run => exact hk.runNext hs h
  | fail =>
    have h : s.runFails = some s' := h
    unfold Startup.runFails at h
    split at h <;> cases h <;> exact { hk with }
  | call => exact hk.callNext hs ht h
  | acceptor | acceptorReturns | acceptorFails =>
    obtain ⟨a, a', ha, rfl, hgoes⟩ := step_acceptor (by simp) h
    exact hk.acceptor ha hgoes
  | engine l =>
    rcases engineNext_some h with rfl | ⟨engine, he, rfl⟩
    · exact hk
    · refine { hk with returned := fun hret p m' hm' => ?_ }
      obtain ⟨m, hm, hacts⟩ := Engine.step_acts he hm'
      exact (hacts.stopping (hs.calm p m hm)).2 (hk.returned hret p m hm)

/-- The flag stays up. -/
theorem Missed.step (hm : s.Missed) {l : StartupLabel η} (h : s.step l = some s') : s'.Missed := by
  cases l with
  | run =>
    obtain ⟨hmode, hcall, hacceptor⟩ := runNext_frame h
    refine ⟨hmode.trans hm.mode, hcall ▸ hm.call, fun a ha => ?_⟩
    rcases hacceptor with hsame | hnew | hspawned
    · exact hm.isRunning a (hsame.symm.trans ha)
    · cases hnew.symm.trans ha
      rfl
    · obtain ⟨a₀, ha₀, rfl⟩ := Option.map_eq_some_iff.mp (hspawned.symm.trans ha)
      exact hm.isRunning a₀ ha₀
  | fail =>
    have h : s.runFails = some s' := h
    unfold Startup.runFails at h
    split at h <;> cases h <;> exact { hm with }
  | call =>
    have h : s.callNext = some s' := h
    unfold Startup.callNext at h
    rcases hm.call with hcall | ⟨p, n, hcall⟩ | hcall
    · simp only [hcall] at h
      split at h <;> cases h
      · exact { hm with call := Or.inr (Or.inr rfl) }
      · exact { hm with call := Or.inr (Or.inl ⟨0, _, rfl⟩) }
    · simp only [hcall] at h
      split at h
      · obtain ⟨engine, -, rfl⟩ := Option.map_eq_some_iff.mp h
        exact { hm with call := Or.inr (Or.inl ⟨p + 1, n, rfl⟩) }
      · cases h
        exact { hm with call := Or.inr (Or.inr rfl) }
    · simp only [hcall] at h
      cases h
  | acceptor | acceptorReturns | acceptorFails =>
    obtain ⟨a, a', ha, rfl, hgoes⟩ := step_acceptor (by simp) h
    exact { hm with isRunning := fun b hb => by cases hb; exact hgoes.isRunning.trans (hm.isRunning a ha) }
  | engine l =>
    rcases engineNext_some h with rfl | ⟨engine, -, rfl⟩
    · exact hm
    · exact { hm with }

/-- The acceptor goes on, and nobody is left to stop it. -/
structure Stuck (s : Startup η κ) : Prop extends s.Missed where
  thread : ∃ a, s.acceptor = some a ∧ a.thread ≠ some .stopped

/-- But for an error of its own the acceptor goes on for ever. -/
theorem Stuck.step (hs : s.Stuck) {l : StartupLabel η} (hl : l ≠ .acceptorFails) (h : s.step l = some s') :
    s'.Stuck := by
  refine ⟨hs.toMissed.step h, ?_⟩
  obtain ⟨a, ha, hne⟩ := hs.thread
  cases l with
  | run =>
    obtain ⟨-, -, hacceptor⟩ := runNext_frame h
    rcases hacceptor with hsame | hnew | hspawned
    · exact ⟨a, hsame.trans ha, hne⟩
    · exact ⟨_, hnew, by simp⟩
    · exact ⟨_, hspawned.trans (congrArg _ ha), by simp⟩
  | fail =>
    have h : s.runFails = some s' := h
    unfold Startup.runFails at h
    split at h <;> cases h <;> exact ⟨a, ha, hne⟩
  | call =>
    have h : s.callNext = some s' := h
    unfold Startup.callNext at h
    rcases hs.call with hcall | ⟨p, n, hcall⟩ | hcall <;> simp only [hcall] at h
    · split at h <;> cases h <;> exact ⟨a, ha, hne⟩
    · split at h
      · obtain ⟨engine, -, rfl⟩ := Option.map_eq_some_iff.mp h
        exact ⟨a, ha, hne⟩
      · cases h
        exact ⟨a, ha, hne⟩
    · cases h
  | acceptor | acceptorReturns =>
    obtain ⟨a₀, a', ha₀, rfl, hgoes⟩ := step_acceptor (by simp) h
    exact ⟨a', rfl, hgoes.stops (hs.isRunning a₀ ha₀) hl⟩
  | acceptorFails => exact absurd rfl hl
  | engine l =>
    rcases engineNext_some h with rfl | ⟨engine, -, rfl⟩ <;> exact ⟨a, ha, hne⟩

theorem Stuck.run (hs : s.Stuck) {ls : List (StartupLabel η)} (hls : ∀ l ∈ ls, l ≠ .acceptorFails)
    (hrun : Runs.run Startup.step s ls = some s') : s'.Stuck := by
  refine run_invariant ?_ hs (.of_labels hls) hrun
  exact fun _ _ _ ht hl h => ht.step hl h

/-- A call that comes too early misses the acceptor. -/
theorem missed_of_not_timely (hs : s.Inv) {l : StartupLabel η} (ht : ¬s.Timely l) (h : s.step l = some s') :
    s'.Missed := by
  cases l with
  | call =>
    simp only [Timely, Classical.not_imp] at ht
    obtain ⟨hcall, hmode, hcell⟩ := ht
    have h : s.callNext = some s' := h
    simp only [Startup.callNext, hcall, if_neg hcell] at h
    split at h
    · cases h
    · cases h
      exact ⟨hmode, Or.inl rfl, hs.isRunning hcall⟩
  | run | fail | acceptor | acceptorReturns | acceptorFails | engine _ => exact absurd trivial ht

omit [Codec κ Msg] [EventHandler η κ Msg] in
theorem initial_kept {mode : Mode} {minted : Nat} {cores : List (EventLoop η κ)} :
    (initial mode minted cores).Kept where
  eventloops h := absurd rfl h
  acceptorCell h := absurd rfl h
  stored h := absurd rfl h
  returned h := by cases h

/-- **A shutdown request is kept** if and only if, where there is an acceptor, the call looks for it after
`set_acceptor`. That is decided when the call has returned, also if `run` is still starting threads. -/
theorem shutdown_request_kept {mode : Mode} {minted : Nat} {cores : List (EventLoop η κ)}
    (hcores : ∀ el ∈ cores, el.Fresh) {ls : List (StartupLabel η)}
    (hrun : Runs.run step (initial mode minted cores) ls = some s) (hreturned : s.call = .returned) :
    s.Honoured ↔ Along step Timely (initial mode minted cores) ls := by
  have hinv : ∀ {ks : List (StartupLabel η)} {t : Startup η κ},
      Runs.run step (initial mode minted cores) ks = some t → t.Inv := fun hks =>
    run_invariant' (fun _ _ _ ht h => ht.step h) (initial_inv hcores) hks
  constructor
  · intro hh
    by_contra hno
    obtain ⟨ks, l, ms, s₁, s₂, -, hks, -, ht, hstep, hms⟩ := exists_of_not_along hrun hno
    have hmissed : s.Missed :=
      run_invariant' (fun _ _ _ hm h => hm.step h) (missed_of_not_timely (hinv hks) ht hstep) hms
    obtain ⟨a, ha, hdown, -⟩ := hh.acceptor hmissed.mode
    rw [hmissed.isRunning a ha] at hdown
    cases hdown
  · intro htimely
    have hkept : s.Inv ∧ s.Kept := run_invariant (P := fun s => s.Inv ∧ s.Kept)
      (fun _ _ _ ht hl h => ⟨ht.1.step h, ht.2.step ht.1 hl h⟩) ⟨initial_inv hcores, initial_kept⟩ htimely hrun
    refine ⟨hkept.2.returned hreturned, fun hmode => ?_⟩
    obtain ⟨a, ha, hdown, hleaving⟩ := hkept.2.stored (by simp [hreturned]) (by simp [hreturned]) hmode
    exact ⟨a, ha, hdown, (hleaving (by simp [hreturned])).joinable⟩

/-! ## Two calls -/

open EventLoop Engine

/-- One core: `run` makes its loop and starts the thread, and goes on to the registry. -/
def registered : List (StartupLabel Bystander) := [.run, .run, .run]

/-- `run` goes on to the acceptor's thread. -/
def accepting : List (StartupLabel Bystander) := [.run, .run, .run]

/-- A call from the second look on: `eventloops`, and the one loop. -/
def triggers : List (StartupLabel Bystander) := [.call, .call, .call]

/-- The loop starts, polls and handles the `Shutdown`. -/
def exits : List (StartupLabel Bystander) :=
  [.engine (.loop 0 .advance), .engine (.loop 0 .advance), .engine (.loop 0 (.poll [])), .engine (.loop 0 .advance)]

theorem crew_fresh {n : Nat} : ∀ el ∈ crew n, el.Fresh := fun el hel => by
  obtain ⟨i, hi⟩ := List.getElem?_of_mem hel
  exact (crew_started n i el hi).fresh

/-- A call that comes when everything is there. -/
theorem shutdown_request_kept_late : ∃ s, Runs.run step (initial .userLb 0 (crew 1))
      (registered ++ accepting ++ [.call, .call, .call] ++ triggers) = some s ∧ s.call = .returned ∧ s.Honoured := by
  have hrun : (Runs.run step (initial .userLb 0 (crew 1))
      (registered ++ accepting ++ [.call, .call, .call] ++ triggers)).any (fun s => decide (s.call = .returned)) =
        true := by
    decide +kernel
  obtain ⟨s, hs, hret⟩ := exists_of_any hrun
  have hret : s.call = .returned := of_decide_eq_true hret
  refine ⟨s, hs, hret, (shutdown_request_kept crew_fresh hs hret).mpr ?_⟩
  refine .of_check (b := fun s l => match l with | .call => s.call ≠ .idle || s.acceptorCell | _ => true)
    (fun s l hl => ?_) (by decide +kernel)
  cases l with
  | call =>
    have hl : s.call ≠ .idle ∨ s.acceptorCell = true := by simpa using hl
    exact fun hcall _ => hl.resolve_left fun h => h hcall
  | run | fail | acceptor | acceptorReturns | acceptorFails | engine _ => trivial

/-- A call between the registry and the acceptor: the loop stops, the acceptor does not, and `run` waits for it. -/
theorem shutdown_request_lost : ∃ s, Runs.run step (initial .userLb 0 (crew 1))
      (registered ++ [.call] ++ triggers ++ exits ++ accepting) = some s ∧
    s.call = .returned ∧ s.run = .joining ∧ (∀ m ∈ s.engine.eventloops, ¬m.phase.Live) ∧
    (∃ a, s.acceptor = some a ∧ a.isRunning) ∧ ¬s.Honoured ∧
    ∀ ls s', (∀ l ∈ ls, l ≠ .acceptorFails) → Runs.run step s ls = some s' →
      ∃ a, s'.acceptor = some a ∧ a.isRunning ∧ a.thread ≠ some .stopped := by
  have hrun : (Runs.run step (initial .userLb 0 (crew 1)) (registered ++ [.call] ++ triggers ++ exits ++ accepting)).any
      (fun s => decide (s.mode = .userLb) && decide (s.call = .returned) && decide (s.run = .joining) &&
        s.engine.eventloops.all (fun m => decide ¬m.phase.Live) &&
        decide (s.acceptor = some ⟨true, false, some .checking⟩)) = true := by decide +kernel
  obtain ⟨s, hs, hat⟩ := exists_of_any hrun
  simp only [Bool.and_eq_true, decide_eq_true_eq, List.all_eq_true] at hat
  obtain ⟨⟨⟨⟨hmode, hret⟩, hjoining⟩, hloops⟩, ha⟩ := hat
  have hstuck : s.Stuck := ⟨⟨hmode, Or.inr (Or.inr hret), fun a h => by cases ha.symm.trans h; rfl⟩, _, ha, by simp⟩
  refine ⟨s, hs, hret, hjoining, hloops, ⟨_, ha, rfl⟩, fun hh => ?_, fun ls s' hls hrun => ?_⟩
  · obtain ⟨a, h, hdown, -⟩ := hh.acceptor hmode
    cases ha.symm.trans h
    cases hdown
  · have h := hstuck.run hls hrun
    obtain ⟨a, ha, hne⟩ := h.thread
    exact ⟨a, ha, h.isRunning a ha, hne⟩

end Startup
end Rnet
