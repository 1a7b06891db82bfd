import Rnet.EventLoop.Consistency

/-!
# How far a failure reaches

A method that goes well has been granted everything it asked of the poller (`reregister_grants` to `onTick_grants`), and
then it has touched one connection only. A method that is refused something, other than by a socket, ends `run_loop`. So
a failure is confined to the connection it concerns if and only if it is none of the poller's (`failures_confined`).
-/

namespace Rnet

open Programs Relation

variable {η κ Msg : Type}

namespace EventLoop

/-- The poller's answers on the way from one state to the other are all `Ok`. -/
def Grants (el t : EventLoop η κ) : Prop :=
  ∃ used, el.poll.results = used ++ t.poll.results ∧ ∀ r ∈ used, r = .ok ()

/-- A run of the method that goes well has been granted all it asked for. -/
def Granted {α : Type} (m : LoopM η κ α) (el : EventLoop η κ) : Prop := Leads Grants (fun _ _ => True) m el

variable {el t u : EventLoop η κ} {key : Nat}

theorem Grants.of_eq (h : t.poll.results = el.poll.results) : el.Grants t := ⟨[], h.symm, by simp⟩

theorem Grants.trans (h : el.Grants t) (h' : t.Grants u) : el.Grants u := by
  obtain ⟨used, hu, hok⟩ := h
  obtain ⟨used', hu', hok'⟩ := h'
  refine ⟨used ++ used', by rw [hu, hu', List.append_assoc], fun r hr => ?_⟩
  exact (List.mem_append.mp hr).elim (hok r) (hok' r)

theorem grants_of_path (h : ReflTransGen Grants el t) : el.Grants t :=
  invariant_of_steps (P := fun t => el.Grants t) h (fun _ _ hs ht => ht.trans hs) (.of_eq rfl)

/-! ## The methods -/

theorem pollResult_grants (el : EventLoop η κ) : Granted pollResult el := by
  rcases pollResult_cases el with h | ⟨e, h, -⟩
  · refine .of_ok h (.single ?_)
    cases hr : el.poll.results with
    | nil => exact .of_eq (by simp [polled, hr])
    | cons r rs =>
      have hok : r = .ok () := by
        cases r with
        | ok v => rfl
        | error e =>
          unfold pollResult at h
          simp [hr] at h
      exact ⟨[r], by simp [polled, hr], by simp [hok]⟩
  · exact .of_error h (.single trivial)

theorem trigger_grants (cmd : Command) (el : EventLoop η κ) : Granted (trigger cmd) el :=
  .of_modify (.single (.of_eq rfl))

theorem reregister_grants (key : Nat) (el : EventLoop η κ) : Granted (reregister key) el := by
  unfold reregister
  refine .get_bind ?_
  cases el.connections.get key with
  | none => exact .pure _
  | some i =>
    simp only
    cases i.conn.socket with
    | none => exact .throw _
    | some s =>
      exact .bind (fun _ _ _ => trivial) (pollResult_grants el) fun _ t _ => .of_modify (.single (.of_eq rfl))

variable [Codec κ Msg] [EventHandler η κ Msg]

theorem closeConnection_grants (key : Nat) (graceful : Bool) (el : EventLoop η κ) :
    Granted (closeConnection key graceful) el := by
  unfold closeConnection
  refine .get_bind ?_
  cases el.connections.get key with
  | none => exact .pure _
  | some i =>
    have hclose : ∀ i, Granted (onClose key i) el := fun i => .of_ok rfl (.single (.of_eq rfl))
    have hend : ∀ (i : Incarnation κ) (t : EventLoop η κ), Granted (modify (·.recycle key i)) t := fun i t =>
      .of_modify (.single (.of_eq rfl))
    refine .bind (fun _ _ _ => trivial) (hclose _) fun j t _ => ?_
    dsimp only
    split
    · exact .bind (fun _ _ _ => trivial) (pollResult_grants t) fun _ u _ => hend j u
    · exact hend j t

/-- What throws in the end asks for nothing when it goes well. -/
theorem granted_throw {α β : Type} (m : LoopM η κ α) (e : IoError) (el : EventLoop η κ) :
    Granted (m >>= fun _ => (throw e : LoopM η κ β)) el := by
  refine .bind_throw ⟨fun _ => .single trivial, fun _ => .single trivial⟩

theorem readOnce_grants (key : Nat) (a : ReadAnswer) (el : EventLoop η κ) : Granted (readOnce key a) el := by
  unfold readOnce
  refine .get_bind ?_
  dsimp only
  cases el.connections.get key with
  | none => exact .throw _
  | some i =>
    simp only
    cases i.conn.socket with
    | none => exact .throw _
    | some s =>
      simp only
      have htraffic : ∀ i (t : EventLoop η κ), Granted (onTraffic key i) t := fun i t =>
        .of_ok rfl (.single (.of_eq rfl))
      split
      · exact .set_bind (fun _ _ _ => trivial) (.single (.of_eq rfl)) (.pure _)
      · split
        · exact .set_bind (fun _ _ _ => trivial) (.single (.of_eq rfl)) (.pure _)
        · refine .set_bind (fun _ _ _ => trivial) (.single (.of_eq rfl)) ?_
          refine .bind (fun _ _ _ => trivial) (htraffic _ _) fun action t _ => ?_
          cases action with
          | close => exact .pure _
          | shutdown => exact .pure _
          | none =>
            refine .get_bind ?_
            cases t.connections.get key with
            | none => exact .throw _
            | some j => exact .modify_bind (fun _ _ _ => trivial) (.single (.of_eq rfl)) (.pure _)

theorem readLoop_grants (key : Nat) : ∀ (answers : List ReadAnswer) (bytesRead : Nat) (el : EventLoop η κ),
    Granted (readLoop key answers bytesRead) el
  | [], bytesRead, el => by
    unfold readLoop
    refine .get_bind ?_
    split
    · exact .pure _
    · refine .bind (fun _ _ _ => trivial) (readOnce_grants key _ el) fun r t _ => ?_
      cases r <;> exact .pure _
  | a :: answers, bytesRead, el => by
    unfold readLoop
    refine .get_bind ?_
    split
    · exact .pure _
    · refine .bind (fun _ _ _ => trivial) (readOnce_grants key a el) fun r t _ => ?_
      cases r with
      | inl status => exact .pure _
      | inr n => exact readLoop_grants key answers (bytesRead + n) t

theorem processRead_grants (key : Nat) (el : EventLoop η κ) : Granted (processRead key) el := by
  unfold processRead
  refine .get_bind ?_
  cases el.connections.get key with
  | none => exact .pure _
  | some i =>
    simp only
    split
    · exact .pure _
    · exact readLoop_grants key _ 0 el

theorem readSocket_grants (key : Nat) (el : EventLoop η κ) : Granted (readSocket key) el := by
  unfold readSocket
  refine .bind (fun _ _ _ => trivial) (processRead_grants key el) fun status t _ => ?_
  cases status with
  | closed graceful => exact closeConnection_grants key graceful t
  | «yield» => exact trigger_grants _ t
  | completed => exact .pure _
  | shutdown => exact granted_throw _ _ t

theorem writeSocket_grants (key : Nat) (el : EventLoop η κ) : Granted (writeSocket key) el := by
  have hwrite : Granted (processWrite key) el := by
    unfold processWrite
    refine .get_bind ?_
    cases el.connections.get key with
    | none => exact .pure _
    | some i =>
      refine .set_bind (fun _ _ _ => trivial) (.single (.of_eq rfl)) ?_
      split
      · exact .pure _
      · exact .throw _
  unfold writeSocket
  refine .bind (fun _ _ _ => trivial) hwrite fun status t _ => ?_
  cases status with
  | closed graceful => exact closeConnection_grants key graceful t
  | «yield» => exact trigger_grants _ t
  | completed => exact reregister_grants key t
  | shutdown => exact trigger_grants _ t

theorem asyncWrite_grants (gfd : Gfd) (data : Bytes) (el : EventLoop η κ) : Granted (asyncWrite gfd data) el := by
  unfold asyncWrite
  refine .get_bind ?_
  dsimp only
  split
  · exact .pure _
  · cases el.connections.get gfd.slabIndex with
    | none => exact .pure _
    | some i =>
      simp only
      split
      · exact .pure _
      · refine .set_bind (fun _ _ _ => trivial) (.single (.of_eq rfl)) ?_
        split
        · exact closeConnection_grants _ false _
        · exact reregister_grants _ _

theorem register_grants (socket : Socket) (localAddr peerAddr : NetworkAddress) (el : EventLoop η κ) :
    Granted (register socket localAddr peerAddr) el := by
  have hopen : ∀ i (t : EventLoop η κ), Granted (onOpen i) t := fun i t => .of_ok rfl (.single (.of_eq rfl))
  unfold register
  refine .get_bind (.bind (fun _ _ _ => trivial) (pollResult_grants el) fun _ t _ => .get_bind ?_)
  refine .set_bind (fun _ _ _ => trivial) (.single (.of_eq rfl)) ?_
  refine .bind (fun _ _ _ => trivial) (hopen _ _) fun p u _ => ?_
  obtain ⟨action, i⟩ := p
  cases action with
  | close =>
    exact .bind (fun _ _ _ => trivial) (closeConnection_grants _ true u) fun _ _ _ => .of_modify (.single (.of_eq rfl))
  | none => exact .of_modify (.single (.of_eq rfl))
  | shutdown =>
    refine ⟨fun h => ?_, fun _ => .single trivial⟩
    obtain ⟨_, v, -, h⟩ := bind_ok.mp h
    cases h

theorem handleCommand_grants (cmd : Command) (el : EventLoop η κ) : Granted (handleCommand cmd) el := by
  unfold handleCommand
  cases cmd with
  | none => exact .pure _
  | asyncWrite gfd data => exact asyncWrite_grants gfd data el
  | register socket localAddr peerAddr => exact register_grants socket localAddr peerAddr el
  | close key => exact closeConnection_grants key true el
  | read key => exact readSocket_grants key el
  | write key => exact writeSocket_grants key el
  | wake =>
    unfold wake
    refine .get_bind (.set_bind (fun _ _ _ => trivial) (.single (.of_eq rfl)) ?_)
    split
    · exact .pure _
    · exact .throw _
  | shutdown => exact granted_throw _ _ el

theorem processIo_grants (key : Nat) (ev : Event) (el : EventLoop η κ) : Granted (processIo key ev) el := by
  unfold processIo
  split
  · exact closeConnection_grants key false el
  · dsimp only
    have hread : ∀ u : EventLoop η κ, Granted
        (if (ev.error || ev.readable) = true then readSocket key >>= fun _ => reregister key
          else reregister key) u := by
      intro u
      split
      · exact .bind (fun _ _ _ => trivial) (readSocket_grants key u) fun _ v _ => reregister_grants key v
      · exact reregister_grants key u
    split
    · exact .bind (fun _ _ _ => trivial) (writeSocket_grants key el) fun _ u _ => hread u
    · exact hread el

omit [EventHandler η κ Msg] in
theorem tickOps_poll (ops : List (Nat × Op κ Msg)) : ∀ el : EventLoop η κ, (ops.foldl tickOp el).poll = el.poll := by
  induction ops with
  | nil => exact fun _ => rfl
  | cons op ops ih =>
    intro el
    rw [List.foldl_cons, ih]
    unfold tickOp
    split <;> rfl

theorem onTick_grants (el : EventLoop η κ) : Granted (onTick (η := η) (κ := κ)) el := by
  unfold onTick
  refine .get_bind (.set_bind (fun _ _ _ => trivial) (.single (.of_eq (congrArg Poller.results ?_))) ?_)
  · exact tickOps_poll _ _
  · split
    · exact granted_throw _ _ _
    · exact .pure _

end EventLoop

/-! ## Tasks -/

namespace Task

open EventLoop

variable [Codec κ Msg] [EventHandler η κ Msg] {el t : EventLoop η κ} {task : Task}

theorem grants (task : Task) (el : EventLoop η κ) : Granted task.run el := by
  cases task with
  | command cmd => exact handleCommand_grants cmd el
  | io key ev => exact processIo_grants key ev el
  | register socket localAddr peerAddr => exact register_grants socket localAddr peerAddr el
  | tick => exact .bind (fun _ _ _ => trivial) (onTick_grants el) fun _ _ _ => .pure _

/-- A task that goes well has been granted all it asked for. -/
theorem asked_ok (h : task.run el = .ok ⟨⟩ t) : ∀ r ∈ task.asked el, r = .ok () := by
  obtain ⟨used, hused, hok⟩ := grants_of_path ((task.grants el).ok h)
  rw [asked, final_of_ok h, hused, List.length_append, Nat.add_sub_cancel, List.take_left]
  exact hok

omit [Codec κ Msg] [EventHandler η κ Msg] in
/-- The key of the connection a task is about. -/
def subject (task : Task) (el : EventLoop η κ) : Option Nat :=
  match task with
  | .command (.asyncWrite gfd _) => some gfd.slabIndex
  | .command (.close key) | .command (.read key) | .command (.write key) | .io key _ => some key
  | .command (.register _ _ _) | .register _ _ _ => some el.connections.vacantKey
  | .command .none | .command .wake | .command .shutdown | .tick => none

omit [Codec κ Msg] in
/-- The keys of the connections that `on_tick` does something with. -/
def named (task : Task) (el : EventLoop η κ) : List Nat :=
  match task with
  | .tick => (EventHandler.onTick el.handler el.occupants).1.ops.map Prod.fst
  | .command _ | .io _ _ | .register _ _ _ => []

omit [EventHandler η κ Msg] in
theorem tickOps_stays (ops : List (Nat × Op κ Msg)) {k : Nat} :
    ∀ {el : EventLoop η κ} {i : Incarnation κ}, el.connections.get k = some i →
      ∃ j, (ops.foldl tickOp el).connections.get k = some j ∧ (k ∉ ops.map Prod.fst → j = i) := by
  induction ops with
  | nil => exact fun hi => ⟨_, hi, fun _ => rfl⟩
  | cons op ops ih =>
    intro el i hi
    by_cases hk : k = op.1
    · subst hk
      have hget : ∃ j, (el.tickOp op).connections.get op.1 = some j := by
        have hi' : (el.withHandle (op.2.apply i el.handle).2).connections.get op.1 = some i := hi
        unfold tickOp
        rw [hi]
        exact ⟨_, get_setIncarnation_self hi' _⟩
      obtain ⟨j, hj⟩ := hget
      obtain ⟨j', hj', -⟩ := ih hj
      exact ⟨j', hj', fun hne => absurd (by simp) hne⟩
    · obtain ⟨j, hj, heq⟩ := ih ((tickOp_get el op hk).trans hi)
      exact ⟨j, hj, fun hne => heq fun hmem => hne (List.mem_cons_of_mem _ hmem)⟩

/-- **A task that goes well leaves the other connections alone.** -/
theorem stays (hset : ∀ k, el.SettledAt k) (h : task.run el = .ok ⟨⟩ t) {k : Nat} {i : Incarnation κ}
    (hi : el.connections.get k = some i) (hk : task.subject el ≠ some k) :
    ∃ j, t.connections.get k = some j ∧ (k ∉ task.named el → j = i) := by
  have hsame : t.connections.get k = el.connections.get k →
      ∃ j, t.connections.get k = some j ∧ (k ∉ task.named el → j = i) := fun hs => ⟨i, hs.trans hi, fun _ => rfl⟩
  have hvac : k ≠ el.connections.vacantKey := fun hk => by
    rw [hk, Slab.get_vacantKey] at hi
    cases hi
  have hcommand : ∀ cmd : Command, (∀ s l p, cmd ≠ .register s l p) → handleCommand cmd el = .ok ⟨⟩ t →
      k ≠ commandKey cmd → t.connections.get k = el.connections.get k := fun cmd hcmd h hk =>
    frame ((handleCommand_leads hcmd hset).ok h) hk
  cases task with
  | command cmd =>
    cases cmd with
    | none => cases h; exact hsame rfl
    | wake =>
      rw [wake_ok h]
      exact ⟨i, hi, fun _ => rfl⟩
    | shutdown =>
      obtain ⟨_, _, _, h⟩ := bind_ok.mp h
      cases h
    | register socket localAddr peerAddr => exact hsame (register_frame h hvac)
    | asyncWrite gfd data =>
      exact hsame (hcommand (.asyncWrite gfd data) (by simp) h fun hk' => hk (congrArg some hk'.symm))
    | close key => exact hsame (hcommand (.close key) (by simp) h fun hk' => hk (congrArg some hk'.symm))
    | read key => exact hsame (hcommand (.read key) (by simp) h fun hk' => hk (congrArg some hk'.symm))
    | write key => exact hsame (hcommand (.write key) (by simp) h fun hk' => hk (congrArg some hk'.symm))
  | io key ev => exact hsame (frame ((processIo_leads ev (hset key)).ok h) fun hk' => hk (congrArg some hk'.symm))
  | register socket localAddr peerAddr => exact hsame (register_frame h hvac)
  | tick =>
    obtain ⟨delay, u, hu, h⟩ := bind_ok.mp h
    cases h
    rw [onTick_eq] at hu
    split at hu
    · obtain ⟨_, _, _, hu⟩ := bind_ok.mp hu
      cases hu
    · cases hu
      exact tickOps_stays _ hi

end Task

/-! ## Steps -/

namespace Machine

open EventLoop Runs

variable [Codec κ Msg] [EventHandler η κ Msg] {m m' : Machine η κ} {l : Label η}

/-- What a step does that is neither a shutdown nor `Command::Wake`, if failures are confined: `run_loop` goes on, and
no connection but the one the step is about leaves the slab or changes, other than by the operations of `on_tick`. -/
structure Confines (task : Task) (el₀ : EventLoop η κ) (m' : Machine η κ) : Prop where
  goesOn : m'.phase.Live
  stays : ∀ k i, el₀.connections.get k = some i → task.subject el₀ ≠ some k →
    ∃ j, m'.el.connections.get k = some j ∧ (k ∉ task.named el₀ → j = i)

/-- **Failures stay confined** in the step to `m'`. -/
def Confined (m : Machine η κ) (l : Label η) (m' : Machine η κ) : Prop :=
  ∀ task el₀, Starts m l task el₀ → (∃ u, task.ShutsDown el₀ u) ∨ task = .command .wake ∨ Confines task el₀ m'

/-- The poller grants what the step asks for, unless it is a shutdown. -/
def PollerGrants (m : Machine η κ) (l : Label η) : Prop :=
  ∀ task el₀, Starts m l task el₀ → (∃ u, task.ShutsDown el₀ u) ∨ task = .command .wake ∨
    ∀ r ∈ task.asked el₀, r = .ok ()

/-- **Failures stay confined to the connection they concern** in a step of a run, whatever the sockets answer, if and
only if the poller refuses nothing in it. -/
theorem failures_confined {el : EventLoop η κ} (hfresh : el.Fresh) {ls : List (Label η)}
    (hrun : run step (initial el) ls = some m) (hstep : step m l = some m') : Confined m l m' ↔ PollerGrants m l := by
  obtain ⟨hsound, hcalm⟩ := run_evolves (P := EventLoop.Sound) (fun _ _ he h => he.sound h) hfresh hfresh.sound hrun
  refine forall_congr' fun task => forall_congr' fun el₀ => forall_congr' fun hs => or_congr_right' fun hno =>
    or_congr_right' fun hwake => ?_
  have hs₀ : el₀.Socketed := by
    obtain ⟨h', rfl, -⟩ := hs.withHandle
    exact hsound.socketed
  rcases hs.finishes hstep with ⟨t, ht, hel, hlive⟩ | ⟨e, t, ht, hel, res, hphase⟩
  · refine iff_of_true ⟨hlive, fun k i hi hk => ?_⟩ (Task.asked_ok ht)
    rw [hel.connections]
    exact Task.stays (hs.settled hcalm) ht hi hk
  · refine iff_of_false (fun h => ?_) (fun h => ?_)
    · have hlive := h.goesOn
      rw [hphase] at hlive
      exact hlive
    · rcases Task.failsBy hs₀ (hs.settled hcalm) ht with hf | ⟨hcmd, -⟩
      · cases hf with
        | shutdown u v hu hc hsh he ht' => exact hno ⟨u, hc⟩
        | polled u hu he ht' =>
          subst ht'
          cases h _ (Task.mem_asked ht hu he)
      · exact hwake hcmd

/-! ## Two runs -/

/-- Two connections come, and a read of the first one will fail. -/
def reset : List (Label Doorman) :=
  [.accept ⟨4, [], [.fatal 104], [], [], none⟩ (.tcp "a") (.tcp "b"),
    .accept ⟨5, [], [], [], [], none⟩ (.tcp "a") (.tcp "c"), .advance, .advance, .poll [], .advance, .advance, .advance,
    .advance, .tick false, .advance, .poll [⟨0, true, false, false, false⟩]]

/-- The read fails: the connection is closed, and the other one stays. -/
theorem failures_confined_reset : ∃ m m', run step (initial (doormanLoop .admits)) reset = some m ∧
    m.el.connections.keys = [0, 1] ∧ step m .advance = some m' ∧ m'.el.connections.keys = [1] ∧
    Confined m .advance m' := by
  have hrun : (run step (initial (doormanLoop .admits)) reset).any
      (fun m => (m.el.poll.results.isEmpty && decide (m.el.connections.keys = [0, 1])) &&
        (step m .advance).any fun m' => decide (m'.el.connections.keys = [1])) = true := by decide +kernel
  obtain ⟨m, hm, hat⟩ := exists_of_any hrun
  obtain ⟨hstart, hstep⟩ := Bool.and_eq_true_iff.mp hat
  obtain ⟨hres, hkeys⟩ := Bool.and_eq_true_iff.mp hstart
  obtain ⟨m', hm', hleft⟩ := exists_of_any hstep
  refine ⟨m, m', hm, of_decide_eq_true hkeys, hm', of_decide_eq_true hleft,
    (failures_confined (new_fresh _ _ _ _ _ _ _) hm hm').mpr fun task el₀ hs => ?_⟩
  have hres₀ : el₀.poll.results = [] := by
    obtain ⟨h', rfl, -⟩ := hs.withHandle
    exact List.isEmpty_iff.mp hres
  exact Or.inr (Or.inr (by simp [Task.asked, hres₀]))

omit [Codec κ Msg] [EventHandler η κ Msg] in
/-- The error `run_loop` has returned. -/
def failure (m : Machine η κ) : Option IoError :=
  match m.phase with
  | .exited (.error e) => some e
  | _ => none

omit [Codec κ Msg] [EventHandler η κ Msg] in
theorem failure_eq_some {e : IoError} : m.failure = some e ↔ m.phase = .exited (.error e) := by
  unfold failure
  split
  · rename_i h
    simp [h]
  · rename_i h
    exact iff_of_false (by simp) (h e)

/-- A loop whose poller registers one connection, and refuses the next one. -/
def crampedLoop : EventLoop Doorman RawCodec :=
  .new 0 ⟨64, 8, false⟩ .admits [.ok (), .error (.fatal 28)] [] (fun _ => 0) 0

/-- The second registration fails: `run_loop` returns, and the first connection is lost with it. -/
theorem failure_ends_loop : ∃ m m', crampedLoop.Fresh ∧
    run step (initial crampedLoop) [.accept ⟨4, [], [], [], [], none⟩ (.tcp "a") (.tcp "b"),
      .accept ⟨5, [], [], [], [], none⟩ (.tcp "a") (.tcp "c"), .advance, .advance, .poll [], .advance] = some m ∧
    m.el.connections.keys = [0] ∧ step m .advance = some m' ∧ ¬Confined m .advance m' := by
  have hrun : (run step (initial crampedLoop) [.accept ⟨4, [], [], [], [], none⟩ (.tcp "a") (.tcp "b"),
      .accept ⟨5, [], [], [], [], none⟩ (.tcp "a") (.tcp "c"), .advance, .advance, .poll [], .advance]).any
      (fun m => decide (m.el.connections.keys = [0] ∧ m.failure = none) && m.el.handle.wakes.isEmpty &&
        (step m .advance).any fun m' => decide (m'.failure = some (.fatal 28))) = true := by decide +kernel
  obtain ⟨m, hm, hat⟩ := exists_of_any hrun
  rw [Bool.and_eq_true, Bool.and_eq_true, decide_eq_true_eq] at hat
  obtain ⟨⟨⟨hkeys, hlive⟩, hwakes⟩, hstep⟩ := hat
  obtain ⟨m', hm', hfail⟩ := exists_of_any hstep
  have hphase := failure_eq_some.mp (of_decide_eq_true hfail)
  refine ⟨m, m', new_fresh _ _ _ _ _ _ _, hm, hkeys, hm', fun hconf => ?_⟩
  rcases (step_moves hm').exited hphase with h | ⟨e, hl, -⟩ | ⟨task, el₀, e, t, hs, ht, hres, -⟩
  · rw [failure_eq_some.mpr h] at hlive
    cases hlive
  · cases hl
  · obtain rfl : .fatal 28 = e := hres.elim Except.error.inj fun h => by cases h.2
    rcases hconf task el₀ hs with ⟨u, hu⟩ | rfl | hconf
    · obtain ⟨v, t', -, ht', -⟩ := hu.run
      rw [ht] at ht'
      cases ht'
    · have hw : el₀.handle.wakes = [] := by
        obtain ⟨h', rfl, -, hw, -⟩ := hs.withHandle
        exact hw.trans (List.isEmpty_iff.mp hwakes)
      have hmem := mem_of_wake (wake_error ht).1
      rw [hw] at hmem
      cases hmem
    · have hgo := hconf.goesOn
      rw [hphase] at hgo
      exact hgo

end Machine
end Rnet
