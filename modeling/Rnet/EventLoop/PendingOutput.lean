import Rnet.EventLoop.Steps

/-!
# Pending output and the interest registered for it

An event ends with `reregister`, and so do `AsyncWrite` and a finished `Write` command: whatever output they leave is
registered for (`reregister_covered`). `on_open`, `on_tick` and an `on_traffic` that a `Read` command leads to are not
followed by one. As long as those leave no output on a connection that is not registered for writing already (`Dry`),
every live connection with output is registered for writing (`no_stranded_output`). Otherwise the output is stranded:
`on_open_strands_output` is such a run.
-/

namespace Rnet

open Programs Relation

variable {η κ Msg : Type}

/-! ## Covered connections -/

namespace Incarnation

/-- Registered for writing. -/
def Writable (i : Incarnation κ) : Prop := i.conn.socket.bind Socket.interest = some .readableWritable

/-- Registered for writing, if output is queued. -/
def Covered (i : Incarnation κ) : Prop := i.Writable ∨ i.conn.queued = []

instance (i : Incarnation κ) : Decidable i.Writable := inferInstanceAs (Decidable (_ = _))

variable {i j : Incarnation κ}

theorem Writable.keep (h : i.Writable) (hs : j.conn.socket.map Socket.inputSide = i.conn.socket.map Socket.inputSide) :
    j.Writable := by
  have h' := congrArg (Option.bind · fun x => x) (Socket.map_of_inputSide (fun x => x.2.2.2) hs)
  rw [Option.bind_map, Option.bind_map] at h'
  exact h'.trans h

end Incarnation

/-- A callback leaves no output on a connection that is not registered for writing. -/
def Obs.Dry : Obs κ → Prop
  | .opens before after _ | .traffic before after _ => before.Writable ∨ after.conn.queued = []
  | .ticks before after _ =>
    ∀ k ∈ before.keys, ∀ i ∈ before.get k, ∀ j ∈ after.get k, i.Writable ∨ j.conn.queued = []
  | .merged _ | .closes _ _ _ | .drops _ => True

instance : (obs : Obs κ) → Decidable obs.Dry
  | .opens _ _ _ | .traffic _ _ _ => inferInstanceAs (Decidable (_ ∨ _))
  | .ticks before after _ => inferInstanceAs (Decidable (∀ k ∈ before.keys, ∀ i ∈ before.get k, ∀ j ∈ after.get k, _))
  | .merged _ | .closes _ _ _ | .drops _ => inferInstanceAs (Decidable True)

namespace EventLoop

/-- The connection at a key is covered. -/
def CoveredAt (el : EventLoop η κ) (key : Nat) : Prop := ∀ i, el.connections.get key = some i → i.Covered

/-- What was recorded since `el` leaves no output behind. -/
def DrySince (el t : EventLoop η κ) : Prop := ∀ obs ∈ t.trace.drop el.trace.length, obs.Dry

instance (el t : EventLoop η κ) : Decidable (el.DrySince t) := inferInstanceAs (Decidable (∀ _ ∈ _, _))

variable {el t u : EventLoop η κ} {key : Nat}

theorem coveredAt_of_none (h : el.connections.get key = none) : el.CoveredAt key := fun i hi => by
  rw [h] at hi
  cases hi

theorem coveredAt_setIncarnation {i j : Incarnation κ} (hi : el.connections.get key = some i) (h : j.Covered) :
    (el.setIncarnation key j).CoveredAt key := by
  intro j' hj
  rw [get_setIncarnation hi, if_pos rfl] at hj
  cases hj
  exact h

theorem CoveredAt.congr (h : el.CoveredAt key) (hc : t.connections.get key = el.connections.get key) :
    t.CoveredAt key := fun i hi => h i (hc ▸ hi)

/-- **Registering anew covers.** -/
theorem reregister_covered (h : reregister key el = .ok ⟨⟩ t) : t.CoveredAt key := by
  rcases reregister_ok h with ⟨hn, rfl⟩ | ⟨i, s, hi, hs, rfl⟩
  · exact coveredAt_of_none hn
  · refine coveredAt_setIncarnation (show (el.polled.registering key).connections.get key = some i from hi) ?_
    cases hq : i.conn.queued with
    | nil => exact Or.inr hq
    | cons chunk out => exact Or.inl (by simp [Incarnation.Writable])

theorem DrySince.trans_left (h : DrySince el u) (ht : el.trace <+: t.trace) (htu : t.trace <+: u.trace) :
    DrySince el t ∧ DrySince t u := by
  obtain ⟨w, hw⟩ := ht
  obtain ⟨v, hv⟩ := htu
  have hu : u.trace.drop el.trace.length = w ++ v := by rw [← hv, ← hw, List.append_assoc, List.drop_left]
  unfold DrySince at h ⊢
  rw [hu] at h
  rw [← hv, List.drop_left, ← hw, List.drop_left]
  exact ⟨fun o ho => h o (List.mem_append_left _ ho), fun o ho => h o (List.mem_append_right _ ho)⟩

variable [Codec κ Msg] [EventHandler η κ Msg]

/-! ## Reading -/

/-- After an `on_traffic` that leaves no new output behind. -/
theorem hears_covered {i : Incarnation κ} {s' : Socket} {bs : Bytes}
    (hdry : ∀ obs ∈ (el.hears key i s' bs).2.trace.drop el.trace.length, obs.Dry) :
    (el.hears key i s' bs).1.Covered := by
  let j : Incarnation κ := { i with conn := { i.conn with socket := some s' }.receive bs }
  have hst : j.conn.Stable (el.hears key i s' bs).1.conn := (Op.applyAll_stable _ j el.handle).2.2
  have hobs : j.Writable ∨ (el.hears key i s' bs).1.conn.queued = [] :=
    hdry (.traffic j (el.hears key i s' bs).1 (el.heard i s' bs)) (by
      show _ ∈ (el.trace ++ [_]).drop el.trace.length
      rw [List.drop_left]
      exact List.mem_singleton_self _)
  exact hobs.imp_left fun hw => hw.keep hst.socket

omit [Codec κ Msg] [EventHandler η κ Msg] in
theorem carryOver_covered {i : Incarnation κ} (h : i.Covered) :
    ({ i with conn := i.conn.carryOver } : Incarnation κ).Covered := by
  unfold Connection.carryOver
  cases i.conn.ioBuffer with
  | none => exact h
  | some io =>
    simp only
    split
    · exact h
    · cases i.conn.inBuffer <;> exact h

/-- One effect of reading. -/
theorem Effect.covered (h : Effect False key t u) (ht : t.CoveredAt key) (hdry : DrySince t u) : u.CoveredAt key := by
  cases h with
  | neutral h => exact ht.congr (by rw [h.connections])
  | push priority cmd _ => exact ht.congr rfl
  | serves i c hi hc hf => exact hf.elim
  | readsNothing i s a n hi hs ha =>
    refine coveredAt_setIncarnation hi ((ht i hi).imp_left fun hw => ?_)
    rw [Incarnation.Writable, hs] at hw
    cases a <;> exact hw
  | traffic i s a n s' bs hi hs ha hne hset hact =>
    have hc : (t.hears key i s' bs).1.Covered := hears_covered fun o ho => hdry o (by
      have hdrop : ∀ l : List (Obs κ), (t.trace ++ l).drop t.trace.length = l := fun l => List.drop_left
      show o ∈ ((t.trace ++ [_]) ++ [_]).drop t.trace.length
      rw [List.append_assoc, hdrop]
      have ho' : o ∈ (t.trace ++ [_]).drop t.trace.length := ho
      rw [hdrop] at ho'
      exact List.mem_append_left _ ho')
    have h₁ : (t.hears key i s' bs).2.connections.get key = _ := get_setIncarnation_self hi _
    have h₂ : ((t.hears key i s' bs).2.setIncarnation key (t.hears key i s' bs).1).connections.get key = _ :=
      get_setIncarnation_self h₁ _
    exact (coveredAt_setIncarnation h₂ (carryOver_covered hc)).congr rfl
  | lastTraffic i s a n s' bs hi hs ha hne hset hact =>
    have hc : (t.hears key i s' bs).1.Covered := hears_covered hdry
    have h₁ : (t.hears key i s' bs).2.connections.get key = _ := get_setIncarnation_self hi _
    exact coveredAt_setIncarnation h₁ hc
  | closes i graceful hi hf => exact hf.elim
  | failsToClose i graceful e hi he hf => exact hf.elim
  | ticks op hd conns hop hf => exact hf.elim
  | recordsTick before after action hf => exact hf.elim

theorem effects_covered (h : ReflTransGen (Effect False key) el t) (hel : el.CoveredAt key) (hdry : DrySince el t) :
    t.CoveredAt key := by
  have hpre : ∀ {a b : EventLoop η κ}, ReflTransGen (Effect False key) a b → a.trace <+: b.trace := fun h =>
    prefix_trace (effects_any h)
  induction h with
  | refl => exact hel
  | tail hp he ih =>
    have hdry' := hdry.trans_left (hpre hp) he.prefix_trace
    exact he.covered (ih hdry'.1) hdry'.2

theorem readSocket_covered (hset : el.SettledAt key) (hel : el.CoveredAt key) (h : readSocket key el = .ok ⟨⟩ t)
    (hdry : DrySince el t) : t.CoveredAt key := by
  unfold readSocket at h
  obtain ⟨status, u, hu, h⟩ := bind_ok.mp h
  have hread : ReflTransGen (Effect False key) el u := by
    rcases processRead_outcome hset with ⟨status', u', hu', ht, -⟩ | ⟨u', hu', -⟩ <;> rw [hu'] at hu <;> cases hu
    exact ht
  cases status with
  | closed graceful => exact coveredAt_of_none (closeConnection_ok h)
  | «yield» =>
    cases h
    exact effects_covered (t := u) hread hel hdry
  | completed =>
    cases h
    exact effects_covered hread hel hdry
  | shutdown =>
    obtain ⟨_, _, _, h⟩ := bind_ok.mp h
    cases h

/-! ## The other methods -/

/-- Output that stays queued after a pass was queued before it. -/
theorem processWrite_covered {i : Incarnation κ} (hi : i.Covered) {maxBatch : Nat} {status : IoStatus}
    (h : (i.conn.processWrite maxBatch).1 = .ok status) (hst : status = .yield) :
    ({ i with conn := (i.conn.processWrite maxBatch).2 } : Incarnation κ).Covered := by
  rcases hi with hw | hq
  · exact Or.inl (hw.keep (i.conn.processWrite_sameInput maxBatch).socket)
  · rw [Connection.processWrite_nil hq, hst] at h
    cases h

theorem writeSocket_covered (hel : el.CoveredAt key) (h : writeSocket key el = .ok ⟨⟩ t) : t.CoveredAt key := by
  unfold writeSocket at h
  obtain ⟨status, u, hu, h⟩ := bind_ok.mp h
  cases status with
  | closed graceful => exact coveredAt_of_none (closeConnection_ok h)
  | «yield» =>
    cases h
    rcases processWrite_ok hu with ⟨-, hs, -⟩ | ⟨i, hi, hp, rfl⟩
    · cases hs
    · exact (coveredAt_setIncarnation hi (processWrite_covered (hel i hi) hp rfl)).congr rfl
  | completed => exact reregister_covered h
  | shutdown =>
    rcases processWrite_ok hu with ⟨-, hs, -⟩ | ⟨i, hi, hp, -⟩
    · cases hs
    · unfold Connection.processWrite at hp
      split at hp
      · cases hp
      · split at hp
        · cases hp
        · simp only [Except.ok.injEq] at hp
          revert hp
          cases (Connection.drain _ _ _).stop <;> simp [Connection.DrainStop.status]

theorem asyncWrite_covered {gfd : Gfd} {data : Bytes} (hel : el.CoveredAt gfd.slabIndex)
    (h : asyncWrite gfd data el = .ok ⟨⟩ t) : t.CoveredAt gfd.slabIndex := by
  unfold asyncWrite at h
  rw [get_bind] at h
  dsimp only at h
  split at h
  · cases h
    exact hel
  · cases hi : el.connections.get gfd.slabIndex with
    | none =>
      rw [hi] at h
      cases h
      exact hel
    | some i =>
      rw [hi] at h
      simp only at h
      split at h
      · cases h
        exact hel
      · rw [set_bind] at h
        cases hr : (i.conn.write data).1 with
        | error e =>
          rw [hr] at h
          exact coveredAt_of_none (closeConnection_ok h)
        | ok n =>
          rw [hr] at h
          exact reregister_covered h

theorem register_covered {socket : Socket} {localAddr peerAddr : NetworkAddress} (hel : ∀ k, el.CoveredAt k)
    (h : register socket localAddr peerAddr el = .ok ⟨⟩ t) (hdry : DrySince el t) : ∀ k, t.CoveredAt k := by
  intro k
  by_cases hk : k = el.connections.vacantKey
  · rw [hk]
    intro i hi
    obtain ⟨rfl, rfl⟩ := register_entered h hi
    let j := el.polled.incarnation socket localAddr peerAddr
    have hst : j.conn.Stable (el.polled.opening socket localAddr peerAddr).1.conn :=
      (Op.applyAll_stable _ j el.handle).2.2
    have hobs : j.Writable ∨ (el.polled.opening socket localAddr peerAddr).1.conn.queued = [] :=
      hdry (.opens j (el.polled.opening socket localAddr peerAddr).1 (el.polled.openAction socket localAddr peerAddr))
        (by
          show _ ∈ (el.trace ++ [_]).drop el.trace.length
          rw [List.drop_left]
          exact List.mem_singleton_self _)
    exact hobs.imp_left fun hw => hw.keep hst.socket
  · exact (hel k).congr (register_frame h hk)

omit [EventHandler η κ Msg] in
theorem tickOp_stable {op : Nat × Op κ Msg} {k : Nat} {j : Incarnation κ}
    (hj : (el.tickOp op).connections.get k = some j) :
    ∃ i, el.connections.get k = some i ∧ i.conn.Stable j.conn := by
  by_cases hk : k = op.1
  · subst hk
    unfold tickOp at hj
    cases hi : el.connections.get op.1 with
    | none =>
      rw [hi] at hj
      cases hi.symm.trans hj
    | some i =>
      rw [hi] at hj
      have hj' := (Slab.get_set hi).symm.trans hj
      rw [if_pos rfl] at hj'
      cases hj'
      exact ⟨i, rfl, Connection.perform_stable op.2 i.conn⟩
  · rw [tickOp_get el op hk] at hj
    exact ⟨j, hj, .refl _⟩

omit [EventHandler η κ Msg] in
theorem tickOps_stable (ops : List (Nat × Op κ Msg)) {k : Nat} {j : Incarnation κ} :
    ∀ el : EventLoop η κ, (ops.foldl tickOp el).connections.get k = some j →
      ∃ i, el.connections.get k = some i ∧ i.conn.Stable j.conn := by
  induction ops with
  | nil => exact fun el hj => ⟨j, hj, .refl _⟩
  | cons op ops ih =>
    intro el hj
    obtain ⟨i, hi, hij⟩ := ih _ hj
    obtain ⟨i₀, hi₀, h₀⟩ := tickOp_stable hi
    exact ⟨i₀, hi₀, h₀.trans hij⟩

theorem onTick_covered {delay : Nat} (h : onTick (η := η) (κ := κ) el = .ok delay t) (hdry : DrySince el t) :
    ∀ k, t.CoveredAt k := by
  unfold onTick at h
  rw [get_bind] at h
  rcases hr : EventHandler.onTick el.handler el.occupants with ⟨r, h'⟩
  rw [hr] at h
  dsimp only at h
  rw [set_bind] at h
  split at h
  · obtain ⟨_, _, _, h⟩ := bind_ok.mp h
    cases h
  · cases h
    intro k j hj
    let el' := r.ops.foldl tickOp { el with handler := h' }
    have htrace : el'.trace = el.trace := by
      have hops : ∀ (ops : List (Nat × Op κ Msg)) (u : EventLoop η κ), (ops.foldl tickOp u).trace = u.trace := by
        intro ops
        induction ops with
        | nil => exact fun _ => rfl
        | cons op ops ih =>
          intro u
          rw [List.foldl_cons, ih]
          unfold tickOp
          split <;> rfl
      exact hops r.ops _
    have hobs : (Obs.ticks el.connections el'.connections r.action).Dry := hdry _ (by
      show _ ∈ (el'.trace ++ [_]).drop el.trace.length
      rw [htrace, List.drop_left]
      exact List.mem_singleton_self _)
    obtain ⟨i, hi, hij⟩ := tickOps_stable r.ops _ hj
    exact (hobs k (Slab.mem_keys.mpr ⟨i, hi⟩) i hi j hj).imp_left fun hw => hw.keep hij.socket

end EventLoop

/-! ## Runs -/

/-- The loop is about to poll. -/
def Phase.polls : Phase → Bool
  | .polling _ => true
  | _ => false

theorem Phase.polls_iff {phase : Phase} : phase.polls ↔ ∃ pending, phase = .polling pending := by
  cases phase <;> simp [polls]

/-- The next action of the loop handles an event of the poll. -/
def Phase.handlesEvent : Phase → Bool
  | .events (_ :: _) => true
  | _ => false

theorem Phase.handlesEvent_iff {phase : Phase} : phase.handlesEvent ↔ ∃ ev evs, phase = .events (ev :: evs) := by
  cases phase with
  | events evs => cases evs <;> simp [handlesEvent]
  | _ => simp [handlesEvent]

namespace Task

open EventLoop

variable [Codec κ Msg] [EventHandler η κ Msg] {el t : EventLoop η κ}

/-- **A task that goes well leaves every connection covered**, if it is an event or leaves no output behind. -/
theorem covered {task : Task} (hset : ∀ k, el.SettledAt k) (hel : ∀ k, el.CoveredAt k) (h : task.run el = .ok ⟨⟩ t)
    (hdry : (∃ key ev, task = .io key ev) ∨ DrySince el t) : ∀ k, t.CoveredAt k := by
  cases task with
  | command cmd =>
    have hsince := hdry.resolve_left (by simp)
    by_cases hcmd : ∃ s l p, cmd = .register s l p
    · obtain ⟨s, l, p, rfl⟩ := hcmd
      exact register_covered hel h hsince
    · have hcmd : ∀ s l p, cmd ≠ .register s l p := fun s l p e => hcmd ⟨s, l, p, e⟩
      have hkey : t.CoveredAt (commandKey cmd) := by
        cases cmd with
        | none => cases h; exact hel _
        | asyncWrite gfd data => exact asyncWrite_covered (hel _) h
        | register socket localAddr peerAddr => exact absurd rfl (hcmd _ _ _)
        | close key => exact coveredAt_of_none (closeConnection_ok h)
        | read key => exact readSocket_covered (hset _) (hel _) h hsince
        | write key => exact writeSocket_covered (hel _) h
        | wake =>
          rw [wake_ok h]
          exact hel _
        | shutdown =>
          obtain ⟨_, _, _, h⟩ := bind_ok.mp h
          cases h
      intro k
      by_cases hk : k = commandKey cmd
      · rw [hk]
        exact hkey
      · exact (hel k).congr (frame ((handleCommand_leads hcmd hset).ok h) hk)
  | io key ev =>
    intro k
    by_cases hk : k = key
    · rw [hk]
      rcases processIo_ok h (hset key) with hn | ⟨u, hu, -⟩
      · exact coveredAt_of_none hn
      · exact reregister_covered hu
    · exact (hel k).congr (frame ((processIo_leads ev (hset key)).ok h) hk)
  | register socket localAddr peerAddr => exact register_covered hel h (hdry.resolve_left (by simp))
  | tick =>
    obtain ⟨delay, u, hu, h⟩ := bind_ok.mp h
    cases h
    exact onTick_covered hu (hdry.resolve_left (by simp))

end Task

namespace Machine

open EventLoop Runs

variable [Codec κ Msg] [EventHandler η κ Msg] {m m' : Machine η κ} {l : Label η}

/-- The step handles an event, or its callbacks leave no output on a connection that is not registered for writing. -/
def Dry (m : Machine η κ) (l : Label η) : Prop := m.phase.handlesEvent ∨ ∀ m' ∈ step m l, m.el.DrySince m'.el

instance (m : Machine η κ) (l : Label η) : Decidable (m.Dry l) := inferInstanceAs (Decidable (_ ∨ _))

/-- As long as the loop runs, every connection is covered. -/
def Covers (m : Machine η κ) : Prop := m.phase.Live → ∀ k, m.el.CoveredAt k

omit [Codec κ Msg] [EventHandler η κ Msg] in
/-- While there are events, only an event is handled. -/
theorem Starts.io_of_events {task : Task} {el₀ : EventLoop η κ} (h : Starts m l task el₀)
    (hev : m.phase.handlesEvent) : ∃ key ev, task = .io key ev := by
  obtain ⟨ev, evs, hphase⟩ := Phase.handlesEvent_iff.mp hev
  cases h with
  | command hp _ _ => rw [hphase] at hp; cases hp
  | io hp _ _ => exact ⟨_, _, rfl⟩
  | ordered hp _ _ => rw [hphase] at hp; cases hp
  | accepted hp _ => rw [hphase] at hp; cases hp
  | first hp _ => rw [hphase] at hp; cases hp
  | tick hp _ => rw [hphase] at hp; cases hp

theorem step_covers (hstep : step m l = some m') (hcalm : m.Calm) (hcov : m.Covers) (hdry : m.Dry l) : m'.Covers := by
  have hneutral : ∀ {el el' : EventLoop η κ}, el.Neutral el' → (∀ k, el.CoveredAt k) → ∀ k, el'.CoveredAt k :=
    fun hn hel k => (hel k).congr (by rw [hn.connections])
  cases step_moves hstep with
  | idles hel hphase =>
    intro hlive
    refine hneutral hel (hcov ?_)
    rcases hphase with rfl | ⟨h, -⟩
    · exact hlive
    · exact h
  | pollFails he => exact fun h => h.elim
  | gets priority cmd _ => exact fun hlive k => (hcov hlive k).congr rfl
  | mints n => exact hcov
  | drops hphase => exact fun h => h.elim
  | works hs h hel hphase =>
    intro _
    have hcov₀ := hcov hs.live
    refine hneutral hel (Task.covered (hs.settled hcalm) ?_ h ?_)
    · obtain ⟨h', rfl, -⟩ := hs.withHandle
      exact hcov₀
    · rcases hdry with hev | hdry
      · exact Or.inl (hs.io_of_events hev)
      · right
        intro obs hobs
        refine hdry _ hstep obs ?_
        rw [hel.trace]
        obtain ⟨h', rfl, -⟩ := hs.withHandle
        exact hobs
  | ends hs h hel => exact fun h => h.elim

/-- **No stranded output.** Whenever the loop is about to poll, every live connection with queued output is registered
for writing or named by a waiting `Write` command, as long as no `on_open`, no `on_tick` and no `on_traffic` of a `Read`
command left output on a connection that was not registered for writing. -/
theorem no_stranded_output {el : EventLoop η κ} (hfresh : el.Fresh) {ls : List (Label η)}
    (hrun : run step (initial el) ls = some m) (hdry : Along step Dry (initial el) ls) {pending : Bool}
    (hphase : m.phase = .polling pending) {k : Nat} {i : Incarnation κ} (hi : m.el.connections.get k = some i)
    (hq : i.conn.queued ≠ []) : i.Writable ∨ ∃ q ∈ m.el.handle.queued, q.cmd = .write k := by
  have h0 : (initial el).Calm ∧ (initial el).Covers :=
    ⟨initial_calm hfresh, fun _ k i hi => by simp [initial, hfresh.connections] at hi⟩
  have hinv : m.Calm ∧ m.Covers := by
    refine run_invariant (P := fun m => m.Calm ∧ m.Covers) (fun s l s' hs ht hst => ?_) h0 hdry hrun
    exact ⟨(step_moves hst).calm hs.1, step_covers hst hs.1 hs.2 ht⟩
  have hlive : m.phase.Live := by rw [hphase]; trivial
  exact Or.inl ((hinv.2 hlive k i hi).resolve_right hq)

end Machine

namespace EventLoop

variable [Codec κ Msg] [EventHandler η κ Msg] {el t : EventLoop η κ}

/-- What `on_open` leaves queued is not registered for. -/
theorem register_strands {socket : Socket} {localAddr peerAddr : NetworkAddress}
    (h : register socket localAddr peerAddr el = .ok ⟨⟩ t)
    (hact : el.polled.openAction socket localAddr peerAddr = .none)
    (hq : (el.polled.opening socket localAddr peerAddr).1.conn.queued ≠ []) :
    ¬t.CoveredAt el.connections.vacantKey := by
  intro hcov
  rcases register_cases socket localAddr peerAddr el with ⟨e, h', -⟩ | ⟨ha, h'⟩ | ⟨ha, h'⟩ | ⟨ha, u, hu, h'⟩ <;>
    rw [h'] at h <;> cases h
  · have hget := hcov (el.polled.opening socket localAddr peerAddr).1
      (Slab.get_insert_self (s := el.connections))
    have hw := hget.resolve_right hq
    have hst := (Op.applyAll_stable (EventHandler.onOpen el.polled.handler
      (el.polled.incarnation socket localAddr peerAddr).conn).1.ops (el.polled.incarnation socket localAddr peerAddr)
        el.handle).2.2
    have hw' : (el.polled.incarnation socket localAddr peerAddr).Writable := hw.keep hst.socket.symm
    unfold Incarnation.Writable incarnation Connection.opened at hw'
    cases hp : el.polled.connectionPool.head? with
    | none => rw [hp] at hw'; cases hw'
    | some c => rw [hp] at hw'; cases hw'
  · rw [hact] at ha
    cases ha

end EventLoop

/-! ## Two runs -/

/-- A handler that writes nothing, or greets every new connection. -/
inductive Greeter
  | silent
  | greets
  deriving DecidableEq

instance : EventHandler Greeter RawCodec RawMsg where
  onOpen h _ := (⟨if h = .greets then [.write [104, 105]] else [], .none⟩, h)
  onTraffic h _ := (⟨[], .none⟩, h)
  onClose h _ := (⟨[], .none⟩, h)
  onTick h _ := (⟨[], 0, .none⟩, h)

/-- A loop with such a handler. -/
def greeterLoop (h : Greeter) : EventLoop Greeter RawCodec := .new 0 ⟨64, 8, false⟩ h [] [] (fun _ => 0) 0

namespace Machine

open EventLoop Runs

/-- A connection whose socket takes nothing is registered, and the commands are carried out until the next poll. -/
def greetings (cmds : List Command) : List (Label Greeter) :=
  [.accept ⟨4, [], [], [], [], none⟩ (.tcp "a") (.tcp "b"), .advance, .advance, .poll [], .advance] ++
    cmds.flatMap (fun cmd => [.trigger cmd, .advance]) ++ [.advance, .advance, .tick false, .advance]

/-- The output of an `AsyncWrite` is registered for. -/
theorem no_stranded_output_asyncWrite : ∃ m i pending,
    run step (initial (greeterLoop .silent)) (greetings [.asyncWrite (.new 0 4 0 0) [1]]) = some m ∧
      m.phase = .polling pending ∧ m.el.connections.get 0 = some i ∧ i.conn.queued ≠ [] ∧
        (i.Writable ∨ ∃ q ∈ m.el.handle.queued, q.cmd = .write 0) := by
  have hrun : (run step (initial (greeterLoop .silent)) (greetings [.asyncWrite (.new 0 4 0 0) [1]])).any
      (fun m => m.phase.polls && (m.el.connections.get 0).any fun i => decide (i.conn.queued ≠ [])) = true := by
    decide +kernel
  have hdry : Along step Dry (initial (greeterLoop .silent)) (greetings [.asyncWrite (.new 0 4 0 0) [1]]) :=
    .of_check (b := fun m l => decide (Dry m l)) (fun _ _ => of_decide_eq_true) (by decide +kernel)
  obtain ⟨m, hm, hat⟩ := exists_of_any hrun
  rw [Bool.and_eq_true] at hat
  obtain ⟨pending, hphase⟩ := Phase.polls_iff.mp hat.1
  obtain ⟨i, hi, hq⟩ := exists_of_any hat.2
  have hq := of_decide_eq_true hq
  exact ⟨m, i, pending, hm, hphase, hi, hq, no_stranded_output (new_fresh _ _ _ _ _ _ _) hm hdry hphase hi hq⟩

/-- The greeting stays where it is: the socket did not take it, and the loop polls without asking when it would. -/
theorem on_open_strands_output : ∃ m i pending,
    run step (initial (greeterLoop .greets)) (greetings []) = some m ∧ m.phase = .polling pending ∧
      m.el.connections.get 0 = some i ∧ i.conn.queued ≠ [] ∧
        ¬(i.Writable ∨ ∃ q ∈ m.el.handle.queued, q.cmd = .write 0) := by
  have hrun : (run step (initial (greeterLoop .greets)) (greetings [])).any
      (fun m => m.phase.polls && (m.el.connections.get 0).any fun i => decide (i.conn.queued ≠ [] ∧
        ¬(i.Writable ∨ ∃ q ∈ m.el.handle.queued, q.cmd = .write 0))) = true := by
    decide +kernel
  obtain ⟨m, hm, hat⟩ := exists_of_any hrun
  rw [Bool.and_eq_true] at hat
  obtain ⟨pending, hphase⟩ := Phase.polls_iff.mp hat.1
  obtain ⟨i, hi, hq⟩ := exists_of_any hat.2
  exact ⟨m, i, pending, hm, hphase, hi, of_decide_eq_true hq⟩

end Machine
end Rnet
