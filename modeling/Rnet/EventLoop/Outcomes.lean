import Rnet.EventLoop.Effects

/-!
# What the methods leave behind

An effect at one key leaves the connections at all other keys as they are (`Effect.frame`). What is left at its own key
when a method goes well: nothing after `close_connection`; a connection whose registration fits its output after
`reregister`; and in any case no rest of the current read (`SettledAt`), which the next read relies on.
-/

namespace Rnet

open Programs Relation

namespace EventLoop

variable {η κ Msg : Type} [Codec κ Msg] [EventHandler η κ Msg] {el el' t : EventLoop η κ} {key : Nat}
  {serving : Prop}

/-! ## Other keys -/

omit [EventHandler η κ Msg] in
theorem tickOp_get (el : EventLoop η κ) (op : Nat × Op κ Msg) {k : Nat} (hk : k ≠ op.1) :
    (el.tickOp op).connections.get k = el.connections.get k := by
  unfold tickOp
  split
  · rfl
  · exact Slab.get_set_ne hk

/-- **Frame**: an effect leaves the connections at other keys alone. -/
theorem Effect.frame (h : Effect serving key el el') {k : Nat} (hk : k ≠ key) :
    el'.connections.get k = el.connections.get k := by
  cases h with
  | neutral h => rw [h.connections]
  | push priority cmd _ => rfl
  | serves i c hi hc _ => exact Slab.get_set_ne hk
  | readsNothing i s a n hi hs ha => exact Slab.get_set_ne hk
  | traffic i s a n s' bs =>
    exact (Slab.get_set_ne hk).trans ((Slab.get_set_ne hk).trans (Slab.get_set_ne hk))
  | lastTraffic i s a n s' bs => exact (Slab.get_set_ne hk).trans (Slab.get_set_ne hk)
  | closes i graceful hi _ => exact (Slab.get_remove.trans (if_neg hk)).trans (Slab.get_set_ne hk)
  | failsToClose i graceful e hi he _ => exact Slab.get_set_ne hk
  | ticks op h conns hop _ => exact tickOp_get el (key, op) hk
  | recordsTick before after action _ => rfl

theorem frame (h : ReflTransGen (Effect serving key) el el') {k : Nat} (hk : k ≠ key) :
    el'.connections.get k = el.connections.get k :=
  invariant_of_steps (P := fun t => t.connections.get k = el.connections.get k) h
    (fun _ _ he ht => (he.frame hk).trans ht) rfl

/-! ## The same key, when the method goes well -/

theorem closeConnection_ok {graceful : Bool} (h : closeConnection key graceful el = .ok ⟨⟩ t) :
    t.connections.get key = none := by
  cases hi : el.connections.get key with
  | none =>
    rw [closeConnection_none hi] at h
    cases h
    exact hi
  | some i =>
    have hrm : ∀ s : EventLoop η κ, (s.recycle key (el.closing i graceful).1).connections.get key = none := fun s =>
      Slab.get_remove.trans (if_pos rfl)
    rcases closeConnection_cases hi graceful with ⟨u, hu, rfl | rfl⟩ | ⟨e, he, -⟩
    · rw [hu] at h
      cases h
      exact hrm _
    · rw [hu] at h
      cases h
      exact hrm _
    · rw [he] at h
      cases h

omit [Codec κ Msg] [EventHandler η κ Msg] in
/-- The registration `reregister` makes. -/
theorem reregister_ok (h : reregister key el = .ok ⟨⟩ t) : (el.connections.get key = none ∧ t = el) ∨
    ∃ i s, el.connections.get key = some i ∧ i.conn.socket = some s ∧
      t = (el.polled.registering key).setIncarnation key { i with conn := { i.conn with socket := some { s with
        interest := some (if i.conn.queued.isEmpty then .readable else .readableWritable) } } } := by
  unfold reregister at h
  rw [get_bind] at h
  cases hi : el.connections.get key with
  | none =>
    rw [hi] at h
    cases h
    exact Or.inl ⟨rfl, rfl⟩
  | some i =>
    rw [hi] at h
    simp only at h
    cases hs : i.conn.socket with
    | none =>
      rw [hs] at h
      cases h
    | some s =>
      rw [hs] at h
      simp only at h
      obtain ⟨⟨⟩, u, hu, h⟩ := bind_ok.mp h
      obtain rfl := pollResult_ok hu
      cases h
      exact Or.inr ⟨i, s, rfl, hs, rfl⟩

omit [EventHandler η κ Msg] in
theorem processWrite_ok {status : IoStatus} (h : processWrite (η := η) (κ := κ) key el = .ok status t) :
    (el.connections.get key = none ∧ status = .completed ∧ t = el) ∨
    ∃ i, el.connections.get key = some i ∧
      (i.conn.processWrite el.options.maxBatchSize).1 = .ok status ∧
      t = el.setIncarnation key { i with conn := (i.conn.processWrite el.options.maxBatchSize).2 } := by
  unfold processWrite at h
  rw [get_bind] at h
  cases hi : el.connections.get key with
  | none =>
    rw [hi] at h
    cases h
    exact Or.inl ⟨rfl, rfl, rfl⟩
  | some i =>
    rw [hi] at h
    simp only [set_bind] at h
    cases hr : (i.conn.processWrite el.options.maxBatchSize).1 with
    | error e => rw [hr] at h; cases h
    | ok status' =>
      rw [hr] at h
      cases h
      exact Or.inr ⟨i, rfl, hr, rfl⟩

/-! ## Nothing is left of the current read -/

omit [Codec κ Msg] [EventHandler η κ Msg] in
theorem settledAt_of_none (h : t.connections.get key = none) : t.SettledAt key := fun i hi => by
  rw [h] at hi
  cases hi

omit [Codec κ Msg] [EventHandler η κ Msg] in
theorem settledAt_setIncarnation {i i' : Incarnation κ} (hi : el.connections.get key = some i)
    (h : i'.conn.Settled) : (el.setIncarnation key i').SettledAt key := by
  intro j hj
  rw [get_setIncarnation hi, if_pos rfl] at hj
  cases hj
  exact h

omit [Codec κ Msg] [EventHandler η κ Msg] in
theorem reregister_settled (hset : el.SettledAt key) (h : reregister key el = .ok ⟨⟩ t) : t.SettledAt key := by
  rcases reregister_ok h with ⟨-, rfl⟩ | ⟨i, s, hi, -, rfl⟩
  · exact hset
  · exact settledAt_setIncarnation (show el.polled.connections.get key = some i from hi) (hset i hi)

theorem writeSocket_settled (hset : el.SettledAt key) (h : writeSocket key el = .ok ⟨⟩ t) : t.SettledAt key := by
  unfold writeSocket at h
  obtain ⟨status, u, hu, h⟩ := bind_ok.mp h
  have hsu : u.SettledAt key := by
    rcases processWrite_ok hu with ⟨-, -, rfl⟩ | ⟨i, hi, -, rfl⟩
    · exact hset
    · exact settledAt_setIncarnation hi ((i.conn.processWrite_sameInput _).stable.settled (hset i hi))
  cases status with
  | closed graceful => exact settledAt_of_none (closeConnection_ok h)
  | «yield» => cases h; exact hsu
  | completed => exact reregister_settled hsu h
  | shutdown => cases h; exact hsu

theorem readSocket_settled (hset : el.SettledAt key) (h : readSocket key el = .ok ⟨⟩ t) : t.SettledAt key := by
  unfold readSocket at h
  obtain ⟨status, u, hu, h⟩ := bind_ok.mp h
  have hsu : u.SettledAt key ∨ Giving status := by
    rcases processRead_outcome hset with ⟨status', u', hu', -, hs⟩ | ⟨u', hu', -⟩ <;> rw [hu'] at hu <;> cases hu
    exact hs
  cases status with
  | closed graceful => exact settledAt_of_none (closeConnection_ok h)
  | «yield» => cases h; exact hsu.resolve_right (by simp [Giving])
  | completed => cases h; exact hsu.resolve_right (by simp [Giving])
  | shutdown =>
    obtain ⟨_, _, _, h⟩ := bind_ok.mp h
    cases h

theorem opening_settled (socket : Socket) (localAddr peerAddr : NetworkAddress) :
    (el.opening socket localAddr peerAddr).1.conn.Settled := by
  refine (Op.applyAll_stable _ (el.incarnation socket localAddr peerAddr) _).2.2.settled ?_
  unfold incarnation Connection.opened Connection.Settled
  cases el.connectionPool.head? with
  | none => rfl
  | some c => cases hc : c.ioBuffer <;> simp [Connection.reset, hc]

/-- A registration that goes well leaves the connections at other keys alone. -/
theorem register_frame {socket : Socket} {localAddr peerAddr : NetworkAddress}
    (h : register socket localAddr peerAddr el = .ok ⟨⟩ t) {k : Nat} (hk : k ≠ el.connections.vacantKey) :
    t.connections.get k = el.connections.get k := by
  rcases register_cases socket localAddr peerAddr el with ⟨e, h', -⟩ | ⟨ha, h'⟩ | ⟨ha, h'⟩ | ⟨ha, u, hu, h'⟩ <;>
    rw [h'] at h <;> cases h
  · exact Slab.get_insert.trans (if_neg hk)
  · rfl

theorem register_settled {socket : Socket} {localAddr peerAddr : NetworkAddress} (hset : ∀ k, el.SettledAt k)
    (h : register socket localAddr peerAddr el = .ok ⟨⟩ t) : ∀ k, t.SettledAt k := by
  intro k i hi
  by_cases hk : k = el.connections.vacantKey
  · rw [hk] at hi
    rw [(register_entered h hi).1]
    exact opening_settled socket localAddr peerAddr
  · rw [register_frame h hk] at hi
    exact hset k i hi

theorem asyncWrite_settled {gfd : Gfd} {data : Bytes} (hset : el.SettledAt gfd.slabIndex)
    (h : asyncWrite gfd data el = .ok ⟨⟩ t) : t.SettledAt gfd.slabIndex := by
  unfold asyncWrite at h
  rw [get_bind] at h
  dsimp only at h
  split at h
  · cases h
    exact hset
  · cases hi : el.connections.get gfd.slabIndex with
    | none =>
      rw [hi] at h
      cases h
      exact hset
    | some i =>
      rw [hi] at h
      simp only at h
      split at h
      · cases h
        exact hset
      · have hw := (i.conn.write_sameInput data).stable.settled (hset i hi)
        rw [set_bind] at h
        cases hr : (i.conn.write data).1 with
        | error e =>
          rw [hr] at h
          exact settledAt_of_none (closeConnection_ok h)
        | ok n =>
          rw [hr] at h
          exact reregister_settled (settledAt_setIncarnation hi hw) h

omit [Codec κ Msg] [EventHandler η κ Msg] in
theorem wake_ok (h : wake el = .ok ⟨⟩ t) : t = el.withHandle el.handle.wake.2 := by
  unfold wake at h
  rw [get_bind] at h
  rcases hw : el.handle.wake with ⟨⟨e⟩ | ⟨u⟩, h'⟩
  · rw [hw] at h
    cases h
  · rw [hw] at h
    cases h
    rfl

/-- The key of the connection a command names. -/
def commandKey : Command → Nat
  | .asyncWrite gfd _ => gfd.slabIndex
  | .close key | .read key | .write key => key
  | .none | .wake | .shutdown | .register _ _ _ => 0

/-- **A command** that is handled well touches the connection it names only. -/
theorem handleCommand_leads {cmd : Command} (hcmd : ∀ s l p, cmd ≠ .register s l p) (hset : ∀ k, el.SettledAt k) :
    Leads (Effect True (commandKey cmd)) AnyEffect (handleCommand cmd) el := by
  unfold handleCommand
  cases cmd with
  | none => exact .pure _
  | asyncWrite gfd data => exact asyncWrite_leads gfd data el
  | register socket localAddr peerAddr => exact absurd rfl (hcmd _ _ _)
  | close key => exact (closeConnection_leads key true el).mono (fun _ _ => id) fun _ _ => Effect.any
  | read key => exact readSocket_leads (hset key)
  | write key => exact writeSocket_leads key el
  | wake => exact wake_leads _ el
  | shutdown => exact .bind_throw (shutdown_leads el)

/-- **No command leaves a rest of a read behind.** -/
theorem handleCommand_settled {cmd : Command} (hset : ∀ k, el.SettledAt k) (h : handleCommand cmd el = .ok ⟨⟩ t) :
    ∀ k, t.SettledAt k := by
  by_cases hcmd : ∃ s l p, cmd = .register s l p
  · obtain ⟨s, l, p, rfl⟩ := hcmd
    exact register_settled hset h
  · have hcmd : ∀ s l p, cmd ≠ .register s l p := fun s l p e => hcmd ⟨s, l, p, e⟩
    have hkey : t.SettledAt (commandKey cmd) := by
      cases cmd with
      | none => cases h; exact hset _
      | asyncWrite gfd data => exact asyncWrite_settled (hset _) h
      | register socket localAddr peerAddr => exact absurd rfl (hcmd _ _ _)
      | close key => exact settledAt_of_none (closeConnection_ok h)
      | read key => exact readSocket_settled (hset _) h
      | write key => exact writeSocket_settled (hset _) h
      | wake =>
        rw [wake_ok h]
        exact hset _
      | shutdown =>
        obtain ⟨_, _, _, h⟩ := bind_ok.mp h
        cases h
    intro k
    by_cases hk : k = commandKey cmd
    · rw [hk]
      exact hkey
    · intro i hi
      rw [frame ((handleCommand_leads hcmd hset).ok h) hk] at hi
      exact hset k i hi

/-- **An event** that is handled well touches the connection at its token only. -/
theorem processIo_leads (ev : Event) (hset : el.SettledAt key) :
    Leads (Effect True key) AnyEffect (processIo key ev) el := by
  unfold processIo
  split
  · exact (closeConnection_leads key false el).mono (fun _ _ => id) (fun _ _ => Effect.any)
  · dsimp only
    have hread : ∀ u : EventLoop η κ, u.SettledAt key → Leads (Effect True key) AnyEffect
        (if (ev.error || ev.readable) = true then readSocket key >>= fun _ => reregister key
          else reregister key) u := by
      intro u hu
      split
      · exact .bind (fun _ _ => Effect.any) (readSocket_leads hu) fun _ v _ => reregister_leads key v
      · exact reregister_leads key u
    split
    · exact .bind (fun _ _ => Effect.any) (writeSocket_leads key el) fun _ u h => hread u (writeSocket_settled hset h)
    · exact hread el hset

/-- The last thing an event does is to register the connection anew. -/
theorem processIo_ok {ev : Event} (h : processIo key ev el = .ok ⟨⟩ t) (hset : el.SettledAt key) :
    t.connections.get key = none ∨
      ∃ u, reregister key u = .ok ⟨⟩ t ∧ u.SettledAt key ∧ ReflTransGen (Effect True key) el u := by
  unfold processIo at h
  split at h
  · exact Or.inl (closeConnection_ok h)
  · right
    dsimp only at h
    have hread : ∀ u : EventLoop η κ, u.SettledAt key →
        (if (ev.error || ev.readable) = true then readSocket key >>= fun _ => reregister key else reregister key) u =
          .ok ⟨⟩ t → ∃ v, reregister key v = .ok ⟨⟩ t ∧ v.SettledAt key ∧ ReflTransGen (Effect True key) u v := by
      intro u hset hu
      split at hu
      · obtain ⟨_, v, hv, hr⟩ := bind_ok.mp hu
        exact ⟨v, hr, readSocket_settled hset hv, (readSocket_leads hset).ok hv⟩
      · exact ⟨u, hu, hset, .refl⟩
    split at h
    · obtain ⟨_, u, hu, h⟩ := bind_ok.mp h
      obtain ⟨v, hv, hs, hpath⟩ := hread u (writeSocket_settled hset hu) h
      exact ⟨v, hv, hs, ((writeSocket_leads key el).ok hu).trans hpath⟩
    · exact hread el hset h

theorem processIo_settled {ev : Event} (hset : ∀ k, el.SettledAt k) (h : processIo key ev el = .ok ⟨⟩ t) :
    ∀ k, t.SettledAt k := by
  intro k
  by_cases hk : k = key
  · subst hk
    rcases processIo_ok h (hset k) with hn | ⟨u, hu, hs, -⟩
    · exact settledAt_of_none hn
    · exact reregister_settled hs hu
  · intro i hi
    rw [frame ((processIo_leads ev (hset key)).ok h) hk] at hi
    exact hset k i hi

/-! ## Ticks -/

/-- The operations of a tick, one by one. -/
theorem tickOps_effects (h : η) (conns : List (Nat × Connection κ)) :
    ∀ (ops : List (Nat × Op κ Msg)) (el : EventLoop η κ),
      (∀ op ∈ ops, op ∈ (EventHandler.onTick h conns).1.ops) → ReflTransGen AnyEffect el (ops.foldl tickOp el)
  | [], _, _ => .refl
  | op :: ops, _, hops =>
    .head ⟨op.1, .ticks op.2 h conns (hops op List.mem_cons_self) trivial⟩
      (tickOps_effects h conns ops _ fun o ho => hops o (List.mem_cons_of_mem _ ho))

theorem onTick_leads (el : EventLoop η κ) : Leads AnyEffect AnyEffect (onTick (η := η) (κ := κ)) el := by
  unfold onTick
  apply Leads.get_bind
  refine .set_bind (fun _ _ => id) ?_ ?_
  · refine .tail (.head ⟨0, .neutral (neutral_handler el _)⟩
      (tickOps_effects _ _ _ _ fun _ ho => ho)) ⟨0, .recordsTick _ _ _ trivial⟩
  · split
    · exact .bind_throw (shutdown_leads _)
    · exact .pure _

omit [EventHandler η κ Msg] in
theorem tickOp_settled {op : Nat × Op κ Msg} (hset : ∀ k, el.SettledAt k) : ∀ k, (el.tickOp op).SettledAt k := by
  intro k i hi
  by_cases hk : k = op.1
  · subst hk
    unfold tickOp at hi
    cases hj : el.connections.get op.1 with
    | none => rw [hj] at hi; exact hset _ i hi
    | some j =>
      rw [hj] at hi
      have hi' := (Slab.get_set hj).symm.trans hi
      rw [if_pos rfl] at hi'
      cases hi'
      exact (Connection.perform_stable op.2 j.conn).settled (hset _ j hj)
  · rw [tickOp_get el op hk] at hi
    exact hset k i hi

theorem onTick_settled {delay : Nat} (hset : ∀ k, el.SettledAt k) (h : onTick (η := η) (κ := κ) el = .ok delay t) :
    ∀ k, t.SettledAt k := by
  unfold onTick at h
  rw [get_bind] at h
  rcases EventHandler.onTick el.handler el.occupants with ⟨r, h'⟩
  dsimp only at h
  rw [set_bind] at h
  split at h
  · obtain ⟨_, _, _, h⟩ := bind_ok.mp h
    cases h
  · cases h
    have hops : ∀ (ops : List (Nat × Op κ Msg)) (u : EventLoop η κ), (∀ k, u.SettledAt k) →
        ∀ k, (ops.foldl tickOp u).SettledAt k := by
      intro ops
      induction ops with
      | nil => exact fun u hu => hu
      | cons op ops ih => exact fun u hu => ih _ (tickOp_settled hu)
    exact hops _ _ hset

end EventLoop
end Rnet
