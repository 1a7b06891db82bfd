import Rnet.EventLoop.Identity

/-!
# Where the errors come from

A method of the loop fails because a shutdown was asked for, which has been carried out by then, or because the poller
failed (`FailsBy`); `Command::Wake` also fails when the system refuses the wake. No `unwrap` is among the reasons as
long as every live connection has its socket (`Socketed`), which every effect keeps. `Task.failsBy` says so for
whatever the main loop runs in one step; the places where a shutdown is called are `Task.ShutsDown`.
-/

namespace Rnet

open Programs Relation

variable {η κ Msg : Type}

namespace EventLoop

/-- Every live connection has its socket. -/
def Socketed (el : EventLoop η κ) : Prop := ∀ k i, el.connections.get k = some i → i.conn.socket.isSome

variable {el el' t : EventLoop η κ} {key : Nat} {serving : Prop} {e : IoError}

theorem Socketed.keeps (h : el.Socketed) (hk : el.Keeps t) : t.Socketed := by
  intro k j hj
  obtain ⟨i, hi, hij⟩ := hk k j hj
  have hs := h k i hi
  rw [← Option.isSome_map (f := Socket.fd), ← hij.fd, Option.isSome_map] at hs
  exact hs

theorem Sound.socketed (h : el.Sound) : el.Socketed := by
  intro k i hi
  obtain ⟨s, hs, -⟩ := h.gfd hi
  rw [hs]
  rfl

variable [Codec κ Msg] [EventHandler η κ Msg]

/-- The poller's answers are used up in order. -/
theorem Effect.results (h : Effect serving key el el') : el'.poll.results <:+ el.poll.results := by
  cases h with
  | neutral h => exact h.results
  | ticks op hd conns hop _ =>
    unfold tickOp
    split <;> exact List.suffix_refl _
  | _ => exact List.suffix_refl _

theorem Change.results (h : Change el el') : el'.poll.results <:+ el.poll.results := by
  rcases h with ⟨key, h⟩ | h
  · exact h.results
  · cases h <;> exact List.suffix_refl _

theorem results_of_changes (h : ReflTransGen Change el t) : t.poll.results <:+ el.poll.results :=
  invariant_of_steps (P := fun t => t.poll.results <:+ el.poll.results) h (fun _ _ hc ht => hc.results.trans ht)
    (List.suffix_refl _)

theorem keeps_of_effects (h : ReflTransGen AnyEffect el t) : el.Keeps t :=
  invariant_of_steps (P := fun t => el.Keeps t) h (fun _ _ ⟨_, he⟩ hk => hk.trans he.same) (.of_eq rfl)

theorem changes_of_effect (h : ReflTransGen (Effect serving key) el t) : ReflTransGen Change el t :=
  changes_of_effects (effects_any h)

/-! ## The ways to fail -/

/-- **How a method fails**, in a state `u` it has come to by steps of `E`. `C` are the states in which it calls
`shutdown`. -/
inductive FailsBy (E : EventLoop η κ → EventLoop η κ → Prop) (C : EventLoop η κ → Prop)
    (el : EventLoop η κ) (e : IoError)
    (t : EventLoop η κ) : Prop
  /-- a shutdown was asked for and carried out; the connection that asked for it in `on_open` is dropped -/
  | shutdown (u v : EventLoop η κ) (hu : ReflTransGen E el u) (hc : C u) (hs : EventLoop.shutdown u = .ok ⟨⟩ v)
      (he : e = .eventLoopShutdown) (ht : t = v ∨ ∃ id, t = v.record (.drops id))
  /-- the poller failed, and the method returned at once -/
  | polled (u : EventLoop η κ) (hu : ReflTransGen E el u) (he : u.poll.results.head? = some (.error e))
      (ht : t = u.polled)

variable {E F : EventLoop η κ → EventLoop η κ → Prop} {C : EventLoop η κ → Prop}

theorem FailsBy.after (hp : ReflTransGen E el el') (h : FailsBy E C el' e t) : FailsBy E C el e t := by
  cases h with
  | shutdown u v hu hc hs he ht => exact .shutdown u v (hp.trans hu) hc hs he ht
  | polled u hu he ht => exact .polled u (hp.trans hu) he ht

theorem FailsBy.mono (h : FailsBy E C el e t) (hEF : ∀ s t, E s t → F s t) : FailsBy F C el e t := by
  cases h with
  | shutdown u v hu hc hs he ht => exact .shutdown u v (ReflTransGen.mono hEF _ _ hu) hc hs he ht
  | polled u hu he ht => exact .polled u (ReflTransGen.mono hEF _ _ hu) he ht

/-- The method fails in one of these ways, if it fails. -/
def Fails {α : Type} (E : EventLoop η κ → EventLoop η κ → Prop) (C : EventLoop η κ → Prop) (m : LoopM η κ α)
    (el : EventLoop η κ) : Prop := ∀ e t, m el = .error e t → FailsBy E C el e t

namespace Fails

variable {α β : Type} {m : LoopM η κ α} {f : α → LoopM η κ β}

theorem of_ok {a : α} (h : m el = .ok a t) : Fails E C m el := fun _ _ h' => by
  rw [h] at h'
  cases h'

theorem pure (a : α) : Fails E C (Pure.pure a : LoopM η κ α) el := of_ok rfl

/-- What comes second starts from where the first one ended well. -/
theorem bind (hm : Fails E C m el) (hf : ∀ a t, m el = .ok a t → ReflTransGen E el t ∧ Fails E C (f a) t) :
    Fails E C (m >>= f) el := by
  intro e u h
  rw [bind_apply] at h
  cases hmt : m el with
  | ok a t =>
    rw [hmt] at h
    exact ((hf a t hmt).2 e u h).after (hf a t hmt).1
  | error e' t =>
    rw [hmt] at h
    cases h
    exact hm _ _ hmt

theorem mono (h : Fails E C m el) (hEF : ∀ s t, E s t → F s t) : Fails F C m el := fun e t h' => (h e t h').mono hEF

theorem get_bind {f : EventLoop η κ → LoopM η κ β} (h : Fails E C (f el) el) : Fails E C (get >>= f) el := h

theorem set_bind {f : PUnit → LoopM η κ β} (hp : ReflTransGen E el t) (h : Fails E C (f ⟨⟩) t) :
    Fails E C (set t >>= f) el := fun e u h' => (h e u h').after hp

end Fails

/-! ## The methods -/

theorem pollResult_failsBy (el : EventLoop η κ) : Fails E C pollResult el := by
  intro e t h
  rcases pollResult_cases el with h' | ⟨e', h', he⟩
  · rw [h'] at h
    cases h
  · rw [h'] at h
    cases h
    exact .polled el .refl he rfl

theorem shutdown_failsBy {α : Type} (hc : C el) :
    Fails E C (EventLoop.shutdown >>= fun _ => (throw .eventLoopShutdown : LoopM η κ α)) el := by
  intro e t h
  obtain ⟨v, hv⟩ := shutdown_ok el
  rw [bind_apply, hv] at h
  cases h
  exact .shutdown el _ .refl hc hv rfl (Or.inl rfl)

theorem reregister_failsBy (hs : el.Socketed) (key : Nat) :
    Fails (Effect True key) C (reregister key) el := by
  unfold reregister
  refine .get_bind ?_
  cases hi : el.connections.get key with
  | none => exact .pure _
  | some i =>
    obtain ⟨s, hs⟩ := Option.isSome_iff_exists.mp (hs key i hi)
    simp only [hs]
    refine .bind (pollResult_failsBy el) fun _ t ht => ⟨?_, .of_ok rfl⟩
    obtain rfl := pollResult_ok ht
    exact .single (.neutral el.neutral_polled)

theorem closeConnection_failsBy (key : Nat) (graceful : Bool) (el : EventLoop η κ) :
    Fails (Effect True key) C (closeConnection key graceful) el := by
  cases hi : el.connections.get key with
  | none => exact .of_ok (closeConnection_none hi graceful)
  | some i =>
    rcases closeConnection_cases hi graceful with ⟨t, h', -⟩ | ⟨e, h', he⟩
    · exact .of_ok h'
    · intro e' t h
      rw [h'] at h
      cases h
      exact .polled _ (.single (.failsToClose i graceful e hi he trivial)) he rfl

/-- **An effect leaves the connection in the slab**, or closes it. -/
theorem Effect.alive_or_gone (h : Effect serving key el el') {i : Incarnation κ}
    (hi : el.connections.get key = some i) : (∃ j, el'.connections.get key = some j) ∨
      ∃ graceful, serving ∧ el' = el.gone key i graceful := by
  cases h with
  | neutral h => exact Or.inl ⟨i, by rw [h.connections, hi]⟩
  | push priority cmd _ => exact Or.inl ⟨i, hi⟩
  | serves i₀ c hi₀ hc hf => exact Or.inl ⟨_, get_setIncarnation_self hi₀ _⟩
  | readsNothing i₀ s a n hi₀ hs ha => exact Or.inl ⟨_, get_setIncarnation_self hi₀ _⟩
  | traffic i₀ s a n s' bs hi₀ hs ha hne hset hact =>
    have h₁ : (el.hears key i₀ s' bs).2.connections.get key = _ := get_setIncarnation_self hi₀ _
    exact Or.inl ⟨_, get_setIncarnation_self (get_setIncarnation_self h₁ (el.hears key i₀ s' bs).1) _⟩
  | lastTraffic i₀ s a n s' bs hi₀ hs ha hne hset hact =>
    have h₁ : (el.hears key i₀ s' bs).2.connections.get key = _ := get_setIncarnation_self hi₀ _
    exact Or.inl ⟨_, get_setIncarnation_self h₁ _⟩
  | closes i₀ graceful hi₀ hf =>
    rw [hi] at hi₀
    cases hi₀
    exact Or.inr ⟨graceful, hf, rfl⟩
  | failsToClose i₀ graceful e hi₀ he hf =>
    have h₁ : (el.closing i₀ graceful).2.connections.get key = some i₀ := hi₀
    exact Or.inl ⟨_, get_setIncarnation_self h₁ _⟩
  | ticks op hd conns hop hf =>
    unfold tickOp
    rw [hi]
    have h₁ : (el.withHandle (op.apply i el.handle).2).connections.get key = some i := hi
    exact Or.inl ⟨_, get_setIncarnation_self h₁ _⟩
  | recordsTick before after action hf => exact Or.inl ⟨i, hi⟩

/-- What only reads leaves the connection in the slab. -/
theorem Effect.alive (h : Effect False key el el') {i : Incarnation κ} (hi : el.connections.get key = some i) :
    ∃ j, el'.connections.get key = some j := (h.alive_or_gone hi).elim id fun ⟨_, hf, _⟩ => hf.elim

theorem alive_of_effects (h : ReflTransGen (Effect False key) el t)
    (hel : ∃ i, el.connections.get key = some i) : ∃ j, t.connections.get key = some j :=
  invariant_of_steps (P := fun t => ∃ j, t.connections.get key = some j) h (fun _ _ he ⟨_, hi⟩ => he.alive hi) hel

/-- With the socket there, an iteration of the loop of `process_read` goes well. -/
theorem readOnce_ok (hs : el.Socketed) (hset : el.SettledAt key) (hlive : ∃ i, el.connections.get key = some i)
    (a : ReadAnswer) : ∃ r t, readOnce key a el = .ok r t ∧ ReadOutcome key el r t := by
  rcases readOnce_outcome (a := a) hset with h | ⟨-, hnone⟩
  · exact h
  · obtain ⟨i, hi⟩ := hlive
    have hsome := hs key i hi
    rw [hnone i hi] at hsome
    cases hsome

theorem readLoop_ok : ∀ (answers : List ReadAnswer) (bytesRead : Nat) (el : EventLoop η κ), el.Socketed →
    el.SettledAt key → (∃ i, el.connections.get key = some i) →
      ∃ status t, readLoop key answers bytesRead el = .ok status t
  | [], bytesRead, el, hs, hset, hlive => by
    unfold readLoop
    rw [Programs.get_bind]
    split
    · exact ⟨_, _, rfl⟩
    · obtain ⟨r, t, h, -⟩ := readOnce_ok hs hset hlive .wouldBlock
      rw [bind_apply, h]
      cases r <;> exact ⟨_, _, rfl⟩
  | a :: answers, bytesRead, el, hs, hset, hlive => by
    unfold readLoop
    rw [Programs.get_bind]
    split
    · exact ⟨_, _, rfl⟩
    · obtain ⟨r, t, h, ho⟩ := readOnce_ok hs hset hlive a
      rw [bind_apply, h]
      cases ho with
      | stops status t ht hset' _ => exact ⟨_, _, rfl⟩
      | ends status t ht _ => exact ⟨_, _, rfl⟩
      | goesOn n t ht hset' =>
        exact readLoop_ok answers _ t (hs.keeps (keeps_of_effects (effects_any ht))) hset' (alive_of_effects ht hlive)

/-- **Reading never fails.** -/
theorem processRead_ok (hs : el.Socketed) (hset : el.SettledAt key) : ∃ status t, processRead key el = .ok status t ∧
    ReflTransGen (Effect False key) el t ∧ (t.SettledAt key ∨ Giving status) := by
  have hok : ∃ status t, processRead key el = .ok status t := by
    unfold processRead
    rw [Programs.get_bind]
    cases hi : el.connections.get key with
    | none => exact ⟨_, _, rfl⟩
    | some i =>
      simp only
      split
      · exact ⟨_, _, rfl⟩
      · exact readLoop_ok _ 0 el hs hset ⟨i, hi⟩
  rcases processRead_outcome hset with h | ⟨t, h, -⟩
  · exact h
  · obtain ⟨status, u, hu⟩ := hok
    rw [h] at hu
    cases hu

theorem readSocket_failsBy (hs : el.Socketed) (hset : el.SettledAt key)
    (hc : ∀ u, processRead key el = .ok .shutdown u → C u) :
    Fails (Effect True key) C (readSocket key) el := by
  unfold readSocket
  obtain ⟨status, t, h, ht, -⟩ := processRead_ok hs hset
  refine .bind (.of_ok h) fun status' t' h' => ?_
  rw [h] at h'
  cases h'
  refine ⟨ReflTransGen.mono (fun _ _ => Effect.serving) _ _ ht, ?_⟩
  cases status with
  | closed graceful => exact closeConnection_failsBy key graceful t
  | «yield» => exact .of_ok rfl
  | completed => exact .pure _
  | shutdown => exact shutdown_failsBy (hc t h)

omit [EventHandler η κ Msg] in
theorem processWrite_ok_of (hs : el.Socketed) (key : Nat) :
    ∃ status t, processWrite (η := η) (κ := κ) key el = .ok status t := by
  unfold processWrite
  rw [Programs.get_bind]
  cases hi : el.connections.get key with
  | none => exact ⟨_, _, rfl⟩
  | some i =>
    obtain ⟨s, hs⟩ := Option.isSome_iff_exists.mp (hs key i hi)
    have hok : ∃ status, (i.conn.processWrite el.options.maxBatchSize).1 = .ok status := by
      by_cases hq : i.conn.queued = []
      · exact ⟨_, by rw [Connection.processWrite_nil hq]⟩
      · exact ⟨_, by rw [Connection.processWrite_some hs hq]⟩
    obtain ⟨status, hok⟩ := hok
    simp only [Programs.set_bind, hok]
    exact ⟨_, _, rfl⟩

theorem writeSocket_failsBy (hs : el.Socketed) (key : Nat) :
    Fails (Effect True key) C (writeSocket key) el := by
  unfold writeSocket
  obtain ⟨status, t, h⟩ := processWrite_ok_of hs key
  have hl := (processWrite_leads key el).ok h
  refine .bind (.of_ok h) fun status' t' h' => ?_
  rw [h] at h'
  cases h'
  refine ⟨hl, ?_⟩
  cases status with
  | closed graceful => exact closeConnection_failsBy key graceful t
  | «yield» => exact .of_ok rfl
  | completed => exact reregister_failsBy (hs.keeps (keeps_of_effects (effects_any hl))) key
  | shutdown => exact .of_ok rfl

theorem asyncWrite_failsBy (hs : el.Socketed) (gfd : Gfd) (data : Bytes) :
    Fails (Effect True gfd.slabIndex) C (asyncWrite gfd data) el := by
  unfold asyncWrite
  refine .get_bind ?_
  dsimp only
  split
  · exact .pure _
  · cases hi : el.connections.get gfd.slabIndex with
    | none => exact .pure _
    | some i =>
      simp only
      split
      · exact .pure _
      · have he : Effect True gfd.slabIndex el
            (el.setIncarnation gfd.slabIndex { i with conn := (i.conn.write data).2 }) :=
          .serves i _ hi (.write data) trivial
        refine .set_bind (.single he) ?_
        split
        · exact closeConnection_failsBy _ false _
        · exact reregister_failsBy (hs.keeps he.same) _

theorem register_failsBy {socket : Socket} {localAddr peerAddr : NetworkAddress}
    (hc : pollResult el = .ok ⟨⟩ el.polled → el.polled.openAction socket localAddr peerAddr = .shutdown →
      C (el.polled.opening socket localAddr peerAddr).2) :
    Fails Change C (register socket localAddr peerAddr) el := by
  intro e t h
  rcases pollResult_cases el with hpoll | ⟨e', hpoll, he⟩
  · rcases register_opens socket localAddr peerAddr hpoll with ⟨-, h'⟩ | ⟨-, h'⟩ | ⟨hact, v, hv, h'⟩
    · rw [h'] at h
      cases h
    · rw [h'] at h
      cases h
    · rw [h'] at h
      cases h
      have hr : Registers el.polled _ := .refuses socket localAddr peerAddr (by simp [hact])
      exact .shutdown _ v (.tail (.single el.neutral_polled.change) (Or.inr hr)) (hc hpoll hact)
        hv rfl (Or.inr ⟨_, rfl⟩)
  · unfold register at h
    rw [Programs.get_bind, bind_apply, hpoll] at h
    cases h
    exact .polled el .refl he rfl

omit [Codec κ Msg] [EventHandler η κ Msg] in
theorem wake_error (h : wake el = .error e t) : el.handle.wake.1 = .error e ∧ t = el.withHandle el.handle.wake.2 := by
  unfold wake at h
  rw [Programs.get_bind] at h
  rcases hw : el.handle.wake with ⟨⟨e'⟩ | ⟨u⟩, h'⟩
  · rw [hw] at h
    cases h
    exact ⟨rfl, rfl⟩
  · rw [hw] at h
    cases h

/-- The state in which `on_tick` has been called, and its operations performed. -/
def ticked (el : EventLoop η κ) : EventLoop η κ :=
  let r := EventHandler.onTick el.handler el.occupants
  let t := r.1.ops.foldl tickOp { el with handler := r.2 }
  t.record (.ticks el.connections t.connections r.1.action)

theorem ticked_effects (el : EventLoop η κ) : ReflTransGen AnyEffect el el.ticked :=
  .tail (.head ⟨0, .neutral (neutral_handler el _)⟩ (tickOps_effects el.handler el.occupants _ _ fun _ ho => ho))
    ⟨0, .recordsTick _ _ _ trivial⟩

/-- A tick, and then a shutdown if the handler asks for one. -/
theorem onTick_eq (el : EventLoop η κ) : onTick (η := η) (κ := κ) el =
    (do
      if (EventHandler.onTick el.handler el.occupants).1.action = .shutdown then
        EventLoop.shutdown
        throw .eventLoopShutdown
      return (EventHandler.onTick el.handler el.occupants).1.delay : LoopM η κ Nat) el.ticked := rfl

end EventLoop

open EventLoop in
/-- **The calls of `shutdown`**: the task comes to one, in a state. -/
inductive Task.ShutsDown [Codec κ Msg] [EventHandler η κ Msg] (el : EventLoop η κ) : Task → EventLoop η κ → Prop
  | command : ShutsDown el (.command .shutdown) el
  | read {key : Nat} {u : EventLoop η κ} (hread : processRead key el = .ok .shutdown u) :
      ShutsDown el (.command (.read key)) u
  | io {key : Nat} {ev : Event} {t u : EventLoop η κ}
      (hup : ((ev.error || ev.readClosed) && (!ev.readable && !ev.writable)) = false) (hev : ev.error || ev.readable)
      (hwrite : (if ev.error || ev.writable then writeSocket key else pure ()) el = .ok ⟨⟩ t)
      (hread : processRead key t = .ok .shutdown u) : ShutsDown el (.io key ev) u
  | register {task : Task} {socket : Socket} {localAddr peerAddr : NetworkAddress}
      (htask : task = .register socket localAddr peerAddr ∨ task = .command (.register socket localAddr peerAddr))
      (hpoll : pollResult el = .ok ⟨⟩ el.polled) (hact : el.polled.openAction socket localAddr peerAddr = .shutdown) :
      ShutsDown el task (el.polled.opening socket localAddr peerAddr).2
  | tick (hact : (EventHandler.onTick el.handler el.occupants).1.action = .shutdown) : ShutsDown el .tick el.ticked

namespace EventLoop

variable [Codec κ Msg] [EventHandler η κ Msg] {el el' t : EventLoop η κ} {key : Nat} {e : IoError}

theorem handleCommand_failsBy (hs : el.Socketed) (hset : ∀ k, el.SettledAt k) {cmd : Command} (hcmd : cmd ≠ .wake) :
    Fails Change ((Task.command cmd).ShutsDown el) (handleCommand cmd) el := by
  have hchange : ∀ key (s t : EventLoop η κ), Effect True key s t → Change s t := fun _ _ _ h => Or.inl h.any
  unfold handleCommand
  cases cmd with
  | none => exact .pure _
  | asyncWrite gfd data => exact (asyncWrite_failsBy hs gfd data).mono (hchange _)
  | register socket localAddr peerAddr => exact register_failsBy (.register (Or.inr rfl))
  | close key => exact (closeConnection_failsBy key true el).mono (hchange _)
  | read key => exact (readSocket_failsBy hs (hset key) fun _ => .read).mono (hchange _)
  | write key => exact (writeSocket_failsBy hs key).mono (hchange _)
  | wake => exact absurd rfl hcmd
  | shutdown => exact shutdown_failsBy .command

theorem processIo_failsBy (hs : el.Socketed) (hset : el.SettledAt key) (ev : Event) :
    Fails (Effect True key) ((Task.io key ev).ShutsDown el) (processIo key ev) el := by
  have hpath : ∀ {u v : EventLoop η κ}, ReflTransGen (Effect True key) u v → u.Socketed →
      ReflTransGen (Effect True key) u v ∧ v.Socketed := fun h hu =>
    ⟨h, hu.keeps (keeps_of_effects (effects_any h))⟩
  unfold processIo
  split
  · exact closeConnection_failsBy key false el
  · rename_i hup
    dsimp only
    have hread : ∀ u : EventLoop η κ, u.Socketed → u.SettledAt key →
        (if ev.error || ev.writable then writeSocket key else pure ()) el = .ok ⟨⟩ u →
        Fails (Effect True key) ((Task.io key ev).ShutsDown el)
          (if (ev.error || ev.readable) = true then readSocket key >>= fun _ => reregister key
            else reregister key) u := by
      intro u hu hset hw
      split
      · rename_i hev
        refine .bind (readSocket_failsBy hu hset fun _ => .io (eq_false_of_ne_true hup) hev hw) fun _ v hv => ?_
        obtain ⟨hp, hv⟩ := hpath ((readSocket_leads hset).ok hv) hu
        exact ⟨hp, reregister_failsBy hv key⟩
      · exact reregister_failsBy hu key
    split
    · rename_i hev
      refine .bind (writeSocket_failsBy hs key) fun _ u hu => ?_
      obtain ⟨hp, hus⟩ := hpath ((writeSocket_leads key el).ok hu) hs
      exact ⟨hp, hread u hus (writeSocket_settled hset hu) (by rw [if_pos hev]; exact hu)⟩
    · rename_i hev
      exact hread el hs hset (by rw [if_neg hev]; rfl)

/-- A tick fails only by a shutdown. -/
theorem onTick_error (h : onTick (η := η) (κ := κ) el = .error e t) :
    (EventHandler.onTick el.handler el.occupants).1.action = .shutdown ∧ EventLoop.shutdown el.ticked = .ok ⟨⟩ t ∧
      e = .eventLoopShutdown := by
  rw [onTick_eq] at h
  split at h
  · rename_i hact
    obtain ⟨v, hv⟩ := shutdown_ok el.ticked
    rw [bind_apply, hv] at h
    cases h
    exact ⟨hact, hv, rfl⟩
  · cases h

end EventLoop

/-- The task of a tick fails when `on_tick` does. -/
theorem Task.tick_error [Codec κ Msg] [EventHandler η κ Msg] {el t : EventLoop η κ} {e : IoError}
    (h : Task.tick.run el = .error e t) : EventLoop.onTick (η := η) (κ := κ) el = .error e t := by
  have h : (EventLoop.onTick (η := η) (κ := κ) >>= fun _ => (pure () : LoopM η κ Unit)) el = .error e t := h
  rw [bind_apply] at h
  cases ht : EventLoop.onTick (η := η) (κ := κ) el with
  | ok delay u =>
    rw [ht] at h
    cases h
  | error e' u =>
    rw [ht] at h
    cases h
    rfl

open EventLoop in
/-- **Whatever the main loop runs in a step** fails in one of these ways, or the system refused the wake it asked
for. -/
theorem Task.failsBy [Codec κ Msg] [EventHandler η κ Msg] {task : Task} {el t : EventLoop η κ} {e : IoError}
    (hs : el.Socketed) (hset : ∀ k, el.SettledAt k) (h : task.run el = .error e t) :
    FailsBy Change (task.ShutsDown el) el e t ∨
      task = .command .wake ∧ el.handle.wake.1 = .error e ∧ t = el.withHandle el.handle.wake.2 := by
  cases task with
  | command cmd =>
    by_cases hcmd : cmd = .wake
    · subst hcmd
      exact Or.inr ⟨rfl, wake_error h⟩
    · exact Or.inl (handleCommand_failsBy hs hset hcmd e t h)
  | io key ev => exact Or.inl ((processIo_failsBy hs (hset key) ev e t h).mono fun _ _ he => Or.inl he.any)
  | register socket localAddr peerAddr => exact Or.inl (register_failsBy (.register (Or.inl rfl)) e t h)
  | tick =>
    obtain ⟨hact, hv, rfl⟩ := onTick_error (Task.tick_error h)
    exact Or.inl (.shutdown _ _ (changes_of_effects el.ticked_effects) (.tick hact) hv rfl (Or.inl rfl))

open EventLoop in
/-- **A task that comes to a shutdown fails with it.** -/
theorem Task.ShutsDown.run [Codec κ Msg] [EventHandler η κ Msg] {task : Task} {el u : EventLoop η κ}
    (h : task.ShutsDown el u) : ∃ v t, EventLoop.shutdown u = .ok ⟨⟩ v ∧ task.run el = .error .eventLoopShutdown t ∧
      (t = v ∨ ∃ id, t = v.record (.drops id)) := by
  obtain ⟨v, hv⟩ := shutdown_ok u
  have hread : ∀ {key : Nat} {t : EventLoop η κ}, processRead key t = .ok .shutdown u →
      readSocket key t = .error .eventLoopShutdown v := by
    intro key t h
    unfold readSocket
    rw [bind_apply, h]
    show (EventLoop.shutdown >>= fun _ => (throw .eventLoopShutdown : LoopM η κ Unit)) u = _
    rw [bind_apply, hv]
    rfl
  cases h with
  | command =>
    refine ⟨v, v, hv, ?_, Or.inl rfl⟩
    show (EventLoop.shutdown >>= fun _ => (throw .eventLoopShutdown : LoopM η κ Unit)) el = _
    rw [bind_apply, hv]
    rfl
  | read h => exact ⟨v, v, hv, hread h, Or.inl rfl⟩
  | @io key ev t _ hup hev hwrite h =>
    refine ⟨v, v, hv, ?_, Or.inl rfl⟩
    show processIo key ev el = _
    unfold processIo
    simp only [hup, Bool.false_eq_true, if_false]
    have hrest : (if (ev.error || ev.readable) = true then readSocket key >>= fun _ => reregister key
        else reregister key) t = .error .eventLoopShutdown v := by
      rw [if_pos hev, bind_apply, hread h]
    by_cases hw : (ev.error || ev.writable) = true
    · rw [if_pos hw] at hwrite ⊢
      rw [bind_apply, hwrite]
      exact hrest
    · rw [if_neg hw] at hwrite ⊢
      cases hwrite
      exact hrest
  | @register task socket localAddr peerAddr htask hpoll hact =>
    rcases register_opens socket localAddr peerAddr hpoll with ⟨h, -⟩ | ⟨h, -⟩ | ⟨-, t, ht, h⟩
    · rw [hact] at h
      cases h
    · rw [hact] at h
      cases h
    · refine ⟨t, t.record (.drops (el.polled.opening socket localAddr peerAddr).1.id), ht, ?_, Or.inr ⟨_, rfl⟩⟩
      rcases htask with rfl | rfl <;> exact h
  | tick hact =>
    refine ⟨v, v, hv, ?_, Or.inl rfl⟩
    show (onTick >>= fun _ => (pure () : LoopM η κ Unit)) el = _
    rw [bind_apply, onTick_eq, if_pos hact, bind_apply, hv]
    rfl

open EventLoop in
/-- Until then the task has made changes only. -/
theorem Task.ShutsDown.changes [Codec κ Msg] [EventHandler η κ Msg] {task : Task} {el u : EventLoop η κ}
    (hset : ∀ k, el.SettledAt k) (h : task.ShutsDown el u) : ReflTransGen Change el u := by
  have hread : ∀ {key : Nat} {t : EventLoop η κ}, t.SettledAt key → processRead key t = .ok .shutdown u →
      ReflTransGen Change t u := by
    intro key t ht h
    rcases processRead_outcome ht with ⟨status, v, hv, hp, -⟩ | ⟨v, hv, -⟩ <;> rw [hv] at h <;> cases h
    exact changes_of_effect hp
  cases h with
  | command => exact .refl
  | read h => exact hread (hset _) h
  | @io key ev t _ hup hev hwrite h =>
    by_cases hw : (ev.error || ev.writable) = true
    · rw [if_pos hw] at hwrite
      exact (changes_of_effect ((writeSocket_leads key el).ok hwrite)).trans
        (hread (writeSocket_settled (hset key) hwrite) h)
    · rw [if_neg hw] at hwrite
      cases hwrite
      exact hread (hset key) h
  | @register task socket localAddr peerAddr htask hpoll hact =>
    have hr : Registers el.polled _ := .refuses socket localAddr peerAddr (by simp [hact])
    exact .tail (.single el.neutral_polled.change) (Or.inr hr)
  | tick hact => exact changes_of_effects el.ticked_effects

/-- The answers of the poller that a task uses. -/
def Task.asked [Codec κ Msg] [EventHandler η κ Msg] (task : Task) (el : EventLoop η κ) : List (IoResult Unit) :=
  el.poll.results.take (el.poll.results.length - (final task.run el).poll.results.length)

open EventLoop in
/-- The answer on which a task fails is among those it uses. -/
theorem Task.mem_asked [Codec κ Msg] [EventHandler η κ Msg] {task : Task} {el u : EventLoop η κ} {e : IoError}
    (hrun : task.run el = .error e u.polled) (hu : ReflTransGen Change el u)
    (he : u.poll.results.head? = some (.error e)) : .error e ∈ task.asked el := by
  obtain ⟨used, hused⟩ := results_of_changes hu
  obtain ⟨rest, hrest⟩ := List.head?_eq_some_iff.mp he
  have hlen : el.poll.results = (used ++ [.error e]) ++ rest := by
    rw [← hused, hrest, List.append_assoc]
    rfl
  have hfin : (final task.run el).poll.results = rest := by
    rw [final_of_error hrun, polled, hrest]
    rfl
  rw [asked, hfin, hlen, List.length_append, Nat.add_sub_cancel, List.take_left]
  exact List.mem_append_right _ List.mem_cons_self

end Rnet
