import Rnet.EventLoop.AsyncWrites
import Rnet.EventLoop.Handed

/-!
# The rule for connections

What a handler does for a connection depends on that connection, so what it achieves is an invariant of one connection
at a time. `Happens` lists what happens to a live connection while the loop goes on, with what is recorded of it: the
loop registers it, writes its output, hands it the data of an `AsyncWrite`, reads from it and calls `on_traffic`, and
performs an operation of a tick on it. An invariant that a new connection has after its `on_open` (`Upholds.opens`) and
that all this keeps (`Upholds.happens`) holds of every live connection in every run (`run_connections`); it may look at
the trace. What else happens in a loop need not be looked at again.

`W g data` says which `AsyncWrite`s there are. They come from other threads and from the handler (`Announced`).
-/

namespace Rnet

open Programs Relation

variable {η κ Msg : Type}

/-! ## Queued commands -/

namespace EventLoop

/-- Every command in the queues is one of `Q`. -/
def Queues (Q : Queued → Prop) (el : EventLoop η κ) : Prop := ∀ q ∈ el.handle.queued, Q q

/-- The commands that the loop itself puts into its queues, and those of the callbacks, are among `Q`. -/
structure Admits (η : Type) {κ Msg : Type} [EventHandler η κ Msg] (Q : Queued → Prop) : Prop where
  loop : ∀ q : Queued, q.origin = none → q.cmd.addressee = none → Q q
  sends : ∀ idx g q, Sends η idx g q → Q q

variable [Codec κ Msg] [EventHandler η κ Msg] {el el' t : EventLoop η κ} {Q : Queued → Prop}

/-- Nothing but commands that are `Q` has come to the ends of the queues. -/
def Fills (Q : Queued → Prop) (h h' : EventLoopHandle) : Prop :=
  ∃ us cs, h'.urgent = h.urgent ++ us ∧ h'.common = h.common ++ cs ∧ ∀ q ∈ us ++ cs, Q q

omit [Codec κ Msg] [EventHandler η κ Msg] in
theorem Fills.of_eq {h h' : EventLoopHandle} (hu : h'.urgent = h.urgent) (hc : h'.common = h.common) : Fills Q h h' :=
  ⟨[], [], by rw [hu, List.append_nil], by rw [hc, List.append_nil], List.forall_mem_nil _⟩

omit [Codec κ Msg] [EventHandler η κ Msg] in
theorem Fills.of_gets {h h' : EventLoopHandle} {qs : List Queued} (hg : h.Gets qs h') (hqs : ∀ q ∈ qs, Q q) :
    Fills Q h h' := by
  obtain ⟨us, cs, hu, hc, hp⟩ := hg.queues
  exact ⟨us, cs, hu, hc, fun q hq => hqs q (hp.mem_iff.mp hq)⟩

omit [Codec κ Msg] [EventHandler η κ Msg] in
theorem Fills.trans {h h' h'' : EventLoopHandle} (h₁ : Fills Q h h') (h₂ : Fills Q h' h'') : Fills Q h h'' := by
  obtain ⟨us, cs, hu, hc, hq⟩ := h₁
  obtain ⟨us', cs', hu', hc', hq'⟩ := h₂
  refine ⟨us ++ us', cs ++ cs', by rw [hu', hu, List.append_assoc], by rw [hc', hc, List.append_assoc],
    fun q hmem => ?_⟩
  rw [List.append_assoc, List.mem_append, List.mem_append, List.mem_append] at hmem
  rcases hmem with hmem | hmem | hmem | hmem
  · exact hq q (List.mem_append_left _ hmem)
  · exact hq' q (List.mem_append_left _ hmem)
  · exact hq q (List.mem_append_right _ hmem)
  · exact hq' q (List.mem_append_right _ hmem)

omit [Codec κ Msg] [EventHandler η κ Msg] in
theorem Fills.queues (h : Fills Q el.handle t.handle) (hel : el.Queues Q) : t.Queues Q := by
  obtain ⟨us, cs, hu, hc, hq⟩ := h
  intro q hmem
  rw [EventLoopHandle.queued, hu, hc, List.mem_append, List.mem_append, List.mem_append] at hmem
  rcases hmem with (hmem | hmem) | hmem | hmem
  · exact hel q (List.mem_append_left _ hmem)
  · exact hq q (List.mem_append_left _ hmem)
  · exact hel q (List.mem_append_right _ hmem)
  · exact hq q (List.mem_append_right _ hmem)

theorem fills_callback (hQ : Admits η Q) (el : EventLoop η κ) {i : Incarnation κ} {r : Reaction κ Msg × η}
    (obs : Incarnation κ → Incarnation κ → Action → Obs κ) (hops : ∀ op ∈ r.1.ops, Performs η op) :
    Fills Q el.handle (el.callback i r obs).2.handle := by
  obtain ⟨qs, hg, hqs⟩ := Op.applyAll_gets r.1.ops i el.handle
  refine .of_gets hg fun q hq => ?_
  obtain ⟨op, hop, c, hc, hq⟩ := hqs q hq
  exact hQ.sends _ _ q ⟨op, hops op hop, c, hc, hq⟩

theorem Effect.fills {key : Nat} {serving : Prop} (hQ : Admits η Q) (he : Effect serving key el el') :
    Fills Q el.handle el'.handle := by
  cases he with
  | neutral h => exact .of_eq h.urgent h.common
  | push priority cmd hcmd =>
    refine .of_gets (el.handle.trigger_gets priority ⟨cmd, none⟩) fun q hq => ?_
    rw [List.mem_singleton.mp hq]
    exact hQ.loop _ rfl hcmd
  | serves _ _ _ _ _ | readsNothing _ _ _ _ _ _ _ | recordsTick _ _ _ _ => exact .of_eq rfl rfl
  | traffic i s a n s' bs | lastTraffic i s a n s' bs =>
    exact fills_callback hQ (el.setIncarnation key _) .traffic fun _ => .onTraffic
  | closes i graceful hi _ | failsToClose i graceful e hi he _ =>
    exact fills_callback hQ el .closes fun _ => .onClose
  | ticks op hd conns hop _ =>
    unfold tickOp
    cases hi : el.connections.get key with
    | none => exact .of_eq rfl rfl
    | some i =>
      exact .of_gets (EventLoopHandle.triggerAll_gets (op.commands el.handle.idx i.conn) el.handle) fun q hq =>
        hQ.sends _ _ q ⟨op, .onTick hop, i.conn, rfl, hq⟩

theorem Registers.fills (hQ : Admits η Q) (hr : Registers el el') : Fills Q el.handle el'.handle := by
  cases hr with
  | admits socket localAddr peerAddr hact | refuses socket localAddr peerAddr hact =>
    exact fills_callback hQ el.minting .opens fun _ => .onOpen
  | dropsRefused before after action hobs hact => exact .of_eq rfl rfl

/-- **What the methods put into the queues.** -/
theorem fills_of_changes (hQ : Admits η Q) (h : ReflTransGen Change el t) : Fills Q el.handle t.handle :=
  invariant_of_steps (P := fun t => Fills Q el.handle t.handle) h
    (fun _ _ hc ht => ht.trans (hc.elim (fun ⟨_, he⟩ => he.fills hQ) (Registers.fills hQ))) (.of_eq rfl rfl)

/-- **What is in the queues comes from the loop, from callbacks or from outside.** -/
theorem queues_of_moves {m m' : Machine η κ} {l : Label η} (hQ : Admits η Q) (h : Machine.Moves m l m')
    (hcalm : m.Calm) (hl : ∀ cmd, l = .trigger cmd → Q ⟨cmd, none⟩) (hq : m.el.Queues Q) : m'.el.Queues Q := by
  have hneutral : ∀ {el el' : EventLoop η κ}, el.Neutral el' → el.Queues Q → el'.Queues Q := fun hn =>
    Fills.queues (.of_eq hn.urgent hn.common)
  have hchanges : ∀ {el el' : EventLoop η κ}, ReflTransGen Change el el' → el.Queues Q → el'.Queues Q := fun hp =>
    (fills_of_changes hQ hp).queues
  have hstart : ∀ {task : Task} {el₀ : EventLoop η κ}, Machine.Starts m l task el₀ → el₀.Queues Q := by
    intro task el₀ hst
    obtain ⟨h', rfl, -, -, hqueued⟩ := hst.withHandle
    exact fun q hq' => hq q (hqueued q hq')
  cases h with
  | idles hel _ => exact hneutral hel hq
  | pollFails _ => exact hq
  | gets priority cmd hcmd =>
    intro q hq'
    rcases (m.el.handle.trigger_gets priority ⟨cmd, none⟩).mem_queued.mp hq' with hq' | hq'
    · exact hq q hq'
    · rw [List.mem_singleton.mp hq']
      rcases hcmd with rfl | ⟨s, la, pa, -, rfl⟩
      · exact hl cmd rfl
      · exact hQ.loop _ rfl rfl
  | mints n => exact hq
  | drops _ =>
    rw [Machine.dropAll, recordAll_eq]
    exact hq
  | works hst hrun hel _ => exact hneutral hel (hchanges ((Task.changes _ (hst.settled hcalm)).ok hrun) (hstart hst))
  | ends hst hrun hel _ _ =>
    exact hneutral hel (hchanges ((Task.changes _ (hst.settled hcalm)).error hrun) (hstart hst))

end EventLoop

/-- The data that an `AsyncWrite` brings is `W`. -/
def Command.Brings (W : Gfd → Bytes → Prop) : Command → Prop
  | .asyncWrite gfd data => W gfd data
  | _ => True

theorem Command.brings_of_addressee {W : Gfd → Bytes → Prop} {cmd : Command} (h : cmd.addressee = Option.none) :
    cmd.Brings W := by
  cases cmd with
  | asyncWrite gfd data => cases h
  | _ => trivial

/-- What callbacks send is `W`. -/
def SendsOnly (η : Type) {κ Msg : Type} [EventHandler η κ Msg] (W : Gfd → Bytes → Prop) : Prop :=
  ∀ (gfd : Gfd) (cmd : Command), Performs η (.sendCommand gfd cmd : Op κ Msg) → cmd.Brings W

theorem SendsOnly.admits [EventHandler η κ Msg] {W : Gfd → Bytes → Prop} (h : SendsOnly η W) :
    EventLoop.Admits η fun q => q.cmd.Brings W where
  loop q _ ha := Command.brings_of_addressee ha
  sends idx g q hs := by
    obtain ⟨op, hop, c, -, hq⟩ := hs
    cases op with
    | close =>
      rw [List.mem_singleton.mp hq]
      trivial
    | sendCommand gfd cmd =>
      simp only [Op.commands] at hq
      split at hq
      · rw [List.mem_singleton.mp hq]
        exact h gfd cmd hop
      · cases hq
    | _ => cases hq

/-! ## One connection -/

/-- One thing that happens to a live connection while the loop goes on, and what is recorded of it. -/
inductive Happens (η : Type) {κ Msg : Type} [Codec κ Msg] [EventHandler η κ Msg] (W : Gfd → Bytes → Prop)
    (i : Incarnation κ) : List (Obs κ) → Incarnation κ → Prop
  | registers (s : Socket) (interest : Interest) (hs : i.conn.socket = some s) :
      Happens η W i [] { i with conn := { i.conn with socket := some { s with interest := some interest } } }
  | writes (maxBatch : Nat) : Happens η W i [] { i with conn := (i.conn.processWrite maxBatch).2 }
  | handed (data : Bytes) (n : Nat) (hW : W i.conn.gfd data) (hok : (i.conn.write data).1 = .ok n) :
      Happens η W i [] { i with conn := (i.conn.write data).2 }
  | readsNothing (s : Socket) (a : ReadAnswer) (n : Nat) (hs : i.conn.socket = some s)
      (ha : ∀ bs, (s.answerRead a n).1 = .ok bs → bs = []) :
      Happens η W i [] { i with conn := { i.conn with socket := some (s.answerRead a n).2 } }
  /-- a read, `on_traffic` and the carry-over -/
  | traffic (handler : η) (hd : EventLoopHandle) (s : Socket) (a : ReadAnswer) (n : Nat) (s' : Socket) (bs : Bytes)
      (before after : Incarnation κ) (hs : i.conn.socket = some s) (ha : s.answerRead a n = (.ok bs, s'))
      (hne : bs ≠ []) (hset : i.conn.Settled)
      (hbefore : before = { i with conn := { i.conn with socket := some s' }.receive bs })
      (hact : (EventHandler.onTraffic handler before.conn).1.action = .none)
      (hafter : after = (Op.applyAll (EventHandler.onTraffic handler before.conn).1.ops before hd).1) :
      Happens η W i [.traffic before after .none, .merged { after with conn := after.conn.carryOver }]
        { after with conn := after.conn.carryOver }
  | ticks (handler : η) (conns : List (Nat × Connection κ)) (key : Nat) (op : Op κ Msg) (hd : EventLoopHandle)
      (hop : (key, op) ∈ (EventHandler.onTick handler conns).1.ops) : Happens η W i [] (op.apply i hd).1

/-- What a live connection does not lose. -/
structure Stays (η : Type) {κ Msg : Type} [Codec κ Msg] [EventHandler η κ Msg] (W : Gfd → Bytes → Prop)
    (P : List (Obs κ) → Incarnation κ → Prop) : Prop where
  /-- what is recorded of other connections does not matter -/
  others : ∀ {trace i obs}, (∀ o ∈ obs, o.Elsewhere i.id) → P trace i → P (trace ++ obs) i
  happens : ∀ {trace i obs j}, Happens η W i obs j → P trace i → P (trace ++ obs) j

/-- An invariant of connections. -/
structure Upholds (η : Type) {κ Msg : Type} [Codec κ Msg] [EventHandler η κ Msg] (W : Gfd → Bytes → Prop)
    (P : List (Obs κ) → Incarnation κ → Prop) : Prop extends Stays η W P where
  /-- `on_open` was called on the connection that `register` made for a socket, and nothing is recorded of it yet -/
  opens : ∀ (trace : List (Obs κ)) (handler : η) (hd : EventLoopHandle) (id : Nat) (pooled : Option (Connection κ))
    (gfd : Gfd) (socket : Socket) (localAddr peerAddr : NetworkAddress) (before after : Incarnation κ),
    (∀ o ∈ trace, o.Elsewhere id) → before = ⟨id, socket.received, [], .opened pooled gfd socket localAddr peerAddr⟩ →
    (EventHandler.onOpen handler before.conn).1.action = .none →
    after = (Op.applyAll (EventHandler.onOpen handler before.conn).1.ops before hd).1 →
    P (trace ++ [.opens before after .none]) after

/-! ## The methods -/

namespace EventLoop

variable [Codec κ Msg] [EventHandler η κ Msg] {W : Gfd → Bytes → Prop} {P : List (Obs κ) → Incarnation κ → Prop}
  {el t : EventLoop η κ} {key : Nat}

/-- The connection at `key`, if there is one, has the invariant. -/
def HoldsAt (P : List (Obs κ) → Incarnation κ → Prop) (key : Nat) (el : EventLoop η κ) : Prop :=
  ∀ i, el.connections.get key = some i → P el.trace i

omit [Codec κ Msg] [EventHandler η κ Msg] in
theorem holdsAt_of_none (h : t.connections.get key = none) : t.HoldsAt P key := fun i hi => by
  rw [h] at hi
  cases hi

omit [Codec κ Msg] [EventHandler η κ Msg] in
theorem HoldsAt.congr (h : el.HoldsAt P key) (hc : t.connections.get key = el.connections.get key)
    (ht : t.trace = el.trace) : t.HoldsAt P key := fun i hi => by
  rw [hc] at hi
  rw [ht]
  exact h i hi

omit [Codec κ Msg] [EventHandler η κ Msg] in
theorem holdsAt_setIncarnation {i j : Incarnation κ} (hi : el.connections.get key = some i) (hj : P el.trace j) :
    (el.setIncarnation key j).HoldsAt P key := fun j' hj' => by
  rw [get_setIncarnation_self hi] at hj'
  cases hj'
  exact hj

/-- Something happens to the connection without a record. -/
theorem HoldsAt.happens (hP : Stays η W P) (h : el.HoldsAt P key) {i j : Incarnation κ}
    (hi : el.connections.get key = some i) (hj : Happens η W i [] j) : (el.setIncarnation key j).HoldsAt P key := by
  have hkeep := hP.happens hj (h i hi)
  rw [List.append_nil] at hkeep
  exact holdsAt_setIncarnation hi hkeep

theorem reregister_holds (hP : Stays η W P) (h : el.HoldsAt P key) (hrun : reregister key el = .ok ⟨⟩ t) :
    t.HoldsAt P key := by
  rcases reregister_ok hrun with ⟨-, rfl⟩ | ⟨i, s, hi, hs, rfl⟩
  · exact h
  · have hpolled : (el.polled.registering key).HoldsAt P key := h.congr rfl rfl
    exact hpolled.happens hP hi (.registers s _ hs)

theorem processWrite_holds (hP : Stays η W P) (h : el.HoldsAt P key) {status : IoStatus}
    (hrun : processWrite (η := η) (κ := κ) key el = .ok status t) : t.HoldsAt P key := by
  rcases processWrite_ok hrun with ⟨-, -, rfl⟩ | ⟨i, hi, -, rfl⟩
  · exact h
  · exact h.happens hP hi (.writes _)

theorem writeSocket_holds (hP : Stays η W P) (h : el.HoldsAt P key) (hrun : writeSocket key el = .ok ⟨⟩ t) :
    t.HoldsAt P key := by
  unfold writeSocket at hrun
  obtain ⟨status, u, hu, hrun⟩ := bind_ok.mp hrun
  have hw := processWrite_holds hP h hu
  cases status with
  | closed graceful => exact holdsAt_of_none (closeConnection_ok hrun)
  | «yield» => cases hrun; exact hw.congr rfl rfl
  | completed => exact reregister_holds hP hw hrun
  | shutdown => cases hrun; exact hw.congr rfl rfl

/-- One iteration of the loop of `process_read`, unless the connection is given up. -/
theorem Reads.holds (hP : Stays η W P) (h : el.HoldsAt P key) {i : Incarnation κ} {s : Socket} {a : ReadAnswer}
    {r : IoStatus ⊕ Nat} (hi : el.connections.get key = some i) (hs : i.conn.socket = some s) (hset : i.conn.Settled)
    (hread : Reads key el i s a r t) (hr : ∀ status, r = .inl status → ¬Giving status) : t.HoldsAt P key := by
  cases hread with
  | fails e s' b hb ha =>
    have hb : (el.buffered b).HoldsAt P key := h.congr rfl rfl
    have hnothing : Happens η W i [] _ := .readsNothing s a el.offered hs (by simp [ha])
    rw [ha] at hnothing
    exact hb.happens hP hi hnothing
  | ended s' b hb ha => exact absurd (Or.inl ⟨true, rfl⟩) (hr _ rfl)
  | goesOn bs s' b hb ha hne hact =>
    let before : Incarnation κ := { i with conn := { i.conn with socket := some s' }.receive bs }
    let after : Incarnation κ := ((el.buffered b).hears key i s' bs).1
    have hact : (EventHandler.onTraffic el.handler before.conn).1.action = .none := hact
    have hkeep := hP.happens
      (.traffic el.handler el.handle s a el.offered s' bs before after hs ha hne hset rfl hact rfl) (h i hi)
    have htrace : (((el.buffered b).hears key i s' bs).2.trace ++
        [.merged { after with conn := after.conn.carryOver }]) =
          el.trace ++ [.traffic before after .none, .merged { after with conn := after.conn.carryOver }] := by
      show (el.trace ++ [.traffic before after (EventHandler.onTraffic el.handler before.conn).1.action]) ++ [_] = _
      rw [hact, List.append_assoc]
      rfl
    intro j hj
    have h₁ : ((el.buffered b).hears key i s' bs).2.connections.get key = _ := get_setIncarnation_self hi _
    have h₂ := get_setIncarnation_self h₁ after
    cases (get_setIncarnation_self h₂ _).symm.trans hj
    rw [← htrace] at hkeep
    exact hkeep
  | stopped bs s' b hb ha hne hact =>
    refine absurd ?_ (hr _ rfl)
    split
    · exact Or.inl ⟨true, rfl⟩
    · exact Or.inr rfl

/-- **A read pass**, unless the connection is given up. -/
theorem readLoop_holds (hP : Stays η W P) :
    ∀ (answers : List ReadAnswer) (bytesRead : Nat) (el : EventLoop η κ), el.SettledAt key → el.HoldsAt P key →
      ∀ {status : IoStatus} {t : EventLoop η κ}, readLoop key answers bytesRead el = .ok status t → ¬Giving status →
        t.HoldsAt P key := by
  have honce : ∀ {a : ReadAnswer} {el u : EventLoop η κ} {r : IoStatus ⊕ Nat}, el.SettledAt key → el.HoldsAt P key →
      readOnce key a el = .ok r u → (∀ status, r = .inl status → ¬Giving status) →
        u.HoldsAt P key ∧ (∀ n, r = .inr n → u.SettledAt key) := by
    intro a el u r hset h hu hr
    obtain ⟨i, s, hi, hs, hread⟩ := readOnce_some hu
    refine ⟨hread.holds hP h hi hs (hset i hi) hr, ?_⟩
    rintro n rfl
    cases hread.outcome hi hs hset with
    | goesOn _ _ _ hset' => exact hset'
  intro answers
  induction answers with
  | nil =>
    intro bytesRead el hset h status t hrun hst
    unfold readLoop at hrun
    rw [Programs.get_bind] at hrun
    split at hrun
    · cases hrun
      exact h
    · obtain ⟨r, u, hu, hrun⟩ := bind_ok.mp hrun
      cases r with
      | inl status' =>
        cases hrun
        exact (honce hset h hu (by rintro _ ⟨⟩; exact hst)).1
      | inr n =>
        cases hrun
        exact (honce hset h hu (by rintro _ ⟨⟩)).1
  | cons a answers ih =>
    intro bytesRead el hset h status t hrun hst
    unfold readLoop at hrun
    rw [Programs.get_bind] at hrun
    split at hrun
    · cases hrun
      exact h
    · obtain ⟨r, u, hu, hrun⟩ := bind_ok.mp hrun
      cases r with
      | inl status' =>
        cases hrun
        exact (honce hset h hu (by rintro _ ⟨⟩; exact hst)).1
      | inr n =>
        obtain ⟨hu', hset'⟩ := honce hset h hu (by rintro _ ⟨⟩)
        exact ih _ u (hset' n rfl) hu' hrun hst

theorem readSocket_holds (hP : Stays η W P) (hset : el.SettledAt key) (h : el.HoldsAt P key)
    (hrun : readSocket key el = .ok ⟨⟩ t) : t.HoldsAt P key := by
  unfold readSocket at hrun
  obtain ⟨status, u, hu, hrun⟩ := bind_ok.mp hrun
  have hread : ¬Giving status → u.HoldsAt P key := by
    intro hst
    unfold processRead at hu
    rw [Programs.get_bind] at hu
    cases hi : el.connections.get key with
    | none =>
      rw [hi] at hu
      cases hu
      exact h
    | some i =>
      rw [hi] at hu
      simp only at hu
      split at hu
      · cases hu
        exact h
      · exact readLoop_holds hP _ _ el hset h hu hst
  cases status with
  | closed graceful => exact holdsAt_of_none (closeConnection_ok hrun)
  | «yield» =>
    cases hrun
    exact (hread (by simp [Giving])).congr rfl rfl
  | completed =>
    cases hrun
    exact hread (by simp [Giving])
  | shutdown =>
    obtain ⟨_, _, _, hrun⟩ := bind_ok.mp hrun
    cases hrun

/-- **An `AsyncWrite` that goes well** misses its connection, has closed it, or writes to it. -/
theorem asyncWrite_ok {gfd : Gfd} {data : Bytes} (hrun : asyncWrite gfd data el = .ok ⟨⟩ t) :
    t = el ∨ t.connections.get gfd.slabIndex = none ∨ ∃ i n, el.connections.get gfd.slabIndex = some i ∧
      i.conn.gfd = gfd ∧ (i.conn.write data).1 = .ok n ∧
      reregister gfd.slabIndex (el.setIncarnation gfd.slabIndex { i with conn := (i.conn.write data).2 }) =
        .ok ⟨⟩ t := by
  unfold asyncWrite at hrun
  rw [Programs.get_bind] at hrun
  dsimp only at hrun
  split at hrun
  · cases hrun
    exact Or.inl rfl
  · cases hi : el.connections.get gfd.slabIndex with
    | none =>
      rw [hi] at hrun
      cases hrun
      exact Or.inl rfl
    | some i =>
      rw [hi] at hrun
      simp only at hrun
      split at hrun
      · cases hrun
        exact Or.inl rfl
      · rename_i hg
        rw [set_bind] at hrun
        cases hw : (i.conn.write data).1 with
        | error e =>
          rw [hw] at hrun
          exact Or.inr (Or.inl (closeConnection_ok hrun))
        | ok n =>
          rw [hw] at hrun
          exact Or.inr (Or.inr ⟨i, n, rfl, not_not.mp hg, hw, hrun⟩)

theorem asyncWrite_holds (hP : Stays η W P) {gfd : Gfd} {data : Bytes} (hW : W gfd data)
    (h : el.HoldsAt P gfd.slabIndex) (hrun : asyncWrite gfd data el = .ok ⟨⟩ t) : t.HoldsAt P gfd.slabIndex := by
  rcases asyncWrite_ok hrun with rfl | hnone | ⟨i, n, hi, hg, hw, hrun⟩
  · exact h
  · exact holdsAt_of_none hnone
  · exact reregister_holds hP (h.happens hP hi (.handed data n (by rw [hg]; exact hW) hw)) hrun

/-- **An event.** -/
theorem processIo_holds (hP : Stays η W P) (ev : Event) (hset : el.SettledAt key) (h : el.HoldsAt P key)
    (hrun : processIo key ev el = .ok ⟨⟩ t) : t.HoldsAt P key := by
  have hread : ∀ u : EventLoop η κ, u.SettledAt key → u.HoldsAt P key →
      (if (ev.error || ev.readable) = true then readSocket key >>= fun _ => reregister key else reregister key) u =
        .ok ⟨⟩ t → t.HoldsAt P key := by
    intro u hu hPu hrun
    split at hrun
    · obtain ⟨_, v, hv, hrun⟩ := bind_ok.mp hrun
      exact reregister_holds hP (readSocket_holds hP hu hPu hv) hrun
    · exact reregister_holds hP hPu hrun
  unfold processIo at hrun
  split at hrun
  · exact holdsAt_of_none (closeConnection_ok hrun)
  · dsimp only at hrun
    split at hrun
    · obtain ⟨_, u, hu, hrun⟩ := bind_ok.mp hrun
      exact hread u (writeSocket_settled hset hu) (writeSocket_holds hP h hu) hrun
    · exact hread el hset h hrun

/-! ## All connections -/

/-- The records are about the connections made so far. -/
def Recorded (el : EventLoop η κ) : Prop := ∀ id, el.minted ≤ id → ∀ o ∈ el.trace, o.Elsewhere id

omit [Codec κ Msg] [EventHandler η κ Msg] in
theorem Recorded.congr (h : el.Recorded) (hm : el.minted ≤ t.minted) (ht : t.trace = el.trace) : t.Recorded :=
  fun id hid o ho => h id (hm.trans hid) o (ht ▸ ho)

theorem recorded_of_effects (h : ReflTransGen AnyEffect el t) (hs : el.Sound) (hr : el.Recorded) : t.Recorded := by
  have hinv : t.Sound ∧ t.Recorded := by
    refine invariant_of_steps (P := fun t => t.Sound ∧ t.Recorded) h ?_ ⟨hs, hr⟩
    rintro u v ⟨key, he⟩ ⟨hsound, hrec⟩
    refine ⟨he.sound hsound, fun id hid o ho => ?_⟩
    rw [he.minted.1] at hid
    obtain ⟨new, hnew, helse⟩ := he.elsewhere id fun i hi => Nat.ne_of_lt (Nat.lt_of_lt_of_le (hsound.minted hi) hid)
    rw [hnew] at ho
    exact (List.mem_append.mp ho).elim (hrec id hid o) (helse o)
  exact hinv.2

theorem register_recorded {socket : Socket} {localAddr peerAddr : NetworkAddress} (hr : el.Recorded)
    (hrun : register socket localAddr peerAddr el = .ok ⟨⟩ t) : t.Recorded := by
  have hnew : (el.polled.opening socket localAddr peerAddr).1.id = el.minted :=
    (opening_same el.polled socket localAddr peerAddr).id
  rcases register_cases socket localAddr peerAddr el with ⟨e, h', -⟩ | ⟨-, h'⟩ | ⟨-, h'⟩ | ⟨-, u, hu, h'⟩ <;>
    rw [h'] at hrun <;> cases hrun
  · intro id (hid : el.minted + 1 ≤ id) o ho
    rcases List.mem_append.mp ho with ho | ho
    · exact hr id (by omega) o ho
    · rw [List.mem_singleton.mp ho]
      exact Nat.ne_of_lt hid
  · intro id (hid : el.minted + 1 ≤ id) o ho
    rcases List.mem_append.mp ho with ho | ho
    · rcases List.mem_append.mp ho with ho | ho
      · exact hr id (by omega) o ho
      · rw [List.mem_singleton.mp ho]
        exact Nat.ne_of_lt hid
    · rw [List.mem_singleton.mp ho]
      exact hnew ▸ Nat.ne_of_lt hid

/-- Every live connection has the invariant. -/
def Holds (P : List (Obs κ) → Incarnation κ → Prop) (el : EventLoop η κ) : Prop := ∀ k, el.HoldsAt P k

/-- What effects at one key record is about other connections than those at other keys. -/
theorem elsewhere_of_effects {serving : Prop} (h : ReflTransGen (Effect serving key) el t) (hs : el.Sound) {k : Nat}
    (hk : k ≠ key) {i : Incarnation κ} (hi : el.connections.get k = some i) :
    ∃ obs, t.trace = el.trace ++ obs ∧ ∀ o ∈ obs, o.Elsewhere i.id := by
  have hinv : (t.Sound ∧ t.connections.get k = some i) ∧ ∃ obs, t.trace = el.trace ++ obs ∧
      ∀ o ∈ obs, o.Elsewhere i.id := by
    refine invariant_of_steps (P := fun t => (t.Sound ∧ t.connections.get k = some i) ∧ ∃ obs,
      t.trace = el.trace ++ obs ∧ ∀ o ∈ obs, o.Elsewhere i.id) h ?_ ⟨⟨hs, hi⟩, [], (List.append_nil _).symm,
      List.forall_mem_nil _⟩
    rintro u v he ⟨⟨hsound, hget⟩, obs, htrace, hobs⟩
    have hne : ∀ j, u.connections.get key = some j → j.id ≠ i.id := fun j hj heq =>
      hk (hsound.distinct hget hj heq.symm)
    obtain ⟨new, hnew, helse⟩ := he.elsewhere i.id hne
    refine ⟨⟨he.sound hsound, (he.frame hk).trans hget⟩, obs ++ new, by rw [hnew, htrace, List.append_assoc], ?_⟩
    intro o ho
    exact (List.mem_append.mp ho).elim (hobs o) (helse o)
  exact hinv.2

/-- What happens at one key, the other connections do not notice. -/
theorem holds_of_frame (hP : Stays η W P) (h : el.Holds P) (hkey : t.HoldsAt P key)
    (hother : ∀ k i, k ≠ key → el.connections.get k = some i → ∃ obs, t.trace = el.trace ++ obs ∧
      ∀ o ∈ obs, o.Elsewhere i.id)
    (hframe : ∀ k, k ≠ key → t.connections.get k = el.connections.get k) : t.Holds P := by
  intro k
  by_cases hk : k = key
  · exact hk ▸ hkey
  · intro i hi
    rw [hframe k hk] at hi
    obtain ⟨obs, htrace, hobs⟩ := hother k i hk hi
    rw [htrace]
    exact hP.others hobs (h k i hi)

theorem holds_of_effects {serving : Prop} (hP : Stays η W P) (hs : el.Sound) (h : el.Holds P)
    (hpath : ReflTransGen (Effect serving key) el t) (hkey : t.HoldsAt P key) : t.Holds P :=
  holds_of_frame hP h hkey (fun _ _ hk hi => elsewhere_of_effects hpath hs hk hi) fun _ hk => frame hpath hk

omit [Codec κ Msg] [EventHandler η κ Msg] in
theorem Holds.congr (h : el.Holds P) (hc : t.connections = el.connections) (ht : t.trace = el.trace) : t.Holds P :=
  fun k => (h k).congr (by rw [hc]) ht

/-- **A command** other than a registration. -/
theorem handleCommand_holds (hP : Stays η W P) (hs : el.Sound) (hset : ∀ k, el.SettledAt k) {cmd : Command}
    (hcmd : ∀ s l p, cmd ≠ .register s l p) (hW : cmd.Brings W) (h : el.Holds P)
    (hrun : handleCommand cmd el = .ok ⟨⟩ t) : t.Holds P := by
  refine holds_of_effects hP hs h ((handleCommand_leads hcmd hset).ok hrun) ?_
  cases cmd with
  | none => cases hrun; exact h _
  | asyncWrite gfd data => exact asyncWrite_holds hP hW (h _) hrun
  | register socket localAddr peerAddr => exact absurd rfl (hcmd _ _ _)
  | close key => exact holdsAt_of_none (closeConnection_ok hrun)
  | read key => exact readSocket_holds hP (hset _) (h _) hrun
  | write key => exact writeSocket_holds hP (h _) hrun
  | wake =>
    rw [wake_ok hrun]
    exact (h _).congr rfl rfl
  | shutdown =>
    obtain ⟨_, _, _, hrun⟩ := bind_ok.mp hrun
    cases hrun

/-- **A registration.** -/
theorem register_holds (hP : Upholds η W P) (hs : el.Sound) (hr : el.Recorded) {socket : Socket}
    {localAddr peerAddr : NetworkAddress} (h : el.Holds P)
    (hrun : register socket localAddr peerAddr el = .ok ⟨⟩ t) : t.Holds P := by
  have hpolled : el.polled.Holds P := h.congr rfl rfl
  have hframe : ∀ k, k ≠ el.connections.vacantKey → t.connections.get k = el.polled.connections.get k :=
    fun k hk => register_frame hrun hk
  have hother : ∀ k i, k ≠ el.connections.vacantKey → el.polled.connections.get k = some i →
      ∃ obs, t.trace = el.polled.trace ++ obs ∧ ∀ o ∈ obs, o.Elsewhere i.id := by
    intro k i _ hi
    obtain ⟨obs, ht, hobs⟩ := register_elsewhere hs hrun
    exact ⟨obs, ht, hobs k i hi⟩
  refine holds_of_frame hP.toStays hpolled ?_ hother hframe
  rcases register_cases socket localAddr peerAddr el with ⟨e, h', -⟩ | ⟨hact, h'⟩ | ⟨-, h'⟩ | ⟨-, u, hu, h'⟩ <;>
    rw [h'] at hrun <;> cases hrun
  · intro i hi
    cases Slab.get_insert_self.symm.trans hi
    have hopens := hP.opens el.trace el.handler el.handle el.minted el.connectionPool.head?
      (.new el.minted socket.fd el.loopId el.connections.vacantKey) { socket with interest := some .readable } localAddr
      peerAddr _ _ (hr _ (Nat.le_refl _)) rfl hact rfl
    rw [← show (EventHandler.onOpen el.handler (el.polled.incarnation socket localAddr peerAddr).conn).1.action = .none
      from hact] at hopens
    exact hopens
  · exact holdsAt_of_none (Slab.get_vacantKey el.connections)

/-- **A tick.** -/
theorem onTick_holds (hP : Stays η W P) {delay : Nat} (h : el.Holds P)
    (hrun : onTick (η := η) (κ := κ) el = .ok delay t) : t.Holds P := by
  have hops : ∀ (hd : η) (conns : List (Nat × Connection κ)) (ops : List (Nat × Op κ Msg)) (u : EventLoop η κ),
      (∀ op ∈ ops, op ∈ (EventHandler.onTick hd conns).1.ops) → u.Holds P → (ops.foldl tickOp u).Holds P := by
    intro hd conns ops
    induction ops with
    | nil => exact fun u _ hu => hu
    | cons op ops ih =>
      intro u hmem hu
      refine ih _ (fun o ho => hmem o (List.mem_cons_of_mem _ ho)) ?_
      have htrace : (u.tickOp op).trace = u.trace := by
        unfold tickOp
        split <;> rfl
      refine holds_of_frame hP hu ?_ (fun _ _ _ _ => ⟨[], htrace.trans (List.append_nil _).symm, List.forall_mem_nil _⟩)
        (fun k hk => tickOp_get u op hk)
      unfold tickOp
      cases hi : u.connections.get op.1 with
      | none => exact hu op.1
      | some i =>
        have hu' : (u.withHandle (op.2.apply i u.handle).2).HoldsAt P op.1 := (hu op.1).congr rfl rfl
        exact hu'.happens hP hi (.ticks hd conns op.1 op.2 u.handle (hmem op List.mem_cons_self))
  unfold onTick at hrun
  rw [Programs.get_bind] at hrun
  dsimp only at hrun
  rw [set_bind] at hrun
  split at hrun
  · obtain ⟨_, _, _, hrun⟩ := bind_ok.mp hrun
    cases hrun
  · cases hrun
    have hfold := hops el.handler el.occupants _ { el with handler := (EventHandler.onTick el.handler el.occupants).2 }
      (fun _ ho => ho) (h.congr rfl rfl)
    refine fun k i hi => hP.others (fun o ho => ?_) (hfold k i hi)
    rw [List.mem_singleton.mp ho]
    trivial

end EventLoop

namespace Machine

open EventLoop Runs

variable [Codec κ Msg] [EventHandler η κ Msg] {W : Gfd → Bytes → Prop} {P : List (Obs κ) → Incarnation κ → Prop}
  {m m' : Machine η κ} {l : Label η}

/-- The `AsyncWrite`s that other threads send are `W`. -/
def Announced (W : Gfd → Bytes → Prop) (ls : List (Label η)) : Prop := ∀ cmd, .trigger cmd ∈ ls → cmd.Brings W

/-- What is known of the connections of a loop that goes on. -/
structure Held (P : List (Obs κ) → Incarnation κ → Prop) (el : EventLoop η κ) : Prop where
  sound : el.Sound
  recorded : el.Recorded
  holds : el.Holds P

omit [Codec κ Msg] [EventHandler η κ Msg] in
theorem Held.congr {el t : EventLoop η κ} (h : Held P el) (hl : t.loopId = el.loopId)
    (hc : t.connections = el.connections) (hm : el.minted ≤ t.minted) (ht : t.trace = el.trace) : Held P t where
  sound := h.sound.keeps (.of_eq hc) hm hl
  recorded := h.recorded.congr hm ht
  holds := h.holds.congr hc ht

/-- **A step keeps the invariant of the live connections**, if the loop goes on. -/
theorem Moves.held (hP : Upholds η W P) (h : Moves m l m') (hcalm : m.Calm)
    (hW : m.el.Queues fun q => q.cmd.Brings W) (hlive : m'.phase.Live) (hm : Held P m.el) : Held P m'.el := by
  cases h with
  | idles hel _ => exact hm.congr hel.loopId hel.connections (Nat.le_of_eq hel.minted.symm) hel.trace
  | pollFails _ | drops _ | ends _ _ _ _ _ => exact hlive.elim
  | gets priority cmd _ => exact hm.congr rfl rfl (Nat.le_refl _) rfl
  | mints n => exact hm.congr rfl rfl (Nat.le_add_right _ _) rfl
  | @works _ task el₀ t el' phase nextTick hs hrun hel _ =>
    refine Held.congr ?_ hel.loopId hel.connections (Nat.le_of_eq hel.minted.symm) hel.trace
    have hset := hs.settled hcalm
    have hm₀ : Held P el₀ := by
      obtain ⟨h', rfl, -⟩ := hs.withHandle
      exact hm.congr rfl rfl (Nat.le_refl _) rfl
    have hsound : t.Sound := invariant_of_steps ((Task.changes task hset).ok hrun)
      (fun _ _ hc hs => Evolves.sound (.change hc) hs) hm₀.sound
    cases hs with
    | command hphase hq hcmd =>
      exact ⟨hsound, recorded_of_effects (effects_any ((handleCommand_leads hcmd hset).ok hrun)) hm₀.sound hm₀.recorded,
        handleCommand_holds hP.toStays hm₀.sound hset hcmd (hW _ (queued_takeCommand hq).1) hm₀.holds hrun⟩
    | io hphase _ _ =>
      have hpath := (processIo_leads _ (hset _)).ok hrun
      exact ⟨hsound, recorded_of_effects (effects_any hpath) hm₀.sound hm₀.recorded,
        holds_of_effects hP.toStays hm₀.sound hm₀.holds hpath
          (processIo_holds hP.toStays _ (hset _) (hm₀.holds _) hrun)⟩
    | ordered _ _ _ | accepted _ _ =>
      exact ⟨hsound, register_recorded hm₀.recorded hrun, register_holds hP hm₀.sound hm₀.recorded hm₀.holds hrun⟩
    | first _ _ | tick _ _ =>
      obtain ⟨delay, u, hu, hrun⟩ := bind_ok.mp hrun
      cases hrun
      exact ⟨hsound, recorded_of_effects ((onTick_leads _).ok hu) hm₀.sound hm₀.recorded,
        onTick_holds hP.toStays hm₀.holds hu⟩

/-- **The rule for connections.** An invariant that a new connection has and that everything keeps that may happen to a
live one holds of every live connection as long as the loop runs. -/
theorem run_connections (hP : Upholds η W P) (hsends : SendsOnly η W) {el : EventLoop η κ} (hfresh : el.Fresh)
    {ls : List (Label η)} (hls : Announced W ls) {m : Machine η κ} (hrun : run step (initial el) ls = some m)
    (hlive : m.phase.Live) : ∀ k i, m.el.connections.get k = some i → P m.el.trace i := by
  have hlabels : ∀ l ∈ ls, ∀ cmd, l = .trigger cmd → cmd.Brings W := by
    rintro l hl cmd rfl
    exact hls cmd hl
  have hinv := run_invariant
    (P := fun m : Machine η κ => m.Calm ∧ (m.el.Queues fun q => q.cmd.Brings W) ∧ (m.phase.Live → Held P m.el))
    ?_ ?_ (Along.of_labels (p := fun l => ∀ cmd, l = .trigger cmd → cmd.Brings W) hlabels) hrun
  · exact fun k i hi => (hinv.2.2 hlive).holds k i hi
  · rintro m l m' ⟨hcalm, hq, hm⟩ hl hstep
    have hmoves := step_moves hstep
    exact ⟨hmoves.calm hcalm, queues_of_moves hsends.admits hmoves hcalm hl hq, fun hlive' =>
      hmoves.held hP hcalm hq hlive' (hm (hmoves.live hlive'))⟩
  · refine ⟨initial_calm hfresh, fun q hq => ?_, fun _ => ⟨hfresh.sound, fun id _ o ho => ?_, fun k i hi => ?_⟩⟩
    · simp [initial, EventLoopHandle.queued, hfresh.urgent, hfresh.common] at hq
    · simp [initial, hfresh.trace] at ho
    · simp [initial, hfresh.connections] at hi

end Machine
end Rnet
