import Rnet.EventLoop.Queues

/-!
# Close requests

`Connection::close` puts the slab key into the queue, not the descriptor, and the key may belong to another connection
when the command is handled. A request goes astray only if a socket is registered at a key that a waiting request
names, or at a key that does not fit the 24 bits of the descriptor. In a run without such a registration (`Timely`)
every waiting request names a vacant key or the connection that made it (`Faithful`), so the request closes its own
connection or nothing (`close_hits_owner`). A request made in the same callback that closes the connection, behind a
registration already in the queue, closes the new connection (`stale_close_hits_newcomer`).
-/

namespace Rnet

open Programs Relation

variable {η κ Msg : Type}

/-! ## The invariant -/

theorem slabIndex_closeKey {minted : Nat} {fd : Int} {loopId : UInt8} {k : Nat} (hk : k < 2 ^ 24) :
    (Gfd.new minted fd loopId k).slabIndex = k := by
  rw [Gfd.slabIndex_new, Nat.mod_eq_of_lt hk]

namespace EventLoop

variable [Codec κ Msg] [EventHandler η κ Msg] {el el' : EventLoop η κ} {key : Nat} {serving : Prop}

/-- A close request still finds the connection that made it, or none. -/
def Faithful (el : EventLoop η κ) (q : Queued) : Prop :=
  ∀ g, q.origin = some g → q = closeRequest g ∧
    ∀ i, el.connections.get g.slabIndex = some i → i.conn.gfd = g

structure CloseSafe (el : EventLoop η κ) : Prop where
  sound : el.Sound
  small : ∀ {k i}, el.connections.get k = some i → k < 2 ^ 24
  faithful : ∀ q ∈ el.handle.queued, el.Faithful q

omit [Codec κ Msg] [EventHandler η κ Msg] in
theorem Faithful.keeps {q : Queued} (h : el.Faithful q) (hk : el.Keeps el') : el'.Faithful q := by
  intro g hg
  obtain ⟨hq, hi⟩ := h g hg
  refine ⟨hq, fun j hj => ?_⟩
  obtain ⟨i, hi', hij⟩ := hk _ j hj
  rw [hij.gfd, hi i hi']

omit [Codec κ Msg] [EventHandler η κ Msg] in
/-- A command nobody's `close` made. -/
theorem faithful_of_none {q : Queued} (h : q.origin = none) : el.Faithful q := fun g hg => by
  rw [h] at hg
  cases hg

omit [Codec κ Msg] [EventHandler η κ Msg] in
theorem CloseSafe.gfd_slabIndex (h : el.CloseSafe) {k : Nat} {i : Incarnation κ}
    (hi : el.connections.get k = some i) : i.conn.gfd.slabIndex = k := by
  obtain ⟨s, -, hg⟩ := h.sound.gfd hi
  rw [hg, slabIndex_closeKey (h.small hi)]

omit [Codec κ Msg] [EventHandler η κ Msg] in
/-- The request a live connection makes. -/
theorem CloseSafe.faithful_closeRequest (h : el.CloseSafe) {k : Nat} {i : Incarnation κ}
    (hi : el.connections.get k = some i) : el.Faithful (closeRequest i.conn.gfd) := by
  intro g hg
  obtain rfl : i.conn.gfd = g := Option.some.inj hg
  refine ⟨rfl, fun j hj => ?_⟩
  rw [h.gfd_slabIndex hi, hi] at hj
  cases hj
  rfl

theorem Effect.closeSafe (he : Effect serving key el el') (h : el.CloseSafe) : el'.CloseSafe where
  sound := he.sound h.sound
  small {k j} hj := by
    obtain ⟨i, hi, -⟩ := he.same k j hj
    exact h.small hi
  faithful q hq := by
    rcases he.queued hq with hq | ⟨hq, -⟩ | ⟨i, hi, hs⟩
    · exact (h.faithful q hq).keeps he.same
    · exact faithful_of_none hq
    · rcases hs.origin with hq | rfl
      · exact faithful_of_none hq
      · exact (h.faithful_closeRequest hi).keeps he.same

theorem closeSafe_of_effects (h : ReflTransGen AnyEffect el el') (hs : el.CloseSafe) : el'.CloseSafe :=
  invariant_of_steps h (fun _ _ ⟨_, he⟩ => he.closeSafe) hs

omit [Codec κ Msg] [EventHandler η κ Msg] in
/-- Connections, numbers and queues are as before; commands may be gone from the queues. -/
theorem CloseSafe.congr (h : el.CloseSafe) (hc : el'.connections = el.connections) (hm : el.minted ≤ el'.minted)
    (hl : el'.loopId = el.loopId) (hq : ∀ q ∈ el'.handle.queued, q ∈ el.handle.queued) : el'.CloseSafe where
  sound := h.sound.keeps (.of_eq hc) hm hl
  small {k i} hi := by
    rw [hc] at hi
    exact h.small hi
  faithful q hq' := (h.faithful q (hq q hq')).keeps (.of_eq hc)

/-! ## Registering -/

/-- No waiting request names the key the next registration uses, and the key fits into a descriptor. -/
def FreeToRegister (el : EventLoop η κ) : Prop :=
  el.connections.vacantKey < 2 ^ 24 ∧
    ∀ q ∈ el.handle.queued, ∀ g ∈ q.origin, g.slabIndex ≠ el.connections.vacantKey

instance (el : EventLoop η κ) : Decidable el.FreeToRegister := inferInstanceAs (Decidable (_ ∧ _))

theorem CloseSafe.opening (h : el.CloseSafe) (hfree : el.FreeToRegister) (socket : Socket)
    (localAddr peerAddr : NetworkAddress) : (el.opening socket localAddr peerAddr).2.CloseSafe where
  sound := h.sound.keeps (.of_eq rfl) (Nat.le_succ _) rfl
  small hi := h.small hi
  faithful q hq := by
    have hq : q ∈ (el.opening socket localAddr peerAddr).2.handle.queued := hq
    rcases queued_opening hq with hq | hs
    · exact (h.faithful q hq).keeps (.of_eq rfl)
    rcases hs.origin with hq | rfl
    · exact faithful_of_none hq
    · intro g hg
      obtain rfl := Option.some.inj hg
      refine ⟨rfl, fun i hi => ?_⟩
      rw [slabIndex_closeKey hfree.1] at hi
      exact absurd hi (by simp [EventLoop.opening, callback, record, minting, registering])

theorem CloseSafe.admits (h : el.CloseSafe) (hfree : el.FreeToRegister) (socket : Socket)
    (localAddr peerAddr : NetworkAddress) :
    ((el.opening socket localAddr peerAddr).2.enter (el.opening socket localAddr peerAddr).1).CloseSafe where
  sound := h.sound.admits socket localAddr peerAddr
  small {k i} hi := by
    rcases Slab.of_get_insert (s := el.connections) hi with ⟨rfl, -⟩ | hi
    · exact hfree.1
    · exact h.small hi
  faithful q hq g hg := by
    have hq : q ∈ (el.opening socket localAddr peerAddr).2.handle.queued := hq
    rcases queued_opening hq with hq | hs
    · obtain ⟨heq, hi⟩ := h.faithful q hq g hg
      refine ⟨heq, fun i hget => ?_⟩
      rcases Slab.of_get_insert (s := el.connections) hget with ⟨hk, -⟩ | hi'
      · exact absurd hk (hfree.2 q hq g hg)
      · exact hi i hi'
    rcases hs.origin with hq | rfl
    · rw [hq] at hg
      cases hg
    · obtain rfl := Option.some.inj hg
      refine ⟨rfl, fun i hget => ?_⟩
      rcases Slab.of_get_insert (s := el.connections) hget with ⟨-, rfl⟩ | hi'
      · exact opening_gfd el socket localAddr peerAddr
      · rw [slabIndex_closeKey hfree.1, Slab.get_vacantKey] at hi'
        cases hi'

omit [Codec κ Msg] [EventHandler η κ Msg] in
theorem CloseSafe.polled (h : el.CloseSafe) : el.polled.CloseSafe :=
  h.congr rfl (Nat.le_refl _) rfl fun _ => id

theorem register_closeSafe (h : el.CloseSafe) (hfree : el.FreeToRegister) (socket : Socket)
    (localAddr peerAddr : NetworkAddress) : (final (register socket localAddr peerAddr) el).CloseSafe := by
  have hfree' : el.polled.FreeToRegister := hfree
  rcases register_cases socket localAddr peerAddr el with ⟨e, h', -⟩ | ⟨-, h'⟩ | ⟨-, h'⟩ | ⟨-, u, hu, h'⟩
  · rw [final_of_error h']
    exact h.polled
  · rw [final_of_ok h']
    exact h.polled.admits hfree' socket localAddr peerAddr
  · rw [final_of_ok h']
    exact (h.polled.opening hfree' socket localAddr peerAddr).congr rfl (Nat.le_refl _) rfl fun _ => id
  · rw [final_of_error h']
    have hs := closeSafe_of_effects ((shutdown_leads _).ok hu) (h.polled.opening hfree' socket localAddr peerAddr)
    exact hs.congr rfl (Nat.le_refl _) rfl fun _ => id

end EventLoop

/-! ## Runs -/

namespace Machine

open EventLoop Runs

variable {m m' : Machine η κ} {l : Label η}

/-- If the step registers a socket, no waiting request names its key. -/
def Timely (m : Machine η κ) : Label η → Prop
  | .advance => m.registration.isSome → m.el.FreeToRegister
  | _ => True

instance (m : Machine η κ) : (l : Label η) → Decidable (m.Timely l)
  | .advance => inferInstanceAs (Decidable (_ → _))
  | .poll _ | .pollError _ | .tick _ | .trigger _ | .accept _ _ _ | .mint _ | .handler _ | .drop =>
    inferInstanceAs (Decidable True)

/-- The connection whose close request the next action of the loop handles. -/
def closeOrigin (m : Machine η κ) : Option Gfd :=
  match m.phase with
  | .draining (_ + 1) _ => (takeCommand m.el.handle).bind fun (q, _) => q.origin
  | _ => none

theorem closeOrigin_some {g : Gfd} (h : m.closeOrigin = some g) : ∃ left evs q h',
    m.phase = .draining (left + 1) evs ∧ takeCommand m.el.handle = some (q, h') ∧ q.origin = some g := by
  unfold closeOrigin at h
  cases hphase : m.phase with
  | draining left evs =>
    cases left with
    | zero => rw [hphase] at h; cases h
    | succ left =>
      rw [hphase] at h
      obtain ⟨⟨q, h'⟩, hq, ho⟩ := Option.bind_eq_some_iff.mp h
      exact ⟨left, evs, q, h', rfl, hq, ho⟩
  | _ => rw [hphase] at h; cases h

variable [Codec κ Msg] [EventHandler η κ Msg]

theorem Moves.closeSafe (h : Moves m l m') (hcalm : m.Calm) (hs : m.el.CloseSafe) (ht : Timely m l) :
    m'.el.CloseSafe := by
  have hstart : ∀ {task : Task} {el₀ : EventLoop η κ}, Starts m l task el₀ →
      el₀.CloseSafe ∧ (m.el.FreeToRegister → el₀.FreeToRegister) := by
    intro task el₀ hst
    obtain ⟨h', rfl, -, -, hsub⟩ := hst.withHandle
    exact ⟨hs.congr rfl (Nat.le_refl _) rfl hsub, fun hf => ⟨hf.1, fun q' hq' => hf.2 q' (hsub q' hq')⟩⟩
  have htask : ∀ {task : Task} {el₀ : EventLoop η κ}, Starts m l task el₀ → (final task.run el₀).CloseSafe := by
    intro task el₀ hst
    obtain ⟨hs₀, hfree⟩ := hstart hst
    rcases hst.effects hcalm with ⟨s, la, pa, rfl, hreg, rfl⟩ | hl
    · exact register_closeSafe hs₀ (hfree (ht (by simp [hreg]))) s la pa
    · cases hrun : task.run el₀ with
      | ok a t =>
        rw [final_of_ok hrun]
        exact closeSafe_of_effects (hl.ok hrun) hs₀
      | error e t =>
        rw [final_of_error hrun]
        exact closeSafe_of_effects (hl.error hrun) hs₀
  have hneutral : ∀ {el el' : EventLoop η κ}, el.Neutral el' → el.CloseSafe → el'.CloseSafe := fun hn =>
    (show Effect True 0 _ _ from .neutral hn).closeSafe
  cases h with
  | idles hel hphase => exact hneutral hel hs
  | pollFails he => exact hs
  | gets priority cmd _ =>
    refine ⟨hs.sound.keeps (.of_eq rfl) (Nat.le_refl _) rfl, hs.small, fun q hq => ?_⟩
    rcases (m.el.handle.trigger_gets priority ⟨cmd, none⟩).mem_queued.mp hq with hq | hq
    · exact (hs.faithful q hq).keeps (.of_eq rfl)
    · rw [List.mem_singleton.mp hq]
      exact faithful_of_none rfl
  | mints n => exact hs.congr rfl (Nat.le_add_right _ _) rfl fun _ => id
  | drops hphase =>
    rw [dropAll, recordAll_eq]
    exact hs.congr rfl (Nat.le_refl _) rfl fun _ => id
  | works hst h hel hphase =>
    have := htask hst
    rw [final_of_ok h] at this
    exact hneutral hel this
  | ends hst h hel =>
    have := htask hst
    rw [final_of_error h] at this
    exact hneutral hel this

/-- What the request of the connection with descriptor `g` should do: close that connection and no other, or nothing
if it is gone. If the poller does not let the socket go, `run_loop` returns. -/
inductive Honours (g : Gfd) (m m' : Machine η κ) : Prop
  | closes (i b a : Incarnation κ) (action : Action) (hi : m.el.connections.get g.slabIndex = some i)
      (hg : i.conn.gfd = g) (hb : i.Same b)
      (hgone : m'.el.connections.get g.slabIndex = none ∧
          m'.el.trace = m.el.trace ++ [.closes b a action, .drops i.id] ∨
        (∃ e, m'.phase = .exited (.error e)) ∧ m'.el.trace = m.el.trace ++ [.closes b a action])
      (hothers : ∀ k, k ≠ g.slabIndex → m'.el.connections.get k = m.el.connections.get k)
  | gone (hg : ∀ k i, m.el.connections.get k = some i → i.conn.gfd ≠ g)
      (hsame : m'.el.connections = m.el.connections) (htrace : m'.el.trace = m.el.trace)

omit [Codec κ Msg] [EventHandler η κ Msg] in
/-- If something was closed, it was the connection that asked. -/
theorem Honours.own {g : Gfd} (h : Honours g m m') (hne : m'.el.trace ≠ m.el.trace) {i : Incarnation κ}
    (hi : m.el.connections.get g.slabIndex = some i) : i.conn.gfd = g := by
  cases h with
  | closes j b a action hj hg _ _ _ =>
    rw [hi] at hj
    cases hj
    exact hg
  | gone _ _ htrace => exact absurd htrace hne

/-- **A close request is handled as it should if and only if it finds its own connection, or a vacant key.** -/
theorem honours_iff {g : Gfd} (hkeys : ∀ k i, m.el.connections.get k = some i → i.conn.gfd.slabIndex = k)
    (hcmd : m.nextCommand = some (.close g.slabIndex)) (hstep : step m .advance = some m') :
    Honours g m m' ↔ ∀ i, m.el.connections.get g.slabIndex = some i → i.conn.gfd = g := by
  obtain ⟨left, evs, q, h, -, -, rfl⟩ := advance_command hcmd hstep
  show Honours g m (({ m with el := m.el.withHandle h } : Machine η κ).call (closeConnection g.slabIndex true) _) ↔ _
  unfold call
  cases hi : m.el.connections.get g.slabIndex with
  | none =>
    rw [closeConnection_none (show (m.el.withHandle h).connections.get g.slabIndex = none from hi)]
    constructor
    · rintro - i ⟨⟩
    · refine fun _ => .gone (fun k i hk hg => ?_) rfl rfl
      have hkey := hkeys k i hk
      rw [hg] at hkey
      rw [hkey, hk] at hi
      cases hi
  | some i =>
    let el₀ := m.el.withHandle h
    have hb := Incarnation.Same.lastOutput true i
    have hgrows : ∀ t : List (Obs κ), t ≠ [] → m.el.trace ++ t ≠ m.el.trace := fun t ht h => ht (by simpa using h)
    rcases closeConnection_cases (show el₀.connections.get g.slabIndex = some i from hi) true
      with ⟨t, hc, ht⟩ | ⟨e, hc, -⟩
    · have htrace : t.trace = m.el.trace ++ [el₀.closeObs i true, .drops i.id] := by
        rcases ht with rfl | rfl <;> exact gone_trace el₀ g.slabIndex i true
      have hget : ∀ k, t.connections.get k = if k = g.slabIndex then none else m.el.connections.get k := by
        rcases ht with rfl | rfl <;> exact gone_get el₀ g.slabIndex i true
      rw [hc]
      constructor
      · rintro hh j ⟨⟩
        exact hh.own (fun h => hgrows _ (List.cons_ne_nil _ _) (htrace.symm.trans h)) hi
      · exact fun hown => .closes i _ _ _ hi (hown i rfl) hb (Or.inl ⟨(hget _).trans (if_pos rfl), htrace⟩)
          fun k hk => (hget k).trans (if_neg hk)
    · rw [hc]
      constructor
      · rintro hh j ⟨⟩
        exact hh.own (hgrows [el₀.closeObs i true] (List.cons_ne_nil _ _)) hi
      · exact fun hown => .closes i _ _ _ hi (hown i rfl) hb (Or.inr ⟨⟨e, rfl⟩, rfl⟩) fun k hk => Slab.get_set_ne hk

/-- **A close request never hits another connection**, as long as no socket is registered at a key that a waiting
request names, or at one beyond the 24 bits of a descriptor. -/
theorem close_hits_owner {el : EventLoop η κ} (hfresh : el.Fresh) {ls : List (Label η)}
    (hrun : run step (initial el) ls = some m) (htimely : Along step Timely (initial el) ls) {g : Gfd}
    (horigin : m.closeOrigin = some g) (hstep : step m .advance = some m') : Honours g m m' := by
  have h0 : (initial el).Calm ∧ (initial el).el.CloseSafe := by
    refine ⟨initial_calm hfresh, hfresh.sound, fun {k i} hi => ?_, fun q hq => ?_⟩
    · simp [initial, hfresh.connections] at hi
    · simp [initial, EventLoopHandle.queued, hfresh.urgent, hfresh.common] at hq
  have hinv : m.Calm ∧ m.el.CloseSafe := by
    refine run_invariant (P := fun m => m.Calm ∧ m.el.CloseSafe) (fun s l s' hs ht hst => ?_) h0 htimely hrun
    exact ⟨(step_moves hst).calm hs.1, (step_moves hst).closeSafe hs.1 hs.2 ht⟩
  obtain ⟨left, evs, q, h, hphase, hq, ho⟩ := closeOrigin_some horigin
  obtain ⟨rfl, hown⟩ := hinv.2.faithful q (queued_takeCommand hq).1 g ho
  exact (honours_iff (fun k i => hinv.2.gfd_slabIndex) (nextCommand_draining hphase hq) hstep).mpr hown

end Machine

/-! ## Two runs -/

/-- A handler that closes a connection on its first bytes: by a request, or by a request and its action. -/
inductive Quitter
  | asks
  | leaves
  deriving DecidableEq

instance : EventHandler Quitter RawCodec RawMsg where
  onOpen h _ := (⟨[], .none⟩, h)
  onTraffic h _ := (⟨[.close], if h = .asks then .none else .close⟩, h)
  onClose h _ := (⟨[], .none⟩, h)
  onTick h _ := (⟨[], 0, .none⟩, h)

namespace Machine

open EventLoop Runs

/-- A connection asks for its close while the registration of another one waits in the queue before the request; then
the loop comes to the request. -/
def quits : List (Label Quitter) :=
  [.accept ⟨4, [], [.data [1]], [], [], none⟩ (.tcp "a") (.tcp "b"), .advance, .advance, .poll [],
    .advance, .advance, .advance, .tick false, .advance, .poll [⟨0, true, false, false, false⟩],
    .accept ⟨5, [], [], [], [], none⟩ (.tcp "a") (.tcp "c"), .advance, .advance, .tick false, .advance, .poll [],
    .advance]

/-- The descriptor of the first connection. -/
def quitter : Gfd := .new 0 4 0 0

/-- A loop with such a handler. -/
def quitterLoop (h : Quitter) : EventLoop Quitter RawCodec := new 0 ⟨64, 8, false⟩ h [] [] (fun _ => 0) 0

/-- The first connection is still there when its request is handled: the second one got another key. -/
theorem close_hits_owner_quits :
    ∃ m m', run step (initial (quitterLoop .asks)) quits = some m ∧ m.closeOrigin = some quitter ∧
      step m .advance = some m' ∧ Honours quitter m m' := by
  have hrun : (run step (initial (quitterLoop .asks)) quits).any
      (fun m => decide (m.closeOrigin = some quitter) && (step m .advance).isSome) = true := by decide +kernel
  have htimely : Along step Timely (initial (quitterLoop .asks)) quits :=
    .of_check (b := fun m l => decide (Timely m l)) (fun _ _ => of_decide_eq_true) (by decide +kernel)
  obtain ⟨m, hm, hat⟩ := exists_of_any hrun
  rw [Bool.and_eq_true, decide_eq_true_eq, Option.isSome_iff_exists] at hat
  obtain ⟨ho, m', hm'⟩ := hat
  exact ⟨m, m', hm, ho, hm', close_hits_owner (new_fresh _ _ _ _ _ _ _) hm htimely ho hm'⟩

/-- The first connection is gone, the second one got its key, and the request closes it. -/
theorem stale_close_hits_newcomer :
    ∃ m m', run step (initial (quitterLoop .leaves)) quits = some m ∧ m.closeOrigin = some quitter ∧
      step m .advance = some m' ∧ ¬Honours quitter m m' := by
  have hrun : (run step (initial (quitterLoop .leaves)) quits).any
      (fun m => decide (m.closeOrigin = some quitter) &&
        (m.el.connections.get 0).any (fun i => decide (i.conn.gfd ≠ quitter)) &&
        (step m .advance).any fun m' => decide (m.el.trace.length ≠ m'.el.trace.length)) = true := by decide +kernel
  obtain ⟨m, hm, hat⟩ := exists_of_any hrun
  rw [Bool.and_eq_true, Bool.and_eq_true, decide_eq_true_eq] at hat
  obtain ⟨⟨ho, hi⟩, hs⟩ := hat
  obtain ⟨i, hi, hg⟩ := exists_of_any hi
  obtain ⟨m', hm', ht⟩ := exists_of_any hs
  refine ⟨m, m', hm, ho, hm', fun h => of_decide_eq_true hg (h.own (fun heq => ?_) hi)⟩
  exact of_decide_eq_true ht (by rw [heq])

end Machine
end Rnet
