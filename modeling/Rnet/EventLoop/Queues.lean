import Rnet.EventLoop.Identity

/-!
# What gets into the queues

Commands come from other threads, from the loop itself, which asks for reads, writes and shutdowns only, and from
callbacks (`Effect.queued`, `queued_opening`). What a callback sends, it sends on behalf of the connection it is
called on (`Sends`), so a request for a close names that connection. Only the main loop takes commands out
(`Moves.waiting`).
-/

namespace Rnet

open Programs Relation

variable {η κ Msg : Type}

namespace EventLoop

variable [Codec κ Msg] [EventHandler η κ Msg] {el el' : EventLoop η κ} {key : Nat} {serving : Prop}

omit [EventHandler η κ Msg] in
theorem queued_callback {i : Incarnation κ} {r : Reaction κ Msg × η}
    {obs : Incarnation κ → Incarnation κ → Action → Obs κ} {q : Queued}
    (hq : q ∈ (el.callback i r obs).2.handle.queued) :
    q ∈ el.handle.queued ∨ ∃ op ∈ r.1.ops, ∃ c : Connection κ, c.gfd = i.conn.gfd ∧
      q ∈ op.commands el.handle.idx c := by
  obtain ⟨qs, hg, hqs⟩ := Op.applyAll_gets r.1.ops i el.handle
  exact (hg.mem_queued.mp hq).imp_right (hqs q)

/-- A callback on the connection with descriptor `g` put the command into the queue. -/
def Sends (η : Type) {κ Msg : Type} [EventHandler η κ Msg] (idx : Nat) (g : Gfd) (q : Queued) : Prop :=
  ∃ op : Op κ Msg, Performs η op ∧ ∃ c : Connection κ, c.gfd = g ∧ q ∈ op.commands idx c

omit [Codec κ Msg] in
theorem Sends.origin {idx : Nat} {g : Gfd} {q : Queued} (h : Sends η idx g q) :
    q.origin = none ∨ q = closeRequest g := by
  obtain ⟨op, -, c, rfl, hq⟩ := h
  exact Op.commands_origin hq

theorem queued_hears {i : Incarnation κ} {s : Socket} {bs : Bytes} {q : Queued}
    (hq : q ∈ (el.hears key i s bs).2.handle.queued) :
    q ∈ el.handle.queued ∨ Sends η el.handle.idx i.conn.gfd q := by
  let j : Incarnation κ := { i with conn := { i.conn with socket := some s }.receive bs }
  have hq' : q ∈ ((el.setIncarnation key j).callback j (EventHandler.onTraffic el.handler j.conn)
    .traffic).2.handle.queued := hq
  exact (queued_callback hq').imp_right fun ⟨op, hop, c, hc, hq⟩ => ⟨op, .onTraffic hop, c, hc, hq⟩

theorem queued_closing {i : Incarnation κ} {graceful : Bool} {q : Queued}
    (hq : q ∈ (el.closing i graceful).2.handle.queued) :
    q ∈ el.handle.queued ∨ Sends η el.handle.idx i.conn.gfd q := by
  rw [← (Incarnation.Same.lastOutput graceful i).gfd]
  exact (queued_callback hq).imp_right fun ⟨op, hop, c, hc, hq⟩ => ⟨op, .onClose hop, c, hc, hq⟩

/-- `on_open` speaks for the connection it is called on. -/
theorem queued_opening {socket : Socket} {localAddr peerAddr : NetworkAddress} {q : Queued}
    (hq : q ∈ (el.opening socket localAddr peerAddr).2.handle.queued) :
    q ∈ el.handle.queued ∨ Sends η el.handle.idx
      (.new el.minted socket.fd el.loopId el.connections.vacantKey) q := by
  rw [← incarnation_gfd el socket localAddr peerAddr]
  have hq' : q ∈ (el.minting.callback (el.incarnation socket localAddr peerAddr)
    (EventHandler.onOpen el.handler (el.incarnation socket localAddr peerAddr).conn) .opens).2.handle.queued := hq
  exact (queued_callback hq').imp_right fun ⟨op, hop, c, hc, hq⟩ => ⟨op, .onOpen hop, c, hc, hq⟩

/-- **What an effect puts into the queues** comes from the loop itself or from a callback on the connection it is on. -/
theorem Effect.queued (h : Effect serving key el el') {q : Queued} (hq : q ∈ el'.handle.queued) :
    q ∈ el.handle.queued ∨ (q.origin = none ∧ q.cmd.addressee = none) ∨
      ∃ i, el.connections.get key = some i ∧ Sends η el.handle.idx i.conn.gfd q := by
  cases h with
  | neutral h =>
    left
    rwa [EventLoopHandle.queued, h.urgent, h.common] at hq
  | push priority cmd hcmd =>
    rcases (el.handle.trigger_gets priority ⟨cmd, none⟩).mem_queued.mp hq with hq | hq
    · exact Or.inl hq
    · rw [List.mem_singleton.mp hq]
      exact Or.inr (Or.inl ⟨rfl, hcmd⟩)
  | serves i c hi hc _ => exact Or.inl hq
  | readsNothing i s a n hi hs ha => exact Or.inl hq
  | traffic i s a n s' bs hi hs ha hne hset hact =>
    have hq : q ∈ (el.hears key i s' bs).2.handle.queued := hq
    exact (queued_hears hq).imp_right fun h => Or.inr ⟨i, hi, h⟩
  | lastTraffic i s a n s' bs hi hs ha hne hset hact =>
    have hq : q ∈ (el.hears key i s' bs).2.handle.queued := hq
    exact (queued_hears hq).imp_right fun h => Or.inr ⟨i, hi, h⟩
  | closes i graceful hi _ =>
    have hq : q ∈ (el.closing i graceful).2.handle.queued := hq
    exact (queued_closing hq).imp_right fun h => Or.inr ⟨i, hi, h⟩
  | failsToClose i graceful e hi he _ =>
    have hq : q ∈ (el.closing i graceful).2.handle.queued := hq
    exact (queued_closing hq).imp_right fun h => Or.inr ⟨i, hi, h⟩
  | ticks op hd conns hop _ =>
    unfold tickOp at hq
    cases hi : el.connections.get key with
    | none =>
      rw [hi] at hq
      exact Or.inl hq
    | some i =>
      rw [hi] at hq
      obtain ⟨qs, hg, hqs⟩ := Op.applyAll_gets [op] i el.handle
      refine (hg.mem_queued.mp hq).imp_right fun hq => Or.inr ⟨i, rfl, ?_⟩
      obtain ⟨op', hop', c, hc, hq⟩ := hqs q hq
      rw [List.mem_singleton.mp hop'] at hq
      exact ⟨op, .onTick hop, c, hc, hq⟩
  | recordsTick before after action _ => exact Or.inl hq

/-! ## The handle -/

/-- The handle stays that of the loop, and the wakes of the system are used up in order. -/
structure SameHandle (h h' : EventLoopHandle) : Prop where
  idx : h'.idx = h.idx
  wakes : h'.wakes <:+ h.wakes

/-- Nothing is taken out of the queues. -/
structure GrownHandle (h h' : EventLoopHandle) : Prop extends SameHandle h h' where
  queued : ∀ q ∈ h.queued, q ∈ h'.queued

omit [Codec κ Msg] [EventHandler η κ Msg] in
theorem SameHandle.refl (h : EventLoopHandle) : SameHandle h h := ⟨rfl, List.suffix_refl _⟩

omit [Codec κ Msg] [EventHandler η κ Msg] in
theorem SameHandle.trans {h h' h'' : EventLoopHandle} (h₁ : SameHandle h h') (h₂ : SameHandle h' h'') :
    SameHandle h h'' := ⟨h₂.idx.trans h₁.idx, h₂.wakes.trans h₁.wakes⟩

omit [Codec κ Msg] [EventHandler η κ Msg] in
theorem GrownHandle.refl (h : EventLoopHandle) : GrownHandle h h := ⟨.refl h, fun _ => id⟩

omit [Codec κ Msg] [EventHandler η κ Msg] in
theorem grown_of_gets {h h' : EventLoopHandle} {qs : List Queued} (hg : h.Gets qs h') : GrownHandle h h' :=
  ⟨⟨hg.idx, hg.wakes⟩, fun _ hq => hg.mem_queued.mpr (Or.inl hq)⟩

omit [EventHandler η κ Msg] in
theorem grown_callback (el : EventLoop η κ) (i : Incarnation κ) (r : Reaction κ Msg × η)
    (obs : Incarnation κ → Incarnation κ → Action → Obs κ) : GrownHandle el.handle (el.callback i r obs).2.handle := by
  obtain ⟨qs, hg, -⟩ := Op.applyAll_gets r.1.ops i el.handle
  exact grown_of_gets hg

theorem Effect.grown (h : Effect serving key el el') : GrownHandle el.handle el'.handle := by
  cases h with
  | neutral h => exact ⟨⟨h.idx, h.wakes⟩, fun q hq => by rwa [EventLoopHandle.queued, h.urgent, h.common]⟩
  | push priority cmd _ => exact grown_of_gets (el.handle.trigger_gets priority ⟨cmd, none⟩)
  | serves _ _ _ _ _ | readsNothing _ _ _ _ _ _ _ | recordsTick _ _ _ _ => exact .refl _
  | traffic i s a n s' bs => exact grown_callback (el.setIncarnation key _) _ _ .traffic
  | lastTraffic i s a n s' bs => exact grown_callback (el.setIncarnation key _) _ _ .traffic
  | closes i graceful hi _ =>
    have hc : GrownHandle el.handle (el.closing i graceful).2.handle := grown_callback el _ _ .closes
    exact ⟨⟨hc.idx, hc.wakes⟩, hc.queued⟩
  | failsToClose i graceful e hi he _ => exact grown_callback el _ _ .closes
  | ticks op hd conns hop _ =>
    unfold tickOp
    cases hi : el.connections.get key with
    | none => exact .refl _
    | some i => exact grown_of_gets (EventLoopHandle.triggerAll_gets (op.commands el.handle.idx i.conn) el.handle)

theorem Registers.grown (h : Registers el el') : GrownHandle el.handle el'.handle := by
  cases h with
  | admits socket localAddr peerAddr hact =>
    have hc : GrownHandle el.handle (el.opening socket localAddr peerAddr).2.handle :=
      grown_callback el.minting _ _ .opens
    exact ⟨⟨hc.idx, hc.wakes⟩, hc.queued⟩
  | refuses socket localAddr peerAddr hact => exact grown_callback el.minting _ _ .opens
  | dropsRefused before after action hobs hact => exact .refl _

/-- **Only the main loop takes commands out of the queues.** -/
theorem Change.grown (h : Change el el') : GrownHandle el.handle el'.handle :=
  h.elim (fun ⟨_, he⟩ => he.grown) Registers.grown

theorem queued_of_changes (h : ReflTransGen Change el el') {q : Queued} (hq : q ∈ el.handle.queued) :
    q ∈ el'.handle.queued :=
  invariant_of_steps (P := fun t => q ∈ t.handle.queued) h (fun _ _ hc => hc.grown.queued q) hq

theorem Evolves.sameHandle (h : Evolves el el') : SameHandle el.handle el'.handle := by
  cases h with
  | change h => exact h.grown.toSameHandle
  | takes hq =>
    obtain ⟨hidx, hwakes, -, -, -⟩ := Machine.takeCommand_some hq
    exact ⟨hidx, hwakes ▸ List.suffix_refl _⟩
  | gets priority cmd => exact (grown_of_gets (el.handle.trigger_gets priority ⟨cmd, none⟩)).toSameHandle
  | mints n => exact .refl _
  | drops hi => exact .refl _

theorem sameHandle_of_evolves (h : ReflTransGen Evolves el el') : SameHandle el.handle el'.handle :=
  invariant_of_steps (P := fun t => SameHandle el.handle t.handle) h (fun _ _ he ht => ht.trans he.sameHandle) (.refl _)

end EventLoop

namespace Machine

open EventLoop

variable {m m' : Machine η κ} {l : Label η} {q : Queued}

/-- A command that waits is what the task handles, or it goes on waiting. -/
theorem Starts.waiting {task : Task} {el₀ : EventLoop η κ} (hs : Starts m l task el₀) (hq : q ∈ m.el.handle.queued)
    (hcmd : ∀ s la pa, q.cmd ≠ .register s la pa) : task = .command q.cmd ∨ q ∈ el₀.handle.queued := by
  cases hs with
  | @command left evs q₀ h hphase hq₀ _ => exact (takeCommand_leaves hq₀ hq).imp_left fun heq => by rw [← heq]
  | @ordered left evs socket localAddr peerAddr q₀ h hphase hreg hq₀ =>
    refine Or.inr ((takeCommand_leaves hq₀ hq).resolve_left fun heq => ?_)
    subst heq
    obtain ⟨cmd, origin⟩ := q
    simp only [registration, hphase, hq₀] at hreg
    cases cmd <;> cases hreg
    exact hcmd _ _ _ rfl
  | io _ _ _ | accepted _ _ | first _ _ | tick _ _ => exact Or.inr hq

variable [Codec κ Msg] [EventHandler η κ Msg]

/-- **As long as the loop runs**, a command that waits is handled in the step or goes on waiting. -/
theorem Moves.waiting (h : Moves m l m') (hcalm : m.Calm) (hq : q ∈ m.el.handle.queued)
    (hcmd : ∀ s la pa, q.cmd ≠ .register s la pa) (hlive : m'.phase.Live) : q ∈ m'.el.handle.queued ∨
      ∃ el₀ t, Starts m l (.command q.cmd) el₀ ∧ handleCommand q.cmd el₀ = .ok ⟨⟩ t ∧ t.Neutral m'.el := by
  have hneutral : ∀ {el el' : EventLoop η κ}, el.Neutral el' → q ∈ el.handle.queued → q ∈ el'.handle.queued :=
    fun hn => hn.change.grown.queued q
  cases h with
  | idles hel hphase => exact Or.inl (hneutral hel hq)
  | pollFails _ | drops _ | ends _ _ _ _ _ => exact hlive.elim
  | gets priority cmd _ =>
    exact Or.inl ((grown_of_gets (m.el.handle.trigger_gets priority ⟨cmd, none⟩)).queued q hq)
  | mints n => exact Or.inl hq
  | works hs hrun hel _ =>
    rcases hs.waiting hq hcmd with rfl | hq
    · exact Or.inr ⟨_, _, hs, hrun, hel⟩
    · exact Or.inl (hneutral hel (queued_of_changes ((Task.changes _ (hs.settled hcalm)).ok hrun) hq))

end Machine
end Rnet
