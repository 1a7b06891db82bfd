import Rnet.EventLoop.Consistency
import Rnet.EventLoop.Input

/-!
# What a loop keeps for its connections

The slab of a loop never gives a slot back, and a `Connection` object that is done with goes to the pool. Both are used
again before a new one is made: a slab gets a slot more only when all are occupied (`Slab.length_entries_insert`), and
`register` makes an object only when the pool is empty. So a loop has as many slots as it ever had connections at once,
and no more objects (`footprint`), however many connections have come and gone. In particular a loop that never has more
than `2^24` connections at once never uses a key that does not fit into a descriptor (`small_keys_of_peak`).
-/

namespace Rnet

open Programs Relation

variable {η κ Msg : Type}

namespace EventLoop

/-- The number of connections in the slab. -/
def live (el : EventLoop η κ) : Nat := el.connections.keys.length

/-- The slots of the slab. -/
def slots (el : EventLoop η κ) : Nat := el.connections.entries.length

/-- The `Connection` objects of the loop, in the slab and in the pool. -/
def objects (el : EventLoop η κ) : Nat := el.live + el.connectionPool.length

/-- No slot is added and no object is made. -/
structure Thrifty (el t : EventLoop η κ) : Prop where
  slots : t.slots = el.slots
  objects : t.objects ≤ el.objects

/-- Slots and objects are added at most up to the number of connections there are afterwards. -/
structure Frugal (el t : EventLoop η κ) : Prop where
  slots_le : t.slots ≤ max el.slots t.live
  le_slots : el.slots ≤ t.slots
  objects : t.objects ≤ max el.objects t.live

variable {el el' t u : EventLoop η κ} {key : Nat} {serving : Prop}

theorem Thrifty.refl (el : EventLoop η κ) : Thrifty el el := ⟨rfl, Nat.le_refl _⟩

theorem Thrifty.trans (h : Thrifty el t) (h' : Thrifty t u) : Thrifty el u :=
  ⟨h'.slots.trans h.slots, h'.objects.trans h.objects⟩

theorem Thrifty.frugal (h : Thrifty el t) : Frugal el t where
  slots_le := h.slots ▸ Nat.le_max_left _ _
  le_slots := Nat.le_of_eq h.slots.symm
  objects := h.objects.trans (Nat.le_max_left _ _)

theorem Thrifty.of_eq (hc : t.connections = el.connections) (hp : t.connectionPool = el.connectionPool) :
    Thrifty el t where
  slots := by rw [EventLoop.slots, hc, EventLoop.slots]
  objects := by rw [EventLoop.objects, EventLoop.live, hc, hp, EventLoop.objects, EventLoop.live]

theorem Frugal.of_eq (hc : t.connections = el.connections) (hp : t.connectionPool = el.connectionPool) :
    Frugal el t := (Thrifty.of_eq hc hp).frugal

theorem Thrifty.then_frugal (h : Thrifty el t) (h' : Frugal t u) : Frugal el u where
  slots_le := h.slots ▸ h'.slots_le
  le_slots := h.slots ▸ h'.le_slots
  objects := by
    have h₁ := h.objects
    have h₂ := h'.objects
    omega

theorem Frugal.congr (h : Frugal el t) (hc : u.connections = t.connections)
    (hp : u.connectionPool = t.connectionPool) : Frugal el u := by
  have hlive : u.live = t.live := by rw [live, hc, live]
  have hu := Thrifty.of_eq hc hp
  refine ⟨?_, ?_, ?_⟩
  · rw [hu.slots, hlive]
    exact h.slots_le
  · rw [hu.slots]
    exact h.le_slots
  · rw [hlive]
    exact hu.objects.trans h.objects

theorem thrifty_setIncarnation (el : EventLoop η κ) (key : Nat) (i : Incarnation κ) :
    Thrifty el (el.setIncarnation key i) where
  slots := Slab.length_entries_set _ _ _
  objects := Nat.le_of_eq (congrArg (· + el.connectionPool.length) (Slab.length_keys_set _ _ _))

variable [Codec κ Msg] [EventHandler η κ Msg]

theorem thrifty_closed (el : EventLoop η κ) (key : Nat) (i : Incarnation κ) (graceful : Bool) :
    Thrifty el (el.closed key i graceful) := by
  have hclosing : Thrifty el (el.closing i graceful).2 := .of_eq rfl rfl
  exact hclosing.trans (thrifty_setIncarnation _ _ _)

/-- **An effect** adds no slot and makes no object: what leaves the slab goes to the pool. -/
theorem Effect.thrifty (h : Effect serving key el el') : Thrifty el el' := by
  cases h with
  | neutral h => exact .of_eq h.connections h.connectionPool
  | push priority cmd _ => exact .of_eq rfl rfl
  | serves i c hi hc _ => exact thrifty_setIncarnation _ _ _
  | readsNothing i s a n hi hs ha => exact thrifty_setIncarnation _ _ _
  | traffic i s a n s' bs hi hs ha hne hset hact =>
    have hheard : Thrifty el (el.hears key i s' bs).2 := (thrifty_setIncarnation el key _).trans (.of_eq rfl rfl)
    exact ((hheard.trans (thrifty_setIncarnation _ _ _)).trans (thrifty_setIncarnation _ _ _)).trans (.of_eq rfl rfl)
  | lastTraffic i s a n s' bs hi hs ha hne hset hact =>
    have hheard : Thrifty el (el.hears key i s' bs).2 := (thrifty_setIncarnation el key _).trans (.of_eq rfl rfl)
    exact hheard.trans (thrifty_setIncarnation _ _ _)
  | closes i graceful hi _ =>
    have hi' : (el.closed key i graceful).connections.get key = some (el.closing i graceful).1 :=
      get_setIncarnation_self (show (el.closing i graceful).2.connections.get key = some i from hi) _
    have hlen := Slab.length_keys_remove hi'
    refine (thrifty_closed el key i graceful).trans ⟨Slab.length_entries_remove _ _, ?_⟩
    show ((el.closed key i graceful).connections.remove key).keys.length +
      ((el.closed key i graceful).connectionPool.length + 1) ≤ _
    unfold objects live
    omega
  | failsToClose i graceful e hi he _ => exact thrifty_closed el key i graceful
  | ticks op hd conns hop _ =>
    unfold tickOp
    cases hi : el.connections.get key with
    | none => exact .refl el
    | some i =>
      have hops : Thrifty el (el.withHandle (op.apply i el.handle).2) := .of_eq rfl rfl
      exact hops.trans (thrifty_setIncarnation _ _ _)
  | recordsTick before after action _ => exact .of_eq rfl rfl

theorem thrifty_of_effects (h : ReflTransGen AnyEffect el t) : Thrifty el t :=
  invariant_of_steps (P := fun t => Thrifty el t) h (fun _ _ ⟨_, he⟩ ht => ht.trans he.thrifty) (.refl el)

/-- A socket whose `on_open` has been called is still outside the slab; its object may have come from the pool. -/
theorem thrifty_opening (el : EventLoop η κ) (socket : Socket) (localAddr peerAddr : NetworkAddress) :
    Thrifty el (el.opening socket localAddr peerAddr).2 where
  slots := rfl
  objects := by
    show el.live + el.connectionPool.tail.length ≤ el.live + el.connectionPool.length
    rw [List.length_tail]
    omega

/-- **Admitting a connection** takes a vacant slot and a pooled object where there is one. -/
theorem frugal_enter (el : EventLoop η κ) (socket : Socket) (localAddr peerAddr : NetworkAddress) :
    Frugal el ((el.opening socket localAddr peerAddr).2.enter (el.opening socket localAddr peerAddr).1) := by
  have hentries := Slab.length_entries_insert el.connections (el.opening socket localAddr peerAddr).1
  have hkeys := Slab.length_keys_insert el.connections (el.opening socket localAddr peerAddr).1
  refine ⟨Nat.le_of_eq hentries, ?_, ?_⟩
  · show el.connections.entries.length ≤ (el.connections.insert _).entries.length
    omega
  · show (el.connections.insert _).keys.length + el.connectionPool.tail.length ≤
      max (el.connections.keys.length + el.connectionPool.length) (el.connections.insert _).keys.length
    rw [List.length_tail]
    omega

theorem register_frugal {socket : Socket} {localAddr peerAddr : NetworkAddress} :
    (∀ u, register socket localAddr peerAddr el = .ok ⟨⟩ u → Frugal el u) ∧
      ∀ e u, register socket localAddr peerAddr el = .error e u → Thrifty el u := by
  have hpolled : Thrifty el el.polled := .of_eq rfl rfl
  have hopened := hpolled.trans (thrifty_opening el.polled socket localAddr peerAddr)
  constructor
  · intro u hu
    rcases register_cases socket localAddr peerAddr el with ⟨e, h, -⟩ | ⟨-, h⟩ | ⟨-, h⟩ | ⟨-, t, ht, h⟩ <;>
      rw [h] at hu <;> cases hu
    · exact hpolled.then_frugal (frugal_enter _ _ _ _)
    · exact hopened.frugal.congr rfl rfl
  · intro e u hu
    rcases register_cases socket localAddr peerAddr el with ⟨e', h, -⟩ | ⟨-, h⟩ | ⟨-, h⟩ | ⟨-, t, ht, h⟩ <;>
      rw [h] at hu <;> cases hu
    · exact hpolled
    · have hshut := hopened.trans (thrifty_of_effects ((shutdown_leads _).ok ht))
      exact ⟨hshut.slots, hshut.objects⟩

end EventLoop

namespace Machine

open EventLoop Runs

variable [Codec κ Msg] [EventHandler η κ Msg] {m m' : Machine η κ} {l : Label η}

/-- **A step is frugal.** -/
theorem Moves.frugal (h : Moves m l m') (hcalm : m.Calm) : Frugal m.el m'.el := by
  have hstart : ∀ {task : Task} {el₀ : EventLoop η κ}, Starts m l task el₀ → Thrifty m.el el₀ := by
    intro task el₀ hs
    obtain ⟨h', rfl, -⟩ := hs.withHandle
    exact .of_eq rfl rfl
  cases h with
  | idles hel hphase => exact .of_eq hel.connections hel.connectionPool
  | pollFails he => exact .of_eq rfl rfl
  | gets priority cmd _ => exact .of_eq rfl rfl
  | mints n => exact .of_eq rfl rfl
  | drops hphase =>
    unfold dropAll
    rw [recordAll_eq]
    exact .of_eq rfl rfl
  | works hs h hel hphase =>
    refine Frugal.congr ?_ hel.connections hel.connectionPool
    rcases hs.effects hcalm with ⟨s, la, pa, rfl, -, -⟩ | hleads
    · exact (hstart hs).then_frugal (register_frugal.1 _ h)
    · exact ((hstart hs).trans (thrifty_of_effects (hleads.ok h))).frugal
  | ends hs h hel =>
    refine Frugal.congr ?_ hel.connections hel.connectionPool
    rcases hs.effects hcalm with ⟨s, la, pa, rfl, -, -⟩ | hleads
    · exact ((hstart hs).trans (register_frugal.2 _ _ h)).frugal
    · exact ((hstart hs).trans (thrifty_of_effects (hleads.error h))).frugal

/-- The largest number of connections the loop had at once. -/
def peak (el : EventLoop η κ) (ls : List (Label η)) : Nat := Runs.peak step (fun m => m.el.live) (initial el) ls

/-- No slot and no object is made while there is one to reuse. -/
theorem kept_of_run {el : EventLoop η κ} (hfresh : el.Fresh) {ls : List (Label η)} {m : Machine η κ}
    (hrun : run step (initial el) ls = some m) :
    m.el.slots ≤ peak el ls ∧ peak el ls ≤ m.el.slots ∧ m.el.objects ≤ peak el ls := by
  have h0 : el.slots = 0 ∧ el.objects = 0 := by
    simp [EventLoop.slots, EventLoop.objects, EventLoop.live, hfresh.connections, hfresh.pool, Slab.empty, Slab.keys]
  have hstep : ∀ (s : Machine η κ) l s', s.Calm → step s l = some s' → s'.Calm ∧ Frugal s.el s'.el :=
    fun s l s' hs h => ⟨(step_moves h).calm hs, (step_moves h).frugal hs⟩
  have hslots : m.el.slots ≤ max (initial el).el.slots (peak el ls) := le_peak_of_steps (P := Calm)
    (fun s l s' hs h => ⟨(hstep s l s' hs h).1, (hstep s l s' hs h).2.slots_le⟩) (initial_calm hfresh) hrun
  have hobjects : m.el.objects ≤ max (initial el).el.objects (peak el ls) := le_peak_of_steps (P := Calm)
    (fun s l s' hs h => ⟨(hstep s l s' hs h).1, (hstep s l s' hs h).2.objects⟩) (initial_calm hfresh) hrun
  have hpeak : peak el ls ≤ m.el.slots := (peak_le_of_steps (P := Calm) (f := fun m => m.el.slots)
    (fun s l s' hs h => ⟨(hstep s l s' hs h).1, (hstep s l s' hs h).2.le_slots⟩)
    (fun s _ => s.el.connections.length_keys_le_entries) (initial_calm hfresh) hrun).1
  simp only [initial, h0.1, h0.2, Nat.zero_max] at hslots hobjects
  exact ⟨hslots, hpeak, hobjects⟩

theorem lt_slots {el : EventLoop η κ} {k : Nat} {i : Incarnation κ} (hi : el.connections.get k = some i) :
    k < el.slots :=
  (List.getElem?_eq_some_iff.mp (Slab.get_eq_some.mp hi)).1

/-- **A loop keeps no more than it needed at once.** After every run the slab has exactly as many slots as there were
connections at once, and the objects in the slab and in the pool together are no more. -/
theorem footprint {el : EventLoop η κ} (hfresh : el.Fresh) {ls : List (Label η)} {m : Machine η κ}
    (hrun : run step (initial el) ls = some m) :
    m.el.slots = peak el ls ∧ m.el.objects ≤ peak el ls ∧ ∀ k i, m.el.connections.get k = some i → k < peak el ls := by
  obtain ⟨hslots, hpeak, hobjects⟩ := kept_of_run hfresh hrun
  exact ⟨Nat.le_antisymm hslots hpeak, hobjects, fun k i hi => Nat.lt_of_lt_of_le (lt_slots hi) hslots⟩

/-- Two connections one after the other: one slot, and one object. -/
theorem footprint_sips :
    ∃ m, run step (initial (new 0 ⟨64, 8, false⟩ Sipper.mk [] [] (fun _ => 0) 0)) sips = some m ∧
      m.el.slots = 1 ∧ m.el.objects ≤ 1 ∧ ∀ k i, m.el.connections.get k = some i → k < 1 := by
  have hpeak : peak (new 0 ⟨64, 8, false⟩ Sipper.mk [] [] (fun _ => 0) 0) sips = 1 := by decide +kernel
  have hsome : (run step (initial (new 0 ⟨64, 8, false⟩ Sipper.mk [] [] (fun _ => 0) 0)) sips).isSome = true := by
    decide +kernel
  obtain ⟨m, hm⟩ := Option.isSome_iff_exists.mp hsome
  have h := footprint (new_fresh _ _ _ _ _ _ _) hm
  rw [hpeak] at h
  exact ⟨m, hm, h⟩

/-- A loop with at most `2^24` connections at once has small keys only. -/
theorem small_keys_of_peak {el : EventLoop η κ} (hfresh : el.Fresh) {ls : List (Label η)} {m : Machine η κ}
    (hrun : run step (initial el) ls = some m) (hpeak : peak el ls ≤ 2 ^ 24) : m.el.SmallKeys := fun _ _ hi =>
  Nat.lt_of_lt_of_le (lt_slots hi) ((kept_of_run hfresh hrun).1.trans hpeak)

end Machine
end Rnet
