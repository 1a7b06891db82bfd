import Rnet.Engine.System

/-!
# Descriptors route back

`send_command` finds the loop by the upper eight bits of the descriptor, and the loop finds the connection by the
lower 24. The loop at position `i` calls itself `i as u8`, so a descriptor leads back to the loop that issued it if
and only if `i < 256` (`gfds_route_back`); the loop at position 256 issues the descriptors of loop 0
(`gfd_routes_astray`).
-/

namespace Rnet

open Programs Relation Runs

variable {η κ Msg : Type}

namespace Engine

open EventLoop

section

variable [Codec κ Msg] [EventHandler η κ Msg]

/-- `send_command(g, c)` puts `c` into the queues of the loop at position `i`, and touches nothing else. -/
def EnqueuesAt (s : Engine η κ) (i : Nat) (g : Gfd) : Prop :=
  ∀ cmd, ∃ s', step s (.sendCommand g cmd) = some s' ∧ s'.minted = s.minted ∧
    (∀ p, p ≠ i → s'.eventloops[p]? = s.eventloops[p]?) ∧
    ∃ m h, s.eventloops[i]? = some m ∧ s'.eventloops[i]? = some { m with el := m.el.withHandle h } ∧
      m.el.handle.Gets [⟨cmd, none⟩] h

/-- The descriptor leads to the loop at position `i` and to the slab key `k`. -/
structure RoutesBack (s : Engine η κ) (i k : Nat) (g : Gfd) : Prop where
  /-- `eventloops[g.event_loop_index()]` is the handle of that loop -/
  eventLoopIndex : g.eventLoopIndex = i
  slabIndex : g.slabIndex = k
  sends : s.EnqueuesAt i g

variable {s : Engine η κ} {els : List (EventLoop η κ)} {ls : List (EngineLabel η)} {minted : Nat}

/-- A command goes to the loop that the descriptor names. -/
theorem sendCommand_enqueues {g : Gfd} {m : Machine η κ} (hm : s.eventloops[g.eventLoopIndex]? = some m) :
    s.EnqueuesAt g.eventLoopIndex g := by
  intro cmd
  refine ⟨_, rfl, rfl, fun p hp => ?_, m, (m.el.handle.trigger cmd.priority ⟨cmd, none⟩).2, hm, ?_,
    m.el.handle.trigger_gets cmd.priority ⟨cmd, none⟩⟩
  · exact List.getElem?_modify_ne _ _ (Ne.symm hp)
  · rw [List.getElem?_modify_eq, hm]
    rfl

/-- The descriptor of a live connection, packed and unpacked. -/
theorem gfd_unpacked (hstarted : Started els) (hrun : run step (initial minted els) ls = some s) {i k : Nat}
    {m : Machine η κ} (hm : s.eventloops[i]? = some m) {c : Incarnation κ} (hc : m.el.connections.get k = some c) :
    c.conn.gfd.eventLoopIndex = i % 256 ∧ c.conn.gfd.slabIndex = k % 2 ^ 24 := by
  obtain ⟨-, hnum, hloop, -⟩ := (((run_sound hstarted hrun).runs i m hm)).facts hstarted
  obtain ⟨sock, -, hg⟩ := hnum.sound.gfd hc
  rw [hg, hloop, Gfd.eventLoopIndex_new, Gfd.slabIndex_new, UInt8.toNat_ofNat']
  exact ⟨rfl, rfl⟩

/-- **Descriptors route back to their owner**, if the position of its loop fits in eight bits, and only then. -/
theorem gfds_route_back (hstarted : Started els) (hrun : run step (initial minted els) ls = some s) {i k : Nat}
    {m : Machine η κ} (hm : s.eventloops[i]? = some m) {c : Incarnation κ} (hc : m.el.connections.get k = some c)
    (hk : k < 2 ^ 24) : s.RoutesBack i k c.conn.gfd ↔ i < 256 := by
  obtain ⟨hloop, hslab⟩ := gfd_unpacked hstarted hrun hm hc
  constructor
  · intro h
    have := h.eventLoopIndex
    omega
  · intro hi
    have hloop : c.conn.gfd.eventLoopIndex = i := by omega
    refine ⟨hloop, by omega, ?_⟩
    have h := sendCommand_enqueues (s := s) (g := c.conn.gfd) (m := m) (by rw [hloop, hm])
    rwa [hloop] at h

end

end Engine

/-! ## Two engines -/

/-- A handler that lets everybody in and does nothing else. -/
structure Bystander where

instance : EventHandler Bystander RawCodec RawMsg where
  onOpen h _ := (⟨[], .none⟩, h)
  onTraffic h _ := (⟨[], .none⟩, h)
  onClose h _ := (⟨[], .none⟩, h)
  onTick h _ := (⟨[], 0, .none⟩, h)

namespace Engine

open EventLoop

/-- What `Engine::run` makes for so many cores. -/
def crew (n : Nat) : List (EventLoop Bystander RawCodec) :=
  (List.range n).map fun i => .new (UInt8.ofNat i) ⟨64, 8, false⟩ ⟨⟩ [] [] (fun _ => 0) 0

theorem crew_started (n : Nat) : Started (crew n) := by
  intro i el hel
  rw [crew, List.getElem?_map] at hel
  obtain ⟨j, hj, rfl⟩ := Option.map_eq_some_iff.mp hel
  obtain ⟨-, rfl⟩ := List.getElem?_eq_some_iff.mp hj
  rw [List.getElem_range]
  exact new_startedAt i _ _ _ _ _ _

/-- The acceptor gives the loop at position `p` a socket, and the loop registers it. -/
def arrival (p : Nat) (socket : Socket) : List (EngineLabel Bystander) :=
  [.loop p (.accept socket (.tcp "a") (.tcp "b")), .loop p .advance, .loop p .advance, .loop p (.poll []),
    .loop p .advance]

/-- The second of two loops has a connection. -/
theorem gfds_route_back_crew : ∃ s m c, run step (initial 0 (crew 2)) (arrival 1 ⟨7, [], [], [], [], none⟩) = some s ∧
    s.eventloops[1]? = some m ∧ m.el.connections.get 0 = some c ∧ s.RoutesBack 1 0 c.conn.gfd := by
  have hrun : (run step (initial 0 (crew 2)) (arrival 1 ⟨7, [], [], [], [], none⟩)).any
      (fun s => s.eventloops[1]?.any fun m => (m.el.connections.get 0).isSome) = true := by decide +kernel
  obtain ⟨s, hs, hm⟩ := exists_of_any hrun
  obtain ⟨m, hm, hc⟩ := exists_of_any hm
  obtain ⟨c, hc⟩ := Option.isSome_iff_exists.mp hc
  exact ⟨s, m, c, hs, hm, hc, (gfds_route_back (crew_started 2) hs hm hc (by decide)).mpr (by decide)⟩

/-- With 257 cores, the connections of the last loop have descriptors that lead to the first. -/
theorem gfd_routes_astray : ∃ s m c, Started (crew 257) ∧
    run step (initial 0 (crew 257)) (arrival 256 ⟨7, [], [], [], [], none⟩) = some s ∧
    s.eventloops[256]? = some m ∧ m.el.connections.get 0 = some c ∧ c.conn.gfd.eventLoopIndex = 0 ∧
    s.EnqueuesAt 0 c.conn.gfd ∧ ¬s.RoutesBack 256 0 c.conn.gfd := by
  have hrun : (run step (initial 0 (crew 257)) (arrival 256 ⟨7, [], [], [], [], none⟩)).any
      (fun s => s.eventloops[0]?.isSome && s.eventloops[256]?.any fun m => (m.el.connections.get 0).any fun c =>
        decide (c.conn.gfd.eventLoopIndex = 0)) = true := by decide +kernel
  obtain ⟨s, hs, hat⟩ := exists_of_any hrun
  obtain ⟨h0, hm⟩ := Bool.and_eq_true_iff.mp hat
  obtain ⟨m₀, hm₀⟩ := Option.isSome_iff_exists.mp h0
  obtain ⟨m, hm, hc⟩ := exists_of_any hm
  obtain ⟨c, hc, hg⟩ := exists_of_any hc
  have hg : c.conn.gfd.eventLoopIndex = 0 := of_decide_eq_true hg
  have hsends := sendCommand_enqueues (s := s) (g := c.conn.gfd) (m := m₀) (by rw [hg, hm₀])
  rw [hg] at hsends
  refine ⟨s, m, c, crew_started 257, hs, hm, hc, hg, hsends, fun h => ?_⟩
  have := h.eventLoopIndex
  omega

end Engine
end Rnet
