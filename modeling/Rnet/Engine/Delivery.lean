import Rnet.Engine.Routing
import Rnet.EventLoop.AsyncWrites
import Rnet.EventLoop.Consistency

/-!
# Asynchronous writes reach their addressee

A response may come late: its connection may be gone, and the slab key, the file descriptor and the loop may be in use
by another. With at most 256 loops the descriptor names its loop, with keys below `2^24` it names its key, and with at
most `2^32` descriptors it belongs to one incarnation. So an `AsyncWrite` finds the connection it is for, or nothing
(`asyncWrite_reaches_addressee`). The data is appended to the output of that connection, unless its socket fails: then
the loop gives the connection up (`asyncWrite_drops_data`).
-/

namespace Rnet

open Programs Relation Runs

variable {η κ Msg : Type}

namespace Machine

variable [Codec κ Msg] [EventHandler η κ Msg] {m : Machine η κ}

omit [Codec κ Msg] [EventHandler η κ Msg] in
theorem call_el {α : Type} (m : Machine η κ) (p : LoopM η κ α) (next : α → Phase) :
    (m.call p next).el = final p m.el := by
  unfold call final
  cases p m.el <;> rfl

omit [Codec κ Msg] [EventHandler η κ Msg] in
theorem call_live {p : LoopM η κ Unit} {next : Unit → Phase} (h : (m.call p next).phase.Live) :
    p m.el = .ok ⟨⟩ (final p m.el) := by
  unfold call at h
  cases hp : p m.el with
  | ok a t => rw [final_of_ok hp]
  | error e t =>
    rw [hp] at h
    exact h.elim

end Machine

/-- Every `AsyncWrite(g, _)` is sent by `send_command(g, _)`. -/
def EngineLabel.Addressed : EngineLabel η → Prop
  | .sendCommand gfd cmd => cmd.AddressedTo gfd
  | .loop _ _ | .shutdown _ | .mint _ => True

namespace Engine

open EventLoop

section

variable [Codec κ Msg] [EventHandler η κ Msg] {s s' : Engine η κ} {els : List (EventLoop η κ)}
  {ls : List (EngineLabel η)} {minted : Nat} {l : EngineLabel η} {p : Nat} {m : Machine η κ} {g : Gfd} {data : Bytes}

/-! ## The right loop -/

/-- Every loop's queues hold what is for descriptors of the loop. -/
def AllRouted (s : Engine η κ) : Prop := ∀ (q : Nat) (m : Machine η κ), s.eventloops[q]? = some m → m.el.Routed

theorem Runs.lt {q : Nat} (h : Runs els minted s q m) : q < els.length := by
  obtain ⟨el, hel, -⟩ := h.run
  exact (List.getElem?_eq_some_iff.mp hel).1

theorem AllRouted.step (hstarted : Started els) (hcores : els.length ≤ 256) (haddr : Rnet.Addressed η)
    (hs : Sound els minted s) (hl : l.Addressed) (hr : s.AllRouted) (h : Engine.step s l = some s') : s'.AllRouted := by
  intro q m' hm'
  obtain ⟨m, hm, hacts⟩ := step_acts h hm'
  have hruns := hs.runs q m hm
  obtain ⟨hcalm, -, -, hidx⟩ := hruns.facts hstarted
  have hlt : q < 256 := Nat.lt_of_lt_of_le hruns.lt hcores
  cases hacts with
  | stays => exact hr q _ hm
  | runs _ hown hstep _ =>
    have hsync : (m.sync s.minted).el.Routed := hr q m hm
    exact routed_of_moves haddr (Machine.step_moves hstep) hcalm
      (fun cmd hcmd => by rw [hcmd] at hown; cases hown) hsync
  | gets cmd hcmd =>
    refine routed_of_moves haddr (.gets cmd.priority cmd (Or.inl rfl)) hcalm (fun cmd' heq g hg => ?_) (hr q m hm)
    injection heq with heq
    subst heq
    rcases hcmd with rfl | ⟨gfd, rfl, hq⟩
    · cases hg
    · rw [hl g hg, hq, hidx hlt]

theorem run_routed (hstarted : Started els) (hcores : els.length ≤ 256) (haddr : Rnet.Addressed η)
    (hl : Along step (fun _ l => l.Addressed) (initial minted els) ls)
    (hrun : run step (initial minted els) ls = some s) : Sound els minted s ∧ s.AllRouted := by
  refine run_invariant (P := fun s => Sound els minted s ∧ s.AllRouted)
    (fun s l s' hs hl h => ⟨hs.1.step hstarted h, hs.2.step hstarted hcores haddr hs.1 hl h⟩)
    ⟨initial_sound hstarted, fun q m hm => ?_⟩ hl hrun
  obtain ⟨el, hel, rfl⟩ := initial_get hm
  have hfresh := (hstarted q el hel).fresh
  intro q hq
  have hnone : (Machine.initial { el with minted := minted }).el.handle.queued = [] := by
    simp [Machine.initial, EventLoopHandle.queued, hfresh.urgent, hfresh.common]
  rw [hnone] at hq
  cases hq

/-! ## The right connection -/

/-- What it does to the engine that the loop at position `p` handles `AsyncWrite(g, data)`. -/
structure Delivered (p : Nat) (g : Gfd) (data : Bytes) (s s' : Engine η κ) : Prop where
  /-- the connection with descriptor `g`, if one is live in any loop, is one of this loop, and gets the data -/
  addressee : ∀ (q : Nat) (m : Machine η κ) (k : Nat) (i : Incarnation κ), s.eventloops[q]? = some m →
    m.el.connections.get k = some i → i.conn.gfd = g →
      q = p ∧ ∃ m', s'.eventloops[q]? = some m' ∧ Delivers m'.phase.Live k i data m.el.trace m'.el
  /-- every other connection stays as it is, and every vacant key stays vacant -/
  others : ∀ (q : Nat) (m : Machine η κ) (k : Nat), s.eventloops[q]? = some m →
    (∀ i, m.el.connections.get k = some i → i.conn.gfd ≠ g) →
      ∃ m', s'.eventloops[q]? = some m' ∧ m'.el.connections.get k = m.el.connections.get k
  /-- `g` was issued to one incarnation of one loop -/
  unique : ∀ (q q' : Nat) (m m' : Machine η κ), s.eventloops[q]? = some m → s.eventloops[q']? = some m' →
    ∀ x ∈ issued m.el.trace, ∀ y ∈ issued m'.el.trace, x.2 = g → y.2 = g → q = q' ∧ x = y

/-- The command that is handled names its loop. -/
theorem eventLoopIndex_of_next (hr : m.el.Routed) (hnext : m.nextCommand = some (.asyncWrite g data)) :
    g.eventLoopIndex = m.el.handle.idx := by
  unfold Machine.nextCommand at hnext
  split at hnext
  · obtain ⟨⟨q, h⟩, hq, hcmd⟩ := Option.map_eq_some_iff.mp hnext
    refine hr q (Machine.queued_takeCommand hq).1 g ?_
    rw [show q.cmd = .asyncWrite g data from hcmd]
    rfl
  · cases hnext

/-- **An `AsyncWrite` reaches exactly its addressee.** -/
theorem asyncWrite_reaches_addressee (hstarted : Started els) (hcores : els.length ≤ 256) (haddr : Rnet.Addressed η)
    (hl : Along step (fun _ l => l.Addressed) (initial minted els) ls)
    (hrun : run step (initial minted els) ls = some s) (hminted : s.minted ≤ 2 ^ 32)
    (hsmall : ∀ (q : Nat) (m : Machine η κ), s.eventloops[q]? = some m → m.el.SmallKeys)
    (hm : s.eventloops[p]? = some m) (hnext : m.nextCommand = some (.asyncWrite g data))
    (hstep : step s (.loop p .advance) = some s') : Delivered p g data s s' := by
  obtain ⟨hs, hr⟩ := run_routed hstarted hcores haddr hl hrun
  obtain ⟨-, hnum, hloop, hidx⟩ := (hs.runs p m hm).facts hstarted
  have hp : p < 256 := Nat.lt_of_lt_of_le (hs.runs p m hm).lt hcores
  have hgp : g.eventLoopIndex = p := (eventLoopIndex_of_next (hr p m hm) hnext).trans (hidx hp)
  obtain ⟨m₁, m', hm₁, -, hmstep, rfl⟩ := step_loop hstep
  obtain rfl : m = m₁ := Option.some.inj (hm.symm.trans hm₁)
  -- the command runs on the state of the loop, less the command
  obtain ⟨left, evs, q₀, h, hq₀, -, rfl⟩ := Machine.advance_command (m := m.sync s.minted) hnext hmstep
  let el₀ : EventLoop η κ := (m.sync s.minted).el.withHandle h
  generalize hm' : ({ m.sync s.minted with el := el₀ } : Machine η κ).call (handleCommand (.asyncWrite g data))
    (fun _ => .draining left evs) = m'
  have hel : m'.el = final (asyncWrite g data) el₀ := hm' ▸ Machine.call_el _ _ _
  have hlive : m'.phase.Live → asyncWrite g data el₀ = .ok ⟨⟩ (final (asyncWrite g data) el₀) := by
    rw [← hm']
    exact fun h => Machine.call_live h
  have hsock : el₀.Socketed := hnum.sound.socketed
  have hset : (s.eventloops.set p m')[p]? = some m' := List.getElem?_set_self (List.getElem?_eq_some_iff.mp hm).1
  refine ⟨fun q n k i hn hi hg => ?_, fun q n k hn hother => ?_, fun q q' n n' hn hn' x hx y hy hxg hyg =>
    hs.issued_inj hstarted hminted hn hn' hx hy (hxg.trans hyg.symm)⟩
  · obtain ⟨hq, hk⟩ := gfd_unpacked hstarted hrun hn hi
    have hlt : q < 256 := Nat.lt_of_lt_of_le (hs.runs q n hn).lt hcores
    have hsmall := hsmall q n hn k i hi
    rw [hg] at hq hk
    obtain rfl : q = p := by omega
    obtain rfl : g.slabIndex = k := by omega
    obtain rfl : m = n := Option.some.inj (hm.symm.trans hn)
    have hl : g.eventLoopIndex = el₀.loopId.toNat := by
      rw [show el₀.loopId = UInt8.ofNat q from hloop, UInt8.toNat_ofNat', Nat.mod_eq_of_lt hlt, hgp]
    refine ⟨rfl, m', hset, ?_⟩
    have hi : el₀.connections.get g.slabIndex = some i := hi
    rw [hel]
    exact (asyncWrite_delivers hl hi hg (hsock _ i hi)).mono hlive
  · by_cases hq : p = q
    · subst hq
      obtain rfl : m = n := Option.some.inj (hm.symm.trans hn)
      refine ⟨m', hset, ?_⟩
      rw [hel]
      by_cases hk : k = g.slabIndex
      · subst hk
        have hother : ∀ i, el₀.connections.get g.slabIndex = some i → i.conn.gfd ≠ g := hother
        rw [final_of_ok (asyncWrite_misses hother data)]
        rfl
      · exact asyncWrite_frame hsock hk
    · exact ⟨n, (List.getElem?_set_ne hq).trans hn, rfl⟩

end

/-! ## Two engines -/

/-- The data is appended to the output of every live connection with descriptor `g`. -/
def Appended (g : Gfd) (data : Bytes) (s s' : Engine η κ) : Prop :=
  ∀ (q : Nat) (m : Machine η κ) (k : Nat) (i : Incarnation κ), s.eventloops[q]? = some m →
    m.el.connections.get k = some i → i.conn.gfd = g → ∃ m' j, s'.eventloops[q]? = some m' ∧
      m'.el.connections.get k = some j ∧ j.conn.outStream = i.conn.outStream ++ data

theorem bystander_addressed : Rnet.Addressed Bystander := by
  intro gfd cmd h
  cases h with
  | onOpen hop | onTraffic hop | onClose hop | onTick hop => cases hop

/-- A loop gets a connection, and another thread sends a response for it. -/
def response (p : Nat) (socket : Socket) (g : Gfd) (data : Bytes) : List (EngineLabel Bystander) :=
  arrival p socket ++ [.sendCommand g (.asyncWrite g data)]

theorem response_addressed (p : Nat) (socket : Socket) (g : Gfd) (data : Bytes) :
    ∀ l ∈ response p socket g data, l.Addressed := by
  intro l hl
  simp only [response, arrival, List.mem_append, List.mem_cons, List.not_mem_nil, or_false] at hl
  rcases hl with (rfl | rfl | rfl | rfl | rfl) | rfl
  · trivial
  · trivial
  · trivial
  · trivial
  · trivial
  · rintro _ ⟨⟩
    rfl

/-- The second of two loops has a connection and is about to handle the response for it. -/
theorem asyncWrite_reaches_addressee_crew : ∃ s s' m i,
    run step (initial 0 (crew 2)) (response 1 ⟨7, [], [], [], [], none⟩ (.new 0 7 1 0) [104, 105]) = some s ∧
    s.eventloops[1]? = some m ∧ m.el.connections.get 0 = some i ∧ i.conn.gfd = .new 0 7 1 0 ∧
    step s (.loop 1 .advance) = some s' ∧ Delivered 1 (.new 0 7 1 0) [104, 105] s s' := by
  have hrun : (run step (initial 0 (crew 2))
      (response 1 ⟨7, [], [], [], [], none⟩ (.new 0 7 1 0) [104, 105])).any (fun s => decide (s.minted ≤ 2 ^ 32) &&
        (s.eventloops.all (fun m => m.el.connections.keys.all (· < 2 ^ 24)) && (step s (.loop 1 .advance)).isSome &&
        s.eventloops[1]?.any fun m => decide (m.nextCommand = some (.asyncWrite (.new 0 7 1 0) [104, 105])) &&
          (m.el.connections.get 0).any fun i => decide (i.conn.gfd = .new 0 7 1 0))) = true := by decide +kernel
  obtain ⟨s, hs, hat⟩ := exists_of_any hrun
  simp only [Bool.and_eq_true] at hat
  obtain ⟨hminted, ⟨hsmall, hstep⟩, hm⟩ := hat
  obtain ⟨s', hstep⟩ := Option.isSome_iff_exists.mp hstep
  obtain ⟨m, hm, hat⟩ := exists_of_any hm
  obtain ⟨hnext, hi⟩ := Bool.and_eq_true_iff.mp hat
  obtain ⟨i, hi, hg⟩ := exists_of_any hi
  refine ⟨s, s', m, i, hs, hm, hi, of_decide_eq_true hg, hstep, ?_⟩
  refine asyncWrite_reaches_addressee (crew_started 2) (by decide) bystander_addressed
    (.of_labels (response_addressed _ _ _ _)) hs (of_decide_eq_true hminted) (fun q n hn k j hj => ?_) hm
    (of_decide_eq_true hnext) hstep
  have hall := List.all_eq_true.mp hsmall n (List.mem_of_getElem? hn)
  exact of_decide_eq_true (List.all_eq_true.mp hall k (Slab.mem_keys.mpr ⟨j, hj⟩))

/-- The peer has reset the connection: the response is lost, and the connection is closed. -/
theorem asyncWrite_drops_data : ∃ s s' m i, Started (crew 1) ∧ (crew 1).length ≤ 256 ∧ Rnet.Addressed Bystander ∧
    (∀ l ∈ response 0 ⟨7, [.fatal 104], [], [], [], none⟩ (.new 0 7 0 0) [104, 105], l.Addressed) ∧
    run step (initial 0 (crew 1)) (response 0 ⟨7, [.fatal 104], [], [], [], none⟩ (.new 0 7 0 0) [104, 105]) = some s ∧
    s.minted ≤ 2 ^ 32 ∧ s.eventloops[0]? = some m ∧ m.nextCommand = some (.asyncWrite (.new 0 7 0 0) [104, 105]) ∧
    m.el.connections.get 0 = some i ∧ i.conn.gfd = .new 0 7 0 0 ∧ step s (.loop 0 .advance) = some s' ∧
    ¬Appended (.new 0 7 0 0) [104, 105] s s' := by
  have hrun : (run step (initial 0 (crew 1))
      (response 0 ⟨7, [.fatal 104], [], [], [], none⟩ (.new 0 7 0 0) [104, 105])).any (fun s =>
        decide (s.minted ≤ 2 ^ 32) &&
        ((step s (.loop 0 .advance)).any fun s' => s'.eventloops[0]?.any fun m => (m.el.connections.get 0).isNone) &&
        s.eventloops[0]?.any fun m => decide (m.nextCommand = some (.asyncWrite (.new 0 7 0 0) [104, 105])) &&
          (m.el.connections.get 0).any fun i => decide (i.conn.gfd = .new 0 7 0 0)) = true := by decide +kernel
  obtain ⟨s, hs, hat⟩ := exists_of_any hrun
  simp only [Bool.and_eq_true] at hat
  obtain ⟨⟨hminted, hstep⟩, hm⟩ := hat
  obtain ⟨s', hstep, hgone⟩ := exists_of_any hstep
  obtain ⟨m', hm', hgone⟩ := exists_of_any hgone
  obtain ⟨m, hm, hat⟩ := exists_of_any hm
  obtain ⟨hnext, hi⟩ := Bool.and_eq_true_iff.mp hat
  obtain ⟨i, hi, hg⟩ := exists_of_any hi
  refine ⟨s, s', m, i, crew_started 1, by decide, bystander_addressed, response_addressed _ _ _ _, hs,
    of_decide_eq_true hminted, hm, of_decide_eq_true hnext, hi, of_decide_eq_true hg, hstep, fun h => ?_⟩
  obtain ⟨n, j, hn, hj, -⟩ := h 0 m 0 i hm hi (of_decide_eq_true hg)
  obtain rfl : m' = n := Option.some.inj (hm'.symm.trans hn)
  rw [Option.isNone_iff_eq_none.mp hgone] at hj
  cases hj

end Engine
end Rnet
