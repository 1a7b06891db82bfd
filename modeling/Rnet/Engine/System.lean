import Rnet.EventLoop.Numbers
import Rnet.EventLoop.Queues

/-!
# The loops of an engine

`engine.rs`: the event loops that `Engine::run` starts, in the order of the registry that `EngineHandler` keeps, and
the counter of descriptors that they share. The model starts when `set_workers` has published the registry: before
that `send_command` finds no loop, and no loop gets a socket, since in one mode the acceptor is not there yet and in
the other no loop runs. What a callback sends to its own loop is part of that loop's step (`Op.commands`); every other
call of `send_command` is a step of its own, at any time.

In a run of the engine every loop does a run of the machine, and the loops draw different numbers (`Sound`), so that a
descriptor belongs to one incarnation of one loop (`Sound.issued_inj`).
-/

namespace Rnet

open Programs Relation Runs

variable {η κ Msg : Type}

structure Engine (η κ : Type) where
  /-- the number of descriptors made in the process -/
  minted : Nat
  /-- the loops, at the positions of their handles in the registry -/
  eventloops : List (Machine η κ)

inductive EngineLabel (η : Type)
  /-- a step of the loop at a position, with what the poller and the acceptor do -/
  | loop (p : Nat) (l : Label η)
  /-- `EngineHandler::send_command`, from any thread -/
  | sendCommand (gfd : Gfd) (cmd : Command)
  /-- `EngineHandler::shutdown` comes to the loop at a position -/
  | shutdown (p : Nat)
  /-- descriptors are made outside of the loops -/
  | mint (n : Nat)

/-- The label is not one for the other threads and loops. -/
def Label.own : Label η → Bool
  | .trigger _ | .mint _ => false
  | .advance | .poll _ | .pollError _ | .tick _ | .accept _ _ _ | .handler _ | .drop => true

/-- The loop sees the counter of the process. -/
def Machine.sync (m : Machine η κ) (minted : Nat) : Machine η κ := { m with el := { m.el with minted } }

namespace Engine

variable [Codec κ Msg] [EventHandler η κ Msg]

def step (s : Engine η κ) : EngineLabel η → Option (Engine η κ)
  | .loop p l =>
    match s.eventloops[p]? with
    | none => none
    | some m =>
      if l.own then
        match Machine.step (m.sync s.minted) l with
        | none => none
        | some m' => some ⟨m'.el.minted, s.eventloops.set p m'⟩
      else none
  | .sendCommand gfd cmd =>
    some { s with eventloops := s.eventloops.modify gfd.eventLoopIndex (·.receive cmd.priority cmd) }
  | .shutdown p => some { s with eventloops := s.eventloops.modify p (·.receive .high .shutdown) }
  | .mint n => some { s with minted := s.minted + n }

/-- An engine before its loops run. -/
def initial (minted : Nat) (els : List (EventLoop η κ)) : Engine η κ :=
  ⟨minted, els.map fun el => (Machine.initial el).sync minted⟩

end Engine

/-- The loop `Engine::run` makes at position `i`: its number is `i as u8`, and so is the index of its handle. -/
structure EventLoop.StartedAt (i : Nat) (el : EventLoop η κ) : Prop where
  fresh : el.Fresh
  loopId : el.loopId = UInt8.ofNat i
  idx : i < 256 → el.handle.idx = i

theorem EventLoop.new_startedAt (i : Nat) (options : Options) (handler : η) (results wakes : List (IoResult Unit))
    (heap : Nat → UInt8) (minted : Nat) :
    (EventLoop.new (UInt8.ofNat i) options handler results wakes heap minted : EventLoop η κ).StartedAt i where
  fresh := new_fresh _ _ _ _ _ _ _
  loopId := rfl
  idx hi := by
    show (UInt8.ofNat i).toNat = i
    rw [UInt8.toNat_ofNat', Nat.mod_eq_of_lt hi]

namespace Engine

open EventLoop

/-- The loops `Engine::run` makes. -/
def Started (els : List (EventLoop η κ)) : Prop := ∀ (i : Nat) (el : EventLoop η κ), els[i]? = some el → el.StartedAt i

/-! ## What a step does to one loop -/

variable [Codec κ Msg] [EventHandler η κ Msg]

/-- What a step of the engine from `s` to `s'` does to the loop at position `q`. -/
inductive Acts (s : Engine η κ) (l : EngineLabel η) (s' : Engine η κ) (q : Nat) (m : Machine η κ) : Machine η κ → Prop
  | stays : Acts s l s' q m m
  | runs {l' : Label η} {m' : Machine η κ} (hl : l = .loop q l') (hown : l'.own)
      (hstep : Machine.step (m.sync s.minted) l' = some m') (hs' : s'.minted = m'.el.minted) : Acts s l s' q m m'
  | gets (cmd : Command) (hcmd : cmd = .shutdown ∨ ∃ gfd, l = .sendCommand gfd cmd ∧ gfd.eventLoopIndex = q) :
      Acts s l s' q m (m.receive cmd.priority cmd)

variable {s s' : Engine η κ} {l : EngineLabel η} {q : Nat} {m m' : Machine η κ} {els : List (EventLoop η κ)}
  {ls : List (EngineLabel η)} {minted : Nat}

/-- A step of a loop is a step of its machine, on the counter of the process. -/
theorem step_loop {p : Nat} {l : Label η} (h : step s (.loop p l) = some s') : ∃ m m', s.eventloops[p]? = some m ∧
    l.own ∧ Machine.step (m.sync s.minted) l = some m' ∧ s' = ⟨m'.el.minted, s.eventloops.set p m'⟩ := by
  unfold step at h
  cases hp : s.eventloops[p]? with
  | none => simp only [hp] at h; cases h
  | some m =>
    simp only [hp] at h
    split at h
    · rename_i hown
      cases hstep : Machine.step (m.sync s.minted) l with
      | none => rw [hstep] at h; cases h
      | some m' =>
        rw [hstep] at h
        cases h
        exact ⟨m, m', rfl, hown, hstep, rfl⟩
    · cases h

/-- No step makes a loop or ends one. -/
theorem step_length (h : step s l = some s') : s'.eventloops.length = s.eventloops.length := by
  cases l with
  | loop p l =>
    obtain ⟨m, m', -, -, -, rfl⟩ := step_loop h
    exact List.length_set
  | sendCommand gfd cmd => cases h; exact List.length_modify _ _ _
  | shutdown p => cases h; exact List.length_modify _ _ _
  | mint n => cases h; rfl

/-- **A step does one of these to each loop.** -/
theorem step_acts (h : step s l = some s') (hm' : s'.eventloops[q]? = some m') :
    ∃ m, s.eventloops[q]? = some m ∧ Acts s l s' q m m' := by
  cases l with
  | loop p l =>
    obtain ⟨m, m₁, hm, hown, hstep, rfl⟩ := step_loop h
    by_cases hq : p = q
    · subst hq
      rw [List.getElem?_set_self (List.getElem?_eq_some_iff.mp hm).1] at hm'
      cases hm'
      exact ⟨m, hm, .runs rfl hown hstep rfl⟩
    · rw [List.getElem?_set_ne hq] at hm'
      exact ⟨m', hm', .stays⟩
  | sendCommand gfd cmd =>
    cases h
    rw [List.getElem?_modify] at hm'
    obtain ⟨m, hm, rfl⟩ := Option.map_eq_some_iff.mp hm'
    refine ⟨m, hm, ?_⟩
    split
    · rename_i hq
      exact .gets cmd (Or.inr ⟨gfd, rfl, hq⟩)
    · exact .stays
  | shutdown p =>
    cases h
    rw [List.getElem?_modify] at hm'
    obtain ⟨m, hm, rfl⟩ := Option.map_eq_some_iff.mp hm'
    refine ⟨m, hm, ?_⟩
    split
    · exact .gets .shutdown (Or.inl rfl)
    · exact .stays
  | mint n =>
    cases h
    exact ⟨m', hm', .stays⟩

/-! ## Each loop does a run of the machine -/

omit [Codec κ Msg] [EventHandler η κ Msg] in
theorem sync_eq {m : Machine η κ} {minted : Nat} (h : m.el.minted ≤ minted) :
    m.sync minted = { m with el := { m.el with minted := m.el.minted + (minted - m.el.minted) } } := by
  rw [Nat.add_sub_of_le h]
  rfl

/-- A run of the machine goes on as the engine has it. -/
theorem Acts.run {el : EventLoop η κ} {ms : List (Label η)} (h : Acts s l s' q m m') (hle : m.el.minted ≤ s.minted)
    (hrun : run Machine.step (Machine.initial el) ms = some m) :
    ∃ ms', run Machine.step (Machine.initial el) ms' = some m' := by
  cases h with
  | stays => exact ⟨ms, hrun⟩
  | @runs l' _ hl hown hstep hs' =>
    refine ⟨ms ++ [.mint (s.minted - m.el.minted), l'], ?_⟩
    have hmint : Machine.step m (.mint (s.minted - m.el.minted)) = some (m.sync s.minted) := by
      rw [sync_eq hle]
      rfl
    rw [run_append hrun, run_cons_some hmint, run_cons_some hstep, run_nil]
  | gets cmd hcmd => exact ⟨ms ++ [.trigger cmd], by rw [run_append hrun]; rfl⟩

/-- The loop at position `q` has done a run of the machine, and the engine counts at least its descriptors. -/
structure Runs (els : List (EventLoop η κ)) (start : Nat) (s : Engine η κ) (q : Nat) (m : Machine η κ) : Prop where
  run : ∃ el, els[q]? = some el ∧
    ∃ ms, Runs.run Machine.step (Machine.initial { el with minted := start }) ms = some m
  minted : m.el.minted ≤ s.minted

omit [Codec κ Msg] [EventHandler η κ Msg] in
theorem fresh_of_minted {el : EventLoop η κ} (h : el.Fresh) (n : Nat) :
    ({ el with minted := n } : EventLoop η κ).Fresh :=
  ⟨h.connections, h.pool, h.urgent, h.common, h.connCount, h.trace⟩

/-- What the run of the machine says. -/
theorem Runs.facts (hstarted : Started els) (h : Runs els minted s q m) : m.Calm ∧ m.el.Numbered ∧
    m.el.loopId = UInt8.ofNat q ∧ (q < 256 → m.el.handle.idx = q) := by
  obtain ⟨el, hel, ms, hrun⟩ := h.run
  have hst := hstarted q el hel
  have hfresh := fresh_of_minted hst.fresh minted
  obtain ⟨hpath, hcalm⟩ := Machine.run_path hfresh hrun
  obtain ⟨hnum, hgrows⟩ := numbered_of_evolves hpath hfresh.numbered
  exact ⟨hcalm, hnum, hgrows.loopId.trans hst.loopId,
    fun hq => (sameHandle_of_evolves hpath).idx.trans (hst.idx hq)⟩

/-- In a step the loop takes its numbers from the counter of the engine. -/
theorem Runs.grows (hstarted : Started els) (h : Runs els minted s q m) {l : Label η}
    (hstep : Machine.step (m.sync s.minted) l = some m') : (m.sync s.minted).el.Grows m'.el := by
  obtain ⟨hcalm, hnum, -, -⟩ := h.facts hstarted
  have hsync : (m.sync s.minted).el.Numbered := hnum.keeps (.of_eq rfl) rfl h.minted rfl
  exact (numbered_of_evolves ((Machine.step_moves hstep).evolves hcalm) hsync).2

/-- What the loop has issued is below the counter of the engine. -/
theorem Runs.issued_lt (hstarted : Started els) (h : Runs els minted s q m) {x : Nat × Gfd}
    (hx : x ∈ issued m.el.trace) : x.1 < s.minted ∧ ∃ fd k, x.2 = .new x.1 fd m.el.loopId k := by
  obtain ⟨hlt, hnew⟩ := (h.facts hstarted).2.1.issued x hx
  exact ⟨Nat.lt_of_lt_of_le hlt h.minted, hnew⟩

/-! ## The loops draw different numbers -/

/-- The invariant of a run of the engine. -/
structure Sound (els : List (EventLoop η κ)) (start : Nat) (s : Engine η κ) : Prop where
  runs : ∀ (q : Nat) (m : Machine η κ), s.eventloops[q]? = some m → Runs els start s q m
  /-- two loops have not drawn the same number -/
  apart : ∀ (p q : Nat) (m m' : Machine η κ), s.eventloops[p]? = some m → s.eventloops[q]? = some m' → p ≠ q →
    ∀ x ∈ issued m.el.trace, ∀ y ∈ issued m'.el.trace, x.1 ≠ y.1

/-- The counter does not fall. -/
theorem Sound.minted_le (hstarted : Started els) (hs : Sound els minted s) (h : step s l = some s') :
    s.minted ≤ s'.minted := by
  cases l with
  | loop p l =>
    obtain ⟨m, m', hm, hown, hstep, rfl⟩ := step_loop h
    exact ((hs.runs p m hm).grows hstarted hstep).minted
  | sendCommand gfd cmd => cases h; exact Nat.le_refl _
  | shutdown p => cases h; exact Nat.le_refl _
  | mint n => cases h; exact Nat.le_add_right _ _

/-- What a loop has issued: nothing new, or numbers from the counter of the engine on. -/
theorem Acts.issued (hstarted : Started els) (hr : Runs els minted s q m) (h : Acts s l s' q m m') :
    issued m'.el.trace = issued m.el.trace ∨
      (∃ l', l = .loop q l') ∧ ∃ new, issued m'.el.trace = issued m.el.trace ++ new ∧ ∀ x ∈ new, s.minted ≤ x.1 := by
  cases h with
  | stays => exact Or.inl rfl
  | @runs l' _ hl hown hstep hs' => exact Or.inr ⟨⟨l', hl⟩, (hr.grows hstarted hstep).issued⟩
  | gets cmd hcmd => exact Or.inl rfl

theorem Sound.step (hstarted : Started els) (hs : Sound els minted s) (h : step s l = some s') :
    Sound els minted s' := by
  have hle := hs.minted_le hstarted h
  refine ⟨fun q m' hm' => ?_, fun p q m₁' m₂' hm₁' hm₂' hpq x hx y hy => ?_⟩
  · obtain ⟨m, hm, hacts⟩ := step_acts h hm'
    have hr := hs.runs q m hm
    obtain ⟨el, hel, ms, hrun⟩ := hr.run
    refine ⟨⟨el, hel, hacts.run hr.minted hrun⟩, ?_⟩
    cases hacts with
    | stays => exact Nat.le_trans hr.minted hle
    | runs hl hown hstep hs' => exact Nat.le_of_eq hs'.symm
    | gets cmd hcmd => exact Nat.le_trans hr.minted hle
  · obtain ⟨m₁, hm₁, ha₁⟩ := step_acts h hm₁'
    obtain ⟨m₂, hm₂, ha₂⟩ := step_acts h hm₂'
    have hr₁ := hs.runs p m₁ hm₁
    have hr₂ := hs.runs q m₂ hm₂
    rcases ha₁.issued hstarted hr₁ with h₁ | ⟨⟨l₁, rfl⟩, new₁, h₁, hnew₁⟩ <;>
      rcases ha₂.issued hstarted hr₂ with h₂ | ⟨⟨l₂, hl₂⟩, new₂, h₂, hnew₂⟩
    · rw [h₁] at hx
      rw [h₂] at hy
      exact hs.apart p q m₁ m₂ hm₁ hm₂ hpq x hx y hy
    · rw [h₁] at hx
      rw [h₂] at hy
      rcases List.mem_append.mp hy with hy | hy
      · exact hs.apart p q m₁ m₂ hm₁ hm₂ hpq x hx y hy
      · exact Nat.ne_of_lt (Nat.lt_of_lt_of_le (hr₁.issued_lt hstarted hx).1 (hnew₂ y hy))
    · rw [h₁] at hx
      rw [h₂] at hy
      rcases List.mem_append.mp hx with hx | hx
      · exact hs.apart p q m₁ m₂ hm₁ hm₂ hpq x hx y hy
      · exact Nat.ne_of_gt (Nat.lt_of_lt_of_le (hr₂.issued_lt hstarted hy).1 (hnew₁ x hx))
    · injection hl₂ with hpq'
      exact absurd hpq' hpq

omit [Codec κ Msg] [EventHandler η κ Msg] in
theorem initial_get {p : Nat} {m : Machine η κ} (h : (initial minted els).eventloops[p]? = some m) :
    ∃ el, els[p]? = some el ∧ m = Machine.initial { el with minted } := by
  rw [initial, List.getElem?_map] at h
  obtain ⟨el, hel, rfl⟩ := Option.map_eq_some_iff.mp h
  exact ⟨el, hel, rfl⟩

theorem initial_sound (hstarted : Started els) : Sound els minted (initial minted els) := by
  refine ⟨fun q m hm => ?_, fun p q m m' hm hm' hpq x hx => ?_⟩
  · obtain ⟨el, hel, rfl⟩ := initial_get hm
    exact ⟨⟨el, hel, [], rfl⟩, Nat.le_refl _⟩
  · obtain ⟨el, hel, rfl⟩ := initial_get hm
    have htrace : (Machine.initial { el with minted := minted }).el.trace = [] := (hstarted p el hel).fresh.trace
    rw [htrace] at hx
    cases hx

/-- **The invariant holds in every run of the engine.** -/
theorem run_sound (hstarted : Started els) (hrun : run step (initial minted els) ls = some s) : Sound els minted s :=
  run_invariant' (fun _ _ _ hs h => hs.step hstarted h) (initial_sound hstarted) hrun

/-- **A descriptor belongs to one incarnation of one loop**, as long as the sequence numbers suffice. -/
theorem Sound.issued_inj (hstarted : Started els) (hs : Sound els minted s) (hle : s.minted ≤ 2 ^ 32) {p q : Nat}
    {m m' : Machine η κ} (hm : s.eventloops[p]? = some m) (hm' : s.eventloops[q]? = some m') {x y : Nat × Gfd}
    (hx : x ∈ issued m.el.trace) (hy : y ∈ issued m'.el.trace) (hg : x.2 = y.2) : p = q ∧ x = y := by
  obtain ⟨hx₁, fd, k, hxg⟩ := (hs.runs p m hm).issued_lt hstarted hx
  obtain ⟨hy₁, fd', k', hyg⟩ := (hs.runs q m' hm').issued_lt hstarted hy
  have hid : x.1 = y.1 := Gfd.seq_inj (by omega) (by omega) (hxg.symm.trans (hg.trans hyg))
  refine ⟨?_, Prod.ext hid hg⟩
  by_contra hpq
  exact hs.apart p q m m' hm hm' hpq x hx y hy hid

end Engine
end Rnet
