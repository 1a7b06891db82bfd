import Rnet.EventLoop.Consistency

/-!
# Whom an event is for

An event names a slab key, and was reported for the socket that was registered with it when `poll` returned (`Batch`).
An event acts on the connection at its key only (`processIo_acts`), so it closes no other one than the one it was
reported for as long as no connection enters the slab at a key that a later event of the batch names
(`events_act_on_owner`). In `stale_event_closes_newcomer` one does, between the close of the owner and the event.
-/

namespace Rnet

open Programs Relation

variable {η κ Msg : Type}

namespace EventLoop

/-- Nobody but the incarnation with the number is touched or gets `on_close`. -/
structure ActsOn (id : Nat) (el t : EventLoop η κ) : Prop where
  others : ∀ k i, el.connections.get k = some i → i.id ≠ id → t.connections.get k = some i
  closes : ∀ before after action, .closes before after action ∈ t.trace.drop el.trace.length → before.id = id

variable [Codec κ Msg] [EventHandler η κ Msg] {el el' t : EventLoop η κ} {key : Nat} {serving : Prop}

/-- **Who gets `on_close`**: the connection at the key. -/
theorem Effect.closings (h : Effect serving key el el') : ∃ new, el'.trace = el.trace ++ new ∧
    ∀ before after action, .closes before after action ∈ new →
      ∃ i, el.connections.get key = some i ∧ i.id = before.id := by
  have hnone : ∃ new : List (Obs κ), el.trace = el.trace ++ new ∧ ∀ before after action,
      .closes before after action ∈ new → ∃ i, el.connections.get key = some i ∧ i.id = before.id :=
    ⟨[], (List.append_nil _).symm, by simp⟩
  cases h with
  | neutral h =>
    rw [h.trace]
    exact hnone
  | push _ _ _ | serves _ _ _ _ _ | readsNothing _ _ _ _ _ _ _ => exact hnone
  | traffic i s a n s' bs hi hs' ha hne hset hact =>
    exact ⟨_, List.append_assoc el.trace [_] [_], by simp⟩
  | lastTraffic i s a n s' bs hi hs' ha hne hset hact => exact ⟨[_], rfl, by simp⟩
  | closes i graceful hi _ =>
    refine ⟨[el.closeObs i graceful, .drops i.id], gone_trace el key i graceful, fun before after action ho => ?_⟩
    rcases List.mem_cons.mp ho with ho | ho
    · injection ho with hb _ _
      exact ⟨i, hi, by rw [hb]⟩
    · simp at ho
  | failsToClose i graceful e hi he _ =>
    refine ⟨[el.closeObs i graceful], rfl, fun before after action ho => ?_⟩
    injection List.mem_singleton.mp ho with hb _ _
    exact ⟨i, hi, by rw [hb]⟩
  | ticks op hd conns hop _ =>
    unfold tickOp
    split <;> exact hnone
  | recordsTick before after action _ => exact ⟨[_], rfl, by simp⟩

/-- What happens at a key touches the connection there only. -/
theorem actsOn_of_effects (h : ReflTransGen (Effect True key) el t) {id : Nat}
    (hid : ∀ i, el.connections.get key = some i → i.id = id) : ActsOn id el t := by
  refine ⟨fun k i hi hne => ?_, ?_⟩
  · rw [frame h fun hk => hne (hid i (hk ▸ hi)), hi]
  · have hnew : (∀ i, t.connections.get key = some i → i.id = id) ∧ ∃ new, t.trace = el.trace ++ new ∧
        ∀ before after action, .closes before after action ∈ new → before.id = id := by
      refine invariant_of_steps (P := fun t => (∀ i, t.connections.get key = some i → i.id = id) ∧
        ∃ new, t.trace = el.trace ++ new ∧
          ∀ before after action, .closes before after action ∈ new → before.id = id) h ?_
        ⟨hid, [], (List.append_nil _).symm, by simp⟩
      rintro u v he ⟨hu, new, htrace, hnew⟩
      obtain ⟨new', htrace', hnew'⟩ := he.closings
      refine ⟨fun j hj => ?_, new ++ new', by rw [htrace', htrace, List.append_assoc], fun before after action ho => ?_⟩
      · obtain ⟨i, hi, hij⟩ := he.same key j hj
        rw [hij.id]
        exact hu i hi
      · rcases List.mem_append.mp ho with ho | ho
        · exact hnew before after action ho
        · obtain ⟨i, hi, hib⟩ := hnew' before after action ho
          rw [← hib]
          exact hu i hi
    obtain ⟨-, new, htrace, hnew⟩ := hnew
    rw [htrace, List.drop_left]
    exact hnew

/-- **An event acts on the connection at its key**, unless `on_traffic` asks for a shutdown. -/
theorem processIo_acts {ev : Event} (hs : el.Socketed) (hset : el.SettledAt key)
    (hno : ∀ u, ¬(Task.io key ev).ShutsDown el u) {id : Nat}
    (hid : ∀ i, el.connections.get key = some i → i.id = id) : ActsOn id el (final (processIo key ev) el) := by
  cases h : processIo key ev el with
  | ok a t =>
    rw [final_of_ok h]
    exact actsOn_of_effects ((processIo_leads ev hset).ok h) hid
  | error e t =>
    rw [final_of_error h]
    rcases processIo_failsBy hs hset ev e t h with ⟨u, v, hu, hc, -⟩ | ⟨u, hu, he, rfl⟩
    · exact absurd hc (hno u)
    · exact actsOn_of_effects (hu.tail (.neutral u.neutral_polled)) hid

end EventLoop

/-! ## Batches -/

/-- The events of the last poll still to be handled. -/
def Phase.batch : Phase → List EventLoop.Event
  | .draining _ evs | .events evs | .accepting _ _ evs => evs
  | .start | .top | .polling _ | .ticking | .exited _ | .dropped => []

/-- A loop, and for each key the number of the incarnation that the events of the last poll were reported for. -/
structure Batch (η κ : Type) where
  machine : Machine η κ
  reported : Nat → Option Nat

namespace Batch

open EventLoop Machine Runs

variable [Codec κ Msg] [EventHandler η κ Msg] {b b' : Batch η κ} {m m' : Machine η κ} {l : Label η}

/-- When `poll` returns, its events are reported for the connections there are. -/
def step (b : Batch η κ) (l : Label η) : Option (Batch η κ) :=
  (Machine.step b.machine l).map fun m' =>
    match l with
    | .poll _ => ⟨m', fun k => (b.machine.el.connections.get k).map Incarnation.id⟩
    | _ => ⟨m', b.reported⟩

omit [Codec κ Msg] [EventHandler η κ Msg] in
def initial (el : EventLoop η κ) : Batch η κ := ⟨Machine.initial el, fun _ => none⟩

/-- **Nobody takes the key of a later event**: no connection enters the slab at a key that an event still to be handled
names. And no `on_traffic` called for an event asks for a shutdown. -/
structure Undisturbed (b : Batch η κ) (l : Label η) : Prop where
  keys : ∀ s la pa el₀, Starts b.machine l (.register s la pa) el₀ → pollResult el₀ = .ok ⟨⟩ el₀.polled →
    el₀.openAction s la pa = .none → ∀ ev ∈ b.machine.phase.batch, ev.token ≠ el₀.connections.vacantKey
  traffic : ∀ key ev el₀ u, Starts b.machine l (.io key ev) el₀ → ¬(Task.io key ev).ShutsDown el₀ u

/-- **The event acts on its owner**: if the step handles one, it touches and closes nobody but the incarnation that the
event was reported for. -/
def OwnersOnly (b : Batch η κ) (l : Label η) : Prop :=
  ∀ key ev el₀ b' id, Starts b.machine l (.io key ev) el₀ → step b l = some b' → b.reported key = some id →
    ActsOn id b.machine.el b'.machine.el

/-- Where an event of the batch points there is its owner, or nobody. -/
structure Pointed (b : Batch η κ) : Prop where
  calm : b.machine.Calm
  sound : b.machine.el.Sound
  owner : ∀ ev ∈ b.machine.phase.batch, ∀ i, b.machine.el.connections.get ev.token = some i →
    b.reported ev.token = some i.id

omit [Codec κ Msg] [EventHandler η κ Msg] in
theorem call_phase {α : Type} (m : Machine η κ) (p : LoopM η κ α) (next : α → Phase) :
    (∃ a, (m.call p next).phase = next a) ∨ (m.call p next).phase.batch = [] := by
  unfold Machine.call
  split
  · exact Or.inl ⟨_, rfl⟩
  · exact Or.inr rfl

/-- A batch shrinks, until the next `poll`. -/
theorem batch_step (h : Machine.step m l = some m') :
    (∃ evs, l = .poll evs) ∨ m'.phase.batch <:+ m.phase.batch := by
  have hcall : ∀ {n : Machine η κ} {p : LoopM η κ Unit} {next : Unit → Phase} {evs : List Event},
      (next ()).batch <:+ evs → (n.call p next).phase.batch <:+ evs := by
    intro n p next evs hn
    rcases call_phase n p next with ⟨⟨⟩, h⟩ | h
    · rw [h]
      exact hn
    · rw [h]
      exact List.nil_suffix
  cases l with
  | poll evs => exact Or.inl ⟨evs, rfl⟩
  | trigger cmd => cases h; exact Or.inr (List.suffix_refl _)
  | accept socket localAddr peerAddr => cases h; exact Or.inr (List.suffix_refl _)
  | mint n => cases h; exact Or.inr (List.suffix_refl _)
  | handler s => cases h; exact Or.inr (List.suffix_refl _)
  | pollError e =>
    right
    unfold Machine.step at h
    cases hphase : m.phase <;> rw [hphase] at h <;> cases h
    by_cases he : e.kind = .interrupted <;> simp [goto, he, Phase.batch]
  | tick due =>
    right
    unfold Machine.step at h
    cases hphase : m.phase <;> rw [hphase] at h <;> cases h
    split
    · unfold runTick
      split <;> exact List.nil_suffix
    · exact List.nil_suffix
  | drop =>
    right
    unfold Machine.step at h
    cases hphase : m.phase <;> rw [hphase] at h <;> cases h
    exact List.nil_suffix
  | advance =>
    right
    have h : m.advance = some m' := h
    unfold advance at h
    cases hphase : m.phase with
    | start =>
      rw [hphase] at h
      cases h
      unfold firstTick
      split
      · split <;> exact List.nil_suffix
      · exact List.nil_suffix
    | top =>
      rw [hphase] at h
      cases h
      exact List.nil_suffix
    | draining left evs =>
      rw [hphase] at h
      cases left with
      | zero => cases h; exact List.suffix_refl _
      | succ left =>
        simp only at h
        split at h
        · cases h; exact List.suffix_refl _
        · cases h; exact hcall (List.suffix_refl _)
    | events evs =>
      rw [hphase] at h
      cases evs with
      | nil => cases h; exact List.nil_suffix
      | cons ev evs =>
        cases h
        have htail : evs <:+ ev :: evs := List.suffix_cons ev evs
        unfold handleEvent
        split
        · exact htail
        · split
          · split <;> exact htail
          · exact hcall htail
    | accepting idx ls evs =>
      rw [hphase] at h
      cases h
      unfold acceptOne
      split
      · exact List.suffix_refl _
      · split
        · exact List.suffix_refl _
        · split
          · exact List.nil_suffix
          · split
            · exact List.suffix_refl _
            · exact List.nil_suffix
    | polling pending => rw [hphase] at h; cases h
    | ticking => rw [hphase] at h; cases h
    | exited res => rw [hphase] at h; cases h
    | dropped => rw [hphase] at h; cases h

theorem poll_el {evs : List Event} (h : Machine.step m (.poll evs) = some m') : m'.el = m.el := by
  unfold Machine.step at h
  cases hphase : m.phase <;> rw [hphase] at h <;> cases h
  rfl

theorem step_some (h : step b l = some b') : Machine.step b.machine l = some b'.machine ∧
    ((∃ evs, l = .poll evs ∧ b'.reported = fun k => (b.machine.el.connections.get k).map Incarnation.id) ∨
      (∀ evs, l ≠ .poll evs) ∧ b'.reported = b.reported) := by
  obtain ⟨m', hm', rfl⟩ := Option.map_eq_some_iff.mp h
  cases l with
  | poll evs => exact ⟨hm', Or.inl ⟨evs, rfl, rfl⟩⟩
  | _ => exact ⟨hm', Or.inr ⟨by simp, rfl⟩⟩

/-- Who is live after an undisturbed step, at the key of an event still to be handled, was live before. -/
theorem Undisturbed.keeps (h : b.Undisturbed l) (hcalm : b.machine.Calm) (hstep : Machine.step b.machine l = some m')
    {ev : Event} (hev : ev ∈ b.machine.phase.batch) (hev' : ev ∈ m'.phase.batch) {j : Incarnation κ}
    (hj : m'.el.connections.get ev.token = some j) :
    ∃ i, b.machine.el.connections.get ev.token = some i ∧ i.id = j.id := by
  have hkeeps : ∀ {el t : EventLoop η κ}, el.Keeps t → t.connections.get ev.token = some j →
      ∃ i, el.connections.get ev.token = some i ∧ i.id = j.id := fun hk hj => by
    obtain ⟨i, hi, hij⟩ := hk _ _ hj
    exact ⟨i, hi, hij.id.symm⟩
  cases step_moves hstep with
  | idles hel hphase => exact ⟨j, hel.connections ▸ hj, rfl⟩
  | pollFails he => cases hev'
  | gets priority cmd _ => exact ⟨j, hj, rfl⟩
  | mints n => exact ⟨j, hj, rfl⟩
  | drops hphase => cases hev'
  | ends hs ht hel => cases hev'
  | @works _ task el₀ t el' phase nextTick hs ht hel hlive =>
    have hconn : el₀.connections = b.machine.el.connections := by
      obtain ⟨h', rfl, -⟩ := hs.withHandle
      rfl
    rw [hel.connections] at hj
    rw [← hconn]
    rcases hs.effects hcalm with ⟨s, la, pa, rfl, -, -⟩ | hl
    · have hvac : ev.token = el₀.connections.vacantKey → el₀.polled.openAction s la pa = .none →
          pollResult el₀ = .ok ⟨⟩ el₀.polled → False := fun hk hact hpoll => h.keys s la pa el₀ hs hpoll hact ev hev hk
      rcases pollResult_cases el₀ with hpoll | ⟨e, hpoll, -⟩
      · rcases register_opens s la pa hpoll with ⟨hact, hr⟩ | ⟨-, hr⟩ | ⟨-, v, -, hr⟩ <;>
          rw [show register s la pa el₀ = .ok ⟨⟩ t from ht] at hr <;> cases hr
        · rcases Slab.of_get_insert (s := el₀.connections) hj with ⟨hk, -⟩ | hj'
          · exact (hvac hk hact hpoll).elim
          · exact ⟨j, hj', rfl⟩
        · exact ⟨j, hj, rfl⟩
      · have ht : register s la pa el₀ = .ok ⟨⟩ t := ht
        unfold register at ht
        rw [Programs.get_bind, bind_apply, hpoll] at ht
        cases ht
    · exact hkeeps (keeps_of_effects (hl.ok ht)) hj

theorem Pointed.step (h : b.Pointed) (hun : b.Undisturbed l) (hstep : step b l = some b') : b'.Pointed := by
  obtain ⟨hm, hrep⟩ := step_some hstep
  have hmoves := step_moves hm
  refine ⟨hmoves.calm h.calm, invariant_of_steps (hmoves.evolves h.calm) (fun _ _ he hs => he.sound hs) h.sound, ?_⟩
  rcases hrep with ⟨evs, rfl, hrep⟩ | ⟨hpoll, hrep⟩
  · intro ev hev i hi
    rw [poll_el hm] at hi
    simp only [hrep, hi, Option.map_some]
  · intro ev hev i hi
    have hsub := (batch_step hm).resolve_left fun ⟨evs, hl⟩ => hpoll evs hl
    obtain ⟨i₀, hi₀, hid⟩ := hun.keeps h.calm hm (hsub.subset hev) hev hi
    rw [hrep, ← hid]
    exact h.owner ev (hsub.subset hev) i₀ hi₀

/-- In such a step an event finds its owner. -/
theorem Pointed.owners (h : b.Pointed) (hun : b.Undisturbed l) : b.OwnersOnly l := by
  intro key ev el₀ b' id hs hstep hid
  obtain ⟨hm, -⟩ := step_some hstep
  have hset := h.calm hs.live
  have hfin := hs.finishes hm
  have hno := fun u => hun.traffic key ev el₀ u hs
  cases hs with
  | @io _ evs hphase hwake hlistener =>
    have howner : ∀ i, b.machine.el.connections.get ev.token = some i → i.id = id := by
      intro i hi
      have hmem : ev ∈ b.machine.phase.batch := by
        rw [hphase]
        exact List.mem_cons_self
      rw [h.owner ev hmem i hi] at hid
      exact Option.some.inj hid
    have hacts := processIo_acts h.sound.socketed (hset ev.token) hno howner
    have hneutral : (final (processIo ev.token ev) b.machine.el).Neutral b'.machine.el := by
      rcases hfin with ⟨t, ht, hel, -⟩ | ⟨e, t, ht, hel, -⟩
      · rw [final_of_ok (show processIo ev.token ev b.machine.el = .ok ⟨⟩ t from ht)]
        exact hel
      · rw [final_of_error (show processIo ev.token ev b.machine.el = .error e t from ht)]
        exact hel
    exact ⟨fun k i hi hne => hneutral.connections ▸ hacts.others k i hi hne, by rw [hneutral.trace]; exact hacts.closes⟩

/-- **Events act on their owners only** in every run in which nobody takes the key of a later event and no `on_traffic`
called for an event asks for a shutdown. -/
theorem events_act_on_owner {el : EventLoop η κ} (hfresh : el.Fresh) {ls : List (Label η)}
    (hun : Along step Undisturbed (initial el) ls) : Along step OwnersOnly (initial el) ls :=
  hun.upgrade (P := Pointed) (fun _ _ _ hb hun hstep => hb.step hun hstep) (fun _ _ hb hun => hb.owners hun)
    ⟨initial_calm hfresh, hfresh.sound, fun ev hev => by cases hev⟩

/-! ## Two runs -/

/-- A step is undisturbed if it registers nothing while there are events, and goes on while it handles one. -/
theorem undisturbed_of_quiet (hbatch : b.machine.phase.batch = [] ∨ b.machine.registration = none)
    (hlive : ∀ m' ∈ Machine.step b.machine l, b.machine.nextEvent = none ∨ m'.phase.Live) : b.Undisturbed l := by
  constructor
  · intro s la pa el₀ hs _ _ ev hev
    have hreg : b.machine.registration = some (s, la, pa) := by
      cases hs with
      | ordered _ hreg _ => exact hreg
      | accepted _ hreg => exact hreg
    rcases hbatch with hb | hn
    · rw [hb] at hev
      cases hev
    · rw [hn] at hreg
      cases hreg
  · intro key ev el₀ u hs hu
    obtain ⟨v, t, -, ht, -⟩ := hu.run
    have hev : b.machine.nextEvent = some ev := by
      cases hs with
      | io hphase _ _ => exact nextEvent_eq_some.mpr ⟨_, hphase⟩
    cases hstep : Machine.step b.machine l with
    | none =>
      cases hs with
      | io hphase _ _ => simp [Machine.step, advance, hphase] at hstep
    | some m' =>
      rcases hs.finishes hstep with ⟨t', ht', -⟩ | ⟨e, t', -, -, res, hphase⟩
      · rw [ht] at ht'
        cases ht'
      · rcases hlive m' hstep with hn | hl
        · rw [hev] at hn
          cases hn
        · rw [hphase] at hl
          exact hl

/-- A connection comes and sends a byte, and the loop reads it. -/
theorem events_act_on_owner_visit : Along step OwnersOnly (initial (doormanLoop .admits)) (visit.take 11) := by
  have hquiet : Along step (fun b l => (b.machine.phase.batch = [] ∨ b.machine.registration = none) ∧
      ∀ m' ∈ Machine.step b.machine l, b.machine.nextEvent = none ∨ m'.phase.Live) (initial (doormanLoop .admits))
      (visit.take 11) :=
    .of_check (b := fun b l => (b.machine.phase.batch.isEmpty || b.machine.registration.isNone) &&
      (Machine.step b.machine l).all fun m' => b.machine.nextEvent.isNone || decide m'.phase.Live)
      (fun b l h => by simpa [Option.all_eq_true] using h) (by decide +kernel)
  exact events_act_on_owner (new_fresh _ _ _ _ _ _ _) (hquiet.upgrade (P := fun _ => True) (fun _ _ _ _ _ _ => trivial)
    (fun _ _ _ h => undisturbed_of_quiet h.1 h.2) trivial)

/-- A connection comes. One batch later it is closed, and another one is registered at its key, by commands that come
with the wake event before an error event that was reported for the first connection. -/
def stale : List (Label Doorman) :=
  [.accept ⟨4, [], [], [], [], none⟩ (.tcp "a") (.tcp "b"), .advance, .advance, .poll [], .advance, .advance, .advance,
    .tick false, .advance, .trigger (.close 0), .accept ⟨5, [], [], [], [], none⟩ (.tcp "a") (.tcp "c"),
    .poll [⟨WAKE_TOKEN, true, false, false, false⟩, ⟨0, false, false, true, false⟩], .advance, .advance, .advance,
    .advance]

/-- The error event closes the second connection. -/
theorem stale_event_closes_newcomer : ∃ b, run step (initial (doormanLoop .admits)) stale = some b ∧
    ¬b.OwnersOnly .advance := by
  have hrun : (run step (initial (doormanLoop .admits)) stale).any (fun b =>
      decide (b.machine.nextEvent = some ⟨0, false, false, true, false⟩ ∧ b.reported 0 = some 0) &&
        (b.machine.el.connections.get 0).any (fun i => decide (i.id = 1)) &&
        (step b .advance).any fun b' => (b'.machine.el.connections.get 0).isNone) = true := by decide +kernel
  obtain ⟨b, hb, hat⟩ := exists_of_any hrun
  rw [Bool.and_eq_true, Bool.and_eq_true, decide_eq_true_eq] at hat
  obtain ⟨⟨⟨hev, hrep⟩, hi⟩, hstep⟩ := hat
  obtain ⟨i, hi, hid⟩ := exists_of_any hi
  obtain ⟨b', hb', hgone⟩ := exists_of_any hstep
  obtain ⟨evs, hphase⟩ := nextEvent_eq_some.mp hev
  refine ⟨b, hb, fun howners => ?_⟩
  have hs : Starts b.machine .advance (.io 0 ⟨0, false, false, true, false⟩) b.machine.el :=
    .io hphase (by decide) (by decide)
  have hacts := howners _ _ _ b' 0 hs hb' hrep
  rw [hacts.others 0 i hi (by rw [of_decide_eq_true hid]; decide)] at hgone
  cases hgone

end Batch
end Rnet
