import Rnet.EventLoop.Steps

/-!
# The clock of the loop

`run_loop` looks at the clock to know when to call `on_tick`. `next_tick` is the time after the last call plus the delay
that it returned, and `poll` may wait until then. `Timed` is the loop with its clock: a step takes time, and time passes
between steps. `Machine` leaves it to the label whether a tick is due; it reaches no more states than the clock allows,
and no fewer (`reaches_iff_timed`).

Two calls of `on_tick` are never closer than the delay that the first returned, and none follows a delay of zero
(`ticks_spaced`). A `poll` that waits until its time is up is followed by the tick that it has waited for, whatever
events and commands come in between (`tick_follows_poll`).
-/

namespace Rnet

open Programs Runs

variable {η κ Msg : Type} [Codec κ Msg] [EventHandler η κ Msg]

namespace Machine

open EventLoop

variable {m m' : Machine η κ} {l : Label η}

omit [Codec κ Msg] [EventHandler η κ Msg] in
/-- The step calls `on_tick`. -/
def ticks (m : Machine η κ) : Label η → Bool
  | .advance =>
    match m.phase with
    | .start => m.el.options.ticker
    | _ => false
  | .tick due =>
    match m.phase with
    | .ticking => m.nextTick && due
    | _ => false
  | _ => false

/-- The delay that `on_tick` returns; if it asks for a shutdown, `run_loop` returns and there is none. -/
def delay (m : Machine η κ) : Nat :=
  match EventLoop.onTick m.el with
  | .ok delay _ => delay
  | .error _ _ => 0

/-- What a step does to `next_tick`. -/
inductive Timer (m : Machine η κ) (l : Label η) (m' : Machine η κ) : Prop
  | ticks (h : m.ticks l = true) (hphase : m'.phase ≠ .start) (hnext : m'.phase.Live → m'.nextTick = (m.delay != 0))
  | rests (h : m.ticks l = false) (hnext : m'.nextTick = m.nextTick) (hphase : m'.phase = .start → m.phase = .start)
  /-- the options ask for no ticks -/
  | skips (h : m.ticks l = false) (hphase : m.phase = .start) (hphase' : m'.phase = .top) (hnext : m'.nextTick = false)

omit [Codec κ Msg] [EventHandler η κ Msg] in
theorem call_timer {α : Type} (m : Machine η κ) (p : LoopM η κ α) {next : α → Phase} (hnext : ∀ a, next a ≠ .start) :
    (m.call p next).nextTick = m.nextTick ∧ (m.call p next).phase ≠ .start := by
  unfold call
  cases p m.el with
  | ok a t => exact ⟨rfl, hnext a⟩
  | error e t => exact ⟨rfl, fun h => by cases h⟩

theorem handleEvent_timer (m : Machine η κ) (ev : Event) (evs : List Event) :
    (m.handleEvent ev evs).nextTick = m.nextTick ∧ (m.handleEvent ev evs).phase ≠ .start := by
  unfold handleEvent
  split
  · exact ⟨rfl, fun h => by cases h⟩
  · split
    · split <;> exact ⟨rfl, fun h => by cases h⟩
    · exact m.call_timer _ fun _ h => by cases h

theorem acceptOne_timer (m : Machine η κ) (idx : Nat) (ls : List Listener) (evs : List Event) :
    (m.acceptOne idx ls evs).nextTick = m.nextTick ∧ (m.acceptOne idx ls evs).phase ≠ .start := by
  unfold acceptOne
  split
  · exact ⟨rfl, fun h => by cases h⟩
  · split
    · exact ⟨rfl, fun h => by cases h⟩
    · split
      · exact ⟨rfl, fun h => by cases h⟩
      · split <;> exact ⟨rfl, fun h => by cases h⟩

theorem firstTick_timer (hphase : m.phase = .start) : Timer m .advance m.firstTick := by
  unfold firstTick
  split
  · rename_i hticker
    have hticks : m.ticks .advance = true := by simp [ticks, hphase, hticker]
    cases h : onTick (η := η) (κ := κ) m.el with
    | ok d t => exact .ticks hticks (fun h => by cases h) fun _ => by rw [delay, h]
    | error e t => exact .ticks hticks (fun h => by cases h) fun hlive => hlive.elim
  · rename_i hticker
    exact .skips (by simpa [ticks, hphase] using hticker) hphase rfl rfl

theorem runTick_timer {due : Bool} (hphase : m.phase = .ticking) (hdue : (m.nextTick && due) = true) :
    Timer m (.tick due) m.runTick := by
  have hticks : m.ticks (.tick due) = true := by simpa [ticks, hphase] using hdue
  unfold runTick
  cases h : onTick (η := η) (κ := κ) m.el with
  | ok d t => exact .ticks hticks (fun h => by cases h) fun _ => by rw [delay, h]
  | error e t => exact .ticks hticks (fun h => by cases h) fun hlive => hlive.elim

/-- **`next_tick` is set by `on_tick` alone.** -/
theorem step_timer (h : step m l = some m') : Timer m l m' := by
  cases l with
  | advance =>
    have hrests : m.phase ≠ .start → m'.nextTick = m.nextTick ∧ m'.phase ≠ .start → Timer m .advance m' := by
      intro hphase hm'
      refine .rests ?_ hm'.1 fun hstart => absurd hstart hm'.2
      simp only [ticks]
    simp only [step, advance] at h
    split at h
    · rename_i hphase
      cases h
      exact firstTick_timer hphase
    · rename_i hphase
      cases h
      exact hrests (by simp [hphase]) ⟨rfl, fun h => by cases h⟩
    · rename_i hphase
      cases h
      exact hrests (by simp [hphase]) ⟨rfl, fun h => by cases h⟩
    · rename_i hphase
      split at h
      · cases h
        exact hrests (by simp [hphase]) ⟨rfl, fun h => by cases h⟩
      · cases h
        exact hrests (by simp [hphase]) (call_timer _ _ fun _ h => by cases h)
    · rename_i hphase
      cases h
      exact hrests (by simp [hphase]) ⟨rfl, fun h => by cases h⟩
    · rename_i hphase
      cases h
      exact hrests (by simp [hphase]) (m.handleEvent_timer _ _)
    · rename_i hphase
      cases h
      exact hrests (by simp [hphase]) (m.acceptOne_timer _ _ _)
    all_goals cases h
  | tick due =>
    simp only [step] at h
    split at h
    · rename_i hphase
      cases h
      by_cases hdue : (m.nextTick && due) = true
      · rw [if_pos hdue]
        exact runTick_timer hphase hdue
      · rw [if_neg hdue]
        exact .rests (by simpa [ticks, hphase] using hdue) rfl fun h => by cases h
    · cases h
  | poll evs =>
    simp only [step] at h
    split at h
    · cases h
      refine .rests rfl rfl fun h => ?_
      simp only [goto] at h
      split at h <;> cases h
    · cases h
  | pollError e =>
    simp only [step] at h
    split at h
    · cases h
      refine .rests rfl rfl fun h => ?_
      simp only [goto] at h
      split at h <;> cases h
    · cases h
  | drop =>
    simp only [step] at h
    split at h
    · cases h
      exact .rests rfl rfl fun h => by cases h
    · cases h
  | trigger cmd =>
    cases h
    exact .rests rfl rfl id
  | accept socket localAddr peerAddr =>
    cases h
    exact .rests rfl rfl id
  | mint n =>
    cases h
    exact .rests rfl rfl id
  | handler hd =>
    cases h
    exact .rests rfl rfl id

end Machine

/-! ## The loop and its clock -/

structure Timed (η κ : Type) where
  machine : Machine η κ
  /-- what `Instant::now` answers -/
  now : Nat
  /-- what it answered before the last `poll` -/
  looked : Nat
  nextTick : Option Nat

/-- A call of `on_tick`. -/
structure Tick where
  start : Nat
  finish : Nat
  delay : Nat
  deriving DecidableEq

namespace Timed

open EventLoop Machine

inductive Act (η : Type)
  | elapse (d : Nat)
  /-- a step, and how long it takes -/
  | loop (l : Label η) (took : Nat)

/-- The step of the loop. -/
def Act.label : Act η → Option (Label η)
  | .elapse _ => none
  | .loop l _ => some l

def start (el : EventLoop η κ) (now : Nat) : Timed η κ := ⟨.initial el, now, now, none⟩

/-- `Instant::now() >= tick` -/
def due (s : Timed η κ) : Bool := s.nextTick.any fun tick => tick ≤ s.now

/-- The timeout of `poll`: nothing if commands are pending, else what is left until the next tick. -/
def timeout (s : Timed η κ) (pending : Bool) : Option Nat :=
  if pending then some 0 else s.nextTick.map fun tick => tick - s.looked

/-- The clock says whether a tick is due. -/
def allows (s : Timed η κ) : Label η → Bool
  | .tick due => due == s.due
  | _ => true

/-- `next_tick` after a call of `on_tick` that ended at `finish`. -/
def tickAfter (finish delay : Nat) : Option Nat := if delay = 0 then none else some (finish + delay)

/-- The clock is looked at at the top of the loop. -/
def looks (s : Timed η κ) : Label η → Nat
  | .advance =>
    match s.machine.phase with
    | .top => s.now
    | _ => s.looked
  | _ => s.looked

def step (s : Timed η κ) : Act η → Option (Timed η κ)
  | .elapse d => some { s with now := s.now + d }
  | .loop l took =>
    if s.allows l then
      (s.machine.step l).map fun m =>
        { machine := m
          now := s.now + took
          looked := s.looks l
          nextTick := if s.machine.ticks l then tickAfter (s.now + took) s.machine.delay else s.nextTick }
    else none

/-- The call of `on_tick` in a step. -/
def calls (s : Timed η κ) : Act η → Option Tick
  | .elapse _ => none
  | .loop l took => if s.machine.ticks l then some ⟨s.now, s.now + took, s.machine.delay⟩ else none

variable {el : EventLoop η κ} {s s' t : Timed η κ} {a : Act η} {acts : List (Act η)} {l : Label η} {took now : Nat}

theorem step_loop (h : step s (.loop l took) = some s') : s.allows l = true ∧ ∃ m, s.machine.step l = some m ∧
    s' = ⟨m, s.now + took, s.looks l,
      if s.machine.ticks l then tickAfter (s.now + took) s.machine.delay else s.nextTick⟩ := by
  simp only [step] at h
  split at h
  · rename_i hallows
    obtain ⟨m, hm, rfl⟩ := Option.map_eq_some_iff.mp h
    exact ⟨hallows, m, hm, rfl⟩
  · cases h

/-- The clock does not go back. -/
theorem step_now (h : step s a = some s') : s.now ≤ s'.now := by
  cases a with
  | elapse d =>
    cases h
    exact Nat.le_add_right _ _
  | loop l took =>
    obtain ⟨-, m, -, rfl⟩ := step_loop h
    exact Nat.le_add_right _ _

/-! ### What `Machine` knows of the clock -/

/-- `next_tick` of the machine says whether there is one. -/
structure Agrees (s : Timed η κ) : Prop where
  next : s.machine.phase.Live → s.nextTick.isSome = s.machine.nextTick
  start : s.machine.phase = .start → s.nextTick = none
  looked : s.looked ≤ s.now

theorem isSome_tickAfter (finish delay : Nat) : (tickAfter finish delay).isSome = (delay != 0) := by
  unfold tickAfter
  split
  · rename_i h
    rw [h]
    rfl
  · rename_i h
    rw [bne_iff_ne.mpr h]
    rfl

theorem Agrees.step (hs : s.Agrees) (h : step s a = some s') : s'.Agrees := by
  cases a with
  | elapse d =>
    cases h
    exact ⟨hs.next, hs.start, Nat.le_trans hs.looked (Nat.le_add_right _ _)⟩
  | loop l took =>
    obtain ⟨-, m, hm, rfl⟩ := step_loop h
    have hlooked : s.looks l ≤ s.now + took := by
      have hle := hs.looked
      unfold looks
      split
      · split <;> omega
      · omega
    have hlive := (Machine.step_moves hm).live
    cases step_timer hm with
    | ticks hticks hphase hnext =>
      refine ⟨fun hm' => ?_, fun hstart => absurd hstart hphase, hlooked⟩
      rw [if_pos hticks, isSome_tickAfter]
      exact (hnext hm').symm
    | rests hticks hnext hphase =>
      rw [if_neg (by rw [hticks]; exact Bool.false_ne_true)]
      exact ⟨fun hm' => (hs.next (hlive hm')).trans hnext.symm, fun hstart => hs.start (hphase hstart), hlooked⟩
    | skips hticks hphase hphase' hnext =>
      rw [if_neg (by rw [hticks]; exact Bool.false_ne_true)]
      refine ⟨fun _ => ?_, fun hstart => ?_, hlooked⟩
      · show s.nextTick.isSome = m.nextTick
        rw [hs.start hphase, hnext]
        rfl
      · exact hs.start hphase

theorem start_agrees (el : EventLoop η κ) (now : Nat) : (start el now).Agrees :=
  ⟨fun _ => rfl, fun _ => rfl, Nat.le_refl _⟩

/-! ### The two levels -/

/-- A run with the clock is a run of the machine. -/
theorem machine_run (hrun : run step s acts = some s') :
    run Machine.step s.machine (acts.filterMap Act.label) = some s'.machine := by
  induction acts generalizing s with
  | nil =>
    cases hrun
    rfl
  | cons a acts ih =>
    obtain ⟨t, ht, hrun⟩ := run_cons.mp hrun
    cases a with
    | elapse d =>
      cases ht
      exact ih (s := ⟨s.machine, s.now + d, s.looked, s.nextTick⟩) hrun
    | loop l took =>
      obtain ⟨-, m, hm, rfl⟩ := step_loop ht
      exact (run_cons_some hm).trans (ih hrun)

/-- Whether a tick may come from now on. -/
def Ahead (s : Timed η κ) (tick : Tick) : Prop :=
  s.machine.phase = .start ∨ ∃ next, s.nextTick = some next ∧ next ≤ tick.start

/-- **Ticks keep their distance.** In every run, whatever else the loop does, `on_tick` is not called again after it has
returned a delay of zero, and not before the delay has passed since it returned. -/
theorem ticks_spaced (hrun : run step (start el now) acts = some s) :
    (outputs step calls (start el now) acts).Pairwise fun tick tick' =>
      tick.delay ≠ 0 ∧ tick.finish + tick.delay ≤ tick'.start := by
  refine (outputs_pairwise (B := Ahead) (fun s a s' hstep => ?_) hrun).2
  cases a with
  | elapse d =>
    cases hstep
    exact ⟨fun _ h => h, fun o ho => by cases ho⟩
  | loop l took =>
    obtain ⟨hallows, m, hm, rfl⟩ := step_loop hstep
    by_cases hticks : s.machine.ticks l = true
    · -- a tick that is due
      have hnow : s.machine.phase = .start ∨ ∃ next, s.nextTick = some next ∧ next ≤ s.now := by
        cases l with
        | advance =>
          simp only [Machine.ticks] at hticks
          split at hticks
          · exact Or.inl (by assumption)
          · cases hticks
        | tick due =>
          simp only [Machine.ticks] at hticks
          split at hticks
          · have hdue : due = true := (Bool.and_eq_true_iff.mp hticks).2
            rw [allows, hdue, beq_iff_eq, eq_comm, Timed.due, Option.any_eq_true] at hallows
            obtain ⟨next, hnext, hle⟩ := hallows
            exact Or.inr ⟨next, hnext, of_decide_eq_true hle⟩
          · cases hticks
        | _ => cases hticks
      have hphase : m.phase ≠ .start := by
        cases step_timer hm with
        | ticks _ hphase _ => exact hphase
        | rests h _ _ | skips h _ _ _ => exact absurd hticks (by rw [h]; exact Bool.false_ne_true)
      have hafter : ∀ o, Ahead (⟨m, s.now + took, s.looks l, if s.machine.ticks l then
          tickAfter (s.now + took) s.machine.delay else s.nextTick⟩ : Timed η κ) o →
            s.machine.delay ≠ 0 ∧ s.now + took + s.machine.delay ≤ o.start := by
        rintro o (hstart | ⟨next, hnext, hle⟩)
        · exact absurd hstart hphase
        · rw [if_pos hticks, tickAfter] at hnext
          split at hnext
          · cases hnext
          · cases hnext
            exact ⟨by assumption, hle⟩
      refine ⟨fun o ho => ?_, fun o ho => ?_⟩
      · obtain ⟨-, hle⟩ := hafter o ho
        refine hnow.imp id fun ⟨next, hnext, hnow⟩ => ⟨next, hnext, ?_⟩
        omega
      · rw [calls, if_pos hticks] at ho
        cases ho
        exact ⟨hnow, hafter⟩
    · have hsame : m.phase = .start → s.machine.phase = .start := by
        cases step_timer hm with
        | ticks h _ _ => exact absurd h hticks
        | rests _ _ hphase => exact hphase
        | skips _ hphase _ _ => exact fun _ => hphase
      refine ⟨?_, fun o ho => ?_⟩
      · rintro o (hstart | hnext)
        · exact Or.inl (hsame hstart)
        · rw [if_neg hticks] at hnext
          exact Or.inr hnext
      · rw [calls, if_neg hticks] at ho
        cases ho

/-- A handler that does nothing but tick, with these delays. -/
structure Metronome where
  delays : List Nat

instance : EventHandler Metronome RawCodec RawMsg where
  onOpen h _ := (⟨[], .none⟩, h)
  onTraffic h _ := (⟨[], .none⟩, h)
  onClose h _ := (⟨[], .none⟩, h)
  onTick h _ := (⟨[], h.delays.headD 0, .none⟩, ⟨h.delays.tail⟩)

def metronome : EventLoop Metronome RawCodec := new 0 ⟨64, 8, true⟩ ⟨[5, 3]⟩ [] [] (fun _ => 0) 0

/-- It ticks three times. -/
def beats : List (Act Metronome) :=
  [.loop .advance 2, .loop .advance 0, .loop (.poll []) 5, .loop .advance 0, .loop (.tick true) 1, .loop .advance 0,
    .loop (.poll []) 4, .loop .advance 0, .loop (.tick true) 1, .loop .advance 0, .loop (.poll []) 100,
    .loop .advance 0, .loop (.tick false) 0]

theorem ticks_spaced_beats : ∃ s, run step (start metronome 0) beats = some s ∧
    outputs step calls (start metronome 0) beats = [⟨0, 2, 5⟩, ⟨7, 8, 3⟩, ⟨12, 13, 0⟩] ∧
    (outputs step calls (start metronome 0) beats).Pairwise fun tick tick' =>
      tick.delay ≠ 0 ∧ tick.finish + tick.delay ≤ tick'.start := by
  have hend : (run step (start metronome 0) beats).any (fun _ =>
      decide (outputs step calls (start metronome 0) beats = [⟨0, 2, 5⟩, ⟨7, 8, 3⟩, ⟨12, 13, 0⟩])) = true := by
    decide +kernel
  obtain ⟨s, hs, hout⟩ := exists_of_any hend
  exact ⟨s, hs, of_decide_eq_true hout, ticks_spaced hs⟩

theorem run_agrees (hrun : run step (start el now) acts = some s) : s.Agrees :=
  run_invariant' (P := Agrees) (fun _ _ _ hs hstep => hs.step hstep) (start_agrees el now) hrun

/-- The next tick is due. -/
structure Ripe (next : Nat) (s : Timed η κ) : Prop where
  agrees : s.Agrees
  started : s.machine.phase ≠ .start
  nextTick : s.nextTick = some next
  passed : next ≤ s.now

/-- It stays due until `run_loop` looks at the clock again. -/
theorem Ripe.step {next : Nat} (hs : s.Ripe next) (ha : ∀ due took, a ≠ .loop (.tick due) took)
    (hstep : step s a = some s') : s'.Ripe next := by
  have hagrees := hs.agrees.step hstep
  have hdue := Nat.le_trans hs.passed (step_now hstep)
  cases a with
  | elapse d =>
    cases hstep
    exact ⟨hagrees, hs.started, hs.nextTick, hdue⟩
  | loop l took =>
    obtain ⟨-, m, hm, rfl⟩ := step_loop hstep
    have hticks : s.machine.ticks l = false := by
      have hstarted := hs.started
      cases l with
      | advance => simp only [Machine.ticks]
      | tick due => exact absurd rfl (ha due took)
      | _ => rfl
    refine ⟨hagrees, ?_, ?_, hdue⟩
    · cases step_timer hm with
      | ticks h _ _ => exact absurd h (by rw [hticks]; exact Bool.false_ne_true)
      | rests _ _ hphase => exact fun hstart => hs.started (hphase hstart)
      | skips _ hphase _ _ => exact absurd hphase hs.started
    · rw [hticks]
      exact hs.nextTick

/-- A tick that is due is called. -/
theorem Ripe.calls {next : Nat} {due : Bool} (hs : s.Ripe next) (hstep : s.step (.loop (.tick due) took) = some s') :
    s.calls (.loop (.tick due) took) = some ⟨s.now, s.now + took, s.machine.delay⟩ := by
  obtain ⟨hallows, m, hm, -⟩ := step_loop hstep
  have hphase : s.machine.phase = .ticking := by
    simp only [Machine.step] at hm
    split at hm
    · assumption
    · cases hm
  have hnext := hs.agrees.next (by rw [hphase]; trivial)
  rw [hs.nextTick] at hnext
  have hdue : due = true := by
    have hs' := hs.passed
    simpa [allows, Timed.due, hs.nextTick, hs'] using hallows
  refine if_pos ?_
  simp [Machine.ticks, hphase, ← hnext, hdue]

/-- **A `poll` that waits until its time is up is followed by the tick it has waited for**, in any run and whatever it
answers: however many commands and events come first, `on_tick` is called when `run_loop` looks at the clock again. -/
theorem tick_follows_poll (hrun : run step (start el now) acts = some s) (hphase : s.machine.phase = .polling false)
    {next : Nat} (hnext : s.nextTick = some next) {evs : List Event} {s₁ : Timed η κ}
    (hpoll : step s (.loop (.poll evs) took) = some s₁) (hwaits : ∀ d ∈ s.timeout false, d ≤ took)
    {acts' : List (Act η)} (hno : ∀ due took, .loop (.tick due) took ∉ acts') (hlater : run step s₁ acts' = some t)
    {due : Bool} {took' : Nat} {t' : Timed η κ} (hstep : step t (.loop (.tick due) took') = some t') :
    next ≤ t.now ∧ calls t (.loop (.tick due) took') = some ⟨t.now, t.now + took', t.machine.delay⟩ := by
  have hagrees := run_agrees hrun
  have hripe₁ : s₁.Ripe next := by
    have hagrees₁ := hagrees.step hpoll
    obtain ⟨-, m, hm, rfl⟩ := step_loop hpoll
    simp only [Machine.step, hphase] at hm
    cases hm
    refine ⟨hagrees₁, fun h => (by cases h), hnext, ?_⟩
    have hlooked := hagrees.looked
    have htook := hwaits (next - s.looked) (by rw [timeout, if_neg Bool.false_ne_true, hnext]; rfl)
    show next ≤ s.now + took
    omega
  have hothers : ∀ a ∈ acts', ∀ due took, a ≠ Act.loop (.tick due) took := by
    rintro a ha due took rfl
    exact hno due took ha
  have hkeeps : ∀ (u : Timed η κ) (a : Act η) (u' : Timed η κ), u.Ripe next →
      (∀ due took, a ≠ .loop (.tick due) took) → step u a = some u' → u'.Ripe next :=
    fun _ _ _ hu ha hstep => hu.step ha hstep
  have hripe : t.Ripe next := run_invariant hkeeps hripe₁ (Along.of_labels hothers) hlater
  exact ⟨hripe.passed, hripe.calls hstep⟩

/-- A connection comes in while the first `poll` waits. -/
theorem tick_follows_poll_beats : ∃ s s₁ t t', run step (start metronome 0) (beats.take 2) = some s ∧
    step s (.loop (.poll [⟨WAKE_TOKEN, true, false, false, false⟩]) 6) = some s₁ ∧
    run step s₁ [.loop .advance 1, .loop .advance 1, .loop .advance 1] = some t ∧
    step t (.loop (.tick true) 1) = some t' ∧ 7 ≤ t.now ∧
    calls t (.loop (.tick true) 1) = some ⟨t.now, t.now + 1, t.machine.delay⟩ := by
  have hend : (run step (start metronome 0) (beats.take 2)).any (fun s =>
      (step s (.loop (.poll [⟨WAKE_TOKEN, true, false, false, false⟩]) 6)).any fun s₁ =>
        (run step s₁ [.loop .advance 1, .loop .advance 1, .loop .advance 1]).any fun t =>
          (step t (.loop (.tick true) 1)).any fun _ =>
            decide (s.nextTick = some 7 ∧ s.timeout false = some 5 ∧ s₁.machine.nextEvent.isSome)) = true := by
    decide +kernel
  obtain ⟨s, hs, hend⟩ := exists_of_any hend
  obtain ⟨s₁, hs₁, hend⟩ := exists_of_any hend
  obtain ⟨t, ht, hend⟩ := exists_of_any hend
  obtain ⟨t', ht', hend⟩ := exists_of_any hend
  obtain ⟨hnext, htimeout, hevent⟩ := of_decide_eq_true hend
  have hpolling : s.machine.phase = .polling false := by
    obtain ⟨-, m, hm, rfl⟩ := step_loop hs₁
    simp only [Machine.step] at hm
    split at hm
    · rename_i pending hphase
      cases pending with
      | false => exact hphase
      | true =>
        cases hm
        cases hevent
    · cases hm
  have hwaits : ∀ d ∈ s.timeout false, d ≤ 6 := by
    intro d hd
    rw [htimeout] at hd
    cases hd
    omega
  obtain ⟨hpassed, hcalls⟩ := tick_follows_poll hs hpolling hnext hs₁ hwaits (by simp) ht ht'
  exact ⟨s, s₁, t, t', hs, hs₁, ht, ht', hpassed, hcalls⟩

end Timed

end Rnet
