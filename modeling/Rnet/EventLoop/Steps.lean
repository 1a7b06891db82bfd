import Rnet.EventLoop.Outcomes

/-!
# What a step of the main loop does

A step runs one method (`Task`), or it touches no connection: `step_moves` says which, once for all phases and labels.
So every invariant of the main loop is checked on the tasks and on the few steps that run none. What needs no more than
the effects of the tasks (`Task.changes`) is checked on `Evolves` and holds in every run (`run_evolves`).
-/

namespace Rnet

open Programs Relation

variable {η κ Msg : Type}

/-! ## Tasks -/

/-- What the main loop runs in one step. -/
inductive Task
  | command (cmd : Command)
  | io (key : Nat) (ev : EventLoop.Event)
  | register (socket : Socket) (localAddr peerAddr : NetworkAddress)
  | tick

namespace EventLoop

variable [Codec κ Msg] [EventHandler η κ Msg] {el el' t : EventLoop η κ}

/-- An effect on a connection in the slab, or a part of a registration. -/
def Change (el el' : EventLoop η κ) : Prop := AnyEffect el el' ∨ Registers el el'

theorem Neutral.change (h : el.Neutral el') : Change el el' := Or.inl ⟨0, .neutral h⟩

theorem changes_of_effects (h : ReflTransGen AnyEffect el el') : ReflTransGen Change el el' :=
  ReflTransGen.mono (fun _ _ => Or.inl) _ _ h

end EventLoop

namespace Task

open EventLoop

variable [Codec κ Msg] [EventHandler η κ Msg] {el t : EventLoop η κ}

def run : Task → LoopM η κ Unit
  | .command cmd => handleCommand cmd
  | .io key ev => processIo key ev
  | .register socket localAddr peerAddr => EventLoop.register socket localAddr peerAddr
  | .tick => do
    let _ ← onTick
    return

theorem register_changes (socket : Socket) (localAddr peerAddr : NetworkAddress) (el : EventLoop η κ) :
    Leads Change Change (EventLoop.register socket localAddr peerAddr) el := by
  have hp : ReflTransGen Change el el.polled := .single el.neutral_polled.change
  rcases register_cases socket localAddr peerAddr el with ⟨e, h, -⟩ | ⟨hact, h⟩ | ⟨hact, h⟩ | ⟨hact, t, ht, h⟩
  · exact .of_error h hp
  · exact .of_ok h (hp.tail (Or.inr (.admits _ _ _ hact)))
  · have hr : Registers el.polled _ := .refuses socket localAddr peerAddr (by simp [hact])
    refine .of_ok h ((hp.tail (Or.inr hr)).tail (Or.inr ?_))
    exact .dropsRefused (el.polled.incarnation socket localAddr peerAddr) _ _
      (List.mem_append_right _ (List.mem_singleton_self _)) (by rw [← openAction, hact]; simp)
  · have hr : Registers el.polled _ := .refuses socket localAddr peerAddr (by simp [hact])
    have hs := (shutdown_leads _).ok ht
    refine .of_error h (((hp.tail (Or.inr hr)).trans (changes_of_effects hs)).tail (Or.inr ?_))
    exact .dropsRefused (el.polled.incarnation socket localAddr peerAddr) _ _
      ((prefix_trace hs).subset (List.mem_append_right _ (List.mem_singleton_self _)))
      (by rw [← openAction, hact]; simp)

/-- **A task is a sequence of changes**, however it ends. -/
theorem changes (task : Task) (hset : ∀ k, el.SettledAt k) : Leads Change Change task.run el := by
  cases task with
  | command cmd =>
    by_cases hcmd : ∃ s l p, cmd = .register s l p
    · obtain ⟨s, l, p, rfl⟩ := hcmd
      exact register_changes s l p el
    · exact (handleCommand_leads (fun s l p e => hcmd ⟨s, l, p, e⟩) hset).mono (fun _ _ h => Or.inl h.any)
        fun _ _ => Or.inl
  | io key ev => exact (processIo_leads ev (hset key)).mono (fun _ _ h => Or.inl h.any) fun _ _ => Or.inl
  | register socket localAddr peerAddr => exact register_changes socket localAddr peerAddr el
  | tick =>
    exact .bind (fun _ _ => id) ((onTick_leads el).mono (fun _ _ => Or.inl) fun _ _ => Or.inl) fun _ _ _ => .pure _

/-- **A task that goes well leaves no rest of a read behind.** -/
theorem settled {task : Task} (hset : ∀ k, el.SettledAt k) (h : task.run el = .ok ⟨⟩ t) : ∀ k, t.SettledAt k := by
  cases task with
  | command cmd => exact handleCommand_settled hset h
  | io key ev => exact processIo_settled hset h
  | register socket localAddr peerAddr => exact register_settled hset h
  | tick =>
    obtain ⟨delay, u, hu, h⟩ := bind_ok.mp h
    cases h
    exact onTick_settled hset hu

end Task

/-! ## Steps -/

/-- `run_loop` has not returned. -/
def Phase.Live : Phase → Prop
  | .exited _ | .dropped => False
  | _ => True

instance : (phase : Phase) → Decidable phase.Live
  | .exited _ | .dropped => inferInstanceAs (Decidable False)
  | .start | .top | .polling _ | .draining _ _ | .events _ | .accepting _ _ _ | .ticking =>
    inferInstanceAs (Decidable True)

namespace Machine

open EventLoop

/-- The socket the next action of the loop registers, if it registers one. -/
def registration (m : Machine η κ) : Option (Socket × NetworkAddress × NetworkAddress) :=
  match m.phase with
  | .draining (_ + 1) _ =>
    match takeCommand m.el.handle with
    | some (⟨.register socket localAddr peerAddr, _⟩, _) => some (socket, localAddr, peerAddr)
    | _ => none
  | .accepting idx ls _ =>
    match ls[idx]? with
    | none => none
    | some l =>
      match l.accept.1 with
      | .error _ => none
      | .ok (socket, peerAddr) =>
        match l.accept.2.localAddr with
        | .error _ => none
        | .ok localAddr => some (socket, localAddr, peerAddr)
  | _ => none

/-- The command the next action of the loop handles. -/
def nextCommand (m : Machine η κ) : Option Command :=
  match m.phase with
  | .draining (_ + 1) _ => (takeCommand m.el.handle).map fun (q, _) => q.cmd
  | _ => none

/-- The event the next action of the loop handles. -/
def nextEvent (m : Machine η κ) : Option Event :=
  match m.phase with
  | .events (ev :: _) => some ev
  | _ => none

theorem nextEvent_eq_some {m : Machine η κ} {ev : Event} :
    m.nextEvent = some ev ↔ ∃ evs, m.phase = .events (ev :: evs) := by
  unfold nextEvent
  split
  · rename_i h
    simp [h]
  · rename_i h
    exact iff_of_false (by simp) fun ⟨evs, he⟩ => h ev evs he

/-- The step with a label runs a task in a state: that of the machine, less the command that was taken. -/
inductive Starts (m : Machine η κ) : Label η → Task → EventLoop η κ → Prop
  | command {left : Nat} {evs : List Event} {q : Queued} {h : EventLoopHandle}
      (hphase : m.phase = .draining (left + 1) evs) (hq : takeCommand m.el.handle = some (q, h))
      (hcmd : ∀ s l p, q.cmd ≠ .register s l p) : Starts m .advance (.command q.cmd) (m.el.withHandle h)
  | io {ev : Event} {evs : List Event} (hphase : m.phase = .events (ev :: evs)) (hwake : ev.token ≠ WAKE_TOKEN)
      (hlistener : isListenerToken ev.token = none) : Starts m .advance (.io ev.token ev) m.el
  | ordered {left : Nat} {evs : List Event} {socket : Socket} {localAddr peerAddr : NetworkAddress} {q : Queued}
      {h : EventLoopHandle} (hphase : m.phase = .draining (left + 1) evs)
      (hreg : m.registration = some (socket, localAddr, peerAddr)) (hq : takeCommand m.el.handle = some (q, h)) :
      Starts m .advance (.register socket localAddr peerAddr) (m.el.withHandle h)
  | accepted {idx : Nat} {ls : List Listener} {evs : List Event} {socket : Socket} {localAddr peerAddr : NetworkAddress}
      (hphase : m.phase = .accepting idx ls evs) (hreg : m.registration = some (socket, localAddr, peerAddr)) :
      Starts m .advance (.register socket localAddr peerAddr) m.el
  | first (hphase : m.phase = .start) (hticker : m.el.options.ticker) : Starts m .advance .tick m.el
  | tick (hphase : m.phase = .ticking) (hnext : m.nextTick) : Starts m (.tick true) .tick m.el

variable [Codec κ Msg] [EventHandler η κ Msg]

/-- **What a step can do.** -/
inductive Moves (m : Machine η κ) : Label η → Machine η κ → Prop
  /-- no connection and no queue is touched -/
  | idles {l : Label η} {el' : EventLoop η κ} {phase : Phase} {nextTick : Bool} (hel : m.el.Neutral el')
      (hphase : phase = m.phase ∨ m.phase.Live ∧ phase.Live) : Moves m l ⟨el', phase, nextTick⟩
  | pollFails {e : IoError} (he : e.kind ≠ .interrupted) : Moves m (.pollError e) (m.goto (.exited (.error e)))
  | gets {l : Label η} (priority : Prioity) (cmd : Command)
      (hl : l = .trigger cmd ∨ ∃ s la pa, l = .accept s la pa ∧ cmd = .register s la pa) :
      Moves m l (m.receive priority cmd)
  | mints (n : Nat) : Moves m (.mint n) { m with el := { m.el with minted := m.el.minted + n } }
  | drops {res : IoResult Unit} (hphase : m.phase = .exited res) :
      Moves m .drop { m with el := dropAll m.el, phase := .dropped }
  | works {l : Label η} {task : Task} {el₀ t el' : EventLoop η κ} {phase : Phase} {nextTick : Bool}
      (hs : Starts m l task el₀) (h : task.run el₀ = .ok ⟨⟩ t) (hel : t.Neutral el') (hphase : phase.Live) :
      Moves m l ⟨el', phase, nextTick⟩
  /-- `run_loop` returns; if the task was a registration for `accept_process`, the listeners are put back -/
  | ends {l : Label η} {task : Task} {el₀ t el' : EventLoop η κ} {e : IoError} {res : IoResult Unit} {nextTick : Bool}
      (hs : Starts m l task el₀) (h : task.run el₀ = .error e t) (hel : t.Neutral el')
      (hres : res = .error e ∨ m.phase = .start ∧ res = .ok ())
      (hlisteners : el' = t ∨ ∃ idx ls evs ls', m.phase = .accepting idx ls evs ∧
        el' = { t with listeners := some ls' }) : Moves m l ⟨el', .exited res, nextTick⟩

variable {m m' : Machine η κ} {l : Label η}

omit [Codec κ Msg] [EventHandler η κ Msg] in
theorem neutral_refl (el : EventLoop η κ) : el.Neutral el :=
  ⟨rfl, rfl, rfl, rfl, rfl, rfl, List.suffix_refl _, List.prefix_refl _, rfl, rfl, rfl, rfl, List.suffix_refl _, id⟩

/-- A method on whose errors `run_loop` returns. -/
theorem moves_call {task : Task} {el₀ : EventLoop η κ} (hs : Starts m l task el₀) (nextTick : Bool)
    {next : Unit → Phase} (hnext : (next ⟨⟩).Live) :
    Moves m l (({ m with el := el₀, nextTick } : Machine η κ).call task.run next) := by
  unfold call
  cases h : task.run el₀ with
  | ok a t => exact .works hs h (neutral_refl t) hnext
  | error e t => exact .ends hs h (neutral_refl t) (Or.inl rfl) (Or.inl rfl)

theorem moves_runTick (hs : Starts m l .tick m.el) : Moves m l m.runTick := by
  unfold runTick
  cases h : onTick (η := η) (κ := κ) m.el with
  | ok delay t => exact .works (t := t) hs (by simp [Task.run, bind_apply, h]) (neutral_refl t) trivial
  | error e t =>
    exact .ends (e := e) hs (by simp [Task.run, bind_apply, h]) (neutral_refl t) (Or.inl rfl) (Or.inl rfl)

theorem moves_firstTick (hphase : m.phase = .start) : Moves m .advance m.firstTick := by
  have hlive : m.phase.Live := by rw [hphase]; trivial
  unfold firstTick
  split
  · rename_i hticker
    cases h : onTick (η := η) (κ := κ) m.el with
    | ok delay t =>
      exact .works (t := t) (.first hphase hticker) (by simp [Task.run, bind_apply, h]) (neutral_refl t) trivial
    | error e t =>
      exact .ends (e := e) (.first hphase hticker) (by simp [Task.run, bind_apply, h]) (neutral_refl t)
        (Or.inr ⟨hphase, rfl⟩) (Or.inl rfl)
  · exact .idles (neutral_refl _) (Or.inr ⟨hlive, trivial⟩)

theorem moves_handleEvent {ev : Event} {evs : List Event} (hphase : m.phase = .events (ev :: evs)) :
    Moves m .advance (m.handleEvent ev evs) := by
  have hlive : m.phase.Live := by rw [hphase]; trivial
  unfold handleEvent
  split
  · refine .idles ⟨rfl, rfl, rfl, rfl, rfl, rfl, List.suffix_refl _, List.prefix_refl _, rfl, rfl, rfl, rfl,
      List.suffix_refl _, id⟩ (Or.inr ⟨hlive, trivial⟩)
  · rename_i hwake
    cases hl : isListenerToken ev.token with
    | some idx =>
      simp only
      cases m.el.listeners with
      | none => exact .idles (neutral_refl _) (Or.inr ⟨hlive, trivial⟩)
      | some ls => exact .idles (neutral_listeners _ _) (Or.inr ⟨hlive, trivial⟩)
    | none => exact moves_call (.io hphase hwake hl) m.nextTick trivial

theorem moves_acceptOne {idx : Nat} {ls : List Listener} {evs : List Event}
    (hphase : m.phase = .accepting idx ls evs) : Moves m .advance (m.acceptOne idx ls evs) := by
  have hlive : m.phase.Live := by rw [hphase]; trivial
  unfold acceptOne
  cases hl : ls[idx]? with
  | none => exact .idles (neutral_listeners _ _) (Or.inr ⟨hlive, trivial⟩)
  | some li =>
    simp only
    rcases ha : li.accept with ⟨⟨e⟩ | ⟨socket, peerAddr⟩, li'⟩
    · exact .idles (neutral_listeners _ _) (Or.inr ⟨hlive, trivial⟩)
    · have hreg : m.registration = some (socket, li'.addr, peerAddr) := by
        simp [registration, hphase, hl, ha, Listener.localAddr]
      simp only [Listener.localAddr]
      cases h : EventLoop.register socket li'.addr peerAddr m.el with
      | ok a t => exact .works (.accepted hphase hreg) h (neutral_refl t) trivial
      | error e t =>
        exact .ends (.accepted hphase hreg) h (neutral_listeners t _) (Or.inl rfl)
          (Or.inr ⟨idx, ls, evs, _, hphase, rfl⟩)

theorem advance_moves (h : m.advance = some m') : Moves m .advance m' := by
  unfold advance at h
  cases hphase : m.phase with
  | start =>
    rw [hphase] at h
    cases h
    exact moves_firstTick hphase
  | top =>
    rw [hphase] at h
    cases h
    exact .idles (neutral_refl _) (Or.inr ⟨by rw [hphase]; trivial, trivial⟩)
  | draining left evs =>
    rw [hphase] at h
    have hidle : Moves m .advance (m.goto (.events evs)) :=
      .idles (neutral_refl _) (Or.inr ⟨by rw [hphase]; trivial, trivial⟩)
    cases left with
    | zero =>
      cases h
      exact hidle
    | succ left =>
      simp only at h
      cases hq : takeCommand m.el.handle with
      | none =>
        rw [hq] at h
        cases h
        exact hidle
      | some qh =>
        obtain ⟨⟨cmd, origin⟩, h'⟩ := qh
        rw [hq] at h
        cases h
        by_cases hcmd : ∃ s l p, cmd = .register s l p
        · obtain ⟨s, la, pa, rfl⟩ := hcmd
          exact moves_call (.ordered hphase (by simp [registration, hphase, hq]) hq) m.nextTick trivial
        · exact moves_call (.command hphase hq fun s la pa e => hcmd ⟨s, la, pa, e⟩) m.nextTick trivial
  | events evs =>
    rw [hphase] at h
    cases evs with
    | nil =>
      cases h
      exact .idles (neutral_refl _) (Or.inr ⟨by rw [hphase]; trivial, trivial⟩)
    | cons ev evs =>
      cases h
      exact moves_handleEvent hphase
  | accepting idx ls evs =>
    rw [hphase] at h
    cases h
    exact moves_acceptOne hphase
  | polling pending => rw [hphase] at h; cases h
  | ticking => rw [hphase] at h; cases h
  | exited res => rw [hphase] at h; cases h
  | dropped => rw [hphase] at h; cases h

/-- **Every step moves.** -/
theorem step_moves (h : step m l = some m') : Moves m l m' := by
  cases l with
  | advance => exact advance_moves h
  | poll evs =>
    unfold step at h
    cases hphase : m.phase with
    | polling pending =>
      rw [hphase] at h
      cases h
      exact .idles (neutral_refl _) (Or.inr ⟨by rw [hphase]; trivial, by cases pending <;> trivial⟩)
    | _ => rw [hphase] at h; cases h
  | pollError e =>
    unfold step at h
    cases hphase : m.phase with
    | polling pending =>
      rw [hphase] at h
      by_cases he : e.kind = .interrupted
      · simp only [he, if_true] at h
        cases h
        exact .idles (neutral_refl _) (Or.inr ⟨by rw [hphase]; trivial, trivial⟩)
      · simp only [he, if_false] at h
        cases h
        exact .pollFails he
    | _ => rw [hphase] at h; cases h
  | tick due =>
    unfold step at h
    cases hphase : m.phase with
    | ticking =>
      rw [hphase] at h
      cases h
      split
      · rename_i hdue
        obtain ⟨hnext, rfl⟩ := Bool.and_eq_true_iff.mp hdue
        exact moves_runTick (.tick hphase hnext)
      · exact .idles (neutral_refl _) (Or.inr ⟨by rw [hphase]; trivial, trivial⟩)
    | _ => rw [hphase] at h; cases h
  | trigger cmd => cases h; exact .gets _ _ (Or.inl rfl)
  | accept socket localAddr peerAddr => cases h; exact .gets _ _ (Or.inr ⟨_, _, _, rfl, rfl⟩)
  | mint n => cases h; exact .mints n
  | handler s => cases h; exact .idles (neutral_handler _ s) (Or.inl rfl)
  | drop =>
    unfold step at h
    cases hphase : m.phase with
    | exited res =>
      rw [hphase] at h
      cases h
      exact .drops hphase
    | _ => rw [hphase] at h; cases h

/-- **How `run_loop` comes to return**: it had returned before, or `poll` failed, or a task did. -/
theorem Moves.exited {res : IoResult Unit} (h : Moves m l m') (hphase : m'.phase = .exited res) :
    m.phase = .exited res ∨ (∃ e, l = .pollError e ∧ e.kind ≠ .interrupted ∧ res = .error e ∧ m'.el = m.el) ∨
      ∃ task el₀ e t, Starts m l task el₀ ∧ task.run el₀ = .error e t ∧
        (res = .error e ∨ m.phase = .start ∧ res = .ok ()) ∧
        (m'.el = t ∨ ∃ idx ls evs ls', m.phase = .accepting idx ls evs ∧ m'.el = { t with listeners := some ls' }) := by
  cases h with
  | @idles _ el' phase nextTick hel hph =>
    obtain rfl : phase = .exited res := hphase
    rcases hph with hph | ⟨-, hlive⟩
    · exact Or.inl hph.symm
    · exact hlive.elim
  | pollFails he =>
    cases hphase
    exact Or.inr (Or.inl ⟨_, rfl, he, rfl, rfl⟩)
  | gets priority cmd _ => exact Or.inl hphase
  | mints n => exact Or.inl hphase
  | drops hph => cases hphase
  | @works _ task el₀ t el' phase nextTick hs h hel hlive =>
    obtain rfl : phase = .exited res := hphase
    exact hlive.elim
  | ends hs h hel hres hlisteners =>
    cases hphase
    exact Or.inr (Or.inr ⟨_, _, _, _, hs, h, hres, hlisteners⟩)

/-- How a step ends that has run a task: the loop goes on, or `run_loop` returns. -/
inductive Finishes (task : Task) (el₀ : EventLoop η κ) (m' : Machine η κ) : Prop
  | goesOn (t : EventLoop η κ) (hrun : task.run el₀ = .ok ⟨⟩ t) (hel : t.Neutral m'.el) (hlive : m'.phase.Live)
  | returns (e : IoError) (t : EventLoop η κ) (hrun : task.run el₀ = .error e t) (hel : t.Neutral m'.el)
      (res : IoResult Unit) (hphase : m'.phase = .exited res)

theorem finishes_call (task : Task) (m : Machine η κ) {next : Unit → Phase} (hnext : (next ⟨⟩).Live) :
    Finishes task m.el (m.call task.run next) := by
  unfold call
  cases h : task.run m.el with
  | ok a t => exact .goesOn t h (neutral_refl t) hnext
  | error e t => exact .returns e t h (neutral_refl t) _ rfl

/-- **A step that starts a task runs it.** -/
theorem Starts.finishes {task : Task} {el₀ : EventLoop η κ} (hs : Starts m l task el₀) (hstep : step m l = some m') :
    Finishes task el₀ m' := by
  cases hs with
  | @command left evs q h hphase hq hcmd =>
    simp only [step, advance, hphase, hq, Option.some.injEq] at hstep
    subst hstep
    exact finishes_call (.command q.cmd) ⟨m.el.withHandle h, _, m.nextTick⟩ trivial
  | @io ev evs hphase hwake hlistener =>
    simp only [step, advance, hphase, handleEvent, if_neg hwake, hlistener, Option.some.injEq] at hstep
    subst hstep
    exact finishes_call (.io ev.token ev) m trivial
  | @ordered left evs socket localAddr peerAddr q h hphase hreg hq =>
    have hcmd : q.cmd = .register socket localAddr peerAddr := by
      obtain ⟨cmd, origin⟩ := q
      simp only [registration, hphase, hq] at hreg
      cases cmd <;> cases hreg
      rfl
    simp only [step, advance, hphase, hq, hcmd, Option.some.injEq] at hstep
    subst hstep
    exact finishes_call (.register socket localAddr peerAddr) ⟨m.el.withHandle h, _, m.nextTick⟩ trivial
  | @accepted idx ls evs socket localAddr peerAddr hphase hreg =>
    simp only [step, advance, hphase, Option.some.injEq] at hstep
    subst hstep
    unfold acceptOne
    simp only [registration, hphase] at hreg
    cases hl : ls[idx]? with
    | none => rw [hl] at hreg; cases hreg
    | some li =>
      rw [hl] at hreg
      simp only at hreg ⊢
      rcases ha : li.accept with ⟨⟨e⟩ | ⟨s, pa⟩, li'⟩
      · rw [ha] at hreg
        cases hreg
      · rw [ha] at hreg
        simp only [Listener.localAddr] at hreg ⊢
        cases hreg
        cases h : EventLoop.register socket li'.addr peerAddr m.el with
        | ok a t => exact .goesOn t h (neutral_refl t) trivial
        | error e t => exact .returns e t h (neutral_listeners t _) _ rfl
  | first hphase hticker =>
    simp only [step, advance, hphase, firstTick, hticker, if_true, Option.some.injEq] at hstep
    subst hstep
    cases h : onTick (η := η) (κ := κ) m.el with
    | ok delay t => exact .goesOn t (by simp [Task.run, bind_apply, h]) (neutral_refl t) trivial
    | error e t => exact .returns e t (by simp [Task.run, bind_apply, h]) (neutral_refl t) _ rfl
  | tick hphase hnext =>
    simp only [step, hphase, hnext, Bool.and_true, if_true, Option.some.injEq] at hstep
    subst hstep
    unfold runTick
    cases h : onTick (η := η) (κ := κ) m.el with
    | ok delay t => exact .goesOn t (by simp [Task.run, bind_apply, h]) (neutral_refl t) trivial
    | error e t => exact .returns e t (by simp [Task.run, bind_apply, h]) (neutral_refl t) _ rfl

/-! ## Runs -/

/-- As long as the loop runs, no connection has a rest of the current read. -/
def Calm (m : Machine η κ) : Prop := m.phase.Live → ∀ k, m.el.SettledAt k

end Machine

namespace EventLoop

variable [Codec κ Msg] [EventHandler η κ Msg]

/-- What happens to the state of a loop in its steps. -/
inductive Evolves (el : EventLoop η κ) : EventLoop η κ → Prop
  | change {el' : EventLoop η κ} (h : Change el el') : Evolves el el'
  | takes {q : Queued} {h : EventLoopHandle} (hq : Machine.takeCommand el.handle = some (q, h)) :
      Evolves el (el.withHandle h)
  | gets (priority : Prioity) (cmd : Command) : Evolves el (el.withHandle (el.handle.trigger priority ⟨cmd, none⟩).2)
  | mints (n : Nat) : Evolves el { el with minted := el.minted + n }
  | drops {key : Nat} {i : Incarnation κ} (hi : el.connections.get key = some i) :
      Evolves el (el.record (.drops i.id))

variable {el el' t : EventLoop η κ}

theorem evolves_of_changes (h : ReflTransGen Change el el') : ReflTransGen Evolves el el' :=
  ReflTransGen.mono (fun _ _ => .change) _ _ h

theorem Neutral.evolves (h : el.Neutral el') : Evolves el el' := .change h.change

omit [Codec κ Msg] [EventHandler η κ Msg] in
theorem recordAll_eq (is : List (Incarnation κ)) : ∀ el : EventLoop η κ,
    is.foldl (fun el i => el.record (.drops i.id)) el =
      { el with trace := el.trace ++ is.map fun i => .drops i.id } := by
  induction is with
  | nil => intro el; simp
  | cons i is ih =>
    intro el
    rw [List.foldl_cons, ih]
    simp [record, List.append_assoc]

theorem recordAll_evolves (is : List (Incarnation κ)) :
    ∀ el : EventLoop η κ, (∀ i ∈ is, ∃ key, el.connections.get key = some i) →
      ReflTransGen Evolves el (is.foldl (fun el i => el.record (.drops i.id)) el) := by
  induction is with
  | nil => exact fun _ _ => .refl
  | cons i is ih =>
    intro el his
    obtain ⟨key, hi⟩ := his i List.mem_cons_self
    exact .head (.drops hi) (ih _ fun j hj => his j (List.mem_cons_of_mem _ hj))

theorem dropAll_evolves (el : EventLoop η κ) : ReflTransGen Evolves el (Machine.dropAll el) := by
  refine recordAll_evolves _ _ fun i hi => ?_
  obtain ⟨key, -, hkey⟩ := List.mem_filterMap.mp hi
  exact ⟨key, hkey⟩

end EventLoop

namespace Machine

open EventLoop Runs

variable [Codec κ Msg] [EventHandler η κ Msg] {m m' : Machine η κ} {l : Label η} {ls : List (Label η)}

omit [Codec κ Msg] [EventHandler η κ Msg] in
theorem Starts.live {task : Task} {el₀ : EventLoop η κ} (h : Starts m l task el₀) : m.phase.Live := by
  cases h with
  | command hphase hq hcmd => rw [hphase]; trivial
  | io hphase _ _ => rw [hphase]; trivial
  | ordered hphase _ _ => rw [hphase]; trivial
  | accepted hphase _ => rw [hphase]; trivial
  | first hphase _ => rw [hphase]; trivial
  | tick hphase _ => rw [hphase]; trivial

/-- What `try_recv` takes, and what it leaves. -/
theorem takeCommand_some {h h' : EventLoopHandle} {q : Queued} (hq : takeCommand h = some (q, h')) :
    h'.idx = h.idx ∧ h'.wakes = h.wakes ∧ h'.awoken = h.awoken ∧ h'.connCount = h.connCount ∧
      (h.urgent = q :: h'.urgent ∧ h'.common = h.common ∨
        h.urgent = [] ∧ h'.urgent = [] ∧ h.common = q :: h'.common) := by
  unfold takeCommand at hq
  cases hu : h.urgent with
  | cons q' rest =>
    rw [hu] at hq
    cases hq
    exact ⟨rfl, rfl, rfl, rfl, Or.inl ⟨rfl, rfl⟩⟩
  | nil =>
    rw [hu] at hq
    cases hc : h.common with
    | cons q' rest =>
      rw [hc] at hq
      cases hq
      exact ⟨rfl, rfl, rfl, rfl, Or.inr ⟨rfl, rfl, rfl⟩⟩
    | nil =>
      rw [hc] at hq
      cases hq

theorem queued_takeCommand {h h' : EventLoopHandle} {q : Queued} (hq : takeCommand h = some (q, h')) :
    q ∈ h.queued ∧ ∀ q' ∈ h'.queued, q' ∈ h.queued := by
  obtain ⟨-, -, -, -, ⟨hu, hc⟩ | ⟨hu, hu', hc⟩⟩ := takeCommand_some hq
  · refine ⟨by simp [EventLoopHandle.queued, hu], fun q' hq' => ?_⟩
    rw [EventLoopHandle.queued, hc] at hq'
    rw [EventLoopHandle.queued, hu]
    exact List.mem_cons_of_mem _ hq'
  · refine ⟨by simp [EventLoopHandle.queued, hc], fun q' hq' => ?_⟩
    rw [EventLoopHandle.queued, hu', List.nil_append] at hq'
    rw [EventLoopHandle.queued, hu, hc, List.nil_append]
    exact List.mem_cons_of_mem _ hq'

/-- One command is taken; the others stay. -/
theorem takeCommand_leaves {h h' : EventLoopHandle} {q q' : Queued} (hq : takeCommand h = some (q, h'))
    (hq' : q' ∈ h.queued) : q' = q ∨ q' ∈ h'.queued := by
  obtain ⟨-, -, -, -, ⟨hu, hc⟩ | ⟨hu, hu', hc⟩⟩ := takeCommand_some hq
  · rw [EventLoopHandle.queued, hu, List.cons_append] at hq'
    rw [EventLoopHandle.queued, hc]
    exact List.mem_cons.mp hq'
  · rw [EventLoopHandle.queued, hu, hc, List.nil_append] at hq'
    rw [EventLoopHandle.queued, hu', List.nil_append]
    exact List.mem_cons.mp hq'

omit [Codec κ Msg] [EventHandler η κ Msg] in
theorem nextCommand_draining {left : Nat} {evs : List Event} {q : Queued} {h : EventLoopHandle}
    (hphase : m.phase = .draining (left + 1) evs) (hq : takeCommand m.el.handle = some (q, h)) :
    m.nextCommand = some q.cmd := by
  simp [nextCommand, hphase, hq]

/-- Handling the next command. -/
theorem advance_command {cmd : Command} (hcmd : m.nextCommand = some cmd) (hstep : step m .advance = some m') :
    ∃ left evs q h, takeCommand m.el.handle = some (q, h) ∧ q.cmd = cmd ∧
      m' = ({ m with el := m.el.withHandle h } : Machine η κ).call (handleCommand cmd) fun _ => .draining left evs := by
  unfold nextCommand at hcmd
  cases hphase : m.phase with
  | draining left evs =>
    rw [hphase] at hcmd
    cases left with
    | zero => cases hcmd
    | succ left =>
      obtain ⟨⟨q, h⟩, hq, rfl⟩ := Option.map_eq_some_iff.mp hcmd
      unfold step advance at hstep
      rw [hphase] at hstep
      simp only [hq, Option.some.injEq] at hstep
      exact ⟨left, evs, q, h, hq, rfl, hstep.symm⟩
  | _ => rw [hphase] at hcmd; cases hcmd

omit [Codec κ Msg] [EventHandler η κ Msg] in
/-- A task starts with the connections of the machine. -/
theorem Starts.connections {task : Task} {el₀ : EventLoop η κ} (h : Starts m l task el₀) :
    el₀ = m.el ∨ ∃ q h', takeCommand m.el.handle = some (q, h') ∧ el₀ = m.el.withHandle h' := by
  cases h with
  | command hphase hq hcmd => exact Or.inr ⟨_, _, hq, rfl⟩
  | ordered hphase hr hq => exact Or.inr ⟨_, _, hq, rfl⟩
  | io _ _ _ | accepted _ _ | first _ _ | tick _ _ => exact Or.inl rfl

omit [Codec κ Msg] [EventHandler η κ Msg] in
/-- A task starts with everything as it is but the queues, where a command may be missing. -/
theorem Starts.withHandle {task : Task} {el₀ : EventLoop η κ} (h : Starts m l task el₀) :
    ∃ h', el₀ = m.el.withHandle h' ∧ h'.idx = m.el.handle.idx ∧ h'.wakes = m.el.handle.wakes ∧
      ∀ q ∈ h'.queued, q ∈ m.el.handle.queued := by
  rcases h.connections with rfl | ⟨q, h', hq, rfl⟩
  · exact ⟨m.el.handle, rfl, rfl, rfl, fun _ => id⟩
  · obtain ⟨hidx, hwakes, -, -, -⟩ := takeCommand_some hq
    exact ⟨h', rfl, hidx, hwakes, (queued_takeCommand hq).2⟩

omit [Codec κ Msg] [EventHandler η κ Msg] in
theorem Starts.settled {task : Task} {el₀ : EventLoop η κ} (h : Starts m l task el₀) (hcalm : m.Calm) :
    ∀ k, el₀.SettledAt k := by
  obtain ⟨h', rfl, -⟩ := h.withHandle
  exact hcalm h.live

omit [Codec κ Msg] [EventHandler η κ Msg] in
theorem settled_neutral {el el' : EventLoop η κ} (h : el.Neutral el') (hset : ∀ k, el.SettledAt k) :
    ∀ k, el'.SettledAt k := by
  intro k i hi
  rw [h.connections] at hi
  exact hset k i hi

/-- A task registers a socket, or it is a sequence of effects. -/
theorem Starts.effects {task : Task} {el₀ : EventLoop η κ} (h : Starts m l task el₀) (hcalm : m.Calm) :
    (∃ s la pa, task = .register s la pa ∧ m.registration = some (s, la, pa) ∧ l = .advance) ∨
      Leads AnyEffect AnyEffect task.run el₀ := by
  have hset := h.settled hcalm
  cases h with
  | command hphase hq hcmd =>
    exact Or.inr ((handleCommand_leads hcmd hset).mono (fun _ _ h => h.any) fun _ _ => id)
  | io hphase _ _ => exact Or.inr ((processIo_leads _ (hset _)).mono (fun _ _ h => h.any) fun _ _ => id)
  | ordered hphase hreg hq => exact Or.inl ⟨_, _, _, rfl, hreg, rfl⟩
  | accepted hphase hreg => exact Or.inl ⟨_, _, _, rfl, hreg, rfl⟩
  | first _ _ | tick _ _ => exact Or.inr (.bind (fun _ _ => id) (onTick_leads _) fun _ _ _ => .pure _)

/-- A loop that runs was running before. -/
theorem Moves.live (h : Moves m l m') (hlive : m'.phase.Live) : m.phase.Live := by
  cases h with
  | idles _ hphase => exact hphase.elim (fun he => he ▸ hlive) fun hl => hl.1
  | pollFails _ | drops _ | ends _ _ _ _ _ => exact hlive.elim
  | gets priority cmd _ => exact hlive
  | mints n => exact hlive
  | works hs _ _ _ => exact hs.live

theorem Moves.calm (h : Moves m l m') (hcalm : m.Calm) : m'.Calm := by
  cases h with
  | idles hel hphase =>
    intro hlive
    refine settled_neutral hel (hcalm ?_)
    rcases hphase with rfl | ⟨h, -⟩
    · exact hlive
    · exact h
  | pollFails he => exact fun h => h.elim
  | gets priority cmd _ => exact hcalm
  | mints n => exact hcalm
  | drops hphase => exact fun h => h.elim
  | works hs h hel hphase => exact fun _ => settled_neutral hel (Task.settled (hs.settled hcalm) h)
  | ends hs h hel => exact fun h => h.elim

theorem Moves.evolves (h : Moves m l m') (hcalm : m.Calm) : ReflTransGen Evolves m.el m'.el := by
  have hstart : ∀ {task : Task} {el₀ : EventLoop η κ}, Starts m l task el₀ → ReflTransGen Evolves m.el el₀ := by
    intro task el₀ hs
    rcases hs.connections with rfl | ⟨q, h', hq, rfl⟩
    · exact .refl
    · exact .single (.takes hq)
  cases h with
  | idles hel hphase => exact .single hel.evolves
  | pollFails he => exact .refl
  | gets priority cmd _ => exact .single (.gets priority cmd)
  | mints n => exact .single (.mints n)
  | drops hphase => exact dropAll_evolves m.el
  | works hs h hel hphase =>
    exact ((hstart hs).trans (evolves_of_changes ((Task.changes _ (hs.settled hcalm)).ok h))).tail hel.evolves
  | ends hs h hel =>
    exact ((hstart hs).trans (evolves_of_changes ((Task.changes _ (hs.settled hcalm)).error h))).tail hel.evolves

/-- A machine before its first step. -/
def initial (el : EventLoop η κ) : Machine η κ := ⟨el, .start, false⟩

omit [Codec κ Msg] [EventHandler η κ Msg] in
theorem initial_calm {el : EventLoop η κ} (h : el.Fresh) : (initial el).Calm := by
  intro _ k i hi
  simp [initial, h.connections] at hi

/-- **A run is a sequence of changes.** -/
theorem run_path {el : EventLoop η κ} (hfresh : el.Fresh) (hrun : run step (initial el) ls = some m) :
    ReflTransGen Evolves el m.el ∧ m.Calm := by
  refine run_invariant' (P := fun m => ReflTransGen Evolves el m.el ∧ m.Calm) (fun s l s' hs hstep => ?_)
    ⟨.refl, initial_calm hfresh⟩ hrun
  have hm := step_moves hstep
  exact ⟨hs.1.trans (hm.evolves hs.2), hm.calm hs.2⟩

/-- **The rule for runs**: what every change keeps holds after every run from a fresh loop. -/
theorem run_evolves {P : EventLoop η κ → Prop} (hP : ∀ el el', Evolves el el' → P el → P el') {el : EventLoop η κ}
    (hfresh : el.Fresh) (h0 : P el) (hrun : run step (initial el) ls = some m) : P m.el ∧ m.Calm :=
  ⟨invariant_of_steps (run_path hfresh hrun).1 hP h0, (run_path hfresh hrun).2⟩

end Machine
end Rnet
