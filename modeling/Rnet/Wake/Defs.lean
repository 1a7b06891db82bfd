import Rnet.Command
import Rnet.Lib.Runs
import Mathlib.Logic.Function.Basic

/-!
# Threads, queues and the wake-up, step by step

The protocol between `EventLoopHandle::trigger` and `EventLoop::run_loop`, one atomic action a step: the length check
of `trigger`, the channel send, the swap of `awoken`, the wake of the operating system, the two `is_empty` checks, the
return of `poll`, the reset of `awoken` and each `try_recv`. What a command or a callback does is left out, except
that it may call `trigger` on the loop's own thread. Threads are `some i`; `none` is the thread of the loop.

The system wake sets `signal`; the next return of `poll` hands out one `WAKE_TOKEN` event and clears it. The history
(`sent`, `taken`, `finished`) is only recorded. A stopped loop takes no more steps; its channels stay, since its
receivers live as long as the `EventLoop`.
-/

namespace Rnet.Wake

/-- A command in a queue: `num` counts the sends completed before this one. -/
structure Ticket (ι : Type) where
  num : Nat
  sender : Option ι
  cmd : Command
  deriving DecidableEq

/-- Where a thread stands in `trigger`. `num` is the number of the command it sent; a bare `wake` has none. -/
inductive SenderPc
  | idle
  /-- the queue is chosen, the send is next -/
  | chosen (cmd : Command) (spill : Bool)
  /-- the command is in its queue, the swap of `awoken` is next -/
  | sent (num : Option Nat)
  /-- the swap found `false`, the wake of the system is next -/
  | mustWake (num : Option Nat)
  /-- `trigger` returned `Ok(ok)` -/
  | answered (num : Option Nat) (ok : Bool)
  deriving DecidableEq

/-- The thread is not inside `trigger`. -/
def SenderPc.finished : SenderPc → Bool
  | .idle | .answered _ _ => true
  | _ => false

/-- The events of one poll that matter here: the `WAKE_TOKEN`, and all others. -/
inductive Event
  | wake
  | io
  deriving DecidableEq

/-- Where the loop stands. `evs` are the events of the last poll still to be handled, `left` is what is left of the
budget of `process_command`. -/
inductive LoopPc (ι : Type)
  | tick
  | checkUrgent
  | checkCommon
  | poll (pending : Bool)
  | drain (left : Nat) (evs : List Event)
  /-- the urgent queue was empty, `try_recv` on the common one is next -/
  | drainCommon (left : Nat) (evs : List Event)
  | handle (t : Ticket ι) (left : Nat) (evs : List Event)
  | events (evs : List Event)
  | callback (evs : List Event)
  /-- `run_loop` returned, while it handled `current` -/
  | stopped (current : Option (Ticket ι))

structure State (ι : Type) where
  urgent : List (Ticket ι)
  common : List (Ticket ι)
  awoken : Bool
  signal : Bool
  senders : Option ι → SenderPc
  loop : LoopPc ι
  /-- the commands sent, in order -/
  sent : List (Ticket ι)
  /-- the commands `process_command` took, in order -/
  taken : List (Ticket ι)
  /-- the commands it is done with, in order -/
  finished : List (Ticket ι)

inductive Label (ι : Type)
  /-- `trigger` with the command's own priority: the length check -/
  | trigger (σ : Option ι) (cmd : Command)
  /-- the acceptor's own send to the urgent queue begins -/
  | accept (i : ι) (socket : Socket) (localAddr peerAddr : NetworkAddress)
  | send (σ : Option ι)
  | swap (σ : Option ι)
  | osWake (σ : Option ι) (ok : Bool)
  /-- the next action of the loop, where nothing from outside decides it -/
  | advance
  /-- `poll` returns, with so many other events before and after the `WAKE_TOKEN` -/
  | pollReturn (before after : Nat)
  | pollInterrupted
  /-- `poll`, a command or a callback makes `run_loop` return -/
  | stop

variable {ι : Type}

namespace LoopPc

/-- The loop's thread runs a command or a callback, which may call `trigger`. -/
def busy : LoopPc ι → Bool
  | .tick | .handle _ _ _ | .callback _ => true
  | _ => false

/-- The command that was taken and not finished. -/
def current : LoopPc ι → List (Ticket ι)
  | .handle t _ _ => [t]
  | .stopped (some t) => [t]
  | _ => []

/-- The events still to be handled. -/
def pendingEvents : LoopPc ι → List Event
  | .drain _ evs | .drainCommon _ evs | .handle _ _ evs | .events evs | .callback evs => evs
  | _ => []

end LoopPc

namespace State

/-- A thread may call `trigger`: it is not inside a call, and the loop's own thread is in a command or callback. -/
def mayTrigger (s : State ι) (σ : Option ι) : Bool := (s.senders σ).finished && (σ.isSome || s.loop.busy)

def goto (s : State ι) (pc : LoopPc ι) : State ι := { s with loop := pc }

variable [DecidableEq ι]

def setSender (s : State ι) (σ : Option ι) (pc : SenderPc) : State ι :=
  { s with senders := Function.update s.senders σ pc }

/-- The ticket the next command sent gets. -/
def ticket (s : State ι) (σ : Option ι) (cmd : Command) : Ticket ι := ⟨s.sent.length, σ, cmd⟩

/-- `send` on the urgent or the common channel. -/
def push (s : State ι) (σ : Option ι) (cmd : Command) (spill : Bool) : State ι :=
  { s.setSender σ (.sent (some s.sent.length)) with
    urgent := if spill then s.urgent else s.urgent ++ [s.ticket σ cmd]
    common := if spill then s.common ++ [s.ticket σ cmd] else s.common
    sent := s.sent ++ [s.ticket σ cmd] }

/-- `awoken.swap(true)` -/
def swap (s : State ι) (σ : Option ι) (num : Option Nat) : State ι :=
  { s.setSender σ (if s.awoken then .answered num true else .mustWake num) with awoken := true }

/-- The wake of the operating system, which may fail. -/
def osWake (s : State ι) (σ : Option ι) (num : Option Nat) (ok : Bool) : State ι :=
  { s.setSender σ (.answered num ok) with signal := s.signal || ok }

/-- `try_recv` answered `Ok(c)`: the command is handled next. `Command::Wake` makes the loop call `wake`. -/
def take (s : State ι) (t : Ticket ι) (left : Nat) (evs : List Event) : State ι :=
  { s with
    taken := s.taken ++ [t]
    loop := .handle t left evs
    senders := if t.cmd = .wake then Function.update s.senders none (.sent none) else s.senders }

/-- The handling of `t` ends `run_loop`: a shutdown, or a wake that failed. -/
def ends (s : State ι) (t : Ticket ι) : Bool :=
  t.cmd = .shutdown || (t.cmd = .wake && s.senders none = .answered none false)

/-- The next action of the loop. -/
def advance (s : State ι) : Option (State ι) :=
  match s.loop with
  | .tick => if (s.senders none).finished then some (s.goto .checkUrgent) else none
  | .checkUrgent => some (s.goto (if s.urgent.isEmpty then .checkCommon else .poll true))
  | .checkCommon => some (s.goto (.poll !s.common.isEmpty))
  | .poll _ => none
  | .drain 0 evs => some (s.goto (.events evs))
  | .drain (left + 1) evs =>
    match s.urgent with
    | t :: rest => some ({ s with urgent := rest }.take t left evs)
    | [] => some (s.goto (.drainCommon left evs))
  | .drainCommon left evs =>
    match s.common with
    | t :: rest => some ({ s with common := rest }.take t left evs)
    | [] => some (s.goto (.events evs))
  | .handle t left evs =>
    if (s.senders none).finished then
      some ({ s with finished := s.finished ++ [t] }.goto (if s.ends t then .stopped none else .drain left evs))
    else none
  | .events [] => some (s.goto .tick)
  | .events (.wake :: evs) => some ({ s with awoken := false }.goto (.drain MAX_ASYNC_TASK_ONE_TIME evs))
  | .events (.io :: evs) => some (s.goto (.callback evs))
  | .callback evs => if (s.senders none).finished then some (s.goto (.events evs)) else none
  | .stopped _ => none

/-- The events one return of `poll` hands out. -/
def polled (s : State ι) (before after : Nat) : List Event :=
  List.replicate before .io ++ (if s.signal then [.wake] else []) ++ List.replicate after .io

/-- `poll` returns; if commands were pending before it, `process_command` is next. -/
def pollReturn (s : State ι) (pending : Bool) (before after : Nat) : State ι :=
  let evs := s.polled before after
  { s with signal := false, loop := if pending then .drain MAX_ASYNC_TASK_ONE_TIME evs else .events evs }

/-- `run_loop` returns early. -/
def stop (s : State ι) : Option (State ι) :=
  if (s.senders none).finished then
    match s.loop with
    | .poll _ | .tick | .callback _ => some (s.goto (.stopped none))
    | .handle t _ _ => some (s.goto (.stopped (some t)))
    | _ => none
  else none

end State

open State

variable [DecidableEq ι]

def step (s : State ι) : Label ι → Option (State ι)
  | .trigger σ cmd =>
    if s.mayTrigger σ then some (s.setSender σ (.chosen cmd (spills cmd.priority s.urgent.length))) else none
  | .accept i socket localAddr peerAddr =>
    if s.mayTrigger (some i) then some (s.setSender (some i) (.chosen (.register socket localAddr peerAddr) false))
    else none
  | .send σ =>
    match s.senders σ with
    | .chosen cmd spill => some (s.push σ cmd spill)
    | _ => none
  | .swap σ =>
    match s.senders σ with
    | .sent num => some (s.swap σ num)
    | _ => none
  | .osWake σ ok =>
    match s.senders σ with
    | .mustWake num => some (s.osWake σ num ok)
    | _ => none
  | .advance => s.advance
  | .pollReturn before after =>
    match s.loop with
    | .poll pending => some (s.pollReturn pending before after)
    | _ => none
  | .pollInterrupted =>
    match s.loop with
    | .poll _ => some (s.goto .checkUrgent)
    | _ => none
  | .stop => s.stop

/-- Nothing sent, nobody inside `trigger`, the loop before its first tick. -/
def start : State ι where
  urgent := []
  common := []
  awoken := false
  signal := false
  senders := fun _ => .idle
  loop := .tick
  sent := []
  taken := []
  finished := []

/-! ## What a step can do -/

/-- The steps of `step`, as a relation: one constructor for each kind of action, with its guard. -/
inductive Moves (s : State ι) : Label ι → State ι → Prop
  /-- only a low priority may choose the common queue -/
  | chooses (σ : Option ι) (cmd : Command) (spill : Bool) (hσ : s.mayTrigger σ = true)
      (hlow : spill = true → cmd.priority = .low) : Moves s (.trigger σ cmd) (s.setSender σ (.chosen cmd spill))
  | accepts (i : ι) (socket : Socket) (localAddr peerAddr : NetworkAddress)
      (hσ : s.mayTrigger (some i) = true) : Moves s (.accept i socket localAddr peerAddr)
        (s.setSender (some i) (.chosen (.register socket localAddr peerAddr) false))
  | sends (σ : Option ι) (cmd : Command) (spill : Bool) (hσ : s.senders σ = .chosen cmd spill) :
      Moves s (.send σ) (s.push σ cmd spill)
  | swaps (σ : Option ι) (num : Option Nat) (hσ : s.senders σ = .sent num) : Moves s (.swap σ) (s.swap σ num)
  | wakes (σ : Option ι) (num : Option Nat) (ok : Bool) (hσ : s.senders σ = .mustWake num) :
      Moves s (.osWake σ ok) (s.osWake σ num ok)
  | checks (hl : s.loop = .checkUrgent) :
      Moves s .advance (s.goto (if s.urgent.isEmpty then .checkCommon else .poll true))
  | checksCommon (hl : s.loop = .checkCommon) : Moves s .advance (s.goto (.poll !s.common.isEmpty))
  | takes (left : Nat) (evs : List Event) (t : Ticket ι) (rest : List (Ticket ι))
      (hl : s.loop = .drain (left + 1) evs) (hu : s.urgent = t :: rest) :
      Moves s .advance ({ s with urgent := rest }.take t left evs)
  | findsEmpty (left : Nat) (evs : List Event) (hl : s.loop = .drain (left + 1) evs) (hu : s.urgent = []) :
      Moves s .advance (s.goto (.drainCommon left evs))
  | takesCommon (left : Nat) (evs : List Event) (t : Ticket ι) (rest : List (Ticket ι))
      (hl : s.loop = .drainCommon left evs) (hc : s.common = t :: rest) :
      Moves s .advance ({ s with common := rest }.take t left evs)
  /-- the budget is used up, or both queues were empty -/
  | breaks (left : Nat) (evs : List Event)
      (hl : s.loop = .drain left evs ∨ s.loop = .drainCommon left evs) : Moves s .advance (s.goto (.events evs))
  | finishes (t : Ticket ι) (left : Nat) (evs : List Event) (hl : s.loop = .handle t left evs)
      (hq : (s.senders none).finished = true) : Moves s .advance
      ({ s with finished := s.finished ++ [t] }.goto (if s.ends t then .stopped none else .drain left evs))
  | resets (evs : List Event) (hl : s.loop = .events (.wake :: evs)) :
      Moves s .advance ({ s with awoken := false }.goto (.drain MAX_ASYNC_TASK_ONE_TIME evs))
  | ticks (hl : s.loop = .tick) (hq : (s.senders none).finished = true) : Moves s .advance (s.goto .checkUrgent)
  | eventsDone (hl : s.loop = .events []) : Moves s .advance (s.goto .tick)
  | calls (evs : List Event) (hl : s.loop = .events (.io :: evs)) : Moves s .advance (s.goto (.callback evs))
  | callReturns (evs : List Event) (hl : s.loop = .callback evs) (hq : (s.senders none).finished = true) :
      Moves s .advance (s.goto (.events evs))
  | retries (pending : Bool) (hl : s.loop = .poll pending) : Moves s .pollInterrupted (s.goto .checkUrgent)
  | returns (pending : Bool) (before after : Nat) (hl : s.loop = .poll pending) :
      Moves s (.pollReturn before after) (s.pollReturn pending before after)
  | stops (current : Option (Ticket ι)) (hc : s.loop.current = current.toList)
      (hq : (s.senders none).finished = true) : Moves s .stop (s.goto (.stopped current))

/-- The loop's own actions are among the moves. -/
theorem advance_moves {s s' : State ι} (h : s.advance = some s') : Moves s .advance s' := by
  unfold State.advance at h
  split at h
  · rename_i hl
    split at h
    · rename_i hq; cases h; exact .ticks hl hq
    · cases h
  · rename_i hl; cases h; exact .checks hl
  · rename_i hl; cases h; exact .checksCommon hl
  · cases h
  · rename_i evs hl; cases h; exact .breaks 0 evs (Or.inl hl)
  · rename_i left evs hl
    split at h
    · rename_i t rest hu; cases h; exact .takes left evs t rest hl hu
    · rename_i hu; cases h; exact .findsEmpty left evs hl hu
  · rename_i left evs hl
    split at h
    · rename_i t rest hc; cases h; exact .takesCommon left evs t rest hl hc
    · cases h; exact .breaks left evs (Or.inr hl)
  · rename_i t left evs hl
    split at h
    · rename_i hq; cases h; exact .finishes t left evs hl hq
    · cases h
  · rename_i hl; cases h; exact .eventsDone hl
  · rename_i evs hl; cases h; exact .resets evs hl
  · rename_i evs hl; cases h; exact .calls evs hl
  · rename_i evs hl
    split at h
    · rename_i hq; cases h; exact .callReturns evs hl hq
    · cases h
  · cases h

/-- **Every step is one of the moves.** -/
theorem step_moves {s s' : State ι} {l : Label ι} (h : step s l = some s') : Moves s l s' := by
  cases l with
  | trigger σ cmd =>
    simp only [step] at h
    split at h
    · rename_i hm
      cases h
      exact .chooses σ cmd _ hm low_of_spills
    · cases h
  | accept i socket localAddr peerAddr =>
    simp only [step] at h
    split at h
    · rename_i hm
      cases h
      exact .accepts i socket localAddr peerAddr hm
    · cases h
  | send σ =>
    simp only [step] at h
    split at h
    · rename_i cmd spill hσ; cases h; exact .sends σ cmd spill hσ
    · cases h
  | swap σ =>
    simp only [step] at h
    split at h
    · rename_i num hσ; cases h; exact .swaps σ num hσ
    · cases h
  | osWake σ ok =>
    simp only [step] at h
    split at h
    · rename_i num hσ; cases h; exact .wakes σ num ok hσ
    · cases h
  | advance => exact advance_moves h
  | pollReturn before after =>
    simp only [step] at h
    split at h
    · rename_i pending hl; cases h; exact .returns pending before after hl
    · cases h
  | pollInterrupted =>
    simp only [step] at h
    split at h
    · rename_i pending hl; cases h; exact .retries pending hl
    · cases h
  | stop =>
    simp only [step, State.stop] at h
    split at h
    · rename_i hq
      split at h
      · rename_i hl; cases h; exact .stops none (by rw [hl]; rfl) hq
      · rename_i hl; cases h; exact .stops none (by rw [hl]; rfl) hq
      · rename_i hl; cases h; exact .stops none (by rw [hl]; rfl) hq
      · rename_i t left evs hl; cases h; exact .stops (some t) (by rw [hl]; rfl) hq
      · cases h
    · cases h

/-! ## The thread of the loop -/

/-- Between commands and callbacks the thread of the loop is not inside `trigger`. -/
def Quiet (s : State ι) : Prop := s.loop.busy = false → (s.senders none).finished = true

omit [DecidableEq ι] in
theorem start_quiet : Quiet (start : State ι) := fun _ => rfl

/-- A thread that is inside `trigger` may go on. -/
theorem Quiet.setSender {s : State ι} (h : Quiet s) {σ : Option ι} (pc : SenderPc)
    (hσ : (s.senders σ).finished = false ∨ s.mayTrigger σ = true) :
    s.loop.busy = false → ((s.setSender σ pc).senders none).finished = true := by
  intro hb
  have hq := h hb
  have hne : (none : Option ι) ≠ σ := by
    rintro rfl
    rcases hσ with hσ | hσ
    · rw [hq] at hσ; cases hσ
    · simp [State.mayTrigger, hb] at hσ
  simpa [State.setSender, Function.update_of_ne hne] using hq

theorem Moves.quiet {s s' : State ι} {l : Label ι} (h : Moves s l s') (hq : Quiet s) : Quiet s' := by
  cases h with
  | chooses σ cmd spill hσ _ => exact hq.setSender _ (Or.inr hσ)
  | accepts i _ _ _ hσ => exact hq.setSender _ (Or.inr hσ)
  | sends σ cmd spill hσ => exact hq.setSender _ (Or.inl (by rw [hσ]; rfl))
  | swaps σ num hσ => exact hq.setSender _ (Or.inl (by rw [hσ]; rfl))
  | wakes σ num ok hσ => exact hq.setSender _ (Or.inl (by rw [hσ]; rfl))
  | checks hl => exact fun _ => hq (by rw [hl]; rfl)
  | checksCommon hl => exact fun _ => hq (by rw [hl]; rfl)
  | takes left evs t rest hl hu => exact fun hb => by cases hb
  | findsEmpty left evs hl hu => exact fun _ => hq (by rw [hl]; rfl)
  | takesCommon left evs t rest hl hc => exact fun hb => by cases hb
  | breaks left evs hl => exact fun _ => hq (by rcases hl with hl | hl <;> rw [hl] <;> rfl)
  | finishes t left evs hl hq' => exact fun _ => hq'
  | resets evs hl => exact fun _ => hq (by rw [hl]; rfl)
  | ticks hl hq' => exact fun _ => hq'
  | eventsDone hl => exact fun hb => by cases hb
  | calls evs hl => exact fun hb => by cases hb
  | callReturns evs hl hq' => exact fun _ => hq'
  | retries pending hl => exact fun _ => hq (by rw [hl]; rfl)
  | returns pending before after hl => exact fun _ => hq (by rw [hl]; rfl)
  | stops current hc hq' => exact fun _ => hq'

end Rnet.Wake
