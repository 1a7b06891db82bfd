import Rnet.Wake.Defs

/-!
# No lost wake-up

`Armed` links the flag, the signal and the place of the loop:

* while `awoken` is set, a signal is pending, or some thread is about to give one, or the loop holds a `WAKE_TOKEN`
  event it has not handled;
* a command that arrived after the loop looked at its queue belongs to a thread that is still to swap `awoken`, or
  `awoken` is set.

Every step keeps it (`Moves.armed`), and a loop that sleeps on a command violates it (`no_lost_wakeup`).
-/

namespace Rnet.Wake

open State Runs

variable {ι : Type} [DecidableEq ι]

/-- Some thread has sent its command and is about to swap `awoken`. -/
def State.SomeSent (s : State ι) : Prop := ∃ σ num, s.senders σ = .sent num

/-- Some thread found `awoken` unset and is about to wake the system. -/
def State.SomeMustWake (s : State ι) : Prop := ∃ σ num, s.senders σ = .mustWake num

structure Armed (s : State ι) : Prop where
  woken : s.awoken = true →
    s.signal = true ∨ s.SomeMustWake ∨ Event.wake ∈ s.loop.pendingEvents ∨ ∃ current, s.loop = .stopped current
  seen : s.loop = .checkCommon ∨ s.loop = .poll false → s.urgent ≠ [] → s.awoken = true ∨ s.SomeSent
  seenCommon : s.loop = .poll false → s.common ≠ [] → s.awoken = true ∨ s.SomeSent

omit [DecidableEq ι] in
theorem start_armed : Armed (start : State ι) where
  woken h := by cases h
  seen h := by rcases h with h | h <;> cases h
  seenCommon h := by cases h

/-! ## Threads -/

/-- Another thread's step leaves the waking threads alone. -/
theorem SomeMustWake.setSender {s : State ι} {σ : Option ι} {p : SenderPc}
    (hσ : ∀ num, s.senders σ ≠ .mustWake num) (h : s.SomeMustWake) : (s.setSender σ p).SomeMustWake := by
  obtain ⟨τ, num, hτ⟩ := h
  refine ⟨τ, num, ?_⟩
  have hne : τ ≠ σ := by
    rintro rfl
    exact hσ num hτ
  simpa [State.setSender, Function.update_of_ne hne] using hτ

theorem SomeSent.setSender {s : State ι} {σ : Option ι} {pc : SenderPc}
    (hσ : ∀ num, s.senders σ ≠ .sent num) (h : s.SomeSent) : (s.setSender σ pc).SomeSent := by
  obtain ⟨τ, num, hτ⟩ := h
  refine ⟨τ, num, ?_⟩
  have hne : τ ≠ σ := by
    rintro rfl
    exact hσ num hτ
  simpa [State.setSender, Function.update_of_ne hne] using hτ

/-- A step of one thread that gives no signal, sends nothing and leaves the flag. -/
theorem Armed.setSender {s : State ι} (h : Armed s) {σ : Option ι} (pc : SenderPc)
    (hσ : (s.senders σ).finished = true) : Armed (s.setSender σ pc) where
  woken ha := by
    have hm : ∀ num, s.senders σ ≠ .mustWake num := fun num e => by rw [e] at hσ; cases hσ
    rcases h.woken ha with hs | hm' | hw
    · exact Or.inl hs
    · exact Or.inr (Or.inl (SomeMustWake.setSender hm hm'))
    · exact Or.inr (Or.inr hw)
  seen hl hu := by
    have hm : ∀ num, s.senders σ ≠ .sent num := fun num e => by rw [e] at hσ; cases hσ
    exact (h.seen hl hu).imp_right (SomeSent.setSender hm)
  seenCommon hl hc := by
    have hm : ∀ num, s.senders σ ≠ .sent num := fun num e => by rw [e] at hσ; cases hσ
    exact (h.seenCommon hl hc).imp_right (SomeSent.setSender hm)

/-- **A send** leaves its thread before the swap. -/
theorem Armed.push {s : State ι} (h : Armed s) {σ : Option ι} {cmd : Command} {spill : Bool}
    (hσ : s.senders σ = .chosen cmd spill) : Armed (s.push σ cmd spill) := by
  have hsent : (s.push σ cmd spill).SomeSent := ⟨σ, some s.sent.length, by simp [State.push, State.setSender]⟩
  refine ⟨fun ha => ?_, fun _ _ => Or.inr hsent, fun _ _ => Or.inr hsent⟩
  rcases h.woken ha with hs | hm | hw
  · exact Or.inl hs
  · refine Or.inr (Or.inl ?_)
    have hne : ∀ num, s.senders σ ≠ .mustWake num := by simp [hσ]
    exact SomeMustWake.setSender (s := s) (p := .sent (some s.sent.length)) hne hm
  · exact Or.inr (Or.inr hw)

/-- **A swap** that finds the flag unset makes its thread the waking one. -/
theorem Armed.swap {s : State ι} (h : Armed s) {σ : Option ι} {num : Option Nat} (hσ : s.senders σ = .sent num) :
    Armed (s.swap σ num) := by
  refine ⟨fun _ => ?_, fun _ _ => Or.inl rfl, fun _ _ => Or.inl rfl⟩
  by_cases ha : s.awoken = true
  · have hne : ∀ num, s.senders σ ≠ .mustWake num := by simp [hσ]
    rcases h.woken ha with hs | hm | hw
    · exact Or.inl hs
    · exact Or.inr (Or.inl (SomeMustWake.setSender (s := s) hne hm))
    · exact Or.inr (Or.inr hw)
  · exact Or.inr (Or.inl ⟨σ, num, by simp [State.swap, State.setSender, ha]⟩)

/-- **A wake of the system** that succeeds leaves a signal. -/
theorem Armed.osWake {s : State ι} (h : Armed s) {σ : Option ι} {num : Option Nat}
    (hσ : s.senders σ = .mustWake num) : Armed (s.osWake σ num true) where
  woken _ := Or.inl (by simp [State.osWake])
  seen hl hu := (h.seen hl hu).imp_right (SomeSent.setSender (s := s) (by simp [hσ]))
  seenCommon hl hc := (h.seenCommon hl hc).imp_right (SomeSent.setSender (s := s) (by simp [hσ]))

/-! ## The loop -/

omit [DecidableEq ι] in
/-- The loop moves on and keeps the events it holds. -/
theorem Armed.woken_goto {s : State ι} (h : Armed s) {pc : LoopPc ι} (hl : ∀ current, s.loop ≠ .stopped current)
    (hw : Event.wake ∈ s.loop.pendingEvents → Event.wake ∈ pc.pendingEvents) (ha : s.awoken = true) :
    s.signal = true ∨ (s.goto pc).SomeMustWake ∨ Event.wake ∈ pc.pendingEvents ∨ ∃ current, pc = .stopped current := by
  rcases h.woken ha with hs | hm | hw' | ⟨current, hst⟩
  · exact Or.inl hs
  · exact Or.inr (Or.inl hm)
  · exact Or.inr (Or.inr (Or.inl (hw hw')))
  · exact absurd hst (hl current)

omit [DecidableEq ι] in
/-- The loop moves on, away from the poll. -/
theorem Armed.goto {s : State ι} (h : Armed s) {pc : LoopPc ι} (hpc : pc ≠ .checkCommon ∧ pc ≠ .poll false)
    (hl : ∀ current, s.loop ≠ .stopped current)
    (hw : Event.wake ∈ s.loop.pendingEvents → Event.wake ∈ pc.pendingEvents) : Armed (s.goto pc) where
  woken ha := h.woken_goto hl hw ha
  seen hl' := absurd hl' (by simpa [State.goto] using hpc)
  seenCommon hl' := absurd hl' hpc.2

/-- The loop moves on while it takes a command; the wake of `Command::Wake` is its own thread's. -/
theorem Armed.take {s : State ι} (h : Armed s) {t : Ticket ι} {left : Nat} {evs : List Event}
    (hl : ∀ current, s.loop ≠ .stopped current) (hev : s.loop.pendingEvents = evs)
    (hidle : (s.senders none).finished = true) : Armed (s.take t left evs) where
  woken ha := by
    rcases h.woken ha with hs | ⟨σ, num, hσ⟩ | hw' | ⟨current, hst⟩
    · exact Or.inl hs
    · refine Or.inr (Or.inl ⟨σ, num, ?_⟩)
      have hne : σ ≠ none := by
        rintro rfl
        rw [hσ] at hidle
        cases hidle
      simp only [State.take]
      split
      · rwa [Function.update_of_ne hne]
      · exact hσ
    · exact Or.inr (Or.inr (Or.inl (by rwa [hev] at hw')))
    · exact absurd hst (hl current)
  seen hl' := by rcases hl' with h' | h' <;> cases h'
  seenCommon hl' := by cases hl'

/-- **Every step keeps the invariant**, if no wake of the system fails. -/
theorem Moves.armed {s s' : State ι} {l : Label ι} (h : Moves s l s') (hok : ∀ σ, l ≠ .osWake σ false) (hq : Quiet s)
    (ha : Armed s) : Armed s' := by
  cases h with
  | chooses σ cmd spill hσ _ =>
    exact ha.setSender _ (by simp only [mayTrigger, Bool.and_eq_true] at hσ; exact hσ.1)
  | accepts i _ _ _ hσ =>
    exact ha.setSender _ (by simp only [mayTrigger, Bool.and_eq_true] at hσ; exact hσ.1)
  | sends σ cmd spill hσ => exact ha.push hσ
  | swaps σ num hσ => exact ha.swap hσ
  | wakes σ num ok hσ =>
    cases ok with
    | true => exact ha.osWake hσ
    | false => exact absurd rfl (hok σ)
  | checks hl =>
    cases hu : s.urgent with
    | nil =>
      -- nothing is in the urgent queue at this moment
      exact ⟨ha.woken_goto (by simp [hl]) (by simp [hl, LoopPc.pendingEvents]), fun _ hne => absurd hu hne,
        fun hp => by simp [State.goto] at hp⟩
    | cons t rest => exact ha.goto (by simp) (by simp [hl]) (by simp [hl, LoopPc.pendingEvents])
  | checksCommon hl =>
    refine ⟨ha.woken_goto (by simp [hl]) (by simp [hl, LoopPc.pendingEvents]), fun _ => ha.seen (Or.inl hl), ?_⟩
    intro hp hne
    -- the loop saw an empty common queue
    cases hc : s.common with
    | nil => exact absurd hc hne
    | cons t rest => simp [State.goto, hc] at hp
  | takes left evs t rest hl hu =>
    have ha' : Armed { s with urgent := rest } := ⟨ha.woken, by simp [hl], by simp [hl]⟩
    exact ha'.take (by simp [hl]) (by simp [hl, LoopPc.pendingEvents]) (hq (by rw [hl]; rfl))
  | findsEmpty left evs hl hu =>
    exact ha.goto (by simp) (by simp [hl]) (by simp [hl, LoopPc.pendingEvents])
  | takesCommon left evs t rest hl hc =>
    have ha' : Armed { s with common := rest } := ⟨ha.woken, by simp [hl], by simp [hl]⟩
    exact ha'.take (by simp [hl]) (by simp [hl, LoopPc.pendingEvents]) (hq (by rw [hl]; rfl))
  | breaks left evs hl =>
    refine ha.goto (by simp) ?_ ?_ <;> rcases hl with hl | hl <;> simp [hl, LoopPc.pendingEvents]
  | finishes t left evs hl hq' =>
    have ha' : Armed { s with finished := s.finished ++ [t] } := ⟨ha.woken, ha.seen, ha.seenCommon⟩
    by_cases he : s.ends t = true
    · rw [if_pos he]
      exact ⟨fun _ => Or.inr (Or.inr (Or.inr ⟨none, rfl⟩)), by simp [State.goto], by simp [State.goto]⟩
    · rw [if_neg he]
      exact ha'.goto (by simp) (by simp [hl]) (by simp [hl, LoopPc.pendingEvents])
  | resets evs hl =>
    refine ⟨?_, by simp [State.goto], by simp [State.goto]⟩
    intro hw
    cases hw
  | ticks hl _ => exact ha.goto (by simp) (by simp [hl]) (by simp [hl, LoopPc.pendingEvents])
  | eventsDone hl => exact ha.goto (by simp) (by simp [hl]) (by simp [hl, LoopPc.pendingEvents])
  | calls evs hl => exact ha.goto (by simp) (by simp [hl]) (by simp [hl, LoopPc.pendingEvents])
  | callReturns evs hl _ => exact ha.goto (by simp) (by simp [hl]) (by simp [hl, LoopPc.pendingEvents])
  | retries pending hl => exact ha.goto (by simp) (by simp [hl]) (by simp [hl, LoopPc.pendingEvents])
  | returns pending before after hl =>
    refine ⟨fun hw => ?_, ?_, ?_⟩
    · -- the signal becomes an event of this poll
      rcases ha.woken hw with hs | hm | hw' | ⟨current, hst⟩
      · have hev : Event.wake ∈ s.polled before after := by simp [State.polled, hs]
        refine Or.inr (Or.inr (Or.inl ?_))
        cases pending <;> exact hev
      · exact Or.inr (Or.inl hm)
      · simp [hl, LoopPc.pendingEvents] at hw'
      · simp [hl] at hst
    · cases pending <;> simp [State.pollReturn]
    · cases pending <;> simp [State.pollReturn]
  | stops current hc _ =>
    exact ⟨fun _ => Or.inr (Or.inr (Or.inr ⟨current, rfl⟩)), by simp [State.goto], by simp [State.goto]⟩

/-- The invariant holds in every state a run reaches. -/
theorem run_armed {ls : List (Label ι)} {t : State ι} (hwake : ∀ σ, Label.osWake σ false ∉ ls)
    (hrun : run step start ls = some t) : Armed t := by
  have hok : ∀ (ls : List (Label ι)) (s : State ι), (∀ σ, Label.osWake σ false ∉ ls) →
      Along step (fun _ l => ∀ σ, l ≠ .osWake σ false) s ls := by
    intro ls
    induction ls with
    | nil => exact fun _ _ => trivial
    | cons l ls ih =>
      intro s h
      exact ⟨fun σ e => h σ (e ▸ List.mem_cons_self), fun s' _ => ih s' fun σ hm => h σ (List.mem_cons_of_mem _ hm)⟩
  have hinv : Quiet t ∧ Armed t := by
    refine run_invariant (P := fun s => Quiet s ∧ Armed s) ?_ ⟨start_quiet, start_armed⟩ (hok ls start hwake) hrun
    intro s l s' ⟨hq, ha⟩ hl hs
    exact ⟨(step_moves hs).quiet hq, (step_moves hs).armed hl hq ha⟩
  exact hinv.2

/-- The loop sleeps while a command waits, nobody is about to wake it, and no signal is pending. -/
def State.Stuck (s : State ι) : Prop :=
  s.loop = .poll false ∧ (s.urgent ≠ [] ∨ s.common ≠ []) ∧ (∀ σ, (s.senders σ).finished = true) ∧ s.signal = false

/-- **No lost wake-up.** If no wake of the system fails, no run reaches a state in which the loop is blocked in `poll`
with a command in a queue, every thread done with its call, and no wake signal pending. -/
theorem no_lost_wakeup {ls : List (Label ι)} {t : State ι} (hwake : ∀ σ, Label.osWake σ false ∉ ls)
    (hrun : run step start ls = some t) : ¬ t.Stuck := by
  rintro ⟨hl, hq, hfin, hsig⟩
  have ha := run_armed hwake hrun
  have hnotSent : ¬ t.SomeSent := by
    rintro ⟨σ, num, hσ⟩
    have := hfin σ
    rw [hσ] at this
    cases this
  have hnotWake : ¬ t.SomeMustWake := by
    rintro ⟨σ, num, hσ⟩
    have := hfin σ
    rw [hσ] at this
    cases this
  have haw : t.awoken = true := by
    rcases hq with hu | hc
    · exact (ha.seen (Or.inr hl) hu).resolve_right hnotSent
    · exact (ha.seenCommon hl hc).resolve_right hnotSent
  rcases ha.woken haw with hs | hm | hw | ⟨current, hst⟩
  · rw [hsig] at hs; cases hs
  · exact hnotWake hm
  · simp [hl, LoopPc.pendingEvents] at hw
  · rw [hl] at hst; cases hst

/-- The loop goes to sleep, a thread sends a `Close` and wakes it. -/
def sleeperRun : List (Label Unit) :=
  [.advance, .advance, .advance, .trigger (some ()) (.close 0), .send (some ()), .swap (some ()),
    .osWake (some ()) true]

theorem no_lost_wakeup_sleeper : ∃ t, run step start sleeperRun = some t ∧
    (t.loop = .poll false ∧ t.urgent ≠ [] ∧ ∀ σ, (t.senders σ).finished = true) ∧ ¬ t.Stuck := by
  refine ⟨_, rfl, ⟨rfl, List.cons_ne_nil _ _, ?_⟩, no_lost_wakeup ?_ (show run step start sleeperRun = some _ from rfl)⟩
  · rintro (_ | _) <;> rfl
  · simp [sleeperRun]

end Rnet.Wake
