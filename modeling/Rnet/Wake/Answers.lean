import Rnet.Wake.Wakeup

/-!
# What the answer of `trigger` says

`trigger` answers `Ok(true)` if its swap found `awoken` set, or if its own wake of the system succeeded. The flag is
set before the system is woken and stays set when that fails. `Watched` counts what became of the wakes since the last
reset; between two resets there is one at most (`Exclusive`). So the answer is true of the state in which it is given,
unless the only wake has failed and the command still waits (`trigger_truthful`).
-/

namespace Rnet.Wake

open State Runs

variable {ι : Type}

/-- The threads and the loop, and what became of the wakes of the system since the last reset. -/
structure Watched (ι : Type) where
  state : State ι
  /-- a wake has succeeded since the last reset, so it is not handled yet -/
  woken : Bool
  /-- a wake has failed since the last reset -/
  failed : Bool

/-- The step is the reset of `awoken`. -/
def State.resets (s : State ι) : Label ι → Bool
  | .advance =>
    match s.loop with
    | .events (.wake :: _) => true
    | _ => false
  | _ => false

namespace Watched

/-- What is seen of a step that leads to `s`. -/
def observe (w : Watched ι) (l : Label ι) (s : State ι) : Watched ι :=
  match l with
  | .osWake _ ok => ⟨s, w.woken || ok, w.failed || !ok⟩
  | _ => if w.state.resets l then ⟨s, false, false⟩ else ⟨s, w.woken, w.failed⟩

@[simp] theorem observe_state (w : Watched ι) (l : Label ι) (s : State ι) : (w.observe l s).state = s := by
  unfold observe
  split
  · rfl
  · split <;> rfl

theorem observe_advance (w : Watched ι) (s : State ι) : w.observe .advance s =
    if w.state.resets .advance then ⟨s, false, false⟩ else ⟨s, w.woken, w.failed⟩ := rfl

def start : Watched ι := ⟨Wake.start, false, false⟩

/-- What `Ok(true)` for the command with a number says: a signal is not handled yet, or another thread is about to give
one, or the loop has taken the command. -/
def Justified (w : Watched ι) (σ : Option ι) (n : Nat) : Prop :=
  w.woken = true ∨ (∃ τ num, τ ≠ σ ∧ w.state.senders τ = .mustWake num) ∨ ∃ t ∈ w.state.taken, t.num = n

variable [DecidableEq ι]

def step (w : Watched ι) (l : Label ι) : Option (Watched ι) := (Wake.step w.state l).map (w.observe l)

theorem step_some {w w' : Watched ι} {l : Label ι} (h : w.step l = some w') :
    ∃ s, Wake.step w.state l = some s ∧ w' = w.observe l s := by
  obtain ⟨s, hs, rfl⟩ := Option.map_eq_some_iff.mp h
  exact ⟨s, hs, rfl⟩

/-- If the step makes `trigger` answer `Ok(true)`, the answer is justified at that moment. -/
def Truthful (w : Watched ι) (l : Label ι) : Prop :=
  ∀ w' σ n, w.step l = some w' → (l = .swap σ ∨ l = .osWake σ true) → w'.state.senders σ = .answered (some n) true →
    w'.Justified σ n

/-- The swap does not meet the flag of a wake that failed, unless the loop has taken the command. -/
def Unspoilt (w : Watched ι) (l : Label ι) : Prop :=
  ∀ σ n, l = .swap σ → w.state.senders σ = .sent (some n) → w.failed = true → ∃ t ∈ w.state.taken, t.num = n

/-! ## One wake between two resets -/

end Watched

/-- The wake signals that are not handled: pending in the system, or among the events of the last poll. -/
def State.signals (s : State ι) : Nat := s.signal.toNat + s.loop.pendingEvents.count .wake

namespace Watched

structure Exclusive (w : Watched ι) : Prop where
  lit : w.state.awoken = true → w.woken = true ∨ w.failed = true ∨ w.state.SomeMustWake
  set : w.woken = true ∨ w.failed = true → w.state.awoken = true
  one : w.failed = true → w.woken = false
  /-- a thread that is about to wake the system is the only one since the reset -/
  waking : ∀ σ num, w.state.senders σ = .mustWake num → w.state.awoken = true ∧ w.woken = false ∧ w.failed = false ∧
    ∀ τ num', w.state.senders τ = .mustWake num' → τ = σ
  signals : w.state.signals ≤ 1
  signalled : 0 < w.state.signals → w.woken = true

theorem start_exclusive : (start : Watched ι).Exclusive where
  lit h := by cases h
  set h := by rcases h with h | h <;> cases h
  one _ := rfl
  waking σ num h := by cases h
  signals := Nat.zero_le 1
  signalled h := absurd h (Nat.lt_irrefl 0)

variable {w : Watched ι} {s : State ι}

/-- The same threads are about to wake the system, and no signal comes. -/
theorem Exclusive.frame (h : w.Exclusive) (haw : s.awoken = w.state.awoken)
    (hmust : ∀ σ num, s.senders σ = .mustWake num ↔ w.state.senders σ = .mustWake num)
    (hsig : s.signals ≤ w.state.signals) : Exclusive ⟨s, w.woken, w.failed⟩ where
  lit ha := by
    rcases h.lit (haw ▸ ha) with hw | hf | ⟨σ, num, hσ⟩
    · exact Or.inl hw
    · exact Or.inr (Or.inl hf)
    · exact Or.inr (Or.inr ⟨σ, num, (hmust σ num).mpr hσ⟩)
  set hw := haw.trans (h.set hw)
  one := h.one
  waking σ num hσ := by
    obtain ⟨ha, hw, hf, hone⟩ := h.waking σ num ((hmust σ num).mp hσ)
    exact ⟨haw.trans ha, hw, hf, fun τ num' hτ => hone τ num' ((hmust τ num').mp hτ)⟩
  signals := hsig.trans h.signals
  signalled hpos := h.signalled (Nat.lt_of_lt_of_le hpos hsig)

/-- The loop goes on, and keeps no more signals than it has. -/
theorem Exclusive.goto (h : w.Exclusive) {pc : LoopPc ι}
    (hsig : pc.pendingEvents.count .wake ≤ w.state.loop.pendingEvents.count .wake) :
    Exclusive ⟨w.state.goto pc, w.woken, w.failed⟩ :=
  h.frame rfl (fun _ _ => Iff.rfl) (Nat.add_le_add_left hsig _)

variable [DecidableEq ι]

/-- A step of a thread that is not about to wake the system, before and after it. -/
theorem mustWake_update {senders : Option ι → SenderPc} {σ : Option ι} {pc : SenderPc}
    (hσ : ∀ num, senders σ ≠ .mustWake num) (hpc : ∀ num, pc ≠ .mustWake num) (τ : Option ι) (num : Option Nat) :
    Function.update senders σ pc τ = .mustWake num ↔ senders τ = .mustWake num := by
  by_cases hτ : τ = σ
  · subst hτ
    simp [hσ, hpc]
  · rw [Function.update_of_ne hτ]

theorem not_mustWake_of_finished {pc : SenderPc} (h : pc.finished = true) (num : Option Nat) : pc ≠ .mustWake num := by
  rintro rfl
  cases h

/-- The loop takes a command; the wake of `Command::Wake` is its own thread's. -/
theorem Exclusive.take (h : w.Exclusive) {urgent common : List (Ticket ι)} {t : Ticket ι} {left : Nat}
    {evs : List Event} (hev : w.state.loop.pendingEvents = evs) (hidle : (w.state.senders none).finished = true) :
    Exclusive ⟨({ w.state with urgent, common } : State ι).take t left evs, w.woken, w.failed⟩ := by
  have hsig : evs.count .wake ≤ w.state.loop.pendingEvents.count .wake := Nat.le_of_eq (by rw [hev])
  refine h.frame rfl (fun σ num => ?_) (Nat.add_le_add_left hsig _)
  simp only [State.take]
  split
  · exact mustWake_update (not_mustWake_of_finished hidle) (by simp) σ num
  · rfl

/-- **A swap** that finds the flag unset makes its thread the one that wakes the system. -/
theorem Exclusive.swap (h : w.Exclusive) {σ : Option ι} {num : Option Nat} (hσ : w.state.senders σ = .sent num) :
    Exclusive ⟨w.state.swap σ num, w.woken, w.failed⟩ := by
  by_cases ha : w.state.awoken = true
  · refine h.frame ha.symm (fun τ num' => ?_) (Nat.le_refl _)
    simp only [State.swap, State.setSender, ha, if_true]
    exact mustWake_update (by simp [hσ]) (by simp) τ num'
  · -- nobody else is about to wake the system, since that would have set the flag
    have hnone : ∀ τ num', w.state.senders τ ≠ .mustWake num' := fun τ num' hτ => ha (h.waking τ num' hτ).1
    have hw : w.woken = false := eq_false_of_ne_true fun hw => ha (h.set (Or.inl hw))
    have hf : w.failed = false := eq_false_of_ne_true fun hf => ha (h.set (Or.inr hf))
    have hself : (w.state.swap σ num).senders σ = .mustWake num := by simp [State.swap, State.setSender, ha]
    have honly : ∀ τ num', (w.state.swap σ num).senders τ = .mustWake num' → τ = σ := by
      intro τ num' hτ
      by_contra hne
      simp only [State.swap, State.setSender, Function.update_of_ne hne] at hτ
      exact hnone τ num' hτ
    exact {
      lit := fun _ => Or.inr (Or.inr ⟨σ, num, hself⟩)
      set := fun _ => rfl
      one := h.one
      waking := fun τ num' hτ => by
        obtain rfl := honly τ num' hτ
        exact ⟨rfl, hw, hf, honly⟩
      signals := h.signals
      signalled := h.signalled }

/-- **The wake of the system** succeeds or fails. -/
theorem Exclusive.osWake (h : w.Exclusive) {σ : Option ι} {num : Option Nat} (hσ : w.state.senders σ = .mustWake num)
    (ok : Bool) : Exclusive ⟨w.state.osWake σ num ok, w.woken || ok, w.failed || !ok⟩ := by
  obtain ⟨ha, hw, hf, hone⟩ := h.waking σ num hσ
  have hsig : w.state.signals = 0 := by
    by_contra hne
    rw [h.signalled (Nat.pos_of_ne_zero hne)] at hw
    cases hw
  have hsignal : w.state.signal = false := by
    cases hs : w.state.signal with
    | false => rfl
    | true => simp [State.signals, hs] at hsig
  have hnone : ∀ τ num', (w.state.osWake σ num ok).senders τ ≠ .mustWake num' := by
    intro τ num' hτ
    by_cases hne : τ = σ
    · subst hne
      simp [State.osWake, State.setSender] at hτ
    · simp only [State.osWake, State.setSender, Function.update_of_ne hne] at hτ
      exact hne (hone τ num' hτ)
  have hsig' : (w.state.osWake σ num ok).signals = ok.toNat := by
    have hcount : w.state.loop.pendingEvents.count .wake = 0 := by
      simp only [State.signals] at hsig
      omega
    show (w.state.signal || ok).toNat + w.state.loop.pendingEvents.count .wake = ok.toNat
    rw [hcount, hsignal, Bool.false_or, Nat.add_zero]
  exact {
    lit := fun _ => by cases ok <;> simp
    set := fun _ => ha
    one := fun h => by cases ok <;> simp_all
    waking := fun τ num' hτ => absurd hτ (hnone τ num')
    signals := by rw [hsig']; exact Bool.toNat_le ok
    signalled := fun hpos => by
      rw [hsig'] at hpos
      cases ok with
      | true => exact Bool.or_true _
      | false => cases hpos }

omit [DecidableEq ι] in
/-- **The reset**: the signal is handled, and there is no other. -/
theorem Exclusive.reset (h : w.Exclusive) {evs : List Event} {left : Nat} (hl : w.state.loop = .events (.wake :: evs)) :
    Exclusive ⟨({ w.state with awoken := false } : State ι).goto (.drain left evs), false, false⟩ := by
  have hone : w.state.signal.toNat + (evs.count .wake + 1) ≤ 1 := by
    have hs := h.signals
    rw [State.signals, hl] at hs
    simpa [LoopPc.pendingEvents] using hs
  have hw : w.woken = true := h.signalled (by
    rw [State.signals, hl]
    simp only [LoopPc.pendingEvents, List.count_cons_self]
    omega)
  have hsig : (({ w.state with awoken := false } : State ι).goto (.drain left evs)).signals = 0 := by
    show w.state.signal.toNat + evs.count .wake = 0
    omega
  exact {
    lit := fun ha => by cases ha
    set := fun hw => by rcases hw with hw | hw <;> cases hw
    one := fun hf => by cases hf
    waking := fun τ num hτ => absurd (h.waking τ num hτ).2.1 (by rw [hw]; simp)
    signals := by rw [hsig]; exact Nat.zero_le 1
    signalled := fun hpos => by rw [hsig] at hpos; cases hpos }

omit [DecidableEq ι] in
/-- A poll hands out the signal as an event. -/
theorem Exclusive.pollReturn (h : w.Exclusive) {pending : Bool} (hl : w.state.loop = .poll pending)
    (before after : Nat) : Exclusive ⟨w.state.pollReturn pending before after, w.woken, w.failed⟩ := by
  refine h.frame rfl (fun _ _ => Iff.rfl) ?_
  have hcount : (w.state.polled before after).count .wake = w.state.signal.toNat := by
    cases hs : w.state.signal <;> simp [State.polled, hs, List.count_replicate]
  have hpend : (w.state.pollReturn pending before after).loop.pendingEvents = w.state.polled before after := by
    cases pending <;> rfl
  rw [State.signals, State.signals, hpend, hcount, hl]
  simp [State.pollReturn, LoopPc.pendingEvents]

/-- **Every step keeps the invariant.** -/
theorem Exclusive.step {w' : Watched ι} {l : Label ι} (h : w.Exclusive) (hq : Quiet w.state)
    (hstep : w.step l = some w') : w'.Exclusive := by
  obtain ⟨s, hs, rfl⟩ := step_some hstep
  -- what neither wakes the system nor resets the flag leaves the counts alone
  have hplain : ∀ {pc : LoopPc ι}, w.state.resets .advance = false →
      pc.pendingEvents.count .wake ≤ w.state.loop.pendingEvents.count .wake →
      (w.observe .advance (w.state.goto pc)).Exclusive := by
    intro pc hr hsig
    rw [observe_advance, if_neg (by simp [hr])]
    exact h.goto hsig
  have hsend : ∀ {σ : Option ι} {pc : SenderPc} {s : State ι}, (∀ num, w.state.senders σ ≠ .mustWake num) →
      (∀ num, pc ≠ .mustWake num) → s.awoken = w.state.awoken → s.senders = Function.update w.state.senders σ pc →
      s.signals = w.state.signals → Exclusive ⟨s, w.woken, w.failed⟩ := by
    intro σ pc s hσ hpc ha hsnd hsig
    exact h.frame ha (fun τ num => by rw [hsnd]; exact mustWake_update hσ hpc τ num) (Nat.le_of_eq hsig)
  cases step_moves hs with
  | chooses σ cmd spill hσ _ =>
    simp only [mayTrigger, Bool.and_eq_true] at hσ
    exact hsend (not_mustWake_of_finished hσ.1) (by simp) rfl rfl rfl
  | accepts i _ _ _ hσ =>
    simp only [mayTrigger, Bool.and_eq_true] at hσ
    exact hsend (not_mustWake_of_finished hσ.1) (by simp) rfl rfl rfl
  | sends σ cmd spill hσ => exact hsend (by simp [hσ]) (by simp) rfl rfl rfl
  | swaps σ num hσ => exact h.swap hσ
  | wakes σ num ok hσ => exact h.osWake hσ ok
  | checks hl =>
    refine hplain (by simp [State.resets, hl]) ?_
    split <;> simp [LoopPc.pendingEvents]
  | checksCommon hl => exact hplain (by simp [State.resets, hl]) (by simp [LoopPc.pendingEvents])
  | takes left evs t rest hl hu =>
    rw [observe_advance, if_neg (by simp [State.resets, hl])]
    exact h.take (by rw [hl]; rfl) (hq (by rw [hl]; rfl))
  | findsEmpty left evs hl hu => exact hplain (by simp [State.resets, hl]) (by simp [LoopPc.pendingEvents, hl])
  | takesCommon left evs t rest hl hc =>
    rw [observe_advance, if_neg (by simp [State.resets, hl])]
    exact h.take (by rw [hl]; rfl) (hq (by rw [hl]; rfl))
  | breaks left evs hl =>
    rcases hl with hl | hl <;> exact hplain (by simp [State.resets, hl]) (by simp [LoopPc.pendingEvents, hl])
  | finishes t left evs hl hq' =>
    rw [observe_advance, if_neg (by simp [State.resets, hl])]
    refine h.frame rfl (fun _ _ => Iff.rfl) (Nat.add_le_add_left ?_ _)
    by_cases he : w.state.ends t = true <;> simp [State.goto, he, hl, LoopPc.pendingEvents]
  | resets evs hl =>
    rw [observe_advance, if_pos (by simp [State.resets, hl])]
    exact h.reset hl
  | ticks hl _ => exact hplain (by simp [State.resets, hl]) (by simp [LoopPc.pendingEvents])
  | eventsDone hl => exact hplain (by simp [State.resets, hl]) (by simp [LoopPc.pendingEvents])
  | calls evs hl => exact hplain (by simp [State.resets, hl]) (by simp [LoopPc.pendingEvents, hl])
  | callReturns evs hl _ => exact hplain (by simp [State.resets, hl]) (by simp [LoopPc.pendingEvents, hl])
  | retries pending hl => exact h.goto (by simp [LoopPc.pendingEvents])
  | returns pending before after hl => exact h.pollReturn hl before after
  | stops current hc _ => exact h.goto (by simp [LoopPc.pendingEvents])

/-! ## The answers -/

theorem Exclusive.truthful (h : w.Exclusive) {l : Label ι} (hok : w.Unspoilt l) : w.Truthful l := by
  intro w' σ n hstep hl hans
  obtain ⟨s, hs, rfl⟩ := step_some hstep
  rcases hl with rfl | rfl
  · cases step_moves hs with
    | swaps _ num hσ =>
      have ha : w.state.awoken = true := by
        by_contra ha
        simp [State.swap, State.setSender, ha, observe, State.resets] at hans
      obtain rfl : num = some n := by
        simpa [State.swap, State.setSender, ha, observe, State.resets] using hans
      rcases h.lit ha with hw | hf | ⟨τ, num', hτ⟩
      · exact Or.inl hw
      · exact Or.inr (Or.inr (hok σ n rfl hσ hf))
      · have hne : τ ≠ σ := fun e => by
          rw [e, hσ] at hτ
          cases hτ
        refine Or.inr (Or.inl ⟨τ, num', hne, ?_⟩)
        rw [observe_state]
        simp only [State.swap, State.setSender, Function.update_of_ne hne]
        exact hτ
  · exact Or.inl (Bool.or_true _)

/-- A swap that meets the flag of a failed wake answers `Ok(true)`, and only the loop can have made that true. -/
theorem Exclusive.unspoilt (h : w.Exclusive) {l : Label ι} (htrue : w.Truthful l) : w.Unspoilt l := by
  rintro σ n rfl hσ hf
  have ha : w.state.awoken = true := h.set (Or.inr hf)
  have hstep : w.step (.swap σ) = some ⟨w.state.swap σ (some n), w.woken, w.failed⟩ := by
    simp [Watched.step, Wake.step, hσ, observe, State.resets]
  have hans : (w.state.swap σ (some n)).senders σ = .answered (some n) true := by
    simp [State.swap, State.setSender, ha]
  rcases htrue _ σ n hstep (Or.inl rfl) hans with hw | ⟨τ, num, hne, hτ⟩ | ht
  · rw [h.one hf] at hw
    cases hw
  · have hτ' : w.state.senders τ = .mustWake num := (Function.update_of_ne hne _ _).symm.trans hτ
    rw [(h.waking τ num hτ').2.2.1] at hf
    cases hf
  · exact ht

/-- **`trigger`'s `Ok(true)` is truthful** in a run if and only if no swap of the run meets the flag that a failed wake
has left set, while its command still waits. -/
theorem trigger_truthful (ls : List (Label ι)) :
    Along step Truthful (start : Watched ι) ls ↔ Along step Unspoilt (start : Watched ι) ls := by
  have h0 : Quiet (start : Watched ι).state ∧ (start : Watched ι).Exclusive := ⟨start_quiet, start_exclusive⟩
  have hstep : ∀ (w : Watched ι) (l : Label ι) (w' : Watched ι), Quiet w.state ∧ w.Exclusive → w.step l = some w' →
      Quiet w'.state ∧ w'.Exclusive := by
    intro w l w' ⟨hq, hx⟩ h
    obtain ⟨s, hs, rfl⟩ := step_some h
    refine ⟨?_, hx.step hq h⟩
    rw [observe_state]
    exact (step_moves hs).quiet hq
  constructor
  · exact fun h => h.upgrade (fun w l w' hP _ hs => hstep w l w' hP hs) (fun _ _ hP ht => hP.2.unspoilt ht) h0
  · exact fun h => h.upgrade (fun w l w' hP _ hs => hstep w l w' hP hs) (fun _ _ hP ht => hP.2.truthful ht) h0

/-- Two threads send a `Close` each; the wake of the first one fails. -/
def refusedRun : List (Label Bool) :=
  [.trigger (some true) (.close 0), .send (some true), .swap (some true), .osWake (some true) false,
    .trigger (some false) (.close 1), .send (some false), .swap (some false)]

/-- The second thread hears `Ok(true)`, with no signal given, nobody about to give one, and both commands waiting. -/
theorem trigger_not_truthful : (∃ w, run step (start : Watched Bool) refusedRun = some w ∧
    w.state.senders (some false) = .answered (some 1) true ∧ w.state.signal = false ∧ ¬w.Justified (some false) 1) ∧
    ¬Along step Truthful (start : Watched Bool) refusedRun := by
  have hfalse : ∀ w : Watched Bool, w.woken = false → (∀ τ num, w.state.senders τ ≠ .mustWake num) →
      w.state.taken = [] → ¬w.Justified (some false) 1 := by
    rintro w hw hnone htaken (h | ⟨τ, num, -, hτ⟩ | ⟨t, ht, -⟩)
    · rw [hw] at h
      cases h
    · exact hnone τ num hτ
    · rw [htaken] at ht
      cases ht
  have hnone : ∀ w : Watched Bool, run step start refusedRun = some w → ∀ τ num, w.state.senders τ ≠ .mustWake num := by
    rintro w hw (_ | _ | _) num hτ <;> cases hw <;> cases hτ
  obtain ⟨w, hw⟩ : ∃ w, run step (start : Watched Bool) refusedRun = some w := ⟨_, rfl⟩
  have hlies : ¬w.Justified (some false) 1 := by
    refine hfalse w ?_ (hnone w hw) ?_ <;> cases hw <;> rfl
  refine ⟨⟨w, hw, ?_, ?_, hlies⟩, fun h => hlies ?_⟩
  · cases hw
    rfl
  · cases hw
    rfl
  · have h := ((((((h.2 _ rfl).2 _ rfl).2 _ rfl).2 _ rfl).2 _ rfl).2 _ rfl).1
    cases hw
    exact h _ (some false) 1 rfl (Or.inl rfl) rfl

end Watched
end Rnet.Wake
