import Rnet.Wake.Order
import Mathlib.Algebra.BigOperators.Ring.List
import Mathlib.Data.Set.Card

/-!
# What a poll costs, and how long a command waits

`process_command` takes at most 256 commands, and it is called at most twice for one return of `poll`: because commands
were pending before, and for the `WAKE_TOKEN` (`commands_per_poll`). A thread wakes the operating system only when it
finds `awoken` unset, and `awoken` is unset again only by the loop when it handles a `WAKE_TOKEN`, of which each return
of `poll` brings one at most. So the wakes of the system are bounded by the returns of `poll` and not by the commands
(`wakes_per_poll`).

The urgent queue comes first at every `try_recv` but one, when the loop has just found it empty. So a command there is
taken after those before it and at most one other (`urgent_within`), and with a shutdown among them the loop takes no
more than these (`shutdown_within`), whatever the other threads send.
-/

namespace Rnet.Wake

open State Runs

variable {ι : Type} [DecidableEq ι]

/-! ## Commands -/

/-- The returns of `poll`. -/
def Label.polls : Label ι → Nat
  | .pollReturn _ _ => 1
  | _ => 0

/-- The wakes of the operating system. -/
def Label.osWakes : Label ι → Nat
  | .osWake _ _ => 1
  | _ => 0

namespace LoopPc

/-- The iterations left in the call of `process_command`. -/
def left : LoopPc ι → Nat
  | .drain left _ | .handle _ left _ => left
  | .drainCommon left _ => left + 1
  | _ => 0

/-- The `WAKE_TOKEN` events still to be handled. -/
def wakes (pc : LoopPc ι) : Nat := pc.pendingEvents.count .wake

/-- What the loop may still take before the next `poll`. -/
def allowance (pc : LoopPc ι) : Nat := pc.left + MAX_ASYNC_TASK_ONE_TIME * pc.wakes

end LoopPc

/-- A call of `process_command` has its 256 iterations, and there is one `WAKE_TOKEN` event at most. -/
structure Bounded (s : State ι) : Prop where
  left : s.loop.left ≤ MAX_ASYNC_TASK_ONE_TIME
  wakes : s.loop.wakes ≤ 1

omit [DecidableEq ι] in
theorem start_bounded : Bounded (start : State ι) := ⟨Nat.zero_le _, Nat.zero_le _⟩

omit [DecidableEq ι] in
theorem Bounded.allowance_le {s : State ι} (h : Bounded s) : s.loop.allowance ≤ 2 * MAX_ASYNC_TASK_ONE_TIME := by
  have hw := Nat.mul_le_mul_left MAX_ASYNC_TASK_ONE_TIME h.wakes
  have hl := h.left
  unfold LoopPc.allowance
  omega

omit [DecidableEq ι] in
theorem count_polled (s : State ι) (before after : Nat) :
    (s.polled before after).count .wake = if s.signal then 1 else 0 := by
  have hio : ∀ n, (List.replicate n Event.io).count .wake = 0 := fun n =>
    List.count_eq_zero.mpr fun h => by cases List.eq_of_mem_replicate h
  unfold State.polled
  rw [List.count_append, List.count_append, hio, hio]
  split <;> rfl

omit [DecidableEq ι] in
/-- Where the loop stands when `poll` has returned. -/
theorem pollReturn_loop (s : State ι) (pending : Bool) (before after : Nat) :
    (s.pollReturn pending before after).loop.left ≤ MAX_ASYNC_TASK_ONE_TIME ∧
      (s.pollReturn pending before after).loop.wakes ≤ 1 := by
  have hc : (s.polled before after).count .wake ≤ 1 := by
    rw [count_polled]
    split <;> omega
  cases pending with
  | true => exact ⟨Nat.le_refl _, hc⟩
  | false => exact ⟨Nat.zero_le _, hc⟩

/-- **A step takes a command only out of the allowance**, which a return of `poll` alone renews. -/
theorem Moves.allowance {s s' : State ι} {l : Label ι} (h : Moves s l s') (hb : Bounded s) :
    Bounded s' ∧ s'.taken.length + s'.loop.allowance ≤
      s.taken.length + s.loop.allowance + 2 * MAX_ASYNC_TASK_ONE_TIME * l.polls := by
  have hstay : ∀ {t : State ι} {n : Nat}, t.loop = s.loop → t.taken = s.taken →
      Bounded t ∧ t.taken.length + t.loop.allowance ≤ s.taken.length + s.loop.allowance + n := by
    intro t n hl ht
    refine ⟨⟨hl ▸ hb.left, hl ▸ hb.wakes⟩, ?_⟩
    rw [hl, ht]
    omega
  -- the loop goes on with no more iterations and no more events than before
  have hgoes : ∀ {t : State ι} {n : Nat}, t.taken = s.taken → t.loop.left ≤ s.loop.left →
      t.loop.wakes ≤ s.loop.wakes →
      Bounded t ∧ t.taken.length + t.loop.allowance ≤ s.taken.length + s.loop.allowance + n := by
    intro t n ht hl hw
    refine ⟨⟨hl.trans hb.left, hw.trans hb.wakes⟩, ?_⟩
    have hm := Nat.mul_le_mul_left MAX_ASYNC_TASK_ONE_TIME hw
    rw [ht]
    unfold LoopPc.allowance
    omega
  -- the loop takes a command, with one iteration less
  have htakes : ∀ {t : State ι} {q : Ticket ι} {n : Nat}, t.taken = s.taken ++ [q] →
      t.loop.left + 1 = s.loop.left → t.loop.wakes = s.loop.wakes →
      Bounded t ∧ t.taken.length + t.loop.allowance ≤ s.taken.length + s.loop.allowance + n := by
    intro t q n ht hl hw
    have hleft := hb.left
    refine ⟨⟨by omega, hw ▸ hb.wakes⟩, ?_⟩
    rw [ht, List.length_append, List.length_singleton]
    unfold LoopPc.allowance
    rw [hw]
    omega
  cases h with
  | chooses σ cmd spill _ _ => exact hstay rfl rfl
  | accepts i _ _ _ _ => exact hstay rfl rfl
  | sends σ cmd spill hσ => exact hstay rfl rfl
  | swaps σ num hσ => exact hstay rfl rfl
  | wakes σ num ok hσ => exact hstay rfl rfl
  | checks hl =>
    refine hgoes rfl ?_ ?_ <;> simp only [State.goto] <;> split <;> exact Nat.zero_le _
  | checksCommon hl => exact hgoes rfl (Nat.zero_le _) (Nat.zero_le _)
  | takes left evs t rest hl hu =>
    have hw : s.loop.wakes = evs.count .wake := by rw [hl]; rfl
    exact htakes (q := t) rfl (by rw [hl]; rfl) hw.symm
  | findsEmpty left evs hl hu =>
    have hw : s.loop.wakes = evs.count .wake := by rw [hl]; rfl
    exact hgoes rfl (by rw [hl]; exact Nat.le_refl _) (Nat.le_of_eq hw.symm)
  | takesCommon left evs t rest hl hc =>
    have hw : s.loop.wakes = evs.count .wake := by rw [hl]; rfl
    exact htakes (q := t) rfl (by rw [hl]; rfl) hw.symm
  | breaks left evs hl =>
    have hw : s.loop.wakes = evs.count .wake := by rcases hl with hl | hl <;> rw [hl] <;> rfl
    exact hgoes rfl (Nat.zero_le _) (Nat.le_of_eq hw.symm)
  | finishes t left evs hl _ =>
    have hleft : s.loop.left = left := by rw [hl]; rfl
    have hw : s.loop.wakes = evs.count .wake := by rw [hl]; rfl
    refine hgoes rfl ?_ ?_
    · show (if s.ends t then LoopPc.stopped none else .drain left evs : LoopPc ι).left ≤ _
      rw [hleft]
      split
      · exact Nat.zero_le _
      · exact Nat.le_refl _
    · show (if s.ends t then LoopPc.stopped none else .drain left evs : LoopPc ι).wakes ≤ _
      rw [hw]
      split
      · exact Nat.zero_le _
      · exact Nat.le_refl _
  | resets evs hl =>
    -- the event is traded for a call of `process_command`
    have hw : s.loop.wakes = evs.count .wake + 1 := by rw [hl]; exact List.count_cons_self
    have hone := hb.wakes
    refine ⟨⟨Nat.le_refl _, ?_⟩, ?_⟩
    · show evs.count .wake ≤ 1
      omega
    · show s.taken.length + (MAX_ASYNC_TASK_ONE_TIME + MAX_ASYNC_TASK_ONE_TIME * evs.count .wake) ≤ _
      unfold LoopPc.allowance
      rw [hw, Nat.mul_add]
      omega
  | ticks hl _ => exact hgoes rfl (Nat.zero_le _) (Nat.zero_le _)
  | eventsDone hl => exact hgoes rfl (Nat.zero_le _) (Nat.zero_le _)
  | calls evs hl =>
    have hw : s.loop.wakes = evs.count .wake := by rw [hl]; exact List.count_cons_of_ne (by decide)
    exact hgoes rfl (Nat.zero_le _) (Nat.le_of_eq hw.symm)
  | callReturns evs hl _ =>
    have hw : s.loop.wakes = evs.count .wake := by rw [hl]; rfl
    exact hgoes rfl (Nat.zero_le _) (Nat.le_of_eq hw.symm)
  | retries pending hl => exact hgoes rfl (Nat.zero_le _) (Nat.zero_le _)
  | returns pending before after hl =>
    obtain ⟨hleft, hwakes⟩ := pollReturn_loop s pending before after
    have ha := Bounded.allowance_le ⟨hleft, hwakes⟩
    refine ⟨⟨hleft, hwakes⟩, ?_⟩
    show s.taken.length + _ ≤ s.taken.length + s.loop.allowance + 2 * MAX_ASYNC_TASK_ONE_TIME * 1
    omega
  | stops current hc _ => exact hgoes rfl (Nat.zero_le _) (Nat.zero_le _)

/-- **A poll costs at most 512 commands.** In every run, any stretch takes at most 512 commands for each return of
`poll` in it and, if it does not begin before one, what is left of the last. -/
theorem commands_per_poll {ks ls : List (Label ι)} {s t : State ι} (hs : run step start ks = some s)
    (hrun : run step s ls = some t) :
    t.taken.length ≤ s.taken.length + 512 * (1 + (ls.map Label.polls).sum) ∧
      ((∃ pending, s.loop = .poll pending) → t.taken.length ≤ s.taken.length + 512 * (ls.map Label.polls).sum) := by
  have hstep : ∀ (s : State ι) l s', Bounded s → step s l = some s' → Bounded s' ∧
      0 + (s'.taken.length + s'.loop.allowance) ≤
        s.taken.length + s.loop.allowance + 2 * MAX_ASYNC_TASK_ONE_TIME * l.polls := by
    intro s l s' hb h
    rw [Nat.zero_add]
    exact (step_moves h).allowance hb
  have hb : Bounded s := run_invariant' (fun s l s' hb h => (hstep s l s' hb h).1) start_bounded hs
  have hcost := cost_le_of_steps (f := fun s : State ι => s.taken.length + s.loop.allowance) (c := fun _ => 0)
    hstep hb hrun
  have hsum : (ls.map fun l => 2 * MAX_ASYNC_TASK_ONE_TIME * l.polls).sum = 512 * (ls.map Label.polls).sum := by
    rw [List.sum_map_mul_left]
    rfl
  have hallow : s.loop.allowance ≤ 512 := hb.allowance_le
  simp only [hsum] at hcost
  constructor
  · omega
  · rintro ⟨pending, hl⟩
    have h0 : s.loop.allowance = 0 := by rw [hl]; rfl
    omega

/-- A thread sends a command and wakes the loop, which comes to its `poll`. -/
def wakingRun (cmd : Command) : List (Label Unit) :=
  [.trigger (some ()) cmd, .send (some ()), .swap (some ()), .osWake (some ()) true, .advance, .advance]

/-- `poll` returns; the loop takes the command and handles the `WAKE_TOKEN`. -/
def wokenRun : List (Label Unit) :=
  [.pollReturn 0 0, .advance, .advance, .advance, .advance, .advance]

theorem commands_per_poll_one : ∃ s t, run step start (wakingRun .none) = some s ∧ s.loop = .poll true ∧
    run step s wokenRun = some t ∧ t.taken.length = 1 ∧ t.taken.length ≤ s.taken.length + 512 * 1 :=
  ⟨_, _, rfl, rfl, rfl, rfl, (commands_per_poll (show run step start (wakingRun .none) = some _ from rfl)
    (show run step _ wokenRun = some _ from rfl)).2 ⟨true, rfl⟩⟩

/-! ## Wakes of the system -/

/-- The threads that are about to wake the operating system. -/
def State.wakers (s : State ι) : Set (Option ι) := { σ | ∃ num, s.senders σ = .mustWake num }

/-- The wakes of the system that are still to come before the next return of `poll`. -/
noncomputable def State.dueWakes (s : State ι) : Nat :=
  s.wakers.ncard + (if s.awoken then 0 else 1) + s.loop.wakes

omit [DecidableEq ι] in
theorem start_wakers : (start : State ι).wakers = ∅ := by
  refine Set.eq_empty_of_forall_notMem ?_
  rintro σ ⟨num, h⟩
  cases h

/-- A thread that does not become a waker. -/
theorem wakers_setSender_subset {s : State ι} {σ : Option ι} {p : SenderPc} (hp : ∀ num, p ≠ .mustWake num) :
    (s.setSender σ p).wakers ⊆ s.wakers := by
  rintro τ ⟨num, hτ⟩
  by_cases hne : τ = σ
  · subst hne
    exact absurd (by simpa [State.setSender] using hτ) (hp num)
  · exact ⟨num, by simpa [State.setSender, Function.update_of_ne hne] using hτ⟩

/-- **A step wakes the system only if that was due**, and only a return of `poll` makes one more due. -/
theorem Moves.dueWakes {s s' : State ι} {l : Label ι} (h : Moves s l s') (hfin : s.wakers.Finite) :
    s'.wakers.Finite ∧ l.osWakes + s'.dueWakes ≤ s.dueWakes + l.polls := by
  -- nobody becomes a waker, the flag stays, and the loop gets no new event
  have hgoes : ∀ {t : State ι}, t.wakers ⊆ s.wakers → t.awoken = s.awoken → t.loop.wakes ≤ s.loop.wakes →
      t.wakers.Finite ∧ t.dueWakes ≤ s.dueWakes := by
    intro t hw ha hl
    have hcard := Set.ncard_le_ncard hw hfin
    refine ⟨hfin.subset hw, ?_⟩
    unfold State.dueWakes
    rw [ha]
    omega
  have hplain : ∀ {t : State ι}, t.wakers ⊆ s.wakers → t.awoken = s.awoken → t.loop.wakes ≤ s.loop.wakes →
      t.wakers.Finite ∧ 0 + t.dueWakes ≤ s.dueWakes + 0 := by
    intro t hw ha hl
    rw [Nat.zero_add, Nat.add_zero]
    exact hgoes hw ha hl
  have htake : ∀ (u : State ι) (t : Ticket ι) (left : Nat) (evs : List Event),
      (u.take t left evs).wakers ⊆ u.wakers := by
    rintro u t left evs τ ⟨num, hτ⟩
    unfold State.take at hτ
    simp only at hτ
    split at hτ
    · exact wakers_setSender_subset (s := u) (p := .sent none) (by simp) ⟨num, hτ⟩
    · exact ⟨num, hτ⟩
  cases h with
  | chooses σ cmd spill _ _ => exact hplain (wakers_setSender_subset (by simp)) rfl (Nat.le_refl _)
  | accepts i _ _ _ _ => exact hplain (wakers_setSender_subset (by simp)) rfl (Nat.le_refl _)
  | sends σ cmd spill hσ =>
    exact hplain (wakers_setSender_subset (s := s) (p := .sent (some s.sent.length)) (by simp)) rfl
      (Nat.le_refl _)
  | swaps σ num hσ =>
    cases ha : s.awoken with
    | true =>
      have hw : (s.swap σ num).wakers ⊆ s.wakers := by
        unfold State.swap
        rw [ha]
        exact wakers_setSender_subset (s := s) (p := .answered num true) (by simp)
      exact hplain hw (by rw [ha]; rfl) (Nat.le_refl _)
    | false =>
      -- the thread becomes a waker, and the flag says that one is enough
      have hw : (s.swap σ num).wakers ⊆ insert σ s.wakers := by
        rintro τ ⟨n, hτ⟩
        by_cases hne : τ = σ
        · exact Or.inl hne
        · refine Or.inr ⟨n, ?_⟩
          simpa [State.swap, State.setSender, Function.update_of_ne hne] using hτ
      have hcard := Set.ncard_le_ncard hw (hfin.insert σ)
      have hins := Set.ncard_insert_le σ s.wakers
      refine ⟨(hfin.insert σ).subset hw, ?_⟩
      show 0 + ((s.swap σ num).wakers.ncard + 0 + s.loop.wakes) ≤
        s.wakers.ncard + (if s.awoken then 0 else 1) + s.loop.wakes + 0
      rw [ha]
      simp only [Bool.false_eq_true, if_false]
      omega
  | wakes σ num ok hσ =>
    have hw : (s.osWake σ num ok).wakers ⊆ s.wakers \ {σ} := by
      rintro τ ⟨n, hτ⟩
      by_cases hne : τ = σ
      · subst hne
        simp [State.osWake, State.setSender] at hτ
      · refine ⟨⟨n, ?_⟩, hne⟩
        simpa [State.osWake, State.setSender, Function.update_of_ne hne] using hτ
    have hcard := Set.ncard_le_ncard hw hfin.sdiff
    have hone := Set.ncard_sdiff_singleton_add_one (show σ ∈ s.wakers from ⟨num, hσ⟩) hfin
    refine ⟨hfin.sdiff.subset hw, ?_⟩
    show 1 + ((s.osWake σ num ok).wakers.ncard + (if s.awoken then 0 else 1) + s.loop.wakes) ≤
      s.wakers.ncard + (if s.awoken then 0 else 1) + s.loop.wakes + 0
    omega
  | checks hl =>
    refine hplain (fun _ h => h) rfl ?_
    simp only [State.goto]
    split <;> exact Nat.zero_le _
  | checksCommon hl => exact hplain (fun _ h => h) rfl (Nat.zero_le _)
  | takes left evs t rest hl hu =>
    exact hplain (htake _ t left evs) rfl (by rw [hl]; exact Nat.le_refl _)
  | findsEmpty left evs hl hu => exact hplain (fun _ h => h) rfl (by rw [hl]; exact Nat.le_refl _)
  | takesCommon left evs t rest hl hc =>
    exact hplain (htake _ t left evs) rfl (by rw [hl]; exact Nat.le_refl _)
  | breaks left evs hl =>
    exact hplain (fun _ h => h) rfl (by rcases hl with hl | hl <;> rw [hl] <;> exact Nat.le_refl _)
  | finishes t left evs hl _ =>
    refine hplain (fun _ h => h) rfl ?_
    rw [hl]
    simp only [State.goto]
    split
    · exact Nat.zero_le _
    · exact Nat.le_refl _
  | resets evs hl =>
    have hw : s.loop.wakes = evs.count .wake + 1 := by rw [hl]; exact List.count_cons_self
    refine ⟨hfin, ?_⟩
    show 0 + (s.wakers.ncard + 1 + evs.count .wake) ≤ s.wakers.ncard + (if s.awoken then 0 else 1) + s.loop.wakes + 0
    rw [hw]
    omega
  | ticks hl _ => exact hplain (fun _ h => h) rfl (Nat.zero_le _)
  | eventsDone hl => exact hplain (fun _ h => h) rfl (Nat.zero_le _)
  | calls evs hl =>
    have hw : s.loop.wakes = evs.count .wake := by rw [hl]; exact List.count_cons_of_ne (by decide)
    exact hplain (fun _ h => h) rfl (Nat.le_of_eq hw.symm)
  | callReturns evs hl _ => exact hplain (fun _ h => h) rfl (by rw [hl]; exact Nat.le_refl _)
  | retries pending hl => exact hplain (fun _ h => h) rfl (Nat.zero_le _)
  | returns pending before after hl =>
    have hwakes := (pollReturn_loop s pending before after).2
    refine ⟨hfin, ?_⟩
    show 0 + (s.wakers.ncard + (if s.awoken then 0 else 1) + (s.pollReturn pending before after).loop.wakes) ≤
      s.wakers.ncard + (if s.awoken then 0 else 1) + s.loop.wakes + 1
    omega
  | stops current hc _ => exact hplain (fun _ h => h) rfl (Nat.zero_le _)

/-- **The wakes of the system are coalesced.** In every run, however many threads send however many commands, the system
is woken at most once more than `poll` returned. -/
theorem wakes_per_poll {ls : List (Label ι)} {t : State ι} (hrun : run step start ls = some t) :
    (ls.map Label.osWakes).sum ≤ 1 + (ls.map Label.polls).sum := by
  have hcost := cost_le_of_steps (P := fun s : State ι => s.wakers.Finite) (f := State.dueWakes) (b := Label.polls)
    (c := Label.osWakes) (fun s l s' hfin h => (step_moves h).dueWakes hfin)
    (by rw [start_wakers]; exact Set.finite_empty) hrun
  have h0 : (start : State ι).dueWakes = 1 := by
    unfold State.dueWakes
    rw [start_wakers, Set.ncard_empty]
    rfl
  omega

/-- The bound is reached: the flag is reset, and the next command wakes the system again. -/
def wakingTwice : List (Label Unit) :=
  wakingRun .none ++ wokenRun ++ [.trigger (some ()) .none, .send (some ()), .swap (some ()), .osWake (some ()) true]

theorem wakes_per_poll_twice : ∃ t, run step start wakingTwice = some t ∧
    (wakingTwice.map Label.osWakes).sum = 2 ∧
      (wakingTwice.map Label.osWakes).sum ≤ 1 + (wakingTwice.map Label.polls).sum :=
  ⟨_, rfl, rfl, wakes_per_poll (show run step start wakingTwice = some _ from rfl)⟩

/-! ## Waiting -/

/-- The loop has found the urgent queue empty, and takes a common command next. -/
def State.looksAside (s : State ι) : Nat :=
  match s.loop with
  | .drainCommon _ _ => 1
  | _ => 0

/-- **What a step does to the urgent queue and the commands taken.** -/
theorem Moves.queues {s s' : State ι} {l : Label ι} (h : Moves s l s') :
    (s'.taken = s.taken ∧ s.urgent <+: s'.urgent ∧ (s'.looksAside ≤ s.looksAside ∨ s.urgent = [])) ∨
      ∃ t, s'.taken = s.taken ++ [t] ∧ (∃ left evs, s'.loop = .handle t left evs) ∧
        (s.urgent = t :: s'.urgent ∨ s.urgent = s'.urgent ∧ s.looksAside = 1) := by
  have hstay : ∀ {t : State ι}, t.taken = s.taken → t.urgent = s.urgent → t.loop = s.loop →
      t.taken = s.taken ∧ s.urgent <+: t.urgent ∧ (t.looksAside ≤ s.looksAside ∨ s.urgent = []) := by
    intro t ht hu hl
    refine ⟨ht, hu ▸ List.prefix_refl _, Or.inl ?_⟩
    unfold State.looksAside
    rw [hl]
  have hgoes : ∀ {pc : LoopPc ι}, (∀ left evs, pc ≠ .drainCommon left evs) →
      (s.goto pc).looksAside ≤ s.looksAside ∨ s.urgent = [] := by
    intro pc hpc
    refine Or.inl ?_
    cases pc with
    | drainCommon left evs => exact absurd rfl (hpc left evs)
    | _ => exact Nat.zero_le _
  cases h with
  | chooses σ cmd spill _ _ => exact Or.inl (hstay rfl rfl rfl)
  | accepts i _ _ _ _ => exact Or.inl (hstay rfl rfl rfl)
  | sends σ cmd spill hσ =>
    refine Or.inl ⟨rfl, ?_, Or.inl (Nat.le_refl _)⟩
    cases spill with
    | true => exact List.prefix_refl _
    | false => exact List.prefix_append _ _
  | swaps σ num hσ => exact Or.inl (hstay rfl rfl rfl)
  | wakes σ num ok hσ => exact Or.inl (hstay rfl rfl rfl)
  | checks hl => exact Or.inl ⟨rfl, List.prefix_refl _, hgoes (by intro left evs; split <;> simp)⟩
  | checksCommon hl => exact Or.inl ⟨rfl, List.prefix_refl _, hgoes (by simp)⟩
  | takes left evs t rest hl hu => exact Or.inr ⟨t, rfl, ⟨left, evs, rfl⟩, Or.inl hu⟩
  | findsEmpty left evs hl hu => exact Or.inl ⟨rfl, List.prefix_refl _, Or.inr hu⟩
  | takesCommon left evs t rest hl hc =>
    refine Or.inr ⟨t, rfl, ⟨left, evs, rfl⟩, Or.inr ⟨rfl, ?_⟩⟩
    unfold State.looksAside
    rw [hl]
  | breaks left evs hl => exact Or.inl ⟨rfl, List.prefix_refl _, hgoes (by simp)⟩
  | finishes t left evs hl _ =>
    exact Or.inl ⟨rfl, List.prefix_refl _, hgoes (by intro left evs; split <;> simp)⟩
  | resets evs hl => exact Or.inl ⟨rfl, List.prefix_refl _, Or.inl (Nat.zero_le _)⟩
  | ticks hl _ => exact Or.inl ⟨rfl, List.prefix_refl _, hgoes (by simp)⟩
  | eventsDone hl => exact Or.inl ⟨rfl, List.prefix_refl _, hgoes (by simp)⟩
  | calls evs hl => exact Or.inl ⟨rfl, List.prefix_refl _, hgoes (by simp)⟩
  | callReturns evs hl _ => exact Or.inl ⟨rfl, List.prefix_refl _, hgoes (by simp)⟩
  | retries pending hl => exact Or.inl ⟨rfl, List.prefix_refl _, hgoes (by simp)⟩
  | returns pending before after hl =>
    refine Or.inl ⟨rfl, List.prefix_refl _, Or.inl ?_⟩
    cases pending <;> exact Nat.zero_le _
  | stops current hc _ => exact Or.inl ⟨rfl, List.prefix_refl _, hgoes (by simp)⟩

/-- The loop has taken `xs`, and with the commands before `q` in the urgent queue these are at most `n`. -/
def State.Waits (s : State ι) (q : Ticket ι) (n : Nat) (xs : List (Ticket ι)) : Prop :=
  ∃ us vs, s.urgent = us ++ q :: vs ∧ xs.length + us.length + s.looksAside ≤ n

/-- **A command waits for those before it**: a step leaves it where it is, or takes it. -/
theorem State.Waits.step {s s' : State ι} {l : Label ι} {q : Ticket ι} {n : Nat} {xs : List (Ticket ι)}
    (hw : s.Waits q n xs) (h : Moves s l s') :
    (s'.taken = s.taken ∧ s'.Waits q n xs) ∨
      (∃ t, s'.taken = s.taken ++ [t] ∧ s'.Waits q n (xs ++ [t])) ∨
      (s'.taken = s.taken ++ [q] ∧ xs.length ≤ n ∧ ∃ left evs, s'.loop = .handle q left evs) := by
  obtain ⟨us, vs, hu, hn⟩ := hw
  have haside : ∀ {t : Ticket ι}, (∃ left evs, s'.loop = .handle t left evs) → s'.looksAside = 0 := by
    rintro t ⟨left, evs, hl⟩
    unfold State.looksAside
    rw [hl]
  rcases h.queues with ⟨ht, ⟨ws, hws⟩, hlook⟩ | ⟨t, ht, hl, hu' | ⟨hu', hone⟩⟩
  · refine Or.inl ⟨ht, us, vs ++ ws, by rw [← hws, hu]; simp, ?_⟩
    rcases hlook with hlook | hempty
    · omega
    · rw [hempty] at hu
      exact absurd hu (by simp)
  · rw [hu] at hu'
    cases us with
    | nil =>
      rw [List.nil_append, List.cons.injEq] at hu'
      obtain ⟨rfl, -⟩ := hu'
      exact Or.inr (Or.inr ⟨ht, by omega, hl⟩)
    | cons u us =>
      rw [List.cons_append, List.cons.injEq] at hu'
      refine Or.inr (Or.inl ⟨t, ht, us, vs, hu'.2.symm, ?_⟩)
      rw [haside hl]
      simp only [List.length_append, List.length_cons, List.length_nil] at hn ⊢
      omega
  · refine Or.inr (Or.inl ⟨t, ht, us, vs, hu' ▸ hu, ?_⟩)
    rw [haside hl]
    simp only [List.length_append, List.length_cons, List.length_nil]
    omega

omit [DecidableEq ι] in
/-- A command that waits at the start of a stretch. -/
theorem waits_start {s : State ι} {us vs : List (Ticket ι)} {q : Ticket ι} (hu : s.urgent = us ++ q :: vs) :
    s.Waits q (us.length + 1) [] := by
  refine ⟨us, vs, hu, ?_⟩
  have h1 : s.looksAside ≤ 1 := by
    unfold State.looksAside
    split <;> omega
  rw [List.length_nil]
  omega

/-- **An urgent command waits for those before it and one more.** Whatever is sent meanwhile, a command with `n` others
before it in the urgent queue is among the next `n + 2` that the loop takes. -/
theorem urgent_within {s t : State ι} {ls : List (Label ι)} {us vs : List (Ticket ι)} {q : Ticket ι}
    (hu : s.urgent = us ++ q :: vs) (hrun : run step s ls = some t) :
    ∃ xs, t.taken = s.taken ++ xs ∧ (q ∈ xs.take (us.length + 2) ∨ q ∈ t.urgent ∧ xs.length ≤ us.length + 1) := by
  have hinv := run_invariant'
    (P := fun u : State ι => ∃ xs, u.taken = s.taken ++ xs ∧
      (q ∈ xs.take (us.length + 2) ∨ u.Waits q (us.length + 1) xs))
    ?_ ⟨[], (List.append_nil _).symm, Or.inr (waits_start hu)⟩ hrun
  · obtain ⟨xs, ht, hq | ⟨us', vs', hu', hn⟩⟩ := hinv
    · exact ⟨xs, ht, Or.inl hq⟩
    · exact ⟨xs, ht, Or.inr ⟨by simp [hu'], by omega⟩⟩
  · rintro u l u' ⟨xs, ht, hq⟩ hstep
    have hm := step_moves hstep
    rcases hq with hq | hw
    · -- it was taken; more may follow
      have hmore : ∃ ys, u'.taken = u.taken ++ ys := by
        rcases hm.queues with ⟨h, -, -⟩ | ⟨x, h, -, -⟩
        · exact ⟨[], by rw [h, List.append_nil]⟩
        · exact ⟨[x], h⟩
      obtain ⟨ys, hys⟩ := hmore
      refine ⟨xs ++ ys, by rw [hys, ht, List.append_assoc], Or.inl ?_⟩
      exact ((List.prefix_append xs ys).take _).subset hq
    · rcases hw.step hm with ⟨h, hw'⟩ | ⟨x, h, hw'⟩ | ⟨h, hn, -⟩
      · exact ⟨xs, by rw [h, ht], Or.inr hw'⟩
      · exact ⟨xs ++ [x], by rw [h, ht, List.append_assoc], Or.inr hw'⟩
      · refine ⟨xs ++ [q], by rw [h, ht, List.append_assoc], Or.inl ?_⟩
        have hlen : (xs ++ [q]).length ≤ us.length + 2 := by
          rw [List.length_append, List.length_singleton]
          omega
        rw [List.take_of_length_le hlen]
        exact List.mem_append_right _ (List.mem_singleton_self q)

/-- A shutdown behind another command. -/
def shutdownBehind : List (Label Unit) := wakingRun .none ++ [.trigger (some ()) .shutdown, .send (some ())]

theorem urgent_within_two : ∃ s t, run step start shutdownBehind = some s ∧
    s.urgent = [⟨0, some (), .none⟩] ++ ⟨1, some (), .shutdown⟩ :: [] ∧ run step s (wokenRun.take 5) = some t ∧
    ∃ xs, t.taken = s.taken ++ xs ∧ (⟨1, some (), .shutdown⟩ ∈ xs.take 3 ∨
      ⟨1, some (), .shutdown⟩ ∈ t.urgent ∧ xs.length ≤ 2) := by
  obtain ⟨s, hs, hu, ht⟩ : ∃ s, run step start shutdownBehind = some s ∧
      s.urgent = [⟨0, some (), .none⟩] ++ ⟨1, some (), .shutdown⟩ :: [] ∧ (run step s (wokenRun.take 5)).isSome :=
    ⟨_, rfl, rfl, rfl⟩
  obtain ⟨t, ht⟩ := Option.isSome_iff_exists.mp ht
  exact ⟨s, t, hs, hu, ht, urgent_within hu ht⟩

/-! ## Shutdowns -/

/-- The loop handles a shutdown, or has stopped. -/
def State.Ending (s : State ι) : Prop :=
  (∃ t left evs, s.loop = .handle t left evs ∧ t.cmd = .shutdown) ∨ ∃ current, s.loop = .stopped current

/-- A loop that is ending takes no more commands. -/
theorem State.Ending.step {s s' : State ι} {l : Label ι} (hs : s.Ending) (h : Moves s l s') :
    s'.Ending ∧ s'.taken = s.taken := by
  cases h with
  | chooses σ cmd spill _ _ => exact ⟨hs, rfl⟩
  | accepts i _ _ _ _ => exact ⟨hs, rfl⟩
  | sends σ cmd spill hσ => exact ⟨hs, rfl⟩
  | swaps σ num hσ => exact ⟨hs, rfl⟩
  | wakes σ num ok hσ => exact ⟨hs, rfl⟩
  | finishes t left evs hl _ =>
    obtain ⟨_, _, _, hl', hcmd⟩ | ⟨current, hl'⟩ := hs <;> rw [hl'] at hl <;> cases hl
    have hends : s.ends t = true := by
      unfold State.ends
      rw [hcmd]
      rfl
    refine ⟨Or.inr ⟨none, ?_⟩, rfl⟩
    simp only [State.goto, hends, if_true]
  | stops current hc _ => exact ⟨Or.inr ⟨current, rfl⟩, rfl⟩
  | checks hl | checksCommon hl | takes _ _ _ _ hl _ | findsEmpty _ _ hl _ | takesCommon _ _ _ _ hl _ | resets _ hl
  | ticks hl _ | eventsDone hl | calls _ hl | callReturns _ hl _ | retries _ hl | returns _ _ _ hl =>
    obtain ⟨_, _, _, hl', -⟩ | ⟨current, hl'⟩ := hs <;> rw [hl'] at hl <;> cases hl
  | breaks left evs hl =>
    obtain ⟨_, _, _, hl', -⟩ | ⟨current, hl'⟩ := hs <;> rw [hl'] at hl <;> rcases hl with hl | hl <;> cases hl

/-- **A shutdown ends the taking.** With a shutdown in the urgent queue that has `n` commands before it, the loop takes
at most `n + 2` more commands in all. -/
theorem shutdown_within {s t : State ι} {ls : List (Label ι)} {us vs : List (Ticket ι)} {q : Ticket ι}
    (hq : q.cmd = .shutdown) (hu : s.urgent = us ++ q :: vs) (hrun : run step s ls = some t) :
    t.taken.length ≤ s.taken.length + us.length + 2 := by
  have hinv := run_invariant'
    (P := fun u : State ι => ∃ xs, u.taken = s.taken ++ xs ∧
      (u.Waits q (us.length + 1) xs ∨ u.Ending ∧ xs.length ≤ us.length + 2))
    ?_ ⟨[], (List.append_nil _).symm, Or.inl (waits_start hu)⟩ hrun
  · obtain ⟨xs, ht, ⟨us', vs', -, hn⟩ | ⟨-, hn⟩⟩ := hinv <;> rw [ht, List.length_append] <;> omega
  · rintro u l u' ⟨xs, ht, hw⟩ hstep
    have hm := step_moves hstep
    rcases hw with hw | ⟨hend, hn⟩
    · rcases hw.step hm with ⟨h, hw'⟩ | ⟨x, h, hw'⟩ | ⟨h, hn, left, evs, hl⟩
      · exact ⟨xs, by rw [h, ht], Or.inl hw'⟩
      · exact ⟨xs ++ [x], by rw [h, ht, List.append_assoc], Or.inl hw'⟩
      · refine ⟨xs ++ [q], by rw [h, ht, List.append_assoc], Or.inr ⟨Or.inl ⟨q, left, evs, hl, hq⟩, ?_⟩⟩
        rw [List.length_append, List.length_singleton]
        omega
    · obtain ⟨hend', h⟩ := hend.step hm
      exact ⟨xs, by rw [h, ht], Or.inr ⟨hend', hn⟩⟩

theorem shutdown_within_two : ∃ s t, run step start shutdownBehind = some s ∧
    s.urgent = [⟨0, some (), .none⟩] ++ ⟨1, some (), .shutdown⟩ :: [] ∧ run step s (wokenRun.take 5) = some t ∧
    t.taken.length = 2 ∧ t.taken.length ≤ s.taken.length + [(⟨0, some (), .none⟩ : Ticket Unit)].length + 2 := by
  obtain ⟨s, hs, hu, ht⟩ : ∃ s, run step start shutdownBehind = some s ∧
      s.urgent = [⟨0, some (), .none⟩] ++ ⟨1, some (), .shutdown⟩ :: [] ∧
      (run step s (wokenRun.take 5)).any (fun t => t.taken.length == 2) := ⟨_, rfl, rfl, rfl⟩
  obtain ⟨t, ht, h2⟩ := exists_of_any ht
  exact ⟨s, t, hs, hu, ht, by simpa using h2, shutdown_within rfl hu ht⟩

end Rnet.Wake
