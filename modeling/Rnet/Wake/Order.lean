import Rnet.Wake.Defs
import Mathlib.Data.List.Nodup

/-!
# The order of commands

* `Ledger`: every command sent is in exactly one place, a queue or the list of those taken, and the loop is done with
  all it took but the one it handles. Every run keeps it.
* `Ordered`: no command of a thread is taken while an earlier high one of the same thread waits. A send can break it in
  one place only (`Overtakes`): the loop has found the urgent queue empty and stands before its `try_recv` on the empty
  common queue, the thread has since put a high command into the urgent queue, and its next one spills over. Runs
  without such a send keep the order (`commands_in_order`); after such a send the next action of the loop breaks it
  (`Overtakes.breaks`); and there are such runs (`overtaken`).
-/

namespace Rnet.Wake

open State Runs

variable {ι : Type}

namespace State

/-- Every command sent is taken once or still waits, and none is sent twice. -/
def ExactlyOnce (s : State ι) : Prop := (s.taken ++ s.urgent ++ s.common).Perm s.sent ∧ s.sent.Nodup

/-- The loop is done with a high command before it takes a later command of the same thread. -/
def InOrder (s : State ι) : Prop :=
  ∀ c₁ ∈ s.sent, ∀ c₂ ∈ s.taken, c₁.sender = c₂.sender → c₁.cmd.priority = .high → c₁.num < c₂.num → c₁ ∈ s.finished

end State

structure Ledger (s : State ι) : Prop where
  placed : (s.taken ++ s.urgent ++ s.common).Perm s.sent
  numbered : s.sent.map Ticket.num = List.range s.sent.length
  current : s.taken = s.finished ++ s.loop.current
  low : ∀ t ∈ s.common, t.cmd.priority = .low
  chosen : ∀ σ cmd, s.senders σ = .chosen cmd true → cmd.priority = .low

theorem start_ledger : Ledger (start : State ι) where
  placed := List.Perm.refl _
  numbered := rfl
  current := rfl
  low t ht := by cases ht
  chosen σ cmd h := by cases h

namespace Ledger

variable {s : State ι}

/-- Numbers count the sends. -/
theorem num_lt (h : Ledger s) {t : Ticket ι} (ht : t ∈ s.taken ++ s.urgent ++ s.common) : t.num < s.sent.length := by
  have hm : t.num ∈ s.sent.map Ticket.num := List.mem_map_of_mem (h.placed.mem_iff.mp ht)
  rw [h.numbered] at hm
  exact List.mem_range.mp hm

theorem nodup (h : Ledger s) : s.sent.Nodup := by
  apply List.Nodup.of_map Ticket.num
  rw [h.numbered]
  exact List.nodup_range

/-- What waits in the urgent queue is not taken. -/
theorem not_taken (h : Ledger s) {t : Ticket ι} (ht : t ∈ s.urgent) : t ∉ s.taken := by
  have hn : (s.taken ++ s.urgent ++ s.common).Nodup := h.placed.nodup_iff.mpr h.nodup
  exact fun hm => (List.nodup_append.mp (List.nodup_append.mp hn).1).2.2 t hm t ht rfl

theorem exactlyOnce (h : Ledger s) : s.ExactlyOnce := ⟨h.placed, h.nodup⟩

/-- The loop moves on with the same command in hand. -/
theorem goto (h : Ledger s) {pc : LoopPc ι} (hpc : pc.current = s.loop.current) : Ledger (s.goto pc) where
  placed := h.placed
  numbered := h.numbered
  current := by rw [State.goto, hpc]; exact h.current
  low := h.low
  chosen := h.chosen

variable [DecidableEq ι]

/-- A thread goes on; if it chose the common queue, its command is low. -/
theorem setSender (h : Ledger s) {σ : Option ι} {p : SenderPc}
    (hlow : ∀ cmd, p = .chosen cmd true → cmd.priority = .low) : Ledger (s.setSender σ p) where
  placed := h.placed
  numbered := h.numbered
  current := h.current
  low := h.low
  chosen τ cmd hτ := by
    by_cases hne : τ = σ
    · subst hne
      exact hlow cmd (by simpa [State.setSender] using hτ)
    · exact h.chosen τ cmd (by simpa [State.setSender, Function.update_of_ne hne] using hτ)

/-- **A send** puts one new command into one queue. -/
theorem push (h : Ledger s) {σ : Option ι} {cmd : Command} {spill : Bool} (hσ : s.senders σ = .chosen cmd spill) :
    Ledger (s.push σ cmd spill) where
  placed := by
    have hp : (s.taken ++ s.urgent ++ s.common ++ [s.ticket σ cmd]).Perm (s.sent ++ [s.ticket σ cmd]) :=
      h.placed.append_right _
    refine List.Perm.trans ?_ hp
    cases spill with
    | true =>
      show (s.taken ++ s.urgent ++ (s.common ++ [s.ticket σ cmd])).Perm _
      rw [← List.append_assoc]
    | false =>
      show (s.taken ++ (s.urgent ++ [s.ticket σ cmd]) ++ s.common).Perm _
      rw [← List.append_assoc, List.append_assoc _ [_], List.append_assoc _ s.common]
      exact List.perm_append_comm.append_left _
  numbered := by simp [State.push, h.numbered, State.ticket, List.range_succ]
  current := h.current
  low t ht := by
    cases spill with
    | true =>
      rcases List.mem_append.mp ht with ht | ht
      · exact h.low t ht
      · rw [List.mem_singleton.mp ht]
        exact h.chosen σ cmd hσ
    | false => exact h.low t ht
  chosen := (h.setSender (σ := σ) (p := .sent (some s.sent.length)) (by simp)).chosen

/-- The loop takes a command. -/
theorem take (h : Ledger s) (hc : s.loop.current = []) {urgent common : List (Ticket ι)} {t : Ticket ι} (left : Nat)
    (evs : List Event) (hp : (s.taken ++ [t] ++ urgent ++ common).Perm (s.taken ++ s.urgent ++ s.common))
    (hlow : ∀ x ∈ common, x ∈ s.common) :
    Ledger ({ s with urgent := urgent, common := common }.take t left evs) where
  placed := hp.trans h.placed
  numbered := h.numbered
  current := by
    have := h.current
    rw [hc, List.append_nil] at this
    simp [State.take, LoopPc.current, this]
  low x hx := h.low x (hlow x hx)
  chosen σ cmd hσ := by
    simp only [State.take] at hσ
    split at hσ
    · exact (h.setSender (σ := none) (p := .sent none) (by simp)).chosen σ cmd hσ
    · exact h.chosen σ cmd hσ

/-- **Every step keeps the ledger.** -/
theorem step {s' : State ι} {l : Label ι} (h : Ledger s) (hm : Moves s l s') : Ledger s' := by
  cases hm with
  | chooses σ cmd spill _ hlow =>
    refine h.setSender fun cmd' e => ?_
    injection e with e1 e2
    exact e1 ▸ hlow e2
  | accepts i _ _ _ _ => exact h.setSender (by simp)
  | sends σ cmd spill hσ => exact h.push hσ
  | swaps σ num hσ =>
    have := h.setSender (σ := σ) (p := if s.awoken then .answered num true else .mustWake num) (by split <;> simp)
    exact ⟨this.placed, this.numbered, this.current, this.low, this.chosen⟩
  | wakes σ num ok hσ =>
    have := h.setSender (σ := σ) (p := .answered num ok) (by simp)
    exact ⟨this.placed, this.numbered, this.current, this.low, this.chosen⟩
  | checks hl => exact h.goto (by split <;> simp [LoopPc.current, hl])
  | checksCommon hl => exact h.goto (by simp [LoopPc.current, hl])
  | takes left evs t rest hl hu =>
    have hp : (s.taken ++ [t] ++ rest ++ s.common).Perm (s.taken ++ s.urgent ++ s.common) := by simp [hu]
    exact h.take (by simp [LoopPc.current, hl]) left evs hp fun _ hx => hx
  | findsEmpty left evs hl hu => exact h.goto (by simp [LoopPc.current, hl])
  | takesCommon left evs t rest hl hc =>
    have hp : (s.taken ++ [t] ++ s.urgent ++ rest).Perm (s.taken ++ s.urgent ++ s.common) := by
      rw [hc, List.append_assoc, List.append_assoc, List.append_assoc]
      have hmid : (s.urgent ++ t :: rest).Perm (t :: (s.urgent ++ rest)) := List.perm_middle
      exact hmid.symm.append_left _
    exact h.take (by simp [LoopPc.current, hl]) left evs hp fun x hx => by rw [hc]; exact List.mem_cons_of_mem _ hx
  | breaks left evs hl => rcases hl with hl | hl <;> exact h.goto (by simp [LoopPc.current, hl])
  | finishes t left evs hl _ =>
    have hcur := h.current
    rw [hl] at hcur
    have hc : (if s.ends t then LoopPc.stopped none else .drain left evs : LoopPc ι).current = [] := by split <;> rfl
    refine ⟨h.placed, h.numbered, ?_, h.low, h.chosen⟩
    simp only [State.goto, hc, List.append_nil]
    exact hcur
  | resets evs hl =>
    exact ⟨h.placed, h.numbered, by simpa [State.goto, hl, LoopPc.current] using h.current, h.low, h.chosen⟩
  | ticks hl _ => exact h.goto (by simp [LoopPc.current, hl])
  | eventsDone hl => exact h.goto (by simp [LoopPc.current, hl])
  | calls evs hl => exact h.goto (by simp [LoopPc.current, hl])
  | callReturns evs hl _ => exact h.goto (by simp [LoopPc.current, hl])
  | retries pending hl => exact h.goto (by simp [LoopPc.current, hl])
  | returns pending before after hl =>
    refine ⟨h.placed, h.numbered, ?_, h.low, h.chosen⟩
    have := h.current
    cases pending <;> simpa [State.pollReturn, hl, LoopPc.current] using this
  | stops current hc _ => exact h.goto (by rw [hc]; cases current <;> rfl)

end Ledger

/-! ## No overtaking -/

structure Ordered (s : State ι) : Prop where
  sorted : s.urgent.Pairwise (·.num < ·.num)
  taken : ∀ h ∈ s.urgent, h.cmd.priority = .high → ∀ t ∈ s.taken, t.sender = h.sender → t.num < h.num
  current : ∀ h ∈ s.loop.current, h.cmd.priority = .high → ∀ t ∈ s.finished, t.sender = h.sender → t.num < h.num
  window : ∀ left evs, s.loop = .drainCommon left evs →
    ∀ x ∈ s.common.head?, ∀ h ∈ s.urgent, h.cmd.priority = .high → x.sender = h.sender → x.num < h.num

theorem start_ordered : Ordered (start : State ι) where
  sorted := List.Pairwise.nil
  taken h hh := by cases hh
  current h hh := by cases hh
  window left evs hl := by cases hl

/-- The next send of the thread spills into the common queue just when the loop is about to look there, past a high
command of the same thread. -/
def Overtakes (s : State ι) (σ : Option ι) : Prop :=
  (∃ left evs, s.loop = .drainCommon left evs) ∧ s.common = [] ∧ (∃ cmd, s.senders σ = .chosen cmd true) ∧
    ∃ h ∈ s.urgent, h.sender = σ ∧ h.cmd.priority = .high

/-- A step that is no such send. -/
def InTurn (s : State ι) (l : Label ι) : Prop := ∀ σ, l = .send σ → ¬ Overtakes s σ

namespace Ordered

variable {s : State ι}

/-- The order of the places is the order of the commands. -/
theorem inOrder (h : Ordered s) (hl : Ledger s) : s.InOrder := by
  intro c₁ h₁ c₂ h₂ hσ hp hlt
  have hpl : c₁ ∈ s.taken ∨ c₁ ∈ s.urgent ∨ c₁ ∈ s.common := by
    simpa [or_assoc] using hl.placed.mem_iff.mpr h₁
  rcases hpl with ht | hu | hc
  · rw [hl.current] at ht
    rcases List.mem_append.mp ht with hf | hcur
    · exact hf
    · -- the loop handles the first one, so it was done with the second
      rw [hl.current] at h₂
      rcases List.mem_append.mp h₂ with h₂ | h₂
      · exact absurd (h.current c₁ hcur hp c₂ h₂ hσ.symm) (by omega)
      · obtain rfl : c₁ = c₂ := by
          generalize s.loop = pc at hcur h₂
          unfold LoopPc.current at hcur h₂
          split at hcur <;> simp_all
        omega
  · exact absurd (h.taken c₁ hu hp c₂ h₂ hσ.symm) (by omega)
  · rw [hl.low c₁ hc] at hp
    cases hp

/-- The loop moves on, not into the window, with nothing new in hand. -/
theorem goto (h : Ordered s) {pc : LoopPc ι} (hpc : ∀ left evs, pc ≠ .drainCommon left evs)
    (hcur : ∀ t ∈ pc.current, t ∈ s.loop.current) : Ordered (s.goto pc) where
  sorted := h.sorted
  taken := h.taken
  current x hx := h.current x (hcur x hx)
  window left evs hl := absurd hl (hpc left evs)

variable [DecidableEq ι]

/-- **A send in turn** keeps the order. -/
theorem push (h : Ordered s) (hl : Ledger s) {σ : Option ι} {cmd : Command} {spill : Bool}
    (hσ : s.senders σ = .chosen cmd spill) (hturn : ¬ Overtakes s σ) : Ordered (s.push σ cmd spill) := by
  have hnum : ∀ t ∈ s.taken ++ s.urgent ++ s.common, t.num < (s.ticket σ cmd).num := fun t ht => hl.num_lt ht
  cases spill with
  | true =>
    refine ⟨h.sorted, h.taken, h.current, ?_⟩
    intro left evs hpc x hx y hy hp hxy
    cases hc : s.common with
    | nil =>
      -- the new command is the first of the common queue
      have hx' : x = s.ticket σ cmd := by
        have : (s.push σ cmd true).common = [s.ticket σ cmd] := by simp [State.push, hc]
        rw [this] at hx
        simpa using hx.symm
      subst hx'
      exact absurd ⟨⟨left, evs, hpc⟩, hc, ⟨cmd, hσ⟩, y, hy, hxy.symm, hp⟩ hturn
    | cons z rest =>
      have hx' : x ∈ s.common.head? := by simpa [State.push, hc] using hx
      exact h.window left evs hpc x hx' y hy hp hxy
  | false =>
    have hu : (s.push σ cmd false).urgent = s.urgent ++ [s.ticket σ cmd] := rfl
    refine ⟨?_, ?_, h.current, ?_⟩
    · rw [hu, List.pairwise_append]
      refine ⟨h.sorted, List.pairwise_singleton _ _, fun a ha b hb => ?_⟩
      rw [List.mem_singleton.mp hb]
      exact hnum a (by simp [ha])
    · intro y hy hp t ht hty
      rcases List.mem_append.mp (hu ▸ hy) with hy | hy
      · exact h.taken y hy hp t ht hty
      · rw [List.mem_singleton.mp hy]
        exact hnum t (List.mem_append_left _ (List.mem_append_left _ ht))
    · intro left evs hpc x hx y hy hp hxy
      rcases List.mem_append.mp (hu ▸ hy) with hy | hy
      · exact h.window left evs hpc x hx y hy hp hxy
      · rw [List.mem_singleton.mp hy]
        exact hnum x (List.mem_append_right _ (List.mem_of_mem_head? hx))

/-- The loop takes a command that no high one of the same thread precedes in the urgent queue. -/
theorem take (h : Ordered s) (hl : Ledger s) (hc : s.loop.current = []) {urgent common : List (Ticket ι)}
    {t : Ticket ι} (left : Nat) (evs : List Event) (hsub : urgent.Sublist s.urgent)
    (hfirst : ∀ y ∈ urgent, y.cmd.priority = .high → t.sender = y.sender → t.num < y.num)
    (hhigh : t.cmd.priority = .high → t ∈ s.urgent) :
    Ordered ({ s with urgent := urgent, common := common }.take t left evs) where
  sorted := h.sorted.sublist hsub
  taken y hy hp x hx hxy := by
    rcases List.mem_append.mp hx with hx | hx
    · exact h.taken y (hsub.subset hy) hp x hx hxy
    · rw [List.mem_singleton.mp hx] at hxy ⊢
      exact hfirst y hy hp hxy
  current y hy hp x hx hxy := by
    rw [List.mem_singleton.mp hy] at hp hxy ⊢
    have hf : x ∈ s.taken := by rw [hl.current, hc, List.append_nil]; exact hx
    exact h.taken t (hhigh hp) hp x hf hxy
  window left evs hpc := by cases hpc

/-- **Every step in turn keeps the order.** -/
theorem step {s' : State ι} {l : Label ι} (h : Ordered s) (hl : Ledger s) (hturn : InTurn s l) (hm : Moves s l s') :
    Ordered s' := by
  cases hm with
  | chooses σ cmd spill _ _ => exact ⟨h.sorted, h.taken, h.current, h.window⟩
  | accepts i _ _ _ _ => exact ⟨h.sorted, h.taken, h.current, h.window⟩
  | sends σ cmd spill hσ => exact h.push hl hσ (hturn σ rfl)
  | swaps σ num hσ => exact ⟨h.sorted, h.taken, h.current, h.window⟩
  | wakes σ num ok hσ => exact ⟨h.sorted, h.taken, h.current, h.window⟩
  | checks hpc => exact h.goto (by intro left evs; split <;> simp) (by split <;> simp [LoopPc.current])
  | checksCommon hpc => exact h.goto (by simp) (by simp [LoopPc.current])
  | takes left evs t rest hpc hu =>
    have hs := h.sorted
    rw [hu, List.pairwise_cons] at hs
    exact h.take hl (by simp [LoopPc.current, hpc]) left evs (by rw [hu]; exact List.sublist_cons_self t rest)
      (fun y hy _ _ => hs.1 y hy) (fun _ => by rw [hu]; exact List.mem_cons_self)
  | findsEmpty left evs hpc hu =>
    refine ⟨h.sorted, h.taken, by simp [State.goto, LoopPc.current], ?_⟩
    intro left' evs' _ x _ y hy
    exact absurd (hu ▸ hy : y ∈ []) (by simp)
  | takesCommon left evs t rest hpc hc =>
    refine h.take hl (by simp [LoopPc.current, hpc]) left evs (List.Sublist.refl _) ?_ ?_
    · intro y hy hp hty
      exact h.window left evs hpc t (by simp [hc]) y hy hp hty
    · intro hp
      rw [hl.low t (by simp [hc])] at hp
      cases hp
  | breaks left evs hpc => exact h.goto (by simp) (by simp [LoopPc.current])
  | finishes t left evs hpc _ =>
    refine ⟨h.sorted, h.taken, ?_, ?_⟩
    · intro y hy
      simp only [State.goto] at hy
      split at hy <;> cases hy
    · intro left' evs' hpc'
      simp only [State.goto] at hpc'
      split at hpc' <;> cases hpc'
  | resets evs hpc =>
    exact ⟨h.sorted, h.taken, by simp [State.goto, LoopPc.current], by simp [State.goto]⟩
  | ticks hpc _ => exact h.goto (by simp) (by simp [LoopPc.current])
  | eventsDone hpc => exact h.goto (by simp) (by simp [LoopPc.current])
  | calls evs hpc => exact h.goto (by simp) (by simp [LoopPc.current])
  | callReturns evs hpc _ => exact h.goto (by simp) (by simp [LoopPc.current])
  | retries pending hpc => exact h.goto (by simp) (by simp [LoopPc.current])
  | returns pending before after hpc =>
    refine ⟨h.sorted, h.taken, ?_, ?_⟩
    · intro y hy
      cases pending <;> cases hy
    · intro left' evs' hpc'
      cases pending <;> cases hpc'
  | stops current hc _ =>
    refine h.goto (by simp) ?_
    rw [hc]
    cases current <;> simp [LoopPc.current]

end Ordered

/-- **Exactly once, and in order.** Every command sent is taken at most once and none disappears; and in a run without
a send that overtakes, the loop is done with a high command before it takes a later one of the same thread. -/
theorem commands_in_order [DecidableEq ι] {ls : List (Label ι)} {t : State ι} (hturn : Along step InTurn start ls)
    (hrun : run step start ls = some t) : t.ExactlyOnce ∧ t.InOrder := by
  have hinv : Ledger t ∧ Ordered t := by
    refine run_invariant (P := fun s => Ledger s ∧ Ordered s) ?_ ⟨start_ledger, start_ordered⟩ hturn hrun
    intro s l s' ⟨hl, ho⟩ hok hs
    exact ⟨hl.step (step_moves hs), ho.step hl hok (step_moves hs)⟩
  exact ⟨hinv.1.exactlyOnce, hinv.2.inOrder hinv.1⟩

theorem InTurn.of_loop {s : State ι} {l : Label ι} (h : ∀ left evs, s.loop ≠ .drainCommon left evs) : InTurn s l :=
  fun _ _ ⟨⟨left, evs, hl⟩, _⟩ => h left evs hl

/-- A thread sends an `AsyncWrite` and a `Close`; the loop takes the first, and then the second. -/
def inOrderRun (g : Gfd) (data : Bytes) : List (Label Unit) :=
  [.trigger (some ()) (.asyncWrite g data), .send (some ()), .swap (some ()), .osWake (some ()) true,
    .trigger (some ()) (.close 0), .send (some ()), .advance, .advance, .pollReturn 0 0, .advance, .advance, .advance]

theorem commands_in_order_two : ∃ t, run step start (inOrderRun ⟨0, 0, 0⟩ []) = some t ∧
    t.taken.map Ticket.cmd = [.asyncWrite ⟨0, 0, 0⟩ [], .close 0] ∧ t.ExactlyOnce ∧ t.InOrder := by
  refine ⟨_, rfl, rfl, commands_in_order ?_ (show run step start (inOrderRun ⟨0, 0, 0⟩ []) = some _ from rfl)⟩
  have hloop : ∀ {s : State Unit} {l : Label Unit}, (∀ left evs, s.loop ≠ .drainCommon left evs) → InTurn s l :=
    InTurn.of_loop
  refine .cons (hloop ?_) rfl <| .cons (hloop ?_) rfl <| .cons (hloop ?_) rfl <| .cons (hloop ?_) rfl <|
    .cons (hloop ?_) rfl <| .cons (hloop ?_) rfl <| .cons (hloop ?_) rfl <| .cons (hloop ?_) rfl <|
    .cons (hloop ?_) rfl <| .cons (hloop ?_) rfl <| .cons (hloop ?_) rfl <| .cons (hloop ?_) rfl .nil
  all_goals
    intro left evs h
    cases h

/-- A run loses and repeats no command, whoever overtakes whom. -/
theorem run_exactlyOnce [DecidableEq ι] {ls : List (Label ι)} {t : State ι} (hrun : run step start ls = some t) :
    t.ExactlyOnce :=
  (run_invariant' (P := Ledger) (fun _ _ _ hl hs => hl.step (step_moves hs)) start_ledger hrun).exactlyOnce

/-- **After a send that overtakes, the loop takes the commands in the wrong order.** -/
theorem Overtakes.breaks [DecidableEq ι] {s : State ι} {σ : Option ι} (h : Overtakes s σ) (hl : Ledger s) :
    ∃ s', run step s [.send σ, .advance] = some s' ∧ ¬ s'.InOrder := by
  obtain ⟨⟨left, evs, hpc⟩, hc, ⟨cmd, hσ⟩, y, hy, hyσ, hp⟩ := h
  have h₁ : step s (.send σ) = some (s.push σ cmd true) := by simp [step, hσ]
  have hpush : Ledger (s.push σ cmd true) := hl.push hσ
  have hcommon : (s.push σ cmd true).common = [s.ticket σ cmd] := by simp [State.push, hc]
  have h₂ : step (s.push σ cmd true) .advance =
      some ({ s.push σ cmd true with common := [] }.take (s.ticket σ cmd) left evs) := by
    have hpc' : (s.push σ cmd true).loop = .drainCommon left evs := hpc
    simp [step, State.advance, hpc', hcommon]
  refine ⟨_, by rw [run_cons_some h₁, run_cons_some h₂]; rfl, fun hord => ?_⟩
  have hfin : y ∈ s.finished := by
    refine hord y ?_ (s.ticket σ cmd) ?_ hyσ hp ?_
    · exact List.mem_append_left _ (hl.placed.mem_iff.mp (by simp [hy]))
    · exact List.mem_append_right _ List.mem_cons_self
    · exact hl.num_lt (by simp [hy])
  exact hl.not_taken hy (by rw [hl.current]; exact List.mem_append_left _ hfin)

/-- A thread calls `trigger` with the same command `n` times, with the flag already set. -/
def triggers (σ : Option ι) (cmd : Command) : Nat → List (Label ι)
  | 0 => []
  | n + 1 => .trigger σ cmd :: .send σ :: .swap σ :: triggers σ cmd n

/-- High commands pile up in the urgent queue while the loop stands still. -/
theorem run_triggers [DecidableEq ι] {i : ι} {cmd : Command} (hcmd : cmd.priority = .high) :
    ∀ (n : Nat) (s : State ι), (s.senders (some i)).finished = true → s.awoken = true →
      ∃ s', run step s (triggers (some i) cmd n) = some s' ∧ (s'.senders (some i)).finished = true ∧
        s'.loop = s.loop ∧ s'.common = s.common ∧ s'.urgent.length = s.urgent.length + n ∧
        ∀ t ∈ s.urgent, t ∈ s'.urgent
  | 0, s, hf, _ => ⟨s, rfl, hf, rfl, rfl, rfl, fun _ ht => ht⟩
  | n + 1, s, hf, ha => by
    let s₁ := s.setSender (some i) (.chosen cmd false)
    let s₂ := s₁.push (some i) cmd false
    let s₃ := s₂.swap (some i) (some s.sent.length)
    have h₁ : step s (.trigger (some i) cmd) = some s₁ := by
      simp [step, State.mayTrigger, hf, hcmd, s₁]
    have h₂ : step s₁ (.send (some i)) = some s₂ := by
      simp [step, s₁, s₂, State.setSender]
    have h₃ : step s₂ (.swap (some i)) = some s₃ := by
      simp [step, s₁, s₂, s₃, State.setSender, State.push]
    have hfin : (s₃.senders (some i)).finished = true := by
      have haw : s₂.awoken = true := ha
      simp [s₃, State.swap, State.setSender, haw, SenderPc.finished]
    obtain ⟨s', hrun, hf', hl, hc, hlen, hmem⟩ := run_triggers hcmd n s₃ hfin rfl
    have hu : s₃.urgent = s.urgent ++ [s.ticket (some i) cmd] := rfl
    refine ⟨s', ?_, hf', hl, hc, ?_, fun t ht => hmem t ?_⟩
    · rw [triggers, run_cons_some h₁, run_cons_some h₂, run_cons_some h₃, hrun]
    · rw [hlen, hu, List.length_append, List.length_singleton]
      omega
    · rw [hu]
      exact List.mem_append_left _ ht

/-- One command brings the loop to the place between its two queues; there the thread sends an `AsyncWrite`. -/
def windowRun (g : Gfd) : List (Label Unit) :=
  [.trigger (some ()) .none, .send (some ()), .swap (some ()), .osWake (some ()) true, .advance, .advance,
    .pollReturn 0 0, .advance, .advance, .advance,
    .trigger (some ()) (.asyncWrite g []), .send (some ()), .swap (some ())]

/-- A thousand more fill the urgent queue up to the limit, and the `Close` after them spills over. -/
def overtakingRun (g : Gfd) : List (Label Unit) :=
  windowRun g ++ (triggers (some ()) (.asyncWrite g []) 1023 ++ [.trigger (some ()) (.close 0)]) ++
    [.send (some ()), .advance]

theorem windowRun_window (g : Gfd) : ∃ s, run step start (windowRun g) = some s ∧
    s.loop = .drainCommon 254 [.wake] ∧ s.common = [] ∧ s.urgent = [⟨1, some (), .asyncWrite g []⟩] ∧
    (s.senders (some ())).finished = true ∧ s.awoken = true := ⟨_, rfl, rfl, rfl, rfl, rfl, rfl⟩

/-- The thread's `Close` overtakes its thousand-odd `AsyncWrite`s. -/
theorem overtaken : ∃ t, run step start (overtakingRun ⟨0, 0, 0⟩) = some t ∧ ¬ t.InOrder := by
  obtain ⟨s, hrun, hloop, hcommon, hurgent, hf, ha⟩ := windowRun_window ⟨0, 0, 0⟩
  obtain ⟨s', hrun', hf', hloop', hcommon', hlen, hmem⟩ :=
    run_triggers (show (Command.asyncWrite ⟨0, 0, 0⟩ []).priority = .high from rfl) 1023 s hf ha
  have hfull : spills .low s'.urgent.length = true := by
    rw [hlen, hurgent]
    rfl
  have hclose : step s' (.trigger (some ()) (.close 0)) = some (s'.setSender (some ()) (.chosen (.close 0) true)) := by
    simp only [step, State.mayTrigger, hf', Command.priority, hfull]
    rfl
  have hpre : run step start (windowRun ⟨0, 0, 0⟩ ++
      (triggers (some ()) (.asyncWrite ⟨0, 0, 0⟩ []) 1023 ++ [.trigger (some ()) (.close 0)])) =
        some (s'.setSender (some ()) (.chosen (.close 0) true)) := by
    rw [run_append hrun, run_append hrun', run_cons_some hclose]
    rfl
  have hover : Overtakes (s'.setSender (some ()) (.chosen (.close 0) true)) (some ()) := by
    refine ⟨⟨254, [.wake], hloop'.trans hloop⟩, hcommon'.trans hcommon, ⟨.close 0, ?_⟩,
      ⟨1, some (), .asyncWrite ⟨0, 0, 0⟩ []⟩, hmem _ (by simp [hurgent]), rfl, rfl⟩
    simp [State.setSender]
  have hledger : Ledger (s'.setSender (some ()) (.chosen (.close 0) true)) :=
    run_invariant' (P := Ledger) (fun _ _ _ hl hs => hl.step (step_moves hs)) start_ledger hpre
  obtain ⟨t, ht, hbad⟩ := hover.breaks hledger
  exact ⟨t, by rw [overtakingRun, run_append hpre, ht], hbad⟩

end Rnet.Wake
