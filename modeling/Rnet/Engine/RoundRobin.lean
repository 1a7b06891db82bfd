import Rnet.Engine.Accepting
import Rnet.Lib.Residues

/-!
# `RoundRobin` with many threads

`RoundRobin::select` is one `fetch_add` on a shared counter, and what a call returns is decided there, however the
threads are interrupted. The calls stand in the order of their `fetch_add`s. A window of them has consecutive values
of the counter, as long as it does not wrap (`currents_window`), and so every worker has its share of it
(`round_robin_fair`).
-/

namespace Rnet.RoundRobin

open Runs Residues

/-- Where a thread stands. -/
inductive Pc
  | outside
  /-- before `workers.is_empty` -/
  | called
  /-- before `fetch_add` -/
  | fetching
  /-- before it returns, with its local variable -/
  | fetched (current : UInt64)
  deriving DecidableEq

/-- A call that has read the counter, and what it has returned. -/
structure Call (τ : Type) where
  thread : τ
  current : UInt64
  returned : Option Nat

structure State (τ : Type) where
  next : UInt64
  pc : τ → Pc
  /-- in the order of their `fetch_add`s -/
  calls : List (Call τ)

inductive Label (τ : Type)
  | call (t : τ)
  /-- the next step of the thread -/
  | advance (t : τ)

variable {τ : Type} [DecidableEq τ]

/-- The thread returns from its open call. -/
def Call.close (t : τ) (idx : Nat) (c : Call τ) : Call τ :=
  if c.thread = t ∧ c.returned = none then { c with returned := some idx } else c

/-- Nobody has called `select`. -/
def initial (next : UInt64) : State τ := ⟨next, fun _ => .outside, []⟩

namespace State

def move (s : State τ) (t : τ) (pc : Pc) : State τ := { s with pc := Function.update s.pc t pc }

/-- The next step of a call of `select` with `n` workers. -/
def step (n : Nat) (s : State τ) : Label τ → Option (State τ)
  | .call t =>
    match s.pc t with
    | .outside => some (s.move t .called)
    | .called | .fetching | .fetched _ => none
  | .advance t =>
    match s.pc t with
    | .outside => none
    -- without workers the call returns 0, and the counter stays
    | .called => some (s.move t (if n = 0 then .outside else .fetching))
    | .fetching => some { s.move t (.fetched s.next) with
        next := s.next + 1
        calls := s.calls ++ [⟨t, s.next, none⟩] }
    | .fetched current =>
      some { s.move t .outside with calls := s.calls.map (Call.close t (current.toNat % n)) }

/-! ## What the calls return -/

variable {n : Nat} {s s' s₁ : State τ} {l : Label τ}

/-- A thread in an open call has its value of the counter, and the other calls have returned what theirs says. -/
def Truthful (n : Nat) (s : State τ) : Prop :=
  ∀ c ∈ s.calls, (c.returned = none → s.pc c.thread = .fetched c.current) ∧
    ∀ v, c.returned = some v → v = c.current.toNat % n

/-- A thread that has no open call moves. -/
theorem Truthful.move (h : s.Truthful n) {t : τ} {pc : Pc} (hout : ∀ current, s.pc t ≠ .fetched current) :
    (s.move t pc).Truthful n := by
  intro c hc
  refine ⟨fun hopen => ?_, (h c hc).2⟩
  have hpc := (h c hc).1 hopen
  have hne : c.thread ≠ t := by
    rintro rfl
    exact hout c.current hpc
  exact (Function.update_of_ne hne ..).trans hpc

theorem Truthful.step (h : s.Truthful n) (hstep : s.step n l = some s') : s'.Truthful n := by
  cases l with
  | call t =>
    cases hpc : s.pc t <;> simp only [State.step, hpc, Option.some.injEq, reduceCtorEq] at hstep
    subst hstep
    exact h.move (by simp [hpc])
  | advance t =>
    cases hpc : s.pc t with
    | outside => simp [State.step, hpc] at hstep
    | called =>
      simp only [State.step, hpc, Option.some.injEq] at hstep
      subst hstep
      exact h.move (by simp [hpc])
    | fetching =>
      simp only [State.step, hpc, Option.some.injEq] at hstep
      subst hstep
      intro c hc
      rcases List.mem_append.mp hc with hc | hc
      · exact h.move (by simp [hpc]) c hc
      · obtain rfl := List.mem_singleton.mp hc
        exact ⟨fun _ => Function.update_self .., by simp⟩
    | fetched current =>
      simp only [State.step, hpc, Option.some.injEq] at hstep
      subst hstep
      intro c hc
      obtain ⟨c, hmem, rfl⟩ := List.mem_map.mp hc
      obtain ⟨hopen, hvalue⟩ := h c hmem
      unfold Call.close
      split
      · -- the call that returns: its thread's variable is the recorded one
        rename_i hclose
        obtain rfl : c.current = current := by
          have := hopen hclose.2
          rw [hclose.1, hpc] at this
          exact (Pc.fetched.inj this).symm
        exact ⟨by simp, by simp⟩
      · rename_i hclose
        refine ⟨fun hnone => ?_, hvalue⟩
        have hne : c.thread ≠ t := fun ht => hclose ⟨ht, hnone⟩
        exact (Function.update_of_ne hne ..).trans (hopen hnone)

/-- Since `s₁` the counter has been read `m` times. -/
def Counted (s₁ s : State τ) (m : Nat) : Prop :=
  s.calls.map Call.current =
      s₁.calls.map Call.current ++ (List.range m).map (fun i => s₁.next + UInt64.ofNat i) ∧
    s.next = s₁.next + UInt64.ofNat m

theorem map_close (t : τ) (idx : Nat) (cs : List (Call τ)) :
    (cs.map (Call.close t idx)).map Call.current = cs.map Call.current := by
  rw [List.map_map]
  refine List.map_congr_left fun c _ => ?_
  unfold Function.comp Call.close
  split <;> rfl

theorem Counted.step (h : ∃ m, Counted s₁ s m) (hstep : s.step n l = some s') : ∃ m, Counted s₁ s' m := by
  obtain ⟨m, hcalls, hnext⟩ := h
  cases l with
  | call t =>
    cases hpc : s.pc t <;> simp only [State.step, hpc, Option.some.injEq, reduceCtorEq] at hstep
    subst hstep
    exact ⟨m, hcalls, hnext⟩
  | advance t =>
    cases hpc : s.pc t with
    | outside => simp [State.step, hpc] at hstep
    | called =>
      simp only [State.step, hpc, Option.some.injEq] at hstep
      subst hstep
      exact ⟨m, hcalls, hnext⟩
    | fetching =>
      simp only [State.step, hpc, Option.some.injEq] at hstep
      subst hstep
      refine ⟨m + 1, ?_, ?_⟩
      · rw [List.map_append, hcalls, List.range_succ, List.map_append, List.append_assoc, hnext]
        rfl
      · simp only [hnext, UInt64.ofNat_add, UInt64.add_assoc]
        rfl
    | fetched current =>
      simp only [State.step, hpc, Option.some.injEq] at hstep
      subst hstep
      exact ⟨m, (map_close ..).trans hcalls, hnext⟩

/-- **A window of the calls has consecutive values of the counter**, if it does not wrap. -/
theorem currents_window {ls : List (Label τ)} (hrun : run (State.step n) s₁ ls = some s) {k : Nat}
    (hroom : s₁.next.toNat + k ≤ 2 ^ 64) (hk : ((s.calls.drop s₁.calls.length).take k).length = k) :
    ((s.calls.drop s₁.calls.length).take k).map (fun c => c.current.toNat) = List.range' s₁.next.toNat k := by
  have hstep : ∀ a l b, (∃ m, Counted s₁ a m) → State.step n a l = some b → ∃ m, Counted s₁ b m :=
    fun _ _ _ => Counted.step
  obtain ⟨m, hcalls, -⟩ := run_invariant' hstep ⟨0, by simp [Counted]⟩ hrun
  have hdrop : (s.calls.drop s₁.calls.length).map Call.current =
      (List.range m).map (fun i => s₁.next + UInt64.ofNat i) := by
    rw [List.map_drop, hcalls, List.drop_left' (List.length_map _)]
  have hkm : k ≤ m := by
    have hlen := congrArg List.length hdrop
    rw [List.length_map, List.length_map, List.length_range] at hlen
    rw [List.length_take] at hk
    omega
  calc ((s.calls.drop s₁.calls.length).take k).map (fun c => c.current.toNat)
      = ((((s.calls.drop s₁.calls.length).map Call.current).take k).map UInt64.toNat) := by
        rw [← List.map_take, List.map_map]
        rfl
    _ = (List.range k).map (fun i => (s₁.next + UInt64.ofNat i).toNat) := by
        rw [hdrop, ← List.map_take, List.take_range, Nat.min_eq_left hkm, List.map_map]
        rfl
    _ = (List.range k).map (s₁.next.toNat + ·) := by
        refine List.map_congr_left fun i hi => ?_
        have hi : i < k := List.mem_range.mp hi
        rw [UInt64.toNat_add, UInt64.toNat_ofNat', Nat.mod_eq_of_lt (a := i) (by omega), Nat.mod_eq_of_lt (by omega)]
    _ = List.range' s₁.next.toNat k := (List.range'_eq_map_range ..).symm

/-- **Every worker has its share of every window of calls**: of `k` calls that follow each other in the order of their
`fetch_add`s and have returned `vs`, from whatever value of the counter on. -/
theorem round_robin_fair (hn : 1 ≤ n) {next : UInt64} {before ls : List (Label τ)}
    (hbefore : run (State.step n) (initial next) before = some s₁) (hrun : run (State.step n) s₁ ls = some s) {k : Nat}
    (hroom : s₁.next.toNat + k ≤ 2 ^ 64) {vs : List Nat} (hlength : vs.length = k)
    (hreturned : ((s.calls.drop s₁.calls.length).take k).map Call.returned = vs.map some) :
    (∀ p < n, vs.count p = k / n ∨ vs.count p = (k + n - 1) / n) ∧ ∀ v ∈ vs, v < n := by
  have htruth : s.Truthful n := by
    have h₁ : s₁.Truthful n := run_invariant' (fun _ _ _ h hs => Truthful.step h hs)
      (by simp [Truthful, initial]) hbefore
    exact run_invariant' (fun _ _ _ h hs => Truthful.step h hs) h₁ hrun
  have hk : ((s.calls.drop s₁.calls.length).take k).length = k := by
    have h := congrArg List.length hreturned
    rwa [List.length_map, List.length_map, hlength] at h
  have hwindow := currents_window hrun hroom hk
  have hvs : vs = window n s₁.next.toNat k := by
    have hvalues : ((s.calls.drop s₁.calls.length).take k).map Call.returned =
        ((s.calls.drop s₁.calls.length).take k).map fun c => some (c.current.toNat % n) := by
      refine List.map_congr_left fun c hc => ?_
      have hmem : c ∈ s.calls := List.mem_of_mem_drop (List.mem_of_mem_take hc)
      obtain ⟨v, hv⟩ : ∃ v, c.returned = some v := by
        have h := List.mem_map_of_mem (f := Call.returned) hc
        rw [hreturned] at h
        obtain ⟨v, -, hv⟩ := List.mem_map.mp h
        exact ⟨v, hv.symm⟩
      rw [hv, (htruth c hmem).2 v hv]
    rw [hvalues] at hreturned
    have hsome : (window n s₁.next.toNat k).map some = vs.map some := by
      rw [← hreturned, window, ← hwindow, List.map_map, List.map_map]
      rfl
    exact (List.map_injective_iff.mpr (Option.some_injective _) hsome).symm
  subst hvs
  exact ⟨fun p hp => count_window hp _ _, fun v hv => lt_of_mem_window hn hv⟩

/-- Two threads and two workers: both stand before `fetch_add`, and the one that reads first returns last. -/
theorem round_robin_fair_two : ∃ (s : State Bool) (vs : List Nat),
    run (State.step 2) (initial 5) ([.call true, .call false, .advance true, .advance false] ++
      [.advance false, .advance true, .advance true, .advance false, .call true, .advance true, .advance true,
        .advance true]) = some s ∧
    s.calls.map Call.returned = vs.map some ∧ vs = [1, 0, 1] ∧
    (∀ p < 2, vs.count p = 3 / 2 ∨ vs.count p = (3 + 2 - 1) / 2) ∧ ∀ v ∈ vs, v < 2 := by
  obtain ⟨s₁, hbefore, hroom, s, hrun, hreturned, hall⟩ : ∃ s₁, run (State.step 2) (initial (τ := Bool) 5)
        [.call true, .call false, .advance true, .advance false] = some s₁ ∧ s₁.next.toNat + 3 ≤ 2 ^ 64 ∧
      ∃ s, run (State.step 2) s₁ [.advance false, .advance true, .advance true, .advance false, .call true,
          .advance true, .advance true, .advance true] = some s ∧
        ((s.calls.drop s₁.calls.length).take 3).map Call.returned = [1, 0, 1].map some ∧
        s.calls.map Call.returned = [1, 0, 1].map some := ⟨_, rfl, by decide, _, rfl, rfl, rfl⟩
  exact ⟨s, [1, 0, 1], (run_append hbefore).trans hrun, hall, rfl,
    round_robin_fair (by decide) hbefore hrun hroom rfl hreturned⟩

/-! ## A call by itself -/

/-- A call that nobody disturbs does what `select` does for the acceptor. -/
theorem select_undisturbed {a : Accepting.Acceptor} (hlb : a.loadBalancing = .roundRobin) (hn : 0 < a.workers.length)
    {t : τ} (hpc : s.pc t = .outside) (hnext : s.next.toNat = a.next) :
    ∃ s', run (State.step a.workers.length) s [.call t, .advance t, .advance t, .advance t] = some s' ∧
      s'.calls.getLast? = some ⟨t, s.next, some a.select.1⟩ ∧ s'.next.toNat = a.select.2.next := by
  have hne : a.workers.isEmpty = false := by
    rw [List.isEmpty_eq_false_iff]
    exact List.ne_nil_of_length_pos hn
  have hselect : a.select = (a.next % a.workers.length, { a with next := (a.next + 1) % 2 ^ 64 }) := by
    simp [Accepting.Acceptor.select, hlb, hne]
  refine ⟨_, by simp [run, State.step, State.move, hpc, Nat.pos_iff_ne_zero.mp hn]; rfl, ?_, ?_⟩
  · simp [hselect, Call.close, hnext]
  · rw [hselect, ← hnext]
    exact UInt64.toNat_add s.next 1

end State

end Rnet.RoundRobin
