import Rnet.EventLoop.Consistency
import Rnet.Lib.Residues
import Mathlib.Algebra.BigOperators.Group.List.Basic

/-!
# Choosing a worker

`Acceptor::accept_loop` gives each socket to the worker that `Balancer::select` names: it sends the worker a `Register`
command, and goes on to the next socket. `RoundRobin` counts when it selects. `LeastConnections` looks at the
`conn_count` of each worker, which goes up when the worker has registered the socket. So it does not see what is on its
way, and gives a burst to one worker (`burst_to_one_worker`).

Any policy balances exactly if each socket goes to a worker that is least loaded with the sockets on their way counted
(`balanced_iff_least`). `LeastConnections` does so as long as each counter is read when no `Register` command waits at
its worker (`least_of_caughtUp`, `least_connections_balanced`), `RoundRobin` whatever the workers do meanwhile, until
its counter wraps (`round_robin_balanced`).

The counters are read one after the other, and the workers register at any time. No handler refuses a connection and
none is closed. `registered` and `received` tie the two numbers of a worker to its event loop.
-/

namespace Rnet.Balancer

open Runs

/-- `options.lb`, but for `SourceAddrHash`, which `Balancer::new` does not know yet -/
inductive LoadBalancing
  | roundRobin
  | leastConnections
  deriving DecidableEq, Repr

structure Worker where
  /-- `conn_count` of its handle -/
  connCount : Nat
  /-- so many `Register` commands are in its queue -/
  waiting : Nat
  deriving DecidableEq, Repr

/-- The connections it has when all its `Register` commands are processed. -/
def Worker.load (w : Worker) : Nat := w.connCount + w.waiting

/-- Where `accept_loop` stands, in this call or a later one. -/
inductive Pc
  /-- before `accept` -/
  | accepting
  /-- in `select`, which has read `k` counters; the best so far is at this position and has this count -/
  | selecting (k : Nat) (best : Option (Nat × Nat))
  /-- before `send` to the worker selected -/
  | sending (idx : Nat)
  deriving DecidableEq, Repr

structure State where
  loadBalancing : LoadBalancing
  /-- `RoundRobin::next` -/
  next : Nat
  workers : List Worker
  pc : Pc
  deriving DecidableEq, Repr

inductive Label
  /-- `accept` answers with a socket -/
  | accept
  /-- the next step of `select` -/
  | select
  | send
  /-- a worker processes a `Register` command -/
  | register (p : Nat)
  deriving DecidableEq, Repr

/-- `min_by_key`: the first of the least ones. -/
def better (best : Option (Nat × Nat)) (idx key : Nat) : Nat × Nat :=
  match best with
  | none => (idx, key)
  | some (i, k) => if key < k then (idx, key) else (i, k)

namespace State

/-- The next step of `select`: one `fetch_add`, or one more counter. -/
def select (s : State) : Option State :=
  match s.pc with
  | .selecting k best =>
    match s.loadBalancing with
    | .roundRobin =>
      if s.workers.isEmpty then some { s with pc := .sending 0 }
      else some { s with next := (s.next + 1) % 2 ^ 64, pc := .sending (s.next % s.workers.length) }
    | .leastConnections =>
      match s.workers[k]? with
      | some w => some { s with pc := .selecting (k + 1) (some (better best k w.connCount)) }
      | none => some { s with pc := .sending ((best.map Prod.fst).getD 0) }
  | .accepting | .sending _ => none

def step (s : State) : Label → Option State
  | .accept =>
    match s.pc with
    | .accepting => some { s with pc := .selecting 0 none }
    | .selecting _ _ | .sending _ => none
  | .select => s.select
  | .send =>
    match s.pc with
    | .sending idx =>
      some { s with workers := s.workers.modify idx fun w => { w with waiting := w.waiting + 1 }, pc := .accepting }
    | .accepting | .selecting _ _ => none
  | .register p =>
    match s.workers[p]? with
    | some ⟨connCount, waiting + 1⟩ => some { s with workers := s.workers.set p ⟨connCount + 1, waiting⟩ }
    | some ⟨_, 0⟩ | none => none

/-- The loads are equal, and no call of `accept_loop` is under way. -/
structure Even (s : State) : Prop where
  pc : s.pc = .accepting
  waiting : ∀ w ∈ s.workers, w.waiting = 0
  connCount : ∀ w ∈ s.workers, ∀ w' ∈ s.workers, w.connCount = w'.connCount

/-- All `Register` commands are processed. -/
def Settled (s : State) : Prop := ∀ w ∈ s.workers, w.waiting = 0

/-- The numbers of connections differ by one at most. -/
def Balanced (s : State) : Prop := ∀ w ∈ s.workers, ∀ w' ∈ s.workers, w.connCount ≤ w'.connCount + 1

instance (s : State) : Decidable s.Settled := inferInstanceAs (Decidable (∀ w ∈ s.workers, w.waiting = 0))

instance (s : State) : Decidable s.Balanced :=
  inferInstanceAs (Decidable (∀ w ∈ s.workers, ∀ w' ∈ s.workers, w.connCount ≤ w'.connCount + 1))

/-- The load of the worker at a position. -/
def loadAt (s : State) (p : Nat) : Nat :=
  match s.workers[p]? with
  | some w => w.load
  | none => 0

/-- The loads differ by one at most. -/
def Level (s : State) : Prop :=
  ∀ p q, p < s.workers.length → q < s.workers.length → s.loadAt p ≤ s.loadAt q + 1

/-- The worker that was selected is a least loaded one. -/
def least (s : State) : Label → Bool
  | .send =>
    match s.pc with
    | .sending idx => s.workers[idx]?.all fun w => s.workers.all fun w' => w.load ≤ w'.load
    | .accepting | .selecting _ _ => true
  | .accept | .select | .register _ => true

variable {s s' : State} {l : Label}

theorem least_send_iff : s.least .send = true ↔ ∀ idx, s.pc = .sending idx → idx < s.workers.length →
    ∀ q, q < s.workers.length → s.loadAt idx ≤ s.loadAt q := by
  simp only [least]
  split
  · rename_i idx hpc
    constructor
    · intro h i hi hin q hq
      obtain rfl := Pc.sending.inj (hpc.symm.trans hi)
      rw [List.getElem?_eq_getElem hin] at h
      simp only [Option.all_some, List.all_eq_true, decide_eq_true_eq] at h
      simpa only [loadAt, List.getElem?_eq_getElem hin, List.getElem?_eq_getElem hq] using h _ (List.getElem_mem hq)
    · intro h
      rw [Option.all_eq_true]
      intro w hw
      obtain ⟨hin, rfl⟩ := List.getElem?_eq_some_iff.mp hw
      refine List.all_eq_true.mpr fun w' hw' => decide_eq_true ?_
      obtain ⟨q, hq, rfl⟩ := List.mem_iff_getElem.mp hw'
      simpa only [loadAt, List.getElem?_eq_getElem hin, List.getElem?_eq_getElem hq] using h idx hpc hin q hq
  · rename_i hpc
    simp [hpc]
  · rename_i hpc
    simp [hpc]

/-- When all `Register` commands are processed the loads are the numbers of connections. -/
theorem Level.balanced (hl : s.Level) (hs : s.Settled) : s.Balanced := fun w hw w' hw' => by
  obtain ⟨p, hp, rfl⟩ := List.mem_iff_getElem.mp hw
  obtain ⟨q, hq, rfl⟩ := List.mem_iff_getElem.mp hw'
  have hle := hl p q hp hq
  have hwaiting := hs _ hw
  have hwaiting' := hs _ hw'
  simp only [loadAt, List.getElem?_eq_getElem hp, List.getElem?_eq_getElem hq, Worker.load] at hle
  omega

theorem Even.loadAt (he : s.Even) : ∃ c, ∀ p, p < s.workers.length → s.loadAt p = c := by
  cases hworkers : s.workers with
  | nil => exact ⟨0, fun p hp => absurd hp (Nat.not_lt_zero p)⟩
  | cons v ws =>
    have hv : v ∈ s.workers := by rw [hworkers]; exact List.mem_cons_self
    refine ⟨v.connCount, fun p hp => ?_⟩
    rw [← hworkers] at hp
    have hmem := List.getElem_mem hp
    simp only [State.loadAt, List.getElem?_eq_getElem hp, Worker.load, he.waiting _ hmem, he.connCount _ hmem _ hv]
    rfl

/-- **What a step does to the loads**: the worker a socket is sent to gets one more, and a worker that processes a
`Register` command keeps its load. -/
theorem step_loads (h : s.step l = some s') : s'.workers.length = s.workers.length ∧
    s'.loadBalancing = s.loadBalancing ∧
    ∀ p, p < s.workers.length → s'.loadAt p = s.loadAt p + if l = .send ∧ s.pc = .sending p then 1 else 0 := by
  cases l with
  | accept =>
    simp only [step] at h
    split at h <;> cases h
    exact ⟨rfl, rfl, fun p _ => by simp [loadAt]⟩
  | select =>
    simp only [step, select] at h
    split at h
    · split at h <;> split at h <;> cases h <;> exact ⟨rfl, rfl, fun p _ => by simp [loadAt]⟩
    all_goals cases h
  | send =>
    simp only [step] at h
    split at h
    · rename_i idx hpc
      cases h
      refine ⟨List.length_modify .., rfl, fun p hp => ?_⟩
      simp only [loadAt, List.getElem?_modify, List.getElem?_eq_getElem hp, Option.map_eq_map, Option.map_some, hpc]
      by_cases hi : idx = p
      · simp [hi, Worker.load, Nat.add_assoc]
      · simp [hi]
    all_goals cases h
  | register r =>
    simp only [step] at h
    split at h
    · rename_i connCount waiting hw
      cases h
      refine ⟨List.length_set, rfl, fun p hp => ?_⟩
      simp only [loadAt, List.getElem?_set]
      by_cases hr : r = p
      · subst hr
        simp only [if_true, if_pos hp, hw, Worker.load]
        simp only [reduceCtorEq, false_and, if_false]
        omega
      · simp [hr]
    all_goals cases h

/-! ## LeastConnections -/

theorem Level.step (hl : s.Level) (hleast : s.least l = true) (h : s.step l = some s') : s'.Level := by
  obtain ⟨hlength, -, hloads⟩ := step_loads h
  intro p q hp hq
  rw [hlength] at hp hq
  rw [hloads p hp, hloads q hq]
  have hle := hl p q hp hq
  by_cases hsend : l = .send ∧ s.pc = .sending p
  · obtain ⟨rfl, hpc⟩ := hsend
    have hmin := least_send_iff.mp hleast p hpc hp q hq
    rw [if_pos ⟨rfl, hpc⟩]
    omega
  · rw [if_neg hsend]
    omega

/-- Only `Register` commands are processed. -/
def Drains (ms : List Label) : Prop := ∀ l ∈ ms, ∃ p, l = .register p

theorem run_drains {ms : List Label} (hms : Drains ms) (hrun : run step s ms = some s') :
    s'.workers.length = s.workers.length ∧ ∀ p, p < s.workers.length → s'.loadAt p = s.loadAt p := by
  have hregister : Along step (fun _ l => ∃ p, l = .register p) s ms := .of_labels hms
  refine run_invariant
    (P := fun t => t.workers.length = s.workers.length ∧ ∀ p, p < s.workers.length → t.loadAt p = s.loadAt p)
    (fun t l t' ht hl h => ?_) ⟨rfl, fun _ _ => rfl⟩ hregister hrun
  obtain ⟨p, rfl⟩ := hl
  obtain ⟨hlength, -, hloads⟩ := step_loads h
  refine ⟨hlength.trans ht.1, fun q hq => ?_⟩
  rw [hloads q (ht.1 ▸ hq), if_neg (by simp)]
  exact ht.2 q hq

/-- One `Register` command less is waiting. -/
theorem exists_register (h : ¬s.Settled) : ∃ p s', s.step (.register p) = some s' ∧
    (s'.workers.map Worker.waiting).sum < (s.workers.map Worker.waiting).sum := by
  simp only [Settled, not_forall] at h
  obtain ⟨w, hw, hne⟩ := h
  obtain ⟨p, hp, rfl⟩ := List.mem_iff_getElem.mp hw
  obtain ⟨k, hk⟩ := Nat.exists_eq_succ_of_ne_zero hne
  have hstep : s.step (.register p) = some { s with workers := s.workers.set p ⟨s.workers[p].connCount + 1, k⟩ } := by
    simp only [step, List.getElem?_eq_getElem hp]
    generalize s.workers[p] = w at hk
    obtain ⟨connCount, waiting⟩ := w
    cases hk
    rfl
  refine ⟨p, _, hstep, ?_⟩
  have hlen : p < (s.workers.map Worker.waiting).length := by simpa using hp
  have hbefore := List.sum_set (s.workers.map Worker.waiting) p s.workers[p].waiting
  have hafter := List.sum_set (s.workers.map Worker.waiting) p k
  rw [if_pos hlen] at hbefore hafter
  have hsame : (s.workers.map Worker.waiting).set p s.workers[p].waiting = s.workers.map Worker.waiting := by
    rw [← List.map_set, List.set_getElem_self]
  rw [hsame] at hbefore
  have hset : (s.workers.set p ⟨s.workers[p].connCount + 1, k⟩).map Worker.waiting =
      (s.workers.map Worker.waiting).set p k := by rw [List.map_set]
  rw [hset]
  omega

/-- The workers can process what is waiting. -/
theorem exists_drains (s : State) : ∃ ms t, Drains ms ∧ run step s ms = some t ∧ t.Settled := by
  induction hsum : (s.workers.map Worker.waiting).sum using Nat.strong_induction_on generalizing s with
  | _ k ih =>
    by_cases hs : s.Settled
    · exact ⟨[], s, nofun, rfl, hs⟩
    · obtain ⟨p, s', hstep, hlt⟩ := exists_register hs
      obtain ⟨ms, t, hms, hrun, ht⟩ := ih _ (hsum ▸ hlt) s' rfl
      exact ⟨.register p :: ms, t, List.forall_mem_cons.mpr ⟨⟨p, rfl⟩, hms⟩, (run_cons_some hstep).trans hrun, ht⟩

theorem Level.of_balanced (hb : s.Balanced) (hs : s.Settled) : s.Level := fun p q hp hq => by
  have hle := hb _ (List.getElem_mem hp) _ (List.getElem_mem hq)
  have hwaiting := hs _ (List.getElem_mem hp)
  have hwaiting' := hs _ (List.getElem_mem hq)
  simp only [loadAt, List.getElem?_eq_getElem hp, List.getElem?_eq_getElem hq, Worker.load]
  omega

/-- **Balanced exactly if each choice is right**, for any policy. From equal loads, for any number of workers and of
sockets, and with the workers as late as they like: wherever the acceptor stops, the numbers of connections differ by
one at most when all `Register` commands are processed, if and only if each socket went to a worker that was a least
loaded one with the sockets on their way counted. -/
theorem balanced_iff_least {s₀ : State} (heven : s₀.Even) {ls : List Label} (hrun : run step s₀ ls = some s) :
    Along step (fun s l => s.least l = true) s₀ ls ↔
      ∀ ks ms t, ks <+: ls → Drains ms → run step s₀ (ks ++ ms) = some t → t.Settled → t.Balanced := by
  obtain ⟨c, hc⟩ := heven.loadAt
  have hlevel : s₀.Level := fun p q hp hq => by
    rw [hc p hp, hc q hq]
    exact Nat.le_succ c
  constructor
  · intro hleast ks ms t hks hms ht hsettled
    obtain ⟨u, hu, hms'⟩ := exists_of_run_append ht
    obtain ⟨rest, rfl⟩ := hks
    have hu' : u.Level := run_invariant (fun _ _ _ hl hleast h => hl.step hleast h) hlevel hleast.of_append hu
    obtain ⟨hlength, hloads⟩ := run_drains hms hms'
    refine Level.balanced (fun p q hp hq => ?_) hsettled
    rw [hlength] at hp hq
    rw [hloads p hp, hloads q hq]
    exact hu' p q hp hq
  · intro hall
    by_contra hnot
    obtain ⟨ks, l, ms, s₁, s₂, rfl, hks, -, hl, hstep, -⟩ := exists_of_not_along hrun hnot
    cases l with
    | send =>
      simp only [least_send_iff, not_forall, Nat.not_le] at hl
      obtain ⟨p, hpc, hp, q, hq, hlt⟩ := hl
      obtain ⟨hlength, -, hloads⟩ := step_loads hstep
      obtain ⟨ds, t, hds, hdrain, hsettled⟩ := exists_drains s₂
      obtain ⟨hlength', hloads'⟩ := run_drains hds hdrain
      have ht : run step s₀ ((ks ++ [.send]) ++ ds) = some t := by
        rw [run_append ((run_append hks).trans (run_cons_some hstep)), hdrain]
      have hbalanced := hall (ks ++ [.send]) ds t ⟨ms, by simp⟩ hds ht hsettled
      have hle := Level.of_balanced hbalanced hsettled p q (by omega) (by omega)
      rw [hloads' p (by omega), hloads' q (by omega), hloads p hp, hloads q hq, if_pos ⟨rfl, hpc⟩, hpc] at hle
      have hqp : p ≠ q := fun heq => Nat.lt_irrefl _ (heq ▸ hlt)
      simp only [true_and, Pc.sending.injEq, hqp, if_false] at hle
      omega
    | accept | select | register _ => exact hl rfl

/-! ## Workers that have caught up -/

/-- A counter is read when no `Register` command is waiting at its worker. -/
def caughtUp (s : State) : Label → Bool
  | .select =>
    match s.pc with
    | .selecting k _ => s.workers[k]?.all fun w => w.waiting = 0
    | .accepting | .sending _ => true
  | .accept | .send | .register _ => true

/-- The best worker so far is the least loaded of those whose counters are read. -/
structure Chosen (s : State) : Prop where
  none : ∀ k, s.pc = .selecting k none → k = 0
  best : ∀ k i c, s.pc = .selecting k (some (i, c)) → i < s.workers.length ∧ s.loadAt i = c ∧
    ∀ j, j < k → j < s.workers.length → c ≤ s.loadAt j
  idx : ∀ i, s.pc = .sending i → ∀ j, j < s.workers.length → i < s.workers.length ∧ s.loadAt i ≤ s.loadAt j

theorem Chosen.select (hc : s.Chosen) (hlb : s.loadBalancing = .leastConnections) (hcaught : s.caughtUp .select = true)
    (h : s.step .select = some s') : s'.Chosen := by
  simp only [step, State.select] at h
  split at h
  · rename_i k best hpc
    simp only [hlb] at h
    split at h
    · rename_i w hw
      cases h
      have hk : k < s.workers.length := (List.getElem?_eq_some_iff.mp hw).1
      have hwaiting : w.waiting = 0 := by simpa [caughtUp, hpc, hw] using hcaught
      have hload : s.loadAt k = w.connCount := by
        simp only [loadAt, hw, Worker.load, hwaiting, Nat.add_zero]
      refine ⟨nofun, fun k' i c hpc' => ?_, nofun⟩
      obtain ⟨rfl, hbest⟩ := Pc.selecting.inj hpc'
      have hbest := Option.some.inj hbest
      show i < s.workers.length ∧ s.loadAt i = c ∧ ∀ j, j < k + 1 → j < s.workers.length → c ≤ s.loadAt j
      cases best with
      | none =>
        obtain rfl := hc.none k hpc
        obtain ⟨rfl, rfl⟩ := Prod.mk.inj hbest
        refine ⟨hk, hload, fun j hj _ => ?_⟩
        obtain rfl : j = 0 := by omega
        exact Nat.le_of_eq hload.symm
      | some b =>
        obtain ⟨i₀, c₀⟩ := b
        obtain ⟨hi₀, hc₀, hmin⟩ := hc.best k i₀ c₀ hpc
        have hsplit : ∀ j, j < k + 1 → j < k ∨ j = k := fun j hj => by omega
        simp only [better] at hbest
        split at hbest <;> rename_i hlt <;> obtain ⟨rfl, rfl⟩ := Prod.mk.inj hbest
        · refine ⟨hk, hload, fun j hj hjn => ?_⟩
          rcases hsplit j hj with hj | rfl
          · exact Nat.le_trans (Nat.le_of_lt hlt) (hmin j hj hjn)
          · exact Nat.le_of_eq hload.symm
        · refine ⟨hi₀, hc₀, fun j hj hjn => ?_⟩
          rcases hsplit j hj with hj | rfl
          · exact hmin j hj hjn
          · rw [hload]
            exact Nat.le_of_not_lt hlt
    · rename_i hw
      cases h
      have hk : s.workers.length ≤ k := List.getElem?_eq_none_iff.mp hw
      refine ⟨nofun, nofun, fun i hpc' j hj => ?_⟩
      obtain rfl := Pc.sending.inj hpc'
      have hj : j < s.workers.length := hj
      show (best.map Prod.fst).getD 0 < s.workers.length ∧ s.loadAt _ ≤ s.loadAt j
      cases best with
      | none =>
        obtain rfl := hc.none k hpc
        omega
      | some b =>
        obtain ⟨hi, hload, hmin⟩ := hc.best k b.1 b.2 hpc
        exact ⟨hi, hload ▸ hmin j (Nat.lt_of_lt_of_le hj hk) hj⟩
  all_goals cases h

theorem Chosen.step (hc : s.Chosen) (hlb : s.loadBalancing = .leastConnections) (hcaught : s.caughtUp l = true)
    (h : s.step l = some s') : s'.Chosen := by
  cases l with
  | select => exact hc.select hlb hcaught h
  | accept =>
    simp only [State.step] at h
    split at h <;> cases h
    exact ⟨fun k hpc => by cases hpc; rfl, nofun, nofun⟩
  | send =>
    simp only [State.step] at h
    split at h <;> cases h
    exact ⟨nofun, nofun, nofun⟩
  | register p =>
    obtain ⟨hlength, -, hloads⟩ := step_loads h
    have hsame : ∀ q, q < s.workers.length → s'.loadAt q = s.loadAt q := fun q hq => by
      rw [hloads q hq, if_neg (by simp), Nat.add_zero]
    have hpc : s'.pc = s.pc := by
      simp only [State.step] at h
      split at h <;> cases h
      rfl
    refine ⟨fun k hk => hc.none k (hpc ▸ hk), fun k i c hk => ?_, fun i hi j hj => ?_⟩
    · obtain ⟨hi, hload, hmin⟩ := hc.best k i c (hpc ▸ hk)
      refine ⟨hlength ▸ hi, (hsame i hi).trans hload, fun j hj hjn => ?_⟩
      rw [hlength] at hjn
      rw [hsame j hjn]
      exact hmin j hj hjn
    · rw [hlength] at hj ⊢
      obtain ⟨hin, hle⟩ := hc.idx i (hpc ▸ hi) j hj
      rw [hsame i hin, hsame j hj]
      exact ⟨hin, hle⟩

/-- **A choice among workers that have caught up is right.** -/
theorem least_of_caughtUp {s₀ : State} (heven : s₀.Even) (hlb : s₀.loadBalancing = .leastConnections) {ls : List Label}
    (hcaught : Along step (fun s l => s.caughtUp l = true) s₀ ls) : Along step (fun s l => s.least l = true) s₀ ls := by
  refine hcaught.upgrade (P := fun s => s.Chosen ∧ s.loadBalancing = .leastConnections)
    (fun s l s' hs hl h => ⟨hs.1.step hs.2 hl h, (step_loads h).2.1.trans hs.2⟩) (fun s l hs hl => ?_) ⟨?_, hlb⟩
  · cases l with
    | send => exact least_send_iff.mpr fun idx hpc hidx q hq => (hs.1.idx idx hpc q hq).2
    | accept | select | register _ => rfl
  · have hpc := heven.pc
    exact ⟨by simp [hpc], by simp [hpc], by simp [hpc]⟩

/-- **`LeastConnections` balances when it sees all.** From equal loads, for any number of workers and of sockets and any
interleaving: if each counter is read when no `Register` command waits at its worker, the numbers of connections differ
by one at most in every state in which all `Register` commands are processed. -/
theorem least_connections_balanced {s₀ : State} (heven : s₀.Even) (hlb : s₀.loadBalancing = .leastConnections)
    {ls : List Label} (hcaught : Along step (fun s l => s.caughtUp l = true) s₀ ls) (hrun : run step s₀ ls = some s)
    (hsettled : s.Settled) : s.Balanced := by
  have hleast := least_of_caughtUp heven hlb hcaught
  have hend : run step s₀ (ls ++ []) = some s := (List.append_nil ls).symm ▸ hrun
  exact (balanced_iff_least heven hrun).mp hleast ls [] s (List.prefix_refl ls) nofun hend hsettled

/-! ## RoundRobin -/

/-- How often `RoundRobin` named the worker `p` of `n` in its first `x` selections. -/
def served (n x p : Nat) : Nat := x / n + if p < x % n then 1 else 0

theorem served_succ {n p : Nat} (hp : p < n) (x : Nat) :
    served n (x + 1) p = served n x p + if p = x % n then 1 else 0 := Residues.below_succ hp x

/-- The loads follow from the number of selections. -/
structure Rotates (c x₀ : Nat) (s : State) : Prop where
  loadBalancing : s.loadBalancing = .roundRobin
  loads : ∃ x, (∀ p, p < s.workers.length →
      s.loadAt p + served s.workers.length x₀ p = c + served s.workers.length x p) ∧
    ((∀ i, s.pc ≠ .sending i) ∧ (0 < s.workers.length → s.next = x) ∨
      ∃ i, s.pc = .sending i ∧ (0 < s.workers.length → i = x % s.workers.length ∧ s.next = x + 1))

theorem Rotates.step {c x₀ : Nat} (hr : s.Rotates c x₀) (hroom : s.next + 1 < 2 ^ 64) (h : s.step l = some s') :
    s'.Rotates c x₀ := by
  obtain ⟨hlb, x, hx, hpc⟩ := hr
  obtain ⟨hlength, hlb', hloads⟩ := step_loads h
  refine ⟨hlb'.trans hlb, ?_⟩
  rw [hlength]
  cases l with
  | accept =>
    have hsame : ∀ p, p < s.workers.length → s'.loadAt p = s.loadAt p := fun p hp => by simpa using hloads p hp
    refine ⟨x, fun p hp => by rw [hsame p hp]; exact hx p hp, ?_⟩
    simp only [State.step] at h
    split at h <;> cases h
    rename_i haccepting
    obtain ⟨-, hnext⟩ | ⟨i, hsending, -⟩ := hpc
    · exact Or.inl ⟨nofun, hnext⟩
    · rw [haccepting] at hsending
      cases hsending
  | select =>
    have hsame : ∀ p, p < s.workers.length → s'.loadAt p = s.loadAt p := fun p hp => by simpa using hloads p hp
    refine ⟨x, fun p hp => by rw [hsame p hp]; exact hx p hp, ?_⟩
    simp only [State.step, State.select, hlb] at h
    split at h
    · rename_i hselecting
      obtain ⟨-, hnext⟩ | ⟨i, hsending, -⟩ := hpc
      · split at h <;> cases h
        · rename_i hempty
          refine Or.inr ⟨_, rfl, fun hpos => ?_⟩
          rw [List.isEmpty_iff.mp hempty] at hpos
          cases hpos
        · refine Or.inr ⟨_, rfl, fun hpos => ?_⟩
          rw [← hnext hpos]
          exact ⟨rfl, Nat.mod_eq_of_lt hroom⟩
      · rw [hselecting] at hsending
        cases hsending
    all_goals cases h
  | send =>
    obtain ⟨hno, -⟩ | ⟨i, hsending, hi⟩ := hpc
    · simp only [State.step] at h
      split at h
      · rename_i idx hidx
        exact absurd hidx (hno idx)
      all_goals cases h
    · refine ⟨x + 1, fun p hp => ?_, Or.inl ?_⟩
      · rw [hloads p hp, served_succ hp, hsending, (hi (Nat.zero_lt_of_lt hp)).1]
        have hold := hx p hp
        by_cases hp' : p = x % s.workers.length
        · rw [if_pos ⟨rfl, by rw [hp']⟩, if_pos hp']
          omega
        · rw [if_neg (fun hand => hp' (Pc.sending.inj hand.2).symm), if_neg hp']
          omega
      · simp only [State.step, hsending] at h
        cases h
        exact ⟨nofun, fun hpos => (hi hpos).2⟩
  | register r =>
    have hsame : ∀ p, p < s.workers.length → s'.loadAt p = s.loadAt p := fun p hp => by simpa using hloads p hp
    refine ⟨x, fun p hp => by rw [hsame p hp]; exact hx p hp, ?_⟩
    simp only [State.step] at h
    split at h <;> cases h
    exact hpc

/-- **`RoundRobin` balances whatever the timing**, until its counter wraps. -/
theorem round_robin_balanced {s₀ : State} (heven : s₀.Even) (hlb : s₀.loadBalancing = .roundRobin) {ls : List Label}
    (hroom : Along step (fun s _ => s.next + 1 < 2 ^ 64) s₀ ls) (hrun : run State.step s₀ ls = some s)
    (hsettled : s.Settled) : s.Balanced := by
  obtain ⟨c, hc⟩ := heven.loadAt
  have hpc := heven.pc
  have hstart : s₀.Rotates c s₀.next :=
    ⟨hlb, s₀.next, fun p hp => by rw [hc p hp], Or.inl ⟨by simp [hpc], fun _ => rfl⟩⟩
  have hend : s.Rotates c s₀.next := run_invariant (fun _ _ _ hr hroom h => hr.step hroom h) hstart hroom hrun
  obtain ⟨x, hx, -⟩ := hend.loads
  refine Level.balanced (fun p q hp hq => ?_) hsettled
  have hp' := hx p hp
  have hq' := hx q hq
  unfold served at hp' hq'
  split at hp' <;> split at hp' <;> split at hq' <;> split at hq' <;> omega

/-! ## A burst of two sockets -/

/-- Two workers without connections. -/
def pair : State := ⟨.leastConnections, 0, [⟨0, 0⟩, ⟨0, 0⟩], .accepting⟩

/-- One socket is accepted and sent. -/
def oneSocket : List Label := [.accept, .select, .select, .select, .send]

/-- The first worker registers its socket before the next one is accepted. -/
def paced : List Label := oneSocket ++ .register 0 :: oneSocket ++ [.register 1]

theorem least_connections_balanced_paced : ∃ s, run step pair paced = some s ∧ s.Settled ∧ s.Balanced := by
  have heven : pair.Even := ⟨rfl, by decide, by decide⟩
  obtain ⟨s, hs, hsettled⟩ := exists_of_any (o := run step pair paced)
    (b := fun s => decide s.Settled) (by decide)
  have hsettled : s.Settled := of_decide_eq_true hsettled
  have hcaught : Along step (fun s l => s.caughtUp l = true) pair paced :=
    .of_check (b := fun s l => s.caughtUp l) (fun _ _ h => h) (by decide)
  exact ⟨s, hs, hsettled, least_connections_balanced heven rfl hcaught hs hsettled⟩

/-- Two sockets are accepted before a worker registers one: both go to the first worker. -/
theorem burst_to_one_worker : pair.Even ∧ ∃ s,
    run step pair (oneSocket ++ oneSocket ++ [.register 0, .register 0]) = some s ∧ s.Settled ∧ ¬s.Balanced := by
  refine ⟨⟨rfl, by decide, by decide⟩, ?_⟩
  obtain ⟨s, hs, hend⟩ := exists_of_any (o := run step pair (oneSocket ++ oneSocket ++ [.register 0, .register 0]))
    (b := fun s => decide (s.Settled ∧ ¬s.Balanced)) (by decide)
  exact ⟨s, hs, of_decide_eq_true hend⟩

end State

/-! ## Workers and their event loops -/

section

variable {η κ Msg : Type}

def isRegister (q : Queued) : Bool :=
  match q.cmd with
  | .register _ _ _ => true
  | .none | .asyncWrite _ _ | .close _ | .wake | .read _ | .write _ | .shutdown => false

/-- What the acceptor's worker is in the handle of an event loop. -/
def Worker.of (h : EventLoopHandle) : Worker := ⟨h.connCount.toNat, h.queued.countP isRegister⟩

theorem countP_of_gets {h h' : EventLoopHandle} {qs : List Queued} (hg : h.Gets qs h') :
    h'.queued.countP isRegister = h.queued.countP isRegister + qs.countP isRegister := by
  obtain ⟨us, cs, hu, hc, hp⟩ := hg.queues
  rw [EventLoopHandle.queued, EventLoopHandle.queued, hu, hc, ← hp.countP_eq]
  simp only [List.countP_append]
  omega

/-- The acceptor's send, at the loop. -/
theorem received (m : Machine η κ) (socket : Socket) (localAddr peerAddr : NetworkAddress) :
    Worker.of (m.receive .high (.register socket localAddr peerAddr)).el.handle =
      { Worker.of m.el.handle with waiting := (Worker.of m.el.handle).waiting + 1 } := by
  have hg := m.el.handle.trigger_gets .high ⟨.register socket localAddr peerAddr, none⟩
  have hcount := countP_of_gets hg
  have hconn := hg.connCount
  simp only [Worker.of, Machine.receive, EventLoop.withHandle] at hcount hconn ⊢
  rw [hcount, hconn]
  rfl

variable [Codec κ Msg] [EventHandler η κ Msg]

open EventLoop Programs

omit [Codec κ Msg] [EventHandler η κ Msg] in
/-- The `Register` command that is taken was waiting. -/
theorem of_takeCommand {h h' : EventLoopHandle} {q : Queued} (hq : Machine.takeCommand h = some (q, h'))
    (hregister : isRegister q = true) : Worker.of h = { Worker.of h' with waiting := (Worker.of h').waiting + 1 } := by
  obtain ⟨-, -, -, hconn, hqueues⟩ := Machine.takeCommand_some hq
  have hqueued : h.queued = q :: h'.queued := by
    obtain ⟨hu, hc⟩ | ⟨hu, hu', hc⟩ := hqueues
    · rw [EventLoopHandle.queued, EventLoopHandle.queued, hu, hc, List.cons_append]
    · rw [EventLoopHandle.queued, EventLoopHandle.queued, hu, hu', hc, List.nil_append, List.nil_append]
  simp only [Worker.of, hqueued, hconn, List.countP_cons, hregister, if_true]

/-- **A `Register` command, at the loop**: it is taken, and when the handler accepts the connection, and sends no such
command itself, the counter goes up by one. -/
theorem registered {el t : EventLoop η κ} {h : EventLoopHandle} {socket : Socket} {localAddr peerAddr : NetworkAddress}
    {origin : Option Gfd} (hq : Machine.takeCommand el.handle = some (⟨.register socket localAddr peerAddr, origin⟩, h))
    (hrun : register socket localAddr peerAddr (el.withHandle h) = .ok ⟨⟩ t)
    (haccepts : ∀ (hd : η) (c : Connection κ), (EventHandler.onOpen hd c).1.action = .none)
    (hsends : ∀ op : Op κ Msg, Performs η op → ∀ (idx : Nat) (c : Connection κ), ∀ q ∈ op.commands idx c,
      isRegister q = false) (hroom : el.handle.connCount.toNat + 1 < 2 ^ 64) :
    ∃ k, (Worker.of el.handle).waiting = k + 1 ∧ Worker.of t.handle = ⟨(Worker.of el.handle).connCount + 1, k⟩ := by
  have htaken := of_takeCommand hq rfl
  have hnone : (el.withHandle h).polled.openAction socket localAddr peerAddr = .none := haccepts _ _
  have ht : t = ((el.withHandle h).polled.opening socket localAddr peerAddr).2.enter
      ((el.withHandle h).polled.opening socket localAddr peerAddr).1 := by
    rcases register_cases socket localAddr peerAddr (el.withHandle h) with ⟨e, he, -⟩ | ⟨-, hok⟩ | ⟨hact, -⟩ | ⟨hact, -⟩
    · rw [he] at hrun
      cases hrun
    · rw [hok] at hrun
      cases hrun
      rfl
    · rw [hnone] at hact
      cases hact
    · rw [hnone] at hact
      cases hact
  obtain ⟨qs, hg, hqs⟩ := Op.applyAll_gets
    (EventHandler.onOpen (el.withHandle h).polled.handler
      ((el.withHandle h).polled.incarnation socket localAddr peerAddr).conn).1.ops
    ((el.withHandle h).polled.incarnation socket localAddr peerAddr) h
  have hfew : qs.countP isRegister = 0 := List.countP_eq_zero.mpr fun q hq => by
    obtain ⟨op, hop, c, -, hq⟩ := hqs q hq
    rw [hsends op (.onOpen hop) _ c q hq]
    exact Bool.false_ne_true
  have hcount := countP_of_gets hg
  rw [hfew, Nat.add_zero] at hcount
  have hconn : t.handle.connCount = h.connCount + 1 := by
    rw [ht]
    exact congrArg (· + 1) hg.connCount
  have hqueued : t.handle.queued.countP isRegister = h.queued.countP isRegister := by
    rw [ht]
    exact hcount
  refine ⟨h.queued.countP isRegister, by rw [htaken]; rfl, ?_⟩
  have hold : el.handle.connCount = h.connCount := (Machine.takeCommand_some hq).2.2.2.1.symm
  rw [htaken]
  simp only [Worker.of, hconn, hqueued, Worker.mk.injEq, and_true]
  rw [hold] at hroom
  rw [UInt64.toNat_add]
  exact Nat.mod_eq_of_lt hroom

end
end Rnet.Balancer
