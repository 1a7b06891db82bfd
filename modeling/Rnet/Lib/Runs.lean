import Mathlib.Algebra.GroupWithZero.Nat
import Mathlib.Logic.Basic

/-!
# Runs of a labelled step function

`run step s ls` follows the labels `ls` from `s` as long as the steps are possible. `Along step ok s ls` says that
every step taken on the way meets the condition `ok` (on the state before the step and the label).

* `run_invariant`: what every step that meets `ok` keeps holds in the state a run reaches;
* `Along.of_check`: on a given run a condition can be tried at every step;
* `Along.upgrade`: a condition that follows from the invariant and `ok` holds along the run as well.

`outputs` collects what the steps of a run give out. `peak` is the largest size on the way, and a quantity that follows
the size upwards is bounded by it (`le_peak_of_steps`, `peak_le_of_steps`). What a run costs is bounded by its labels
if every step costs no more than is in store and its label brings (`cost_le_of_steps`).
-/

namespace Runs

variable {S L : Type*}

/-- The state reached by following the labels. -/
def run (step : S → L → Option S) : S → List L → Option S
  | s, [] => some s
  | s, l :: ls =>
    match step s l with
    | some s' => run step s' ls
    | none => none

/-- Every step taken meets `ok`. -/
def Along (step : S → L → Option S) (ok : S → L → Prop) : S → List L → Prop
  | _, [] => True
  | s, l :: ls => ok s l ∧ ∀ s', step s l = some s' → Along step ok s' ls

variable {step : S → L → Option S} {ok good : S → L → Prop} {P : S → Prop} {s t u : S} {l : L} {ls ms : List L}

@[simp] theorem run_nil : run step s [] = some s := rfl

theorem run_cons_some (h : step s l = some t) : run step s (l :: ls) = run step t ls := by
  simp [run, h]

theorem run_cons : run step s (l :: ls) = some u ↔ ∃ t, step s l = some t ∧ run step t ls = some u := by
  cases hs : step s l with
  | none => simp [run, hs]
  | some t => simp [run, hs]

/-- Runs compose. -/
theorem run_append (h : run step s ls = some t) : run step s (ls ++ ms) = run step t ms := by
  induction ls generalizing s with
  | nil => cases h; rfl
  | cons l ls ih =>
    obtain ⟨s', hs, hr⟩ := run_cons.mp h
    rw [List.cons_append, run_cons_some hs, ih hr]

/-- A run of two parts goes through a state between them. -/
theorem exists_of_run_append (h : run step s (ls ++ ms) = some u) :
    ∃ t, run step s ls = some t ∧ run step t ms = some u := by
  induction ls generalizing s with
  | nil => exact ⟨s, rfl, h⟩
  | cons l ls ih =>
    obtain ⟨s', hs, hr⟩ := run_cons.mp h
    obtain ⟨t, ht, hu⟩ := ih hr
    exact ⟨t, (run_cons_some hs).trans ht, hu⟩

theorem Along.nil : Along step ok s [] := trivial

theorem Along.cons (h : ok s l) (hs : step s l = some t) (ht : Along step ok t ls) : Along step ok s (l :: ls) := by
  refine ⟨h, fun s' hs' => ?_⟩
  obtain rfl : t = s' := Option.some.inj (hs.symm.trans hs')
  exact ht

/-- The first part of a run. -/
theorem Along.of_append : ∀ {ls : List L} {s : S}, Along step ok s (ls ++ ms) → Along step ok s ls
  | [], _, _ => trivial
  | _ :: _, _, h => ⟨h.1, fun s' hs => (h.2 s' hs).of_append⟩

/-- The rest of a run. -/
theorem Along.of_run_append : ∀ {ls : List L} {s : S}, Along step ok s (ls ++ ms) → run step s ls = some t →
    Along step ok t ms
  | [], _, h, hrun => by
    cases hrun
    exact h
  | _ :: _, _, h, hrun => by
    obtain ⟨s', hs, hr⟩ := run_cons.mp hrun
    exact (h.2 s' hs).of_run_append hr

/-- Try a condition at every step of a run. -/
def check (step : S → L → Option S) (b : S → L → Bool) : S → List L → Bool
  | _, [] => true
  | s, l :: ls =>
    b s l &&
      match step s l with
      | some s' => check step b s' ls
      | none => true

/-- What was tried and found true holds along the run. -/
theorem Along.of_check {b : S → L → Bool} (htest : ∀ s l, b s l = true → ok s l)
    (h : check step b s ls = true) : Along step ok s ls := by
  induction ls generalizing s with
  | nil => trivial
  | cons l ls ih =>
    rw [check, Bool.and_eq_true] at h
    refine ⟨htest s l h.1, fun s' hs => ih ?_⟩
    have h' := h.2
    rw [hs] at h'
    exact h'

/-- A run that was tried and found to end well. -/
theorem exists_of_any {o : Option S} {b : S → Bool} (h : o.any b = true) : ∃ s, o = some s ∧ b s = true := by
  cases o with
  | none => cases h
  | some s => exact ⟨s, rfl, h⟩

/-- **The invariant rule.** -/
theorem run_invariant (hstep : ∀ s l s', P s → ok s l → step s l = some s' → P s') (h0 : P s)
    (hok : Along step ok s ls) (hrun : run step s ls = some t) : P t := by
  induction ls generalizing s with
  | nil => cases hrun; exact h0
  | cons l ls ih =>
    obtain ⟨s', hs, hr⟩ := run_cons.mp hrun
    exact ih (hstep s l s' h0 hok.1 hs) (hok.2 s' hs) hr

/-- The invariant rule without a condition on the steps. -/
theorem run_invariant' (hstep : ∀ s l s', P s → step s l = some s' → P s') (h0 : P s)
    (hrun : run step s ls = some t) : P t := by
  induction ls generalizing s with
  | nil => cases hrun; exact h0
  | cons l ls ih =>
    obtain ⟨s', hs, hr⟩ := run_cons.mp hrun
    exact ih (hstep s l s' h0 hs) hr

/-- What holds of all labels holds along the run. -/
theorem Along.of_labels {p : L → Prop} : ∀ {ls : List L} {s : S}, (∀ l ∈ ls, p l) → Along step (fun _ l => p l) s ls
  | [], _, _ => trivial
  | _ :: _, _, h => ⟨h _ List.mem_cons_self, fun _ _ => .of_labels fun l hl => h l (List.mem_cons_of_mem _ hl)⟩

/-- What holds at every state on the way holds along the run. -/
theorem Along.of_between : ∀ {ls : List L} {s : S},
    (∀ ks l ms t, ls = ks ++ l :: ms → run step s ks = some t → ok t l) → Along step ok s ls
  | [], _, _ => trivial
  | l :: ls, s, h => by
    refine ⟨h [] l ls s rfl rfl, fun s' hs => .of_between fun ks l' ms t hls ht => ?_⟩
    subst hls
    exact h (l :: ks) l' ms t rfl ((run_cons_some hs).trans ht)

/-- What follows from the invariant at each step holds along the run. -/
theorem Along.upgrade (hstep : ∀ s l s', P s → ok s l → step s l = some s' → P s')
    (hgood : ∀ s l, P s → ok s l → good s l) (h0 : P s) (hok : Along step ok s ls) : Along step good s ls := by
  induction ls generalizing s with
  | nil => trivial
  | cons l ls ih =>
    exact ⟨hgood s l h0 hok.1, fun s' hs => ih (hstep s l s' h0 hok.1 hs) (hok.2 s' hs)⟩

/-- A run that does not meet the condition has a first step that does not. -/
theorem exists_of_not_along (hrun : run step s ls = some t) (hok : ¬Along step ok s ls) :
    ∃ ks l ms s₁ s₂, ls = ks ++ l :: ms ∧ run step s ks = some s₁ ∧ Along step ok s ks ∧ ¬ok s₁ l ∧
      step s₁ l = some s₂ ∧ run step s₂ ms = some t := by
  induction ls generalizing s with
  | nil => exact absurd trivial hok
  | cons l ls ih =>
    obtain ⟨s', hs, hr⟩ := run_cons.mp hrun
    by_cases hl : ok s l
    · have hrest : ¬Along step ok s' ls := fun h => hok (.cons hl hs h)
      obtain ⟨ks, l', ms, s₁, s₂, rfl, hks, hal, hno, hstep, hms⟩ := ih hr hrest
      exact ⟨l :: ks, l', ms, s₁, s₂, rfl, (run_cons_some hs).trans hks, .cons hl hs hal, hno, hstep, hms⟩
    · exact ⟨[], l, ls, s, s', rfl, rfl, trivial, hl, hs, hr⟩

/-! ## Outputs -/

section Outputs

variable {O : Type*} {out : S → L → Option O}

/-- What the steps give out, in order. -/
def outputs (step : S → L → Option S) (out : S → L → Option O) : S → List L → List O
  | _, [] => []
  | s, l :: ls =>
    (out s l).toList ++
      match step s l with
      | some s' => outputs step out s' ls
      | none => []

theorem outputs_cons_some (h : step s l = some t) :
    outputs step out s (l :: ls) = (out s l).toList ++ outputs step out t ls := by
  simp [outputs, h]

/-- **The rule for outputs.** `B s o` says that `o` may be given out from `s` on. If that only gets narrower, and what
is given out narrows it to what may follow, then any two outputs are as `R` says. -/
theorem outputs_pairwise {R : O → O → Prop} {B : S → O → Prop}
    (hstep : ∀ s l s', step s l = some s' → (∀ o, B s' o → B s o) ∧
      ∀ o, out s l = some o → B s o ∧ ∀ o', B s' o' → R o o') (hrun : run step s ls = some t) :
    (∀ o ∈ outputs step out s ls, B s o) ∧ (outputs step out s ls).Pairwise R := by
  induction ls generalizing s with
  | nil => exact ⟨List.forall_mem_nil _, List.Pairwise.nil⟩
  | cons l ls ih =>
    obtain ⟨s', hs, hr⟩ := run_cons.mp hrun
    obtain ⟨hlater, hrest⟩ := ih hr
    obtain ⟨hnarrows, hout⟩ := hstep s l s' hs
    rw [outputs_cons_some hs]
    cases ho : out s l with
    | none => exact ⟨fun o hmem => hnarrows o (hlater o hmem), hrest⟩
    | some o =>
      obtain ⟨hB, hR⟩ := hout o ho
      constructor
      · intro o' hmem
        rcases List.mem_cons.mp hmem with rfl | hmem
        · exact hB
        · exact hnarrows o' (hlater o' hmem)
      · exact List.pairwise_cons.mpr ⟨fun o' hmem => hR o' (hlater o' hmem), hrest⟩

end Outputs

/-! ## Peaks -/

section Peaks

variable {size f : S → Nat}

/-- The largest size on the way. -/
def peak (step : S → L → Option S) (size : S → Nat) : S → List L → Nat
  | s, [] => size s
  | s, l :: ls =>
    max (size s)
      (match step s l with
      | some s' => peak step size s' ls
      | none => 0)

theorem peak_cons_some (h : step s l = some t) : peak step size s (l :: ls) = max (size s) (peak step size t ls) := by
  simp [peak, h]

theorem size_le_peak (s : S) (ls : List L) : size s ≤ peak step size s ls := by
  cases ls with
  | nil => exact Nat.le_refl _
  | cons l ls => exact Nat.le_max_left _ _

/-- A quantity that a step raises to the size at most is bounded by the peak. -/
theorem le_peak_of_steps (hstep : ∀ s l s', P s → step s l = some s' → P s' ∧ f s' ≤ max (f s) (size s')) (h0 : P s)
    (hrun : run step s ls = some t) : f t ≤ max (f s) (peak step size s ls) := by
  induction ls generalizing s with
  | nil =>
    cases hrun
    exact Nat.le_max_left _ _
  | cons l ls ih =>
    obtain ⟨s', hs, hr⟩ := run_cons.mp hrun
    obtain ⟨hP, hf⟩ := hstep s l s' h0 hs
    have ht := ih hP hr
    have hsize : size s' ≤ peak step size s' ls := size_le_peak s' ls
    rw [peak_cons_some hs]
    omega

/-- A quantity that never falls, and never below the size, is at least the peak. -/
theorem peak_le_of_steps (hstep : ∀ s l s', P s → step s l = some s' → P s' ∧ f s ≤ f s')
    (hsize : ∀ s, P s → size s ≤ f s) (h0 : P s) (hrun : run step s ls = some t) :
    peak step size s ls ≤ f t ∧ f s ≤ f t := by
  induction ls generalizing s with
  | nil =>
    cases hrun
    exact ⟨hsize _ h0, Nat.le_refl _⟩
  | cons l ls ih =>
    obtain ⟨s', hs, hr⟩ := run_cons.mp hrun
    obtain ⟨hP, hf⟩ := hstep s l s' h0 hs
    obtain ⟨hpeak, hgrow⟩ := ih hP hr
    have hs0 := hsize s h0
    rw [peak_cons_some hs]
    omega

end Peaks

/-! ## Spending -/

section Spending

variable {f : S → Nat} {b c : L → Nat}

/-- **The rule for amortized costs**: a step costs `c`, out of the store `f` and what its label brings, `b`. -/
theorem cost_le_of_steps (hstep : ∀ s l s', P s → step s l = some s' → P s' ∧ c l + f s' ≤ f s + b l) (h0 : P s)
    (hrun : run step s ls = some t) : (ls.map c).sum + f t ≤ f s + (ls.map b).sum := by
  induction ls generalizing s with
  | nil =>
    cases hrun
    simp
  | cons l ls ih =>
    obtain ⟨s', hs, hr⟩ := run_cons.mp hrun
    obtain ⟨hP, hl⟩ := hstep s l s' h0 hs
    have hrest := ih hP hr
    simp only [List.map_cons, List.sum_cons]
    omega

end Spending

end Runs
