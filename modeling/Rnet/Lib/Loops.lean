import Mathlib.Logic.Basic

/-!
# Loops

A loop is the body of one iteration, which leaves the loop with a result or goes on from another state. `loop body fuel`
makes `fuel` iterations at most. It returns if a measure goes down in each iteration that does not leave
(`exists_loop`), and what it returns follows from an invariant (`loop_invariant`).
-/

namespace Loops

variable {σ ρ : Type*} {body : σ → ρ ⊕ σ} {fuel : Nat} {s s' : σ} {r : ρ}

def loop (body : σ → ρ ⊕ σ) : Nat → σ → Option ρ
  | 0, _ => none
  | fuel + 1, s =>
    match body s with
    | .inl r => some r
    | .inr s' => loop body fuel s'

theorem loop_leaves (h : body s = .inl r) : loop body (fuel + 1) s = some r := by
  rw [loop, h]

theorem loop_goes_on (h : body s = .inr s') : loop body (fuel + 1) s = loop body fuel s' := by
  rw [loop, h]

/-- **A loop whose measure goes down returns**, after as many iterations as the measure says and one more. -/
theorem exists_loop (μ : σ → Nat) (hdown : ∀ s s', body s = .inr s' → μ s' < μ s) (s : σ) :
    ∃ r, loop body (μ s + 1) s = some r := by
  suffices h : ∀ n s, μ s ≤ n → ∃ r, loop body (n + 1) s = some r from h (μ s) s (Nat.le_refl _)
  intro n
  induction n with
  | zero =>
    intro s hn
    cases hb : body s with
    | inl r => exact ⟨r, loop_leaves hb⟩
    | inr s' => exact absurd (hdown s s' hb) (by omega)
  | succ n ih =>
    intro s hn
    cases hb : body s with
    | inl r => exact ⟨r, loop_leaves hb⟩
    | inr s' =>
      obtain ⟨r, hr⟩ := ih s' (by have := hdown s s' hb; omega)
      exact ⟨r, (loop_goes_on hb).trans hr⟩

/-- What an invariant says of the result. -/
theorem loop_invariant {I : σ → Prop} {Q : ρ → Prop} (hstep : ∀ s s', I s → body s = .inr s' → I s')
    (hend : ∀ s r, I s → body s = .inl r → Q r) (hs : I s) (h : loop body fuel s = some r) : Q r := by
  induction fuel generalizing s with
  | zero => cases h
  | succ fuel ih =>
    cases hb : body s with
    | inl r' =>
      rw [loop_leaves hb] at h
      cases h
      exact hend s r hs hb
    | inr s' =>
      rw [loop_goes_on hb] at h
      exact ih (hstep s s' hs hb) h

end Loops
