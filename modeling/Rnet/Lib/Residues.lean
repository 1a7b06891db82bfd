import Mathlib.Data.Int.CardIntervalMod

/-!
# Residues in an interval

Of `k` consecutive numbers, each residue modulo `n` is that of `k / n` numbers, rounded down or up, wherever the
numbers start (`count_window`). Below `x` it is that of `below n p x` numbers, and an interval is the difference of
two of those.
-/

namespace Residues

variable {n p : Nat}

/-- So many numbers below `x` have the residue `p` modulo `n`. -/
def below (n p x : Nat) : Nat := x / n + if p < x % n then 1 else 0

theorem below_eq_count (hp : p < n) (x : Nat) : below n p x = Nat.count (· % n = p) x := by
  have h := Nat.count_modEq_card x (Nat.zero_lt_of_lt hp) p
  rw [Nat.mod_eq_of_lt hp] at h
  rw [below, ← h]
  congr 1
  ext a
  rw [Nat.ModEq, Nat.mod_eq_of_lt hp]

theorem below_succ (hp : p < n) (x : Nat) : below n p (x + 1) = below n p x + if p = x % n then 1 else 0 := by
  rw [below_eq_count hp, below_eq_count hp, Nat.count_succ]
  simp only [eq_comm]

/-- The residues of the `k` numbers from `c` on. -/
def window (n c k : Nat) : List Nat := (List.range' c k).map (· % n)

theorem window_succ (n c k : Nat) : window n c (k + 1) = window n c k ++ [(c + k) % n] := by
  simp [window, List.range'_concat]

theorem lt_of_mem_window {c k v : Nat} (hn : 0 < n) (hv : v ∈ window n c k) : v < n := by
  obtain ⟨x, -, rfl⟩ := List.mem_map.mp hv
  exact Nat.mod_lt x hn

theorem below_add (hp : p < n) (c : Nat) : ∀ k, below n p (c + k) = below n p c + (window n c k).count p
  | 0 => rfl
  | k + 1 => by
    rw [← Nat.add_assoc, below_succ hp, below_add hp c k, window_succ, List.count_append, List.count_singleton,
      Nat.add_assoc]
    simp only [beq_iff_eq, eq_comm (a := p)]

/-- **Every residue has its share** of a window: `k / n`, rounded down or up. -/
theorem count_window (hp : p < n) (c k : Nat) :
    (window n c k).count p = k / n ∨ (window n c k).count p = (k + n - 1) / n := by
  have hn : 0 < n := Nat.zero_lt_of_lt hp
  have hadd := below_add hp c k
  have hr : c % n < n := Nat.mod_lt c hn
  have hs : k % n < n := Nat.mod_lt k hn
  have hdown : (c + k) / n = c / n + k / n + if n ≤ c % n + k % n then 1 else 0 := Nat.add_div hn
  have hmod : (c + k) % n = if n ≤ c % n + k % n then c % n + k % n - n else c % n + k % n :=
    Nat.add_mod_eq_ite
  -- rounding up adds one unless `n` divides `k`
  have hup : (k + n - 1) / n = k / n + if k % n = 0 then 0 else 1 := by
    have hk := Nat.div_add_mod k n
    split
    · rename_i h0
      rw [Nat.div_eq_iff hn]
      rw [h0] at hk
      rw [Nat.add_zero, Nat.mul_comm]
      omega
    · rw [Nat.div_eq_iff hn, Nat.add_mul, Nat.mul_comm, Nat.one_mul]
      omega
  unfold below at hadd
  rw [hdown, hmod] at hadd
  rw [hup]
  split_ifs at hadd ⊢ <;> omega

end Residues
