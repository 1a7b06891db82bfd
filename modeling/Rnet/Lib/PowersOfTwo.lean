import Mathlib.Algebra.Group.Nat.Defs
import Mathlib.Data.Nat.Log
import Mathlib.Order.Bounds.Basic

/-!
# Rounding up to a power of two

`ceil n` is the least power of two that is not below `n` (`isLeast_ceil`). It leaves powers of two as they are, and
stays below a power of two that is not below `n`.
-/

namespace PowersOfTwo

/-- The least power of two not below `n`. -/
def ceil (n : Nat) : Nat := 2 ^ Nat.clog 2 n

variable {n m k : Nat}

theorem isPowerOfTwo_ceil (n : Nat) : (ceil n).isPowerOfTwo := ⟨_, rfl⟩

theorem le_ceil (n : Nat) : n ≤ ceil n := Nat.le_pow_clog Nat.one_lt_two n

theorem ceil_le (hm : m.isPowerOfTwo) (h : n ≤ m) : ceil n ≤ m := by
  obtain ⟨k, rfl⟩ := hm
  exact Nat.pow_le_pow_right Nat.two_pos (Nat.clog_le_of_le_pow h)

theorem isLeast_ceil (n : Nat) : IsLeast {m | m.isPowerOfTwo ∧ n ≤ m} (ceil n) :=
  ⟨⟨isPowerOfTwo_ceil n, le_ceil n⟩, fun _ ⟨hm, h⟩ => ceil_le hm h⟩

@[simp] theorem ceil_of_isPowerOfTwo (hm : m.isPowerOfTwo) : ceil m = m :=
  Nat.le_antisymm (ceil_le hm (Nat.le_refl m)) (le_ceil m)

theorem ceil_le_pow (h : n ≤ 2 ^ k) : ceil n ≤ 2 ^ k := ceil_le ⟨k, rfl⟩ h

/-- Between two powers of two it is the larger one. -/
theorem ceil_eq_pow (hlow : 2 ^ k < n) (hhigh : n ≤ 2 ^ (k + 1)) : ceil n = 2 ^ (k + 1) := by
  have hk : k < Nat.clog 2 n := (Nat.lt_clog_iff_pow_lt Nat.one_lt_two).mpr hlow
  exact Nat.le_antisymm (ceil_le_pow hhigh) (Nat.pow_le_pow_right Nat.two_pos hk)

/-- With a lower bound that is itself a power of two. -/
theorem isLeast_ceil_max (m n : Nat) : IsLeast {l | l.isPowerOfTwo ∧ m ≤ l ∧ n ≤ l} (ceil (max m n)) := by
  have h := isLeast_ceil (max m n)
  simpa only [Nat.max_le] using h

end PowersOfTwo
