import Mathlib.Logic.Basic

/-!
# Growable buffers

A buffer has a length and a capacity. `LawfulBuffer` is what its operations promise: `reserve` makes room beyond the
length, `setLen` may only be called within the capacity, and `splitTo` takes items, and their room, off the front.
`ensure` makes room for `n` items, and `stretch` gives the buffer that length if it is shorter.
-/

namespace Buffers

/-- The operations. `splitTo` is the rest, and `fill` puts items at the front in place of those that are there. -/
class Buffer (α : outParam (Type*)) (β : Type*) where
  withCapacity : Nat → β
  len : β → Nat
  capacity : β → Nat
  reserve : β → Nat → β
  setLen : β → Nat → β
  fill : β → List α → β
  splitTo : β → Nat → β

export Buffer (withCapacity len capacity reserve setLen fill splitTo)

/-- The contract. -/
class LawfulBuffer (α : outParam (Type*)) (β : Type*) [Buffer α β] : Prop where
  len_withCapacity : ∀ n, len (withCapacity n : β) = 0
  le_capacity_withCapacity : ∀ n, n ≤ capacity (withCapacity n : β)
  len_reserve : ∀ (b : β) n, len (reserve b n) = len b
  le_capacity_reserve : ∀ (b : β) n, len b + n ≤ capacity (reserve b n)
  len_setLen : ∀ (b : β) n, n ≤ capacity b → len (setLen b n) = n
  capacity_setLen : ∀ (b : β) n, n ≤ capacity b → capacity (setLen b n) = capacity b
  len_fill : ∀ (b : β) xs, xs.length ≤ len b → len (fill b xs) = len b
  capacity_fill : ∀ (b : β) xs, xs.length ≤ len b → capacity (fill b xs) = capacity b
  len_splitTo : ∀ (b : β) n, n ≤ len b → len (splitTo b n) = len b - n
  capacity_splitTo : ∀ (b : β) n, n ≤ len b → capacity (splitTo b n) = capacity b - n

export LawfulBuffer (len_withCapacity le_capacity_withCapacity len_reserve le_capacity_reserve len_setLen
  capacity_setLen len_fill capacity_fill len_splitTo capacity_splitTo)

variable {α β : Type*} [Buffer α β]

/-- Room for `n` items. -/
def ensure (b : β) (n : Nat) : β := if capacity b < n then reserve b n else b

/-- At least `n` items. -/
def stretch (b : β) (n : Nat) : β := if len b < n then setLen b n else b

variable [LawfulBuffer α β] {b : β} {n : Nat}

theorem le_capacity_ensure (b : β) (n : Nat) : n ≤ capacity (ensure b n) := by
  unfold ensure
  split
  · exact Nat.le_trans (Nat.le_add_left n (len b)) (le_capacity_reserve b n)
  · rename_i h
    exact Nat.le_of_not_lt h

theorem len_ensure (b : β) (n : Nat) : len (ensure b n) = len b := by
  unfold ensure
  split
  · exact len_reserve b n
  · rfl

theorem len_stretch (h : n ≤ capacity b) : len (stretch b n) = max (len b) n := by
  unfold stretch
  split
  · rename_i hlt
    rw [len_setLen b n h, Nat.max_eq_right (Nat.le_of_lt hlt)]
  · rename_i hle
    exact (Nat.max_eq_left (Nat.le_of_not_lt hle)).symm

end Buffers
