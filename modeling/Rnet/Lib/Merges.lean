import Mathlib.Data.List.Basic

/-!
# Two lists merged into one

`Merges xs ys zs`: `zs` holds the elements of `xs` and those of `ys`, both in order.
-/

/-- `zs` is made of `xs` and `ys`, each in its order. -/
inductive Merges {α : Type*} : List α → List α → List α → Prop
  | nil : Merges [] [] []
  | left (x : α) {xs ys zs : List α} (h : Merges xs ys zs) : Merges (x :: xs) ys (x :: zs)
  | right (y : α) {xs ys zs : List α} (h : Merges xs ys zs) : Merges xs (y :: ys) (y :: zs)

namespace Merges

variable {α : Type*} {xs ys zs xs' ys' zs' : List α}

theorem left_only (xs : List α) : Merges xs [] xs := by
  induction xs with
  | nil => exact .nil
  | cons x xs ih => exact .left x ih

theorem right_only (ys : List α) : Merges [] ys ys := by
  induction ys with
  | nil => exact .nil
  | cons y ys ih => exact .right y ih

theorem append (h : Merges xs ys zs) (h' : Merges xs' ys' zs') : Merges (xs ++ xs') (ys ++ ys') (zs ++ zs') := by
  induction h with
  | nil => exact h'
  | left x h ih => exact .left x ih
  | right y h ih => exact .right y ih

end Merges
