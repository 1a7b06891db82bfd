import Mathlib.Data.List.Basic

/-!
# Splitting at the first occurrence

`splitOnce sep xs` is what stands before and after the first place where `sep` occurs in `xs`.
-/

namespace Splits

variable {α : Type*} [DecidableEq α] {sep pre : List α}

def splitOnce (sep : List α) : List α → Option (List α × List α)
  | [] => if sep = [] then some ([], []) else none
  | a :: xs =>
    if sep.isPrefixOf (a :: xs) then some ([], (a :: xs).drop sep.length)
    else (splitOnce sep xs).map fun (pre, post) => (a :: pre, post)

/-- What does not hold the first item of the separator stands before it. -/
theorem splitOnce_append {a : α} (hpre : a ∉ pre) (post : List α) :
    splitOnce (a :: sep) (pre ++ (a :: sep) ++ post) = some (pre, post) := by
  induction pre with
  | nil =>
    rw [List.nil_append, List.cons_append, splitOnce, if_pos]
    · rw [← List.cons_append, List.drop_left]
    · exact List.isPrefixOf_iff_prefix.mpr ⟨post, rfl⟩
  | cons b pre ih =>
    obtain ⟨hb, hpre⟩ := not_or.mp (mt List.mem_cons.mpr hpre)
    rw [List.cons_append, List.cons_append, splitOnce, if_neg, ih hpre]
    · rfl
    · intro h
      exact hb (List.cons_prefix_cons.mp (List.isPrefixOf_iff_prefix.mp h)).1

end Splits
