import Mathlib.Data.List.Basic

/-!
# Histories

A history is a list of events, the latest last. `Whenever h e p` says that each time `e` was recorded, `p` held of the
history so far; `whenever_snoc` is the rule for one more event.
-/

namespace Histories

variable {E : Type*} {h : List E} {e x : E} {p q : List E → Prop}

/-- Each time `e` was recorded, `p` held of the history so far. -/
def Whenever (h : List E) (e : E) (p : List E → Prop) : Prop := ∀ pre post, h = pre ++ e :: post → p pre

@[simp] theorem whenever_nil : Whenever [] e p := fun pre post h => by simp at h

/-- One more event. -/
theorem whenever_snoc : Whenever (h ++ [x]) e p ↔ Whenever h e p ∧ (x = e → p h) := by
  constructor
  · intro hw
    refine ⟨fun pre post heq => hw pre (post ++ [x]) (by simp [heq]), ?_⟩
    rintro rfl
    exact hw h [] rfl
  · rintro ⟨hold, hnew⟩ pre post heq
    obtain rfl | ⟨post, y, rfl⟩ := List.eq_nil_or_concat post
    · obtain ⟨rfl, he⟩ := List.append_inj' heq rfl
      exact hnew (List.cons.inj he).1
    · have heq' : h ++ [x] = (pre ++ e :: post) ++ [y] := by simpa using heq
      exact hold pre post (List.append_inj' heq' rfl).1

theorem whenever_of_notMem (he : e ∉ h) : Whenever h e p := fun pre post heq => absurd (by simp [heq]) he

end Histories
