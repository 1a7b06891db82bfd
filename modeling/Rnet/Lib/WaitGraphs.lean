import Mathlib.Data.Fintype.Card
import Mathlib.Data.Set.Finite.Basic
import Mathlib.Logic.Relation

/-!
# Graphs of who waits for whom

`r a b` says that `a` waits for `b`. Among finitely many that do not wait in a circle, each one waits, directly or
through others, for one that does not wait (`exists_free`). New edges into one point `b` make no circle as long as `b`
does not wait, through others, for the one that begins to wait (`Acyclic.insert`).
-/

namespace WaitGraphs

open Relation

variable {α : Type*} {r r' : α → α → Prop} {a b : α}

/-- Nobody waits for itself, directly or through others. -/
def Acyclic (r : α → α → Prop) : Prop := ∀ a, ¬TransGen r a a

theorem acyclic_of_isEmpty (h : ∀ a b, ¬r a b) : Acyclic r := by
  intro a ha
  obtain ⟨b, hb, -⟩ := TransGen.head'_iff.mp ha
  exact h a b hb

/-- A path with new edges uses none of them, or reaches the point that they lead to and goes on without them. -/
theorem transGen_insert (hnew : ∀ x y, r' x y → r x y ∨ y = b ∧ ¬ReflTransGen r b x) {x y : α} (h : TransGen r' x y) :
    TransGen r x y ∨ ∃ u, ReflTransGen r x u ∧ ¬ReflTransGen r b u ∧ ReflTransGen r b y := by
  induction h with
  | single hxy =>
    rcases hnew _ _ hxy with hold | ⟨rfl, hno⟩
    · exact Or.inl (.single hold)
    · exact Or.inr ⟨_, .refl, hno, .refl⟩
  | tail hxy hyz ih =>
    rcases hnew _ _ hyz with hold | ⟨rfl, hno⟩
    · rcases ih with hxy' | ⟨u, hxu, hbu, hby⟩
      · exact Or.inl (hxy'.tail hold)
      · exact Or.inr ⟨u, hxu, hbu, hby.tail hold⟩
    · rcases ih with hxy' | ⟨u, hxu, hbu, -⟩
      · exact Or.inr ⟨_, hxy'.to_reflTransGen, hno, .refl⟩
      · exact Or.inr ⟨u, hxu, hbu, .refl⟩

/-- **Edges into one point**, none of them from where that point leads to. -/
theorem Acyclic.insert (h : Acyclic r) (hnew : ∀ x y, r' x y → r x y ∨ y = b ∧ ¬ReflTransGen r b x) : Acyclic r' := by
  intro a ha
  rcases transGen_insert hnew ha with hold | ⟨u, hau, hbu, hba⟩
  · exact h a hold
  · exact hbu (hba.trans hau)

/-- Edges into points with `p` stay; then so do the paths that end in one, if whoever waits has it. -/
theorem transGen_of_kept {p : α → Prop} (hkept : ∀ x y, r x y → p y → r' x y) (hp : ∀ x y, r x y → p x) {x y : α}
    (h : TransGen r x y) (hy : p y) : TransGen r' x y := by
  induction h with
  | single hxy => exact .single (hkept _ _ hxy hy)
  | tail _ hyz ih => exact (ih (hp _ _ hyz)).tail (hkept _ _ hyz hy)

theorem reflTransGen_of_kept {p : α → Prop} (hkept : ∀ x y, r x y → p y → r' x y) (hp : ∀ x y, r x y → p x) {x y : α}
    (h : ReflTransGen r x y) (hy : p y) : ReflTransGen r' x y := by
  rcases reflTransGen_iff_eq_or_transGen.mp h with rfl | htrans
  · exact .refl
  · exact (transGen_of_kept hkept hp htrans hy).to_reflTransGen

/-- **Each one of finitely many waits at last for one that is free.** -/
theorem exists_free {S : Set α} (hS : S.Finite) (h : Acyclic r) (ha : a ∈ S) :
    ∃ b ∈ S, ReflTransGen r a b ∧ ∀ c ∈ S, ¬r b c := by
  have := hS.to_subtype
  let after : S → S → Prop := fun x y => TransGen r y x
  have : IsTrans S after := ⟨fun _ _ _ hxy hyz => TransGen.trans hyz hxy⟩
  have : Std.Irrefl after := ⟨fun x hx => h x hx⟩
  have hwf : WellFounded after := Finite.wellFounded_of_trans_of_irrefl after
  suffices hall : ∀ x : S, ∃ b ∈ S, ReflTransGen r x b ∧ ∀ c ∈ S, ¬r b c from hall ⟨a, ha⟩
  intro x
  induction x using hwf.induction with
  | _ x ih =>
    by_cases hx : ∃ c ∈ S, r x c
    · obtain ⟨c, hc, hxc⟩ := hx
      obtain ⟨b, hb, hcb, hfree⟩ := ih ⟨c, hc⟩ (.single hxc)
      exact ⟨b, hb, .head hxc hcb, hfree⟩
    · exact ⟨x, x.2, .refl, fun c hc hxc => hx ⟨c, hc, hxc⟩⟩

end WaitGraphs
