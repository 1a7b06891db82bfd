import Mathlib.Data.Finset.Card

/-!
# The first members with their keys

`firsts key seen xs` keeps of `xs` the members whose key is new: it is not in `seen`, and no earlier member has it.
Every key of `xs` outside `seen` stays, once (`mem_map_firsts`, `nodup_firsts`), with the first member that has it
(`find?_firsts`). A beginning of `firsts key [] xs` is therefore as large a selection of members with different keys
as its length allows (`selects_take`).
-/

namespace Firsts

variable {α κ : Type*} [DecidableEq κ] {key : α → κ}

def firsts (key : α → κ) (seen : List κ) : List α → List α
  | [] => []
  | a :: xs => if key a ∈ seen then firsts key seen xs else a :: firsts key (key a :: seen) xs

/-- A selection of `n` members, or of one for each key if there are fewer. -/
structure Selects (key : α → κ) (n : Nat) (xs ys : List α) : Prop where
  sublist : ys.Sublist xs
  distinct : (ys.map key).Nodup
  first : ∀ a ∈ ys, xs.find? (fun b => key b = key a) = some a
  length : ys.length = min n (xs.map key).toFinset.card

theorem firsts_sublist (key : α → κ) (seen : List κ) (xs : List α) : (firsts key seen xs).Sublist xs := by
  fun_induction firsts key seen xs with
  | case1 => exact List.Sublist.refl _
  | case2 seen a xs _ ih => exact ih.cons a
  | case3 seen a xs _ ih => exact ih.cons_cons a

/-- The keys that stay. -/
theorem mem_map_firsts {seen : List κ} {xs : List α} {k : κ} :
    k ∈ (firsts key seen xs).map key ↔ k ∈ xs.map key ∧ k ∉ seen := by
  fun_induction firsts key seen xs with
  | case1 => simp
  | case2 seen a xs ha ih =>
    rw [ih, List.map_cons, List.mem_cons]
    constructor
    · rintro ⟨hk, hn⟩
      exact ⟨.inr hk, hn⟩
    · rintro ⟨rfl | hk, hn⟩
      · exact absurd ha hn
      · exact ⟨hk, hn⟩
  | case3 seen a xs ha ih =>
    rw [List.map_cons, List.mem_cons, ih, List.map_cons, List.mem_cons, List.mem_cons, not_or]
    constructor
    · rintro (rfl | ⟨hk, -, hn⟩)
      · exact ⟨.inl rfl, ha⟩
      · exact ⟨.inr hk, hn⟩
    · rintro ⟨rfl | hk, hn⟩
      · exact .inl rfl
      · by_cases h : k = key a
        · exact .inl h
        · exact .inr ⟨hk, h, hn⟩

theorem key_notMem_seen {seen : List κ} {xs : List α} {a : α} (ha : a ∈ firsts key seen xs) : key a ∉ seen :=
  (mem_map_firsts.mp (List.mem_map_of_mem ha)).2

theorem nodup_firsts (key : α → κ) (seen : List κ) (xs : List α) : ((firsts key seen xs).map key).Nodup := by
  fun_induction firsts key seen xs with
  | case1 => exact List.nodup_nil
  | case2 seen a xs _ ih => exact ih
  | case3 seen a xs _ ih =>
    rw [List.map_cons, List.nodup_cons]
    refine ⟨fun h => ?_, ih⟩
    exact (mem_map_firsts.mp h).2 List.mem_cons_self

/-- A member that stays is the first one with its key. -/
theorem find?_firsts {seen : List κ} {xs : List α} {a : α} (ha : a ∈ firsts key seen xs) :
    xs.find? (fun b => key b = key a) = some a := by
  fun_induction firsts key seen xs with
  | case1 => cases ha
  | case2 seen b xs hb ih =>
    have hne : key b ≠ key a := fun h => key_notMem_seen ha (h ▸ hb)
    rw [List.find?_cons_of_neg (by simpa using hne)]
    exact ih ha
  | case3 seen b xs _ ih =>
    rcases List.mem_cons.mp ha with rfl | ha
    · rw [List.find?_cons_of_pos (by simp)]
    · have hne : key b ≠ key a := fun h => key_notMem_seen ha (h ▸ List.mem_cons_self)
      rw [List.find?_cons_of_neg (by simpa using hne)]
      exact ih ha

/-- One member stays for each key. -/
theorem length_firsts (key : α → κ) (xs : List α) :
    (firsts key [] xs).length = (xs.map key).toFinset.card := by
  have hkeys : ((firsts key [] xs).map key).toFinset = (xs.map key).toFinset := by
    ext k
    rw [List.mem_toFinset, List.mem_toFinset, mem_map_firsts]
    simp
  rw [← hkeys, List.toFinset_card_of_nodup (nodup_firsts key [] xs), List.length_map]

theorem selects_take (key : α → κ) (n : Nat) (xs : List α) : Selects key n xs ((firsts key [] xs).take n) where
  sublist := (List.take_sublist _ _).trans (firsts_sublist key [] xs)
  distinct := (nodup_firsts key [] xs).sublist ((List.take_sublist _ _).map key)
  first a ha := find?_firsts (List.mem_of_mem_take ha)
  length := by rw [List.length_take, length_firsts]

end Firsts
