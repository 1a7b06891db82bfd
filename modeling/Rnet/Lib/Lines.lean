import Mathlib.Data.List.Basic

/-!
# Lists cut into lines

A line ends with a separator and has no other. `Cut p l ms r` says that `l` is the lines `ms` followed by `r`, in which
no separator is. There is one way to cut a list (`Cut.unique`), and what is appended later is cut together with the rest
(`Cut.append`), so the lines do not depend on the pieces a list comes in. A search for separators finds the next line
(`line_of_findIdx?`).
-/

namespace Lines

variable {α : Type*} {p : α → Bool} {l x r r' m : List α} {ms ms' : List (List α)}

def Line (p : α → Bool) (m : List α) : Prop := ∃ b y, m = b ++ [y] ∧ p y = true ∧ ∀ z ∈ b, p z = false

structure Cut (p : α → Bool) (l : List α) (ms : List (List α)) (r : List α) : Prop where
  eq : l = ms.flatten ++ r
  lines : ∀ m ∈ ms, Line p m
  rest : ∀ z ∈ r, p z = false

theorem Cut.nil (hl : ∀ z ∈ l, p z = false) : Cut p l [] l := ⟨rfl, List.forall_mem_nil _, hl⟩

/-- Nothing before the separator of a line is a line. -/
theorem Line.unique (h : Line p m) {m' : List α} (h' : Line p m') (heq : m ++ x = m' ++ r) : m = m' ∧ x = r := by
  obtain ⟨b, y, rfl, hy, hb⟩ := h
  obtain ⟨b', y', rfl, hy', hb'⟩ := h'
  induction b generalizing b' with
  | nil =>
    cases b' with
    | nil =>
      obtain ⟨rfl, rfl⟩ := List.cons.inj heq
      exact ⟨rfl, rfl⟩
    | cons z b' =>
      obtain ⟨rfl, -⟩ := List.cons.inj heq
      rw [hb' _ List.mem_cons_self] at hy
      cases hy
  | cons z b ih =>
    cases b' with
    | nil =>
      obtain ⟨rfl, -⟩ := List.cons.inj heq
      rw [hb _ List.mem_cons_self] at hy'
      cases hy'
    | cons z' b' =>
      obtain ⟨rfl, htail⟩ := List.cons.inj heq
      obtain ⟨hm, hx⟩ := ih (fun z hz => hb z (List.mem_cons_of_mem _ hz)) b' htail
        (fun z hz => hb' z (List.mem_cons_of_mem _ hz))
      exact ⟨congrArg _ hm, hx⟩

/-- A line is not the beginning of a list without separators. -/
theorem Line.notMem (h : Line p m) (hr : ∀ z ∈ r, p z = false) : m ++ x ≠ r := by
  rintro rfl
  obtain ⟨b, y, rfl, hy, -⟩ := h
  rw [hr y (by simp)] at hy
  cases hy

/-- **There is one way to cut a list.** -/
theorem Cut.unique (h : Cut p l ms r) (h' : Cut p l ms' r') : ms = ms' ∧ r = r' := by
  obtain ⟨heq, hms, hr⟩ := h
  obtain ⟨heq', hms', hr'⟩ := h'
  subst heq
  induction ms generalizing ms' with
  | nil =>
    cases ms' with
    | nil => exact ⟨rfl, heq'⟩
    | cons m' ms' =>
      rw [List.flatten_cons, List.append_assoc] at heq'
      exact absurd heq'.symm ((hms' m' List.mem_cons_self).notMem hr)
  | cons m ms ih =>
    cases ms' with
    | nil =>
      rw [List.flatten_cons, List.append_assoc] at heq'
      exact absurd heq' ((hms m List.mem_cons_self).notMem hr')
    | cons m' ms' =>
      rw [List.flatten_cons, List.flatten_cons, List.append_assoc, List.append_assoc] at heq'
      obtain ⟨rfl, hrest⟩ := (hms m List.mem_cons_self).unique (hms' m' List.mem_cons_self) heq'
      obtain ⟨rfl, hr⟩ := ih (fun m hm => hms m (List.mem_cons_of_mem _ hm))
        (fun m hm => hms' m (List.mem_cons_of_mem _ hm)) hrest
      exact ⟨rfl, hr⟩

/-- **What comes later is cut together with the rest.** -/
theorem Cut.append (h : Cut p l ms r) (h' : Cut p (r ++ x) ms' r') : Cut p (l ++ x) (ms ++ ms') r' where
  eq := by rw [h.eq, List.append_assoc, h'.eq, List.flatten_append, List.append_assoc]
  lines m hm := (List.mem_append.mp hm).elim (h.lines m) (h'.lines m)
  rest := h'.rest

/-! ## Searching for separators -/

/-- What the first separator ends is a line. -/
theorem line_of_findIdx? {n : Nat} (h : l.findIdx? p = some n) : n < l.length ∧ Line p (l.take (n + 1)) := by
  obtain ⟨hn, hp, hbefore⟩ := List.findIdx?_eq_some_iff_getElem.mp h
  refine ⟨hn, l.take n, l[n], List.take_succ_eq_append_getElem hn, hp, fun z hz => ?_⟩
  obtain ⟨k, hk, rfl⟩ := List.getElem_of_mem hz
  rw [List.length_take] at hk
  rw [List.getElem_take]
  exact eq_false_of_ne_true (hbefore k (by omega))

end Lines
