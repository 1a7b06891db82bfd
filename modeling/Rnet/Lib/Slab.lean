import Mathlib.Data.List.Perm.Subperm

/-!
# Slabs

A vector of entries with a stack of vacant keys: a key freed by `remove` is the next one handed out, and only when
none is free does the vector grow. The stack holds exactly the vacant keys below the end, each once, which is part of
the type. `get` sees an insertion, an update or a removal at its own key only (`get_insert`, `get_set`, `get_remove`);
the number of keys goes up and down with them (`length_keys_insert`, `length_keys_remove`).
-/

structure Slab (α : Type*) where
  entries : List (Option α)
  /-- the vacant keys, most recently freed first -/
  free : List Nat
  vacant : ∀ k, k ∈ free ↔ entries[k]? = some none
  nodup : free.Nodup

namespace Slab

variable {α : Type*}

def empty : Slab α := ⟨[], [], by simp, List.nodup_nil⟩

def get (s : Slab α) (k : Nat) : Option α := (s.entries[k]?).join

/-- `vacant_entry().key()` -/
def vacantKey (s : Slab α) : Nat := s.free.headD s.entries.length

/-- The occupied keys, in order. -/
def keys (s : Slab α) : List Nat := (List.range s.entries.length).filter fun k => (s.get k).isSome

theorem get_eq_some {s : Slab α} {k : Nat} {a : α} : s.get k = some a ↔ s.entries[k]? = some (some a) := by
  unfold get
  cases s.entries[k]? with
  | none => simp
  | some o => simp

theorem get_eq_none {s : Slab α} {k : Nat} : s.get k = none ↔ s.entries.length ≤ k ∨ s.entries[k]? = some none := by
  unfold get
  by_cases hk : k < s.entries.length
  · rw [List.getElem?_eq_getElem hk]
    simp only [Option.join_some, Option.some.injEq]
    exact ⟨fun h => Or.inr h, fun h => h.resolve_left (by omega)⟩
  · simp [Nat.not_lt.mp hk]

theorem mem_keys {s : Slab α} {k : Nat} : k ∈ s.keys ↔ ∃ a, s.get k = some a := by
  unfold keys
  rw [List.mem_filter, List.mem_range, Option.isSome_iff_exists]
  refine ⟨fun h => h.2, fun ⟨a, h⟩ => ⟨?_, a, h⟩⟩
  exact (List.getElem?_eq_some_iff.mp (get_eq_some.mp h)).1

/-- The next key is vacant. -/
@[simp] theorem get_vacantKey (s : Slab α) : s.get s.vacantKey = none := by
  rw [get_eq_none, vacantKey]
  cases hf : s.free with
  | nil => exact Or.inl (Nat.le_refl _)
  | cons k rest => exact Or.inr ((s.vacant k).mp (by simp [hf]))

@[simp] theorem get_empty (k : Nat) : (empty : Slab α).get k = none := by simp [get, empty]

/-- Change the value at an occupied key. -/
def set (s : Slab α) (k : Nat) (a : α) : Slab α :=
  if h : (s.get k).isSome then
    { entries := s.entries.set k (some a)
      free := s.free
      vacant := fun j => by
        rw [s.vacant, List.getElem?_set]
        obtain ⟨b, hb⟩ := Option.isSome_iff_exists.mp h
        rw [get_eq_some] at hb
        by_cases hj : k = j
        · subst hj
          simp [hb]
        · simp [hj]
      nodup := s.nodup }
  else s

/-- The entries with a value put at the vacant key. -/
def entriesWith (s : Slab α) (a : α) : List (Option α) :=
  match s.free with
  | [] => s.entries ++ [some a]
  | k :: _ => s.entries.set k (some a)

/-- Put a value at the vacant key. -/
def insert (s : Slab α) (a : α) : Slab α where
  entries := s.entriesWith a
  free := s.free.tail
  vacant := fun j => by
    unfold entriesWith
    cases hf : s.free with
    | nil =>
      have h := s.vacant j
      rw [hf] at h
      rw [List.getElem?_append]
      simp only [List.not_mem_nil, false_iff] at h
      split
      · simpa using h
      · have : ([some a] : List (Option α))[j - s.entries.length]? ≠ some none := by
          cases j - s.entries.length <;> simp
        simpa using this
    | cons k rest =>
      have h := s.vacant j
      have hn := s.nodup
      rw [hf] at h hn
      rw [List.getElem?_set, List.tail_cons]
      by_cases hj : k = j
      · subst hj
        have : k ∉ rest := (List.nodup_cons.mp hn).1
        by_cases hk : k < s.entries.length <;> simp [this, hk]
      · rw [if_neg hj, ← h]
        simp [Ne.symm hj]
  nodup := s.nodup.sublist (List.tail_sublist _)

/-- Take the value at an occupied key out. -/
def remove (s : Slab α) (k : Nat) : Slab α :=
  if h : (s.get k).isSome then
    { entries := s.entries.set k none
      free := k :: s.free
      vacant := fun j => by
        rw [List.mem_cons, s.vacant, List.getElem?_set]
        obtain ⟨b, hb⟩ := Option.isSome_iff_exists.mp h
        rw [get_eq_some] at hb
        have hk : k < s.entries.length := (List.getElem?_eq_some_iff.mp hb).1
        by_cases hj : k = j
        · subst hj
          simp [hk]
        · simp [hj, Ne.symm hj]
      nodup := by
        refine List.nodup_cons.mpr ⟨fun hm => ?_, s.nodup⟩
        obtain ⟨b, hb⟩ := Option.isSome_iff_exists.mp h
        rw [s.vacant, get_eq_some.mp hb] at hm
        cases hm }
  else s

theorem get_set {s : Slab α} {k j : Nat} {a b : α} (hk : s.get k = some b) :
    (s.set k a).get j = if j = k then some a else s.get j := by
  have h := get_eq_some.mp hk
  have hlt : k < s.entries.length := (List.getElem?_eq_some_iff.mp h).1
  unfold set
  rw [dif_pos (by simp [hk])]
  unfold get
  rw [List.getElem?_set]
  by_cases hj : k = j
  · subst hj
    simp [hlt]
  · simp [hj, Ne.symm hj]

theorem get_set_ne {s : Slab α} {k j : Nat} {a : α} (h : j ≠ k) : (s.set k a).get j = s.get j := by
  cases hk : s.get k with
  | some b => rw [get_set hk, if_neg h]
  | none => rw [set, dif_neg (by simp [hk])]

theorem get_insert {s : Slab α} {j : Nat} {a : α} :
    (s.insert a).get j = if j = s.vacantKey then some a else s.get j := by
  show ((s.entriesWith a)[j]?).join = _
  cases hf : s.free with
  | nil =>
    have hv : s.vacantKey = s.entries.length := by simp [vacantKey, hf]
    have he : s.entriesWith a = s.entries ++ [some a] := by simp [entriesWith, hf]
    rw [hv, he, List.getElem?_append]
    by_cases hj : j < s.entries.length
    · rw [if_pos hj, if_neg (by omega)]
      rfl
    · rw [if_neg hj]
      by_cases he : j = s.entries.length
      · simp [he]
      · rw [if_neg he, get_eq_none.mpr (Or.inl (by omega)), List.getElem?_eq_none (by simp; omega)]
        rfl
  | cons k rest =>
    have hv : s.vacantKey = k := by simp [vacantKey, hf]
    have he : s.entriesWith a = s.entries.set k (some a) := by simp [entriesWith, hf]
    have hlt : k < s.entries.length := (List.getElem?_eq_some_iff.mp ((s.vacant k).mp (by simp [hf]))).1
    rw [hv, he, List.getElem?_set]
    by_cases hj : k = j
    · subst hj
      simp [hlt]
    · rw [if_neg hj, if_neg (Ne.symm hj)]
      rfl

theorem get_insert_self {s : Slab α} {a : α} : (s.insert a).get s.vacantKey = some a := get_insert.trans (if_pos rfl)

/-- What is there after an insertion is the new value, or was there before. -/
theorem of_get_insert {s : Slab α} {j : Nat} {a b : α} (h : (s.insert a).get j = some b) :
    (j = s.vacantKey ∧ b = a) ∨ s.get j = some b := by
  rw [get_insert] at h
  by_cases hj : j = s.vacantKey
  · rw [if_pos hj] at h
    exact Or.inl ⟨hj, (Option.some.inj h).symm⟩
  · rw [if_neg hj] at h
    exact Or.inr h

theorem get_remove {s : Slab α} {k j : Nat} : (s.remove k).get j = if j = k then none else s.get j := by
  unfold remove
  split
  · rename_i h
    unfold get
    rw [List.getElem?_set]
    by_cases hj : k = j
    · subst hj
      simp only [if_true]
      split <;> rfl
    · simp [hj, Ne.symm hj]
  · rename_i h
    by_cases hj : j = k
    · rw [if_pos hj]
      cases hg : s.get j with
      | none => rfl
      | some a => exact absurd (by simp [← hj, hg]) h
    · rw [if_neg hj]

/-! ## The number of values -/

theorem length_keys (s : Slab α) : s.keys.length = s.entries.countP Option.isSome := by
  have hmap : s.entries = (List.range s.entries.length).map s.get := by
    refine List.ext_getElem (by simp) fun k hk _ => ?_
    rw [List.getElem_map, List.getElem_range]
    unfold get
    rw [List.getElem?_eq_getElem hk]
    rfl
  rw [keys, ← List.countP_eq_length_filter]
  conv_rhs => rw [hmap, List.countP_map]
  rfl

theorem length_keys_set (s : Slab α) (k : Nat) (a : α) : (s.set k a).keys.length = s.keys.length := by
  unfold set
  split
  · rename_i h
    obtain ⟨b, hb⟩ := Option.isSome_iff_exists.mp h
    have he := get_eq_some.mp hb
    obtain ⟨hlt, hk⟩ := List.getElem?_eq_some_iff.mp he
    have hpos : 0 < s.entries.countP Option.isSome :=
      List.countP_pos_iff.mpr ⟨some b, List.mem_of_getElem? he, rfl⟩
    rw [length_keys, length_keys, List.countP_set hlt, hk]
    simp only [Option.isSome_some, if_true]
    omega
  · rfl

theorem length_keys_insert (s : Slab α) (a : α) : (s.insert a).keys.length = s.keys.length + 1 := by
  rw [length_keys, length_keys]
  show (s.entriesWith a).countP Option.isSome = _
  unfold entriesWith
  cases hf : s.free with
  | nil => simp
  | cons k rest =>
    obtain ⟨hlt, hk⟩ := List.getElem?_eq_some_iff.mp ((s.vacant k).mp (by simp [hf]))
    simp [List.countP_set hlt, hk]

theorem length_keys_remove {s : Slab α} {k : Nat} {b : α} (hb : s.get k = some b) :
    (s.remove k).keys.length + 1 = s.keys.length := by
  have he := get_eq_some.mp hb
  obtain ⟨hlt, hk⟩ := List.getElem?_eq_some_iff.mp he
  have hpos : 0 < s.entries.countP Option.isSome := List.countP_pos_iff.mpr ⟨some b, List.mem_of_getElem? he, rfl⟩
  unfold remove
  rw [dif_pos (by simp [hb]), length_keys, length_keys, List.countP_set hlt, hk]
  simp only [Option.isSome_some, if_true, Option.isSome_none]
  simp only [Bool.false_eq_true, if_false]
  omega

theorem length_keys_le_entries (s : Slab α) : s.keys.length ≤ s.entries.length := by
  rw [length_keys]
  exact List.countP_le_length

theorem length_entries_set (s : Slab α) (k : Nat) (a : α) : (s.set k a).entries.length = s.entries.length := by
  unfold set
  split
  · exact List.length_set
  · rfl

theorem length_entries_remove (s : Slab α) (k : Nat) : (s.remove k).entries.length = s.entries.length := by
  unfold remove
  split
  · exact List.length_set
  · rfl

/-- **The vector grows only when it is full**: an insertion needs as many slots as there are values, or none more. -/
theorem length_entries_insert (s : Slab α) (a : α) :
    (s.insert a).entries.length = max s.entries.length (s.insert a).keys.length := by
  have hle := (s.insert a).length_keys_le_entries
  have hkeys := s.length_keys_insert a
  have hentries : (s.insert a).entries = s.entriesWith a := rfl
  unfold entriesWith at hentries
  cases hf : s.free with
  | nil =>
    -- no entry is vacant, so every entry holds a value
    have hfull : s.keys.length = s.entries.length := by
      rw [length_keys, List.countP_eq_length]
      intro o ho
      obtain ⟨k, hk⟩ := List.mem_iff_getElem?.mp ho
      cases o with
      | some a => rfl
      | none =>
        have hv := (s.vacant k).mpr hk
        rw [hf] at hv
        cases hv
    rw [hf] at hentries
    rw [hentries, List.length_append, List.length_singleton]
    omega
  | cons k rest =>
    rw [hf] at hentries
    rw [hentries, List.length_set] at hle ⊢
    omega

theorem keys_nodup (s : Slab α) : s.keys.Nodup := List.nodup_range.filter _

/-- Keys below a bound are no more than the bound. -/
theorem length_keys_le {s : Slab α} {n : Nat} (h : ∀ k a, s.get k = some a → k < n) : s.keys.length ≤ n := by
  have hsub : s.keys ⊆ List.range n := fun k hk => by
    obtain ⟨a, ha⟩ := mem_keys.mp hk
    exact List.mem_range.mpr (h k a ha)
  have hle := (s.keys_nodup.subperm hsub).length_le
  rwa [List.length_range] at hle

end Slab
