import Mathlib.Data.List.Basic

/-!
# Queues of chunks

A stream waiting in a queue of chunks `q : List (List α)` is `q.flatten`. Two loops take items off its front:

* `advance n q` drops `n` items, whole chunks first and then a part of the next one (`flatten_advance`); it stops as
  soon as `n` items are gone, so an empty chunk that follows stays;
* `unsent n q` is what is left of a list of buffers after `n` of their items went out (`flatten_unsent`); it skips
  empty buffers.

A reader that is offered the first `k` chunks at a time gets nothing when these are all empty (`Hollow`). A queue is
`Firm` when none of its suffixes is hollow; a queue without empty chunks is firm (`Solid.firm`). Advancing keeps a queue
firm (`Firm.advance`), whatever chunks are pushed behind it later (`Firmer`, `firmer_advance`, `firmer_unsent`). A queue
that is not firm stays so while items are taken one by one, until its front is hollow (`not_firm_advance_one`).
-/

namespace Chunks

variable {α : Type*}

/-- Drop `n` items from the front of the queue. -/
def advance : Nat → List (List α) → List (List α)
  | 0, q => q
  | _ + 1, [] => []
  | n + 1, c :: q => if c.length ≤ n + 1 then advance (n + 1 - c.length) q else c.drop (n + 1) :: q

/-- The parts of the buffers that are left when `n` items went out. -/
def unsent : Nat → List (List α) → List (List α)
  | _, [] => []
  | n, c :: cs => if c.length ≤ n then unsent (n - c.length) cs else c.drop n :: unsent 0 cs

/-- No chunk of the queue is empty. -/
def Solid (q : List (List α)) : Prop := ∀ c ∈ q, c ≠ []

instance [DecidableEq α] (q : List (List α)) : Decidable (Solid q) := inferInstanceAs (Decidable (∀ c ∈ q, c ≠ []))

@[simp] theorem advance_zero (q : List (List α)) : advance 0 q = q := by
  cases q <;> rfl

@[simp] theorem advance_nil (n : Nat) : advance n ([] : List (List α)) = [] := by
  cases n <;> rfl

theorem advance_cons {n : Nat} (hn : 0 < n) (c : List α) (q : List (List α)) :
    advance n (c :: q) = if c.length ≤ n then advance (n - c.length) q else c.drop n :: q := by
  obtain ⟨m, rfl⟩ : ∃ m, n = m + 1 := ⟨n - 1, by omega⟩
  rfl

/-- Advancing drops exactly `n` items of the stream. -/
theorem flatten_advance (n : Nat) (q : List (List α)) : (advance n q).flatten = q.flatten.drop n := by
  induction q generalizing n with
  | nil => simp
  | cons c q ih =>
    rcases Nat.eq_zero_or_pos n with rfl | hn
    · simp
    · rw [advance_cons hn]
      split
      · rename_i hle
        rw [ih, List.flatten_cons, List.drop_append, List.drop_eq_nil_of_le hle, List.nil_append]
      · rename_i hlt
        rw [List.flatten_cons, List.flatten_cons, List.drop_append_of_le_length (by omega)]

/-- The unsent parts are the stream without its first `n` items. -/
theorem flatten_unsent (n : Nat) (q : List (List α)) : (unsent n q).flatten = q.flatten.drop n := by
  induction q generalizing n with
  | nil => simp [unsent]
  | cons c q ih =>
    rw [unsent]
    split
    · rename_i hle
      rw [ih, List.flatten_cons, List.drop_append, List.drop_eq_nil_of_le hle, List.nil_append]
    · rename_i hlt
      rw [List.flatten_cons, ih, List.flatten_cons, List.drop_append_of_le_length (by omega), List.drop_zero]

theorem Solid.nil : Solid ([] : List (List α)) := fun _ h => by cases h

theorem Solid.append {q r : List (List α)} (hq : Solid q) (hr : Solid r) : Solid (q ++ r) := fun c hc =>
  (List.mem_append.mp hc).elim (hq c) (hr c)

/-- The first chunks are a prefix of the stream. -/
theorem prefix_flatten_take (k : Nat) (q : List (List α)) : (q.take k).flatten <+: q.flatten := by
  conv_rhs => rw [← List.take_append_drop k q, List.flatten_append]
  exact List.prefix_append _ _

/-! ## Offers that hold nothing -/

/-- There are chunks, but the first `k` of them hold no item. -/
def Hollow (k : Nat) (q : List (List α)) : Prop := q ≠ [] ∧ (q.take k).flatten = []

/-- No suffix of the queue is hollow. -/
def Firm (k : Nat) (q : List (List α)) : Prop := ∀ r, r <:+ q → ¬Hollow k r

theorem Firm.take_flatten_pos {k : Nat} {q : List (List α)} (hq : Firm k q) (hne : q ≠ []) :
    0 < (q.take k).flatten.length :=
  List.length_pos_iff.mpr fun h => hq q (List.suffix_refl q) ⟨hne, h⟩

/-- A queue that starts with an item is not hollow. -/
theorem not_hollow_cons {k : Nat} (hk : 0 < k) {c : List α} (hc : c ≠ []) (q : List (List α)) : ¬Hollow k (c :: q) := by
  obtain ⟨j, rfl⟩ : ∃ j, k = j + 1 := ⟨k - 1, by omega⟩
  rintro ⟨-, h⟩
  rw [List.take_succ_cons, List.flatten_cons, List.append_eq_nil_iff] at h
  exact hc h.1

theorem Solid.firm {k : Nat} (hk : 0 < k) {q : List (List α)} (hq : Solid q) : Firm k q := by
  rintro r hr hhollow
  obtain ⟨c, r', rfl⟩ := List.exists_cons_of_ne_nil hhollow.1
  exact not_hollow_cons hk (hq c (hr.subset List.mem_cons_self)) r' hhollow

theorem Firm.of_suffix {k : Nat} {q r : List (List α)} (hq : Firm k q) (hr : r <:+ q) : Firm k r := fun t ht =>
  hq t (ht.trans hr)

/-- A chunk that holds an item keeps a queue firm. -/
theorem Firm.cons {k : Nat} (hk : 0 < k) {c : List α} (hc : c ≠ []) {q : List (List α)} (hq : Firm k q) :
    Firm k (c :: q) := by
  intro r hr
  rcases List.suffix_cons_iff.mp hr with rfl | hr
  · exact not_hollow_cons hk hc q
  · exact hq r hr

/-- Whatever chunks follow, `r` is firm with them if `q` is. -/
def Firmer (k : Nat) (r q : List (List α)) : Prop := ∀ p, Firm k (q ++ p) → Firm k (r ++ p)

namespace Firmer

variable {k : Nat} {q r t : List (List α)}

theorem refl (q : List (List α)) : Firmer k q q := fun _ h => h

theorem trans (h : Firmer k t r) (h' : Firmer k r q) : Firmer k t q := fun p hp => h p (h' p hp)

theorem nil (q : List (List α)) : Firmer k [] q := fun p hp => hp.of_suffix (List.suffix_append q p)

theorem tail (c : List α) (q : List (List α)) : Firmer k q (c :: q) := fun _ hp => hp.of_suffix (List.suffix_cons c _)

/-- A chunk may be cut as long as something is left of it. -/
theorem cut (hk : 0 < k) {c : List α} {n : Nat} (hn : n < c.length) (h : Firmer k r q) :
    Firmer k (c.drop n :: r) (c :: q) := by
  intro p hp
  have hc : c.drop n ≠ [] := fun h0 => absurd (List.drop_eq_nil_iff.mp h0) (by omega)
  exact Firm.cons hk hc (h p (hp.of_suffix (List.suffix_cons c _)))

/-- Both queues may get the same chunks. -/
theorem append (h : Firmer k r q) (b : List (List α)) : Firmer k (r ++ b) (q ++ b) := by
  intro p hp
  rw [List.append_assoc] at hp ⊢
  exact h (b ++ p) hp

theorem firm (h : Firmer k r q) (hq : Firm k q) : Firm k r := by
  simpa using h [] (by simpa using hq)

end Firmer

/-- Advancing keeps a queue firm, also with more chunks to come. -/
theorem firmer_advance {k : Nat} (hk : 0 < k) (n : Nat) (q : List (List α)) : Firmer k (Chunks.advance n q) q := by
  induction q generalizing n with
  | nil => simpa using Firmer.refl []
  | cons c q ih =>
    rcases Nat.eq_zero_or_pos n with rfl | hn
    · simpa using Firmer.refl (c :: q)
    · rw [advance_cons hn]
      split
      · exact (ih _).trans (Firmer.tail c q)
      · exact Firmer.cut hk (by omega) (Firmer.refl q)

/-- The unsent parts are firm if the buffers are, also with more chunks to come. -/
theorem firmer_unsent {k : Nat} (hk : 0 < k) (n : Nat) (q : List (List α)) : Firmer k (unsent n q) q := by
  induction q generalizing n with
  | nil => exact Firmer.refl []
  | cons c q ih =>
    rw [unsent]
    split
    · exact (ih _).trans (Firmer.tail c q)
    · exact Firmer.cut hk (by omega) (ih 0)

theorem Firm.advance {k : Nat} (hk : 0 < k) {q : List (List α)} (hq : Firm k q) (n : Nat) : Firm k (advance n q) :=
  (firmer_advance hk n q).firm hq

/-- A hollow suffix behind an offer that holds an item is still there when one item is taken. -/
theorem hollow_suffix_advance_one {k : Nat} {r : List (List α)} (hr : Hollow k r) :
    ∀ {q : List (List α)} {j : Nat}, j ≤ k → r <:+ q → (q.take j).flatten ≠ [] → r <:+ Chunks.advance 1 q
  | [], _, _, _, h => absurd (by simp) h
  | c :: q, 0, _, _, h => absurd (by simp) h
  | c :: q, j + 1, hj, hrq, h => by
    have hne : (r.take k).flatten = [] := hr.2
    rcases List.suffix_cons_iff.mp hrq with rfl | hrq'
    · -- the whole queue would be hollow
      refine absurd (List.eq_nil_iff_length_eq_zero.mpr ?_) h
      have hp := (prefix_flatten_take (j + 1) ((c :: q).take k)).length_le
      rw [List.take_take, Nat.min_eq_left hj, hne] at hp
      simpa using hp
    · rw [advance_cons Nat.one_pos]
      split
      · rename_i hle
        rcases Nat.le_one_iff_eq_zero_or_eq_one.mp hle with h0 | h1
        · obtain rfl := List.length_eq_zero_iff.mp h0
          refine hollow_suffix_advance_one hr (j := j) (by omega) hrq' ?_
          simpa using h
        · simpa [h1] using hrq'
      · exact hrq'.trans (List.suffix_cons _ _)

/-- A queue that is not firm stays so while its front holds an item and one is taken. -/
theorem not_firm_advance_one {k : Nat} {q : List (List α)} (hq : ¬Firm k q) (h : (q.take k).flatten ≠ []) :
    ¬Firm k (Chunks.advance 1 q) := by
  simp only [Firm, not_forall, not_not] at hq
  obtain ⟨r, hrq, hr⟩ := hq
  exact fun hf => hf r (hollow_suffix_advance_one hr (Nat.le_refl k) hrq h) hr

end Chunks
