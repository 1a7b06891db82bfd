import Rnet.Connection.Inbound

/-!
# The accessors of the input agree

The unread input `T` of a connection sits in two optional buffers, and each accessor splits a request over them in its
own way. Asked for `n` of the `|T|` bytes, all five give the first `n` bytes of `T`, and the four that consume leave the
rest (`agree_of_le`); asked for everything, they are asked for `|T|` bytes (`whole_of_pos`); asked for more, they give
nothing, and `read` gives what there is (`refuse_of_lt`). What is left after an accessor follows from what it gives
(`Consumes.rest`).
-/

namespace Rnet
namespace Connection

variable {κ : Type} {c c' : Connection κ} {n : Nat}

/-! ## Lengths -/

theorem length_unread (c : Connection κ) : c.unread.length = c.inBufLen + c.ioBufLen := by
  rw [unread, List.length_append, inBufLen, ioBufLen]
  cases c.inBuffer <;> cases c.ioBuffer <;> rfl

theorem actualLen_le (h : n ≤ c.unread.length) : c.actualLen (some n) = some n := by
  rw [length_unread] at h
  exact if_neg (by omega)

theorem actualLen_lt (h : c.unread.length < n) : c.actualLen (some n) = none := by
  rw [length_unread] at h
  exact if_pos h

theorem actualLen_none (c : Connection κ) : c.actualLen none = c.actualLen (some c.unread.length) := by
  rw [actualLen_le (Nat.le_refl _), length_unread]
  rfl

/-- Nothing older is unread: the input is the current read. -/
theorem unread_of_inBufLen (h : c.inBufLen = 0) : c.unread = c.ioBuffer.getD [] := by
  rw [unread, inBuffer_nil h, List.nil_append]

theorem inBuffer_of_inBufLen (h : c.inBufLen ≠ 0) : ∃ inb, c.inBuffer = some inb ∧ c.inBufLen = inb.length := by
  unfold inBufLen at h ⊢
  cases hin : c.inBuffer with
  | none => simp [hin] at h
  | some inb => exact ⟨inb, rfl, rfl⟩

/-- A request beyond the older input takes all of it and a part of the current read. -/
theorem take_unread {inb : Bytes} (hin : c.inBuffer = some inb) (h : inb.length ≤ n) :
    c.unread.take n = inb ++ (c.ioBuffer.getD []).take (n - inb.length) := by
  rw [unread, hin, Option.getD_some, List.take_append, List.take_of_length_le h]

/-- A request within the older input does not see the current read. -/
theorem take_unread_in {inb : Bytes} (hin : c.inBuffer = some inb) (h : n ≤ inb.length) :
    c.unread.take n = inb.take n := by
  rw [unread, hin, Option.getD_some, List.take_append_of_le_length h]

/-- What an accessor leaves follows from what it gives. -/
theorem Consumes.rest {bs : Bytes} (h : Consumes c bs c') (hbs : bs = c.unread.take n) (hn : n ≤ c.unread.length) :
    c'.unread = c.unread.drop n := by
  have h' : c.unread = c.unread.take n ++ c'.unread := by rw [← hbs, ← h.unread]
  have hlen : (c.unread.take n).length = n := by rw [List.length_take, Nat.min_eq_left hn]
  conv_rhs => rw [h']
  rw [List.drop_append_of_le_length (Nat.le_of_eq hlen.symm), List.drop_of_length_le (Nat.le_of_eq hlen),
    List.nil_append]

/-! ## Each accessor -/

/-- With unread input that is not older, there is a current read. -/
theorem ioBuffer_of_pos (h0 : c.inBufLen = 0) (hpos : 0 < c.unread.length) : ∃ io, c.ioBuffer = some io := by
  rw [unread_of_inBufLen h0] at hpos
  cases hio : c.ioBuffer with
  | none => rw [hio] at hpos; cases hpos
  | some io => exact ⟨io, rfl⟩

theorem peek_eq (hpos : 0 < c.unread.length) (hn : n ≤ c.unread.length) : c.peek (some n) = some (c.unread.take n) := by
  unfold peek
  rw [actualLen_le hn]
  simp only
  by_cases h0 : c.inBufLen = 0
  · obtain ⟨io, hio⟩ := ioBuffer_of_pos h0 hpos
    rw [if_pos h0, hio, unread_of_inBufLen h0, hio]
    rfl
  · obtain ⟨inb, hin, hlen⟩ := inBuffer_of_inBufLen h0
    rw [if_neg h0, hin, hlen]
    simp only
    by_cases hle : n ≤ inb.length
    · rw [if_pos hle, take_unread_in hin hle]
    · rw [if_neg hle, take_unread hin (Nat.le_of_not_le hle)]

/-- What is taken is what `peek` shows. -/
theorem nextContiguous_peek (c : Connection κ) (n : Option Nat) : (c.nextContiguous n).1 = c.peek n := by
  unfold nextContiguous peek
  cases c.actualLen n with
  | none => rfl
  | some len =>
    by_cases h0 : c.inBufLen = 0
    · simp only [if_pos h0]
      cases c.ioBuffer <;> rfl
    · simp only [if_neg h0]
      cases c.inBuffer with
      | none => rfl
      | some inb => by_cases hle : len ≤ c.inBufLen <;> simp only [hle, if_true, if_false]

theorem nextContiguous_eq (hpos : 0 < c.unread.length) (hn : n ≤ c.unread.length) :
    (c.nextContiguous (some n)).1 = some (c.unread.take n) := by
  rw [nextContiguous_peek, peek_eq hpos hn]

theorem discard_eq (hpos : 0 < c.unread.length) (hn : n ≤ c.unread.length) : (c.discard (some n)).1 = some n := by
  unfold discard
  rw [actualLen_le hn]
  simp only
  by_cases h0 : c.inBufLen = 0
  · obtain ⟨io, hio⟩ := ioBuffer_of_pos h0 hpos
    rw [if_pos h0, hio]
  · rw [if_neg h0]
    split <;> rfl

/-- The current read is not touched by the part that takes from the older input. -/
theorem takeIn_ioBuffer (c : Connection κ) (len : Nat) : (c.takeIn len).2.ioBuffer = c.ioBuffer := by
  unfold takeIn
  cases c.inBuffer <;> rfl

/-- What the older input lacks, the current read has. -/
theorem take_unread_takeIn (c : Connection κ) (n : Nat) :
    c.unread.take n = (c.takeIn n).1.flatten ++ (c.ioBuffer.getD []).take (n - (c.takeIn n).1.flatten.length) := by
  rw [takeIn_flatten, unread, List.take_append, List.length_take]
  rcases Nat.le_total n (c.inBuffer.getD []).length with h | h
  · rw [Nat.min_eq_left h, Nat.sub_self, Nat.sub_eq_zero_of_le h]
  · rw [Nat.min_eq_right h]

theorem nextVectored_eq (h1 : 1 ≤ n) (hn : n ≤ c.unread.length) :
    ∃ chunks, (c.nextVectored (some n)).1 = some chunks ∧ chunks.flatten = c.unread.take n := by
  have htake := c.take_unread_takeIn n
  unfold nextVectored
  rw [if_neg (by simp; omega), actualLen_le hn]
  simp only [takeIn_ioBuffer]
  split
  · cases hio : c.ioBuffer with
    | some io => exact ⟨_, rfl, by simp [htake, hio]⟩
    | none => exact ⟨_, rfl, by simp [htake, hio]⟩
  · rename_i h
    exact ⟨_, rfl, by rw [htake, Nat.eq_zero_of_not_pos h, List.take_zero, List.append_nil]⟩

/-- `read` gives what there is, up to the length of the buffer. -/
theorem read_eq (c : Connection κ) (n : Nat) : (c.read n).1 = c.unread.take n := by
  have htake := c.take_unread_takeIn n
  unfold read
  simp only [takeIn_ioBuffer]
  split
  · rename_i h
    rw [htake, h, Nat.sub_self, List.take_zero, List.append_nil]
  · cases hio : c.ioBuffer with
    | none => simp [htake, hio]
    | some io => simp [htake, hio, ← List.take_eq_take_min]

/-! ## All of them -/

/-- Asked for `n` bytes, the accessors give the same ones, and those that consume leave the same rest. -/
structure Agree (c : Connection κ) (n : Nat) : Prop where
  peek : c.peek (some n) = some (c.unread.take n)
  nextContiguous : (c.nextContiguous (some n)).1 = some (c.unread.take n)
  nextVectored : ∃ chunks, (c.nextVectored (some n)).1 = some chunks ∧ chunks.flatten = c.unread.take n
  discard : (c.discard (some n)).1 = some n
  read : (c.read n).1 = c.unread.take n ∧ (c.read n).1.length = n
  nextContiguous_rest : (c.nextContiguous (some n)).2.unread = c.unread.drop n
  nextVectored_rest : (c.nextVectored (some n)).2.unread = c.unread.drop n
  discard_rest : (c.discard (some n)).2.unread = c.unread.drop n
  read_rest : (c.read n).2.unread = c.unread.drop n

/-- Without a number, an accessor is asked for `n` bytes. -/
structure Whole (c : Connection κ) (n : Nat) : Prop where
  peek : c.peek none = c.peek (some n)
  nextContiguous : c.nextContiguous none = c.nextContiguous (some n)
  nextVectored : c.nextVectored none = c.nextVectored (some n)
  discard : c.discard none = c.discard (some n)

/-- Asked for `n` bytes, the accessors give nothing and leave the input alone, and `read` gives all there is. -/
structure Refuse (c : Connection κ) (n : Nat) : Prop where
  peek : c.peek (some n) = none
  nextContiguous : (c.nextContiguous (some n)).1 = none ∧ (c.nextContiguous (some n)).2.unread = c.unread
  nextVectored : (c.nextVectored (some n)).1 = none ∧ (c.nextVectored (some n)).2.unread = c.unread
  discard : (c.discard (some n)).1 = none ∧ (c.discard (some n)).2.unread = c.unread
  read : (c.read n).1.length = c.unread.length

theorem agree_of_le (h1 : 1 ≤ n) (hn : n ≤ c.unread.length) : c.Agree n := by
  have hpos : 0 < c.unread.length := Nat.lt_of_lt_of_le h1 hn
  obtain ⟨chunks, hchunks, hflat⟩ := nextVectored_eq h1 hn
  refine ⟨peek_eq hpos hn, nextContiguous_eq hpos hn, ⟨chunks, hchunks, hflat⟩, discard_eq hpos hn,
    ⟨c.read_eq n, by rw [c.read_eq, List.length_take, Nat.min_eq_left hn]⟩, ?_, ?_, ?_, ?_⟩
  · exact (c.nextContiguous_consumes _).rest (by rw [nextContiguous_eq hpos hn]; rfl) hn
  · exact (c.nextVectored_consumes _).rest (by rw [hchunks]; exact hflat) hn
  · exact (c.discard_consumes _).rest (by rw [discard_eq hpos hn]; rfl) hn
  · exact (c.read_consumes n).rest (c.read_eq n) hn

theorem whole_of_pos (hpos : 0 < c.unread.length) : c.Whole c.unread.length where
  peek := by unfold Connection.peek; rw [actualLen_none]
  nextContiguous := by unfold Connection.nextContiguous; rw [actualLen_none]
  nextVectored := by
    have hne : (some c.unread.length : Option Nat) ≠ some 0 := fun h => Nat.ne_of_gt hpos (Option.some.inj h)
    unfold Connection.nextVectored
    rw [actualLen_none, if_neg hne, if_neg (by simp)]
  discard := by unfold Connection.discard; rw [actualLen_none]

theorem refuse_of_lt (h : c.unread.length < n) : c.Refuse n where
  peek := by unfold Connection.peek; rw [actualLen_lt h]
  nextContiguous := by unfold Connection.nextContiguous; rw [actualLen_lt h]; exact ⟨rfl, rfl⟩
  nextVectored := by
    unfold Connection.nextVectored
    rw [if_neg (by simp; omega), actualLen_lt h]
    exact ⟨rfl, rfl⟩
  discard := by unfold Connection.discard; rw [actualLen_lt h]; exact ⟨rfl, rfl⟩
  read := by rw [read_eq, List.take_of_length_le (Nat.le_of_lt h)]

/-- **The accessors agree on every buffer state**: on every number of bytes that are there, on everything, and on every
number of bytes that are not there. -/
theorem accessors_agree (c : Connection κ) :
    (∀ n, 1 ≤ n → n ≤ c.unread.length → c.Agree n) ∧ (0 < c.unread.length → c.Whole c.unread.length) ∧
      ∀ n, c.unread.length < n → c.Refuse n :=
  ⟨fun _ => agree_of_le, whole_of_pos, fun _ => refuse_of_lt⟩

end Connection
end Rnet
