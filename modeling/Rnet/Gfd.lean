import Mathlib.Data.Nat.Bitwise

/-!
# Global file descriptors

`Gfd` packs the index of the event loop and the slab key of a connection into one word and adds a sequence number
drawn from a process-wide counter (`MONO_SEQ`). The counter is a 32-bit atomic; the model keeps the number of
descriptors made so far and truncates it, so the number itself identifies an incarnation for ever and the sequence
number does so while fewer than `2^32` descriptors were made (`seq_inj`).
-/

namespace Rnet

structure Gfd where
  seq : UInt32
  indexInfo : UInt32
  fd : Int
  deriving DecidableEq, Repr

namespace Gfd

/-- `minted` is the number of descriptors made before this one. -/
def new (minted : Nat) (fd : Int) (loopId : UInt8) (token : Nat) : Gfd where
  seq := UInt32.ofNat minted
  indexInfo := (loopId.toUInt32 <<< 24) ||| (UInt32.ofNat token &&& 0xFFFFFF)
  fd := fd

def eventLoopIndex (g : Gfd) : Nat := (g.indexInfo >>> 24).toNat

def slabIndex (g : Gfd) : Nat := (g.indexInfo &&& 0xFFFFFF).toNat

/-- The packed word as a number. -/
theorem indexInfo_new (minted : Nat) (fd : Int) (loopId : UInt8) (token : Nat) :
    (new minted fd loopId token).indexInfo.toNat = loopId.toNat * 2 ^ 24 + token % 2 ^ 24 := by
  have hl : loopId.toNat < 2 ^ 8 := loopId.toNat_lt
  have ht : (UInt32.ofNat token &&& 0xFFFFFF).toNat = token % 2 ^ 24 := by
    have h : (0xFFFFFF : UInt32).toNat = 2 ^ 24 - 1 := rfl
    rw [UInt32.toNat_and, h, Nat.and_two_pow_sub_one_eq_mod, UInt32.toNat_ofNat',
      Nat.mod_mod_of_dvd _ (Nat.pow_dvd_pow 2 (by decide))]
  have hs : (loopId.toUInt32 <<< 24).toNat = loopId.toNat <<< 24 := by
    rw [UInt32.toNat_shiftLeft]
    have h24 : (24 : UInt32).toNat % 32 = 24 := rfl
    rw [h24, UInt8.toNat_toUInt32, Nat.shiftLeft_eq]
    omega
  have hlt : token % 2 ^ 24 < 2 ^ 24 := Nat.mod_lt _ (by decide)
  show ((loopId.toUInt32 <<< 24) ||| (UInt32.ofNat token &&& 0xFFFFFF)).toNat = _
  rw [UInt32.toNat_or, hs, ht, ← Nat.shiftLeft_add_eq_or_of_lt hlt, Nat.shiftLeft_eq]

/-- The loop index is read back. -/
@[simp] theorem eventLoopIndex_new (minted : Nat) (fd : Int) (loopId : UInt8) (token : Nat) :
    (new minted fd loopId token).eventLoopIndex = loopId.toNat := by
  unfold eventLoopIndex
  rw [UInt32.toNat_shiftRight, indexInfo_new]
  have h24 : (24 : UInt32).toNat % 32 = 24 := rfl
  rw [h24, Nat.shiftRight_eq_div_pow]
  have := Nat.mod_lt token (show 0 < 2 ^ 24 by decide)
  omega

/-- The slab key is read back modulo `2^24`. -/
@[simp] theorem slabIndex_new (minted : Nat) (fd : Int) (loopId : UInt8) (token : Nat) :
    (new minted fd loopId token).slabIndex = token % 2 ^ 24 := by
  unfold slabIndex
  have h : (0xFFFFFF : UInt32).toNat = 2 ^ 24 - 1 := rfl
  rw [UInt32.toNat_and, indexInfo_new, h, Nat.and_two_pow_sub_one_eq_mod]
  omega

/-- Sequence numbers tell the first `2^32` descriptors apart. -/
theorem seq_inj {m n : Nat} {fd fd' : Int} {i i' : UInt8} {t t' : Nat} (hm : m < 2 ^ 32) (hn : n < 2 ^ 32)
    (h : new m fd i t = new n fd' i' t') : m = n := by
  have hs := congrArg (fun g => g.seq.toNat) h
  simp only [new, UInt32.toNat_ofNat'] at hs
  omega

end Gfd
end Rnet
