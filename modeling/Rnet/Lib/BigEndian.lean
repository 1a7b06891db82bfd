import Mathlib.Algebra.Group.Nat.Defs
import Mathlib.Data.List.Induction

/-!
# Big-endian numbers

`toBytes k n` are the last `k` bytes of `n`, the highest first, and `ofBytes` reads them. What is read back is `n`
modulo `256 ^ k` (`ofBytes_toBytes`); bytes read are written as they were (`toBytes_ofBytes`).
-/

namespace BigEndian

def toBytes : Nat → Nat → List UInt8
  | 0, _ => []
  | k + 1, n => toBytes k (n / 256) ++ [UInt8.ofNat n]

def ofBytes (bs : List UInt8) : Nat := bs.foldl (fun n b => 256 * n + b.toNat) 0

theorem ofBytes_append_singleton (bs : List UInt8) (b : UInt8) : ofBytes (bs ++ [b]) = 256 * ofBytes bs + b.toNat := by
  rw [ofBytes, List.foldl_append]
  rfl

theorem length_toBytes (k n : Nat) : (toBytes k n).length = k := by
  induction k generalizing n with
  | zero => rfl
  | succ k ih => rw [toBytes, List.length_append, ih, List.length_singleton]

/-- **What is written is read back**, as far as it fits. -/
theorem ofBytes_toBytes (k n : Nat) : ofBytes (toBytes k n) = n % 256 ^ k := by
  induction k generalizing n with
  | zero => rw [Nat.pow_zero, Nat.mod_one]; rfl
  | succ k ih =>
    have hbyte : (UInt8.ofNat n).toNat = n % 256 := UInt8.toNat_ofNat'
    rw [toBytes, ofBytes_append_singleton, ih, hbyte, Nat.pow_succ', Nat.mod_mul]
    omega

theorem ofBytes_lt (bs : List UInt8) : ofBytes bs < 256 ^ bs.length := by
  induction bs using List.reverseRecOn with
  | nil => decide
  | append_singleton bs b ih =>
    have hb : b.toNat < 256 := b.toNat_lt
    rw [ofBytes_append_singleton, List.length_append, List.length_singleton, Nat.pow_succ]
    omega

/-- **What is read is written as it was.** -/
theorem toBytes_ofBytes (bs : List UInt8) : toBytes bs.length (ofBytes bs) = bs := by
  induction bs using List.reverseRecOn with
  | nil => rfl
  | append_singleton bs b ih =>
    have hb : b.toNat < 256 := b.toNat_lt
    have hdiv : (256 * ofBytes bs + b.toNat) / 256 = ofBytes bs := by omega
    have hmod : UInt8.ofNat (256 * ofBytes bs + b.toNat) = b := by
      apply UInt8.toNat_inj.mp
      rw [UInt8.toNat_ofNat']
      omega
    rw [List.length_append, List.length_singleton, ofBytes_append_singleton, toBytes, hdiv, hmod, ih]

end BigEndian
