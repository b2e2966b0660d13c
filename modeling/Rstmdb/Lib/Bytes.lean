import Mathlib

/-! Fixed-width big-endian integers as lists of bytes. -/
namespace Rstmdb

abbrev Bytes := List UInt8

namespace Bytes

/-- The `k` low-order bytes of `n`, most significant first. -/
def putBE : Nat → Nat → Bytes
  | 0, _ => []
  | k + 1, n => UInt8.ofNat (n / 256 ^ k) :: putBE k n

/-- The number a big-endian byte string denotes. -/
def getBE : Bytes → Nat
  | [] => 0
  | b :: bs => b.toNat * 256 ^ bs.length + getBE bs

@[simp] theorem length_putBE (k n : Nat) : (putBE k n).length = k := by
  induction k with
  | zero => rfl
  | succ k ih => simp [putBE, ih]

theorem getBE_putBE (k n : Nat) : getBE (putBE k n) = n % 256 ^ k := by
  induction k with
  | zero => simp [putBE, getBE, Nat.mod_one]
  | succ k ih =>
    have hb : (UInt8.ofNat (n / 256 ^ k)).toNat = n / 256 ^ k % 256 := by
      simp [UInt8.toNat_ofNat']
    rw [putBE, getBE, hb, ih, length_putBE, Nat.pow_succ, Nat.mod_mul]
    ring

/-- A number below `256 ^ k` survives being written in `k` bytes. -/
theorem getBE_putBE_of_lt {k n : Nat} (h : n < 256 ^ k) : getBE (putBE k n) = n := by
  rw [getBE_putBE, Nat.mod_eq_of_lt h]

end Bytes

end Rstmdb
