/-
# Byte strings as strings of bits

The bits of a byte string in network order: the highest bit of the first byte comes
first.  A big-endian number is a stretch of it, and so is every field of a header,
whichever word it is read through; two fields of different words may share a byte
and no bit.
-/

import Maja.Lib.BitRange

namespace Maja
namespace Lib

/-- The `k`-th bit of a byte string; zero behind its end. -/
def netBit (bs : List UInt8) (k : ℕ) : Bool := (bs.getD (k / 8) 0).toNat.testBit (7 - k % 8)

variable {as bs : List UInt8} {k n v : ℕ}

/-- A bit of the first part. -/
theorem netBit_append_left (h : k < 8 * as.length) : netBit (as ++ bs) k = netBit as k := by
  unfold netBit
  rw [List.getD_append _ _ _ _ (by omega)]

/-- A bit of the second part. -/
theorem netBit_append_right (h : 8 * as.length ≤ k) :
    netBit (as ++ bs) k = netBit bs (k - 8 * as.length) := by
  have hdiv : k / 8 - as.length = (k - 8 * as.length) / 8 := by omega
  have hmod : k % 8 = (k - 8 * as.length) % 8 := by omega
  unfold netBit
  rw [List.getD_append_right _ _ _ _ (by omega), hdiv, hmod]

/-- A bit behind a number of bytes. -/
theorem netBit_drop (bs : List UInt8) (n k : ℕ) : netBit (bs.drop n) k = netBit bs (8 * n + k) := by
  have hdiv : (8 * n + k) / 8 = n + k / 8 := by omega
  have hmod : (8 * n + k) % 8 = k % 8 := by omega
  unfold netBit
  rw [List.getD_eq_getElem?_getD, List.getElem?_drop, ← List.getD_eq_getElem?_getD, hdiv, hmod]

/-- A bit among the first bytes. -/
theorem netBit_take (h : k < 8 * n) : netBit (bs.take n) k = netBit bs k := by
  unfold netBit
  rw [List.getD_eq_getElem?_getD, List.getElem?_take_of_lt (by omega),
    ← List.getD_eq_getElem?_getD]

/-- **The bits of a big-endian number.**  The induction is on the last byte, which
holds the lowest ones. -/
theorem testBit_beNat (h : k < 8 * bs.length) :
    (beNat bs).testBit k = netBit bs (8 * bs.length - 1 - k) := by
  induction bs using List.reverseRecOn generalizing k with
  | nil => simp at h
  | append_singleton bs b ih =>
    rw [List.length_append, List.length_singleton] at h ⊢
    rw [beNat_concat, show (256 : ℕ) = 2 ^ 8 from rfl, Nat.testBit_two_pow_mul_add _ b.toNat_lt]
    split_ifs with hlow
    · rw [netBit_append_right (by omega), netBit,
        show (8 * (bs.length + 1) - 1 - k - 8 * bs.length) = 7 - k by omega,
        show (7 - k) / 8 = 0 by omega, show 7 - (7 - k) % 8 = k by omega]
      rfl
    · rw [netBit_append_left (by omega), ih (by omega)]
      congr 1
      omega

/-- The bits of the digits of a number. -/
theorem netBit_beBytes (h : k < 8 * n) : netBit (beBytes n v) k = v.testBit (8 * n - 1 - k) := by
  have hlength := length_beBytes n v
  have hbit := testBit_beNat (show 8 * n - 1 - k < 8 * (beBytes n v).length by omega)
  rw [beNat_beBytes, show (256 : ℕ) ^ n = 2 ^ (8 * n) from pow_mul 2 8 n ▸ rfl,
    Nat.testBit_mod_two_pow, hlength, show 8 * n - 1 - (8 * n - 1 - k) = k by omega] at hbit
  rw [← hbit, decide_eq_true (by omega), Bool.true_and]

end Lib
end Maja
