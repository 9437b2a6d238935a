/-
# Whole numbers as doubles

A whole number that becomes an `f64` keeps its 53 highest bits: it is rounded to the
nearest number that has no others, a half to the even one (`asF64`).  On the way back
to a `u64` it is cut off at the largest (`U64.ofF64`).
-/

import Mathlib.Algebra.Order.Ring.Int
import Mathlib.Tactic.Linarith

namespace Maja
namespace Lib

/-- `n / 2 ^ e` as a whole number, a half rounded to the even one. -/
def roundHalfEven (n e : ℕ) : ℕ :=
  let quotient := n / 2 ^ e
  let twice := 2 * (n % 2 ^ e)
  if 2 ^ e < twice ∨ 2 ^ e = twice ∧ quotient % 2 = 1 then quotient + 1 else quotient

/-- The value of `n as f64`. -/
def asF64 (n : ℕ) : ℕ := roundHalfEven n (n.log2 - 52) * 2 ^ (n.log2 - 52)

/-- `x as u64`, of an `f64` that is a whole number. -/
def U64.ofF64 (x : ℕ) : UInt64 := .ofNat (min x (2 ^ 64 - 1))

/-- Rounding does not go below the quotient. -/
theorem div_le_roundHalfEven (n e : ℕ) : n / 2 ^ e ≤ roundHalfEven n e := by
  unfold roundHalfEven
  dsimp only
  split_ifs <;> omega

/-- Numbers of at most 53 bits are exact. -/
theorem asF64_of_lt {n : ℕ} (h : n < 2 ^ 53) : asF64 n = n := by
  have hlow : n.log2 - 52 = 0 := by
    by_cases hn : n = 0
    · rw [hn]
      rfl
    · have := (Nat.log2_lt hn).2 h
      omega
  rw [asF64, hlow, roundHalfEven, Nat.pow_zero, Nat.mod_one, Nat.div_one, if_neg (by omega),
    Nat.mul_one]

/-- Only zero is rounded to zero. -/
theorem asF64_eq_zero_iff {n : ℕ} : asF64 n = 0 ↔ n = 0 := by
  constructor
  · intro h
    by_contra hn
    have hpow : 0 < 2 ^ (n.log2 - 52) := Nat.two_pow_pos _
    have hle : 2 ^ (n.log2 - 52) ≤ n :=
      (Nat.pow_le_pow_right (by omega) (Nat.sub_le ..)).trans (Nat.log2_self_le hn)
    have hquotient : 0 < n / 2 ^ (n.log2 - 52) := Nat.div_pos hle hpow
    exact (Nat.mul_pos (hquotient.trans_le (div_le_roundHalfEven ..)) hpow).ne' h
  · rintro rfl
    rfl

/-- A word of at most 53 bits comes back. -/
theorem U64.ofF64_asF64 {n : UInt64} (h : n.toNat < 2 ^ 53) : ofF64 (asF64 n.toNat) = n := by
  have hsmall : min n.toNat (2 ^ 64 - 1) = n.toNat := Nat.min_eq_left (by omega)
  rw [ofF64, asF64_of_lt h, hsmall, UInt64.ofNat_toNat]

-- the two sides of a half, and the cut at the end
example : [2 ^ 53 + 1, 2 ^ 53 + 3, 2 ^ 63 - 1, 2 ^ 64 - 1].map (fun n => U64.ofF64 (asF64 n)) =
    [2 ^ 53, 2 ^ 53 + 4, 2 ^ 63, 2 ^ 64 - 1] := by decide +kernel

end Lib
end Maja
