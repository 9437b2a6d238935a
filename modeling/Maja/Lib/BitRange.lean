/-
# Bit ranges of a number

The bits `lo, …, lo + width - 1` of a number, read (`cutBits`) and written
(`pasteBits`).  A write keeps the bits outside the range, as far as the complement of
the range's mask reaches: it is taken at a fixed width, and the bits from there on
are lost (`testBit_pasteBits`).
-/

import Maja.Lib.Word
import Mathlib.Data.Nat.Bitwise

namespace Maja
namespace Lib

/-- The mask of the range. -/
def bitMask (lo width : ℕ) : ℕ := (2 ^ width - 1) <<< lo

/-- The number in the range. -/
def cutBits (lo width word : ℕ) : ℕ := (word &&& bitMask lo width) >>> lo

/-- The word with another number in the range; the complement of the mask is taken at
`reach` bits. -/
def pasteBits (reach lo width word value : ℕ) : ℕ :=
  (word &&& ((2 ^ reach - 1) ^^^ bitMask lo width)) ||| ((value <<< lo) &&& bitMask lo width)

variable {reach lo width lo' width' word value value' j : ℕ}

/-- A mask has the bits of its range. -/
theorem testBit_bitMask (lo width j : ℕ) :
    (bitMask lo width).testBit j = decide (lo ≤ j ∧ j < lo + width) := by
  rw [bitMask, Nat.testBit_shiftLeft, Nat.testBit_two_pow_sub_one, Bool.decide_and]
  by_cases h : lo ≤ j
  · have hiff : j - lo < width ↔ j < lo + width := by omega
    simp [h, hiff]
  · simp [h]

/-- The bits of the number in the range. -/
theorem testBit_cutBits : (cutBits lo width word).testBit j =
    (decide (j < width) && word.testBit (lo + j)) := by
  have hiff : (lo ≤ lo + j ∧ lo + j < lo + width) ↔ j < width := by omega
  rw [cutBits, Nat.testBit_shiftRight, Nat.testBit_and, testBit_bitMask, Bool.and_comm]
  simp only [hiff]

/-- **The bits after a write.** -/
theorem testBit_pasteBits (h : lo + width ≤ reach) : (pasteBits reach lo width word value).testBit j =
    if lo ≤ j ∧ j < lo + width then value.testBit (j - lo)
    else word.testBit j && decide (j < reach) := by
  rw [pasteBits, Nat.testBit_or, Nat.testBit_and, Nat.testBit_xor, Nat.testBit_two_pow_sub_one,
    Nat.testBit_and, Nat.testBit_shiftLeft, testBit_bitMask]
  split_ifs with hin
  · have hreach : j < reach := by omega
    simp [hin, hreach]
  · simp [hin]

/-- A write in the range is read back, cut to the range. -/
theorem cutBits_pasteBits (h : lo + width ≤ reach) :
    cutBits lo width (pasteBits reach lo width word value) = value % 2 ^ width := by
  refine Nat.eq_of_testBit_eq fun j => ?_
  rw [testBit_cutBits, testBit_pasteBits h, Nat.testBit_mod_two_pow]
  by_cases hj : j < width
  · rw [if_pos (by omega), Nat.add_sub_cancel_left]
  · simp [hj]

/-- Within reach, a write keeps the bits outside the range. -/
theorem testBit_pasteBits_outside (h : lo + width ≤ reach) (hword : word < 2 ^ reach)
    (hj : ¬(lo ≤ j ∧ j < lo + width)) :
    (pasteBits reach lo width word value).testBit j = word.testBit j := by
  rw [testBit_pasteBits h, if_neg hj]
  by_cases hreach : j < reach
  · simp [hreach]
  · have hzero : word.testBit j = false := Nat.testBit_lt_two_pow
      (hword.trans_le (Nat.pow_le_pow_right (by norm_num) (by omega)))
    simp [hzero]

/-- Beyond reach, it does not. -/
theorem exists_testBit_pasteBits_ne (h : lo + width ≤ reach) (hword : 2 ^ reach ≤ word)
    (value : ℕ) : ∃ j, ¬(lo ≤ j ∧ j < lo + width) ∧
      (pasteBits reach lo width word value).testBit j ≠ word.testBit j := by
  obtain ⟨j, hj, hbit⟩ := Nat.exists_ge_and_testBit_of_ge_two_pow hword
  have hout : ¬(lo ≤ j ∧ j < lo + width) := by omega
  refine ⟨j, hout, ?_⟩
  rw [testBit_pasteBits h, if_neg hout, hbit]
  simpa using hj

/-- Writing what was read changes nothing. -/
theorem pasteBits_cutBits (h : lo + width ≤ reach) (hword : word < 2 ^ reach) :
    pasteBits reach lo width word (cutBits lo width word) = word := by
  refine Nat.eq_of_testBit_eq fun j => ?_
  by_cases hj : lo ≤ j ∧ j < lo + width
  · have hwidth : j - lo < width := by omega
    rw [testBit_pasteBits h, if_pos hj, testBit_cutBits, Nat.add_sub_cancel' hj.1]
    simp [hwidth]
  · exact testBit_pasteBits_outside h hword hj

/-- Writes in disjoint ranges commute. -/
theorem pasteBits_comm (h : lo + width ≤ reach) (h' : lo' + width' ≤ reach)
    (hdisjoint : lo + width ≤ lo' ∨ lo' + width' ≤ lo) :
    pasteBits reach lo' width' (pasteBits reach lo width word value) value' =
      pasteBits reach lo width (pasteBits reach lo' width' word value') value := by
  refine Nat.eq_of_testBit_eq fun j => ?_
  simp only [testBit_pasteBits h, testBit_pasteBits h']
  by_cases hj : lo ≤ j ∧ j < lo + width
  · have hj' : ¬(lo' ≤ j ∧ j < lo' + width') := by omega
    have hreach : j < reach := by omega
    simp [hj, hj', hreach]
  · by_cases hj' : lo' ≤ j ∧ j < lo' + width'
    · have hreach : j < reach := by omega
      simp [hj, hj', hreach]
    · simp [hj, hj']

/-- A write stays below a bound that the word and the range are below. -/
theorem pasteBits_lt {bits : ℕ} (h : lo + width ≤ reach) (hbits : lo + width ≤ bits)
    (hword : word < 2 ^ bits) : pasteBits reach lo width word value < 2 ^ bits := by
  refine Nat.lt_pow_two_of_testBit _ fun j hj => ?_
  have hzero : word.testBit j = false := Nat.testBit_lt_two_pow
    (hword.trans_le (Nat.pow_le_pow_right (by norm_num) hj))
  rw [testBit_pasteBits h, if_neg (by omega), hzero, Bool.false_and]

/-! ### Bytes -/

/-- The bits of a number with one more byte. -/
theorem and_byte (a b : ℕ) {x y : ℕ} (hx : x < 256) (hy : y < 256) :
    (256 * a + x) &&& (256 * b + y) = 256 * (a &&& b) + (x &&& y) := by
  have hxy : x &&& y < 2 ^ 8 := Nat.and_lt_two_pow x hy
  refine Nat.eq_of_testBit_eq fun j => ?_
  rw [show (256 : ℕ) = 2 ^ 8 from rfl, Nat.testBit_and, Nat.testBit_two_pow_mul_add a hx,
    Nat.testBit_two_pow_mul_add b hy, Nat.testBit_two_pow_mul_add (a &&& b) hxy]
  split_ifs <;> simp

/-- The union of two numbers, byte by byte. -/
theorem or_byte (a b : ℕ) {x y : ℕ} (hx : x < 256) (hy : y < 256) :
    (256 * a + x) ||| (256 * b + y) = 256 * (a ||| b) + (x ||| y) := by
  have hxy : x ||| y < 2 ^ 8 := Nat.or_lt_two_pow hx hy
  refine Nat.eq_of_testBit_eq fun j => ?_
  rw [show (256 : ℕ) = 2 ^ 8 from rfl, Nat.testBit_or, Nat.testBit_two_pow_mul_add a hx,
    Nat.testBit_two_pow_mul_add b hy, Nat.testBit_two_pow_mul_add (a ||| b) hxy]
  split_ifs <;> simp

/-- Byte strings of one length are combined byte by byte. -/
theorem beNat_zipWith {op : UInt8 → UInt8 → UInt8} {f : ℕ → ℕ → ℕ} (hzero : f 0 0 = 0)
    (hbyte : ∀ (a b : ℕ) (x y : UInt8), f (256 * a + x.toNat) (256 * b + y.toNat) =
      256 * f a b + (op x y).toNat) {as bs : List UInt8} (h : as.length = bs.length) :
    beNat (List.zipWith op as bs) = f (beNat as) (beNat bs) := by
  induction as using List.reverseRecOn generalizing bs with
  | nil =>
    obtain rfl := List.length_eq_zero_iff.1 h.symm
    exact hzero.symm
  | append_singleton as x ih =>
    obtain ⟨bs, y, rfl⟩ : ∃ bs' y, bs = bs' ++ [y] := by
      refine ⟨bs.dropLast, bs.getLast ?_, (List.dropLast_concat_getLast _).symm⟩
      rintro rfl
      simp at h
    have hlen : as.length = bs.length := by simpa using h
    rw [List.zipWith_append hlen, List.zipWith_cons_cons, List.zipWith_nil_left, beNat_concat,
      beNat_concat, beNat_concat, hbyte, ih hlen]

/-- The intersection of two byte strings is that of their numbers. -/
theorem beNat_and {as bs : List UInt8} (h : as.length = bs.length) :
    beNat (List.zipWith (· &&& ·) as bs) = beNat as &&& beNat bs :=
  beNat_zipWith (f := (· &&& ·)) rfl
    (fun a b x y => by rw [and_byte a b x.toNat_lt y.toNat_lt, UInt8.toNat_and]) h

/-- The union of two byte strings is that of their numbers. -/
theorem beNat_or {as bs : List UInt8} (h : as.length = bs.length) :
    beNat (List.zipWith (· ||| ·) as bs) = beNat as ||| beNat bs :=
  beNat_zipWith (f := (· ||| ·)) rfl
    (fun a b x y => by rw [or_byte a b x.toNat_lt y.toNat_lt, UInt8.toNat_or]) h

/-- The digits of a number are those of its remainder. -/
theorem beBytes_mod (n v : ℕ) : beBytes n (v % 256 ^ n) = beBytes n v := by
  induction n generalizing v with
  | zero => rfl
  | succ n ih =>
    have hdiv : v % 256 ^ (n + 1) / 256 = v / 256 % 256 ^ n := by
      rw [Nat.pow_succ, Nat.mul_comm, Nat.mod_mul_right_div_self]
    have hlow : UInt8.ofNat (v % 256 ^ (n + 1)) = UInt8.ofNat v := by
      have hmod : v % 256 ^ (n + 1) % 256 = v % 256 :=
        Nat.mod_mod_of_dvd v (dvd_pow_self 256 (Nat.succ_ne_zero n))
      exact UInt8.toNat_inj.1 (by simp [hmod])
    rw [beBytes, beBytes, hdiv, ih, hlow]

/-- A byte string is the digits of its number. -/
theorem beBytes_beNat (bs : List UInt8) : beBytes bs.length (beNat bs) = bs := by
  induction bs using List.reverseRecOn with
  | nil => rfl
  | append_singleton bs b ih =>
    have hb := b.toNat_lt
    have hdiv : (256 * beNat bs + b.toNat) / 256 = beNat bs := by omega
    have hlow : UInt8.ofNat (256 * beNat bs + b.toNat) = b :=
      UInt8.toNat_inj.1 (by simp)
    rw [List.length_append, List.length_singleton, beBytes, beNat_concat, hdiv, ih, hlow]

/-- Leading zeros do not count. -/
theorem beNat_replicate_zero_append (n : ℕ) (bs : List UInt8) :
    beNat (List.replicate n 0 ++ bs) = beNat bs := by
  induction bs using List.reverseRecOn with
  | nil =>
    rw [List.append_nil]
    induction n with
    | zero => rfl
    | succ n ih => rw [List.replicate_succ', beNat_concat, ih]; rfl
  | append_singleton bs b ih => rw [← List.append_assoc, beNat_concat, beNat_concat, ih]

/-- The last digits of a number. -/
theorem drop_beBytes (m n v : ℕ) : (beBytes (m + n) v).drop m = beBytes n v := by
  induction n generalizing v with
  | zero => exact List.drop_of_length_le (by simp)
  | succ n ih =>
    rw [← Nat.add_assoc, beBytes, beBytes, List.drop_append_of_le_length (by simp), ih]

end Lib
end Maja
