/-
# One's-complement sums of 16-bit words

Addition with end-around carry, as the Internet checksum uses it.  It has two zeros,
`0` and `0xFFFF`; a sum is `0` only if all its words are, so a sum of words is a
function of the plain sum of their numbers (`onesSum_eq`): `ones`, the
representative of that sum modulo `0xFFFF` among `1, …, 0xFFFF`.  A large
accumulator, whose carries are folded in at the end, comes to the same
(`ones_fold`).
-/

import Maja.Lib.Word

namespace Maja
namespace Lib

/-- The sum of two words, with the carry added at the low end. -/
def onesAdd (a b : ℕ) : ℕ := if a + b < 2 ^ 16 then a + b else a + b - 2 ^ 16 + 1

/-- The one's-complement sum of a list of words. -/
def onesSum (words : List ℕ) : ℕ := words.foldl onesAdd 0

/-- The word that stands for a number: zero for zero, and otherwise its remainder
modulo `0xFFFF`, with `0xFFFF` for a remainder of zero. -/
def ones (n : ℕ) : ℕ := if n = 0 then 0 else (n - 1) % 0xFFFF + 1

/-- A ones' complement sum fits 16 bits. -/
theorem ones_le (n : ℕ) : ones n ≤ 0xFFFF := by
  unfold ones
  split_ifs <;> omega

/-- The sum of nothing is zero. -/
@[simp] theorem ones_zero : ones 0 = 0 := rfl

/-- Other sums are never zero: a multiple of `0xFFFF` is written as `0xFFFF`. -/
theorem ones_pos {n : ℕ} (h : n ≠ 0) : ones n = (n - 1) % 0xFFFF + 1 := if_neg h

/-- A word stands for itself. -/
theorem ones_of_le {n : ℕ} (h : n ≤ 0xFFFF) : ones n = n := by
  by_cases hn : n = 0
  · rw [hn, ones_zero]
  · rw [ones_pos hn]
    omega

/-- Words are added as the numbers they stand for. -/
theorem onesAdd_ones (a b : ℕ) : onesAdd (ones a) (ones b) = ones (a + b) := by
  by_cases ha : a = 0
  · have hle := ones_le b
    rw [ha, ones_zero, Nat.zero_add, onesAdd, Nat.zero_add, if_pos (by omega)]
  · have hsum : a + b ≠ 0 := by omega
    rw [onesAdd, ones_pos hsum, ones_pos ha]
    unfold ones
    split_ifs <;> omega

/-- The carries may be folded in at any time. -/
theorem ones_fold (n : ℕ) : ones (n % 2 ^ 16 + n / 2 ^ 16) = ones n := by
  unfold ones
  split_ifs <;> omega

/-- A number may be added in two halves. -/
theorem ones_add_halves (m n : ℕ) : ones (m + (n / 2 ^ 16 + n % 2 ^ 16)) = ones (m + n) := by
  unfold ones
  split_ifs <;> omega

/-- What a word must be for a sum to be all ones. -/
theorem ones_add_eq_iff {n word : ℕ} (h : word < 0xFFFF) :
    ones (n + word) = 0xFFFF ↔ word = 0xFFFF - ones n := by
  by_cases hn : n = 0
  · rw [hn, Nat.zero_add, ones_zero, ones_of_le h.le]
  · have hsum : n + word ≠ 0 := by omega
    rw [ones_pos hsum, ones_pos hn]
    omega

/-- **A sum of words** is the word that their plain sum stands for. -/
theorem onesSum_eq {words : List ℕ} (h : ∀ word ∈ words, word ≤ 0xFFFF) :
    onesSum words = ones words.sum := by
  have hfold : ∀ n, words.foldl onesAdd (ones n) = ones (n + words.sum) := by
    induction words with
    | nil => simp
    | cons word words ih =>
      obtain ⟨hword, hwords⟩ := List.forall_mem_cons.1 h
      intro n
      rw [List.foldl_cons, ← ones_of_le hword, onesAdd_ones, ih hwords, ones_of_le hword,
        List.sum_cons, Nat.add_assoc]
  have hzero := hfold 0
  rwa [Nat.zero_add, ones_of_le (Nat.zero_le _)] at hzero

/-! ### Words of bytes -/

/-- The big-endian words of a byte string, an odd byte at the end padded with zero. -/
def words : List UInt8 → List ℕ
  | high :: low :: data => beNat [high, low] :: words data
  | [high] => [beNat [high, 0]]
  | [] => []

/-- Every word is one. -/
theorem words_le (data : List UInt8) : ∀ word ∈ words data, word ≤ 0xFFFF := by
  have hpair : ∀ high low : UInt8, beNat [high, low] ≤ 0xFFFF := by
    intro high low
    have hlt : beNat [high, low] < 256 ^ 2 := beNat_lt [high, low]
    omega
  induction data using words.induct with
  | case1 high low data ih => exact List.forall_mem_cons.2 ⟨hpair high low, ih⟩
  | case2 high => exact List.forall_mem_cons.2 ⟨hpair high 0, by simp⟩
  | case3 => simp [words]

/-- Word boundaries fall together behind an even number of bytes. -/
theorem words_append {front : List UInt8} (heven : Even front.length) (rest : List UInt8) :
    words (front ++ rest) = words front ++ words rest := by
  induction front using words.induct with
  | case1 high low data ih =>
    have heven' : Even data.length := by
      simpa [Nat.even_add_one] using heven
    rw [List.cons_append, List.cons_append, words, ih heven', words, List.cons_append]
  | case2 high => exact absurd heven (by simp)
  | case3 => rfl

/-- The words of `n` bytes are half as many. -/
theorem sum_words_le (data : List UInt8) :
    (words data).sum ≤ (data.length + 1) / 2 * 0xFFFF := by
  induction data using words.induct with
  | case1 high low data ih =>
    have hword := words_le (high :: low :: data) (beNat [high, low]) (by simp [words])
    rw [words, List.sum_cons]
    simp only [List.length_cons]
    omega
  | case2 high =>
    have hword := words_le [high] (beNat [high, 0]) (by simp [words])
    simpa [words] using hword
  | case3 => simp [words]

end Lib
end Maja
