/-
# The Internet checksum

The functions of `src/packet/utils/checksum.rs` against the definition of the
Internet checksum: the complement of the one's-complement sum of the 16-bit words of
a byte string, which for a transport checksum starts with the pseudo header.

The code adds plain numbers in a `u32` and folds the carries in at the end, and it
adds the length of the pseudo header as one number.  Neither makes a difference
(`rfc1071_eq`) as long as the `u32` holds the sum: `accumulators_fit_iff`.
-/

import Maja.Lib.OnesComplement
import Maja.Packet.Checksum

namespace Maja
namespace Packet

open Lib

variable {ε : Type}

/-! ### The plain functions -/

/-- `internet_checksum`. -/
def internetChecksum (checks : Bool) (data : List UInt8) : Outcome ε ℕ := do
  let sum ← addWords checks 0 data
  pure (foldChecksum sum)

/-- `ipv4_transport_checksum`. -/
def ipv4TransportChecksum (checks : Bool) (src dst protocol : ℕ) (segment : List UInt8) :
    Outcome ε ℕ := do
  let sum ← addWords checks 0 (beBytes 4 src)
  let sum ← addWords checks sum (beBytes 4 dst)
  let sum ← U32.arith checks (sum + protocol)
  let sum ← U32.arith checks (sum + segment.length % 2 ^ 32)
  let sum ← addWords checks sum segment
  pure (foldChecksum sum)

/-- `ipv6_transport_checksum`. -/
def ipv6TransportChecksum (checks : Bool) (src dst nextHeader : ℕ) (segment : List UInt8) :
    Outcome ε ℕ := do
  let sum ← addWords checks 0 (beBytes 16 src)
  let sum ← addWords checks sum (beBytes 16 dst)
  let sum ← U32.arith checks (sum + segment.length % 2 ^ 32)
  let sum ← U32.arith checks (sum + nextHeader)
  let sum ← addWords checks sum segment
  pure (foldChecksum sum)

/-! ### The definition -/

/-- The Internet checksum of a byte string. -/
def rfc1071 (bytes : List UInt8) : ℕ := 0xFFFF - onesSum (words bytes)

/-- The data with a range of it set to zero. -/
def zeroing (zeroed : ℕ × ℕ) (data : List UInt8) : List UInt8 :=
  data.mapIdx fun index b => unlessZeroed zeroed index b

/-- Zeroing a range keeps the length. -/
@[simp] theorem length_zeroing (zeroed : ℕ × ℕ) (data : List UInt8) :
    (zeroing zeroed data).length = data.length := List.length_mapIdx

/-- The pseudo header of IPv4. -/
def pseudoIpv4 (src dst : ℕ) (protocol : UInt8) (length : ℕ) : List UInt8 :=
  beBytes 4 src ++ (beBytes 4 dst ++ ([0, protocol] ++ beBytes 2 length))

/-- The pseudo header of IPv6. -/
def pseudoIpv6 (src dst : ℕ) (nextHeader : UInt8) (length : ℕ) : List UInt8 :=
  beBytes 16 src ++ (beBytes 16 dst ++ (beBytes 4 length ++ [0, 0, 0, nextHeader]))

/-! ### Accumulating -/

/-- `*sum += n` for one number after the other. -/
def addAll (checks : Bool) : ℕ → List ℕ → Outcome ε ℕ
  | sum, [] => .ok sum
  | sum, n :: ns => do
    let sum ← U32.arith checks (sum + n)
    addAll checks sum ns

/-- Adding words, and words behind them. -/
theorem addAll_append (checks : Bool) (sum : ℕ) (ns ms : List ℕ) :
    (addAll checks sum (ns ++ ms) : Outcome ε ℕ) =
      addAll checks sum ns >>= fun sum => addAll checks sum ms := by
  induction ns generalizing sum with
  | nil => rfl
  | cons n ns ih =>
    rw [List.cons_append, addAll, addAll, Outcome.bind_assoc]
    exact congrArg _ (funext fun sum => ih sum)

/-- Adding one number. -/
theorem arith_eq_addAll (checks : Bool) (sum n : ℕ) :
    (U32.arith checks (sum + n) : Outcome ε ℕ) = addAll checks sum [n] := by
  rw [addAll]
  cases (U32.arith checks (sum + n) : Outcome ε ℕ) <;> rfl

/-- Adding bytes is adding their words. -/
theorem addWords_eq_addAll (checks : Bool) (sum : ℕ) (data : List UInt8) :
    (addWords checks sum data : Outcome ε ℕ) = addAll checks sum (words data) := by
  induction sum, data using addWords.induct with
  | case1 sum high low data ih =>
    rw [addWords, words, addAll]
    exact congrArg _ (funext fun sum => ih sum)
  | case2 sum high => rw [addWords, words, arith_eq_addAll]
  | case3 sum => rfl

/-- The loop that skips a range adds the words of the zeroed data. -/
theorem addWordsZeroing_eq_addAll (checks : Bool) (zeroed : ℕ × ℕ) (sum : ℕ)
    (data : List UInt8) :
    (addWordsZeroing checks zeroed 0 sum data : Outcome ε ℕ) =
      addAll checks sum (words (zeroing zeroed data)) := by
  rw [addWordsZeroing_eq, addWords_eq_addAll]
  simp only [Nat.zero_add]
  rfl

/-- A sum that fits is the plain sum, in every build. -/
theorem addAll_of_lt {checks : Bool} {sum : ℕ} {ns : List ℕ} (h : sum + ns.sum < 2 ^ 32) :
    (addAll checks sum ns : Outcome ε ℕ) = .ok (sum + ns.sum) := by
  induction ns generalizing sum with
  | nil => rfl
  | cons n ns ih =>
    rw [List.sum_cons, ← Nat.add_assoc] at h ⊢
    have hnot : ¬(checks = true ∧ 2 ^ 32 ≤ sum + n) := fun hover => by omega
    rw [addAll, U32.arith, if_neg hnot, Nat.mod_eq_of_lt (by omega), Outcome.ok_bind, ih h]

/-- A sum that does not fit panics, in a build with overflow checks. -/
theorem addAll_panic {sum : ℕ} {ns : List ℕ} (hsum : sum < 2 ^ 32) (h : 2 ^ 32 ≤ sum + ns.sum) :
    (addAll true sum ns : Outcome ε ℕ) = .panic := by
  induction ns generalizing sum with
  | nil =>
    rw [List.sum_nil] at h
    omega
  | cons n ns ih =>
    rw [List.sum_cons, ← Nat.add_assoc] at h
    rw [addAll, U32.arith]
    by_cases hover : 2 ^ 32 ≤ sum + n
    · rw [if_pos ⟨rfl, hover⟩]
      rfl
    · rw [if_neg (fun h => hover h.2), Nat.mod_eq_of_lt (by omega), Outcome.ok_bind]
      exact ih (by omega) h

/-- Without them, it wraps. -/
theorem addAll_false (sum : ℕ) (hsum : sum < 2 ^ 32) (ns : List ℕ) :
    (addAll false sum ns : Outcome ε ℕ) = .ok ((sum + ns.sum) % 2 ^ 32) := by
  induction ns generalizing sum with
  | nil => rw [addAll, List.sum_nil, Nat.add_zero, Nat.mod_eq_of_lt hsum]
  | cons n ns ih =>
    rw [addAll, U32.arith, if_neg (by simp), Outcome.ok_bind,
      ih _ (Nat.mod_lt _ (by norm_num)), Nat.mod_add_mod, List.sum_cons, Nat.add_assoc]

/-! ### Folding -/

/-- Folding ends at the word that stands for the sum. -/
theorem foldSum_eq {fuel sum : ℕ} (h : sum ≤ fuel) : foldSum fuel sum = ones sum := by
  induction fuel generalizing sum with
  | zero =>
    obtain rfl : sum = 0 := by omega
    rfl
  | succ fuel ih =>
    have hdiv : sum >>> 16 = sum / 2 ^ 16 := Nat.shiftRight_eq_div_pow sum 16
    have hmod : sum &&& 0xFFFF = sum % 2 ^ 16 := Nat.and_two_pow_sub_one_eq_mod sum 16
    rw [foldSum, hdiv, hmod]
    split_ifs with hmore
    · rw [ih (by omega), ones_fold]
    · rw [ones_of_le (by omega)]

/-- Folding the carries and complementing is the complement of the ones' complement sum. -/
theorem foldChecksum_eq (sum : ℕ) : foldChecksum sum = 0xFFFF - ones sum := by
  have hle := ones_le sum
  rw [foldChecksum, foldSum_eq le_rfl, Nat.mod_eq_of_lt (by omega)]

/-- What is left after the terms have been added up. -/
theorem addAll_fold_of_lt {checks : Bool} {ns : List ℕ} (h : ns.sum < 2 ^ 32) :
    (addAll checks 0 ns >>= fun sum => pure (foldChecksum sum) : Outcome ε ℕ) =
      .ok (0xFFFF - ones ns.sum) := by
  rw [addAll_of_lt (by omega), Outcome.ok_bind, Nat.zero_add, foldChecksum_eq]
  rfl

/-- The checksum is the defined one in every build exactly when the sum fits. -/
theorem addAll_fold_iff {ns : List ℕ} {checksum : ℕ} (hchecksum : checksum = 0xFFFF - ones ns.sum) :
    (∀ checks, (addAll checks 0 ns >>= fun sum => pure (foldChecksum sum) : Outcome ε ℕ) =
      .ok checksum) ↔ ns.sum < 2 ^ 32 := by
  constructor
  · intro h
    by_contra hover
    have hpanic := h true
    rw [addAll_panic (by norm_num) (by omega)] at hpanic
    cases hpanic
  · intro h checks
    rw [addAll_fold_of_lt h, hchecksum]

/-! ### The terms of each sum -/

/-- What is added up for an IPv4 transport checksum. -/
def ipv4Terms (src dst protocol length : ℕ) (data : List UInt8) : List ℕ :=
  words (beBytes 4 src) ++ (words (beBytes 4 dst) ++ ([protocol] ++ ([length % 2 ^ 32] ++
    words data)))

/-- What is added up for an IPv6 transport checksum. -/
def ipv6Terms (src dst nextHeader length : ℕ) (data : List UInt8) : List ℕ :=
  words (beBytes 16 src) ++ (words (beBytes 16 dst) ++ ([length % 2 ^ 32] ++ ([nextHeader] ++
    words data)))

section Terms

variable (checks : Bool) (src dst protocol : ℕ) (data : List UInt8) (zeroed : ℕ × ℕ)

/-- `internet_checksum` adds the words and folds the sum. -/
theorem internetChecksum_eq : (internetChecksum checks data : Outcome ε ℕ) =
    addAll checks 0 (words data) >>= fun sum => pure (foldChecksum sum) := by
  rw [internetChecksum, addWords_eq_addAll]

/-- `internet_checksum_zeroing` adds the words of the zeroed data and folds the sum. -/
theorem internetChecksumZeroing_eq : (internetChecksumZeroing checks data zeroed : Outcome ε ℕ) =
    addAll checks 0 (words (zeroing zeroed data)) >>= fun sum => pure (foldChecksum sum) := by
  rw [internetChecksumZeroing, addWordsZeroing_eq_addAll]

/-- `ipv4_transport_checksum` adds the pseudo header and the words, and folds the sum. -/
theorem ipv4TransportChecksum_eq :
    (ipv4TransportChecksum checks src dst protocol data : Outcome ε ℕ) =
      addAll checks 0 (ipv4Terms src dst protocol data.length data) >>=
        fun sum => pure (foldChecksum sum) := by
  simp only [ipv4TransportChecksum, ipv4Terms, addWords_eq_addAll, arith_eq_addAll,
    addAll_append, Outcome.bind_assoc]

/-- `ipv4_transport_checksum_zeroing` does so on the zeroed data. -/
theorem ipv4TransportChecksumZeroing_eq :
    (ipv4TransportChecksumZeroing checks src dst protocol data zeroed : Outcome ε ℕ) =
      addAll checks 0 (ipv4Terms src dst protocol data.length (zeroing zeroed data)) >>=
        fun sum => pure (foldChecksum sum) := by
  simp only [ipv4TransportChecksumZeroing, ipv4Terms, addWords_eq_addAll,
    addWordsZeroing_eq_addAll, arith_eq_addAll, addAll_append, Outcome.bind_assoc]

/-- `ipv6_transport_checksum` adds the pseudo header and the words, and folds the sum. -/
theorem ipv6TransportChecksum_eq :
    (ipv6TransportChecksum checks src dst protocol data : Outcome ε ℕ) =
      addAll checks 0 (ipv6Terms src dst protocol data.length data) >>=
        fun sum => pure (foldChecksum sum) := by
  simp only [ipv6TransportChecksum, ipv6Terms, addWords_eq_addAll, arith_eq_addAll,
    addAll_append, Outcome.bind_assoc]

/-- `ipv6_transport_checksum_zeroing` does so on the zeroed data. -/
theorem ipv6TransportChecksumZeroing_eq :
    (ipv6TransportChecksumZeroing checks src dst protocol data zeroed : Outcome ε ℕ) =
      addAll checks 0 (ipv6Terms src dst protocol data.length (zeroing zeroed data)) >>=
        fun sum => pure (foldChecksum sum) := by
  simp only [ipv6TransportChecksumZeroing, ipv6Terms, addWords_eq_addAll,
    addWordsZeroing_eq_addAll, arith_eq_addAll, addAll_append, Outcome.bind_assoc]

end Terms

variable {src dst length : ℕ} {protocol : UInt8} {data : List UInt8}

/-- The defined checksum is a function of the plain sum of the words. -/
theorem rfc1071_eq (bytes : List UInt8) : rfc1071 bytes = 0xFFFF - ones (words bytes).sum := by
  rw [rfc1071, onesSum_eq (words_le bytes)]

/-- A word of a number. -/
theorem words_beBytes_two (n : ℕ) : words (beBytes 2 n) = [n % 2 ^ 16] := by
  have hword : beNat (beBytes 2 n) = n % 256 ^ 2 := beNat_beBytes 2 n
  rw [show (2 : ℕ) ^ 16 = 256 ^ 2 by norm_num, ← hword]
  rfl

/-- The two words of a number. -/
theorem words_beBytes_four (n : ℕ) : words (beBytes 4 n) = [n / 2 ^ 16 % 2 ^ 16, n % 2 ^ 16] := by
  have hsplit : words (beBytes 4 n) = words (beBytes 2 (n / 256 / 256)) ++ words (beBytes 2 n) :=
    rfl
  rw [hsplit, words_beBytes_two, words_beBytes_two, Nat.div_div_eq_div_mul]
  rfl

/-- The word of a zero byte and another one. -/
theorem words_byte (b : UInt8) : words [0, b] = [b.toNat] := by
  simp [words, beNat]

/-- The sum with the pseudo header of IPv4. -/
theorem onesSum_pseudoIpv4 (h : length < 2 ^ 16) :
    onesSum (words (pseudoIpv4 src dst protocol length ++ data)) =
      ones (ipv4Terms src dst protocol.toNat length data).sum := by
  have hwords : words (pseudoIpv4 src dst protocol length ++ data) =
      words (beBytes 4 src) ++ (words (beBytes 4 dst) ++ ([protocol.toNat] ++ ([length % 2 ^ 16] ++
        words data))) := by
    rw [pseudoIpv4, List.append_assoc, List.append_assoc, List.append_assoc,
      words_append (by simp; decide), words_append (by simp; decide),
      words_append (show Even [0, protocol].length from even_two), words_append (by simp),
      words_byte, words_beBytes_two]
  rw [onesSum_eq (words_le _), hwords, ipv4Terms, Nat.mod_eq_of_lt h,
    Nat.mod_eq_of_lt (by omega)]

/-- The sum with the pseudo header of IPv6, whose length has two words. -/
theorem onesSum_pseudoIpv6 :
    onesSum (words (pseudoIpv6 src dst protocol length ++ data)) =
      ones (ipv6Terms src dst protocol.toNat length data).sum := by
  have hwords : words (pseudoIpv6 src dst protocol length ++ data) =
      words (beBytes 16 src) ++ (words (beBytes 16 dst) ++ ([length / 2 ^ 16 % 2 ^ 16,
        length % 2 ^ 16] ++ ([0, protocol.toNat] ++ words data))) := by
    have hnext : words [0, 0, 0, protocol] = [0, protocol.toNat] := by
      rw [words, words_byte]
      rfl
    rw [pseudoIpv6, List.append_assoc, List.append_assoc, List.append_assoc,
      words_append (by simp; decide), words_append (by simp; decide),
      words_append (by simp; decide),
      words_append (show Even [0, 0, 0, protocol].length from (by decide : Even 4)),
      words_beBytes_four, hnext]
  have hhalves : length / 2 ^ 16 % 2 ^ 16 = length % 2 ^ 32 / 2 ^ 16 ∧
      length % 2 ^ 16 = length % 2 ^ 32 % 2 ^ 16 := by omega
  -- The other terms, and the length in two halves or as one number.
  obtain ⟨rest, hrest⟩ : ∃ rest, rest = (words (beBytes 16 src)).sum +
    (words (beBytes 16 dst)).sum + protocol.toNat + (words data).sum := ⟨_, rfl⟩
  have hleft : (words (pseudoIpv6 src dst protocol length ++ data)).sum =
      rest + (length % 2 ^ 32 / 2 ^ 16 + length % 2 ^ 32 % 2 ^ 16) := by
    rw [hwords, hhalves.1, hhalves.2, hrest]
    simp only [List.sum_append, List.sum_cons, List.sum_nil]
    omega
  have hright : (ipv6Terms src dst protocol.toNat length data).sum = rest + length % 2 ^ 32 := by
    rw [ipv6Terms, hrest]
    simp only [List.sum_append, List.sum_cons, List.sum_nil]
    omega
  rw [onesSum_eq (words_le _), hleft, hright, ones_add_halves]

/-- The checksum behind the IPv4 pseudo header, by its terms. -/
theorem rfc1071_pseudoIpv4 (h : length < 2 ^ 16) :
    rfc1071 (pseudoIpv4 src dst protocol length ++ data) =
      0xFFFF - ones (ipv4Terms src dst protocol.toNat length data).sum := by
  rw [rfc1071, onesSum_pseudoIpv4 h]

/-- The checksum behind the IPv6 pseudo header, by its terms. -/
theorem rfc1071_pseudoIpv6 :
    rfc1071 (pseudoIpv6 src dst protocol length ++ data) =
      0xFFFF - ones (ipv6Terms src dst protocol.toNat length data).sum := by
  rw [rfc1071, onesSum_pseudoIpv6]

/-! ### Equality with the definition -/

/-- Up to `0xFFFF` bytes of data, the sum fits. -/
theorem sum_ipv4Terms_lt (hlength : length ≤ 0xFFFF) (hdata : data.length ≤ 0xFFFF) :
    (ipv4Terms src dst protocol.toNat length data).sum < 2 ^ 32 := by
  have hsrc := sum_words_le (beBytes 4 src)
  have hdst := sum_words_le (beBytes 4 dst)
  have hwords := sum_words_le data
  have hprotocol := protocol.toNat_lt
  rw [length_beBytes] at hsrc hdst
  simp only [ipv4Terms, List.sum_append, List.sum_cons, List.sum_nil]
  omega

/-- A sum over at most `0xFFFF` bytes and the IPv6 pseudo header fits a `u32`. -/
theorem sum_ipv6Terms_lt (hlength : length ≤ 0xFFFF) (hdata : data.length ≤ 0xFFFF) :
    (ipv6Terms src dst protocol.toNat length data).sum < 2 ^ 32 := by
  have hsrc := sum_words_le (beBytes 16 src)
  have hdst := sum_words_le (beBytes 16 dst)
  have hwords := sum_words_le data
  have hprotocol := protocol.toNat_lt
  rw [length_beBytes] at hsrc hdst
  simp only [ipv6Terms, List.sum_append, List.sum_cons, List.sum_nil]
  omega

/-- A sum over at most `0xFFFF` bytes fits a `u32`. -/
theorem sum_words_lt (hdata : data.length ≤ 0xFFFF) : (words data).sum < 2 ^ 32 := by
  have hwords := sum_words_le data
  omega

/-- **Every checksum function computes the Internet checksum**, of up to `0xFFFF`
bytes. -/
theorem checksums_eq_rfc1071 (checks : Bool) (src dst : ℕ) (protocol : UInt8)
    (data : List UInt8) (zeroed : ℕ × ℕ) (h : data.length ≤ 0xFFFF) :
    (internetChecksum checks data : Outcome ε ℕ) = .ok (rfc1071 data) ∧
    (internetChecksumZeroing checks data zeroed : Outcome ε ℕ) =
      .ok (rfc1071 (zeroing zeroed data)) ∧
    (ipv4TransportChecksum checks src dst protocol.toNat data : Outcome ε ℕ) =
      .ok (rfc1071 (pseudoIpv4 src dst protocol data.length ++ data)) ∧
    (ipv4TransportChecksumZeroing checks src dst protocol.toNat data zeroed : Outcome ε ℕ) =
      .ok (rfc1071 (pseudoIpv4 src dst protocol data.length ++ zeroing zeroed data)) ∧
    (ipv6TransportChecksum checks src dst protocol.toNat data : Outcome ε ℕ) =
      .ok (rfc1071 (pseudoIpv6 src dst protocol data.length ++ data)) ∧
    (ipv6TransportChecksumZeroing checks src dst protocol.toNat data zeroed : Outcome ε ℕ) =
      .ok (rfc1071 (pseudoIpv6 src dst protocol data.length ++ zeroing zeroed data)) := by
  have hlength : data.length < 2 ^ 16 := by omega
  have hzeroing : (zeroing zeroed data).length ≤ 0xFFFF := by rwa [length_zeroing]
  refine ⟨?_, ?_, ?_, ?_, ?_, ?_⟩
  · rw [internetChecksum_eq, addAll_fold_of_lt (sum_words_lt h), rfc1071_eq]
  · rw [internetChecksumZeroing_eq, addAll_fold_of_lt (sum_words_lt hzeroing), rfc1071_eq]
  · rw [ipv4TransportChecksum_eq, addAll_fold_of_lt (sum_ipv4Terms_lt h h),
      rfc1071_pseudoIpv4 hlength]
  · rw [ipv4TransportChecksumZeroing_eq, addAll_fold_of_lt (sum_ipv4Terms_lt h hzeroing),
      rfc1071_pseudoIpv4 hlength]
  · rw [ipv6TransportChecksum_eq, addAll_fold_of_lt (sum_ipv6Terms_lt h h), rfc1071_pseudoIpv6]
  · rw [ipv6TransportChecksumZeroing_eq, addAll_fold_of_lt (sum_ipv6Terms_lt h hzeroing),
      rfc1071_pseudoIpv6]

/-- An odd length, with the padded byte in the zeroed range. -/
theorem checksums_eq_rfc1071_odd :
    (internetChecksumZeroing true [0x12, 0x34, 0x56] (1, 3) : Outcome Empty ℕ) =
      .ok (rfc1071 (zeroing (1, 3) [0x12, 0x34, 0x56])) :=
  (checksums_eq_rfc1071 true 0 0 0 [0x12, 0x34, 0x56] (1, 3) (by decide)).2.1

/-! ### Longer data -/

/-- **The accumulators.**  Of data of any length, a checksum is the defined one in
every build exactly when the numbers that are added up are a `u32` together. -/
theorem accumulators_fit_iff (src dst : ℕ) (nextHeader : UInt8) (data : List UInt8)
    (zeroed : ℕ × ℕ) :
    ((∀ checks, (internetChecksum checks data : Outcome ε ℕ) = .ok (rfc1071 data)) ↔
      (words data).sum < 2 ^ 32) ∧
    ((∀ checks, (internetChecksumZeroing checks data zeroed : Outcome ε ℕ) =
        .ok (rfc1071 (zeroing zeroed data))) ↔
      (words (zeroing zeroed data)).sum < 2 ^ 32) ∧
    ((∀ checks, (ipv6TransportChecksum checks src dst nextHeader.toNat data : Outcome ε ℕ) =
        .ok (rfc1071 (pseudoIpv6 src dst nextHeader data.length ++ data))) ↔
      (ipv6Terms src dst nextHeader.toNat data.length data).sum < 2 ^ 32) ∧
    ((∀ checks, (ipv6TransportChecksumZeroing checks src dst nextHeader.toNat data zeroed :
        Outcome ε ℕ) =
        .ok (rfc1071 (pseudoIpv6 src dst nextHeader data.length ++ zeroing zeroed data))) ↔
      (ipv6Terms src dst nextHeader.toNat data.length (zeroing zeroed data)).sum < 2 ^ 32) := by
  simp only [internetChecksum_eq, internetChecksumZeroing_eq, ipv6TransportChecksum_eq,
    ipv6TransportChecksumZeroing_eq]
  exact ⟨addAll_fold_iff (rfc1071_eq data), addAll_fold_iff (rfc1071_eq _),
    addAll_fold_iff rfc1071_pseudoIpv6, addAll_fold_iff rfc1071_pseudoIpv6⟩

/-- The sum over words of ones. -/
theorem sum_words_replicate (n : ℕ) :
    (words (List.replicate (2 * n) 0xFF)).sum = n * 0xFFFF := by
  induction n with
  | zero => rfl
  | succ n ih =>
    rw [show 2 * (n + 1) = 2 * n + 1 + 1 by ring, List.replicate_succ, List.replicate_succ, words,
      List.sum_cons, ih, Nat.succ_mul, Nat.add_comm]
    rfl

/-- The shortest data whose words can overflow the accumulator. -/
def onesData : List UInt8 := List.replicate 131076 0xFF

/-- **It overflows there**: the call panics, or forgets a carry. -/
theorem onesData_overflows :
    (internetChecksum true onesData : Outcome Empty ℕ) = .panic ∧
      (internetChecksum false onesData : Outcome Empty ℕ) = .ok 1 ∧ rfc1071 onesData = 0 := by
  have hsum : (words onesData).sum = 65538 * 0xFFFF := sum_words_replicate 65538
  refine ⟨?_, ?_, ?_⟩
  · rw [internetChecksum_eq, addAll_panic (by norm_num) (by rw [hsum]; norm_num)]
    rfl
  · rw [internetChecksum_eq, addAll_false 0 (by norm_num), hsum, Outcome.ok_bind, foldChecksum_eq]
    decide
  · rw [rfc1071_eq, hsum]
    decide

end Packet
end Maja
