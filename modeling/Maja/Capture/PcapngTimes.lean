/-
# The timestamps of pcapng packets

What `EnhancedPacketHeaderOptions::packet_timestamp` of `src/capture/format/pcapng.rs`
computes, against the time that the block stands for.

The interface gives the unit, `10 ^ -p` or `2 ^ -p` of a second, and an offset in
seconds.  The code counts a second as `10 ^ 9` nanoseconds in units of the first
kind and as `2 ^ 30` in units of the second; it reads the raw count as an `i64`, and
panics where an `i64` is too small.  `packetTimestamp_exact_iff` says for which
blocks none of this matters.
-/

import Maja.Capture.PcapngBlocks

namespace Maja
namespace Capture

open Lib

/-- The units that make up a second. -/
def unitsPerSecond (tsresol : UInt8) : ℕ :=
  if tsresol.toNat < 128 then 10 ^ tsresol.toNat else 2 ^ (tsresol.toNat - 128)

/-- The nanoseconds that a raw timestamp stands for, rounded down. -/
def exactUnits (raw : ℕ) (tsresol : UInt8) : ℕ := raw * 10 ^ 9 / unitsPerSecond tsresol

/-- The time that a raw timestamp stands for, in nanoseconds. -/
def exactStamp (raw : ℕ) (tsresol : UInt8) (tsoffset : I64) : ℤ :=
  exactUnits raw tsresol + tsoffset.val * 1000000000

/-- `2 ^ 30` nanoseconds to the second round to the same nanosecond as `10 ^ 9`, or
the unit is a power of ten. -/
def SecondsAgree (raw : ℕ) (tsresol : UInt8) : Prop :=
  tsresol.toNat < 128 ∨
    raw * 2 ^ 30 / unitsPerSecond tsresol = raw * 10 ^ 9 / unitsPerSecond tsresol

/-- The raw timestamps that are converted exactly: no step overflows, the raw count
is an `i64`, and the length of a second does not matter.  Only the first is asked
of a time that is not an `i64`. -/
structure StampExact (raw : ℕ) (tsresol : UInt8) (tsoffset : I64) : Prop where
  fits : StampFits raw tsresol tsoffset
  exact : I64.InRange (exactStamp raw tsresol tsoffset) → raw < 2 ^ 63 ∧ SecondsAgree raw tsresol

variable {raw : ℕ} {tsresol : UInt8} {tsoffset : I64}

/-! ### Scaling -/

/-- Scaling by a power is a multiplication and a division that rounds down. -/
theorem scaledStamp_natCast {base : ℕ} (hbase : 0 < base) (unit exponent raw : ℕ) :
    scaledStamp base unit exponent raw = (raw * base ^ unit / base ^ exponent : ℕ) := by
  unfold scaledStamp
  split_ifs with h
  · have hpow : base ^ unit = base ^ (unit - exponent) * base ^ exponent := by
      rw [← pow_add, Nat.sub_add_cancel h]
    rw [hpow, ← mul_assoc, Nat.mul_div_cancel _ (pow_pos hbase exponent)]
    push_cast
    rfl
  · have hpow : base ^ exponent = base ^ (exponent - unit) * base ^ unit := by
      rw [← pow_add, Nat.sub_add_cancel (by omega)]
    rw [hpow, Nat.mul_div_mul_right _ _ (pow_pos hbase unit),
      Int.tdiv_eq_ediv_of_nonneg (Int.natCast_nonneg raw)]
    push_cast
    rfl

/-- Scaling keeps a negative count negative, or makes it zero. -/
theorem scaledStamp_nonpos (base : ℕ) {unit exponent : ℕ} {n : ℤ} (h : n ≤ 0) :
    scaledStamp base unit exponent n ≤ 0 := by
  unfold scaledStamp
  split_ifs
  · exact mul_nonpos_of_nonpos_of_nonneg h (by positivity)
  · have hneg : 0 ≤ (-n).tdiv ((base : ℤ) ^ (exponent - unit)) :=
      Int.tdiv_nonneg (by omega) (by positivity)
    rw [Int.neg_tdiv] at hneg
    omega

/-- The upper half of the raw counts is negative as an `i64`. -/
theorem ofWord_neg (h : 2 ^ 63 ≤ raw) (hraw : raw < 2 ^ 64) : (I64.ofWord raw).val < 0 := by
  simp only [I64.ofWord, toSigned, Nat.mod_eq_of_lt hraw]
  rw [if_neg (by omega)]
  omega

/-- The units of a raw count that is an `i64`. -/
theorem stampUnits_of_lt (h : raw < 2 ^ 63) :
    stampUnits raw tsresol =
      if tsresol.toNat < 128 then (exactUnits raw tsresol : ℤ)
      else (raw * 2 ^ 30 / unitsPerSecond tsresol : ℕ) := by
  unfold stampUnits exactUnits unitsPerSecond
  rw [I64.ofWord_val h]
  split_ifs with hten
  · exact scaledStamp_natCast (show 0 < 10 by norm_num) 9 tsresol.toNat raw
  · exact scaledStamp_natCast (show 0 < 2 by norm_num) 30 (tsresol.toNat - 128) raw

/-- A timestamp with the highest bit set is read as a negative one. -/
theorem stampUnits_nonpos (h : 2 ^ 63 ≤ raw) (hraw : raw < 2 ^ 64) : stampUnits raw tsresol ≤ 0 := by
  have hneg := (ofWord_neg h hraw).le
  unfold stampUnits
  split_ifs
  · exact scaledStamp_nonpos 10 hneg
  · exact scaledStamp_nonpos 2 hneg

/-- A raw count in the upper half is at least a nanosecond, in every unit that the
code can scale. -/
theorem exactUnits_pos (h : 2 ^ 63 ≤ raw)
    (hresolution : tsresol.toNat ≤ 27 ∨ 128 ≤ tsresol.toNat ∧ tsresol.toNat ≤ 220) :
    0 < exactUnits raw tsresol := by
  have hle : unitsPerSecond tsresol ≤ raw * 10 ^ 9 := by
    unfold unitsPerSecond
    split_ifs with hten
    · calc 10 ^ tsresol.toNat ≤ 10 ^ 27 := Nat.pow_le_pow_right (by norm_num) (by omega)
        _ ≤ 2 ^ 63 * 10 ^ 9 := by norm_num
        _ ≤ raw * 10 ^ 9 := Nat.mul_le_mul_right _ h
    · calc 2 ^ (tsresol.toNat - 128) ≤ 2 ^ 92 := Nat.pow_le_pow_right (by norm_num) (by omega)
        _ ≤ 2 ^ 63 * 10 ^ 9 := by norm_num
        _ ≤ raw * 10 ^ 9 := Nat.mul_le_mul_right _ h
  have hpos : 0 < unitsPerSecond tsresol := by
    unfold unitsPerSecond
    split_ifs <;> positivity
  exact Nat.div_pos hle hpos

/-- The code's units are the exact ones when the raw count is an `i64` and the length
of a second does not matter. -/
theorem stampUnits_eq_iff (hraw : raw < 2 ^ 64)
    (hresolution : tsresol.toNat ≤ 27 ∨ 128 ≤ tsresol.toNat ∧ tsresol.toNat ≤ 220) :
    stampUnits raw tsresol = exactUnits raw tsresol ↔ raw < 2 ^ 63 ∧ SecondsAgree raw tsresol := by
  rcases Nat.lt_or_ge raw (2 ^ 63) with hlt | hge
  · rw [stampUnits_of_lt hlt, SecondsAgree]
    by_cases hten : tsresol.toNat < 128
    · rw [if_pos hten]
      exact ⟨fun _ => ⟨hlt, .inl hten⟩, fun _ => rfl⟩
    · rw [if_neg hten, exactUnits, Nat.cast_inj]
      exact ⟨fun h => ⟨hlt, .inr h⟩, fun h => h.2.resolve_left hten⟩
  · have hpos := exactUnits_pos hge hresolution
    have hnonpos := @stampUnits_nonpos raw tsresol hge hraw
    constructor
    · intro h
      omega
    · rintro ⟨hlt, -⟩
      omega

/-! ### The conversion -/

namespace EnhancedPacketHeaderOptions

/-- What the conversion returns on the stamps that fit. -/
theorem calcTimestamp_eq_ok (h : StampFits raw tsresol tsoffset) :
    calcTimestamp raw tsresol tsoffset =
      .ok ⟨stampUnits raw tsresol + tsoffset.val * 1000000000, h.sum⟩ := by
  have hlt : tsresol.toNat < 256 := tsresol.toNat_lt
  have hunits := h.units
  have hresolution := h.resolution
  have hsum : ∀ units : ℤ, units = stampUnits raw tsresol →
      ((I64.checked units : Result I64) >>= fun t =>
        (I64.checked (tsoffset.val * 1000000000) : Result I64) >>= fun o =>
          (I64.checked (t.val + o.val) : Result I64)) =
        .ok ⟨stampUnits raw tsresol + tsoffset.val * 1000000000, h.sum⟩ := by
    rintro units rfl
    rw [I64.checked_eq_ok hunits, Outcome.ok_bind, I64.checked_eq_ok h.offset, Outcome.ok_bind,
      I64.checked_eq_ok h.sum]
  rw [calcTimestamp]
  by_cases hten : tsresol.toNat < 128
  · have hpow := @inRange_pow 10 18 (by norm_num) (by norm_num) (by norm_num)
    rw [if_pos hten, scaleTimestamp_eq, if_pos ((hpow _).2 (by omega))]
    exact hsum _ (by rw [stampUnits, if_pos hten])
  · have hpow := @inRange_pow 2 62 (by norm_num) (by norm_num) (by norm_num)
    have hxor := toNat_xor_0x80 (Nat.le_of_not_lt hten)
    rw [if_neg hten, scaleTimestamp_eq, hxor, if_pos ((hpow _).2 (by omega))]
    exact hsum _ (by rw [stampUnits, if_neg hten])

/-- The conversion returns, and what it returns is exact where an `i64` can be. -/
theorem calcTimestamp_exact_iff (hraw : raw < 2 ^ 64) :
    (∃ t, calcTimestamp raw tsresol tsoffset = .ok t ∧
        (I64.InRange (exactStamp raw tsresol tsoffset) →
          t.val = exactStamp raw tsresol tsoffset)) ↔
      StampExact raw tsresol tsoffset := by
  constructor
  · rintro ⟨t, ht, hexact⟩
    have hfits : StampFits raw tsresol tsoffset :=
      calcTimestamp_returns.1 (by rw [ht]; exact Outcome.returns_ok t)
    rw [calcTimestamp_eq_ok hfits] at ht
    obtain rfl := Outcome.ok.inj ht
    refine ⟨hfits, fun hrange => ?_⟩
    have hsum : stampUnits raw tsresol + tsoffset.val * 1000000000 =
        exactUnits raw tsresol + tsoffset.val * 1000000000 := hexact hrange
    exact (stampUnits_eq_iff hraw hfits.resolution).1 (by omega)
  · rintro ⟨hfits, hagree⟩
    refine ⟨_, calcTimestamp_eq_ok hfits, fun hrange => ?_⟩
    show stampUnits raw tsresol + tsoffset.val * 1000000000 = exactStamp raw tsresol tsoffset
    rw [(stampUnits_eq_iff hraw hfits.resolution).2 (hagree hrange), exactStamp]

/-- The raw timestamp of a block. -/
def rawStamp (p : EnhancedPacketHeaderOptions) : ℕ := p.timestampHigh <<< 32 ||| p.timestampLow

/-- **A packet's timestamp is exact** if and only if no step of its conversion
overflows and, where an `i64` can hold the exact time, its raw count is an `i64` and
`2 ^ 30` nanoseconds to the second would do. -/
theorem packetTimestamp_exact_iff (p : EnhancedPacketHeaderOptions)
    (interface : InterfaceDescription) (hhigh : p.timestampHigh < 2 ^ 32)
    (hlow : p.timestampLow < 2 ^ 32) :
    (∃ t, p.packetTimestamp interface = .ok t ∧
        (I64.InRange (exactStamp p.rawStamp (interface.tsresol.getD 6)
            (interface.tsoffset.getD (I64.ofInt 0))) →
          t.val = exactStamp p.rawStamp (interface.tsresol.getD 6)
            (interface.tsoffset.getD (I64.ofInt 0)))) ↔
      StampExact p.rawStamp (interface.tsresol.getD 6) (interface.tsoffset.getD (I64.ofInt 0)) := by
  refine calcTimestamp_exact_iff ?_
  refine Nat.or_lt_two_pow ?_ (hlow.trans (by norm_num))
  rw [Nat.shiftLeft_eq]
  omega

/-- A second, counted in units of `2 ^ -10` seconds. -/
def binarySecond : EnhancedPacketHeaderOptions :=
  ⟨0, 0, 1024, 0, 0, none, [], none, none, none, [], none⟩

/-- The interface with that unit. -/
def binaryInterface : InterfaceDescription :=
  { InterfaceDescription.new .ethernet 0 with tsresol := some 0x8A }

/-- **It is converted to `2 ^ 30` nanoseconds.** -/
theorem binarySecond_not_exact :
    binarySecond.packetTimestamp binaryInterface = .ok (I64.ofInt (2 ^ 30)) ∧
      exactStamp binarySecond.rawStamp 0x8A (I64.ofInt 0) = 10 ^ 9 := by
  decide +kernel

/-- A second and a half in microseconds, the unit of an interface that names none. -/
theorem packetTimestamp_exact_iff_microseconds :
    (∃ t, packetTimestamp ⟨0, 0, 1500000, 0, 0, none, [], none, none, none, [], none⟩
        (.new .ethernet 0) = .ok t ∧ (I64.InRange (exactStamp 1500000 6 (I64.ofInt 0)) →
          t.val = exactStamp 1500000 6 (I64.ofInt 0))) ↔
      StampExact 1500000 6 (I64.ofInt 0) :=
  packetTimestamp_exact_iff ⟨0, 0, 1500000, 0, 0, none, [], none, none, none, [], none⟩
    (.new .ethernet 0) (by norm_num) (by norm_num)

end EnhancedPacketHeaderOptions

end Capture
end Maja
