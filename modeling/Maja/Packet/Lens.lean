/-
# The lens laws of the field accessors

A mask of consecutive bits whose lowest is the shift gives an accessor a range of its
word (`Spec.Occupies`); a spec with the default mask has none and takes the whole
word.  On the range, the accessor of `Maja.Packet.Field` reads `cutBits` and writes
`pasteBits`, with the complement of the mask taken at 64 bits.

That is the width of every mask and not of every word.  A word of at most 64 bits
obeys the laws; `u128` loses its upper half to each write through a mask
(`laws_iff`).
-/

import Maja.Packet.Underlay

namespace Maja
namespace Packet

open Lib

namespace ByteOrder

/-- A number is written with as many bytes as it is given. -/
theorem length_write (order : ByteOrder) (n v : ℕ) : (order.write n v).length = n := by
  cases order <;> simp [write]

/-- A number fits the bytes that it is read from. -/
theorem read_lt (order : ByteOrder) (bs : List UInt8) : order.read bs < 2 ^ (8 * bs.length) := by
  rw [pow_mul]
  cases order with
  | msb => exact beNat_lt bs
  | lsb =>
    have h := beNat_lt bs.reverse
    rwa [List.length_reverse] at h

/-- Reading a number that was written gives it back. -/
theorem read_write (order : ByteOrder) {n v : ℕ} (h : v < 2 ^ (8 * n)) :
    order.read (order.write n v) = v := by
  have hbytes : beNat (beBytes n v) = v := by
    rw [beNat_beBytes, Nat.mod_eq_of_lt]
    rwa [pow_mul] at h
  cases order with
  | msb => exact hbytes
  | lsb => rwa [read, write, leNat, List.reverse_reverse]

/-- Writing a number that was read gives its bytes back. -/
theorem write_read (order : ByteOrder) (bs : List UInt8) :
    order.write bs.length (order.read bs) = bs := by
  cases order with
  | msb => exact beBytes_beNat bs
  | lsb =>
    have h := beBytes_beNat bs.reverse
    rw [List.length_reverse] at h
    rw [read, write, leNat, h, List.reverse_reverse]

end ByteOrder

namespace FieldSpec

/-- The number in the first bytes. -/
def word (order : ByteOrder) (F : FieldSpec) (bytes : List UInt8) : ℕ :=
  order.read (bytes.take F.size)

/-- The field takes the bits `lo, …, lo + width - 1` of its word. -/
def Occupies (F : FieldSpec) (lo width : ℕ) : Prop :=
  if F.mask = U64_MAX ∧ F.shift = 0 then lo = 0 ∧ width = 8 * F.size
  else F.mask = bitMask lo width ∧ F.shift = lo ∧ 0 < width ∧ lo + width ≤ 8 * F.size

/-- The bits of the word that survive a write outside the range. -/
def reach (F : FieldSpec) : ℕ := if F.mask = U64_MAX ∧ F.shift = 0 then 8 * F.size else 64

variable {F F' : FieldSpec} {order : ByteOrder} {lo width lo' width' : ℕ} {bytes : List UInt8}
  {value value' : ℕ}

/-- The bits of a field fit its word. -/
theorem Occupies.le_size (h : F.Occupies lo width) : lo + width ≤ 8 * F.size := by
  unfold Occupies at h
  split_ifs at h
  · omega
  · exact h.2.2.2

/-- A mask of 64 bits lies within reach. -/
theorem Occupies.le_reach (h : F.Occupies lo width) (hmask : F.mask < 2 ^ 64) :
    lo + width ≤ F.reach := by
  unfold Occupies at h
  unfold reach
  split_ifs at h ⊢
  · omega
  · obtain ⟨hbits, -, hpos, -⟩ := h
    -- the highest bit of the mask is set
    by_contra hfar
    have hset : (bitMask lo width).testBit (lo + width - 1) = true := by
      rw [testBit_bitMask, decide_eq_true_eq]
      omega
    have hclear : (bitMask lo width).testBit (lo + width - 1) = false := Nat.testBit_lt_two_pow
      ((hbits ▸ hmask).trans_le (Nat.pow_le_pow_right (by norm_num) (by omega)))
    simp [hset] at hclear

/-- The word of a field fits its bytes. -/
theorem word_lt (F : FieldSpec) (order : ByteOrder) (h : F.size ≤ bytes.length) :
    F.word order bytes < 2 ^ (8 * F.size) := by
  have hlt := order.read_lt (bytes.take F.size)
  rwa [List.length_take_of_le h] at hlt

/-- **A read cuts the range out** of the word. -/
theorem raw_eq (hocc : F.Occupies lo width) (h : F.size ≤ bytes.length) :
    F.raw order bytes = cutBits lo width (F.word order bytes) := by
  unfold raw
  unfold Occupies at hocc
  split_ifs at hocc ⊢ with hwhole hshift
  · obtain ⟨rfl, rfl⟩ := hocc
    have hlt := F.word_lt order h
    rw [cutBits, bitMask, Nat.shiftLeft_zero, Nat.shiftRight_zero, Nat.and_two_pow_sub_one_eq_mod,
      Nat.mod_eq_of_lt hlt]
    rfl
  · obtain ⟨hmask, rfl, -⟩ := hocc
    rw [cutBits, hmask, hshift, Nat.shiftRight_zero]
    rfl
  · obtain ⟨hmask, rfl, -⟩ := hocc
    rw [cutBits, hmask]
    rfl

/-- **A write pastes the range into** the word. -/
theorem set_eq (hocc : F.Occupies lo width) (hvalue : value < 2 ^ (8 * F.size)) :
    F.set order bytes value =
      order.write F.size (pasteBits F.reach lo width (F.word order bytes) value) ++
        bytes.drop F.size := by
  unfold set reach
  unfold Occupies at hocc
  refine congrArg (order.write F.size · ++ bytes.drop F.size) ?_
  split_ifs at hocc ⊢ with hwhole hshift
  · obtain ⟨rfl, rfl⟩ := hocc
    rw [pasteBits, bitMask, Nat.shiftLeft_zero, Nat.shiftLeft_zero, Nat.xor_self, Nat.and_zero,
      Nat.zero_or, Nat.and_two_pow_sub_one_eq_mod, Nat.mod_eq_of_lt hvalue]
  · obtain ⟨hmask, rfl, -⟩ := hocc
    rw [pasteBits, ← hmask, hshift, Nat.shiftLeft_zero]
    rfl
  · obtain ⟨hmask, rfl, -⟩ := hocc
    rw [pasteBits, ← hmask]
    rfl

/-- The bytes behind the word stay. -/
theorem drop_set (F : FieldSpec) (order : ByteOrder) (bytes : List UInt8) (value : ℕ) :
    (F.set order bytes value).drop F.size = bytes.drop F.size :=
  List.drop_left' (order.length_write F.size _)

/-- The word after a write. -/
theorem word_set (hocc : F.Occupies lo width) (hmask : F.mask < 2 ^ 64)
    (h : F.size ≤ bytes.length) (hvalue : value < 2 ^ (8 * F.size)) :
    F.word order (F.set order bytes value) =
      pasteBits F.reach lo width (F.word order bytes) value := by
  rw [set_eq hocc hvalue, word, List.take_left' (order.length_write F.size _)]
  exact order.read_write (pasteBits_lt (hocc.le_reach hmask) hocc.le_size (F.word_lt order h))

end FieldSpec

/-! ### The laws -/

namespace Spec

variable {U : Type} [LawfulUnderlay U]

open LawfulUnderlay

/-- The number in the first bytes. -/
def word (order : ByteOrder) (bytes : Buffer U) : ℕ :=
  order.read (bytes.val.take (Underlay.size U))

/-- **The field's bits**: the bits of a mask of consecutive bits that fits the word and
whose lowest is the shift, or the whole word where the mask is the default. -/
def Occupies (F : Spec U) (lo width : ℕ) : Prop :=
  if F.IsWhole then lo = 0 ∧ width = 8 * Underlay.size U
  else F.MASK.toNat = bitMask lo width ∧ F.SHIFT = lo ∧ 0 < width ∧
    lo + width ≤ 8 * Underlay.size U

instance (F : Spec U) (lo width : ℕ) : Decidable (F.Occupies lo width) :=
  inferInstanceAs (Decidable (if F.IsWhole then lo = 0 ∧ width = 8 * Underlay.size U
    else F.MASK.toNat = bitMask lo width ∧ F.SHIFT = lo ∧ 0 < width ∧
      lo + width ≤ 8 * Underlay.size U))

/-- **The lens laws**, for one value and one buffer. -/
structure Laws (order : ByteOrder) (F : Spec U) (lo width : ℕ) (bytes : Buffer U) (value : U) :
    Prop where
  /-- What was set is read, cut to the width of the mask. -/
  raw_set : toNat (F.raw order (F.set order bytes value)) = toNat value % 2 ^ width
  /-- The bits of the word outside the mask stay. -/
  outside : ∀ j, ¬(lo ≤ j ∧ j < lo + width) →
    (word order (F.set order bytes value)).testBit j = (word order bytes).testBit j
  /-- So do the bytes behind the word. -/
  behind : (F.set order bytes value).val.drop (Underlay.size U) =
    bytes.val.drop (Underlay.size U)
  /-- Setting what was read changes nothing. -/
  set_raw : F.set order bytes (F.raw order bytes) = bytes
  /-- Sets through disjoint masks commute. -/
  comm : ∀ (F' : Spec U) (lo' width' : ℕ) (value' : U), F'.Occupies lo' width' →
    (lo + width ≤ lo' ∨ lo' + width' ≤ lo) →
    F'.set order (F.set order bytes value) value' = F.set order (F'.set order bytes value') value

variable {F F' : Spec U} {order : ByteOrder} {lo width lo' width' : ℕ} {bytes : Buffer U}
  {value value' : U}

/-- The erased field occupies the same bits. -/
theorem occupies_erase (h : F.Occupies lo width) : F.erase.Occupies lo width := by
  unfold Occupies at h
  unfold FieldSpec.Occupies
  by_cases hwhole : F.IsWhole
  · rw [if_pos hwhole] at h
    rwa [if_pos (F.isWhole_iff.1 hwhole)]
  · rw [if_neg hwhole] at h
    rwa [if_neg (mt F.isWhole_iff.2 hwhole)]

/-- The bits of a field lie below the reach of its mask. -/
theorem Occupies.le_reach (h : F.Occupies lo width) : lo + width ≤ F.erase.reach :=
  (occupies_erase h).le_reach F.MASK.isLt

/-- The raw value is the bits of the field, cut out of the word. -/
theorem toNat_raw_eq (h : F.Occupies lo width) :
    toNat (F.raw order bytes) = cutBits lo width (word order bytes) := by
  rw [toNat_raw, FieldSpec.raw_eq (occupies_erase h) bytes.property]
  rfl

/-- Setting a field pastes its bits into the word. -/
theorem word_set (h : F.Occupies lo width) : word order (F.set order bytes value) =
    pasteBits F.erase.reach lo width (word order bytes) (toNat value) := by
  rw [word, set_val]
  exact FieldSpec.word_set (occupies_erase h) F.MASK.isLt bytes.property (toNat_lt value)

/-- Setting a field keeps the bytes behind its word. -/
theorem drop_set (F : Spec U) (order : ByteOrder) (bytes : Buffer U) (value : U) :
    (F.set order bytes value).val.drop (Underlay.size U) = bytes.val.drop (Underlay.size U) := by
  rw [set_val]
  exact F.erase.drop_set order bytes.val (toNat value)

/-- A buffer is its word and the bytes behind it. -/
theorem ext_word (order : ByteOrder) {b b' : Buffer U} (hword : word order b = word order b')
    (hdrop : b.val.drop (Underlay.size U) = b'.val.drop (Underlay.size U)) : b = b' := by
  have hwrite (b : Buffer U) : order.write (Underlay.size U) (word order b) =
      b.val.take (Underlay.size U) := by
    have h := order.write_read (b.val.take (Underlay.size U))
    rwa [List.length_take_of_le b.property] at h
  refine Subtype.ext ?_
  rw [← List.take_append_drop (Underlay.size U) b.val, hdrop, ← hwrite b, hword, hwrite b',
    List.take_append_drop]

/-- **The range is read back**, however wide the word. -/
theorem raw_set_eq (h : F.Occupies lo width) :
    toNat (F.raw order (F.set order bytes value)) = toNat value % 2 ^ width := by
  rw [toNat_raw_eq h, word_set h, cutBits_pasteBits h.le_reach]

/-- A whole word leaves no room for a disjoint range. -/
theorem reach_eq (h : F.Occupies lo width) (h' : F'.Occupies lo' width')
    (hdisjoint : lo + width ≤ lo' ∨ lo' + width' ≤ lo) : F.erase.reach = F'.erase.reach := by
  have hiff : F.IsWhole ↔ F'.IsWhole := by
    unfold Occupies at h h'
    split_ifs at h h' with hwhole hwhole' hwhole'
    · exact iff_of_true hwhole hwhole'
    · omega
    · omega
    · exact iff_of_false hwhole hwhole'
  rw [F.isWhole_iff, F'.isWhole_iff] at hiff
  exact if_congr hiff rfl rfl

/-- **Disjoint ranges commute**, however wide the word: they lose the same bits. -/
theorem set_comm (h : F.Occupies lo width) (h' : F'.Occupies lo' width')
    (hdisjoint : lo + width ≤ lo' ∨ lo' + width' ≤ lo) :
    F'.set order (F.set order bytes value) value' =
      F.set order (F'.set order bytes value') value := by
  have hreach := reach_eq h h' hdisjoint
  have hin := h.le_reach
  rw [hreach] at hin
  refine ext_word order ?_ ?_
  · rw [word_set h', word_set h, word_set h, word_set h', hreach]
    exact pasteBits_comm hin h'.le_reach hdisjoint
  · rw [drop_set, drop_set, drop_set, drop_set]

/-- **The laws hold exactly within reach.** -/
theorem laws_iff_lt_reach (h : F.Occupies lo width) :
    F.Laws order lo width bytes value ↔ word order bytes < 2 ^ F.erase.reach := by
  constructor
  · intro hlaws
    by_contra hword
    obtain ⟨j, hout, hne⟩ :=
      exists_testBit_pasteBits_ne h.le_reach (not_lt.1 hword) (toNat value)
    refine hne ?_
    rw [← word_set h]
    exact hlaws.outside j hout
  · intro hword
    refine ⟨raw_set_eq h, fun j hj => ?_, drop_set F order bytes value, ?_,
      fun F' lo' width' value' h' hdisjoint =>
      set_comm h h' hdisjoint⟩
    · rw [word_set h, testBit_pasteBits_outside h.le_reach hword hj]
    · refine ext_word order ?_ (drop_set F order bytes _)
      rw [word_set h, toNat_raw_eq h, pasteBits_cutBits h.le_reach hword]

/-- The word of a field fits its type. -/
theorem word_lt (order : ByteOrder) (bytes : Buffer U) :
    word order bytes < 2 ^ (8 * Underlay.size U) := by
  have hlt := order.read_lt (bytes.val.take (Underlay.size U))
  rwa [List.length_take_of_le bytes.property] at hlt

/-- **Which accessors obey the lens laws.**  All of them over a word that a mask can
cover, and over `u128` those without a mask.  The others clear the upper half of the
word, and obey the laws where it is clear. -/
theorem laws_iff (t : UnderlayType) (order : ByteOrder) (F : Spec t.Carrier) (lo width : ℕ)
    (bytes : Buffer t.Carrier) (value : t.Carrier) (h : F.Occupies lo width) :
    F.Laws order lo width bytes value ↔ t ≠ .u128 ∨ F.IsWhole ∨ word order bytes < 2 ^ 64 := by
  have hword := word_lt order bytes
  rw [laws_iff_lt_reach h, FieldSpec.reach, ← if_congr F.isWhole_iff rfl rfl]
  by_cases hwhole : F.IsWhole
  · rw [if_pos hwhole]
    exact iff_of_true hword (.inr (.inl hwhole))
  · rw [if_neg hwhole]
    by_cases ht : t = .u128
    · simp [ht, hwhole]
    · have hsize : 8 * Underlay.size t.Carrier ≤ 64 := by
        have := t.size_le_eight ht
        omega
      exact iff_of_true (hword.trans_le (Nat.pow_le_pow_right (by norm_num) hsize)) (.inl ht)

/-- The priority code point of a VLAN tag. -/
def pcp : Spec (UnderlayType.Carrier .u16) where
  MASK := 0xE000
  SHIFT := 13

/-- `0x2064` holds priority 1. -/
theorem laws_iff_pcp : pcp.Laws .msb 13 3 ⟨[0x20, 0x64, 0x08, 0x00], by decide⟩ (5 : BitVec 16) ↔
    UnderlayType.u16 ≠ .u128 ∨ pcp.IsWhole ∨
      word (U := UnderlayType.Carrier .u16) .msb ⟨[0x20, 0x64, 0x08, 0x00], by decide⟩ < 2 ^ 64 :=
  laws_iff .u16 .msb pcp 13 3 ⟨[0x20, 0x64, 0x08, 0x00], by decide⟩ (5 : BitVec 16) (by decide)

/-- The lowest byte of a `u128`. -/
def lowByte : Spec (UnderlayType.Carrier .u128) where
  MASK := 0xFF

/-- Setting the lowest byte of a `u128` to what it is clears the upper eight. -/
theorem not_laws_lowByte : ∃ (F : Spec (UnderlayType.Carrier .u128)) (lo width : ℕ)
    (bytes : Buffer (UnderlayType.Carrier .u128)), F.Occupies lo width ∧
      ¬F.Laws .msb lo width bytes (1 : BitVec 128) := by
  refine ⟨lowByte, 0, 8, ⟨List.replicate 16 1, by decide⟩, by decide, fun hlaws => ?_⟩
  have hsame := congrArg Subtype.val hlaws.set_raw
  revert hsame
  decide +kernel

end Spec

end Packet
end Maja
