/-
# Which blocks the block parsers survive

Each block parser returns exactly on the blocks that pass a condition on their
bytes: the option list fits (`OptionsFit`), and for an Enhanced Packet Block the
captured length can be rounded up.  `Frame.BlockFits` is that condition for the
block types together, `Frame.StampFits` the one under which the timestamp of an
Enhanced Packet Block can be computed.
-/

import Maja.Capture.PcapngOptions

namespace Maja
namespace Capture

open Lib

/-! ### The value shapes of the three option spaces -/

/-- What `SectionHeader::parse` does with an option's value. -/
def shbShape : ℕ → ValueShape
  | OptionType.SHB_HARDWARE | OptionType.SHB_OS | OptionType.SHB_USER_APPL => .text
  | _ => .any

/-- What `InterfaceDescription::parse` does with an option's value. -/
def ifShape : ℕ → ValueShape
  | OptionType.IF_NAME | OptionType.IF_DESCRIPTION | OptionType.IF_OS | OptionType.IF_HARDWARE
  | OptionType.IF_IANA_TZNAME => .text
  | OptionType.IF_IPV4_ADDR | OptionType.IF_SPEED | OptionType.IF_TSOFFSET
  | OptionType.IF_TXSPEED | OptionType.IF_RXSPEED => .atLeast 8
  | OptionType.IF_IPV6_ADDR => .atLeast 17
  | OptionType.IF_MAC_ADDR => .exactly 6
  | OptionType.IF_EUI_ADDR => .array 8
  | OptionType.IF_TSRESOL | OptionType.IF_FCSLEN => .atLeast 1
  | OptionType.IF_TZONE => .atLeast 4
  | _ => .any

/-- What `EnhancedPacketHeaderOptions::parse` does with an option's value. -/
def epbShape : ℕ → ValueShape
  | OptionType.EPB_FLAGS | OptionType.EPB_QUEUE => .atLeast 4
  | OptionType.EPB_DROPCOUNT | OptionType.EPB_PACKET_ID | OptionType.EPB_PROCESSID_THREADID =>
      .atLeast 8
  | _ => .any

/-- No option of an enhanced packet block is rejected for its value. -/
theorem not_rejects_epbShape (type : ℕ) (value : List UInt8) :
    ¬(epbShape type).Rejects value := by
  unfold epbShape
  split <;> exact id

/-- Reading a word and keeping it ends as `atLeast` says. -/
theorem readBytes_check {β : Type} {e : Endian} {n : ℕ} {value : List UInt8} (f : ℕ → β) :
    ((e.readBytes n value >>= fun w => pure (f w)) >>= fun _ => .ok ()) =
      (ValueShape.atLeast n).check value := by
  rcases Nat.lt_or_ge value.length n with h | h
  · have hslice : (Outcome.slice value 0 n : Result (List UInt8)) = .panic :=
      Outcome.slice_eq_panic (by omega)
    simp [Endian.readBytes, hslice, ValueShape.check, h]
  · simp [Endian.readBytes_eq_ok h, ValueShape.check, h]

/-- Indexing the first byte and keeping it ends as `atLeast 1` says. -/
theorem index_check {β : Type} {value : List UInt8} (f : UInt8 → β) :
    (((Outcome.index value 0 : Result UInt8) >>= fun b => pure (f b)) >>= fun _ => .ok ()) =
      (ValueShape.atLeast 1).check value := by
  cases value with
  | nil => rfl
  | cons b value => simp [Outcome.index, ValueShape.check]

/-- Reading an `i32` from an option asks for four bytes of its value. -/
theorem readI32_check {β : Type} {e : Endian} {value : List UInt8} (f : ℤ → β) :
    ((e.readI32 value >>= fun w => pure (f w)) >>= fun _ => .ok ()) =
      (ValueShape.atLeast 4).check value := by
  rw [Endian.readI32, Outcome.bind_assoc (e.readBytes 4 value)]
  exact readBytes_check fun w => f (toSigned 32 w)

/-- Reading an `i64` from an option asks for eight bytes of its value. -/
theorem readI64_check {β : Type} {e : Endian} {value : List UInt8} (f : I64 → β) :
    ((e.readI64 value >>= fun w => pure (f w)) >>= fun _ => .ok ()) =
      (ValueShape.atLeast 8).check value := by
  rw [Endian.readI64, Outcome.bind_assoc (e.readBytes 8 value)]
  exact readBytes_check fun w => f (I64.ofWord w)

/-- Copying a MAC address ends as `exactly 6` says. -/
theorem ethAddr_check {β : Type} {value : List UInt8} (f : List UInt8 → β) :
    ((ethAddrFromSlice value >>= fun a => pure (f a)) >>= fun _ => .ok ()) =
      (ValueShape.exactly 6).check value := by
  simp only [ethAddrFromSlice, ValueShape.check]
  split_ifs <;> rfl

/-- Two adjacent slices of the value, or a slice and the byte behind it, end as
`atLeast` of their sum says. -/
theorem slice_slice_check {β : Type} {value : List UInt8} {m n : ℕ} (hmn : m ≤ n)
    (f : List UInt8 → List UInt8 → β) :
    (((Outcome.slice value 0 m : Result _) >>= fun a =>
      Outcome.slice value m n >>= fun b => pure (f a b)) >>= fun _ => .ok ()) =
      (ValueShape.atLeast n).check value := by
  rcases Nat.lt_or_ge value.length m with hm | hm
  · have hslice : (Outcome.slice value 0 m : Result (List UInt8)) = .panic :=
      Outcome.slice_eq_panic (by omega)
    simp [hslice, ValueShape.check, show ¬n ≤ value.length by omega]
  · rw [Outcome.slice_eq_ok (Nat.zero_le m) hm, Outcome.ok_bind]
    rcases Nat.lt_or_ge value.length n with hn | hn
    · have hslice : (Outcome.slice value m n : Result (List UInt8)) = .panic :=
        Outcome.slice_eq_panic (by omega)
      simp [hslice, ValueShape.check, hn]
    · simp [Outcome.slice_eq_ok hmn hn, ValueShape.check, hn]

/-- An IPv6 address and its prefix length end as `atLeast 17` says: the slice of
16 bytes always converts. -/
theorem ipv6_check {β : Type} {value : List UInt8} (f : List UInt8 → UInt8 → β) :
    (((Outcome.slice value 0 16 : Result _) >>= fun w => tryIntoArray 16 w >>= fun a =>
      Outcome.index value 16 >>= fun b => pure (f a b)) >>= fun _ => .ok ()) =
      (ValueShape.atLeast 17).check value := by
  rcases Nat.lt_or_ge value.length 16 with h | h
  · have hslice : (Outcome.slice value 0 16 : Result (List UInt8)) = .panic :=
      Outcome.slice_eq_panic (by omega)
    simp [hslice, ValueShape.check, show ¬17 ≤ value.length by omega]
  · have harray : tryIntoArray 16 ((value.drop 0).take (16 - 0)) = .ok ((value.drop 0).take (16 - 0)) :=
      if_pos (by simp; omega)
    rw [Outcome.slice_eq_ok (Nat.zero_le 16) h, Outcome.ok_bind, harray, Outcome.ok_bind]
    rcases Nat.lt_or_ge 16 value.length with h' | h'
    · simp [Outcome.index_eq_ok h', ValueShape.check, show 17 ≤ value.length by omega]
    · simp [Outcome.index_eq_panic h', ValueShape.check, show ¬17 ≤ value.length by omega]

/-- The two words of a process and thread id end as `atLeast 8` says. -/
theorem processid_check {β : Type} {e : Endian} {value : List UInt8} (f : ℕ → ℕ → β) :
    (((Outcome.slice value 0 4 : Result _) >>= fun v => e.readU32 v >>= fun a =>
      Outcome.slice value 4 8 >>= fun w => e.readU32 w >>= fun b => pure (f a b)) >>=
        fun _ => .ok ()) = (ValueShape.atLeast 8).check value := by
  rcases Nat.lt_or_ge value.length 4 with h | h
  · have hslice : (Outcome.slice value 0 4 : Result (List UInt8)) = .panic :=
      Outcome.slice_eq_panic (by omega)
    simp [hslice, ValueShape.check, show ¬8 ≤ value.length by omega]
  · rw [Endian.slice_readBytes 0 4 h]
    rcases Nat.lt_or_ge value.length 8 with h' | h'
    · have hslice : (Outcome.slice value 4 8 : Result (List UInt8)) = .panic :=
        Outcome.slice_eq_panic (by omega)
      simp [hslice, ValueShape.check, h']
    · rw [Endian.slice_readBytes 4 4 h']
      simp [ValueShape.check, h']

/-- `String::from_utf8` ends as `text` says. -/
theorem fromUtf8_check {β : Type} {value : List UInt8} (f : String → β) :
    ((fromUtf8 value >>= fun t => pure (f t)) >>= fun _ => .ok ()) =
      ValueShape.text.check value := by
  simp [ValueShape.check, Outcome.bind_assoc]

/-- Converting to an array ends as `array` says. -/
theorem tryIntoArray_check {β : Type} {value : List UInt8} {n : ℕ} (f : List UInt8 → β) :
    ((tryIntoArray n value >>= fun a => pure (f a)) >>= fun _ => .ok ()) =
      (ValueShape.array n).check value := by
  simp [ValueShape.check, Outcome.bind_assoc]

/-- The options of a section header are read by their shapes. -/
theorem follows_shb : Follows SectionHeader.setOption shbShape := by
  intro header type value
  unfold SectionHeader.setOption shbShape
  split
  · exact fromUtf8_check _
  · exact fromUtf8_check _
  · exact fromUtf8_check _
  · simp [ValueShape.check]

/-- The options of an interface description are read by their shapes. -/
theorem follows_if (e : Endian) : Follows (InterfaceDescription.setOption e) ifShape := by
  intro d type value
  unfold InterfaceDescription.setOption ifShape
  split
  case h_3 => exact slice_slice_check (by norm_num) _
  case h_4 => exact ipv6_check _
  case h_5 => exact ethAddr_check _
  case h_6 => exact tryIntoArray_check _
  case h_9 => exact readI32_check _
  case h_13 => exact readI64_check _
  all_goals first
    | exact fromUtf8_check _
    | exact readBytes_check _
    | exact index_check _
    | simp [ValueShape.check]

/-- The options of an enhanced packet block are read by their shapes. -/
theorem follows_epb (e : Endian) : Follows (EnhancedPacketHeaderOptions.setOption e) epbShape := by
  intro p type value
  unfold EnhancedPacketHeaderOptions.setOption epbShape
  split
  case h_7 => exact processid_check _
  all_goals first
    | exact readBytes_check _
    | simp [ValueShape.check]

/-! ### The block parsers -/

/-- The trailing length is read where every block parser has checked that there
is room for it. -/
theorem checkBlockTotalLength_eq {block : List UInt8} {e : Endian} {what : String}
    (h : 8 ≤ block.length) :
    checkBlockTotalLength block e what =
      if e.wordAt block 4 4 = e.wordAt block (block.length - 4) 4 then .ok ()
      else .err (.pcapngBlockTotalLengthMismatch what (e.wordAt block 4 4)
        (e.wordAt block (block.length - 4) 4)) := by
  have hend : block.length = block.length - 4 + 4 := by omega
  have htrailing : ∀ f : ℕ → Result Unit,
      (Outcome.slice block (block.length - 4) block.length >>= fun w => e.readU32 w >>= f) =
        f (e.wordAt block (block.length - 4) 4) := by
    intro f
    conv_lhs => rw [hend]
    simpa [← hend] using Endian.slice_readBytes (e := e) (block.length - 4) 4 hend.ge f
  rw [checkBlockTotalLength, Endian.slice_readBytes 4 4 h, htrailing]
  by_cases heq : e.wordAt block 4 4 = e.wordAt block (block.length - 4) 4
  · rw [if_neg (fun hne => hne heq), if_pos heq, Outcome.pure_eq]
  · rw [if_pos heq, if_neg heq]

/-- The check of the total length returns on a block with both of its lengths. -/
theorem checkBlockTotalLength_returns {block : List UInt8} {e : Endian} {what : String}
    (h : 8 ≤ block.length) : (checkBlockTotalLength block e what).Returns := by
  rw [checkBlockTotalLength_eq h]
  split_ifs <;> simp

/-- The check at the end of a parser returns, so only the option loop can keep
the parser from returning. -/
theorem returns_checked {β γ : Type} {block : List UInt8} {e : Endian} {what : String}
    (h : 8 ≤ block.length) {loop : Result β} (f : β → γ) :
    (loop >>= fun b => checkBlockTotalLength block e what >>= fun _ => pure (f b)).Returns ↔
      loop.Returns := by
  simp [Outcome.returns_bind, checkBlockTotalLength_returns h]

namespace SectionHeader

/-- The blocks that `parse` returns from. -/
def BlockFits (block : List UInt8) : Prop :=
  28 ≤ block.length → OptionsFit shbShape (magicEndian (bytesAt block 8 4)) block 24

/-- The parser of a section header returns exactly on a block that fits. -/
theorem parse_returns {block : List UInt8} : (parse block).Returns ↔ BlockFits block := by
  rcases Nat.lt_or_ge block.length 28 with h | h
  · simp [parse, h, BlockFits]
  · have hmagic : (Outcome.slice block 8 12 : Result _) = .ok (bytesAt block 8 4) :=
      slice_eq_bytesAt (show 8 + 4 ≤ block.length by omega)
    rw [parse, if_neg (by omega), hmagic, Outcome.ok_bind,
      Endian.slice_readBytes 12 2 (by omega), Endian.slice_readBytes 14 2 (by omega),
      Endian.slice_readI64 16 (by omega), returns_checked (by omega),
      optionLoop_returns follows_shb (by omega) (by omega)]
    exact ⟨fun hfit _ => hfit, fun hfit => hfit h⟩

end SectionHeader

namespace InterfaceDescription

/-- The blocks that `parse` returns from. -/
def BlockFits (block : List UInt8) (e : Endian) : Prop :=
  20 ≤ block.length → OptionsFit ifShape e block 16

/-- The parser of an interface description returns exactly on a block that fits. -/
theorem parse_returns {block : List UInt8} {e : Endian} :
    (parse block e).Returns ↔ BlockFits block e := by
  rcases Nat.lt_or_ge block.length 20 with h | h
  · simp [parse, h, BlockFits]
  · rw [parse, if_neg (by omega), Endian.slice_readBytes 8 2 (by omega),
      Endian.slice_readBytes 12 4 (by omega), returns_checked (by omega),
      optionLoop_returns (follows_if e) (by omega) (by omega)]
    exact ⟨fun hfit _ => hfit, fun hfit => hfit h⟩

end InterfaceDescription

/-- A Simple Packet Block has no options: its parser always returns. -/
theorem SimplePacketHeader.parse_returns (block : List UInt8) (e : Endian) :
    (parse block e).Returns := by
  rcases Nat.lt_or_ge block.length 16 with h | h
  · simp [parse, h]
  · rw [parse, if_neg (by omega), Outcome.returns_bind]
    refine ⟨checkBlockTotalLength_returns (by omega), fun _ _ => ?_⟩
    rw [Endian.slice_readBytes 8 4 (by omega), Outcome.slice_eq_ok (by omega) (by omega)]
    simp

namespace EnhancedPacketHeaderOptions

/-- The captured length field. -/
def capturedLenAt (block : List UInt8) (e : Endian) : ℕ := e.wordAt block 20 4

/-- The blocks that `parse` returns from: the captured length rounds up within a
`u32`, and if there is room for that much data the options behind it fit. -/
structure BlockFits (block : List UInt8) (e : Endian) : Prop where
  padded : 32 ≤ block.length → capturedLenAt block e ≤ 0xFFFFFFFC
  options : 28 + nextMultipleOf4 (capturedLenAt block e) + 4 ≤ block.length →
    OptionsFit epbShape e block (28 + nextMultipleOf4 (capturedLenAt block e))

/-- The blocks that `parse` accepts among those: there is room for the data, and
the two total lengths agree. -/
structure IsComplete (block : List UInt8) (e : Endian) : Prop where
  room : 28 + nextMultipleOf4 (capturedLenAt block e) + 4 ≤ block.length
  lengths : e.wordAt block 4 4 = e.wordAt block (block.length - 4) 4

/-- The fixed part of a block, as `parse` reads it. -/
def fixedPart (block : List UInt8) (e : Endian) : EnhancedPacketHeaderOptions :=
  ⟨e.wordAt block 8 4, e.wordAt block 12 4, e.wordAt block 16 4, e.wordAt block 20 4,
    e.wordAt block 24 4, none, [], none, none, none, [], none⟩

/-- Padding does not shorten. -/
theorem le_nextMultipleOf4 (n : ℕ) : n ≤ nextMultipleOf4 n := by
  simp only [nextMultipleOf4]
  omega

/-- What `parse` does once the fixed part is read. -/
theorem parse_eq {block : List UInt8} {e : Endian} (h : 32 ≤ block.length) :
    parse block e =
      if capturedLenAt block e ≤ 0xFFFFFFFC then
        if 28 + nextMultipleOf4 (capturedLenAt block e) + 4 ≤ block.length then
          optionLoop (setOption e) block e block.length
              (28 + nextMultipleOf4 (capturedLenAt block e)) (fixedPart block e) >>= fun p =>
            checkBlockTotalLength block e "Enhanced packet" >>= fun _ =>
              pure (p, bytesAt block 28 (capturedLenAt block e))
        else .err (.truncatedCapture "pcapng enhanced packet block")
      else .panic := by
  have hpad : 2 ^ 32 ≤ nextMultipleOf4 (capturedLenAt block e) ↔
      ¬capturedLenAt block e ≤ 0xFFFFFFFC := by
    simp only [nextMultipleOf4]
    omega
  have hle := le_nextMultipleOf4 (capturedLenAt block e)
  rw [parse, if_neg (by omega), Endian.slice_readBytes 8 4 (by omega),
    Endian.slice_readBytes 12 4 (by omega), Endian.slice_readBytes 16 4 (by omega),
    Endian.slice_readBytes 20 4 (by omega), Endian.slice_readBytes 24 4 (by omega),
    ← capturedLenAt]
  by_cases hcap : capturedLenAt block e ≤ 0xFFFFFFFC
  · rw [if_neg (fun h => hpad.1 h hcap), if_pos hcap]
    by_cases hroom : 28 + nextMultipleOf4 (capturedLenAt block e) + 4 ≤ block.length
    · rw [if_neg (by omega), if_pos hroom, slice_eq_bytesAt (by omega), Outcome.ok_bind]
      rfl
    · rw [if_pos (by omega), if_neg hroom]
  · rw [if_pos (hpad.2 hcap), if_neg hcap]

/-- The parser of an enhanced packet block returns exactly on a block that fits. -/
theorem parse_returns {block : List UInt8} {e : Endian} :
    (parse block e).Returns ↔ BlockFits block e := by
  rcases Nat.lt_or_ge block.length 32 with h | h
  · refine iff_of_true (by simp [parse, h]) ⟨by omega, fun hroom => by omega⟩
  rw [parse_eq h]
  split_ifs with hcap hroom
  · rw [returns_checked (by omega), optionLoop_returns (follows_epb e) (by omega) (by omega)]
    exact ⟨fun hfit => ⟨fun _ => hcap, fun _ => hfit⟩, fun hfit => hfit.options hroom⟩
  · exact iff_of_true (by simp) ⟨fun _ => hcap, fun hroom' => absurd hroom' hroom⟩
  · exact iff_of_false (by simp) fun hfit => hcap (hfit.padded h)

/-- No option touches a field of the fixed part. -/
theorem setOption_fixed {e : Endian} {p p' : EnhancedPacketHeaderOptions} {type : ℕ}
    {value : List UInt8} (h : setOption e p type value = .ok p') :
    (p'.interfaceId, p'.timestampHigh, p'.timestampLow) =
      (p.interfaceId, p.timestampHigh, p.timestampLow) := by
  unfold setOption at h
  split at h
  all_goals
    simp only [Outcome.bind_eq_ok, Outcome.pure_eq, Outcome.ok.injEq] at h
  case h_7 =>
    obtain ⟨_, _, _, _, _, _, _, _, rfl⟩ := h
    rfl
  all_goals
    obtain ⟨_, _, rfl⟩ := h
    rfl

/-- What `parse` accepts is a complete block, and the fixed part is read as it
stands. -/
theorem parse_ok {block : List UInt8} {e : Endian} {p : EnhancedPacketHeaderOptions}
    {data : List UInt8} (h : parse block e = .ok (p, data)) :
    IsComplete block e ∧ p.interfaceId = e.wordAt block 8 4 ∧
      p.timestampHigh = e.wordAt block 12 4 ∧ p.timestampLow = e.wordAt block 16 4 := by
  rcases Nat.lt_or_ge block.length 32 with hlt | hge
  · simp [parse, hlt] at h
  rw [parse_eq hge] at h
  split_ifs at h with hcap hroom
  obtain ⟨p', hloop, hcheck⟩ := Outcome.bind_eq_ok.1 h
  rw [checkBlockTotalLength_eq (by omega)] at hcheck
  split_ifs at hcheck with hlengths
  · simp only [Outcome.ok_bind, Outcome.pure_eq, Outcome.ok.injEq, Prod.mk.injEq] at hcheck
    obtain ⟨rfl, rfl⟩ := hcheck
    have hfixed := optionLoop_invariant
      (fun q : EnhancedPacketHeaderOptions => (q.interfaceId, q.timestampHigh, q.timestampLow))
      (fun _ _ _ _ => setOption_fixed) hloop
    simp only [fixedPart, Prod.mk.injEq] at hfixed
    exact ⟨⟨hroom, hlengths⟩, hfixed⟩
  · simp at hcheck

/-- A complete block that fits is accepted: no Enhanced Packet Block option is
ever turned down. -/
theorem exists_parse_ok {block : List UInt8} {e : Endian} (hfits : BlockFits block e)
    (h : IsComplete block e) : ∃ p data, parse block e = .ok (p, data) := by
  have hroom := h.room
  have hlen : 32 ≤ block.length := by omega
  have hreturns := parse_returns.2 hfits
  rw [parse_eq hlen, if_pos (hfits.padded hlen), if_pos h.room] at hreturns ⊢
  obtain ⟨p, hp⟩ := optionLoop_ok (follows_epb e) not_rejects_epbShape
    ((returns_checked (by omega) _).1 hreturns)
  rw [hp, checkBlockTotalLength_eq (by omega), if_pos h.lengths]
  exact ⟨p, _, rfl⟩

end EnhancedPacketHeaderOptions

/-! ### Timestamps -/

/-- `raw` units of `base ^ -exponent` seconds in nanoseconds, `base ^ unit` of
them a second, rounded towards zero. -/
def scaledStamp (base : ℤ) (unit exponent : ℕ) (raw : ℤ) : ℤ :=
  if exponent ≤ unit then raw * base ^ (unit - exponent) else raw.tdiv (base ^ (exponent - unit))

/-- The nanoseconds that a raw timestamp stands for, before the offset. -/
def stampUnits (raw : ℕ) (tsresol : UInt8) : ℤ :=
  if tsresol.toNat < 128 then scaledStamp 10 9 tsresol.toNat (I64.ofWord raw).val
  else scaledStamp 2 30 (tsresol.toNat - 128) (I64.ofWord raw).val

/-- The raw timestamps whose conversion stays in `i64` at every step. -/
structure StampFits (raw : ℕ) (tsresol : UInt8) (tsoffset : I64) : Prop where
  /-- The power of the resolution: up to `10 ^ 18` or `2 ^ 62`. -/
  resolution : tsresol.toNat ≤ 27 ∨ 128 ≤ tsresol.toNat ∧ tsresol.toNat ≤ 220
  /-- The scaled count. -/
  units : I64.InRange (stampUnits raw tsresol)
  /-- The offset in nanoseconds. -/
  offset : I64.InRange (tsoffset.val * 1000000000)
  /-- Their sum. -/
  sum : I64.InRange (stampUnits raw tsresol + tsoffset.val * 1000000000)

namespace EnhancedPacketHeaderOptions

/-- Scaling returns exactly when the power and the result are in range, and then
it is the scaled count. -/
theorem scaleTimestamp_eq (base : ℤ) (unit exponent : ℕ) (raw : I64) :
    scaleTimestamp base unit exponent raw =
      if I64.InRange (base ^ (unit - exponent + (exponent - unit))) then
        I64.checked (scaledStamp base unit exponent raw.val)
      else .panic := by
  unfold scaleTimestamp scaledStamp
  by_cases h : exponent ≤ unit
  · rw [if_pos h, if_pos h, show unit - exponent + (exponent - unit) = unit - exponent by omega]
    split_ifs with hpow
    · rw [I64.checked_eq_ok hpow, Outcome.ok_bind]
    · rw [I64.checked, dif_neg hpow, Outcome.panic_bind]
  · rw [if_neg h, if_neg h, show unit - exponent + (exponent - unit) = exponent - unit by omega]
    split_ifs with hpow
    · rw [I64.checked_eq_ok hpow, Outcome.ok_bind]
    · rw [I64.checked, dif_neg hpow, Outcome.panic_bind]

/-- A power is in range up to the last exponent that is. -/
theorem inRange_pow {base : ℤ} {m : ℕ} (hbase : 1 ≤ base) (hlast : base ^ m ≤ 2 ^ 63 - 1)
    (hnext : 2 ^ 63 - 1 < base ^ (m + 1)) (k : ℕ) : I64.InRange (base ^ k) ↔ k ≤ m := by
  constructor
  · intro h
    by_contra hlt
    have hmono : base ^ (m + 1) ≤ base ^ k := pow_le_pow_right₀ hbase (by omega)
    have hk := h.2
    omega
  · intro h
    have hmono : base ^ k ≤ base ^ m := pow_le_pow_right₀ hbase h
    have hpos : 0 ≤ base ^ k := by positivity
    exact ⟨by omega, by omega⟩

/-- Clearing the top bit of a resolution byte that has it. -/
theorem toNat_xor_0x80 {tsresol : UInt8} (h : 128 ≤ tsresol.toNat) :
    (tsresol ^^^ 0x80).toNat = tsresol.toNat - 128 := by
  have hbyte : ∀ n : Fin 256, 128 ≤ n.val → n.val ^^^ 128 = n.val - 128 := by
    decide +kernel
  rw [UInt8.toNat_xor]
  exact hbyte ⟨tsresol.toNat, tsresol.toNat_lt⟩ h

/-- The additions at the end of `calc_timestamp`. -/
theorem checked_sum_returns (units offset : ℤ) :
    ((I64.checked units : Result I64) >>= fun t => (I64.checked offset : Result I64) >>= fun o =>
      (I64.checked (t.val + o.val) : Result I64)).Returns ↔
    I64.InRange units ∧ I64.InRange offset ∧ I64.InRange (units + offset) := by
  by_cases hunits : I64.InRange units
  · rw [I64.checked_eq_ok hunits, Outcome.ok_bind]
    by_cases hoffset : I64.InRange offset
    · rw [I64.checked_eq_ok hoffset, Outcome.ok_bind, I64.checked_returns]
      exact ⟨fun h => ⟨hunits, hoffset, h⟩, fun h => h.2.2⟩
    · rw [I64.checked, dif_neg hoffset]
      exact iff_of_false id fun h => hoffset h.2.1
  · rw [I64.checked, dif_neg hunits]
    exact iff_of_false id fun h => hunits h.1

/-- **The timestamp conversion returns exactly on the stamps that fit.** -/
theorem calcTimestamp_returns {raw : ℕ} {tsresol : UInt8} {tsoffset : I64} :
    (calcTimestamp raw tsresol tsoffset).Returns ↔ StampFits raw tsresol tsoffset := by
  have hlt : tsresol.toNat < 256 := tsresol.toNat_lt
  have hscaled : ∀ base : ℤ, ∀ unit exponent : ℕ,
      stampUnits raw tsresol = scaledStamp base unit exponent (I64.ofWord raw).val →
      (I64.InRange (base ^ (unit - exponent + (exponent - unit))) ↔
        tsresol.toNat ≤ 27 ∨ 128 ≤ tsresol.toNat ∧ tsresol.toNat ≤ 220) →
      ((scaleTimestamp base unit exponent (I64.ofWord raw) >>= fun t =>
        (I64.checked (tsoffset.val * 1000000000) : Result I64) >>= fun o =>
          (I64.checked (t.val + o.val) : Result I64)).Returns ↔
        StampFits raw tsresol tsoffset) := by
    intro base unit exponent hunits hpow
    rw [scaleTimestamp_eq, ← hunits]
    by_cases h : I64.InRange (base ^ (unit - exponent + (exponent - unit)))
    · rw [if_pos h, checked_sum_returns]
      exact ⟨fun hsum => ⟨hpow.1 h, hsum.1, hsum.2.1, hsum.2.2⟩,
        fun hfits => ⟨hfits.units, hfits.offset, hfits.sum⟩⟩
    · rw [if_neg h]
      exact iff_of_false id fun hfits => h (hpow.2 hfits.resolution)
  rw [calcTimestamp]
  by_cases h : tsresol.toNat < 128
  · rw [if_pos h]
    refine hscaled 10 9 tsresol.toNat (by rw [stampUnits, if_pos h]) ?_
    have hpow := @inRange_pow 10 18 (by norm_num) (by norm_num) (by norm_num)
    rw [hpow]
    omega
  · rw [if_neg h]
    have hxor := toNat_xor_0x80 (Nat.le_of_not_lt h)
    refine hscaled 2 30 (tsresol ^^^ 0x80).toNat (by rw [stampUnits, if_neg h, hxor]) ?_
    have hpow := @inRange_pow 2 62 (by norm_num) (by norm_num) (by norm_num)
    rw [hpow, hxor]
    omega

end EnhancedPacketHeaderOptions

end Capture
end Maja
