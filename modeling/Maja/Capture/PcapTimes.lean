/-
# The timestamps of pcap records

`PcapPacketHeader::to_packet` and `PcapWriter::write_packet` of
`src/capture/format/pcap.rs`, as far as they compute with times.

Reading scales a fraction of microseconds in the `u32` that it was read into, so it
is exact (`toPacket_exact_iff`) for the fractions that are still a `u32` in
nanoseconds.  Writing cuts the seconds and the remainder of a signed time to a
`u32` each, so a time is read back (`stamp_readBack_iff`) if it is not before the
epoch and its seconds are a `u32`.
-/

import Maja.Capture.PcapWriter
import Mathlib.Data.List.Forall2

namespace Maja
namespace Capture

open Lib

namespace PcapPacketHeader

/-! ### Reading -/

/-- `ts_nsec` of `to_packet`. -/
def tsNsecIn (overflowChecks nanosecond : Bool) (header : PcapPacketHeader) : Result ℕ :=
  if nanosecond then .ok header.tsUsec else U32.arith overflowChecks (header.tsUsec * 1000)

/-- `to_packet` in a build with overflow checks or without them. -/
def toPacketIn (overflowChecks : Bool) (header : PcapPacketHeader) (data : List UInt8)
    (nanosecond : Bool) (linkType : LinkType) : Result PacketRecord := do
  let tsNsec ← tsNsecIn overflowChecks nanosecond header
  let timestamp ← I64.arith overflowChecks (header.tsSec * 1000000000 + tsNsec)
  pure ⟨timestamp, header.origLen, data, linkType⟩

variable {header : PcapPacketHeader} {data raw : List UInt8} {nanosecond : Bool}
  {linkType : LinkType}

/-- The time that a header stands for, in nanoseconds. -/
def exactStamp (nanosecond : Bool) (header : PcapPacketHeader) : ℕ :=
  header.tsSec * 1000000000 + if nanosecond then header.tsUsec else header.tsUsec * 1000

/-- The fraction of a second is a `u32` in nanoseconds too. -/
def FractionFits (nanosecond : Bool) (header : PcapPacketHeader) : Prop :=
  nanosecond = true ∨ header.tsUsec * 1000 < 2 ^ 32

instance : Decidable (FractionFits nanosecond header) :=
  inferInstanceAs (Decidable (_ ∨ _))

/-- The seconds and a fraction that fits are an `i64`. -/
theorem exactStamp_inRange (hsec : header.tsSec < 2 ^ 32) (husec : header.tsUsec < 2 ^ 32)
    (hfits : FractionFits nanosecond header) : I64.InRange (exactStamp nanosecond header) := by
  unfold exactStamp I64.InRange
  rcases hfits with rfl | hfits
  · rw [if_pos rfl]
    omega
  · split_ifs <;> omega

/-- A fraction that fits is scaled without a loss. -/
theorem toPacketIn_of_fractionFits {overflowChecks : Bool} (hsec : header.tsSec < 2 ^ 32)
    (husec : header.tsUsec < 2 ^ 32) (hfits : FractionFits nanosecond header) :
    header.toPacketIn overflowChecks data nanosecond linkType =
      .ok (header.packetAt data linkType ⟨exactStamp nanosecond header,
        exactStamp_inRange hsec husec hfits⟩) := by
  have hrange := exactStamp_inRange hsec husec hfits
  have hscale : tsNsecIn overflowChecks nanosecond header =
      .ok (if nanosecond then header.tsUsec else header.tsUsec * 1000) := by
    rcases hfits with rfl | hfits
    · rfl
    · have hnot : ¬(overflowChecks = true ∧ 2 ^ 32 ≤ header.tsUsec * 1000) := fun h => by omega
      rw [tsNsecIn, U32.arith, if_neg hnot, Nat.mod_eq_of_lt hfits, apply_ite Outcome.ok]
  have hstamp : (header.tsSec : ℤ) * 1000000000 +
      ((if nanosecond then header.tsUsec else header.tsUsec * 1000 : ℕ) : ℤ) =
        exactStamp nanosecond header := by
    rw [exactStamp, Nat.cast_add, Nat.cast_mul]
    rfl
  rw [toPacketIn, hscale, Outcome.ok_bind, hstamp, I64.arith, dif_pos hrange]
  rfl

/-- A fraction that does not fit panics, or loses its upper bits. -/
theorem toPacketIn_of_not_fractionFits {overflowChecks : Bool} (hsec : header.tsSec < 2 ^ 32)
    (hfits : ¬FractionFits nanosecond header) {packet : PacketRecord}
    (h : header.toPacketIn overflowChecks data nanosecond linkType = .ok packet) :
    packet.timestamp.val < exactStamp nanosecond header := by
  obtain ⟨rfl, hlarge⟩ : nanosecond = false ∧ 2 ^ 32 ≤ header.tsUsec * 1000 := by
    unfold FractionFits at hfits
    cases nanosecond with
    | true => exact absurd (.inl rfl) hfits
    | false => exact ⟨rfl, by omega⟩
  have hmod := Nat.mod_lt (header.tsUsec * 1000) (show 0 < 2 ^ 32 by norm_num)
  have hrange : I64.InRange (header.tsSec * 1000000000 + (header.tsUsec * 1000 % 2 ^ 32 : ℕ)) := by
    constructor <;> omega
  unfold toPacketIn tsNsecIn U32.arith at h
  rw [if_neg Bool.false_ne_true] at h
  cases overflowChecks with
  | true =>
    rw [if_pos ⟨rfl, hlarge⟩] at h
    cases h
  | false =>
    rw [if_neg (by simp), Outcome.ok_bind, I64.arith, dif_pos hrange] at h
    obtain rfl := Outcome.ok.inj h
    show (header.tsSec : ℤ) * 1000000000 + (header.tsUsec * 1000 % 2 ^ 32 : ℕ) <
      (exactStamp false header : ℕ)
    rw [exactStamp, if_neg Bool.false_ne_true]
    omega

/-- **Reading is exact** for the fractions that are a `u32` in nanoseconds, and
for no others. -/
theorem toPacket_exact_iff (overflowChecks : Bool) (raw data : List UInt8) (e : Endian)
    (nanosecond : Bool) (linkType : LinkType) (hraw : LEN ≤ raw.length) :
    (∃ packet, (parse raw e >>= fun header =>
        header.toPacketIn overflowChecks data nanosecond linkType) = .ok packet ∧
        packet.timestamp.val = exactStamp nanosecond (read raw e)) ↔
      FractionFits nanosecond (read raw e) := by
  have hsec : (read raw e).tsSec < 2 ^ 32 := e.wordAt_lt raw 0 4
  have husec : (read raw e).tsUsec < 2 ^ 32 := e.wordAt_lt raw 4 4
  rw [parse_eq hraw, Outcome.ok_bind]
  constructor
  · rintro ⟨packet, hpacket, hstamp⟩
    by_contra hfits
    have hlt := toPacketIn_of_not_fractionFits hsec hfits hpacket
    omega
  · intro hfits
    exact ⟨_, toPacketIn_of_fractionFits hsec husec hfits, rfl⟩

/-- The header of a record 4.294968 seconds after the epoch, all of them in the
fraction. -/
def lateFraction : List UInt8 := [0, 0, 0, 0, 0, 0x41, 0x89, 0x38] ++ List.replicate 8 0

/-- **The fraction is not scaled**: it panics, or becomes 704 nanoseconds. -/
theorem lateFraction_not_exact :
    (PcapPacketHeader.parse lateFraction .big >>= fun header =>
        header.toPacketIn true [] false .ethernet) = .panic ∧
      (PcapPacketHeader.parse lateFraction .big >>= fun header =>
        header.toPacketIn false [] false .ethernet) = .ok ⟨I64.ofInt 704, 0, [], .ethernet⟩ ∧
      exactStamp false (read lateFraction .big) = 4294968000 := by
  decide +kernel

/-- A fraction of two seconds is exact. -/
theorem toPacket_exact_iff_twoSeconds :
    (∃ packet, (parse ([0, 0, 0, 1, 0, 0x1E, 0x84, 0x80] ++ List.replicate 8 0) .big >>=
        fun header => header.toPacketIn true [] false .ethernet) = .ok packet ∧
        packet.timestamp.val = exactStamp false
          (read ([0, 0, 0, 1, 0, 0x1E, 0x84, 0x80] ++ List.replicate 8 0) .big)) ↔
      FractionFits false (read ([0, 0, 0, 1, 0, 0x1E, 0x84, 0x80] ++ List.replicate 8 0) .big) :=
  toPacket_exact_iff true _ [] .big false .ethernet (by decide)

end PcapPacketHeader

namespace PcapWriter

variable {nanosecond : Bool}

/-! ### Writing -/

/-- A time, floored to the precision of the file. -/
def stampFloor (nanosecond : Bool) (timestamp : I64) : ℤ :=
  if nanosecond then timestamp.val else timestamp.val / 1000 * 1000

/-- The time is not before the epoch, and its seconds are a `u32`. -/
def SecondsFit (timestamp : I64) : Prop :=
  0 ≤ timestamp.val ∧ timestamp.val < 2 ^ 32 * 1000000000

instance : DecidablePred SecondsFit := fun _ => inferInstanceAs (Decidable (_ ∧ _))

/-- A record holds the time of its packet if the seconds of that time fit. -/
theorem stampOf_eq_iff (nanosecond : Bool) (timestamp : I64) :
    (stampOf nanosecond timestamp : ℤ) = stampFloor nanosecond timestamp ↔
      SecondsFit timestamp := by
  have hsecLt := asU32_lt (timestamp.val.tdiv 1000000000)
  constructor
  · intro h
    have hlo : 0 ≤ timestamp.val := by
      unfold stampFloor at h
      split_ifs at h <;> omega
    refine ⟨hlo, ?_⟩
    -- The remainder is below a second, so the seconds bound the whole.
    have hnsec : (asU32 (timestamp.val.tmod 1000000000) : ℤ) = timestamp.val % 1000000000 := by
      rw [Int.tmod_eq_emod_of_nonneg hlo]
      exact asU32_of_lt (by omega) (by omega)
    have hstamp : (stampOf nanosecond timestamp : ℤ) < 2 ^ 32 * 1000000000 := by
      unfold stampOf
      dsimp only
      split_ifs <;> omega
    unfold stampFloor at h
    split_ifs at h <;> omega
  · rintro ⟨hlo, hhi⟩
    obtain ⟨hsec, hnsec⟩ := asU32_timestamp hlo hhi
    unfold stampOf stampFloor
    dsimp only
    split_ifs <;> omega

/-- **Writing a time and reading it back.**  Both readers read every record that was
written, and a record has the time of its packet if the seconds of that time are
a `u32`, and only then. -/
theorem stamp_readBack_iff (bigEndian nanosecond : Bool) (snapLen : ℕ) (linkType : LinkType)
    (packets : List PacketRecord) (hsnap : snapLen < 2 ^ 32) (hlink : linkType.toCode < 2 ^ 16)
    (horig : ∀ p ∈ packets, p.originalLength < 2 ^ 32) :
    ∃ read, BothRead (writeAll bigEndian nanosecond snapLen linkType packets).written read ∧
      List.Forall₂ (fun packet packet' =>
        packet'.timestamp.val = stampFloor nanosecond packet.timestamp ↔
          SecondsFit packet.timestamp) packets read := by
  refine ⟨_, bothRead_records hsnap hlink horig, ?_⟩
  rw [List.forall₂_map_right_iff]
  exact List.forall₂_same.2 fun packet _ => stampOf_eq_iff nanosecond packet.timestamp

/-- A packet one nanosecond before the epoch. -/
def earlyPacket : PacketRecord := ⟨I64.ofInt (-1), 0, [], .ethernet⟩

/-- **It is read back more than four seconds late.** -/
theorem earlyPacket_not_readBack :
    BothRead (writeAll true true 65535 .ethernet [earlyPacket]).written
        [⟨I64.ofInt 4294967295, 0, [], .ethernet⟩] ∧
      (I64.ofInt 4294967295).val ≠ stampFloor true earlyPacket.timestamp := by
  have hread : BothRead (writeAll true true 65535 .ethernet [earlyPacket]).written _ :=
    bothRead_records (by norm_num) (by decide) (by decide)
  exact ⟨hread, by decide⟩

/-- A packet of the last second that fits, and one of the next. -/
theorem stamp_readBack_iff_lastSecond :
    ∃ read, BothRead (writeAll false false 65535 .ethernet
        [⟨I64.ofInt 4294967295999999999, 0, [], .ethernet⟩,
          ⟨I64.ofInt 4294967296000000000, 0, [], .ethernet⟩]).written read ∧
      List.Forall₂ (fun packet packet' : PacketRecord =>
        packet'.timestamp.val = stampFloor false packet.timestamp ↔ SecondsFit packet.timestamp)
        [⟨I64.ofInt 4294967295999999999, 0, [], .ethernet⟩,
          ⟨I64.ofInt 4294967296000000000, 0, [], .ethernet⟩] read :=
  stamp_readBack_iff false false 65535 .ethernet
    [⟨I64.ofInt 4294967295999999999, 0, [], .ethernet⟩,
      ⟨I64.ofInt 4294967296000000000, 0, [], .ethernet⟩] (by norm_num) (by decide) (by decide)

end PcapWriter

end Capture
end Maja
