/-
# The pcap slice reader

The headers and the slice reader of `src/capture/format/pcap.rs`, with arithmetic
overflow a panic, as it is in a build with overflow checks.

The global header fixes the byte order, the precision of the timestamps and the
link type of the whole file.  A record depends on that header and on its own bytes
only, so `nextPacketWithOffset_append` reads it wherever it stands in a file.
-/

import Maja.Capture.Basic
import Maja.Lib.Iterate

namespace Maja
namespace Capture

open Lib

namespace Magic

@[match_pattern] def BE_USEC : ℕ := 0xA1B2C3D4
@[match_pattern] def BE_NSEC : ℕ := 0xA1B23C4D
@[match_pattern] def LE_USEC : ℕ := 0xD4C3B2A1
@[match_pattern] def LE_NSEC : ℕ := 0x4D3CB2A1

end Magic

/-- `PcapHeader`. -/
structure PcapHeader where
  magicNumber : ℕ
  majorVersion : ℕ
  minorVersion : ℕ
  reserved1 : ℕ
  reserved2 : ℕ
  snapLen : ℕ
  additionalInfoLinkType : ℕ
  deriving DecidableEq, Repr

namespace PcapHeader

/-- `PcapHeader::LEN`. -/
def LEN : ℕ := 24

/-- The byte order that a magic number stands for. -/
def magicEndian? : ℕ → Option Endian
  | Magic.BE_USEC => some .big
  | Magic.BE_NSEC => some .big
  | Magic.LE_USEC => some .little
  | Magic.LE_NSEC => some .little
  | _ => none

/-- `PcapHeader::parse`. -/
def parse (data : List UInt8) : Result PcapHeader :=
  if data.length < LEN then
    .err (.truncatedCapture "pcap global header")
  else do
    let magicNumber ← Endian.big.readU32 (← Outcome.slice data 0 4)
    match magicEndian? magicNumber with
    | none => .err (.invalidMagicNumber magicNumber)
    | some e => do
        let majorVersion ← e.readU16 (← Outcome.slice data 4 data.length)
        let minorVersion ← e.readU16 (← Outcome.slice data 6 data.length)
        let reserved1 ← e.readU32 (← Outcome.slice data 8 data.length)
        let reserved2 ← e.readU32 (← Outcome.slice data 12 data.length)
        let snapLen ← e.readU32 (← Outcome.slice data 16 data.length)
        let additionalInfoLinkType ← e.readU32 (← Outcome.slice data 20 data.length)
        pure ⟨magicNumber, majorVersion, minorVersion, reserved1, reserved2, snapLen,
          additionalInfoLinkType⟩

/-- `PcapHeader::link_type`. -/
def linkType (header : PcapHeader) : LinkType :=
  .ofCode (header.additionalInfoLinkType &&& 0xFFFF)

/-- `PcapHeader::is_big_endian`. -/
def isBigEndian (header : PcapHeader) : Bool :=
  header.magicNumber = Magic.BE_USEC ∨ header.magicNumber = Magic.BE_NSEC

/-- `PcapHeader::is_nanosecond`. -/
def isNanosecond (header : PcapHeader) : Bool :=
  header.magicNumber = Magic.BE_NSEC ∨ header.magicNumber = Magic.LE_NSEC

/-- `PcapHeader::endian`. -/
def endian (header : PcapHeader) : Endian := if header.isBigEndian then .big else .little

/-- The rest of a slice holds the word at its start. -/
theorem slice_readBytes_tail {β : Type} {e : Endian} {data : List UInt8} (lo n : ℕ)
    (hle : lo + n ≤ data.length) (f : ℕ → Result β) :
    (Outcome.slice data lo data.length >>= fun w => e.readBytes n w >>= f) =
      f (e.wordAt data lo n) := by
  have hlen : n ≤ (data.drop lo).length := by
    rw [List.length_drop]
    omega
  rw [Outcome.slice_eq_ok (by omega) le_rfl, Outcome.ok_bind,
    List.take_of_length_le (by rw [List.length_drop]),
    Endian.readBytes_eq_ok hlen, Outcome.ok_bind]
  rfl

/-- What `parse` reads of a whole header. -/
theorem parse_eq {data : List UInt8} (h : LEN ≤ data.length) :
    parse data =
      match magicEndian? (Endian.big.wordAt data 0 4) with
      | none => .err (.invalidMagicNumber (Endian.big.wordAt data 0 4))
      | some e => .ok ⟨Endian.big.wordAt data 0 4, e.wordAt data 4 2, e.wordAt data 6 2,
          e.wordAt data 8 4, e.wordAt data 12 4, e.wordAt data 16 4, e.wordAt data 20 4⟩ := by
  have hlen : 24 ≤ data.length := h
  rw [parse, if_neg (by omega)]
  rw [Endian.slice_readBytes 0 4 (by omega)]
  cases magicEndian? (Endian.big.wordAt data 0 4) with
  | none => rfl
  | some e =>
    dsimp only
    rw [slice_readBytes_tail 4 2 (by omega), slice_readBytes_tail 6 2 (by omega),
      slice_readBytes_tail 8 4 (by omega), slice_readBytes_tail 12 4 (by omega),
      slice_readBytes_tail 16 4 (by omega), slice_readBytes_tail 20 4 (by omega)]
    rfl

/-- The header is read from its own bytes. -/
theorem parse_append {head rest : List UInt8} (h : LEN ≤ head.length) :
    parse (head ++ rest) = parse head := by
  have hlen : 24 ≤ head.length := h
  rw [parse_eq (h.trans (by simp)), parse_eq h, Endian.wordAt_append _ (by omega)]
  cases magicEndian? (Endian.big.wordAt head 0 4) with
  | none => rfl
  | some e =>
    simp only
    rw [e.wordAt_append (by omega), e.wordAt_append (by omega), e.wordAt_append (by omega),
      e.wordAt_append (by omega), e.wordAt_append (by omega), e.wordAt_append (by omega)]

end PcapHeader

/-- `PcapPacketHeader`. -/
structure PcapPacketHeader where
  tsSec : ℕ
  tsUsec : ℕ
  inclLen : ℕ
  origLen : ℕ
  deriving DecidableEq, Repr

namespace PcapPacketHeader

/-- `PcapPacketHeader::LEN`. -/
def LEN : ℕ := 16

/-- `PcapPacketHeader::parse`. -/
def parse (data : List UInt8) (e : Endian) : Result PcapPacketHeader := do
  let tsSec ← e.readU32 (← Outcome.slice data 0 data.length)
  let tsUsec ← e.readU32 (← Outcome.slice data 4 data.length)
  let inclLen ← e.readU32 (← Outcome.slice data 8 data.length)
  let origLen ← e.readU32 (← Outcome.slice data 12 data.length)
  pure ⟨tsSec, tsUsec, inclLen, origLen⟩

/-- The header that `data` starts with. -/
def read (data : List UInt8) (e : Endian) : PcapPacketHeader :=
  ⟨e.wordAt data 0 4, e.wordAt data 4 4, e.wordAt data 8 4, e.wordAt data 12 4⟩

/-- A header that is long enough is parsed. -/
theorem parse_eq {data : List UInt8} {e : Endian} (h : LEN ≤ data.length) :
    parse data e = .ok (read data e) := by
  have hlen : 16 ≤ data.length := h
  rw [parse, PcapHeader.slice_readBytes_tail 0 4 (by omega),
    PcapHeader.slice_readBytes_tail 4 4 (by omega), PcapHeader.slice_readBytes_tail 8 4 (by omega),
    PcapHeader.slice_readBytes_tail 12 4 (by omega)]
  rfl

/-- `PcapPacketHeader::to_packet`.  Microseconds are scaled in a `u32`. -/
def toPacket (header : PcapPacketHeader) (data : List UInt8) (nanosecond : Bool)
    (linkType : LinkType) : Result PacketRecord := do
  let tsNsec ←
    if nanosecond then
      pure header.tsUsec
    else if header.tsUsec * 1000 < 2 ^ 32 then
      pure (header.tsUsec * 1000)
    else
      .panic
  let timestamp ← I64.checked (header.tsSec * 1000000000 + tsNsec)
  pure ⟨timestamp, header.origLen, data, linkType⟩

end PcapPacketHeader

/-- `PcapPacketRecord`. -/
structure PcapPacketRecord where
  offset : ℕ
  header : PcapPacketHeader
  data : List UInt8
  deriving DecidableEq, Repr

/-- `PcapSliceReader`.  The offset of the next record never leaves the data. -/
structure PcapSliceReader where
  header : PcapHeader
  data : List UInt8
  pos : ℕ
  pos_le : pos ≤ data.length

namespace PcapSliceReader

/-- `PcapSliceReader::new`. -/
def new (data : List UInt8) : Result PcapSliceReader := do
  let header ← PcapHeader.parse data
  if h : PcapHeader.LEN ≤ data.length then
    pure ⟨header, data, PcapHeader.LEN, h⟩
  else
    .panic

/-- `&self.data[self.pos..]`. -/
def remaining (s : PcapSliceReader) : List UInt8 := s.data.drop s.pos

/-- `PcapSliceReader::read_packet_raw`. -/
def readPacketRaw : Prog PcapSliceReader CaptureError (Option PcapPacketRecord) := fun s =>
  if s.remaining.isEmpty then
    .ok (none, s)
  else if s.remaining.length < PcapPacketHeader.LEN then
    .err (.truncatedCapture "pcap packet header", s)
  else do
    let header ← (PcapPacketHeader.parse s.remaining s.header.endian).mapErr (·, s)
    let dataStart := s.pos + PcapPacketHeader.LEN
    let dataEnd := dataStart + header.inclLen
    if h : s.data.length < dataEnd then
      .err (.truncatedCapture "pcap packet data", s)
    else do
      let data ← Outcome.slice s.data dataStart dataEnd
      pure (some ⟨s.pos, header, data⟩, { s with pos := dataEnd, pos_le := Nat.le_of_not_lt h })

/-- `PcapSliceReader::next_packet_with_offset`. -/
def nextPacketWithOffset : Prog PcapSliceReader CaptureError (Option LocatedPacketRecord) := do
  match ← readPacketRaw with
  | some record => do
      let s ← Prog.get
      let raw ← Prog.lift (Outcome.slice s.data record.offset
        (record.offset + PcapPacketHeader.LEN + record.data.length))
      let packet ← Prog.lift (record.header.toPacket record.data s.header.isNanosecond
        s.header.linkType)
      pure (some ⟨record.offset, raw, packet⟩)
  | none => pure none

/-! ### One record -/

/-- The bytes `raw` are a record of a file with the given header, and `packet` is
the packet in it. -/
structure Holds (header : PcapHeader) (raw : List UInt8) (packet : PacketRecord) : Prop where
  len : PcapPacketHeader.LEN ≤ raw.length
  inclLen : PcapPacketHeader.LEN + (PcapPacketHeader.read raw header.endian).inclLen = raw.length
  packet : (PcapPacketHeader.read raw header.endian).toPacket (raw.drop PcapPacketHeader.LEN)
    header.isNanosecond header.linkType = .ok packet

/-- What follows a record header does not matter to it. -/
theorem read_append {raw rest : List UInt8} (e : Endian) (h : PcapPacketHeader.LEN ≤ raw.length) :
    PcapPacketHeader.read (raw ++ rest) e = PcapPacketHeader.read raw e := by
  have hlen : 16 ≤ raw.length := h
  rw [PcapPacketHeader.read, PcapPacketHeader.read, e.wordAt_append (by omega),
    e.wordAt_append (by omega), e.wordAt_append (by omega), e.wordAt_append (by omega)]

/-- A call at a record that is complete. -/
theorem nextPacketWithOffset_append {s : PcapSliceReader} {raw rest : List UInt8}
    (hrest : s.remaining = raw ++ rest) (hlen : PcapPacketHeader.LEN ≤ raw.length)
    (hincl : PcapPacketHeader.LEN + (PcapPacketHeader.read raw s.header.endian).inclLen =
      raw.length) :
    ∃ s', s'.remaining = rest ∧ s'.header = s.header ∧ s'.data = s.data ∧
      s'.pos = s.pos + raw.length ∧
      nextPacketWithOffset s =
        ((PcapPacketHeader.read raw s.header.endian).toPacket (raw.drop PcapPacketHeader.LEN)
          s.header.isNanosecond s.header.linkType).mapErr (·, s') >>= fun packet =>
        .ok (some ⟨s.pos, raw, packet⟩, s') := by
  have hpos := s.pos_le
  have hsize : s.data.length = s.pos + (raw ++ rest).length := by
    have hlength := congrArg List.length hrest
    rw [remaining, List.length_drop] at hlength
    omega
  have hne : s.remaining.isEmpty = false := by
    rw [hrest, List.isEmpty_eq_false_iff]
    exact fun hnil => by simp [(List.append_eq_nil_iff.1 hnil).1, PcapPacketHeader.LEN] at hlen
  have hlong : ¬s.remaining.length < PcapPacketHeader.LEN := by
    rw [hrest, List.length_append]
    omega
  have hparse : PcapPacketHeader.parse s.remaining s.header.endian =
      .ok (PcapPacketHeader.read raw s.header.endian) := by
    rw [PcapPacketHeader.parse_eq (Nat.le_of_not_lt hlong), hrest, read_append _ hlen]
  have hend : s.pos + PcapPacketHeader.LEN +
      (PcapPacketHeader.read raw s.header.endian).inclLen = s.pos + raw.length := by omega
  have hfits : ¬s.data.length < s.pos + raw.length := by
    rw [hsize, List.length_append]
    omega
  have hdrop : s.data.drop s.pos = raw ++ rest := hrest
  have hdata : ((s.data.drop (s.pos + PcapPacketHeader.LEN)).take
      (s.pos + raw.length - (s.pos + PcapPacketHeader.LEN))) = raw.drop PcapPacketHeader.LEN := by
    rw [← List.drop_drop, hdrop, List.drop_append_of_le_length hlen, List.take_append_of_le_length
      (by rw [List.length_drop]; omega), List.take_of_length_le (by rw [List.length_drop]; omega)]
  have hraw : (s.data.drop s.pos).take (s.pos + raw.length - s.pos) = raw := by
    rw [hdrop, Nat.add_sub_cancel_left, List.take_left']
    rfl
  have hsum : s.pos + PcapPacketHeader.LEN + (raw.drop PcapPacketHeader.LEN).length =
      s.pos + raw.length := by
    rw [List.length_drop]
    omega
  refine ⟨{ s with pos := s.pos + raw.length, pos_le := Nat.le_of_not_lt hfits }, ?_, rfl, rfl,
    rfl, ?_⟩
  · show s.data.drop (s.pos + raw.length) = rest
    rw [← List.drop_drop, hdrop, List.drop_left']
    rfl
  · have hread : readPacketRaw s = .ok (some ⟨s.pos, PcapPacketHeader.read raw s.header.endian,
        raw.drop PcapPacketHeader.LEN⟩,
        { s with pos := s.pos + raw.length, pos_le := Nat.le_of_not_lt hfits }) := by
      simp only [readPacketRaw, hne, hlong, hparse, Outcome.mapErr, Outcome.ok_bind, hend]
      rw [if_neg (by simp), if_neg not_false, dif_neg hfits,
        Outcome.slice_eq_ok (by omega) (Nat.le_of_not_lt hfits), hdata]
      rfl
    rw [nextPacketWithOffset, Prog.bind_apply, hread, Outcome.ok_bind]
    simp only [Prog.bind_apply, Prog.get_apply, Outcome.ok_bind, hsum]
    rw [Outcome.slice_eq_ok (by omega) (Nat.le_of_not_lt hfits), hraw]
    simp only [Prog.lift_ok, Outcome.ok_bind]
    cases (PcapPacketHeader.read raw s.header.endian).toPacket (raw.drop PcapPacketHeader.LEN)
      s.header.isNanosecond s.header.linkType <;> rfl

/-- A record reads the same wherever it stands. -/
theorem Holds.next {s : PcapSliceReader} {raw rest : List UInt8} {packet : PacketRecord}
    (h : Holds s.header raw packet) (hrest : s.remaining = raw ++ rest) :
    ∃ s', nextPacketWithOffset s = .ok (some ⟨s.pos, raw, packet⟩, s') ∧ s'.remaining = rest ∧
      s'.header = s.header ∧ s'.data = s.data ∧ s'.pos = s.pos + raw.length := by
  obtain ⟨s', hs'⟩ := nextPacketWithOffset_append hrest h.len h.inclLen
  rw [h.packet] at hs'
  exact ⟨s', hs'.2.2.2.2, hs'.1, hs'.2.1, hs'.2.2.1, hs'.2.2.2.1⟩

/-- A call finds the end of the data, an incomplete record, or a complete one. -/
theorem nextPacketWithOffset_cases (s : PcapSliceReader) :
    (s.remaining = [] ∧ nextPacketWithOffset s = .ok (none, s)) ∨
      (∃ e, nextPacketWithOffset s = .err (e, s)) ∨
      ∃ raw rest, s.remaining = raw ++ rest ∧ PcapPacketHeader.LEN ≤ raw.length ∧
        PcapPacketHeader.LEN + (PcapPacketHeader.read raw s.header.endian).inclLen =
          raw.length := by
  by_cases hempty : s.remaining = []
  · exact .inl ⟨hempty, by simp [nextPacketWithOffset, readPacketRaw, hempty]⟩
  right
  by_cases hshort : s.remaining.length < PcapPacketHeader.LEN
  · exact .inl ⟨_, by simp [nextPacketWithOffset, readPacketRaw, hempty, hshort]; rfl⟩
  have hlen : PcapPacketHeader.LEN ≤ s.remaining.length := Nat.le_of_not_lt hshort
  have hrem : s.remaining.length = s.data.length - s.pos := by rw [remaining, List.length_drop]
  have hpos := s.pos_le
  obtain ⟨n, hn⟩ : ∃ n, n = PcapPacketHeader.LEN +
    (PcapPacketHeader.read s.remaining s.header.endian).inclLen := ⟨_, rfl⟩
  by_cases hend : s.data.length < s.pos + PcapPacketHeader.LEN +
      (PcapPacketHeader.read s.remaining s.header.endian).inclLen
  · left
    exact ⟨_, by
      simp [nextPacketWithOffset, readPacketRaw, hempty, hshort, PcapPacketHeader.parse_eq hlen,
        Outcome.mapErr, hend]
      rfl⟩
  · right
    have hsplit := (List.take_append_drop n s.remaining).symm
    have hrawLen : (s.remaining.take n).length = n := by
      rw [List.length_take]
      omega
    have hle : PcapPacketHeader.LEN ≤ (s.remaining.take n).length := by omega
    have hread : PcapPacketHeader.read (s.remaining.take n) s.header.endian =
        PcapPacketHeader.read s.remaining s.header.endian := by
      conv_rhs => rw [hsplit]
      exact (read_append _ hle).symm
    exact ⟨_, _, hsplit, hle, by rw [hread, hrawLen, hn]⟩

/-- What a call hands out is the record at the position. -/
theorem nextPacketWithOffset_some {s s' : PcapSliceReader} {located : LocatedPacketRecord}
    (h : nextPacketWithOffset s = .ok (some located, s')) :
    located.offset = s.pos ∧ Holds s.header located.raw located.packet ∧
      s.remaining = located.raw ++ s'.remaining ∧ s'.header = s.header ∧ s'.data = s.data ∧
        s'.pos = s.pos + located.raw.length := by
  rcases nextPacketWithOffset_cases s with ⟨-, hcall⟩ | ⟨e, hcall⟩ | ⟨raw, rest, hrest, hlen, hincl⟩
  · simp [hcall] at h
  · simp [hcall] at h
  · obtain ⟨t, ht, hheader, hdata, htpos, hcall⟩ := nextPacketWithOffset_append hrest hlen hincl
    rw [hcall] at h
    cases hpacket : (PcapPacketHeader.read raw s.header.endian).toPacket
        (raw.drop PcapPacketHeader.LEN) s.header.isNanosecond s.header.linkType with
    | ok packet =>
      rw [hpacket] at h
      simp only [Outcome.mapErr, Outcome.ok_bind, Outcome.ok.injEq, Prod.mk.injEq,
        Option.some.injEq] at h
      obtain ⟨rfl, rfl⟩ := h
      exact ⟨rfl, ⟨hlen, hincl, hpacket⟩, by rw [ht]; exact hrest, hheader, hdata, htpos⟩
    | err e => simp [hpacket, Outcome.mapErr] at h
    | panic => simp [hpacket, Outcome.mapErr] at h
    | outOfFuel => simp [hpacket, Outcome.mapErr] at h

/-- The records end where the data does. -/
theorem nextPacketWithOffset_none {s s' : PcapSliceReader}
    (h : nextPacketWithOffset s = .ok (none, s')) : s.remaining = [] ∧ s' = s := by
  rcases nextPacketWithOffset_cases s with ⟨hnil, hcall⟩ | ⟨e, hcall⟩ | ⟨raw, rest, hrest, hlen, hincl⟩
  · rw [hcall] at h
    simp only [Outcome.ok.injEq, Prod.mk.injEq, true_and] at h
    exact ⟨hnil, h.symm⟩
  · simp [hcall] at h
  · obtain ⟨t, -, -, -, -, hcall⟩ := nextPacketWithOffset_append hrest hlen hincl
    rw [hcall] at h
    cases hpacket : (PcapPacketHeader.read raw s.header.endian).toPacket
      (raw.drop PcapPacketHeader.LEN) s.header.isNanosecond s.header.linkType <;>
      simp [hpacket, Outcome.mapErr] at h

/-- At the end of the data there is no further record. -/
theorem nextPacketWithOffset_nil {s : PcapSliceReader} (h : s.remaining = []) :
    nextPacketWithOffset s = .ok (none, s) := by
  simp [nextPacketWithOffset, readPacketRaw, h]

end PcapSliceReader

end Capture
end Maja
