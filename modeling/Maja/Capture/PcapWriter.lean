/-
# Writing a pcap file and reading it back

`PcapWriter` of `src/capture/format/pcap.rs`, writing to a sink that takes every
byte.  Each record is as long as its header says, so the readers find record after
record (`recordAt_record`); `readers_writeAll_iff` says when what they hand out is
what was written.
-/

import Maja.Capture.PcapReader
import Maja.Lib.Layout

namespace Maja
namespace Capture

open Lib

/-- `u16::from(LinkType)`. -/
def LinkType.toCode : LinkType → ℕ
  | null => 0
  | ethernet => 1
  | expEthernet => 2
  | ax25 => 3
  | tokenRing => 6
  | arcnet => 7
  | slip => 8
  | ppp => 9
  | fddi => 10
  | raw => 101
  | ieee80211 => 105
  | linuxSll => 113
  | prismHeader => 119
  | aironetHeader => 120
  | ieee80211Radiotap => 127
  | ipv4 => 228
  | ipv6 => 229
  | linuxSll2 => 276
  | unknown code => code

/-- The code of a link type that was read is the code that was read. -/
theorem LinkType.toCode_ofCode (code : ℕ) : (LinkType.ofCode code).toCode = code := by
  unfold LinkType.ofCode
  split <;> rfl

/-- `to_be_bytes` and `to_le_bytes` of a word of `n` bytes. -/
def Endian.toBytes (e : Endian) (n v : ℕ) : List UInt8 :=
  match e with
  | .big => beBytes n v
  | .little => (beBytes n v).reverse

/-- `PcapWriter`, with what it has written. -/
structure PcapWriter where
  header : PcapHeader
  bigEndian : Bool
  nanosecond : Bool
  written : List UInt8
  deriving DecidableEq, Repr

namespace PcapWriter

/-- The byte order of the numeric fields. -/
def endianOf (bigEndian : Bool) : Endian := if bigEndian then .big else .little

/-- The magic number of a byte order and a precision. -/
def magicNumber : Bool → Bool → ℕ
  | true, false => Magic.BE_USEC
  | true, true => Magic.BE_NSEC
  | false, false => Magic.LE_USEC
  | false, true => Magic.LE_NSEC

/-- `PcapWriter::new`.  The magic number is written in big-endian order always. -/
def new (bigEndian nanosecond : Bool) (snapLen : ℕ) (linkType : LinkType) : PcapWriter :=
  let header : PcapHeader := ⟨magicNumber bigEndian nanosecond, 2, 4, 0, 0, snapLen, linkType.toCode⟩
  let e := endianOf bigEndian
  { header := header
    bigEndian := bigEndian
    nanosecond := nanosecond
    written := Endian.big.toBytes 4 header.magicNumber ++ (e.toBytes 2 header.majorVersion ++
      (e.toBytes 2 header.minorVersion ++ (e.toBytes 4 header.reserved1 ++
      (e.toBytes 4 header.reserved2 ++ (e.toBytes 4 header.snapLen ++
      e.toBytes 4 header.additionalInfoLinkType))))) }

/-- `write_packet_raw`.  The length of the data is cut to a `u32` before the
minimum is taken. -/
def writePacketRaw (header : PcapPacketHeader) (data : List UInt8) (w : PcapWriter) : PcapWriter :=
  let inclLen := min (min header.inclLen w.header.snapLen) (data.length % 2 ^ 32)
  let e := endianOf w.bigEndian
  { w with written := w.written ++ (e.toBytes 4 header.tsSec ++ (e.toBytes 4 header.tsUsec ++
      (e.toBytes 4 inclLen ++ (e.toBytes 4 header.origLen ++ data.take inclLen)))) }

/-- `as u32` of an `i64`. -/
def asU32 (n : ℤ) : ℕ := (n % 2 ^ 32).toNat

/-- `write_packet`. -/
def writePacket (w : PcapWriter) (packet : PacketRecord) : PcapWriter :=
  let tsSec := asU32 (packet.timestamp.val.tdiv 1000000000)
  let tsNsec := asU32 (packet.timestamp.val.tmod 1000000000)
  let tsUsec := if w.nanosecond then tsNsec else tsNsec / 1000
  w.writePacketRaw ⟨tsSec, tsUsec, packet.data.length % 2 ^ 32, packet.originalLength⟩ packet.data

/-- A new writer that was given all packets. -/
def writeAll (bigEndian nanosecond : Bool) (snapLen : ℕ) (linkType : LinkType)
    (packets : List PacketRecord) : PcapWriter :=
  packets.foldl writePacket (new bigEndian nanosecond snapLen linkType)

end PcapWriter

/-! ### Words -/

namespace Endian

variable {e : Endian} {n v : ℕ} {rest : List UInt8}

/-- A number is written with as many bytes as it is given. -/
@[simp] theorem length_toBytes : (e.toBytes n v).length = n := by
  cases e <;> simp [toBytes]

/-- Reading a number that was written gives it back, cut to its bytes. -/
theorem number_toBytes (e : Endian) (n v : ℕ) : e.number (e.toBytes n v) = v % 256 ^ n := by
  cases e with
  | big => exact beNat_beBytes n v
  | little =>
      show beNat ((beBytes n v).reverse.reverse) = _
      rw [List.reverse_reverse, beNat_beBytes]

/-- The word at the front. -/
theorem wordAt_toBytes (h : v < 256 ^ n) : e.wordAt (e.toBytes n v ++ rest) 0 n = v := by
  rw [wordAt_append e (by simp), wordAt, bytesAt, List.drop_zero,
    List.take_of_length_le (by simp), number_toBytes, Nat.mod_eq_of_lt h]

/-- Words behind the front. -/
theorem wordAt_skip {e' : Endian} {m lo k : ℕ} (h : m ≤ lo) :
    e.wordAt (e'.toBytes m v ++ rest) lo k = e.wordAt rest (lo - m) k := by
  obtain ⟨lo, rfl⟩ := Nat.exists_eq_add_of_le h
  rw [wordAt, wordAt, bytesAt, bytesAt, ← List.drop_drop, List.drop_left' length_toBytes,
    Nat.add_sub_cancel_left]

end Endian

namespace PcapWriter

variable {bigEndian nanosecond : Bool} {snapLen : ℕ} {linkType : LinkType}

/-- What the readers find in front of the records. -/
theorem parse_new (hsnap : snapLen < 2 ^ 32) (hlink : linkType.toCode < 2 ^ 16)
    (rest : List UInt8) :
    PcapHeader.parse ((new bigEndian nanosecond snapLen linkType).written ++ rest) =
      .ok (new bigEndian nanosecond snapLen linkType).header := by
  have hmagic : magicNumber bigEndian nanosecond < 256 ^ 4 ∧
      PcapHeader.magicEndian? (magicNumber bigEndian nanosecond) = some (endianOf bigEndian) := by
    cases bigEndian <;> cases nanosecond <;> exact ⟨by decide, rfl⟩
  have hsnap' : snapLen < 256 ^ 4 := hsnap
  have hlink' : linkType.toCode < 256 ^ 4 := by omega
  rw [PcapHeader.parse_eq (by simp [new, PcapHeader.LEN]; omega)]
  simp only [new, List.append_assoc]
  rw [Endian.wordAt_toBytes hmagic.1, hmagic.2]
  simp (disch := first | decide | assumption) only [Endian.wordAt_skip, Endian.wordAt_toBytes,
    Nat.reduceSub]

/-- The reader tells the byte order and the precision from the magic number. -/
theorem header_new : (new bigEndian nanosecond snapLen linkType).header.endian = endianOf bigEndian ∧
    (new bigEndian nanosecond snapLen linkType).header.isNanosecond = nanosecond := by
  cases bigEndian <;> cases nanosecond <;> exact ⟨rfl, rfl⟩

/-- The header of a new capture has the link type that it was made for, where the code
fits 16 bits. -/
theorem header_new_linkType (hlink : linkType.toCode < 2 ^ 16) :
    (new bigEndian nanosecond snapLen linkType).header.linkType = .ofCode linkType.toCode := by
  show LinkType.ofCode (linkType.toCode &&& 0xFFFF) = _
  rw [show (0xFFFF : ℕ) = 2 ^ 16 - 1 from rfl, Nat.and_two_pow_sub_one_eq_mod,
    Nat.mod_eq_of_lt hlink]

/-! ### One record -/

/-- The captured length that the writer notes. -/
def inclLen (snapLen : ℕ) (packet : PacketRecord) : ℕ :=
  min (min (packet.data.length % 2 ^ 32) snapLen) (packet.data.length % 2 ^ 32)

/-- The bytes of the record of a packet. -/
def record (bigEndian nanosecond : Bool) (snapLen : ℕ) (packet : PacketRecord) : List UInt8 :=
  let e := endianOf bigEndian
  let tsNsec := asU32 (packet.timestamp.val.tmod 1000000000)
  e.toBytes 4 (asU32 (packet.timestamp.val.tdiv 1000000000)) ++
    (e.toBytes 4 (if nanosecond then tsNsec else tsNsec / 1000) ++
      (e.toBytes 4 (inclLen snapLen packet) ++
        (e.toBytes 4 packet.originalLength ++ packet.data.take (inclLen snapLen packet))))

/-- A file is its header and the records of its packets. -/
theorem written_writeAll (packets : List PacketRecord) :
    (writeAll bigEndian nanosecond snapLen linkType packets).written =
      (new bigEndian nanosecond snapLen linkType).written ++
        rawBytes (record bigEndian nanosecond snapLen) packets := by
  have hfold : ∀ w : PcapWriter, w.bigEndian = bigEndian → w.nanosecond = nanosecond →
      w.header.snapLen = snapLen → (packets.foldl writePacket w).written =
        w.written ++ rawBytes (record bigEndian nanosecond snapLen) packets := by
    induction packets with
    | nil =>
        intro w _ _ _
        simp
    | cons packet packets ih =>
        rintro w rfl rfl rfl
        rw [List.foldl_cons, ih (w.writePacket packet) rfl rfl rfl, rawBytes_cons,
          ← List.append_assoc]
        rfl
  exact hfold _ rfl rfl rfl

/-- `as u32` of a number in range. -/
theorem asU32_of_lt {n : ℤ} (h : 0 ≤ n) (hlt : n < 2 ^ 32) : (asU32 n : ℤ) = n := by
  rw [asU32, Int.emod_eq_of_lt h hlt, Int.toNat_of_nonneg h]

/-- A number cast to `u32` fits 32 bits. -/
theorem asU32_lt (n : ℤ) : asU32 n < 2 ^ 32 := by
  have h := Int.emod_lt_of_pos n (show (0 : ℤ) < 2 ^ 32 by norm_num)
  have h' := Int.emod_nonneg n (show (2 : ℤ) ^ 32 ≠ 0 by norm_num)
  rw [asU32]
  omega

variable {packet : PacketRecord} {packets : List PacketRecord} {rest : List UInt8}

/-- The captured length is the length of the data, wrapped and cut to the snap length. -/
theorem inclLen_eq (snapLen : ℕ) (packet : PacketRecord) :
    inclLen snapLen packet = min (packet.data.length % 2 ^ 32) snapLen := by
  unfold inclLen
  omega

/-- The header that the reader gets back. -/
def headerOf (nanosecond : Bool) (snapLen : ℕ) (packet : PacketRecord) : PcapPacketHeader :=
  let tsNsec := asU32 (packet.timestamp.val.tmod 1000000000)
  ⟨asU32 (packet.timestamp.val.tdiv 1000000000), if nanosecond then tsNsec else tsNsec / 1000,
    inclLen snapLen packet, packet.originalLength⟩

/-- A record is found where it was written. -/
theorem recordAt_record (horig : packet.originalLength < 2 ^ 32) :
    recordAt (endianOf bigEndian) (record bigEndian nanosecond snapLen packet ++ rest) =
      .record (headerOf nanosecond snapLen packet) (packet.data.take (inclLen snapLen packet)) rest := by
  have hincl : inclLen snapLen packet < 256 ^ 4 ∧ inclLen snapLen packet ≤ packet.data.length := by
    have hmod := Nat.mod_lt packet.data.length (show 0 < 2 ^ 32 by norm_num)
    have hle := Nat.mod_le packet.data.length (2 ^ 32)
    rw [inclLen_eq]
    omega
  have hsec : asU32 (packet.timestamp.val.tdiv 1000000000) < 256 ^ 4 := asU32_lt _
  have husec : (if nanosecond then asU32 (packet.timestamp.val.tmod 1000000000)
      else asU32 (packet.timestamp.val.tmod 1000000000) / 1000) < 256 ^ 4 := by
    have h : asU32 (packet.timestamp.val.tmod 1000000000) < 256 ^ 4 := asU32_lt _
    split_ifs
    · exact h
    · omega
  have horig' : packet.originalLength < 256 ^ 4 := horig
  have hread : PcapPacketHeader.read (record bigEndian nanosecond snapLen packet ++ rest)
      (endianOf bigEndian) = headerOf nanosecond snapLen packet := by
    rw [PcapPacketHeader.read, record]
    simp only [List.append_assoc]
    rw [Endian.wordAt_toBytes hsec, Endian.wordAt_skip (by decide), Endian.wordAt_toBytes husec]
    simp (disch := first | decide | exact hincl.1 | assumption) only [Endian.wordAt_skip,
      Endian.wordAt_toBytes, Nat.reduceSub]
    rfl
  have hdrop : (record bigEndian nanosecond snapLen packet ++ rest).drop PcapPacketHeader.LEN =
      packet.data.take (inclLen snapLen packet) ++ rest := by
    have hskip : ∀ (e : Endian) (v n : ℕ) (tail : List UInt8),
        (e.toBytes 4 v ++ tail).drop (4 + n) = tail.drop n := fun e v n tail => by
      rw [← List.drop_drop, List.drop_left' Endian.length_toBytes]
    rw [record]
    simp only [List.append_assoc]
    rw [show PcapPacketHeader.LEN = 4 + (4 + (4 + (4 + 0))) from rfl, hskip, hskip, hskip, hskip,
      List.drop_zero]
  have hlen : (packet.data.take (inclLen snapLen packet)).length = inclLen snapLen packet := by
    rw [List.length_take, Nat.min_eq_left hincl.2]
  have hlong : ¬(record bigEndian nanosecond snapLen packet ++ rest).length < PcapPacketHeader.LEN := by
    simp [record, PcapPacketHeader.LEN]
    omega
  have hne : record bigEndian nanosecond snapLen packet ++ rest ≠ [] := fun hnil =>
    hlong (by rw [hnil]; decide)
  unfold recordAt
  rw [if_neg hne, if_neg hlong, hread, hdrop]
  dsimp only
  have hdata : ¬inclLen snapLen packet + rest.length < inclLen snapLen packet := by omega
  rw [if_neg (by rw [List.length_append, hlen]; exact hdata)]
  rw [show (headerOf nanosecond snapLen packet).inclLen = inclLen snapLen packet from rfl,
    List.take_left' hlen, List.drop_left' hlen]

/-- What a reader makes of the packet. -/
def packetRead (nanosecond : Bool) (snapLen : ℕ) (linkType : LinkType) (packet : PacketRecord) :
    PacketRecord :=
  ⟨if nanosecond then packet.timestamp else I64.clamp (packet.timestamp.val / 1000 * 1000),
    packet.originalLength, packet.data.take (inclLen snapLen packet), .ofCode linkType.toCode⟩

/-- The timestamp in the record of a packet stamped `timestamp`, in nanoseconds. -/
def stampOf (nanosecond : Bool) (timestamp : I64) : ℕ :=
  let tsNsec := asU32 (timestamp.val.tmod 1000000000)
  asU32 (timestamp.val.tdiv 1000000000) * 1000000000 +
    if nanosecond then tsNsec else tsNsec / 1000 * 1000

/-- The timestamp of a record that was written fits an `i64`. -/
theorem stampOf_inRange (nanosecond : Bool) (timestamp : I64) :
    I64.InRange (stampOf nanosecond timestamp) := by
  have hsec := asU32_lt (timestamp.val.tdiv 1000000000)
  have hnsec := asU32_lt (timestamp.val.tmod 1000000000)
  unfold stampOf I64.InRange
  dsimp only
  split_ifs <;> omega

/-- The packet with the timestamp of its record. -/
def packetStamped (nanosecond : Bool) (snapLen : ℕ) (linkType : LinkType) (packet : PacketRecord) :
    PacketRecord :=
  ⟨⟨stampOf nanosecond packet.timestamp, stampOf_inRange nanosecond packet.timestamp⟩,
    packet.originalLength, packet.data.take (inclLen snapLen packet), .ofCode linkType.toCode⟩

/-- The record's timestamp does not overflow, whatever the packet's was. -/
theorem toPacket_headerOf (nanosecond : Bool) (snapLen : ℕ) (linkType : LinkType)
    (packet : PacketRecord) :
    (headerOf nanosecond snapLen packet).toPacket (packet.data.take (inclLen snapLen packet))
      nanosecond (.ofCode linkType.toCode) =
        .ok (packetStamped nanosecond snapLen linkType packet) := by
  have hrange := stampOf_inRange nanosecond packet.timestamp
  cases nanosecond with
  | true =>
      have harg : ((headerOf true snapLen packet).tsSec : ℤ) * 1000000000 +
          (headerOf true snapLen packet).tsUsec = stampOf true packet.timestamp := by
        simp [headerOf, stampOf]
      rw [PcapPacketHeader.toPacket_nanosecond, harg, I64.checked_eq_ok hrange, Outcome.ok_bind]
      rfl
  | false =>
      have husec : (headerOf false snapLen packet).tsUsec * 1000 < 2 ^ 32 := by
        have hnsec := asU32_lt (packet.timestamp.val.tmod 1000000000)
        show asU32 (packet.timestamp.val.tmod 1000000000) / 1000 * 1000 < 2 ^ 32
        omega
      have harg : ((headerOf false snapLen packet).tsSec : ℤ) * 1000000000 +
          ((headerOf false snapLen packet).tsUsec * 1000 : ℕ) = stampOf false packet.timestamp := by
        simp [headerOf, stampOf]
      rw [PcapPacketHeader.toPacket_microsecond husec, harg, I64.checked_eq_ok hrange,
        Outcome.ok_bind]
      rfl

/-- The seconds and the nanoseconds of a time whose seconds are a `u32`. -/
theorem asU32_timestamp {t : ℤ} (hlo : 0 ≤ t) (hhi : t < 2 ^ 32 * 1000000000) :
    (asU32 (t.tdiv 1000000000) : ℤ) = t / 1000000000 ∧
      (asU32 (t.tmod 1000000000) : ℤ) = t % 1000000000 := by
  rw [Int.tdiv_eq_ediv_of_nonneg hlo, Int.tmod_eq_emod_of_nonneg hlo]
  exact ⟨asU32_of_lt (by omega) (by omega), asU32_of_lt (by omega) (by omega)⟩

/-- The timestamp is kept as far as the file can tell. -/
theorem packetStamped_eq (hlo : 0 ≤ packet.timestamp.val)
    (hhi : packet.timestamp.val < 2 ^ 32 * 1000000000) :
    packetStamped nanosecond snapLen linkType packet =
      packetRead nanosecond snapLen linkType packet := by
  obtain ⟨hsec, hnsec⟩ := asU32_timestamp hlo hhi
  have hstamp : (⟨stampOf nanosecond packet.timestamp,
      stampOf_inRange nanosecond packet.timestamp⟩ : I64) =
        if nanosecond then packet.timestamp
        else I64.clamp (packet.timestamp.val / 1000 * 1000) := by
    apply Subtype.ext
    cases nanosecond with
    | true =>
        show ((stampOf true packet.timestamp : ℕ) : ℤ) = packet.timestamp.val
        simp only [stampOf, if_true, Nat.cast_add, Nat.cast_mul, hsec, hnsec]
        omega
    | false =>
        have hrange : I64.InRange (packet.timestamp.val / 1000 * 1000) := by
          have := packet.timestamp.2
          constructor <;> omega
        rw [if_neg (by decide), I64.clamp_val hrange]
        simp only [stampOf, if_neg Bool.false_ne_true, Nat.cast_add, Nat.cast_mul,
          Int.natCast_div, hsec, hnsec]
        omega
  rw [packetStamped, packetRead, hstamp]

/-! ### All records -/

/-- The packets that a file can hold: a `u32` of original length, and a timestamp
whose seconds are a `u32`. -/
structure Writable (packet : PacketRecord) : Prop where
  originalLength : packet.originalLength < 2 ^ 32
  nonneg : 0 ≤ packet.timestamp.val
  seconds : packet.timestamp.val < 2 ^ 32 * 1000000000

/-- The readers' state in front of the records that were written. -/
theorem runs_records (hlink : linkType.toCode < 2 ^ 16)
    (hpackets : ∀ p ∈ packets, p.originalLength < 2 ^ 32)
    {s : PcapSliceReader} (hheader : s.header = (new bigEndian nanosecond snapLen linkType).header)
    (hremaining : s.remaining = rawBytes (record bigEndian nanosecond snapLen) packets) :
    Runs PcapSliceReader.nextPacket s
      (packets.map (packetStamped nanosecond snapLen linkType)) .clean := by
  induction packets generalizing s with
  | nil =>
      have hspec := s.readPacketRaw_spec
      rw [hremaining] at hspec
      have hcall : s.readPacketRaw = .ok (none, s) := hspec
      have hend : s.nextPacket = .ok (none, s) := by
        rw [PcapSliceReader.nextPacket, Prog.bind_apply, hcall, Outcome.ok_bind]
        rfl
      exact .clean hend
  | cons packet packets ih =>
      have hpacket := hpackets packet (List.mem_cons_self ..)
      have hspec := s.readPacketRaw_spec
      rw [hremaining, rawBytes_cons, hheader, header_new.1, recordAt_record hpacket] at hspec
      obtain ⟨s', hheader', hremaining', hs⟩ := hspec
      have hnext : s.nextPacket =
          .ok (some (packetStamped nanosecond snapLen linkType packet), s') := by
        rw [PcapSliceReader.nextPacket, Prog.bind_apply, hs, Outcome.ok_bind]
        simp only [Prog.bind_apply, Prog.get_apply, Outcome.ok_bind]
        rw [hheader', header_new.2, header_new_linkType hlink, toPacket_headerOf]
        rfl
      exact .next hnext
        (ih (fun p hp => hpackets p (List.mem_cons_of_mem _ hp)) hheader' hremaining')

/-- The last record is followed by nothing. -/
theorem not_tornHeader_records (hpackets : ∀ p ∈ packets, p.originalLength < 2 ^ 32) :
    ¬TornHeader (endianOf bigEndian) (rawBytes (record bigEndian nanosecond snapLen) packets) := by
  induction packets with
  | nil =>
      intro htorn
      cases htorn with
      | here h => cases h
      | next h _ => cases h
  | cons packet packets ih =>
      have hpacket := hpackets packet (List.mem_cons_self ..)
      have hrecord := @recordAt_record bigEndian nanosecond snapLen packet
        (rawBytes (record bigEndian nanosecond snapLen) packets) hpacket
      intro htorn
      rw [rawBytes_cons] at htorn
      cases htorn with
      | here h =>
          rw [hrecord] at h
          cases h
      | next h hrest =>
          rw [hrecord] at h
          cases h
          exact ih (fun p hp => hpackets p (List.mem_cons_of_mem _ hp)) hrest

end PcapWriter

/-- Both readers of the bytes hand out the packets, and then `Ok(None)`. -/
def BothRead (bytes : List UInt8) (packets : List PacketRecord) : Prop :=
  ∃ s r, PcapSliceReader.new bytes = .ok s ∧ PcapReader.new bytes = .ok r ∧
    Runs PcapSliceReader.nextPacket s packets .clean ∧ Runs PcapReader.nextPacket r packets .clean

namespace PcapWriter

variable {bigEndian nanosecond : Bool} {snapLen : ℕ} {linkType : LinkType}
  {packets packets' : List PacketRecord}

/-- Two readings of a file are the same. -/
theorem bothRead_unique {bytes : List UInt8} (h : BothRead bytes packets)
    (h' : BothRead bytes packets') : packets = packets' := by
  obtain ⟨s, r, hs, -, hrun, -⟩ := h
  obtain ⟨s', r', hs', -, hrun', -⟩ := h'
  rw [hs] at hs'
  cases hs'
  exact (hrun.unique hrun').1

/-- Both readers read every file that the writer wrote, record after record. -/
theorem bothRead_records (hsnap : snapLen < 2 ^ 32) (hlink : linkType.toCode < 2 ^ 16)
    (hpackets : ∀ p ∈ packets, p.originalLength < 2 ^ 32) :
    BothRead (writeAll bigEndian nanosecond snapLen linkType packets).written
      (packets.map (packetStamped nanosecond snapLen linkType)) := by
  rw [written_writeAll]
  have hlen : (new bigEndian nanosecond snapLen linkType).written.length = PcapHeader.LEN := by
    simp [new, PcapHeader.LEN]
  obtain ⟨s, hs, hheader, hremaining, hr⟩ := new_eq_ok
    (@parse_new bigEndian nanosecond snapLen linkType hsnap hlink
      (rawBytes (record bigEndian nanosecond snapLen) packets))
  rw [List.drop_left' hlen] at hremaining hr
  have hrun := runs_records hlink hpackets hheader hremaining
  have hnotTorn : ¬TornHeader s.header.endian s.remaining := by
    rw [hheader, hremaining, header_new.1]
    exact not_tornHeader_records hpackets
  obtain ⟨r, hr', hplace⟩ : ∃ r, PcapReader.new _ = .ok r ∧ SamePlace s r :=
    ⟨_, hr, hheader.symm, by rw [hheader], hremaining.symm, hnotTorn⟩
  have hstream := nextPacket_lockstep.runs hplace hrun
  rw [List.map_id] at hstream
  exact ⟨s, r, hs, hr', hrun, hstream⟩

/-- Both readers read the packets that a file can hold. -/
theorem bothRead_writeAll (hsnap : snapLen < 2 ^ 32) (hlink : linkType.toCode < 2 ^ 16)
    (hpackets : ∀ p ∈ packets, Writable p) :
    BothRead (writeAll bigEndian nanosecond snapLen linkType packets).written
      (packets.map (packetRead nanosecond snapLen linkType)) := by
  have hmap : packets.map (packetRead nanosecond snapLen linkType) =
      packets.map (packetStamped nanosecond snapLen linkType) :=
    List.map_congr_left fun p hp =>
      (packetStamped_eq (hpackets p hp).nonneg (hpackets p hp).seconds).symm
  rw [hmap]
  exact bothRead_records hsnap hlink fun p hp => (hpackets p hp).originalLength

/-- What should be read back: the timestamp cut to the precision, the data to the
snap length, and the file's link type. -/
def readBack (nanosecond : Bool) (snapLen : ℕ) (linkType : LinkType) (packet : PacketRecord) :
    PacketRecord :=
  ⟨if nanosecond then packet.timestamp else I64.clamp (packet.timestamp.val / 1000 * 1000),
    packet.originalLength, packet.data.take snapLen, linkType⟩

/-- The length of the data survives `as u32`, as far as the snap length. -/
def KeepsLength (snapLen : ℕ) (packet : PacketRecord) : Prop :=
  packet.data.length < 2 ^ 32 ∨ snapLen ≤ packet.data.length % 2 ^ 32

/-- The link type is not an assigned code given as an unknown one. -/
def Assigned (linkType : LinkType) : Prop := LinkType.ofCode linkType.toCode = linkType

instance : DecidablePred Assigned := fun linkType =>
  inferInstanceAs (Decidable (LinkType.ofCode linkType.toCode = linkType))

/-- What is read is what `readBack` says exactly when the link type is assigned and the
length is kept. -/
theorem packetRead_eq_iff (hsnap : snapLen < 2 ^ 32) (packet : PacketRecord) :
    packetRead nanosecond snapLen linkType packet = readBack nanosecond snapLen linkType packet ↔
      Assigned linkType ∧ KeepsLength snapLen packet := by
  have htake : packet.data.take (inclLen snapLen packet) = packet.data.take snapLen ↔
      KeepsLength snapLen packet := by
    have hmod := Nat.mod_lt packet.data.length (show 0 < 2 ^ 32 by norm_num)
    rw [List.take_eq_take_iff, inclLen_eq]
    unfold KeepsLength
    omega
  rw [packetRead, readBack, PacketRecord.mk.injEq, htake]
  simp only [true_and]
  exact and_comm

/-- **Writing and reading back.**  Both readers hand out what was written if and
only if the link type is assigned and no length is lost to `as u32`. -/
theorem readers_writeAll_iff (bigEndian nanosecond : Bool) (snapLen : ℕ) (linkType : LinkType)
    (packets : List PacketRecord) (hsnap : snapLen < 2 ^ 32) (hlink : linkType.toCode < 2 ^ 16)
    (hpackets : ∀ p ∈ packets, Writable p) :
    BothRead (writeAll bigEndian nanosecond snapLen linkType packets).written
        (packets.map (readBack nanosecond snapLen linkType)) ↔
      ∀ p ∈ packets, Assigned linkType ∧ KeepsLength snapLen p := by
  have hread := @bothRead_writeAll bigEndian nanosecond snapLen linkType packets hsnap hlink hpackets
  have hsame : packets.map (packetRead nanosecond snapLen linkType) =
      packets.map (readBack nanosecond snapLen linkType) ↔
        ∀ p ∈ packets, Assigned linkType ∧ KeepsLength snapLen p := by
    rw [List.map_inj_left]
    exact forall₂_congr fun p _ => packetRead_eq_iff hsnap p
  rw [← hsame]
  constructor
  · exact fun h => bothRead_unique hread h
  · intro h
    rw [← h]
    exact hread

/-- A packet of more than `u32::MAX` bytes. -/
def hugePacket : PacketRecord := ⟨I64.ofInt 0, 1, List.replicate (2 ^ 32 + 1) 0, .ethernet⟩

/-- **One byte of it is written.** -/
theorem hugePacket_not_readBack :
    ¬BothRead (writeAll true true 65535 .ethernet [hugePacket]).written
      ([hugePacket].map (readBack true 65535 .ethernet)) := by
  intro h
  have hwritable : ∀ p ∈ [hugePacket], Writable p := fun p hp => by
    obtain rfl := List.mem_singleton.1 hp
    exact ⟨by decide, by decide, by decide⟩
  have hread := bothRead_unique (bothRead_writeAll (by norm_num) (by decide) hwritable) h
  obtain ⟨-, hkeeps⟩ := (packetRead_eq_iff (by norm_num) hugePacket).1 (List.cons.inj hread).1
  have hlength : hugePacket.data.length = 2 ^ 32 + 1 := List.length_replicate
  unfold KeepsLength at hkeeps
  omega

/-- A packet of three bytes in a file of two bytes a packet. -/
theorem readers_writeAll_iff_cut :
    BothRead (writeAll false false 2 .ethernet [⟨I64.ofInt 1234567, 3, [1, 2, 3], .ethernet⟩]).written
        [⟨I64.ofInt 1234000, 3, [1, 2], .ethernet⟩] ↔
      ∀ p ∈ [(⟨I64.ofInt 1234567, 3, [1, 2, 3], .ethernet⟩ : PacketRecord)],
        Assigned .ethernet ∧ KeepsLength 2 p :=
  readers_writeAll_iff false false 2 .ethernet [⟨I64.ofInt 1234567, 3, [1, 2, 3], .ethernet⟩]
    (by norm_num) (by decide) (fun p hp => by
      obtain rfl := List.mem_singleton.1 hp
      exact ⟨by decide, by decide, by decide⟩)

end PcapWriter

end Capture
end Maja
