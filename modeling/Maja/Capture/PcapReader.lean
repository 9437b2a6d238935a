/-
# The streaming pcap reader

`PcapReader` of `src/capture/format/pcap.rs` and the raw and packet calls of both
readers.  The source is a byte string: `read_exact` fails, with `UnexpectedEof`,
exactly when fewer bytes are left than it is asked for.

The two readers are in lockstep as long as no record header is torn: there the
slice reader reports a truncated capture, and the streaming reader the end of the
file.
-/

import Maja.Capture.Pcap
import Maja.Lib.Lockstep

namespace Maja
namespace Capture

open Lib

/-- `Read::read_exact` on the bytes left in the source: the bytes asked for and
those behind them, or `UnexpectedEof`. -/
def readExact (n : ℕ) (source : List UInt8) : Option (List UInt8 × List UInt8) :=
  if n ≤ source.length then some (source.take n, source.drop n) else none

/-- `PcapReader`. -/
structure PcapReader where
  header : PcapHeader
  bigEndian : Bool
  nanosecond : Bool
  /-- What the reader has still to read. -/
  source : List UInt8
  deriving DecidableEq, Repr

namespace PcapReader

/-- `PcapReader::new`. -/
def new (source : List UInt8) : Result PcapReader :=
  match readExact PcapHeader.LEN source with
  | none => .err .io
  | some (buffer, source) => do
    let header ← PcapHeader.parse buffer
    pure ⟨header, header.isBigEndian, header.isNanosecond, source⟩

/-- `PcapReader::read_packet_raw`.  A source that ends inside a record header is
taken to be at its end. -/
def readPacketRaw : Prog PcapReader CaptureError (Option (PcapPacketHeader × List UInt8)) := fun r =>
  match readExact PcapPacketHeader.LEN r.source with
  | none => .ok (none, { r with source := [] })
  | some (buffer, source) => do
    let header ← (PcapPacketHeader.parse buffer r.header.endian).mapErr (·, r)
    match readExact header.inclLen source with
    | none => .err (.io, { r with source := [] })
    | some (data, source) => .ok (some (header, data), { r with source := source })

/-- `PcapReader::next_packet`. -/
def nextPacket : Prog PcapReader CaptureError (Option PacketRecord) := do
  let r ← Prog.get
  let linkType := r.header.linkType
  match ← readPacketRaw with
  | some (header, data) => do
    let packet ← Prog.lift (header.toPacket data r.nanosecond linkType)
    pure (some packet)
  | none => pure none

end PcapReader

namespace PcapSliceReader

/-- `PcapSliceReader::next_packet`. -/
def nextPacket : Prog PcapSliceReader CaptureError (Option PacketRecord) := do
  match ← readPacketRaw with
  | some record => do
    let s ← Prog.get
    let packet ← Prog.lift (record.header.toPacket record.data s.header.isNanosecond
      s.header.linkType)
    pure (some packet)
  | none => pure none

end PcapSliceReader

/-! ### One record -/

/-- The bytes from a record header on: nothing, a torn header, torn data, or a
record with what is behind it. -/
inductive RecordAt where
  | atEnd
  | tornHeader
  | tornData
  | record (header : PcapPacketHeader) (data rest : List UInt8)
  deriving DecidableEq, Repr

/-- What the bytes of a capture in the given byte order start with. -/
def recordAt (e : Endian) (bytes : List UInt8) : RecordAt :=
  if bytes = [] then .atEnd
  else if bytes.length < PcapPacketHeader.LEN then .tornHeader
  else
    let header := PcapPacketHeader.read bytes e
    let rest := bytes.drop PcapPacketHeader.LEN
    if rest.length < header.inclLen then .tornData
    else .record header (rest.take header.inclLen) (rest.drop header.inclLen)

variable {e : Endian} {bytes data rest : List UInt8} {header : PcapPacketHeader}

/-- A record is its header and its data, in front of the rest. -/
theorem recordAt_eq_record (h : recordAt e bytes = .record header data rest) :
    PcapPacketHeader.LEN ≤ bytes.length ∧ header = PcapPacketHeader.read bytes e ∧
      PcapPacketHeader.LEN + header.inclLen ≤ bytes.length ∧
      data = (bytes.drop PcapPacketHeader.LEN).take header.inclLen ∧
      rest = bytes.drop (PcapPacketHeader.LEN + header.inclLen) := by
  unfold recordAt at h
  split_ifs at h with hnil hshort
  dsimp only at h
  split_ifs at h with hdata
  obtain ⟨rfl, rfl, rfl⟩ := RecordAt.record.inj h
  rw [List.length_drop] at hdata
  exact ⟨by omega, rfl, by omega, rfl, List.drop_drop ..⟩

/-- A record uses up at least its header. -/
theorem recordAt_rest_length (h : recordAt e bytes = .record header data rest) :
    rest.length < bytes.length := by
  obtain ⟨hlen, -, hincl, -, rfl⟩ := recordAt_eq_record h
  have hpos : 0 < PcapPacketHeader.LEN := by decide
  rw [List.length_drop]
  omega

namespace PcapSliceReader

/-- A call of the slice reader. -/
theorem readPacketRaw_spec (s : PcapSliceReader) :
    match recordAt s.header.endian s.remaining with
    | .atEnd => readPacketRaw s = .ok (none, s)
    | .tornHeader => ∃ err, readPacketRaw s = .err (err, s)
    | .tornData => ∃ err, readPacketRaw s = .err (err, s)
    | .record header data rest => ∃ s', s'.header = s.header ∧ s'.remaining = rest ∧
        readPacketRaw s = .ok (some ⟨s.pos, header, data⟩, s') := by
  have hpos := s.pos_le
  have hrem : s.remaining.length = s.data.length - s.pos := by rw [remaining, List.length_drop]
  unfold recordAt
  by_cases hnil : s.remaining = []
  · rw [if_pos hnil]
    simp [readPacketRaw, hnil]
  rw [if_neg hnil]
  have hempty : s.remaining.isEmpty = false := List.isEmpty_eq_false_iff.2 hnil
  by_cases hshort : s.remaining.length < PcapPacketHeader.LEN
  · rw [if_pos hshort]
    exact ⟨_, by rw [readPacketRaw, hempty, if_neg (by simp), if_pos hshort]⟩
  rw [if_neg hshort]
  have hparse := @PcapPacketHeader.parse_eq s.remaining s.header.endian (Nat.le_of_not_lt hshort)
  obtain ⟨n, hn⟩ : ∃ n, n = (PcapPacketHeader.read s.remaining s.header.endian).inclLen := ⟨_, rfl⟩
  by_cases hdata : (s.remaining.drop PcapPacketHeader.LEN).length < n
  · have hlt : s.data.length < s.pos + PcapPacketHeader.LEN + n := by
      rw [List.length_drop] at hdata
      omega
    rw [hn] at hdata hlt
    dsimp only
    rw [if_pos hdata]
    refine ⟨.truncatedCapture "pcap packet data", ?_⟩
    simp only [readPacketRaw, hempty, hshort, hparse, Outcome.mapErr, Outcome.ok_bind]
    rw [if_neg (by simp), if_neg not_false, dif_pos hlt]
  · have hle : ¬s.data.length < s.pos + PcapPacketHeader.LEN + n := by
      rw [List.length_drop] at hdata
      omega
    rw [hn] at hdata hle
    dsimp only
    rw [if_neg hdata]
    refine ⟨{ s with pos := _, pos_le := Nat.le_of_not_lt hle }, rfl, ?_, ?_⟩
    · show s.data.drop (s.pos + PcapPacketHeader.LEN + _) = ((s.data.drop s.pos).drop _).drop _
      rw [List.drop_drop, List.drop_drop, Nat.add_assoc]
    · simp only [readPacketRaw, hempty, hshort, hparse, Outcome.mapErr, Outcome.ok_bind]
      rw [if_neg (by simp), if_neg not_false, dif_neg hle, Outcome.slice_eq_ok (by omega) (by omega)]
      simp only [Outcome.ok_bind, Nat.add_sub_cancel_left, remaining, List.drop_drop]
      rfl

end PcapSliceReader

namespace PcapReader

/-- A call of the streaming reader. -/
theorem readPacketRaw_spec (r : PcapReader) :
    match recordAt r.header.endian r.source with
    | .atEnd => ∃ r', readPacketRaw r = .ok (none, r')
    | .tornHeader => ∃ r', readPacketRaw r = .ok (none, r')
    | .tornData => ∃ err, readPacketRaw r = .err (err, { r with source := [] })
    | .record header data rest =>
        readPacketRaw r = .ok (some (header, data), { r with source := rest }) := by
  unfold recordAt
  by_cases hshort : r.source.length < PcapPacketHeader.LEN
  · have hread : readExact PcapPacketHeader.LEN r.source = none := if_neg (by omega)
    have hcall : readPacketRaw r = .ok (none, { r with source := [] }) := by
      rw [readPacketRaw, hread]
    split_ifs
    · exact ⟨_, hcall⟩
    · exact ⟨_, hcall⟩
  have hnil : r.source ≠ [] := fun hnil => hshort (by rw [hnil]; decide)
  have hread : readExact PcapPacketHeader.LEN r.source =
      some (r.source.take PcapPacketHeader.LEN, r.source.drop PcapPacketHeader.LEN) :=
    if_pos (by omega)
  have hlen : (r.source.take PcapPacketHeader.LEN).length = PcapPacketHeader.LEN := by
    rw [List.length_take]
    omega
  have hparse : PcapPacketHeader.parse (r.source.take PcapPacketHeader.LEN) r.header.endian =
      .ok (PcapPacketHeader.read r.source r.header.endian) := by
    rw [PcapPacketHeader.parse_eq hlen.ge]
    conv_rhs => rw [← List.take_append_drop PcapPacketHeader.LEN r.source]
    rw [PcapSliceReader.read_append _ hlen.ge]
  rw [if_neg hnil, if_neg hshort]
  dsimp only
  split_ifs with hdata
  · have hnone : readExact (PcapPacketHeader.read r.source r.header.endian).inclLen
        (r.source.drop PcapPacketHeader.LEN) = none := if_neg (by omega)
    exact ⟨.io, by simp only [readPacketRaw, hread, hparse, Outcome.mapErr, Outcome.ok_bind, hnone]⟩
  · have hsome : readExact (PcapPacketHeader.read r.source r.header.endian).inclLen
        (r.source.drop PcapPacketHeader.LEN) = some (_, _) := if_pos (by omega)
    simp only [readPacketRaw, hread, hparse, Outcome.mapErr, Outcome.ok_bind, hsome]

end PcapReader

/-! ### The two readers -/

/-- Behind the complete records of a capture there are bytes, but fewer than a
record header has. -/
inductive TornHeader (e : Endian) : List UInt8 → Prop where
  | here {bytes : List UInt8} (h : recordAt e bytes = .tornHeader) : TornHeader e bytes
  | next {bytes data rest : List UInt8} {header : PcapPacketHeader}
      (h : recordAt e bytes = .record header data rest) (hrest : TornHeader e rest) :
      TornHeader e bytes

/-- The readers are at the same place of the same capture, which does not end in a
torn header. -/
structure SamePlace (s : PcapSliceReader) (r : PcapReader) : Prop where
  header : r.header = s.header
  nanosecond : r.nanosecond = s.header.isNanosecond
  source : r.source = s.remaining
  notTorn : ¬TornHeader s.header.endian s.remaining

/-- What the streaming reader hands out of a record of the slice reader. -/
def PcapPacketRecord.streamed (record : PcapPacketRecord) : PcapPacketHeader × List UInt8 :=
  (record.header, record.data)

/-- Readers at the same place come to the same end, or read the same record and are
at the same place behind it. -/
theorem SamePlace.cases {s : PcapSliceReader} {r : PcapReader} (h : SamePlace s r) :
    (∃ r', s.readPacketRaw = .ok (none, s) ∧ r.readPacketRaw = .ok (none, r')) ∨
      (∃ err err' r', s.readPacketRaw = .err (err, s) ∧ r.readPacketRaw = .err (err', r')) ∨
      ∃ record s' r', s.readPacketRaw = .ok (some record, s') ∧
        r.readPacketRaw = .ok (some record.streamed, r') ∧ SamePlace s' r' ∧
        s'.header = s.header ∧ r'.nanosecond = r.nanosecond := by
  have hslice := s.readPacketRaw_spec
  have hstream := r.readPacketRaw_spec
  have hplace : recordAt r.header.endian r.source = recordAt s.header.endian s.remaining := by
    rw [h.header, h.source]
  rw [hplace] at hstream
  cases hrecord : recordAt s.header.endian s.remaining with
  | atEnd =>
      rw [hrecord] at hslice hstream
      obtain ⟨r', hr⟩ := hstream
      exact .inl ⟨r', hslice, hr⟩
  | tornHeader => exact absurd (.here hrecord) h.notTorn
  | tornData =>
      rw [hrecord] at hslice hstream
      obtain ⟨_, hs⟩ := hslice
      obtain ⟨_, hr⟩ := hstream
      exact .inr (.inl ⟨_, _, _, hs, hr⟩)
  | record header data rest =>
      rw [hrecord] at hslice hstream
      obtain ⟨s', hheader, hrest, hs⟩ := hslice
      refine .inr (.inr ⟨_, s', _, hs, hstream, ⟨h.header.trans hheader.symm, ?_, hrest.symm, ?_⟩,
        hheader, rfl⟩)
      · rw [hheader]
        exact h.nanosecond
      · rw [hheader, hrest]
        exact fun htorn => h.notTorn (.next hrecord htorn)

/-- **The raw calls are in lockstep.** -/
theorem readPacketRaw_lockstep : Lockstep PcapPacketRecord.streamed SamePlace
    PcapSliceReader.readPacketRaw PcapReader.readPacketRaw := by
  intro s r h
  rcases h.cases with ⟨r', hs, hr⟩ | ⟨e, e', r', hs, hr⟩ | ⟨record, s', r', hs, hr, h', -, -⟩
  · rw [hs, hr]
    exact .none
  · rw [hs, hr]
    exact .err
  · rw [hs, hr]
    exact .some h'

namespace PcapPacketHeader

variable {header : PcapPacketHeader} {data : List UInt8} {linkType : LinkType}

/-- The packet with a timestamp that was computed. -/
def packetAt (header : PcapPacketHeader) (data : List UInt8) (linkType : LinkType)
    (timestamp : I64) : PacketRecord :=
  ⟨timestamp, header.origLen, data, linkType⟩

/-- A record of a nanosecond capture: the fraction is added as it is. -/
theorem toPacket_nanosecond : header.toPacket data true linkType =
    (I64.checked (header.tsSec * 1000000000 + header.tsUsec) >>=
      fun timestamp => .ok (header.packetAt data linkType timestamp)) := by
  rw [toPacket, if_pos rfl, Outcome.pure_eq, Outcome.ok_bind]
  rfl

/-- A record of a microsecond capture, where the scaled fraction fits a `u32`. -/
theorem toPacket_microsecond (h : header.tsUsec * 1000 < 2 ^ 32) :
    header.toPacket data false linkType =
      (I64.checked (header.tsSec * 1000000000 + (header.tsUsec * 1000 : ℕ)) >>=
        fun timestamp => .ok (header.packetAt data linkType timestamp)) := by
  rw [toPacket, if_neg (by decide), if_pos h, Outcome.pure_eq, Outcome.ok_bind]
  rfl

/-- A record becomes a packet, or its timestamp overflows. -/
theorem toPacket_cases (header : PcapPacketHeader) (data : List UInt8) (nanosecond : Bool)
    (linkType : LinkType) :
    (∃ packet, header.toPacket data nanosecond linkType = .ok packet) ∨
      header.toPacket data nanosecond linkType = .panic := by
  have hpacket : ∀ x : Result I64, ((∃ timestamp, x = .ok timestamp) ∨ x = .panic) →
      (∃ packet, (x >>= fun timestamp => .ok (header.packetAt data linkType timestamp)) =
        .ok packet) ∨
      (x >>= fun timestamp => .ok (header.packetAt data linkType timestamp)) = .panic := by
    rintro x (⟨timestamp, rfl⟩ | rfl)
    · exact .inl ⟨_, rfl⟩
    · exact .inr rfl
  cases nanosecond with
  | true =>
      rw [toPacket_nanosecond]
      exact hpacket _ (I64.checked_cases _)
  | false =>
      by_cases husec : header.tsUsec * 1000 < 2 ^ 32
      · rw [toPacket_microsecond husec]
        exact hpacket _ (I64.checked_cases _)
      · rw [toPacket, if_neg (by decide), if_neg husec]
        exact .inr rfl

end PcapPacketHeader

/-- The packet calls are in lockstep: both make a packet of the record in the same
way. -/
theorem nextPacket_lockstep :
    Lockstep id SamePlace PcapSliceReader.nextPacket PcapReader.nextPacket := by
  intro s r h
  rw [PcapSliceReader.nextPacket, PcapReader.nextPacket]
  simp only [Prog.bind_apply, Prog.get_apply, Outcome.ok_bind]
  rcases h.cases with ⟨r', hs, hr⟩ | ⟨e, e', r', hs, hr⟩ |
    ⟨record, s', r', hs, hr, h', hheader, hnanosecond⟩
  · rw [hs, hr]
    exact .none
  · rw [hs, hr]
    exact .err
  · rw [hs, hr]
    simp only [Outcome.ok_bind, Prog.bind_apply, Prog.get_apply, PcapPacketRecord.streamed]
    rw [hheader, h.header, h.nanosecond]
    rcases record.header.toPacket_cases record.data s.header.isNanosecond s.header.linkType with
      ⟨packet, hpacket⟩ | hpacket
    · rw [hpacket]
      exact .some h'
    · rw [hpacket]
      exact .panic

/-! ### Runs of the two readers -/

/-- What a record that was read tells of the call. -/
theorem PcapSliceReader.remaining_of_readPacketRaw {s s' : PcapSliceReader}
    {record : PcapPacketRecord} (h : s.readPacketRaw = .ok (some record, s')) :
    s'.remaining.length < s.remaining.length := by
  have hspec := s.readPacketRaw_spec
  rw [h] at hspec
  split at hspec
  · simp at hspec
  · simp at hspec
  · simp at hspec
  · rename_i hrecord
    obtain ⟨t, -, hrest, ht⟩ := hspec
    cases ht
    rw [hrest]
    exact recordAt_rest_length hrecord

/-- The slice reader makes one read without a loop. -/
theorem PcapSliceReader.readPacketRaw_ne_outOfFuel (s : PcapSliceReader) :
    s.readPacketRaw ≠ .outOfFuel := by
  intro h
  have hspec := s.readPacketRaw_spec
  rw [h] at hspec
  split at hspec <;> simp at hspec

/-- A packet comes of a record. -/
theorem PcapSliceReader.nextPacket_of_some {s s' : PcapSliceReader} {record : PcapPacketRecord}
    (h : s.readPacketRaw = .ok (some record, s')) :
    (∃ packet, s.nextPacket = .ok (some packet, s')) ∨ s.nextPacket = .panic := by
  rw [nextPacket, Prog.bind_apply, h, Outcome.ok_bind]
  simp only [Prog.bind_apply, Prog.get_apply, Outcome.ok_bind]
  rcases record.header.toPacket_cases record.data s'.header.isNanosecond s'.header.linkType with
    ⟨packet, hpacket⟩ | hpacket
  · rw [hpacket]
    exact .inl ⟨packet, rfl⟩
  · rw [hpacket]
    exact .inr rfl

/-- Reading records comes to an end. -/
theorem PcapSliceReader.exists_runs (s : PcapSliceReader) :
    ∃ records ending, Runs PcapSliceReader.readPacketRaw s records ending :=
  runs_of_measure (fun s => s.remaining.length) readPacketRaw_ne_outOfFuel
    (fun _ _ _ => remaining_of_readPacketRaw) s

/-- Reading packets comes to an end. -/
theorem PcapSliceReader.exists_runs_nextPacket (s : PcapSliceReader) :
    ∃ packets ending, Runs PcapSliceReader.nextPacket s packets ending := by
  have hcases : ∀ s : PcapSliceReader, (∃ s', s.nextPacket = .ok (none, s')) ∨
      (∃ e, s.nextPacket = .err e) ∨ s.nextPacket = .panic ∨
      ∃ packet s', s.nextPacket = .ok (some packet, s') ∧
        s'.remaining.length < s.remaining.length := by
    intro s
    cases hraw : s.readPacketRaw with
    | err e =>
        refine .inr (.inl ⟨e, ?_⟩)
        rw [nextPacket, Prog.bind_apply, hraw, Outcome.err_bind]
    | panic =>
        refine .inr (.inr (.inl ?_))
        rw [nextPacket, Prog.bind_apply, hraw, Outcome.panic_bind]
    | outOfFuel => exact absurd hraw s.readPacketRaw_ne_outOfFuel
    | ok result =>
        obtain ⟨record, s'⟩ := result
        cases record with
        | none =>
            refine .inl ⟨s', ?_⟩
            rw [nextPacket, Prog.bind_apply, hraw, Outcome.ok_bind]
            rfl
        | some record =>
            rcases nextPacket_of_some hraw with ⟨packet, hpacket⟩ | hpanic
            · exact .inr (.inr (.inr ⟨packet, s', hpacket, remaining_of_readPacketRaw hraw⟩))
            · exact .inr (.inr (.inl hpanic))
  refine runs_of_measure (fun s => s.remaining.length) (fun s hcall => ?_) (fun s s' a hcall => ?_) s
  · rcases hcases s with ⟨_, h⟩ | ⟨_, h⟩ | h | ⟨_, _, h, -⟩ <;> rw [hcall] at h <;> cases h
  · rcases hcases s with ⟨_, h⟩ | ⟨_, h⟩ | h | ⟨_, _, h, hlt⟩ <;> rw [hcall] at h <;> cases h
    exact hlt

/-- A torn header is where the readers part: the slice reader fails there, the
streaming reader ends. -/
theorem TornHeader.endings {s : PcapSliceReader} {r : PcapReader}
    (htorn : TornHeader s.header.endian s.remaining) (hheader : r.header = s.header)
    (hsource : r.source = s.remaining) :
    (∃ records, Runs PcapSliceReader.readPacketRaw s records .failed) ∧
      ∃ records, Runs PcapReader.readPacketRaw r records .clean := by
  generalize he : s.header.endian = e at htorn
  generalize hbytes : s.remaining = bytes at htorn
  induction htorn generalizing s r with
  | here h =>
      have hslice := s.readPacketRaw_spec
      have hstream := r.readPacketRaw_spec
      rw [hheader, hsource] at hstream
      rw [he, hbytes, h] at hslice hstream
      obtain ⟨_, hs⟩ := hslice
      obtain ⟨_, hr⟩ := hstream
      exact ⟨⟨_, .failed hs⟩, _, .clean hr⟩
  | @next bytes data rest header h _ ih =>
      have hslice := s.readPacketRaw_spec
      have hstream := r.readPacketRaw_spec
      rw [he, hbytes, h] at hslice
      rw [show recordAt r.header.endian r.source = _ by rw [hheader, hsource, he, hbytes, h]] at hstream
      obtain ⟨s', hs'header, hrest, hs⟩ := hslice
      obtain ⟨⟨records, hfailed⟩, records', hclean⟩ := @ih s' { r with source := rest }
        (hheader.trans hs'header.symm) hrest.symm (by rw [hs'header, he]) hrest
      exact ⟨⟨_, .next hs hfailed⟩, _, .next hstream hclean⟩

/-- The readers of a capture hand out the same records, and the same packets, and
end in the same way. -/
def ReadersAgree (s : PcapSliceReader) (r : PcapReader) : Prop :=
  (∃ records ending, Runs PcapSliceReader.readPacketRaw s records ending ∧
    Runs PcapReader.readPacketRaw r (records.map PcapPacketRecord.streamed) ending) ∧
  ∃ packets ending, Runs PcapSliceReader.nextPacket s packets ending ∧
    Runs PcapReader.nextPacket r packets ending

/-- Both readers start behind the global header. -/
theorem new_eq_ok {data : List UInt8} {header : PcapHeader}
    (h : PcapHeader.parse data = .ok header) :
    ∃ s, PcapSliceReader.new data = .ok s ∧ s.header = header ∧
      s.remaining = data.drop PcapHeader.LEN ∧
      PcapReader.new data = .ok ⟨header, header.isBigEndian, header.isNanosecond,
        data.drop PcapHeader.LEN⟩ := by
  have hlen : PcapHeader.LEN ≤ data.length := by
    by_contra hshort
    rw [PcapHeader.parse, if_pos (by omega)] at h
    cases h
  have htake : (data.take PcapHeader.LEN).length = PcapHeader.LEN := by
    rw [List.length_take]
    omega
  have hparse : PcapHeader.parse (data.take PcapHeader.LEN) = .ok header := by
    rw [← h]
    conv_rhs => rw [← List.take_append_drop PcapHeader.LEN data]
    exact (PcapHeader.parse_append htake.ge).symm
  have hread : readExact PcapHeader.LEN data =
      some (data.take PcapHeader.LEN, data.drop PcapHeader.LEN) := if_pos hlen
  refine ⟨⟨header, data, PcapHeader.LEN, hlen⟩, ?_, rfl, rfl, ?_⟩
  · rw [PcapSliceReader.new, h, Outcome.ok_bind, dif_pos hlen]
    rfl
  · simp only [PcapReader.new, hread, hparse, Outcome.ok_bind]
    rfl

/-- **The slice reader and the streaming reader of a capture agree if and only if
the capture does not end in a torn record header.** -/
theorem readers_agree_iff (data : List UInt8) (header : PcapHeader)
    (h : PcapHeader.parse data = .ok header) :
    ∃ s r, PcapSliceReader.new data = .ok s ∧ PcapReader.new data = .ok r ∧
      (ReadersAgree s r ↔ ¬TornHeader header.endian (data.drop PcapHeader.LEN)) := by
  obtain ⟨s, hs, hheader, hremaining, hr⟩ := new_eq_ok h
  refine ⟨s, _, hs, hr, ?_, fun hnotTorn => ?_⟩
  · rintro ⟨⟨records, ending, hslice, hstream⟩, -⟩ htorn
    obtain ⟨⟨_, hfailed⟩, _, hclean⟩ :=
      @TornHeader.endings s ⟨header, header.isBigEndian, header.isNanosecond, data.drop PcapHeader.LEN⟩
        (by rw [hheader, hremaining]; exact htorn) hheader.symm hremaining.symm
    have hending := (hslice.unique hfailed).2.symm.trans (hstream.unique hclean).2
    cases hending
  · have hplace : SamePlace s ⟨header, header.isBigEndian, header.isNanosecond,
        data.drop PcapHeader.LEN⟩ := by
      refine ⟨hheader.symm, by rw [hheader], hremaining.symm, ?_⟩
      rw [hheader, hremaining]
      exact hnotTorn
    obtain ⟨records, ending, hrecords⟩ := s.exists_runs
    obtain ⟨packets, ending', hpackets⟩ := s.exists_runs_nextPacket
    refine ⟨⟨records, ending, hrecords, readPacketRaw_lockstep.runs hplace hrecords⟩,
      packets, ending', hpackets, ?_⟩
    have hrun := nextPacket_lockstep.runs hplace hpackets
    rwa [List.map_id] at hrun

/-- A capture without a record, and one byte of a record header. -/
def tornCapture : List UInt8 :=
  [0xA1, 0xB2, 0xC3, 0xD4, 0, 2, 0, 4, 0, 0, 0, 0, 0, 0, 0, 0, 0, 0, 0xFF, 0xFF, 0, 0, 0, 1, 0]

/-- The slice reader fails at the torn header, the streaming reader ends. -/
theorem tornCapture_disagree :
    ∃ s r, PcapSliceReader.new tornCapture = .ok s ∧ PcapReader.new tornCapture = .ok r ∧
      Runs PcapSliceReader.readPacketRaw s [] .failed ∧ Runs PcapReader.readPacketRaw r [] .clean ∧
      ¬ReadersAgree s r := by
  obtain ⟨s, hs, hheader, hremaining, hr⟩ :=
    @new_eq_ok tornCapture ⟨0xA1B2C3D4, 2, 4, 0, 0, 0xFFFF, 1⟩ (by decide)
  have htorn : recordAt s.header.endian s.remaining = .tornHeader := by
    rw [hheader, hremaining]
    decide
  have hslice := s.readPacketRaw_spec
  rw [htorn] at hslice
  obtain ⟨_, hslice⟩ := hslice
  have hstream : PcapReader.readPacketRaw ⟨⟨0xA1B2C3D4, 2, 4, 0, 0, 0xFFFF, 1⟩, true, false, [0]⟩ =
      .ok (none, ⟨⟨0xA1B2C3D4, 2, 4, 0, 0, 0xFFFF, 1⟩, true, false, []⟩) := by decide
  refine ⟨s, _, hs, hr, .failed hslice, .clean hstream, ?_⟩
  rintro ⟨⟨records, ending, h, h'⟩, -⟩
  have hending := (h.unique (.failed hslice)).2.symm.trans (h'.unique (.clean hstream)).2
  cases hending

/-- A capture of one packet of two bytes, which ends behind it. -/
def wholeCapture : List UInt8 :=
  tornCapture.take 24 ++ [0, 0, 0, 1, 0, 0, 0, 0, 0, 0, 0, 2, 0, 0, 0, 2, 0xAB, 0xCD]

/-- Both readers hand out its packet and end. -/
theorem readers_agree_iff_wholeCapture :
    ∃ s r, PcapSliceReader.new wholeCapture = .ok s ∧ PcapReader.new wholeCapture = .ok r ∧
      ¬TornHeader .big (wholeCapture.drop PcapHeader.LEN) ∧ ReadersAgree s r := by
  obtain ⟨s, r, hs, hr, hiff⟩ :=
    readers_agree_iff wholeCapture ⟨0xA1B2C3D4, 2, 4, 0, 0, 0xFFFF, 1⟩ (by decide)
  have hwhole : ¬TornHeader .big (wholeCapture.drop PcapHeader.LEN) := by
    have hrecord : recordAt .big (wholeCapture.drop PcapHeader.LEN) =
        .record ⟨1, 0, 2, 2⟩ [0xAB, 0xCD] [] := by decide
    rintro (htorn | ⟨hnext, htorn⟩)
    · rw [hrecord] at htorn
      cases htorn
    · rw [hrecord] at hnext
      cases hnext
      rcases htorn with htorn | ⟨hnext, -⟩
      · cases htorn
      · cases hnext
  exact ⟨s, r, hs, hr, hwhole, hiff.2 hwhole⟩

end Capture
end Maja
