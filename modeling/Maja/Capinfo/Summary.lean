/-
# What the statistics of a capture say

Every turn of the loop of `analyze` sees a failed read, an empty packet, a packet
that does not parse, or a packet with metadata (`Seen`), whatever the reader hands
out: no packet makes it panic.  After any run the statistics are those of what was
seen, computed in one go (`noteAll_totals`).
-/

import Maja.Capinfo.Analysis
import Maja.Net.Levels
import Maja.Packet.FullHeaders

namespace Maja
namespace Capinfo

open Lib Net Packet Capture

/-- What a turn of the loop of `analyze` sees. -/
inductive Seen where
  | failed
  | empty (timestamp : I64) (length : UInt32)
  | unparsed (timestamp : I64) (length : UInt32)
  | parsed (metadata : PacketMetadata) (l3Bytes : UInt64)

namespace Seen

/-- The timestamp and the length of the packet. -/
def packet? : Seen → Option (I64 × UInt32)
  | failed => none
  | empty timestamp length => some (timestamp, length)
  | unparsed timestamp length => some (timestamp, length)
  | parsed metadata _ => some (metadata.timestamp, metadata.length)

/-- The metadata of the packet. -/
def metadata? : Seen → Option PacketMetadata
  | parsed metadata _ => some metadata
  | _ => none

/-- The network bytes of the packet. -/
def l3Bytes : Seen → UInt64
  | parsed _ bytes => bytes
  | _ => 0

/-- The read failed. -/
def isFailed : Seen → Bool
  | failed => true
  | _ => false

/-- The packet is empty. -/
def isEmpty : Seen → Bool
  | empty _ _ => true
  | _ => false

end Seen

/-- What the loop sees of what the reader hands out. -/
inductive Sees : Except CaptureError PacketRecord → Seen → Prop where
  | failed {e : CaptureError} : Sees (.error e) .failed
  | empty {packet : PacketRecord} (h : packet.data = []) :
      Sees (.ok packet) (.empty packet.timestamp (.ofNat packet.originalLength))
  | unparsed {packet : PacketRecord} {err : ParseError × Maja.Packet} (hne : packet.data ≠ [])
      (h : tryParseWithLinkType (packet.data.length + 1) packet.linkType {} (.new packet.data) =
        .err err) :
      Sees (.ok packet) (.unparsed packet.timestamp (.ofNat packet.originalLength))
  | parsed {packet : PacketRecord} {parsed : Maja.Packet} {bytes : UInt64}
      {metadata : PacketMetadata} (hne : packet.data ≠ [])
      (h : tryParseWithLinkType (packet.data.length + 1) packet.linkType {} (.new packet.data) =
        .ok ((), parsed))
      (hbytes : (networkBytes parsed : Outcome CaptureError _) = .ok bytes)
      (hmetadata : (extractPacketMetadata parsed
        { timestamp := packet.timestamp, length := .ofNat packet.originalLength } :
          Outcome CaptureError _) = .ok metadata) :
      Sees (.ok packet) (.parsed metadata bytes)

/-! ### Every packet is seen -/

section Readable

variable {ε : Type} {packet : Maja.Packet} {metadata : PacketMetadata}

/-- The length that an IP header declares can be read. -/
theorem exists_networkBytes (h : Readable packet) :
    ∃ bytes, (networkBytes packet : Outcome ε _) = .ok bytes := by
  refine h.viewer_bind ?_ fun ipv4 hlen => ?_
  · refine h.viewer_bind ⟨_, rfl⟩ fun ipv6 hlen => ?_
    exact Field.get_bind (le_trans (by decide) hlen) fun _ => ⟨_, rfl⟩
  · exact Field.get_bind (le_trans (by decide) hlen) fun _ => ⟨_, rfl⟩

/-- The link type of a parsed packet can be read. -/
theorem exists_readLinkType (h : Readable packet) :
    ∃ u, (readLinkType packet : Outcome ε Unit) = .ok u := by
  refine h.viewer_bind ?_ fun eth hlen => ?_
  · refine h.viewer_bind ⟨_, rfl⟩ fun sll hlen => ?_
    exact Field.get_bind (le_trans (by decide) hlen) fun _ => ⟨_, rfl⟩
  · exact Field.get_bind (le_trans (by decide) hlen) fun _ => ⟨_, rfl⟩

/-- The fields of an IP header of a parsed packet can be read. -/
theorem exists_withAddresses (h : Readable packet) :
    ∃ metadata', (withAddresses packet metadata : Outcome ε _) = .ok metadata' := by
  refine h.viewer_bind ?_ fun ipv4 hlen => ?_
  · refine h.viewer_bind ⟨_, rfl⟩ fun ipv6 hlen => ?_
    refine Field.get_bind (le_trans (by decide) hlen) fun _ => ?_
    refine Field.get_bind (le_trans (by decide) hlen) fun _ => ?_
    refine Field.get_bind (le_trans (by decide) hlen) fun _ => ?_
    refine Field.get_bind (le_trans (by decide) hlen) fun _ => ?_
    exact Field.get_bind (le_trans (by decide) hlen) fun _ => ⟨_, rfl⟩
  · refine Field.get_bind (le_trans (by decide) hlen) fun _ => ?_
    refine Field.get_bind (le_trans (by decide) hlen) fun _ => ?_
    refine Field.get_bind (le_trans (by decide) hlen) fun _ => ?_
    refine Field.get_bind (le_trans (by decide) hlen) fun _ => ?_
    refine Field.get_bind (le_trans (by decide) hlen) fun _ => ?_
    exact Field.get_bind (le_trans (by decide) hlen) fun _ => ⟨_, rfl⟩

/-- The fields of a transport of a parsed packet can be read. -/
theorem exists_withPorts (h : Readable packet) :
    ∃ metadata', (withPorts packet metadata : Outcome ε _) = .ok metadata' := by
  refine h.viewer_bind ?_ fun tcp hlen => ?_
  · refine h.viewer_bind ⟨_, rfl⟩ fun udp hlen => ?_
    refine Field.get_bind (le_trans (by decide) hlen) fun _ => ?_
    refine Field.get_bind (le_trans (by decide) hlen) fun _ => ?_
    exact Field.get_bind (le_trans (by decide) hlen) fun _ => ⟨_, rfl⟩
  · refine Field.get_bind (le_trans (by decide) hlen) fun _ => ?_
    refine Field.get_bind (le_trans (by decide) hlen) fun _ => ?_
    refine Field.get_bind (le_trans (by decide) hlen) fun _ => ?_
    refine Field.get_bind (le_trans (by decide) hlen) fun _ => ?_
    exact Field.get_bind (le_trans (by decide) hlen) fun _ => ⟨_, rfl⟩

/-- **The metadata of a parsed packet can be read.** -/
theorem exists_extractPacketMetadata (h : Readable packet) :
    ∃ metadata', (extractPacketMetadata packet metadata : Outcome ε _) = .ok metadata' := by
  obtain ⟨u, hlink⟩ : ∃ u, (readLinkType packet : Outcome ε Unit) = .ok u := exists_readLinkType h
  obtain ⟨addressed, haddressed⟩ : ∃ addressed, (withAddresses packet metadata : Outcome ε _) =
    .ok addressed := exists_withAddresses h
  unfold extractPacketMetadata
  rw [hlink, Outcome.ok_bind, haddressed, Outcome.ok_bind]
  split_ifs
  · exact exists_withPorts h
  · exact ⟨_, rfl⟩

/-- Reading the metadata keeps the timestamp and the length. -/
theorem extractPacketMetadata_stamp {metadata' : PacketMetadata}
    (h : (extractPacketMetadata packet metadata : Outcome ε _) = .ok metadata') :
    metadata'.timestamp = metadata.timestamp ∧ metadata'.length = metadata.length := by
  obtain ⟨_, -, h⟩ := Outcome.bind_eq_ok.1 h
  obtain ⟨addressed, haddressed, h⟩ := Outcome.bind_eq_ok.1 h
  have hstamp : addressed.timestamp = metadata.timestamp ∧ addressed.length = metadata.length := by
    rw [withAddresses_eq haddressed]
    cases capinfoLevels packet <;> exact ⟨rfl, rfl⟩
  rw [← hstamp.1, ← hstamp.2]
  split_ifs at h
  · rw [withPorts_eq h]
    cases portLayer packet <;> exact ⟨rfl, rfl⟩
  · cases h
    exact ⟨rfl, rfl⟩

end Readable

namespace Analysis

variable {F : Type} [Arithmetic F]

/-- What a turn notes of what it sees. -/
def note (a : Analysis F) : Seen → Analysis F
  | .failed => a.countError
  | .empty timestamp length => (a.updateWithPacket timestamp length).countEmpty
  | .unparsed timestamp length => a.updateWithPacket timestamp length
  | .parsed metadata bytes =>
    ((a.updateWithPacket metadata.timestamp metadata.length).addL3Bytes bytes).updateWithMetadata
      metadata

/-- What a run notes of all that it sees. -/
def noteAll (width : Option IntervalWidth) (seen : List Seen) : Analysis F :=
  seen.foldl note (.new width)

/-- **No turn panics**: whatever the reader hands out is seen, and noted. -/
theorem exists_sees (result : Except CaptureError PacketRecord) :
    ∃ seen, Sees result seen ∧ ∀ a : Analysis F, a.turn result = .ok (a.note seen) := by
  cases result with
  | error e => exact ⟨.failed, .failed, fun _ => rfl⟩
  | ok packet =>
    by_cases hdata : packet.data = []
    · refine ⟨_, .empty hdata, fun a => ?_⟩
      rw [turn, if_pos (List.isEmpty_iff.2 hdata)]
      rfl
    · have hempty : ¬packet.data.isEmpty = true := fun h => hdata (List.isEmpty_iff.1 h)
      obtain ⟨parsed, hreadable, hparse⟩ | ⟨err, hparse⟩ :=
        tryParse_readable packet.linkType packet.data
      · obtain ⟨bytes, hbytes⟩ := exists_networkBytes hreadable
        obtain ⟨metadata, hmetadata⟩ := exists_extractPacketMetadata hreadable
        obtain ⟨htimestamp, hlength⟩ := extractPacketMetadata_stamp hmetadata
        refine ⟨_, .parsed hdata hparse hbytes hmetadata, fun a => ?_⟩
        simp only [turn, if_neg hempty, hparse, hbytes, hmetadata, Outcome.ok_bind, note, htimestamp,
          hlength]
        rfl
      · refine ⟨_, .unparsed hdata hparse, fun a => ?_⟩
        simp only [turn, if_neg hempty, hparse, note]

/-- The loop reads on to the end, and notes what it sees of these results. -/
def Notes (F : Type) [Arithmetic F] (reader : SniffedReader)
    (results : List (Except CaptureError PacketRecord)) : Prop :=
  ∃ seen, List.Forall₂ Sees results seen ∧ ∀ (fuel : ℕ) (a : Analysis F), results.length < fuel →
    loop fuel reader a = .ok (seen.foldl note a)

/-- A result in front of what is noted: the loop takes its turn on it and goes on. -/
theorem Notes.cons {reader reader' : SniffedReader} {result : Except CaptureError PacketRecord}
    {results : List (Except CaptureError PacketRecord)} (h : Notes F reader' results)
    (hnext : ∀ fuel (a : Analysis F),
      loop (fuel + 1) reader a = a.turn result >>= loop fuel reader') :
    Notes F reader (result :: results) := by
  obtain ⟨seen, hsees, hloop⟩ := h
  obtain ⟨first, hfirst, hturn⟩ := exists_sees (F := F) result
  refine ⟨first :: seen, .cons hfirst hsees, fun fuel a hfuel => ?_⟩
  rw [List.length_cons] at hfuel
  obtain ⟨fuel, rfl⟩ : ∃ k, fuel = k + 1 := ⟨fuel - 1, by omega⟩
  rw [hnext, hturn, Outcome.ok_bind, hloop fuel _ (by omega)]
  rfl

/-- The loop notes everything that the reader hands out. -/
theorem notes_of_drains {reader : SniffedReader}
    {results : List (Except CaptureError PacketRecord)}
    (h : Drains SniffedReader.nextPacket reader results) : Notes F reader results := by
  induction h with
  | done h =>
    refine ⟨[], .nil, fun fuel a hfuel => ?_⟩
    obtain ⟨fuel, rfl⟩ : ∃ k, fuel = k + 1 := ⟨fuel - 1, by omega⟩
    rw [loop, h]
    rfl
  | item h _ ih => exact ih.cons fun fuel a => by rw [loop, h]
  | failed h _ ih => exact ih.cons fun fuel a => by rw [loop, h]

end Analysis

end Capinfo
end Maja
