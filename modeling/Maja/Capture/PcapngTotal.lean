/-
# When the pcapng slice reader is total

`next_block` and `next_packet`, called again and again, never hang: a block is at
least twelve bytes long, so the position moves towards the end of the data.  They
do panic, on blocks whose option lists, captured lengths or timestamps do not
fit.  `total_iff_fits` is the exact condition: every block that is reached fits,
and so does the timestamp of every packet that an interface is known for.
-/

import Maja.Capture.PcapngBlocks

namespace Maja
namespace Capture

open Lib

/-! ### The condition on a block -/

namespace Frame

/-- The block parser returns from the block. -/
def BlockFits (frame : Frame) : Prop :=
  match frame.blockType with
  | .sectionHeader => SectionHeader.BlockFits frame.raw
  | .interfaceDescription => InterfaceDescription.BlockFits frame.raw frame.endian
  | .enhancedPacket => EnhancedPacketHeaderOptions.BlockFits frame.raw frame.endian
  | _ => True

/-- The raw timestamp of an Enhanced Packet Block. -/
def rawStamp (frame : Frame) : ℕ :=
  frame.endian.wordAt frame.raw 12 4 <<< 32 ||| frame.endian.wordAt frame.raw 16 4

/-- The timestamp of an Enhanced Packet Block can be computed, if the block is
complete and its interface is among those known. -/
def TimestampFits (frame : Frame) (interfaces : List InterfaceDescription) : Prop :=
  frame.blockType = .enhancedPacket →
    EnhancedPacketHeaderOptions.IsComplete frame.raw frame.endian →
      ∀ d, interfaces[frame.endian.wordAt frame.raw 8 4]? = some d →
        StampFits frame.rawStamp (d.tsresol.getD 6) (d.tsoffset.getD (I64.ofInt 0))

/-- Reading the block, and the packet in it, returns. -/
structure Fits (frame : Frame) (interfaces : List InterfaceDescription) : Prop where
  block : frame.BlockFits
  timestamp : frame.TimestampFits interfaces

/-- The parser of any block returns exactly on a block that fits. -/
theorem parseFrame_returns {frame : Frame} : (parseFrame frame).Returns ↔ frame.BlockFits := by
  obtain ⟨blockType, e, offset, raw, hraw⟩ := frame
  cases blockType with
  | sectionHeader =>
      simp [parseFrame, BlockFits, Outcome.returns_bind, SectionHeader.parse_returns]
  | interfaceDescription =>
      simp [parseFrame, BlockFits, Outcome.returns_bind, InterfaceDescription.parse_returns]
  | simplePacket =>
      simp [parseFrame, BlockFits, Outcome.returns_bind, SimplePacketHeader.parse_returns]
  | enhancedPacket =>
      simp [parseFrame, BlockFits, Outcome.returns_bind, EnhancedPacketHeaderOptions.parse_returns]
  | _ =>
      have hraw' : 8 ≤ raw.length := by omega
      simp [parseFrame, BlockFits, Outcome.returns_bind, Outcome.slice_returns, hraw']

end Frame

namespace PcapngSliceReader

/-! ### One call -/

/-- Cutting out a block always returns. -/
theorem nextFrame_returns (s : PcapngSliceReader) : s.nextFrame.Returns := by
  unfold nextFrame
  split_ifs
  · simp
  · simp
  · rw [Outcome.returns_bind]
    constructor
    · unfold blockTypeAndEndian
      simp only
      split_ifs
      · simp
      · cases s.sectionHeader <;> simp
    · rintro ⟨blockType, e⟩ -
      dsimp only
      split_ifs <;> simp

/-- A block starts at the position and lies in what remains. -/
theorem nextFrame_some {s : PcapngSliceReader} {frame : Frame}
    (h : s.nextFrame = .ok (some frame)) :
    frame.offset = s.pos ∧ frame.raw.length ≤ s.remaining.length ∧
      frame.raw = s.remaining.take frame.raw.length := by
  unfold nextFrame at h
  split_ifs at h with hempty hshort
  · simp at h
  · obtain ⟨⟨blockType, e⟩, -, h⟩ := Outcome.bind_eq_ok.1 h
    dsimp only at h
    split_ifs at h with hlen
    simp only [Outcome.pure_eq, Outcome.ok.injEq, Option.some.injEq] at h
    subst h
    refine ⟨rfl, ?_, ?_⟩
    · simp
    · rw [List.length_take, List.take_eq_take_iff]
      simp

/-- The block is of the type and in the byte order that the bytes and the section
say, and as long as its length field says. -/
theorem nextFrame_kind {s : PcapngSliceReader} {frame : Frame}
    (h : s.nextFrame = .ok (some frame)) :
    s.blockTypeAndEndian = .ok (frame.blockType, frame.endian) ∧
      frame.endian.wordAt s.remaining 4 4 = frame.raw.length := by
  unfold nextFrame at h
  split_ifs at h with hempty hshort
  · simp at h
  · obtain ⟨⟨blockType, e⟩, hkind, h⟩ := Outcome.bind_eq_ok.1 h
    dsimp only at h
    split_ifs at h with hlen
    simp only [Outcome.pure_eq, Outcome.ok.injEq, Option.some.injEq] at h
    subst h
    refine ⟨hkind, ?_⟩
    rw [not_or, Nat.not_lt, Nat.not_lt] at hlen
    rw [List.length_take, min_eq_left hlen.2]

/-- The position never leaves the data, so it moves by the whole block. -/
theorem advance_pos {s : PcapngSliceReader} {n : ℕ} (h : n ≤ s.remaining.length) :
    (s.advance n).pos = s.pos + n := by
  have hpos := s.pos_le
  rw [length_remaining] at h
  simp only [advance]
  omega

/-- Moving on keeps the data. -/
@[simp] theorem advance_data (s : PcapngSliceReader) (n : ℕ) : (s.advance n).data = s.data := rfl

/-- Moving on keeps the interfaces. -/
@[simp] theorem advance_interfaces (s : PcapngSliceReader) (n : ℕ) :
    (s.advance n).interfaces = s.interfaces := rfl

/-- Recording a block keeps the data. -/
@[simp] theorem record_data (s : PcapngSliceReader) (block : PcapngBlock) :
    (s.record block).data = s.data := by
  cases block <;> rfl

/-- Recording a block keeps the position. -/
@[simp] theorem record_pos (s : PcapngSliceReader) (block : PcapngBlock) :
    (s.record block).pos = s.pos := by
  cases block <;> rfl

/-- What remains behind a frame. -/
theorem remaining_advance {s : PcapngSliceReader} {n : ℕ} (h : n ≤ s.remaining.length) :
    (s.advance n).remaining = s.remaining.drop n := by
  rw [remaining, advance_pos h, advance_data, remaining, List.drop_drop]

/-- Recording a block keeps what is left. -/
theorem remaining_record (s : PcapngSliceReader) (block : PcapngBlock) :
    (s.record block).remaining = s.remaining := by
  rw [remaining, remaining, record_data, record_pos]

/-- What a call of `next_block` does, by what it finds. -/
theorem nextBlock_apply (s : PcapngSliceReader) :
    nextBlock s =
      match s.nextFrame with
      | .ok none => .ok (none, s)
      | .ok (some frame) =>
          match parseFrame frame with
          | .ok block =>
              .ok (some ⟨frame.offset, frame.raw, block⟩,
                (s.advance frame.raw.length).record block)
          | .err e => .err (e, s.advance frame.raw.length)
          | .panic => .panic
          | .outOfFuel => .outOfFuel
      | .err e => .err (e, s)
      | .panic => .panic
      | .outOfFuel => .outOfFuel := by
  rcases hframe : s.nextFrame with (_ | frame) | e | _ | _
  · simp [nextBlock, hframe]
  · rcases hblock : parseFrame frame with block | e | _ | _ <;> simp [nextBlock, hframe, hblock]
  all_goals simp [nextBlock, hframe]

/-- A call of `next_block` returns exactly when the parser returns from the block
it finds. -/
theorem nextBlock_returns (s : PcapngSliceReader) :
    (nextBlock s).Returns ↔ ∀ frame, s.nextFrame = .ok (some frame) → frame.BlockFits := by
  have hreturns := nextFrame_returns s
  rw [nextBlock_apply]
  rcases hframe : s.nextFrame with (_ | frame) | e | _ | _
  · simp
  · have hparse := @Frame.parseFrame_returns frame
    rcases hblock : parseFrame frame with block | e | _ | _ <;> simp_all
  all_goals simp_all

/-- A block that is read uses up its bytes. -/
theorem nextBlock_some {s s' : PcapngSliceReader} {r : PcapngBlockRecord}
    (h : nextBlock s = .ok (some r, s')) :
    ∃ frame, s.nextFrame = .ok (some frame) ∧ parseFrame frame = .ok r.block ∧
      s' = (s.advance frame.raw.length).record r.block := by
  rw [nextBlock_apply] at h
  rcases hframe : s.nextFrame with (_ | frame) | e | _ | _
  · simp [hframe] at h
  · rcases hblock : parseFrame frame with block | e | _ | _ <;> simp [hframe, hblock] at h
    obtain ⟨rfl, rfl⟩ := h
    exact ⟨frame, rfl, hblock, rfl⟩
  all_goals simp [hframe] at h

/-- A block that is read costs bytes. -/
theorem nextBlock_pos_lt {s s' : PcapngSliceReader} {r : PcapngBlockRecord}
    (h : nextBlock s = .ok (some r, s')) : s.pos < s'.pos ∧ s'.data = s.data := by
  obtain ⟨frame, hframe, -, rfl⟩ := nextBlock_some h
  have hlen := (nextFrame_some hframe).2.1
  have htwelve := frame.twelve_le
  rw [record_pos, advance_pos hlen, record_data, advance_data]
  exact ⟨by omega, rfl⟩

/-- The packet of a block that was read is computed exactly when its timestamp
fits: an Enhanced Packet Block is the only one with a computation to fail. -/
theorem packetOfBlock_returns {s : PcapngSliceReader} {frame : Frame} {block : PcapngBlock}
    (h : parseFrame frame = .ok block) (offset : ℕ) (raw : List UInt8) :
    (packetOfBlock ⟨offset, raw, block⟩ (s.record block)).Returns ↔
      frame.TimestampFits s.interfaces := by
  obtain ⟨blockType, e, frameOffset, frameRaw, hraw⟩ := frame
  cases blockType with
  | enhancedPacket =>
      simp only [parseFrame, Outcome.bind_eq_ok, Outcome.pure_eq, Outcome.ok.injEq] at h
      obtain ⟨⟨p, data⟩, hp, rfl⟩ := h
      obtain ⟨hcomplete, hid, hhigh, hlow⟩ := EnhancedPacketHeaderOptions.parse_ok hp
      simp only [packetOfBlock, record, Frame.TimestampFits, true_implies, hid]
      cases hd : s.interfaces[e.wordAt frameRaw 8 4]? with
      | none => simp
      | some d =>
          simp only [EnhancedPacketHeaderOptions.intoPacketRecord,
            EnhancedPacketHeaderOptions.packetTimestamp, hhigh, hlow, Outcome.bind_assoc,
            Outcome.returns_bind, EnhancedPacketHeaderOptions.calcTimestamp_returns]
          simp [Frame.rawStamp, hcomplete]
  | sectionHeader | interfaceDescription =>
      simp only [parseFrame, Outcome.bind_eq_ok, Outcome.pure_eq, Outcome.ok.injEq] at h
      obtain ⟨parsed, -, rfl⟩ := h
      simp [packetOfBlock, Frame.TimestampFits]
  | simplePacket =>
      simp only [parseFrame, Outcome.bind_eq_ok, Outcome.pure_eq, Outcome.ok.injEq] at h
      obtain ⟨⟨header, data⟩, -, rfl⟩ := h
      cases hd : s.interfaces.head? <;> simp [packetOfBlock, Frame.TimestampFits, record, hd]
  | _ =>
      simp only [parseFrame, Outcome.bind_eq_ok, Outcome.pure_eq, Outcome.ok.injEq] at h
      obtain ⟨data, -, rfl⟩ := h
      simp [packetOfBlock, Frame.TimestampFits]

/-- A block that its parser turns down has no timestamp to compute. -/
theorem timestampFits_of_err {frame : Frame} {e : CaptureError} (hfits : frame.BlockFits)
    (h : parseFrame frame = .err e) (interfaces : List InterfaceDescription) :
    frame.TimestampFits interfaces := by
  intro htype hcomplete
  simp only [Frame.BlockFits, htype] at hfits
  obtain ⟨p, data, hp⟩ := EnhancedPacketHeaderOptions.exists_parse_ok hfits hcomplete
  simp [parseFrame, htype, hp] at h

/-! ### The packet loop -/

/-- The loop for a packet ends with the blocks. -/
theorem packetLoop_of_none {s s' : PcapngSliceReader} (h : nextBlock s = .ok (none, s'))
    (fuel : ℕ) : packetLoop (fuel + 1) s = .ok (none, s') := by
  simp [packetLoop, h]

/-- The loop for a packet hands on the error of a block. -/
theorem packetLoop_of_err {s s' : PcapngSliceReader} {e : CaptureError}
    (h : nextBlock s = .err (e, s')) (fuel : ℕ) :
    packetLoop (fuel + 1) s = .err (e, s') := by
  simp [packetLoop, h]

/-- One turn of the loop at a block that is read. -/
theorem packetLoop_of_some {s s' : PcapngSliceReader} {r : PcapngBlockRecord}
    (h : nextBlock s = .ok (some r, s')) (fuel : ℕ) :
    packetLoop (fuel + 1) s =
      match packetOfBlock r s' with
      | .ok (some p) => .ok (some p, s')
      | .ok none => packetLoop fuel s'
      | .err e => .err (e, s')
      | .panic => .panic
      | .outOfFuel => .outOfFuel := by
  rcases hp : packetOfBlock r s' with (_ | p) | e | _ | _ <;> simp [packetLoop, h, hp]

/-- The call is the loop, and the packet is taken out of its location. -/
theorem nextPacket_apply (s : PcapngSliceReader) :
    nextPacket s = packetLoop (s.data.length + 1) s >>= fun r =>
      .ok (r.1.map LocatedPacketRecord.packet, r.2) := by
  simp only [nextPacket, nextPacketWithOffset, Prog.bind_apply, Prog.get_apply, Outcome.ok_bind]
  rcases packetLoop (s.data.length + 1) s with ⟨_ | p, s'⟩ | e | _ | _ <;> rfl

/-- Where every block to come fits, the loop returns, given a turn for every byte
left, and leaves a state that reading block by block reaches, further on when it
returns a packet. -/
theorem packetLoop_spec {s : PcapngSliceReader}
    (hfits : ∀ t, Reaches nextBlock s t → ∀ frame, t.nextFrame = .ok (some frame) →
      frame.Fits t.interfaces) {fuel : ℕ} (hfuel : s.data.length - s.pos < fuel) :
    (∃ s', packetLoop fuel s = .ok (none, s') ∧ Reaches nextBlock s s') ∨
    (∃ p s', packetLoop fuel s = .ok (some p, s') ∧ Reaches nextBlock s s' ∧
      s.pos < s'.pos ∧ s'.data = s.data) ∨
    ∃ e s', packetLoop fuel s = .err (e, s') ∧ Reaches nextBlock s s' := by
  induction fuel generalizing s with
  | zero => omega
  | succ fuel ih =>
    have hreturns : (nextBlock s).Returns :=
      (nextBlock_returns s).2 fun frame hframe => (hfits s .refl frame hframe).block
    rcases hnext : nextBlock s with ⟨_ | r, s'⟩ | ⟨e, s'⟩ | _ | _
    · exact .inl ⟨s', packetLoop_of_none hnext fuel, .single (.inl ⟨_, hnext⟩)⟩
    · have hstep : Reaches nextBlock s s' := .single (.inl ⟨_, hnext⟩)
      obtain ⟨hlt, hdata⟩ := nextBlock_pos_lt hnext
      obtain ⟨frame, hframe, hparse, hs'⟩ := nextBlock_some hnext
      have hp : (packetOfBlock r s').Returns := by
        rw [hs']
        exact (packetOfBlock_returns hparse _ _).2 (hfits s .refl frame hframe).timestamp
      rw [packetLoop_of_some hnext]
      rcases hpacket : packetOfBlock r s' with (_ | p) | e | _ | _
      · -- the block held no packet: the loop goes on behind it
        have hbound := s'.pos_le
        have hlen : s'.data.length = s.data.length := by rw [hdata]
        have hrest := ih (fun t ht => hfits t (hstep.trans ht)) (by omega)
        rcases hrest with ⟨t, ht, hreach⟩ | ⟨p, t, ht, hreach, hpos, hdata'⟩ | ⟨e, t, ht, hreach⟩
        · exact .inl ⟨t, ht, hstep.trans hreach⟩
        · exact .inr (.inl ⟨p, t, ht, hstep.trans hreach, by omega, hdata'.trans hdata⟩)
        · exact .inr (.inr ⟨e, t, ht, hstep.trans hreach⟩)
      · exact .inr (.inl ⟨p, s', rfl, hstep, hlt, hdata⟩)
      · exact .inr (.inr ⟨e, s', rfl, hstep⟩)
      · exact absurd hp (by simp [hpacket])
      · exact absurd hp (by simp [hpacket])
    · exact .inr (.inr ⟨e, s', packetLoop_of_err hnext fuel, .single (.inr ⟨_, hnext⟩)⟩)
    · exact absurd hreturns (by simp [hnext])
    · exact absurd hreturns (by simp [hnext])

/-- Somewhere in the iteration of `next_packet` from `s₀`, the loop comes to `s`
with enough turns left for the rest of the data. -/
def Visited (s₀ s : PcapngSliceReader) : Prop :=
  ∃ p fuel, Reaches nextPacket s₀ p ∧ packetLoop (p.data.length + 1) p = packetLoop (fuel + 1) s ∧
    s.data.length - s.pos ≤ fuel

/-- A state that a call of `next_packet` starts from is visited. -/
theorem visited_of_reaches {s₀ s : PcapngSliceReader} (h : Reaches nextPacket s₀ s) :
    Visited s₀ s :=
  ⟨s, s.data.length, h, rfl, Nat.sub_le _ _⟩

/-- Where the iteration of `next_packet` is total, it comes to every state that
reading block by block reaches. -/
theorem visited_of_total {s₀ s : PcapngSliceReader} (htotal : Total nextPacket s₀)
    (h : Reaches nextBlock s₀ s) : Visited s₀ s := by
  induction h with
  | refl => exact visited_of_reaches .refl
  | @tail s s' _ hstep ih =>
    obtain ⟨p, fuel, hreach, hloop, hfuel⟩ := ih
    have hcall := nextPacket_apply p
    rw [hloop] at hcall
    rcases hstep with ⟨_ | r, hnext⟩ | ⟨e, hnext⟩
    · rw [packetLoop_of_none hnext] at hcall
      exact visited_of_reaches (hreach.tail (.inl ⟨_, hcall⟩))
    · obtain ⟨hlt, hdata⟩ := nextBlock_pos_lt hnext
      have hturn := packetLoop_of_some hnext fuel
      have hreturns := htotal.returns hreach
      rcases hpacket : packetOfBlock r s' with (_ | packet) | e | _ | _ <;>
        rw [hpacket] at hturn <;> rw [hturn] at hcall
      · -- the loop goes on at `s'` with one turn less
        have hbound := s'.pos_le
        have hlen : s'.data.length = s.data.length := by rw [hdata]
        obtain ⟨fuel, rfl⟩ := Nat.exists_eq_succ_of_ne_zero (show fuel ≠ 0 by omega)
        exact ⟨p, fuel, hreach, hloop.trans hturn, by omega⟩
      · exact visited_of_reaches (hreach.tail (.inl ⟨_, hcall⟩))
      · exact visited_of_reaches (hreach.tail (.inr ⟨_, hcall⟩))
      · exact absurd hreturns (by simp [hcall])
      · exact absurd hreturns (by simp [hcall])
    · rw [packetLoop_of_err hnext] at hcall
      exact visited_of_reaches (hreach.tail (.inr ⟨_, hcall⟩))

/-! ### The iteration -/

/-- Every block that reading block by block reaches can be read, and so can the
packet in it. -/
def BlocksFit (s₀ : PcapngSliceReader) : Prop :=
  ∀ s, Reaches nextBlock s₀ s → ∀ frame, s.nextFrame = .ok (some frame) →
    frame.Fits s.interfaces

/-- Where the blocks that are come to fit, every call of `next_block` returns. -/
theorem BlocksFit.total_nextBlock {s₀ : PcapngSliceReader} (h : BlocksFit s₀) :
    Total nextBlock s₀ := by
  refine total_of_measure (fun s => s.data.length - s.pos) ?_ ?_
  · intro s hs
    exact (nextBlock_returns s).2 fun frame hframe => (h s hs frame hframe).block
  · intro s s' r hnext
    obtain ⟨hlt, hdata⟩ := nextBlock_pos_lt hnext
    have hbound := s'.pos_le
    rw [hdata] at hbound ⊢
    omega

/-- Where the blocks fit, a call of `next_packet` leaves a state that reading
block by block reaches. -/
theorem BlocksFit.reaches {s₀ s : PcapngSliceReader} (h : BlocksFit s₀)
    (hs : Reaches nextPacket s₀ s) : Reaches nextBlock s₀ s := by
  induction hs with
  | refl => exact .refl
  | @tail s s' _ hstep ih =>
    have hspec := @packetLoop_spec s (fun t ht => h t (ih.trans ht)) (s.data.length + 1)
      (by omega)
    simp only [Leaves, nextPacket_apply] at hstep
    rcases hspec with ⟨t, ht, hreach⟩ | ⟨p, t, ht, hreach, -, -⟩ | ⟨e, t, ht, hreach⟩ <;>
      simp [ht] at hstep <;> exact hstep ▸ ih.trans hreach

/-- Where the blocks that are come to fit, every call of `next_packet` returns. -/
theorem BlocksFit.total_nextPacket {s₀ : PcapngSliceReader} (h : BlocksFit s₀) :
    Total nextPacket s₀ := by
  intro s hs
  induction hn : s.data.length - s.pos using Nat.strongRecOn generalizing s with
  | ind n ih =>
    have hspec := @packetLoop_spec s (fun t ht => h t ((h.reaches hs).trans ht))
      (s.data.length + 1) (by omega)
    have hcall := nextPacket_apply s
    rcases hspec with ⟨t, ht, -⟩ | ⟨p, t, ht, -, hlt, hdata⟩ | ⟨e, t, ht, -⟩ <;> rw [ht] at hcall
    · exact .done hcall
    · have hbound := t.pos_le
      rw [hdata] at hbound
      exact .next hcall (ih _ (by rw [hdata]; omega) t (hs.tail (.inl ⟨_, hcall⟩)) rfl)
    · exact .failed hcall

/-- **The slice reader is total exactly on the captures whose blocks fit.**  Both
iterations, `next_block` repeated and `next_packet` repeated, return from every
call and come to an end, if and only if every block that is reached has option
lists, a captured length and a timestamp that fit. -/
theorem total_iff_fits (data : List UInt8) :
    (Total nextBlock (new data) ∧ Total nextPacket (new data)) ↔ BlocksFit (new data) := by
  constructor
  · rintro ⟨hblock, hpacket⟩ s hs frame hframe
    have hbound := s.pos_le
    have hfits : frame.BlockFits :=
      (nextBlock_returns s).1 (hblock.returns hs) frame hframe
    refine ⟨hfits, ?_⟩
    -- the loop of some `next_packet` comes to this block and computes its packet
    obtain ⟨p, fuel, hreach, hloop, -⟩ := visited_of_total hpacket hs
    have hreturns := hpacket.returns hreach
    rw [nextPacket_apply, hloop] at hreturns
    have hparse := Frame.parseFrame_returns.2 hfits
    rcases hb : parseFrame frame with block | e | _ | _
    · have hnext : nextBlock s = .ok (some ⟨frame.offset, frame.raw, block⟩,
          (s.advance frame.raw.length).record block) := by
        simp [nextBlock_apply, hframe, hb]
      rw [← advance_interfaces s frame.raw.length,
        ← packetOfBlock_returns hb frame.offset frame.raw]
      rw [packetLoop_of_some hnext, Outcome.returns_bind] at hreturns
      rcases hp : packetOfBlock ⟨frame.offset, frame.raw, block⟩
        ((s.advance frame.raw.length).record block) with _ | _ | _ | _ <;>
        simp_all
    · exact timestampFits_of_err hfits hb s.interfaces
    · exact absurd hparse (by simp [hb])
    · exact absurd hparse (by simp [hb])
  · intro h
    exact ⟨h.total_nextBlock, h.total_nextPacket⟩

/-- A section header whose only option, `shb_hardware`, claims nine bytes of value
in a block that has four left. -/
def overlongOption : List UInt8 :=
  [0x0A, 0x0D, 0x0D, 0x0A, 0x00, 0x00, 0x00, 0x20, 0x1A, 0x2B, 0x3C, 0x4D, 0x00, 0x01, 0x00, 0x00,
    0xFF, 0xFF, 0xFF, 0xFF, 0xFF, 0xFF, 0xFF, 0xFF, 0x00, 0x02, 0x00, 0x09, 0x00, 0x00, 0x00, 0x20]

/-- **The reader is not total.**  The value is sliced out of the block unchecked,
and the first call panics. -/
theorem not_total_overlongOption :
    ¬(Total nextBlock (new overlongOption) ∧ Total nextPacket (new overlongOption)) := by
  rintro ⟨hblock, -⟩
  have hpanic : nextBlock (new overlongOption) = .panic := rfl
  exact absurd (hblock.returns .refl) (by simp [hpanic])

end PcapngSliceReader

end Capture
end Maja
