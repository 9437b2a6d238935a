/-
# What a pcapng block decodes to, and where

A block decodes to the same thing wherever it stands, as long as its section has
the same byte order and, for a packet, the interfaces that were known before are
still the first ones (`DecodesAt.mono`).  `Reads` is the reading of a row of
blocks under the state that the blocks themselves build up; `items_iff_reads` says
that this is what the slice reader does with the bytes of the row.
-/

import Maja.Capture.PcapngTotal
import Maja.Lib.Layout

namespace Maja
namespace Reordercap

open Lib Capture PcapngSliceReader

/-- A block as it is decoded: its bytes, its contents, and for an Enhanced Packet
Block the interface and the timestamp of its packet. -/
structure Decoded where
  raw : List UInt8
  block : PcapngBlock
  packet : Option (InterfaceDescription × I64)
  deriving DecidableEq, Repr

/-- What decoding depends on: the section header and the interfaces. -/
structure Context where
  sectionHeader : Option SectionHeader
  interfaces : List InterfaceDescription

/-- The context of a reader. -/
def contextOf (s : PcapngSliceReader) : Context := ⟨s.sectionHeader, s.interfaces⟩

/-- What a block changes. -/
def Context.record (ctx : Context) : PcapngBlock → Context
  | .sectionHeader header => { ctx with sectionHeader := some header }
  | .interfaceDescription d => { ctx with interfaces := ctx.interfaces ++ [d] }
  | _ => ctx

/-- The interface and the timestamp of an Enhanced Packet Block. -/
def packetOf (interfaces : List InterfaceDescription) :
    PcapngBlock → Result (Option (InterfaceDescription × I64))
  | .enhancedPacket ep _ =>
      match interfaces[ep.interfaceId]? with
      | some interface => do pure (some (interface, ← ep.packetTimestamp interface))
      | none => .err (.invalidPcapngPacketInterfaceId ep.interfaceId)
  | _ => .ok none

/-- Read the next block and decode it, with its offset. -/
def nextDecoded : Prog PcapngSliceReader CaptureError (Option (ℕ × Decoded)) := do
  match ← nextBlock with
  | some record => do
      let s ← Prog.get
      let packet ← Prog.lift (packetOf s.interfaces record.block)
      pure (some (record.offset, ⟨record.raw, record.block, packet⟩))
  | none => pure none

/-! ### One block -/

/-- The type and the byte order of the block that some bytes start with. -/
def kindOf (sectionHeader : Option SectionHeader) (bytes : List UInt8) :
    Result (BlockType × Endian) :=
  if bytesAt bytes 0 4 = [0x0A, 0x0D, 0x0D, 0x0A] then
    .ok (.sectionHeader, magicEndian (bytesAt bytes 8 4))
  else
    match sectionHeader with
    | none => .err (.invalidMagicNumber (beNat (bytesAt bytes 0 4)))
    | some header =>
        .ok (.ofCode (header.endian.number (bytesAt bytes 0 4)), header.endian)

/-- The type and byte order of the next block depend on the section header and the bytes
that are left. -/
theorem blockTypeAndEndian_eq (s : PcapngSliceReader) :
    s.blockTypeAndEndian = kindOf s.sectionHeader s.remaining := rfl

/-- What follows a block does not matter to its type and byte order. -/
theorem kindOf_append {sectionHeader : Option SectionHeader} {raw rest : List UInt8}
    (h : 12 ≤ raw.length) : kindOf sectionHeader (raw ++ rest) = kindOf sectionHeader raw := by
  have hbytes : ∀ lo, lo + 4 ≤ 12 → bytesAt (raw ++ rest) lo 4 = bytesAt raw lo 4 := by
    intro lo hlo
    rw [bytesAt, bytesAt, List.drop_append_of_le_length (by omega), List.take_append_of_le_length
      (by rw [List.length_drop]; omega)]
  unfold kindOf
  rw [hbytes 0 (by omega), hbytes 8 (by omega)]

/-- The bytes of a frame are one whole block. -/
structure Framed (sectionHeader : Option SectionHeader) (frame : Frame) : Prop where
  kind : kindOf sectionHeader frame.raw = .ok (frame.blockType, frame.endian)
  len : frame.endian.wordAt frame.raw 4 4 = frame.raw.length

/-- The frame that is found is a whole block. -/
theorem framed_of_nextFrame {s : PcapngSliceReader} {frame : Frame}
    (h : s.nextFrame = .ok (some frame)) : Framed s.sectionHeader frame := by
  obtain ⟨-, hle, hraw⟩ := nextFrame_some h
  have htwelve := frame.twelve_le
  have hsplit : s.remaining = frame.raw ++ s.remaining.drop frame.raw.length := by
    conv_rhs => rw [hraw, List.length_take, min_eq_left hle]
    exact (List.take_append_drop ..).symm
  obtain ⟨hkind, hlen⟩ := nextFrame_kind h
  rw [blockTypeAndEndian_eq, hsplit, kindOf_append htwelve] at hkind
  rw [hsplit, frame.endian.wordAt_append (by omega)] at hlen
  exact ⟨hkind, hlen⟩

/-- A whole block is found at the position. -/
theorem Framed.nextFrame {s : PcapngSliceReader} {frame : Frame} {rest : List UInt8}
    (h : Framed s.sectionHeader frame) (hrest : s.remaining = frame.raw ++ rest) :
    s.nextFrame = .ok (some { frame with offset := s.pos }) := by
  have htwelve := frame.twelve_le
  have hlen : s.remaining.length = frame.raw.length + rest.length := by
    rw [hrest, List.length_append]
  have hempty : ¬s.remaining.isEmpty := by
    rw [List.isEmpty_iff_length_eq_zero]
    omega
  have hkind : s.blockTypeAndEndian = .ok (frame.blockType, frame.endian) := by
    rw [blockTypeAndEndian_eq, hrest, kindOf_append htwelve, h.kind]
  have hword : frame.endian.wordAt s.remaining 4 4 = frame.raw.length := by
    rw [hrest, frame.endian.wordAt_append (by omega), h.len]
  have htake : s.remaining.take frame.raw.length = frame.raw := by rw [hrest, List.take_left]
  rw [PcapngSliceReader.nextFrame, if_neg hempty, if_neg (by omega), hkind, Outcome.ok_bind]
  dsimp only
  rw [dif_neg (by omega)]
  simp only [hword, htake, Outcome.pure_eq]

/-- In this context the bytes of `d` are a block that decodes to `d`. -/
def DecodesAt (ctx : Context) (d : Decoded) : Prop :=
  ∃ frame, Framed ctx.sectionHeader frame ∧ frame.raw = d.raw ∧ parseFrame frame = .ok d.block ∧
    packetOf ctx.interfaces d.block = .ok d.packet

/-- A decoded block has its header and both lengths. -/
theorem DecodesAt.twelve_le {ctx : Context} {d : Decoded} (h : DecodesAt ctx d) :
    12 ≤ d.raw.length := by
  obtain ⟨frame, -, hraw, -⟩ := h
  rw [← hraw]
  exact frame.twelve_le

/-- Recording a block is recording it in the context. -/
@[simp] theorem contextOf_record (s : PcapngSliceReader) (block : PcapngBlock) :
    contextOf (s.record block) = (contextOf s).record block := by
  cases block <;> rfl

/-- A block that changes the interfaces has no packet. -/
theorem packetOf_record (s : PcapngSliceReader) (block : PcapngBlock) :
    packetOf (s.record block).interfaces block = packetOf s.interfaces block := by
  cases block <;> rfl

/-- What `nextDecoded` does once the block is read. -/
theorem nextDecoded_of_nextBlock {s s' : PcapngSliceReader} {r : PcapngBlockRecord}
    (h : nextBlock s = .ok (some r, s')) :
    nextDecoded s = Prog.lift (packetOf s'.interfaces r.block) s' >>= fun p =>
      .ok (some (r.offset, ⟨r.raw, r.block, p.1⟩), p.2) := by
  rw [nextDecoded, Prog.bind_apply, h]
  rfl

/-- The block behind what `nextDecoded` hands out. -/
theorem nextBlock_of_nextDecoded {s s' : PcapngSliceReader} {l : ℕ × Decoded}
    (h : nextDecoded s = .ok (some l, s')) :
    nextBlock s = .ok (some ⟨l.1, l.2.raw, l.2.block⟩, s') ∧
      packetOf s'.interfaces l.2.block = .ok l.2.packet := by
  rcases hblock : nextBlock s with ⟨_ | r, t⟩ | e | _ | _
  · simp [nextDecoded, hblock] at h
  · rw [nextDecoded_of_nextBlock hblock] at h
    rcases hpacket : packetOf t.interfaces r.block with packet | e | _ | _
    · rw [hpacket, Prog.lift_ok, Outcome.ok_bind] at h
      simp only [Outcome.ok.injEq, Prod.mk.injEq, Option.some.injEq] at h
      obtain ⟨rfl, rfl⟩ := h
      exact ⟨rfl, hpacket⟩
    all_goals simp [hpacket] at h
  all_goals simp [nextDecoded, hblock] at h

/-- `nextDecoded` ends where the blocks do. -/
theorem nextBlock_of_nextDecoded_none {s s' : PcapngSliceReader}
    (h : nextDecoded s = .ok (none, s')) : nextBlock s = .ok (none, s') := by
  rcases hblock : nextBlock s with ⟨_ | r, t⟩ | e | _ | _
  · simp only [nextDecoded, Prog.bind_apply, hblock, Outcome.ok_bind, Prog.pure_apply,
      Outcome.ok.injEq, Prod.mk.injEq, true_and] at h
    rw [h]
  · rw [nextDecoded_of_nextBlock hblock] at h
    obtain ⟨p, -, hp⟩ := Outcome.bind_eq_ok.1 h
    simp at hp
  all_goals simp [nextDecoded, hblock] at h

/-- A block is read as what it decodes to, and changes the context. -/
theorem DecodesAt.next {s : PcapngSliceReader} {d : Decoded} {rest : List UInt8}
    (h : DecodesAt (contextOf s) d) (hrest : s.remaining = d.raw ++ rest) :
    ∃ s', nextDecoded s = .ok (some (s.pos, d), s') ∧ s'.remaining = rest ∧
      contextOf s' = (contextOf s).record d.block ∧ s'.pos = s.pos + d.raw.length := by
  obtain ⟨frame, hframed, hraw, hparse, hpacket⟩ := h
  rw [← hraw] at hrest
  have hframe := hframed.nextFrame hrest
  have hparse' : parseFrame { frame with offset := s.pos } = .ok d.block := hparse
  have hle : frame.raw.length ≤ s.remaining.length := by
    rw [hrest, List.length_append]
    omega
  have hcall : nextBlock s = .ok (some ⟨s.pos, frame.raw, d.block⟩,
      (s.advance frame.raw.length).record d.block) := by
    rw [nextBlock_apply, hframe]
    simp only [hparse']
  refine ⟨(s.advance frame.raw.length).record d.block, ?_, ?_, contextOf_record .., ?_⟩
  · have hinterfaces : packetOf ((s.advance frame.raw.length).record d.block).interfaces d.block =
        .ok d.packet := by
      rw [packetOf_record]
      exact hpacket
    rw [nextDecoded_of_nextBlock hcall, hinterfaces, Prog.lift_ok, Outcome.ok_bind, hraw]
  · rw [remaining, record_pos, record_data, advance_pos hle, advance_data, ← List.drop_drop]
    rw [remaining] at hrest
    rw [hrest, List.drop_left]
  · rw [record_pos, advance_pos hle, hraw]

/-- The blocks end where the data does. -/
theorem remaining_of_next_none {s s' : PcapngSliceReader} (h : nextDecoded s = .ok (none, s')) :
    s.remaining = [] := by
  have hblock := nextBlock_of_nextDecoded_none h
  rw [nextBlock_apply] at hblock
  rcases hframe : s.nextFrame with (_ | frame) | e | _ | _
  · unfold nextFrame at hframe
    split_ifs at hframe with hempty hshort
    · exact List.isEmpty_iff.1 hempty
    · obtain ⟨kind, -, hnone⟩ := Outcome.bind_eq_ok.1 hframe
      dsimp only at hnone
      split_ifs at hnone
      simp at hnone
  · rcases hparse : parseFrame frame with block | e | _ | _ <;> simp [hframe, hparse] at hblock
  all_goals simp [hframe] at hblock

/-- What is read decodes where it stands. -/
theorem decodesAt_of_next {s s' : PcapngSliceReader} {l : ℕ × Decoded}
    (h : nextDecoded s = .ok (some l, s')) :
    l.1 = s.pos ∧ DecodesAt (contextOf s) l.2 ∧ s.remaining = l.2.raw ++ s'.remaining ∧
      contextOf s' = (contextOf s).record l.2.block ∧ s'.pos = s.pos + l.2.raw.length := by
  obtain ⟨hblock, hpacket⟩ := nextBlock_of_nextDecoded h
  obtain ⟨frame, hframe, hparse, rfl⟩ := nextBlock_some hblock
  obtain ⟨hoffset, hle, hraw⟩ := nextFrame_some hframe
  rw [packetOf_record, advance_interfaces] at hpacket
  rw [nextBlock_apply, hframe] at hblock
  simp only [hparse, Outcome.ok.injEq, Prod.mk.injEq, Option.some.injEq,
    PcapngBlockRecord.mk.injEq, and_true] at hblock
  obtain ⟨hpos, hl⟩ := hblock
  refine ⟨hpos.symm.trans hoffset, ⟨frame, framed_of_nextFrame hframe, hl, hparse, hpacket⟩, ?_,
    contextOf_record .., ?_⟩
  · have hrest : ((s.advance frame.raw.length).record l.2.block).remaining =
        s.remaining.drop frame.raw.length := by
      rw [remaining, record_pos, record_data, advance_pos hle, advance_data, ← List.drop_drop,
        remaining]
    rw [hrest, ← hl]
    conv_rhs => rw [hraw, List.length_take, min_eq_left hle]
    exact (List.take_append_drop ..).symm
  · rw [record_pos, advance_pos hle, hl]

/-! ### A row of blocks -/

/-- Reading the blocks of a row one after the other, each in the context that the
ones before it leave. -/
inductive Reads : Context → List Decoded → Context → Prop where
  | nil (ctx : Context) : Reads ctx [] ctx
  | cons {ctx ctx' : Context} {d : Decoded} {ds : List Decoded} (h : DecodesAt ctx d)
      (hs : Reads (ctx.record d.block) ds ctx') : Reads ctx (d :: ds) ctx'

/-- Reading blocks, and blocks behind them. -/
theorem Reads.append {ctx mid ctx' : Context} {ds ds' : List Decoded} (h : Reads ctx ds mid)
    (h' : Reads mid ds' ctx') : Reads ctx (ds ++ ds') ctx' := by
  induction h with
  | nil => exact h'
  | cons hd _ ih => exact .cons hd (ih h')

/-- Blocks that are read together are read one part after the other. -/
theorem Reads.of_append {ctx ctx' : Context} {ds ds' : List Decoded}
    (h : Reads ctx (ds ++ ds') ctx') : ∃ mid, Reads ctx ds mid ∧ Reads mid ds' ctx' := by
  induction ds generalizing ctx with
  | nil => exact ⟨ctx, .nil ctx, h⟩
  | cons d ds ih =>
    cases h with
    | cons hd hs =>
      obtain ⟨mid, hmid, hrest⟩ := ih hs
      exact ⟨mid, .cons hd hmid, hrest⟩

/-- A reader hands out the row that its bytes are. -/
theorem items_of_reads {ctx' : Context} {ds : List Decoded} {s : PcapngSliceReader}
    (h : Reads (contextOf s) ds ctx') (hbytes : s.remaining = rawBytes Decoded.raw ds) :
    Items nextDecoded s (locate Decoded.raw s.pos ds) := by
  induction ds generalizing s with
  | nil =>
    have hnil : s.remaining = [] := hbytes
    refine @Items.done _ _ _ _ s s ?_
    rw [nextDecoded, Prog.bind_apply, nextBlock_apply, nextFrame, if_pos (by simp [hnil])]
    rfl
  | cons d ds ih =>
    cases h with
    | cons hd hs =>
      rw [rawBytes_cons] at hbytes
      obtain ⟨s', hcall, hrest, hctx, hpos⟩ := hd.next hbytes
      rw [← hctx] at hs
      rw [locate_cons, ← hpos]
      exact .next hcall (ih hs hrest)

/-- What a reader hands out is a row that its bytes are. -/
theorem reads_of_items {s : PcapngSliceReader} {located : List (ℕ × Decoded)}
    (h : Items nextDecoded s located) :
    ∃ ds ctx', located = locate Decoded.raw s.pos ds ∧ Reads (contextOf s) ds ctx' ∧
      s.remaining = rawBytes Decoded.raw ds := by
  induction h with
  | @done s s' h =>
    exact ⟨[], contextOf s, rfl, .nil _, remaining_of_next_none h⟩
  | @next s s' l ls h _ ih =>
    obtain ⟨hoffset, hd, hsplit, hctx, hpos⟩ := decodesAt_of_next h
    obtain ⟨ds, ctx', rfl, hreads, hbytes⟩ := ih
    refine ⟨l.2 :: ds, ctx', ?_, .cons hd (hctx ▸ hreads), ?_⟩
    · rw [locate_cons, ← hoffset, hoffset, ← hpos]
      exact congrArg (· :: _) (Prod.ext hoffset rfl)
    · rw [rawBytes_cons, ← hbytes, hsplit]

end Reordercap
end Maja
