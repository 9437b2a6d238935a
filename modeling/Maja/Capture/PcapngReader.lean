/-
# The streaming pcapng reader

`PcapngReader` of `src/capture/format/pcapng.rs` on a byte string, next to the
slice reader.  Both find the next block by its length field, and parse it in the
same way; they differ in what they ask of the bytes before that, and `Parts` are
the two places where it shows.
-/

import Maja.Capture.PcapngTotal
import Maja.Capture.PcapReader

namespace Maja
namespace Capture

open Lib

/-- `PcapngReader`. -/
structure PcapngReader where
  /-- The latest section header. -/
  sectionHeader : Option SectionHeader
  /-- The interfaces, of every section so far. -/
  interfaces : List InterfaceDescription
  /-- What the reader has still to read. -/
  source : List UInt8
  deriving Repr, DecidableEq

namespace PcapngReader

/-- `PcapngReader::new`. -/
def new (source : List UInt8) : PcapngReader := ⟨none, [], source⟩

/-- The second half of `read_next_block`: the bytes of the block behind those that
are in the buffer already. -/
def readRest (blockType : BlockType) (endian : Endian) (buffer lengthBytes source : List UInt8) :
    Prog PcapngReader CaptureError (Option (BlockType × List UInt8)) := fun r =>
  let blockTotalLength := endian.number lengthBytes
  if blockTotalLength < buffer.length then
    .err (.invalidPcapngBlockTotalLength blockTotalLength, { r with source := source })
  else
    match readExact (blockTotalLength - buffer.length) source with
    | none => .err (.io, { r with source := [] })
    | some (body, source) => .ok (some (blockType, buffer ++ body), { r with source := source })

/-- `read_next_block`: the type of the next block, and the buffer that holds it. -/
def readNextBlock : Prog PcapngReader CaptureError (Option (BlockType × List UInt8)) := fun r =>
  match readExact 4 r.source with
  | none => .ok (none, { r with source := [] })
  | some (blockTypeBytes, source) =>
    match readExact 4 source with
    | none => .err (.io, { r with source := [] })
    | some (lengthBytes, source) =>
      if blockTypeBytes = [0x0A, 0x0D, 0x0D, 0x0A] then
        match readExact 4 source with
        | none => .err (.io, { r with source := [] })
        | some (byteOrderBytes, source) =>
          readRest .sectionHeader (magicEndian byteOrderBytes)
            (blockTypeBytes ++ lengthBytes ++ byteOrderBytes) lengthBytes source r
      else
        match r.sectionHeader with
        | none => .err (.invalidMagicNumber (beNat blockTypeBytes), { r with source := source })
        | some header =>
          readRest (.ofCode (header.endian.number blockTypeBytes)) header.endian
            (blockTypeBytes ++ lengthBytes) lengthBytes source r

/-- `section.expect("No section header found").endian`. -/
def endian : Prog PcapngReader CaptureError Endian := fun r =>
  match r.sectionHeader with
  | some header => .ok (header.endian, r)
  | none => .panic

/-- `PcapngReader::next_block`. -/
def nextBlock : Prog PcapngReader CaptureError (Option PcapngBlock) := do
  match ← readNextBlock with
  | none => pure none
  | some (blockType, block) =>
    match blockType with
    | .sectionHeader => do
      let header ← Prog.lift (SectionHeader.parse block)
      Prog.modify fun r => { r with sectionHeader := some header }
      pure (some (.sectionHeader header))
    | .interfaceDescription => do
      let e ← endian
      let interface ← Prog.lift (InterfaceDescription.parse block e)
      Prog.modify fun r => { r with interfaces := r.interfaces ++ [interface] }
      pure (some (.interfaceDescription interface))
    | .simplePacket => do
      let e ← endian
      let (header, data) ← Prog.lift (SimplePacketHeader.parse block e)
      pure (some (.simplePacket header data))
    | .enhancedPacket => do
      let e ← endian
      let (headerOptions, data) ← Prog.lift (EnhancedPacketHeaderOptions.parse block e)
      pure (some (.enhancedPacket headerOptions data))
    | blockType => do
      let data ← Prog.lift (Outcome.slice block 8 block.length)
      pure (some (.raw blockType data))

/-- The loop of `next_packet`. -/
def packetLoop : ℕ → Prog PcapngReader CaptureError (Option PacketRecord)
  | 0 => fun _ => .outOfFuel
  | fuel + 1 => do
    match ← readNextBlock with
    | none => pure none
    | some (blockType, block) =>
      match blockType with
      | .sectionHeader => do
        let header ← Prog.lift (SectionHeader.parse block)
        Prog.modify fun r => { r with sectionHeader := some header }
        packetLoop fuel
      | .interfaceDescription => do
        let e ← endian
        let interface ← Prog.lift (InterfaceDescription.parse block e)
        Prog.modify fun r => { r with interfaces := r.interfaces ++ [interface] }
        packetLoop fuel
      | .simplePacket => do
        let e ← endian
        let (spb, data) ← Prog.lift (SimplePacketHeader.parse block e)
        match (← Prog.get).interfaces.head? with
        | some interface => pure (some (spb.intoPacketRecord interface data))
        | none => Prog.throw .missingPcapngInterfaceDescriptionBlock
      | .enhancedPacket => do
        let e ← endian
        let (epb, data) ← Prog.lift (EnhancedPacketHeaderOptions.parse block e)
        match (← Prog.get).interfaces[epb.interfaceId]? with
        | some interface => do
          let packet ← Prog.lift (epb.intoPacketRecord interface data)
          pure (some packet)
        | none => Prog.throw (.invalidPcapngPacketInterfaceId epb.interfaceId)
      | _ => packetLoop fuel

/-- `PcapngReader::next_packet`.  A turn of the loop uses up a block, so one more
turn than there are bytes is enough. -/
def nextPacket : Prog PcapngReader CaptureError (Option PacketRecord) := do
  let r ← Prog.get
  packetLoop (r.source.length + 1)

end PcapngReader

/-! ### Where the readers part -/

/-- A block without room for its trailing length, and of no type that is parsed:
the streaming reader takes eight bytes for a block. -/
structure ShortRaw (e : Endian) (bytes : List UInt8) : Prop where
  notSection : bytesAt bytes 0 4 ≠ [0x0A, 0x0D, 0x0D, 0x0A]
  eight_le : 8 ≤ e.wordAt bytes 4 4
  lt_twelve : e.wordAt bytes 4 4 < 12
  inside : e.wordAt bytes 4 4 ≤ bytes.length
  unparsed : BlockType.ofCode (e.number (bytesAt bytes 0 4)) ∉
    [BlockType.sectionHeader, .interfaceDescription, .simplePacket, .enhancedPacket]

/-- At this place the slice reader fails and the streaming reader does not: fewer
bytes are left than a block type has, or a short raw block follows. -/
def PartsHere (s : PcapngSliceReader) : Prop :=
  (0 < s.remaining.length ∧ s.remaining.length < 4) ∨
    ∃ header, s.sectionHeader = some header ∧ ShortRaw header.endian s.remaining

/-- Reading block by block comes to a place where the readers part. -/
inductive Parts : PcapngSliceReader → Prop where
  | here {s : PcapngSliceReader} (h : PartsHere s) : Parts s
  | next {s s' : PcapngSliceReader} {record : PcapngBlockRecord}
      (h : s.nextBlock = .ok (some record, s')) (hs : Parts s') : Parts s

/-! ### Framing -/

namespace PcapngReader

variable {r : PcapngReader} {bytes : List UInt8} {n : ℕ}

/-- Enough bytes are left. -/
theorem readExact_eq_some (h : n ≤ bytes.length) :
    readExact n bytes = some (bytes.take n, bytes.drop n) := if_pos h

/-- Too few bytes are left. -/
theorem readExact_eq_none (h : bytes.length < n) : readExact n bytes = none := if_neg (by omega)

/-- Behind the bytes that are in the buffer. -/
theorem readRest_eq (blockType : BlockType) (e : Endian) {k : ℕ} (hk : k ≤ bytes.length) :
    readRest blockType e (bytes.take k) (bytesAt bytes 4 4) (bytes.drop k) r =
      if e.wordAt bytes 4 4 < k then
        .err (.invalidPcapngBlockTotalLength (e.wordAt bytes 4 4), { r with source := bytes.drop k })
      else if bytes.length < e.wordAt bytes 4 4 then
        .err (.io, { r with source := [] })
      else
        .ok (some (blockType, bytes.take (e.wordAt bytes 4 4)),
          { r with source := bytes.drop (e.wordAt bytes 4 4) }) := by
  obtain ⟨total, htotal⟩ : ∃ total, total = e.wordAt bytes 4 4 := ⟨_, rfl⟩
  have hlen : (bytes.take k).length = k := by rw [List.length_take, Nat.min_eq_left hk]
  have hrest : (bytes.drop k).length = bytes.length - k := List.length_drop
  unfold readRest
  rw [hlen, show e.number (bytesAt bytes 4 4) = total from htotal.symm, ← htotal]
  by_cases hshort : total < k
  · rw [if_pos hshort, if_pos hshort]
  rw [if_neg hshort, if_neg hshort]
  by_cases hlong : bytes.length < total
  · rw [if_pos hlong, readExact_eq_none (by omega)]
  · rw [if_neg hlong, readExact_eq_some (by omega)]
    dsimp only
    rw [← List.take_add, List.drop_drop, Nat.add_sub_cancel' (by omega)]

/-- A call of `read_next_block`, by how many bytes there are and whether they are a
section header. -/
theorem readNextBlock_eq (r : PcapngReader) : readNextBlock r =
    if r.source.length < 4 then .ok (none, { r with source := [] })
    else if r.source.length < 8 then .err (.io, { r with source := [] })
    else if bytesAt r.source 0 4 = [0x0A, 0x0D, 0x0D, 0x0A] then
      if r.source.length < 12 then .err (.io, { r with source := [] })
      else readRest .sectionHeader (magicEndian (bytesAt r.source 8 4)) (r.source.take 12)
        (bytesAt r.source 4 4) (r.source.drop 12) r
    else
      match r.sectionHeader with
      | none => .err (.invalidMagicNumber (beNat (bytesAt r.source 0 4)),
          { r with source := r.source.drop 8 })
      | some header =>
        readRest (.ofCode (header.endian.number (bytesAt r.source 0 4))) header.endian
          (r.source.take 8) (bytesAt r.source 4 4) (r.source.drop 8) r := by
  obtain ⟨bytes, hbytes⟩ : ∃ bytes, bytes = r.source := ⟨_, rfl⟩
  have htype : bytesAt bytes 0 4 = bytes.take 4 := by rw [bytesAt, List.drop_zero]
  have hbuffer : bytes.take 8 = bytes.take 4 ++ (bytes.drop 4).take 4 := by
    rw [← List.take_add]
  unfold readNextBlock
  rw [← hbytes, htype]
  by_cases h₄ : bytes.length < 4
  · rw [if_pos h₄, readExact_eq_none h₄]
  have hdrop₄ : (bytes.drop 4).length = bytes.length - 4 := List.length_drop
  rw [if_neg h₄, readExact_eq_some (by omega)]
  dsimp only
  by_cases h₈ : bytes.length < 8
  · rw [if_pos h₈, readExact_eq_none (by omega)]
  rw [if_neg h₈, readExact_eq_some (by omega)]
  dsimp only
  have hdrop₈ : (bytes.drop 4).drop 4 = bytes.drop 8 := List.drop_drop ..
  have hlen₈ : (bytes.drop 8).length = bytes.length - 8 := List.length_drop
  rw [hdrop₈, ← hbuffer]
  by_cases hsection : bytes.take 4 = [0x0A, 0x0D, 0x0D, 0x0A]
  · rw [if_pos hsection, if_pos hsection]
    by_cases h₁₂ : bytes.length < 12
    · rw [if_pos h₁₂, readExact_eq_none (by omega)]
    · have hbuffer₁₂ : bytes.take 12 = bytes.take 8 ++ (bytes.drop 8).take 4 := by
        rw [← List.take_add]
      have hdrop₁₂ : (bytes.drop 8).drop 4 = bytes.drop 12 := List.drop_drop ..
      rw [if_neg h₁₂, readExact_eq_some (by omega)]
      dsimp only
      rw [hdrop₁₂, ← hbuffer₁₂]
      rfl
  · rw [if_neg hsection, if_neg hsection]
    cases r.sectionHeader <;> rfl

end PcapngReader

namespace PcapngSliceReader

/-- A block that is cut out has its header and both lengths. -/
theorem le_length_take {n : ℕ} {bytes : List UInt8} (h : ¬(n < 12 ∨ bytes.length < n)) :
    12 ≤ (bytes.take n).length := by
  rw [List.length_take]
  omega

/-- A frame of the slice reader: at least twelve bytes, of the type and in the
byte order that the bytes and the section say. -/
theorem nextFrame_eq (s : PcapngSliceReader) (hlen : 12 ≤ s.remaining.length) : s.nextFrame =
    s.blockTypeAndEndian >>= fun kind =>
      if h : kind.2.wordAt s.remaining 4 4 < 12 ∨ s.remaining.length < kind.2.wordAt s.remaining 4 4
      then .err (.truncatedCapture "pcapng block")
      else .ok (some ⟨kind.1, kind.2, s.pos, s.remaining.take (kind.2.wordAt s.remaining 4 4),
        le_length_take h⟩) := by
  have hempty : ¬s.remaining.isEmpty := by
    rw [List.isEmpty_iff_length_eq_zero]
    omega
  rw [nextFrame, if_neg hempty, if_neg (by omega)]
  rfl

end PcapngSliceReader

/-- The readers are at the same place of the same capture, in the same section. -/
structure AtBlock (s : PcapngSliceReader) (r : PcapngReader) : Prop where
  sectionHeader : r.sectionHeader = s.sectionHeader
  interfaces : r.interfaces = s.interfaces
  source : r.source = s.remaining

/-- They do not part from there on. -/
structure SameBlock (s : PcapngSliceReader) (r : PcapngReader) : Prop extends AtBlock s r where
  together : ¬Parts s

/-- What the streaming reader finds where the slice reader finds no frame: nothing
either, an error, or a block that no parser takes. -/
theorem readNextBlock_of_err {s : PcapngSliceReader} {r : PcapngReader} {e : CaptureError}
    (hsection : r.sectionHeader = s.sectionHeader) (hsource : r.source = s.remaining)
    (hparts : ¬PartsHere s) (h : s.nextFrame = .err e) :
    (∃ e' r', r.readNextBlock = .err (e', r')) ∨
      ∃ blockType block r', r.readNextBlock = .ok (some (blockType, block), r') ∧
        r'.sectionHeader = r.sectionHeader ∧ r.sectionHeader ≠ none ∧ block.length < 12 ∧
        blockType ∈ [BlockType.sectionHeader, .interfaceDescription, .simplePacket,
          .enhancedPacket] := by
  rw [PcapngReader.readNextBlock_eq, hsource]
  have hne : s.remaining ≠ [] := by
    intro hnil
    rw [PcapngSliceReader.nextFrame, if_pos (by rw [hnil]; rfl)] at h
    cases h
  have hpos : 0 < s.remaining.length := List.length_pos_iff.2 hne
  have h₄ : ¬s.remaining.length < 4 := fun h₄ => hparts (.inl ⟨hpos, h₄⟩)
  rw [if_neg h₄]
  by_cases h₈ : s.remaining.length < 8
  · rw [if_pos h₈]
    exact .inl ⟨_, _, rfl⟩
  rw [if_neg h₈]
  by_cases hshb : bytesAt s.remaining 0 4 = [0x0A, 0x0D, 0x0D, 0x0A]
  · rw [if_pos hshb]
    by_cases h₁₂ : s.remaining.length < 12
    · rw [if_pos h₁₂]
      exact .inl ⟨_, _, rfl⟩
    · rw [if_neg h₁₂, PcapngReader.readRest_eq _ _ (by omega)]
      have hkind : s.blockTypeAndEndian = .ok (.sectionHeader, magicEndian (bytesAt s.remaining 8 4)) :=
        if_pos hshb
      rw [PcapngSliceReader.nextFrame_eq s (by omega), hkind, Outcome.ok_bind] at h
      dsimp only at h
      split_ifs at h with hlen
      rcases hlen with hlen | hlen
      · rw [if_pos hlen]
        exact .inl ⟨_, _, rfl⟩
      · split_ifs
        · exact .inl ⟨_, _, rfl⟩
        · exact .inl ⟨_, _, rfl⟩
  · rw [if_neg hshb, hsection]
    cases hheader : s.sectionHeader with
    | none => exact .inl ⟨_, _, rfl⟩
    | some header =>
        dsimp only
        rw [PcapngReader.readRest_eq _ _ (by omega)]
        obtain ⟨n, hn⟩ : ∃ n, n = header.endian.wordAt s.remaining 4 4 := ⟨_, rfl⟩
        rw [← hn]
        by_cases hshort : n < 8
        · rw [if_pos hshort]
          exact .inl ⟨_, _, rfl⟩
        rw [if_neg hshort]
        by_cases hlong : s.remaining.length < n
        · rw [if_pos hlong]
          exact .inl ⟨_, _, rfl⟩
        rw [if_neg hlong]
        have hlt : n < 12 := by
          by_contra hge
          have hkind : s.blockTypeAndEndian =
              .ok (.ofCode (header.endian.number (bytesAt s.remaining 0 4)), header.endian) := by
            unfold PcapngSliceReader.blockTypeAndEndian
            dsimp only
            rw [if_neg hshb, hheader]
          rw [PcapngSliceReader.nextFrame_eq s (by omega), hkind, Outcome.ok_bind] at h
          dsimp only at h
          rw [dif_neg (by omega)] at h
          cases h
        refine .inr ⟨_, _, _, rfl, hsection.trans hheader, by simp, by rw [List.length_take]; omega, ?_⟩
        by_contra htype
        exact hparts (.inr ⟨header, hheader, hshb, by omega, by omega, by omega, htype⟩)

/-- The streaming reader reads the frames of the slice reader. -/
theorem readNextBlock_of_frame {s : PcapngSliceReader} {r : PcapngReader} {frame : Frame}
    (hsection : r.sectionHeader = s.sectionHeader) (hsource : r.source = s.remaining)
    (h : s.nextFrame = .ok (some frame)) :
    r.readNextBlock = .ok (some (frame.blockType, frame.raw),
        { r with source := s.remaining.drop frame.raw.length }) ∧
      (frame.blockType = .sectionHeader ∨
        ∃ header, r.sectionHeader = some header ∧ header.endian = frame.endian) := by
  obtain ⟨-, hle, hraw⟩ := s.nextFrame_some h
  have htwelve := frame.twelve_le
  rw [s.nextFrame_eq (by omega)] at h
  obtain ⟨⟨blockType, e⟩, hkind, h⟩ := Outcome.bind_eq_ok.1 h
  dsimp only at h
  split_ifs at h with hlen
  obtain ⟨total, htotal⟩ : ∃ total, total = e.wordAt s.remaining 4 4 := ⟨_, rfl⟩
  rw [← htotal] at hlen
  simp only [← htotal, Outcome.ok.injEq, Option.some.injEq] at h
  subst h
  dsimp only at hraw hle htwelve ⊢
  have hrawlen : (s.remaining.take total).length = total := by
    rw [List.length_take]
    omega
  rw [PcapngReader.readNextBlock_eq, hsource, if_neg (by omega), if_neg (by omega), hrawlen]
  unfold PcapngSliceReader.blockTypeAndEndian at hkind
  dsimp only at hkind
  split_ifs at hkind with hshb
  · cases hkind
    rw [if_pos hshb, if_neg (by omega), PcapngReader.readRest_eq _ _ (by omega), ← htotal,
      if_neg (by omega), if_neg (by omega)]
    exact ⟨rfl, .inl rfl⟩
  · rw [if_neg hshb, hsection]
    cases hheader : s.sectionHeader with
    | none =>
        rw [hheader] at hkind
        cases hkind
    | some header =>
        rw [hheader] at hkind
        cases hkind
        dsimp only
        rw [PcapngReader.readRest_eq _ _ (by omega), ← htotal, if_neg (by omega), if_neg (by omega)]
        exact ⟨by rw [hsection, hheader], .inr ⟨header, rfl, rfl⟩⟩

/-- At the end of the data both readers are at the end. -/
theorem readNextBlock_of_none {s : PcapngSliceReader} {r : PcapngReader}
    (hsource : r.source = s.remaining) (h : s.nextFrame = .ok none) :
    r.readNextBlock = .ok (none, { r with source := [] }) := by
  have hnil : s.remaining.length = 0 := by
    by_contra hne
    have hempty : ¬s.remaining.isEmpty := by
      rw [List.isEmpty_iff_length_eq_zero]
      exact hne
    unfold PcapngSliceReader.nextFrame at h
    rw [if_neg hempty] at h
    split_ifs at h
    obtain ⟨kind, -, h⟩ := Outcome.bind_eq_ok.1 h
    dsimp only at h
    split_ifs at h
    cases h
  rw [PcapngReader.readNextBlock_eq, hsource, if_pos (by omega)]

namespace PcapngReader

/-- The section and the interfaces after a block. -/
def record (r : PcapngReader) : PcapngBlock → PcapngReader
  | .sectionHeader header => { r with sectionHeader := some header }
  | .interfaceDescription d => { r with interfaces := r.interfaces ++ [d] }
  | _ => r

/-- The `match` of `next_block`, on the buffer and the reader's section. -/
def parseBlock (r : PcapngReader) (blockType : BlockType) (block : List UInt8) :
    Result PcapngBlock :=
  match blockType with
  | .sectionHeader => do pure (.sectionHeader (← SectionHeader.parse block))
  | .interfaceDescription => do
    match r.sectionHeader with
    | some header => pure (.interfaceDescription (← InterfaceDescription.parse block header.endian))
    | none => .panic
  | .simplePacket => do
    match r.sectionHeader with
    | some header => do
      let (header, data) ← SimplePacketHeader.parse block header.endian
      pure (.simplePacket header data)
    | none => .panic
  | .enhancedPacket => do
    match r.sectionHeader with
    | some header => do
      let (headerOptions, data) ← EnhancedPacketHeaderOptions.parse block header.endian
      pure (.enhancedPacket headerOptions data)
    | none => .panic
  | blockType => do pure (.raw blockType (← Outcome.slice block 8 block.length))

/-- A call of `next_block` reads a block, parses it and notes what it says. -/
theorem nextBlock_of_readNextBlock {r r' : PcapngReader} {blockType : BlockType}
    {block : List UInt8} (h : r.readNextBlock = .ok (some (blockType, block), r')) :
    r.nextBlock = (r'.parseBlock blockType block).mapErr (·, r') >>= fun parsed =>
      .ok (some parsed, r'.record parsed) := by
  rw [nextBlock, Prog.bind_apply, h, Outcome.ok_bind]
  dsimp only
  cases blockType with
  | sectionHeader =>
      simp only [parseBlock, Prog.bind_apply]
      cases SectionHeader.parse block <;> rfl
  | interfaceDescription =>
      simp only [parseBlock, Prog.bind_apply, endian]
      cases r'.sectionHeader with
      | none => rfl
      | some header =>
          dsimp only
          rw [Outcome.ok_bind]
          cases InterfaceDescription.parse block header.endian <;> rfl
  | simplePacket =>
      simp only [parseBlock, Prog.bind_apply, endian]
      cases r'.sectionHeader with
      | none => rfl
      | some header =>
          dsimp only
          rw [Outcome.ok_bind]
          cases SimplePacketHeader.parse block header.endian <;> rfl
  | enhancedPacket =>
      simp only [parseBlock, Prog.bind_apply, endian]
      cases r'.sectionHeader with
      | none => rfl
      | some header =>
          dsimp only
          rw [Outcome.ok_bind]
          cases EnhancedPacketHeaderOptions.parse block header.endian <;> rfl
  | _ =>
      simp only [parseBlock, Prog.bind_apply]
      cases (Outcome.slice block 8 block.length : Result (List UInt8)) <;> rfl

end PcapngReader

end Capture
end Maja
