/-
# The two pcapng readers in lockstep

Where the readers do not part, each call of the one matches the call of the other,
for blocks and for packets; where they part, the slice reader fails and the
streaming reader goes on or ends.  `pcapng_readers_agree_iff` puts both together.
-/

import Maja.Capture.PcapngReader

namespace Maja
namespace Capture

open Lib

/-! ### No parser is cut off -/

/-- Reading a number takes no loop. -/
theorem Endian.readBytes_ne_outOfFuel {e : Endian} {n : ℕ} {bytes : List UInt8} :
    e.readBytes n bytes ≠ .outOfFuel :=
  Outcome.bind_ne_outOfFuel Outcome.slice_ne_outOfFuel fun _ _ => by simp

/-- Checking a value takes no loop. -/
theorem ValueShape.check_ne_outOfFuel (shape : ValueShape) (value : List UInt8) :
    shape.check value ≠ .outOfFuel := by
  cases shape with
  | any => simp [check]
  | atLeast n => simp only [check]; split_ifs <;> simp
  | exactly n => simp only [check]; split_ifs <;> simp
  | text => obtain ⟨t, h⟩ | h := fromUtf8_cases value <;> simp [check, h]
  | array n => simp only [check, tryIntoArray]; split_ifs <;> simp

section Fuel

variable {β : Type} {setOption : β → ℕ → List UInt8 → Result β} {shape : ℕ → ValueShape}
  {e : Endian} {block : List UInt8}

/-- The option loop has enough turns for the bytes of the block. -/
theorem optionLoop_ne_outOfFuel (hf : Follows setOption shape) {fuel position : ℕ} {acc : β}
    (hfuel : block.length < position + 4 + fuel) (hfuel' : 0 < fuel) :
    optionLoop setOption block e fuel position acc ≠ .outOfFuel := by
  induction fuel generalizing position acc with
  | zero => omega
  | succ fuel ih =>
      rcases Nat.lt_or_ge (position + 4) block.length with hlt | hge
      · by_cases htype : optionType e block position = OptionType.END_OF_OPT
        · rw [optionLoop_endOfOpt hlt htype]
          simp
        rw [optionLoop_succ hlt htype]
        split_ifs
        · refine Outcome.bind_ne_outOfFuel (fun hset => ?_) fun acc' _ => ih (by omega) (by omega)
          refine (shape (optionType e block position)).check_ne_outOfFuel
            (optionValue e block position) ?_
          rw [← hf acc, hset]
          rfl
        · simp
      · rw [optionLoop_finished hge]
        simp

/-- Checking the total length takes no loop. -/
theorem checkBlockTotalLength_ne_outOfFuel {what : String} :
    checkBlockTotalLength block e what ≠ .outOfFuel := by
  refine Outcome.bind_ne_outOfFuel Outcome.slice_ne_outOfFuel fun _ _ =>
    Outcome.bind_ne_outOfFuel Endian.readBytes_ne_outOfFuel fun _ _ =>
    Outcome.bind_ne_outOfFuel Outcome.slice_ne_outOfFuel fun _ _ =>
    Outcome.bind_ne_outOfFuel Endian.readBytes_ne_outOfFuel fun _ _ => ?_
  split_ifs <;> simp

/-- A field of a block is read. -/
theorem read_ne_outOfFuel {lo hi n : ℕ} {f : ℕ → Result β} (hf : ∀ v, f v ≠ .outOfFuel) :
    (Outcome.slice block lo hi >>= fun w => e.readBytes n w >>= f) ≠ .outOfFuel :=
  Outcome.bind_ne_outOfFuel Outcome.slice_ne_outOfFuel fun _ _ =>
    Outcome.bind_ne_outOfFuel Endian.readBytes_ne_outOfFuel fun v _ => hf v

/-- An option list and the check of the trailing length end every such block. -/
theorem optionLoop_check_ne_outOfFuel {γ : Type} (hf : Follows setOption shape) {position : ℕ}
    {acc : β} {what : String} {f : β → γ} (hblock : 0 < block.length) :
    (optionLoop setOption block e block.length position acc >>= fun acc' =>
      checkBlockTotalLength block e what >>= fun _ => (pure (f acc') : Result γ)) ≠ .outOfFuel :=
  Outcome.bind_ne_outOfFuel (optionLoop_ne_outOfFuel hf (by omega) hblock) fun _ _ =>
    Outcome.bind_ne_outOfFuel checkBlockTotalLength_ne_outOfFuel fun _ _ => by simp

/-- The parser of a section header terminates. -/
theorem SectionHeader.parse_ne_outOfFuel : SectionHeader.parse block ≠ .outOfFuel := by
  unfold SectionHeader.parse
  split_ifs with hlen
  · simp
  · refine Outcome.bind_ne_outOfFuel Outcome.slice_ne_outOfFuel fun magic _ =>
      read_ne_outOfFuel fun _ => read_ne_outOfFuel fun _ => ?_
    refine Outcome.bind_ne_outOfFuel Outcome.slice_ne_outOfFuel fun _ _ => ?_
    refine Outcome.bind_ne_outOfFuel
      (Outcome.bind_ne_outOfFuel Endian.readBytes_ne_outOfFuel fun _ _ => by simp) fun _ _ => ?_
    exact @optionLoop_check_ne_outOfFuel _ _ _ _ _ _ follows_shb _ _ _ id (by omega)

/-- The parser of an interface description terminates. -/
theorem InterfaceDescription.parse_ne_outOfFuel :
    InterfaceDescription.parse block e ≠ .outOfFuel := by
  unfold InterfaceDescription.parse
  split_ifs with hlen
  · simp
  · refine read_ne_outOfFuel fun _ => read_ne_outOfFuel fun _ => ?_
    exact @optionLoop_check_ne_outOfFuel _ _ _ _ _ _ (follows_if e) _ _ _ id (by omega)

/-- The parser of a simple packet block terminates. -/
theorem SimplePacketHeader.parse_ne_outOfFuel : SimplePacketHeader.parse block e ≠ .outOfFuel := by
  unfold SimplePacketHeader.parse
  split_ifs
  · simp
  · exact Outcome.bind_ne_outOfFuel checkBlockTotalLength_ne_outOfFuel fun _ _ =>
      read_ne_outOfFuel fun _ =>
      Outcome.bind_ne_outOfFuel Outcome.slice_ne_outOfFuel fun _ _ => by simp

/-- The parser of an enhanced packet block terminates. -/
theorem EnhancedPacketHeaderOptions.parse_ne_outOfFuel :
    EnhancedPacketHeaderOptions.parse block e ≠ .outOfFuel := by
  unfold EnhancedPacketHeaderOptions.parse
  split_ifs with hlen
  · simp
  · refine read_ne_outOfFuel fun _ => read_ne_outOfFuel fun _ => read_ne_outOfFuel fun _ =>
      read_ne_outOfFuel fun _ => read_ne_outOfFuel fun _ => ?_
    split_ifs
    · simp
    · simp
    · refine Outcome.bind_ne_outOfFuel Outcome.slice_ne_outOfFuel fun data _ => ?_
      exact @optionLoop_check_ne_outOfFuel _ _ _ _ _ _ (follows_epb e) _ _ _ (·, data) (by omega)

end Fuel

/-- The parser of any block terminates. -/
theorem parseFrame_ne_outOfFuel (frame : Frame) : parseFrame frame ≠ .outOfFuel := by
  unfold parseFrame
  split
  · exact Outcome.bind_ne_outOfFuel SectionHeader.parse_ne_outOfFuel fun _ _ => by simp
  · exact Outcome.bind_ne_outOfFuel InterfaceDescription.parse_ne_outOfFuel fun _ _ => by simp
  · exact Outcome.bind_ne_outOfFuel SimplePacketHeader.parse_ne_outOfFuel fun _ _ => by simp
  · exact Outcome.bind_ne_outOfFuel EnhancedPacketHeaderOptions.parse_ne_outOfFuel fun _ _ => by simp
  · exact Outcome.bind_ne_outOfFuel Outcome.slice_ne_outOfFuel fun _ _ => by simp

/-! ### Block by block -/

/-- In its section, the streaming reader parses a frame as the slice reader does. -/
theorem PcapngReader.parseBlock_eq {r : PcapngReader} {frame : Frame}
    (h : frame.blockType = .sectionHeader ∨
      ∃ header, r.sectionHeader = some header ∧ header.endian = frame.endian) :
    r.parseBlock frame.blockType frame.raw = parseFrame frame := by
  unfold parseBlock parseFrame
  rcases h with hsection | ⟨header, hheader, hendian⟩
  · rw [hsection]
  · cases frame.blockType <;> simp only [hheader, hendian]

/-- A block of less than twelve bytes is too short for any of the four parsers. -/
theorem PcapngReader.parseBlock_short {r : PcapngReader} {blockType : BlockType}
    {block : List UInt8} (hlen : block.length < 12) (hsection : r.sectionHeader ≠ none)
    (htype : blockType ∈ [BlockType.sectionHeader, .interfaceDescription, .simplePacket,
      .enhancedPacket]) : ∃ e, r.parseBlock blockType block = .err e := by
  obtain ⟨header, hheader⟩ := Option.ne_none_iff_exists'.1 hsection
  unfold parseBlock
  simp only [List.mem_cons, List.not_mem_nil, or_false] at htype
  rcases htype with rfl | rfl | rfl | rfl <;> simp only [hheader]
  · exact ⟨_, by rw [SectionHeader.parse, if_pos (by omega)]; rfl⟩
  · exact ⟨_, by rw [InterfaceDescription.parse, if_pos (by omega)]; rfl⟩
  · exact ⟨_, by rw [SimplePacketHeader.parse, if_pos (by omega)]; rfl⟩
  · exact ⟨_, by rw [EnhancedPacketHeaderOptions.parse, if_pos (by omega)]; rfl⟩

/-- At a frame of the slice reader both readers do what the parser does. -/
theorem AtBlock.frame {s : PcapngSliceReader} {r : PcapngReader} {frame : Frame}
    (h : AtBlock s r) (hframe : s.nextFrame = .ok (some frame)) :
    (∃ e e', s.nextBlock = .err e ∧ r.nextBlock = .err e') ∨
      (s.nextBlock = .panic ∧ r.nextBlock = .panic) ∨
      ∃ record s' r', s.nextBlock = .ok (some record, s') ∧
        r.nextBlock = .ok (some record.block, r') ∧ AtBlock s' r' := by
  obtain ⟨hr, hkind⟩ := readNextBlock_of_frame h.sectionHeader h.source hframe
  obtain ⟨-, hle, -⟩ := s.nextFrame_some hframe
  have hslice := s.nextBlock_apply
  have hcall := PcapngReader.nextBlock_of_readNextBlock hr
  rw [@PcapngReader.parseBlock_eq
    { r with source := s.remaining.drop frame.raw.length } frame hkind] at hcall
  rw [hframe] at hslice
  dsimp only at hslice
  cases hblock : parseFrame frame with
  | outOfFuel => exact absurd hblock (parseFrame_ne_outOfFuel frame)
  | panic =>
      rw [hblock] at hslice hcall
      exact .inr (.inl ⟨hslice, hcall⟩)
  | err e =>
      rw [hblock] at hslice hcall
      exact .inl ⟨_, _, hslice, hcall⟩
  | ok block =>
      rw [hblock] at hslice hcall
      refine .inr (.inr ⟨_, _, _, hslice, hcall, ?_⟩)
      have hsource : s.remaining.drop frame.raw.length =
          ((s.advance frame.raw.length).record block).remaining := by
        rw [PcapngSliceReader.remaining_record, PcapngSliceReader.remaining_advance hle]
      cases block with
      | sectionHeader header => exact ⟨rfl, h.interfaces, hsource⟩
      | interfaceDescription d =>
          exact ⟨h.sectionHeader, congrArg (· ++ [d]) h.interfaces, hsource⟩
      | _ => exact ⟨h.sectionHeader, h.interfaces, hsource⟩

/-- Readers that stay together come to the same end, or read the same block. -/
theorem SameBlock.cases {s : PcapngSliceReader} {r : PcapngReader} (h : SameBlock s r) :
    (∃ s' r', s.nextBlock = .ok (none, s') ∧ r.nextBlock = .ok (none, r')) ∨
      (∃ e e', s.nextBlock = .err e ∧ r.nextBlock = .err e') ∨
      (s.nextBlock = .panic ∧ r.nextBlock = .panic) ∨
      ∃ record s' r', s.nextBlock = .ok (some record, s') ∧
        r.nextBlock = .ok (some record.block, r') ∧ SameBlock s' r' := by
  have hslice := s.nextBlock_apply
  cases hframe : s.nextFrame with
  | panic => exact absurd (hframe ▸ s.nextFrame_returns) (by simp)
  | outOfFuel => exact absurd (hframe ▸ s.nextFrame_returns) (by simp)
  | err e =>
      rw [hframe] at hslice
      refine .inr (.inl ?_)
      rcases readNextBlock_of_err h.sectionHeader h.source (fun hp => h.together (.here hp)) hframe
        with ⟨e', r', hr⟩ | ⟨blockType, block, r', hr, hr', hsection, hlen, htype⟩
      · exact ⟨_, _, hslice, by rw [PcapngReader.nextBlock, Prog.bind_apply, hr, Outcome.err_bind]⟩
      · obtain ⟨e', he'⟩ := r'.parseBlock_short hlen (by rw [hr']; exact hsection) htype
        exact ⟨_, _, hslice, by
          rw [PcapngReader.nextBlock_of_readNextBlock hr, he', Outcome.mapErr, Outcome.err_bind]⟩
  | ok found =>
      cases found with
      | none =>
          rw [hframe] at hslice
          have hr := readNextBlock_of_none h.source hframe
          exact .inl ⟨_, _, hslice, by
            rw [PcapngReader.nextBlock, Prog.bind_apply, hr, Outcome.ok_bind]; rfl⟩
      | some frame =>
          rcases h.toAtBlock.frame hframe with ⟨e, e', hs, hr⟩ | ⟨hs, hr⟩ |
            ⟨record, s', r', hs, hr, h'⟩
          · exact .inr (.inl ⟨e, e', hs, hr⟩)
          · exact .inr (.inr (.inl ⟨hs, hr⟩))
          · exact .inr (.inr (.inr ⟨record, s', r', hs, hr, h', fun hp => h.together (.next hs hp)⟩))

/-- **The block calls are in lockstep.** -/
theorem nextBlock_lockstep : Lockstep PcapngBlockRecord.block SameBlock
    PcapngSliceReader.nextBlock PcapngReader.nextBlock := by
  intro s r h
  rcases h.cases with ⟨s', r', hs, hr⟩ | ⟨e, e', hs, hr⟩ | ⟨hs, hr⟩ | ⟨record, s', r', hs, hr, h'⟩
  · rw [hs, hr]
    exact .none
  · rw [hs, hr]
    exact .err
  · rw [hs, hr]
    exact .panic
  · rw [hs, hr]
    exact .some h'

/-! ### Packet by packet -/

/-- The packet of a packet block, given the interfaces. -/
def PcapngBlock.packet (interfaces : List InterfaceDescription) :
    PcapngBlock → Result (Option PacketRecord)
  | .simplePacket header data =>
    match interfaces.head? with
    | some interface => .ok (some (header.intoPacketRecord interface data))
    | none => .err .missingPcapngInterfaceDescriptionBlock
  | .enhancedPacket headerOptions data =>
    match interfaces[headerOptions.interfaceId]? with
    | some interface => do pure (some (← headerOptions.intoPacketRecord interface data))
    | none => .err (.invalidPcapngPacketInterfaceId headerOptions.interfaceId)
  | _ => .ok none

/-- One turn of the slice reader's loop makes this packet. -/
theorem packetOfBlock_eq (record : PcapngBlockRecord) (s : PcapngSliceReader) :
    PcapngSliceReader.packetOfBlock record s = record.block.packet s.interfaces >>= fun packet =>
      .ok (packet.map fun packet => ⟨record.offset, record.raw, packet⟩) := by
  unfold PcapngSliceReader.packetOfBlock PcapngBlock.packet
  cases record.block with
  | simplePacket header data => cases s.interfaces.head? <;> rfl
  | enhancedPacket headerOptions data =>
      dsimp only
      cases s.interfaces[headerOptions.interfaceId]? with
      | none => rfl
      | some interface =>
          dsimp only
          cases headerOptions.intoPacketRecord interface data <;> rfl
  | _ => rfl

namespace PcapngReader

variable {r r' : PcapngReader} {blockType : BlockType} {block : List UInt8}

/-- A block that was read has its first two fields, and was taken from the source;
reading it notes nothing. -/
theorem length_of_readNextBlock (h : r.readNextBlock = .ok (some (blockType, block), r')) :
    8 ≤ block.length ∧ r'.source.length < r.source.length ∧ r'.interfaces = r.interfaces := by
  have hrest : ∀ (blockType' : BlockType) (e : Endian) (k : ℕ), 8 ≤ k → k ≤ r.source.length →
      readRest blockType' e (r.source.take k) (bytesAt r.source 4 4) (r.source.drop k) r =
        .ok (some (blockType, block), r') →
      8 ≤ block.length ∧ r'.source.length < r.source.length ∧ r'.interfaces = r.interfaces := by
    intro blockType' e k hk hle hread
    rw [readRest_eq _ _ hle] at hread
    split_ifs at hread with hshort hlong
    cases hread
    rw [List.length_take]
    refine ⟨by omega, ?_, rfl⟩
    show (r.source.drop _).length < _
    rw [List.length_drop]
    omega
  rw [readNextBlock_eq] at h
  split_ifs at h with h₄ h₈ hsection h₁₂
  · cases h
  · exact hrest _ _ 12 (by omega) (by omega) h
  · cases hheader : r.sectionHeader with
    | none =>
        rw [hheader] at h
        cases h
    | some header =>
        rw [hheader] at h
        exact hrest _ _ 8 (by omega) (by omega) h

/-- One turn of the loop reads a block, and makes its packet if it is a packet
block. -/
theorem packetLoop_succ (fuel : ℕ) (r : PcapngReader) :
    packetLoop (fuel + 1) r = r.nextBlock >>= fun read =>
      match read.1 with
      | none => .ok (none, read.2)
      | some block => (block.packet read.2.interfaces).mapErr (·, read.2) >>= fun packet =>
        match packet with
        | some packet => .ok (some packet, read.2)
        | none => packetLoop fuel read.2 := by
  rw [packetLoop, Prog.bind_apply]
  cases hread : r.readNextBlock with
  | err e => rw [nextBlock, Prog.bind_apply, hread]; rfl
  | panic => rw [nextBlock, Prog.bind_apply, hread]; rfl
  | outOfFuel => rw [nextBlock, Prog.bind_apply, hread]; rfl
  | ok found =>
      obtain ⟨found, r'⟩ := found
      cases found with
      | none => rw [nextBlock, Prog.bind_apply, hread]; rfl
      | some found =>
          obtain ⟨blockType, block⟩ := found
          rw [nextBlock_of_readNextBlock hread, Outcome.ok_bind]
          dsimp only
          cases blockType with
          | sectionHeader =>
              simp only [parseBlock, Prog.bind_apply]
              cases SectionHeader.parse block <;> rfl
          | interfaceDescription =>
              simp only [parseBlock, Prog.bind_apply, endian]
              cases r'.sectionHeader with
              | none => rfl
              | some header =>
                  dsimp only
                  rw [Outcome.ok_bind]
                  cases InterfaceDescription.parse block header.endian <;> rfl
          | simplePacket =>
              simp only [parseBlock, Prog.bind_apply, endian]
              cases r'.sectionHeader with
              | none => rfl
              | some header =>
                  dsimp only
                  rw [Outcome.ok_bind]
                  cases SimplePacketHeader.parse block header.endian with
                  | ok parsed =>
                      simp only [Prog.lift_ok, Prog.get_apply, Outcome.ok_bind, Outcome.pure_eq,
                        Outcome.mapErr, record, PcapngBlock.packet]
                      cases r'.interfaces.head? <;> rfl
                  | err e => rfl
                  | panic => rfl
                  | outOfFuel => rfl
          | enhancedPacket =>
              simp only [parseBlock, Prog.bind_apply, endian]
              cases r'.sectionHeader with
              | none => rfl
              | some header =>
                  dsimp only
                  rw [Outcome.ok_bind]
                  cases EnhancedPacketHeaderOptions.parse block header.endian with
                  | ok parsed =>
                      simp only [Prog.lift_ok, Prog.get_apply, Outcome.ok_bind, Outcome.pure_eq,
                        Outcome.mapErr, record, PcapngBlock.packet]
                      cases r'.interfaces[parsed.1.interfaceId]? with
                      | none => rfl
                      | some interface =>
                          dsimp only
                          cases parsed.1.intoPacketRecord interface parsed.2 <;> rfl
                  | err e => rfl
                  | panic => rfl
                  | outOfFuel => rfl
          | _ =>
              have hslice : (Outcome.slice block 8 block.length : Result (List UInt8)) = .ok _ :=
                Outcome.slice_eq_ok (length_of_readNextBlock hread).1 le_rfl
              simp only [parseBlock, hslice]
              rfl

end PcapngReader

/-- Making a packet of a block takes no loop. -/
theorem PcapngBlock.packet_ne_outOfFuel (interfaces : List InterfaceDescription)
    (block : PcapngBlock) : block.packet interfaces ≠ .outOfFuel := by
  have hchecked : ∀ n : ℤ, (I64.checked n : Result I64) ≠ .outOfFuel := by
    intro n
    rcases I64.checked_cases n with ⟨a, h⟩ | h <;> rw [h] <;> simp
  have hscale : ∀ base unit exponent raw,
      EnhancedPacketHeaderOptions.scaleTimestamp base unit exponent raw ≠ .outOfFuel := by
    intro base unit exponent raw
    unfold EnhancedPacketHeaderOptions.scaleTimestamp
    split_ifs
    · exact Outcome.bind_ne_outOfFuel (hchecked _) fun _ _ => hchecked _
    · exact Outcome.bind_ne_outOfFuel (hchecked _) fun _ _ => hchecked _
  unfold PcapngBlock.packet
  split
  · split <;> simp
  · split
    · refine Outcome.bind_ne_outOfFuel (Outcome.bind_ne_outOfFuel ?_ fun _ _ => by simp)
        fun _ _ => by simp
      unfold EnhancedPacketHeaderOptions.packetTimestamp EnhancedPacketHeaderOptions.calcTimestamp
      dsimp only
      split_ifs
      all_goals exact Outcome.bind_ne_outOfFuel (hscale _ _ _ _) fun _ _ =>
        Outcome.bind_ne_outOfFuel (hchecked _) fun _ _ => hchecked _
    · simp
  · simp

namespace PcapngSliceReader

variable {s s' : PcapngSliceReader}

/-- A call of `next_block` terminates. -/
theorem nextBlock_ne_outOfFuel (s : PcapngSliceReader) : s.nextBlock ≠ .outOfFuel := by
  rw [nextBlock_apply]
  rcases hframe : s.nextFrame with (_ | frame) | e | _ | _
  · simp
  · dsimp only
    rcases hblock : parseFrame frame with block | e | _ | _
    · simp
    · simp
    · simp
    · exact absurd hblock (parseFrame_ne_outOfFuel frame)
  · simp
  · simp
  · exact absurd (hframe ▸ s.nextFrame_returns) (by simp)

/-- A block that was read leaves fewer bytes. -/
theorem remaining_lt_of_nextBlock {record : PcapngBlockRecord}
    (h : s.nextBlock = .ok (some record, s')) : s'.remaining.length < s.remaining.length := by
  obtain ⟨hlt, hdata⟩ := nextBlock_pos_lt h
  have hle := s'.pos_le
  rw [length_remaining, length_remaining, hdata]
  rw [hdata] at hle
  omega

/-- The loop has enough turns for the blocks that are left, and a packet uses up
bytes. -/
theorem packetLoop_remaining {fuel : ℕ} (hfuel : s.remaining.length < fuel) :
    packetLoop fuel s ≠ .outOfFuel ∧
      ∀ packet s', packetLoop fuel s = .ok (some packet, s') →
        s'.remaining.length < s.remaining.length := by
  induction fuel generalizing s with
  | zero => omega
  | succ fuel ih =>
      cases hcall : s.nextBlock with
      | outOfFuel => exact absurd hcall s.nextBlock_ne_outOfFuel
      | panic => simp [packetLoop, hcall]
      | err e =>
          obtain ⟨e, s'⟩ := e
          simp [packetLoop_of_err hcall]
      | ok read =>
          obtain ⟨record, s'⟩ := read
          cases record with
          | none => simp [packetLoop_of_none hcall]
          | some record =>
              have hlt := remaining_lt_of_nextBlock hcall
              rw [packetLoop_of_some hcall, packetOfBlock_eq]
              have hpacket := record.block.packet_ne_outOfFuel s'.interfaces
              cases hmade : record.block.packet s'.interfaces with
              | outOfFuel => exact absurd hmade hpacket
              | panic => simp
              | err e => simp
              | ok made =>
                  cases made with
                  | none =>
                      obtain ⟨hne, hrest⟩ := ih (show s'.remaining.length < fuel by omega)
                      exact ⟨hne, fun packet t ht => (hrest packet t ht).trans hlt⟩
                  | some packet =>
                      simp only [Outcome.ok_bind, Option.map_some, ne_eq, reduceCtorEq,
                        not_false_eq_true, true_and, Outcome.ok.injEq, Prod.mk.injEq,
                        Option.some.injEq]
                      rintro _ _ ⟨-, rfl⟩
                      exact hlt

/-- Reading blocks comes to an end. -/
theorem exists_runs_nextBlock (s : PcapngSliceReader) :
    ∃ records ending, Runs nextBlock s records ending :=
  runs_of_measure (fun s => s.remaining.length) nextBlock_ne_outOfFuel
    (fun _ _ _ => remaining_lt_of_nextBlock) s

/-- Reading packets comes to an end. -/
theorem exists_runs_nextPacket (s : PcapngSliceReader) :
    ∃ packets ending, Runs nextPacket s packets ending := by
  have hloop : ∀ s : PcapngSliceReader, s.remaining.length < s.data.length + 1 := fun s => by
    rw [length_remaining]
    omega
  refine runs_of_measure (fun s => s.remaining.length) (fun s => ?_) (fun s s' packet h => ?_) s
  · rw [nextPacket_apply]
    exact Outcome.bind_ne_outOfFuel (packetLoop_remaining (hloop s)).1 fun _ _ => by simp
  · rw [nextPacket_apply] at h
    obtain ⟨⟨located, t⟩, hread, heq⟩ := Outcome.bind_eq_ok.1 h
    cases located with
    | none => simp at heq
    | some located =>
        simp only [Option.map_some, Outcome.ok.injEq, Prod.mk.injEq] at heq
        obtain ⟨-, rfl⟩ := heq
        exact (packetLoop_remaining (hloop s)).2 _ _ hread

end PcapngSliceReader

/-- The two loops are in lockstep, with enough turns in each. -/
theorem packetLoop_matches {fuel fuel' : ℕ} {s : PcapngSliceReader} {r : PcapngReader}
    (h : SameBlock s r) (hfuel : s.remaining.length < fuel) (hfuel' : s.remaining.length < fuel') :
    Matches LocatedPacketRecord.packet SameBlock (PcapngSliceReader.packetLoop fuel s)
      (PcapngReader.packetLoop fuel' r) := by
  induction fuel generalizing fuel' s r with
  | zero => omega
  | succ fuel ih =>
      obtain ⟨fuel', rfl⟩ : ∃ n, fuel' = n + 1 := ⟨fuel' - 1, by omega⟩
      rw [PcapngReader.packetLoop_succ]
      rcases h.cases with ⟨s', r', hs, hr⟩ | ⟨⟨e, s'⟩, ⟨e', r'⟩, hs, hr⟩ | ⟨hs, hr⟩ |
        ⟨record, s', r', hs, hr, h'⟩
      · rw [PcapngSliceReader.packetLoop_of_none hs, hr]
        exact .none
      · rw [PcapngSliceReader.packetLoop_of_err hs, hr]
        exact .err
      · have hloop : PcapngSliceReader.packetLoop (fuel + 1) s = .panic := by
          simp [PcapngSliceReader.packetLoop, hs]
        rw [hloop, hr]
        exact .panic
      · have hlt := PcapngSliceReader.remaining_lt_of_nextBlock hs
        rw [PcapngSliceReader.packetLoop_of_some hs, packetOfBlock_eq, hr, Outcome.ok_bind]
        dsimp only
        rw [h'.interfaces]
        cases hpacket : record.block.packet s'.interfaces with
        | outOfFuel => exact absurd hpacket (PcapngBlock.packet_ne_outOfFuel _ _)
        | panic => exact .panic
        | err e => exact .err
        | ok packet =>
            cases packet with
            | none => exact ih h' (by omega) (by omega)
            | some packet =>
                exact @Matches.some _ _ _ _ _ _ LocatedPacketRecord.packet SameBlock
                  ⟨record.offset, record.raw, packet⟩ _ _ h'

/-- The packet calls are in lockstep. -/
theorem PcapngReader.nextPacket_lockstep :
    Lockstep id SameBlock PcapngSliceReader.nextPacket PcapngReader.nextPacket := by
  intro s r h
  have hloop : s.remaining.length < s.data.length + 1 := by
    rw [PcapngSliceReader.length_remaining]
    omega
  have hmatches := packetLoop_matches h hloop (Nat.lt_succ_self _)
  have hr : PcapngReader.nextPacket r = PcapngReader.packetLoop (s.remaining.length + 1) r := by
    rw [← h.source]
    rfl
  rw [PcapngSliceReader.nextPacket_apply, hr]
  generalize PcapngSliceReader.packetLoop (s.data.length + 1) s = x at hmatches ⊢
  generalize PcapngReader.packetLoop (s.remaining.length + 1) r = y at hmatches ⊢
  cases hmatches with
  | none => exact .none
  | some h' => exact .some h'
  | err => exact .err
  | panic => exact .panic

/-! ### Where the readers part, they disagree -/

/-- At the parting place the slice reader fails and the streaming reader does not. -/
theorem PartsHere.calls {s : PcapngSliceReader} {r : PcapngReader} (h : PartsHere s)
    (hat : AtBlock s r) : (∃ e, s.nextBlock = .err e) ∧
      ((∃ r', r.nextBlock = .ok (none, r')) ∨ ∃ block r', r.nextBlock = .ok (some block, r')) := by
  have hfails : ∀ e, s.nextFrame = .err e → ∃ e, s.nextBlock = .err e := by
    intro e hframe
    rw [PcapngSliceReader.nextBlock_apply, hframe]
    exact ⟨_, rfl⟩
  have hshort : s.remaining.length < 12 → s.remaining ≠ [] → ∃ e, s.nextFrame = .err e := by
    intro hlen hne
    refine ⟨.truncatedCapture "pcapng block", ?_⟩
    rw [PcapngSliceReader.nextFrame, if_neg (by simpa using hne), if_pos hlen]
  rcases h with ⟨hpos, hlt⟩ | ⟨header, hheader, hraw⟩
  · obtain ⟨e, he⟩ := hshort (by omega) (List.length_pos_iff.1 hpos)
    refine ⟨hfails e he, .inl ⟨{ r with source := [] }, ?_⟩⟩
    rw [PcapngReader.nextBlock, Prog.bind_apply, PcapngReader.readNextBlock_eq, hat.source,
      if_pos hlt]
    rfl
  · have height := hraw.eight_le
    have htwelve := hraw.lt_twelve
    have hinside := hraw.inside
    constructor
    · by_cases hlen : s.remaining.length < 12
      · obtain ⟨e, he⟩ := hshort hlen (List.length_pos_iff.1 (by omega))
        exact hfails e he
      · have hkind : s.blockTypeAndEndian =
            .ok (.ofCode (header.endian.number (bytesAt s.remaining 0 4)), header.endian) := by
          unfold PcapngSliceReader.blockTypeAndEndian
          dsimp only
          rw [if_neg hraw.notSection, hheader]
        refine hfails (.truncatedCapture "pcapng block") ?_
        rw [PcapngSliceReader.nextFrame_eq s (by omega), hkind, Outcome.ok_bind]
        exact dif_pos (.inl htwelve)
    · obtain ⟨n, hn⟩ : ∃ n, n = header.endian.wordAt s.remaining 4 4 := ⟨_, rfl⟩
      rw [← hn] at height htwelve hinside
      have hread : r.readNextBlock = .ok (some (.ofCode (header.endian.number
          (bytesAt s.remaining 0 4)), s.remaining.take n),
          { r with source := s.remaining.drop n }) := by
        rw [PcapngReader.readNextBlock_eq, hat.source, if_neg (by omega), if_neg (by omega),
          if_neg hraw.notSection, hat.sectionHeader, hheader]
        dsimp only
        rw [PcapngReader.readRest_eq _ _ (by omega), ← hn, if_neg (by omega), if_neg (by omega),
          hat.sectionHeader, hheader]
      have hslice : (Outcome.slice (s.remaining.take n) 8 (s.remaining.take n).length :
          Result (List UInt8)) = .ok _ :=
        Outcome.slice_eq_ok (by rw [List.length_take]; omega) le_rfl
      have hunparsed := hraw.unparsed
      rw [PcapngReader.nextBlock_of_readNextBlock hread]
      generalize BlockType.ofCode (header.endian.number (bytesAt s.remaining 0 4)) = blockType
        at hunparsed ⊢
      refine .inr ?_
      cases blockType with
      | sectionHeader => simp at hunparsed
      | interfaceDescription => simp at hunparsed
      | simplePacket => simp at hunparsed
      | enhancedPacket => simp at hunparsed
      | _ =>
          simp only [PcapngReader.parseBlock, hslice]
          exact ⟨_, _, rfl⟩

/-- Readers that part do not have the same run. -/
theorem Parts.disagree {s : PcapngSliceReader} {r : PcapngReader} (h : Parts s)
    (hat : AtBlock s r) {records : List PcapngBlockRecord} {ending : Ending}
    (hslice : Runs PcapngSliceReader.nextBlock s records ending)
    (hstream : Runs PcapngReader.nextBlock r (records.map PcapngBlockRecord.block) ending) :
    False := by
  induction h generalizing r records with
  | here h =>
      obtain ⟨⟨⟨e, s'⟩, hs⟩, hr⟩ := h.calls hat
      obtain ⟨rfl, rfl⟩ := (runs_of_err hs).1 hslice
      rcases hr with ⟨r', hr⟩ | ⟨block, r', hr⟩
      · have hending := ((runs_of_none hr).1 hstream).2
        cases hending
      · obtain ⟨rest, hrest, -⟩ := (runs_of_next hr).1 hstream
        cases hrest
  | @next s s' record hs _ ih =>
      obtain ⟨rest, rfl, hrest⟩ := (runs_of_next hs).1 hslice
      obtain ⟨frame, hframe, -⟩ := PcapngSliceReader.nextBlock_some hs
      rcases hat.frame hframe with ⟨e, e', hs', -⟩ | ⟨hs', -⟩ | ⟨record', t, r', hs', hr, hat'⟩
      · rw [hs] at hs'
        cases hs'
      · rw [hs] at hs'
        cases hs'
      · rw [hs] at hs'
        cases hs'
        obtain ⟨rest', hrest', hstream'⟩ := (runs_of_next hr).1 hstream
        cases hrest'
        exact ih hat' hrest hstream'

/-- The readers hand out the same blocks, and the same packets, and end in the same
way. -/
def PcapngReadersAgree (s : PcapngSliceReader) (r : PcapngReader) : Prop :=
  (∃ records ending, Runs PcapngSliceReader.nextBlock s records ending ∧
    Runs PcapngReader.nextBlock r (records.map PcapngBlockRecord.block) ending) ∧
  ∃ packets ending, Runs PcapngSliceReader.nextPacket s packets ending ∧
    Runs PcapngReader.nextPacket r packets ending

/-- **The slice reader and the streaming reader of a byte string agree if and only
if reading block by block comes to no place where they part.** -/
theorem pcapng_readers_agree_iff (data : List UInt8) :
    PcapngReadersAgree (.new data) (.new data) ↔ ¬Parts (.new data) := by
  have hat : AtBlock (.new data) (.new data) := ⟨rfl, rfl, rfl⟩
  constructor
  · rintro ⟨⟨records, ending, hslice, hstream⟩, -⟩ hparts
    exact hparts.disagree hat hslice hstream
  · intro htogether
    have hsame : SameBlock (.new data) (.new data) := ⟨hat, htogether⟩
    obtain ⟨records, ending, hrecords⟩ := (PcapngSliceReader.new data).exists_runs_nextBlock
    obtain ⟨packets, ending', hpackets⟩ := (PcapngSliceReader.new data).exists_runs_nextPacket
    refine ⟨⟨records, ending, hrecords, nextBlock_lockstep.runs hsame hrecords⟩,
      packets, ending', hpackets, ?_⟩
    have hrun := PcapngReader.nextPacket_lockstep.runs hsame hpackets
    rwa [List.map_id] at hrun

/-- One byte of a block type: the slice reader fails, the streaming reader ends. -/
theorem oneByte_disagree :
    Runs PcapngSliceReader.nextBlock (.new [0x0A]) [] .failed ∧
      Runs PcapngReader.nextBlock (.new [0x0A]) [] .clean ∧
      ¬PcapngReadersAgree (.new [0x0A]) (.new [0x0A]) := by
  have hslice : Runs PcapngSliceReader.nextBlock (.new [0x0A]) [] .failed :=
    @Runs.failed _ _ _ _ _ (.new [0x0A]) (.truncatedCapture "pcapng block") rfl
  have hstream : Runs PcapngReader.nextBlock (.new [0x0A]) [] .clean :=
    @Runs.clean _ _ _ _ _ (.new []) rfl
  refine ⟨hslice, hstream, ?_⟩
  rintro ⟨⟨records, ending, h, h'⟩, -⟩
  have hending := (h.unique hslice).2.symm.trans (h'.unique hstream).2
  cases hending

end Capture
end Maja
