/-
# Interfaces and sections

An interface ID counts the interface descriptions of its own section, and both
pcapng readers look it up among the descriptions of all sections so far: neither
`next_block` forgets any at a section header, and a description that it turns down
is not counted.  `resolvesInOwnSection_iff` says for which streams the two come to the
same, also for callers that read on behind errors.
-/

import Maja.Capture.PcapngLockstep
import Mathlib.Data.List.DropRight
import Mathlib.Data.List.ReduceOption

namespace Maja
namespace Capture

open Lib

/-! ### The interfaces of a section -/

/-- What the decoding of a packet takes from its interface. -/
structure Decoding where
  linkType : LinkType
  tsresol : UInt8
  tsoffset : I64
  deriving Repr, DecidableEq

/-- Microseconds and no offset where the options say nothing. -/
def InterfaceDescription.decoding (d : InterfaceDescription) : Decoding :=
  ⟨d.linkType, d.tsresol.getD 6, d.tsoffset.getD (I64.ofInt 0)⟩

namespace PcapngBlock

/-- The interface that a block describes. -/
def description? : PcapngBlock → Option InterfaceDescription
  | .interfaceDescription d => some d
  | _ => none

/-- A block of the section, not the header of the next one. -/
def inSection : PcapngBlock → Bool
  | .sectionHeader _ => false
  | _ => true

/-- The interface of a packet block; a simple packet block is of the first. -/
def interfaceId : PcapngBlock → Option ℕ
  | .simplePacket _ _ => some 0
  | .enhancedPacket headerOptions _ => some headerOptions.interfaceId
  | _ => none

end PcapngBlock

/-- What a caller of `next_block` comes to: a block, or an error, at a block of this
type as far as its first bytes say. -/
inductive Found where
  | block (block : PcapngBlock)
  | rejected (blockType : Option BlockType)

namespace Found

/-- A description of an interface, which is none when the block was turned down. -/
def description? : Found → Option (Option InterfaceDescription)
  | .block b => b.description?.map some
  | .rejected (some .interfaceDescription) => some none
  | .rejected _ => none

/-- A block of the section, not the header of the next one. -/
def inSection : Found → Bool
  | .block b => b.inSection
  | .rejected (some .sectionHeader) => false
  | .rejected _ => true

end Found

/-- The interface descriptions behind the last section header. -/
def ownInterfaces (found : List Found) : List (Option InterfaceDescription) :=
  (found.rtakeWhile Found.inSection).filterMap Found.description?

/-- The interface descriptions up to the last section header that were accepted. -/
def earlierInterfaces (found : List Found) : List InterfaceDescription :=
  ((found.rdropWhile Found.inSection).filterMap Found.description?).reduceOption

/-- The accepted ones of the section follow those of the sections before. -/
theorem earlier_append_own (found : List Found) :
    earlierInterfaces found ++ (ownInterfaces found).reduceOption =
      (found.filterMap Found.description?).reduceOption := by
  rw [earlierInterfaces, ownInterfaces, ← List.reduceOption_append, ← List.filterMap_append,
    List.rdropWhile_append_rtakeWhile]

/-- The interface that the list has under `i` is described like number `i` of the
section, or neither is there. -/
def SameInterface (ds : List InterfaceDescription) (own : List (Option InterfaceDescription))
    (i : ℕ) : Prop :=
  ds[i]?.map InterfaceDescription.decoding = own[i]?.join.map InterfaceDescription.decoding

namespace PcapngBlock

variable {block : PcapngBlock} {ds ds' : List InterfaceDescription} {i : ℕ}

/-- A block without an interface ID is no packet. -/
theorem packet_of_interfaceId_none (h : block.interfaceId = none) : block.packet ds = .ok none := by
  cases block with
  | simplePacket header data => cases h
  | enhancedPacket headerOptions data => cases h
  | _ => rfl

/-- A packet needs its interface. -/
theorem packet_of_missing (h : block.interfaceId = some i) (hi : ds[i]? = none) :
    ∃ e, block.packet ds = .err e := by
  cases block with
  | simplePacket header data =>
      cases h
      rw [← List.head?_eq_getElem?] at hi
      exact ⟨_, by rw [packet, hi]⟩
  | enhancedPacket headerOptions data =>
      cases h
      exact ⟨_, by rw [packet, hi]⟩
  | _ => cases h

/-- A packet block makes a packet or fails. -/
theorem packet_ne_none (h : block.interfaceId = some i) : block.packet ds ≠ .ok none := by
  cases block with
  | simplePacket header data =>
      unfold packet
      dsimp only
      cases ds.head? <;> simp
  | enhancedPacket headerOptions data =>
      unfold packet
      dsimp only
      cases ds[headerOptions.interfaceId]? with
      | none => simp
      | some interface =>
          intro hpacket
          obtain ⟨_, -, hsome⟩ := Outcome.bind_eq_ok.1 hpacket
          cases hsome
  | _ => cases h

/-- Nothing but the decoding of its own interface goes into a packet. -/
theorem packet_congr (h : block.interfaceId = some i)
    (hi : ds[i]?.map InterfaceDescription.decoding = ds'[i]?.map InterfaceDescription.decoding) :
    block.packet ds = block.packet ds' := by
  cases block with
  | simplePacket header data =>
      cases h
      unfold packet
      rw [List.head?_eq_getElem?, List.head?_eq_getElem?]
      rcases hd : ds[0]? with _ | d <;> rcases hd' : ds'[0]? with _ | d' <;> rw [hd, hd'] at hi
      · cases hi
      · cases hi
      · simp only [Option.map_some, Option.some.injEq, InterfaceDescription.decoding,
          Decoding.mk.injEq] at hi
        simp only [SimplePacketHeader.intoPacketRecord, hi.1]
  | enhancedPacket headerOptions data =>
      cases h
      unfold packet
      dsimp only
      rcases hd : ds[headerOptions.interfaceId]? with _ | d <;>
        rcases hd' : ds'[headerOptions.interfaceId]? with _ | d' <;> rw [hd, hd'] at hi
      · cases hi
      · cases hi
      · simp only [Option.map_some, Option.some.injEq, InterfaceDescription.decoding,
          Decoding.mk.injEq] at hi
        simp only [EnhancedPacketHeaderOptions.intoPacketRecord,
          EnhancedPacketHeaderOptions.packetTimestamp, hi]
  | _ => cases h

end PcapngBlock

/-! ### Counting the interfaces of earlier sections too -/

/-- Interface `i` is the same, counted from the first section among the accepted
descriptions, or from its own among all: it is one of the earlier interfaces, and like
number `i` of the section, or it is not, and like it as number `i - earlier.length`
of the section's accepted ones. -/
structure CountsAlike (earlier : List InterfaceDescription) (own : List (Option InterfaceDescription))
    (i : ℕ) : Prop where
  below : i < earlier.length → SameInterface earlier own i
  above : earlier.length ≤ i →
    own.reduceOption[i - earlier.length]?.map InterfaceDescription.decoding =
      own[i]?.join.map InterfaceDescription.decoding

/-- With the accepted descriptions of the section behind the earlier ones, an ID names
the same interface exactly when both counts put the same description under it. -/
theorem sameInterface_append_iff {earlier : List InterfaceDescription}
    {own : List (Option InterfaceDescription)} {i : ℕ} :
    SameInterface (earlier ++ own.reduceOption) own i ↔ CountsAlike earlier own i := by
  unfold SameInterface
  rcases Nat.lt_or_ge i earlier.length with hlt | hge
  · rw [List.getElem?_append_left hlt]
    constructor
    · intro h
      exact ⟨fun _ => h, fun hge => by omega⟩
    · intro h
      exact h.below hlt
  · rw [List.getElem?_append_right hge]
    constructor
    · intro h
      exact ⟨fun hlt => by omega, fun _ => h⟩
    · intro h
      exact h.above hge

/-! ### The iterators of a reader -/

/-- The two iterators of a pcapng reader, the block that `next_block` hands out, the
block type that the next bytes say, and the interfaces that the reader keeps. -/
structure PcapngCalls (σ β : Type) where
  nextBlock : Prog σ CaptureError (Option β)
  nextPacket : Prog σ CaptureError (Option PacketRecord)
  block : β → PcapngBlock
  announced : σ → Option BlockType
  interfaces : σ → List InterfaceDescription

namespace PcapngCalls

variable {σ β γ : Type} (calls : PcapngCalls σ β)

/-- What a caller of `next_block` comes to on the way, reading on behind errors. -/
inductive Passes : σ → List Found → σ → Prop where
  | start {s : σ} : Passes s [] s
  | block {s s' t : σ} {b : β} {found : List Found} (h : calls.nextBlock s = .ok (some b, s'))
      (hs : Passes s' found t) : Passes s (.block (calls.block b) :: found) t
  | rejected {s s' t : σ} {e : CaptureError} {found : List Found}
      (h : calls.nextBlock s = .err (e, s')) (hs : Passes s' found t) :
      Passes s (.rejected (calls.announced s) :: found) t
  | ended {s s' t : σ} {found : List Found} (h : calls.nextBlock s = .ok (none, s'))
      (hs : Passes s' found t) : Passes s found t

/-- The next block with a packet is `b`, of interface `i`, behind others without one. -/
structure Ahead (s : σ) (skipped : List β) (t : σ) (b : β) (i : ℕ) (s' : σ) : Prop where
  yields : Yields calls.nextBlock s skipped t
  without : ∀ x ∈ skipped, (calls.block x).interfaceId = none
  reads : calls.nextBlock t = .ok (some b, s')
  interfaceId : (calls.block b).interfaceId = some i

/-- The blocks as they are found. -/
def blocks (skipped : List β) : List Found := skipped.map fun b => .block (calls.block b)

/-- Interface IDs resolve inside their own section, wherever reading comes to: the
interface that the reader looks up is described like that of the section,
`next_packet` makes the packet that the section's interface gives, in whatever list
it stands, and a packet without an interface in its section is an error. -/
structure ResolvesInOwnSection (s₀ : σ) : Prop where
  described : ∀ {found s b i s'}, calls.Passes s₀ found s → calls.Ahead s [] s b i s' →
    SameInterface (calls.interfaces s') (ownInterfaces found) i
  decoded : ∀ {found s skipped t b i s'}, calls.Passes s₀ found s →
    calls.Ahead s skipped t b i s' →
    ∀ ds : List InterfaceDescription,
      ds[i]? = (ownInterfaces (found ++ calls.blocks skipped))[i]?.join →
      calls.nextPacket s = ((calls.block b).packet ds).mapErr (·, s') >>= fun packet =>
        .ok (packet, s')
  missing : ∀ {found s skipped t b i s'}, calls.Passes s₀ found s →
    calls.Ahead s skipped t b i s' →
    (ownInterfaces (found ++ calls.blocks skipped))[i]?.join = none →
      ∃ e, calls.nextPacket s = .err (e, s')

/-- What the law needs of a reader. -/
structure Lawful : Prop where
  /-- Interface descriptions are appended, and kept. -/
  notes : ∀ {s b s'}, calls.nextBlock s = .ok (some b, s') →
    calls.interfaces s' = calls.interfaces s ++ (calls.block b).description?.toList
  /-- An error notes nothing. -/
  rejects : ∀ {s e s'}, calls.nextBlock s = .err (e, s') → calls.interfaces s' = calls.interfaces s
  /-- Nor does the end. -/
  ends : ∀ {s s'}, calls.nextBlock s = .ok (none, s') → calls.interfaces s' = calls.interfaces s
  /-- `next_packet` passes over other blocks. -/
  skips : ∀ {s b s'}, calls.nextBlock s = .ok (some b, s') → (calls.block b).interfaceId = none →
    calls.nextPacket s = calls.nextPacket s'
  /-- It makes a packet of a packet block. -/
  makes : ∀ {s b i s'}, calls.nextBlock s = .ok (some b, s') →
    (calls.block b).interfaceId = some i →
    calls.nextPacket s =
      ((calls.block b).packet (calls.interfaces s')).mapErr (·, s') >>= fun packet =>
        .ok (packet, s')

variable {calls} {s₀ s t s' : σ} {found found' : List Found} {skipped : List β} {b : β} {i : ℕ}

/-- Calls, and calls behind them. -/
theorem Passes.trans (h : calls.Passes s found t) {u : σ} (h' : calls.Passes t found' u) :
    calls.Passes s (found ++ found') u := by
  induction h with
  | start => exact h'
  | block hcall _ ih => exact .block hcall (ih h')
  | rejected hcall _ ih => exact .rejected hcall (ih h')
  | ended hcall _ ih => exact .ended hcall (ih h')

/-- A run without errors passes its blocks. -/
theorem passes_of_yields (h : Yields calls.nextBlock s skipped t) :
    calls.Passes s (calls.blocks skipped) t := by
  induction h with
  | nil => exact .start
  | cons hcall _ ih => exact .block hcall ih

namespace Lawful

/-- The reader has the descriptions that it accepted. -/
theorem interfaces_of_passes (h : calls.Lawful) (hpasses : calls.Passes s found t) :
    calls.interfaces t =
      calls.interfaces s ++ (found.filterMap Found.description?).reduceOption := by
  induction hpasses with
  | start => simp
  | @block _ _ _ b _ hcall _ ih =>
      rw [ih, h.notes hcall, List.append_assoc]
      cases hd : (calls.block b).description? <;>
        simp [Found.description?, hd, List.reduceOption_cons_of_some]
  | @rejected s _ _ _ found hcall _ ih =>
      rw [ih, h.rejects hcall]
      have hnone : ∀ d ∈ (Found.rejected (calls.announced s)).description?, d = none := by
        intro d hd
        unfold Found.description? at hd
        split at hd <;> simp_all
      cases hd : (Found.rejected (calls.announced s)).description? with
      | none => rw [List.filterMap_cons_none hd]
      | some d => rw [List.filterMap_cons_some hd, hnone d hd, List.reduceOption_cons_of_none]
  | ended hcall _ ih => rw [ih, h.ends hcall]

/-- A packet block does not describe an interface: the reader looks among those of
the earlier sections and its own. -/
theorem interfaces_atPacket (h : calls.Lawful) (hs₀ : calls.interfaces s₀ = [])
    (hpasses : calls.Passes s₀ found s) (hreads : calls.nextBlock s = .ok (some b, s'))
    (hid : (calls.block b).interfaceId = some i) : calls.interfaces s' =
      earlierInterfaces found ++ (ownInterfaces found).reduceOption := by
  have hnone : (calls.block b).description? = none := by
    cases hb : calls.block b with
    | interfaceDescription d => rw [hb] at hid; cases hid
    | _ => rfl
  rw [h.notes hreads, hnone, Option.toList_none, List.append_nil, h.interfaces_of_passes hpasses,
    hs₀, List.nil_append, earlier_append_own]

/-- Blocks that are no packets do not matter to the packet behind them. -/
theorem nextPacket_of_skipped (h : calls.Lawful) (hread : Yields calls.nextBlock s skipped t)
    (hskipped : ∀ x ∈ skipped, (calls.block x).interfaceId = none) :
    calls.nextPacket s = calls.nextPacket t := by
  induction hread with
  | nil => rfl
  | cons hcall _ ih =>
      rw [h.skips hcall (hskipped _ List.mem_cons_self)]
      exact ih fun x hx => hskipped x (List.mem_cons_of_mem _ hx)

/-- **Interface IDs resolve inside their section if and only if, at every packet
block that reading comes to, both ways to count interfaces come to the same.** -/
theorem resolves_iff (h : calls.Lawful) (hs₀ : calls.interfaces s₀ = []) :
    calls.ResolvesInOwnSection s₀ ↔ ∀ {found s b i s'}, calls.Passes s₀ found s →
      calls.nextBlock s = .ok (some b, s') → (calls.block b).interfaceId = some i →
      CountsAlike (earlierInterfaces found) (ownInterfaces found) i := by
  constructor
  · intro hres found s b i s' hpasses hreads hid
    rw [← sameInterface_append_iff, ← h.interfaces_atPacket hs₀ hpasses hreads hid]
    exact hres.described hpasses ⟨.nil, by simp, hreads, hid⟩
  · intro halike
    have hsame : ∀ {found s b i s'}, calls.Passes s₀ found s →
        calls.nextBlock s = .ok (some b, s') → (calls.block b).interfaceId = some i →
        SameInterface (calls.interfaces s') (ownInterfaces found) i := by
      intro found s b i s' hpasses hreads hid
      rw [h.interfaces_atPacket hs₀ hpasses hreads hid]
      exact sameInterface_append_iff.2 (halike hpasses hreads hid)
    have hahead : ∀ {found s skipped t b i s'}, calls.Passes s₀ found s →
        calls.Ahead s skipped t b i s' →
        SameInterface (calls.interfaces s') (ownInterfaces (found ++ calls.blocks skipped)) i := by
      intro found s skipped t b i s' hpasses hat
      exact hsame (hpasses.trans (passes_of_yields hat.yields)) hat.reads hat.interfaceId
    have hmakes : ∀ {s skipped t b i s'}, calls.Ahead s skipped t b i s' → calls.nextPacket s =
        ((calls.block b).packet (calls.interfaces s')).mapErr (·, s') >>= fun packet =>
          .ok (packet, s') := by
      intro s skipped t b i s' hat
      rw [h.nextPacket_of_skipped hat.yields hat.without, h.makes hat.reads hat.interfaceId]
    refine ⟨fun hpasses hat => hsame hpasses hat.reads hat.interfaceId, ?_, ?_⟩
    · intro found s skipped t b i s' hpasses hat ds hds
      have hi : (calls.interfaces s')[i]?.map InterfaceDescription.decoding =
          ds[i]?.map InterfaceDescription.decoding := by
        rw [hds]
        exact hahead hpasses hat
      rw [hmakes hat, PcapngBlock.packet_congr hat.interfaceId hi]
    · intro found s skipped t b i s' hpasses hat hnone
      have hi : (calls.interfaces s')[i]? = none := by
        have hsame := hahead hpasses hat
        rw [SameInterface, hnone] at hsame
        simpa using hsame
      obtain ⟨e, he⟩ := PcapngBlock.packet_of_missing hat.interfaceId hi
      exact ⟨e, by rw [hmakes hat, he]; rfl⟩

end Lawful

variable (calls) in
/-- A turn of the loop of `next_packet`. -/
def turn (located : β → PacketRecord → γ) : Prog σ CaptureError (Option (Option γ)) := fun s =>
  calls.nextBlock s >>= fun read =>
    match read.1 with
    | none => .ok (some none, read.2)
    | some b => ((calls.block b).packet (calls.interfaces read.2)).mapErr (·, read.2) >>= fun made =>
        .ok (made.map fun packet => some (located b packet), read.2)

variable {located : β → PacketRecord → γ} {packet : γ → PacketRecord}
  {loop : ℕ → Prog σ CaptureError (Option γ)}

/-- A loop of such turns, with a turn for every byte, passes over blocks and makes
packets as the law needs it. -/
theorem lawful_of_loops (hnotes : ∀ {s b s'}, calls.nextBlock s = .ok (some b, s') →
      calls.interfaces s' = calls.interfaces s ++ (calls.block b).description?.toList)
    (hrejects : ∀ {s e s'}, calls.nextBlock s = .err (e, s') →
      calls.interfaces s' = calls.interfaces s)
    (hends : ∀ {s s'}, calls.nextBlock s = .ok (none, s') →
      calls.interfaces s' = calls.interfaces s)
    (hloop : Loops (calls.turn located) loop) (hlocated : ∀ b p, packet (located b p) = p)
    (μ fuel : σ → ℕ) (hfuel : ∀ s, μ s ≤ fuel s)
    (hdec : ∀ {s b s'}, calls.nextBlock s = .ok (some b, s') → μ s' < μ s)
    (hcalls : ∀ s, calls.nextPacket s = loop (fuel s + 1) s >>= fun r => .ok (r.1.map packet, r.2)) :
    calls.Lawful := by
  have hmeasure : ∀ s s', calls.turn located s = .ok (none, s') → μ s' < μ s := by
    intro s s' hturn
    obtain ⟨⟨read, t⟩, hcall, hturn⟩ := Outcome.bind_eq_ok.1 hturn
    cases read with
    | none => cases hturn
    | some b =>
        obtain ⟨made, -, hmade⟩ := Outcome.bind_eq_ok.1 hturn
        cases made with
        | some p => cases hmade
        | none =>
            cases hmade
            exact hdec hcall
  refine ⟨hnotes, hrejects, hends, ?_, ?_⟩
  · intro s b s' hcall hid
    have hlt := hdec hcall
    have hle := hfuel s
    have hle' := hfuel s'
    have hturn : calls.turn located s = .ok (none, s') := by
      rw [turn, hcall, Outcome.ok_bind]
      dsimp only
      rw [PcapngBlock.packet_of_interfaceId_none hid]
      rfl
    rw [hcalls, hcalls, hloop, hturn, Outcome.ok_bind]
    dsimp only
    rw [hloop.fuel_irrelevant μ hmeasure (show μ s' < fuel s by omega)
      (show μ s' < fuel s' + 1 by omega)]
  · intro s b i s' hcall hid
    rw [hcalls, hloop, turn, hcall, Outcome.ok_bind]
    dsimp only
    have hne : (calls.block b).packet (calls.interfaces s') ≠ .ok none :=
      PcapngBlock.packet_ne_none hid
    match hmade : (calls.block b).packet (calls.interfaces s') with
    | .ok none => exact absurd hmade hne
    | .ok (some p) =>
        simp only [Outcome.mapErr, Outcome.ok_bind, Option.map_some, hlocated]
    | .err e => rfl
    | .panic => rfl
    | .outOfFuel => rfl

end PcapngCalls

/-! ### The two readers -/

/-- The block type in the first bytes of a block, in the byte order of its section. -/
def announcedType (header : Option SectionHeader) (bytes : List UInt8) : Option BlockType :=
  if bytesAt bytes 0 4 = [0x0A, 0x0D, 0x0D, 0x0A] then some .sectionHeader
  else header.map fun header => .ofCode (header.endian.number (bytesAt bytes 0 4))

/-- The iterators of the slice reader. -/
def PcapngSliceReader.calls : PcapngCalls PcapngSliceReader PcapngBlockRecord :=
  ⟨nextBlock, nextPacket, PcapngBlockRecord.block, fun s => announcedType s.sectionHeader s.remaining,
    interfaces⟩

/-- The iterators of the streaming reader. -/
def PcapngReader.calls : PcapngCalls PcapngReader PcapngBlock :=
  ⟨nextBlock, nextPacket, id, fun r => announcedType r.sectionHeader r.source, interfaces⟩

/-- A block call of the slice reader that hands out no block notes nothing. -/
theorem PcapngSliceReader.interfaces_of_nextBlock {s s' : PcapngSliceReader}
    (h : s.nextBlock = .ok (none, s') ∨ ∃ e, s.nextBlock = .err (e, s')) :
    s'.interfaces = s.interfaces := by
  rw [nextBlock_apply] at h
  rcases hframe : s.nextFrame with (_ | frame) | e | _ | _ <;> rw [hframe] at h
  · rcases h with h | ⟨e, h⟩ <;> cases h
    rfl
  · dsimp only at h
    rcases hblock : parseFrame frame with block | e | _ | _ <;> rw [hblock] at h <;>
      rcases h with h | ⟨e', h⟩ <;> cases h
    rfl
  all_goals
    rcases h with h | ⟨e', h⟩ <;> cases h
  rfl

/-- The slice reader reads a packet as the first block that is one. -/
theorem PcapngSliceReader.calls_lawful : PcapngSliceReader.calls.Lawful := by
  have hloop : Loops (calls.turn fun record packet => ⟨record.offset, record.raw, packet⟩)
      packetLoop := by
    intro fuel s
    rw [PcapngCalls.turn]
    cases hcall : calls.nextBlock s with
    | panic =>
        rw [packetLoop, Prog.bind_apply, show nextBlock s = .panic from hcall]
        rfl
    | outOfFuel => exact absurd hcall s.nextBlock_ne_outOfFuel
    | err e => exact packetLoop_of_err hcall fuel
    | ok read =>
        obtain ⟨_ | record, s'⟩ := read
        · exact packetLoop_of_none hcall fuel
        · rw [packetLoop_of_some hcall, packetOfBlock_eq, Outcome.ok_bind]
          dsimp only [calls]
          cases hmade : record.block.packet s'.interfaces with
          | ok made => cases made <;> rfl
          | _ => rfl
  refine PcapngCalls.lawful_of_loops ?_ (fun h => interfaces_of_nextBlock (.inr ⟨_, h⟩))
    (fun h => interfaces_of_nextBlock (.inl h)) hloop (fun _ _ => rfl) (fun s => s.remaining.length)
    (fun s => s.data.length) (fun s => ?_) remaining_lt_of_nextBlock nextPacket_apply
  · intro s record s' hcall
    obtain ⟨frame, -, hblock, rfl⟩ := nextBlock_some hcall
    dsimp only [calls]
    cases record.block with
    | interfaceDescription d => rfl
    | _ => exact (List.append_nil _).symm
  · rw [length_remaining]
    exact Nat.sub_le _ _

/-- A read of the streaming reader that finds no block notes nothing. -/
theorem PcapngReader.interfaces_of_readNextBlock {r r' : PcapngReader}
    (h : r.readNextBlock = .ok (none, r') ∨ ∃ e, r.readNextBlock = .err (e, r')) :
    r'.interfaces = r.interfaces := by
  unfold readNextBlock readRest at h
  dsimp only at h
  repeat' split at h
  all_goals
    rcases h with h | ⟨e, h⟩ <;> cases h
  all_goals rfl

/-- A block call of the streaming reader takes the block from the source and notes
what it says. -/
theorem PcapngReader.nextBlock_some {r r' : PcapngReader} {block : PcapngBlock}
    (h : r.nextBlock = .ok (some block, r')) : r'.source.length < r.source.length ∧
      r'.interfaces = r.interfaces ++ block.description?.toList := by
  have hread := h
  rw [nextBlock, Prog.bind_apply] at hread
  obtain ⟨⟨read, t⟩, hread, hrest⟩ := Outcome.bind_eq_ok.1 hread
  cases read with
  | none => cases hrest
  | some read =>
      obtain ⟨blockType, raw⟩ := read
      obtain ⟨-, hlt, hinterfaces⟩ := length_of_readNextBlock hread
      rw [nextBlock_of_readNextBlock hread] at h
      obtain ⟨parsed, -, heq⟩ := Outcome.bind_eq_ok.1 h
      cases heq
      rw [← hinterfaces]
      cases block with
      | interfaceDescription d => exact ⟨hlt, rfl⟩
      | _ => exact ⟨hlt, (List.append_nil _).symm⟩

/-- One that hands out no block notes nothing. -/
theorem PcapngReader.interfaces_of_nextBlock {r r' : PcapngReader}
    (h : r.nextBlock = .ok (none, r') ∨ ∃ e, r.nextBlock = .err (e, r')) :
    r'.interfaces = r.interfaces := by
  have hread := h
  rw [nextBlock, Prog.bind_apply] at hread
  cases hfound : r.readNextBlock with
  | ok found =>
      obtain ⟨_ | ⟨blockType, raw⟩, t⟩ := found
      · rw [hfound] at hread
        rcases hread with hread | ⟨e, hread⟩ <;> cases hread
        exact interfaces_of_readNextBlock (.inl hfound)
      · rw [nextBlock_of_readNextBlock hfound] at h
        obtain ⟨-, -, hinterfaces⟩ := length_of_readNextBlock hfound
        rw [← hinterfaces]
        rcases hparsed : t.parseBlock blockType raw with block | e | _ | _ <;> rw [hparsed] at h <;>
          rcases h with h | ⟨e', h⟩ <;> cases h
        rfl
  | err e =>
      rw [hfound] at hread
      rcases hread with hread | ⟨e', hread⟩ <;> cases hread
      exact interfaces_of_readNextBlock (.inr ⟨_, hfound⟩)
  | panic =>
      rw [hfound] at hread
      rcases hread with hread | ⟨e', hread⟩ <;> cases hread
  | outOfFuel =>
      rw [hfound] at hread
      rcases hread with hread | ⟨e', hread⟩ <;> cases hread

/-- The streaming reader reads a packet as the first block that is one. -/
theorem PcapngReader.calls_lawful : PcapngReader.calls.Lawful := by
  have hloop : Loops (calls.turn fun _ packet => packet) packetLoop := by
    intro fuel r
    rw [packetLoop_succ, PcapngCalls.turn]
    dsimp only [calls]
    match hcall : nextBlock r with
    | .panic => rfl
    | .outOfFuel => rfl
    | .err e => rfl
    | .ok (none, r') => rfl
    | .ok (some block, r') =>
        dsimp only [Outcome.ok_bind, id]
        cases hmade : block.packet r'.interfaces with
        | ok made => cases made <;> rfl
        | _ => rfl
  refine @PcapngCalls.lawful_of_loops _ _ _ _ _ id _ ?_ (fun h => interfaces_of_nextBlock (.inr ⟨_, h⟩))
    (fun h => interfaces_of_nextBlock (.inl h)) hloop (fun _ _ => rfl)
    (fun r => r.source.length) (fun r => r.source.length) (fun _ => le_rfl) ?_ ?_
  · intro r block r' hcall
    exact (nextBlock_some hcall).2
  · intro r block r' hcall
    exact (nextBlock_some hcall).1
  · intro r
    show packetLoop (r.source.length + 1) r = _
    cases packetLoop (r.source.length + 1) r with
    | ok made =>
        obtain ⟨_ | packet, r'⟩ := made <;> rfl
    | _ => rfl

/-- **In both readers, interface IDs resolve inside their section if and only if,
at every packet block that reading comes to, also behind errors, the interfaces of
earlier sections and the descriptions that were turned down make no difference.** -/
theorem resolvesInOwnSection_iff (data : List UInt8) :
    (PcapngSliceReader.calls.ResolvesInOwnSection (.new data) ↔
      ∀ {found s b i s'}, PcapngSliceReader.calls.Passes (.new data) found s →
        s.nextBlock = .ok (some b, s') → b.block.interfaceId = some i →
        CountsAlike (earlierInterfaces found) (ownInterfaces found) i) ∧
    (PcapngReader.calls.ResolvesInOwnSection (.new data) ↔
      ∀ {found r b i r'}, PcapngReader.calls.Passes (.new data) found r →
        r.nextBlock = .ok (some b, r') → b.interfaceId = some i →
        CountsAlike (earlierInterfaces found) (ownInterfaces found) i) :=
  ⟨PcapngSliceReader.calls_lawful.resolves_iff rfl, PcapngReader.calls_lawful.resolves_iff rfl⟩

/-- Two sections with an interface each, of link types 1 and 101, and in the second
a packet of its interface 0. -/
def twoSections : List UInt8 :=
  [0x0A, 0x0D, 0x0D, 0x0A, 0, 0, 0, 28, 0x1A, 0x2B, 0x3C, 0x4D, 0, 1, 0, 0,
    255, 255, 255, 255, 255, 255, 255, 255, 0, 0, 0, 28,
    0, 0, 0, 1, 0, 0, 0, 20, 0, 1, 0, 0, 0, 0, 0, 0, 0, 0, 0, 20,
    0x0A, 0x0D, 0x0D, 0x0A, 0, 0, 0, 28, 0x1A, 0x2B, 0x3C, 0x4D, 0, 1, 0, 0,
    255, 255, 255, 255, 255, 255, 255, 255, 0, 0, 0, 28,
    0, 0, 0, 1, 0, 0, 0, 20, 0, 101, 0, 0, 0, 0, 0, 0, 0, 0, 0, 20,
    0, 0, 0, 6, 0, 0, 0, 32, 0, 0, 0, 0, 0, 0, 0, 0, 0, 0, 0, 0, 0, 0, 0, 0, 0, 0, 0, 0,
    0, 0, 0, 32]

/-- What an iterator finds at the fifth block: its interface, and the link types of
the interface that the reader and the section have under that ID. -/
def PcapngCalls.fifthBlock {σ β : Type} (calls : PcapngCalls σ β) (s : σ) :
    Option (Option ℕ × Option LinkType × Option LinkType) :=
  (take calls.nextBlock 4 s).bind fun r =>
    match calls.nextBlock r.2 with
    | .ok (some b, s') => some ((calls.block b).interfaceId,
        (calls.interfaces s')[0]?.map (·.linkType),
        (ownInterfaces (calls.blocks r.1))[0]?.join.map (·.linkType))
    | _ => none

/-- A fifth block of interface 0 that is not decoded like its section's interface 0. -/
theorem PcapngCalls.not_resolves_of_fifthBlock {σ β : Type} {calls : PcapngCalls σ β} {s : σ}
    {used own : LinkType} (h : calls.fifthBlock s = some (some 0, some used, some own))
    (hne : used ≠ own) : ¬calls.ResolvesInOwnSection s := by
  intro hres
  obtain ⟨⟨read, t⟩, hread, h⟩ := Option.bind_eq_some_iff.1 h
  dsimp only at h
  split at h
  · rename_i b s' hcall
    simp only [Option.some.injEq, Prod.mk.injEq, Option.map_eq_some_iff] at h
    obtain ⟨hid, ⟨d, hd, rfl⟩, d', hd', rfl⟩ := h
    have hsame := hres.described (passes_of_yields (yields_of_take hread)) ⟨.nil, by simp, hcall, hid⟩
    rw [SameInterface, hd, hd', Option.map_some, Option.map_some, Option.some.injEq] at hsame
    exact hne (congrArg Decoding.linkType hsame)
  · cases h

/-- Both readers decode the packet as Ethernet, the interface of the first section;
its own section says raw IP. -/
theorem twoSections_not_resolved :
    ¬PcapngSliceReader.calls.ResolvesInOwnSection (.new twoSections) ∧
      ¬PcapngReader.calls.ResolvesInOwnSection (.new twoSections) := by
  have hslice : PcapngSliceReader.calls.fifthBlock (.new twoSections) =
      some (some 0, some .ethernet, some .raw) := by decide +kernel
  have hstream : PcapngReader.calls.fifthBlock (.new twoSections) =
      some (some 0, some .ethernet, some .raw) := by decide +kernel
  exact ⟨PcapngCalls.not_resolves_of_fifthBlock hslice (by decide),
    PcapngCalls.not_resolves_of_fifthBlock hstream (by decide)⟩

end Capture
end Maja
