/-
# The position of the pcapng slice reader

Runs of `PcapngSliceReader::next_block` of `src/capture/format/pcapng.rs`, errors on
the way included.

A call that finds a block moves the position over it before it looks inside, so a
block that is turned down is behind the reader like one that is handed out; a call
that finds no block leaves the reader as it is.  `run_sound` draws the
consequence for a whole run: the blocks tile what was read.
-/

import Maja.Capture.PcapngTotal
import Maja.Lib.Layout
import Maja.Lib.Spans

namespace Maja
namespace Capture

open Lib

/-- What a call of `next_block` comes to: a block, a block whose content was turned
down, bytes that are no block, or the end of the data. -/
inductive BlockEvent where
  | returned (record : PcapngBlockRecord)
  | rejected (frame : Frame) (e : CaptureError)
  | unframed (e : CaptureError)
  | exhausted

/-- The offset and the bytes of the block that was found. -/
def BlockEvent.block? : BlockEvent → Option (ℕ × List UInt8)
  | returned record => some (record.offset, record.raw)
  | rejected frame _ => some (frame.offset, frame.raw)
  | unframed _ => none
  | exhausted => none

/-- A call, with the reader before it and behind it. -/
structure BlockCall where
  before : PcapngSliceReader
  event : BlockEvent
  after : PcapngSliceReader

namespace PcapngSliceReader

/-- A call of `next_block`, `none` when it panics.  An error is about the content
of a block when the block was found. -/
def callBlock (s : PcapngSliceReader) : Option (BlockEvent × PcapngSliceReader) :=
  match nextBlock s with
  | .ok (some record, s') => some (.returned record, s')
  | .ok (none, s') => some (.exhausted, s')
  | .err (e, s') =>
      match s.nextFrame with
      | .ok (some frame) => some (.rejected frame e, s')
      | _ => some (.unframed e, s')
  | .panic => none
  | .outOfFuel => none

/-- `n` calls in a row, `none` when one of them panics. -/
def run : ℕ → PcapngSliceReader → Option (List BlockCall × PcapngSliceReader)
  | 0, s => some ([], s)
  | n + 1, s =>
      match callBlock s with
      | some (event, s') => (run n s').map fun r => (⟨s, event, s'⟩ :: r.1, r.2)
      | none => none

end PcapngSliceReader

namespace BlockCall

/-- The offset and the bytes of the block that the call was about. -/
def block? (call : BlockCall) : Option (ℕ × List UInt8) := call.event.block?

/-- A call is sound: its block starts at the position, is as long as its length
field says, and the position moves to its end; without a block, nothing moves. -/
def Sound (call : BlockCall) : Prop :=
  match call.block? with
  | some (offset, raw) =>
      offset = call.before.pos ∧ call.after.pos = call.before.pos + raw.length ∧
        call.before.remaining = raw ++ call.after.remaining ∧
        ∃ blockType e, call.before.blockTypeAndEndian = .ok (blockType, e) ∧
          e.wordAt raw 4 4 = raw.length
  | none => call.after = call.before

/-- Every call starts where the one before it ended, the first one at `s` and the
last one ending at `t`. -/
def Chained : PcapngSliceReader → List BlockCall → PcapngSliceReader → Prop
  | s, [], t => s = t
  | s, call :: log, t => call.before = s ∧ Chained call.after log t

/-- The blocks of a run, handed out and turned down. -/
def blocks (log : List BlockCall) : List (ℕ × List UInt8) := log.filterMap block?

end BlockCall

/-- Where a block lies. -/
def extentOf (block : ℕ × List UInt8) : Span := ⟨block.1, block.2.length⟩

/-- The blocks tile the data up to `pos`: each is a part of the data and starts
where the one before it ended, and together they are all of it. -/
structure Tiles (data : List UInt8) (blocks : List (ℕ × List UInt8)) (pos : ℕ) : Prop where
  adjacent : Span.Adjacent 0 (blocks.map extentOf)
  bytes : rawBytes Prod.snd blocks = data.take pos
  slices : ∀ block ∈ blocks,
    (Outcome.slice data block.1 (block.1 + block.2.length) : Result (List UInt8)) = .ok block.2

namespace PcapngSliceReader

variable {s s' t : PcapngSliceReader} {event : BlockEvent} {log : List BlockCall} {n : ℕ}

/-! ### One call -/

/-- The data in front of a call is the block and what is behind it. -/
theorem remaining_eq_append {frame : Frame} (h : s.nextFrame = .ok (some frame)) :
    s.remaining = frame.raw ++ (s.advance frame.raw.length).remaining := by
  obtain ⟨-, hle, hraw⟩ := nextFrame_some h
  rw [remaining_advance hle]
  conv_lhs => rw [← List.take_append_drop frame.raw.length s.remaining, ← hraw]

/-- A call that found a block is sound, whatever became of it. -/
theorem sound_of_nextFrame {frame : Frame} (h : s.nextFrame = .ok (some frame))
    (hblock : event.block? = some (frame.offset, frame.raw))
    (hpos : s'.pos = (s.advance frame.raw.length).pos) (hdata : s'.data = s.data) :
    (BlockCall.mk s event s').Sound := by
  obtain ⟨hoffset, hle, -⟩ := nextFrame_some h
  obtain ⟨hkind, hlen⟩ := nextFrame_kind h
  have htwelve := frame.twelve_le
  have hremaining : s'.remaining = (s.advance frame.raw.length).remaining := by
    rw [remaining, remaining, hpos, hdata, advance_data]
  have hsplit := remaining_eq_append h
  unfold BlockCall.Sound BlockCall.block?
  rw [hblock]
  refine ⟨hoffset, by rw [hpos, advance_pos hle], by rw [hremaining, ← hsplit], _, _, hkind, ?_⟩
  rwa [hsplit, frame.endian.wordAt_append (by omega)] at hlen

/-- **A call of `next_block` is sound.** -/
theorem callBlock_sound (h : callBlock s = some (event, s')) :
    (BlockCall.mk s event s').Sound ∧ s'.data = s.data := by
  unfold callBlock at h
  rw [nextBlock_apply] at h
  rcases hframe : s.nextFrame with (_ | frame) | e | _ | _ <;> simp only [hframe] at h
  · obtain ⟨rfl, rfl⟩ := Prod.mk.inj (Option.some.inj h)
    exact ⟨rfl, rfl⟩
  · rcases hparse : parseFrame frame with block | e | _ | _ <;> simp only [hparse] at h
    · obtain ⟨rfl, rfl⟩ := Prod.mk.inj (Option.some.inj h)
      exact ⟨sound_of_nextFrame hframe rfl (record_pos ..) (record_data ..), record_data ..⟩
    · obtain ⟨rfl, rfl⟩ := Prod.mk.inj (Option.some.inj h)
      exact ⟨sound_of_nextFrame hframe rfl rfl rfl, rfl⟩
    · cases h
    · cases h
  · obtain ⟨rfl, rfl⟩ := Prod.mk.inj (Option.some.inj h)
    exact ⟨rfl, rfl⟩
  · cases h
  · cases h

/-! ### Runs -/

/-- The calls of a run are sound, and chained. -/
theorem run_calls (h : run n s = some (log, t)) :
    (∀ call ∈ log, call.Sound) ∧ BlockCall.Chained s log t ∧ t.data = s.data := by
  induction n generalizing s log with
  | zero =>
    obtain ⟨rfl, rfl⟩ := Prod.mk.inj (Option.some.inj h)
    exact ⟨by simp, rfl, rfl⟩
  | succ n ih =>
    rw [run] at h
    rcases hcall : callBlock s with _ | ⟨event, s'⟩ <;> simp only [hcall] at h
    · cases h
    · obtain ⟨⟨rest, t'⟩, hrest, heq⟩ := Option.map_eq_some_iff.1 h
      obtain ⟨rfl, rfl⟩ := Prod.mk.inj heq
      obtain ⟨hsound, hdata⟩ := callBlock_sound hcall
      obtain ⟨hsounds, hchained, hdata'⟩ := ih hrest
      exact ⟨List.forall_mem_cons.2 ⟨hsound, hsounds⟩, ⟨rfl, hchained⟩, hdata'.trans hdata⟩

/-- The blocks of sound calls follow one another from the position on, and are what
was read. -/
theorem blocks_of_chained (hsound : ∀ call ∈ log, call.Sound) (hchained : BlockCall.Chained s log t) :
    Span.Adjacent s.pos ((BlockCall.blocks log).map extentOf) ∧
      s.remaining = rawBytes Prod.snd (BlockCall.blocks log) ++ t.remaining ∧
      t.pos = s.pos + (rawBytes Prod.snd (BlockCall.blocks log)).length := by
  induction log generalizing s with
  | nil =>
    obtain rfl : s = t := hchained
    exact ⟨trivial, rfl, rfl⟩
  | cons call log ih =>
    obtain ⟨rfl, hrest⟩ := hchained
    obtain ⟨hcall, hcalls⟩ := List.forall_mem_cons.1 hsound
    obtain ⟨hadjacent, hremaining, hpos⟩ := ih hcalls hrest
    unfold BlockCall.Sound at hcall
    rcases hblock : call.block? with _ | ⟨offset, raw⟩ <;> simp only [hblock] at hcall
    · rw [BlockCall.blocks, List.filterMap_cons_none hblock, ← BlockCall.blocks, ← hcall]
      exact ⟨hadjacent, hremaining, hpos⟩
    · obtain ⟨hoffset, hafter, hsplit, -⟩ := hcall
      rw [BlockCall.blocks, List.filterMap_cons_some hblock, ← BlockCall.blocks]
      refine ⟨⟨hoffset, ?_⟩, ?_, ?_⟩
      · rwa [Span.stop, extentOf, hoffset, ← hafter]
      · rw [hsplit, hremaining, rawBytes_cons, List.append_assoc]
      · rw [hpos, hafter, rawBytes_cons, List.length_append, Nat.add_assoc]

/-- Adjacent blocks are found at their offsets in what they spell. -/
theorem slice_of_adjacent {front rest : List UInt8} {blocks : List (ℕ × List UInt8)}
    (h : Span.Adjacent front.length (blocks.map extentOf)) {block : ℕ × List UInt8}
    (hmem : block ∈ blocks) :
    (Outcome.slice (front ++ rawBytes Prod.snd blocks ++ rest) block.1
      (block.1 + block.2.length) : Result (List UInt8)) = .ok block.2 := by
  have hlocate : ∀ {pos : ℕ} {blocks : List (ℕ × List UInt8)},
      Span.Adjacent pos (blocks.map extentOf) → ∀ block ∈ blocks,
        (block.1, block) ∈ locate Prod.snd pos blocks := by
    intro pos blocks h
    induction blocks generalizing pos with
    | nil => simp
    | cons b blocks ih =>
      obtain ⟨hstart, hrest⟩ := h
      rintro block hmem
      rw [locate_cons]
      rcases List.mem_cons.1 hmem with rfl | hmem
      · exact List.mem_cons.2 (.inl (Prod.ext hstart rfl))
      · refine List.mem_cons_of_mem _ (ih ?_ block hmem)
        rwa [← show b.1 = pos from hstart]
  exact slice_of_mem_locate Prod.snd (hlocate h block hmem)

/-- **The position is sound.**  In every run of calls, each call is sound and starts
where the one before it ended, and the blocks that were handed out and turned down
tile the data up to the position. -/
theorem run_sound (data : List UInt8) (n : ℕ) (log : List BlockCall) (t : PcapngSliceReader)
    (h : run n (new data) = some (log, t)) :
    (∀ call ∈ log, call.Sound) ∧ BlockCall.Chained (new data) log t ∧
      Tiles data (BlockCall.blocks log) t.pos := by
  obtain ⟨hsound, hchained, hdata⟩ := run_calls h
  obtain ⟨hadjacent, hremaining, hpos⟩ := blocks_of_chained hsound hchained
  have hall : data = rawBytes Prod.snd (BlockCall.blocks log) ++ t.remaining := hremaining
  have hstop : t.pos = (rawBytes Prod.snd (BlockCall.blocks log)).length := by
    rw [hpos]
    exact Nat.zero_add _
  refine ⟨hsound, hchained, hadjacent, ?_, ?_⟩
  · conv_rhs => rw [hall, hstop, List.take_left]
  · intro block hmem
    have hstart : Span.Adjacent ([] : List UInt8).length
        ((BlockCall.blocks log).map extentOf) := hadjacent
    rw [hall]
    exact slice_of_adjacent hstart hmem

/-- A section header, an interface description whose two lengths differ, and three
bytes more. -/
def crookedCapture : List UInt8 :=
  [0x0A, 0x0D, 0x0D, 0x0A, 0, 0, 0, 28, 0x1A, 0x2B, 0x3C, 0x4D, 0, 1, 0, 0, 255, 255, 255, 255,
    255, 255, 255, 255, 0, 0, 0, 28, 0, 0, 0, 1, 0, 0, 0, 20, 0, 1, 0, 0, 0, 0, 0, 0, 0, 0, 0, 24,
    0, 0, 0]

/-- Its two blocks tile its first 48 bytes. -/
theorem run_sound_crooked : ∃ log t, run 4 (new crookedCapture) = some (log, t) ∧
    BlockCall.blocks log =
      [(0, crookedCapture.take 28), (28, (crookedCapture.drop 28).take 20)] ∧
    Tiles crookedCapture (BlockCall.blocks log) t.pos := by
  have hsome : (run 4 (new crookedCapture)).isSome := by decide +kernel
  obtain ⟨⟨log, t⟩, hrun⟩ := Option.isSome_iff_exists.1 hsome
  have hblocks : ((run 4 (new crookedCapture)).map fun r => BlockCall.blocks r.1) =
      some [(0, crookedCapture.take 28), (28, (crookedCapture.drop 28).take 20)] := by
    decide +kernel
  rw [hrun] at hblocks
  exact ⟨log, t, hrun, Option.some.inj hblocks, (run_sound crookedCapture 4 log t hrun).2.2⟩

end PcapngSliceReader

end Capture
end Maja
