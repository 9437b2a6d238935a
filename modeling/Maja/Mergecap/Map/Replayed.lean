/-
# The batches of a file

The copies of `items_replay`, written out: while no packet is rewritten, the batches
that the reader of a file hands out are those of `Source.batches`.
-/

import Maja.Mergecap.Map.Runtime

namespace Maja
namespace Mergecap

open Lib Capture

/-- What the reader of a file replays, with a generator for its jitter. -/
def Input.source (rng : JitterRng) (input : Input) : Source :=
  ⟨input.file, input.capture, rng, noRewriter⟩

/-- A packet in copy `c` of its file. -/
def Source.copied (args : MergeArgs) (src : Source) (c : ℕ) (packet : PacketRecord) :
    PacketRecord :=
  { packet with timestamp := src.copyStamp (src.copyStart args c) packet }

/-- The packets of a file on the timeline: those of parallel group 0. -/
def Input.timeline (args : MergeArgs) (input : Input) : List PacketRecord :=
  let src := input.source zeroRng
  (List.range src.passes).flatMap fun c => src.packets.map (src.copied args c)

/-- A packet of the timeline, for every parallel group. -/
def Source.batch (src : Source) (packet : PacketRecord) : List PacketRecord :=
  src.jitter.map fun offset => { packet with timestamp := packet.timestamp.saturatingAdd offset }

/-- The batches of a file that is replayed with this generator. -/
def Input.batches (args : MergeArgs) (rng : JitterRng) (input : Input) : List (List PacketRecord) :=
  (input.timeline args).map (input.source rng).batch

/-- Where a copy starts does not depend on the jitter. -/
theorem copyStart_source (args : MergeArgs) (input : Input) (rng : JitterRng) (c : ℕ) :
    (input.source rng).copyStart args c = (input.source zeroRng).copyStart args c := by
  induction c with
  | zero => rfl
  | succ c ih =>
    rw [Source.copyStart, Source.copyStart, ih]
    rfl

/-- A copy that is not rewritten, at a timestamp. -/
theorem CopyOf.eq {packet item : PacketRecord} {stamp : I64} {group : ℕ}
    (h : CopyOf noRewriter packet stamp group item) :
    item = { packet with timestamp := stamp } := by
  obtain ⟨hstamp, hlength, hlink, hdata⟩ := h
  cases item
  subst hstamp hlength hlink hdata
  rfl

/-- The batch of a packet that goes to `stamp`. -/
theorem BatchOf.eq {rng : JitterRng} {input : Input} {packet : PacketRecord} {stamp : I64}
    {items : List PacketRecord} (h : BatchOf (input.source rng) packet stamp items) :
    items = (input.source rng).batch { packet with timestamp := stamp } := by
  rw [Source.batch, ← map_range_getD (input.source rng).jitter (I64.ofInt 0), length_jitter]
  have hmap := map_eq_map_of_forall₂ (f := fun group => ({ packet with
    timestamp := stamp.saturatingAdd ((input.source rng).jitter[group]?.getD (I64.ofInt 0)) } :
      PacketRecord)) (g := id) (fun group _ item hcopy => hcopy.eq.symm) h
  rw [List.map_id] at hmap
  exact hmap.symm

/-- **What the reader of a file hands out.** -/
theorem items_batches (settings : Settings) (seed : UInt64) {input : Input}
    (hvalid : input.file.TimelineOk) :
    Items PacketReader.next (input.reader settings seed)
      (input.batches settings.args (settings.jitterRng seed)) := by
  let src := input.source (settings.jitterRng seed)
  obtain ⟨batches, hitems, copies, rfl, hcopies⟩ := items_replay settings.args src hvalid
  have hone : ∀ c ∈ List.range src.passes, ∀ copy, CopyAt src (src.copyStart settings.args c) copy →
      src.packets.map (fun packet => src.batch ((input.source zeroRng).copied settings.args c
        packet)) = copy := fun c _ copy hcopy => by
    have hmap := map_eq_map_of_forall₂ (g := id) (fun packet _ items hbatch => by
      rw [BatchOf.eq hbatch, copyStart_source]) hcopy
    rw [List.map_id] at hmap
    exact hmap
  have hall := map_eq_map_of_forall₂ (g := id) hone hcopies
  rw [List.map_id] at hall
  have hbatches : input.batches settings.args (settings.jitterRng seed) = copies.flatten := by
    rw [← hall, Input.batches, Input.timeline, List.map_flatMap, List.flatMap_def]
    simp only [List.map_map]
    rfl
  rw [hbatches]
  exact hitems

/-- An offset of zero moves no timestamp. -/
theorem saturatingAdd_zero (t : I64) : t.saturatingAdd (I64.ofInt 0) = t := by
  have hrange : I64.InRange (t.val + 0) := by
    rw [add_zero]
    exact t.property
  exact Subtype.ext ((I64.clamp_val hrange).trans (add_zero t.val))

/-- The batch of a packet has the packet in group 0. -/
theorem head?_batch {src : Source} (hvalid : src.file.TimelineOk) (packet : PacketRecord) :
    (src.batch packet).head? = some packet := by
  obtain ⟨k, hk⟩ := Nat.exists_eq_succ_of_ne_zero hvalid.parallel.ne'
  have hjitter : src.jitter.head? = some (I64.ofInt 0) := by
    rw [Source.jitter, PacketReader.drawJitter, hk, List.range_succ_eq_map]
    rfl
  rw [Source.batch, List.head?_map, hjitter, Option.map_some, saturatingAdd_zero]

/-- The first packets of the batches are the packets on the timeline. -/
theorem heads_batches {args : MergeArgs} {rng : JitterRng} {input : Input}
    (hvalid : input.file.TimelineOk) :
    (input.batches args rng).map List.head? = (input.timeline args).map some := by
  rw [Input.batches, List.map_map]
  exact List.map_congr_left fun packet _ =>
    @head?_batch (input.source rng) hvalid packet

end Mergecap
end Maja
