/-
# The timeline of a replayed file

While nothing saturates, the replay of a file has a closed form.  Pass `c` over
the file starts at `passStart c`; the packets keep their distances to the first
one, and the packets of the parallel groups are spread by the jitter.
`items_timeline` says that this is what `PacketReader::next` hands out.

The batches of the replay are sorted exactly when every start time lies behind the
end of the group before it (`StartsInOrder`).
-/

import Maja.Lib.Paired
import Maja.Mergecap.Replay
import Maja.Mergecap.MergeView

namespace Maja
namespace Mergecap

open Lib Capture PacketReader

namespace Source

variable (args : MergeArgs) (src : Source)

/-- The timestamp of the first packet of a pass. -/
def origin : ℤ := (src.packets.head?.map fun p => p.timestamp.val).getD 0

/-- The time from the first to the last packet of a pass. -/
def span : ℤ := (src.packets.getLast?.map fun p => p.timestamp.val).getD 0 - src.origin

/-- What is left of the first packet's own timestamp. -/
def shift : ℤ :=
  if args.eraseTimestamp.getD false then
    if args.keepSubsecond.getD false then src.origin.tmod 1000000000 else 0
  else src.origin

/-- The start time of a group in nanoseconds. -/
def groupStart (group : ℕ) : ℤ :=
  (src.file.startTime[group]?.map fun s => s.val).getD 0 * 1000000000

/-- Where pass `c` starts: its group's start time, moved by the passes of the
group before it. -/
def passStart (c : ℕ) : ℤ :=
  src.groupStart (c / src.file.repeatCount) + src.shift args +
    (c % src.file.repeatCount : ℕ) * (src.span + src.file.repeatIntervalNs.val)

/-- The timestamp of a packet in pass `c`. -/
def base (c : ℕ) (packet : PacketRecord) : ℤ :=
  src.passStart args c + (packet.timestamp.val - src.origin)

/-- The timestamps of the batch of a packet in pass `c`. -/
def batchStamps (c : ℕ) (packet : PacketRecord) : List ℤ :=
  src.jitter.map fun offset => src.base args c packet + offset.val

/-- The timestamps of pass `c`. -/
def passStamps (c : ℕ) : List (List ℤ) := src.packets.map (src.batchStamps args c)

/-- No saturating operation leaves `i64`: neither the distance to the first
packet, nor a timestamp, nor one with its jitter. -/
structure NoSaturation : Prop where
  distance : ∀ p ∈ src.packets, I64.InRange (p.timestamp.val - src.origin)
  base : ∀ c < src.passes, ∀ p ∈ src.packets, I64.InRange (src.base args c p)
  jitter : ∀ c < src.passes, ∀ p ∈ src.packets, ∀ offset ∈ src.jitter,
    I64.InRange (src.base args c p + offset.val)

/-- Every group ends before the next one starts: its passes, with the intervals
between them, fit between the two start times. -/
def StartsInOrder : Prop :=
  src.packets ≠ [] → ∀ group, group + 1 < src.file.startTime.length →
    src.groupStart group + src.file.repeatCount * src.span +
      (src.file.repeatCount - 1 : ℕ) * src.file.repeatIntervalNs.val ≤
    src.groupStart (group + 1)

end Source

/-- The timestamps of the batches that were handed out. -/
def stampsOf (batches : List (List PacketRecord)) : List (List ℤ) :=
  batches.map fun items => items.map fun p => p.timestamp.val

/-- Mapping over the indices is mapping over the list. -/
theorem map_range_getD {α β : Type} (l : List α) (d : α) (f : α → β) :
    ((List.range l.length).map fun i => f (l[i]?.getD d)) = l.map f := by
  refine List.ext_getElem (by simp) fun i h₁ h₂ => ?_
  have hi : i < l.length := by simpa using h₂
  simp [hi]

section Timeline

variable {args : MergeArgs} {src : Source}

/-- What the reader hands out from `s` on has the timestamps `stamps`. -/
def Continues {W : Rewriter} (s : PacketReader W) (stamps : List (List ℤ)) : Prop :=
  ∃ batches, Items next s batches ∧ stampsOf batches = stamps

/-- The last packet of a pass ends it. -/
theorem base_last {c : ℕ} {p : PacketRecord} (h : [p] <:+ src.packets) :
    src.base args c p = src.passStart args c + src.span := by
  obtain ⟨front, hfront⟩ := h
  have hlast : src.packets.getLast? = some p := by rw [← hfront]; simp
  simp [Source.base, Source.span, hlast]

/-- The first packet of a pass goes where the pass starts. -/
theorem base_head {c : ℕ} {p : PacketRecord} {ps : List PacketRecord} (h : src.packets = p :: ps) :
    src.base args c p = src.passStart args c := by
  simp [Source.base, Source.origin, h]

/-- A pass behind another one of its group starts one interval after its end. -/
theorem passStart_succ {c : ℕ} (h : (c + 1) % src.file.repeatCount ≠ 0) :
    src.passStart args (c + 1) =
      src.passStart args c + src.span + src.file.repeatIntervalNs.val := by
  have hdiv : (c + 1) / src.file.repeatCount = c / src.file.repeatCount := by
    rw [Nat.succ_div, if_neg (fun hdvd => h (Nat.mod_eq_zero_of_dvd hdvd)), Nat.add_zero]
  have hmod : (c + 1) % src.file.repeatCount = c % src.file.repeatCount + 1 := by
    have h₁ := Nat.div_add_mod (c + 1) src.file.repeatCount
    have h₂ := Nat.div_add_mod c src.file.repeatCount
    rw [hdiv] at h₁
    omega
  rw [Source.passStart, Source.passStart, hdiv, hmod]
  push_cast
  ring

/-- The timestamps of a batch are exact when they do not saturate. -/
theorem stamps_eq {items : List PacketRecord} {stamp : I64}
    (hitems : items.map (fun q => q.timestamp) =
      src.jitter.map fun offset => stamp.saturatingAdd offset)
    (hrange : ∀ offset ∈ src.jitter, I64.InRange (stamp.val + offset.val)) :
    (items.map fun q => q.timestamp.val) = src.jitter.map fun offset => stamp.val + offset.val := by
  calc (items.map fun q => q.timestamp.val)
      = (items.map fun q => q.timestamp).map Subtype.val := by rw [List.map_map]; rfl
    _ = (src.jitter.map fun offset => stamp.saturatingAdd offset).map Subtype.val := by rw [hitems]
    _ = src.jitter.map fun offset => stamp.val + offset.val := by
      rw [List.map_map]
      exact List.map_congr_left fun offset hoffset => I64.clamp_val (hrange offset hoffset)

/-- A distance and a timestamp that are in range do not saturate. -/
theorem copyStamp_val {start : I64} {p : PacketRecord}
    (hdistance : I64.InRange (p.timestamp.val - src.origin))
    (hstamp : I64.InRange (start.val + (p.timestamp.val - src.origin))) :
    (src.copyStamp start p).val = start.val + (p.timestamp.val - src.origin) := by
  have horigin : src.firstTime.val = src.origin := by
    rw [Source.firstTime, Source.origin]
    cases src.packets.head? <;> rfl
  rw [Source.copyStamp, I64.saturatingAdd, I64.saturatingSub, horigin, I64.clamp_val hdistance,
    add_comm, I64.clamp_val hstamp]

/-- Where the first packet goes at a start time, when that does not saturate. -/
theorem groupOrigin_val {group : ℕ}
    (hrange : I64.InRange (src.groupStart group + src.shift args)) :
    (src.groupOrigin args group).val = src.groupStart group + src.shift args := by
  have hstart : (startNs (src.file.startTime[group]?.getD InputFile.noStart)).val =
      src.groupStart group := by
    rw [startNs, Source.groupStart]
    cases src.file.startTime[group]? <;> rfl
  have horigin : src.firstTime.val = src.origin := by
    rw [Source.firstTime, Source.origin]
    cases src.packets.head? <;> rfl
  unfold Source.groupOrigin
  rw [Source.shift] at hrange ⊢
  dsimp only
  split_ifs at hrange ⊢
  · have hsubsecond : (subsecond src.firstTime).val = src.origin.tmod 1000000000 := by
      rw [← horigin]
      rfl
    rw [I64.saturatingAdd, hstart, hsubsecond, I64.clamp_val hrange]
  · rw [hstart, add_zero]
  · rw [I64.saturatingAdd, hstart, horigin, add_comm, I64.clamp_val hrange]

/-- While nothing saturates, every copy starts where the closed form says. -/
theorem copyStart_val (hsat : src.NoSaturation args) (hne : src.packets ≠ []) {c : ℕ}
    (hc : c < src.passes) : (src.copyStart args c).val = src.passStart args c := by
  obtain ⟨p, ps, hpackets⟩ := List.exists_cons_of_ne_nil hne
  have hrange : ∀ c < src.passes, I64.InRange (src.passStart args c) := by
    intro c hc
    rw [← base_head hpackets]
    exact hsat.base c hc p (by simp [hpackets])
  induction c with
  | zero =>
    have hstart : src.passStart args 0 = src.groupStart 0 + src.shift args := by
      simp [Source.passStart]
    have hzero := hrange 0 hc
    rw [hstart] at hzero ⊢
    exact groupOrigin_val hzero
  | succ c ih =>
    rw [Source.copyStart]
    split_ifs with hmod
    · have hstart : src.passStart args (c + 1) =
          src.groupStart ((c + 1) / src.file.repeatCount) + src.shift args := by
        simp [Source.passStart, hmod]
      have hsucc := hrange (c + 1) hc
      rw [hstart] at hsucc ⊢
      exact groupOrigin_val hsucc
    · have hlast : (src.packets.getLast hne) ∈ src.packets := List.getLast_mem hne
      have hprev : c < src.passes := Nat.lt_of_succ_lt hc
      have hend : (src.copyEnd (src.copyStart args c)).val = src.passStart args c + src.span := by
        have hbase := hsat.base c hprev _ hlast
        rw [Source.base] at hbase
        rw [← copyStamp_last ⟨_, List.dropLast_append_getLast hne⟩,
          copyStamp_val (hsat.distance _ hlast) (by rw [ih hprev]; exact hbase), ih hprev]
        simp [Source.span, List.getLast?_eq_getLast_of_ne_nil hne]
      have hsucc := hrange (c + 1) hc
      rw [passStart_succ hmod] at hsucc ⊢
      rw [I64.saturatingAdd, hend, I64.clamp_val hsucc]

/-- While nothing saturates, the timestamps of a batch are those of the closed form. -/
theorem BatchOf.stamps (hsat : src.NoSaturation args) {c : ℕ} (hc : c < src.passes)
    {p : PacketRecord} (hp : p ∈ src.packets) {items : List PacketRecord}
    (h : BatchOf src p (src.copyStamp (src.copyStart args c) p) items) :
    (items.map fun q => q.timestamp.val) = src.batchStamps args c p := by
  have hstart := copyStart_val hsat (List.ne_nil_of_mem hp) hc
  have hbase : (src.copyStamp (src.copyStart args c) p).val = src.base args c p := by
    have hrange := hsat.base c hc p hp
    rw [Source.base] at hrange ⊢
    rw [copyStamp_val (hsat.distance p hp) (by rw [hstart]; exact hrange), hstart]
  have hstamps : (items.map fun q => q.timestamp) = src.jitter.map fun offset =>
      (src.copyStamp (src.copyStart args c) p).saturatingAdd offset := by
    rw [← map_range_getD src.jitter (I64.ofInt 0), length_jitter]
    exact (map_eq_map_of_forall₂ (fun group _ item hitem => hitem.timestamp.symm) h).symm
  rw [Source.batchStamps, ← hbase]
  exact stamps_eq hstamps fun offset hoffset => by
    rw [hbase]
    exact hsat.jitter c hc p hp offset hoffset

/-- **What a reader hands out**: one pass after another, each packet of a pass as
a batch of one packet for every parallel group, at the timestamps of the closed
form. -/
theorem items_timeline (hvalid : src.file.TimelineOk) (hsat : src.NoSaturation args) :
    Continues (src.reader args) ((List.range src.passes).flatMap (src.passStamps args)) := by
  obtain ⟨batches, hitems, copies, rfl, hcopies⟩ := items_replay args src hvalid
  refine ⟨_, hitems, ?_⟩
  have hcopy : ∀ c ∈ List.range src.passes, ∀ copy, CopyAt src (src.copyStart args c) copy →
      src.passStamps args c = stampsOf copy := fun c hc copy h =>
    map_eq_map_of_forall₂ (fun p hp items hbatch =>
      (BatchOf.stamps hsat (List.mem_range.1 hc) hp hbatch).symm) h
  calc stampsOf copies.flatten
      = (copies.map stampsOf).flatten := List.map_flatten
    _ = ((List.range src.passes).map (src.passStamps args)).flatten := by
      rw [map_eq_map_of_forall₂ hcopy hcopies]
    _ = (List.range src.passes).flatMap (src.passStamps args) := (List.flatMap_def ..).symm

end Timeline

end Mergecap
end Maja
