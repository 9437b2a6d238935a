/-
# Merging in batches and merging in one pass

Whatever the batch size, the output holds what the merge gets of the input files, in the
order of the timestamps (`mergeImpl_holds`).  Whether the merge returns does not depend on
it either (`mergeImpl_returns`): the temporary files are always read again, and every
round has fewer of them.

So two batch sizes, or batches and one pass, give outputs that can differ in one way only:
packets that are written with the same timestamp may change places
(`batchSize_irrelevant`, `batches_write_onePass`).  They do, since a file is only read
ahead as far as the merge needs it: a packet can be emitted before another one of an
earlier file with the same timestamp, and in a batch there are other files to wait for.
-/

import Maja.Mergecap.TmpFiles

namespace Maja
namespace Mergecap

open Lib Capture

/-- A file holds these packets, written in the order of their timestamps. -/
def OutputArgs.Holds (output : OutputArgs) (bytes : List UInt8)
    (contents : List (I64 × List UInt8)) : Prop :=
  ∃ (linkType : LinkType) (records : List PacketRecord), linkType.toCode < 2 ^ 16 ∧
    bytes = output.write linkType records ∧ (∀ p ∈ records, PcapWriter.Writable p) ∧
    (records.Pairwise fun p q => p.timestamp ≤ q.timestamp) ∧
    (records.map fun p => output.stored (seen p)).Perm contents

/-- What a merge gets of the files at the places from `index` on, as a file holds it. -/
def contentsOf (ρ : Type) [StdRng ρ] (output : OutputArgs) (settings : Settings) (index : ℕ)
    (inputs : List FileInput) : List (I64 × List UInt8) :=
  (inputs.zipIdx index).flatMap fun x =>
    (x.1.made ρ settings x.2).map fun made => output.stored (seen made.packet)

section Holds

variable {ρ : Type} [StdRng ρ] {H : ∀ n, BinaryHeap (HeapEntry n Written) HeapEntry.le}
  {output : OutputArgs} {fuel : ℕ} {settings : Settings}

/-- What is made of a file's packets can be written. -/
theorem FileInput.Fits.writable_made {index : ℕ} {input : FileInput}
    (h : input.Fits settings index) {made : Written} (hmade : made ∈ input.made ρ settings index) :
    PcapWriter.Writable made.packet := by
  rw [FileInput.made] at hmade
  rcases hopen : openFile settings index input.input (∅ : MapRuntime ρ) with
    ⟨file, _⟩ | e | _ | _
  · rw [hopen] at hmade
    obtain ⟨items, hitems, p, hp, data, hdata⟩ := exists_of_mem_rewriteBatches hmade
    obtain ⟨hlength, hlo, hhi⟩ := h.writable items hitems p hp
    rw [hdata]
    exact ⟨hlength, hlo, hhi⟩
  all_goals
    rw [hopen] at hmade
    cases hmade

/-- The output of one pass. -/
theorem mergeFiles_holds {index : ℕ} {inputs : List FileInput} {merged : Merged}
    {runtime runtime' : MapRuntime ρ} (hfits : ∀ x ∈ inputs.zipIdx index, x.1.Fits settings x.2)
    (h : mergeFiles H output fuel settings index inputs runtime = .ok (merged, runtime')) :
    runtime' = runtime ∧ output.Holds merged.bytes (contentsOf ρ output settings index inputs) ∧
      ∀ x ∈ inputs.zipIdx index, x.1.Merges ρ settings x.2 := by
  obtain ⟨hruntime, ⟨linkType, hlink, hbytes⟩, hsorted, hperm, hmerges⟩ := mergeFiles_own hfits h
  refine ⟨hruntime, ⟨linkType, _, hlink, hbytes, fun p hp => ?_, hsorted, ?_⟩, hmerges⟩
  · obtain ⟨made, hmade, rfl⟩ := List.mem_map.1 hp
    obtain ⟨x, hx, hmade⟩ := List.mem_flatMap.1 (hperm.mem_iff.1 hmade)
    exact (hfits x hx).writable_made hmade
  · have hcontents := hperm.map fun made => output.stored (seen made.packet)
    rw [List.map_flatMap] at hcontents
    rw [List.map_map]
    exact hcontents

/-- The files in front of a place and those behind it. -/
theorem zipIdx_take_drop (inputs : List FileInput) (index n : ℕ) :
    inputs.zipIdx index = (inputs.take n).zipIdx index ++ (inputs.drop n).zipIdx (index + n) := by
  have hsplit : (inputs.take n ++ inputs.drop n).zipIdx index = _ := List.zipIdx_append
  rw [List.take_append_drop, List.length_take] at hsplit
  rcases le_total n inputs.length with hle | hle
  · rw [hsplit, min_eq_left hle]
  · rw [hsplit, List.drop_of_length_le hle]
    rfl

/-- The temporary files of all inputs are those of the first ones and those of the
others. -/
theorem contentsOf_take_drop (inputs : List FileInput) (index n : ℕ) :
    contentsOf ρ output settings index inputs =
      contentsOf ρ output settings index (inputs.take n) ++
        contentsOf ρ output settings (index + n) (inputs.drop n) := by
  rw [contentsOf, zipIdx_take_drop inputs index n, List.flatMap_append]
  rfl

/-- **The batches**: together the temporary files hold what the merge gets of the input
files. -/
theorem mergeBatchFiles_holds {merge : ℕ → List FileInput → Prog (MapRuntime ρ) MergeError Merged}
    (hmerge : ∀ {index inputs merged} {runtime runtime' : MapRuntime ρ},
      (∀ x ∈ inputs.zipIdx index, x.1.Fits settings x.2) →
      merge index inputs runtime = .ok (merged, runtime') → runtime' = runtime ∧
        output.Holds merged.bytes (contentsOf ρ output settings index inputs) ∧
        ∀ x ∈ inputs.zipIdx index, x.1.Merges ρ settings x.2)
    (hsize : 0 < output.batchSizeOrDefault) {index : ℕ} {inputs : List FileInput}
    {batches : List Merged} {runtime runtime' : MapRuntime ρ}
    (hfits : ∀ x ∈ inputs.zipIdx index, x.1.Fits settings x.2)
    (h : mergeBatchFiles output merge index (chunks output.batchSizeOrDefault inputs) runtime =
      .ok (batches, runtime')) :
    runtime' = runtime ∧ (∃ contents,
      List.Forall₂ (fun merged c => output.Holds merged.bytes c) batches contents ∧
      contents.flatten.Perm (contentsOf ρ output settings index inputs)) ∧
      ∀ x ∈ inputs.zipIdx index, x.1.Merges ρ settings x.2 := by
  refine chunks_induction (motive := fun inputs cs => ∀ index batches (runtime : MapRuntime ρ),
    (∀ x ∈ inputs.zipIdx index, x.1.Fits settings x.2) →
    mergeBatchFiles output merge index cs runtime = .ok (batches, runtime') →
    runtime' = runtime ∧ (∃ contents,
      List.Forall₂ (fun merged c => output.Holds merged.bytes c) batches contents ∧
      contents.flatten.Perm (contentsOf ρ output settings index inputs)) ∧
      ∀ x ∈ inputs.zipIdx index, x.1.Merges ρ settings x.2) hsize ?_ ?_ inputs index
    batches runtime hfits h
  · intro index batches runtime _ h
    cases h
    exact ⟨rfl, ⟨[], .nil, .nil⟩, fun x hx => absurd hx List.not_mem_nil⟩
  · intro inputs rest _ ih index batches runtime hfits h
    rw [zipIdx_take_drop inputs index output.batchSizeOrDefault, List.forall_mem_append] at hfits ⊢
    obtain ⟨⟨merged, runtime₁⟩, hfirst, h⟩ := Outcome.bind_eq_ok.1 h
    obtain ⟨⟨batches, runtime₂⟩, hrest, h⟩ := Outcome.bind_eq_ok.1 h
    cases h
    obtain ⟨rfl, hholds, hmerges⟩ := hmerge hfits.1 hfirst
    obtain ⟨rfl, ⟨contents, hcontents, hperm⟩, hmerges'⟩ := ih _ _ _ hfits.2 hrest
    refine ⟨rfl, ⟨_ :: contents, .cons hholds hcontents, ?_⟩, hmerges, hmerges'⟩
    rw [List.flatten_cons, contentsOf_take_drop inputs index output.batchSizeOrDefault]
    exact hperm.append_left _

/-- **The batches are merged** if pieces of them are. -/
theorem mergeBatchFiles_returns
    {merge : ℕ → List FileInput → Prog (MapRuntime ρ) MergeError Merged} (runtime : MapRuntime ρ)
    (hmerge : ∀ index inputs, inputs.length ≤ output.batchSizeOrDefault →
      (∀ x ∈ inputs.zipIdx index, x.1.Fits settings x.2) →
      (∀ x ∈ inputs.zipIdx index, x.1.Merges ρ settings x.2) →
      2 * (contentsOf ρ output settings index inputs).length + inputs.length < fuel →
      ∃ merged, merge index inputs runtime = .ok (merged, runtime))
    (hsize : 0 < output.batchSizeOrDefault) {index : ℕ} {inputs : List FileInput}
    (hfits : ∀ x ∈ inputs.zipIdx index, x.1.Fits settings x.2)
    (hmerges : ∀ x ∈ inputs.zipIdx index, x.1.Merges ρ settings x.2)
    (hfuel : 2 * (contentsOf ρ output settings index inputs).length + inputs.length < fuel) :
    ∃ batches, mergeBatchFiles output merge index (chunks output.batchSizeOrDefault inputs)
        runtime = .ok (batches, runtime) ∧
      batches.length = (chunks output.batchSizeOrDefault inputs).length := by
  refine chunks_induction (motive := fun inputs cs => ∀ index,
    (∀ x ∈ inputs.zipIdx index, x.1.Fits settings x.2) →
    (∀ x ∈ inputs.zipIdx index, x.1.Merges ρ settings x.2) →
    2 * (contentsOf ρ output settings index inputs).length + inputs.length < fuel →
    ∃ batches, mergeBatchFiles output merge index cs runtime = .ok (batches, runtime) ∧
      batches.length = cs.length) hsize ?_ ?_ inputs index hfits hmerges hfuel
  · exact fun _ _ _ _ => ⟨[], rfl, rfl⟩
  · intro inputs rest _ ih index hfits hmerges hfuel
    rw [zipIdx_take_drop inputs index output.batchSizeOrDefault, List.forall_mem_append]
      at hfits hmerges
    have hlength := congrArg List.length
      (List.take_append_drop output.batchSizeOrDefault inputs)
    rw [List.length_append] at hlength
    rw [contentsOf_take_drop inputs index output.batchSizeOrDefault, List.length_append] at hfuel
    obtain ⟨merged, hfirst⟩ := hmerge index _ (List.length_take_le _ _) hfits.1 hmerges.1 (by omega)
    obtain ⟨batches, hrest, hcount⟩ := ih _ hfits.2 hmerges.2 (by omega)
    refine ⟨merged :: batches, ?_, by rw [List.length_cons, hcount, List.length_cons]⟩
    simp only [mergeBatchFiles, Prog.bind_apply, hfirst, hrest, Outcome.ok_bind, Prog.pure_apply]

/-- What the next merge gets of a temporary file is what it holds. -/
theorem tmpFile_holds (hargs : settings.args.eraseTimestamp = some false) {merged : Merged}
    {contents : List (I64 × List UInt8)} (h : output.Holds merged.bytes contents) (index : ℕ) :
    (tmpFile merged).Fits settings index ∧ (tmpFile merged).Merges ρ settings index ∧
      (((tmpFile merged).made ρ settings index).map fun made =>
        output.stored (seen made.packet)).Perm contents := by
  obtain ⟨linkType, records, hlink, hbytes, hwritable, hsorted, hperm⟩ := h
  obtain ⟨linkType', hsniff⟩ := sniff_write output hlink hwritable
  rw [← hbytes] at hsniff
  have hinput : (tmpFile merged).input = _ := FileInput.input_of_sniff hsniff
  have hreread : ∀ p ∈ records.map (output.reread linkType), PcapWriter.Writable p := fun p hp => by
    obtain ⟨q, hq, rfl⟩ := List.mem_map.1 hp
    exact writable_reread (hwritable q hq)
  refine ⟨fits_tmp hargs hinput hreread (List.pairwise_map.2 (hsorted.imp stamp_mono)) index,
    merges_tmp hargs hsniff hreread index, ?_⟩
  rw [made_tmp hargs hinput hreread, List.map_map, List.map_map]
  refine .trans (.of_eq (List.map_congr_left fun p hp => ?_)) hperm
  show output.stored (seen (output.reread linkType p)) = _
  rw [seen_reread, stored_stored (hwritable p hp).nonneg]

/-- What the next merge gets of all temporary files. -/
theorem tmpFiles_hold (hargs : settings.args.eraseTimestamp = some false) {batches : List Merged}
    {contents : List (List (I64 × List UInt8))}
    (h : List.Forall₂ (fun merged c => output.Holds merged.bytes c) batches contents) (index : ℕ) :
    (∀ x ∈ (batches.map tmpFile).zipIdx index,
        x.1.Fits settings x.2 ∧ x.1.Merges ρ settings x.2) ∧
      (contentsOf ρ output settings index (batches.map tmpFile)).Perm contents.flatten := by
  induction h generalizing index with
  | nil => exact ⟨fun x hx => absurd hx List.not_mem_nil, .nil⟩
  | @cons merged c batches contents hfirst _ ih =>
    obtain ⟨hfits, hmerges, hperm⟩ := tmpFile_holds (ρ := ρ) hargs hfirst index
    obtain ⟨hrest, hperms⟩ := ih (index + 1)
    constructor
    · intro x hx
      rw [List.map_cons, List.zipIdx_cons] at hx
      obtain rfl | hx := List.mem_cons.1 hx
      · exact ⟨hfits, hmerges⟩
      · exact hrest x hx
    · exact hperm.append hperms

/-- **What `merge_impl` writes**: what it gets of the files, whatever the batches.  If it
returns, every file was opened and rewritten. -/
theorem mergeImpl_holds {depth : ℕ} {index : ℕ} {inputs : List FileInput} {merged : Merged}
    {runtime runtime' : MapRuntime ρ} (hfits : ∀ x ∈ inputs.zipIdx index, x.1.Fits settings x.2)
    (h : mergeImpl H output fuel depth settings index inputs runtime = .ok (merged, runtime')) :
    runtime' = runtime ∧ output.Holds merged.bytes (contentsOf ρ output settings index inputs) ∧
      ∀ x ∈ inputs.zipIdx index, x.1.Merges ρ settings x.2 := by
  induction depth generalizing settings index inputs merged runtime runtime' with
  | zero => cases h
  | succ depth ih =>
    rw [mergeImpl] at h
    split_ifs at h with hsize htwo
    · exact mergeFiles_holds hfits h
    · cases h
    · obtain ⟨⟨batches, runtime₁⟩, hbatches, h⟩ := Outcome.bind_eq_ok.1 h
      obtain ⟨⟨last, runtime₂⟩, hlast, h⟩ := Outcome.bind_eq_ok.1 h
      cases h
      obtain ⟨rfl, ⟨contents, hcontents, hperm⟩, hmerges⟩ :=
        mergeBatchFiles_holds ih (by omega) hfits hbatches
      have hargs : settings.final.args.eraseTimestamp = some false := rfl
      obtain ⟨htmp, htmpPerm⟩ := tmpFiles_hold (ρ := ρ) hargs hcontents index
      obtain ⟨hruntime, ⟨linkType, records, hlink, hbytes, hwritable, hsorted, hholds⟩, -⟩ :=
        ih (fun x hx => (htmp x hx).1) hlast
      exact ⟨hruntime, ⟨linkType, records, hlink, hbytes, hwritable, hsorted,
        (hholds.trans htmpPerm).trans hperm⟩, hmerges⟩

/-- **`merge_impl` returns** if every file is opened and rewritten, whatever the batches. -/
theorem mergeImpl_returns (htwo : 2 ≤ output.batchSizeOrDefault) {depth : ℕ} {index : ℕ}
    {inputs : List FileInput} (runtime : MapRuntime ρ)
    (hfits : ∀ x ∈ inputs.zipIdx index, x.1.Fits settings x.2)
    (hmerges : ∀ x ∈ inputs.zipIdx index, x.1.Merges ρ settings x.2)
    (hfuel : 2 * (contentsOf ρ output settings index inputs).length + inputs.length < fuel)
    (hdepth : inputs.length < depth) : ∃ merged,
    mergeImpl H output fuel depth settings index inputs runtime = .ok (merged, runtime) := by
  induction depth generalizing settings index inputs with
  | zero => omega
  | succ depth ih =>
    rw [mergeImpl]
    split_ifs with hsize
    · refine mergeFiles_returns runtime hfits hmerges ?_
      rw [contentsOf, List.length_flatMap] at hfuel
      simp only [List.length_map] at hfuel
      rwa [List.length_flatMap]
    · omega
    · have hpos : 0 < output.batchSizeOrDefault := by omega
      obtain ⟨batches, hbatches, hcount⟩ := mergeBatchFiles_returns runtime
        (fun index inputs hlength hfits hmerges hfuel => ih hfits hmerges hfuel (by omega))
        hpos hfits hmerges hfuel
      obtain ⟨-, ⟨contents, hcontents, hperm⟩, -⟩ :=
        mergeBatchFiles_holds (fun hfits h => mergeImpl_holds hfits h) hpos hfits hbatches
      have hargs : settings.final.args.eraseTimestamp = some false := rfl
      obtain ⟨htmp, htmpPerm⟩ := tmpFiles_hold (ρ := ρ) hargs hcontents index
      -- the temporary files hold as many packets, and there are fewer of them
      have hsame := (htmpPerm.trans hperm).length_eq
      have hfewer := length_chunks_lt htwo (not_le.1 hsize)
      have hfiles : (batches.map tmpFile).length < inputs.length := by
        rw [List.length_map, hcount]
        exact hfewer
      obtain ⟨last, hlast⟩ : ∃ last, mergeImpl H output fuel depth settings.final index
          (batches.map tmpFile) runtime = .ok (last, runtime) :=
        ih (fun x hx => (htmp x hx).1) (fun x hx => (htmp x hx).2) (by omega) (by omega)
      refine ⟨⟨last.bytes, batches.flatMap Merged.written, batches.flatMap Merged.read⟩, ?_⟩
      simp only [Prog.bind_apply, hbatches, hlast, Outcome.ok_bind, Prog.pure_apply]

end Holds

/-! ### Two batch sizes -/

/-- The packets that are read of a capture file. -/
def packetsIn (bytes : List UInt8) : List PacketRecord :=
  (FileInput.input ⟨default, bytes⟩).capture.packets

/-- What is read of a file is what it holds, in the order of the timestamps. -/
theorem OutputArgs.Holds.packetsIn {output : OutputArgs} {bytes : List UInt8}
    {contents : List (I64 × List UInt8)} (h : output.Holds bytes contents) :
    ((packetsIn bytes).Pairwise fun p q => p.timestamp ≤ q.timestamp) ∧
      ((Mergecap.packetsIn bytes).map seen).Perm contents := by
  obtain ⟨linkType, records, hlink, rfl, hwritable, hsorted, hperm⟩ := h
  obtain ⟨linkType', hsniff⟩ := sniff_write output hlink hwritable
  have hread : Mergecap.packetsIn (output.write linkType records) =
      records.map (output.reread linkType) := by
    rw [Mergecap.packetsIn, FileInput.input_of_sniff hsniff]
    exact packets_map_ok _
  rw [hread, List.map_map]
  exact ⟨List.pairwise_map.2 (hsorted.imp stamp_mono),
    .trans (.of_eq (List.map_congr_left fun p _ => seen_reread p)) hperm⟩

/-- Two sorted lists of the same packets have the same timestamps, and they are the same
if no timestamp is there twice. -/
theorem eq_of_sorted_of_perm {packets packets' : List PacketRecord}
    (hsorted : packets.Pairwise fun p q => p.timestamp ≤ q.timestamp)
    (hsorted' : packets'.Pairwise fun p q => p.timestamp ≤ q.timestamp)
    (hperm : (packets.map seen).Perm (packets'.map seen)) :
    packets.map PacketRecord.timestamp = packets'.map PacketRecord.timestamp ∧
      ((packets.map PacketRecord.timestamp).Nodup → packets.map seen = packets'.map seen) := by
  have hstamps : ∀ packets : List PacketRecord, (packets.map seen).map Prod.fst =
      packets.map PacketRecord.timestamp := fun packets => by
    rw [List.map_map]
    rfl
  constructor
  · have hfst := hperm.map Prod.fst
    rw [hstamps, hstamps] at hfst
    exact hfst.eq_of_pairwise (fun _ _ _ _ hab hba => le_antisymm hab hba)
      (List.pairwise_map.2 hsorted) (List.pairwise_map.2 hsorted')
  · intro hnodup
    rw [← hstamps] at hnodup
    refine hperm.eq_of_pairwise (fun x y hx hy (hxy : x.1 ≤ y.1) (hyx : y.1 ≤ x.1) => ?_)
      (List.pairwise_map.2 hsorted) (List.pairwise_map.2 hsorted')
    exact List.inj_on_of_nodup_map hnodup hx (hperm.mem_iff.2 hy) (le_antisymm hxy hyx)

/-- Two captures have the same packets in the order of their timestamps: they differ only
in the places of packets with the same timestamp. -/
structure SameButTies (bytes bytes' : List UInt8) : Prop where
  packets : ((packetsIn bytes).map seen).Perm ((packetsIn bytes').map seen)
  stamps : (packetsIn bytes).map PacketRecord.timestamp =
    (packetsIn bytes').map PacketRecord.timestamp
  distinct : ((packetsIn bytes).map PacketRecord.timestamp).Nodup →
    (packetsIn bytes).map seen = (packetsIn bytes').map seen

/-- The data of the packets of a capture at one time, in their order. -/
def dataAt (bytes : List UInt8) (timestamp : I64) : List (List UInt8) :=
  ((packetsIn bytes).filter fun p => p.timestamp = timestamp).map PacketRecord.data

/-- The data at a time, among what is seen of all packets. -/
theorem dataAt_eq (bytes : List UInt8) (timestamp : I64) : dataAt bytes timestamp =
    (((packetsIn bytes).map seen).filter fun x => x.1 = timestamp).map Prod.snd := by
  rw [List.filter_map, List.map_map]
  rfl

/-- A packet is there at its time. -/
theorem data_mem_dataAt {bytes : List UInt8} {x : I64 × List UInt8}
    (hx : x ∈ (packetsIn bytes).map seen) : x.2 ∈ dataAt bytes x.1 := by
  rw [dataAt_eq]
  exact List.mem_map_of_mem (List.mem_filter.2 ⟨hx, decide_eq_true rfl⟩)

/-- Two captures have the same packets at the same times.  They are the same sequence
where the packets at one time do not differ. -/
structure SamePerTime (bytes bytes' : List UInt8) : Prop where
  stamps : (packetsIn bytes).map PacketRecord.timestamp =
    (packetsIn bytes').map PacketRecord.timestamp
  data : ∀ timestamp, (dataAt bytes timestamp).Perm (dataAt bytes' timestamp)
  alike : (∀ timestamp, ∀ x ∈ dataAt bytes timestamp, ∀ y ∈ dataAt bytes timestamp, x = y) →
    (packetsIn bytes).map seen = (packetsIn bytes').map seen

/-- Captures in order that hold the same packets hold them at the same times. -/
theorem SamePerTime.of_perm {bytes bytes' : List UInt8}
    (hsorted : (packetsIn bytes).Pairwise fun p q => p.timestamp ≤ q.timestamp)
    (hsorted' : (packetsIn bytes').Pairwise fun p q => p.timestamp ≤ q.timestamp)
    (hperm : ((packetsIn bytes).map seen).Perm ((packetsIn bytes').map seen)) :
    SamePerTime bytes bytes' where
  stamps := (eq_of_sorted_of_perm hsorted hsorted' hperm).1
  data timestamp := by
    rw [dataAt_eq, dataAt_eq]
    exact (hperm.filter _).map _
  alike halike := by
    refine hperm.eq_of_pairwise (fun x y hx hy (hxy : x.1 ≤ y.1) (hyx : y.1 ≤ x.1) => ?_)
      (List.pairwise_map.2 hsorted) (List.pairwise_map.2 hsorted')
    have hstamp : x.1 = y.1 := le_antisymm hxy hyx
    have hy' := data_mem_dataAt (hperm.mem_iff.2 hy)
    rw [← hstamp] at hy'
    exact Prod.ext hstamp (halike x.1 x.2 (data_mem_dataAt hx) y.2 hy')

section BatchSizes

variable {ρ : Type} [StdRng ρ] {H H' : ∀ n, BinaryHeap (HeapEntry n Written) HeapEntry.le}
  {output : OutputArgs} {settings : Settings} {inputs : List FileInput}

/-- Merging files in batches whose packets a capture holds already: the merge returns, and
gets the same packets. -/
theorem mergeImpl_of_holds (hfits : ∀ x ∈ inputs.zipIdx, x.1.Fits settings x.2) {size : ℕ}
    (htwo : 2 ≤ size) {bytes : List UInt8}
    (hholds : output.Holds bytes (contentsOf ρ output settings 0 inputs))
    (hmerges : ∀ x ∈ inputs.zipIdx, x.1.Merges ρ settings x.2) :
    ∃ bound, ∀ fuel depth, bound < fuel → bound < depth →
      ∃ merged, mergeImpl H { output with batchSize := some size } fuel depth settings 0
          inputs ∅ = .ok (merged, (∅ : MapRuntime ρ)) ∧
        ((packetsIn bytes).Pairwise fun p q => p.timestamp ≤ q.timestamp) ∧
        ((packetsIn merged.bytes).Pairwise fun p q => p.timestamp ≤ q.timestamp) ∧
        ((packetsIn bytes).map seen).Perm ((packetsIn merged.bytes).map seen) := by
  refine ⟨2 * (contentsOf ρ output settings 0 inputs).length + inputs.length,
    fun fuel depth hfuel hdepth => ?_⟩
  have hbatch : 2 ≤ ({ output with batchSize := some size } : OutputArgs).batchSizeOrDefault := htwo
  obtain ⟨merged, h⟩ : ∃ merged, mergeImpl H { output with batchSize := some size } fuel
      depth settings 0 inputs ∅ = .ok (merged, (∅ : MapRuntime ρ)) :=
    mergeImpl_returns hbatch ∅ hfits hmerges hfuel (by omega)
  obtain ⟨hsorted, hperm⟩ := hholds.packetsIn
  obtain ⟨hsorted', hperm'⟩ := (mergeImpl_holds hfits h).2.1.packetsIn
  exact ⟨merged, h, hsorted, hsorted', hperm.trans hperm'.symm⟩

/-- **The batch size makes no difference** but for the places of packets that are written
with the same timestamp: if the merge returns with one batch size, it returns with
another one, and the outputs are the same but for ties. -/
theorem batchSize_irrelevant (hfits : ∀ x ∈ inputs.zipIdx, x.1.Fits settings x.2) (size : ℕ)
    {size' : ℕ} (htwo : 2 ≤ size') {fuel depth : ℕ} {merged : Merged} {runtime : MapRuntime ρ}
    (h : mergeImpl H { output with batchSize := some size } fuel depth settings 0 inputs ∅ =
      .ok (merged, runtime)) : ∃ bound, ∀ fuel' depth', bound < fuel' → bound < depth' →
      ∃ merged', mergeImpl H' { output with batchSize := some size' } fuel' depth' settings 0
          inputs ∅ = .ok (merged', (∅ : MapRuntime ρ)) ∧ SameButTies merged.bytes merged'.bytes := by
  obtain ⟨-, hresult, hmerges⟩ := mergeImpl_holds hfits h
  have hholds : output.Holds merged.bytes (contentsOf ρ output settings 0 inputs) := hresult
  obtain ⟨bound, hbound⟩ := mergeImpl_of_holds (H := H') hfits htwo hholds hmerges
  refine ⟨bound, fun fuel' depth' hfuel hdepth => ?_⟩
  obtain ⟨merged', h', hsorted, hsorted', hsame⟩ := hbound fuel' depth' hfuel hdepth
  obtain ⟨hstamps, hdistinct⟩ := eq_of_sorted_of_perm hsorted hsorted' hsame
  exact ⟨merged', h', hsame, hstamps, hdistinct⟩

/-- **Batches write what one pass writes**, time for time: if the merge of all files in one
pass returns, so does the merge in batches of any size from two on, and the outputs have
the same packets at the same times.  The order of different packets with one timestamp is
open. -/
theorem batches_write_onePass (hfits : ∀ x ∈ inputs.zipIdx, x.1.Fits settings x.2) {size : ℕ}
    (htwo : 2 ≤ size) {fuel : ℕ} {merged : Merged} {runtime : MapRuntime ρ}
    (h : mergeFiles H output fuel settings 0 inputs ∅ = .ok (merged, runtime)) :
    ∃ bound, ∀ fuel' depth', bound < fuel' → bound < depth' →
      ∃ batched, mergeImpl H' { output with batchSize := some size } fuel' depth' settings 0
          inputs ∅ = .ok (batched, (∅ : MapRuntime ρ)) ∧ SamePerTime merged.bytes batched.bytes := by
  obtain ⟨-, hholds, hmerges⟩ := mergeFiles_holds hfits h
  obtain ⟨bound, hbound⟩ := mergeImpl_of_holds (H := H') hfits htwo hholds hmerges
  refine ⟨bound, fun fuel' depth' hfuel hdepth => ?_⟩
  obtain ⟨batched, h', hsorted, hsorted', hsame⟩ := hbound fuel' depth' hfuel hdepth
  exact ⟨batched, h', .of_perm hsorted hsorted' hsame⟩

end BatchSizes

/-! ### Three files in batches of two -/

/-- A packet of one byte. -/
def bytePacket (timestamp : I64) (byte : UInt8) : PacketRecord := ⟨timestamp, 1, [byte], .ethernet⟩

/-- A capture file of packets, with nothing configured. -/
def plainFile (packets : List PacketRecord) : FileInput :=
  ⟨default, (PcapWriter.writeAll true true 65535 .ethernet packets).written⟩

/-- Two files with a packet at the same time, and a third one that is read in between. -/
def tiedFiles : List FileInput :=
  [plainFile [bytePacket (.ofInt 1) 1, bytePacket (.ofInt 5) 2],
    plainFile [bytePacket (.ofInt 5) 3], plainFile [bytePacket (.ofInt 3) 4]]

/-- Settings under which nothing jitters and nothing is rewritten. -/
def plainSettings : Settings := ⟨⟨none, none⟩, 7, false, fun _ => zeroRng, false⟩

/-- Merge files to a nanosecond capture, in batches of this size. -/
def mergePlain (size fuel depth : ℕ) (inputs : List FileInput) :
    Outcome (MergeError × MapRuntime LeastRng) (Merged × MapRuntime LeastRng) :=
  mergeImpl (fun _ => BinaryHeap.sorted HeapEntry.le) ⟨some true, none, some size⟩ fuel depth
    plainSettings 0 inputs ∅

/-- The files of the example pass the conditions of the merge. -/
theorem tiedFiles_fit : ∀ x ∈ tiedFiles.zipIdx, x.1.Fits plainSettings x.2 := by
  have hdefault : ∀ x ∈ tiedFiles.zipIdx, x.1.file = default := by
    intro x hx
    have hmem : x.1 ∈ tiedFiles := List.fst_mem_of_mem_zipIdx hx
    simp only [tiedFiles, List.mem_cons, List.not_mem_nil, or_false] at hmem
    obtain h | h | h := hmem
    all_goals
      rw [h]
      rfl
  have horder : ∀ x ∈ tiedFiles.zipIdx, (x.1.input.timeline plainSettings.args).Pairwise
      fun p q => p.timestamp ≤ q.timestamp := by
    decide +kernel
  have hwritable : ∀ x ∈ tiedFiles.zipIdx, ∀ items ∈ x.1.batches plainSettings x.2, ∀ p ∈ items,
      p.originalLength < 2 ^ 32 ∧ 0 ≤ p.timestamp.val ∧
        p.timestamp.val < 2 ^ 32 * 1000000000 := by
    decide +kernel
  intro x hx
  refine ⟨?_, ?_, horder x hx, fun items hitems p hp => ?_⟩
  · rw [hdefault x hx]
    exact .of_validate (by decide)
  · rw [hdefault x hx]
    rfl
  · obtain ⟨hlength, hlo, hhi⟩ := hwritable x hx items hitems p hp
    exact ⟨hlength, hlo, hhi⟩

/-- The three files, in one pass and in batches of two. -/
theorem batchSize_irrelevant_tiedFiles : ∃ merged runtime bound,
    mergePlain 3 50 1 tiedFiles = .ok (merged, runtime) ∧
    ∀ fuel depth, bound < fuel → bound < depth → ∃ merged', mergePlain 2 fuel depth tiedFiles =
      .ok (merged', ∅) ∧ SameButTies merged.bytes merged'.bytes := by
  have hreturns : (mergePlain 3 50 1 tiedFiles).toOption.isSome := by decide +kernel
  obtain ⟨⟨merged, runtime⟩, hmerge⟩ := Option.isSome_iff_exists.1 hreturns
  have hmerge := Outcome.toOption_eq_some.1 hmerge
  obtain ⟨bound, hbound⟩ := @batchSize_irrelevant LeastRng _ _
    (fun _ => BinaryHeap.sorted HeapEntry.le) ⟨some true, none, none⟩ _ _ tiedFiles_fit 3 2 (by decide)
    _ _ _ _ hmerge
  exact ⟨merged, runtime, bound, hmerge, hbound⟩

/-- Merge files to a nanosecond capture, in one pass. -/
def mergePlainAtOnce (fuel : ℕ) (inputs : List FileInput) :
    Outcome (MergeError × MapRuntime LeastRng) (Merged × MapRuntime LeastRng) :=
  mergeFiles (fun _ => BinaryHeap.sorted HeapEntry.le) ⟨some true, none, none⟩ fuel plainSettings 0
    inputs ∅

/-- The three files at once, and in batches of two. -/
theorem batches_write_onePass_tiedFiles : ∃ merged runtime bound,
    mergePlainAtOnce 50 tiedFiles = .ok (merged, runtime) ∧
    ∀ fuel depth, bound < fuel → bound < depth → ∃ batched, mergePlain 2 fuel depth tiedFiles =
      .ok (batched, ∅) ∧ SamePerTime merged.bytes batched.bytes := by
  have hreturns : (mergePlainAtOnce 50 tiedFiles).toOption.isSome := by decide +kernel
  obtain ⟨⟨merged, runtime⟩, hmerge⟩ := Option.isSome_iff_exists.1 hreturns
  have hmerge := Outcome.toOption_eq_some.1 hmerge
  obtain ⟨bound, hbound⟩ := @batches_write_onePass LeastRng _ _
    (fun _ => BinaryHeap.sorted HeapEntry.le) ⟨some true, none, none⟩ _ _ tiedFiles_fit 2
    (by decide) _ _ _ hmerge
  exact ⟨merged, runtime, bound, hmerge, hbound⟩

/-- **A tie is broken one way in one pass and the other way in batches**: the packet of
the second file is emitted before that of the first is read. -/
theorem batches_swap_tie :
    (mergePlainAtOnce 50 tiedFiles).toOption.map (fun r => (packetsIn r.1.bytes).map seen) =
      some [(.ofInt 1, [1]), (.ofInt 3, [4]), (.ofInt 5, [2]), (.ofInt 5, [3])] ∧
    (mergePlain 2 50 3 tiedFiles).toOption.map (fun r => (packetsIn r.1.bytes).map seen) =
      some [(.ofInt 1, [1]), (.ofInt 3, [4]), (.ofInt 5, [3]), (.ofInt 5, [2])] := by
  decide +kernel

end Mergecap
end Maja
