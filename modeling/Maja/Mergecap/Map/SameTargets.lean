/-
# Two ways of splitting packets into files

`MapRuntime` of `tools/maja-mergecap/src/map.rs` promises of `alloc_scope = global` that
the mapping depends on the merged packets and the seed, and not on how the packets were
split into files.  The packets are mapped when they are read, and a file is read ahead
of the packets that are merged.  So the promise is kept by the runs in which every read
brings the new ids that are next by their timestamps (`made_perm_of_inTurn`), and not by
all of them.

The runtime goes from one merge of `merge_impl` to the next, so batches of files make no
difference to what is said of the reads (`mergeImpl_shared`).
-/

import Maja.Mergecap.Map.Replayed
import Maja.Mergecap.Map.SharedMerge
import Maja.Mergecap.MergeImpl

namespace Maja
namespace Mergecap

open Lib Capture Packet

/-! ### Timelines -/

/-- The packets of files on the timeline. -/
def timelines (args : MergeArgs) (inputs : List FileInput) : List PacketRecord :=
  inputs.flatMap fun f => f.input.timeline args

/-- Every batch of a file has a copy for each of its groups. -/
theorem groupBatch_of_mem {args : MergeArgs} {rng : JitterRng} {input : Input}
    {items : List PacketRecord} (h : items ∈ input.batches args rng) :
    GroupBatch input.file.parallel items := by
  obtain ⟨packet, -, rfl⟩ := List.mem_map.1 h
  have hbytes : ∀ item ∈ (input.source rng).batch packet,
      item.data = packet.data ∧ item.linkType = packet.linkType := fun item hitem => by
    obtain ⟨offset, -, rfl⟩ := List.mem_map.1 hitem
    exact ⟨rfl, rfl⟩
  refine ⟨?_, fun origin horigin x hx => ?_⟩
  · rw [Source.batch, List.length_map, length_jitter]
    rfl
  · obtain ⟨hdata, hlink⟩ := hbytes x.1 (List.fst_mem_of_mem_zipIdx hx)
    obtain ⟨hdata', hlink'⟩ := hbytes origin (List.mem_of_mem_head? horigin)
    exact ⟨hdata.trans hdata'.symm, hlink.trans hlink'.symm⟩

/-! ### Opening -/

/-- A valid file that shares one map, and has no other map. -/
structure SharesMap (flow : FlowMap) (groups : ℕ) (file : InputFile) : Prop where
  flowMap : file.flowMap = some flow
  direct : file.ipMap = [] ∧ file.srcIpMap = [] ∧ file.dstIpMap = []
  parallel : file.parallel = groups
  timelineOk : file.TimelineOk

/-- What is known of the reader of a file that shares a map. -/
structure OpenedShared {ρ : Type} (settings : Settings) (flow : FlowMap) (cfg : FlowCfg)
    (input : Input) (file : OpenFile ρ) : Prop where
  reads : ∃ seed, file.reader = input.reader settings seed
  shared : file.shared = some flow
  plain : Plain settings cfg file.rewriter

section Opening

variable {ρ : Type} [StdRng ρ] {settings : Settings} {flow : FlowMap} {cfg : FlowCfg} {groups : ℕ}
  {runtime runtime' : MapRuntime ρ} {a : Allocation ρ}

/-- A file that opens is given the allocation that the runtime has. -/
theorem globalAllocation_borrowable (hborrow : Borrowable settings cfg flow groups runtime a) :
    ∃ runtime', MapRuntime.globalAllocation flow cfg settings.seed groups runtime =
        .ok (a, runtime') ∧ runtime'.lookup flow = some ⟨a, groups⟩ := by
  rw [MapRuntime.globalAllocation]
  rw [Borrowable] at hborrow
  cases hlookup : runtime.lookup flow with
  | none =>
    rw [hlookup] at hborrow
    cases hborrow
    exact ⟨_, rfl, AList.lookup_insert _⟩
  | some global =>
    rw [hlookup] at hborrow
    obtain rfl : global = ⟨a, groups⟩ := hborrow
    exact ⟨runtime, if_neg fun h => h rfl, hlookup⟩

/-- The flow map of a file that shares a map. -/
theorem newFlow_shared (hscope : flow.allocScope = .global)
    (hcompile : FlowCfg.compile flow = .ok cfg) {file : InputFile}
    (hflow : file.flowMap = some flow) (hborrow : Borrowable settings cfg flow groups runtime a)
    (fileSeed : UInt64) : ∃ s runtime',
      MapRewriter.newFlow file fileSeed settings.seed groups runtime = .ok (some s, runtime') ∧
      s.cfg = cfg ∧ s.hashSeed = settings.seed ∧ runtime'.lookup flow = some ⟨a, groups⟩ := by
  obtain ⟨runtime', hglobal, hlookup⟩ := globalAllocation_borrowable hborrow
  refine ⟨.new cfg settings.seed fileSeed groups flow.sharingOrDefault (some a), runtime', ?_, rfl,
    rfl, hlookup⟩
  simp only [MapRewriter.newFlow, hflow, hcompile, orCompileError, MapRewriter.allocationOf, hscope,
    Prog.bind_apply, Prog.pure_apply, Outcome.ok_bind, hglobal]

/-- **Opening a file that shares a map**: it borrows the one allocation. -/
theorem openFile_shared (hscope : flow.allocScope = .global)
    (hcompile : FlowCfg.compile flow = .ok cfg) {input : Input}
    (hshares : SharesMap flow groups input.file)
    (hborrow : Borrowable settings cfg flow groups runtime a) {index : ℕ} {file : OpenFile ρ}
    (h : openFile settings index input runtime = .ok (file, runtime')) :
    OpenedShared settings flow cfg input file ∧ runtime'.lookup flow = some ⟨a, groups⟩ := by
  obtain ⟨s, runtime₁, hflow, hcfg, hseed, hlookup⟩ := newFlow_shared hscope hcompile
    hshares.flowMap hborrow (settings.seed + .ofNat index)
  have hdirect : (MapRewriter.newDirect input.file (settings.seed + .ofNat index) :
      Prog (MapRuntime ρ) OpenError _) runtime₁ = .ok (none, runtime₁) := by
    rw [MapRewriter.newDirect, if_pos hshares.direct]
    rfl
  have hshared : input.file.globalMap = some flow := by
    simp [InputFile.globalMap, hshares.flowMap, hscope]
  simp only [openFile, MapRewriter.new, hshares.parallel, Prog.bind_apply, hflow, Outcome.ok_bind,
    hdirect, Prog.pure_apply] at h
  cases h
  exact ⟨⟨⟨_, rfl⟩, hshared, rfl, rfl, s, rfl, hcfg, hseed⟩, hlookup⟩

/-- The reader of a file that shares a map. -/
theorem openReader_shared (hscope : flow.allocScope = .global)
    (hcompile : FlowCfg.compile flow = .ok cfg) {f : FileInput}
    (hshares : SharesMap flow groups f.file)
    (hborrow : Borrowable settings cfg flow groups runtime a) {index : ℕ}
    {reader : LinkType × OpenFile ρ}
    (h : openReader settings index f runtime = .ok (reader, runtime')) :
    OpenedShared settings flow cfg f.input reader.2 ∧ runtime'.lookup flow = some ⟨a, groups⟩ := by
  obtain ⟨⟨linkType, input⟩, hsniff, h⟩ := Outcome.bind_eq_ok.1 h
  obtain ⟨⟨file, runtime₁⟩, hopen, h⟩ := Outcome.bind_eq_ok.1 h
  cases h
  obtain rfl := FileInput.input_of_sniff (Outcome.mapErr_eq_ok.1 hsniff)
  exact openFile_shared hscope hcompile (f.input_file ▸ hshares) hborrow
    (Outcome.mapErr_eq_ok.1 hopen)

/-- **The readers of files that share a map.** -/
theorem openReaders_shared (hscope : flow.allocScope = .global)
    (hcompile : FlowCfg.compile flow = .ok cfg) {inputs : List FileInput}
    (hshares : ∀ f ∈ inputs, SharesMap flow groups f.file)
    (hborrow : Borrowable settings cfg flow groups runtime a) {index : ℕ}
    {readers : List (LinkType × OpenFile ρ)}
    (h : openReaders settings index inputs runtime = .ok (readers, runtime')) :
    List.Forall₂ (fun f reader => OpenedShared settings flow cfg f.input reader.2)
        inputs readers ∧
      Borrowable settings cfg flow groups runtime' a ∧
      (readers ≠ [] → (runtime'.lookup flow).isSome) := by
  induction inputs generalizing runtime index readers with
  | nil =>
    cases h
    exact ⟨.nil, hborrow, fun h => absurd rfl h⟩
  | cons f inputs ih =>
    obtain ⟨⟨reader, runtime₁⟩, hreader, h⟩ := Outcome.bind_eq_ok.1 h
    obtain ⟨⟨rest, runtime₂⟩, hrest, h⟩ := Outcome.bind_eq_ok.1 h
    cases h
    obtain ⟨hopened, hlookup⟩ := openReader_shared hscope hcompile
      (hshares f List.mem_cons_self) hborrow hreader
    have hborrow₁ : Borrowable settings cfg flow groups runtime₁ a := by
      rw [Borrowable, hlookup]
      rfl
    obtain ⟨hall, hborrow₂, hsome⟩ := ih (fun f hf => hshares f (List.mem_cons_of_mem _ hf))
      hborrow₁ hrest
    refine ⟨.cons hopened hall, hborrow₂, fun _ => ?_⟩
    cases rest with
    | nil =>
      cases hall
      cases hrest
      rw [hlookup]
      rfl
    | cons reader' rest => exact hsome (List.cons_ne_nil _ _)

/-- A new allocation knows no id. -/
theorem known_sharedStart (k : SlotId) :
    (sharedStart ρ settings flow cfg groups).state.known k = none := by
  have hempty : ∀ sharing, ∀ slot ∈ (Allocation.new cfg settings.seed sharing groups :
      Allocation ρ).slots, slot.table = ∅ := by
    intro sharing slot hslot
    cases sharing with
    | shared =>
      rw [List.mem_singleton.1 hslot]
      rfl
    | perGroup =>
      obtain ⟨group, -, rfl⟩ := List.mem_map.1 hslot
      rfl
  rw [Allocation.state]
  dsimp only
  cases hslot : (sharedStart ρ settings flow cfg groups).slots[k.1]? with
  | none => rfl
  | some slot =>
    rw [Option.bind_some, hempty _ slot (List.mem_of_getElem? hslot)]
    exact AList.lookup_empty _

end Opening

/-! ### One run -/

/-- One merge goes on with an allocation: all packets are read, and each is made into
what the tables say that have answered the ids of the packets as they were read. -/
structure Goes {ρ : Type} [StdRng ρ] (settings : Settings) (cfg : FlowCfg) (groups : ℕ)
    (a a' : Allocation ρ) (inputs : List FileInput) (written : List Written)
    (read : List PacketRecord) : Prop where
  reads : read.Perm (timelines settings.args inputs)
  answers : a.Answers cfg a' (read.flatMap (idsOf cfg a groups))
  made : (written.map Written.made).Perm (read.flatMap (madeOf settings cfg a' groups))

section Runs

variable {ρ : Type} [StdRng ρ] {H : ∀ n, BinaryHeap (HeapEntry n Written) HeapEntry.le}
  {output : OutputArgs} {settings : Settings} {flow : FlowMap} {cfg : FlowCfg} {groups fuel : ℕ}
  {inputs : List FileInput} {runtime runtime' : MapRuntime ρ} {a : Allocation ρ}

/-- Nothing is merged. -/
theorem Goes.nil (a : Allocation ρ) : Goes settings cfg groups a a [] [] [] :=
  ⟨.nil, ⟨rfl, rfl, rfl⟩, .nil⟩

/-- One merge after another. -/
theorem Goes.append {a₁ a₂ : Allocation ρ} {inputs' : List FileInput}
    {written written' : List Written} {read read' : List PacketRecord}
    (h : Goes settings cfg groups a a₁ inputs written read)
    (h' : Goes settings cfg groups a₁ a₂ inputs' written' read') :
    Goes settings cfg groups a a₂ (inputs ++ inputs') (written ++ written') (read ++ read') where
  reads := by
    rw [timelines, List.flatMap_append]
    exact h.reads.append h'.reads
  answers := by
    have hids : read'.flatMap (idsOf cfg a₁ groups) = read'.flatMap (idsOf cfg a groups) :=
      List.flatMap_congr fun origin _ => List.flatMap_congr fun group _ => by
        rw [h.answers.slotIndex_eq]
    have hanswers := h'.answers
    rw [hids] at hanswers
    rw [List.flatMap_append]
    exact h.answers.trans hanswers
  made := by
    have hold : read.flatMap (madeOf settings cfg a₂ groups) =
        read.flatMap (madeOf settings cfg a₁ groups) :=
      List.flatMap_congr fun origin horigin => madeOf_eq h.answers h'.answers horigin
    rw [List.map_append, List.flatMap_append, hold]
    exact h.made.append h'.made

/-- **A merge of some of the inputs** leaves the shared allocation ready for the next
one, and what it writes shows the targets of the packets that it read. -/
theorem mergeFiles_shared (hscope : flow.allocScope = .global)
    (hcompile : FlowCfg.compile flow = .ok cfg) (hrandom : cfg.NoRandom) (hgroups : 0 < groups)
    (hshares : ∀ f ∈ inputs, SharesMap flow groups f.file)
    (horder : ∀ f ∈ inputs,
      (f.input.timeline settings.args).Pairwise fun p q => p.timestamp < q.timestamp)
    (hborrow : Borrowable settings cfg flow groups runtime a) {index : ℕ} {merged : Merged}
    (h : mergeFiles H output fuel settings index inputs runtime = .ok (merged, runtime')) :
    ∃ a', Borrowable settings cfg flow groups runtime' a' ∧
      Goes settings cfg groups a a' inputs merged.written merged.read := by
  obtain ⟨readers, runtime₁, s, w, hreaders, hmerge, -, hwritten, hread, rfl⟩ := mergeFiles_eq_ok h
  obtain ⟨hopened, hborrow₁, hsome⟩ := openReaders_shared hscope hcompile hshares hborrow hreaders
  let files := readers.map Prod.snd
  have hlength : files.length = inputs.length := by rw [hopened.length_eq, List.length_map]
  have hfile : ∀ index : Fin files.length, ∃ batches,
      Items PacketReader.next files[index].reader batches ∧
      (∀ items ∈ batches, GroupBatch groups items) ∧
      batches.map List.head? =
        ((inputs.get ⟨index.val, hlength ▸ index.isLt⟩).input.timeline settings.args).map some := by
    intro index
    have hlt : index.val < inputs.length := hlength ▸ index.isLt
    have hlt' : index.val < readers.length := hopened.length_eq ▸ hlt
    have hshared := hshares _ (List.get_mem inputs ⟨index.val, hlt⟩)
    obtain ⟨seed, hseed⟩ := ((List.forall₂_iff_get.1 hopened).2 index hlt hlt').reads
    have hreader : files[index].reader =
        (inputs.get ⟨index.val, hlt⟩).input.reader settings seed := by
      simpa [files] using hseed
    rw [← FileInput.input_file] at hshared
    rw [hreader]
    refine ⟨_, items_batches settings seed hshared.timelineOk, fun items hbatch => ?_,
      heads_batches hshared.timelineOk⟩
    rw [← hshared.parallel]
    exact groupBatch_of_mem hbatch
  choose batches hitems hbatches hheads using hfile
  have hkept : KeptReads settings cfg flow a groups ⟨files, runtime₁, []⟩ 0 := by
    refine ⟨fun file hmem => ?_, fun hne => hsome fun hnil => hne (by simp [files, hnil]), a,
      hborrow₁, ⟨rfl, rfl, rfl⟩, rfl⟩
    obtain ⟨reader, hreader, rfl⟩ := List.mem_map.1 hmem
    obtain ⟨f, -, hf⟩ := exists_of_forall₂ hopened hreader
    exact ⟨hf.shared, hf.plain⟩
  obtain ⟨hperm, a', hborrow', hanswers, hmade⟩ := mergeCalls_shared (w := ⟨files, runtime₁, []⟩)
    (FlowCfg.oneNetPools_of_compile hcompile) hrandom hgroups hkept hitems hbatches hheads
    (fun index => horder _ (List.get_mem _ _)) hmerge
  rw [← hread] at hperm hanswers hmade
  rw [← hwritten] at hmade
  refine ⟨a', hborrow', ?_, hanswers, hmade⟩
  rwa [timelines, ← flatMap_finRange hlength]

/-- **The batches**, one after the other. -/
theorem mergeBatchFiles_shared {merge : ℕ → List FileInput → Prog (MapRuntime ρ) MergeError Merged}
    (hmerge : ∀ index inputs' (runtime : MapRuntime ρ) runtime' a merged,
      inputs'.length ≤ output.batchSizeOrDefault → inputs' ⊆ inputs →
      Borrowable settings cfg flow groups runtime a →
      merge index inputs' runtime = .ok (merged, runtime') →
      ∃ a', Borrowable settings cfg flow groups runtime' a' ∧
        Goes settings cfg groups a a' inputs' merged.written merged.read)
    (hsize : 0 < output.batchSizeOrDefault)
    (hborrow : Borrowable settings cfg flow groups runtime a) {index : ℕ} {batches : List Merged}
    (h : mergeBatchFiles output merge index (chunks output.batchSizeOrDefault inputs) runtime =
      .ok (batches, runtime')) :
    ∃ a', Goes settings cfg groups a a' inputs (batches.flatMap Merged.written)
      (batches.flatMap Merged.read) := by
  refine chunks_induction (motive := fun inputs' cs => ∀ index batches (runtime : MapRuntime ρ) a,
    inputs' ⊆ inputs → Borrowable settings cfg flow groups runtime a →
    mergeBatchFiles output merge index cs runtime = .ok (batches, runtime') →
    ∃ a', Goes settings cfg groups a a' inputs' (batches.flatMap Merged.written)
      (batches.flatMap Merged.read)) hsize ?_ ?_ inputs index batches runtime a
    (List.Subset.refl _) hborrow h
  · intro index batches runtime a _ _ h
    cases h
    exact ⟨a, .nil a⟩
  · intro inputs' rest _ ih index batches runtime a hsub hborrow h
    obtain ⟨⟨merged, runtime₁⟩, hfirst, h⟩ := Outcome.bind_eq_ok.1 h
    obtain ⟨⟨batches, runtime₂⟩, hrest, h⟩ := Outcome.bind_eq_ok.1 h
    cases h
    obtain ⟨a₁, hborrow₁, hgoes⟩ := hmerge _ _ _ _ a _ (List.length_take_le _ _)
      (fun f hf => hsub (List.mem_of_mem_take hf)) hborrow hfirst
    obtain ⟨a₂, hgoes'⟩ := ih _ _ _ a₁ (fun f hf => hsub (List.mem_of_mem_drop hf)) hborrow₁ hrest
    have happend := hgoes.append hgoes'
    rw [List.take_append_drop] at happend
    exact ⟨a₂, happend⟩

/-- **One run of `merge_impl`**, in one pass or in batches. -/
theorem mergeImpl_shared (hscope : flow.allocScope = .global)
    (hcompile : FlowCfg.compile flow = .ok cfg) (hrandom : cfg.NoRandom) (hgroups : 0 < groups)
    (hshares : ∀ f ∈ inputs, SharesMap flow groups f.file)
    (horder : ∀ f ∈ inputs,
      (f.input.timeline settings.args).Pairwise fun p q => p.timestamp < q.timestamp)
    {depth : ℕ} {merged : Merged}
    (h : mergeImpl H output fuel depth settings 0 inputs ∅ = .ok (merged, runtime')) :
    ∃ a', Goes settings cfg groups (sharedStart ρ settings flow cfg groups) a' inputs
      merged.written merged.read := by
  have hborrow : Borrowable settings cfg flow groups (∅ : MapRuntime ρ)
      (sharedStart ρ settings flow cfg groups) := by
    rw [Borrowable, AList.lookup_empty]
    rfl
  cases depth with
  | zero => cases h
  | succ depth =>
    rw [mergeImpl] at h
    split_ifs at h with hsize htwo
    · obtain ⟨a', -, hgoes⟩ :=
        mergeFiles_shared hscope hcompile hrandom hgroups hshares horder hborrow h
      exact ⟨a', hgoes⟩
    · cases h
    · obtain ⟨⟨batches, runtime₁⟩, hbatches, h⟩ := Outcome.bind_eq_ok.1 h
      obtain ⟨⟨last, runtime₂⟩, -, h⟩ := Outcome.bind_eq_ok.1 h
      cases h
      refine mergeBatchFiles_shared ?_ (by omega) hborrow hbatches
      -- a batch is merged in one pass
      intro index inputs' runtime runtime' a merged hlength hsub hborrow h
      cases depth with
      | zero => cases h
      | succ depth =>
        rw [mergeImpl, if_pos hlength] at h
        exact mergeFiles_shared hscope hcompile hrandom hgroups
          (fun f hf => hshares f (hsub hf)) (fun f hf => horder f (hsub hf)) hborrow h

end Runs

/-! ### Two runs -/

section TwoRuns

variable {ρ : Type} [StdRng ρ] {H H' : ∀ n, BinaryHeap (HeapEntry n Written) HeapEntry.le}
  {output output' : OutputArgs} {settings : Settings} {flow : FlowMap} {cfg : FlowCfg}
  {groups fuel fuel' depth depth' : ℕ} {inputs inputs' : List FileInput} {merged merged' : Merged}
  {runtime runtime' : MapRuntime ρ}

/-- The reads of a run are in turn: each brings to every generator and every sequence
the new ids that are next by the timestamps, of the packets that are not read yet. -/
def ReadsInTurn (ρ : Type) [StdRng ρ] (settings : Settings) (flow : FlowMap) (cfg : FlowCfg)
    (groups : ℕ) (read : List PacketRecord) : Prop :=
  (FlowCfg.service (ρ := ρ) cfg).InTurn (idsOf cfg (sharedStart ρ settings flow cfg groups) groups)
    PacketRecord.timestamp read

/-- Tables that know the same make the same of a packet. -/
theorem madeOf_congr {start a a' : Allocation ρ} {ks ks' : List SlotId}
    (h : start.Answers cfg a ks) (h' : start.Answers cfg a' ks')
    (hknown : a.state.known = a'.state.known) (origin : PacketRecord) :
    madeOf settings cfg a groups origin = madeOf settings cfg a' groups origin := by
  refine List.map_congr_left fun group _ => ?_
  rw [targetsBy, targetsBy, hknown, h.slotIndex_eq, h'.slotIndex_eq]

/-- **Two ways of splitting the same packets into files give every packet the same
targets**, when the reads of both runs are in turn. -/
theorem made_perm_of_inTurn (hscope : flow.allocScope = .global)
    (hcompile : FlowCfg.compile flow = .ok cfg) (hpolicies : .random ∉ poolPolicies flow)
    (hgroups : 0 < groups)
    (hshares : ∀ f ∈ inputs ++ inputs', SharesMap flow groups f.file)
    (horder : ∀ f ∈ inputs ++ inputs',
      (f.input.timeline settings.args).Pairwise fun p q => p.timestamp < q.timestamp)
    (hsame : (timelines settings.args inputs).Perm (timelines settings.args inputs'))
    (hdistinct : ((timelines settings.args inputs).map PacketRecord.timestamp).Nodup)
    (h : mergeImpl H output fuel depth settings 0 inputs ∅ = .ok (merged, runtime))
    (h' : mergeImpl H' output' fuel' depth' settings 0 inputs' ∅ = .ok (merged', runtime'))
    (hturn : ReadsInTurn ρ settings flow cfg groups merged.read)
    (hturn' : ReadsInTurn ρ settings flow cfg groups merged'.read) :
    (merged.written.map Written.made).Perm (merged'.written.map Written.made) := by
  have hrandom := FlowCfg.noRandom_of_compile hcompile hpolicies
  obtain ⟨a, hgoes⟩ := mergeImpl_shared hscope hcompile hrandom hgroups
    (fun f hmem => hshares f (List.mem_append_left _ hmem))
    (fun f hmem => horder f (List.mem_append_left _ hmem)) h
  obtain ⟨a', hgoes'⟩ := mergeImpl_shared hscope hcompile hrandom hgroups
    (fun f hmem => hshares f (List.mem_append_right _ hmem))
    (fun f hmem => horder f (List.mem_append_right _ hmem)) h'
  have hread : merged.read.Perm merged'.read :=
    hgoes.reads.trans (hsame.trans hgoes'.reads.symm)
  have hclock : (merged.read.map PacketRecord.timestamp).Nodup :=
    (hgoes.reads.map PacketRecord.timestamp).nodup_iff.2 hdistinct
  have hknown : a.state.known = a'.state.known := by
    rw [hgoes.answers.state, hgoes'.answers.state]
    exact Service.known_eq_of_inTurn known_sharedStart hread hclock hturn hturn'
  have htables : merged.read.flatMap (madeOf settings cfg a groups) =
      merged.read.flatMap (madeOf settings cfg a' groups) :=
    List.flatMap_congr fun o _ => madeOf_congr hgoes.answers hgoes'.answers hknown o
  have hmade := hgoes.made
  rw [htables] at hmade
  exact hmade.trans ((hread.flatMap_right _).trans hgoes'.made.symm)

end TwoRuns

/-! ### One file or two -/

/-- The map of two hosts with one allocation for all files. -/
def globalHosts : FlowMap := { AllocSlot.twoHosts with allocScope := .global }

/-- The map of the example compiles. -/
theorem globalHosts_compile : FlowCfg.compile globalHosts = .ok AllocSlot.twoHostsCfg := by
  decide +kernel

/-- A raw IPv4 packet with a UDP header, from a host of 192.168.0.0/24. -/
def udpFrom (timestamp : I64) (host : UInt8) : PacketRecord :=
  ⟨timestamp, 28, [0x45, 0, 0, 28, 0, 0, 0, 0, 64, 17, 0, 0, 192, 168, 0, host,
    8, 8, 8, 8, 0, 53, 0, 53, 0, 8, 0, 0], .ipv4⟩

def early : PacketRecord := udpFrom (.ofInt 1) 2

def late : PacketRecord := udpFrom (.ofInt 2) 1

/-- A file of these packets that shares `globalHosts`. -/
def hostsFile (packets : List PacketRecord) : FileInput :=
  ⟨{ (default : InputFile) with flowMap := some globalHosts },
    (PcapWriter.writeAll true true 65535 .ipv4 packets).written⟩

/-- Settings under which nothing jitters and no checksum is fixed. -/
def hostsSettings : Settings := ⟨⟨none, none⟩, 7, false, fun _ => zeroRng, false⟩

/-- Merge files on a heap that takes the least entry first. -/
def mergeHosts (inputs : List FileInput) :
    Outcome (MergeError × MapRuntime LeastRng) (Merged × MapRuntime LeastRng) :=
  mergeImpl (fun _ => BinaryHeap.sorted HeapEntry.le) ⟨some true, none, none⟩ 50 1 hostsSettings 0
    inputs ∅

/-- A file of the example shares the allocation of its map. -/
theorem hostsFile_shares (packets : List PacketRecord) :
    SharesMap globalHosts 1 (hostsFile packets).file := by
  refine ⟨rfl, ⟨rfl, rfl, rfl⟩, rfl, .of_validate ?_⟩
  show InputFile.validate { (default : InputFile) with flowMap := some globalHosts } = .ok ()
  decide

/-- Every file of the example does. -/
theorem hostsFiles_share (files : List (List PacketRecord)) {f : FileInput}
    (h : f ∈ files.map hostsFile) : SharesMap globalHosts 1 f.file := by
  obtain ⟨packets, -, rfl⟩ := List.mem_map.1 h
  exact hostsFile_shares packets

/-- Two packets in one file, or in two files whose packets are read in order. -/
theorem made_perm_of_inTurn_twoHosts : ∃ merged merged' runtime runtime',
    mergeHosts [hostsFile [early, late]] = .ok (merged, runtime) ∧
    mergeHosts [hostsFile [early], hostsFile [late]] = .ok (merged', runtime') ∧
    (merged.written.map Written.made).Perm (merged'.written.map Written.made) := by
  have hreturns : (mergeHosts [hostsFile [early, late]]).toOption.map (Merged.read ∘ Prod.fst) =
        some [early, late] ∧
      (mergeHosts [hostsFile [early], hostsFile [late]]).toOption.map (Merged.read ∘ Prod.fst) =
        some [early, late] := by
    decide +kernel
  obtain ⟨⟨⟨merged, runtime⟩, hmerge, hread⟩, ⟨⟨merged', runtime'⟩, hmerge', hread'⟩⟩ :=
    And.imp Option.map_eq_some_iff.1 Option.map_eq_some_iff.1 hreturns
  have hturn : ReadsInTurn LeastRng hostsSettings globalHosts AllocSlot.twoHostsCfg 1
      [early, late] := Service.inTurn_of_pairwise (by decide) (by decide)
  have hread : merged.read = [early, late] := hread
  have hread' : merged'.read = [early, late] := hread'
  refine ⟨merged, merged', runtime, runtime', Outcome.toOption_eq_some.1 hmerge,
    Outcome.toOption_eq_some.1 hmerge', ?_⟩
  exact made_perm_of_inTurn rfl globalHosts_compile (by decide) Nat.one_pos
    (fun _ hmem => hostsFiles_share [[early, late], [early], [late]] hmem)
    (by decide +kernel) (by decide +kernel) (by decide +kernel)
    (Outcome.toOption_eq_some.1 hmerge) (Outcome.toOption_eq_some.1 hmerge')
    (by rw [hread]; exact hturn) (by rw [hread']; exact hturn)

/-- **One file or two makes a difference**: the later packet is in the first file, so
it is read first and takes the first address. -/
theorem splitting_changes_targets : ∃ merged merged' runtime runtime',
    FlowCfg.compile globalHosts = .ok AllocSlot.twoHostsCfg ∧
    poolPolicies globalHosts = [.unique] ∧ globalHosts.allocScope = .global ∧
    (∀ f ∈ [hostsFile [early, late], hostsFile [late], hostsFile [early]],
      SharesMap globalHosts 1 f.file ∧
      (f.input.timeline hostsSettings.args).Pairwise fun p q => p.timestamp < q.timestamp) ∧
    (timelines hostsSettings.args [hostsFile [early, late]]).Perm
      (timelines hostsSettings.args [hostsFile [late], hostsFile [early]]) ∧
    ((timelines hostsSettings.args [hostsFile [early, late]]).map PacketRecord.timestamp).Nodup ∧
    mergeHosts [hostsFile [early, late]] = .ok (merged, runtime) ∧
    mergeHosts [hostsFile [late], hostsFile [early]] = .ok (merged', runtime') ∧
    ¬(merged.written.map Written.made).Perm (merged'.written.map Written.made) := by
  have hdiffer : (mergeHosts [hostsFile [early, late]]).toOption.any fun out =>
      (mergeHosts [hostsFile [late], hostsFile [early]]).toOption.any fun out' =>
        !decide ((out.1.written.map Written.made).Perm (out'.1.written.map Written.made)) := by
    decide +kernel
  obtain ⟨⟨merged, runtime⟩, hmerge, hdiffer⟩ := (Option.any_eq_true _ _).1 hdiffer
  obtain ⟨⟨merged', runtime'⟩, hmerge', hdiffer⟩ := (Option.any_eq_true _ _).1 hdiffer
  have hpairwise : ∀ f ∈ [hostsFile [early, late], hostsFile [late], hostsFile [early]],
      (f.input.timeline hostsSettings.args).Pairwise fun p q => p.timestamp < q.timestamp := by
    decide +kernel
  refine ⟨merged, merged', runtime, runtime', globalHosts_compile, rfl, rfl, fun f hmem =>
    ⟨hostsFiles_share [[early, late], [late], [early]] hmem, hpairwise f hmem⟩,
    by decide +kernel, by decide +kernel, Outcome.toOption_eq_some.1 hmerge,
    Outcome.toOption_eq_some.1 hmerge', by simpa using hdiffer⟩

end Mergecap
end Maja
