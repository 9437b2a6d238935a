/-
# One pass over files that share nothing

`merge_impl` of as many files as are merged in one pass, where no file has a map of
`alloc_scope = global`.  What the merge gets of a file depends on the file, the settings
and its place in the whole merge (`FileInput.made`).  The output holds all of that, in
the order of the timestamps (`mergeFiles_own`).
-/

import Maja.Mergecap.Map.OwnMaps
import Maja.Mergecap.MergeImpl

namespace Maja
namespace Mergecap

open Lib Capture

section Files

variable (ρ : Type) [StdRng ρ]

/-- The batches of the file at a place of the merge, on the merged timeline. -/
def FileInput.batches (settings : Settings) (index : ℕ) (input : FileInput) :
    List (List PacketRecord) :=
  input.input.batches settings.args (settings.jitterRng (settings.seed + .ofNat index))

/-- What the merge gets of the file at a place of it, when the file shares nothing. -/
def FileInput.made (settings : Settings) (index : ℕ) (input : FileInput) : List Written :=
  match openFile settings index input.input (∅ : MapRuntime ρ) with
  | .ok (file, _) =>
    (rewriteBatches settings.checks file.rewriter (input.batches settings index)).flatten
  | .err _ => []
  | .panic => []
  | .outOfFuel => []

end Files

/-- What a merge in batches asks of a file: a valid timeline, no map that it shares, and
packets that are in order on the timeline, at times that a file can hold. -/
structure FileInput.Fits (settings : Settings) (index : ℕ) (input : FileInput) : Prop where
  timelineOk : input.file.TimelineOk
  ownMaps : input.file.globalMap = none
  order : (input.input.timeline settings.args).Pairwise fun p q => p.timestamp ≤ q.timestamp
  writable : ∀ items ∈ input.batches settings index, ∀ p ∈ items, PcapWriter.Writable p

/-! ### Batches in order -/

/-- A delay does not make a packet earlier. -/
theorem le_saturatingAdd (t : I64) {offset : I64} (h : 0 ≤ offset.val) :
    t ≤ t.saturatingAdd offset := by
  have hlo := t.property.1
  have hhi := t.property.2
  show t.val ≤ max (-2 ^ 63) (min (t.val + offset.val) (2 ^ 63 - 1))
  omega

/-- A batch starts at the timestamp of its packet. -/
theorem batchMin_batch {src : Source} (hvalid : src.file.TimelineOk) (packet : PacketRecord) :
    batchMin (stamped (src.batch packet)) = packet.timestamp := by
  have hmem : packet ∈ src.batch packet := List.mem_of_mem_head? (head?_batch hvalid packet)
  have hne : stamped (src.batch packet) ≠ [] :=
    List.ne_nil_of_mem (List.mem_map_of_mem hmem)
  refine le_antisymm (batchMin_le (p := (packet.timestamp, packet)) (List.mem_map.2 ⟨_, hmem, rfl⟩))
    ?_
  have hmin := List.min?_mem (min_eq_some hne)
  obtain ⟨x, hx, hxmin⟩ := List.mem_map.1 hmin
  obtain ⟨p, hp, rfl⟩ := List.mem_map.1 hx
  obtain ⟨offset, hoffset, rfl⟩ := List.mem_map.1 hp
  rw [← hxmin]
  exact le_saturatingAdd _ ((jitter_facts hvalid).2 offset hoffset)

/-- The batches of a file whose timeline is in order. -/
theorem FileInput.Fits.batchesInOrder {settings : Settings} {index : ℕ} {input : FileInput}
    (h : input.Fits settings index) : BatchesInOrder (input.batches settings index) := by
  rw [BatchesInOrder, FileInput.batches, Input.batches, List.map_map, List.pairwise_map]
  refine h.order.imp fun {p q} hpq => ?_
  have hvalid : input.input.file.TimelineOk := input.input_file ▸ h.timelineOk
  rw [Function.comp_apply, Function.comp_apply, batchMin_batch hvalid, batchMin_batch hvalid]
  exact hpq

/-- There is a packet before the end of time in every batch. -/
theorem FileInput.Fits.exists_lt {settings : Settings} {index : ℕ} {input : FileInput}
    (h : input.Fits settings index) :
    ∀ items ∈ input.batches settings index, ∃ p ∈ items, p.timestamp < I64.MAX := by
  intro items hitems
  have hvalid : input.input.file.TimelineOk := input.input_file ▸ h.timelineOk
  obtain ⟨packet, -, rfl⟩ := List.mem_map.1 hitems
  let src := input.input.source (settings.jitterRng (settings.seed + .ofNat index))
  have hmem : packet ∈ src.batch packet := List.mem_of_mem_head? (head?_batch hvalid packet)
  have hseconds := (h.writable _ hitems _ hmem).seconds
  refine ⟨packet, hmem, ?_⟩
  show packet.timestamp.val < 2 ^ 63 - 1
  omega

/-! ### Opening -/

section Opening

variable {ρ : Type} [StdRng ρ] {settings : Settings}

/-- Compiling does not use the state. -/
theorem stateless_orCompileError {σ α : Type} (x : Except CompileError α) :
    Prog.Stateless (orCompileError x : Prog σ OpenError α) := by
  cases x with
  | ok a => exact .pure a
  | error e => exact .throw _

/-- **A file that shares nothing is opened without the runtime.** -/
theorem stateless_openFile {input : Input} (hown : input.file.globalMap = none) (index : ℕ) :
    Prog.Stateless (openFile settings index input : Prog (MapRuntime ρ) OpenError _) := by
  have hflow : ∀ fileSeed, Prog.Stateless (MapRewriter.newFlow input.file fileSeed settings.seed
      input.file.parallel : Prog (MapRuntime ρ) OpenError _) := fun fileSeed => by
    rw [MapRewriter.newFlow]
    cases hmap : input.file.flowMap with
    | none => exact .pure _
    | some flow =>
      have hscope : flow.allocScope = .file := by
        cases hscope : flow.allocScope with
        | file => rfl
        | global => simp [InputFile.globalMap, hmap, hscope] at hown
      refine (stateless_orCompileError _).bind fun cfg => ?_
      rw [MapRewriter.allocationOf, hscope]
      exact (Prog.Stateless.pure _).bind fun _ => .pure _
  have hdirect : ∀ fileSeed, Prog.Stateless (MapRewriter.newDirect input.file fileSeed :
      Prog (MapRuntime ρ) OpenError _) := fun fileSeed => by
    rw [MapRewriter.newDirect]
    split_ifs
    · exact .pure _
    · exact (stateless_orCompileError _).bind fun _ => .pure _
  exact ((hflow _).bind fun _ => (hdirect _).bind fun _ => .pure _).bind fun _ => .pure _

/-- The link type of a file that is opened is a `u16`. -/
theorem toCode_of_sniff {f : FileInput} {linkType : LinkType} {input : Input}
    (h : f.sniff = .ok (linkType, input)) : linkType.toCode < 2 ^ 16 := by
  obtain ⟨reader, hnew, h⟩ := Outcome.bind_eq_ok.1 h
  split at h
  · cases h
    cases reader with
    | pcap reader =>
      show (LinkType.ofCode (reader.header.additionalInfoLinkType &&& 0xFFFF)).toCode < 2 ^ 16
      rw [LinkType.toCode_ofCode]
      exact Nat.lt_of_le_of_lt Nat.and_le_right (by decide)
    | pcapng reader =>
      have hnone : reader.interfaces = [] := by
        have hnew := Outcome.mapErr_eq_ok.1 hnew
        rw [SniffedReader.new] at hnew
        split at hnew
        · cases hnew
        · obtain ⟨format, -, hnew⟩ := Outcome.bind_eq_ok.1 hnew
          cases format with
          | pcap =>
            obtain ⟨r, -, hr⟩ := Outcome.bind_eq_ok.1 hnew
            cases hr
          | pcapng =>
            cases hnew
            rfl
      rw [linkTypeOf, SniffedReader.interfaces, hnone]
      decide
  · cases h

/-- What is known of a reader of a merge: it is that of the file at this place. -/
structure Opened (settings : Settings) (index : ℕ) (input : FileInput)
    (reader : LinkType × OpenFile ρ) : Prop where
  sniff : input.sniff = .ok (reader.1, input.input)
  openFile : openFile settings index input.input (∅ : MapRuntime ρ) = .ok (reader.2, ∅)
  reads : reader.2.reader = input.input.reader settings (settings.seed + .ofNat index)
  shared : reader.2.shared = none

/-- A file that shares nothing is opened without a look at the runtime. -/
theorem openReader_own {index : ℕ} {input : FileInput} {reader : LinkType × OpenFile ρ}
    {runtime runtime' : MapRuntime ρ} (hown : input.file.globalMap = none)
    (h : openReader settings index input runtime = .ok (reader, runtime')) :
    runtime' = runtime ∧ Opened settings index input reader := by
  obtain ⟨⟨linkType, opened⟩, hsniff, h⟩ := Outcome.bind_eq_ok.1 h
  obtain ⟨⟨file, runtime₁⟩, hopen, h⟩ := Outcome.bind_eq_ok.1 h
  cases h
  obtain rfl := FileInput.input_of_sniff (Outcome.mapErr_eq_ok.1 hsniff)
  have hown' : input.input.file.globalMap = none := input.input_file ▸ hown
  have hopen := Outcome.mapErr_eq_ok.1 hopen
  obtain ⟨rfl, hfresh⟩ := (stateless_openFile hown' index).eq_ok hopen
  obtain ⟨⟨rewriter, runtime₂⟩, -, hfile⟩ := Outcome.bind_eq_ok.1 hopen
  cases hfile
  exact ⟨rfl, Outcome.mapErr_eq_ok.1 hsniff, hfresh ∅, rfl, hown'⟩

/-- The readers of files that share nothing. -/
theorem openReaders_own {inputs : List FileInput} (hown : ∀ f ∈ inputs, f.file.globalMap = none)
    {index : ℕ} {readers : List (LinkType × OpenFile ρ)} {runtime runtime' : MapRuntime ρ}
    (h : openReaders settings index inputs runtime = .ok (readers, runtime')) :
    runtime' = runtime ∧
      List.Forall₂ (fun x reader => Opened settings x.2 x.1 reader) (inputs.zipIdx index) readers := by
  induction inputs generalizing index readers runtime with
  | nil =>
    cases h
    exact ⟨rfl, .nil⟩
  | cons input inputs ih =>
    obtain ⟨⟨reader, runtime₁⟩, hreader, h⟩ := Outcome.bind_eq_ok.1 h
    obtain ⟨⟨rest, runtime₂⟩, hrest, h⟩ := Outcome.bind_eq_ok.1 h
    cases h
    obtain ⟨rfl, hopened⟩ := openReader_own (hown input List.mem_cons_self) hreader
    obtain ⟨rfl, hall⟩ := ih (fun f hf => hown f (List.mem_cons_of_mem _ hf)) hrest
    rw [List.zipIdx_cons]
    exact ⟨rfl, .cons hopened hall⟩

end Opening

/-! ### One pass -/

section OnePass

variable {ρ : Type} [StdRng ρ] {H : ∀ n, BinaryHeap (HeapEntry n Written) HeapEntry.le}
  {output : OutputArgs} {fuel : ℕ} {settings : Settings} {inputs : List FileInput} {index : ℕ}

/-- The file at a place of the merge is opened, and its packets are rewritten. -/
def FileInput.Merges (ρ : Type) [StdRng ρ] (settings : Settings) (index : ℕ) (input : FileInput) :
    Prop :=
  ∃ reader : LinkType × OpenFile ρ, Opened settings index input reader ∧
    RewritesAll settings.checks reader.2.rewriter (input.batches settings index)

/-- An open file hands out the batches of its input. -/
theorem Opened.items {input : FileInput} {reader : LinkType × OpenFile ρ}
    (h : Opened settings index input reader) (hfits : input.Fits settings index) :
    Items PacketReader.next reader.2.reader (input.batches settings index) := by
  rw [h.reads]
  exact items_batches settings _ (input.input_file ▸ hfits.timelineOk)

/-- What an input is made into is its batches, rewritten. -/
theorem Opened.made {input : FileInput} {reader : LinkType × OpenFile ρ}
    (h : Opened settings index input reader) : input.made ρ settings index =
      (rewriteBatches settings.checks reader.2.rewriter (input.batches settings index)).flatten := by
  rw [FileInput.made, h.openFile]

/-- A file is opened to one reader only. -/
theorem Opened.rewritesAll {input : FileInput} {reader : LinkType × OpenFile ρ}
    (h : Opened settings index input reader) (hmerges : input.Merges ρ settings index) :
    RewritesAll settings.checks reader.2.rewriter (input.batches settings index) := by
  obtain ⟨reader', hopened, hall⟩ := hmerges
  obtain ⟨heq, -⟩ := Prod.mk.inj (Outcome.ok.inj (h.openFile.symm.trans hopened.openFile))
  rwa [heq]

/-- The place of every reader of a merge. -/
theorem exists_places {readers : List (LinkType × OpenFile ρ)}
    (hopened : List.Forall₂ (fun x reader => Opened settings x.2 x.1 reader) (inputs.zipIdx index)
      readers) : ∃ place : Fin (readers.map Prod.snd).length → FileInput × ℕ,
      (∀ i, place i ∈ inputs.zipIdx index) ∧
      (∀ i, ∃ linkType, Opened settings (place i).2 (place i).1
        (linkType, (readers.map Prod.snd)[i])) ∧
      ∀ {β : Type} (f : FileInput × ℕ → List β),
        ((List.finRange (readers.map Prod.snd).length).flatMap fun i => f (place i)) =
          (inputs.zipIdx index).flatMap f := by
  obtain ⟨hlength, hget⟩ := List.forall₂_iff_get.1 hopened
  have hplaces : (readers.map Prod.snd).length = (inputs.zipIdx index).length := by
    rw [hlength, List.length_map]
  refine ⟨fun i => (inputs.zipIdx index).get ⟨i.val, hplaces ▸ i.isLt⟩,
    fun i => List.get_mem _ _, fun i => ?_, fun f => flatMap_finRange hplaces f⟩
  have hlt : i.val < readers.length := by simpa using i.isLt
  refine ⟨(readers[i.val]).1, ?_⟩
  have hfile : (readers.map Prod.snd)[i] = (readers[i.val]).2 := by simp
  rw [hfile]
  exact hget i.val (hplaces ▸ i.isLt) hlt

/-- **One pass over files that share nothing**: the output holds what the merge gets of
the files, in the order of the timestamps, and every file is merged. -/
theorem mergeFiles_own {merged : Merged} {runtime runtime' : MapRuntime ρ}
    (hfits : ∀ x ∈ inputs.zipIdx index, x.1.Fits settings x.2)
    (h : mergeFiles H output fuel settings index inputs runtime = .ok (merged, runtime')) :
    runtime' = runtime ∧
      (∃ linkType : LinkType, linkType.toCode < 2 ^ 16 ∧
        merged.bytes = output.write linkType (merged.written.map Written.packet)) ∧
      ((merged.written.map Written.packet).Pairwise fun p q => p.timestamp ≤ q.timestamp) ∧
      merged.written.Perm ((inputs.zipIdx index).flatMap fun x => x.1.made ρ settings x.2) ∧
      ∀ x ∈ inputs.zipIdx index, x.1.Merges ρ settings x.2 := by
  obtain ⟨readers, runtime₁, s, w, hreaders, hmerge, hbytes, hwritten, -, rfl⟩ :=
    mergeFiles_eq_ok h
  have hown : ∀ f ∈ inputs, f.file.globalMap = none := fun f hf => by
    rw [← List.zipIdx_map_fst index inputs] at hf
    obtain ⟨x, hx, rfl⟩ := List.mem_map.1 hf
    exact (hfits x hx).ownMaps
  obtain ⟨rfl, hopened⟩ := openReaders_own hown hreaders
  obtain ⟨place, hplace, hfile, hflatMap⟩ := exists_places hopened
  have hitems := fun i => (hfile i).choose_spec.items (hfits _ (hplace i))
  have hlt := fun i => (hfits _ (hplace i)).exists_lt
  obtain ⟨hruntime, hsorted, hperm⟩ := mergeCalls_own (w := ⟨readers.map Prod.snd, runtime₁, []⟩)
    (fun i => (hfile i).choose_spec.shared) hitems (fun i => (hfits _ (hplace i)).batchesInOrder)
    hlt hmerge
  refine ⟨hruntime, ⟨_, ?_, hbytes⟩, ?_, ?_, ?_⟩
  · cases hhead : readers.head? with
    | none =>
      show LinkType.ethernet.toCode < 2 ^ 16
      decide
    | some reader =>
      obtain ⟨x, -, hfirst⟩ := exists_of_forall₂ hopened (List.mem_of_mem_head? hhead)
      exact toCode_of_sniff hfirst.sniff
  · rw [hwritten]
    exact List.pairwise_map.2 hsorted
  · rw [hwritten, ← hflatMap]
    exact hperm.trans (.of_eq (List.flatMap_congr fun i _ => (hfile i).choose_spec.made.symm))
  · have hcount := hperm.length_eq
    rw [List.length_map, List.length_flatMap, ← Fin.sum_univ_def] at hcount
    have hall := rewritesAll_of_mergeCalls (w := ⟨readers.map Prod.snd, runtime₁, []⟩) hitems hlt
      hmerge hcount
    intro x hx
    have hsingle := hflatMap fun y => [y]
    rw [List.flatMap_singleton', ← List.map_eq_flatMap] at hsingle
    rw [← hsingle] at hx
    obtain ⟨i, -, rfl⟩ := List.mem_map.1 hx
    exact ⟨_, (hfile i).choose_spec, hall i⟩

/-- Readers that were opened once are opened again, with any runtime. -/
theorem openReaders_returns (runtime : MapRuntime ρ) {readers : List (LinkType × OpenFile ρ)}
    (hown : ∀ f ∈ inputs, f.file.globalMap = none)
    (hopened : List.Forall₂ (fun x reader => Opened settings x.2 x.1 reader) (inputs.zipIdx index)
      readers) : openReaders settings index inputs runtime = .ok (readers, runtime) := by
  induction inputs generalizing index readers with
  | nil =>
    cases hopened
    rfl
  | cons input inputs ih =>
    rw [List.zipIdx_cons] at hopened
    obtain _ | @⟨_, reader, _, rest, hfirst, hrest⟩ := hopened
    have hown' : input.input.file.globalMap = none :=
      input.input_file ▸ hown input List.mem_cons_self
    have hopen := ((stateless_openFile hown' index).eq_ok hfirst.openFile).2 runtime
    have hreader : openReader settings index input runtime = .ok (reader, runtime) := by
      simp only [openReader, hfirst.sniff, hopen, Outcome.mapErr, Outcome.ok_bind, Outcome.pure_eq]
    have hreaders := ih (fun f hf => hown f (List.mem_cons_of_mem _ hf)) hrest
    simp only [openReaders, Prog.bind_apply, hreader, hreaders, Outcome.ok_bind, Prog.pure_apply]

/-- **Files that are opened and rewritten are merged**, with fuel for their packets. -/
theorem mergeFiles_returns (runtime : MapRuntime ρ)
    (hfits : ∀ x ∈ inputs.zipIdx index, x.1.Fits settings x.2)
    (hmerges : ∀ x ∈ inputs.zipIdx index, x.1.Merges ρ settings x.2)
    (hfuel : 2 * ((inputs.zipIdx index).flatMap fun x => x.1.made ρ settings x.2).length +
      inputs.length < fuel) :
    ∃ merged, mergeFiles H output fuel settings index inputs runtime = .ok (merged, runtime) := by
  have hown : ∀ f ∈ inputs, f.file.globalMap = none := fun f hf => by
    rw [← List.zipIdx_map_fst index inputs] at hf
    obtain ⟨x, hx, rfl⟩ := List.mem_map.1 hf
    exact (hfits x hx).ownMaps
  obtain ⟨readers, hopened⟩ : ∃ readers : List (LinkType × OpenFile ρ),
      List.Forall₂ (fun x reader => Opened settings x.2 x.1 reader) (inputs.zipIdx index) readers :=
    exists_forall₂ fun x hx => (hmerges x hx).imp fun _ h => h.1
  obtain ⟨place, hplace, hfile, hflatMap⟩ := exists_places hopened
  have hcount : ∑ i, (2 * (rewriteBatches settings.checks (readers.map Prod.snd)[i].rewriter
      ((place i).1.batches settings (place i).2)).flatten.length + 1) < fuel := by
    have hmade := congrArg List.length (hflatMap fun x => x.1.made ρ settings x.2)
    rw [List.length_flatMap, ← Fin.sum_univ_def] at hmade
    have hlength : (readers.map Prod.snd).length = inputs.length := by
      rw [List.length_map, ← hopened.length_eq, List.length_zipIdx]
    have heach : ∀ i, (rewriteBatches settings.checks (readers.map Prod.snd)[i].rewriter
        ((place i).1.batches settings (place i).2)).flatten.length =
          ((place i).1.made ρ settings (place i).2).length := fun i => by
      rw [(hfile i).choose_spec.made]
    simp only [heach, Finset.sum_add_distrib, ← Finset.mul_sum, hmade, Finset.sum_const,
      Finset.card_univ, Fintype.card_fin, hlength, smul_eq_mul, mul_one]
    exact hfuel
  obtain ⟨s, w, hok, hruntime⟩ := mergeCalls_own_returns (w := ⟨readers.map Prod.snd, runtime, []⟩)
    (H := H _) (fun i => (hfile i).choose_spec.shared)
    (fun i => (hfile i).choose_spec.items (hfits _ (hplace i)))
    (fun i items hmem hnil => by
      obtain ⟨p, hp, -⟩ := (hfits _ (hplace i)).exists_lt items hmem
      rw [hnil] at hp
      cases hp)
    (fun i => (hfile i).choose_spec.rewritesAll (hmerges _ (hplace i))) hcount
  have hreaders := openReaders_returns runtime hown hopened
  exact ⟨_, hruntime ▸ mergeFiles_of_ok hreaders hok⟩

end OnePass

end Mergecap
end Maja
