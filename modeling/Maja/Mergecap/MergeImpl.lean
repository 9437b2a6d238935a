/-
# Merging in batches of files

`merge_impl` of `tools/maja-mergecap/src/main.rs`, from the bytes of the input files to
the bytes of the output.  As many files as the batch size says are merged in one pass.
More of them are merged batch by batch into temporary files, which are merged again.

A capture is read to its end when its file is opened, where the source reads on as it
goes: what a reader has does not depend on when it is asked, and a reader that panics
would panic later.  No file is missing, and no write fails.

`Merged` also keeps what the merges of the input files have written and in which order
they have read it; nothing looks at either.
-/

import Maja.Capture.PcapWriter
import Maja.Capture.Sniffed
import Maja.Lib.Chunks
import Maja.Mergecap.Map.Runtime

namespace Maja
namespace Mergecap

open Lib Capture

/-- An input file: its configuration and its bytes. -/
structure FileInput where
  file : InputFile
  data : List UInt8

/-- The fields of `MergeArgs` of the writer and of the batching. -/
structure OutputArgs where
  nanosecond : Option Bool
  snapLen : Option UInt32
  batchSize : Option ℕ

/-- Why `merge_impl` returns an error. -/
inductive MergeError where
  | capture (e : CaptureError)
  | opening (e : OpenError)
  /-- The batch size must be at least 2 when there are more files than that. -/
  | batchSize
  deriving DecidableEq, Repr

/-- What `merge_impl` leaves: the bytes of the output file, and what the merges of the
input files have written and read. -/
structure Merged where
  bytes : List UInt8
  written : List Written
  read : List PacketRecord

namespace OutputArgs

variable (output : OutputArgs)

/-- `merge_args.nanosecond.unwrap_or_default()`. -/
def isNanosecond : Bool := output.nanosecond.getD false

/-- `merge_args.snap_len.unwrap_or(65535)`. -/
def snapLenOrDefault : ℕ := (output.snapLen.getD 65535).toNat

/-- `merge_args.batch_size.unwrap_or(128)`. -/
def batchSizeOrDefault : ℕ := output.batchSize.getD 128

/-- The output file of these packets. -/
def write (linkType : LinkType) (packets : List PacketRecord) : List UInt8 :=
  (PcapWriter.writeAll false output.isNanosecond output.snapLenOrDefault linkType packets).written

end OutputArgs

/-- `PacketReader::link_type`. -/
def linkTypeOf (reader : SniffedReader) : LinkType :=
  (reader.interfaces.head?.map Interface.linkType).getD .ethernet

/-- `SniffedReader::open`, with all that the reader hands out. -/
def FileInput.sniff (input : FileInput) : Outcome MergeError (LinkType × Input) := do
  let reader ← (SniffedReader.new input.data).mapErr .capture
  match drain SniffedReader.nextPacket (input.data.length + 1) reader with
  | some capture => .ok (linkTypeOf reader, ⟨input.file, capture⟩)
  | none => .panic

/-- The input file with what its reader hands out. -/
def FileInput.input (input : FileInput) : Input :=
  (input.sniff.toOption.map Prod.snd).getD ⟨input.file, []⟩

/-- What a file is opened to. -/
theorem FileInput.input_of_sniff {f : FileInput} {linkType : LinkType} {input : Input}
    (h : f.sniff = .ok (linkType, input)) : f.input = input := by
  rw [FileInput.input, h]
  rfl

/-- An input has the configuration of its file. -/
theorem FileInput.input_file (f : FileInput) : f.input.file = f.file := by
  rcases hsniff : f.sniff with ⟨linkType, input⟩ | e | _ | _
  · rw [input_of_sniff hsniff]
    obtain ⟨reader, -, h⟩ := Outcome.bind_eq_ok.1 hsniff
    split at h
    · cases h
      rfl
    · cases h
  all_goals
    rw [FileInput.input, hsniff]
    rfl

/-- A temporary file. -/
def tmpFile (merged : Merged) : FileInput := ⟨default, merged.bytes⟩

/-- `final_args`: the timestamps are not erased again. -/
def Settings.final (settings : Settings) : Settings :=
  { settings with args := { settings.args with eraseTimestamp := some false } }

section Merging

variable {ρ : Type} [StdRng ρ]

/-- `PacketReader::from_input_file`, of a file. -/
def openReader (settings : Settings) (index : ℕ) (input : FileInput) :
    Prog (MapRuntime ρ) MergeError (LinkType × OpenFile ρ) := fun runtime => do
  let (linkType, input) ← input.sniff.mapErr fun e => (e, runtime)
  let (file, runtime) ← (openFile settings index input runtime).mapErr fun e => (.opening e.1, e.2)
  pure ((linkType, file), runtime)

/-- The readers of `merge_impl`, from an index on. -/
def openReaders (settings : Settings) :
    ℕ → List FileInput → Prog (MapRuntime ρ) MergeError (List (LinkType × OpenFile ρ))
  | _, [] => pure []
  | index, input :: inputs => do
    let reader ← openReader settings index input
    let readers ← openReaders settings (index + 1) inputs
    pure (reader :: readers)

variable (H : ∀ n, BinaryHeap (HeapEntry n Written) HeapEntry.le) (output : OutputArgs) (fuel : ℕ)

/-- `merge_impl` of at most `batch_size` files. -/
def mergeFiles (settings : Settings) (firstIndex : ℕ) (inputs : List FileInput) :
    Prog (MapRuntime ρ) MergeError Merged := do
  let readers ← openReaders settings firstIndex inputs
  let files := readers.map Prod.snd
  let linkType := (readers.head?.map Prod.fst).getD .ethernet
  fun runtime =>
    match mergeCalls (MergeFiles.next settings.checks) (H files.length) fuel ⟨files, runtime, []⟩ with
    | .ok ((), s, w) =>
      let written := s.emitted.map HeapEntry.value
      .ok (⟨output.write linkType (written.map Written.packet), written, w.read⟩, w.runtime)
    | .err (e, _) => e.elim
    | .panic => .panic
    | .outOfFuel => .outOfFuel

variable {H output fuel} in
/-- What one pass does. -/
theorem mergeFiles_eq_ok {settings : Settings} {firstIndex : ℕ} {inputs : List FileInput}
    {merged : Merged} {runtime runtime' : MapRuntime ρ}
    (h : mergeFiles H output fuel settings firstIndex inputs runtime = .ok (merged, runtime')) :
    ∃ readers runtime₁ s w,
      openReaders settings firstIndex inputs runtime = .ok (readers, runtime₁) ∧
      mergeCalls (MergeFiles.next settings.checks) (H (readers.map Prod.snd).length) fuel
        ⟨readers.map Prod.snd, runtime₁, []⟩ = .ok ((), s, w) ∧
      merged.bytes = output.write ((readers.head?.map Prod.fst).getD .ethernet)
        (merged.written.map Written.packet) ∧
      merged.written = s.emitted.map HeapEntry.value ∧ merged.read = w.read ∧
      runtime' = w.runtime := by
  obtain ⟨⟨readers, runtime₁⟩, hreaders, h⟩ := Outcome.bind_eq_ok.1 h
  dsimp only at h
  rcases hmerge : mergeCalls (MergeFiles.next settings.checks) (H (readers.map Prod.snd).length)
    fuel ⟨readers.map Prod.snd, runtime₁, []⟩ with ⟨⟨⟩, s, w⟩ | ⟨e, _⟩ | _ | _
  · rw [hmerge] at h
    obtain ⟨rfl, rfl⟩ := Prod.mk.inj (Outcome.ok.inj h)
    exact ⟨readers, runtime₁, s, w, hreaders, hmerge, rfl, rfl, rfl, rfl⟩
  · exact e.elim
  · rw [hmerge] at h
    cases h
  · rw [hmerge] at h
    cases h

variable {H output fuel} in
/-- Files that open and merge give what the merge wrote. -/
theorem mergeFiles_of_ok {settings : Settings} {firstIndex : ℕ} {inputs : List FileInput}
    {readers : List (LinkType × OpenFile ρ)} {runtime runtime₁ : MapRuntime ρ}
    {s : MergeState (H (readers.map Prod.snd).length)} {w : MergeFiles ρ}
    (hreaders : openReaders settings firstIndex inputs runtime = .ok (readers, runtime₁))
    (hmerge : mergeCalls (MergeFiles.next settings.checks) (H (readers.map Prod.snd).length) fuel
      ⟨readers.map Prod.snd, runtime₁, []⟩ = .ok ((), s, w)) :
    mergeFiles H output fuel settings firstIndex inputs runtime =
      .ok (⟨output.write ((readers.head?.map Prod.fst).getD .ethernet)
        ((s.emitted.map HeapEntry.value).map Written.packet), s.emitted.map HeapEntry.value, w.read⟩,
        w.runtime) := by
  refine Outcome.bind_eq_ok.2 ⟨(readers, runtime₁), hreaders, ?_⟩
  dsimp only
  rw [hmerge]

/-- `for (i, batch) in batches.enumerate()`, from the batch on whose first file has this
index. -/
def mergeBatchFiles (merge : ℕ → List FileInput → Prog (MapRuntime ρ) MergeError Merged) :
    ℕ → List (List FileInput) → Prog (MapRuntime ρ) MergeError (List Merged)
  | _, [] => pure []
  | index, batch :: batches => do
    let merged ← merge index batch
    let rest ← mergeBatchFiles merge (index + output.batchSizeOrDefault) batches
    pure (merged :: rest)

/-- `merge_impl`.  The fuel of the first argument is a bound on the depth of the calls. -/
def mergeImpl : ℕ → Settings → ℕ → List FileInput → Prog (MapRuntime ρ) MergeError Merged
  | 0, _, _, _ => fun _ => .outOfFuel
  | depth + 1, settings, firstIndex, inputs =>
    if inputs.length ≤ output.batchSizeOrDefault then
      mergeFiles H output fuel settings firstIndex inputs
    else if output.batchSizeOrDefault < 2 then Prog.throw .batchSize
    else do
      let batches ← mergeBatchFiles output (mergeImpl depth settings) firstIndex
        (chunks output.batchSizeOrDefault inputs)
      let merged ← mergeImpl depth settings.final firstIndex (batches.map tmpFile)
      pure ⟨merged.bytes, batches.flatMap Merged.written, batches.flatMap Merged.read⟩

end Merging

end Mergecap
end Maja
