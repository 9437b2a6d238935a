/-
# The files of a merge and what they share

`MapRuntime` and `Rewriter::new` of `tools/maja-mergecap/src/map.rs`, and the way of a
packet through `merge_impl` of `main.rs` when the address maps are on: the files are
opened one after the other, and `merge_batches` pulls batches whose packets are
rewritten as they are read.

An allocation of `alloc_scope = global` is in the runtime, under its map, and every file
that shares it borrows it to rewrite a batch.  `read` keeps the packets of all files in
the order in which they were read, and `Written` what a packet of the output was made
of; nothing looks at either.
-/

import Maja.Mergecap.Map.Rewriter
import Maja.Mergecap.MergeCalls
import Maja.Mergecap.SortedOutput

namespace Maja
namespace Mergecap

open Lib Capture Packet

/-- `FlowMap::sharing`. -/
def FlowMap.sharingOrDefault (flow : FlowMap) : MapSharing :=
  flow.sharing.getD (match flow.key with
    | .session => .perGroup
    | .address => .shared)

/-- The map of a file whose allocation outlives the file. -/
def InputFile.globalMap (file : InputFile) : Option FlowMap :=
  file.flowMap.filter fun flow => flow.allocScope = .global

/-- Why a file is not opened. -/
inductive OpenError where
  | compile (e : CompileError)
  | groupsDiffer
  deriving DecidableEq, Repr

/-- `GlobalAllocation`. -/
structure GlobalAllocation (ρ : Type) where
  allocation : Allocation ρ
  groups : ℕ

/-- `MapRuntime`.  The `Debug` text that is the key stands for the map. -/
abbrev MapRuntime (ρ : Type) : Type := Table FlowMap (GlobalAllocation ρ)

/-- `?` on what compiling returns. -/
def orCompileError {σ α : Type} : Except CompileError α → Prog σ OpenError α
  | .ok a => pure a
  | .error e => Prog.throw (.compile e)

/-- What a merge is told besides its files.  `checks` says whether the build has
overflow checks. -/
structure Settings where
  args : MergeArgs
  /-- `global_seed`. -/
  seed : UInt64
  fixChecksum : Bool
  /-- The generator that the jitter of a file is drawn from, of its seed. -/
  jitterRng : UInt64 → JitterRng
  checks : Bool

/-- An input file, and what one pass over it hands out. -/
structure Input where
  file : InputFile
  capture : CapturePass

section Opening

variable {ρ : Type} [StdRng ρ]

/-- `MapRuntime::global_allocation`. -/
def MapRuntime.globalAllocation (flow : FlowMap) (cfg : FlowCfg) (seed : UInt64) (groups : ℕ) :
    Prog (MapRuntime ρ) OpenError (Allocation ρ) := fun runtime =>
  match runtime.lookup flow with
  | some global =>
    if global.groups ≠ groups then .err (.groupsDiffer, runtime) else .ok (global.allocation, runtime)
  | none =>
    let allocation := .new cfg seed flow.sharingOrDefault groups
    .ok (allocation, runtime.insert flow ⟨allocation, groups⟩)

namespace MapRewriter

/-- The allocation of a flow map that is made for a file: none for the file's own one,
which `FlowState::new` makes. -/
def allocationOf (flow : FlowMap) (cfg : FlowCfg) (globalSeed : UInt64) (groups : ℕ) :
    Prog (MapRuntime ρ) OpenError (Option (Allocation ρ)) :=
  match flow.allocScope with
  | .file => pure none
  | .global => do
    let allocation ← MapRuntime.globalAllocation flow cfg globalSeed groups
    pure (some allocation)

/-- The flow map of `Rewriter::new`. -/
def newFlow (file : InputFile) (fileSeed globalSeed : UInt64) (groups : ℕ) :
    Prog (MapRuntime ρ) OpenError (Option (FlowState ρ)) :=
  match file.flowMap with
  | none => pure none
  | some flow => do
    let cfg ← orCompileError (FlowCfg.compile flow)
    let allocation ← allocationOf flow cfg globalSeed groups
    pure (some (.new cfg globalSeed fileSeed groups flow.sharingOrDefault allocation))

/-- The direct maps of `Rewriter::new`. -/
def newDirect (file : InputFile) (fileSeed : UInt64) :
    Prog (MapRuntime ρ) OpenError (Option (DirectMaps ρ)) :=
  if file.ipMap = [] ∧ file.srcIpMap = [] ∧ file.dstIpMap = [] then pure none
  else do
    let direct ← orCompileError
      (DirectMaps.new file.srcIpMap file.ipMap file.dstIpMap (derivedRng fileSeed MAP_RNG_SALT))
    pure (some direct)

/-- `Rewriter::new`. -/
def new (file : InputFile) (fileSeed globalSeed : UInt64) (groups : ℕ) (fixChecksum : Bool) :
    Prog (MapRuntime ρ) OpenError (MapRewriter ρ) := do
  let flow ← newFlow file fileSeed globalSeed groups
  let direct ← newDirect file fileSeed
  pure ⟨direct, flow, fixChecksum⟩

/-- The allocation that the flow map works on. -/
def allocation (rewriter : MapRewriter ρ) : Option (Allocation ρ) :=
  rewriter.flow.bind FlowState.allocation

/-- The flow map works on an allocation from elsewhere. -/
def borrow (rewriter : MapRewriter ρ) (allocation : Allocation ρ) : MapRewriter ρ :=
  { rewriter with flow := rewriter.flow.map fun s => { s with allocation := some allocation } }

end MapRewriter

/-- `PacketReader`: the reader of the timeline, the rewriter, and the map under which
the allocation is that it shares. -/
structure OpenFile (ρ : Type) where
  reader : PacketReader noRewriter
  rewriter : MapRewriter ρ
  shared : Option FlowMap

/-- The reader of the timeline of a file with this seed. -/
def Input.reader (settings : Settings) (seed : UInt64) (input : Input) : PacketReader noRewriter :=
  .fromInputFile noRewriter settings.args (settings.jitterRng seed) input.file input.capture

/-- `PacketReader::from_input_file`. -/
def openFile (settings : Settings) (index : ℕ) (input : Input) :
    Prog (MapRuntime ρ) OpenError (OpenFile ρ) := do
  let seed := settings.seed + .ofNat index
  let rewriter ← MapRewriter.new input.file seed settings.seed input.file.parallel
    settings.fixChecksum
  pure ⟨input.reader settings seed, rewriter, input.file.globalMap⟩

end Opening

/-! ### Reading a batch -/

/-- The files of a merge. -/
structure MergeFiles (ρ : Type) where
  files : List (OpenFile ρ)
  runtime : MapRuntime ρ
  read : List PacketRecord

/-- A packet of the output, with the packet that it was made of and its parallel
group. -/
structure Written where
  origin : PacketRecord
  group : ℕ
  packet : PacketRecord
  deriving DecidableEq

/-- The packet as `try_parse_with_link_type` leaves it: an error is only warned about.
-/
def parsed {ε : Type} (item : PacketRecord) : Outcome ε Maja.Packet :=
  match tryParseWithLinkType (item.data.length + 1) item.linkType {} (.new item.data) with
  | .ok ((), packet) => .ok packet
  | .err (_, packet) => .ok packet
  | .panic => .panic
  | .outOfFuel => .outOfFuel

section Reading

variable {ρ : Type} [StdRng ρ]

/-- What `next` does with one item of a batch, besides its timestamp. -/
def rewriteItem (checks : Bool) (item : PacketRecord) (group : ℕ) :
    Prog (MapRewriter ρ) Empty PacketRecord := fun rewriter =>
  if rewriter.isActive then do
    let packet ← parsed item
    let ((_, packet), rewriter) ← MapRewriter.rewrite checks packet group rewriter
    pure ({ item with data := packet.bytes }, rewriter)
  else .ok (item, rewriter)

/-- `for (group, item) in items.iter_mut().enumerate()`. -/
def rewriteItems (checks : Bool) (origin : PacketRecord) :
    List (PacketRecord × ℕ) → Prog (MapRewriter ρ) Empty (List Written)
  | [] => pure []
  | (item, group) :: items => do
    let packet ← rewriteItem checks item group
    let rest ← rewriteItems checks origin items
    pure (⟨origin, group, packet⟩ :: rest)

/-- The items of a batch: that of group 0 is the packet on the timeline. -/
def rewriteBatch (checks : Bool) : List PacketRecord → Prog (MapRewriter ρ) Empty (List Written)
  | [] => pure []
  | origin :: items => rewriteItems checks origin ((origin :: items).zipIdx)

namespace OpenFile

/-- The rewriter, with the allocation that it shares. -/
def borrowed (file : OpenFile ρ) (runtime : MapRuntime ρ) : MapRewriter ρ :=
  match file.shared.bind runtime.lookup with
  | some global => file.rewriter.borrow global.allocation
  | none => file.rewriter

/-- The runtime when the file has rewritten a batch. -/
def giveBack (file : OpenFile ρ) (rewriter : MapRewriter ρ) (runtime : MapRuntime ρ) : MapRuntime ρ :=
  match file.shared with
  | some flow =>
    match runtime.lookup flow, rewriter.allocation with
    | some global, some allocation => runtime.insert flow { global with allocation }
    | _, _ => runtime
  | none => runtime

end OpenFile

namespace MergeFiles

/-- `PacketReader::next`, of one of the readers. -/
def next (checks : Bool) {n : ℕ} : Streams n Written (MergeFiles ρ) := fun index w =>
  match w.files[index.val]? with
  | none => .panic
  | some file =>
    match PacketReader.next file.reader with
    | .ok (none, reader) => .ok (none, { w with files := w.files.set index { file with reader } })
    | .ok (some items, reader) =>
      match rewriteBatch checks items (file.borrowed w.runtime) with
      | .ok (written, rewriter) =>
        .ok (some (written.map fun made => (made.packet.timestamp, made)),
          { files := w.files.set index { file with reader, rewriter }
            runtime := file.giveBack rewriter w.runtime
            read := w.read ++ items.head?.toList })
      | .err (e, _) => e.elim
      | .panic => .panic
      | .outOfFuel => .outOfFuel
    | .err (e, _) => e.elim
    | .panic => .panic
    | .outOfFuel => .outOfFuel

end MergeFiles

end Reading

end Mergecap
end Maja
