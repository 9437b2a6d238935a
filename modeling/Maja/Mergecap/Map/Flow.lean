/-
# The keyed flow map

`tools/maja-mergecap/src/map/flow.rs`: what an allocation is keyed by, the policies
of a pool, and the state that lies between two packets.

`FlowState` is a state that every call changes; the allocation table it points to
may be shared with other files, which is what `FlowState.Step` in the next module
is about.  The generator is a parameter.  The index of an entry is a `u32` in
`AllocId`; a number that stands for it has no bound here.
-/

import Maja.Lib.Table
import Maja.Lib.Walk
import Maja.Mergecap.Map.Entry
import Maja.Mergecap.Map.Packet
import Mathlib.Data.List.DropRight

namespace Maja
namespace Mergecap

open Lib Packet

/-- `Identity`. -/
inductive Identity where
  | session (id : SessionId)
  | fragment (key : FragKey)
  | address
  deriving DecidableEq, Repr

/-- `AllocId`. -/
structure AllocId where
  entry : ℕ
  identity : Identity
  addr : IpAddr
  deriving DecidableEq, Repr

/-- `identity`: a fragment is grouped by its identification, whether or not it
carries ports. -/
def identity (key : MapKey) (session : Option SessionId) (fragment : Option FragKey) : Identity :=
  match key, fragment, session with
  | .address, _, _ => .address
  | .session, some fragment, _ => .fragment fragment
  | .session, none, some session => .session session
  | .session, none, none => .address

/-! ### Protocols -/

/-- `char::is_whitespace`. -/
def isWhitespace (c : Char) : Bool :=
  let n := c.toNat
  9 ≤ n ∧ n ≤ 13 ∨ n = 0x20 ∨ n = 0x85 ∨ n = 0xA0 ∨ n = 0x1680 ∨ 0x2000 ≤ n ∧ n ≤ 0x200A ∨
    n = 0x2028 ∨ n = 0x2029 ∨ n = 0x202F ∨ n = 0x205F ∨ n = 0x3000

/-- `str::trim`. -/
def trim (s : String) : String :=
  .ofList (List.rdropWhile isWhitespace (s.toList.dropWhile isWhitespace))

/-- `ProtocolSpec::names`. -/
def ProtocolSpec.names : ProtocolSpec → List String
  | .one s => ((s.toList.splitOn ',').map fun p => trim (.ofList p)).filter (· ≠ "")
  | .list names => names.map trim

/-- `str::parse::<u8>`: digits, with a plus sign or without. -/
def parseU8 (s : String) : Option ℕ :=
  let digits := if s.toList.head? = some '+' then s.toList.tail else s.toList
  let value := digits.foldl (fun n c => 10 * n + (c.toNat - '0'.toNat)) 0
  if digits ≠ [] ∧ digits.all Char.isDigit ∧ value ≤ 255 then some value else none

/-- `ProtocolSet`: whether any number is allowed, and the numbers that are. -/
structure ProtocolSet where
  any : Bool
  set : List ℕ
  deriving DecidableEq, Repr

namespace ProtocolSet

/-- The loop of `ProtocolSet::compile`. -/
def addNames : ProtocolSet → List String → Except CompileError ProtocolSet
  | protocols, [] => .ok protocols
  | protocols, name :: names =>
    let lower := String.ofList (name.toList.map Char.toLower)
    if lower = "any" ∨ lower = "all" then addNames { protocols with any := true } names
    else if lower = "tcp" then addNames { protocols with set := 6 :: protocols.set } names
    else if lower = "udp" then addNames { protocols with set := 17 :: protocols.set } names
    else if lower = "icmp" then addNames { protocols with set := 1 :: protocols.set } names
    else if lower = "icmpv6" then addNames { protocols with set := 58 :: protocols.set } names
    else
      match parseU8 lower with
      | some number => addNames { protocols with set := number :: protocols.set } names
      | none => .error (.unknownProtocol lower)

/-- `ProtocolSet::compile`. -/
def compile (spec : ProtocolSpec) : Except CompileError ProtocolSet :=
  if spec.names = [] then .error .emptyProtocols else addNames ⟨false, []⟩ spec.names

/-- `ProtocolSet::allows`. -/
def allows (protocols : ProtocolSet) (proto : ℕ) : Bool := protocols.any || proto ∈ protocols.set

end ProtocolSet

/-! ### Configuration -/

/-- `FlowCfg`. -/
structure FlowCfg where
  key : MapKey
  entries : List CompiledEntry
  exclude : List IpNet
  protocols : ProtocolSet
  fragments : Bool
  deriving DecidableEq, Repr

namespace FlowCfg

/-- `FlowCfg::compile`. -/
def compile (flow : FlowMap) : Except CompileError FlowCfg := do
  let entries ← flow.entries.mapM fun entry => CompiledEntry.compile entry flow.policy
  let protocols ← ProtocolSet.compile flow.protocols
  pure {
    key := flow.key
    entries := sortEntries entries
    exclude := flow.exclude
    protocols
    fragments := flow.fragments }

/-- A map whose entries are in the order of the search already. -/
theorem compile_of_sorted {flow : FlowMap} {entries : List CompiledEntry} {protocols : ProtocolSet}
    (hentries : (flow.entries.mapM fun entry => CompiledEntry.compile entry flow.policy) =
      .ok entries)
    (hprotocols : ProtocolSet.compile flow.protocols = .ok protocols)
    (hsorted : entries.Pairwise fun a b => b.prefixLen ≤ a.prefixLen) :
    compile flow = .ok ⟨flow.key, entries, flow.exclude, protocols, flow.fragments⟩ := by
  rw [compile, hentries, hprotocols]
  show Except.ok (⟨_, sortEntries entries, _, _, _⟩ : FlowCfg) = _
  rw [sortEntries, sortByKey_of_pairwise hsorted]

/-- The entry takes the address: a catch-all takes every one. -/
def takes (entry : CompiledEntry) (addr : IpAddr) : Bool :=
  entry.source.elim true fun net => net.contains addr

/-- The entry draws per packet. -/
def drawsPerPacket (entry : CompiledEntry) : Bool :=
  match entry.action with
  | .pool _ .random => true
  | _ => false

/-- `FlowCfg::is_stateful`. -/
def isStateful (cfg : FlowCfg) : Bool :=
  cfg.entries.any fun entry =>
    match entry.action with
    | .pool _ policy => policy.isStateful
    | _ => false

/-- `FlowCfg::classify`. -/
def classify (cfg : FlowCfg) (addr : IpAddr) : Option ℕ :=
  cfg.entries.findIdx? fun entry => takes entry addr

/-- `FlowCfg::excluded`. -/
def excluded (cfg : FlowCfg) (addr : IpAddr) : Bool := cfg.exclude.any fun net => net.contains addr

/-- The entry that `classify` names. -/
def entryOf (cfg : FlowCfg) (addr : IpAddr) : Option CompiledEntry :=
  (cfg.classify addr).bind fun entry => cfg.entries[entry]?

/-- `FlowCfg::needs_alias`. -/
def needsAlias (cfg : FlowCfg) (info : PacketInfo) : Bool :=
  [info.src, info.dst].any fun addr => (cfg.entryOf addr).any drawsPerPacket

end FlowCfg

/-! ### Allocation -/

/-- `gcd`. -/
def gcd (a b : ℕ) : ℕ := if b = 0 then a else gcd b (a % b)
termination_by b
decreasing_by exact Nat.mod_lt _ (by omega)

/-- `Sequence`. -/
structure Sequence where
  start : ℕ
  step : ℕ
  drawn : ℕ
  deriving DecidableEq, Repr

variable {ρ : Type} [StdRng ρ]

namespace Sequence

/-- The stride of `Sequence::new`: the first one behind a random offset that is
coprime with the length. -/
def findStep (offset poolLen : ℕ) : ℕ :=
  (((List.range' 1 (poolLen - 1)).map fun i => (offset + i) % poolLen).find? fun step =>
    step ≠ 0 ∧ gcd step poolLen = 1).getD 1

/-- `Sequence::new`. -/
def new (rng : ρ) (poolLen : ℕ) : Sequence × ρ :=
  if h : poolLen ≤ 1 then (⟨0, 1, 0⟩, rng)
  else if poolLen > U64_MAX then
    let (start, rng) := StdRng.randomRange 0 poolLen (by omega) rng
    (⟨start, 1, 0⟩, rng)
  else
    let (offset, rng) := StdRng.randomRange 1 poolLen (by omega) rng
    let (start, rng) := StdRng.randomRange 0 poolLen (by omega) rng
    (⟨start, findStep offset poolLen, 0⟩, rng)

/-- `Sequence::next_index`: the index, and whether all have been drawn before.  The
product is that of a build that does not check for overflow. -/
def nextIndex (seq : Sequence) (poolLen : ℕ) : (ℕ × Bool) × Sequence :=
  let drawn := seq.drawn % poolLen
  let index := (seq.start + drawn * seq.step % 2 ^ 128) % 2 ^ 128 % poolLen
  ((index, poolLen ≤ seq.drawn), { seq with drawn := (seq.drawn + 1) % 2 ^ 128 })

end Sequence

/-- `splitmix64`. -/
def splitmix64 (x : UInt64) : UInt64 :=
  let x := x + 0x9E3779B97F4A7C15
  let z := (x ^^^ (x >>> 30)) * 0xBF58476D1CE4E5B9
  let z := (z ^^^ (z >>> 27)) * 0x94D049BB133111EB
  z ^^^ (z >>> 31)

/-- `MAP_RNG_SALT`. -/
def MAP_RNG_SALT : UInt64 := 0x6A09E667F3BCC908

/-- `derived_rng`. -/
def derivedRng (seed salt : UInt64) : ρ := StdRng.seedFromU64 (splitmix64 (seed ^^^ salt))

/-- `AllocSlot`. -/
structure AllocSlot (ρ : Type) where
  table : Table AllocId IpAddr
  sequences : List Sequence
  rng : ρ
  warnedWrap : List Bool

namespace AllocSlot

/-- The sequences of `AllocSlot::new`, one for every pool. -/
def newSequences : ρ → List ℕ → List Sequence × ρ
  | rng, [] => ([], rng)
  | rng, poolLen :: poolLens =>
    let (seq, rng) := Sequence.new rng poolLen
    let (seqs, rng) := newSequences rng poolLens
    (seq :: seqs, rng)

/-- `AllocSlot::new`. -/
def new (seed salt : UInt64) (poolLens : List ℕ) : AllocSlot ρ :=
  let (sequences, rng) := newSequences (derivedRng seed salt) poolLens
  ⟨∅, sequences, rng, List.replicate poolLens.length false⟩

/-- `AllocSlot::sticky`. -/
def sticky (slot : AllocSlot ρ) (id : AllocId) (pool : Pool) : Option IpAddr × AllocSlot ρ :=
  match slot.table.lookup id with
  | some target => (some target, slot)
  | none =>
    let (target, rng) := pool.choose slot.rng
    match target with
    | some target => (some target, { slot with rng, table := slot.table.insert id target })
    | none => (none, { slot with rng })

/-- The sequence of an entry moves on, and a wrap is warned about once. -/
def advance (slot : AllocSlot ρ) (entry : ℕ) (seq : Sequence) (wrapped : Bool) : AllocSlot ρ :=
  { slot with
    sequences := slot.sequences.set entry seq
    warnedWrap := if wrapped then slot.warnedWrap.set entry true else slot.warnedWrap }

/-- `AllocSlot::unique`. -/
def unique {ε : Type} (slot : AllocSlot ρ) (id : AllocId) (pool : Pool) :
    Outcome ε (Option IpAddr × AllocSlot ρ) :=
  match slot.table.lookup id with
  | some target => .ok (some target, slot)
  | none => do
    let seq ← Outcome.index slot.sequences id.entry
    let ((index, wrapped), seq) := seq.nextIndex pool.len
    let slot := slot.advance id.entry seq wrapped
    match pool.addrAt index with
    | some target => pure (some target, { slot with table := slot.table.insert id target })
    | none => pure (none, slot)

/-- The two stateful policies of `target_for`. -/
def allocate {ε : Type} (slot : AllocSlot ρ) (policy : MapPolicy) (id : AllocId) (pool : Pool) :
    Outcome ε (Option IpAddr × AllocSlot ρ) :=
  match policy with
  | .sticky => .ok (slot.sticky id pool)
  | _ => slot.unique id pool

end AllocSlot

/-- `Allocation`. -/
structure Allocation (ρ : Type) where
  slots : List (AllocSlot ρ)
  shared : Bool

namespace Allocation

/-- `Allocation::new`. -/
def new (cfg : FlowCfg) (seed : UInt64) (sharing : MapSharing) (groups : ℕ) : Allocation ρ :=
  let poolLens := cfg.entries.map CompiledEntry.poolLen
  match sharing with
  | .shared => ⟨[.new seed (MAP_RNG_SALT + 1) poolLens], true⟩
  | .perGroup =>
    ⟨(List.range (max groups 1)).map fun group =>
      .new seed ((MAP_RNG_SALT + .ofNat group) * 2) poolLens, false⟩

/-- The place of the table of a group: the index in `Allocation::slot`. -/
def slotIndex (allocation : Allocation ρ) (group : ℕ) : ℕ :=
  if allocation.shared then 0 else min group (allocation.slots.length - 1)

end Allocation

/-- `GroupState`. -/
structure GroupState (ρ : Type) where
  rng : ρ
  fragments : Table FragKey Targets

/-! ### Hashing -/

/-- `StableHash`. -/
abbrev StableHash : Type := UInt64

namespace StableHash

/-- `StableHash::new`. -/
def new (seed : UInt64) : StableHash := seed ^^^ 0xCBF29CE484222325

/-- `StableHash::write`. -/
def write (value : UInt64) (hash : StableHash) : StableHash :=
  splitmix64 (hash ^^^ value * 0x00000100000001B3)

/-- `StableHash::write_u128`. -/
def writeU128 (value : ℕ) (hash : StableHash) : StableHash :=
  write (.ofNat value) (write (.ofNat (value >>> 64)) hash)

/-- `StableHash::finish`. -/
def finish (hash : StableHash) : UInt64 := splitmix64 hash

end StableHash

/-- What `hash_index` writes of an identity. -/
def Identity.hash (hash : StableHash) : Identity → StableHash
  | .session id =>
      .write (.ofNat id.proto) (.write (.ofNat id.b.2) (.writeU128 id.b.1
        (.write (.ofNat id.a.2) (.writeU128 id.a.1 hash))))
  | .fragment key =>
      .write (.ofNat key.id) (.write (.ofNat key.proto)
        (.writeU128 (addrToU128 key.dst) (.writeU128 (addrToU128 key.src) hash)))
  | .address => .write 0xFFFFFFFFFFFFFFFF hash

/-- `hash_index`. -/
def hashIndex (seed : UInt64) (entry : ℕ) (addr : IpAddr) (identity : Identity) (poolLen : ℕ) :
    ℕ :=
  let hash := identity.hash (.write (.ofNat entry) (.new seed))
  (StableHash.finish (.writeU128 (addrToU128 addr) hash)).toNat % poolLen

/-! ### The state -/

/-- `FlowState`. -/
structure FlowState (ρ : Type) where
  cfg : FlowCfg
  hashSeed : UInt64
  groups : List (GroupState ρ)
  allocation : Option (Allocation ρ)
  warnedUnmatched : Bool

namespace FlowState

/-- `FlowState::new`. -/
def new (cfg : FlowCfg) (hashSeed fileSeed : UInt64) (groups : ℕ) (sharing : MapSharing)
    (allocation : Option (Allocation ρ)) : FlowState ρ where
  cfg := cfg
  hashSeed := hashSeed
  groups := (List.range (max groups 1)).map fun group =>
    ⟨derivedRng fileSeed (MAP_RNG_SALT + .ofNat group), ∅⟩
  allocation := allocation.or
    (if cfg.isStateful then some (.new cfg fileSeed sharing (max groups 1)) else none)
  warnedUnmatched := false

/-- The pool of `target_for` under `random`. -/
def drawRandom (group : ℕ) (pool : Pool) : Prog (FlowState ρ) Empty (Option IpAddr) := fun s => do
  let state ← Outcome.index s.groups group
  let (target, rng) := pool.choose state.rng
  pure (target, { s with groups := s.groups.set group { state with rng } })

/-- The pool of `target_for` under `sticky` and `unique`. -/
def allocateFor (group : ℕ) (policy : MapPolicy) (id : AllocId) (pool : Pool) :
    Prog (FlowState ρ) Empty (Option IpAddr) := fun s =>
  match s.allocation with
  | none => .panic
  | some allocation => do
    let place := allocation.slotIndex group
    let slot ← Outcome.index allocation.slots place
    let (target, slot) ← slot.allocate policy id pool
    pure (target, { s with
      allocation := some { allocation with slots := allocation.slots.set place slot } })

/-- The pool of `target_for`. -/
def poolTarget (group entry : ℕ) (addr : IpAddr) (session : Option SessionId)
    (fragment : Option FragKey) (pool : Pool) (policy : MapPolicy) :
    Prog (FlowState ρ) Empty (Option IpAddr) := fun s =>
  if pool.len = 0 then .ok (none, s)
  else
    let identity := identity s.cfg.key session fragment
    match policy with
    | .random => drawRandom group pool s
    | .hash => .ok (pool.addrAt (hashIndex s.hashSeed entry addr identity pool.len), s)
    | policy => allocateFor group policy ⟨entry, identity, addr⟩ pool s

/-- `FlowState::target_for`. -/
def targetFor (group : ℕ) (addr : IpAddr) (session : Option SessionId)
    (fragment : Option FragKey) : Prog (FlowState ρ) Empty (Option IpAddr) := fun s =>
  if s.cfg.excluded addr then .ok (none, s)
  else
    match s.cfg.classify addr with
    | none => .ok (none, { s with warnedUnmatched := true })
    | some entry => do
      let compiled ← Outcome.index s.cfg.entries entry
      match compiled.action with
      | .fixed ip => .ok (if Family.ofAddr ip = Family.ofAddr addr then some ip else none, s)
      | .mask net => .ok (maskMap net addr, s)
      | .pool pool policy => poolTarget group entry addr session fragment pool policy s

/-- `FlowState::targets_for`. -/
def targetsFor (group : ℕ) (info : PacketInfo) (fragment : Option FragKey) :
    Prog (FlowState ρ) Empty Targets := do
  let src ← targetFor group info.src info.session fragment
  let dst ← targetFor group info.dst info.session fragment
  pure ⟨src, dst⟩

/-- The alias cache of a group: the targets that the first fragment of a datagram
was given. -/
def aliased (group : ℕ) (info : PacketInfo) (fragment : FragKey) :
    Prog (FlowState ρ) Empty Targets := fun s => do
  let state ← Outcome.index s.groups group
  match state.fragments.lookup fragment with
  | some targets => .ok (targets, s)
  | none => do
    let (targets, s) ← targetsFor group info (some fragment) s
    let state ← Outcome.index s.groups group
    pure (targets, { s with
      groups := s.groups.set group
        { state with fragments := state.fragments.insert fragment targets } })

/-- `FlowState::targets`. -/
def targets (group : ℕ) (info : PacketInfo) : Prog (FlowState ρ) Empty Targets := fun s =>
  match info.fragment.filter fun _ => s.cfg.fragments with
  | none => targetsFor group info none s
  | some fragment =>
    if s.cfg.needsAlias info then aliased group info fragment s
    else targetsFor group info (some fragment) s

/-- `FlowState::rewrite`: whether any address was rewritten, and the packet. -/
def rewrite (packet : Maja.Packet) (group : ℕ) : Prog (FlowState ρ) Empty (Bool × Maja.Packet) :=
  fun s => do
    match ← PacketInfo.read packet with
    | none => .ok ((false, packet), s)
    | some info =>
      if s.cfg.protocols.allows info.proto then do
        let (targets, s) ← targets group info s
        let packet ← applyTargets packet targets
        pure ((targets.src.isSome || targets.dst.isSome, packet), s)
      else .ok ((false, packet), s)

end FlowState

end Mergecap
end Maja
