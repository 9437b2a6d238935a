/-
# The configuration of an input file

`InputFile` and `MergeArgs` of `tools/maja-mergecap/src/config.rs`, and the
checks that a configuration passes before anything is merged.  A check that fails
says which one it was; the text of the message and the path in it are left out.

Addresses and networks are as wide as their family, so a network outside its
family cannot be written down.
-/

import Maja.Lib.Word

namespace Maja
namespace Mergecap

open Lib

/-! ### Addresses -/

/-- `IpAddr`. -/
inductive IpAddr where
  | v4 (bits : BitVec 32)
  | v6 (bits : BitVec 128)
  deriving DecidableEq, Repr

/-- `ipnet::IpNet`: an address and a prefix length of the address's family. -/
inductive IpNet where
  | v4 (addr : BitVec 32) (prefixLen : Fin 33)
  | v6 (addr : BitVec 128) (prefixLen : Fin 129)
  deriving DecidableEq, Repr

instance IpNet.neZero_v4 : NeZero (32 + 1) := ⟨by decide⟩

instance IpNet.neZero_v6 : NeZero (128 + 1) := ⟨by decide⟩

/-- `IpNet::prefix_len`. -/
def IpNet.prefixLen : IpNet → ℕ
  | v4 _ len => len
  | v6 _ len => len

/-- `IpNet::from(IpAddr)`: the network of one address. -/
def IpNet.ofAddr : IpAddr → IpNet
  | .v4 bits => v4 bits 32
  | .v6 bits => v6 bits 128

/-- `same_family`. -/
def sameFamily : IpNet → IpNet → Bool
  | .v4 _ _, .v4 _ _ => true
  | .v6 _ _, .v6 _ _ => true
  | _, _ => false

/-! ### Map entries -/

/-- `MapShape`. -/
inductive MapShape where
  | fixed
  | pool
  | mask
  deriving DecidableEq, Repr

/-- `MapPolicy`. -/
inductive MapPolicy where
  | random
  | sticky
  | unique
  | hash
  deriving DecidableEq, Repr

/-- `MapPolicy::is_stateful`. -/
def MapPolicy.isStateful : MapPolicy → Bool
  | sticky | unique => true
  | random | hash => false

/-- `MapKey`. -/
inductive MapKey where
  | session
  | address
  deriving DecidableEq, Repr

/-- `MapSharing`. -/
inductive MapSharing where
  | perGroup
  | shared
  deriving DecidableEq, Repr

/-- `AllocScope`. -/
inductive AllocScope where
  | file
  | global
  deriving DecidableEq, Repr

/-- `Target`. -/
inductive Target where
  | ip (addr : IpAddr)
  | net (net : IpNet)
  deriving DecidableEq, Repr

/-- `Target::net`. -/
def Target.toNet : Target → IpNet
  | .ip addr => .ofAddr addr
  | .net n => n

/-- `MapEntry`. -/
structure MapEntry where
  source : Option IpNet
  target : Target
  shapeField : Option MapShape
  policy : Option MapPolicy
  deriving DecidableEq, Repr

/-- `MapEntry::shape`: inferred from the target when the field is absent. -/
def MapEntry.shape (entry : MapEntry) : MapShape :=
  entry.shapeField.getD (match entry.target with
    | .ip _ => .fixed
    | .net _ => .pool)

/-- `ProtocolSpec`. -/
inductive ProtocolSpec where
  | one (s : String)
  | list (names : List String)
  deriving DecidableEq, Repr

/-- `ProtocolSpec::default_tcp_udp`. -/
def ProtocolSpec.defaultTcpUdp : ProtocolSpec := .list ["tcp", "udp"]

/-- `default_exclude`: IPv4 multicast and limited broadcast, IPv6 multicast. -/
def defaultExclude : List IpNet :=
  [.v4 0xE0000000 4, .v4 0xFFFFFFFF 32, .v6 (0xFF <<< 120) 8]

/-- `FlowMap`, with the defaults of the fields that no check reads. -/
structure FlowMap where
  key : MapKey
  policy : MapPolicy
  allocScope : AllocScope
  sharing : Option MapSharing
  entries : List MapEntry
  exclude : List IpNet := defaultExclude
  protocols : ProtocolSpec := .defaultTcpUdp
  fragments : Bool := true
  deriving DecidableEq, Repr

/-- `InputFile`.  A start time is an `i32`. -/
structure InputFile where
  startTimeField : Option (List {s : ℤ // -2 ^ 31 ≤ s ∧ s ≤ 2 ^ 31 - 1})
  repeatField : Option ℕ
  repeatInterval : Option ℕ
  parallelField : Option ℕ
  parallelJitter : Option ℕ
  ipMapField : Option (List MapEntry)
  srcIpMapField : Option (List MapEntry)
  dstIpMapField : Option (List MapEntry)
  flowMap : Option FlowMap

/-- `MergeArgs`, less the fields of the writer and of the batching. -/
structure MergeArgs where
  eraseTimestamp : Option Bool
  keepSubsecond : Option Bool
  deriving DecidableEq, Repr

namespace InputFile

/-- `InputFile::default`. -/
instance : Inhabited InputFile :=
  ⟨⟨none, none, none, none, none, none, none, none, none⟩⟩

/-- The start time a group is given when none is set. -/
def noStart : {s : ℤ // -2 ^ 31 ≤ s ∧ s ≤ 2 ^ 31 - 1} := ⟨0, by norm_num⟩

/-- `InputFile::start_time`. -/
def startTime (file : InputFile) : List {s : ℤ // -2 ^ 31 ≤ s ∧ s ≤ 2 ^ 31 - 1} :=
  file.startTimeField.getD [noStart]

/-- `InputFile::repeat`. -/
def repeatCount (file : InputFile) : ℕ := file.repeatField.getD 1

/-- `InputFile::repeat_interval_ns`. -/
def repeatIntervalNs (file : InputFile) : I64 :=
  I64.ofWord (file.repeatInterval.getD 1000000000)

/-- `InputFile::parallel`. -/
def parallel (file : InputFile) : ℕ := file.parallelField.getD 1

/-- `InputFile::parallel_jitter_ns`. -/
def parallelJitterNs (file : InputFile) : ℕ := file.parallelJitter.getD 0

/-- `InputFile::ip_map`. -/
def ipMap (file : InputFile) : List MapEntry := file.ipMapField.getD []

/-- `InputFile::src_ip_map`. -/
def srcIpMap (file : InputFile) : List MapEntry := file.srcIpMapField.getD []

/-- `InputFile::dst_ip_map`. -/
def dstIpMap (file : InputFile) : List MapEntry := file.dstIpMapField.getD []

end InputFile

/-! ### Validation -/

/-- Which check a configuration fails. -/
inductive ConfigError where
  | emptyStartTime
  | zeroRepeat
  | zeroParallel
  | repeatIntervalTooLong
  | parallelJitterTooLong
  | flowMapWithDirectMap
  | crossFamily (source target : IpNet)
  | fixedNeedsIp (target : Target)
  | poolNeedsNet (target : Target)
  | maskNeedsNets (entry : MapEntry)
  | policyInDirectMap
  | policyNeedsPool (shape : MapShape)
  | emptyFlowMap
  | manyCatchAlls (version count : ℕ)
  | keyCannotMatter
  | allocScopeCannotMatter
  | sharingCannotMatter
  deriving DecidableEq, Repr

/-- `EntryContext`. -/
inductive EntryContext where
  | direct
  | flow
  deriving DecidableEq, Repr

/-- `bail!` when a condition holds. -/
def bailIf (condition : Prop) [Decidable condition] (e : ConfigError) : Except ConfigError Unit :=
  if condition then .error e else .ok ()

/-- The `match entry.shape()` of `check_entry`; a mask that shrinks its network
is only warned about. -/
def checkShape (entry : MapEntry) : Except ConfigError Unit :=
  match entry.shape, entry.target, entry.source with
  | .fixed, .ip _, _ => .ok ()
  | .fixed, target, _ => .error (.fixedNeedsIp target)
  | .pool, .net _, _ => .ok ()
  | .pool, target, _ => .error (.poolNeedsNet target)
  | .mask, .net _, some _ => .ok ()
  | .mask, _, _ => .error (.maskNeedsNets entry)

/-- `check_entry`. -/
def checkEntry (entry : MapEntry) (context : EntryContext) : Except ConfigError Unit := do
  match entry.source with
  | some source =>
      bailIf (sameFamily source entry.target.toNet = false)
        (.crossFamily source entry.target.toNet)
  | none => pure ()
  checkShape entry
  match entry.policy with
  | some _ => do
      bailIf (context = .direct) .policyInDirectMap
      bailIf (entry.shape ≠ .pool) (.policyNeedsPool entry.shape)
  | none => pure ()

/-- The catch-all entries of one address family. -/
def catchAlls (flow : FlowMap) (isV4 : Bool) : ℕ :=
  (flow.entries.filter fun entry => entry.source.isNone && (match entry.target.toNet with
    | .v4 _ _ => isV4
    | .v6 _ _ => !isV4)).length

/-- The policies of the pool entries, after their own overrides. -/
def poolPolicies (flow : FlowMap) : List MapPolicy :=
  (flow.entries.filter fun entry => entry.shape = .pool).map fun entry =>
    entry.policy.getD flow.policy

/-- `check_flow_map`. -/
def checkFlowMap (flow : FlowMap) : Except ConfigError Unit := do
  bailIf (flow.entries = []) .emptyFlowMap
  bailIf (1 < catchAlls flow true) (.manyCatchAlls 4 (catchAlls flow true))
  bailIf (1 < catchAlls flow false) (.manyCatchAlls 6 (catchAlls flow false))
  flow.entries.forM (checkEntry · .flow)
  let keyed := ((poolPolicies flow).filter (· ≠ .random)).length
  let stateful := ((poolPolicies flow).filter MapPolicy.isStateful).length
  bailIf (flow.key = .address ∧ keyed = 0) .keyCannotMatter
  bailIf (flow.allocScope = .global ∧ stateful = 0) .allocScopeCannotMatter
  bailIf (flow.sharing.isSome ∧ stateful = 0) .sharingCannotMatter

namespace InputFile

/-- `InputFile::validate`. -/
def validate (file : InputFile) : Except ConfigError Unit := do
  bailIf (file.startTimeField = some []) .emptyStartTime
  bailIf (file.repeatField = some 0) .zeroRepeat
  bailIf (file.parallelField = some 0) .zeroParallel
  bailIf (file.repeatInterval.any (2 ^ 63 - 1 < ·)) .repeatIntervalTooLong
  bailIf (file.parallelJitter.any (2 ^ 63 - 1 < ·)) .parallelJitterTooLong
  bailIf (file.flowMap.isSome ∧
    (file.ipMap ≠ [] ∨ file.srcIpMap ≠ [] ∨ file.dstIpMap ≠ [])) .flowMapWithDirectMap
  (file.srcIpMap ++ file.ipMap ++ file.dstIpMap).forM (checkEntry · .direct)
  match file.flowMap with
  | some flow => checkFlowMap flow
  | none => pure ()

/-- What `validate` establishes about the timeline of a file. -/
structure TimelineOk (file : InputFile) : Prop where
  startTime : file.startTime ≠ []
  repeatCount : 0 < file.repeatCount
  parallel : 0 < file.parallel
  repeatInterval : 0 ≤ file.repeatIntervalNs.val
  parallelJitter : file.parallelJitterNs ≤ 2 ^ 63 - 1

/-- `bail_if` passes exactly when its condition does not hold. -/
theorem bailIf_bind_eq_ok {β : Type} {condition : Prop} [Decidable condition] {e : ConfigError}
    {rest : Unit → Except ConfigError β} {b : β} :
    (bailIf condition e >>= rest) = .ok b ↔ ¬condition ∧ rest () = .ok b := by
  unfold bailIf
  split_ifs with h
  · exact iff_of_false (fun h' => by cases h') fun h' => h'.1 h
  · exact ⟨fun h' => ⟨h, h'⟩, fun h' => h'.2⟩

/-- A validated file has start times, repeats and groups. -/
theorem TimelineOk.of_validate {file : InputFile} (h : file.validate = .ok ()) :
    file.TimelineOk := by
  simp only [validate, bailIf_bind_eq_ok] at h
  obtain ⟨hstart, hrepeat, hparallel, hinterval, hjitter, -⟩ := h
  refine ⟨?_, ?_, ?_, ?_, ?_⟩
  · cases hs : file.startTimeField with
    | none => simp [InputFile.startTime, hs]
    | some starts =>
      rw [hs] at hstart
      simpa [InputFile.startTime, hs] using hstart
  · cases hr : file.repeatField with
    | none => simp [InputFile.repeatCount, hr]
    | some r =>
      rw [hr, Option.some.injEq] at hrepeat
      simpa [InputFile.repeatCount, hr] using Nat.pos_of_ne_zero hrepeat
  · cases hp : file.parallelField with
    | none => simp [InputFile.parallel, hp]
    | some p =>
      rw [hp, Option.some.injEq] at hparallel
      simpa [InputFile.parallel, hp] using Nat.pos_of_ne_zero hparallel
  · cases hi : file.repeatInterval with
    | none =>
      simp only [InputFile.repeatIntervalNs, hi]
      decide
    | some i =>
      have hle : i ≤ 2 ^ 63 - 1 := by simpa [hi] using hinterval
      simp only [InputFile.repeatIntervalNs, hi, Option.getD_some]
      rw [I64.ofWord_val (by omega)]
      exact Int.natCast_nonneg i
  · cases hj : file.parallelJitter with
    | none => simp [InputFile.parallelJitterNs, hj]
    | some j => simpa [InputFile.parallelJitterNs, hj] using hjitter

end InputFile

end Mergecap
end Maja
