/-
# Compiled map entries

`tools/maja-mergecap/src/map/entry.rs` up to the direct maps: what an entry of a
configuration compiles to, and the order in which entries are searched.
-/

import Maja.Mergecap.Map.Pool
import Mathlib.Order.OrderDual

namespace Maja
namespace Mergecap

open Lib

/-- Why a map does not compile. -/
inductive CompileError where
  | unfit (shape : MapShape) (target : Target)
  | emptyProtocols
  | unknownProtocol (name : String)
  deriving DecidableEq, Repr

/-- `Action`. -/
inductive Action where
  | fixed (ip : IpAddr)
  | mask (net : IpNet)
  | pool (pool : Pool) (policy : MapPolicy)
  deriving DecidableEq, Repr

/-- `CompiledEntry`. -/
structure CompiledEntry where
  source : Option IpNet
  action : Action
  deriving DecidableEq, Repr

namespace CompiledEntry

/-- The `match` of `CompiledEntry::compile`. -/
def compileAction (entry : MapEntry) (defaultPolicy : MapPolicy) : Except CompileError Action :=
  match entry.shape, entry.target with
  | .fixed, .ip ip => .ok (.fixed ip)
  | .mask, .net net => .ok (.mask net)
  | .pool, .net net => .ok (.pool (.fromNets [net]) (entry.policy.getD defaultPolicy))
  | shape, target => .error (.unfit shape target)

/-- `CompiledEntry::compile`. -/
def compile (entry : MapEntry) (defaultPolicy : MapPolicy) : Except CompileError CompiledEntry := do
  let action ← compileAction entry defaultPolicy
  pure ⟨entry.source, action⟩

/-- `CompiledEntry::pool_len`. -/
def poolLen (entry : CompiledEntry) : ℕ :=
  match entry.action with
  | .pool pool _ => pool.len
  | .fixed _ => 0
  | .mask _ => 0

/-- The length of the `from` prefix; a catch-all counts as zero. -/
def prefixLen (entry : CompiledEntry) : ℕ := entry.source.elim 0 IpNet.prefixLen

end CompiledEntry

/-- `sort_entries`: the longest prefix first. -/
def sortEntries (entries : List CompiledEntry) : List CompiledEntry :=
  sortByKey (fun entry => OrderDual.toDual entry.prefixLen) entries

/-- What an entry compiles to: the target decides. -/
inductive CompilesTo (entry : MapEntry) (defaultPolicy : MapPolicy) : CompiledEntry → Prop
  | fixed {ip : IpAddr} : entry.shape = .fixed → entry.target = .ip ip →
      CompilesTo entry defaultPolicy ⟨entry.source, .fixed ip⟩
  | mask {net : IpNet} : entry.shape = .mask → entry.target = .net net →
      CompilesTo entry defaultPolicy ⟨entry.source, .mask net⟩
  | pool {net : IpNet} : entry.shape = .pool → entry.target = .net net →
      CompilesTo entry defaultPolicy
        ⟨entry.source, .pool (.fromNets [net]) (entry.policy.getD defaultPolicy)⟩

/-- What `compile` returns is what the entry says. -/
theorem CompilesTo.of_compile {entry : MapEntry} {defaultPolicy : MapPolicy}
    {compiled : CompiledEntry} (h : CompiledEntry.compile entry defaultPolicy = .ok compiled) :
    CompilesTo entry defaultPolicy compiled := by
  unfold CompiledEntry.compile CompiledEntry.compileAction at h
  split at h
  · obtain rfl := Except.ok.inj h
    exact .fixed ‹_› ‹_›
  · obtain rfl := Except.ok.inj h
    exact .mask ‹_› ‹_›
  · obtain rfl := Except.ok.inj h
    exact .pool ‹_› ‹_›
  · cases h

end Mergecap
end Maja
