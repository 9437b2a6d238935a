/-
# Which entry answers for an address

`FlowCfg::classify` takes the first entry, longest prefix first, that contains the
address or has no `from`.  `Scope` is what that search looks at, together with the
family of the target; `Right` is the entry that should be found.  The two agree
unless a catch-all stands in front: catch-alls of either family and explicit `/0`
networks all have prefix length zero, and are searched in the order of the
configuration.
-/

import Maja.Mergecap.Map.Stable
import Mathlib.Data.List.Find

namespace Maja
namespace Mergecap

open Lib Packet

/-- What is known of an entry before an address comes: its `from`, and the family
of its target. -/
structure Scope where
  source : Option IpNet
  family : Family
  deriving DecidableEq, Repr

namespace Scope

/-- The `from` contains the address. -/
def covers (addr : IpAddr) (scope : Scope) : Bool := scope.source.any fun net => net.contains addr

/-- The search stops at the entry: it contains the address, or it has no `from`. -/
def takes (addr : IpAddr) (scope : Scope) : Bool :=
  scope.source.elim true fun net => net.contains addr

/-- The length of the prefix; a catch-all counts as zero. -/
def prefixLen (scope : Scope) : ℕ := scope.source.elim 0 IpNet.prefixLen

/-- A catch-all for the address's own family. -/
def CatchesAll (addr : IpAddr) (scope : Scope) : Prop :=
  scope.source = none ∧ scope.family = Family.ofAddr addr

/-- The order of the search. -/
def sort (scopes : List Scope) : List Scope :=
  sortByKey (fun scope => OrderDual.toDual scope.prefixLen) scopes

/-- The entry that should answer: the one that contains the address with the
longest prefix, else the catch-all of its family, else none. -/
inductive Right (scopes : List Scope) (addr : IpAddr) : Option Scope → Prop
  | longest {scope : Scope} : scope ∈ scopes → scope.covers addr = true →
      (∀ other ∈ scopes, other.covers addr = true → other.prefixLen ≤ scope.prefixLen) →
      Right scopes addr (some scope)
  | catchAll {scope : Scope} : scope ∈ scopes → scope.CatchesAll addr →
      (∀ other ∈ scopes, other.covers addr = false) → Right scopes addr (some scope)
  | unmatched : (∀ other ∈ scopes, other.covers addr = false) →
      (∀ other ∈ scopes, ¬other.CatchesAll addr) → Right scopes addr none

/-- No catch-all stands in front: the address lies in a network with a prefix, or
the first entry of the configuration that would take it has a `from`, or is the
catch-all of its family with no network to go before it, or there is none. -/
def InFront (scopes : List Scope) (addr : IpAddr) : Prop :=
  (∃ scope ∈ scopes, scope.covers addr = true ∧ 0 < scope.prefixLen) ∨
    ∀ scope, scopes.find? (takes addr) = some scope →
      scope.source ≠ none ∨
        scope.family = Family.ofAddr addr ∧ ∀ other ∈ scopes, other.covers addr = false

variable {scopes : List Scope} {scope other : Scope} {addr : IpAddr}

/-- A scope takes the addresses that its network covers. -/
theorem takes_of_covers (h : scope.covers addr = true) : scope.takes addr = true := by
  cases hsource : scope.source with
  | none => simp [covers, hsource] at h
  | some net => simpa [covers, takes, hsource] using h

/-- A scope with a network covers what it takes. -/
theorem covers_of_takes (h : scope.takes addr = true) (hsource : scope.source ≠ none) :
    scope.covers addr = true := by
  obtain ⟨net, hnet⟩ := Option.ne_none_iff_exists'.1 hsource
  simpa [covers, takes, hnet] using h

/-- A scope that covers an address has a network. -/
theorem source_ne_none_of_covers (h : scope.covers addr = true) : scope.source ≠ none := by
  rintro hsource
  simp [covers, hsource] at h

/-- A scope with a prefix has a network. -/
theorem source_ne_none_of_prefixLen_pos (h : 0 < scope.prefixLen) : scope.source ≠ none := by
  rintro hsource
  simp [prefixLen, hsource] at h

/-- The first entry in the order of the search has the longest prefix of all that
take the address. -/
theorem prefixLen_le_of_find? (h : (sort scopes).find? (takes addr) = some scope)
    (hmem : other ∈ scopes) (htakes : other.takes addr = true) :
    other.prefixLen ≤ scope.prefixLen := by
  have hsorted := (stablySorted_sortByKey (fun s : Scope => OrderDual.toDual s.prefixLen) scopes)
  obtain ⟨htakes', before, behind, hsplit, hbefore⟩ := List.find?_eq_some_iff_append.1 h
  have hmem' : other ∈ sort scopes := hsorted.perm.mem_iff.2 hmem
  rw [hsplit, List.mem_append, List.mem_cons] at hmem'
  obtain hmem' | rfl | hmem' := hmem'
  · have := hbefore _ hmem'
    simp [htakes] at this
  · exact le_rfl
  · have hpairwise := hsorted.sorted
    change (sort scopes).Pairwise _ at hpairwise
    rw [hsplit] at hpairwise
    exact (List.pairwise_cons.1 (List.pairwise_append.1 hpairwise).2.1).1 _ hmem'

/-- Among entries of prefix length zero the search keeps to the configuration. -/
theorem find?_sort_of_zero (h : ∀ scope ∈ scopes, scope.takes addr = true → scope.prefixLen = 0) :
    (sort scopes).find? (takes addr) = scopes.find? (takes addr) := by
  have hsorted := (stablySorted_sortByKey (fun s : Scope => OrderDual.toDual s.prefixLen) scopes)
  have hzero : ∀ l : List Scope, (∀ scope ∈ l, scope.takes addr = true → scope.prefixLen = 0) →
      l.find? (takes addr) =
        (l.filter fun s => OrderDual.toDual s.prefixLen = OrderDual.toDual 0).find? (takes addr) := by
    intro l hl
    rw [List.find?_filter]
    refine List.find?_congr fun scope hscope => ?_
    by_cases htakes : scope.takes addr = true
    · simp [htakes, hl scope hscope htakes]
    · simp [htakes]
  rw [hzero (sort scopes) fun scope hscope => h scope (hsorted.perm.mem_iff.1 hscope),
    hzero scopes h]
  exact congrArg _ (hsorted.stable _)

/-- **The search finds the right entry exactly when no catch-all stands in
front.** -/
theorem right_iff_inFront (scopes : List Scope) (addr : IpAddr) :
    Right scopes addr ((sort scopes).find? (takes addr)) ↔ InFront scopes addr := by
  by_cases hlong : ∃ scope ∈ scopes, scope.covers addr = true ∧ 0 < scope.prefixLen
  · -- a network with a prefix goes before all catch-alls
    refine iff_of_true ?_ (.inl hlong)
    obtain ⟨scope, hmem, hcovers, hpos⟩ := hlong
    cases hfind : (sort scopes).find? (takes addr) with
    | none =>
        have hnot := List.find?_eq_none.1 hfind scope ((sortByKey_perm _ scopes).mem_iff.2 hmem)
        exact absurd (takes_of_covers hcovers) hnot
    | some found =>
        have hle := prefixLen_le_of_find? hfind hmem (takes_of_covers hcovers)
        have hsource := source_ne_none_of_prefixLen_pos (hpos.trans_le hle)
        refine .longest ((sortByKey_perm _ scopes).mem_iff.1 (List.mem_of_find?_eq_some hfind))
          (covers_of_takes (List.find?_some hfind) hsource) fun other hother hcovers => ?_
        exact prefixLen_le_of_find? hfind hother (takes_of_covers hcovers)
  · have hzero : ∀ scope ∈ scopes, scope.takes addr = true → scope.prefixLen = 0 := by
      intro scope hmem htakes
      by_contra hne
      have hpos := Nat.pos_of_ne_zero hne
      exact hlong ⟨scope, hmem, covers_of_takes htakes (source_ne_none_of_prefixLen_pos hpos), hpos⟩
    rw [find?_sort_of_zero hzero]
    constructor
    · rintro hright
      refine .inr fun scope hfind => ?_
      rw [hfind] at hright
      cases hright with
      | longest _ hcovers => exact .inl (source_ne_none_of_covers hcovers)
      | catchAll _ hcatches hnone => exact .inr ⟨hcatches.2, hnone⟩
    · rintro (hlong' | hfirst)
      · exact absurd hlong' hlong
      · cases hfind : scopes.find? (takes addr) with
        | none =>
            have hnot := List.find?_eq_none.1 hfind
            refine .unmatched (fun other hother => ?_) fun other hother hcatches => ?_
            · by_contra hcovers
              exact hnot other hother (takes_of_covers (by simpa using hcovers))
            · exact hnot other hother (by simp [takes, hcatches.1])
        | some scope =>
            have hmem := List.mem_of_find?_eq_some hfind
            have htakes := List.find?_some hfind
            by_cases hsource : scope.source = none
            · obtain hne | ⟨hfamily, hnone⟩ := hfirst scope hfind
              · exact absurd hsource hne
              · exact .catchAll hmem ⟨hsource, hfamily⟩ hnone
            · refine .longest hmem (covers_of_takes htakes hsource) fun other hother hcovers => ?_
              rw [hzero other hother (takes_of_covers hcovers)]
              exact Nat.zero_le _

end Scope

/-! ### The scopes of a map -/

/-- The scope of an entry of the configuration. -/
def MapEntry.scope (entry : MapEntry) : Scope := ⟨entry.source, Family.ofNet entry.target.toNet⟩

/-- The family that an action hands out addresses of. -/
def Action.family : Action → Family
  | .fixed ip => .ofAddr ip
  | .mask net => .ofNet net
  | .pool hosts _ => (hosts.nets.head?.map fun net => Family.ofNet net.1).getD .v4

/-- The scope of a compiled entry. -/
def CompiledEntry.scope (entry : CompiledEntry) : Scope := ⟨entry.source, entry.action.family⟩

/-- The network of one address is of the family of the address. -/
theorem Family.ofNet_ofAddr (ip : IpAddr) : ofNet (.ofAddr ip) = ofAddr ip := by
  cases ip <;> rfl

/-- Compiling keeps the scope. -/
theorem CompilesTo.scope_eq {entry : MapEntry} {policy : MapPolicy} {compiled : CompiledEntry}
    (h : CompilesTo entry policy compiled) : compiled.scope = entry.scope := by
  cases h with
  | fixed _ htarget =>
      rw [MapEntry.scope, htarget]
      exact congrArg (Scope.mk _) (Family.ofNet_ofAddr _).symm
  | mask _ htarget =>
      rw [MapEntry.scope, htarget]
      rfl
  | pool _ htarget =>
      rw [MapEntry.scope, htarget]
      simp [CompiledEntry.scope, Action.family, Pool.fromNets_singleton, Target.toNet]

/-- **`classify` searches the scopes of the configuration, longest prefix first.** -/
theorem FlowCfg.scope_entryOf {flow : FlowMap} {cfg : FlowCfg} (h : compile flow = .ok cfg)
    (addr : IpAddr) : (cfg.entryOf addr).map CompiledEntry.scope =
      (Scope.sort (flow.entries.map MapEntry.scope)).find? (Scope.takes addr) := by
  obtain ⟨entries, hall, hsort, -⟩ := of_compile h
  have hscopes : flow.entries.map MapEntry.scope = entries.map CompiledEntry.scope :=
    map_eq_map_of_forall₂ (fun _ _ _ hto => hto.scope_eq.symm) hall
  have hsorted : Scope.sort (entries.map CompiledEntry.scope) =
      cfg.entries.map CompiledEntry.scope := by
    rw [hsort, sortEntries]
    exact (map_sortByKey (fun _ => rfl) entries).symm
  have hfind : cfg.entryOf addr = cfg.entries.find? fun entry => takes entry addr := by
    rw [List.find?_eq_bind_findIdx?_getElem?]
    rfl
  rw [hscopes, hsorted, hfind, List.find?_map]
  rfl

end Mergecap
end Maja
