/-
# Rewriting gives the right targets

`CanGive` says which targets an address may be given, by the entry that answers
for it alone.  The tables and the alias caches of every reached state hold such
targets only.  So a packet whose addresses are classified right is given targets
of its own family, and `rewrite` returns `true` exactly when it writes one.
-/

import Maja.Mergecap.Map.Classify
import Maja.Mergecap.Map.Readback

namespace Maja
namespace Mergecap

open Lib Packet

variable {ρ : Type}

/-- The targets that an address may be given. -/
def FlowCfg.CanGive (cfg : FlowCfg) (addr : IpAddr) (target : Option IpAddr) : Prop :=
  match cfg.role addr with
  | none => target = none
  | some (_, .fixed ip) => target = if Family.ofAddr ip = Family.ofAddr addr then some ip else none
  | some (_, .mask net) => target = maskMap net addr
  | some (_, .pool pool _) => ∃ net given, pool = .fromNets [net] ∧ target = some given ∧
      net.contains given = true

/-- Every address in the tables lies in the network of its entry. -/
def Allocation.Inside (cfg : FlowCfg) (a : Allocation ρ) : Prop :=
  ∀ slot ∈ a.slots, ∀ id target, slot.table.lookup id = some target → ∀ source net policy,
    cfg.entries[id.entry]? = some ⟨source, .pool (.fromNets [net]) policy⟩ →
    net.contains target = true

/-- A request keeps a slot inside. -/
theorem AllocSlot.Gives.inside {cfg : FlowCfg} {slot slot' : AllocSlot ρ} {id : AllocId}
    {net : IpNet} {policy : MapPolicy} {given : IpAddr} {source : Option IpNet}
    (h : slot.Gives id net policy given slot')
    (hentry : cfg.entries[id.entry]? = some ⟨source, .pool (.fromNets [net]) policy⟩)
    (hinside : ∀ id target, slot.table.lookup id = some target → ∀ source net policy,
      cfg.entries[id.entry]? = some ⟨source, .pool (.fromNets [net]) policy⟩ →
      net.contains target = true) :
    net.contains given = true ∧
      ∀ id target, slot'.table.lookup id = some target → ∀ source net policy,
        cfg.entries[id.entry]? = some ⟨source, .pool (.fromNets [net]) policy⟩ →
        net.contains target = true := by
  have hgiven : net.contains given = true := by
    obtain hknown | ⟨-, hnet⟩ := h.known_or_inside
    · exact hinside _ _ hknown _ _ _ hentry
    · exact hnet
  refine ⟨hgiven, fun id' target hlookup source' net' policy' hentry' => ?_⟩
  rw [h.lookup] at hlookup
  split_ifs at hlookup with hid
  · obtain rfl := Option.some.inj hlookup
    subst hid
    simp only [hentry, Option.some.injEq, CompiledEntry.mk.injEq, Action.pool.injEq] at hentry'
    rwa [← Pool.fromNets_singleton_inj hentry'.2.1]
  · exact hinside _ _ hlookup _ _ _ hentry'

namespace FlowState

/-- The allocation of the state is inside. -/
def Inside (s : FlowState ρ) : Prop := ∀ a, s.allocation = some a → a.Inside s.cfg

/-- The aliases hold targets that their endpoints may be given. -/
def AliasesOk (s : FlowState ρ) : Prop :=
  ∀ aliases ∈ s.aliases, ∀ key targets, aliases.lookup key = some targets →
    s.cfg.CanGive key.src targets.src ∧ s.cfg.CanGive key.dst targets.dst

variable [StdRng ρ] {s s' : FlowState ρ} {group : ℕ} {addr : IpAddr}
  {session : Option SessionId} {fragment : Option FragKey} {target : Option IpAddr}

/-- An allocation gives an address of the entry's network, and stays inside. -/
theorem allocateFor_inside {policy : MapPolicy} {entry : ℕ} {id : Identity} {net : IpNet}
    (hpolicy : policy.isStateful = true) (hinside : s.Inside)
    (hrole : s.cfg.role addr = some (entry, .pool (.fromNets [net]) policy))
    (h : allocateFor group policy ⟨entry, id, addr⟩ (.fromNets [net]) s = .ok (target, s')) :
    s.cfg.CanGive addr target ∧ s'.Inside := by
  obtain ⟨a, slot, given, slot', ha, hslot, rfl, hgives, rfl⟩ := allocateFor_eq_ok hpolicy h
  obtain ⟨-, -, source, hentry⟩ := FlowCfg.role_eq_some hrole
  have hmem := List.mem_of_getElem? hslot
  obtain ⟨hgiven, hslot'⟩ := hgives.inside hentry (hinside a ha slot hmem)
  constructor
  · rw [FlowCfg.CanGive, hrole]
    exact ⟨net, given, rfl, rfl, hgiven⟩
  · rintro b hb slot₂ hslot₂
    obtain rfl := Option.some.inj hb
    obtain hslot₂ | rfl := List.mem_or_eq_of_mem_set hslot₂
    · exact hinside a ha slot₂ hslot₂
    · exact hslot'

/-- **An endpoint is given what it may be given.** -/
theorem targetFor_canGive (hpools : s.cfg.OneNetPools) (hinside : s.Inside)
    (h : targetFor group addr session fragment s = .ok (target, s')) :
    s.cfg.CanGive addr target ∧ s'.Inside := by
  rw [targetFor_eq] at h
  split at h
  · rename_i hrole
    cases h
    exact ⟨by rw [FlowCfg.CanGive, hrole], hinside⟩
  · rename_i hrole
    cases h
    exact ⟨by rw [FlowCfg.CanGive, hrole], hinside⟩
  · rename_i hrole
    cases h
    exact ⟨by rw [FlowCfg.CanGive, hrole], hinside⟩
  · rename_i entry pool policy hrole
    obtain ⟨net, rfl⟩ := hpools.of_role hrole
    rw [poolTarget_eq] at h
    have hhost : ∀ index, s.cfg.CanGive addr (some (hostAt net (index % hostCount net))) := by
      intro index
      rw [FlowCfg.CanGive, hrole]
      exact ⟨net, _, rfl, rfl, contains_hostAt (Nat.mod_lt _ (hostCount_pos net))⟩
    cases policy with
    | random =>
        obtain ⟨state, index, rng, -, rfl, rfl⟩ := drawRandom_eq_ok h
        exact ⟨hhost index, hinside⟩
    | hash =>
        cases h
        exact ⟨hhost _, hinside⟩
    | sticky => exact allocateFor_inside rfl hinside hrole h
    | unique => exact allocateFor_inside rfl hinside hrole h

/-- Both targets are ones that the entries of their addresses can give. -/
theorem targetsFor_canGive (hpools : s.cfg.OneNetPools) (hinside : s.Inside) {info : PacketInfo}
    {given : Targets} (h : targetsFor group info fragment s = .ok (given, s')) :
    (s.cfg.CanGive info.src given.src ∧ s.cfg.CanGive info.dst given.dst) ∧ s'.Inside := by
  obtain ⟨s₁, hsrc, hdst⟩ := targetsFor_eq_ok h
  have hcfg := (targetFor_grows hpools hsrc).1.cfg
  obtain ⟨hgive, hinside₁⟩ := targetFor_canGive hpools hinside hsrc
  obtain ⟨hgive', hinside'⟩ := targetFor_canGive (hcfg ▸ hpools) hinside₁ hdst
  exact ⟨⟨hgive, hcfg ▸ hgive'⟩, hinside'⟩

/-- Rewriting keeps the allocation inside. -/
theorem packetTargets_inside (hpools : s.cfg.OneNetPools) (hinside : s.Inside)
    {packet : Maja.Packet} {given : Targets}
    (h : packetTargets packet group s = .ok (given, s')) : s'.Inside := by
  obtain ⟨info, -, h⟩ := Outcome.bind_eq_ok.1 h
  split at h
  · cases h
    exact hinside
  · split_ifs at h
    · unfold targets at h
      split at h
      · exact (targetsFor_canGive hpools hinside h).2
      · split_ifs at h
        · obtain ⟨_, -, -, rfl⟩ | ⟨_, s₁, state, -, -, htargets, -, rfl⟩ := aliased_eq_ok h
          · exact hinside
          · exact (targetsFor_canGive hpools hinside htargets).2
        · exact (targetsFor_canGive hpools hinside h).2
    · cases h
      exact hinside

/-- The alias of a datagram gives what its endpoints may be given. -/
theorem aliased_canGive (hpools : s.cfg.OneNetPools) (hinside : s.Inside) (haliases : s.AliasesOk)
    {info : PacketInfo} {key : FragKey} (hsrc : key.src = info.src) (hdst : key.dst = info.dst)
    {given : Targets} (h : aliased group info key s = .ok (given, s')) :
    (s.cfg.CanGive info.src given.src ∧ s.cfg.CanGive info.dst given.dst) ∧ s'.AliasesOk := by
  obtain ⟨known, hknown, hlookup, rfl⟩ | ⟨known, s₁, state, hknown, hlookup, htargets, hstate, rfl⟩ :=
    aliased_eq_ok h
  · refine ⟨?_, haliases⟩
    rw [← hsrc, ← hdst]
    exact haliases known (List.mem_of_getElem? hknown) key given hlookup
  · obtain ⟨hgive, -⟩ := targetsFor_canGive hpools hinside htargets
    obtain ⟨hgrows, hsame⟩ := targetsFor_grows hpools htargets
    refine ⟨hgive, ?_⟩
    -- only the group's own table changes, by the new alias
    let state' : GroupState ρ := { state with fragments := state.fragments.insert key given }
    have hset : (s₁.groups.set group state').map GroupState.fragments =
        s.aliases.set group (state.fragments.insert key given) := by
      rw [← hsame]
      exact List.map_set
    intro table htable key' given' hlookup'
    change table ∈ (s₁.groups.set group state').map GroupState.fragments at htable
    rw [hset] at htable
    show s₁.cfg.CanGive _ _ ∧ s₁.cfg.CanGive _ _
    rw [hgrows.cfg]
    obtain htable | rfl := List.mem_or_eq_of_mem_set htable
    · exact haliases table htable key' given' hlookup'
    · by_cases hkey : key' = key
      · subst hkey
        rw [AList.lookup_insert] at hlookup'
        obtain rfl := Option.some.inj hlookup'
        rwa [hsrc, hdst]
      · rw [AList.lookup_insert_ne hkey] at hlookup'
        refine haliases state.fragments ?_ key' given' hlookup'
        rw [← hsame]
        exact List.mem_map_of_mem (List.mem_of_getElem? hstate)

/-- The targets of an allowed packet are what its addresses may be given, and the
aliases stay as they should. -/
theorem targets_canGive (hpools : s.cfg.OneNetPools) (hinside : s.Inside)
    (haliases : s.AliasesOk) {info : PacketInfo} (hheader : info.FromHeader) {given : Targets}
    (h : targets group info s = .ok (given, s')) :
    (s.cfg.CanGive info.src given.src ∧ s.cfg.CanGive info.dst given.dst) ∧ s'.AliasesOk := by
  have hsame : ∀ {fragment : Option FragKey},
      targetsFor group info fragment s = .ok (given, s') → s'.AliasesOk := by
    intro fragment h
    obtain ⟨hgrows, hsame⟩ := targetsFor_grows hpools h
    rwa [AliasesOk, hsame, hgrows.cfg]
  unfold targets at h
  split at h
  · exact ⟨(targetsFor_canGive hpools hinside h).1, hsame h⟩
  · rename_i key hkey
    split_ifs at h
    · obtain ⟨hsrc, hdst⟩ := hheader.fragment key (Option.mem_filter_iff.1 hkey).1
      exact aliased_canGive hpools hinside haliases hsrc hdst h
    · exact ⟨(targetsFor_canGive hpools hinside h).1, hsame h⟩

/-- Rewriting keeps the aliases as they should be. -/
theorem packetTargets_aliasesOk (hpools : s.cfg.OneNetPools) (hinside : s.Inside)
    (haliases : s.AliasesOk) {packet : Maja.Packet} {given : Targets}
    (h : packetTargets packet group s = .ok (given, s')) : s'.AliasesOk := by
  obtain ⟨info, hread, h⟩ := Outcome.bind_eq_ok.1 h
  split at h
  · cases h
    exact haliases
  · split_ifs at h
    · have hheader := PacketInfo.fromHeader_of_read hread
      exact (targets_canGive hpools hinside haliases hheader h).2
    · cases h
      exact haliases

/-- **A packet is given what its addresses may be given**, or nothing where its
protocol is not rewritten. -/
theorem packetTargets_canGive (hpools : s.cfg.OneNetPools) (hinside : s.Inside)
    (haliases : s.AliasesOk) {packet : Maja.Packet} {info : PacketInfo}
    (hinfo : info.Describes packet) {given : Targets}
    (h : packetTargets packet group s = .ok (given, s')) :
    if s.cfg.protocols.allows info.proto then
      s.cfg.CanGive info.src given.src ∧ s.cfg.CanGive info.dst given.dst
    else given = {} := by
  rw [packetTargets_eq hinfo] at h
  split_ifs at h ⊢ with hallows
  · have hheader := PacketInfo.fromHeader_of_read (hinfo Empty)
    exact (targets_canGive hpools hinside haliases hheader h).1
  · cases h
    rfl

end FlowState

/-! ### Reached states -/

/-- A new allocation has given nothing. -/
theorem Allocation.new_inside [StdRng ρ] (cfg : FlowCfg) (seed : UInt64) (sharing : MapSharing)
    (groups : ℕ) : (Allocation.new cfg seed sharing groups : Allocation ρ).Inside cfg := by
  have hempty : ∀ slot ∈ (Allocation.new cfg seed sharing groups : Allocation ρ).slots,
      slot.table = ∅ := by
    intro slot hslot
    cases sharing with
    | shared =>
        obtain rfl := List.mem_singleton.1 hslot
        rfl
    | perGroup =>
        obtain ⟨group, -, rfl⟩ := List.mem_map.1 hslot
        rfl
  intro slot hslot id target hlookup
  rw [hempty slot hslot, AList.lookup_empty] at hlookup
  cases hlookup

namespace FlowState

variable [StdRng ρ]

/-- The states that a map gets into: of a file with its own allocation, of the
first file of a shared one, of a file that joins later, and after any step. -/
inductive Reached (cfg : FlowCfg) : FlowState ρ → Prop
  | own {hashSeed fileSeed : UInt64} {groups : ℕ} {sharing : MapSharing} :
      Reached cfg (new cfg hashSeed fileSeed groups sharing none)
  | first {hashSeed fileSeed seed : UInt64} {groups groups' : ℕ} {sharing sharing' : MapSharing} :
      Reached cfg (new cfg hashSeed fileSeed groups sharing (some (.new cfg seed sharing' groups')))
  | joins {hashSeed fileSeed : UInt64} {groups : ℕ} {sharing : MapSharing} {other : FlowState ρ} :
      Reached cfg other → Reached cfg (new cfg hashSeed fileSeed groups sharing other.allocation)
  | step {s s' : FlowState ρ} : Reached cfg s → Step s s' → Reached cfg s'

/-- A new state has no aliases. -/
theorem aliasesOk_new (cfg : FlowCfg) (hashSeed fileSeed : UInt64) (groups : ℕ)
    (sharing : MapSharing) (allocation : Option (Allocation ρ)) :
    (new cfg hashSeed fileSeed groups sharing allocation).AliasesOk := by
  intro aliases haliases key targets hlookup
  obtain ⟨state, hstate, rfl⟩ := List.mem_map.1 haliases
  obtain ⟨group, -, rfl⟩ := List.mem_map.1 hstate
  rw [AList.lookup_empty] at hlookup
  cases hlookup

/-- A new state gives targets inside the pools when its allocation does. -/
theorem inside_new {cfg : FlowCfg} {hashSeed fileSeed : UInt64} {groups : ℕ}
    {sharing : MapSharing} {allocation : Option (Allocation ρ)}
    (h : ∀ a, allocation = some a → a.Inside cfg) :
    (new cfg hashSeed fileSeed groups sharing allocation).Inside := by
  intro a ha
  cases allocation with
  | some a' => exact h a ha
  | none =>
      simp only [new, Option.none_or, Option.ite_none_right_eq_some] at ha
      obtain ⟨-, ha⟩ := ha
      obtain rfl := Option.some.inj ha
      exact Allocation.new_inside _ _ _ _

/-- **What holds of every reached state.** -/
structure Sound (cfg : FlowCfg) (s : FlowState ρ) : Prop where
  cfg_eq : s.cfg = cfg
  inside : s.Inside
  aliases : s.AliasesOk

/-- Every state that is reached gives targets inside the pools. -/
theorem Reached.sound {cfg : FlowCfg} (hpools : cfg.OneNetPools) {s : FlowState ρ}
    (h : Reached cfg s) : s.Sound cfg := by
  induction h with
  | own => exact ⟨rfl, inside_new (fun a ha => by cases ha), aliasesOk_new _ _ _ _ _ _⟩
  | first =>
      refine ⟨rfl, inside_new fun a ha => ?_, aliasesOk_new _ _ _ _ _ _⟩
      obtain rfl := Option.some.inj ha
      exact Allocation.new_inside _ _ _ _
  | joins _ ih =>
      refine ⟨rfl, inside_new fun a ha => ?_, aliasesOk_new _ _ _ _ _ _⟩
      exact ih.cfg_eq ▸ ih.inside a ha
  | @step s s' _ hstep ih =>
      have hpools : s.cfg.OneNetPools := ih.cfg_eq ▸ hpools
      have hcfg := (hstep.grows hpools).cfg.trans ih.cfg_eq
      cases hstep with
      | rewrite hrewrite =>
          obtain ⟨given, hgiven, -⟩ := rewrite_eq_ok hrewrite
          exact ⟨hcfg, packetTargets_inside hpools ih.inside hgiven,
            packetTargets_aliasesOk hpools ih.inside ih.aliases hgiven⟩
      | @sharer _ _ _ other other' hsame hallocation hrewrite =>
          obtain ⟨given, hgiven, -⟩ := rewrite_eq_ok hrewrite
          have hother : other.Inside := fun a ha => hsame ▸ ih.inside a (hallocation ▸ ha)
          have hother' := packetTargets_inside (hsame ▸ hpools) hother hgiven
          refine ⟨hcfg, fun a ha => ?_, ih.aliases⟩
          have := hother' a ha
          rwa [(packetTargets_grows (hsame ▸ hpools) hgiven).cfg, hsame] at this

end FlowState

/-! ### Right targets -/

/-- A loop of checks that passes has passed every one. -/
theorem forall_of_forM {α ε : Type} {f : α → Except ε Unit} {as : List α}
    (h : as.forM f = .ok ()) : ∀ a ∈ as, f a = .ok () := by
  induction as with
  | nil => exact fun a ha => by cases ha
  | cons a as ih =>
      change (f a >>= fun _ => as.forM f) = .ok () at h
      cases ha : f a with
      | error e =>
          rw [ha] at h
          cases h
      | ok u =>
          rw [ha] at h
          exact List.forall_mem_cons.2 ⟨ha, ih h⟩

/-- A valid entry maps into the family of its `from`. -/
theorem family_of_valid {flow : FlowMap} (hvalid : checkFlowMap flow = .ok ()) {entry : MapEntry}
    (hmem : entry ∈ flow.entries) {net : IpNet} (hsource : entry.source = some net) :
    Family.ofNet net = entry.scope.family := by
  simp only [checkFlowMap, InputFile.bailIf_bind_eq_ok] at hvalid
  obtain ⟨-, -, -, hvalid⟩ := hvalid
  have hall : flow.entries.forM (checkEntry · .flow) = .ok () := by
    cases h : flow.entries.forM (checkEntry · .flow) with
    | error e =>
        rw [h] at hvalid
        cases hvalid
    | ok u => rfl
  have hentry := forall_of_forM hall entry hmem
  rw [checkEntry, hsource] at hentry
  obtain ⟨hsame, -⟩ := InputFile.bailIf_bind_eq_ok.1 hentry
  rw [MapEntry.scope]
  cases net <;> cases htarget : entry.target.toNet <;> simp_all [sameFamily, Family.ofNet]

/-- An address is of the family of a network that contains it. -/
theorem ofAddr_of_contains {net : IpNet} {addr : IpAddr} (h : net.contains addr = true) :
    Family.ofAddr addr = Family.ofNet net := by
  cases net <;> cases addr <;> first | rfl | cases h

/-- The entries of a valid map that answer for an address. -/
def FlowMap.scopes (flow : FlowMap) : List Scope := flow.entries.map MapEntry.scope

/-- Where the right entry answers, its target is of the address's family. -/
theorem family_of_right {flow : FlowMap} (hvalid : checkFlowMap flow = .ok ()) {addr : IpAddr}
    {scope : Scope} (h : Scope.Right flow.scopes addr (some scope)) :
    scope.family = Family.ofAddr addr := by
  cases h with
  | longest hmem hcovers =>
      obtain ⟨entry, hentry, rfl⟩ := List.mem_map.1 hmem
      obtain ⟨net, hsource⟩ := Option.ne_none_iff_exists'.1 (Scope.source_ne_none_of_covers hcovers)
      have hcontains : net.contains addr = true := by
        simpa [Scope.covers, hsource] using hcovers
      rw [← family_of_valid hvalid hentry hsource, ofAddr_of_contains hcontains]
  | catchAll _ hcatches => exact hcatches.2

/-- The targets that an entry has for an address. -/
def Action.Gives (action : Action) (addr target : IpAddr) : Prop :=
  match action with
  | .fixed ip => target = ip
  | .mask net => maskMap net addr = some target
  | .pool hosts _ => ∃ net ∈ hosts.nets, net.1.contains target = true

/-- An address is answered for as it should be: an excluded one has no target, the
right entry gives one of its own targets, of the address's family, and where no
entry is right there is none. -/
inductive AnsweredRight (flow : FlowMap) (cfg : FlowCfg) (addr : IpAddr) : Option IpAddr → Prop
  | excluded : cfg.excluded addr = true → AnsweredRight flow cfg addr none
  | given {entry : CompiledEntry} {target : IpAddr} : ¬cfg.excluded addr →
      cfg.entryOf addr = some entry → Scope.Right flow.scopes addr (some entry.scope) →
      entry.action.Gives addr target → Family.ofAddr target = Family.ofAddr addr →
      AnsweredRight flow cfg addr (some target)
  | unmatched : ¬cfg.excluded addr → cfg.entryOf addr = none →
      Scope.Right flow.scopes addr none → AnsweredRight flow cfg addr none

/-- The entry of an address that is answered for right is the right one. -/
theorem AnsweredRight.right {flow : FlowMap} {cfg : FlowCfg} {addr : IpAddr}
    {target : Option IpAddr} (h : AnsweredRight flow cfg addr target)
    (hexcluded : ¬cfg.excluded addr) :
    Scope.Right flow.scopes addr ((cfg.entryOf addr).map CompiledEntry.scope) := by
  cases h with
  | excluded hexcluded' => exact absurd hexcluded' hexcluded
  | given _ hentry hright => rwa [hentry]
  | unmatched _ hentry hright => rwa [hentry]

/-- The target is of the address's family. -/
theorem AnsweredRight.family {flow : FlowMap} {cfg : FlowCfg} {addr : IpAddr}
    {target : Option IpAddr} (h : AnsweredRight flow cfg addr target) :
    ∀ ip ∈ target, Family.ofAddr ip = Family.ofAddr addr := by
  rintro ip hip
  cases h with
  | excluded _ => cases hip
  | given _ _ _ _ hfamily =>
      obtain rfl := Option.some.inj hip
      exact hfamily
  | unmatched _ _ _ => cases hip

/-- An entry of the address's family gives it a target. -/
theorem FlowCfg.CanGive.exists_target {cfg : FlowCfg} {addr : IpAddr} {target : Option IpAddr}
    (h : cfg.CanGive addr target) (hexcluded : ¬cfg.excluded addr) {entry : CompiledEntry}
    (hentry : cfg.entryOf addr = some entry) (hfamily : entry.scope.family = Family.ofAddr addr) :
    ∃ ip, target = some ip ∧ entry.action.Gives addr ip ∧
      Family.ofAddr ip = Family.ofAddr addr := by
  obtain ⟨index, hclassify, hentry⟩ := Option.bind_eq_some_iff.1 hentry
  have hrole : cfg.role addr = some (index, entry.action) := by
    rw [role, if_neg hexcluded, hclassify, Option.bind_some, hentry]
    rfl
  unfold CanGive at h
  rw [hrole] at h
  obtain ⟨source, action⟩ := entry
  cases action with
  | fixed ip => exact ⟨ip, by simpa using h.trans (if_pos hfamily), rfl, hfamily⟩
  | mask net =>
      change target = maskMap net addr at h
      change Family.ofNet net = Family.ofAddr addr at hfamily
      cases net <;> cases addr <;> first | exact ⟨_, h, rfl, rfl⟩ | cases hfamily
  | pool pool policy =>
      obtain ⟨net, ip, rfl, rfl, hcontains⟩ := h
      refine ⟨ip, rfl, ⟨(net, hostCount net), ?_, hcontains⟩, ?_⟩
      · simp [Pool.fromNets_singleton]
      · rw [ofAddr_of_contains hcontains, ← hfamily]
        simp [CompiledEntry.scope, Action.family, Pool.fromNets_singleton]

/-- An address that no entry answers for is given no target. -/
theorem FlowCfg.CanGive.eq_none {cfg : FlowCfg} {addr : IpAddr} {target : Option IpAddr}
    (h : cfg.CanGive addr target) (hnone : cfg.role addr = none) : target = none := by
  unfold CanGive at h
  rwa [hnone] at h

/-- **Where the right entry answers, so does what it gives.** -/
theorem FlowCfg.CanGive.answeredRight {flow : FlowMap} {cfg : FlowCfg}
    (hvalid : checkFlowMap flow = .ok ()) {addr : IpAddr} {target : Option IpAddr}
    (h : cfg.CanGive addr target) (hright : ¬cfg.excluded addr →
      Scope.Right flow.scopes addr ((cfg.entryOf addr).map CompiledEntry.scope)) :
    AnsweredRight flow cfg addr target := by
  by_cases hexcluded : cfg.excluded addr = true
  · obtain rfl := h.eq_none (if_pos hexcluded)
    exact .excluded hexcluded
  · replace hright := hright hexcluded
    cases hentry : cfg.entryOf addr with
    | none =>
        have hrole : cfg.role addr = none := by
          cases hrole : cfg.role addr with
          | none => rfl
          | some found =>
              obtain ⟨-, hclassify, source, hentry'⟩ := role_eq_some hrole
              rw [entryOf, hclassify, Option.bind_some, hentry'] at hentry
              cases hentry
        obtain rfl := h.eq_none hrole
        rw [hentry] at hright
        exact .unmatched hexcluded hentry hright
    | some entry =>
        rw [hentry] at hright
        obtain ⟨ip, rfl, hgives, hfamily⟩ :=
          h.exists_target hexcluded hentry (family_of_right hvalid hright)
        exact .given hexcluded hentry hright hgives hfamily

/-- What should hold of a packet that was rewritten: its addresses are those of
`info`, or the targets in their place, where there are any, `true` is returned exactly
when there is one, and both addresses are answered for right unless the protocol of
the packet is not to be rewritten. -/
structure RewrittenRight (flow : FlowMap) (cfg : FlowCfg) (info : PacketInfo) (given : Targets)
    (changed : Bool) (packet' : Maja.Packet) : Prop where
  shown : ∀ ε : Type, (outerAddrs packet' : Outcome ε _) =
    .ok (some (given.src.getD info.src, given.dst.getD info.dst))
  returned : changed = (given.src.isSome || given.dst.isSome)
  answered : if cfg.protocols.allows info.proto then
      AnsweredRight flow cfg info.src given.src ∧ AnsweredRight flow cfg info.dst given.dst
    else given = {}

namespace FlowState

variable [StdRng ρ] {s s' : FlowState ρ} {group : ℕ}

/-- **Classification and rewriting are right exactly when no catch-all stands in
front.**  For every map that passes validation, every state it gets into and every
packet: the right entries answer for the packet's addresses, their targets are what
the packet shows afterwards, and `true` is returned exactly when one was written, if
and only if the packet's protocol is not rewritten, or for each address that is not
excluded no catch-all is searched before the entry that should answer. -/
theorem rewrittenRight_iff {flow : FlowMap} (hvalid : checkFlowMap flow = .ok ()) {cfg : FlowCfg}
    (hcompile : FlowCfg.compile flow = .ok cfg) (hreached : Reached cfg s) {p p' : Maja.Packet}
    {i : PacketInfo} (hi : i.Describes p) {changed : Bool}
    (hrewrite : rewrite p group s = .ok ((changed, p'), s')) :
    (∃ given, packetTargets p group s = .ok (given, s') ∧
        RewrittenRight flow cfg i given changed p') ↔
      (cfg.protocols.allows i.proto = true →
        ∀ addr ∈ [i.src, i.dst], ¬cfg.excluded addr → Scope.InFront flow.scopes addr) := by
  have hpools := FlowCfg.oneNetPools_of_compile hcompile
  have hright : ∀ addr, Scope.Right flow.scopes addr ((cfg.entryOf addr).map CompiledEntry.scope) ↔
      Scope.InFront flow.scopes addr := by
    intro addr
    rw [FlowCfg.scope_entryOf hcompile]
    exact Scope.right_iff_inFront _ _
  obtain ⟨given, hgiven, hchanged, happly⟩ := rewrite_eq_ok hrewrite
  obtain ⟨rfl, hinside, haliases⟩ := hreached.sound hpools
  constructor
  · rintro ⟨_, _, h⟩ hallows addr hmem hexcluded
    have hanswered := h.answered
    rw [if_pos hallows] at hanswered
    simp only [List.mem_cons, List.not_mem_nil, or_false] at hmem
    obtain rfl | rfl := hmem
    · exact (hright _).1 (hanswered.1.right hexcluded)
    · exact (hright _).1 (hanswered.2.right hexcluded)
  · intro h
    have hgive := packetTargets_canGive hpools hinside haliases hi hgiven
    have hanswered : if s.cfg.protocols.allows i.proto then
        AnsweredRight flow s.cfg i.src given.src ∧ AnsweredRight flow s.cfg i.dst given.dst
      else given = {} := by
      split_ifs at hgive ⊢ with hallows
      · exact ⟨hgive.1.answeredRight hvalid fun hexcluded =>
            (hright _).2 (h hallows _ (by simp) hexcluded),
          hgive.2.answeredRight hvalid fun hexcluded =>
            (hright _).2 (h hallows _ (by simp) hexcluded)⟩
      · exact hgive
    -- the targets are of the addresses' families, so they are written
    have hfamilies : (∀ ip ∈ given.src, Family.ofAddr ip = Family.ofAddr i.src) ∧
        ∀ ip ∈ given.dst, Family.ofAddr ip = Family.ofAddr i.dst := by
      split_ifs at hanswered with hallows
      · exact ⟨hanswered.1.family, hanswered.2.family⟩
      · subst hanswered
        exact ⟨by rintro ip ⟨⟩, by rintro ip ⟨⟩⟩
    refine ⟨given, hgiven, fun ε => ?_, hchanged, hanswered⟩
    obtain ⟨rfl, rfl⟩ | happly := happly
    · exact hi.outerAddrs_eq ε
    · exact outerAddrs_applyTargets hfamilies.1 hfamilies.2 happly hi.outerAddrs_eq

/-- A packet of two hosts of `192.168.0.0/16=>10.0.0.0/30`. -/
theorem rewrittenRight_iff_twoHosts :
    ∃ s s' : FlowState LeastRng, ∃ r given,
      rewrite (tcpPacket [192, 168, 0, 1] [192, 168, 0, 2] 99 80) 0 s = .ok (r, s') ∧
      packetTargets (tcpPacket [192, 168, 0, 1] [192, 168, 0, 2] 99 80) 0 s = .ok (given, s') ∧
      RewrittenRight AllocSlot.twoHosts AllocSlot.twoHostsCfg
        (tcpInfo 0xC0A80001 0xC0A80002 99 80) given r.1 r.2 := by
  let s : FlowState LeastRng := FlowState.new AllocSlot.twoHostsCfg 1 2 1 .perGroup none
  have hreturns : (rewrite (tcpPacket [192, 168, 0, 1] [192, 168, 0, 2] 99 80) 0
      s).toOption.isSome = true := by
    decide +kernel
  obtain ⟨⟨⟨changed, p'⟩, s'⟩, hrewrite⟩ := Option.isSome_iff_exists.1 hreturns
  replace hrewrite := Outcome.toOption_eq_some.1 hrewrite
  obtain ⟨given, hgiven, hright⟩ := (rewrittenRight_iff (by decide +kernel)
    AllocSlot.twoHosts_compile (s := s) .own (i := tcpInfo 0xC0A80001 0xC0A80002 99 80)
    (fun _ => rfl) hrewrite).2 (by
      intro _ addr hmem _
      -- both addresses lie in the one network
      refine .inl ⟨⟨some (.v4 0xC0A80000 16), .v4⟩, by decide, ?_, by decide⟩
      simp only [List.mem_cons, List.not_mem_nil, or_false] at hmem
      obtain rfl | rfl := hmem
      · decide
      · decide)
  exact ⟨s, s', _, given, hrewrite, hgiven, hright⟩

/-- `=>2001:db8::/126` in front of `=>10.0.0.0/30`: a catch-all for each family. -/
def bothFamilies : FlowMap where
  key := .address
  policy := .sticky
  allocScope := .file
  sharing := none
  entries := [⟨none, .net (.v6 (0x20010DB8 <<< 96) 126), none, none⟩,
    ⟨none, .net (.v4 0x0A000000 30), none, none⟩]

/-- What it compiles to. -/
def bothFamiliesCfg : FlowCfg where
  key := .address
  entries := [⟨none, .pool ⟨[(.v6 (0x20010DB8 <<< 96) 126, 4)], 4⟩ .sticky⟩,
    ⟨none, .pool ⟨[(.v4 0x0A000000 30, 2)], 2⟩ .sticky⟩]
  exclude := defaultExclude
  protocols := ⟨false, [17, 6]⟩
  fragments := true

/-- A valid map with a catch-all for each family: the one of IPv6 answers for the
addresses of an IPv4 packet, `true` is returned, and the packet is left as it is. -/
theorem rewritten_wrong_bothFamilies :
    checkFlowMap bothFamilies = .ok () ∧ FlowCfg.compile bothFamilies = .ok bothFamiliesCfg ∧
      ∃ s s' : FlowState LeastRng, Reached bothFamiliesCfg s ∧
        rewrite (tcpPacket [192, 168, 0, 1] [8, 8, 8, 8] 99 80) 0 s =
          .ok ((true, tcpPacket [192, 168, 0, 1] [8, 8, 8, 8] 99 80), s') ∧
        ¬∃ given, packetTargets (tcpPacket [192, 168, 0, 1] [8, 8, 8, 8] 99 80) 0 s =
            .ok (given, s') ∧
          RewrittenRight bothFamilies bothFamiliesCfg (tcpInfo 0xC0A80001 0x08080808 99 80)
            given true (tcpPacket [192, 168, 0, 1] [8, 8, 8, 8] 99 80) := by
  have hcompile : FlowCfg.compile bothFamilies = .ok bothFamiliesCfg :=
    FlowCfg.compile_of_sorted (by decide +kernel) (by decide +kernel) (by decide)
  let s : FlowState LeastRng := FlowState.new bothFamiliesCfg 1 2 1 .perGroup none
  have hreturns : (rewrite (tcpPacket [192, 168, 0, 1] [8, 8, 8, 8] 99 80) 0
      s).toOption.map Prod.fst = some (true, tcpPacket [192, 168, 0, 1] [8, 8, 8, 8] 99 80) := by
    decide +kernel
  obtain ⟨⟨r, s'⟩, hrewrite, rfl⟩ := Option.map_eq_some_iff.1 hreturns
  refine ⟨by decide +kernel, hcompile, s, s', .own, Outcome.toOption_eq_some.1 hrewrite, ?_⟩
  rintro ⟨given, -, hright⟩
  -- the IPv6 catch-all that answers is of the wrong family
  have hanswered := hright.answered
  rw [if_pos (by decide)] at hanswered
  have hwrong : Scope.Right bothFamilies.scopes (.v4 0xC0A80001)
    ((bothFamiliesCfg.entryOf (.v4 0xC0A80001)).map CompiledEntry.scope) :=
      hanswered.1.right (by decide)
  rw [show (bothFamiliesCfg.entryOf (.v4 0xC0A80001)).map CompiledEntry.scope =
    some ⟨none, .v6⟩ by decide] at hwrong
  cases hwrong with
  | longest _ hcovers => cases hcovers
  | catchAll _ hcatches => cases hcatches.2

end FlowState

end Mergecap
end Maja
