/-
# Runs of a flow map

What lies between two packets of a run: rewrites of other packets in any group,
and, where the allocation is shared, those of the other files that share it.  The
tables only grow, so what an endpoint was once given it is given again; which
table entry answers for it is told by its identity.
-/

import Maja.Mergecap.Map.Slot
import Mathlib.Logic.Relation

namespace Maja
namespace Mergecap

open Lib Packet

/-! ### The entry that answers for an address -/

/-- The place and the action of the entry that answers for an address, if it is
not excluded. -/
def FlowCfg.role (cfg : FlowCfg) (addr : IpAddr) : Option (ℕ × Action) :=
  if cfg.excluded addr then none
  else (cfg.classify addr).bind fun entry => cfg.entries[entry]?.map fun compiled =>
    (entry, compiled.action)

/-- The entry that an address is classified to is there. -/
theorem FlowCfg.getElem?_classify {cfg : FlowCfg} {addr : IpAddr} {entry : ℕ}
    (h : cfg.classify addr = some entry) : ∃ compiled, cfg.entries[entry]? = some compiled := by
  obtain ⟨hlt, -⟩ := List.findIdx?_eq_some_iff_getElem.1 h
  exact ⟨_, List.getElem?_eq_getElem hlt⟩

/-- The entry of a role takes the address. -/
theorem FlowCfg.role_eq_some {cfg : FlowCfg} {addr : IpAddr} {entry : ℕ} {action : Action}
    (h : cfg.role addr = some (entry, action)) :
    ¬cfg.excluded addr ∧ cfg.classify addr = some entry ∧
      ∃ source, cfg.entries[entry]? = some ⟨source, action⟩ := by
  unfold role at h
  split_ifs at h with hexcluded
  obtain ⟨entry', hclassify, h⟩ := Option.bind_eq_some_iff.1 h
  obtain ⟨compiled, hcompiled, h⟩ := Option.map_eq_some_iff.1 h
  cases h
  exact ⟨hexcluded, hclassify, _, hcompiled⟩

/-- A pool of a role is that of one network. -/
theorem FlowCfg.OneNetPools.of_role {cfg : FlowCfg} (hpools : cfg.OneNetPools) {addr : IpAddr}
    {entry : ℕ} {pool : Pool} {policy : MapPolicy}
    (h : cfg.role addr = some (entry, .pool pool policy)) : ∃ net, pool = .fromNets [net] := by
  obtain ⟨-, -, source, hentry⟩ := role_eq_some h
  exact hpools _ (List.mem_of_getElem? hentry) _ _ rfl

namespace FlowState

variable {ρ : Type} [StdRng ρ] {s s' s'' : FlowState ρ} {group : ℕ} {addr : IpAddr}
  {session : Option SessionId} {fragment : Option FragKey} {target : Option IpAddr}

/-- **What `target_for` does is told by the role of the address.** -/
theorem targetFor_eq (s : FlowState ρ) : targetFor group addr session fragment s =
    match s.cfg.role addr with
    | none => .ok (none, { s with
        warnedUnmatched := s.warnedUnmatched || !s.cfg.excluded addr })
    | some (_, .fixed ip) => .ok (if Family.ofAddr ip = Family.ofAddr addr then some ip else none, s)
    | some (_, .mask net) => .ok (maskMap net addr, s)
    | some (entry, .pool pool policy) => poolTarget group entry addr session fragment pool policy s := by
  unfold targetFor FlowCfg.role
  by_cases hexcluded : s.cfg.excluded addr
  · simp [hexcluded]
  · cases hclassify : s.cfg.classify addr with
    | none => simp [hexcluded]
    | some entry =>
        obtain ⟨⟨source, action⟩, hcompiled⟩ := FlowCfg.getElem?_classify hclassify
        cases action <;> simp [hexcluded, Outcome.index, hcompiled]

/-- What a pool of one network does under each policy. -/
theorem poolTarget_eq {entry : ℕ} {net : IpNet} {policy : MapPolicy} (s : FlowState ρ) :
    poolTarget group entry addr session fragment (.fromNets [net]) policy s =
      match policy with
      | .random => drawRandom group (.fromNets [net]) s
      | .hash => .ok (some (hostAt net (hashIndex s.hashSeed entry addr
          (identity s.cfg.key session fragment) (hostCount net) % hostCount net)), s)
      | policy => allocateFor group policy ⟨entry, identity s.cfg.key session fragment, addr⟩
          (.fromNets [net]) s := by
  have hpos : (Pool.fromNets [net]).len ≠ 0 := by
    rw [Pool.len_singleton]
    exact (hostCount_pos net).ne'
  rw [poolTarget, if_neg hpos]
  cases policy with
  | hash => simp only [Pool.addrAt_singleton, Pool.len_singleton]
  | _ => rfl

/-- A draw changes the generator of its group. -/
theorem drawRandom_eq_ok {net : IpNet}
    (h : drawRandom group (.fromNets [net]) s = .ok (target, s')) :
    ∃ state index rng, s.groups[group]? = some state ∧
      target = some (hostAt net (index % hostCount net)) ∧
      s' = { s with groups := s.groups.set group { state with rng } } := by
  rw [drawRandom] at h
  obtain ⟨state, hstate, h⟩ := Outcome.bind_eq_ok.1 h
  obtain ⟨index, rng, hchoose⟩ := Pool.choose_singleton net state.rng
  rw [hchoose] at h
  cases h
  exact ⟨state, index, rng, Outcome.index_eq_some hstate, rfl, rfl⟩

/-- An allocation changes the slot of its group. -/
theorem allocateFor_eq_ok {policy : MapPolicy} {id : AllocId} {net : IpNet}
    (hpolicy : policy.isStateful = true)
    (h : allocateFor group policy id (.fromNets [net]) s = .ok (target, s')) :
    ∃ allocation slot given slot', s.allocation = some allocation ∧
      allocation.slots[allocation.slotIndex group]? = some slot ∧ target = some given ∧
      slot.Gives id net policy given slot' ∧
      s' = { s with allocation := some { allocation with
        slots := allocation.slots.set (allocation.slotIndex group) slot' } } := by
  unfold allocateFor at h
  split at h
  · cases h
  · rename_i allocation hallocation
    obtain ⟨slot, hslot, h⟩ := Outcome.bind_eq_ok.1 h
    obtain ⟨⟨target', slot'⟩, hallocate, h⟩ := Outcome.bind_eq_ok.1 h
    cases h
    obtain ⟨given, rfl, hgives⟩ := AllocSlot.gives_of_allocate hpolicy hallocate
    exact ⟨allocation, slot, given, slot', hallocation, Outcome.index_eq_some hslot, rfl, hgives,
      rfl⟩

end FlowState

/-! ### Tables only grow -/

/-- Replacing one item of a list by one that it relates to. -/
theorem exists_getElem?_set {α : Type} {R : α → α → Prop} (hrefl : ∀ a, R a a) {as : List α} {k : ℕ}
    {a b : α} (hk : as[k]? = some a) (hab : R a b) {i : ℕ} {x : α} (hi : as[i]? = some x) :
    ∃ y, (as.set k b)[i]? = some y ∧ R x y := by
  by_cases hne : k = i
  · subst hne
    obtain rfl := Option.some.inj (hk.symm.trans hi)
    exact ⟨b, List.getElem?_set_self (List.getElem?_eq_some_iff.1 hk).1, hab⟩
  · exact ⟨x, by rw [List.getElem?_set_ne hne, hi], hrefl x⟩

/-- Writing what is there changes nothing. -/
theorem set_eq_self {α : Type} {as : List α} {k : ℕ} {a : α} (h : as[k]? = some a) :
    as.set k a = as := by
  obtain ⟨hlt, rfl⟩ := List.getElem?_eq_some_iff.1 h
  exact List.set_getElem_self hlt

variable {ρ : Type}

/-- Giving a target keeps the entries of the table. -/
theorem AllocSlot.Gives.keeps {slot slot' : AllocSlot ρ} {id : AllocId} {net : IpNet}
    {policy : MapPolicy} {given : IpAddr} (h : slot.Gives id net policy given slot') :
    Table.Keeps slot.table slot'.table := by
  cases h with
  | known => exact .refl _
  | sticky hlookup => exact Table.keeps_insert hlookup
  | unique hlookup => exact Table.keeps_insert hlookup

/-- The slots of an allocation keep what they gave. -/
structure Allocation.Grows (a a' : Allocation ρ) : Prop where
  shared : a'.shared = a.shared
  length : a'.slots.length = a.slots.length
  tables : ∀ (k : ℕ) slot, a.slots[k]? = some slot →
    ∃ slot', a'.slots[k]? = some slot' ∧ Table.Keeps slot.table slot'.table

/-- An allocation keeps its own entries. -/
theorem Allocation.Grows.refl (a : Allocation ρ) : a.Grows a :=
  ⟨rfl, rfl, fun _ slot h => ⟨slot, h, .refl _⟩⟩

/-- Keeping the entries of an allocation is transitive. -/
theorem Allocation.Grows.trans {a b c : Allocation ρ} (h : a.Grows b) (h' : b.Grows c) :
    a.Grows c := by
  refine ⟨h'.shared.trans h.shared, h'.length.trans h.length, fun k slot hslot => ?_⟩
  obtain ⟨slot', hslot', hkeeps⟩ := h.tables k slot hslot
  obtain ⟨slot'', hslot'', hkeeps'⟩ := h'.tables k slot' hslot'
  exact ⟨slot'', hslot'', hkeeps.trans hkeeps'⟩

/-- A group keeps its slot. -/
theorem Allocation.Grows.slotIndex_eq {a a' : Allocation ρ} (h : a.Grows a') (group : ℕ) :
    a'.slotIndex group = a.slotIndex group := by
  rw [slotIndex, slotIndex, h.shared, h.length]

/-- A slot that keeps its entries keeps those of the allocation. -/
theorem Allocation.grows_set {a : Allocation ρ} {k : ℕ} {slot slot' : AllocSlot ρ}
    (hk : a.slots[k]? = some slot) (h : Table.Keeps slot.table slot'.table) :
    a.Grows { a with slots := a.slots.set k slot' } :=
  ⟨rfl, List.length_set, fun _ _ hi => exists_getElem?_set
    (R := fun x y => Table.Keeps x.table y.table) (fun _ => .refl _) hk h hi⟩

namespace FlowState

/-- What was given stays given. -/
structure Grows (s s' : FlowState ρ) : Prop where
  cfg : s'.cfg = s.cfg
  hashSeed : s'.hashSeed = s.hashSeed
  groups : ∀ (g : ℕ) state, s.groups[g]? = some state →
    ∃ state', s'.groups[g]? = some state' ∧ Table.Keeps state.fragments state'.fragments
  allocation : ∀ a, s.allocation = some a → ∃ a', s'.allocation = some a' ∧ a.Grows a'

/-- A state keeps its own entries. -/
theorem Grows.refl (s : FlowState ρ) : s.Grows s :=
  ⟨rfl, rfl, fun _ state h => ⟨state, h, .refl _⟩, fun a h => ⟨a, h, .refl _⟩⟩

/-- Keeping the entries of a state is transitive. -/
theorem Grows.trans {s s' s'' : FlowState ρ} (h : s.Grows s') (h' : s'.Grows s'') :
    s.Grows s'' := by
  refine ⟨h'.cfg.trans h.cfg, h'.hashSeed.trans h.hashSeed, fun g state hstate => ?_,
    fun a ha => ?_⟩
  · obtain ⟨state', hstate', hkeeps⟩ := h.groups g state hstate
    obtain ⟨state'', hstate'', hkeeps'⟩ := h'.groups g state' hstate'
    exact ⟨state'', hstate'', hkeeps.trans hkeeps'⟩
  · obtain ⟨a', ha', hgrows⟩ := h.allocation a ha
    obtain ⟨a'', ha'', hgrows'⟩ := h'.allocation a' ha'
    exact ⟨a'', ha'', hgrows.trans hgrows'⟩

variable [StdRng ρ] {s s' s'' : FlowState ρ} {group : ℕ} {addr : IpAddr}
  {session : Option SessionId} {fragment : Option FragKey} {target : Option IpAddr}

omit [StdRng ρ] in
/-- Changing a slot by a request keeps what was given. -/
theorem grows_allocate {a : Allocation ρ} {k : ℕ} {slot slot' : AllocSlot ρ} {id : AllocId}
    {net : IpNet} {policy : MapPolicy} {given : IpAddr} (ha : s.allocation = some a)
    (hslot : a.slots[k]? = some slot) (hgives : slot.Gives id net policy given slot') :
    s.Grows { s with allocation := some { a with slots := a.slots.set k slot' } } := by
  refine ⟨rfl, rfl, (Grows.refl s).groups, fun b hb => ?_⟩
  obtain rfl := Option.some.inj (ha.symm.trans hb)
  exact ⟨_, rfl, Allocation.grows_set hslot hgives.keeps⟩

/-- The aliases of the groups. -/
def aliases (s : FlowState ρ) : List (Table FragKey Targets) := s.groups.map GroupState.fragments

/-- **Finding a target keeps what was given**, and leaves the aliases alone. -/
theorem targetFor_grows (hpools : s.cfg.OneNetPools)
    (h : targetFor group addr session fragment s = .ok (target, s')) :
    s.Grows s' ∧ s'.aliases = s.aliases := by
  rw [targetFor_eq] at h
  split at h
  · cases h
    exact ⟨⟨rfl, rfl, (Grows.refl s).groups, (Grows.refl s).allocation⟩, rfl⟩
  · cases h
    exact ⟨.refl s, rfl⟩
  · cases h
    exact ⟨.refl s, rfl⟩
  · rename_i entry pool policy hrole
    obtain ⟨net, rfl⟩ := hpools.of_role hrole
    rw [poolTarget_eq] at h
    cases policy with
    | random =>
        obtain ⟨state, index, rng, hstate, -, rfl⟩ := drawRandom_eq_ok h
        refine ⟨⟨rfl, rfl, fun g x hx => ?_, (Grows.refl s).allocation⟩, ?_⟩
        · exact exists_getElem?_set (R := fun x y => Table.Keeps x.fragments y.fragments)
            (b := { state with rng }) (fun _ => .refl _) hstate (.refl _) hx
        · exact List.map_set.trans (set_eq_self (by rw [List.getElem?_map, hstate]; rfl))
    | hash =>
        cases h
        exact ⟨.refl s, rfl⟩
    | sticky =>
        obtain ⟨a, slot, given, slot', ha, hslot, -, hgives, rfl⟩ := allocateFor_eq_ok rfl h
        exact ⟨grows_allocate ha hslot hgives, rfl⟩
    | unique =>
        obtain ⟨a, slot, given, slot', ha, hslot, -, hgives, rfl⟩ := allocateFor_eq_ok rfl h
        exact ⟨grows_allocate ha hslot hgives, rfl⟩

/-- `targets_for` asks for the target of the source and then for that of the
destination. -/
theorem targetsFor_eq_ok {info : PacketInfo} {targets : Targets}
    (h : targetsFor group info fragment s = .ok (targets, s')) :
    ∃ s₁, targetFor group info.src info.session fragment s = .ok (targets.src, s₁) ∧
      targetFor group info.dst info.session fragment s₁ = .ok (targets.dst, s') := by
  obtain ⟨⟨src, s₁⟩, hsrc, h⟩ := Outcome.bind_eq_ok.1 h
  obtain ⟨⟨dst, s₂⟩, hdst, h⟩ := Outcome.bind_eq_ok.1 h
  cases h
  exact ⟨s₁, hsrc, hdst⟩

/-- `targets_for` keeps the tables and the alias cache. -/
theorem targetsFor_grows (hpools : s.cfg.OneNetPools) {info : PacketInfo} {targets : Targets}
    (h : targetsFor group info fragment s = .ok (targets, s')) :
    s.Grows s' ∧ s'.aliases = s.aliases := by
  obtain ⟨s₁, hsrc, hdst⟩ := targetsFor_eq_ok h
  obtain ⟨hgrows, haliases⟩ := targetFor_grows hpools hsrc
  obtain ⟨hgrows', haliases'⟩ := targetFor_grows (hgrows.cfg ▸ hpools) hdst
  exact ⟨hgrows.trans hgrows', haliases'.trans haliases⟩

/-- The alias of a datagram is there, or it is made. -/
theorem aliased_eq_ok {info : PacketInfo} {key : FragKey} {targets : Targets}
    (h : aliased group info key s = .ok (targets, s')) :
    (∃ aliases, s.aliases[group]? = some aliases ∧ aliases.lookup key = some targets ∧ s' = s) ∨
    ∃ aliases s₁ state, s.aliases[group]? = some aliases ∧ aliases.lookup key = none ∧
      targetsFor group info (some key) s = .ok (targets, s₁) ∧ s₁.groups[group]? = some state ∧
      s' = { s₁ with groups :=
        s₁.groups.set group { state with fragments := state.fragments.insert key targets } } := by
  obtain ⟨state, hstate, h⟩ := Outcome.bind_eq_ok.1 h
  have haliases : s.aliases[group]? = some state.fragments := by
    rw [aliases, List.getElem?_map, Outcome.index_eq_some hstate]
    rfl
  split at h
  · rename_i known hknown
    cases h
    exact .inl ⟨_, haliases, hknown, rfl⟩
  · rename_i hnone
    obtain ⟨⟨targets', s₁⟩, htargets, h⟩ := Outcome.bind_eq_ok.1 h
    obtain ⟨state', hstate', h⟩ := Outcome.bind_eq_ok.1 h
    cases h
    exact .inr ⟨_, s₁, state', haliases, hnone, htargets, Outcome.index_eq_some hstate', rfl⟩

/-- Making an alias keeps what was given. -/
theorem aliased_grows (hpools : s.cfg.OneNetPools) {info : PacketInfo} {key : FragKey}
    {targets : Targets} (h : aliased group info key s = .ok (targets, s')) :
    s.Grows s' ∧ ∃ aliases, s'.aliases[group]? = some aliases ∧
      aliases.lookup key = some targets := by
  obtain ⟨known, hknown, hlookup, rfl⟩ | ⟨known, s₁, state, hknown, hlookup, htargets, hstate, rfl⟩ :=
    aliased_eq_ok h
  · exact ⟨.refl _, known, hknown, hlookup⟩
  · obtain ⟨hgrows, haliases⟩ := targetsFor_grows hpools htargets
    -- the endpoints have left the alias table as it was
    obtain rfl : state.fragments = known := by
      rw [← haliases, aliases, List.getElem?_map, hstate] at hknown
      exact Option.some.inj hknown
    refine ⟨hgrows.trans ⟨rfl, rfl, fun g x hx => ?_, (Grows.refl s₁).allocation⟩,
      state.fragments.insert key targets, ?_, AList.lookup_insert _⟩
    · exact exists_getElem?_set (R := fun x y => Table.Keeps x.fragments y.fragments)
        (b := { state with fragments := state.fragments.insert key targets })
        (fun _ => .refl _) hstate (Table.keeps_insert hlookup) hx
    · rw [aliases, List.getElem?_map,
        List.getElem?_set_self (List.getElem?_eq_some_iff.1 hstate).1]
      rfl

/-- `targets` keeps the tables. -/
theorem targets_grows (hpools : s.cfg.OneNetPools) {info : PacketInfo} {given : Targets}
    (h : targets group info s = .ok (given, s')) : s.Grows s' := by
  unfold targets at h
  split at h
  · exact (targetsFor_grows hpools h).1
  · split_ifs at h
    · exact (aliased_grows hpools h).1
    · exact (targetsFor_grows hpools h).1

/-- The targets that `rewrite` gives a packet: none when it leaves the packet
alone. -/
def packetTargets (packet : Maja.Packet) (group : ℕ) : Prog (FlowState ρ) Empty Targets := fun s => do
  match ← PacketInfo.read packet with
  | none => .ok ({}, s)
  | some info =>
    if s.cfg.protocols.allows info.proto then targets group info s else .ok ({}, s)

/-- **A rewrite gives targets and writes them.** -/
theorem rewrite_eq_ok {packet packet' : Maja.Packet} {changed : Bool}
    (h : rewrite packet group s = .ok ((changed, packet'), s')) :
    ∃ given, packetTargets packet group s = .ok (given, s') ∧
      changed = (given.src.isSome || given.dst.isSome) ∧
      (given = {} ∧ packet' = packet ∨
        (applyTargets packet given : Outcome (Empty × FlowState ρ) _) = .ok packet') := by
  obtain ⟨info, hread, h⟩ := Outcome.bind_eq_ok.1 h
  unfold packetTargets
  rw [hread, Outcome.ok_bind]
  cases info with
  | none =>
      cases h
      exact ⟨{}, rfl, rfl, .inl ⟨rfl, rfl⟩⟩
  | some info =>
      dsimp only at h ⊢
      split_ifs at h ⊢
      · obtain ⟨⟨given, s₁⟩, hgiven, h⟩ := Outcome.bind_eq_ok.1 h
        obtain ⟨packet₁, happly, h⟩ := Outcome.bind_eq_ok.1 h
        cases h
        exact ⟨given, hgiven, rfl, .inr happly⟩
      · cases h
        exact ⟨{}, rfl, rfl, .inl ⟨rfl, rfl⟩⟩

/-- Finding the targets of a packet keeps the tables. -/
theorem packetTargets_grows (hpools : s.cfg.OneNetPools) {packet : Maja.Packet} {given : Targets}
    (h : packetTargets packet group s = .ok (given, s')) : s.Grows s' := by
  obtain ⟨info, -, h⟩ := Outcome.bind_eq_ok.1 h
  split at h
  · cases h
    exact .refl _
  · split_ifs at h
    · exact targets_grows hpools h
    · cases h
      exact .refl _

/-! ### Runs -/

/-- What may happen to the state of a file: it rewrites a packet, in any group, or
another file that shares the allocation does. -/
inductive Step (s : FlowState ρ) : FlowState ρ → Prop
  | rewrite {packet : Maja.Packet} {group : ℕ} {r : Bool × Maja.Packet} {s' : FlowState ρ} :
      FlowState.rewrite packet group s = .ok (r, s') → Step s s'
  | sharer {packet : Maja.Packet} {group : ℕ} {r : Bool × Maja.Packet} {other other' : FlowState ρ} :
      other.cfg = s.cfg → other.allocation = s.allocation →
      FlowState.rewrite packet group other = .ok (r, other') →
      Step s { s with allocation := other'.allocation }

/-- Any number of steps. -/
def Run : FlowState ρ → FlowState ρ → Prop := Relation.ReflTransGen Step

/-- A step of a run keeps the tables. -/
theorem Step.grows (hpools : s.cfg.OneNetPools) (h : Step s s') : s.Grows s' := by
  cases h with
  | rewrite h =>
      obtain ⟨given, hgiven, -⟩ := rewrite_eq_ok h
      exact packetTargets_grows hpools hgiven
  | @sharer _ _ _ other other' hcfg hallocation h =>
      obtain ⟨given, hgiven, -⟩ := rewrite_eq_ok h
      have hgrows := packetTargets_grows (hcfg ▸ hpools) hgiven
      exact ⟨rfl, rfl, (Grows.refl s).groups, hallocation ▸ hgrows.allocation⟩

/-- **A run keeps what was given.** -/
theorem Run.grows (hpools : s.cfg.OneNetPools) (h : Run s s') : s.Grows s' := by
  induction h with
  | refl => exact .refl _
  | tail _ hstep ih => exact ih.trans (hstep.grows (ih.cfg ▸ hpools))

end FlowState

end Mergecap
end Maja
