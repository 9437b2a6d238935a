/-
# Rewriting a packet returns

The rewriter of a file looks up a group, a slot and a sequence, and sets fields of
headers.  `FlowState.Ready` says that they are there: it holds of every new state and
whatever is rewritten.  So rewriting addresses always returns, and rewriting a packet
does where its checksums can be set (`ItemClear`).
-/

import Maja.Mergecap.Map.Returns
import Maja.Mergecap.Map.Runtime

namespace Maja
namespace Mergecap

open Lib Capture Packet

variable {ρ : Type}

/-! ### The state of a flow map -/

/-- An allocation has a slot, and every slot a sequence for every entry. -/
structure Allocation.Full (cfg : FlowCfg) (a : Allocation ρ) : Prop where
  slots : a.slots ≠ []
  sequences : ∀ slot ∈ a.slots, slot.sequences.length = cfg.entries.length

/-- The slot of a group is there. -/
theorem Allocation.Full.slotIndex_lt {cfg : FlowCfg} {a : Allocation ρ} (h : a.Full cfg) (group : ℕ) :
    a.slotIndex group < a.slots.length := by
  have hpos := List.length_pos_of_ne_nil h.slots
  unfold Allocation.slotIndex
  split_ifs <;> omega

/-- A slot that keeps its sequences keeps the allocation full. -/
theorem Allocation.Full.set {cfg : FlowCfg} {a : Allocation ρ} (h : a.Full cfg) {place : ℕ}
    {slot : AllocSlot ρ} (hslot : slot.sequences.length = cfg.entries.length) :
    ({ a with slots := a.slots.set place slot } : Allocation ρ).Full cfg where
  slots hnil := h.slots ((List.set_eq_nil_iff _ _).1 hnil)
  sequences s hs := by
    obtain hs | rfl := List.mem_or_eq_of_mem_set hs
    · exact h.sequences s hs
    · exact hslot

variable [StdRng ρ]

/-- A new allocation is full. -/
theorem Allocation.new_full (cfg : FlowCfg) (seed : UInt64) (sharing : MapSharing) (groups : ℕ) :
    (Allocation.new cfg seed sharing groups : Allocation ρ).Full cfg := by
  have hslot : ∀ salt, (AllocSlot.new seed salt (cfg.entries.map CompiledEntry.poolLen) :
      AllocSlot ρ).sequences.length = cfg.entries.length := by
    intro salt
    rw [← List.length_map CompiledEntry.poolLen]
    exact AllocSlot.newSequences_length _ _
  cases sharing with
  | shared =>
    refine ⟨by simp [Allocation.new], fun slot hslot' => ?_⟩
    obtain rfl := List.mem_singleton.1 hslot'
    exact hslot _
  | perGroup =>
    refine ⟨by simp [Allocation.new], fun slot hslot' => ?_⟩
    obtain ⟨group, -, rfl⟩ := List.mem_map.1 hslot'
    exact hslot _

/-- A slot with a sequence for the entry allocates, and keeps its sequences. -/
theorem AllocSlot.allocate_returns {ε : Type} (slot : AllocSlot ρ) (policy : MapPolicy) (id : AllocId)
    (pool : Pool) (h : id.entry < slot.sequences.length) :
    ∃ target slot', (slot.allocate policy id pool : Outcome ε _) = .ok (target, slot') ∧
      slot'.sequences.length = slot.sequences.length := by
  have hsticky : (slot.sticky id pool).2.sequences = slot.sequences := by
    unfold AllocSlot.sticky
    split
    · rfl
    · dsimp only
      split <;> rfl
  have hunique : ∃ target slot', (slot.unique id pool : Outcome ε _) = .ok (target, slot') ∧
      slot'.sequences.length = slot.sequences.length := by
    unfold AllocSlot.unique
    split
    · exact ⟨_, _, rfl, rfl⟩
    · rw [Outcome.index_eq_ok h, Outcome.ok_bind]
      rcases slot.sequences[id.entry].nextIndex pool.len with ⟨⟨index, wrapped⟩, seq⟩
      dsimp only
      split
      · exact ⟨_, _, rfl, List.length_set⟩
      · exact ⟨_, _, rfl, List.length_set⟩
  unfold AllocSlot.allocate
  split
  · exact ⟨_, _, rfl, congrArg List.length hsticky⟩
  · exact hunique

namespace FlowState

/-- The state has what rewriting a packet of one of the groups looks up. -/
structure Ready (groups : ℕ) (s : FlowState ρ) : Prop where
  groups : groups ≤ s.groups.length
  allocation : s.cfg.isStateful = true → ∃ a, s.allocation = some a ∧ a.Full s.cfg

/-- A new state is ready, if the allocation that it is given is full. -/
theorem ready_new {cfg : FlowCfg} {hashSeed fileSeed : UInt64} {groups : ℕ} {sharing : MapSharing}
    {allocation : Option (Allocation ρ)} (h : ∀ a, allocation = some a → a.Full cfg) :
    (FlowState.new cfg hashSeed fileSeed groups sharing allocation).Ready groups where
  groups := by simp [FlowState.new]
  allocation hstateful := by
    cases allocation with
    | some a => exact ⟨a, rfl, h a rfl⟩
    | none =>
      have hstateful : cfg.isStateful = true := hstateful
      refine ⟨_, ?_, Allocation.new_full cfg fileSeed sharing (max groups 1)⟩
      simp [FlowState.new, hstateful]

variable {s : FlowState ρ} {n group : ℕ} {addr : IpAddr} {session : Option SessionId}
  {fragment : Option FragKey}

/-- An entry with a stateful pool makes the map stateful. -/
theorem isStateful_of_entry {cfg : FlowCfg} {entry : ℕ} {source : Option IpNet} {pool : Pool}
    {policy : MapPolicy} (hentry : cfg.entries[entry]? = some ⟨source, .pool pool policy⟩)
    (hpolicy : policy.isStateful = true) : cfg.isStateful = true :=
  List.any_eq_true.2 ⟨_, List.mem_of_getElem? hentry, hpolicy⟩

/-- A random draw of one of the groups returns. -/
theorem drawRandom_returns (h : s.Ready n) (hgroup : group < n) (pool : Pool) :
    ∃ target s', drawRandom group pool s = .ok (target, s') ∧ s'.Ready n ∧ s'.cfg = s.cfg := by
  rw [drawRandom, Outcome.index_eq_ok (hgroup.trans_le h.groups), Outcome.ok_bind]
  refine ⟨_, _, rfl, ⟨?_, h.allocation⟩, rfl⟩
  rw [List.length_set]
  exact h.groups

/-- An allocation for one of the entries returns. -/
theorem allocateFor_returns (h : s.Ready n) {entry : ℕ} {source : Option IpNet} {pool : Pool}
    {policy : MapPolicy} (hentry : s.cfg.entries[entry]? = some ⟨source, .pool pool policy⟩)
    (hpolicy : policy.isStateful = true) (identity : Identity) :
    ∃ target s', allocateFor group policy ⟨entry, identity, addr⟩ pool s = .ok (target, s') ∧
      s'.Ready n ∧ s'.cfg = s.cfg := by
  obtain ⟨a, ha, hfull⟩ := h.allocation (isStateful_of_entry hentry hpolicy)
  have hplace := hfull.slotIndex_lt group
  have hsequences := hfull.sequences _ (List.getElem_mem hplace)
  obtain ⟨hlt, -⟩ := List.getElem?_eq_some_iff.1 hentry
  obtain ⟨target, slot', hslot, hlength⟩ := AllocSlot.allocate_returns (ε := Empty × FlowState ρ)
    a.slots[a.slotIndex group] policy ⟨entry, identity, addr⟩ pool (hsequences ▸ hlt)
  rw [allocateFor, ha]
  dsimp only
  rw [Outcome.index_eq_ok hplace, Outcome.ok_bind, hslot]
  exact ⟨target, _, rfl, ⟨h.groups, fun _ => ⟨_, rfl, hfull.set (hlength.trans hsequences)⟩⟩, rfl⟩

/-- The target of an address for one of the groups is found. -/
theorem targetFor_returns (h : s.Ready n) (hgroup : group < n) (addr : IpAddr)
    (session : Option SessionId) (fragment : Option FragKey) :
    ∃ target s', targetFor group addr session fragment s = .ok (target, s') ∧ s'.Ready n ∧
      s'.cfg = s.cfg := by
  rw [targetFor_eq]
  split
  · exact ⟨_, _, rfl, ⟨h.groups, h.allocation⟩, rfl⟩
  · exact ⟨_, s, rfl, h, rfl⟩
  · exact ⟨_, s, rfl, h, rfl⟩
  · rename_i entry pool policy hrole
    obtain ⟨-, -, source, hentry⟩ := FlowCfg.role_eq_some hrole
    unfold poolTarget
    split_ifs
    · exact ⟨_, s, rfl, h, rfl⟩
    · dsimp only
      split
      · exact drawRandom_returns h hgroup pool
      · exact ⟨_, s, rfl, h, rfl⟩
      · rename_i hrandom hhash
        refine allocateFor_returns h hentry ?_ _
        cases policy with
        | random => exact absurd rfl hrandom
        | hash => exact absurd rfl hhash
        | sticky => rfl
        | unique => rfl

/-- Both targets of a packet are found. -/
theorem targetsFor_returns (h : s.Ready n) (hgroup : group < n) (info : PacketInfo)
    (fragment : Option FragKey) :
    ∃ targets s', targetsFor group info fragment s = .ok (targets, s') ∧ s'.Ready n := by
  obtain ⟨src, s₁, hsrc, h₁, -⟩ := targetFor_returns h hgroup info.src info.session fragment
  obtain ⟨dst, s₂, hdst, h₂, -⟩ := targetFor_returns h₁ hgroup info.dst info.session fragment
  refine ⟨⟨src, dst⟩, s₂, ?_, h₂⟩
  rw [targetsFor, Prog.bind_apply, hsrc, Outcome.ok_bind, Prog.bind_apply, hdst, Outcome.ok_bind]
  rfl

/-- The targets of a packet are found, also by the alias cache. -/
theorem targets_returns (h : s.Ready n) (hgroup : group < n) (info : PacketInfo) :
    ∃ targets s', FlowState.targets group info s = .ok (targets, s') ∧ s'.Ready n := by
  unfold FlowState.targets
  split
  · exact targetsFor_returns h hgroup info none
  · rename_i key _
    split_ifs
    · rw [aliased, Outcome.index_eq_ok (hgroup.trans_le h.groups), Outcome.ok_bind]
      split
      · exact ⟨_, s, rfl, h⟩
      · obtain ⟨targets, s₁, htargets, h₁⟩ := targetsFor_returns h hgroup info (some key)
        rw [htargets, Outcome.ok_bind]
        dsimp only
        rw [Outcome.index_eq_ok (hgroup.trans_le h₁.groups), Outcome.ok_bind]
        refine ⟨targets, _, rfl, ⟨?_, h₁.allocation⟩⟩
        rw [List.length_set]
        exact h₁.groups
    · exact targetsFor_returns h hgroup info (some key)

end FlowState

/-! ### Writing addresses -/

section Addresses

omit [StdRng ρ]

variable {ε : Type} {p : Maja.Packet}

/-- An address is set, or skipped. -/
theorem setAddr_returns (h : Readable p) (family : IpFamily) {l : Layer} (hl : l ∈ p.layers)
    {f : Field} (hf : f.hi ≤ l.protocol.minLen) (target : Option IpAddr) :
    ∃ q, (setAddr family l f target p : Outcome ε _) = .ok q ∧ Readable q ∧ q.layers = p.layers := by
  have hset : ∀ value, ∃ q, (p.setField l f value : Outcome ε _) = .ok q ∧ Readable q ∧
      q.layers = p.layers := by
    intro value
    obtain ⟨q, hq, hread⟩ := setField_returns (ε := ε) h hl hf value
    exact ⟨q, hq, hread, (setField_eq_ok hq).1⟩
  unfold setAddr
  split
  · exact hset _
  · exact hset _
  · exact ⟨p, rfl, h, rfl⟩

/-- The targets of a readable packet are written. -/
theorem applyTargets_returns (h : Readable p) (targets : Targets) :
    ∃ q, (applyTargets p targets : Outcome ε _) = .ok q ∧ Readable q := by
  have hboth : ∀ {family : IpFamily} {protocol : Protocol} {l : Layer} {src dst : Field},
      p.nthLayer protocol (-1) = some l → src.hi ≤ protocol.minLen → dst.hi ≤ protocol.minLen →
      ∃ q, (setAddrs family l src dst targets p : Outcome ε _) = .ok q ∧ Readable q := by
    intro family protocol l src dst hlayer hsrc hdst
    obtain ⟨hl, rfl⟩ := nthLayer_eq_some hlayer
    obtain ⟨header, hheader, -⟩ := h.bytes (ε := ε) hl
    obtain ⟨q₁, hq₁, h₁, hlayers⟩ := setAddr_returns (ε := ε) h family hl hsrc targets.src
    obtain ⟨q₂, hq₂, h₂, -⟩ :=
      setAddr_returns (ε := ε) h₁ family (hlayers.symm ▸ hl) hdst targets.dst
    refine ⟨q₂, ?_, h₂⟩
    rw [setAddrs, hheader, Outcome.ok_bind, hq₁, Outcome.ok_bind, hq₂]
  unfold applyTargets
  split
  · split
    · rename_i hlayer
      exact hboth hlayer (by decide) (by decide)
    · exact ⟨p, rfl, h⟩
  · split
    · rename_i hlayer
      exact hboth hlayer (by decide) (by decide)
    · exact ⟨p, rfl, h⟩
  · exact ⟨p, rfl, h⟩

end Addresses

/-- A direct map rewrites every readable packet. -/
theorem DirectMaps.rewrite_returns {p : Maja.Packet} (h : Readable p) (maps : DirectMaps ρ) :
    ∃ changed q maps', DirectMaps.rewrite p maps = .ok ((changed, q), maps') ∧ Readable q := by
  have hfield : ∀ (map : DirectionMap) (family : IpFamily) {q : Maja.Packet} {l : Layer} {f : Field}
      (rng : ρ), Readable q → l ∈ q.layers → f.hi ≤ l.protocol.minLen →
      ∃ changed q' rng', (DirectMaps.rewriteField map family l f q rng :
        Outcome (Empty × DirectMaps ρ) _) = .ok ((changed, q'), rng') ∧ Readable q' ∧
        q'.layers = q.layers := by
    intro map family q l f rng hread hl hf
    obtain ⟨header, hheader, hlen⟩ := hread.bytes (ε := Empty × DirectMaps ρ) hl
    rw [DirectMaps.rewriteField, hheader, Outcome.ok_bind, Field.get_eq (hf.trans hlen),
      Outcome.ok_bind]
    rcases map.target (DirectMaps.addrOf family (f.peek header)) rng with ⟨target, rng'⟩
    obtain ⟨q', hq', hread', hlayers⟩ :=
      setAddr_returns (ε := Empty × DirectMaps ρ) hread family hl hf target
    dsimp only
    rw [hq']
    exact ⟨_, q', rng', rfl, hread', hlayers⟩
  have hboth : ∀ {family : IpFamily} {protocol : Protocol} {l : Layer} {src dst : Field},
      p.nthLayer protocol (-1) = some l → src.hi ≤ protocol.minLen → dst.hi ≤ protocol.minLen →
      ∃ changed q maps', DirectMaps.rewriteHeader family l src dst p maps =
        .ok ((changed, q), maps') ∧ Readable q := by
    intro family protocol l src dst hlayer hsrc hdst
    obtain ⟨hl, rfl⟩ := nthLayer_eq_some hlayer
    obtain ⟨changed₁, q₁, rng₁, hq₁, h₁, hlayers⟩ := hfield maps.src family maps.rng h hl hsrc
    obtain ⟨changed₂, q₂, rng₂, hq₂, h₂, -⟩ :=
      hfield maps.dst family rng₁ h₁ (hlayers.symm ▸ hl) hdst
    refine ⟨changed₁ || changed₂, q₂, { maps with rng := rng₂ }, ?_, h₂⟩
    rw [DirectMaps.rewriteHeader, hq₁, Outcome.ok_bind]
    dsimp only
    rw [hq₂]
    rfl
  unfold DirectMaps.rewrite
  split
  · split
    · rename_i hlayer
      exact hboth hlayer (by decide) (by decide)
    · exact ⟨_, p, maps, rfl, h⟩
  · split
    · rename_i hlayer
      exact hboth hlayer (by decide) (by decide)
    · exact ⟨_, p, maps, rfl, h⟩
  · exact ⟨_, p, maps, rfl, h⟩

/-- A flow map rewrites every readable packet of one of its groups. -/
theorem FlowState.rewrite_returns {p : Maja.Packet} (hread : Readable p) {s : FlowState ρ}
    {n group : ℕ} (h : s.Ready n) (hgroup : group < n) :
    ∃ changed q s', FlowState.rewrite p group s = .ok ((changed, q), s') ∧ Readable q ∧
      s'.Ready n := by
  obtain ⟨info, hinfo⟩ := read_returns (ε := Empty × FlowState ρ) hread
  rw [FlowState.rewrite, hinfo, Outcome.ok_bind]
  cases info with
  | none => exact ⟨_, p, s, rfl, hread, h⟩
  | some info =>
    dsimp only
    split_ifs
    · obtain ⟨targets, s', htargets, h'⟩ := FlowState.targets_returns h hgroup info
      obtain ⟨q, hq, hread'⟩ := applyTargets_returns (ε := Empty × FlowState ρ) hread targets
      rw [htargets, Outcome.ok_bind]
      dsimp only
      rw [hq]
      exact ⟨_, q, s', rfl, hread', h'⟩
    · exact ⟨_, p, s, rfl, hread, h⟩

/-! ### The rewriter of a file -/

namespace MapRewriter

/-- The rewriter has what rewriting a packet of one of the groups looks up. -/
def Ready (groups : ℕ) (rewriter : MapRewriter ρ) : Prop :=
  ∀ s, rewriter.flow = some s → s.Ready groups

/-- `rewrite` up to the checksums: whether an address was written, and the packet. -/
def readdress (packet : Maja.Packet) (group : ℕ) :
    Prog (MapRewriter ρ) Empty (Bool × Maja.Packet) := fun rewriter =>
  match runMap DirectMaps.rewrite packet rewriter.direct with
  | .ok ((changedDirect, packet), direct) =>
    match runMap (fun packet => FlowState.rewrite packet group) packet rewriter.flow with
    | .ok ((changedFlow, packet), flow) =>
      .ok ((changedDirect || changedFlow, packet), { rewriter with direct, flow })
    | .err (e, _) => e.elim
    | .panic => .panic
    | .outOfFuel => .outOfFuel
  | .err (e, _) => e.elim
  | .panic => .panic
  | .outOfFuel => .outOfFuel

/-- `rewrite` writes the addresses, and then sets the checksums if one was written. -/
theorem rewrite_of_readdress (checks : Bool) {changed : Bool} {p q : Maja.Packet} {group : ℕ}
    {rewriter rewriter' : MapRewriter ρ}
    (h : readdress p group rewriter = .ok ((changed, q), rewriter')) :
    rewrite checks p group rewriter =
      ((if changed && rewriter.fixChecksum then fixChecksums checks q else pure q) >>=
        fun packet => pure ((changed, packet), rewriter')) ∧
      rewriter'.fixChecksum = rewriter.fixChecksum := by
  unfold readdress at h
  split at h
  · rename_i hdirect
    split at h
    · rename_i hflow
      obtain ⟨hpair, rfl⟩ := Prod.mk.inj (Outcome.ok.inj h)
      obtain ⟨rfl, rfl⟩ := Prod.mk.inj hpair
      refine ⟨?_, rfl⟩
      rw [rewrite, hdirect]
      dsimp only
      rw [hflow]
      dsimp only
      split_ifs <;> rfl
    · rename_i e _ _
      exact e.elim
    · cases h
    · cases h
  · rename_i e _ _
    exact e.elim
  · cases h
  · cases h

/-- The addresses of a parsed packet are written. -/
theorem readdress_returns {p : Maja.Packet} (hp : p.Parsed) (hread : Readable p)
    {rewriter : MapRewriter ρ} {n group : ℕ} (h : rewriter.Ready n) (hgroup : group < n) :
    ∃ changed q rewriter', readdress p group rewriter = .ok ((changed, q), rewriter') ∧
      Readable q ∧ rewriter'.Ready n ∧ Readdresses p q := by
  obtain ⟨changed₁, q₁, direct, hdirect, hread₁⟩ : ∃ changed q direct,
      runMap DirectMaps.rewrite p rewriter.direct = .ok ((changed, q), direct) ∧ Readable q := by
    unfold runMap
    split
    · exact ⟨false, p, none, rfl, hread⟩
    · rename_i maps _
      obtain ⟨changed, q, maps', hq, hreadq⟩ := DirectMaps.rewrite_returns hread maps
      rw [hq]
      exact ⟨changed, q, some maps', rfl, hreadq⟩
  obtain ⟨changed₂, q₂, flow, hflow, hread₂, hready⟩ : ∃ changed q flow,
      runMap (fun packet => FlowState.rewrite packet group) q₁ rewriter.flow =
        .ok ((changed, q), flow) ∧ Readable q ∧ ∀ s, flow = some s → s.Ready n := by
    unfold runMap
    split
    · exact ⟨false, q₁, none, rfl, hread₁, nofun⟩
    · rename_i s hs
      obtain ⟨changed, q, s', hq, hreadq, hs'⟩ := FlowState.rewrite_returns hread₁ (h s hs) hgroup
      dsimp only
      rw [hq]
      refine ⟨changed, q, some s', rfl, hreadq, fun t ht => ?_⟩
      obtain rfl := Option.some.inj ht
      exact hs'
  have h₁ := runMap_readdresses (.refl p) (directRewrite_readdresses hp (.refl p)) hdirect
  have h₂ := runMap_readdresses h₁ (flowRewrite_readdresses hp h₁) hflow
  refine ⟨changed₁ || changed₂, q₂, { rewriter with direct, flow }, ?_, hread₂, hready, h₂⟩
  rw [readdress, hdirect]
  dsimp only
  rw [hflow]

end MapRewriter

/-- A packet of a capture is parsed, and every layer of it can be read. -/
theorem parsed_returns {ε : Type} (item : PacketRecord) : ∃ packet,
    (parsed item : Outcome ε _) = .ok packet ∧ packet.Parsed ∧ Readable packet ∧
      packet.bytes = item.data := by
  have hrun : tryParseWithLinkType (item.data.length + 1) item.linkType {} (.new item.data) =
      (parseTrace {} (item.data.length + 1) item.data item.linkType).toPacket item.data :=
    tryParseWithLinkType_new item.linkType (Nat.lt_succ_self item.data.length)
  rw [Trace.toPacket] at hrun
  have hread : Readable ⟨item.data, (parseTrace {} (item.data.length + 1) item.data
      item.linkType).layers⟩ :=
    ⟨(LayerTable.of_packed (parseTrace_packed {} _ item.data item.linkType)).inside,
      parseTrace_full {} _ item.data item.linkType⟩
  cases herror : (parseTrace {} (item.data.length + 1) item.data item.linkType).error with
  | none =>
    rw [herror] at hrun
    refine ⟨_, ?_, ⟨item.data.length + 1, item.linkType, {}, Nat.lt_succ_self _, .inl hrun⟩, hread,
      rfl⟩
    rw [parsed, hrun]
  | some err =>
    rw [herror] at hrun
    refine ⟨_, ?_, ⟨item.data.length + 1, item.linkType, {}, Nat.lt_succ_self _, .inr ⟨err, hrun⟩⟩,
      hread, rfl⟩
    rw [parsed, hrun]

section Items

variable {checks : Bool} {n group : ℕ} {rewriter : MapRewriter ρ}

/-- The checksums of a packet can be set, if an address of it is written. -/
def ItemClear (checks : Bool) (item : PacketRecord) (group : ℕ) (rewriter : MapRewriter ρ) : Prop :=
  rewriter.isActive = true → rewriter.fixChecksum = true → ∀ packet q rewriter' ip,
    (parsed item : Outcome (Empty × MapRewriter ρ) _) = .ok packet →
    rewriter.readdress packet group = .ok ((true, q), rewriter') →
    outerIp packet.layers = some ip → Fixable (Empty × MapRewriter ρ) checks ip q

/-- The checksums of a packet of up to `0xFFFF` bytes can be set, if its routing header has
its fourth byte. -/
theorem ItemClear.of_short {item : PacketRecord} (h : rewriter.Ready n) (hgroup : group < n)
    (hshort : item.data.length ≤ 0xFFFF)
    (hroute : ∀ p : Maja.Packet, (parsed item : Outcome (Empty × MapRewriter ρ) _) = .ok p → ∀ l,
      (extensions p.layers).find? (fun l => l.protocol = .ipv6Route) = some l → 4 ≤ l.len) :
    ItemClear checks item group rewriter := by
  intro _ _ p q rewriter' ip hparsed hq hip
  obtain ⟨p', hparsed', hp, hread, hbytes⟩ := parsed_returns (ε := Empty × MapRewriter ρ) item
  obtain rfl := Outcome.ok.inj (hparsed.symm.trans hparsed')
  obtain ⟨changed, q', rewriter'', hq', -, -, hwritten⟩ :=
    MapRewriter.readdress_returns hp hread h hgroup
  cases hq.symm.trans hq'
  obtain hnone | ⟨options, ⟨o⟩⟩ := hp.outermost
  · have hip' : isIp ip = true := List.find?_some hip
    exact absurd ((hnone ip (List.mem_of_find?_eq_some hip)).symm.trans hip') Bool.false_ne_true
  · obtain rfl := Option.some.inj (o.outerIp_eq.symm.trans hip)
    exact .of_short o hwritten hp.table (hbytes ▸ hshort) (hroute p hparsed)

/-- One packet is the other with the addresses and checksums of its bytes rewritten. -/
def RewrittenFrom (item item' : PacketRecord) : Prop :=
  item' = { item with data := item'.data } ∧
    ∃ p q : Maja.Packet, p.bytes = item.data ∧ p.Parsed ∧ Rewrites p q ∧ item'.data = q.bytes

/-- Writing the addresses of a packet leaves this rewriter. -/
def GoesOn (item : PacketRecord) (group : ℕ) (rewriter rewriter' : MapRewriter ρ) : Prop :=
  ∃ p r, (parsed item : Outcome (Empty × MapRewriter ρ) _) = .ok p ∧
    rewriter.readdress p group = .ok (r, rewriter')

/-- **A packet whose checksums can be set is rewritten**: addresses and checksums change
and nothing else. -/
theorem rewriteItem_returns {item : PacketRecord} (h : rewriter.Ready n) (hgroup : group < n)
    (hclear : ItemClear checks item group rewriter) :
    ∃ item' rewriter', rewriteItem checks item group rewriter = .ok (item', rewriter') ∧
      rewriter'.Ready n ∧ RewrittenFrom item item' ∧ GoesOn item group rewriter rewriter' := by
  obtain ⟨p, hparsed, hp, hread, hbytes⟩ := parsed_returns (ε := Empty × MapRewriter ρ) item
  unfold rewriteItem
  split_ifs with hactive
  · obtain ⟨changed, q, rewriter', hq, hreadq, hready, hwritten⟩ :=
      MapRewriter.readdress_returns hp hread h hgroup
    obtain ⟨hrun, -⟩ := MapRewriter.rewrite_of_readdress checks hq
    obtain ⟨r, hr, hrewrites⟩ : ∃ r, (if changed && rewriter.fixChecksum then fixChecksums checks q
        else pure q : Outcome (Empty × MapRewriter ρ) _) = .ok r ∧ Rewrites p r := by
      split_ifs with hfix
      · obtain ⟨rfl, hfix⟩ := Bool.and_eq_true_iff.1 hfix
        obtain hnone | ⟨options, ⟨o⟩⟩ := hp.outermost
        · refine ⟨q, ?_, hwritten.rewrites⟩
          rw [fixChecksums, hwritten.rewrites.outerIpFamily_eq, outerIpFamily_eq_none hnone]
          rfl
        · have hfixable := hclear hactive hfix p q rewriter' o.ip hparsed hq o.outerIp_eq
          obtain ⟨r, hr⟩ := fixChecksums_returns o hwritten hp.table hreadq hfixable
          exact ⟨r, hr, (fixChecksums_eq_ok o hwritten hp.table hr).1⟩
      · exact ⟨q, rfl, hwritten.rewrites⟩
    rw [hparsed, Outcome.ok_bind, hrun, hr]
    exact ⟨_, rewriter', rfl, hready, ⟨rfl, p, r, hbytes, hp, hrewrites, rfl⟩, p, _, hparsed, hq⟩
  · refine ⟨item, rewriter, rfl, h, ⟨rfl, p, p, hbytes, hp, .refl p, hbytes.symm⟩, p, (false, p),
      hparsed, ?_⟩
    obtain ⟨direct, flow, fixChecksum⟩ := rewriter
    cases direct with
    | some maps => exact absurd rfl hactive
    | none =>
      cases flow with
      | some s => exact absurd rfl hactive
      | none => rfl

/-- The checksums of the packets of a batch can be set, one after the other. -/
def ItemsClear (checks : Bool) : List (PacketRecord × ℕ) → MapRewriter ρ → Prop
  | [], _ => True
  | (item, group) :: items, rewriter => ItemClear checks item group rewriter ∧
      ∀ rewriter', GoesOn item group rewriter rewriter' → ItemsClear checks items rewriter'

/-- A batch whose checksums can be set is rewritten, packet by packet. -/
theorem rewriteItems_returns (origin : PacketRecord) {items : List (PacketRecord × ℕ)}
    (h : rewriter.Ready n) (hgroups : ∀ x ∈ items, x.2 < n)
    (hclear : ItemsClear checks items rewriter) :
    ∃ written rewriter', rewriteItems checks origin items rewriter = .ok (written, rewriter') ∧
      rewriter'.Ready n ∧ List.Forall₂ (fun x made => RewrittenFrom x.1 made.packet ∧
        made.origin = origin ∧ made.group = x.2) items written := by
  induction items generalizing rewriter with
  | nil => exact ⟨[], rewriter, rfl, h, .nil⟩
  | cons x items ih =>
    obtain ⟨item, group⟩ := x
    obtain ⟨hitem, hrest⟩ := hclear
    obtain ⟨item', rewriter₁, hrun, h₁, hfrom, hon⟩ :=
      rewriteItem_returns h (hgroups _ List.mem_cons_self) hitem
    obtain ⟨written, rewriter₂, hruns, h₂, hall⟩ :=
      ih h₁ (fun x hx => hgroups x (List.mem_cons_of_mem _ hx)) (hrest rewriter₁ hon)
    refine ⟨⟨origin, group, item'⟩ :: written, rewriter₂, ?_, h₂, .cons ⟨hfrom, rfl, rfl⟩ hall⟩
    rw [rewriteItems, Prog.bind_apply, hrun, Outcome.ok_bind, Prog.bind_apply, hruns]
    rfl

end Items

end Mergecap
end Maja
