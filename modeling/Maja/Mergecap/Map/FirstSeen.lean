/-
# What an allocation remembers

An allocation is a service of ids in the sense of `Maja.Lib.FirstCome`: an id that a
slot has seen is answered from its table, and a new one by the generator of the slot,
under `sticky`, or by the sequence of its entry, under `unique`.  So the targets of a
packet are read off the tables once its ids are in them (`packetTargets_serves`), and
the tables depend on the order in which the ids of every generator and sequence come
for the first time.

This is about maps none of whose pools draws per packet.
-/

import Maja.Lib.FirstCome
import Maja.Mergecap.Map.FlowRun

namespace Maja
namespace Mergecap

open Lib Packet

variable {ρ : Type}

/-- How far a channel is: a generator, or a sequence. -/
inductive Cell (ρ : Type) where
  | generator (rng : ρ)
  | sequence (seq : Sequence)
  | missing

/-- An id, and the place of the slot that is asked for it. -/
abbrev SlotId : Type := ℕ × AllocId

/-- A slot, and the `unique` entry whose sequence answers; the generator of the slot
answers for all `sticky` ones. -/
abbrev Channel : Type := ℕ × Option ℕ

/-- What an allocation remembers. -/
abbrev SlotState (ρ : Type) : Type := Service.State SlotId IpAddr Channel (Cell ρ)

namespace FlowCfg

/-- The pool of an entry, and its policy. -/
def poolOf (cfg : FlowCfg) (entry : ℕ) : Option (Pool × MapPolicy) :=
  cfg.entries[entry]?.bind fun compiled =>
    match compiled.action with
    | .pool pool policy => some (pool, policy)
    | _ => none

/-- The channel that answers a new id. -/
def channelOf (cfg : FlowCfg) (k : SlotId) : Channel :=
  match cfg.poolOf k.2.entry with
  | some (_, .unique) => (k.1, some k.2.entry)
  | _ => (k.1, none)

variable [StdRng ρ]

/-- How a channel answers a new id.  A pool of one network always has an address. -/
def answer (cfg : FlowCfg) (k : SlotId) (cell : Cell ρ) : IpAddr × Cell ρ :=
  match cfg.poolOf k.2.entry, cell with
  | some (pool, .sticky), .generator rng =>
    let (target, rng) := pool.choose rng
    (target.getD (.v4 0), .generator rng)
  | some (pool, .unique), .sequence seq =>
    let ((index, _), seq) := seq.nextIndex pool.len
    ((pool.addrAt index).getD (.v4 0), .sequence seq)
  | _, cell => (.v4 0, cell)

/-- The allocations of a map as a service. -/
def service (cfg : FlowCfg) : Service SlotId IpAddr Channel (Cell ρ) := ⟨cfg.channelOf, cfg.answer⟩

/-- No pool draws per packet. -/
def NoRandom (cfg : FlowCfg) : Prop :=
  ∀ entry ∈ cfg.entries, ∀ pool, entry.action ≠ .pool pool .random

/-- A map without a random pool compiles to a configuration without one. -/
theorem noRandom_of_compile {flow : FlowMap} {cfg : FlowCfg} (hcompile : compile flow = .ok cfg)
    (h : .random ∉ poolPolicies flow) : cfg.NoRandom := by
  rintro compiled hmem pool haction
  obtain ⟨mapEntry, hentry, hto⟩ := exists_of_mem hcompile hmem
  cases hto with
  | fixed => cases haction
  | mask => cases haction
  | pool hshape =>
    simp only [Action.pool.injEq] at haction
    exact h (List.mem_map.2 ⟨mapEntry, List.mem_filter.2 ⟨hentry, by simpa using hshape⟩,
      haction.2⟩)

/-- Then no address is given to a random pool. -/
theorem NoRandom.role_ne {cfg : FlowCfg} (h : cfg.NoRandom) {addr : IpAddr} {entry : ℕ} {pool : Pool} :
    cfg.role addr ≠ some (entry, .pool pool .random) := by
  intro hrole
  obtain ⟨-, -, source, hentry⟩ := role_eq_some hrole
  exact h _ (List.mem_of_getElem? hentry) pool rfl

/-- Fragments need no alias. -/
theorem NoRandom.needsAlias_eq {cfg : FlowCfg} (h : cfg.NoRandom) (info : PacketInfo) :
    cfg.needsAlias info = false := by
  have hdraws : ∀ addr, (cfg.entryOf addr).any drawsPerPacket = false := by
    intro addr
    cases hentry : cfg.entryOf addr with
    | none => rfl
    | some compiled =>
      obtain ⟨entry, -, hmem⟩ := Option.bind_eq_some_iff.1 hentry
      have hnot := h compiled (List.mem_of_getElem? hmem)
      rw [Option.any_some, drawsPerPacket]
      split
      · rename_i pool haction
        exact absurd haction (hnot pool)
      · rfl
  rw [needsAlias, List.any_eq_false]
  intro addr _
  rw [hdraws]
  exact Bool.false_ne_true

end FlowCfg

/-! ### Slots -/

/-- How far a channel of a slot is. -/
def AllocSlot.cellOf (slot : AllocSlot ρ) : Option ℕ → Cell ρ
  | none => .generator slot.rng
  | some entry => (slot.sequences[entry]?).elim .missing .sequence

/-- What an allocation remembers. -/
def Allocation.state (a : Allocation ρ) : SlotState ρ where
  known k := a.slots[k.1]?.bind fun slot => slot.table.lookup k.2
  cell c := a.slots[c.1]?.elim .missing fun slot => slot.cellOf c.2

namespace Allocation

variable {a : Allocation ρ} {place : ℕ} {slot slot' : AllocSlot ρ}

/-- What the service knows of an id is what the table of its slot holds. -/
theorem known_of_slot (h : a.slots[place]? = some slot) (id : AllocId) :
    a.state.known (place, id) = slot.table.lookup id := by
  simp [state, h]

/-- The cell of a channel is that of its slot. -/
theorem cell_of_slot (h : a.slots[place]? = some slot) (c : Option ℕ) :
    a.state.cell (place, c) = slot.cellOf c := by
  simp [state, h]

/-- What an allocation remembers when a slot is replaced. -/
theorem known_set (h : a.slots[place]? = some slot) (k : SlotId) :
    ({ a with slots := a.slots.set place slot' } : Allocation ρ).state.known k =
      if k.1 = place then slot'.table.lookup k.2 else a.state.known k := by
  have hlt := (List.getElem?_eq_some_iff.1 h).1
  by_cases hk : k.1 = place
  · simp [state, hk, hlt]
  · simp [state, hk, List.getElem?_set_ne (Ne.symm hk)]

/-- Writing a slot changes the cells of this slot only. -/
theorem cell_set (h : a.slots[place]? = some slot) (c : Channel) :
    ({ a with slots := a.slots.set place slot' } : Allocation ρ).state.cell c =
      if c.1 = place then slot'.cellOf c.2 else a.state.cell c := by
  have hlt := (List.getElem?_eq_some_iff.1 h).1
  by_cases hc : c.1 = place
  · simp [state, hc, hlt]
  · simp [state, hc, List.getElem?_set_ne (Ne.symm hc)]

end Allocation

section Serve

variable [StdRng ρ] {ε : Type} {cfg : FlowCfg} {slot slot' : AllocSlot ρ} {id : AllocId}
  {policy : MapPolicy} {net : IpNet} {target : Option IpAddr}

/-- **What a slot does with a new id**: the channel of the id answers and moves on, and
the other channels stay. -/
theorem AllocSlot.allocate_new (hpool : cfg.poolOf id.entry = some (.fromNets [net], policy))
    (hpolicy : policy.isStateful = true) (hnew : slot.table.lookup id = none) (place : ℕ)
    (h : (slot.allocate policy id (.fromNets [net]) : Outcome ε _) = .ok (target, slot')) :
    let c := (cfg.channelOf (place, id)).2
    let answer := cfg.answer (place, id) (slot.cellOf c)
    target = some answer.1 ∧ slot'.table = slot.table.insert id answer.1 ∧
      slot'.cellOf = Function.update slot.cellOf c answer.2 := by
  cases policy with
  | random => cases hpolicy
  | hash => cases hpolicy
  | sticky =>
    obtain ⟨index, rng, hchoose⟩ := Pool.choose_singleton net slot.rng
    simp only [allocate, AllocSlot.sticky, hnew, hchoose] at h
    obtain ⟨rfl, rfl⟩ := Prod.mk.inj (Outcome.ok.inj h)
    simp only [FlowCfg.channelOf, FlowCfg.answer, hpool, cellOf, hchoose]
    refine ⟨rfl, rfl, funext fun c => ?_⟩
    rcases c with _ | entry
    · rw [Function.update_self]
      rfl
    · rw [Function.update_of_ne (by simp)]
      rfl
  | unique =>
    simp only [allocate, AllocSlot.unique, hnew, Outcome.bind_eq_ok] at h
    obtain ⟨seq, hseq, h⟩ := h
    simp only [Pool.len_singleton, Pool.addrAt_singleton, Outcome.pure_eq] at h
    obtain ⟨rfl, rfl⟩ := Prod.mk.inj (Outcome.ok.inj h)
    have hseq := Outcome.index_eq_some hseq
    simp only [FlowCfg.channelOf, FlowCfg.answer, hpool, cellOf, hseq, Option.elim_some,
      Pool.len_singleton, Pool.addrAt_singleton, Option.getD_some]
    refine ⟨trivial, rfl, funext fun c => ?_⟩
    rcases c with _ | entry
    · rw [Function.update_of_ne (by simp)]
      rfl
    · by_cases hentry : entry = id.entry
      · have hlt := (List.getElem?_eq_some_iff.1 hseq).1
        rw [hentry, Function.update_self]
        simp [cellOf, advance, hlt]
      · rw [Function.update_of_ne (by simpa using hentry)]
        simp [cellOf, advance, List.getElem?_set_ne (Ne.symm hentry)]

/-- **A request is answered by the service.** -/
theorem Allocation.state_allocate {a : Allocation ρ} {place : ℕ}
    (hpool : cfg.poolOf id.entry = some (.fromNets [net], policy))
    (hpolicy : policy.isStateful = true) (hslot : a.slots[place]? = some slot)
    (h : (slot.allocate policy id (.fromNets [net]) : Outcome ε _) = .ok (target, slot')) :
    let a' : Allocation ρ := { a with slots := a.slots.set place slot' }
    a'.state = cfg.service.serve (place, id) a.state ∧ a'.state.known (place, id) = target := by
  intro a'
  cases hlookup : slot.table.lookup id with
  | some known =>
    rw [AllocSlot.allocate_of_lookup hlookup] at h
    obtain ⟨rfl, rfl⟩ := Prod.mk.inj (Outcome.ok.inj h)
    have hsame : a' = a := by
      show ({ a with slots := a.slots.set place slot } : Allocation ρ) = a
      rw [set_eq_self hslot]
    have hknown : a.state.known (place, id) = some known := (known_of_slot hslot id).trans hlookup
    rw [hsame, Service.serve_of_known hknown]
    exact ⟨rfl, hknown⟩
  | none =>
    obtain ⟨rfl, htable, hcells⟩ := AllocSlot.allocate_new hpool hpolicy hlookup place h
    have hnone : a.state.known (place, id) = none := (known_of_slot hslot id).trans hlookup
    have hplace : (cfg.channelOf (place, id)).1 = place := by
      unfold FlowCfg.channelOf
      split <;> rfl
    have hpair : cfg.channelOf (place, id) = (place, (cfg.channelOf (place, id)).2) :=
      Prod.ext hplace rfl
    have hcell : a.state.cell (cfg.channelOf (place, id)) =
        slot.cellOf (cfg.channelOf (place, id)).2 :=
      (congrArg a.state.cell hpair).trans (cell_of_slot hslot _)
    constructor
    · refine Service.State.ext (funext fun k => ?_) (funext fun c => ?_)
      · rw [known_set hslot, Service.serve, hnone]
        dsimp only [FlowCfg.service]
        rw [hcell, htable]
        by_cases hk : k = (place, id)
        · subst hk
          simp
        · rw [Function.update_of_ne hk]
          split_ifs with hplace'
          · have hid : k.2 ≠ id := fun hid => hk (Prod.ext hplace' hid)
            rw [AList.lookup_insert_ne hid, ← known_of_slot hslot, ← hplace']
          · rfl
      · rw [cell_set hslot, Service.serve, hnone]
        dsimp only [FlowCfg.service]
        rw [hcell, hcells]
        by_cases hc : c = cfg.channelOf (place, id)
        · subst hc
          rw [if_pos hplace, Function.update_self, Function.update_self]
        · rw [Function.update_of_ne hc]
          split_ifs with hplace'
          · have hc' : c.2 ≠ (cfg.channelOf (place, id)).2 := fun hc' =>
              hc (Prod.ext (hplace'.trans hplace.symm) hc')
            rw [Function.update_of_ne hc', ← cell_of_slot hslot, ← hplace']
          · rfl
    · rw [known_set hslot, if_pos rfl, htable, AList.lookup_insert]

end Serve

/-! ### Packets -/

namespace FlowCfg

/-- The id that an address asks a slot for, when the pool of its entry is a stateful
one. -/
def asked (cfg : FlowCfg) (addr : IpAddr) (id : Identity) : Option AllocId :=
  match cfg.role addr with
  | some (entry, .pool _ policy) => if policy.isStateful then some ⟨entry, id, addr⟩ else none
  | _ => none

/-- The target of an address whose id is in the table. -/
def targetOf (cfg : FlowCfg) (hashSeed : UInt64) (known : AllocId → Option IpAddr) (addr : IpAddr)
    (id : Identity) : Option IpAddr :=
  match cfg.role addr with
  | none => none
  | some (_, .fixed ip) => if Family.ofAddr ip = Family.ofAddr addr then some ip else none
  | some (_, .mask net) => maskMap net addr
  | some (entry, .pool pool policy) =>
    if policy.isStateful then known ⟨entry, id, addr⟩
    else pool.addrAt (hashIndex hashSeed entry addr id pool.len)

/-- The identity of the endpoints of a packet. -/
def identityOf (cfg : FlowCfg) (info : PacketInfo) : Identity :=
  identity cfg.key info.session (info.fragment.filter fun _ => cfg.fragments)

/-- What a packet is about, when the map has to do with it. -/
def selects (cfg : FlowCfg) (info : Option PacketInfo) : Option PacketInfo :=
  info.filter fun info => cfg.protocols.allows info.proto

/-- The ids that a packet asks for, in the order in which it does. -/
def asks (cfg : FlowCfg) (info : Option PacketInfo) : List AllocId :=
  (cfg.selects info).elim [] fun info =>
    (cfg.asked info.src (cfg.identityOf info)).toList ++
      (cfg.asked info.dst (cfg.identityOf info)).toList

/-- The targets of a packet whose ids are in the table. -/
def targetsOf (cfg : FlowCfg) (hashSeed : UInt64) (known : AllocId → Option IpAddr)
    (info : Option PacketInfo) : Targets :=
  (cfg.selects info).elim {} fun info =>
    ⟨cfg.targetOf hashSeed known info.src (cfg.identityOf info),
      cfg.targetOf hashSeed known info.dst (cfg.identityOf info)⟩

/-- A target depends on the entry of its id only. -/
theorem targetOf_congr {cfg : FlowCfg} {hashSeed : UInt64} {known known' : AllocId → Option IpAddr}
    {addr : IpAddr} {id : Identity} (h : ∀ j ∈ cfg.asked addr id, known' j = known j) :
    cfg.targetOf hashSeed known' addr id = cfg.targetOf hashSeed known addr id := by
  unfold asked at h
  unfold targetOf
  split
  · rfl
  · rfl
  · rfl
  · rename_i hrole
    rw [hrole] at h
    dsimp only at h
    split_ifs at h ⊢
    · exact h _ rfl
    · rfl

/-- The targets of a packet depend on the entries of its ids only. -/
theorem targetsOf_congr {cfg : FlowCfg} {hashSeed : UInt64} {known known' : AllocId → Option IpAddr}
    {info : Option PacketInfo} (h : ∀ j ∈ cfg.asks info, known' j = known j) :
    cfg.targetsOf hashSeed known' info = cfg.targetsOf hashSeed known info := by
  unfold asks at h
  unfold targetsOf
  cases hselects : cfg.selects info with
  | none => rfl
  | some info =>
    rw [hselects] at h
    refine Targets.ext (targetOf_congr fun j hj => ?_) (targetOf_congr fun j hj => ?_)
    · exact h j (List.mem_append_left _ (Option.mem_toList.2 hj))
    · exact h j (List.mem_append_right _ (Option.mem_toList.2 hj))

end FlowCfg

/-- The allocation has answered these ids. -/
structure Allocation.Answers [StdRng ρ] (cfg : FlowCfg) (a a' : Allocation ρ) (ks : List SlotId) :
    Prop where
  shared : a'.shared = a.shared
  length : a'.slots.length = a.slots.length
  state : a'.state = cfg.service.serveAll ks a.state

namespace Allocation.Answers

variable [StdRng ρ] {cfg : FlowCfg} {a a₁ a₂ : Allocation ρ} {ks ls : List SlotId}

/-- A group keeps its slot. -/
theorem slotIndex_eq (h : a.Answers cfg a₁ ks) (group : ℕ) : a₁.slotIndex group = a.slotIndex group := by
  rw [slotIndex, slotIndex, h.shared, h.length]

/-- Requests, and requests behind them. -/
theorem trans (h : a.Answers cfg a₁ ks) (h' : a₁.Answers cfg a₂ ls) : a.Answers cfg a₂ (ks ++ ls) where
  shared := h'.shared.trans h.shared
  length := h'.length.trans h.length
  state := by rw [h'.state, h.state, Service.serveAll_append]

/-- An id that was asked for has a target in the table. -/
theorem known_of_mem (h : a.Answers cfg a₁ ks) {k : SlotId} (hk : k ∈ ks) :
    ∃ given, a₁.state.known k = some given := by
  rw [h.state]
  exact Service.known_of_mem hk

/-- An id keeps the target that it had before the requests. -/
theorem known_eq (h : a.Answers cfg a₁ ks) {k : SlotId} {given : IpAddr}
    (hk : a.state.known k = some given) : a₁.state.known k = some given := by
  rw [h.state]
  exact Service.known_serveAll hk

end Allocation.Answers

namespace FlowState

variable [StdRng ρ] {s s' s₁ s₂ : FlowState ρ} {group : ℕ}

/-- The allocation has been asked for these ids, and nothing else that matters has
changed. -/
structure Served (s s' : FlowState ρ) (a a' : Allocation ρ) (ks : List SlotId) : Prop where
  cfg : s'.cfg = s.cfg
  hashSeed : s'.hashSeed = s.hashSeed
  before : s.allocation = some a
  after : s'.allocation = some a'
  answers : a.Answers s.cfg a' ks

/-- Requests that were served, and requests behind them. -/
theorem Served.trans {a a₁ a₂ : Allocation ρ} {ks ls : List SlotId} (h : Served s s₁ a a₁ ks)
    (h' : Served s₁ s₂ a₁ a₂ ls) : Served s s₂ a a₂ (ks ++ ls) where
  cfg := h'.cfg.trans h.cfg
  hashSeed := h'.hashSeed.trans h.hashSeed
  before := h.before
  after := h'.after
  answers := h.answers.trans (h.cfg ▸ h'.answers)

/-- **Finding a target asks for the id of the address**, and the target is what the
tables then say. -/
theorem targetFor_served (hpools : s.cfg.OneNetPools) (hrandom : s.cfg.NoRandom) {addr : IpAddr}
    {session : Option SessionId} {fragment : Option FragKey} {target : Option IpAddr}
    {a : Allocation ρ} (ha : s.allocation = some a)
    (h : targetFor group addr session fragment s = .ok (target, s')) :
    let id := identity s.cfg.key session fragment
    ∃ a', Served s s' a a' ((s.cfg.asked addr id).toList.map (a.slotIndex group, ·)) ∧
      target = s.cfg.targetOf s.hashSeed (fun j => a'.state.known (a.slotIndex group, j)) addr id := by
  intro id
  rw [targetFor_eq] at h
  unfold FlowCfg.asked FlowCfg.targetOf
  split at h
  · rename_i hrole
    rw [hrole]
    cases h
    exact ⟨a, ⟨rfl, rfl, ha, ha, rfl, rfl, rfl⟩, rfl⟩
  · rename_i hrole
    rw [hrole]
    cases h
    exact ⟨a, ⟨rfl, rfl, ha, ha, rfl, rfl, rfl⟩, rfl⟩
  · rename_i hrole
    rw [hrole]
    cases h
    exact ⟨a, ⟨rfl, rfl, ha, ha, rfl, rfl, rfl⟩, rfl⟩
  · rename_i entry pool policy hrole
    rw [hrole]
    obtain ⟨net, rfl⟩ := hpools.of_role hrole
    rw [poolTarget_eq] at h
    have hpool : s.cfg.poolOf entry = some (.fromNets [net], policy) := by
      obtain ⟨-, -, source, hentry⟩ := FlowCfg.role_eq_some hrole
      rw [FlowCfg.poolOf, hentry]
      rfl
    have hallocate : policy.isStateful = true →
        allocateFor group policy ⟨entry, id, addr⟩ (.fromNets [net]) s = .ok (target, s') →
        ∃ a', Served s s' a a' [(a.slotIndex group, ⟨entry, id, addr⟩)] ∧
          target = a'.state.known (a.slotIndex group, ⟨entry, id, addr⟩) := by
      intro hpolicy h
      rw [allocateFor, ha] at h
      obtain ⟨slot, hslot, h⟩ := Outcome.bind_eq_ok.1 h
      obtain ⟨⟨target', slot'⟩, hgiven, h⟩ := Outcome.bind_eq_ok.1 h
      obtain ⟨rfl, rfl⟩ := Prod.mk.inj (Outcome.ok.inj h)
      obtain ⟨hstate, hknown⟩ :=
        Allocation.state_allocate hpool hpolicy (Outcome.index_eq_some hslot) hgiven
      exact ⟨_, ⟨rfl, rfl, ha, rfl, rfl, List.length_set, hstate⟩, hknown.symm⟩
    cases policy with
    | random => exact absurd hrole hrandom.role_ne
    | hash =>
      cases h
      refine ⟨a, ⟨rfl, rfl, ha, ha, rfl, rfl, rfl⟩, ?_⟩
      simp only [MapPolicy.isStateful, Bool.false_eq_true, if_false, Pool.addrAt_singleton,
        Pool.len_singleton]
      rfl
    | sticky => exact hallocate rfl h
    | unique => exact hallocate rfl h

/-- **A packet asks for the ids of its two addresses**, and its targets are what the
tables then say. -/
theorem packetTargets_served (hpools : s.cfg.OneNetPools) (hrandom : s.cfg.NoRandom)
    {packet : Maja.Packet} {given : Targets} {a : Allocation ρ} (ha : s.allocation = some a)
    (h : packetTargets packet group s = .ok (given, s')) :
    ∃ info a', (PacketInfo.read packet : Outcome (Empty × FlowState ρ) _) = .ok info ∧
      Served s s' a a' ((s.cfg.asks info).map (a.slotIndex group, ·)) ∧
      given = s.cfg.targetsOf s.hashSeed (fun j => a'.state.known (a.slotIndex group, j)) info := by
  obtain ⟨info, hread, h⟩ := Outcome.bind_eq_ok.1 h
  refine ⟨info, ?_⟩
  have hnothing : s.cfg.selects info = none → (given, s') = (({}, s) : Targets × FlowState ρ) →
      ∃ a', (PacketInfo.read packet : Outcome (Empty × FlowState ρ) _) = .ok info ∧
        Served s s' a a' ((s.cfg.asks info).map (a.slotIndex group, ·)) ∧
        given = s.cfg.targetsOf s.hashSeed (fun j => a'.state.known (a.slotIndex group, j)) info := by
    intro hselects heq
    obtain ⟨rfl, rfl⟩ := Prod.mk.inj heq
    refine ⟨a, hread, ?_, ?_⟩
    · rw [FlowCfg.asks, hselects]
      exact ⟨rfl, rfl, ha, ha, rfl, rfl, rfl⟩
    · rw [FlowCfg.targetsOf, hselects]
      rfl
  split at h
  · exact hnothing rfl (Outcome.ok.inj h).symm
  · rename_i info
    split_ifs at h with hallows
    · have hselects : s.cfg.selects (some info) = some info := by
        simp [FlowCfg.selects, hallows]
      have hfor : targetsFor group info (info.fragment.filter fun _ => s.cfg.fragments) s =
          .ok (given, s') := by
        rw [targets, hrandom.needsAlias_eq] at h
        cases hfragment : info.fragment.filter fun _ => s.cfg.fragments with
        | none => simpa [hfragment] using h
        | some key => simpa [hfragment] using h
      obtain ⟨s₁, hsrc, hdst⟩ := targetsFor_eq_ok hfor
      obtain ⟨a₁, hserved₁, hsrc⟩ := targetFor_served hpools hrandom ha hsrc
      obtain ⟨a₂, hserved₂, hdst⟩ := targetFor_served (hserved₁.cfg ▸ hpools) (hserved₁.cfg ▸ hrandom)
        hserved₁.after hdst
      rw [hserved₁.cfg, hserved₁.answers.slotIndex_eq] at hserved₂ hdst
      rw [hserved₁.hashSeed] at hdst
      refine ⟨a₂, hread, ?_, ?_⟩
      · rw [FlowCfg.asks, hselects, Option.elim_some, List.map_append]
        exact hserved₁.trans hserved₂
      · rw [FlowCfg.targetsOf, hselects, Option.elim_some]
        -- what was given first is still in the tables
        have hstays : ∀ j ∈ s.cfg.asked info.src (s.cfg.identityOf info),
            a₂.state.known (a.slotIndex group, j) = a₁.state.known (a.slotIndex group, j) := by
          intro j hj
          obtain ⟨given, hknown⟩ :=
            hserved₁.answers.known_of_mem (List.mem_map_of_mem (Option.mem_toList.2 hj))
          rw [hknown, hserved₂.answers.known_eq hknown]
        exact Targets.ext (hsrc.trans (FlowCfg.targetOf_congr hstays).symm) hdst
    · refine hnothing ?_ (Outcome.ok.inj h).symm
      simp [FlowCfg.selects, hallows]

end FlowState

end Mergecap
end Maja
