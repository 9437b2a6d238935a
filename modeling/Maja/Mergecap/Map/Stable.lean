/-
# Targets are stable and direction independent

An endpoint is settled once it has been given a target: its table entry, its hash
or its address decide the same target ever after.  The identity of an endpoint
does not depend on the direction of the packet, and that of a fragment not on what
the fragment shows of its datagram.
-/

import Maja.Mergecap.Map.FlowRun

namespace Maja
namespace Mergecap

open Lib Packet

variable {ρ : Type} [StdRng ρ]

/-- The entry of the address does not draw per packet. -/
def FlowCfg.Keyed (cfg : FlowCfg) (addr : IpAddr) : Prop :=
  ∀ entry pool, cfg.role addr ≠ some (entry, .pool pool .random)

namespace FlowState

/-- From the state on, the endpoint is given this target. -/
def Settled (s : FlowState ρ) (group : ℕ) (addr : IpAddr) (id : Identity)
    (target : Option IpAddr) : Prop :=
  ∀ s₂, s.Grows s₂ → ∀ session fragment, identity s.cfg.key session fragment = id →
    ∀ target' s₃, targetFor group addr session fragment s₂ = .ok (target', s₃) → target' = target

variable {s s' : FlowState ρ} {group : ℕ} {addr : IpAddr} {id : Identity}
  {session : Option SessionId} {fragment : Option FragKey} {target : Option IpAddr}

/-- An id that is settled stays so while the tables grow. -/
theorem Settled.mono (h : s.Settled group addr id target) (hgrows : s.Grows s') :
    s'.Settled group addr id target := fun s₂ hs₂ session fragment hid =>
  h s₂ (hgrows.trans hs₂) session fragment (hgrows.cfg ▸ hid)

/-- An id in the table of its group answers for its endpoint. -/
theorem target_of_allocated {policy : MapPolicy} {allocId : AllocId} {net : IpNet}
    {a : Allocation ρ} {slot slot' : AllocSlot ρ} {given : IpAddr} {s₂ s₃ : FlowState ρ}
    {target' : Option IpAddr} (hpolicy : policy.isStateful = true)
    (hslot : a.slots[a.slotIndex group]? = some slot)
    (hgives : slot.Gives allocId net policy given slot')
    (hgrows : Grows { s with allocation := some { a with
      slots := a.slots.set (a.slotIndex group) slot' } } s₂)
    (h : allocateFor group policy allocId (.fromNets [net]) s₂ = .ok (target', s₃)) :
    target' = some given := by
  obtain ⟨a₂, slot₂, given₂, slot₃, ha₂, hslot₂, rfl, hgives₂, -⟩ := allocateFor_eq_ok hpolicy h
  obtain ⟨b, hb, hab⟩ := hgrows.allocation _ rfl
  obtain rfl := Option.some.inj (ha₂.symm.trans hb)
  -- the slot of the group is the one that remembered the id
  have hplace : a₂.slotIndex group = a.slotIndex group := by
    rw [hab.slotIndex_eq]
    simp [Allocation.slotIndex]
  obtain ⟨slot₂', hslot₂', hkeeps⟩ := hab.tables (a.slotIndex group) slot'
    (List.getElem?_set_self (List.getElem?_eq_some_iff.1 hslot).1)
  rw [hplace] at hslot₂
  obtain rfl := Option.some.inj (hslot₂.symm.trans hslot₂')
  have hknown : slot₂.table.lookup allocId = some given :=
    hkeeps _ _ (by rw [hgives.lookup, if_pos rfl])
  obtain hlookup | ⟨hlookup, -⟩ := hgives₂.known_or_inside
  · exact hlookup.symm.trans hknown
  · rw [hknown] at hlookup
    cases hlookup

/-- **An endpoint that was given a target is settled.** -/
theorem settled_of_targetFor (hpools : s.cfg.OneNetPools) (hkeyed : s.cfg.Keyed addr)
    (h : targetFor group addr session fragment s = .ok (target, s')) :
    s'.Settled group addr (identity s.cfg.key session fragment) target := by
  intro s₂ hgrows session₂ fragment₂ hid target' s₃ h'
  have hcfg' : s'.cfg = s.cfg := (targetFor_grows hpools h).1.cfg
  have hcfg : s₂.cfg = s.cfg := hgrows.cfg.trans hcfg'
  have hseed : s₂.hashSeed = s.hashSeed :=
    hgrows.hashSeed.trans (targetFor_grows hpools h).1.hashSeed
  rw [hcfg'] at hid
  rw [targetFor_eq] at h h'
  rw [hcfg] at h'
  split at h
  · rename_i hrole
    rw [hrole] at h'
    cases h
    cases h'
    rfl
  · rename_i hrole
    rw [hrole] at h'
    cases h
    cases h'
    rfl
  · rename_i hrole
    rw [hrole] at h'
    cases h
    cases h'
    rfl
  · rename_i entry pool policy hrole
    rw [hrole] at h'
    obtain ⟨net, rfl⟩ := hpools.of_role hrole
    dsimp only at h'
    rw [poolTarget_eq] at h h'
    rw [hcfg, hid, hseed] at h'
    cases policy with
    | random => exact absurd hrole (hkeyed entry _)
    | hash =>
        cases h
        cases h'
        rfl
    | sticky =>
        obtain ⟨a, slot, given, slot', -, hslot, rfl, hgives, rfl⟩ := allocateFor_eq_ok rfl h
        exact target_of_allocated rfl hslot hgives hgrows h'
    | unique =>
        obtain ⟨a, slot, given, slot', -, hslot, rfl, hgives, rfl⟩ := allocateFor_eq_ok rfl h
        exact target_of_allocated rfl hslot hgives hgrows h'

/-- Both endpoints of a packet that was given targets are settled. -/
theorem settled_of_targetsFor (hpools : s.cfg.OneNetPools) {info : PacketInfo}
    (hsrc : s.cfg.Keyed info.src) (hdst : s.cfg.Keyed info.dst) {given : Targets}
    (h : targetsFor group info fragment s = .ok (given, s')) :
    s'.Settled group info.src (identity s.cfg.key info.session fragment) given.src ∧
      s'.Settled group info.dst (identity s.cfg.key info.session fragment) given.dst := by
  obtain ⟨s₁, hfirst, hsecond⟩ := targetsFor_eq_ok h
  have hgrows := (targetFor_grows hpools hfirst).1
  have hpools₁ : s₁.cfg.OneNetPools := hgrows.cfg ▸ hpools
  refine ⟨(settled_of_targetFor hpools hsrc hfirst).mono (targetFor_grows hpools₁ hsecond).1, ?_⟩
  rw [← hgrows.cfg]
  exact settled_of_targetFor hpools₁ (hgrows.cfg ▸ hdst) hsecond

/-- Settled endpoints are given their targets again. -/
theorem targetsFor_of_settled {info : PacketInfo} {given given' : Targets} {s₂ s₃ : FlowState ρ}
    (hpools : s.cfg.OneNetPools) (hgrows : s.Grows s₂)
    (hsrc : s.Settled group info.src (identity s.cfg.key info.session fragment) given.src)
    (hdst : s.Settled group info.dst (identity s.cfg.key info.session fragment) given.dst)
    (h : targetsFor group info fragment s₂ = .ok (given', s₃)) : given' = given := by
  obtain ⟨s₁, hfirst, hsecond⟩ := targetsFor_eq_ok h
  have hgrows₁ := (targetFor_grows (hgrows.cfg ▸ hpools) hfirst).1
  exact Targets.ext (hsrc s₂ hgrows _ _ rfl _ _ hfirst)
    (hdst s₁ (hgrows.trans hgrows₁) _ _ rfl _ _ hsecond)

end FlowState

/-! ### Directions -/

/-- The packets of one direction: addresses, ports and protocol are the same. -/
structure PacketInfo.SameFlow (i j : PacketInfo) : Prop where
  src : j.src = i.src
  dst : j.dst = i.dst
  srcPort : j.srcPort = i.srcPort
  dstPort : j.dstPort = i.dstPort
  hasPorts : j.hasPorts = i.hasPorts
  proto : j.proto = i.proto

/-- The packets of the other direction. -/
structure PacketInfo.Reverses (i j : PacketInfo) : Prop where
  src : j.src = i.dst
  dst : j.dst = i.src
  srcPort : j.srcPort = i.dstPort
  dstPort : j.dstPort = i.srcPort
  hasPorts : j.hasPorts = i.hasPorts
  proto : j.proto = i.proto

/-- The pair the other way round. -/
def Targets.swap (targets : Targets) : Targets := ⟨targets.dst, targets.src⟩

/-- Packets of one flow, in either direction, are of one session. -/
theorem PacketInfo.SameFlow.session_eq {i j : PacketInfo} (h : i.SameFlow j) :
    j.session = i.session := by
  rw [session, session, h.src, h.dst, h.srcPort, h.dstPort, h.hasPorts, h.proto]

/-- The addresses of a packet are of one family. -/
def PacketInfo.OneFamily (info : PacketInfo) : Prop :=
  Family.ofAddr info.src = Family.ofAddr info.dst

/-- **The session of a packet is that of its answer.** -/
theorem PacketInfo.Reverses.session_eq {i j : PacketInfo} (h : i.Reverses j)
    (hfamily : i.OneFamily) : j.session = i.session := by
  have hnew : SessionId.new i.dst i.dstPort i.src i.srcPort i.proto =
      SessionId.new i.src i.srcPort i.dst i.dstPort i.proto := by
    unfold SessionId.new
    rw [hfamily]
    grind
  rw [session, session, h.src, h.dst, h.srcPort, h.dstPort, h.hasPorts, h.proto, hnew]

/-- This is what is read off the packet. -/
def PacketInfo.Describes (info : PacketInfo) (packet : Maja.Packet) : Prop :=
  ∀ ε : Type, (read packet : Outcome ε _) = .ok (some info)

/-- What is read off one IP header. -/
structure PacketInfo.FromHeader (info : PacketInfo) : Prop where
  oneFamily : info.OneFamily
  fragment : ∀ key ∈ info.fragment, key.src = info.src ∧ key.dst = info.dst

/-- What `read` finds is what a header can say. -/
theorem PacketInfo.fromHeader_of_read {ε : Type} {packet : Maja.Packet} {info : PacketInfo}
    (h : (read packet : Outcome ε _) = .ok (some info)) : info.FromHeader := by
  unfold read at h
  split at h
  · obtain ⟨header, -, h⟩ := Outcome.bind_eq_ok.1 h
    split at h
    · obtain ⟨info', hinfo, h⟩ := Outcome.bind_eq_ok.1 h
      cases h
      simp only [fromIpv4, Outcome.bind_eq_ok, Outcome.pure_eq, Outcome.ok.injEq] at hinfo
      obtain ⟨_, -, _, -, _, -, _, -, _, -, _, -, _, -, rfl⟩ := hinfo
      refine ⟨rfl, fun key hkey => ?_⟩
      simp only [Option.mem_ite_none_right] at hkey
      obtain rfl := Option.some.inj hkey.2
      exact ⟨rfl, rfl⟩
    · cases h
  · obtain ⟨header, -, h⟩ := Outcome.bind_eq_ok.1 h
    split at h
    · obtain ⟨info', hinfo, h⟩ := Outcome.bind_eq_ok.1 h
      cases h
      simp only [fromIpv6, Outcome.bind_eq_ok, Outcome.pure_eq, Outcome.ok.injEq] at hinfo
      obtain ⟨_, -, _, -, _, -, _, -, _, -, frag, -, fragment, hfragment, rfl⟩ := hinfo
      refine ⟨rfl, fun key hkey => ?_⟩
      cases frag with
      | none =>
          cases hfragment
          cases hkey
      | some frag =>
          simp only [fragmentOf, Outcome.bind_eq_ok, Outcome.pure_eq, Outcome.ok.injEq] at hfragment
          obtain ⟨_, -, _, -, rfl⟩ := hfragment
          obtain rfl := Option.some.inj hkey
          exact ⟨rfl, rfl⟩
    · cases h
  · cases h

/-- Where no pool draws per packet, every address is keyed. -/
theorem FlowCfg.keyed_of_compile {flow : FlowMap} {cfg : FlowCfg} (hcompile : compile flow = .ok cfg)
    (h : .random ∉ poolPolicies flow) (addr : IpAddr) : cfg.Keyed addr := by
  rintro entry pool hrole
  obtain ⟨-, -, source, hentry⟩ := role_eq_some hrole
  obtain ⟨mapEntry, hmem, hto⟩ := exists_of_mem hcompile (List.mem_of_getElem? hentry)
  generalize hcompiled : (⟨source, .pool pool .random⟩ : CompiledEntry) = compiled at hto
  cases hto with
  | fixed => cases hcompiled
  | mask => cases hcompiled
  | pool hshape =>
      simp only [CompiledEntry.mk.injEq, Action.pool.injEq] at hcompiled
      exact h (List.mem_map.2 ⟨mapEntry, List.mem_filter.2 ⟨hmem, by simpa using hshape⟩,
        hcompiled.2.2.symm⟩)

namespace FlowState

variable {s s₁ s₂ s₃ : FlowState ρ} {group : ℕ}

/-- The packet shows no fragment, or fragments are not kept together. -/
def Unfragmented (cfg : FlowCfg) (info : PacketInfo) : Prop :=
  info.fragment = none ∨ cfg.fragments = false

/-- A packet that is no fragment does not look at the alias cache. -/
theorem targets_of_unfragmented {info : PacketInfo} (h : Unfragmented s.cfg info) :
    targets group info s = targetsFor group info none s := by
  have hfilter : (info.fragment.filter fun _ => s.cfg.fragments) = none := by
    obtain h | h := h
    · rw [h]
      rfl
    · rw [h]
      cases info.fragment <;> rfl
  rw [targets, hfilter]

/-- The targets of a packet that is described. -/
theorem packetTargets_eq {info : PacketInfo} {packet : Maja.Packet} (h : info.Describes packet)
    (s : FlowState ρ) : packetTargets packet group s =
      if s.cfg.protocols.allows info.proto then targets group info s else .ok ({}, s) := by
  rw [packetTargets, h]
  rfl

/-- **Rewriting does not depend on the direction.**  Take a map whose pools are
`sticky`, `unique` or `hash`, and a state of it, whatever it has given before.
Rewrite a packet; let any number of packets be rewritten, in this group and in
others, in this file and in those that share its allocation; rewrite a second
packet in the same group.  If it is of the same flow it is given the same targets,
and if it is an answer it is given them swapped. -/
theorem targets_direction_independent {flow : FlowMap} (hcompile : FlowCfg.compile flow = .ok s.cfg)
    (hkeyed : .random ∉ poolPolicies flow) {p q : Maja.Packet} {i j : PacketInfo}
    {r r' : Bool × Maja.Packet} (hfirst : rewrite p group s = .ok (r, s₁)) (hrun : Run s₁ s₂)
    (hsecond : rewrite q group s₂ = .ok (r', s₃))
    (hi : i.Describes p) (hj : j.Describes q) (hifrag : Unfragmented s.cfg i)
    (hjfrag : Unfragmented s.cfg j) :
    ∃ given given', packetTargets p group s = .ok (given, s₁) ∧
      packetTargets q group s₂ = .ok (given', s₃) ∧
      (i.SameFlow j → given' = given) ∧ (i.Reverses j → given' = given.swap) := by
  obtain ⟨given, hgiven, -⟩ := rewrite_eq_ok hfirst
  obtain ⟨given', hgiven', -⟩ := rewrite_eq_ok hsecond
  refine ⟨given, given', hgiven, hgiven', ?_⟩
  have hpools := FlowCfg.oneNetPools_of_compile hcompile
  have hkeyed := FlowCfg.keyed_of_compile hcompile hkeyed
  have hgrows := packetTargets_grows hpools hgiven
  have hgrows₂ := hrun.grows (hgrows.cfg ▸ hpools)
  have hcfg₂ : s₂.cfg = s.cfg := hgrows₂.cfg.trans hgrows.cfg
  rw [packetTargets_eq hi] at hgiven
  rw [packetTargets_eq hj, hcfg₂] at hgiven'
  by_cases hallows : s.cfg.protocols.allows i.proto
  · -- both endpoints of the first packet are settled by it
    rw [if_pos hallows, targets_of_unfragmented hifrag] at hgiven
    obtain ⟨hsrc, hdst⟩ := settled_of_targetsFor hpools (hkeyed i.src) (hkeyed i.dst) hgiven
    rw [← hgrows.cfg] at hsrc hdst
    constructor
    · intro hsame
      rw [hsame.proto, if_pos hallows, targets_of_unfragmented (hcfg₂ ▸ hjfrag)] at hgiven'
      refine targetsFor_of_settled (hgrows.cfg ▸ hpools) hgrows₂ ?_ ?_ hgiven'
      · rwa [hsame.src, hsame.session_eq]
      · rwa [hsame.dst, hsame.session_eq]
    · intro hreverses
      have hsession := hreverses.session_eq (PacketInfo.fromHeader_of_read (hi Empty)).oneFamily
      rw [hreverses.proto, if_pos hallows, targets_of_unfragmented (hcfg₂ ▸ hjfrag)] at hgiven'
      refine targetsFor_of_settled (hgrows.cfg ▸ hpools) hgrows₂ ?_ ?_ hgiven'
      · rwa [hreverses.src, hsession]
      · rwa [hreverses.dst, hsession]
  · rw [if_neg hallows] at hgiven
    cases hgiven
    constructor
    · intro hsame
      rw [hsame.proto, if_neg hallows] at hgiven'
      cases hgiven'
      rfl
    · intro hreverses
      rw [hreverses.proto, if_neg hallows] at hgiven'
      cases hgiven'
      rfl

/-- A TCP packet over IPv4, between two last octets of `192.168.0.0/24` and
`8.8.8.0/24`. -/
def tcpPacket (src dst : List UInt8) (srcPort dstPort : UInt8) : Maja.Packet where
  bytes := [0x45, 0, 0, 40, 0, 0, 0, 0, 64, 6, 0, 0] ++ src ++ dst ++
    [0, srcPort, 0, dstPort, 0, 0, 0, 0, 0, 0, 0, 0, 0x50, 0, 0, 0, 0, 0, 0, 0]
  layers := [⟨.ipv4, 0, 20⟩, ⟨.tcp, 20, 20⟩]

/-- What is read off it. -/
def tcpInfo (src dst : BitVec 32) (srcPort dstPort : ℕ) : PacketInfo :=
  ⟨.v4 src, .v4 dst, 6, srcPort, dstPort, true, none⟩

/-- A request and its reply, under `192.168.0.0/16=>10.0.0.0/30` keyed by session. -/
theorem targets_direction_independent_reply :
    ∃ s s₁ s₃ : FlowState LeastRng, ∃ r r' given given',
      rewrite (tcpPacket [192, 168, 0, 1] [8, 8, 8, 8] 99 80) 0 s = .ok (r, s₁) ∧
      packetTargets (tcpPacket [192, 168, 0, 1] [8, 8, 8, 8] 99 80) 0 s = .ok (given, s₁) ∧
      rewrite (tcpPacket [8, 8, 8, 8] [192, 168, 0, 1] 80 99) 0 s₁ = .ok (r', s₃) ∧
      packetTargets (tcpPacket [8, 8, 8, 8] [192, 168, 0, 1] 80 99) 0 s₁ = .ok (given', s₃) ∧
      given' = given.swap := by
  let s : FlowState LeastRng :=
    FlowState.new { AllocSlot.twoHostsCfg with key := .session } 1 2 1 .perGroup none
  have hreturns : ((rewrite (tcpPacket [192, 168, 0, 1] [8, 8, 8, 8] 99 80) 0 s >>= fun r =>
      rewrite (tcpPacket [8, 8, 8, 8] [192, 168, 0, 1] 80 99) 0 r.2).toOption.isSome) = true := by
    decide +kernel
  obtain ⟨⟨r', s₃⟩, hboth⟩ := Option.isSome_iff_exists.1 hreturns
  obtain ⟨⟨r, s₁⟩, hfirst, hsecond⟩ := Outcome.bind_eq_ok.1 (Outcome.toOption_eq_some.1 hboth)
  have hcompile : FlowCfg.compile { AllocSlot.twoHosts with key := .session } = .ok s.cfg := by
    decide +kernel
  obtain ⟨given, given', hgiven, hgiven', -, hswap⟩ := targets_direction_independent hcompile
    (by decide) hfirst .refl hsecond
    (i := tcpInfo 0xC0A80001 0x08080808 99 80) (j := tcpInfo 0x08080808 0xC0A80001 80 99)
    (fun _ => rfl) (fun _ => rfl) (.inl rfl) (.inl rfl)
  exact ⟨s, s₁, s₃, r, r', given, given', hfirst, hgiven, hsecond, hgiven',
    hswap ⟨rfl, rfl, rfl, rfl, rfl, rfl⟩⟩

end FlowState

end Mergecap
end Maja
