/-
# The fragments of a datagram

Every fragment of a datagram names the same key: addresses, identification, and
the header behind the fragment header.  The identity of an endpoint follows from
that key, or the alias cache remembers the targets under it, so the order of the
fragments does not matter.  The protocol filter looks further: it decides by the
last header of the chain, which only the first fragment of an IPv6 datagram shows.
-/

import Maja.Mergecap.Map.Families

namespace Maja
namespace Mergecap

open Lib Packet

variable {ρ : Type} [StdRng ρ]

/-- No packet changes the address: no entry answers for it, or one that has no
target of its family. -/
def FlowCfg.inert (cfg : FlowCfg) (addr : IpAddr) : Bool :=
  match cfg.role addr with
  | none => true
  | some (_, .fixed ip) => Family.ofAddr ip ≠ Family.ofAddr addr
  | some (_, .mask net) => (maskMap net addr).isNone
  | some (_, .pool _ _) => false

/-- An inert address is given no target, and any other one is. -/
theorem FlowCfg.CanGive.eq_none_iff {cfg : FlowCfg} {addr : IpAddr} {target : Option IpAddr}
    (h : cfg.CanGive addr target) : target = none ↔ cfg.inert addr = true := by
  unfold CanGive at h
  unfold inert
  rcases hrole : cfg.role addr with _ | ⟨entry, ip | net | ⟨pool, policy⟩⟩
  all_goals simp only [hrole] at h ⊢
  · exact iff_of_true h trivial
  · rw [h]
    split_ifs with hfamily <;> simp [hfamily]
  · rw [h]
    exact Option.isNone_iff_eq_none.symm
  · obtain ⟨net, given, -, rfl, -⟩ := h
    exact iff_of_false nofun nofun

/-- The addresses of a packet are given no targets exactly when both are inert. -/
theorem FlowCfg.eq_empty_iff {cfg : FlowCfg} {src dst : IpAddr} {given : Targets}
    (hsrc : cfg.CanGive src given.src) (hdst : cfg.CanGive dst given.dst) :
    given = {} ↔ cfg.inert src = true ∧ cfg.inert dst = true := by
  rw [← hsrc.eq_none_iff, ← hdst.eq_none_iff]
  exact Targets.ext_iff

/-- Where no alias is needed, neither address draws per packet. -/
theorem FlowCfg.keyed_of_not_needsAlias {cfg : FlowCfg} {info : PacketInfo}
    (h : cfg.needsAlias info = false) {addr : IpAddr} (hmem : addr ∈ [info.src, info.dst]) :
    cfg.Keyed addr := by
  rintro entry pool hrole
  obtain ⟨-, hclassify, source, hentry⟩ := role_eq_some hrole
  have hdraws : (cfg.entryOf addr).any drawsPerPacket = true := by
    rw [entryOf, hclassify, Option.bind_some, hentry]
    rfl
  have hnot := List.any_eq_false.1 h addr hmem
  exact hnot hdraws

namespace FlowState

variable {s s₁ s₂ s₃ : FlowState ρ} {group : ℕ} {cfg : FlowCfg}

/-- A run goes through reached states. -/
theorem Reached.run (h : Reached cfg s) (hrun : Run s s₁) : Reached cfg s₁ := by
  induction hrun with
  | refl => exact h
  | tail _ hstep ih => exact ih.step hstep

/-- The alias that was made answers ever after. -/
theorem aliased_of_grows (hpools : s.cfg.OneNetPools) {info info' : PacketInfo} {key : FragKey}
    {given given' : Targets} (h : aliased group info key s = .ok (given, s₁))
    (hgrows : s₁.Grows s₂) (h' : aliased group info' key s₂ = .ok (given', s₃)) :
    given' = given := by
  obtain ⟨-, known, hknown, hlookup⟩ := aliased_grows hpools h
  -- the table of the group still has the alias
  rw [aliases, List.getElem?_map] at hknown
  obtain ⟨state, hstate, rfl⟩ := Option.map_eq_some_iff.1 hknown
  obtain ⟨state', hstate', hkeeps⟩ := hgrows.groups group state hstate
  have hlookup' : state'.fragments.lookup key = some given := hkeeps _ _ hlookup
  have hknown' : s₂.aliases[group]? = some state'.fragments := by
    rw [aliases, List.getElem?_map, hstate']
    rfl
  obtain ⟨known', hknown₂, hlookup₂, -⟩ | ⟨known', _, _, hknown₂, hlookup₂, -⟩ := aliased_eq_ok h'
  · obtain rfl := Option.some.inj (hknown'.symm.trans hknown₂)
    exact Option.some.inj (hlookup₂.symm.trans hlookup')
  · obtain rfl := Option.some.inj (hknown'.symm.trans hknown₂)
    rw [hlookup'] at hlookup₂
    cases hlookup₂

/-- **Two fragments that are both rewritten are given the same targets.** -/
theorem targets_of_fragments (hpools : s.cfg.OneNetPools) (hfragments : s.cfg.fragments = true)
    {i j : PacketInfo} (hi : i.FromHeader) (hj : j.FromHeader) {key : FragKey}
    (hifrag : i.fragment = some key) (hjfrag : j.fragment = some key) {given given' : Targets}
    (h : targets group i s = .ok (given, s₁)) (hgrows : s₁.Grows s₂)
    (h' : targets group j s₂ = .ok (given', s₃)) : given' = given := by
  have hcfg₁ : s₁.cfg = s.cfg := (targets_grows hpools h).cfg
  have hcfg₂ : s₂.cfg = s.cfg := hgrows.cfg.trans hcfg₁
  -- the key has the addresses of both
  obtain ⟨hisrc, hidst⟩ := hi.fragment key hifrag
  obtain ⟨hjsrc, hjdst⟩ := hj.fragment key hjfrag
  have hsrc : j.src = i.src := hjsrc.symm.trans hisrc
  have hdst : j.dst = i.dst := hjdst.symm.trans hidst
  have halias : s₂.cfg.needsAlias j = s.cfg.needsAlias i := by
    rw [hcfg₂, FlowCfg.needsAlias, FlowCfg.needsAlias, hsrc, hdst]
  have hfilter : ∀ t : FlowState ρ, t.cfg = s.cfg →
      ((some key).filter fun _ => t.cfg.fragments) = some key := by
    intro t ht
    rw [ht, hfragments]
    rfl
  rw [targets, hifrag, hfilter s rfl] at h
  rw [targets, hjfrag, hfilter s₂ hcfg₂] at h'
  dsimp only at h h'
  rw [halias] at h'
  by_cases hneeds : s.cfg.needsAlias i = true
  · rw [if_pos hneeds] at h h'
    exact aliased_of_grows hpools h hgrows h'
  · -- no address draws per packet, so the key settles both
    rw [if_neg hneeds] at h h'
    have hkeyed := @FlowCfg.keyed_of_not_needsAlias s.cfg i (by simpa using hneeds)
    obtain ⟨hsettled, hsettled'⟩ := settled_of_targetsFor hpools (hkeyed (by simp))
      (hkeyed (by simp)) h
    have hidentity : identity s₁.cfg.key j.session (some key) =
        identity s.cfg.key i.session (some key) := by
      rw [hcfg₁]
      cases s.cfg.key <;> rfl
    refine targetsFor_of_settled (hcfg₁ ▸ hpools) hgrows ?_ ?_ h'
    · rwa [hsrc, hidentity]
    · rwa [hdst, hidentity]

/-- **The fragments of a datagram are given the same targets exactly when the
protocol filter decides alike for them**, or neither address has a target anyway.
Take any state that a map with `fragments` gets into.  Rewrite a packet; let any
number of packets be rewritten, in this group and in others, in this file and in
those that share its allocation; rewrite a second packet of the same datagram in
the same group. -/
theorem fragments_same_iff {flow : FlowMap} (hcompile : FlowCfg.compile flow = .ok cfg)
    (hfragments : cfg.fragments = true) (hreached : Reached cfg s) {p q : Maja.Packet}
    {i j : PacketInfo} (hi : i.Describes p) (hj : j.Describes q) {key : FragKey}
    (hifrag : i.fragment = some key) (hjfrag : j.fragment = some key)
    {r r' : Bool × Maja.Packet} (hfirst : rewrite p group s = .ok (r, s₁)) (hrun : Run s₁ s₂)
    (hsecond : rewrite q group s₂ = .ok (r', s₃)) :
    (∃ given, packetTargets p group s = .ok (given, s₁) ∧
        packetTargets q group s₂ = .ok (given, s₃)) ↔
      (cfg.protocols.allows i.proto = cfg.protocols.allows j.proto ∨
        cfg.inert key.src = true ∧ cfg.inert key.dst = true) := by
  have hpools := FlowCfg.oneNetPools_of_compile hcompile
  obtain ⟨given, hgiven, -⟩ := rewrite_eq_ok hfirst
  obtain ⟨given', hgiven', -⟩ := rewrite_eq_ok hsecond
  have hreached₂ := (hreached.step (.rewrite hfirst)).run hrun
  obtain ⟨hcfg₂, hinside₂, haliases₂⟩ := hreached₂.sound hpools
  obtain ⟨rfl, hinside, haliases⟩ := hreached.sound hpools
  have hgrows₁ := packetTargets_grows hpools hgiven
  have hgrows := hrun.grows (hgrows₁.cfg ▸ hpools)
  have hheader := PacketInfo.fromHeader_of_read (hi Empty)
  have hheader' := PacketInfo.fromHeader_of_read (hj Empty)
  obtain ⟨hisrc, hidst⟩ := hheader.fragment key hifrag
  obtain ⟨hjsrc, hjdst⟩ := hheader'.fragment key hjfrag
  -- what is asked for is that the two pairs are one
  have hsame : (∃ given, packetTargets p group s = .ok (given, s₁) ∧
      packetTargets q group s₂ = .ok (given, s₃)) ↔ given' = given := by
    constructor
    · rintro ⟨same, h, h'⟩
      rw [hgiven] at h
      rw [hgiven'] at h'
      cases h
      cases h'
      rfl
    · rintro rfl
      exact ⟨given', hgiven, hgiven'⟩
  have hgive := packetTargets_canGive hpools hinside haliases hi hgiven
  have hgive' := packetTargets_canGive (hcfg₂ ▸ hpools) hinside₂ haliases₂ hj hgiven'
  rw [hsame]
  rw [hcfg₂] at hgive'
  by_cases hallows : s.cfg.protocols.allows i.proto = true <;>
    by_cases hallows' : s.cfg.protocols.allows j.proto = true
  · rw [packetTargets_eq hi, if_pos hallows] at hgiven
    rw [packetTargets_eq hj, hcfg₂, if_pos hallows'] at hgiven'
    exact iff_of_true (targets_of_fragments hpools hfragments hheader hheader' hifrag hjfrag hgiven
      hgrows hgiven') (.inl (hallows.trans hallows'.symm))
  · rw [if_pos hallows] at hgive
    rw [if_neg hallows'] at hgive'
    have hdiffer : ¬s.cfg.protocols.allows i.proto = s.cfg.protocols.allows j.proto :=
      fun h => hallows' (h.symm.trans hallows)
    rw [or_iff_right hdiffer, hisrc, hidst, ← FlowCfg.eq_empty_iff hgive.1 hgive.2, hgive']
    exact eq_comm
  · rw [if_neg hallows] at hgive
    rw [if_pos hallows'] at hgive'
    have hdiffer : ¬s.cfg.protocols.allows i.proto = s.cfg.protocols.allows j.proto :=
      fun h => hallows (h.trans hallows')
    rw [or_iff_right hdiffer, hjsrc, hjdst, ← FlowCfg.eq_empty_iff hgive'.1 hgive'.2, hgive]
  · rw [if_neg hallows] at hgive
    rw [if_neg hallows'] at hgive'
    have halike : s.cfg.protocols.allows i.proto = s.cfg.protocols.allows j.proto := by
      rw [Bool.eq_false_of_not_eq_true hallows, Bool.eq_false_of_not_eq_true hallows']
    exact iff_of_true (hgive'.trans hgive.symm) (.inl halike)

/-- An IPv6 packet from `2001:db8::1` to `2001:db8::2` with a fragment header of
identification 1, and what is behind that header. -/
def fragmentBytes (offsetAndMore : UInt8) (behind : List UInt8) : List UInt8 :=
  [0x60, 0, 0, 0, 0, 8 + .ofNat behind.length, 44, 64] ++
    [0x20, 1, 0x0D, 0xB8, 0, 0, 0, 0, 0, 0, 0, 0, 0, 0, 0, 1] ++
    [0x20, 1, 0x0D, 0xB8, 0, 0, 0, 0, 0, 0, 0, 0, 0, 0, 0, 2] ++
    [60, 0, 0, offsetAndMore, 0, 0, 0, 1] ++ behind

/-- The first fragment shows the destination options and the TCP header. -/
def firstFragment : Maja.Packet where
  bytes := fragmentBytes 1 ([6, 0, 1, 4, 0, 0, 0, 0] ++
    [0, 99, 0, 80, 0, 0, 0, 0, 0, 0, 0, 0, 0x50, 0, 0, 0, 0, 0, 0, 0])
  layers := [⟨.ipv6, 0, 40⟩, ⟨.ipv6Frag, 40, 8⟩, ⟨.ipv6DestOpts, 48, 8⟩, ⟨.tcp, 56, 20⟩]

/-- The fragment behind it shows nothing of the datagram. -/
def laterFragment : Maja.Packet where
  bytes := fragmentBytes 28 [0, 0, 0, 0, 0, 0, 0, 0]
  layers := [⟨.ipv6, 0, 40⟩, ⟨.ipv6Frag, 40, 8⟩, ⟨.raw, 48, 8⟩]

/-- The key that both name: the header behind the fragment header is the
destination options. -/
def fragmentKey : FragKey :=
  ⟨.v6 (0x20010DB8 <<< 96 + 1), .v6 (0x20010DB8 <<< 96 + 2), 60, 1⟩

/-- `=>fd00::/126`, `sticky`, for TCP and UDP. -/
def uniqueLocal : FlowMap where
  key := .address
  policy := .sticky
  allocScope := .file
  sharing := none
  entries := [⟨none, .net (.v6 (0xFD <<< 120) 126), none, none⟩]

def uniqueLocalCfg : FlowCfg where
  key := .address
  entries := [⟨none, .pool ⟨[(.v6 (0xFD <<< 120) 126, 4)], 4⟩ .sticky⟩]
  exclude := defaultExclude
  protocols := ⟨false, [17, 6]⟩
  fragments := true

/-- What is read off the two. -/
def firstInfo : PacketInfo :=
  ⟨fragmentKey.src, fragmentKey.dst, 6, 99, 80, true, some fragmentKey⟩

def laterInfo : PacketInfo :=
  ⟨fragmentKey.src, fragmentKey.dst, 60, 0, 0, false, some fragmentKey⟩

/-- Under a filter that lets every protocol through, the two are given the same
targets. -/
theorem fragments_same_iff_anyProtocol :
    ∃ s s₁ s₂ : FlowState LeastRng, ∃ given,
      packetTargets firstFragment 0 s = .ok (given, s₁) ∧
      packetTargets laterFragment 0 s₁ = .ok (given, s₂) := by
  let s : FlowState LeastRng :=
    FlowState.new { uniqueLocalCfg with protocols := ⟨true, []⟩ } 1 2 1 .perGroup none
  have hreturns : (rewrite firstFragment 0 s >>= fun r =>
      rewrite laterFragment 0 r.2).toOption.isSome = true := by
    decide +kernel
  obtain ⟨⟨r', s₂⟩, hboth⟩ := Option.isSome_iff_exists.1 hreturns
  obtain ⟨⟨r, s₁⟩, hfirst, hsecond⟩ := Outcome.bind_eq_ok.1 (Outcome.toOption_eq_some.1 hboth)
  have hcompile : FlowCfg.compile { uniqueLocal with protocols := .one "any" } =
      .ok { uniqueLocalCfg with protocols := ⟨true, []⟩ } := by
    decide +kernel
  exact ⟨s, s₁, s₂, (fragments_same_iff hcompile rfl .own (i := firstInfo) (j := laterInfo)
    (fun _ => rfl) (fun _ => rfl) rfl rfl hfirst .refl hsecond).2 (.inl rfl)⟩

/-- The first fragment is rewritten, since it shows TCP; the later one, which shows
the destination options, is left alone. -/
theorem fragments_differ_behind_options :
    checkFlowMap uniqueLocal = .ok () ∧ FlowCfg.compile uniqueLocal = .ok uniqueLocalCfg ∧
      firstInfo.Describes firstFragment ∧ laterInfo.Describes laterFragment ∧
      ∃ s s₁ s₂ : FlowState LeastRng, ∃ r r', Reached uniqueLocalCfg s ∧
        rewrite firstFragment 0 s = .ok (r, s₁) ∧ rewrite laterFragment 0 s₁ = .ok (r', s₂) ∧
        ¬∃ given, packetTargets firstFragment 0 s = .ok (given, s₁) ∧
          packetTargets laterFragment 0 s₁ = .ok (given, s₂) := by
  let s : FlowState LeastRng := FlowState.new uniqueLocalCfg 1 2 1 .perGroup none
  have hreturns : (rewrite firstFragment 0 s >>= fun r =>
      rewrite laterFragment 0 r.2).toOption.isSome = true := by
    decide +kernel
  obtain ⟨⟨r', s₂⟩, hboth⟩ := Option.isSome_iff_exists.1 hreturns
  obtain ⟨⟨r, s₁⟩, hfirst, hsecond⟩ := Outcome.bind_eq_ok.1 (Outcome.toOption_eq_some.1 hboth)
  refine ⟨by decide +kernel, by decide +kernel, fun _ => rfl, fun _ => rfl, s, s₁, s₂, r, r', .own,
    hfirst, hsecond, ?_⟩
  rintro ⟨given, hgiven, hgiven'⟩
  have hchanges : (packetTargets firstFragment 0 s).toOption.any (fun r => r.1 ≠ {}) = true := by
    decide +kernel
  have hleaves : (rewrite firstFragment 0 s >>= fun r =>
      packetTargets laterFragment 0 r.2).toOption.any (fun r => r.1 = {}) = true := by
    decide +kernel
  rw [hgiven] at hchanges
  rw [hfirst, Outcome.ok_bind, hgiven'] at hleaves
  exact of_decide_eq_true hchanges (of_decide_eq_true hleaves)

end FlowState

end Mergecap
end Maja
