/-
# Reading files that share an allocation

Every packet that is read asks the shared allocation for the ids of its two addresses,
once for every parallel group (`idsOf`).  So after any number of reads the tables are
those of a service that was asked for the ids of all packets, in the order in which the
packets were read, and what a packet was made into is told by the tables alone, whenever
it was read (`rewriteItems_served`).
-/

import Maja.Mergecap.Map.FirstSeen
import Maja.Mergecap.Map.Runtime

namespace Maja
namespace Mergecap

open Lib Capture Packet

/-- Parsing does not depend on what an error would be. -/
theorem parsed_eq_ok {ε ε' : Type} {item : PacketRecord} {packet : Maja.Packet}
    (h : (parsed item : Outcome ε _) = .ok packet) : (parsed item : Outcome ε' _) = .ok packet := by
  unfold parsed at h ⊢
  split at h
  · exact congrArg _ (Outcome.ok.inj h)
  · exact congrArg _ (Outcome.ok.inj h)
  · cases h
  · cases h

/-- What `PacketInfo::read` finds in a packet. -/
def infoOf (ρ : Type) (item : PacketRecord) : Option PacketInfo :=
  ((parsed item >>= fun packet =>
    (PacketInfo.read packet : Outcome (Empty × FlowState ρ) _)).toOption).join

section Ids

variable {ρ : Type} [StdRng ρ]

/-- The bytes of a packet that is given these targets. -/
def dataFor (ρ : Type) (settings : Settings) (given : Targets) (item : PacketRecord) :
    Option (List UInt8) :=
  (parsed item : Outcome (Empty × FlowState ρ) _).toOption.bind fun packet =>
    (if given = {} then some packet
      else (applyTargets packet given : Outcome (Empty × FlowState ρ) _).toOption).bind fun packet =>
    (if (given.src.isSome || given.dst.isSome) && settings.fixChecksum then
        (fixChecksums settings.checks packet : Outcome (Empty × MapRewriter ρ) _).toOption
      else some packet).map Maja.Packet.bytes

/-- The ids that the groups ask for when a packet is read. -/
def idsOf (cfg : FlowCfg) (start : Allocation ρ) (groups : ℕ) (origin : PacketRecord) : List SlotId :=
  (List.range groups).flatMap fun group =>
    (cfg.asks (infoOf ρ origin)).map (start.slotIndex group, ·)

/-- The targets of a packet of a group, by these tables. -/
def targetsBy (cfg : FlowCfg) (settings : Settings) (a : Allocation ρ) (group : ℕ)
    (origin : PacketRecord) : Targets :=
  cfg.targetsOf settings.seed (fun j => a.state.known (a.slotIndex group, j)) (infoOf ρ origin)

omit [StdRng ρ] in
/-- Only the bytes and the link type of a packet are looked at. -/
theorem parsed_congr {ε : Type} {item origin : PacketRecord} (hdata : item.data = origin.data)
    (hlink : item.linkType = origin.linkType) :
    (parsed item : Outcome ε _) = parsed origin := by
  rw [parsed, parsed, hdata, hlink]

omit [StdRng ρ] in
/-- What is read of a packet depends on its bytes and link type alone. -/
theorem infoOf_congr {item origin : PacketRecord} (hdata : item.data = origin.data)
    (hlink : item.linkType = origin.linkType) : infoOf ρ item = infoOf ρ origin := by
  rw [infoOf, infoOf, parsed_congr hdata hlink]

omit [StdRng ρ] in
/-- The bytes for some targets depend on the bytes and link type of the packet alone. -/
theorem dataFor_congr {settings : Settings} {given : Targets} {item origin : PacketRecord}
    (hdata : item.data = origin.data) (hlink : item.linkType = origin.linkType) :
    dataFor ρ settings given item = dataFor ρ settings given origin := by
  rw [dataFor, dataFor, parsed_congr hdata hlink]

/-- A rewriter of a flow map, made with these settings. -/
structure Plain (settings : Settings) (cfg : FlowCfg) (rewriter : MapRewriter ρ) : Prop where
  direct : rewriter.direct = none
  fixChecksum : rewriter.fixChecksum = settings.fixChecksum
  flow : ∃ s, rewriter.flow = some s ∧ s.cfg = cfg ∧ s.hashSeed = settings.seed

variable {settings : Settings} {cfg : FlowCfg} {rewriter rewriter' : MapRewriter ρ} {a : Allocation ρ}
  {item item' origin : PacketRecord} {group : ℕ}

/-- **What rewriting an item does**: the allocation is asked for the ids of the packet,
and the bytes are what the tables then say. -/
theorem rewriteItem_served (hpools : cfg.OneNetPools) (hrandom : cfg.NoRandom)
    (hplain : Plain settings cfg rewriter) (ha : rewriter.allocation = some a)
    (h : rewriteItem settings.checks item group rewriter = .ok (item', rewriter')) :
    ∃ a', Plain settings cfg rewriter' ∧ rewriter'.allocation = some a' ∧
      a.Answers cfg a' ((cfg.asks (infoOf ρ item)).map (a.slotIndex group, ·)) ∧
      item' = { item with data := item'.data } ∧
      dataFor ρ settings (targetsBy cfg settings a' group item) item = some item'.data := by
  obtain ⟨s, hflow, hcfg, hseed⟩ := hplain.flow
  have hactive : rewriter.isActive = true := by simp [MapRewriter.isActive, hflow]
  have hallocation : s.allocation = some a := by
    rw [MapRewriter.allocation, hflow] at ha
    exact ha
  rw [rewriteItem, if_pos hactive] at h
  obtain ⟨packet, hparsed, h⟩ := Outcome.bind_eq_ok.1 h
  obtain ⟨⟨⟨changed, packet₂⟩, rewriter₂⟩, hrewrite, h⟩ := Outcome.bind_eq_ok.1 h
  obtain ⟨rfl, rfl⟩ := Prod.mk.inj (Outcome.ok.inj h)
  obtain ⟨packet₁, s₁, hrun, rfl, hfix⟩ := MapRewriter.rewrite_flow_eq_ok hplain.direct hflow hrewrite
  obtain ⟨given, hgiven, rfl, hwritten⟩ := FlowState.rewrite_eq_ok hrun
  obtain ⟨info, a', hread, hserved, htargets⟩ :=
    FlowState.packetTargets_served (hcfg ▸ hpools) (hcfg ▸ hrandom) hallocation hgiven
  have hinfo : infoOf ρ item = info := by
    rw [infoOf, parsed_eq_ok hparsed, Outcome.ok_bind, hread]
    rfl
  have hanswers := hserved.answers
  rw [hcfg] at htargets hanswers
  refine ⟨a', ⟨hplain.direct, hplain.fixChecksum, s₁, rfl, hserved.cfg.trans hcfg,
    hserved.hashSeed.trans hseed⟩, hserved.after, hinfo ▸ hanswers, rfl, ?_⟩
  have hby : targetsBy cfg settings a' group item = given := by
    rw [targetsBy, hanswers.slotIndex_eq, hinfo, htargets, hseed]
  have happlied : (if given = {} then some packet
      else (applyTargets packet given : Outcome (Empty × FlowState ρ) _).toOption) = some packet₁ := by
    rcases hwritten with ⟨rfl, rfl⟩ | happly
    · rw [if_pos rfl]
    · split_ifs with hnone
      · rw [hnone] at happly
        rw [applyTargets_of_not_writtenTo (Targets.writtenTo_none packet) happly]
      · rw [happly]
        rfl
  rw [hplain.fixChecksum] at hfix
  rw [hby, dataFor, parsed_eq_ok hparsed, Outcome.toOption, Option.bind_some, happlied,
    Option.bind_some]
  split_ifs at hfix ⊢
  · rw [hfix]
    rfl
  · rw [hfix]
    rfl

/-! ### Batches -/

/-- The ids of a packet of a group are in the tables. -/
def Settled (cfg : FlowCfg) (a : Allocation ρ) (group : ℕ) (origin : PacketRecord) : Prop :=
  ∀ j ∈ cfg.asks (infoOf ρ origin), ∃ given, a.state.known (a.slotIndex group, j) = some given

/-- The targets of a packet whose ids are in the tables stay what they are. -/
theorem Settled.targetsBy_eq {a' : Allocation ρ} {ks : List SlotId}
    (h : Settled cfg a group origin) (hanswers : a.Answers cfg a' ks) :
    targetsBy cfg settings a' group origin = targetsBy cfg settings a group origin := by
  refine FlowCfg.targetsOf_congr fun j hj => ?_
  obtain ⟨given, hknown⟩ := h j hj
  rw [hanswers.slotIndex_eq, hknown, hanswers.known_eq hknown]

/-- What an item of a batch is made into, by these tables. -/
structure MadeBy (settings : Settings) (cfg : FlowCfg) (a : Allocation ρ) (origin : PacketRecord)
    (item : PacketRecord × ℕ) (made : Written) : Prop where
  origin_eq : made.origin = origin
  group_eq : made.group = item.2
  timestamp_eq : made.packet.timestamp = item.1.timestamp
  settled : Settled cfg a item.2 origin
  data : dataFor ρ settings (targetsBy cfg settings a item.2 origin) origin = some made.packet.data

/-- What an item was made into stays right after more requests. -/
theorem MadeBy.mono {a' : Allocation ρ} {ks : List SlotId} {x : PacketRecord × ℕ} {made : Written}
    (h : MadeBy settings cfg a origin x made) (hanswers : a.Answers cfg a' ks) :
    MadeBy settings cfg a' origin x made where
  origin_eq := h.origin_eq
  group_eq := h.group_eq
  timestamp_eq := h.timestamp_eq
  settled j hj := by
    obtain ⟨given, hknown⟩ := h.settled j hj
    exact ⟨given, by rw [hanswers.slotIndex_eq]; exact hanswers.known_eq hknown⟩
  data := by rw [h.settled.targetsBy_eq hanswers, h.data]

/-- The items of a batch carry the bytes of its packet. -/
def SameBytes (origin : PacketRecord) (items : List (PacketRecord × ℕ)) : Prop :=
  ∀ x ∈ items, x.1.data = origin.data ∧ x.1.linkType = origin.linkType

/-- **What rewriting a batch does**: its groups ask for the ids of the packet one after
the other, and the tables then say what each was made into. -/
theorem rewriteItems_served (hpools : cfg.OneNetPools) (hrandom : cfg.NoRandom)
    {items : List (PacketRecord × ℕ)} {written : List Written} (hsame : SameBytes origin items)
    (hplain : Plain settings cfg rewriter) (ha : rewriter.allocation = some a)
    (h : rewriteItems settings.checks origin items rewriter = .ok (written, rewriter')) :
    ∃ a', Plain settings cfg rewriter' ∧ rewriter'.allocation = some a' ∧
      a.Answers cfg a' (items.flatMap fun x =>
        (cfg.asks (infoOf ρ origin)).map (a.slotIndex x.2, ·)) ∧
      List.Forall₂ (MadeBy settings cfg a' origin) items written := by
  induction items generalizing rewriter a written with
  | nil =>
    obtain ⟨rfl, rfl⟩ := Prod.mk.inj (Outcome.ok.inj h)
    exact ⟨a, hplain, ha, ⟨rfl, rfl, rfl⟩, .nil⟩
  | cons x items ih =>
    obtain ⟨item, group⟩ := x
    rw [rewriteItems] at h
    obtain ⟨⟨packet, rewriter₁⟩, hitem, h⟩ := Outcome.bind_eq_ok.1 h
    obtain ⟨⟨rest, rewriter₂⟩, hrest, h⟩ := Outcome.bind_eq_ok.1 h
    obtain ⟨rfl, rfl⟩ := Prod.mk.inj (Outcome.ok.inj h)
    obtain ⟨hdata, hlink⟩ := hsame _ List.mem_cons_self
    obtain ⟨a₁, hplain₁, ha₁, hanswers₁, hpacket, hmade⟩ :=
      rewriteItem_served hpools hrandom hplain ha hitem
    obtain ⟨a₂, hplain₂, ha₂, hanswers₂, hrest⟩ :=
      ih (fun x hx => hsame x (List.mem_cons_of_mem _ hx)) hplain₁ ha₁ hrest
    have hinfo : infoOf ρ item = infoOf ρ origin := infoOf_congr hdata hlink
    rw [hinfo] at hanswers₁
    have hfirst : MadeBy settings cfg a₁ origin (item, group) ⟨origin, group, packet⟩ := by
      refine ⟨rfl, rfl, by rw [hpacket], fun j hj => ?_, ?_⟩
      · rw [hanswers₁.slotIndex_eq]
        exact hanswers₁.known_of_mem (List.mem_map_of_mem hj)
      · rw [← hmade, dataFor_congr hdata hlink, targetsBy, targetsBy, hinfo]
    have hslots : ∀ group, a₁.slotIndex group = a.slotIndex group := hanswers₁.slotIndex_eq
    simp only [hslots] at hanswers₂
    exact ⟨a₂, hplain₂, ha₂, hanswers₁.trans hanswers₂, .cons (hfirst.mono hanswers₂) hrest⟩

end Ids

end Mergecap
end Maja
