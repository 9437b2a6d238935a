/-
# The path of a parse

The layers of a packet are the headers of one chain of calls, from the root
inwards, and raw layers behind them (`descend_path`).  So a layer tells which call
recorded it, and the layer behind it is that of the child it was handed to.
-/

import Maja.Packet.Calls

namespace Maja
namespace Packet

open Lib

/-- How long the recorded header is, if one is recorded. -/
def Verdict.headerLen : Verdict → Option ℕ
  | reject len _ => some len
  | header len _ => some len
  | datagram len _ _ => some len
  | fail _ => none
  | skip => none
  | unparsed => none

/-- Nothing but raw layers. -/
def AllRaw (layers : List Layer) : Prop := ∀ l ∈ layers, l.protocol = .raw

/-- The layers below a call: its header and the path of its child, ended anywhere
by raw layers. -/
inductive Call.Path (options : ParseOptions) : Call → List Layer → Prop
  | raws {c : Call} {layers : List Layer} : AllRaw layers → Path options c layers
  | last {c : Call} {len : ℕ} {layers : List Layer} : c.verdict.headerLen = some len →
      AllRaw layers → Path options c (⟨c.protocol, c.offset, len⟩ :: layers)
  | cons {c c' : Call} {len : ℕ} {layers : List Layer} : c.verdict.headerLen = some len →
      Call.Step options c c' → Path options c' layers →
      Path options c (⟨c.protocol, c.offset, len⟩ :: layers)

variable {options : ParseOptions} {r : Region} {offset : ℕ} {c : Call} {xs ys : List Layer}

/-- A recorded header is inside the region. -/
theorem headerLen_sound {p : Protocol} {len : ℕ} (h : (decode p r offset).headerLen = some len) :
    0 < len ∧ offset + len ≤ r.stop := by
  have hsound := decode_sound p r offset
  cases hverdict : decode p r offset with
  | reject n err =>
      rw [hverdict] at h hsound
      obtain rfl := Option.some.inj h
      exact hsound
  | header n next =>
      rw [hverdict] at h hsound
      obtain rfl := Option.some.inj h
      exact hsound
  | datagram n payloadEnd next =>
      rw [hverdict] at h hsound
      obtain rfl := Option.some.inj h
      exact ⟨hsound.1, hsound.2.1⟩
  | _ =>
      rw [hverdict] at h
      cases h

/-- No layer is none but raw. -/
theorem allRaw_nil : AllRaw [] := fun _ h => by cases h

/-- Raw layers, and raw layers behind them. -/
theorem AllRaw.append (hx : AllRaw xs) (hy : AllRaw ys) : AllRaw (xs ++ ys) := fun l hl =>
  (List.mem_append.1 hl).elim (hx l) (hy l)

/-- The rest of a region is raw. -/
theorem allRaw_rawLayers (r : Region) (offset : ℕ) : AllRaw (rawLayers r offset) := by
  intro l hl
  unfold rawLayers at hl
  split_ifs at hl
  · obtain rfl := List.mem_singleton.1 hl
    rfl
  · cases hl

/-- A trailer is raw. -/
theorem allRaw_trailingLayers (r : Region) (payloadEnd : Option ℕ) :
    AllRaw (trailingLayers r payloadEnd) := by
  cases payloadEnd with
  | none => exact allRaw_nil
  | some _ => exact allRaw_rawLayers _ _

/-- Raw layers may follow a path. -/
theorem Call.Path.append (h : c.Path options xs) (hy : AllRaw ys) : c.Path options (xs ++ ys) := by
  induction h with
  | raws hx => exact .raws (hx.append hy)
  | last hlen hx => exact .last hlen (hx.append hy)
  | cons hlen hstep _ ih => exact .cons hlen hstep ih

/-- What falls back is a path, or raw. -/
theorem Trace.fallback_path {t : Trace} (h : c.Path options t.layers) :
    c.Path options (t.fallback options r offset).layers := by
  unfold Trace.fallback
  split
  · exact h
  · split_ifs
    · exact .raws (allRaw_rawLayers _ _)
    · exact h

/-- The error of what is enclosed decides about the trailer only. -/
theorem Trace.enclose_layers (t : Trace) (r : Region) (layer : Layer) (payloadEnd : Option ℕ) :
    ∃ trailer, AllRaw trailer ∧
      (t.enclose r layer payloadEnd).layers = layer :: (t.layers ++ trailer) := by
  unfold Trace.enclose
  split
  · exact ⟨_, allRaw_trailingLayers r payloadEnd, rfl⟩
  · exact ⟨[], allRaw_nil, by simp⟩

/-- A header, and what follows it. -/
theorem Call.path_enclose {len depth : ℕ} {payloadEnd : Option ℕ} {next : Next} {r r' : Region}
    {child : Protocol → Trace} (hlen : c.verdict.headerLen = some len)
    (hchild : ∀ protocol, next = .child protocol → options.AllowsLayer depth →
      ∃ c', Call.Step options c c' ∧ c'.Path options (child protocol).layers) :
    c.Path options ((follow options child depth r (c.offset + len) next).enclose r'
      ⟨c.protocol, c.offset, len⟩ payloadEnd).layers := by
  obtain ⟨trailer, htrailer, hlayers⟩ := Trace.enclose_layers
    (follow options child depth r (c.offset + len) next) r' ⟨c.protocol, c.offset, len⟩ payloadEnd
  rw [hlayers]
  cases next with
  | stop => exact .last hlen (allRaw_nil.append htrailer)
  | raw => exact .last hlen ((allRaw_rawLayers _ _).append htrailer)
  | child protocol =>
      rw [follow]
      split_ifs with hallow
      · obtain ⟨c', hstep, hpath⟩ := hchild protocol rfl hallow
        exact .cons hlen hstep ((Trace.fallback_path hpath).append htrailer)
      · exact .last hlen ((allRaw_rawLayers _ _).append htrailer)

/-- **The layers of a descent are a path.**  The induction is on the fuel, along
the verdicts. -/
theorem descend_path (options : ParseOptions) (fuel : ℕ) (c : Call) :
    c.Path options (descend options fuel c.depth c.region c.protocol c.offset).layers := by
  induction fuel generalizing c with
  | zero => exact .raws allRaw_nil
  | succ fuel ih =>
      rw [descend]
      cases hverdict : decode c.protocol c.region c.offset with
      | fail err => exact .raws allRaw_nil
      | skip => exact .raws allRaw_nil
      | unparsed => exact .raws (allRaw_rawLayers _ _)
      | reject len err =>
          have hlen : c.verdict.headerLen = some len := by rw [Call.verdict, hverdict]; rfl
          exact .last hlen allRaw_nil
      | header len next =>
          have hlen : c.verdict.headerLen = some len := by rw [Call.verdict, hverdict]; rfl
          refine Call.path_enclose hlen fun protocol hnext hallow => ?_
          subst hnext
          exact ⟨_, .header hverdict hallow, ih ⟨protocol, c.depth + 1, c.region, c.offset + len⟩⟩
      | datagram len payloadEnd next =>
          have hlen : c.verdict.headerLen = some len := by rw [Call.verdict, hverdict]; rfl
          refine Call.path_enclose hlen fun protocol hnext hallow => ?_
          subst hnext
          exact ⟨_, .datagram hverdict hallow,
            ih ⟨protocol, c.depth + 1, c.region.narrow payloadEnd, c.offset + len⟩⟩

/-! ### Parsed packets -/

/-- The packet is what `try_parse_with_link_type` left of its bytes, with `Ok` or
with `Err`. -/
def Parsed (packet : Packet) : Prop :=
  ∃ fuel linkType options, packet.bytes.length < fuel ∧
    (tryParseWithLinkType fuel linkType options (new packet.bytes) = .ok ((), packet) ∨
      ∃ err, tryParseWithLinkType fuel linkType options (new packet.bytes) = .err (err, packet))

/-- The layers of a parsed packet are those of the descent. -/
theorem Parsed.layers_eq {packet : Maja.Packet} (h : packet.Parsed) :
    ∃ options fuel linkType,
      packet.layers = (parseTrace options fuel packet.bytes linkType).layers := by
  obtain ⟨fuel, linkType, options, hfuel, h⟩ := h
  rw [tryParseWithLinkType_new linkType hfuel, Trace.toPacket] at h
  refine ⟨options, fuel, linkType, ?_⟩
  split at h
  · obtain h | ⟨err, h⟩ := h
    · exact (congrArg Packet.layers (Prod.ext_iff.1 (Outcome.ok.inj h)).2).symm
    · cases h
  · obtain h | ⟨err, h⟩ := h
    · cases h
    · exact (congrArg Packet.layers (Prod.ext_iff.1 (Outcome.err.inj h)).2).symm

/-- The root parsers of the link types. -/
def IsRoot (p : Protocol) : Prop := p = .eth ∨ p = .sll ∨ p = .ipv4 ∨ p = .ipv6

/-- The protocol of a link type is one that a parse starts with. -/
theorem isRoot_of_rootOf {bytes : List UInt8} {linkType : Capture.LinkType} {p : Protocol}
    (h : rootOf bytes linkType = .protocol p) : IsRoot p := by
  unfold rootOf at h
  split at h
  · exact .inl (Root.protocol.inj h).symm
  · exact .inr (.inl (Root.protocol.inj h).symm)
  · exact .inr (.inr (.inl (Root.protocol.inj h).symm))
  · exact .inr (.inr (.inr (Root.protocol.inj h).symm))
  · split at h
    · exact .inr (.inr (.inl (Root.protocol.inj h).symm))
    · exact .inr (.inr (.inr (Root.protocol.inj h).symm))
    · cases h
  · cases h

/-- **The layers of a parsed packet are a path from a root.** -/
theorem Parsed.path {packet : Maja.Packet} (h : packet.Parsed) :
    AllRaw packet.layers ∨
      ∃ options p, IsRoot p ∧ (rootCall packet.bytes p).Path options packet.layers := by
  obtain ⟨options, fuel, linkType, hlayers⟩ := h.layers_eq
  rw [hlayers, parseTrace]
  split
  · rename_i p hroot
    rw [rootTrace]
    split_ifs
    · exact .inr ⟨options, p, isRoot_of_rootOf hroot, descend_path options fuel (rootCall _ p)⟩
    · exact .inl allRaw_nil
  · exact .inl (allRaw_rawLayers _ _)
  · exact .inl allRaw_nil

/-- The layers of a parsed packet are in order, without overlap, in its bytes. -/
theorem Parsed.packed {packet : Maja.Packet} (h : packet.Parsed) :
    PackedLayers 0 packet.bytes.length packet.layers := by
  obtain ⟨options, fuel, linkType, hlayers⟩ := h.layers_eq
  rw [hlayers, parseTrace]
  split
  · rw [rootTrace]
    split_ifs
    · exact descend_packed options fuel 0 (.whole packet.bytes) _ 0
    · exact packedLayers_nil
  · exact rawLayers_packed (r := .whole packet.bytes)
  · exact packedLayers_nil

end Packet
end Maja
