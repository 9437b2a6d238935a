/-
# Parsing a packet again

`try_parse` hands the layers of the packet to the context, as a comment in it says,
so that the context can check for existing layers.  Only `parse_raw` does: every
other parser appends its layers behind those of the first parse.  So a second parse
leaves the table alone exactly when it records nothing (`parseAgain_iff`).
-/

import Maja.Packet.Fallback

namespace Maja
namespace Packet

open Lib

/-- The verdict records a header, or fails. -/
def Verdict.Records : Verdict → Prop
  | fail _ => True
  | skip => False
  | unparsed => False
  | reject _ _ => True
  | header _ _ => True
  | datagram _ _ _ => True

/-- The root records no header where it does not fail: it is raw, or LLC in front
of something other than SNAP. -/
def Headerless (bytes : List UInt8) : Root → Prop
  | .protocol p => p = .raw ∨ p = .llc ∧ ¬Llc.IsSnap (bytes.take 3)
  | .unparsed => True
  | .unsupported => True

/-- A further parse of the packet records nothing: its table has reached the depth
limit, or the root records no header. -/
def Settled (options : ParseOptions) (packet : Maja.Packet) (root : Root) : Prop :=
  ¬options.AllowsLayer packet.layers.length ∨ Headerless packet.bytes root

/-- Start at the root. -/
def startAt (table : ParseTable) (linkType : Capture.LinkType) : Root → ParseM Unit
  | .protocol p => parseRoot table p 0
  | .unparsed => parseRaw 0
  | .unsupported => Prog.throw (.unsupportedLinkType linkType)

section Records

variable {r : Region} {protocol : Protocol} {offset len : ℕ}

/-- A verdict behind a length check records what it would record without. -/
theorem Region.need_records {k : List UInt8 → Verdict}
    (h : (k ((r.bytes.drop offset).take len)).Records) : (r.need protocol offset len k).Records := by
  unfold Region.need
  split_ifs
  · exact h
  · trivial

/-- A header behind a required length is recorded. -/
theorem Region.need_header_records {headerLen : List UInt8 → ℕ} {next : List UInt8 → Next} :
    (r.need protocol offset len fun header => .header (headerLen header) (next header)).Records :=
  Region.need_records trivial

/-- A header of a declared length is recorded or fails. -/
theorem decodeDeclared_records (declared : ℕ) :
    (decodeDeclared r protocol offset declared).Records := by
  rw [decodeDeclared]
  exact Region.need_header_records

/-- An extension header is recorded or fails. -/
theorem decodeExtHeader_records (fixedLen : ℕ) :
    (decodeExtHeader r protocol fixedLen offset).Records := by
  refine Region.need_records ?_
  split_ifs
  · trivial
  · exact decodeDeclared_records _

/-- A header up to the end is recorded or fails. -/
theorem decodeToEnd_records (minLen : ℕ) : (decodeToEnd r protocol minLen offset).Records :=
  Region.need_header_records

/-- **Every parser but two records its header**: not raw, and LLC only for SNAP. -/
theorem decode_records (p : Protocol) (r : Region) (offset : ℕ) : (decode p r offset).Records ∨
    p = .raw ∨ p = .llc ∧ ¬Llc.IsSnap ((r.bytes.drop offset).take 3) := by
  by_cases hraw : p = .raw
  · exact .inr (.inl hraw)
  by_cases hllc : p = .llc ∧ ¬Llc.IsSnap ((r.bytes.drop offset).take 3)
  · exact .inr (.inr hllc)
  left
  cases p with
  | raw => exact absurd rfl hraw
  | llc =>
      rw [decode]
      refine Region.need_records ?_
      rw [if_pos (not_not.1 fun hsnap => hllc ⟨rfl, hsnap⟩)]
      exact Region.need_header_records
  | mpls =>
      rw [decode]
      split <;> trivial
  | arp => rw [decode]; exact Region.need_records Region.need_header_records
  | ipv4 =>
      rw [decode]
      refine Region.need_records ?_
      dsimp only
      split_ifs
      · trivial
      · refine Region.need_records ?_
        split_ifs <;> trivial
  | ipv6 => rw [decode]; exact Region.need_records trivial
  | ipv6Hopopt => exact decodeExtHeader_records _
  | ipv6DestOpts => exact decodeExtHeader_records _
  | ipv6Route => exact decodeExtHeader_records _
  | ipv6Mobility => exact decodeExtHeader_records _
  | ipv6Hip => exact decodeExtHeader_records _
  | ipv6Shim6 => exact decodeExtHeader_records _
  | ah =>
      rw [decode]
      refine Region.need_records ?_
      split_ifs
      · trivial
      · exact decodeDeclared_records _
  | gre => rw [decode]; exact Region.need_records Region.need_header_records
  | tcp =>
      rw [decode]
      refine Region.need_records ?_
      dsimp only
      split_ifs
      · trivial
      · exact Region.need_header_records
  | sctp => exact decodeToEnd_records _
  | icmp => exact decodeToEnd_records _
  | icmpv6 => exact decodeToEnd_records _
  | dns => exact decodeToEnd_records _
  | dhcp => exact decodeToEnd_records _
  | ntp => exact decodeToEnd_records _
  | tls => rw [decode]; exact Region.need_records Region.need_header_records
  | _ => rw [decode]; exact Region.need_header_records

end Records

section Again

variable {ctx ctx₁ : ParseContext} {bytes : List UInt8} {options : ParseOptions} {fuel : ℕ}
  {p : Protocol} {packet packet₁ : Maja.Packet} {layers : List Layer} {linkType : Capture.LinkType}

/-- Recording the rest twice records it once. -/
theorem parseRaw_parseRaw (ctx : ParseContext) (offset : ℕ) :
    (ctx.parseRaw offset).parseRaw offset = ctx.parseRaw offset := by
  by_cases hlt : offset < ctx.endOffset
  · by_cases hlast : ctx.layers.getLast? = some ⟨.raw, offset, ctx.endOffset - offset⟩
    · have hsame : ctx.parseRaw offset = ctx := by
        rw [ParseContext.parseRaw, if_pos hlt, if_pos hlast]
      rw [hsame, hsame]
    · have hpush : ctx.parseRaw offset = ctx.append [⟨.raw, offset, ctx.endOffset - offset⟩] := by
        rw [ParseContext.parseRaw, if_pos hlt, if_neg hlast]
        rfl
      have hend : offset < (ctx.append [⟨.raw, offset, ctx.endOffset - offset⟩]).endOffset := hlt
      rw [hpush, ParseContext.parseRaw, if_pos hend]
      exact if_pos List.getLast?_concat
  · have hsame : ctx.parseRaw offset = ctx := if_neg hlt
    rw [hsame, hsame]

/-- A descent leaves no layers exactly when its first header is not recorded. -/
theorem descend_layers_eq_nil {r : Region} {depth offset : ℕ} (hrecords : (decode p r offset).Records) :
    (descend options (fuel + 1) depth r p offset).layers = [] ↔
      ∃ err, decode p r offset = .fail err := by
  have henclose : ∀ t : Trace, ∀ r layer payloadEnd, (t.enclose r layer payloadEnd).layers ≠ [] := by
    intro t r layer payloadEnd hnil
    obtain ⟨trailer, -, hlayers⟩ := Trace.enclose_layers t r layer payloadEnd
    rw [hlayers] at hnil
    cases hnil
  rw [descend]
  cases hverdict : decode p r offset with
  | fail err => simp
  | skip => rw [hverdict] at hrecords; exact hrecords.elim
  | unparsed => rw [hverdict] at hrecords; exact hrecords.elim
  | reject len err => simp
  | header len next => simp [henclose]
  | datagram len payloadEnd next => simp [henclose]

/-- A verdict that fails makes the descent fail. -/
theorem not_fail_of_error_eq_none {r : Region} {depth offset : ℕ}
    (h : (descend options (fuel + 1) depth r p offset).error = none) (err : ParseError) :
    decode p r offset ≠ .fail err := by
  intro hfail
  rw [descend, hfail] at h
  cases h

/-- LLC in front of something other than SNAP. -/
theorem decode_llc_of_not_isSnap (r : Region) (offset : ℕ)
    (h : ¬Llc.IsSnap ((r.bytes.drop offset).take 3)) :
    (∃ err, decode .llc r offset = .fail err) ∨ decode .llc r offset = .skip := by
  rw [decode, Region.need, if_neg h]
  split_ifs
  · exact .inr rfl
  · exact .inl ⟨_, rfl⟩

/-- Every protocol but raw data has a parser. -/
theorem decode_ne_unparsed {r : Region} {offset : ℕ} (h : p ≠ .raw) :
    decode p r offset ≠ .unparsed := by
  intro hunparsed
  rcases decode_records p r offset with hrecords | rfl | ⟨rfl, hsnap⟩
  · rw [hunparsed] at hrecords
    exact hrecords
  · exact h rfl
  · rcases decode_llc_of_not_isSnap r offset hsnap with ⟨err, hfail⟩ | hskip
    · rw [hunparsed] at hfail
      cases hfail
    · rw [hunparsed] at hskip
      cases hskip

/-- The root parser runs when a layer may be pushed. -/
theorem parseRoot_apply {table : ParseTable} : parseRoot table p 0 ctx =
    if ctx.CanPushLayer then table p 0 ctx else .ok ((), ctx) := by
  unfold parseRoot
  rw [Prog.bind_apply, Prog.get_apply, Outcome.ok_bind]
  split_ifs <;> rfl

/-- A root that may be parsed after a first parse was parsed by it. -/
theorem canPushLayer_of_parseRoot {table : ParseTable}
    (hrun : parseRoot table p 0 ctx = .ok ((), ctx₁)) (hallow : ctx₁.CanPushLayer) :
    ctx.CanPushLayer := by
  rw [parseRoot_apply] at hrun
  by_contra hfull
  rw [if_neg hfull] at hrun
  obtain ⟨-, rfl⟩ := Prod.ext_iff.1 (Outcome.ok.inj hrun)
  exact hfull hallow

/-- **A second run of a root parser**, in the context that the first one left,
appends nothing exactly when the limit is reached or the root records no header. -/
theorem parseRoot_again (hregion : ctx.region = .whole bytes) (hfuel : bytes.length < fuel)
    (hrun : parseRoot (parsers fuel) p 0 ctx = .ok ((), ctx₁)) :
    ∃ layers, Appends (parseRoot (parsers fuel) p 0) ctx₁ layers ∧
      (layers = [] ↔ ¬ctx₁.CanPushLayer ∨ Headerless bytes (.protocol p)) := by
  by_cases hallow₁ : ctx₁.CanPushLayer
  swap
  · refine ⟨[], .inl ?_, by simp [hallow₁]⟩
    rw [parseRoot_apply, if_neg hallow₁, append_nil]
  have hallow := canPushLayer_of_parseRoot hrun hallow₁
  obtain ⟨fuel, rfl⟩ : ∃ n, fuel = n + 1 := ⟨fuel - 1, by omega⟩
  unfold Appends
  rw [parseRoot_apply, if_pos hallow] at hrun
  rw [parseRoot_apply, if_pos hallow₁]
  by_cases hraw : p = .raw
  · -- the rest is recorded, and is there the second time
    subst hraw
    have hctx : ctx.parseRaw 0 = ctx₁ := (Prod.ext_iff.1 (Outcome.ok.inj hrun)).2
    refine ⟨[], .inl ?_, by simp [Headerless]⟩
    rw [append_nil, ← hctx]
    exact congrArg (fun ctx => Outcome.ok ((), ctx)) (parseRaw_parseRaw ctx 0)
  · rw [parsers_eq_descend_of_unrecorded (by rw [hregion]; exact hfuel) hallow
      (fun h => absurd h (decode_ne_unparsed hraw)), hregion] at hrun
    obtain ⟨herror, hctx₁⟩ := Trace.finish_eq_ok.1 hrun
    have hregion₁ : ctx₁.region = .whole bytes := by rw [hctx₁, append_region, hregion]
    have hnofail := not_fail_of_error_eq_none herror
    rw [parsers_eq_descend_of_unrecorded (by rw [hregion₁]; exact hfuel) hallow₁
      (fun h => absurd h (decode_ne_unparsed hraw)), hregion₁]
    refine ⟨_, Trace.finish_appends, ?_⟩
    by_cases hllc : p = .llc ∧ ¬Llc.IsSnap (bytes.take 3)
    · obtain ⟨rfl, hsnap⟩ := hllc
      have hskip : decode .llc (.whole bytes) 0 = .skip :=
        (decode_llc_of_not_isSnap (.whole bytes) 0 hsnap).resolve_left
          fun ⟨err, hfail⟩ => hnofail err hfail
      simp [descend, hskip, Headerless, hsnap]
    · have hrecords := (decode_records p (.whole bytes) 0).resolve_right fun h =>
        h.elim hraw hllc
      rw [descend_layers_eq_nil hrecords]
      simp [hnofail, hallow₁, Headerless, hraw, hllc]

/-- The parse of a link type starts at its root. -/
theorem parseLinkType_eq (table : ParseTable) (linkType : Capture.LinkType) (ctx : ParseContext) :
    parseLinkType table linkType ctx = startAt table linkType (rootOf ctx.bytes linkType) ctx := by
  cases linkType with
  | raw =>
      rw [rootOf, parseLinkType, Prog.bind_apply, Prog.get_apply, Outcome.ok_bind]
      generalize ctx.bytes.head?.map (fun byte => byte.toNat >>> 4) = nibble
      by_cases h4 : nibble = some 4
      · subst h4
        rfl
      · by_cases h6 : nibble = some 6
        · subst h6
          rfl
        · simp only
          rfl
  | _ => rfl

/-- **A second start at a root**, in the context that the first one left. -/
theorem startAt_again {root : Root} (hregion : ctx.region = .whole bytes)
    (hfuel : bytes.length < fuel) (hrun : startAt (parsers fuel) linkType root ctx = .ok ((), ctx₁)) :
    ∃ layers, Appends (startAt (parsers fuel) linkType root) ctx₁ layers ∧
      (layers = [] ↔ ¬ctx₁.CanPushLayer ∨ Headerless bytes root) := by
  cases root with
  | protocol p => exact parseRoot_again hregion hfuel hrun
  | unparsed =>
      have hctx : ctx.parseRaw 0 = ctx₁ := (Prod.ext_iff.1 (Outcome.ok.inj hrun)).2
      refine ⟨[], .inl ?_, by simp [Headerless]⟩
      rw [append_nil, ← hctx]
      exact congrArg (fun ctx => Outcome.ok ((), ctx)) (parseRaw_parseRaw ctx 0)
  | unsupported => cases hrun

/-- A start at a root only appends to its context. -/
theorem startAt_eq_append {root : Root} (hfuel : ctx.region.stop < fuel)
    (hrun : startAt (parsers fuel) linkType root ctx = .ok ((), ctx₁)) :
    ∃ layers, ctx₁ = ctx.append layers := by
  cases root with
  | protocol p =>
      rw [startAt, parseRoot_apply] at hrun
      split_ifs at hrun with hallow
      · have hfuel₀ : ctx.region.stop - 0 < fuel := hfuel
        obtain ⟨layers, happend | ⟨err, happend⟩⟩ := parsers_appends (p := p) hfuel₀ hallow
        · rw [happend] at hrun
          exact ⟨layers, (Prod.ext_iff.1 (Outcome.ok.inj hrun)).2.symm⟩
        · rw [happend] at hrun
          cases hrun
      · exact ⟨[], by rw [append_nil]; exact (Prod.ext_iff.1 (Outcome.ok.inj hrun)).2.symm⟩
  | unparsed =>
      obtain ⟨layers, -, happend⟩ := parseRaw_appends ctx 0
      rw [startAt, happend] at hrun
      exact ⟨layers, (Prod.ext_iff.1 (Outcome.ok.inj hrun)).2.symm⟩
  | unsupported => cases hrun

/-- `try_parse_with_link_type` runs the parser of its link type in the context of the
packet. -/
theorem tryParseWithLinkType_eq : tryParseWithLinkType fuel linkType options packet =
    withContext options (startAt (parsers fuel) linkType (rootOf packet.bytes linkType)) packet := by
  unfold tryParseWithLinkType withContext
  rw [parseLinkType_eq]
  rfl

/-- What is appended to the context is appended to the packet. -/
theorem leaves_withContext (packet : Maja.Packet) {m : ParseM Unit}
    (h : Appends m (.new packet.bytes options packet.layers) layers) :
    Leaves (withContext options m packet) ⟨packet.bytes, packet.layers ++ layers⟩ := by
  unfold withContext
  rcases h with hok | ⟨err, herr⟩
  · rw [hok]
    exact .inl rfl
  · rw [herr]
    exact .inr ⟨err, rfl⟩

/-- A second start at a root of the packet that the first one left. -/
theorem withContext_again {root : Root} (hfuel : packet.bytes.length < fuel)
    (hrun : withContext options (startAt (parsers fuel) linkType root) packet = .ok ((), packet₁)) :
    packet₁.bytes = packet.bytes ∧ ∃ packet₂,
      Leaves (withContext options (startAt (parsers fuel) linkType root) packet₁) packet₂ ∧
      (packet₂.layers = packet₁.layers ↔ Settled options packet₁ root) := by
  have hregion : (ParseContext.new packet.bytes options packet.layers).region =
    .whole packet.bytes := Region.ext rfl (Nat.min_self _)
  unfold withContext at hrun
  split at hrun
  · rename_i ctx₁ hstart
    obtain ⟨layers₀, rfl⟩ := startAt_eq_append (by rw [hregion]; exact hfuel) hstart
    obtain ⟨layers, happends, hiff⟩ := startAt_again hregion hfuel hstart
    obtain ⟨-, rfl⟩ := Prod.ext_iff.1 (Outcome.ok.inj hrun)
    exact ⟨rfl, _, leaves_withContext ⟨packet.bytes, packet.layers ++ layers₀⟩ happends,
      List.append_right_eq_self.trans hiff⟩
  all_goals cases hrun

/-- **When a second parse leaves the table alone.**  Where a first parse returned
`Ok`, a second one with the same root and options returns, and leaves the layer
table as the first one did if and only if the table has reached the depth limit or
the root records no header. -/
theorem parseAgain_iff (hfuel : packet.bytes.length < fuel) :
    (∀ p, tryParse fuel p options packet = .ok ((), packet₁) →
      ∃ packet₂, Leaves (tryParse fuel p options packet₁) packet₂ ∧
        (packet₂.layers = packet₁.layers ↔ Settled options packet₁ (.protocol p))) ∧
    ∀ linkType, tryParseWithLinkType fuel linkType options packet = .ok ((), packet₁) →
      ∃ packet₂, Leaves (tryParseWithLinkType fuel linkType options packet₁) packet₂ ∧
        (packet₂.layers = packet₁.layers ↔
          Settled options packet₁ (rootOf packet₁.bytes linkType)) := by
  constructor
  · intro p hrun
    have hstart : tryParse fuel p options =
      withContext options (startAt (parsers fuel) .ethernet (.protocol p)) := rfl
    rw [hstart] at hrun ⊢
    exact (withContext_again hfuel hrun).2
  · intro linkType hrun
    rw [tryParseWithLinkType_eq] at hrun
    obtain ⟨hbytes, packet₂, hleaves, hiff⟩ := withContext_again hfuel hrun
    rw [tryParseWithLinkType_eq, hbytes]
    exact ⟨packet₂, hleaves, hiff⟩

/-- A packet of four bytes that is no IP packet. -/
theorem parseAgain_iff_raw :
    ∃ packet₂, Leaves (tryParseWithLinkType 5 .raw {} ⟨[0, 1, 2, 3], [⟨.raw, 0, 4⟩]⟩) packet₂ ∧
      packet₂.layers = [⟨.raw, 0, 4⟩] := by
  have hfuel : (new [0, 1, 2, 3]).bytes.length < 5 := by decide
  obtain ⟨packet₂, hleaves, hiff⟩ := (parseAgain_iff hfuel).2 .raw rfl
  exact ⟨packet₂, hleaves, hiff.2 (.inr trivial)⟩

/-- An Ethernet header without a payload is recorded twice. -/
theorem parseAgain_appends :
    ∃ packet₁ packet₂, tryParse 15 .eth {} (new (List.replicate 14 0)) = .ok ((), packet₁) ∧
      tryParse 15 .eth {} packet₁ = .ok ((), packet₂) ∧ packet₂.layers ≠ packet₁.layers := by
  refine ⟨⟨List.replicate 14 0, [⟨.eth, 0, 14⟩]⟩,
    ⟨List.replicate 14 0, [⟨.eth, 0, 14⟩, ⟨.eth, 0, 14⟩]⟩, ?_, ?_, by decide⟩
  · decide +kernel
  · decide +kernel

end Again

end Packet
end Maja
