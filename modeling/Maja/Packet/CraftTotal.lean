/-
# Crafting does not panic

A `write` slices its bytes by lengths that `measure` fixed, and every slice that the
stack hands it is as long as its plan, so that no index is out of range.  What is
left is the accumulator of the checksums: sixteen-bit lengths keep it from
overflowing everywhere but in an ICMP message outside of any such length, whose
words may add up to more than a `u32` in a build with overflow checks.
-/

import Maja.Packet.Crafting

namespace Maja
namespace Packet

open Lib

/-- Where a checksum of an ICMP message is calculated, some layer around the message
has a length of sixteen bits. -/
def IcmpBounded : List Builder → Prop
  | [] => True
  | .ipv4 _ :: _ => True
  | .tcp _ :: _ => True
  | .udp _ :: _ => True
  | .icmpEcho b :: inner => b.checksum ≠ none ∧ IcmpBounded inner
  | _ :: inner => IcmpBounded inner

section Generic

variable {π : Type} {context : CraftContext} {layers : List (CraftLayer π)} {offset : ℕ}
  {inner : List (MeasuredLayer π)}

/-- Checking a plan does not panic. -/
theorem validatePlan_returns (layer : CraftLayer π) (plan : CraftPlan)
    (child : Option (CraftChildPlan π)) : (validatePlan layer plan child).Returns := by
  unfold validatePlan
  split_ifs
  · trivial
  · cases child with
    | none => trivial
    | some child =>
      refine Outcome.returns_bind.2 ⟨checkedAddLen_returns, fun _ _ => ?_⟩
      split_ifs <;> trivial

/-- Measuring a stack returns where every layer does. -/
theorem measureLayers_returns
    (h : ∀ layer ∈ layers, ∀ context child, (layer.measure context child).Returns) :
    (measureLayers context layers).Returns := by
  induction layers generalizing context with
  | nil => trivial
  | cons layer layers ih =>
    obtain ⟨hlayer, hlayers⟩ := List.forall_mem_cons.1 h
    refine Outcome.returns_bind.2 ⟨ih hlayers, fun inner _ => ?_⟩
    refine Outcome.returns_bind.2 ⟨hlayer _ _, fun plan _ => ?_⟩
    exact Outcome.returns_bind.2 ⟨validatePlan_returns _ _ _, fun _ _ => trivial⟩

/-- Placing the layers does not panic. -/
theorem setLayerOffsets_returns : (setLayerOffsets offset inner).Returns := by
  induction inner generalizing offset with
  | nil => trivial
  | cons m inner ih =>
    refine Outcome.returns_bind.2 ⟨checkedAddLen_returns, fun next _ => ?_⟩
    exact Outcome.returns_bind.2 ⟨ih, fun _ _ => trivial⟩

end Generic

section Builders

variable {checks : Bool} {b : Builder} {context : CraftContext} {plan : CraftPlan}
  {childPlan : Option (CraftChildPlan Protocol)} {child : Option (CraftChild Protocol)}
  {slice bytes : List UInt8} {lo hi n : ℕ}

/-- Checking a 16-bit length does not panic. -/
theorem checkedU16Len_returns (protocol field : String) (len : ℕ) :
    (checkedU16Len protocol field len).Returns := by
  unfold checkedU16Len
  split_ifs <;> trivial

/-- Measuring a header in words does not panic. -/
theorem measureWords_returns (protocol field reason : String) (options : List UInt8)
    (given : Option UInt8) : (measureWords protocol field reason options given).Returns := by
  refine Outcome.returns_bind.2 ⟨checkedAddLen_returns, fun minHeaderLen _ => ?_⟩
  dsimp only
  split_ifs <;> trivial

/-- Measuring a length field does not panic. -/
theorem measureLength_returns (protocol field : String) (given : Option UInt16) (len : ℕ) :
    (measureLength protocol field given len).Returns := by
  unfold measureLength
  cases given with
  | none => exact checkedU16Len_returns _ _ _
  | some length =>
    dsimp only
    split_ifs <;> trivial

/-- Every `measure` returns. -/
theorem Builder.measure_returns (b : Builder) :
    ((b.layer checks).measure context childPlan).Returns := by
  cases b with
  | eth b => exact Outcome.returns_bind.2 ⟨checkedAddLen_returns, fun _ _ => trivial⟩
  | ipv4 b =>
    refine Outcome.returns_bind.2 ⟨measureWords_returns _ _ _ _ _, fun headerLen _ => ?_⟩
    refine Outcome.returns_bind.2 ⟨checkedAddLen_returns, fun generated _ => ?_⟩
    exact Outcome.returns_bind.2 ⟨measureLength_returns _ _ _ _, fun _ _ => trivial⟩
  | tcp b =>
    refine Outcome.returns_bind.2 ⟨measureWords_returns _ _ _ _ _, fun headerLen _ => ?_⟩
    refine Outcome.returns_bind.2 ⟨checkedAddLen_returns, fun segmentLen _ => ?_⟩
    exact Outcome.returns_bind.2 ⟨checkedU16Len_returns _ _ _, fun _ _ => trivial⟩
  | udp b =>
    refine Outcome.returns_bind.2 ⟨checkedAddLen_returns, fun generated _ => ?_⟩
    exact Outcome.returns_bind.2 ⟨measureLength_returns _ _ _ _, fun _ _ => trivial⟩
  | icmpEcho b =>
    refine Outcome.returns_bind.2 ⟨?_, fun _ _ => ?_⟩
    · unfold IcmpEchoBuilder.validateMessageType
      split_ifs <;> trivial
    · exact Outcome.returns_bind.2 ⟨checkedAddLen_returns, fun _ _ => trivial⟩
  | raw b =>
    show (b.measure childPlan).Returns
    unfold RawBuilder.measure
    split_ifs <;> trivial

/-! ### Writing -/

/-- Editing a slice inside the packet does not panic when the edit does not. -/
theorem editSlice_returns {edit : List UInt8 → Outcome CraftError (List UInt8)} (hle : lo ≤ hi)
    (hhi : hi ≤ bytes.length) (hedit : (edit ((bytes.drop lo).take (hi - lo))).Returns) :
    (editSlice lo hi edit bytes).Returns := by
  unfold editSlice
  rw [Outcome.slice_eq_ok hle hhi, Outcome.ok_bind]
  exact Outcome.returns_bind.2 ⟨hedit, fun _ _ => trivial⟩

/-- Setting fields inside a header does not panic. -/
theorem putAll_returns {puts : List (Field × ℕ)} {header : List UInt8}
    (h : ∀ put ∈ puts, put.1.hi ≤ header.length) :
    (putAll puts header : Outcome CraftError _).Returns := by
  obtain ⟨written, hwritten⟩ :
      ∃ written, (putAll puts header : Outcome CraftError _) = .ok written := putAll_eq h
  rw [hwritten]
  trivial

/-- Options fit into the header that was measured for them. -/
theorem copyOptions_returns {options : List UInt8} (h : lo + options.length ≤ bytes.length) :
    (editSlice lo (lo + options.length) (copyFromSlice options) bytes).Returns := by
  refine editSlice_returns (Nat.le_add_right _ _) h ?_
  unfold copyFromSlice
  rw [if_pos (by simp; omega)]
  trivial

/-- A `write` with a checksum returns where the calculation does, on any bytes of that
length. -/
theorem writeChecksummed_returns {puts : List (Field × ℕ)} {field : Field}
    {checksum : List UInt8 → Outcome CraftError ℕ} (hn : n ≤ bytes.length)
    (hputs : ∀ put ∈ puts, put.1.hi ≤ n) (hfield : field.hi ≤ n)
    (hchecksum : ∀ filled : List UInt8, filled.length = bytes.length →
      (checksum filled).Returns) :
    (writeChecksummed n puts field checksum bytes).Returns := by
  have hlength : ((bytes.drop 0).take (n - 0)).length = n := by
    rw [List.drop_zero, Nat.sub_zero, List.length_take_of_le hn]
  refine Outcome.returns_bind.2 ⟨editSlice_returns (Nat.zero_le n) hn
    (putAll_returns fun put hput => (hputs put hput).trans hlength.ge), fun filled hfilled => ?_⟩
  have hsame := (editSlice_agrees length_putAll hfilled).length
  refine Outcome.returns_bind.2 ⟨hchecksum filled hsame, fun value _ => ?_⟩
  refine editSlice_returns (Nat.zero_le n) (hsame ▸ hn) ?_
  obtain ⟨header, hheader⟩ : ∃ header,
      (field.put ((filled.drop 0).take (n - 0)) value : Outcome CraftError _) = .ok header :=
    field.put_eq (by simp; omega) value
  rw [hheader]
  trivial

/-- A given value, or a calculation that does not panic. -/
theorem givenOr_returns {given : Option UInt16} {calculate : Outcome CraftError ℕ}
    (h : given = none → calculate.Returns) : (givenOr given calculate).Returns := by
  cases given with
  | none => exact h rfl
  | some checksum => trivial

/-- A calculation with the addresses of the parent does not panic when it does for none
of them. -/
theorem withParent_returns {calculate : ℕ → ℕ → Outcome CraftError ℕ}
    (h : ∀ src dst, (calculate src dst).Returns) : (withParent context calculate).Returns := by
  unfold withParent
  cases context.ipv4 with
  | none => trivial
  | some parent => exact h _ _

/-- A checksum of at most `0xFFFF` bytes is calculated. -/
theorem internetChecksumZeroing_returns {zeroed : ℕ × ℕ}
    (h : checks = true → bytes.length ≤ 0xFFFF) :
    (internetChecksumZeroing checks bytes zeroed : Outcome CraftError ℕ).Returns := by
  cases checks with
  | true =>
    rw [(checksums_eq_rfc1071 true 0 0 0 bytes zeroed (h rfl)).2.1]
    trivial
  | false =>
    rw [internetChecksumZeroing_eq, addAll_false 0 (by norm_num)]
    trivial

/-- A checksum over at most `0xFFFF` bytes does not overflow. -/
theorem ipv4TransportChecksumZeroing_returns {src dst : ℕ} (protocol : UInt8) {zeroed : ℕ × ℕ}
    (h : bytes.length ≤ 0xFFFF) :
    (ipv4TransportChecksumZeroing checks src dst protocol.toNat bytes zeroed :
      Outcome CraftError ℕ).Returns := by
  rw [(checksums_eq_rfc1071 checks src dst protocol bytes zeroed h).2.2.2.1]
  trivial

/-- **Every `write` returns** on a slice of the measured length. -/
theorem Builder.write_returns (hmeasure : (b.layer checks).measure context childPlan = .ok plan)
    (hslice : slice.length = plan.totalLen)
    (hbound : checks = true → IcmpBounded [b] ∨ plan.totalLen ≤ 0xFFFF) :
    ((b.layer checks).write context plan child slice).Returns := by
  have hplans := measure_plans hmeasure
  have hwords := measure_hasWords hmeasure
  have hroom := hplans.room
  have htotal := hplans.total
  have hputs : ∀ put ∈ b.puts plan (childProtocol child), put.1.hi ≤ plan.layerLen :=
    fun put hput => (b.fields_hi _ (put_mem hput)).trans (by omega)
  cases b with
  | eth b =>
    have hlen : plan.layerLen = 14 := hwords
    refine editSlice_returns (Nat.zero_le 14) (by omega) (putAll_returns fun put hput => ?_)
    have := hputs put hput
    simp only [List.drop_zero, Nat.sub_zero, List.length_take]
    omega
  | ipv4 b =>
    obtain ⟨words, hwords, hlow, hhigh⟩ := hwords
    have hcopyRoom : 20 + b.options.length ≤ plan.layerLen := hroom
    refine Outcome.returns_bind.2 ⟨checkedU16Len_returns _ _ _, fun total htotalLen => ?_⟩
    obtain rfl := (checkedU16Len_eq_ok htotalLen).1
    refine Outcome.returns_bind.2 ⟨copyOptions_returns (show 20 + _ ≤ _ by omega),
      fun copied hcopied => ?_⟩
    have hcopy := (copyOptions_agrees hcopied).length
    refine writeChecksummed_returns (by omega) hputs (le_trans (by decide : _ ≤ 20) (by omega))
      fun filled hfilled => givenOr_returns fun _ => ?_
    rw [Outcome.slice_eq_ok (Nat.zero_le _) (by omega), Outcome.ok_bind,
      Ipv4Viewer.calculateChecksum, Ipv4Viewer.headerLen, Outcome.bind_assoc,
      Field.get_eq (le_trans (by decide : _ ≤ 20) (by simp; omega)), Outcome.ok_bind]
    exact internetChecksumZeroing_returns fun _ => by simp; omega
  | tcp b =>
    obtain ⟨words, hwords, hlow, hhigh⟩ := hwords
    have hcopyRoom : 20 + b.options.length ≤ plan.layerLen := hroom
    have hle := Builder.measure_le hmeasure (.inr (.inl rfl))
    refine Outcome.returns_bind.2 ⟨copyOptions_returns (show 20 + _ ≤ _ by omega),
      fun copied hcopied => ?_⟩
    have hcopy := (copyOptions_agrees hcopied).length
    refine writeChecksummed_returns (by omega) hputs (le_trans (by decide : _ ≤ 20) (by omega))
      fun filled hfilled => givenOr_returns fun _ => withParent_returns fun src dst => ?_
    exact ipv4TransportChecksumZeroing_returns 6 (by omega)
  | udp b =>
    have hlen : plan.layerLen = 8 := hwords
    have hle := Builder.measure_le hmeasure (.inr (.inr rfl))
    refine Outcome.returns_bind.2 ⟨checkedU16Len_returns _ _ _, fun total htotalLen => ?_⟩
    obtain rfl := (checkedU16Len_eq_ok htotalLen).1
    rw [hlen] at hputs
    refine writeChecksummed_returns (by simp; omega) hputs (by decide)
      fun filled hfilled => givenOr_returns fun _ => withParent_returns fun src dst => ?_
    rw [UdpViewer.calculateChecksumIpv4, UdpViewer.datagram, Outcome.bind_assoc,
      Field.get_eq (le_trans (by decide : _ ≤ 8) (by omega)), Outcome.ok_bind, Outcome.pure_eq,
      Outcome.ok_bind]
    exact Outcome.returns_bind.2
      ⟨ipv4TransportChecksumZeroing_returns 17 (by simp; omega), fun _ _ => trivial⟩
  | icmpEcho b =>
    have hlen : plan.layerLen = 8 := hwords
    rw [hlen] at hputs
    refine writeChecksummed_returns (by omega) hputs (by decide)
      fun filled hfilled => givenOr_returns fun hnone => ?_
    refine internetChecksumZeroing_returns fun hchecks => ?_
    rcases hbound hchecks with hbounded | hle
    · exact absurd hnone hbounded.1
    · omega
  | raw b =>
    obtain ⟨-, hlen, hlength⟩ := measure_raw hmeasure
    show (copyFromSlice b.bytes slice).Returns
    unfold copyFromSlice
    rw [if_pos (by omega)]
    trivial

/-! ### The stack -/

variable {builders : List Builder} {offset : ℕ} {inner measured : List (MeasuredLayer Protocol)}

/-- What bounds a stack bounds its outermost layer. -/
theorem IcmpBounded.head (h : IcmpBounded (b :: builders)) : IcmpBounded [b] := by
  cases b with
  | icmpEcho b => exact ⟨h.1, trivial⟩
  | _ => trivial

/-- The layers inside are bounded as well, by their own position or by a length around
them. -/
theorem IcmpBounded.tail (h : IcmpBounded (b :: builders))
    (hmeasure : (b.layer checks).measure context childPlan = .ok plan) :
    IcmpBounded builders ∨ plan.totalLen ≤ 0xFFFF := by
  cases b with
  | ipv4 b => exact .inr (Builder.measure_le hmeasure (.inl rfl))
  | tcp b => exact .inr (Builder.measure_le hmeasure (.inr (.inl rfl)))
  | udp b => exact .inr (Builder.measure_le hmeasure (.inr (.inr rfl)))
  | icmpEcho b => exact .inl h.2
  | eth b => exact .inl h
  | raw b => exact .inl h

/-- **The loop of `write_measured` returns** on a measured stack.  The induction is on
the stack; a layer's length bounds those of the layers inside it. -/
theorem writeLayers_returns_of_measure
    (hmeasure : measureLayers context (builders.map (Builder.layer checks)) = .ok inner)
    (hplace : setLayerOffsets offset inner = .ok measured)
    (hfits : ∀ m ∈ measured.head?, offset + m.plan.totalLen ≤ bytes.length)
    (hbound : checks = true → IcmpBounded builders ∨
      ∀ m ∈ measured.head?, m.plan.totalLen ≤ 0xFFFF) :
    (writeLayers (builders.map (Builder.layer checks)) measured bytes).Returns := by
  induction builders generalizing context offset inner measured with
  | nil => trivial
  | cons b builders ih =>
    obtain ⟨plan, inner', behind, hplan, hvalid, hinner, hbehind, rfl⟩ :=
      measure_cons hmeasure hplace
    obtain ⟨hself, hchild⟩ := validatePlan_eq_ok hvalid
    have hfit : offset + plan.totalLen ≤ bytes.length := hfits _ rfl
    have hroom : ∀ m ∈ behind.head?, plan.layerLen + m.plan.totalLen ≤ plan.totalLen := fun m hm =>
      hchild m.childPlan (Option.mem_map_of_mem MeasuredLayer.childPlan hm)
    have hbelow := ih hinner hbehind
      (fun m hm => by have := hroom m hm; omega) fun hchecks => by
        have hle : plan.totalLen ≤ 0xFFFF → ∀ m ∈ behind.head?, m.plan.totalLen ≤ 0xFFFF :=
          fun hle m hm => by have := hroom m hm; omega
        rcases hbound hchecks with hbounded | hle'
        · exact (hbounded.tail hplan).imp id hle
        · exact .inr (hle (hle' _ rfl))
    refine Outcome.returns_bind.2 ⟨hbelow, fun below hwritten => ?_⟩
    have hlength := writeLayers_length hwritten
    refine Outcome.returns_bind.2 ⟨checkedAddLen_returns, fun stop hstop => ?_⟩
    obtain rfl := checkedAddLen_eq_ok hstop
    dsimp only
    rw [Outcome.slice_eq_ok (Nat.le_add_right _ _) (by omega), Outcome.ok_bind]
    refine Outcome.returns_bind.2 ⟨Builder.write_returns hplan (by simp; omega) fun hchecks => ?_,
      fun _ _ => trivial⟩
    exact (hbound hchecks).imp IcmpBounded.head fun hle => hle _ rfl

/-- **Crafting does not panic.**  Any stack of builders, with any fields, options and
payloads, is built or refused with an error, in a build with or without overflow
checks, as long as no ICMP checksum is calculated outside of every sixteen-bit
length. -/
theorem build_returns (checks : Bool) (builders : List Builder)
    (h : checks = true → IcmpBounded builders) : (stackOf checks builders).build.Returns := by
  unfold PacketStack.build
  split_ifs with hempty
  · trivial
  have hmeasures : ∀ layer ∈ (stackOf checks builders).layers, ∀ context child,
      (layer.measure context child).Returns := by
    intro layer hlayer context child
    obtain ⟨b, -, rfl⟩ := List.mem_map.1 hlayer
    exact b.measure_returns
  refine Outcome.returns_bind.2 ⟨Outcome.returns_bind.2
    ⟨measureLayers_returns hmeasures, fun inner _ => setLayerOffsets_returns⟩,
    fun measured hmeasured => ?_⟩
  obtain ⟨inner, hinner, hplace⟩ := Outcome.bind_eq_ok.1 hmeasured
  -- a stack that is not empty has an outermost layer
  cases builders with
  | nil => simp [stackOf] at hempty
  | cons b builders =>
    obtain ⟨plan, inner', behind, -, -, -, -, rfl⟩ := measure_cons hinner hplace
    rw [Outcome.index_eq_ok (show 0 < _ by simp), Outcome.ok_bind]
    refine Outcome.returns_bind.2 ⟨?_, fun _ _ => trivial⟩
    refine writeLayers_returns_of_measure hinner hplace (fun m hm => ?_) fun hchecks =>
      .inl (h hchecks)
    obtain rfl := Option.some.inj (Option.mem_def.1 hm)
    rw [List.length_replicate, Nat.zero_add]
    exact le_rfl

/-- An ICMP echo request, whose checksum is calculated, in an IPv4 packet. -/
def echoRequest : List Builder :=
  [.eth {}, .ipv4 { src := some 0xC0000201#32, dst := some 0xC0000202#32 },
    .icmpEcho { identifier := some 7, sequence := some 1 }, .raw { bytes := [0x70, 0x69, 0x6E, 0x67] }]

/-- The length of the IPv4 header bounds the message: the request is built, also with
overflow checks. -/
theorem build_returns_echoRequest : (stackOf true echoRequest).build.Returns :=
  build_returns true echoRequest fun _ => trivial

end Builders

end Packet
end Maja
