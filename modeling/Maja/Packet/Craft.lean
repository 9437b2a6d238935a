/-
# Crafting a stack of layers

`src/packet/craft.rs`.  A stack is measured from the innermost layer outwards, each
plan checked against that of its child, and offsets are then set from the outermost
layer inwards; only the total of the outermost plan sizes the buffer.  What the
checks say of neighbours, `Nested` says of the whole stack, and by induction on it
every layer's span lies in the buffer.

The layers are any implementors of `CraftLayer`, with any protocol markers.
-/

import Maja.Lib.Outcome
import Maja.Lib.Spans
import Mathlib.Algebra.GroupWithZero.Nat
import Mathlib.Data.List.Chain

namespace Maja
namespace Packet

open Lib

/-- `usize::MAX`. -/
def USIZE_MAX : ℕ := 2 ^ 64 - 1

/-- `CraftError`. -/
inductive CraftError where
  | lengthOverflow (protocol field : String) (len max : ℕ)
  | invalidLength (protocol field : String) (len min : ℕ)
  | invalidField (protocol field : String) (value : ℕ) (reason : String)
  | rawMustBeTerminal
  | emptyStack
  deriving DecidableEq, Repr

/-- `Ipv4CraftContext`. -/
structure Ipv4CraftContext where
  src : ℕ
  dst : ℕ
  deriving DecidableEq, Repr

/-- `CraftContext`. -/
structure CraftContext where
  ipv4 : Option Ipv4CraftContext := none
  deriving DecidableEq, Repr

/-- `CraftContext::with_ipv4`. -/
def CraftContext.withIpv4 (context : CraftContext) (src dst : ℕ) : CraftContext :=
  { context with ipv4 := some ⟨src, dst⟩ }

/-- `CraftChildPlan`. -/
structure CraftChildPlan (π : Type) where
  protocol : π
  len : ℕ
  deriving DecidableEq, Repr

/-- `CraftChild`. -/
structure CraftChild (π : Type) where
  protocol : π
  offset : ℕ
  len : ℕ
  deriving DecidableEq, Repr

/-- `CraftPlan`. -/
structure CraftPlan where
  layerLen : ℕ
  totalLen : ℕ
  deriving DecidableEq, Repr

/-- `CraftLayer`: what an implementor provides.  A layer writes in place, into a
slice whose length it cannot change. -/
structure CraftLayer (π : Type) where
  name : String
  protocol : π
  childContext : CraftContext → CraftContext
  measure : CraftContext → Option (CraftChildPlan π) → Outcome CraftError CraftPlan
  write : CraftContext → CraftPlan → Option (CraftChild π) → List UInt8 →
    Outcome CraftError (List UInt8)
  length_write : ∀ {context plan child bytes written},
    write context plan child bytes = .ok written → written.length = bytes.length

/-- `MeasuredLayer`. -/
structure MeasuredLayer (π : Type) where
  protocol : π
  plan : CraftPlan
  context : CraftContext
  offset : ℕ
  deriving DecidableEq, Repr

/-- An entry of the layer table of a crafted packet. -/
structure CraftedLayer (π : Type) where
  protocol : π
  offset : ℕ
  len : ℕ
  deriving DecidableEq, Repr

/-- `CraftedPacket`. -/
structure CraftedPacket (π : Type) where
  bytes : List UInt8
  layers : List (CraftedLayer π)
  deriving DecidableEq, Repr

/-- `checked_add_len`. -/
def checkedAddLen (protocol field : String) (lhs rhs : ℕ) : Outcome CraftError ℕ :=
  if lhs + rhs ≤ USIZE_MAX then pure (lhs + rhs)
  else .err (.lengthOverflow protocol field lhs (USIZE_MAX - rhs))

variable {π : Type}

/-- `validate_plan`. -/
def validatePlan (layer : CraftLayer π) (plan : CraftPlan) (child : Option (CraftChildPlan π)) :
    Outcome CraftError Unit :=
  if plan.totalLen < plan.layerLen then
    .err (.invalidLength layer.name "total_len" plan.totalLen plan.layerLen)
  else
    match child with
    | some child => do
      let childEnd ← checkedAddLen layer.name "child_end" plan.layerLen child.len
      if childEnd > plan.totalLen then
        .err (.invalidLength layer.name "total_len" plan.totalLen childEnd)
      else pure ()
    | none => pure ()

/-- What a measured layer tells the layer around it. -/
def MeasuredLayer.childPlan (m : MeasuredLayer π) : CraftChildPlan π := ⟨m.protocol, m.plan.totalLen⟩

/-- The loop of `PacketStack::measure` over the layers from one inwards: the inner
layers are measured first, in the context that this one passes on. -/
def measureLayers : CraftContext → List (CraftLayer π) → Outcome CraftError (List (MeasuredLayer π))
  | _, [] => pure []
  | context, layer :: layers => do
    let inner ← measureLayers (layer.childContext context) layers
    let childPlan := inner.head?.map MeasuredLayer.childPlan
    let plan ← layer.measure context childPlan
    validatePlan layer plan childPlan
    pure (⟨layer.protocol, plan, context, 0⟩ :: inner)

/-- `set_layer_offsets`, from an offset on. -/
def setLayerOffsets : ℕ → List (MeasuredLayer π) → Outcome CraftError (List (MeasuredLayer π))
  | _, [] => pure []
  | offset, layer :: layers => do
    let next ← checkedAddLen "packet" "offset" offset layer.plan.layerLen
    let inner ← setLayerOffsets next layers
    pure ({ layer with offset := offset } :: inner)

/-- The loop of `PacketStack::write_measured`: the inner layers are written first. -/
def writeLayers : List (CraftLayer π) → List (MeasuredLayer π) → List UInt8 →
    Outcome CraftError (List UInt8)
  | layer :: layers, m :: inner, bytes => do
    let bytes ← writeLayers layers inner bytes
    let stop ← checkedAddLen layer.name "total_len" m.offset m.plan.totalLen
    let child := inner.head?.map fun i => ⟨i.protocol, m.plan.layerLen, i.plan.totalLen⟩
    let slice ← Outcome.slice bytes m.offset stop
    let written ← layer.write m.context m.plan child slice
    pure (bytes.take m.offset ++ written ++ bytes.drop stop)
  | _, _, bytes => pure bytes

/-- `collect_layers`. -/
def collectLayers (measured : List (MeasuredLayer π)) : List (CraftedLayer π) :=
  measured.map fun m => ⟨m.protocol, m.offset, m.plan.layerLen⟩

/-- `PacketStack`. -/
structure PacketStack (π : Type) where
  layers : List (CraftLayer π)

namespace PacketStack

/-- `PacketStack::measure`. -/
def measure (stack : PacketStack π) : Outcome CraftError (List (MeasuredLayer π)) := do
  let measured ← measureLayers {} stack.layers
  setLayerOffsets 0 measured

/-- `PacketStack::write_measured`. -/
def writeMeasured (stack : PacketStack π) (measured : List (MeasuredLayer π))
    (bytes : List UInt8) : Outcome CraftError (List UInt8) :=
  writeLayers stack.layers measured bytes

/-- `PacketStack::build`. -/
def build (stack : PacketStack π) : Outcome CraftError (CraftedPacket π) :=
  if stack.layers.isEmpty then .err .emptyStack
  else do
    let measured ← stack.measure
    let outermost ← Outcome.index measured 0
    let bytes ← stack.writeMeasured measured (List.replicate outermost.plan.totalLen 0)
    pure ⟨bytes, collectLayers measured⟩

end PacketStack

/-! ### The checks of a stack -/

/-- The first byte behind the span of a measured layer and its children. -/
def MeasuredLayer.stop (m : MeasuredLayer π) : ℕ := m.offset + m.plan.totalLen

/-- Every plan has room for its layer and, behind it, for its child. -/
def Nested : List (MeasuredLayer π) → Prop
  | [] => True
  | m :: inner => m.plan.layerLen ≤ m.plan.totalLen ∧
      (∀ child ∈ inner.head?, m.plan.layerLen + child.plan.totalLen ≤ m.plan.totalLen) ∧
      Nested inner

/-- Every layer starts where the one around it ends its header, the first at
`offset`. -/
def Placed : ℕ → List (MeasuredLayer π) → Prop
  | _, [] => True
  | offset, m :: inner => m.offset = offset ∧ Placed (offset + m.plan.layerLen) inner

/-- The span of a layer has room for that of its child behind its header. -/
def MeasuredLayer.Encloses (m child : MeasuredLayer π) : Prop :=
  child.offset = m.offset + m.plan.layerLen ∧ child.stop ≤ m.stop

section Measure

variable {protocol field : String} {lhs rhs offset stop n : ℕ} {layer : CraftLayer π}
  {layers : List (CraftLayer π)} {plan : CraftPlan} {context : CraftContext}
  {measured inner : List (MeasuredLayer π)} {m : MeasuredLayer π} {stack : PacketStack π}

/-- A sum of lengths that is returned is the sum. -/
theorem checkedAddLen_eq_ok (h : checkedAddLen protocol field lhs rhs = .ok n) : n = lhs + rhs := by
  unfold checkedAddLen at h
  split_ifs at h
  exact (Outcome.ok.inj h).symm

/-- What `validate_plan` checks. -/
theorem validatePlan_eq_ok {child : Option (CraftChildPlan π)}
    (h : validatePlan layer plan child = .ok ()) : plan.layerLen ≤ plan.totalLen ∧
      ∀ c ∈ child, plan.layerLen + c.len ≤ plan.totalLen := by
  unfold validatePlan at h
  split_ifs at h with hlen
  refine ⟨Nat.le_of_not_lt hlen, ?_⟩
  rintro c rfl
  obtain ⟨childEnd, hend, h⟩ := Outcome.bind_eq_ok.1 h
  obtain rfl := checkedAddLen_eq_ok hend
  split_ifs at h with hchild
  exact Nat.le_of_not_lt hchild

/-- Measured plans are nested.  The induction is on the stack, outermost layer
first, as the loop's is from the innermost. -/
theorem measureLayers_nested (h : measureLayers context layers = .ok measured) :
    Nested measured ∧ measured.length = layers.length := by
  induction layers generalizing context measured with
  | nil =>
      obtain rfl := Outcome.ok.inj h
      exact ⟨trivial, rfl⟩
  | cons layer layers ih =>
      obtain ⟨inner, hinner, h⟩ := Outcome.bind_eq_ok.1 h
      obtain ⟨plan, -, h⟩ := Outcome.bind_eq_ok.1 h
      obtain ⟨_, hvalid, h⟩ := Outcome.bind_eq_ok.1 h
      obtain rfl := Outcome.ok.inj h
      obtain ⟨hnested, hlen⟩ := ih hinner
      obtain ⟨hself, hchild⟩ := validatePlan_eq_ok hvalid
      refine ⟨⟨hself, ?_, hnested⟩, by simp [hlen]⟩
      intro child hmem
      exact hchild child.childPlan (Option.mem_map_of_mem MeasuredLayer.childPlan hmem)

/-- Setting the offsets places the layers, and leaves their plans. -/
theorem setLayerOffsets_placed (h : setLayerOffsets offset inner = .ok measured) :
    Placed offset measured ∧ measured.map MeasuredLayer.plan = inner.map MeasuredLayer.plan := by
  induction inner generalizing offset measured with
  | nil =>
      obtain rfl := Outcome.ok.inj h
      exact ⟨trivial, rfl⟩
  | cons m inner ih =>
      obtain ⟨next, hnext, h⟩ := Outcome.bind_eq_ok.1 h
      obtain ⟨placed, hplaced, h⟩ := Outcome.bind_eq_ok.1 h
      obtain rfl := Outcome.ok.inj h
      obtain rfl := checkedAddLen_eq_ok hnext
      obtain ⟨hrest, hplans⟩ := ih hplaced
      exact ⟨⟨rfl, hrest⟩, by simp [hplans]⟩

/-- Whether plans are nested does not depend on the offsets. -/
theorem nested_congr {xs ys : List (MeasuredLayer π)}
    (h : xs.map MeasuredLayer.plan = ys.map MeasuredLayer.plan) (hxs : Nested xs) : Nested ys := by
  induction ys generalizing xs with
  | nil => trivial
  | cons y ys ih =>
      obtain ⟨x, xs, rfl, hxy, hrest⟩ := List.map_eq_cons_iff.1 h
      obtain ⟨hself, hchild, hnested⟩ := hxs
      refine ⟨hxy ▸ hself, ?_, ih hrest hnested⟩
      intro child hmem
      have hheads : (xs.map MeasuredLayer.plan).head? = (ys.map MeasuredLayer.plan).head? := by
        rw [hrest]
      rw [List.head?_map, List.head?_map, Option.mem_def.1 hmem] at hheads
      obtain ⟨c, hc, hplan⟩ := Option.map_eq_some_iff.1 hheads
      rw [← hxy, ← hplan]
      exact hchild c hc

/-- A measured stack is nested and placed. -/
theorem PacketStack.measure_nested (h : stack.measure = .ok measured) :
    Nested measured ∧ Placed 0 measured := by
  obtain ⟨inner, hinner, h⟩ := Outcome.bind_eq_ok.1 h
  obtain ⟨hplaced, hplans⟩ := setLayerOffsets_placed h
  exact ⟨nested_congr hplans.symm (measureLayers_nested hinner).1, hplaced⟩

/-- **No layer reaches behind the outermost one.** -/
theorem Placed.stop_le (hnested : Nested measured) (hplaced : Placed offset measured)
    (hstop : ∀ outermost ∈ measured.head?, offset + outermost.plan.totalLen ≤ stop)
    (hm : m ∈ measured) : m.stop ≤ stop := by
  induction measured generalizing offset with
  | nil => simp at hm
  | cons outer inner ih =>
      obtain ⟨hself, hchild, hnested⟩ := hnested
      obtain ⟨rfl, hplaced⟩ := hplaced
      have houter := hstop outer rfl
      rcases List.mem_cons.1 hm with rfl | hm
      · exact houter
      · refine ih hnested hplaced ?_ hm
        intro child hmem
        have := hchild child hmem
        omega

/-- No layer of a measured stack reaches behind the outermost one. -/
theorem PacketStack.stop_le_of_measure {outermost : MeasuredLayer π}
    (h : stack.measure = .ok measured) (hhead : outermost ∈ measured.head?) (hm : m ∈ measured) :
    m.stop ≤ outermost.plan.totalLen := by
  obtain ⟨hnested, hplaced⟩ := measure_nested h
  refine hplaced.stop_le hnested (fun o ho => ?_) hm
  obtain rfl : o = outermost := Option.mem_unique ho hhead
  exact Nat.le_of_eq (Nat.zero_add _)

/-- Every layer has room for its child. -/
theorem Placed.isChain (hnested : Nested measured) (hplaced : Placed offset measured) :
    measured.IsChain MeasuredLayer.Encloses := by
  induction measured generalizing offset with
  | nil => exact .nil
  | cons outer inner ih =>
      obtain ⟨-, hchild, hnested⟩ := hnested
      obtain ⟨rfl, hplaced⟩ := hplaced
      have hrest := ih hnested hplaced
      cases inner with
      | nil => exact .singleton outer
      | cons child inner =>
          have hroom := hchild child rfl
          refine .cons_cons ⟨hplaced.1, ?_⟩ hrest
          rw [MeasuredLayer.stop, MeasuredLayer.stop, hplaced.1]
          omega

end Measure

/-! ### Writing and the layer table -/

section Write

variable {protocol field : String} {lhs rhs offset : ℕ} {layers : List (CraftLayer π)}
  {measured : List (MeasuredLayer π)} {bytes written : List UInt8} {stack : PacketStack π}
  {packet : CraftedPacket π}

/-- A layer that writes into any slice without a panic. -/
def CraftLayer.WriteReturns (layer : CraftLayer π) : Prop :=
  ∀ context plan child bytes, (layer.write context plan child bytes).Returns

/-- `Layer::range`. -/
def CraftedLayer.range (l : CraftedLayer π) : Span := ⟨l.offset, l.len⟩

/-- Adding lengths does not panic. -/
theorem checkedAddLen_returns : (checkedAddLen protocol field lhs rhs).Returns := by
  unfold checkedAddLen
  split_ifs <;> trivial

/-- The buffer keeps its length. -/
theorem writeLayers_length (h : writeLayers layers measured bytes = .ok written) :
    written.length = bytes.length := by
  induction layers generalizing measured written with
  | nil =>
      obtain rfl := Outcome.ok.inj h
      rfl
  | cons layer layers ih =>
      cases measured with
      | nil =>
          obtain rfl := Outcome.ok.inj h
          rfl
      | cons m inner =>
          obtain ⟨below, hbelow, h⟩ := Outcome.bind_eq_ok.1 h
          obtain ⟨stop, hstop, h⟩ := Outcome.bind_eq_ok.1 h
          obtain ⟨slice, hslice, h⟩ := Outcome.bind_eq_ok.1 h
          obtain ⟨out, hout, h⟩ := Outcome.bind_eq_ok.1 h
          obtain rfl := Outcome.ok.inj h
          obtain ⟨hle, hlen, rfl⟩ := Outcome.slice_eq_ok_iff.1 hslice
          have hbelow := ih hbelow
          have hout := layer.length_write hout
          simp only [List.length_append, List.length_take, List.length_drop] at hout ⊢
          omega

/-- **Every slice that `write_measured` takes lies in the buffer**: nothing but a
layer's own `write` can make it panic. -/
theorem writeLayers_returns (hwrite : ∀ layer ∈ layers, layer.WriteReturns)
    (hstop : ∀ m ∈ measured, m.stop ≤ bytes.length) :
    (writeLayers layers measured bytes).Returns := by
  induction layers generalizing measured with
  | nil => trivial
  | cons layer layers ih =>
      cases measured with
      | nil => trivial
      | cons m inner =>
          have hinner := ih (fun l hl => hwrite l (List.mem_cons_of_mem _ hl)) fun i hi =>
            hstop i (List.mem_cons_of_mem _ hi)
          refine Outcome.returns_bind.2 ⟨hinner, fun below hbelow => ?_⟩
          refine Outcome.returns_bind.2 ⟨checkedAddLen_returns, fun stop hadd => ?_⟩
          obtain rfl := checkedAddLen_eq_ok hadd
          have hlen := writeLayers_length hbelow
          have hm : m.offset + m.plan.totalLen ≤ bytes.length := hstop m List.mem_cons_self
          refine Outcome.returns_bind.2 ⟨Outcome.slice_returns.2 ⟨by omega, by omega⟩, ?_⟩
          intro slice _
          refine Outcome.returns_bind.2 ⟨?_, fun out _ => trivial⟩
          exact hwrite layer List.mem_cons_self _ _ _ _

/-- The entries of the layer table are adjacent. -/
theorem Placed.adjacent (h : Placed offset measured) :
    Span.Adjacent offset ((collectLayers measured).map CraftedLayer.range) := by
  induction measured generalizing offset with
  | nil => trivial
  | cons m inner ih =>
      obtain ⟨rfl, hinner⟩ := h
      exact ⟨rfl, ih hinner⟩

/-- What `build` returns. -/
theorem PacketStack.build_eq_ok (h : stack.build = .ok packet) :
    ∃ measured outermost, stack.measure = .ok measured ∧ measured.head? = some outermost ∧
      packet.bytes.length = outermost.plan.totalLen ∧ packet.layers = collectLayers measured := by
  unfold PacketStack.build at h
  split_ifs at h
  obtain ⟨measured, hmeasure, h⟩ := Outcome.bind_eq_ok.1 h
  obtain ⟨outermost, hindex, h⟩ := Outcome.bind_eq_ok.1 h
  obtain ⟨bytes, hwrite, h⟩ := Outcome.bind_eq_ok.1 h
  obtain rfl := Outcome.ok.inj h
  refine ⟨measured, outermost, hmeasure, ?_, ?_, rfl⟩
  · rw [List.head?_eq_getElem?]
    exact Outcome.index_eq_some hindex
  · rw [writeLayers_length hwrite, List.length_replicate]

/-- The layer table of a crafted packet: its entries are in the bytes, each starts
where the one before it ends, so at the sum of the lengths before it, and no two
overlap. -/
structure CraftedPacket.Contiguous (packet : CraftedPacket π) : Prop where
  in_bounds : ∀ l ∈ packet.layers, l.offset + l.len ≤ packet.bytes.length
  offset_eq : ∀ i l, packet.layers[i]? = some l →
    l.offset = ((packet.layers.take i).map CraftedLayer.len).sum
  isChain : packet.layers.IsChain fun a b => a.offset + a.len = b.offset
  disjoint : packet.layers.Pairwise fun a b => a.offset + a.len ≤ b.offset

/-- A layer is no longer than its span. -/
theorem Nested.layerLen_le {m : MeasuredLayer π} (h : Nested measured) (hm : m ∈ measured) :
    m.plan.layerLen ≤ m.plan.totalLen := by
  induction measured with
  | nil => simp at hm
  | cons outer inner ih =>
      rcases List.mem_cons.1 hm with rfl | hm
      · exact h.1
      · exact ih h.2.2 hm

/-- **A crafted packet is contiguous.** -/
theorem PacketStack.build_contiguous (h : stack.build = .ok packet) : packet.Contiguous := by
  obtain ⟨measured, outermost, hmeasure, hhead, hlen, hlayers⟩ := build_eq_ok h
  obtain ⟨hnested, hplaced⟩ := measure_nested hmeasure
  have hadjacent := hplaced.adjacent
  rw [← hlayers] at hadjacent
  constructor
  · rw [hlayers, hlen]
    intro l hl
    obtain ⟨m, hm, rfl⟩ := List.mem_map.1 hl
    have hstop := stop_le_of_measure hmeasure hhead hm
    have hself := hnested.layerLen_le hm
    unfold MeasuredLayer.stop at hstop
    dsimp only
    omega
  · intro i l hl
    have hrange : (packet.layers.map CraftedLayer.range)[i]? = some l.range := by
      rw [List.getElem?_map, hl]
      rfl
    have hstart := hadjacent.start_eq hrange
    rw [Nat.zero_add, ← List.map_take, List.map_map] at hstart
    exact hstart
  · exact (List.isChain_map CraftedLayer.range).1 hadjacent.isChain
  · exact List.pairwise_map.1 hadjacent.pairwise

/-- **Crafting stays inside its buffer.**  Where a stack of any layers measures, the
span of every layer lies in the buffer that the outermost plan sizes, so that no
slice taken by `write_measured` is out of range; every span has room for that of
the child at the end of the header; and what `build` returns is contiguous. -/
theorem PacketStack.measure_inBounds {measured : List (MeasuredLayer π)}
    (h : stack.measure = .ok measured) :
    (∀ outermost ∈ measured.head?,
      (∀ m ∈ measured, m.stop ≤ outermost.plan.totalLen) ∧
      ((∀ layer ∈ stack.layers, layer.WriteReturns) →
        (stack.writeMeasured measured (List.replicate outermost.plan.totalLen 0)).Returns)) ∧
      measured.IsChain MeasuredLayer.Encloses ∧
      ∀ packet, stack.build = .ok packet →
        packet.layers = collectLayers measured ∧ packet.Contiguous := by
  obtain ⟨hnested, hplaced⟩ := measure_nested h
  refine ⟨fun outermost hhead => ⟨fun m hm => stop_le_of_measure h hhead hm, fun hwrite => ?_⟩,
    hplaced.isChain hnested, fun packet hbuild => ?_⟩
  · refine writeLayers_returns hwrite fun m hm => ?_
    rw [List.length_replicate]
    exact stop_le_of_measure h hhead hm
  · obtain ⟨measured', -, hmeasure, -, -, hlayers⟩ := build_eq_ok hbuild
    obtain rfl := Outcome.ok.inj (h.symm.trans hmeasure)
    exact ⟨hlayers, build_contiguous hbuild⟩

/-- A layer of two bytes around its child, with a byte of padding behind it. -/
def paddedLayer (protocol : π) : CraftLayer π where
  name := "padded"
  protocol := protocol
  childContext := id
  measure _ child := pure ⟨2, 3 + (child.map CraftChildPlan.len).getD 0⟩
  write _ _ _ bytes := pure bytes
  length_write := fun h => congrArg List.length (Outcome.ok.inj h).symm

/-- Two padded layers. -/
theorem PacketStack.measure_inBounds_padded :
    ∃ packet, (⟨[paddedLayer 0, paddedLayer 1]⟩ : PacketStack ℕ).build = .ok packet ∧
      packet.layers = [⟨0, 0, 2⟩, ⟨1, 2, 2⟩] ∧ packet.Contiguous := by
  have hmeasure : (⟨[paddedLayer 0, paddedLayer 1]⟩ : PacketStack ℕ).measure =
      .ok [⟨0, ⟨2, 6⟩, {}, 0⟩, ⟨1, ⟨2, 3⟩, {}, 2⟩] := rfl
  exact ⟨⟨List.replicate 6 0, _⟩, rfl, (measure_inBounds hmeasure).2.2 _ rfl⟩

end Write

end Packet
end Maja
