/-
# What is in a crafted packet

`write_measured` writes the layers into one buffer, the innermost first, each into a
slice that holds its children already.  Where every layer keeps to its own header,
what a layer wrote is still there at the end: `Crafted` says of the bytes that the
span of each layer is the result of its own `write`, and `build_crafted` that a
built packet is of this kind.  From here on nothing looks into the two loops again.

The layers are any implementors of `CraftLayer`, as in `Maja.Packet.Craft`.
-/

import Maja.Lib.Patch
import Maja.Packet.Craft
import Mathlib.Order.Interval.Set.Defs

namespace Maja
namespace Packet

open Lib

variable {π : Type}

/-- What `write_measured` tells a layer of the one behind it. -/
def childOf (plan : CraftPlan) (inner : List (MeasuredLayer π)) : Option (CraftChild π) :=
  inner.head?.map fun m => ⟨m.protocol, plan.layerLen, m.plan.totalLen⟩

/-- A layer writes its header, and leaves the bytes of its children alone. -/
def CraftLayer.KeepsToHeader (layer : CraftLayer π) : Prop :=
  ∀ {context childPlan plan child bytes written}, layer.measure context childPlan = .ok plan →
    layer.write context plan child bytes = .ok written →
    AgreesOutside (Set.Ico 0 plan.layerLen) bytes written

/-- The bytes hold the layers from an offset on.  Each was measured around its child,
has room for it, and its span is what it wrote into a slice with a blank header. -/
inductive Crafted (bytes : List UInt8) : CraftContext → ℕ → List (CraftLayer π) →
    List (MeasuredLayer π) → Prop
  | nil (context : CraftContext) (offset : ℕ) : Crafted bytes context offset [] []
  | cons {context : CraftContext} {offset : ℕ} {layer : CraftLayer π}
      {layers : List (CraftLayer π)} {plan : CraftPlan} {inner : List (MeasuredLayer π)}
      {slice : List UInt8}
      (measured : layer.measure context (inner.head?.map MeasuredLayer.childPlan) = .ok plan)
      (fits : offset + plan.totalLen ≤ bytes.length)
      (blank : slice.take plan.layerLen = List.replicate plan.layerLen 0)
      (written : layer.write context plan (childOf plan inner) slice =
        .ok ((bytes.drop offset).take plan.totalLen))
      (behind : Crafted bytes (layer.childContext context) (offset + plan.layerLen) layers inner) :
      Crafted bytes context offset (layer :: layers)
        (⟨layer.protocol, plan, context, offset⟩ :: inner)

section Crafted

variable {bytes bytes' out : List UInt8} {context : CraftContext} {offset : ℕ}
  {layers : List (CraftLayer π)} {measured inner : List (MeasuredLayer π)}
  {stack : PacketStack π} {packet : CraftedPacket π}

/-- Only the bytes from the offset on matter. -/
theorem Crafted.congr (h : Crafted bytes context offset layers measured)
    (hlength : bytes'.length = bytes.length) (hdrop : bytes'.drop offset = bytes.drop offset) :
    Crafted bytes' context offset layers measured := by
  induction h with
  | nil context offset => exact .nil context offset
  | cons measured fits blank written behind ih =>
    refine .cons measured (by omega) blank (hdrop ▸ written) (ih ?_)
    rw [← List.drop_drop, ← List.drop_drop, hdrop]

/-- What the bytes hold of one layer, above the one behind it: `Crafted`, read at the
layer. -/
structure CraftedAt (bytes : List UInt8) (layer : CraftLayer π) (m : MeasuredLayer π)
    (next : Option (MeasuredLayer π)) (slice : List UInt8) : Prop where
  protocol : m.protocol = layer.protocol
  measured : layer.measure m.context (next.map MeasuredLayer.childPlan) = .ok m.plan
  fits : m.stop ≤ bytes.length
  blank : slice.take m.plan.layerLen = List.replicate m.plan.layerLen 0
  written : layer.write m.context m.plan
      (next.map fun c => ⟨c.protocol, m.plan.layerLen, c.plan.totalLen⟩) slice =
    .ok ((bytes.drop m.offset).take m.plan.totalLen)

/-- Every layer of the stack is there. -/
theorem Crafted.at_index (h : Crafted bytes context offset layers measured) {i : ℕ}
    {layer : CraftLayer π} (hi : layers[i]? = some layer) :
    ∃ m slice, measured[i]? = some m ∧ CraftedAt bytes layer m measured[i + 1]? slice := by
  induction h generalizing i with
  | nil => simp at hi
  | @cons context offset layer' layers plan inner slice hplan fits blank written behind ih =>
    cases i with
    | zero =>
      obtain rfl := Option.some.inj hi
      refine ⟨_, slice, rfl, rfl, ?_, fits, blank, ?_⟩
      · rwa [List.getElem?_cons_succ, ← List.head?_eq_getElem?]
      · rwa [List.getElem?_cons_succ, ← List.head?_eq_getElem?]
    | succ i => exact ih hi

/-- The context of a layer is the one that the layer around it passes on. -/
theorem Crafted.context_succ (h : Crafted bytes context offset layers measured) {i : ℕ}
    {layer : CraftLayer π} {m child : MeasuredLayer π} (hi : layers[i]? = some layer)
    (hm : measured[i]? = some m) (hchild : measured[i + 1]? = some child) :
    child.context = layer.childContext m.context ∧ child.offset = m.offset + m.plan.layerLen := by
  induction h generalizing i with
  | nil => simp at hi
  | cons hplan fits blank written behind ih =>
    cases i with
    | zero =>
      obtain rfl := Option.some.inj hi
      obtain rfl := Option.some.inj hm
      cases behind with
      | nil => simp at hchild
      | cons =>
        obtain rfl := Option.some.inj hchild
        exact ⟨rfl, rfl⟩
    | succ i => exact ih hi hm hchild

/-- The outermost layer is in the context of the stack. -/
theorem Crafted.head (h : Crafted bytes context offset layers measured) {m : MeasuredLayer π}
    (hm : measured[0]? = some m) : m.context = context ∧ m.offset = offset := by
  cases h with
  | nil => simp at hm
  | cons =>
    obtain rfl := Option.some.inj hm
    exact ⟨rfl, rfl⟩

/-- Every layer was measured. -/
theorem Crafted.length_eq (h : Crafted bytes context offset layers measured) :
    measured.length = layers.length := by
  induction h with
  | nil => rfl
  | cons _ _ _ _ _ ih => simp [ih]

/-- Measuring and placing a stack, layer by layer. -/
theorem measure_cons {layer : CraftLayer π}
    (hmeasure : measureLayers context (layer :: layers) = .ok inner)
    (hplace : setLayerOffsets offset inner = .ok measured) :
    ∃ plan inner' behind,
      layer.measure context (behind.head?.map MeasuredLayer.childPlan) = .ok plan ∧
      validatePlan layer plan (behind.head?.map MeasuredLayer.childPlan) = .ok () ∧
      measureLayers (layer.childContext context) layers = .ok inner' ∧
      setLayerOffsets (offset + plan.layerLen) inner' = .ok behind ∧
      measured = ⟨layer.protocol, plan, context, offset⟩ :: behind := by
  obtain ⟨inner', hinner, hmeasure⟩ := Outcome.bind_eq_ok.1 hmeasure
  obtain ⟨plan, hplan, hmeasure⟩ := Outcome.bind_eq_ok.1 hmeasure
  obtain ⟨⟨⟩, hvalid, hmeasure⟩ := Outcome.bind_eq_ok.1 hmeasure
  obtain rfl := Outcome.ok.inj hmeasure
  obtain ⟨next, hnext, hplace⟩ := Outcome.bind_eq_ok.1 hplace
  obtain ⟨behind, hbehind, hplace⟩ := Outcome.bind_eq_ok.1 hplace
  obtain rfl := Outcome.ok.inj hplace
  obtain rfl := checkedAddLen_eq_ok hnext
  -- placing changes no plan and no protocol
  have hchild : behind.head?.map MeasuredLayer.childPlan =
      inner'.head?.map MeasuredLayer.childPlan := by
    cases inner' with
    | nil =>
      obtain rfl := Outcome.ok.inj hbehind
      rfl
    | cons m inner' =>
      obtain ⟨_, -, hbehind⟩ := Outcome.bind_eq_ok.1 hbehind
      obtain ⟨_, -, hbehind⟩ := Outcome.bind_eq_ok.1 hbehind
      obtain rfl := Outcome.ok.inj hbehind
      rfl
  exact ⟨plan, inner', behind, hchild ▸ hplan, hchild ▸ hvalid, hinner, hbehind, rfl⟩

/-- **The loop of `write_measured` crafts the stack.**  The induction is on the stack,
outermost layer first: the layers behind are crafted when a layer is written, and it
touches nothing of theirs. -/
theorem writeLayers_crafted (hkeeps : ∀ layer ∈ layers, layer.KeepsToHeader)
    (hzero : bytes = List.replicate bytes.length 0)
    (hmeasure : measureLayers context layers = .ok inner)
    (hplace : setLayerOffsets offset inner = .ok measured)
    (hfits : ∀ m ∈ measured.head?, offset + m.plan.totalLen ≤ bytes.length)
    (hwrite : writeLayers layers measured bytes = .ok out) :
    Crafted out context offset layers measured ∧ AgreesOutside (Set.Ici offset) bytes out := by
  induction layers generalizing context offset inner measured out with
  | nil =>
    obtain rfl := Outcome.ok.inj hmeasure
    obtain rfl := Outcome.ok.inj hplace
    obtain rfl := Outcome.ok.inj hwrite
    exact ⟨.nil context offset, AgreesOutside.refl _ _⟩
  | cons layer layers ih =>
    obtain ⟨plan, inner', behind, hplan, hvalid, hinner, hbehind, rfl⟩ :=
      measure_cons hmeasure hplace
    obtain ⟨hself, hchild⟩ := validatePlan_eq_ok hvalid
    obtain ⟨hkeep, hkeeps⟩ := List.forall_mem_cons.1 hkeeps
    obtain ⟨below, hbelow, hwrite⟩ := Outcome.bind_eq_ok.1 hwrite
    obtain ⟨stop, hstop, hwrite⟩ := Outcome.bind_eq_ok.1 hwrite
    obtain ⟨slice, hslice, hwrite⟩ := Outcome.bind_eq_ok.1 hwrite
    obtain ⟨written, hwritten, hwrite⟩ := Outcome.bind_eq_ok.1 hwrite
    obtain rfl := Outcome.ok.inj hwrite
    obtain rfl := checkedAddLen_eq_ok hstop
    obtain ⟨-, hend, rfl⟩ := Outcome.slice_eq_ok_iff.1 hslice
    rw [Nat.add_sub_cancel_left] at hwritten
    dsimp only at hend hwritten
    have hroom : ∀ m ∈ behind.head?, offset + plan.layerLen + m.plan.totalLen ≤ bytes.length := by
      intro m hm
      have hfit := hfits _ rfl
      have hle := hchild m.childPlan (Option.mem_map_of_mem MeasuredLayer.childPlan hm)
      dsimp only [MeasuredLayer.childPlan] at hle hfit
      omega
    obtain ⟨hcrafted, hagree⟩ := ih hkeeps hinner hbehind hroom hbelow
    have hlength : below.length = bytes.length := hagree.length
    -- the slice, and what the layer made of it
    have hheader := hkeep hplan hwritten
    have hspan : written.length = plan.totalLen := by
      rw [hheader.length, List.length_take, List.length_drop]
      omega
    have hsplice := hheader.splice hend
    have htake : (below.take offset).length = offset := List.length_take_of_le (by omega)
    have hwindow : ((below.take offset ++ written ++ below.drop (offset + plan.totalLen)).drop
        offset).take plan.totalLen = written := by
      rw [List.append_assoc, List.drop_left' htake, List.take_left' hspan]
    have hblank : ((below.drop offset).take plan.totalLen).take plan.layerLen =
        List.replicate plan.layerLen 0 := by
      rw [List.take_take, Nat.min_eq_left hself,
        hagree.take_drop_eq fun k _ hk hmem => absurd (Set.mem_Ici.1 hmem) (by omega), hzero,
        List.drop_replicate, List.take_replicate, Nat.min_eq_left (by omega)]
    refine ⟨.cons hplan ?_ hblank (hwindow.symm ▸ hwritten) (hcrafted.congr hsplice.length ?_), ?_⟩
    · rw [hsplice.length]
      exact hend
    · refine hsplice.drop_eq fun k hk hmem => ?_
      have := hmem.2.2.2
      omega
    · refine (hagree.mono fun k hk => ?_).trans (hsplice.mono fun k hk => hk.1)
      exact (Nat.le_add_right _ _).trans (Set.mem_Ici.1 hk)

/-- **A built packet is crafted**: every layer's span holds what the layer wrote, to
the end. -/
theorem PacketStack.build_crafted (hkeeps : ∀ layer ∈ stack.layers, layer.KeepsToHeader)
    (h : stack.build = .ok packet) : ∃ measured, stack.measure = .ok measured ∧
      Crafted packet.bytes {} 0 stack.layers measured ∧
      packet.layers = collectLayers measured ∧
      ∀ outermost ∈ measured.head?, packet.bytes.length = outermost.plan.totalLen := by
  obtain ⟨measured, outermost, hmeasure, hhead, hlength, hlayers⟩ := build_eq_ok h
  unfold PacketStack.build at h
  split_ifs at h
  obtain ⟨measured', hmeasure', h⟩ := Outcome.bind_eq_ok.1 h
  obtain rfl := Outcome.ok.inj (hmeasure.symm.trans hmeasure')
  obtain ⟨first, hindex, h⟩ := Outcome.bind_eq_ok.1 h
  obtain ⟨bytes, hwrite, h⟩ := Outcome.bind_eq_ok.1 h
  obtain rfl := Outcome.ok.inj h
  have hfirst : first = outermost := by
    have hsome := Outcome.index_eq_some hindex
    rw [← List.head?_eq_getElem?, hhead] at hsome
    exact (Option.some.inj hsome).symm
  subst hfirst
  obtain ⟨inner, hinner, hplace⟩ := Outcome.bind_eq_ok.1 hmeasure
  refine ⟨measured, hmeasure, ?_, hlayers, fun o ho => ?_⟩
  · refine (writeLayers_crafted hkeeps (by rw [List.length_replicate]) hinner hplace
      (fun m hm => ?_) hwrite).1
    obtain rfl : m = first := Option.mem_unique hm hhead
    rw [List.length_replicate, Nat.zero_add]
  · obtain rfl : o = first := Option.mem_unique ho hhead
    exact hlength

end Crafted

end Packet
end Maja
