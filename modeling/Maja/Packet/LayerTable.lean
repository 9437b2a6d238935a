/-
# The layer table

What holds of the layers that a parse of a fresh packet records, whether it
succeeds or not: they lie inside the captured bytes, in increasing order and
without overlap.  Why the parse ends is part of the statement: a child is always
entered behind its parent, which is an assertion at every call.
-/

import Maja.Packet.Descent

namespace Maja
namespace Packet

open Lib

/-- The invariant of a layer table. -/
structure LayerTable (bytes : List UInt8) (layers : List Layer) : Prop where
  /-- Every layer records bytes. -/
  nonempty : ∀ l ∈ layers, 0 < l.len
  /-- They are captured bytes. -/
  inside : ∀ l ∈ layers, l.offset + l.len ≤ bytes.length
  /-- Each layer lies behind the layers before it. -/
  ordered : layers.Pairwise fun a b => a.offset + a.len ≤ b.offset

/-- Packed layers are a layer table. -/
theorem LayerTable.of_packed {bytes : List UInt8} {layers : List Layer}
    (h : PackedLayers 0 bytes.length layers) : LayerTable bytes layers where
  nonempty _ hl := (h.mem hl).2.1
  inside _ hl := (h.mem hl).2.2
  ordered := List.pairwise_map.1 (Span.Packed.pairwise h)

/-- The offsets of a layer table increase strictly. -/
theorem LayerTable.offsets_increase {bytes : List UInt8} {layers : List Layer}
    (h : LayerTable bytes layers) : layers.Pairwise fun a b => a.offset < b.offset := by
  refine List.Pairwise.imp_of_mem (fun ha _ hab => ?_) h.ordered
  have := h.nonempty _ ha
  omega

/-- Two layers of a table do not overlap. -/
theorem LayerTable.disjoint {bytes : List UInt8} {layers : List Layer} (h : LayerTable bytes layers)
    {l l' : Layer} (hl : l ∈ layers) (hl' : l' ∈ layers) (hne : l ≠ l') :
    l.offset + l.len ≤ l'.offset ∨ l'.offset + l'.len ≤ l.offset := by
  have hsymm : Std.Symm fun a b : Layer =>
      a.offset + a.len ≤ b.offset ∨ b.offset + b.len ≤ a.offset := ⟨fun _ _ h => h.symm⟩
  have hpair : layers.Pairwise fun a b =>
      a.offset + a.len ≤ b.offset ∨ b.offset + b.len ≤ a.offset := h.ordered.imp Or.inl
  exact hpair.forall hl hl' hne

/-- The trace of a fresh packet is packed. -/
theorem parseTrace_packed (options : ParseOptions) (fuel : ℕ) (bytes : List UInt8)
    (linkType : Capture.LinkType) :
    PackedLayers 0 bytes.length (parseTrace options fuel bytes linkType).layers := by
  unfold parseTrace
  split
  · unfold rootTrace
    split_ifs
    · exact descend_packed options fuel 0 (.whole bytes) _ 0
    · trivial
  · exact @rawLayers_packed (.whole bytes) 0
  · trivial

/-! ### Children are entered behind their parents -/

/-- The table with an assertion at its entries: the offset is behind the
parent's. -/
def assertBehind (parentOffset : ℕ) (table : ParseTable) : ParseTable := fun p offset =>
  if parentOffset < offset then table p offset else Prog.lift .panic

/-- The parsers, each calling its children through the assertion. -/
def assertedParsers : ℕ → ParseTable
  | 0 => fun _ _ => Prog.lift .outOfFuel
  | fuel + 1 => fun p offset => p.parse (assertBehind offset (assertedParsers fuel)) offset

/-- A child parser is called at the child's offset only. -/
theorem parseChildWith_congr {f g : ℕ → ParseM Unit} {offset : ℕ} (h : f offset = g offset) :
    parseChildWith f offset = parseChildWith g offset := by
  unfold parseChildWith
  rw [h]

/-- A sound verdict calls its child behind the header only. -/
theorem Verdict.run_congr {table table' : ParseTable} {r : Region} {p : Protocol} {offset : ℕ}
    {v : Verdict} (hsound : v.Sound r offset)
    (h : ∀ q o, offset < o → table q o = table' q o) :
    v.run table p offset = v.run table' p offset := by
  have hnext : ∀ len next, 0 < len →
      Next.run table (offset + len) next = Next.run table' (offset + len) next := by
    intro len next hpos
    cases next with
    | child q => exact parseChildWith_congr (h q _ (by omega))
    | _ => rfl
  cases v with
  | header len next => rw [Verdict.run, Verdict.run, hnext len next hsound.1]
  | datagram len payloadEnd next => rw [Verdict.run, Verdict.run, hnext len next hsound.1]
  | _ => rfl

/-- **No child is entered at or before the offset of its parent**: the assertion
changes no run of any parser, whatever the context. -/
theorem assertedParsers_eq (fuel : ℕ) : assertedParsers fuel = parsers fuel := by
  induction fuel with
  | zero => rfl
  | succ fuel ih =>
      funext p offset ctx
      rw [assertedParsers, ih]
      show p.parse (assertBehind offset (parsers fuel)) offset ctx =
        p.parse (parsers fuel) offset ctx
      rw [parse_eq_run, parse_eq_run]
      refine congrFun (Verdict.run_congr (decode_sound p ctx.region offset) fun q o ho => ?_) ctx
      exact if_pos ho

/-- **The layer table of a parse.**  For every link type, captured bytes and
options there is one result, `Ok` or `Err`, that the parse of the fresh packet
ends with; its layers are a layer table, and every child was entered behind its
parent. -/
theorem parse_layerTable (linkType : Capture.LinkType) (bytes : List UInt8)
    (options : ParseOptions) :
    ∃ (error : Option ParseError) (layers : List Layer), LayerTable bytes layers ∧
      ∀ fuel, bytes.length < fuel →
        tryParseWithLinkType fuel linkType options (new bytes) =
          (match error with
            | none => .ok ((), ⟨bytes, layers⟩)
            | some err => .err (err, ⟨bytes, layers⟩)) ∧
        withContext options (parseLinkType (assertedParsers fuel) linkType) (new bytes) =
          tryParseWithLinkType fuel linkType options (new bytes) := by
  have htrace : ∀ fuel, bytes.length < fuel →
      parseTrace options fuel bytes linkType =
        parseTrace options (bytes.length + 1) bytes linkType := by
    intro fuel hfuel
    unfold parseTrace
    split
    · unfold rootTrace
      split_ifs
      · exact descend_fuel options 0 (.whole bytes) _ 0 hfuel (Nat.lt_succ_self _)
      · rfl
    · rfl
    · rfl
  refine ⟨(parseTrace options (bytes.length + 1) bytes linkType).error,
    (parseTrace options (bytes.length + 1) bytes linkType).layers,
    .of_packed (parseTrace_packed _ _ _ _), fun fuel hfuel => ⟨?_, ?_⟩⟩
  · rw [tryParseWithLinkType_new linkType hfuel, htrace fuel hfuel]
    rfl
  · rw [assertedParsers_eq]
    rfl

end Packet
end Maja
