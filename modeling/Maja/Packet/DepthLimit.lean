/-
# What the depth limit cuts

`max_depth` is compared with the length of the layer table, which raw layers and
trailers are part of, and which failed children are removed from.  On the way down
the table holds only the headers entered so far, so that with fallback on the limit
is the number of structured layers: `descend_cut` compares the descents with and
without a limit, header by header.  An error below a header falls back, so the
limit never changes whether the parse fails.
-/

import Maja.Packet.Path

namespace Maja
namespace Packet

open Lib

/-- The structured layers: those that are not raw. -/
def structured (layers : List Layer) : List Layer :=
  layers.filter fun l => l.protocol ≠ .raw

/-- `t` is what a limit of `n` more structured layers leaves of `u`. -/
structure Trace.Cut (n : ℕ) (t u : Trace) : Prop where
  error : t.error = u.error
  layers : structured t.layers = (structured u.layers).take n

/-- Fallback on, with or without a limit. -/
def fallbackOptions (maxDepth : Option ℕ) : ParseOptions := ⟨maxDepth, true⟩

variable {n depth offset fuel : ℕ} {r r' : Region} {p : Protocol} {t u : Trace}
  {maxDepth payloadEnd : Option ℕ} {xs ys : List Layer} {child child' : Protocol → Trace}

/-- Without a limit every depth is allowed. -/
theorem allowsLayer_none : (fallbackOptions none).AllowsLayer depth := by
  simp [ParseOptions.AllowsLayer, fallbackOptions]

/-- A limit allows the depths below it. -/
theorem allowsLayer_some : (fallbackOptions (some n)).AllowsLayer depth ↔ depth < n := by
  simp [ParseOptions.AllowsLayer, fallbackOptions]

/-- The structured layers of lists of layers. -/
theorem structured_append : structured (xs ++ ys) = structured xs ++ structured ys :=
  List.filter_append ..

/-- A layer other than raw data is structured. -/
theorem structured_cons {l : Layer} (h : l.protocol ≠ .raw) :
    structured (l :: xs) = l :: structured xs := List.filter_cons_of_pos (by simpa using h)

/-- Raw layers have no structured one. -/
theorem AllRaw.structured_eq (h : AllRaw xs) : structured xs = [] :=
  List.filter_eq_nil_iff.2 fun l hl => by simpa using h l hl

/-- No header is recorded for a raw layer. -/
theorem ne_raw_of_headerLen {len : ℕ} (h : (decode p r offset).headerLen = some len) : p ≠ .raw := by
  rintro rfl
  cases h

/-- A header costs one of the limit. -/
theorem Trace.enclose_cut {layer : Layer} (hlayer : layer.protocol ≠ .raw) (ht : t.error = none)
    (hu : u.error = none) (h : structured t.layers = (structured u.layers).take n) :
    Trace.Cut (n + 1) (t.enclose r layer payloadEnd) (u.enclose r layer payloadEnd) := by
  have htrailer := (allRaw_trailingLayers r payloadEnd).structured_eq
  unfold Trace.enclose
  rw [ht, hu]
  refine ⟨rfl, ?_⟩
  simp only [List.cons_append, structured_cons hlayer, structured_append, htrailer,
    List.append_nil, List.take_succ_cons, h]

/-- Where the limit is reached the child is recorded raw, and none of its layers
is left; before that, a child that fails fails with and without the limit. -/
theorem follow_cut (hchild : depth < n → ∀ p, Trace.Cut (n - depth) (child p) (child' p))
    (next : Next) :
    structured (follow (fallbackOptions (some n)) child depth r offset next).layers =
      (structured (follow (fallbackOptions none) child' depth r offset next).layers).take
        (n - depth) := by
  have hraw := (allRaw_rawLayers r offset).structured_eq
  cases next with
  | stop => simp [follow, structured]
  | raw => simp [follow, Trace.unparsed, hraw]
  | child protocol =>
      rw [follow, follow, if_pos allowsLayer_none]
      by_cases hdepth : depth < n
      · obtain ⟨herror, hlayers⟩ := hchild hdepth protocol
        rw [if_pos (allowsLayer_some.2 hdepth), Trace.fallback, Trace.fallback, ← herror]
        cases (child protocol).error with
        | none => exact hlayers
        | some _ => simp [fallbackOptions, Trace.unparsed, hraw]
      · rw [if_neg (mt allowsLayer_some.1 hdepth), Nat.sub_eq_zero_of_le (Nat.le_of_not_lt hdepth),
          List.take_zero]
        exact hraw

/-- **A limit cuts the descent, and does nothing else to it.**  The induction is on
the fuel. -/
theorem descend_cut (hdepth : depth < n) :
    Trace.Cut (n - depth) (descend (fallbackOptions (some n)) fuel depth r p offset)
      (descend (fallbackOptions none) fuel depth r p offset) := by
  induction fuel generalizing depth r p offset with
  | zero => exact ⟨rfl, by simp [descend, structured]⟩
  | succ fuel ih =>
      obtain ⟨m, hm⟩ : ∃ m, n - depth = m + 1 := ⟨n - depth - 1, by omega⟩
      have hrest : n - (depth + 1) = m := by omega
      -- what is behind a header, in the region that it declares
      have hfollow : ∀ r offset next,
          structured (follow (fallbackOptions (some n))
            (fun child => descend (fallbackOptions (some n)) fuel (depth + 1) r child offset)
            (depth + 1) r offset next).layers =
          (structured (follow (fallbackOptions none)
            (fun child => descend (fallbackOptions none) fuel (depth + 1) r child offset)
            (depth + 1) r offset next).layers).take m := by
        intro r offset next
        rw [← hrest]
        exact follow_cut (fun h protocol => ih h) next
      rw [hm, descend, descend]
      cases hverdict : decode p r offset with
      | fail err => exact ⟨rfl, by simp [structured]⟩
      | skip => exact ⟨rfl, by simp [structured]⟩
      | unparsed =>
          refine ⟨rfl, ?_⟩
          simp [Trace.unparsed, (allRaw_rawLayers r offset).structured_eq]
      | reject len err =>
          have hp : p ≠ .raw := ne_raw_of_headerLen (by rw [hverdict]; rfl)
          refine ⟨rfl, ?_⟩
          rw [structured_cons hp, List.take_succ_cons]
          simp [structured]
      | header len next =>
          have hp : p ≠ .raw := ne_raw_of_headerLen (by rw [hverdict]; rfl)
          exact Trace.enclose_cut hp (follow_error rfl _ _) (follow_error rfl _ _) (hfollow _ _ next)
      | datagram len payloadEnd next =>
          have hp : p ≠ .raw := ne_raw_of_headerLen (by rw [hverdict]; rfl)
          exact Trace.enclose_cut hp (follow_error rfl _ _) (follow_error rfl _ _) (hfollow _ _ next)

/-- A root behind a limit of nothing is not parsed. -/
theorem rootTrace_cut (bytes : List UInt8) :
    structured (rootTrace (fallbackOptions (some n)) fuel bytes p).layers =
      (structured (rootTrace (fallbackOptions none) fuel bytes p).layers).take n := by
  rw [rootTrace, rootTrace, if_pos allowsLayer_none]
  by_cases hn : 0 < n
  · rw [if_pos (allowsLayer_some.2 hn)]
    exact (descend_cut hn).layers
  · rw [if_neg (mt allowsLayer_some.1 hn), Nat.eq_zero_of_not_pos hn]
    rfl

/-- A parse that succeeds leaves its packet. -/
theorem Leaves.eq_of_ok {packet packet' : Maja.Packet} (h : Leaves (.ok ((), packet)) packet') :
    packet' = packet := by
  obtain h | ⟨err, h⟩ := h
  · cases h
    rfl
  · cases h

/-- **A depth limit only cuts**: with fallback on, the structured layers that a
parse with `max_depth` `n` records are the first `n` of those that the unlimited
parse records, for every link type, on success and error alike. -/
theorem depthLimit_cuts (bytes : List UInt8) (linkType : Capture.LinkType) (n : ℕ)
    (hfuel : bytes.length < fuel) :
    ∃ limited unlimited : Maja.Packet,
      Leaves (tryParseWithLinkType fuel linkType (fallbackOptions (some n)) (new bytes)) limited ∧
      Leaves (tryParseWithLinkType fuel linkType (fallbackOptions none) (new bytes)) unlimited ∧
      structured limited.layers = (structured unlimited.layers).take n := by
  rw [tryParseWithLinkType_new linkType hfuel, tryParseWithLinkType_new linkType hfuel]
  refine ⟨_, _, Trace.leaves_toPacket _ _, Trace.leaves_toPacket _ _, ?_⟩
  show structured (parseTrace _ _ _ _).layers = (structured (parseTrace _ _ _ _).layers).take n
  unfold parseTrace
  split
  · exact rootTrace_cut bytes
  · simp [Trace.unparsed, (allRaw_rawLayers _ _).structured_eq]
  · simp [structured]

/-- A UDP datagram of four bytes in IPv4 in Ethernet. -/
def udpFrame : List UInt8 :=
  [0, 0, 0, 0, 0, 1, 0, 0, 0, 0, 0, 2, 8, 0] ++
    [0x45, 0, 0, 32, 0, 0, 0, 0, 64, 17, 0, 0, 10, 0, 0, 1, 10, 0, 0, 2] ++
    [0, 53, 0, 99, 0, 12, 0, 0] ++ [1, 2, 3, 4]

/-- A limit of one header cuts a frame of three: what is in the Ethernet header is
recorded raw. -/
theorem depthLimit_cuts_udpFrame :
    ∃ limited unlimited : Maja.Packet,
      Leaves (tryParseWithLinkType 47 .ethernet (fallbackOptions (some 1)) (new udpFrame)) limited ∧
      Leaves (tryParseWithLinkType 47 .ethernet (fallbackOptions none) (new udpFrame)) unlimited ∧
      limited.layers = [⟨.eth, 0, 14⟩, ⟨.raw, 14, 32⟩] ∧
      unlimited.layers = [⟨.eth, 0, 14⟩, ⟨.ipv4, 14, 20⟩, ⟨.udp, 34, 8⟩, ⟨.raw, 42, 4⟩] ∧
      structured limited.layers = (structured unlimited.layers).take 1 := by
  obtain ⟨limited, unlimited, hlimited, hunlimited, hcut⟩ :=
    depthLimit_cuts udpFrame .ethernet 1 (show udpFrame.length < 47 by decide)
  have hlimited' : tryParseWithLinkType 47 .ethernet (fallbackOptions (some 1)) (new udpFrame) =
      .ok ((), ⟨udpFrame, [⟨.eth, 0, 14⟩, ⟨.raw, 14, 32⟩]⟩) := by
    decide +kernel
  have hunlimited' : tryParseWithLinkType 47 .ethernet (fallbackOptions none) (new udpFrame) =
      .ok ((), ⟨udpFrame, [⟨.eth, 0, 14⟩, ⟨.ipv4, 14, 20⟩, ⟨.udp, 34, 8⟩, ⟨.raw, 42, 4⟩]⟩) := by
    decide +kernel
  refine ⟨limited, unlimited, hlimited, hunlimited, ?_, ?_, hcut⟩
  · rw [hlimited'] at hlimited
    rw [Leaves.eq_of_ok hlimited]
  · rw [hunlimited'] at hunlimited
    rw [Leaves.eq_of_ok hunlimited]

end Packet
end Maja
