/-
# The descent through a packet

A parse goes down one path: the verdict on a header names at most one parser for
the bytes behind it.  `descend` follows the verdicts and collects the layers,
with the depth as a number and the region as a value instead of fields of a
context that are changed and restored.  `parsers_eq_descend` says that the
parsers, run in a context whose layers all lie before the offset, do just that;
its consequence for a fresh packet is `tryParseWithLinkType_new`.
-/

import Maja.Packet.Decode

namespace Maja
namespace Packet

open Lib

/-- What a parser leaves behind: its error, if it failed, and the layers it
recorded. -/
structure Trace where
  error : Option ParseError
  layers : List Layer
  deriving DecidableEq, Repr

/-- The layers of `parse_raw`. -/
def rawLayers (r : Region) (offset : ℕ) : List Layer :=
  if offset < r.stop then [⟨.raw, offset, r.stop - offset⟩] else []

/-- Nothing but the rest of the region. -/
def Trace.unparsed (r : Region) (offset : ℕ) : Trace := ⟨none, rawLayers r offset⟩

/-- `parse_child_with` on what the child left. -/
def Trace.fallback (options : ParseOptions) (r : Region) (offset : ℕ) (child : Trace) : Trace :=
  match child.error with
  | none => child
  | some _ => if options.fallbackToRawOnChildError then .unparsed r offset else child

/-- The layers behind a declared end. -/
def trailingLayers (r : Region) : Option ℕ → List Layer
  | none => []
  | some payloadEnd => rawLayers r payloadEnd

/-- A header, what is behind it, and what is behind its declared end. -/
def Trace.enclose (r : Region) (layer : Layer) (payloadEnd : Option ℕ) (inner : Trace) : Trace :=
  match inner.error with
  | none => ⟨none, layer :: inner.layers ++ trailingLayers r payloadEnd⟩
  | some err => ⟨some err, layer :: inner.layers⟩

/-- Follow what happens behind a header, given the descent of a child. -/
def follow (options : ParseOptions) (child : Protocol → Trace) (depth : ℕ) (r : Region)
    (offset : ℕ) : Next → Trace
  | .stop => ⟨none, []⟩
  | .raw => .unparsed r offset
  | .child protocol =>
    if options.AllowsLayer depth then (child protocol).fallback options r offset
    else .unparsed r offset

/-- The descent from a header at `depth`, entered with the depth limit allowing a
layer. -/
def descend (options : ParseOptions) : ℕ → ℕ → Region → Protocol → ℕ → Trace
  | 0, _, _, _, _ => ⟨none, []⟩
  | fuel + 1, depth, r, protocol, offset =>
    match decode protocol r offset with
    | .fail err => ⟨some err, []⟩
    | .skip => ⟨none, []⟩
    | .unparsed => .unparsed r offset
    | .reject len err => ⟨some err, [⟨protocol, offset, len⟩]⟩
    | .header len next =>
      (follow options (fun child => descend options fuel (depth + 1) r child (offset + len))
        (depth + 1) r (offset + len) next).enclose r ⟨protocol, offset, len⟩ none
    | .datagram len payloadEnd next =>
      (follow options
        (fun child => descend options fuel (depth + 1) (r.narrow payloadEnd) child (offset + len))
        (depth + 1) (r.narrow payloadEnd) (offset + len) next).enclose r ⟨protocol, offset, len⟩
          payloadEnd

/-- With fallback on, nothing fails behind a header. -/
theorem follow_error {options : ParseOptions} {depth offset : ℕ} {r : Region}
    (hfallback : options.fallbackToRawOnChildError = true) (child : Protocol → Trace)
    (next : Next) : (follow options child depth r offset next).error = none := by
  cases next with
  | stop => rfl
  | raw => rfl
  | child protocol =>
      rw [follow]
      split_ifs
      · unfold Trace.fallback
        split
        · assumption
        · rw [if_pos hfallback]
          rfl
      · rfl

/-! ### The layers of a descent are packed -/

/-- The layers are non-empty, in order, without overlap, and inside `[lo, hi)`. -/
def PackedLayers (lo hi : ℕ) (layers : List Layer) : Prop :=
  Span.Packed lo hi (layers.map Layer.range)

section Packed

variable {options : ParseOptions} {r : Region} {offset depth lo hi : ℕ} {xs ys : List Layer}

/-- No layer is packed. -/
@[simp] theorem packedLayers_nil : PackedLayers lo hi [] := trivial

/-- Layers are packed when the first lies in front and the others are packed behind it. -/
theorem packedLayers_cons {l : Layer} : PackedLayers lo hi (l :: xs) ↔
    lo ≤ l.offset ∧ 0 < l.len ∧ l.offset + l.len ≤ hi ∧ PackedLayers (l.offset + l.len) hi xs :=
  Iff.rfl

/-- Packed layers, and packed layers behind them. -/
theorem PackedLayers.append {mid : ℕ} (hx : PackedLayers lo mid xs) (hy : PackedLayers mid hi ys)
    (hlo : lo ≤ mid) (hhi : mid ≤ hi) : PackedLayers lo hi (xs ++ ys) := by
  rw [PackedLayers, List.map_append]
  exact Span.Packed.append hx hy hlo hhi

/-- Packed layers are packed in a wider range. -/
theorem PackedLayers.mono {lo' hi' : ℕ} (h : PackedLayers lo hi xs) (hlo : lo' ≤ lo)
    (hhi : hi ≤ hi') : PackedLayers lo' hi' xs := Span.Packed.mono h hlo hhi

/-- A packed layer lies inside the range and is not empty. -/
theorem PackedLayers.mem (h : PackedLayers lo hi xs) {l : Layer} (hl : l ∈ xs) :
    lo ≤ l.offset ∧ 0 < l.len ∧ l.offset + l.len ≤ hi :=
  Span.Packed.mem h (List.mem_map_of_mem hl)

/-- The raw layer lies inside the region. -/
theorem rawLayers_packed : PackedLayers offset r.stop (rawLayers r offset) := by
  unfold rawLayers
  split_ifs with h
  · exact packedLayers_cons.2 ⟨le_rfl, by dsimp only; omega, by dsimp only; omega, trivial⟩
  · trivial

/-- A payload does not end behind its region. -/
theorem narrow_stop_le (r : Region) (payloadEnd : Option ℕ) :
    (r.narrow payloadEnd).stop ≤ r.stop := by
  cases payloadEnd with
  | none => exact le_rfl
  | some e => exact Nat.min_le_left _ _

/-- Falling back keeps the layers packed. -/
theorem Trace.fallback_packed {t : Trace} (h : PackedLayers offset r.stop t.layers) :
    PackedLayers offset r.stop (t.fallback options r offset).layers := by
  unfold Trace.fallback
  split
  · exact h
  · split_ifs
    · exact rawLayers_packed
    · exact h

/-- What follows a header is packed behind it when every child is. -/
theorem follow_packed {child : Protocol → Trace}
    (h : ∀ protocol, PackedLayers offset r.stop (child protocol).layers) (next : Next) :
    PackedLayers offset r.stop (follow options child depth r offset next).layers := by
  cases next with
  | stop => trivial
  | raw => exact rawLayers_packed
  | child protocol =>
      rw [follow]
      split_ifs
      · exact Trace.fallback_packed (h protocol)
      · exact rawLayers_packed

/-- A header, its payload and its trailer follow one another. -/
theorem Trace.enclose_packed {t : Trace} {protocol : Protocol} {len : ℕ} {payloadEnd : Option ℕ}
    (hpos : 0 < len) (hlen : offset + len ≤ r.stop) (hend : ∀ e ∈ payloadEnd, offset + len ≤ e)
    (h : PackedLayers (offset + len) (r.narrow payloadEnd).stop t.layers) :
    PackedLayers offset r.stop (t.enclose r ⟨protocol, offset, len⟩ payloadEnd).layers := by
  have hle := narrow_stop_le r payloadEnd
  unfold Trace.enclose
  split
  · refine packedLayers_cons.2 ⟨le_rfl, hpos, hlen, ?_⟩
    cases payloadEnd with
    | none => exact h.append packedLayers_nil hlen le_rfl
    | some e =>
        have he := hend e rfl
        by_cases hes : e ≤ r.stop
        · exact (h.mono le_rfl (Nat.min_le_right _ _)).append rawLayers_packed he hes
        · have hnil : trailingLayers r (some e) = [] := if_neg (by omega)
          rw [hnil]
          exact (h.mono le_rfl hle).append packedLayers_nil hlen le_rfl
  · exact packedLayers_cons.2 ⟨le_rfl, hpos, hlen, h.mono le_rfl hle⟩

/-- **The layers of a descent are packed between the offset and the end of the
region.**  The induction is on the fuel; the verdict's bounds place the header,
the induction hypothesis the layers behind it. -/
theorem descend_packed (options : ParseOptions) (fuel depth : ℕ) (r : Region) (p : Protocol)
    (offset : ℕ) : PackedLayers offset r.stop (descend options fuel depth r p offset).layers := by
  induction fuel generalizing depth r p offset with
  | zero => trivial
  | succ fuel ih =>
      have hsound := decode_sound p r offset
      rw [descend]
      cases hverdict : decode p r offset with
      | fail err => trivial
      | skip => trivial
      | unparsed => exact rawLayers_packed
      | reject len err =>
          rw [hverdict] at hsound
          exact packedLayers_cons.2 ⟨le_rfl, hsound.1, hsound.2, trivial⟩
      | header len next =>
          rw [hverdict] at hsound
          exact Trace.enclose_packed hsound.1 hsound.2 (fun _ he => by simp at he)
            (follow_packed (fun _ => ih _ _ _ _) next)
      | datagram len payloadEnd next =>
          rw [hverdict] at hsound
          exact Trace.enclose_packed hsound.1 hsound.2.1 hsound.2.2
            (follow_packed (fun _ => ih _ _ _ _) next)

end Packed

/-! ### Enough fuel -/

/-- A child descent is asked for at the end of the header only, so that two
descents that agree there agree. -/
theorem follow_congr {options : ParseOptions} {depth offset : ℕ} {r : Region}
    {child child' : Protocol → Trace} (h : ∀ protocol, child protocol = child' protocol)
    (next : Next) :
    follow options child depth r offset next = follow options child' depth r offset next := by
  rw [show child = child' from funext h]

/-- **The bytes left in the region bound the depth of the descent**: with more
fuel than that, the descent does not depend on it. -/
theorem descend_fuel (options : ParseOptions) {fuel fuel' : ℕ} (depth : ℕ) (r : Region)
    (p : Protocol) (offset : ℕ) (h : r.stop - offset < fuel) (h' : r.stop - offset < fuel') :
    descend options fuel depth r p offset = descend options fuel' depth r p offset := by
  induction fuel generalizing fuel' depth r p offset with
  | zero => omega
  | succ fuel ih =>
      obtain ⟨fuel', rfl⟩ : ∃ n, fuel' = n + 1 := ⟨fuel' - 1, by omega⟩
      have hsound := decode_sound p r offset
      rw [descend, descend]
      cases hverdict : decode p r offset with
      | header len next =>
          rw [hverdict] at hsound
          obtain ⟨hpos, hlen⟩ := hsound
          dsimp only
          rw [follow_congr fun protocol => @ih fuel' _ _ _ _ (by omega) (by omega)]
      | datagram len payloadEnd next =>
          rw [hverdict] at hsound
          obtain ⟨hpos, hlen, -⟩ := hsound
          have hle := narrow_stop_le r payloadEnd
          dsimp only
          rw [follow_congr fun protocol => @ih fuel' _ _ _ _ (by omega) (by omega)]
      | _ => rfl

/-! ### The parsers do the descent -/

/-- The context with further layers. -/
def ParseContext.append (ctx : ParseContext) (layers : List Layer) : ParseContext :=
  { ctx with layers := ctx.layers ++ layers }

/-- Every layer of the context starts before the offset. -/
def ParseContext.Before (ctx : ParseContext) (offset : ℕ) : Prop :=
  ∀ l ∈ ctx.layers, l.offset < offset

/-- The rest from the offset on is not the last thing recorded. -/
def ParseContext.Unrecorded (ctx : ParseContext) (offset : ℕ) : Prop :=
  ∀ l ∈ ctx.layers.getLast?, l.protocol = .raw → l.offset < offset

/-- A call that leaves the trace in the context. -/
def Trace.finish (t : Trace) (ctx : ParseContext) :
    Outcome (ParseError × ParseContext) (Unit × ParseContext) :=
  match t.error with
  | none => .ok ((), ctx.append t.layers)
  | some err => .err (err, ctx.append t.layers)

section Run

variable {ctx : ParseContext} {table : ParseTable} {offset : ℕ} {layers : List Layer}

/-- Recording layers keeps the region. -/
@[simp] theorem append_region : (ctx.append layers).region = ctx.region := rfl

/-- Recording no layer changes nothing. -/
@[simp] theorem append_nil : ctx.append [] = ctx := by
  simp [ParseContext.append]

/-- Recording layers, and layers behind them. -/
theorem append_append (more : List Layer) :
    (ctx.append layers).append more = ctx.append (layers ++ more) := by
  simp [ParseContext.append]

/-- Where every layer ends in front of an offset none is recorded at it. -/
theorem ParseContext.Before.unrecorded (h : ctx.Before offset) : ctx.Unrecorded offset :=
  fun l hl _ => h l (List.mem_of_getLast? hl)

/-- Behind layers that start before the offset. -/
theorem unrecorded_append (hne : layers ≠ []) (hlayers : ∀ l ∈ layers, l.offset < offset) :
    (ctx.append layers).Unrecorded offset := by
  rintro l hl -
  rw [ParseContext.append, List.getLast?_append_of_ne_nil _ hne] at hl
  exact hlayers l (List.mem_of_getLast? hl)

/-- Pushing a layer that may be pushed records it. -/
theorem pushLayer_eq_append {protocol : Protocol} {len : ℕ} (h : ctx.CanPushLayer) :
    ctx.pushLayer protocol offset len = ctx.append [⟨protocol, offset, len⟩] := if_pos h

/-- `parse_raw` records the rest, unless it was the last thing recorded. -/
theorem parseRaw_eq_append (h : ctx.Unrecorded offset) :
    ctx.parseRaw offset = ctx.append (rawLayers ctx.region offset) := by
  unfold ParseContext.parseRaw rawLayers
  rw [region_stop]
  by_cases hlt : offset < ctx.endOffset
  · have hlast : ctx.layers.getLast? ≠ some ⟨.raw, offset, ctx.endOffset - offset⟩ := fun hl =>
      Nat.lt_irrefl offset (h _ hl rfl)
    rw [if_pos hlt, if_pos hlt, if_neg hlast]
    rfl
  · rw [if_neg hlt, if_neg hlt, append_nil]

/-- Removing what a child recorded gives the context back. -/
theorem truncate_append (ctx : ParseContext) (layers : List Layer) :
    (ctx.append layers).truncate ctx.layers.length = ctx := by
  simp [ParseContext.append, ParseContext.truncate]

/-- Recording the rest is a call that leaves just that. -/
theorem parseRaw_eq_finish (h : ctx.Unrecorded offset) :
    parseRaw offset ctx = (Trace.unparsed ctx.region offset).finish ctx :=
  congrArg (fun ctx => Outcome.ok ((), ctx)) (parseRaw_eq_append h)

/-- `parse_child_with` on a parser that leaves a trace. -/
theorem parseChildWith_eq {parseFn : ℕ → ParseM Unit} {t : Trace}
    (hbefore : ctx.Unrecorded offset) (h : ctx.CanPushLayer → parseFn offset ctx = t.finish ctx) :
    parseChildWith parseFn offset ctx =
      (if ctx.CanPushLayer then t.fallback ctx.options ctx.region offset
        else .unparsed ctx.region offset).finish ctx := by
  unfold parseChildWith
  simp only [Prog.bind_apply, Prog.get_apply, Outcome.ok_bind]
  by_cases hallow : ctx.CanPushLayer
  · simp only [hallow, not_true_eq_false, if_false, if_true, Prog.bind_apply, Prog.result_apply,
      h hallow]
    cases herror : t.error with
    | none => simp [Trace.finish, Trace.fallback, herror]
    | some err =>
        by_cases hfallback : ctx.options.fallbackToRawOnChildError
        · have htruncate := truncate_append ctx t.layers
          have hraw := parseRaw_eq_finish hbefore
          simp [Trace.finish, Trace.fallback, herror, hfallback, htruncate, hraw]
        · simp [Trace.finish, Trace.fallback, herror, hfallback]
  · rw [if_pos hallow, if_neg hallow]
    exact parseRaw_eq_finish hbefore

/-- What happens behind a header, when the children do their descents. -/
theorem Next.run_eq_follow {child : Protocol → Trace} (hbefore : ctx.Unrecorded offset)
    (hchild : ctx.CanPushLayer → ∀ protocol, table protocol offset ctx = (child protocol).finish ctx)
    (next : Next) : next.run table offset ctx =
      (follow ctx.options child ctx.layers.length ctx.region offset next).finish ctx := by
  cases next with
  | stop => simp [Next.run, follow, Trace.finish]
  | raw => exact parseRaw_eq_finish hbefore
  | child protocol => exact parseChildWith_eq hbefore fun hallow => hchild hallow protocol

/-- Declaring where the payload ends narrows the region. -/
theorem setDeclaredEnd_region (payloadEnd : Option ℕ) :
    (ctx.setDeclaredEnd (Packet.narrow ctx.declaredEnd payloadEnd)).region =
      ctx.region.narrow payloadEnd := by
  cases payloadEnd with
  | none => cases hend : ctx.declaredEnd <;> simp [Packet.narrow, Region.narrow,
      ParseContext.region, ParseContext.endOffset, ParseContext.setDeclaredEnd, hend]
  | some e =>
      refine Region.ext rfl ?_
      show min ((Packet.narrow ctx.declaredEnd (some e)).getD ctx.bytes.length) ctx.bytes.length =
        min (min (ctx.declaredEnd.getD ctx.bytes.length) ctx.bytes.length) e
      cases ctx.declaredEnd with
      | none =>
          show min e ctx.bytes.length = min (min ctx.bytes.length ctx.bytes.length) e
          omega
      | some outer =>
          show min (min outer e) _ = min (min outer _) e
          omega

/-- `parsePayload` narrows the region, restores it, and records the trailer. -/
theorem parsePayload_eq {dispatch : ParseM Unit} {t : Trace} {payloadEnd : Option ℕ}
    (hdispatch : ∀ ctx', ctx'.region = ctx.region.narrow payloadEnd → ctx'.options = ctx.options →
      ctx'.layers = ctx.layers → dispatch ctx' = t.finish ctx')
    (hbefore : ∀ e ∈ payloadEnd, (ctx.append t.layers).Unrecorded e) :
    parsePayload payloadEnd dispatch ctx =
      match t.error with
      | none => .ok ((), ctx.append (t.layers ++ trailingLayers ctx.region payloadEnd))
      | some err => .err (err, ctx.append t.layers) := by
  have hinner := hdispatch (ctx.setDeclaredEnd (Packet.narrow ctx.declaredEnd payloadEnd))
    (setDeclaredEnd_region payloadEnd) rfl rfl
  have hrestore : ((ctx.setDeclaredEnd (Packet.narrow ctx.declaredEnd payloadEnd)).append
      t.layers).setDeclaredEnd ctx.declaredEnd = ctx.append t.layers := rfl
  unfold parsePayload
  simp only [Prog.bind_apply, Prog.get_apply, Outcome.ok_bind, Prog.modify_apply,
    Prog.result_apply, hinner]
  cases herror : t.error with
  | some err => simp [Trace.finish, herror, hrestore]
  | none =>
      simp only [Trace.finish, herror, Outcome.ok_bind, hrestore, Prog.rethrow_ok, Prog.pure_apply]
      cases payloadEnd with
      | none => simp [trailingLayers]
      | some e =>
          rw [trailingLayers, ← append_append]
          exact congrArg (fun ctx => Outcome.ok ((), ctx)) (parseRaw_eq_append (hbefore e rfl))

/-- A header, and a parser behind it that leaves a trace. -/
theorem Trace.enclose_finish {t : Trace} {layer : Layer} {payloadEnd : Option ℕ} :
    (t.enclose ctx.region layer payloadEnd).finish ctx =
      match t.error with
      | none => .ok ((), (ctx.append [layer]).append (t.layers ++ trailingLayers ctx.region payloadEnd))
      | some err => .err (err, (ctx.append [layer]).append t.layers) := by
  unfold Trace.enclose Trace.finish
  cases t.error with
  | none => simp [append_append]
  | some err => simp [append_append]

/-- **The parsers do the descent, in any context**, whose layers it appends to.
The induction is on the fuel; a header that was just recorded starts before what is
behind it, so that the check for a repeated raw layer never fires there. -/
theorem parsers_eq_descend_of_unrecorded {fuel : ℕ} {p : Protocol}
    (hfuel : ctx.region.stop - offset < fuel) (hallow : ctx.CanPushLayer)
    (hraw : decode p ctx.region offset = .unparsed → ctx.Unrecorded offset) :
    parsers fuel p offset ctx =
      (descend ctx.options fuel ctx.layers.length ctx.region p offset).finish ctx := by
  induction fuel generalizing ctx p offset with
  | zero => omega
  | succ fuel ih =>
      have hsound := decode_sound p ctx.region offset
      -- What a recorded header hands to the parser behind it, in the same region
      -- or in a narrower one.
      have hnext : ∀ (len : ℕ) (next : Next) (ctx' : ParseContext), 0 < len →
          offset + len ≤ ctx.region.stop → ctx'.region.stop ≤ ctx.region.stop →
          ctx'.options = ctx.options → ctx'.layers = ctx.layers ++ [⟨p, offset, len⟩] →
          next.run (parsers fuel) (offset + len) ctx' =
            (follow ctx.options
              (fun child => descend ctx.options fuel (ctx.layers.length + 1) ctx'.region child
                (offset + len))
              (ctx.layers.length + 1) ctx'.region (offset + len) next).finish ctx' := by
        intro len next ctx' hpos hlen hstop hoptions hlayers
        have hdepth : ctx'.layers.length = ctx.layers.length + 1 := by
          rw [hlayers, List.length_append, List.length_singleton]
        have hbefore : ctx'.Unrecorded (offset + len) := by
          rintro l hl -
          rw [hlayers, List.getLast?_concat] at hl
          obtain rfl := Option.some.inj hl
          exact Nat.lt_add_of_pos_right hpos
        rw [← hoptions, ← hdepth]
        exact Next.run_eq_follow hbefore
          (fun hallow' protocol => ih (by omega) hallow' fun _ => hbefore) next
      rw [parsers, parse_eq_run, descend]
      cases hverdict : decode p ctx.region offset with
      | fail err => simp [Verdict.run, Trace.finish]
      | skip => simp [Verdict.run, Trace.finish]
      | unparsed => exact parseRaw_eq_finish (hraw hverdict)
      | reject len err =>
          rw [Verdict.run, pushLayer_bind, pushLayer_eq_append hallow]
          rfl
      | header len next =>
          rw [hverdict] at hsound
          rw [run_header, pushLayer_eq_append hallow, Trace.enclose_finish,
            hnext len next (ctx.append [⟨p, offset, len⟩]) hsound.1 hsound.2 le_rfl rfl rfl,
            append_region]
          simp only [Trace.finish, trailingLayers, List.append_nil]
      | datagram len payloadEnd next =>
          rw [hverdict] at hsound
          obtain ⟨hpos, hlen, hend⟩ := hsound
          rw [run_datagram, pushLayer_eq_append hallow, Trace.enclose_finish]
          refine parsePayload_eq (fun ctx' hregion hoptions hlayers => ?_) fun e he => ?_
          · rw [append_region] at hregion
            rw [hnext len next ctx' hpos hlen (by rw [hregion]; exact narrow_stop_le _ _) hoptions
              hlayers, hregion]
          · obtain rfl := Option.mem_def.1 he
            have hle := hend e rfl
            rw [append_append]
            refine unrecorded_append (by simp) fun l hl => ?_
            rcases List.mem_append.1 hl with hl | hl
            · rw [List.mem_singleton.1 hl]
              show offset < e
              omega
            · obtain ⟨-, hlpos, hlstop⟩ :=
                (follow_packed (fun child => descend_packed _ _ _ _ child _) next).mem hl
              have : (ctx.region.narrow (some e)).stop ≤ e := Nat.min_le_right _ _
              omega

/-- The descent in a context whose layers all start before the offset. -/
theorem parsers_eq_descend {fuel : ℕ} {p : Protocol} (hfuel : ctx.region.stop - offset < fuel)
    (hallow : ctx.CanPushLayer) (hbefore : ctx.Before offset) :
    parsers fuel p offset ctx =
      (descend ctx.options fuel ctx.layers.length ctx.region p offset).finish ctx :=
  parsers_eq_descend_of_unrecorded hfuel hallow fun _ => hbefore.unrecorded

end Run

/-! ### Fresh packets -/

/-- All captured bytes. -/
def Region.whole (bytes : List UInt8) : Region := ⟨bytes, bytes.length, le_rfl⟩

/-- What a link type asks for. -/
inductive Root where
  /-- A root parser. -/
  | protocol (p : Protocol)
  /-- Nothing: the bytes are recorded raw. -/
  | unparsed
  /-- A link type without a root parser. -/
  | unsupported
  deriving DecidableEq, Repr

/-- The root of a link type; a raw capture is told by its first nibble. -/
def rootOf (bytes : List UInt8) : Capture.LinkType → Root
  | .ethernet => .protocol .eth
  | .linuxSll => .protocol .sll
  | .ipv4 => .protocol .ipv4
  | .ipv6 => .protocol .ipv6
  | .raw =>
    match bytes.head?.map fun byte => byte.toNat >>> 4 with
    | some 4 => .protocol .ipv4
    | some 6 => .protocol .ipv6
    | _ => .unparsed
  | _ => .unsupported

/-- The descent from a root parser. -/
def rootTrace (options : ParseOptions) (fuel : ℕ) (bytes : List UInt8) (p : Protocol) : Trace :=
  if options.AllowsLayer 0 then descend options fuel 0 (.whole bytes) p 0 else ⟨none, []⟩

/-- The descent from the root of a link type. -/
def parseTrace (options : ParseOptions) (fuel : ℕ) (bytes : List UInt8)
    (linkType : Capture.LinkType) : Trace :=
  match rootOf bytes linkType with
  | .protocol p => rootTrace options fuel bytes p
  | .unparsed => .unparsed (.whole bytes) 0
  | .unsupported => ⟨some (.unsupportedLinkType linkType), []⟩

/-- A call that leaves the trace as the layer table of the packet. -/
def Trace.toPacket (t : Trace) (bytes : List UInt8) :
    Outcome (ParseError × Maja.Packet) (Unit × Maja.Packet) :=
  match t.error with
  | none => .ok ((), ⟨bytes, t.layers⟩)
  | some err => .err (err, ⟨bytes, t.layers⟩)

/-- The packet is what the call left, with `Ok` or with `Err`. -/
def Leaves (result : Outcome (ParseError × Maja.Packet) (Unit × Maja.Packet))
    (packet : Maja.Packet) : Prop :=
  result = .ok ((), packet) ∨ ∃ err, result = .err (err, packet)

section Fresh

variable {options : ParseOptions} {bytes : List UInt8} {fuel : ℕ}

/-- A call that finishes in the fresh context leaves its trace in the packet. -/
theorem withContext_new {m : ParseM Unit} {t : Trace}
    (h : m (.new bytes options []) = t.finish (.new bytes options [])) :
    withContext options m (new bytes) = t.toPacket bytes := by
  unfold withContext
  rw [show (new bytes).layers = [] from rfl, show (new bytes).bytes = bytes from rfl, h,
    Trace.finish, Trace.toPacket]
  cases t.error <;> rfl

/-- A new context has the whole packet in front of it. -/
theorem new_region : (ParseContext.new bytes options []).region = .whole bytes :=
  Region.ext rfl (Nat.min_self _)

/-- A root parser in the fresh context. -/
theorem parseRoot_eq (p : Protocol) (hfuel : bytes.length < fuel) :
    parseRoot (parsers fuel) p 0 (.new bytes options []) =
      (rootTrace options fuel bytes p).finish (.new bytes options []) := by
  show (if options.AllowsLayer 0 then parsers fuel p 0 else pure () : ParseM Unit) _ = _
  unfold rootTrace
  split_ifs with hallow
  · have hrun := @parsers_eq_descend (.new bytes options []) 0 fuel p
      (by rw [new_region]; exact hfuel) hallow (fun l hl => by simp [ParseContext.new] at hl)
    rw [new_region] at hrun
    exact hrun
  · rfl

/-- **`try_parse` of a fresh packet is the descent from its root.** -/
theorem tryParse_new (p : Protocol) (hfuel : bytes.length < fuel) :
    tryParse fuel p options (new bytes) = (rootTrace options fuel bytes p).toPacket bytes :=
  withContext_new (parseRoot_eq p hfuel)

/-- **`try_parse_with_link_type` of a fresh packet is the descent from the root of
its link type.** -/
theorem tryParseWithLinkType_new (linkType : Capture.LinkType) (hfuel : bytes.length < fuel) :
    tryParseWithLinkType fuel linkType options (new bytes) =
      (parseTrace options fuel bytes linkType).toPacket bytes := by
  refine withContext_new ?_
  cases linkType with
  | ethernet => exact parseRoot_eq .eth hfuel
  | linuxSll => exact parseRoot_eq .sll hfuel
  | ipv4 => exact parseRoot_eq .ipv4 hfuel
  | ipv6 => exact parseRoot_eq .ipv6 hfuel
  | raw =>
      rw [parseTrace, rootOf, parseLinkType, Prog.bind_apply, Prog.get_apply, Outcome.ok_bind]
      show (match bytes.head?.map fun byte => byte.toNat >>> 4 with
        | some 4 => parseRoot (parsers fuel) .ipv4 0
        | some 6 => parseRoot (parsers fuel) .ipv6 0
        | _ => parseRaw 0 : ParseM Unit) (.new bytes options []) = _
      generalize bytes.head?.map (fun byte => byte.toNat >>> 4) = nibble
      split
      · exact parseRoot_eq .ipv4 hfuel
      · exact parseRoot_eq .ipv6 hfuel
      · rw [parseRaw_eq_finish (fun l hl => by simp [ParseContext.new] at hl), new_region]
  | _ => rfl

/-- How a call leaves its trace tells the trace. -/
theorem Trace.toPacket_eq_ok {t : Trace} {packet : Maja.Packet} :
    t.toPacket bytes = .ok ((), packet) ↔ t.error = none ∧ packet = ⟨bytes, t.layers⟩ := by
  unfold Trace.toPacket
  cases t.error <;> simp [eq_comm]

/-- A trace leaves its layers in the packet. -/
theorem Trace.leaves_toPacket (t : Trace) (bytes : List UInt8) :
    Leaves (t.toPacket bytes) ⟨bytes, t.layers⟩ := by
  unfold Trace.toPacket
  split
  · exact .inl rfl
  · exact .inr ⟨_, rfl⟩

end Fresh

end Packet
end Maja
