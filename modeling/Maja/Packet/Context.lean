/-
# Layers and the parse context

`src/packet.rs`, `src/packet/layer.rs`, `src/packet/error.rs`.  The context is
the state that all protocol parsers share: the captured bytes, the end that the
enclosing headers declare, the options, and the layers recorded so far.

The custom protocol registry is taken to be empty, so that every lookup in it
fails and its match arms are never taken.  A parser is given the table of
parsers (`P::parse` of every protocol `P`) that it may call for its children.
-/

import Maja.Lib.Spans
import Maja.Packet.Field
import Maja.Capture.Basic

namespace Maja
namespace Packet

open Lib

/-- The protocol markers of `src/packet/layer`. -/
inductive Protocol where
  | eth | vlan | llc | sll | mpls | arp
  | ipv4 | ipv6
  | ipv6Hopopt | ipv6DestOpts | ipv6Route | ipv6Frag | ah | ipv6Mobility | ipv6Hip | ipv6Shim6
  | esp | gre
  | tcp | udp | sctp | icmp | icmpv6 | igmp
  | dns | dhcp | ntp | vxlan | tls
  | raw
  deriving DecidableEq, Repr

/-- `Layer`. -/
structure Layer where
  protocol : Protocol
  offset : ℕ
  len : ℕ
  deriving DecidableEq, Repr

namespace Layer

/-- `Layer::range`. -/
def range (l : Layer) : Span := ⟨l.offset, l.len⟩

/-- `Layer::bytes`. -/
def bytes {ε : Type} (l : Layer) (packetBytes : List UInt8) : Outcome ε (List UInt8) :=
  Outcome.slice packetBytes l.offset (l.offset + l.len)

end Layer

/-- `ParseError`. -/
inductive ParseError where
  | truncated (protocol : Protocol) (offset needed available : ℕ)
  | malformed (protocol : Protocol) (field reason : String)
  | unsupportedLinkType (linkType : Capture.LinkType)
  deriving DecidableEq, Repr

/-- `ParseError::truncated`, given the length of the usable bytes. -/
def ParseError.ofTruncated (protocol : Protocol) (offset needed bytesLen : ℕ) : ParseError :=
  .truncated protocol offset needed (bytesLen - offset)

/-- `ParseOptions`, with an empty registry; `panic` is read by `parse` only, not
by `try_parse`. -/
structure ParseOptions where
  maxDepth : Option ℕ := none
  fallbackToRawOnChildError : Bool := true
  deriving DecidableEq, Repr

/-- `ParseContext`. -/
structure ParseContext where
  bytes : List UInt8
  declaredEnd : Option ℕ
  options : ParseOptions
  layers : List Layer
  deriving DecidableEq, Repr

/-- `max_depth` allows another structured layer on top of `depth` layers. -/
def ParseOptions.AllowsLayer (options : ParseOptions) (depth : ℕ) : Prop :=
  ∀ maxDepth ∈ options.maxDepth, depth < maxDepth

instance (options : ParseOptions) (depth : ℕ) : Decidable (options.AllowsLayer depth) :=
  match h : options.maxDepth with
  | none => isTrue (by simp [ParseOptions.AllowsLayer, h])
  | some maxDepth => decidable_of_iff (depth < maxDepth) (by simp [ParseOptions.AllowsLayer, h])

namespace ParseContext

/-- `ParseContext::new`. -/
def new (bytes : List UInt8) (options : ParseOptions) (layers : List Layer) : ParseContext where
  bytes := bytes
  declaredEnd := none
  options := options
  layers := layers

/-- `ParseContext::end`. -/
def endOffset (ctx : ParseContext) : ℕ :=
  min (ctx.declaredEnd.getD ctx.bytes.length) ctx.bytes.length

/-- `ParseContext::rest`. -/
def rest (ctx : ParseContext) (offset : ℕ) : List UInt8 :=
  (ctx.bytes.take ctx.endOffset).drop (min offset ctx.endOffset)

/-- `ParseContext::can_push_layer`. -/
def CanPushLayer (ctx : ParseContext) : Prop := ctx.options.AllowsLayer ctx.layers.length

instance (ctx : ParseContext) : Decidable ctx.CanPushLayer :=
  inferInstanceAs (Decidable (ctx.options.AllowsLayer _))

/-- `ParseContext::push_layer`. -/
def pushLayer (ctx : ParseContext) (protocol : Protocol) (offset len : ℕ) : ParseContext :=
  if ctx.CanPushLayer then { ctx with layers := ctx.layers ++ [⟨protocol, offset, len⟩] } else ctx

/-- `ParseContext::parse_raw`. -/
def parseRaw (ctx : ParseContext) (offset : ℕ) : ParseContext :=
  if offset < ctx.endOffset then
    let layer : Layer := ⟨.raw, offset, ctx.endOffset - offset⟩
    if ctx.layers.getLast? = some layer then ctx
    else { ctx with layers := ctx.layers ++ [layer] }
  else ctx

/-- `layers.truncate(len)`. -/
def truncate (ctx : ParseContext) (len : ℕ) : ParseContext :=
  { ctx with layers := ctx.layers.take len }

/-- `declared_end = end`. -/
def setDeclaredEnd (ctx : ParseContext) (declaredEnd : Option ℕ) : ParseContext :=
  { ctx with declaredEnd := declaredEnd }

end ParseContext

/-- A parser: it changes the context, also when it fails. -/
abbrev ParseM := Prog ParseContext ParseError

/-- `P::parse` of every protocol. -/
abbrev ParseTable := Protocol → ℕ → ParseM Unit

/-- `ctx.push_layer(protocol, offset, len)`. -/
def pushLayer (protocol : Protocol) (offset len : ℕ) : ParseM Unit :=
  Prog.modify fun ctx => ctx.pushLayer protocol offset len

/-- `ctx.parse_raw(offset)`. -/
def parseRaw (offset : ℕ) : ParseM Unit := Prog.modify fun ctx => ctx.parseRaw offset

/-- `ctx.require(protocol, offset, len)?`. -/
def require (protocol : Protocol) (offset len : ℕ) : ParseM (List UInt8) := do
  let ctx ← Prog.get
  if offset + len > ctx.endOffset ∨ offset + len > ctx.bytes.length then
    Prog.throw (.ofTruncated protocol offset len ctx.endOffset)
  else
    pure ((ctx.bytes.drop offset).take len)

/-- `ctx.rest(offset)`. -/
def rest (offset : ℕ) : ParseM (List UInt8) := do
  let ctx ← Prog.get
  pure (ctx.rest offset)

/-- `ctx.parse::<P>(offset)`. -/
def parseRoot (table : ParseTable) (protocol : Protocol) (offset : ℕ) : ParseM Unit := do
  let ctx ← Prog.get
  if ctx.CanPushLayer then table protocol offset else pure ()

/-- `ctx.parse_child_with(parse_fn, offset)`. -/
def parseChildWith (parseFn : ℕ → ParseM Unit) (offset : ℕ) : ParseM Unit := do
  let ctx ← Prog.get
  if ¬ctx.CanPushLayer then
    parseRaw offset
  else
    let layerCheckpoint := ctx.layers.length
    let fallbackToRaw := ctx.options.fallbackToRawOnChildError
    match ← Prog.result (parseFn offset) with
    | .ok () => pure ()
    | .error err =>
      if fallbackToRaw then
        Prog.modify fun ctx => ctx.truncate layerCheckpoint
        parseRaw offset
      else
        Prog.throw err

/-- `ctx.parse_child::<P>(offset)`. -/
def parseChild (table : ParseTable) (protocol : Protocol) (offset : ℕ) : ParseM Unit :=
  parseChildWith (table protocol) offset

/-- The declared end of a subtree inside the end that encloses it. -/
def narrow (outerEnd innerEnd : Option ℕ) : Option ℕ :=
  match outerEnd, innerEnd with
  | some outer, some inner => some (min outer inner)
  | outer, none => outer
  | none, inner => inner

/-- What IPv4 and IPv6 do around the dispatch of their payload: declare where it
ends, restore the outer end on success and error alike, and record what lies
behind the declared end. -/
def parsePayload (innerEnd : Option ℕ) (dispatch : ParseM Unit) : ParseM Unit := do
  let outerEnd := (← Prog.get).declaredEnd
  Prog.modify fun ctx => ctx.setDeclaredEnd (narrow outerEnd innerEnd)
  let result ← Prog.result dispatch
  Prog.modify fun ctx => ctx.setDeclaredEnd outerEnd
  Prog.rethrow result
  match innerEnd with
  | some innerEnd => parseRaw innerEnd
  | none => pure ()

end Packet
end Maja
