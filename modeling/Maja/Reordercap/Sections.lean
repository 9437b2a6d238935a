/-
# Moving the blocks of a section

A section is a header and the blocks behind it.  `reorder` is the order that
reordercap writes a section in.  It keeps the interface descriptions in their order,
and moves a packet only behind more of them; `reads_reorder` is that, by the
monotonicity of decoding, every block still decodes to what it was.
-/

import Maja.Lib.StableSort
import Maja.Reordercap.Decode

namespace Maja
namespace Reordercap

open Lib Capture
open scoped List

/-! ### Interfaces that are added -/

/-- The same section, with interfaces added at the end. -/
structure Context.Extends (ctx ctx' : Context) : Prop where
  sectionHeader : ctx'.sectionHeader = ctx.sectionHeader
  interfaces : ctx.interfaces <+: ctx'.interfaces

/-- A context extends itself. -/
theorem Context.Extends.refl (ctx : Context) : ctx.Extends ctx := ⟨rfl, List.prefix_rfl⟩

/-- Extending a context is transitive. -/
theorem Context.Extends.trans {a b c : Context} (h : a.Extends b) (h' : b.Extends c) :
    a.Extends c :=
  ⟨h'.sectionHeader.trans h.sectionHeader, h.interfaces.trans h'.interfaces⟩

/-- The packet of a block keeps its interface when others are added. -/
theorem packetOf_mono {is js : List InterfaceDescription} {block : PcapngBlock}
    {packet : Option (InterfaceDescription × I64)} (h : packetOf is block = .ok packet)
    (hbefore : is <+: js) : packetOf js block = .ok packet := by
  cases block with
  | enhancedPacket ep data =>
    rw [packetOf] at h ⊢
    cases hi : is[ep.interfaceId]? with
    | none => simp [hi] at h
    | some interface =>
      obtain ⟨more, rfl⟩ := hbefore
      have hlt : ep.interfaceId < is.length := by
        by_contra hge
        rw [List.getElem?_eq_none (Nat.le_of_not_lt hge)] at hi
        cases hi
      rw [List.getElem?_append_left hlt, hi]
      rwa [hi] at h
  | _ => exact h

/-- **A block decodes the same behind more interface descriptions.** -/
theorem DecodesAt.mono {ctx ctx' : Context} {d : Decoded} (h : DecodesAt ctx d)
    (hext : ctx.Extends ctx') : DecodesAt ctx' d := by
  obtain ⟨frame, hframed, hraw, hparse, hpacket⟩ := h
  exact ⟨frame, by rwa [hext.sectionHeader], hraw, hparse, packetOf_mono hpacket hext.interfaces⟩

/-! ### The blocks of a section -/

namespace Decoded

/-- A section header. -/
def isHeader (d : Decoded) : Bool :=
  match d.block with
  | .sectionHeader _ => true
  | _ => false

/-- An interface description. -/
def isInterface (d : Decoded) : Bool :=
  match d.block with
  | .interfaceDescription _ => true
  | _ => false

/-- An Enhanced Packet Block. -/
def isPacket (d : Decoded) : Bool :=
  match d.block with
  | .enhancedPacket _ _ => true
  | _ => false

/-- A Simple Packet Block. -/
def isSimple (d : Decoded) : Bool :=
  match d.block with
  | .simplePacket _ _ => true
  | _ => false

/-- Any other block. -/
def isOther (d : Decoded) : Bool :=
  match d.block with
  | .raw _ _ => true
  | _ => false

/-- The timestamp of a packet. -/
def timestamp (d : Decoded) : I64 := (d.packet.map Prod.snd).getD (I64.ofInt 0)

end Decoded

open Decoded

/-- The blocks in front of the first packet. -/
def prefixOf (ds : List Decoded) : List Decoded := ds.takeWhile fun d => !d.isPacket

/-- The blocks from the first packet on. -/
def behind (ds : List Decoded) : List Decoded := ds.dropWhile fun d => !d.isPacket

/-- The interface descriptions that arrived after a packet. -/
def lateInterfaces (ds : List Decoded) : List Decoded := (behind ds).filter isInterface

/-- The packets. -/
def packets (ds : List Decoded) : List Decoded := (behind ds).filter isPacket

/-- The other blocks that arrived after a packet. -/
def others (ds : List Decoded) : List Decoded := (behind ds).filter isOther

/-- The order in which a section is written. -/
def reorder (ds : List Decoded) : List Decoded :=
  prefixOf ds ++ lateInterfaces ds ++ sortByKey timestamp (packets ds) ++ others ds

/-- A section is its prefix and what lies behind it. -/
theorem prefixOf_append_behind (ds : List Decoded) : prefixOf ds ++ behind ds = ds :=
  List.takeWhile_append_dropWhile

/-- Behind the header a section has no further one, and it has no Simple Packet
Block. -/
def InSection (ds : List Decoded) : Prop := ∀ d ∈ ds, d.isHeader = false ∧ d.isSimple = false

/-- A section: a header, and blocks that are none. -/
def IsSection (ds : List Decoded) : Prop :=
  ∃ header rest, ds = header :: rest ∧ header.isHeader ∧ InSection rest

/-- A section header is no packet. -/
theorem not_packet_of_header {d : Decoded} (h : d.isHeader) : d.isPacket = false := by
  unfold Decoded.isHeader at h
  unfold Decoded.isPacket
  cases hb : d.block <;> simp [hb] at h ⊢

/-- From the first packet on there is no header. -/
theorem IsSection.inSection_behind {ds : List Decoded} (h : IsSection ds) :
    InSection (behind ds) := by
  obtain ⟨header, rest, rfl, hheader, hrest⟩ := h
  intro d hd
  rw [behind, List.dropWhile_cons_of_pos (by simp [not_packet_of_header hheader])] at hd
  exact hrest d ((List.dropWhile_suffix _).mem hd)

/-- A block that is neither a header nor an interface description changes
nothing. -/
theorem record_of_not {ctx : Context} {d : Decoded} (hheader : d.isHeader = false)
    (hinterface : d.isInterface = false) : ctx.record d.block = ctx := by
  unfold Decoded.isHeader at hheader
  unfold Decoded.isInterface at hinterface
  cases hb : d.block <;> simp [hb] at hheader hinterface <;> rfl

/-- A block that is no header only adds interfaces. -/
theorem extends_record {ctx : Context} {d : Decoded} (hheader : d.isHeader = false) :
    ctx.Extends (ctx.record d.block) := by
  unfold Decoded.isHeader at hheader
  cases hb : d.block with
  | sectionHeader h => simp [hb] at hheader
  | interfaceDescription i => exact ⟨rfl, List.prefix_append ..⟩
  | _ => exact Context.Extends.refl ctx

/-- Blocks without a header: their interface descriptions alone build the same
context, and under it each of the blocks still decodes. -/
theorem reads_interfaces {ctx ctx' : Context} {ds : List Decoded} (hds : InSection ds)
    (h : Reads ctx ds ctx') :
    Reads ctx (ds.filter isInterface) ctx' ∧ ctx.Extends ctx' ∧ ∀ d ∈ ds, DecodesAt ctx' d := by
  induction h with
  | nil ctx => exact ⟨.nil ctx, .refl ctx, by simp⟩
  | @cons ctx ctx' d ds hd _ ih =>
    obtain ⟨hheader, -⟩ := hds d (List.mem_cons_self ..)
    obtain ⟨hreads, hext, hall⟩ := ih fun e he => hds e (List.mem_cons_of_mem _ he)
    have hextends := (extends_record hheader).trans hext
    refine ⟨?_, hextends, ?_⟩
    · cases hinterface : d.isInterface with
      | true =>
        rw [List.filter_cons_of_pos hinterface]
        exact .cons hd hreads
      | false =>
        rw [List.filter_cons_of_neg (by simp [hinterface])]
        rwa [record_of_not hheader hinterface] at hreads
    · intro e he
      rcases List.mem_cons.1 he with rfl | hmem
      · exact hd.mono hextends
      · exact hall e hmem

/-- Blocks that change nothing are read in any order. -/
theorem reads_const {ctx : Context} {ds : List Decoded}
    (h : ∀ d ∈ ds, DecodesAt ctx d ∧ ctx.record d.block = ctx) : Reads ctx ds ctx := by
  induction ds with
  | nil => exact .nil ctx
  | cons d ds ih =>
    obtain ⟨hd, hrecord⟩ := h d (List.mem_cons_self ..)
    refine .cons hd ?_
    rw [hrecord]
    exact ih fun e he => h e (List.mem_cons_of_mem _ he)

/-- A packet is no interface description. -/
theorem not_interface_of_packet {d : Decoded} (h : d.isPacket) : d.isInterface = false := by
  unfold Decoded.isPacket at h
  unfold Decoded.isInterface
  cases hb : d.block <;> simp [hb] at h ⊢

/-- Another block is no interface description. -/
theorem not_interface_of_other {d : Decoded} (h : d.isOther) : d.isInterface = false := by
  unfold Decoded.isOther at h
  unfold Decoded.isInterface
  cases hb : d.block <;> simp [hb] at h ⊢

/-- **Reordering keeps what the blocks decode to**: under the same context the
blocks are read in the new order, each as what it was, and leave the same
context. -/
theorem reads_reorder {ctx ctx' : Context} {ds : List Decoded} (hds : IsSection ds)
    (h : Reads ctx ds ctx') : Reads ctx (reorder ds) ctx' := by
  rw [← prefixOf_append_behind ds] at h
  obtain ⟨mid, hbefore, hbehind⟩ := h.of_append
  have hsection := hds.inSection_behind
  obtain ⟨hlate, -, hall⟩ := reads_interfaces hsection hbehind
  have hpackets : Reads ctx' (sortByKey timestamp (packets ds)) ctx' := by
    refine reads_const fun d hd => ?_
    have hmem := (sortByKey_perm timestamp (packets ds)).mem_iff.1 hd
    obtain ⟨hmem, hpacket⟩ := List.mem_filter.1 hmem
    exact ⟨hall d hmem, record_of_not (hsection d hmem).1 (not_interface_of_packet hpacket)⟩
  have hothers : Reads ctx' (others ds) ctx' := by
    refine reads_const fun d hd => ?_
    obtain ⟨hmem, hother⟩ := List.mem_filter.1 hd
    exact ⟨hall d hmem, record_of_not (hsection d hmem).1 (not_interface_of_other hother)⟩
  exact ((hbefore.append hlate).append hpackets).append hothers

/-- The same for all sections of a file. -/
theorem reads_reorder_all {ctx ctx' : Context} {sections : List (List Decoded)}
    (hall : ∀ ds ∈ sections, IsSection ds) (h : Reads ctx sections.flatten ctx') :
    Reads ctx (sections.map reorder).flatten ctx' := by
  induction sections generalizing ctx with
  | nil => exact h
  | cons ds sections ih =>
    rw [List.flatten_cons] at h
    obtain ⟨mid, hds, hrest⟩ := h.of_append
    rw [List.map_cons, List.flatten_cons]
    exact (reads_reorder (hall ds (List.mem_cons_self ..)) hds).append
      (ih (fun es hes => hall es (List.mem_cons_of_mem _ hes)) hrest)

/-! ### The promised order -/

/-- What reordercap promises about a section: the blocks in front of the first
packet, then the interface descriptions, then the packets by time and the packets
of one time in their old order, then the other blocks; and no block is lost or
written twice. -/
structure SectionReordered (ds es : List Decoded) : Prop where
  perm : es.Perm ds
  order : ∃ sorted, StablySorted timestamp (packets ds) sorted ∧
    es = prefixOf ds ++ lateInterfaces ds ++ sorted ++ others ds

/-- Blocks that are no header and no Simple Packet Block are of three kinds. -/
theorem perm_kinds {ds : List Decoded} (h : InSection ds) :
    (ds.filter isInterface ++ ds.filter isPacket ++ ds.filter isOther).Perm ds := by
  induction ds with
  | nil => exact .refl _
  | cons d ds ih =>
    have hrest := ih fun e he => h e (List.mem_cons_of_mem _ he)
    obtain ⟨hheader, hsimple⟩ := h d (List.mem_cons_self ..)
    unfold Decoded.isHeader at hheader
    unfold Decoded.isSimple at hsimple
    cases hb : d.block with
    | sectionHeader x => simp [hb] at hheader
    | simplePacket x y => simp [hb] at hsimple
    | interfaceDescription x =>
      simpa [List.filter_cons, Decoded.isInterface, Decoded.isPacket, Decoded.isOther, hb]
        using hrest
    | enhancedPacket x y =>
      simp only [List.filter_cons, Decoded.isInterface, Decoded.isPacket, Decoded.isOther, hb]
      have hmid : (ds.filter isInterface ++ d :: ds.filter isPacket ++ ds.filter isOther).Perm
          (d :: (ds.filter isInterface ++ ds.filter isPacket ++ ds.filter isOther)) := by
        rw [List.append_assoc, List.append_assoc]
        exact List.perm_middle
      exact hmid.trans (hrest.cons d)
    | raw x y =>
      simp only [List.filter_cons, Decoded.isInterface, Decoded.isPacket, Decoded.isOther, hb]
      exact List.perm_middle.trans (hrest.cons d)

/-- `reorder` keeps the promise. -/
theorem sectionReordered {ds : List Decoded} (h : IsSection ds) :
    SectionReordered ds (reorder ds) := by
  refine ⟨?_, _, stablySorted_sortByKey timestamp (packets ds), rfl⟩
  calc reorder ds
      = prefixOf ds ++ (lateInterfaces ds ++ sortByKey timestamp (packets ds) ++ others ds) := by
        rw [reorder, List.append_assoc, List.append_assoc, List.append_assoc]
    _ ~ prefixOf ds ++ (lateInterfaces ds ++ packets ds ++ others ds) :=
        (((sortByKey_perm timestamp (packets ds)).append_left _).append_right _).append_left _
    _ ~ prefixOf ds ++ behind ds := (perm_kinds h.inSection_behind).append_left _
    _ = ds := prefixOf_append_behind ds

end Reordercap
end Maja
