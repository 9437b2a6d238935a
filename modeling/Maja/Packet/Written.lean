/-
# What the builders write

`measure` fixes the length of a header, and `write` fills it in: the fields of the
protocol, then the bytes that the caller gave, then zeros.  `Describes` says this of a
header to the last bit.  A checksum is calculated over bytes in which every other
field has its value already, so the stored one is right.
-/

import Maja.Packet.Builders
import Maja.Packet.Crafted
import Maja.Packet.Rfc1071

namespace Maja
namespace Packet

open Lib

/-! ### The fields of a header -/

def EthViewer.fields : List Field := [dst, src, ethType]

def Ipv4Viewer.fields : List Field :=
  [version, ihl, dscp, ecn, totalLength, identification, flags, fragmentOffset, ttl, protocol,
    checksum, src, dst]

def TcpViewer.fields : List Field :=
  [srcPort, dstPort, seqNum, ackNum, dataOffset, flags, windowSize, checksum, urgentPointer]

def UdpViewer.fields : List Field := [srcPort, dstPort, length, checksum]

def IcmpViewer.fields : List Field := [messageType, code, checksum, identifier, sequence]

namespace Builder

/-- `CraftLayer::protocol`. -/
def protocol : Builder → Protocol
  | eth _ => .eth
  | ipv4 _ => .ipv4
  | tcp _ => .tcp
  | udp _ => .udp
  | icmpEcho _ => .icmp
  | raw _ => .raw

/-- The layer of a builder is of its protocol. -/
theorem layer_protocol (checks : Bool) (b : Builder) : (b.layer checks).protocol = b.protocol := by
  cases b <;> rfl

/-- The fields that a builder sets. -/
def fields : Builder → List Field
  | eth _ => EthViewer.fields
  | ipv4 _ => Ipv4Viewer.fields
  | tcp _ => TcpViewer.fields
  | udp _ => UdpViewer.fields
  | icmpEcho _ => IcmpViewer.fields
  | raw _ => []

/-- The fields that a builder sets above a child, with their values. -/
def puts (b : Builder) (plan : CraftPlan) (child : Option Protocol) : List (Field × ℕ) :=
  match b with
  | eth b => b.puts child
  | ipv4 b => b.puts plan.layerLen plan.totalLen child
  | tcp b => b.puts plan.layerLen
  | udp b => b.puts plan.totalLen
  | icmpEcho b => b.puts
  | raw _ => []

/-- The field of a header that holds its checksum. -/
def checksumField : Builder → Option Field
  | eth _ => none
  | ipv4 _ => some Ipv4Viewer.checksum
  | tcp _ => some TcpViewer.checksum
  | udp _ => some UdpViewer.checksum
  | icmpEcho _ => some IcmpViewer.checksum
  | raw _ => none

/-- The bytes of a header that hold its fields. -/
def fixedLen : Builder → ℕ
  | eth _ => 14
  | ipv4 _ => 20
  | tcp _ => 20
  | udp _ => 8
  | icmpEcho _ => 8
  | raw _ => 0

/-- The bytes of the caller behind them: options, or a payload. -/
def tail : Builder → List UInt8
  | eth _ => []
  | ipv4 b => b.options
  | tcp b => b.options
  | udp _ => []
  | icmpEcho _ => []
  | raw b => b.bytes

/-- A builder sets all of its fields. -/
theorem map_puts (b : Builder) (plan : CraftPlan) (child : Option Protocol) :
    (b.puts plan child).map Prod.fst = b.fields := by
  cases b <;> rfl

/-- The fields of a builder are regular. -/
theorem fields_regular (b : Builder) : ∀ f ∈ b.fields, f.Regular := by
  cases b with
  | eth => exact (by decide : ∀ f ∈ EthViewer.fields, f.Regular)
  | ipv4 => exact (by decide : ∀ f ∈ Ipv4Viewer.fields, f.Regular)
  | tcp => exact (by decide : ∀ f ∈ TcpViewer.fields, f.Regular)
  | udp => exact (by decide : ∀ f ∈ UdpViewer.fields, f.Regular)
  | icmpEcho => exact (by decide : ∀ f ∈ IcmpViewer.fields, f.Regular)
  | raw => simp [fields]

/-- The fields of a builder lie apart. -/
theorem fields_apart (b : Builder) : b.fields.Pairwise Field.Apart := by
  cases b with
  | eth => exact (by decide : EthViewer.fields.Pairwise Field.Apart)
  | ipv4 => exact (by decide : Ipv4Viewer.fields.Pairwise Field.Apart)
  | tcp => exact (by decide : TcpViewer.fields.Pairwise Field.Apart)
  | udp => exact (by decide : UdpViewer.fields.Pairwise Field.Apart)
  | icmpEcho => exact (by decide : IcmpViewer.fields.Pairwise Field.Apart)
  | raw => exact .nil

/-- The fields of a builder lie inside its fixed part. -/
theorem fields_hi (b : Builder) : ∀ f ∈ b.fields, f.hi ≤ b.fixedLen := by
  cases b with
  | eth => exact (by decide : ∀ f ∈ EthViewer.fields, f.hi ≤ 14)
  | ipv4 => exact (by decide : ∀ f ∈ Ipv4Viewer.fields, f.hi ≤ 20)
  | tcp => exact (by decide : ∀ f ∈ TcpViewer.fields, f.hi ≤ 20)
  | udp => exact (by decide : ∀ f ∈ UdpViewer.fields, f.hi ≤ 8)
  | icmpEcho => exact (by decide : ∀ f ∈ IcmpViewer.fields, f.hi ≤ 8)
  | raw => simp [fields]

/-- What a builder sets is one of its fields. -/
theorem put_mem {b : Builder} {plan : CraftPlan} {child : Option Protocol} {put : Field × ℕ}
    (h : put ∈ b.puts plan child) : put.1 ∈ b.fields :=
  map_puts b plan child ▸ List.mem_map_of_mem h

end Builder

/-! ### Measuring -/

section Measure

variable {protocol field reason : String} {options : List UInt8} {given : Option UInt8}
  {length : Option UInt16} {checks : Bool} {b : Builder} {context : CraftContext}
  {child : Option (CraftChildPlan Protocol)} {plan : CraftPlan} {n len : ℕ}

/-- A length that passes the check fits 16 bits. -/
theorem checkedU16Len_eq_ok (h : checkedU16Len protocol field len = .ok n) :
    n = len ∧ len ≤ 0xFFFF := by
  unfold checkedU16Len at h
  split_ifs at h with hle
  exact ⟨(Outcome.ok.inj h).symm, hle⟩

/-- A header of words has room for its options. -/
theorem measureWords_eq_ok (h : measureWords protocol field reason options given = .ok n) :
    ∃ words, n = words * 4 ∧ 5 ≤ words ∧ words ≤ 15 ∧ 20 + options.length ≤ n := by
  obtain ⟨minHeaderLen, hmin, h⟩ := Outcome.bind_eq_ok.1 h
  obtain rfl := checkedAddLen_eq_ok hmin
  dsimp only at h
  split_ifs at h with hlow hhigh hroom
  obtain rfl := Outcome.ok.inj h
  rw [UInt8.lt_iff_toNat_lt] at hlow
  rw [gt_iff_lt, UInt8.lt_iff_toNat_lt] at hhigh
  refine ⟨_, rfl, Nat.le_of_not_lt hlow, Nat.le_of_not_lt hhigh, ?_⟩
  omega

/-- A header of given words is as long as they say. -/
theorem measureWords_of_given {words : UInt8}
    (h : measureWords protocol field reason options (some words) = .ok n) :
    n = words.toNat * 4 ∧ words.toNat ≤ 15 := by
  obtain ⟨minHeaderLen, -, h⟩ := Outcome.bind_eq_ok.1 h
  dsimp only [Option.getD_some] at h
  split_ifs at h with hlow hhigh hroom
  obtain rfl := Outcome.ok.inj h
  rw [gt_iff_lt, UInt8.lt_iff_toNat_lt] at hhigh
  exact ⟨rfl, Nat.le_of_not_lt hhigh⟩

/-- A length that is given is the length that is measured. -/
theorem measureLength_of_given {given : UInt16}
    (h : measureLength protocol field (some given) len = .ok n) : n = given.toNat := by
  unfold measureLength at h
  dsimp only at h
  split_ifs at h with heq
  exact (Outcome.ok.inj h).symm

/-- A length that is measured is the length, and fits 16 bits. -/
theorem measureLength_eq_ok (h : measureLength protocol field length len = .ok n) :
    n = len ∧ len ≤ 0xFFFF := by
  unfold measureLength at h
  cases length with
  | none => exact checkedU16Len_eq_ok h
  | some given =>
    dsimp only at h
    split_ifs at h with heq
    obtain rfl := Outcome.ok.inj h
    have hlt := given.toNat_lt
    exact ⟨heq, by omega⟩

/-- What a builder measures: the header has room for its fields and for the bytes of
the caller, and ends where the child starts. -/
structure Builder.Plans (b : Builder) (child : Option (CraftChildPlan Protocol))
    (plan : CraftPlan) : Prop where
  total : plan.totalLen = plan.layerLen + childLen child
  room : b.fixedLen + b.tail.length ≤ plan.layerLen

/-- **Every builder plans exactly**: no byte is left between a header and its
child, or behind the child. -/
theorem Builder.measure_plans (h : (b.layer checks).measure context child = .ok plan) :
    b.Plans child plan := by
  cases b with
  | eth b =>
    obtain ⟨total, htotal, h⟩ := Outcome.bind_eq_ok.1 h
    obtain rfl := Outcome.ok.inj h
    exact ⟨checkedAddLen_eq_ok htotal, le_rfl⟩
  | ipv4 b =>
    obtain ⟨headerLen, hheader, h⟩ := Outcome.bind_eq_ok.1 h
    obtain ⟨generated, hgenerated, h⟩ := Outcome.bind_eq_ok.1 h
    obtain ⟨total, htotal, h⟩ := Outcome.bind_eq_ok.1 h
    obtain rfl := Outcome.ok.inj h
    obtain ⟨words, -, -, -, hroom⟩ := measureWords_eq_ok hheader
    exact ⟨(measureLength_eq_ok htotal).1.trans (checkedAddLen_eq_ok hgenerated), hroom⟩
  | tcp b =>
    obtain ⟨headerLen, hheader, h⟩ := Outcome.bind_eq_ok.1 h
    obtain ⟨segmentLen, hsegment, h⟩ := Outcome.bind_eq_ok.1 h
    obtain ⟨_, -, h⟩ := Outcome.bind_eq_ok.1 h
    obtain rfl := Outcome.ok.inj h
    obtain ⟨words, -, -, -, hroom⟩ := measureWords_eq_ok hheader
    exact ⟨checkedAddLen_eq_ok hsegment, hroom⟩
  | udp b =>
    obtain ⟨generated, hgenerated, h⟩ := Outcome.bind_eq_ok.1 h
    obtain ⟨total, htotal, h⟩ := Outcome.bind_eq_ok.1 h
    obtain rfl := Outcome.ok.inj h
    exact ⟨(measureLength_eq_ok htotal).1.trans (checkedAddLen_eq_ok hgenerated), le_rfl⟩
  | icmpEcho b =>
    obtain ⟨_, -, h⟩ := Outcome.bind_eq_ok.1 h
    obtain ⟨total, htotal, h⟩ := Outcome.bind_eq_ok.1 h
    obtain rfl := Outcome.ok.inj h
    exact ⟨checkedAddLen_eq_ok htotal, le_rfl⟩
  | raw b =>
    cases child with
    | some child => cases h
    | none =>
      obtain rfl := Outcome.ok.inj h
      exact ⟨rfl, (Nat.zero_add _).le⟩

/-- A header of four-bit length is 5 to 15 words long. -/
def Builder.HasWords (b : Builder) (plan : CraftPlan) : Prop :=
  match b with
  | ipv4 _ | tcp _ => ∃ words, plan.layerLen = words * 4 ∧ 5 ≤ words ∧ words ≤ 15
  | b => plan.layerLen = b.fixedLen + b.tail.length

/-- A header that is measured in words is as long as they say. -/
theorem Builder.measure_hasWords (h : (b.layer checks).measure context child = .ok plan) :
    b.HasWords plan := by
  cases b with
  | ipv4 b =>
    obtain ⟨headerLen, hheader, h⟩ := Outcome.bind_eq_ok.1 h
    obtain ⟨generated, -, h⟩ := Outcome.bind_eq_ok.1 h
    obtain ⟨total, -, h⟩ := Outcome.bind_eq_ok.1 h
    obtain rfl := Outcome.ok.inj h
    obtain ⟨words, hwords, hlow, hhigh, -⟩ := measureWords_eq_ok hheader
    exact ⟨words, hwords, hlow, hhigh⟩
  | tcp b =>
    obtain ⟨headerLen, hheader, h⟩ := Outcome.bind_eq_ok.1 h
    obtain ⟨segmentLen, -, h⟩ := Outcome.bind_eq_ok.1 h
    obtain ⟨_, -, h⟩ := Outcome.bind_eq_ok.1 h
    obtain rfl := Outcome.ok.inj h
    obtain ⟨words, hwords, hlow, hhigh, -⟩ := measureWords_eq_ok hheader
    exact ⟨words, hwords, hlow, hhigh⟩
  | eth b =>
    obtain ⟨total, -, h⟩ := Outcome.bind_eq_ok.1 h
    obtain rfl := Outcome.ok.inj h
    rfl
  | udp b =>
    obtain ⟨generated, -, h⟩ := Outcome.bind_eq_ok.1 h
    obtain ⟨total, -, h⟩ := Outcome.bind_eq_ok.1 h
    obtain rfl := Outcome.ok.inj h
    rfl
  | icmpEcho b =>
    obtain ⟨_, -, h⟩ := Outcome.bind_eq_ok.1 h
    obtain ⟨total, -, h⟩ := Outcome.bind_eq_ok.1 h
    obtain rfl := Outcome.ok.inj h
    rfl
  | raw b =>
    cases child with
    | some child => cases h
    | none =>
      obtain rfl := Outcome.ok.inj h
      exact (Nat.zero_add _).symm

/-- A length that is stored in sixteen bits fits them. -/
theorem Builder.measure_le (h : (b.layer checks).measure context child = .ok plan)
    (hb : b.protocol = .ipv4 ∨ b.protocol = .tcp ∨ b.protocol = .udp) : plan.totalLen ≤ 0xFFFF := by
  cases b with
  | ipv4 b =>
    obtain ⟨headerLen, -, h⟩ := Outcome.bind_eq_ok.1 h
    obtain ⟨generated, -, h⟩ := Outcome.bind_eq_ok.1 h
    obtain ⟨total, htotal, h⟩ := Outcome.bind_eq_ok.1 h
    obtain rfl := Outcome.ok.inj h
    obtain ⟨heq, hle⟩ := measureLength_eq_ok htotal
    exact heq.trans_le hle
  | tcp b =>
    obtain ⟨headerLen, -, h⟩ := Outcome.bind_eq_ok.1 h
    obtain ⟨segmentLen, -, h⟩ := Outcome.bind_eq_ok.1 h
    obtain ⟨_, hlength, h⟩ := Outcome.bind_eq_ok.1 h
    obtain rfl := Outcome.ok.inj h
    exact (checkedU16Len_eq_ok hlength).2
  | udp b =>
    obtain ⟨generated, -, h⟩ := Outcome.bind_eq_ok.1 h
    obtain ⟨total, htotal, h⟩ := Outcome.bind_eq_ok.1 h
    obtain rfl := Outcome.ok.inj h
    obtain ⟨heq, hle⟩ := measureLength_eq_ok htotal
    exact heq.trans_le hle
  | eth => simp [protocol] at hb
  | icmpEcho => simp [protocol] at hb
  | raw => simp [protocol] at hb

/-- A payload has no child. -/
theorem measure_raw {b : RawBuilder} {next : Option (CraftChildPlan Protocol)}
    (h : b.measure next = .ok plan) :
    next = none ∧ plan.layerLen = b.bytes.length ∧ plan.totalLen = b.bytes.length := by
  unfold RawBuilder.measure at h
  split_ifs at h with hnext
  obtain rfl := Outcome.ok.inj h
  exact ⟨Option.not_isSome_iff_eq_none.1 hnext, rfl, rfl⟩

end Measure

/-! ### Writing -/

/-- A header to the last bit: the fields read as they were set, cut to their widths;
bits of no field are zero; the caller's bytes follow, and zeros.  Of the checksum
nothing is said. -/
structure Describes (puts : List (Field × ℕ)) (checksum : Option Field) (fixedLen : ℕ)
    (tail header : List UInt8) : Prop where
  fields : ∀ put ∈ puts, (∀ f ∈ checksum, put.1.Apart f) →
    put.1.peek header = put.2 % 2 ^ put.1.width
  unused : ∀ k < 8 * fixedLen,
    (∀ put ∈ puts, ¬(put.1.first ≤ k ∧ k < put.1.first + put.1.width)) → netBit header k = false
  tail : header.drop fixedLen =
    tail ++ List.replicate (header.length - fixedLen - tail.length) 0

/-- A header before its fields are set. -/
def blankHeader (fixedLen : ℕ) (tail : List UInt8) (len : ℕ) : List UInt8 :=
  List.replicate fixedLen 0 ++ (tail ++ List.replicate (len - fixedLen - tail.length) 0)

section Write

variable {n fixedLen lo value : ℕ} {tail slice bytes written header : List UInt8}
  {puts : List (Field × ℕ)} {field f : Field} {checksum : List UInt8 → Outcome CraftError ℕ}

/-- A blank header is as long as was planned. -/
theorem length_blankHeader (h : fixedLen + tail.length ≤ n) :
    (blankHeader fixedLen tail n).length = n := by
  simp only [blankHeader, List.length_append, List.length_replicate]
  omega

/-- A blank header without a tail is zero. -/
theorem blankHeader_nil (n : ℕ) : blankHeader n [] n = List.replicate n 0 := by
  simp [blankHeader]

/-- Options are copied into a blank header. -/
theorem copyOptions_blank (hroom : lo + tail.length ≤ n) (hn : n ≤ bytes.length)
    (hblank : bytes.take n = List.replicate n 0)
    (h : editSlice lo (lo + tail.length) (copyFromSlice tail) bytes = .ok written) :
    written.take n = blankHeader lo tail n ∧ written.drop n = bytes.drop n := by
  have hagree := copyOptions_agrees h
  obtain ⟨-, -, edited, hedited, rfl⟩ := editSlice_eq_ok h
  unfold copyFromSlice at hedited
  split_ifs at hedited
  obtain rfl := Outcome.ok.inj hedited
  have hlow : bytes.take lo = List.replicate lo 0 := by
    have htake := congrArg (List.take lo) hblank
    rwa [List.take_take, Nat.min_eq_left (by omega), List.take_replicate,
      Nat.min_eq_left (by omega)] at htake
  have hhigh : (bytes.drop (lo + tail.length)).take (n - lo - tail.length) =
      List.replicate (n - lo - tail.length) 0 := by
    have hdrop := congrArg (List.drop (lo + tail.length)) hblank
    rw [List.drop_take, List.drop_replicate] at hdrop
    rwa [Nat.sub_sub]
  have hlength : (bytes.take lo ++ tail).length = lo + tail.length := by
    rw [List.length_append, List.length_take_of_le (by omega)]
  refine ⟨?_, hagree.drop_eq fun k hk hmem => absurd hmem.2 (by omega)⟩
  rw [List.take_append, hlength, List.take_of_length_le (by omega), ← Nat.sub_sub, hhigh, hlow,
    blankHeader, List.append_assoc]

/-- What `write` does with a header: fill it in, calculate, and store. -/
theorem writeChecksummed_eq_ok (h : writeChecksummed n puts field checksum bytes = .ok written) :
    n ≤ bytes.length ∧ ∃ filled value header,
      (putAll puts (bytes.take n) : Outcome CraftError _) = .ok filled ∧
      checksum (filled ++ bytes.drop n) = .ok value ∧
      (field.put filled value : Outcome CraftError _) = .ok header ∧
      written = header ++ bytes.drop n ∧ filled.length = n := by
  obtain ⟨filled, hfilled, h⟩ := Outcome.bind_eq_ok.1 h
  obtain ⟨value, hvalue, h⟩ := Outcome.bind_eq_ok.1 h
  obtain ⟨-, hn, filled, hputs, rfl⟩ := editSlice_eq_ok hfilled
  obtain ⟨-, -, header, hheader, rfl⟩ := editSlice_eq_ok h
  rw [List.drop_zero, Nat.sub_zero] at hputs
  rw [List.take_zero, List.nil_append] at hvalue
  have hlength : filled.length = n := by
    rw [length_putAll hputs, List.length_take_of_le hn]
  rw [List.drop_zero, Nat.sub_zero, List.take_zero, List.nil_append,
    List.take_left' hlength] at hheader
  refine ⟨hn, filled, value, header, hputs, hvalue, hheader, ?_, hlength⟩
  rw [List.take_zero, List.take_zero, List.nil_append, List.nil_append, List.drop_left' hlength]

/-- The fields of a blank header, set. -/
theorem describes_of_putAll (hregular : ∀ put ∈ puts, put.1.Regular)
    (hapart : (puts.map Prod.fst).Pairwise Field.Apart) (hhi : ∀ put ∈ puts, put.1.hi ≤ fixedLen)
    (hroom : fixedLen + tail.length ≤ n)
    (h : (putAll puts (blankHeader fixedLen tail n) : Outcome CraftError _) = .ok header) :
    Describes puts none fixedLen tail header := by
  have hlength := (length_putAll h).trans (length_blankHeader hroom)
  refine ⟨fun put hput _ => peek_putAll hregular hapart h hput, fun k hk hout => ?_, ?_⟩
  · rw [netBit_putAll hregular hout h, blankHeader, netBit_append_left (by simpa using hk), netBit,
      List.getD_replicate _ (by omega)]
    simp
  · rw [(putAll_agrees hhi h).drop_eq fun k hk hmem => absurd hmem.2 (by omega), blankHeader,
      List.drop_left' (List.length_replicate), hlength]

/-- A checksum stored in a header changes nothing else there. -/
theorem Describes.store (h : Describes puts none fixedLen tail header)
    (hregular : ∀ put ∈ puts, put.1.Regular)
    (hmem : ∃ v, (f, v) ∈ puts) (hhi : ∀ put ∈ puts, put.1.hi ≤ fixedLen)
    (hlen : fixedLen ≤ header.length) {header' : List UInt8}
    (hput : (f.put header value : Outcome CraftError _) = .ok header') :
    Describes puts (some f) fixedLen tail header' := by
  obtain ⟨v, hmem⟩ := hmem
  have hf := hregular _ hmem
  have hagree := (Field.put_eq_ok hput).2
  refine ⟨fun put hmem' hapart => ?_, fun k hk hout => ?_, ?_⟩
  · have hfits := put.1.fits
    have hput' := hhi put hmem'
    rw [Field.peek_put_of_apart hf (hregular put hmem') (hapart f rfl).symm (by omega) hput]
    exact h.fields put hmem' (by simp)
  · rw [Field.netBit_put hf hput, if_neg (hout _ hmem)]
    exact h.unused k hk hout
  · have hfhi : f.hi ≤ fixedLen := hhi _ hmem
    rw [hagree.drop_eq fun k hk hmem => absurd hmem.2 (by omega), hagree.length]
    exact h.tail

end Write

/-! ### What each builder leaves in its span -/

/-- The checksum that a builder stores, from the bytes with every other field set. -/
def Builder.checksumOf (checks : Bool) (b : Builder) (context : CraftContext) (plan : CraftPlan)
    (bytes : List UInt8) : Outcome CraftError ℕ :=
  match b with
  | eth _ => pure 0
  | ipv4 b => givenOr b.checksum do
    let header ← Outcome.slice bytes 0 plan.layerLen
    Ipv4Viewer.calculateChecksum checks header
  | tcp b => givenOr b.checksum <| withParent context fun src dst =>
    TcpViewer.calculateChecksumIpv4 checks src dst bytes
  | udp b => givenOr b.checksum <| withParent context fun src dst =>
    UdpViewer.calculateChecksumIpv4 checks src dst bytes
  | icmpEcho b => givenOr b.checksum (IcmpViewer.calculateChecksum checks bytes)
  | raw _ => pure 0

/-- The steps of a `write` with a checksum: the header is filled in, and the checksum
is calculated and stored. -/
structure Builder.Stores (checks : Bool) (b : Builder) (context : CraftContext) (plan : CraftPlan)
    (child : Option Protocol) (field : Field) (behind filled : List UInt8) (value : ℕ)
    (header : List UInt8) : Prop where
  described : Describes (b.puts plan child) none b.fixedLen b.tail filled
  length : filled.length = plan.layerLen
  calculated : b.checksumOf checks context plan (filled ++ behind) = .ok value
  stored : (field.put filled value : Outcome CraftError _) = .ok header

section Builders

variable {checks : Bool} {b : Builder} {context : CraftContext}
  {childPlan : Option (CraftChildPlan Protocol)} {child : Option (CraftChild Protocol)}
  {plan : CraftPlan} {slice written : List UInt8} {field : Field}

/-- Filling in a header that is blank but for the bytes of the caller. -/
theorem Builder.stores_of_write {puts : List (Field × ℕ)} {prot : Option Protocol}
    {checksum : List UInt8 → Outcome CraftError ℕ}
    (hputs : puts = b.puts plan prot) (hplans : b.Plans childPlan plan)
    (hchecksum : checksum = b.checksumOf checks context plan)
    (hblank : slice.take plan.layerLen = blankHeader b.fixedLen b.tail plan.layerLen)
    (h : writeChecksummed plan.layerLen puts field checksum slice = .ok written) :
    ∃ filled value header,
      b.Stores checks context plan prot field (slice.drop plan.layerLen) filled value header ∧
      written = header ++ slice.drop plan.layerLen := by
  subst hputs hchecksum
  obtain ⟨-, filled, value, header, hfilled, hvalue, hheader, rfl, hlength⟩ :=
    writeChecksummed_eq_ok h
  rw [hblank] at hfilled
  have hdescribed := describes_of_putAll (fun put hput => b.fields_regular _ (put_mem hput))
    (by rw [b.map_puts]; exact b.fields_apart) (fun put hput => b.fields_hi _ (put_mem hput))
    hplans.room hfilled
  exact ⟨filled, value, header, ⟨hdescribed, hlength, hvalue, hheader⟩, rfl⟩

/-- **What a `write` with a checksum does.** -/
theorem Builder.write_stores (hmeasure : (b.layer checks).measure context childPlan = .ok plan)
    (hblank : slice.take plan.layerLen = List.replicate plan.layerLen 0)
    (hfits : plan.layerLen ≤ slice.length) (hfield : b.checksumField = some field)
    (h : (b.layer checks).write context plan child slice = .ok written) :
    ∃ filled value header, b.Stores checks context plan (childProtocol child) field
        (slice.drop plan.layerLen) filled value header ∧
      written = header ++ slice.drop plan.layerLen := by
  have hplans := measure_plans hmeasure
  have hwords := measure_hasWords hmeasure
  cases b with
  | eth b => cases hfield
  | raw b => cases hfield
  | ipv4 b =>
    obtain rfl := Option.some.inj hfield
    obtain ⟨total, htotal, h⟩ := Outcome.bind_eq_ok.1 h
    obtain ⟨copied, hcopied, h⟩ := Outcome.bind_eq_ok.1 h
    obtain rfl := (checkedU16Len_eq_ok htotal).1
    obtain ⟨htake, hdrop⟩ := copyOptions_blank hplans.room hfits hblank hcopied
    rw [← hdrop]
    exact stores_of_write rfl hplans rfl htake h
  | tcp b =>
    obtain rfl := Option.some.inj hfield
    obtain ⟨copied, hcopied, h⟩ := Outcome.bind_eq_ok.1 h
    obtain ⟨htake, hdrop⟩ := copyOptions_blank hplans.room hfits hblank hcopied
    rw [← hdrop]
    exact stores_of_write rfl hplans rfl htake h
  | udp b =>
    obtain rfl := Option.some.inj hfield
    obtain ⟨length, hlength, h⟩ := Outcome.bind_eq_ok.1 h
    obtain rfl := (checkedU16Len_eq_ok hlength).1
    have hlayer : plan.layerLen = 8 := hwords
    refine stores_of_write rfl hplans rfl (hblank.trans ?_) (hlayer ▸ h)
    rw [hlayer]
    exact (blankHeader_nil 8).symm
  | icmpEcho b =>
    obtain rfl := Option.some.inj hfield
    have hlayer : plan.layerLen = 8 := hwords
    refine stores_of_write rfl hplans rfl (hblank.trans ?_) (hlayer ▸ h)
    rw [hlayer]
    exact (blankHeader_nil 8).symm

/-- **What any `write` leaves**: the header of the builder, and the bytes behind it. -/
theorem Builder.write_describes (hmeasure : (b.layer checks).measure context childPlan = .ok plan)
    (hblank : slice.take plan.layerLen = List.replicate plan.layerLen 0)
    (hfits : plan.layerLen ≤ slice.length)
    (h : (b.layer checks).write context plan child slice = .ok written) :
    ∃ header,
      Describes (b.puts plan (childProtocol child)) b.checksumField b.fixedLen b.tail header ∧
      header.length = plan.layerLen ∧ written = header ++ slice.drop plan.layerLen := by
  have hplans := measure_plans hmeasure
  have hwords := measure_hasWords hmeasure
  have hregular : ∀ put ∈ b.puts plan (childProtocol child), put.1.Regular := fun put hput =>
    b.fields_regular _ (put_mem hput)
  have hhi : ∀ put ∈ b.puts plan (childProtocol child), put.1.hi ≤ b.fixedLen := fun put hput =>
    b.fields_hi _ (put_mem hput)
  cases hfield : b.checksumField with
  | some field =>
    obtain ⟨filled, value, header, hstores, rfl⟩ :=
      write_stores hmeasure hblank hfits hfield h
    have hmem : field ∈ b.fields := by
      cases b <;> simp [checksumField, fields, Ipv4Viewer.fields, TcpViewer.fields,
        UdpViewer.fields, IcmpViewer.fields] at hfield ⊢ <;> simp [hfield]
    rw [← map_puts b plan (childProtocol child)] at hmem
    obtain ⟨⟨f, v⟩, hput, rfl⟩ := List.mem_map.1 hmem
    have hroom := hplans.room
    have hlength := hstores.length
    exact ⟨header, hstores.described.store hregular ⟨v, hput⟩ hhi (by omega) hstores.stored,
      (Field.put_eq_ok hstores.stored).2.length.trans hlength, rfl⟩
  | none =>
    cases b with
    | eth b =>
      have hlayer : plan.layerLen = 14 := hwords
      obtain ⟨-, -, header, hheader, rfl⟩ := editSlice_eq_ok h
      rw [List.drop_zero, Nat.sub_zero, ← hlayer, hblank, hlayer, ← blankHeader_nil] at hheader
      have hapart : ((Builder.eth b).puts plan (childProtocol child)).map Prod.fst |>.Pairwise
          Field.Apart := by
        rw [map_puts]
        exact fields_apart _
      refine ⟨header, describes_of_putAll hregular hapart hhi le_rfl hheader, ?_, ?_⟩
      · rw [length_putAll hheader, blankHeader_nil, List.length_replicate, hlayer]
      · rw [List.take_zero, List.nil_append, hlayer]
    | raw b =>
      have hlayer : plan.layerLen = b.bytes.length := hwords.trans (Nat.zero_add _)
      have hcopy : copyFromSlice b.bytes slice = .ok written := h
      unfold copyFromSlice at hcopy
      split_ifs at hcopy with hlength
      obtain rfl := Outcome.ok.inj hcopy
      refine ⟨b.bytes, ⟨by simp [puts], by simp [fixedLen], ?_⟩, hlayer.symm, ?_⟩
      · simp [fixedLen, tail]
      · rw [List.drop_of_length_le (by omega), List.append_nil]
    | ipv4 b => cases hfield
    | tcp b => cases hfield
    | udp b => cases hfield
    | icmpEcho b => cases hfield

/-- Every builder keeps to its header. -/
theorem Builder.keepsToHeader (checks : Bool) (b : Builder) :
    (b.layer checks).KeepsToHeader := by
  intro context childPlan plan child bytes written hmeasure h
  have hplans := measure_plans hmeasure
  have hwords := measure_hasWords hmeasure
  have hroom := hplans.room
  cases b with
  | eth b =>
    have hlayer : plan.layerLen = 14 := hwords
    rw [hlayer]
    exact editSlice_agrees length_putAll h
  | ipv4 b =>
    obtain ⟨total, -, h⟩ := Outcome.bind_eq_ok.1 h
    obtain ⟨copied, hcopied, h⟩ := Outcome.bind_eq_ok.1 h
    refine ((copyOptions_agrees hcopied).mono fun k hk => ?_).trans (writeChecksummed_agrees h)
    exact ⟨Nat.zero_le k, hk.2.trans_le hroom⟩
  | tcp b =>
    obtain ⟨copied, hcopied, h⟩ := Outcome.bind_eq_ok.1 h
    refine ((copyOptions_agrees hcopied).mono fun k hk => ?_).trans (writeChecksummed_agrees h)
    exact ⟨Nat.zero_le k, hk.2.trans_le hroom⟩
  | udp b =>
    obtain ⟨length, -, h⟩ := Outcome.bind_eq_ok.1 h
    have hlayer : plan.layerLen = 8 := hwords
    rw [hlayer]
    exact writeChecksummed_agrees h
  | icmpEcho b =>
    have hlayer : plan.layerLen = 8 := hwords
    rw [hlayer]
    exact writeChecksummed_agrees h
  | raw b =>
    have hlength : plan.layerLen = b.bytes.length := hwords.trans (Nat.zero_add _)
    have hcopy : copyFromSlice b.bytes bytes = .ok written := h
    have hsame := length_copyFromSlice hcopy
    unfold copyFromSlice at hcopy
    split_ifs at hcopy with hsize
    refine ⟨hsame, fun k hk => ?_⟩
    have hout : plan.layerLen ≤ k := Nat.le_of_not_lt fun hlt => hk ⟨Nat.zero_le k, hlt⟩
    rw [List.getElem?_eq_none (by omega), List.getElem?_eq_none (by omega)]

end Builders

end Packet
end Maja
