/-
# Checksums

`src/packet/utils/checksum.rs`, and the checksums of the viewers of IPv4, TCP, UDP
and ICMPv6.  The accumulator is a `u32`, added to by plain operators; `checks`
says whether the build has overflow checks.  An address is the number that its
field is read as.

A checksum does not depend on the bytes of the field that stores it, so what is
calculated stays right when it is stored (`addWordsZeroing_congr`).
-/

import Maja.Packet.Ip
import Maja.Packet.Transport

namespace Maja
namespace Packet

open Lib

variable {ε : Type}

/-! ### The Internet checksum -/

/-- `add_words`. -/
def addWords (checks : Bool) : ℕ → List UInt8 → Outcome ε ℕ
  | sum, high :: low :: data => do
    let sum ← U32.arith checks (sum + beNat [high, low])
    addWords checks sum data
  | sum, [high] => U32.arith checks (sum + beNat [high, 0])
  | sum, [] => .ok sum

/-- A byte, or zero in the zeroed range. -/
def unlessZeroed (zeroed : ℕ × ℕ) (index : ℕ) (b : UInt8) : UInt8 :=
  if zeroed.1 ≤ index ∧ index < zeroed.2 then 0 else b

/-- `add_words_zeroing`, over the data from `index` on. -/
def addWordsZeroing (checks : Bool) (zeroed : ℕ × ℕ) : ℕ → ℕ → List UInt8 → Outcome ε ℕ
  | index, sum, high :: low :: data => do
    let word := beNat [unlessZeroed zeroed index high, unlessZeroed zeroed (index + 1) low]
    let sum ← U32.arith checks (sum + word)
    addWordsZeroing checks zeroed (index + 2) sum data
  | index, sum, [high] => U32.arith checks (sum + beNat [unlessZeroed zeroed index high, 0])
  | _, sum, [] => .ok sum

/-- The loop of `fold_checksum`. -/
def foldSum : ℕ → ℕ → ℕ
  | 0, sum => sum
  | fuel + 1, sum =>
    if sum >>> 16 ≠ 0 then foldSum fuel ((sum &&& 0xFFFF) + (sum >>> 16)) else sum

/-- `fold_checksum`. -/
def foldChecksum (sum : ℕ) : ℕ := 0xFFFF - foldSum sum sum % 2 ^ 16

/-- `internet_checksum_zeroing`. -/
def internetChecksumZeroing (checks : Bool) (data : List UInt8) (zeroed : ℕ × ℕ) :
    Outcome ε ℕ := do
  let sum ← addWordsZeroing checks zeroed 0 0 data
  pure (foldChecksum sum)

/-- `ipv4_transport_checksum_zeroing`. -/
def ipv4TransportChecksumZeroing (checks : Bool) (src dst protocol : ℕ) (segment : List UInt8)
    (zeroed : ℕ × ℕ) : Outcome ε ℕ := do
  let sum ← addWords checks 0 (beBytes 4 src)
  let sum ← addWords checks sum (beBytes 4 dst)
  let sum ← U32.arith checks (sum + protocol)
  let sum ← U32.arith checks (sum + segment.length % 2 ^ 32)
  let sum ← addWordsZeroing checks zeroed 0 sum segment
  pure (foldChecksum sum)

/-- `ipv6_transport_checksum_zeroing`. -/
def ipv6TransportChecksumZeroing (checks : Bool) (src dst nextHeader : ℕ) (segment : List UInt8)
    (zeroed : ℕ × ℕ) : Outcome ε ℕ := do
  let sum ← addWords checks 0 (beBytes 16 src)
  let sum ← addWords checks sum (beBytes 16 dst)
  let sum ← U32.arith checks (sum + segment.length % 2 ^ 32)
  let sum ← U32.arith checks (sum + nextHeader)
  let sum ← addWordsZeroing checks zeroed 0 sum segment
  pure (foldChecksum sum)

/-- A checksum is a 16-bit word. -/
theorem foldChecksum_lt (sum : ℕ) : foldChecksum sum < 2 ^ 16 := by
  unfold foldChecksum
  omega

/-- Zeroing a range is adding the words of the data with that range set to zero. -/
theorem addWordsZeroing_eq (checks : Bool) (zeroed : ℕ × ℕ) (index sum : ℕ) (data : List UInt8) :
    (addWordsZeroing checks zeroed index sum data : Outcome ε ℕ) =
      addWords checks sum (data.mapIdx fun k b => unlessZeroed zeroed (index + k) b) := by
  induction index, sum, data using addWordsZeroing.induct zeroed with
  | case1 index sum high low data ih =>
      simp only [addWordsZeroing, List.mapIdx_cons, addWords, Nat.add_zero]
      refine congrArg _ (funext fun sum => ?_)
      rw [ih]
      congr 1
      refine congrFun (congrArg _ (funext fun k => funext fun b => ?_)) _
      rw [Nat.add_assoc, Nat.add_assoc, Nat.add_comm 2 k]
  | case2 index sum high => simp [addWordsZeroing, addWords]
  | case3 index sum => simp [addWordsZeroing, addWords]

/-- **Zeroing hides the range**: data that differ there have the same sum. -/
theorem addWordsZeroing_congr {checks : Bool} {zeroed : ℕ × ℕ} {sum : ℕ} {as bs : List UInt8}
    (h : AgreesOutside (Set.Ico zeroed.1 zeroed.2) as bs) :
    (addWordsZeroing checks zeroed 0 sum bs : Outcome ε ℕ) =
      addWordsZeroing checks zeroed 0 sum as := by
  rw [addWordsZeroing_eq, addWordsZeroing_eq]
  congr 1
  refine List.ext_getElem? fun k => ?_
  rw [List.getElem?_mapIdx, List.getElem?_mapIdx]
  by_cases hk : k ∈ Set.Ico zeroed.1 zeroed.2
  · -- both bytes are zeroed
    have hzero : ∀ b, unlessZeroed zeroed (0 + k) b = 0 := by
      intro b
      rw [Nat.zero_add]
      exact if_pos hk
    simp only [hzero]
    by_cases hlt : k < as.length
    · rw [List.getElem?_eq_getElem hlt, List.getElem?_eq_getElem (h.length.symm ▸ hlt)]
      rfl
    · rw [List.getElem?_eq_none (by rw [h.length]; omega), List.getElem?_eq_none (by omega)]
  · rw [h.getElem? k hk]

/-! ### Stored checksums -/

/-- The range of a field. -/
def Field.range (f : Field) : ℕ × ℕ := (f.lo, f.hi)

/-- A stored checksum is the calculated one. -/
def storedEquals (f : Field) (data : List UInt8) (calculated : Outcome ε ℕ) : Outcome ε Bool := do
  let stored ← f.get data
  let calculated ← calculated
  pure (stored = calculated)

/-- A calculation whose result may be stored in the field: a 16-bit word, which
does not depend on what the field holds. -/
structure StoresIn (f : Field) (calculate : List UInt8 → Outcome ε ℕ) : Prop where
  congr : ∀ as bs, AgreesOutside (Set.Ico f.lo f.hi) as bs → calculate bs = calculate as
  lt : ∀ data checksum, calculate data = .ok checksum → checksum < 2 ^ 16

/-- **What was calculated and then stored is right.** -/
theorem StoresIn.storedEquals {f : Field} {calculate : List UInt8 → Outcome ε ℕ}
    (h : StoresIn f calculate) (hsize : f.spec.size = 2) {data data' : List UInt8} {checksum : ℕ}
    (hagree : AgreesOutside (Set.Ico f.lo f.hi) data data')
    (hcalculate : calculate data = .ok checksum)
    (hget : (f.get data' : Outcome ε ℕ) = .ok (checksum % 256 ^ f.spec.size)) :
    Packet.storedEquals f data' (calculate data') = .ok true := by
  have hlt := h.lt data checksum hcalculate
  have hword : checksum % 256 ^ f.spec.size = checksum := by
    rw [hsize]
    exact Nat.mod_eq_of_lt hlt
  rw [Packet.storedEquals, hget, h.congr data data' hagree, hcalculate, hword]
  simp

/-- A field away from a change reads the same. -/
theorem Field.get_congr {f : Field} {S : Set ℕ} {as bs : List UInt8} (h : AgreesOutside S as bs)
    (hout : ∀ k, f.lo ≤ k → k < f.hi → k ∉ S) :
    (f.get bs : Outcome ε ℕ) = f.get as := by
  rw [Field.get, Field.get, h.slice_eq hout]

/-- `Ipv4Viewer::calculate_checksum`. -/
def Ipv4Viewer.calculateChecksum (checks : Bool) (data : List UInt8) : Outcome ε ℕ := do
  let headerLen ← headerLen data
  internetChecksumZeroing checks (data.take (min headerLen data.length)) checksum.range

/-- `Ipv4Viewer::validate_checksum`. -/
def Ipv4Viewer.validateChecksum (checks : Bool) (data : List UInt8) : Outcome ε Bool :=
  storedEquals checksum data (calculateChecksum checks data)

/-- `TcpViewer::calculate_checksum_ipv4`. -/
def TcpViewer.calculateChecksumIpv4 (checks : Bool) (src dst : ℕ) (data : List UInt8) :
    Outcome ε ℕ :=
  ipv4TransportChecksumZeroing checks src dst 6 data checksum.range

/-- `TcpViewer::validate_checksum_ipv4`. -/
def TcpViewer.validateChecksumIpv4 (checks : Bool) (src dst : ℕ) (data : List UInt8) :
    Outcome ε Bool :=
  storedEquals checksum data (calculateChecksumIpv4 checks src dst data)

/-- `TcpViewer::calculate_checksum_ipv6`. -/
def TcpViewer.calculateChecksumIpv6 (checks : Bool) (src dst : ℕ) (data : List UInt8) :
    Outcome ε ℕ :=
  ipv6TransportChecksumZeroing checks src dst 6 data checksum.range

/-- `TcpViewer::validate_checksum_ipv6`. -/
def TcpViewer.validateChecksumIpv6 (checks : Bool) (src dst : ℕ) (data : List UInt8) :
    Outcome ε Bool :=
  storedEquals checksum data (calculateChecksumIpv6 checks src dst data)

/-- `Icmpv6Viewer::FIELD_CHECKSUM`. -/
def Icmpv6Viewer.checksum : Field := { lo := 2, hi := 4, spec := { size := 2 } }

/-- `Icmpv6Viewer::calculate_checksum_ipv6`. -/
def Icmpv6Viewer.calculateChecksumIpv6 (checks : Bool) (src dst : ℕ) (data : List UInt8) :
    Outcome ε ℕ :=
  ipv6TransportChecksumZeroing checks src dst 58 data checksum.range

/-- `Icmpv6Viewer::validate_checksum_ipv6`. -/
def Icmpv6Viewer.validateChecksumIpv6 (checks : Bool) (src dst : ℕ) (data : List UInt8) :
    Outcome ε Bool :=
  storedEquals checksum data (calculateChecksumIpv6 checks src dst data)

/-- The bytes of `data` that the UDP length field covers. -/
def UdpViewer.datagram (data : List UInt8) : Outcome ε (List UInt8) := do
  let length ← UdpViewer.length.get data
  pure (data.take (min length data.length))

/-- `UdpViewer::calculate_checksum_ipv4`. -/
def UdpViewer.calculateChecksumIpv4 (checks : Bool) (src dst : ℕ) (data : List UInt8) :
    Outcome ε ℕ := do
  let datagram ← datagram data
  let checksum ← ipv4TransportChecksumZeroing checks src dst 17 datagram checksum.range
  pure (if checksum = 0 then 0xFFFF else checksum)

/-- `UdpViewer::validate_checksum_ipv4`: a stored zero is accepted. -/
def UdpViewer.validateChecksumIpv4 (checks : Bool) (src dst : ℕ) (data : List UInt8) :
    Outcome ε Bool := do
  let stored ← checksum.get data
  if stored = 0 then pure true
  else storedEquals checksum data (calculateChecksumIpv4 checks src dst data)

/-- `UdpViewer::calculate_checksum_ipv6`. -/
def UdpViewer.calculateChecksumIpv6 (checks : Bool) (src dst : ℕ) (data : List UInt8) :
    Outcome ε ℕ := do
  let datagram ← datagram data
  let checksum ← ipv6TransportChecksumZeroing checks src dst 17 datagram checksum.range
  pure (if checksum = 0 then 0xFFFF else checksum)

/-- `UdpViewer::validate_checksum_ipv6`. -/
def UdpViewer.validateChecksumIpv6 (checks : Bool) (src dst : ℕ) (data : List UInt8) :
    Outcome ε Bool :=
  storedEquals checksum data (calculateChecksumIpv6 checks src dst data)

section StoresIn

variable {checks : Bool} {src dst protocol : ℕ} {as bs : List UInt8} {zeroed : ℕ × ℕ}

/-- The zeroed range does not matter to a checksum over IPv4. -/
theorem ipv4TransportChecksumZeroing_congr (h : AgreesOutside (Set.Ico zeroed.1 zeroed.2) as bs) :
    (ipv4TransportChecksumZeroing checks src dst protocol bs zeroed : Outcome ε ℕ) =
      ipv4TransportChecksumZeroing checks src dst protocol as zeroed := by
  simp only [ipv4TransportChecksumZeroing, addWordsZeroing_congr h, h.length]

/-- The zeroed range does not matter to a checksum over IPv6. -/
theorem ipv6TransportChecksumZeroing_congr (h : AgreesOutside (Set.Ico zeroed.1 zeroed.2) as bs) :
    (ipv6TransportChecksumZeroing checks src dst protocol bs zeroed : Outcome ε ℕ) =
      ipv6TransportChecksumZeroing checks src dst protocol as zeroed := by
  simp only [ipv6TransportChecksumZeroing, addWordsZeroing_congr h, h.length]

/-- A checksum over IPv4 fits 16 bits. -/
theorem ipv4TransportChecksumZeroing_lt {checksum : ℕ}
    (h : (ipv4TransportChecksumZeroing checks src dst protocol as zeroed : Outcome ε ℕ) =
      .ok checksum) : checksum < 2 ^ 16 := by
  simp only [ipv4TransportChecksumZeroing, Outcome.bind_eq_ok, Outcome.pure_eq,
    Outcome.ok.injEq] at h
  obtain ⟨_, -, _, -, _, -, _, -, sum, -, rfl⟩ := h
  exact foldChecksum_lt sum

/-- A checksum over IPv6 fits 16 bits. -/
theorem ipv6TransportChecksumZeroing_lt {checksum : ℕ}
    (h : (ipv6TransportChecksumZeroing checks src dst protocol as zeroed : Outcome ε ℕ) =
      .ok checksum) : checksum < 2 ^ 16 := by
  simp only [ipv6TransportChecksumZeroing, Outcome.bind_eq_ok, Outcome.pure_eq,
    Outcome.ok.injEq] at h
  obtain ⟨_, -, _, -, _, -, _, -, sum, -, rfl⟩ := h
  exact foldChecksum_lt sum

/-- The bytes that the length field covers change with the data. -/
theorem UdpViewer.datagram_congr (h : AgreesOutside (Set.Ico checksum.lo checksum.hi) as bs)
    {f : List UInt8 → Outcome ε ℕ}
    (hf : ∀ as bs, AgreesOutside (Set.Ico checksum.lo checksum.hi) as bs → f bs = f as) :
    (datagram bs >>= f) = datagram as >>= f := by
  have hlength : (UdpViewer.length.get bs : Outcome ε ℕ) = UdpViewer.length.get as :=
    Field.get_congr h fun k _ hk hmem => absurd (hk.trans_le (by decide)) (Nat.not_lt.2 hmem.1)
  rw [datagram, datagram, hlength, Outcome.bind_assoc, Outcome.bind_assoc]
  refine congrArg _ (funext fun length => ?_)
  have hprefix := h.take_drop 0 (min length as.length)
  simp only [List.drop_zero, Nat.zero_add, Set.ofPred_mem_eq] at hprefix
  rw [Outcome.pure_eq, Outcome.pure_eq, Outcome.ok_bind, Outcome.ok_bind, h.length]
  exact hf _ _ hprefix

/-- A nonzero word in the place of zero is still a 16-bit word. -/
theorem nonzero_lt {x : Outcome ε ℕ} (hx : ∀ c, x = .ok c → c < 2 ^ 16) {checksum : ℕ}
    (h : (x >>= fun c => pure (if c = 0 then 0xFFFF else c)) = .ok checksum) :
    checksum < 2 ^ 16 := by
  obtain ⟨c, hc, h⟩ := Outcome.bind_eq_ok.1 h
  obtain rfl := Outcome.ok.inj h
  have := hx c hc
  split_ifs <;> omega

/-- The checksum of TCP over IPv4 does not look at the field that it is stored in. -/
theorem TcpViewer.storesIn_ipv4 :
    StoresIn checksum (calculateChecksumIpv4 checks src dst : _ → Outcome ε ℕ) where
  congr _ _ h := ipv4TransportChecksumZeroing_congr h
  lt _ _ h := ipv4TransportChecksumZeroing_lt h

/-- The checksum of TCP over IPv6 does not look at the field that it is stored in. -/
theorem TcpViewer.storesIn_ipv6 :
    StoresIn checksum (calculateChecksumIpv6 checks src dst : _ → Outcome ε ℕ) where
  congr _ _ h := ipv6TransportChecksumZeroing_congr h
  lt _ _ h := ipv6TransportChecksumZeroing_lt h

/-- The checksum of ICMPv6 does not look at the field that it is stored in. -/
theorem Icmpv6Viewer.storesIn_ipv6 :
    StoresIn checksum (calculateChecksumIpv6 checks src dst : _ → Outcome ε ℕ) where
  congr _ _ h := ipv6TransportChecksumZeroing_congr h
  lt _ _ h := ipv6TransportChecksumZeroing_lt h

/-- The checksum of UDP over IPv4 does not look at the field that it is stored in. -/
theorem UdpViewer.storesIn_ipv4 :
    StoresIn checksum (calculateChecksumIpv4 checks src dst : _ → Outcome ε ℕ) where
  congr _ _ h := datagram_congr h fun _ _ h => by rw [ipv4TransportChecksumZeroing_congr h]
  lt _ _ h := by
    obtain ⟨datagram, -, h⟩ := Outcome.bind_eq_ok.1 h
    exact nonzero_lt (fun _ h => ipv4TransportChecksumZeroing_lt h) h

/-- The checksum of UDP over IPv6 does not look at the field that it is stored in. -/
theorem UdpViewer.storesIn_ipv6 :
    StoresIn checksum (calculateChecksumIpv6 checks src dst : _ → Outcome ε ℕ) where
  congr _ _ h := datagram_congr h fun _ _ h => by rw [ipv6TransportChecksumZeroing_congr h]
  lt _ _ h := by
    obtain ⟨datagram, -, h⟩ := Outcome.bind_eq_ok.1 h
    exact nonzero_lt (fun _ h => ipv6TransportChecksumZeroing_lt h) h

/-- The checksum of an IPv4 header does not look at the field that it is stored in. -/
theorem Ipv4Viewer.storesIn :
    StoresIn checksum (calculateChecksum checks : _ → Outcome ε ℕ) where
  congr as bs h := by
    have hihl : (ihl.get bs : Outcome ε ℕ) = ihl.get as :=
      Field.get_congr h fun k _ hk hmem => absurd (hk.trans_le (by decide)) (Nat.not_lt.2 hmem.1)
    simp only [calculateChecksum, headerLen, hihl, h.length, internetChecksumZeroing]
    refine congrArg _ (funext fun headerLen => ?_)
    have hprefix := h.take_drop 0 (min headerLen as.length)
    simp only [List.drop_zero, Nat.zero_add, Set.ofPred_mem_eq] at hprefix
    rw [addWordsZeroing_congr hprefix]
  lt data value h := by
    obtain ⟨headerLen, -, h⟩ := Outcome.bind_eq_ok.1 h
    obtain ⟨sum, -, h⟩ := Outcome.bind_eq_ok.1 h
    obtain rfl := Outcome.ok.inj h
    exact foldChecksum_lt sum

end StoresIn

end Packet
end Maja
