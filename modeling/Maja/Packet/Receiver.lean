/-
# Validating a stored checksum

The `validate_checksum` functions of the viewers of IPv4, TCP and UDP against the
rule of a receiver: the one's-complement sum of everything covered, the stored
checksum included, is `0xFFFF`.

The code calculates the checksum with the stored one set to zero and compares.  The
two rules differ only at a stored `0xFFFF`, the other representation of zero
(`ones_add_eq_iff`).  UDP has rules of its own for a stored zero.
-/

import Maja.Packet.Rfc1071

namespace Maja
namespace Packet

open Lib

variable {ε : Type}

/-- What a receiver accepts. -/
def Receives (bytes : List UInt8) : Prop := onesSum (words bytes) = 0xFFFF

instance : DecidablePred Receives := fun _ => inferInstanceAs (Decidable (_ = _))

variable {front rest data : List UInt8} {zeroed : ℕ × ℕ}

/-! ### The stored word -/

/-- Setting two bytes to zero. -/
theorem zeroing_append (front rest : List UInt8) (a b : UInt8) :
    zeroing (front.length, front.length + 2) (front ++ a :: b :: rest) =
      front ++ 0 :: 0 :: rest := by
  have hfront : front.mapIdx (fun k c => unlessZeroed (front.length, front.length + 2) k c) =
      front := by
    refine List.ext_getElem (by simp) fun k hk _ => ?_
    rw [List.getElem_mapIdx]
    exact if_neg fun h => by
      rw [List.length_mapIdx] at hk
      omega
  have hrest : rest.mapIdx (fun k c =>
      unlessZeroed (front.length, front.length + 2) (k + 1 + 1 + front.length) c) = rest := by
    refine List.ext_getElem (by simp) fun k _ _ => ?_
    rw [List.getElem_mapIdx]
    exact if_neg fun h => by omega
  have hzero : ∀ k c, k < 2 →
      unlessZeroed (front.length, front.length + 2) (k + front.length) c = 0 := fun k c hk =>
    if_pos ⟨by omega, by omega⟩
  rw [zeroing, List.mapIdx_append, hfront, List.mapIdx_cons, List.mapIdx_cons, hrest,
    hzero 0 a (by omega), hzero 1 b (by omega)]

/-- The sum of the words is the sum without a stored word, and that word. -/
theorem sum_words_eq_add {lo : ℕ} (heven : Even lo) (h : lo + 2 ≤ data.length) :
    (words data).sum =
      (words (zeroing (lo, lo + 2) data)).sum + beNat ((data.drop lo).take 2) := by
  obtain ⟨a, b, rest, hdrop⟩ : ∃ a b rest, data.drop lo = a :: b :: rest := by
    have hlen : 2 ≤ (data.drop lo).length := by
      rw [List.length_drop]
      omega
    match data.drop lo, hlen with
    | a :: b :: rest, _ => exact ⟨a, b, rest, rfl⟩
  have hlo : (data.take lo).length = lo := by
    rw [List.length_take]
    omega
  have hdata : data = data.take lo ++ a :: b :: rest := by
    rw [← hdrop, List.take_append_drop]
  have hzeroing : zeroing (lo, lo + 2) data = data.take lo ++ 0 :: 0 :: rest := by
    have happend := zeroing_append (data.take lo) rest a b
    rwa [hlo, ← hdata] at happend
  have hfront : Even (data.take lo).length := hlo.symm ▸ heven
  have hzero : beNat [0, 0] = 0 := rfl
  rw [hzeroing, hdrop]
  conv_lhs => rw [hdata]
  rw [words_append hfront, words_append hfront, words, words, hzero, List.sum_append,
    List.sum_append, List.sum_cons, List.sum_cons]
  show _ = _ + beNat [a, b]
  omega

/-- The field is a word at an even offset. -/
structure IsWord (f : Field) : Prop where
  spec : f.spec = { size := 2 }
  even : Even f.lo
  hi : f.hi = f.lo + 2

/-- A 16-bit field is the number of its two bytes. -/
theorem IsWord.peek {f : Field} (h : IsWord f) : f.peek data = beNat ((data.drop f.lo).take 2) := by
  rw [Field.peek, h.spec]
  rfl

/-- The sum of the words, by the word in the field. -/
theorem IsWord.sum_words {f : Field} (h : IsWord f) (hlen : f.hi ≤ data.length) :
    (words data).sum = (words (zeroing f.range data)).sum + f.peek data := by
  have hrange : f.range = (f.lo, f.lo + 2) := by rw [Field.range, h.hi]
  rw [h.peek, hrange]
  exact sum_words_eq_add h.even (h.hi ▸ hlen)

/-- A field is compared with what was calculated. -/
theorem storedEquals_eq {f : Field} {calculated : ℕ} (hlen : f.hi ≤ data.length) :
    (storedEquals f data (.ok calculated) : Outcome ε Bool) =
      .ok (decide (f.peek data = calculated)) := by
  rw [storedEquals, Field.get_eq hlen]
  rfl

/-! ### Headers and segments -/

/-- The checksum of an IPv4 header is a 16-bit field. -/
theorem Ipv4Viewer.isWord_checksum : IsWord Ipv4Viewer.checksum := ⟨rfl, by decide, rfl⟩

/-- The checksum of TCP is a 16-bit field. -/
theorem TcpViewer.isWord_checksum : IsWord TcpViewer.checksum := ⟨rfl, by decide, rfl⟩

/-- The checksum of UDP is a 16-bit field. -/
theorem UdpViewer.isWord_checksum : IsWord UdpViewer.checksum := ⟨rfl, by decide, rfl⟩

/-- A field that fills its bytes is below their number of values. -/
theorem Field.peek_lt {f : Field} {n : ℕ} (h : f.spec = { size := n }) :
    f.peek data < 256 ^ n := by
  have hpeek : f.peek data = beNat ((data.drop f.lo).take n) := by
    rw [Field.peek, h]
    rfl
  rw [hpeek]
  exact (beNat_lt _).trans_le (Nat.pow_le_pow_right (by norm_num) (by simp))

/-- A word is short of `0xFFFF` if it is not `0xFFFF`. -/
theorem IsWord.peek_lt {f : Field} (h : IsWord f) (hne : f.peek data ≠ 0xFFFF) :
    f.peek data < 0xFFFF := by
  have hlt : f.peek data < 256 ^ 2 := Field.peek_lt h.spec
  omega

/-- The comparison and the receiver's rule, without a pseudo header. -/
theorem IsWord.equals_iff_receives {f : Field} (h : IsWord f) (hlen : f.hi ≤ data.length)
    (hne : f.peek data ≠ 0xFFFF) :
    f.peek data = 0xFFFF - ones (words (zeroing f.range data)).sum ↔ Receives data := by
  rw [Receives, onesSum_eq (words_le data), h.sum_words hlen, ones_add_eq_iff (h.peek_lt hne)]

/-- With the pseudo header of IPv4. -/
theorem IsWord.equals_iff_receives_ipv4 {f : Field} (h : IsWord f) (hlen : f.hi ≤ data.length)
    (hmax : data.length ≤ 0xFFFF) (hne : f.peek data ≠ 0xFFFF) (src dst : ℕ) (protocol : UInt8) :
    f.peek data = 0xFFFF - ones (ipv4Terms src dst protocol.toNat data.length
        (zeroing f.range data)).sum ↔
      Receives (pseudoIpv4 src dst protocol data.length ++ data) := by
  have hsum : (ipv4Terms src dst protocol.toNat data.length data).sum =
      (ipv4Terms src dst protocol.toNat data.length (zeroing f.range data)).sum +
        f.peek data := by
    simp only [ipv4Terms, List.sum_append, h.sum_words hlen, ← Nat.add_assoc]
  rw [Receives, onesSum_pseudoIpv4 (by omega), hsum, ones_add_eq_iff (h.peek_lt hne)]

/-- With the pseudo header of IPv6. -/
theorem IsWord.equals_iff_receives_ipv6 {f : Field} (h : IsWord f) (hlen : f.hi ≤ data.length)
    (hne : f.peek data ≠ 0xFFFF) (src dst : ℕ) (protocol : UInt8) :
    f.peek data = 0xFFFF - ones (ipv6Terms src dst protocol.toNat data.length
        (zeroing f.range data)).sum ↔
      Receives (pseudoIpv6 src dst protocol data.length ++ data) := by
  have hsum : (ipv6Terms src dst protocol.toNat data.length data).sum =
      (ipv6Terms src dst protocol.toNat data.length (zeroing f.range data)).sum +
        f.peek data := by
    simp only [ipv6Terms, List.sum_append, h.sum_words hlen, ← Nat.add_assoc]
  rw [Receives, onesSum_pseudoIpv6, hsum, ones_add_eq_iff (h.peek_lt hne)]

/-! ### The viewers -/

/-- A header is at most 60 bytes long. -/
theorem Ipv4Viewer.headerLen_le {n : ℕ} (h : (headerLen data : Outcome ε ℕ) = .ok n) : n ≤ 60 := by
  obtain ⟨ihl, hihl, h⟩ := Outcome.bind_eq_ok.1 h
  obtain rfl := Outcome.ok.inj h
  obtain ⟨bytes, -, hihl⟩ := Outcome.bind_eq_ok.1 hihl
  obtain rfl := Outcome.ok.inj hihl
  have hmask : Ipv4Viewer.ihl.spec.raw .msb bytes ≤ 0x0F := by
    rw [FieldSpec.raw, if_neg (by decide), if_pos (by decide)]
    exact Nat.and_le_right
  omega

/-- **IPv4.**  The header is validated by the receiver's rule. -/
theorem Ipv4Viewer.validateChecksum_eq (checks : Bool) {n : ℕ} (hlen : Ipv4.MIN_LEN ≤ data.length)
    (hheader : (headerLen data : Outcome ε ℕ) = .ok n) (hn : Ipv4.MIN_LEN ≤ n)
    (hne : checksum.peek data ≠ 0xFFFF) :
    (validateChecksum checks data : Outcome ε Bool) = .ok (decide (Receives (data.take n))) := by
  have hword := isWord_checksum
  rw [Ipv4.MIN_LEN] at hlen hn
  have htake : data.take (min n data.length) = data.take n := by
    rw [List.take_eq_take_iff]
    omega
  have hcovered : checksum.hi ≤ (data.take n).length := by
    rw [List.length_take]
    exact le_min (le_trans (by decide) hn) (le_trans (by decide) hlen)
  have hpeek : checksum.peek (data.take n) = checksum.peek data :=
    checksum.peek_take (le_trans (by decide) hn) data
  have hihl : n ≤ 0xFFFF := by
    have hle := headerLen_le hheader
    omega
  have hshort : (zeroing checksum.range (data.take n)).length ≤ 0xFFFF := by
    rw [length_zeroing, List.length_take]
    exact (min_le_left _ _).trans hihl
  rw [validateChecksum, calculateChecksum, hheader, Outcome.ok_bind, htake,
    internetChecksumZeroing_eq, addAll_fold_of_lt (sum_words_lt hshort),
    storedEquals_eq (le_trans (by decide) hlen), ← hpeek]
  exact congrArg _ (decide_eq_decide.2 (hword.equals_iff_receives hcovered (hpeek ▸ hne)))

/-- **TCP.**  The segment is validated by the receiver's rule. -/
theorem TcpViewer.validateChecksum_eq (checks : Bool) (src dst : ℕ)
    (hlen : Tcp.MIN_LEN ≤ data.length) (hmax : data.length ≤ 0xFFFF)
    (hne : checksum.peek data ≠ 0xFFFF) :
    (validateChecksumIpv4 checks src dst data : Outcome ε Bool) =
        .ok (decide (Receives (pseudoIpv4 src dst 6 data.length ++ data))) ∧
      (validateChecksumIpv6 checks src dst data : Outcome ε Bool) =
        .ok (decide (Receives (pseudoIpv6 src dst 6 data.length ++ data))) := by
  have hword := isWord_checksum
  have hhi : checksum.hi ≤ data.length := le_trans (by decide) hlen
  have hshort : (zeroing checksum.range data).length ≤ 0xFFFF := by rwa [length_zeroing]
  have hprotocol : (6 : ℕ) = (6 : UInt8).toNat := rfl
  constructor
  · rw [validateChecksumIpv4, calculateChecksumIpv4, ipv4TransportChecksumZeroing_eq, hprotocol,
      addAll_fold_of_lt (sum_ipv4Terms_lt hmax hshort), storedEquals_eq hhi]
    exact congrArg _ (decide_eq_decide.2
      (hword.equals_iff_receives_ipv4 hhi hmax hne src dst 6))
  · rw [validateChecksumIpv6, calculateChecksumIpv6, ipv6TransportChecksumZeroing_eq, hprotocol,
      addAll_fold_of_lt (sum_ipv6Terms_lt hmax hshort), storedEquals_eq hhi]
    exact congrArg _ (decide_eq_decide.2 (hword.equals_iff_receives_ipv6 hhi hne src dst 6))

/-- The bytes that a UDP checksum covers. -/
def UdpViewer.covered (data : List UInt8) : List UInt8 :=
  data.take (min (UdpViewer.length.peek data) data.length)

/-- A zero is not compared with a zero: neither representation of it is stored. -/
theorem eq_ite_iff {stored checksum : ℕ} (hzero : stored ≠ 0) (hne : stored ≠ 0xFFFF) :
    stored = (if checksum = 0 then 0xFFFF else checksum) ↔ stored = checksum := by
  split_ifs with h <;> omega

/-- **UDP.**  The datagram is validated by the receiver's rule, and a stored zero is
accepted over IPv4 and rejected over IPv6. -/
theorem UdpViewer.validateChecksum_eq (checks : Bool) (src dst : ℕ)
    (hlen : Udp.MIN_LEN ≤ data.length) (hlength : Udp.MIN_LEN ≤ UdpViewer.length.peek data)
    (hne : checksum.peek data ≠ 0xFFFF) :
    (validateChecksumIpv4 checks src dst data : Outcome ε Bool) =
        .ok (decide (checksum.peek data = 0 ∨
          Receives (pseudoIpv4 src dst 17 (covered data).length ++ covered data))) ∧
      (validateChecksumIpv6 checks src dst data : Outcome ε Bool) =
        .ok (decide (checksum.peek data ≠ 0 ∧
          Receives (pseudoIpv6 src dst 17 (covered data).length ++ covered data))) := by
  have hword := isWord_checksum
  have hprotocol : (17 : ℕ) = (17 : UInt8).toNat := rfl
  have hhi : checksum.hi ≤ data.length := le_trans (by decide) hlen
  have hmin : checksum.hi ≤ min (UdpViewer.length.peek data) data.length :=
    le_min (le_trans (by decide) hlength) hhi
  have hcovered : (covered data).length = min (UdpViewer.length.peek data) data.length := by
    rw [covered, List.length_take, min_assoc, min_self]
  have hmax : (covered data).length ≤ 0xFFFF := by
    have hlt : UdpViewer.length.peek data < 256 ^ 2 := Field.peek_lt rfl
    rw [hcovered]
    exact (min_le_left _ _).trans (Nat.le_of_lt_succ hlt)
  have hshort : (zeroing checksum.range (covered data)).length ≤ 0xFFFF := by rwa [length_zeroing]
  have hpeek : checksum.peek (covered data) = checksum.peek data := checksum.peek_take hmin data
  have hinside : checksum.hi ≤ (covered data).length := hcovered ▸ hmin
  have hdatagram : (datagram data : Outcome ε (List UInt8)) = .ok (covered data) := by
    rw [datagram, Field.get_eq (le_trans (by decide) hlen)]
    rfl
  have hnonzero : (0 : ℕ) ≠ if 0xFFFF - ones (ipv6Terms src dst 17 (covered data).length
      (zeroing checksum.range (covered data))).sum = 0 then 0xFFFF else
        0xFFFF - ones (ipv6Terms src dst 17 (covered data).length
          (zeroing checksum.range (covered data))).sum := by
    split_ifs <;> omega
  constructor
  · rw [validateChecksumIpv4, Field.get_eq hhi, Outcome.ok_bind]
    by_cases hzero : checksum.peek data = 0
    · rw [if_pos hzero, decide_eq_true (.inl hzero)]
      rfl
    · rw [if_neg hzero, calculateChecksumIpv4, hdatagram, Outcome.ok_bind,
        ipv4TransportChecksumZeroing_eq, hprotocol,
        addAll_fold_of_lt (sum_ipv4Terms_lt hmax hshort), Outcome.ok_bind, Outcome.pure_eq,
        storedEquals_eq hhi]
      refine congrArg _ (decide_eq_decide.2 ?_)
      rw [eq_ite_iff hzero hne, ← hpeek,
        hword.equals_iff_receives_ipv4 hinside hmax (hpeek ▸ hne) src dst 17]
      exact ⟨.inr, fun h => h.resolve_left (hpeek ▸ hzero)⟩
  · rw [validateChecksumIpv6, calculateChecksumIpv6, hdatagram, Outcome.ok_bind,
      ipv6TransportChecksumZeroing_eq, hprotocol,
      addAll_fold_of_lt (sum_ipv6Terms_lt hmax hshort), Outcome.ok_bind, Outcome.pure_eq,
      storedEquals_eq hhi]
    refine congrArg _ (decide_eq_decide.2 ?_)
    by_cases hzero : checksum.peek data = 0
    · rw [hzero]
      exact iff_of_false hnonzero fun h => h.1 rfl
    · rw [eq_ite_iff hzero hne, ← hpeek,
        hword.equals_iff_receives_ipv6 hinside (hpeek ▸ hne) src dst 17]
      exact ⟨fun h => ⟨hpeek ▸ hzero, h⟩, fun h => h.2⟩

/-- **Validation agrees with the receiver's rule**, of headers, segments and datagrams
that store anything but `0xFFFF`. -/
theorem validate_agrees (checks : Bool) (src dst : ℕ) (data : List UInt8) :
    (∀ n, Ipv4.MIN_LEN ≤ data.length → (Ipv4Viewer.headerLen data : Outcome ε ℕ) = .ok n →
      Ipv4.MIN_LEN ≤ n → Ipv4Viewer.checksum.peek data ≠ 0xFFFF →
      (Ipv4Viewer.validateChecksum checks data : Outcome ε Bool) =
        .ok (decide (Receives (data.take n)))) ∧
    (Tcp.MIN_LEN ≤ data.length → data.length ≤ 0xFFFF →
      TcpViewer.checksum.peek data ≠ 0xFFFF →
      (TcpViewer.validateChecksumIpv4 checks src dst data : Outcome ε Bool) =
          .ok (decide (Receives (pseudoIpv4 src dst 6 data.length ++ data))) ∧
        (TcpViewer.validateChecksumIpv6 checks src dst data : Outcome ε Bool) =
          .ok (decide (Receives (pseudoIpv6 src dst 6 data.length ++ data)))) ∧
    (Udp.MIN_LEN ≤ data.length → Udp.MIN_LEN ≤ UdpViewer.length.peek data →
      UdpViewer.checksum.peek data ≠ 0xFFFF →
      (UdpViewer.validateChecksumIpv4 checks src dst data : Outcome ε Bool) =
          .ok (decide (UdpViewer.checksum.peek data = 0 ∨
            Receives (pseudoIpv4 src dst 17 (UdpViewer.covered data).length ++
              UdpViewer.covered data))) ∧
        (UdpViewer.validateChecksumIpv6 checks src dst data : Outcome ε Bool) =
          .ok (decide (UdpViewer.checksum.peek data ≠ 0 ∧
            Receives (pseudoIpv6 src dst 17 (UdpViewer.covered data).length ++
              UdpViewer.covered data)))) := by
  refine ⟨?_, ?_, ?_⟩
  · intro n hlen hheader hn hne
    exact Ipv4Viewer.validateChecksum_eq checks hlen hheader hn hne
  · intro hlen hmax hne
    exact TcpViewer.validateChecksum_eq checks src dst hlen hmax hne
  · intro hlen hlength hne
    exact UdpViewer.validateChecksum_eq checks src dst hlen hlength hne

/-- A header from 192.168.0.1 to 192.168.0.199. -/
def storedHeader : List UInt8 :=
  [0x45, 0, 0, 0x73, 0, 0, 0x40, 0, 0x40, 0x11, 0xB8, 0x61, 0xC0, 0xA8, 0, 1, 0xC0, 0xA8, 0, 0xC7]

/-- It is accepted. -/
theorem validate_agrees_header :
    (Ipv4Viewer.validateChecksum true storedHeader : Outcome Empty Bool) =
      .ok (decide (Receives (storedHeader.take 20))) ∧ Receives (storedHeader.take 20) :=
  ⟨(validate_agrees true 0 0 storedHeader).1 20 (by decide) (by decide) (by decide) (by decide),
    by decide⟩

end Packet
end Maja
