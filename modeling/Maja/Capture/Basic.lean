/-
# What the capture readers share

Byte order, errors, link types and packet records of `src/capture.rs`,
`src/capture/endian.rs`, `src/capture/link_type.rs` and `src/capture/packet.rs`.

Unsigned fields are natural numbers, read from as many bytes as their width has,
so a value that was read is in range; a timestamp is an `I64`.  Indexing is the
Rust indexing: a buffer shorter than the word it is asked for is a panic.
-/

import Maja.Lib.Word

namespace Maja
namespace Capture

open Lib

/-- `Endian`. -/
inductive Endian where
  | big
  | little
  deriving DecidableEq, Repr, Inhabited

/-- The failures a capture reader reports: `CaptureError`, less the payloads of
the foreign error types. -/
inductive CaptureError where
  | io
  | fromUtf8
  | tryFromSlice
  | invalidMagicNumber (magic : ℕ)
  | truncatedCapture (what : String)
  | missingPcapngInterfaceDescriptionBlock
  | invalidPcapngPacketInterfaceId (id : ℕ)
  | invalidPcapngBlockTotalLength (length : ℕ)
  | pcapngBlockTotalLengthMismatch (what : String) (leading trailing : ℕ)
  deriving DecidableEq, Repr

/-- A capture call. -/
abbrev Result (α : Type) : Type := Outcome CaptureError α

/-! ### Words -/

/-- The `n` bytes of a buffer from `lo` on, as many as there are. -/
def bytesAt (buffer : List UInt8) (lo n : ℕ) : List UInt8 := (buffer.drop lo).take n

/-- As many bytes as were asked for, or as there are. -/
@[simp] theorem length_bytesAt (buffer : List UInt8) (lo n : ℕ) :
    (bytesAt buffer lo n).length = min n (buffer.length - lo) := by
  simp [bytesAt]

/-- A slice inside the buffer has its bytes. -/
theorem slice_eq_bytesAt {buffer : List UInt8} {lo n : ℕ} (h : lo + n ≤ buffer.length) :
    (Outcome.slice buffer lo (lo + n) : Result (List UInt8)) = .ok (bytesAt buffer lo n) := by
  rw [Outcome.slice_eq_ok (Nat.le_add_right lo n) h, Nat.add_sub_cancel_left, bytesAt]

namespace Endian

/-- The word that `bytes` spell in this byte order: `from_be_bytes` and
`from_le_bytes`. -/
def number : Endian → List UInt8 → ℕ
  | big, bytes => beNat bytes
  | little, bytes => leNat bytes

/-- Every `read_*` indexes the first `n` bytes of its buffer and panics when
there are fewer. -/
def readBytes (e : Endian) (n : ℕ) (bytes : List UInt8) : Result ℕ := do
  let word ← Outcome.slice bytes 0 n
  pure (e.number word)

/-- `Endian::read_u16`. -/
abbrev readU16 (e : Endian) (bytes : List UInt8) : Result ℕ := e.readBytes 2 bytes

/-- `Endian::read_u32`. -/
abbrev readU32 (e : Endian) (bytes : List UInt8) : Result ℕ := e.readBytes 4 bytes

/-- `Endian::read_u64`. -/
abbrev readU64 (e : Endian) (bytes : List UInt8) : Result ℕ := e.readBytes 8 bytes

/-- `Endian::read_i32`. -/
def readI32 (e : Endian) (bytes : List UInt8) : Result ℤ := do
  let word ← e.readBytes 4 bytes
  pure (toSigned 32 word)

/-- `Endian::read_i64`. -/
def readI64 (e : Endian) (bytes : List UInt8) : Result I64 := do
  let word ← e.readBytes 8 bytes
  pure (I64.ofWord word)

/-- The `n`-byte word at `lo`. -/
def wordAt (e : Endian) (buffer : List UInt8) (lo n : ℕ) : ℕ := e.number (bytesAt buffer lo n)

/-- A number that was read fits the bytes that it was read from. -/
theorem number_lt (e : Endian) (bytes : List UInt8) : e.number bytes < 256 ^ bytes.length := by
  cases e with
  | big => exact beNat_lt bytes
  | little => simpa [number, leNat] using beNat_lt bytes.reverse

/-- A word of `n` bytes is below `256 ^ n`. -/
theorem wordAt_lt (e : Endian) (buffer : List UInt8) (lo n : ℕ) :
    e.wordAt buffer lo n < 256 ^ n :=
  calc e.wordAt buffer lo n < 256 ^ (bytesAt buffer lo n).length := e.number_lt _
    _ ≤ 256 ^ n := Nat.pow_le_pow_right (by norm_num) (by simp)

/-- A word in front of an append is a word of the front. -/
theorem wordAt_append (e : Endian) {front rest : List UInt8} {lo n : ℕ}
    (h : lo + n ≤ front.length) : e.wordAt (front ++ rest) lo n = e.wordAt front lo n := by
  rw [wordAt, wordAt, bytesAt, bytesAt, List.drop_append_of_le_length (by omega),
    List.take_append_of_le_length (by rw [List.length_drop]; omega)]

/-- A read inside the buffer returns the number of its first bytes. -/
theorem readBytes_eq_ok {e : Endian} {n : ℕ} {bytes : List UInt8} (h : n ≤ bytes.length) :
    e.readBytes n bytes = .ok (e.number (bytes.take n)) := by
  simp [readBytes, Outcome.slice_eq_ok (Nat.zero_le n) h]

/-- Reading a field: the slice and the word in it fit together. -/
theorem slice_readBytes {β : Type} {e : Endian} {buffer : List UInt8} (lo n : ℕ)
    (hle : lo + n ≤ buffer.length) (f : ℕ → Result β) :
    (Outcome.slice buffer lo (lo + n) >>= fun w => e.readBytes n w >>= f) =
      f (e.wordAt buffer lo n) := by
  have hlen : (bytesAt buffer lo n).length = n := by simp; omega
  rw [slice_eq_bytesAt hle, Outcome.ok_bind, readBytes_eq_ok hlen.ge, Outcome.ok_bind,
    List.take_of_length_le hlen.le, wordAt]

/-- Reading an `i64` at an offset inside the buffer, and going on with it. -/
theorem slice_readI64 {β : Type} {e : Endian} {buffer : List UInt8} (lo : ℕ)
    (hle : lo + 8 ≤ buffer.length) (f : I64 → Result β) :
    (Outcome.slice buffer lo (lo + 8) >>= fun w => e.readI64 w >>= f) =
      f (I64.ofWord (e.wordAt buffer lo 8)) := by
  simp only [readI64, Outcome.bind_assoc]
  exact slice_readBytes lo 8 hle fun w => f (I64.ofWord w)

end Endian

/-! ### Formats, link types and packets -/

/-- `CaptureFormat`. -/
inductive CaptureFormat where
  | pcap
  | pcapng
  deriving DecidableEq, Repr

/-- `LinkType`. -/
inductive LinkType where
  | null
  | ethernet
  | expEthernet
  | ax25
  | tokenRing
  | arcnet
  | slip
  | ppp
  | fddi
  | raw
  | ieee80211
  | linuxSll
  | prismHeader
  | aironetHeader
  | ieee80211Radiotap
  | ipv4
  | ipv6
  | linuxSll2
  | unknown (code : ℕ)
  deriving DecidableEq, Repr

/-- `LinkType::default`. -/
instance : Inhabited LinkType := ⟨.ethernet⟩

/-- `LinkType::from(u16)`. -/
def LinkType.ofCode : ℕ → LinkType
  | 0 => null
  | 1 => ethernet
  | 2 => expEthernet
  | 3 => ax25
  | 6 => tokenRing
  | 7 => arcnet
  | 8 => slip
  | 9 => ppp
  | 10 => fddi
  | 101 => raw
  | 105 => ieee80211
  | 113 => linuxSll
  | 119 => prismHeader
  | 120 => aironetHeader
  | 127 => ieee80211Radiotap
  | 228 => ipv4
  | 229 => ipv6
  | 276 => linuxSll2
  | code => unknown code

/-- `PacketRecord`. -/
structure PacketRecord where
  /-- Nanoseconds since the epoch. -/
  timestamp : I64
  /-- Length of the packet on the wire. -/
  originalLength : ℕ
  /-- The captured bytes. -/
  data : List UInt8
  /-- Link type of the packet. -/
  linkType : LinkType
  deriving DecidableEq, Repr

/-- `LocatedPacketRecord`: a packet with the place of its source bytes. -/
structure LocatedPacketRecord where
  /-- Where the source record or block starts. -/
  offset : ℕ
  /-- The complete source record or block. -/
  raw : List UInt8
  /-- The packet. -/
  packet : PacketRecord
  deriving DecidableEq, Repr

end Capture
end Maja
