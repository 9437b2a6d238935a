/-
# Underlay types

`src/packet/utils/field.rs`.  The words a field is stored in: the unsigned integers,
and the byte arrays of the lengths no integer has.  Both families of
`impl_underlay!` keep a number in their bytes (`LawfulUnderlay`), and the accessor
over either is the accessor on numbers of `Maja.Packet.Field`
(`Spec.toNat_raw`, `Spec.set_val`).

A read or a write through a raw pointer moves the bytes of the word as they are.
`read_unaligned` followed by `from_be` or `from_le` does not depend on the byte order
of the host, and the two are one step here.
-/

import Maja.Lib.BitRange
import Maja.Packet.Field

namespace Maja
namespace Packet

open Lib

/-- `[u8; n]`. -/
abbrev Octets (n : ℕ) : Type := {bs : List UInt8 // bs.length = n}

/-- `reverse`. -/
def Octets.reverse {n : ℕ} (x : Octets n) : Octets n :=
  ⟨x.val.reverse, List.length_reverse.trans x.property⟩

/-- Octets fit their width. -/
theorem Octets.beNat_lt {n : ℕ} (x : Octets n) : beNat x.val < 2 ^ (8 * n) := by
  have h := Lib.beNat_lt x.val
  rwa [x.property, show 256 = 2 ^ 8 from rfl, ← pow_mul] at h

/-- `Underlay`. -/
class Underlay (U : Type) where
  /-- `size_of::<U>()`. -/
  size : ℕ
  /-- The shifts below this do not overflow the integer that is shifted. -/
  shiftLimit : ℕ
  fromBe : Octets size → U
  fromLe : Octets size → U
  toBe : U → Octets size
  toLe : U → Octets size
  shl : U → ℕ → U
  shr : U → ℕ → U
  mask : U → BitVec 64 → U
  bitor : U → U → U

/-- An underlay type that keeps a number. -/
class LawfulUnderlay (U : Type) extends Underlay U where
  toNat : U → ℕ
  toNat_injective : Function.Injective toNat
  toNat_lt : ∀ x, toNat x < 2 ^ (8 * size)
  toNat_fromBe : ∀ bs, toNat (fromBe bs) = beNat bs.val
  toNat_fromLe : ∀ bs, toNat (fromLe bs) = leNat bs.val
  toBe_val : ∀ x, (toBe x).val = beBytes size (toNat x)
  toLe_val : ∀ x, (toLe x).val = (beBytes size (toNat x)).reverse
  toNat_shl : ∀ x s, s < shiftLimit → toNat (shl x s) = (toNat x <<< s) % 2 ^ (8 * size)
  toNat_shr : ∀ x s, toNat (shr x s) = toNat x >>> s
  toNat_mask : ∀ x m, toNat (mask x m) = toNat x &&& m.toNat
  toNat_bitor : ∀ x y, toNat (bitor x y) = toNat x ||| toNat y

/-! ### The unsigned integers -/

/-- `impl_underlay!` for an unsigned integer of `n` bytes. -/
@[reducible] def Underlay.ofInt (n : ℕ) : Underlay (BitVec (8 * n)) where
  size := n
  shiftLimit := 8 * n
  fromBe bs := BitVec.ofNat (8 * n) (beNat bs.val)
  fromLe bs := BitVec.ofNat (8 * n) (leNat bs.val)
  toBe x := ⟨beBytes n x.toNat, length_beBytes n _⟩
  toLe x := Octets.reverse ⟨beBytes n x.toNat, length_beBytes n _⟩
  shl x shift := x <<< shift
  shr x shift := x >>> shift
  mask x mask := x &&& mask.setWidth (8 * n)
  bitor x rhs := x ||| rhs

@[reducible] def LawfulUnderlay.ofInt (n : ℕ) : LawfulUnderlay (BitVec (8 * n)) where
  toUnderlay := Underlay.ofInt n
  toNat := BitVec.toNat
  toNat_injective _ _ h := BitVec.eq_of_toNat_eq h
  toNat_lt x := x.isLt
  toNat_fromBe bs := Nat.mod_eq_of_lt bs.beNat_lt
  toNat_fromLe bs := Nat.mod_eq_of_lt bs.reverse.beNat_lt
  toBe_val _ := rfl
  toLe_val _ := rfl
  toNat_shl x s _ := BitVec.toNat_shiftLeft
  toNat_shr x s := BitVec.toNat_ushiftRight x s
  toNat_mask x m := by
    -- the mask is cut to the width of the word, and the word has no bits beyond it
    change (x &&& m.setWidth (8 * n)).toNat = _
    rw [BitVec.toNat_and, BitVec.toNat_setWidth]
    conv_lhs => rw [← Nat.mod_eq_of_lt x.isLt]
    rw [← Nat.and_mod_two_pow, Nat.mod_eq_of_lt (Nat.and_le_left.trans_lt x.isLt)]
  toNat_bitor x y := BitVec.toNat_or x y

/-! ### The byte arrays -/

namespace Octets

variable {l : ℕ}

/-- The array as the low bytes of a `u64`. -/
def widen (x : Octets l) : BitVec 64 := BitVec.ofNat 64 (beNat (List.replicate (8 - l) 0 ++ x.val))

/-- The low bytes of a `u64`. -/
def narrow (h : l ≤ 8) (x : BitVec 64) : Octets l :=
  ⟨(beBytes 8 x.toNat).drop (8 - l), by rw [List.length_drop, length_beBytes]; omega⟩

/-- Widening keeps the number. -/
theorem toNat_widen (h : l ≤ 8) (x : Octets l) : x.widen.toNat = beNat x.val := by
  rw [widen, beNat_replicate_zero_append, BitVec.toNat_ofNat]
  exact Nat.mod_eq_of_lt (x.beNat_lt.trans_le
    (Nat.pow_le_pow_right (by norm_num) (by omega)))

/-- Narrowing cuts the number to the width. -/
theorem beNat_narrow (h : l ≤ 8) (x : BitVec 64) :
    beNat (narrow h x).val = x.toNat % 2 ^ (8 * l) := by
  have hdrop := drop_beBytes (8 - l) l x.toNat
  rw [Nat.sub_add_cancel h] at hdrop
  change beNat ((beBytes 8 x.toNat).drop (8 - l)) = _
  rw [hdrop, beNat_beBytes, show 256 = 2 ^ 8 from rfl, ← pow_mul]

end Octets

/-- `impl_underlay!` for the array of `l` bytes: shifted as a `u64`, masked byte by
byte. -/
@[reducible] def Underlay.ofArray (l : ℕ) (h : l ≤ 8) : Underlay (Octets l) where
  size := l
  shiftLimit := 64
  fromBe x := x
  fromLe x := x.reverse
  toBe x := x
  toLe x := x.reverse
  shl x shift := Octets.narrow h (x.widen <<< shift)
  shr x shift := Octets.narrow h (x.widen >>> shift)
  mask x mask := ⟨List.zipWith (· &&& ·) x.val (Octets.narrow h mask).val, by
    rw [List.length_zipWith, x.property, (Octets.narrow h mask).property, Nat.min_self]⟩
  bitor x rhs := ⟨List.zipWith (· ||| ·) x.val rhs.val, by
    rw [List.length_zipWith, x.property, rhs.property, Nat.min_self]⟩

@[reducible] def LawfulUnderlay.ofArray (l : ℕ) (h : l ≤ 8) : LawfulUnderlay (Octets l) where
  toUnderlay := Underlay.ofArray l h
  toNat x := beNat x.val
  toNat_injective x y hxy := by
    have hbytes : beBytes x.val.length (beNat x.val) = beBytes y.val.length (beNat y.val) := by
      rw [x.property, y.property]
      exact congrArg (beBytes l) hxy
    rw [beBytes_beNat, beBytes_beNat] at hbytes
    exact Subtype.ext hbytes
  toNat_lt x := x.beNat_lt
  toNat_fromBe _ := rfl
  toNat_fromLe _ := rfl
  toBe_val x := by
    have hbytes := beBytes_beNat x.val
    rw [x.property] at hbytes
    exact hbytes.symm
  toLe_val x := by
    have hbytes := beBytes_beNat x.val
    rw [x.property] at hbytes
    exact congrArg List.reverse hbytes.symm
  toNat_shl x s _ := by
    have hdvd : 2 ^ (8 * l) ∣ 2 ^ 64 := Nat.pow_dvd_pow 2 (by omega)
    change beNat (Octets.narrow h (x.widen <<< s)).val = beNat x.val <<< s % 2 ^ (8 * l)
    rw [Octets.beNat_narrow, BitVec.toNat_shiftLeft, Octets.toNat_widen h,
      Nat.mod_mod_of_dvd _ hdvd]
  toNat_shr x s := by
    have hlt : beNat x.val >>> s < 2 ^ (8 * l) :=
      (Nat.shiftRight_le _ s).trans_lt x.beNat_lt
    change beNat (Octets.narrow h (x.widen >>> s)).val = _
    rw [Octets.beNat_narrow, BitVec.toNat_ushiftRight, Octets.toNat_widen h,
      Nat.mod_eq_of_lt hlt]
  toNat_mask x m := by
    have hlen : x.val.length = (Octets.narrow h m).val.length := by
      rw [x.property, (Octets.narrow h m).property]
    have hx := x.beNat_lt
    change beNat (List.zipWith (· &&& ·) x.val (Octets.narrow h m).val) = _
    rw [beNat_and hlen, Octets.beNat_narrow]
    conv_lhs => rw [← Nat.mod_eq_of_lt hx]
    rw [← Nat.and_mod_two_pow, Nat.mod_eq_of_lt (Nat.and_le_left.trans_lt hx)]
  toNat_bitor x y := beNat_or (by rw [x.property, y.property])

/-- The types `impl_underlay!` is called for. -/
inductive UnderlayType where
  | u8
  | u16
  | u32
  | u64
  | u128
  | bytes3
  | bytes5
  | bytes6
  | bytes7
  deriving DecidableEq, Repr

namespace UnderlayType

/-- The values of the type. -/
def Carrier : UnderlayType → Type
  | u8 => BitVec (8 * 1)
  | u16 => BitVec (8 * 2)
  | u32 => BitVec (8 * 4)
  | u64 => BitVec (8 * 8)
  | u128 => BitVec (8 * 16)
  | bytes3 => Octets 3
  | bytes5 => Octets 5
  | bytes6 => Octets 6
  | bytes7 => Octets 7

instance : (t : UnderlayType) → LawfulUnderlay t.Carrier
  | u8 => LawfulUnderlay.ofInt 1
  | u16 => LawfulUnderlay.ofInt 2
  | u32 => LawfulUnderlay.ofInt 4
  | u64 => LawfulUnderlay.ofInt 8
  | u128 => LawfulUnderlay.ofInt 16
  | bytes3 => LawfulUnderlay.ofArray 3 (by decide)
  | bytes5 => LawfulUnderlay.ofArray 5 (by decide)
  | bytes6 => LawfulUnderlay.ofArray 6 (by decide)
  | bytes7 => LawfulUnderlay.ofArray 7 (by decide)

/-- Only `u128` is wider than a mask. -/
theorem size_le_eight (t : UnderlayType) (h : t ≠ u128) : Underlay.size t.Carrier ≤ 8 := by
  cases t with
  | u128 => exact absurd rfl h
  | _ => decide

end UnderlayType

/-! ### The accessor -/

/-- The bytes an accessor is created over, with room for the word: the source reads
and writes it through a raw pointer, whatever the length. -/
abbrev Buffer (U : Type) [Underlay U] : Type := {bytes : List UInt8 // Underlay.size U ≤ bytes.length}

namespace Buffer

variable {U : Type} [Underlay U]

/-- The bytes of the word. -/
def word (bytes : Buffer U) : Octets (Underlay.size U) :=
  ⟨bytes.val.take (Underlay.size U), List.length_take_of_le bytes.property⟩

/-- `write_unaligned`. -/
def put (bytes : Buffer U) (word : Octets (Underlay.size U)) : Buffer U :=
  ⟨word.val ++ bytes.val.drop (Underlay.size U), by
    rw [List.length_append, word.property]
    exact Nat.le_add_right _ _⟩

end Buffer

/-- `FieldSpec` over an underlay type, with a shift that does not overflow. -/
structure Spec (U : Type) [Underlay U] where
  MASK : BitVec 64 := BitVec.allOnes 64
  SHIFT : ℕ := 0
  shift_lt : SHIFT < Underlay.shiftLimit U := by decide

namespace Spec

section

variable {U : Type} [Underlay U]

/-- The spec has the default mask and shift: it does not cut its word. -/
abbrev IsWhole (F : Spec U) : Prop := F.MASK = BitVec.allOnes 64 ∧ F.SHIFT = 0

/-- `U::from_be` or `U::from_le` of the word that is read. -/
def fromOrder : ByteOrder → Octets (Underlay.size U) → U
  | .msb, word => Underlay.fromBe word
  | .lsb, word => Underlay.fromLe word

/-- `to_be` or `to_le`. -/
def toOrder : ByteOrder → U → Octets (Underlay.size U)
  | .msb, value => Underlay.toBe value
  | .lsb, value => Underlay.toLe value

/-- `FieldAccessor::raw`. -/
def raw (order : ByteOrder) (F : Spec U) (bytes : Buffer U) : U :=
  let value : U := fromOrder order bytes.word
  if F.IsWhole then value
  else if F.SHIFT = 0 then Underlay.mask value F.MASK
  else Underlay.shr (Underlay.mask value F.MASK) F.SHIFT

/-- `FieldAccessor::set`. -/
def set (order : ByteOrder) (F : Spec U) (bytes : Buffer U) (value : U) : Buffer U :=
  let prevValue : U := fromOrder order bytes.word
  let newValue : U :=
    if F.IsWhole then value
    else if F.SHIFT = 0 then
      Underlay.bitor (Underlay.mask prevValue (~~~F.MASK)) (Underlay.mask value F.MASK)
    else
      Underlay.bitor (Underlay.mask prevValue (~~~F.MASK))
        (Underlay.mask (Underlay.shl value F.SHIFT) F.MASK)
  bytes.put (toOrder order newValue)

/-- The spec of the accessor on numbers. -/
def erase (F : Spec U) : FieldSpec := ⟨Underlay.size U, F.MASK.toNat, F.SHIFT⟩

/-- A field is its whole word when its mask is full and its shift is zero. -/
theorem isWhole_iff (F : Spec U) : F.IsWhole ↔ F.erase.mask = U64_MAX ∧ F.erase.shift = 0 := by
  have hmask : F.MASK = BitVec.allOnes 64 ↔ F.MASK.toNat = U64_MAX := BitVec.toNat_inj.symm
  exact and_congr_left' hmask

end

variable {U : Type} [LawfulUnderlay U] {order : ByteOrder}

open LawfulUnderlay

/-- Reading in a byte order. -/
theorem toNat_fromOrder (order : ByteOrder) (bytes : Buffer U) :
    toNat (fromOrder order bytes.word : U) = order.read (bytes.val.take (Underlay.size U)) := by
  cases order with
  | msb => exact toNat_fromBe _
  | lsb => exact toNat_fromLe _

/-- Writing in a byte order. -/
theorem toOrder_val (order : ByteOrder) (value : U) :
    (toOrder order value).val = order.write (Underlay.size U) (toNat value) := by
  cases order with
  | msb => exact toBe_val _
  | lsb => exact toLe_val _

/-- Only the digits of the word are written. -/
theorem write_mod (order : ByteOrder) (n v : ℕ) :
    order.write n (v % 2 ^ (8 * n)) = order.write n v := by
  have hbytes : beBytes n (v % 2 ^ (8 * n)) = beBytes n v := by
    rw [pow_mul]
    exact beBytes_mod n v
  cases order with
  | msb => exact hbytes
  | lsb => exact congrArg List.reverse hbytes

/-- **The accessor reads the number** that the accessor on numbers reads. -/
theorem toNat_raw (F : Spec U) (bytes : Buffer U) :
    toNat (F.raw order bytes) = F.erase.raw order bytes.val := by
  have hread := toNat_fromOrder order bytes
  unfold raw FieldSpec.raw
  by_cases hwhole : F.IsWhole
  · rw [if_pos hwhole, if_pos (F.isWhole_iff.1 hwhole), hread]
    rfl
  · rw [if_neg hwhole, if_neg (mt F.isWhole_iff.2 hwhole)]
    by_cases hshift : F.SHIFT = 0
    · rw [if_pos hshift, if_pos (show F.erase.shift = 0 from hshift), toNat_mask, hread]
      rfl
    · rw [if_neg hshift, if_neg (show ¬F.erase.shift = 0 from hshift), toNat_shr, toNat_mask,
        hread]
      rfl

/-- Cutting a masked value first does not change its union with the word. -/
theorem or_and_mod (a v m k : ℕ) : (a ||| (v % 2 ^ k &&& m)) % 2 ^ k = (a ||| (v &&& m)) % 2 ^ k := by
  rw [Nat.or_mod_two_pow, Nat.or_mod_two_pow, Nat.and_mod_two_pow, Nat.mod_mod,
    ← Nat.and_mod_two_pow]

/-- The complement of the mask is taken at 64 bits. -/
theorem toNat_complement (m : BitVec 64) : (~~~m).toNat = U64_MAX ^^^ m.toNat := by
  rw [← BitVec.xor_allOnes, BitVec.toNat_xor, BitVec.toNat_allOnes, Nat.xor_comm]
  rfl

/-- **The accessor writes the bytes** that the accessor on numbers writes. -/
theorem set_val (F : Spec U) (bytes : Buffer U) (value : U) :
    (F.set order bytes value).val = F.erase.set order bytes.val (toNat value) := by
  have hread := toNat_fromOrder order bytes
  unfold set FieldSpec.set Buffer.put
  refine congrArg (· ++ bytes.val.drop (Underlay.size U)) ?_
  rw [toOrder_val]
  by_cases hwhole : F.IsWhole
  · rw [if_pos hwhole, if_pos (F.isWhole_iff.1 hwhole)]
    rfl
  · rw [if_neg hwhole, if_neg (mt F.isWhole_iff.2 hwhole)]
    by_cases hshift : F.SHIFT = 0
    · rw [if_pos hshift, if_pos (show F.erase.shift = 0 from hshift), toNat_bitor, toNat_mask,
        toNat_mask, toNat_complement, hread]
      rfl
    · rw [if_neg hshift, if_neg (show ¬F.erase.shift = 0 from hshift), toNat_bitor, toNat_mask,
        toNat_mask, toNat_complement, toNat_shl _ _ F.shift_lt, hread]
      -- the bits that the shift pushes out of the word are not written
      refine (write_mod order _ _).symm.trans (Eq.trans ?_ (write_mod order _ _))
      exact congrArg (order.write (Underlay.size U)) (or_and_mod _ _ _ _)

end Spec

end Packet
end Maja
