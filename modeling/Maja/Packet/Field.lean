/-
# Field accessors

`src/packet/utils/field.rs`.  A field is a range of a header's bytes, the width
of the word stored there, and the mask and shift that cut the field's bits out
of the word.  A target type is modelled by the number that it is read from.

An accessor slices first, so it panics when the header is shorter than the
range.  It then reads a whole word through a raw pointer; that the word fits the
range is checked nowhere in the source, and is a field of `Field` here.
-/

import Maja.Lib.Patch
import Maja.Lib.Word
import Mathlib.Order.Interval.Set.Defs

namespace Maja
namespace Packet

open Lib

/-- `u64::MAX`, the mask of a field that fills its word. -/
def U64_MAX : ℕ := 2 ^ 64 - 1

/-- `FieldSpec`: bytes of the underlay type, mask and shift. -/
structure FieldSpec where
  size : ℕ
  mask : ℕ := U64_MAX
  shift : ℕ := 0
  deriving DecidableEq, Repr

/-- The byte orders of `FieldAccessor<_, _, MSB>`. -/
inductive ByteOrder where
  | msb
  | lsb
  deriving DecidableEq, Repr

namespace ByteOrder

/-- `U::from_be` or `U::from_le` of the bytes of a word. -/
def read : ByteOrder → List UInt8 → ℕ
  | msb, bs => beNat bs
  | lsb, bs => leNat bs

/-- `to_be` or `to_le`: the bytes of a word. -/
def write : ByteOrder → ℕ → ℕ → List UInt8
  | msb, n, v => beBytes n v
  | lsb, n, v => (beBytes n v).reverse

end ByteOrder

namespace FieldSpec

/-- `FieldAccessor::raw`. -/
def raw (order : ByteOrder) (F : FieldSpec) (bytes : List UInt8) : ℕ :=
  let value := order.read (bytes.take F.size)
  if F.mask = U64_MAX ∧ F.shift = 0 then value
  else if F.shift = 0 then value &&& F.mask
  else (value &&& F.mask) >>> F.shift

/-- `FieldAccessor::set`: the bytes after the write. -/
def set (order : ByteOrder) (F : FieldSpec) (bytes : List UInt8) (value : ℕ) : List UInt8 :=
  let prev := order.read (bytes.take F.size)
  let word :=
    if F.mask = U64_MAX ∧ F.shift = 0 then value
    else if F.shift = 0 then (prev &&& (U64_MAX ^^^ F.mask)) ||| (value &&& F.mask)
    else (prev &&& (U64_MAX ^^^ F.mask)) ||| ((value <<< F.shift) &&& F.mask)
  order.write F.size word ++ bytes.drop F.size

end FieldSpec

/-- A field of a header: the `FIELD_*` range and the `FieldSpec` of its accessor,
with the word inside the range. -/
structure Field where
  lo : ℕ
  hi : ℕ
  spec : FieldSpec
  inside : decide (lo + spec.size ≤ hi) = true := by exact Eq.refl true

namespace Field

/-- A field lies inside the bytes that it is read from. -/
theorem fits (f : Field) : f.lo + f.spec.size ≤ f.hi := of_decide_eq_true f.inside

variable {ε : Type}

/-- `FieldRef::new(&data[lo..hi]).get()`. -/
def get (f : Field) (data : List UInt8) : Outcome ε ℕ := do
  let bytes ← Outcome.slice data f.lo f.hi
  pure (f.spec.raw .msb bytes)

/-- The value at the field's place, when the header is long enough. -/
def peek (f : Field) (data : List UInt8) : ℕ := f.spec.raw .msb (data.drop f.lo)

/-- `FieldMut::new(&mut data[lo..hi]).set(value)`: the header after the write. -/
def put (f : Field) (data : List UInt8) (value : ℕ) : Outcome ε (List UInt8) := do
  let bytes ← Outcome.slice data f.lo f.hi
  pure (data.take f.lo ++ f.spec.set .msb bytes value ++ data.drop f.hi)

/-- The bytes of a field end behind their start. -/
theorem lo_le_hi (f : Field) : f.lo ≤ f.hi := (Nat.le_add_right _ _).trans f.fits

/-- Only the bytes of the word matter. -/
theorem raw_take (F : FieldSpec) (order : ByteOrder) {n : ℕ} (h : F.size ≤ n)
    (bytes : List UInt8) : F.raw order (bytes.take n) = F.raw order bytes := by
  simp only [FieldSpec.raw, List.take_take, Nat.min_eq_left h]

/-- A field of a long enough header is read. -/
theorem get_eq {f : Field} {data : List UInt8} (h : f.hi ≤ data.length) :
    (f.get data : Outcome ε ℕ) = .ok (f.peek data) := by
  have hfits := f.fits
  unfold get
  rw [Outcome.slice_eq_ok f.lo_le_hi h, Outcome.ok_bind, Outcome.pure_eq,
    raw_take f.spec .msb (by omega)]
  rfl

/-- A field is read in a long enough header only. -/
theorem get_eq_ok {f : Field} {data : List UInt8} {value : ℕ}
    (h : (f.get data : Outcome ε ℕ) = .ok value) : f.hi ≤ data.length ∧ value = f.peek data := by
  by_cases hhi : f.hi ≤ data.length
  · rw [get_eq hhi] at h
    exact ⟨hhi, (Outcome.ok.inj h).symm⟩
  · unfold get at h
    rw [Outcome.slice_eq_panic fun hle => hhi hle.2] at h
    cases h

/-- A field is the same in two headers that agree on its word. -/
theorem peek_take (f : Field) {n : ℕ} (h : f.hi ≤ n) (data : List UInt8) :
    f.peek (data.take n) = f.peek data := by
  have hfits := f.fits
  unfold peek
  rw [List.drop_take, raw_take f.spec .msb (by omega)]

/-! ### Writing a field -/

/-- Setting a field keeps the length of the bytes. -/
theorem length_set (F : FieldSpec) (order : ByteOrder) {bytes : List UInt8}
    (h : F.size ≤ bytes.length) (value : ℕ) : (F.set order bytes value).length = bytes.length := by
  cases order <;> simp [FieldSpec.set, ByteOrder.write] <;> omega

/-- A write changes the bytes of the field, in a header that is long enough. -/
theorem put_eq_ok {f : Field} {data data' : List UInt8} {value : ℕ}
    (h : (f.put data value : Outcome ε _) = .ok data') :
    f.hi ≤ data.length ∧ AgreesOutside (Set.Ico f.lo f.hi) data data' := by
  obtain ⟨bytes, hslice, h⟩ := Outcome.bind_eq_ok.1 h
  unfold Outcome.slice at hslice
  split_ifs at hslice with hle
  obtain rfl := Outcome.ok.inj hslice
  obtain rfl := Outcome.ok.inj h
  obtain ⟨hlo, hhi⟩ := hle
  have hfits := f.fits
  have hlen : ((data.drop f.lo).take (f.hi - f.lo)).length = f.hi - f.lo := by simp; omega
  have hset : (f.spec.set .msb ((data.drop f.lo).take (f.hi - f.lo)) value).length =
      ((data.drop f.lo).take (f.hi - f.lo)).length := length_set f.spec .msb (by omega) value
  have hle : f.lo + (f.hi - f.lo) ≤ data.length := by omega
  have hsplice := AgreesOutside.splice hle (AgreesOutside.of_length hset)
  have hend : f.lo + (f.hi - f.lo) = f.hi := by omega
  rw [hend] at hsplice
  exact ⟨hhi, hsplice.mono fun k hk => ⟨hk.1, hk.2.1⟩⟩

/-- **A field that fills its word reads back what was written**, cut to its width. -/
theorem get_put {f : Field} {data data' : List UInt8} {value : ℕ}
    (hmask : f.spec.mask = U64_MAX) (hshift : f.spec.shift = 0)
    (h : (f.put data value : Outcome ε _) = .ok data') :
    (f.get data' : Outcome ε ℕ) = .ok (value % 256 ^ f.spec.size) := by
  obtain ⟨hhi, hagree⟩ := put_eq_ok h
  rw [get_eq (hagree.length.symm ▸ hhi)]
  obtain ⟨bytes, hslice, h⟩ := Outcome.bind_eq_ok.1 h
  obtain rfl := Outcome.ok.inj h
  have hfits := f.fits
  have hlo : (data.take f.lo).length = f.lo := by simp; omega
  have hdrop : (data.take f.lo ++ f.spec.set .msb bytes value ++ data.drop f.hi).drop f.lo =
      f.spec.set .msb bytes value ++ data.drop f.hi := by
    rw [List.append_assoc, List.drop_left' hlo]
  have hword : f.spec.set .msb bytes value = beBytes f.spec.size value ++ bytes.drop f.spec.size := by
    simp [FieldSpec.set, hmask, hshift, ByteOrder.write]
  have htake : (beBytes f.spec.size value ++ (bytes.drop f.spec.size ++ data.drop f.hi)).take
      f.spec.size = beBytes f.spec.size value := List.take_left' (length_beBytes _ _)
  rw [peek, hdrop, hword, FieldSpec.raw, if_pos ⟨hmask, hshift⟩, List.append_assoc, htake]
  exact congrArg _ (beNat_beBytes _ _)

end Field

end Packet
end Maja
