/-
# The fields of a header as stretches of its bits

Accessors read through words of several widths: the flags of IPv4 are a byte, the
fragment offset beside them two.  Counted in network order, each takes a stretch of
the header's bits (`Field.first`, `Field.width`), a write changes that stretch
alone, and fields whose stretches are apart do not see each other's writes, whatever
words they share.
-/

import Maja.Lib.BitString
import Maja.Packet.Lens

namespace Maja
namespace Packet

open Lib

instance (F : FieldSpec) (lo width : ℕ) : Decidable (F.Occupies lo width) :=
  inferInstanceAs (Decidable (if F.mask = U64_MAX ∧ F.shift = 0 then lo = 0 ∧ width = 8 * F.size
    else F.mask = bitMask lo width ∧ F.shift = lo ∧ 0 < width ∧ lo + width ≤ 8 * F.size))

namespace Field

/-- The number of bits of a field: those of its mask from the shift on, or the whole
word. -/
def width (f : Field) : ℕ :=
  if f.spec.mask = U64_MAX ∧ f.spec.shift = 0 then 8 * f.spec.size
  else (f.spec.mask >>> f.spec.shift).log2 + 1

/-- The first bit of a field in the header. -/
def first (f : Field) : ℕ := 8 * (f.lo + f.spec.size) - (f.spec.shift + f.width)

/-- The bits of a field are consecutive, in a word that the mask can cover. -/
def Regular (f : Field) : Prop :=
  f.spec.Occupies f.spec.shift f.width ∧ f.spec.shift + f.width ≤ f.spec.reach ∧
    (∀ j < 8 * f.spec.size, j < f.spec.reach)

/-- The stretches of two fields are apart. -/
def Apart (f g : Field) : Prop := f.first + f.width ≤ g.first ∨ g.first + g.width ≤ f.first

instance (f : Field) : Decidable f.Regular := inferInstanceAs (Decidable (_ ∧ _ ∧ _))

instance (f g : Field) : Decidable (f.Apart g) := inferInstanceAs (Decidable (_ ∨ _))

variable {ε : Type} {f g : Field} {data data' : List UInt8} {value j k : ℕ}

/-- Lying apart is symmetric. -/
theorem Apart.symm (h : f.Apart g) : g.Apart f := Or.symm h

/-- The bits of a regular field fit its bytes. -/
theorem Regular.le_size (h : f.Regular) : f.spec.shift + f.width ≤ 8 * f.spec.size := h.1.le_size

/-- The value at a field's place is a stretch of bits, the highest first. -/
theorem testBit_peek (h : f.Regular) (hlen : f.lo + f.spec.size ≤ data.length) (j : ℕ) :
    (f.peek data).testBit j =
      (decide (j < f.width) && netBit data (f.first + (f.width - 1 - j))) := by
  have hsize := h.le_size
  have hword : f.spec.size ≤ (data.drop f.lo).length := by
    rw [List.length_drop]
    omega
  rw [peek, FieldSpec.raw_eq h.1 hword, testBit_cutBits]
  by_cases hj : j < f.width
  · have htake : ((data.drop f.lo).take f.spec.size).length = f.spec.size :=
      List.length_take_of_le hword
    have hplace : 8 * f.lo + (8 * f.spec.size - 1 - (f.spec.shift + j)) =
        f.first + (f.width - 1 - j) := by
      rw [first]
      omega
    rw [FieldSpec.word, ByteOrder.read, testBit_beNat (by rw [htake]; omega), htake,
      netBit_take (by omega), netBit_drop, hplace]
  · simp [hj]

/-- The word that a write stores. -/
theorem exists_word (h : f.Regular) (bytes : List UInt8) (value : ℕ) :
    ∃ word, f.spec.set .msb bytes value =
        beBytes f.spec.size word ++ bytes.drop f.spec.size ∧
      ∀ j < 8 * f.spec.size, word.testBit j =
        if f.spec.shift ≤ j ∧ j < f.spec.shift + f.width then value.testBit (j - f.spec.shift)
        else (f.spec.word .msb bytes).testBit j := by
  obtain ⟨hocc, hin, hreach⟩ := h
  unfold FieldSpec.Occupies at hocc
  unfold FieldSpec.set
  dsimp only
  by_cases hwhole : f.spec.mask = U64_MAX ∧ f.spec.shift = 0
  · rw [if_pos hwhole] at hocc
    rw [if_pos hwhole]
    refine ⟨value, rfl, fun j hj => ?_⟩
    rw [if_pos (by omega), hocc.1, Nat.sub_zero]
  · rw [if_neg hwhole] at hocc
    rw [if_neg hwhole]
    rw [FieldSpec.reach, if_neg hwhole] at hin hreach
    refine ⟨pasteBits 64 f.spec.shift f.width (f.spec.word .msb bytes) value, ?_, fun j hj => ?_⟩
    · rw [pasteBits, ← hocc.1]
      by_cases hshift : f.spec.shift = 0
      · rw [if_pos hshift, hshift, Nat.shiftLeft_zero]
        rfl
      · rw [if_neg hshift]
        rfl
    · rw [testBit_pasteBits hin, decide_eq_true (hreach j hj), Bool.and_true]

/-- **A write changes the stretch of its field.** -/
theorem netBit_put (h : f.Regular) (hput : (f.put data value : Outcome ε _) = .ok data') (k : ℕ) :
    netBit data' k =
      if f.first ≤ k ∧ k < f.first + f.width then value.testBit (f.first + f.width - 1 - k)
      else netBit data k := by
  obtain ⟨hhi, -⟩ := put_eq_ok hput
  obtain ⟨bytes, hslice, hput⟩ := Outcome.bind_eq_ok.1 hput
  obtain rfl := Outcome.ok.inj hput
  obtain ⟨-, -, rfl⟩ := Outcome.slice_eq_ok_iff.1 hslice
  have hfits := f.fits
  have hsize := h.le_size
  obtain ⟨word, hset, hbits⟩ := exists_word h ((data.drop f.lo).take (f.hi - f.lo)) value
  have hfirst : f.first = 8 * (f.lo + f.spec.size) - (f.spec.shift + f.width) := rfl
  have hlo : (data.take f.lo).length = f.lo := List.length_take_of_le (by omega)
  have hbehind : ((data.drop f.lo).take (f.hi - f.lo)).drop f.spec.size ++ data.drop f.hi =
      data.drop (f.lo + f.spec.size) := by
    rw [List.drop_take, List.drop_drop,
      show data.drop f.hi = (data.drop (f.lo + f.spec.size)).drop (f.hi - f.lo - f.spec.size) by
        rw [List.drop_drop]; congr 1; omega]
    exact List.take_append_drop _ _
  rw [hset, List.append_assoc, List.append_assoc, hbehind]
  by_cases hbefore : k < 8 * f.lo
  · rw [netBit_append_left (by omega), netBit_take hbefore, if_neg (by omega)]
  rw [netBit_append_right (by omega), hlo]
  have hlength := length_beBytes f.spec.size word
  by_cases hword : k < 8 * (f.lo + f.spec.size)
  · have hlt : k - 8 * f.lo < 8 * f.spec.size := by omega
    rw [netBit_append_left (by omega), netBit_beBytes hlt, hbits _ (by omega)]
    by_cases hin : f.first ≤ k ∧ k < f.first + f.width
    · rw [if_pos hin, if_pos (by omega)]
      congr 1
      omega
    · have htake : (((data.drop f.lo).take (f.hi - f.lo)).take f.spec.size).length =
          f.spec.size := by simp; omega
      rw [if_neg hin, if_neg (by omega), FieldSpec.word, ByteOrder.read,
        testBit_beNat (by omega), htake, List.take_take, Nat.min_eq_left (by omega),
        netBit_take (by omega), netBit_drop]
      congr 1
      omega
  · rw [netBit_append_right (by omega), netBit_drop, if_neg (by omega), hlength]
    congr 1
    omega

/-- A field depends on its stretch. -/
theorem peek_congr (h : f.Regular) (hlen : f.lo + f.spec.size ≤ data.length)
    (hlen' : f.lo + f.spec.size ≤ data'.length)
    (hbits : ∀ k, f.first ≤ k → k < f.first + f.width → netBit data' k = netBit data k) :
    f.peek data' = f.peek data := by
  refine Nat.eq_of_testBit_eq fun j => ?_
  rw [testBit_peek h hlen', testBit_peek h hlen]
  by_cases hj : j < f.width
  · rw [hbits _ (by omega) (by omega)]
  · simp [hj]

/-- **What was written is read**, cut to the field's width. -/
theorem peek_put (h : f.Regular) (hput : (f.put data value : Outcome ε _) = .ok data') :
    f.peek data' = value % 2 ^ f.width := by
  obtain ⟨hhi, hagree⟩ := put_eq_ok hput
  have hfits := f.fits
  have hlen' := hagree.length
  refine Nat.eq_of_testBit_eq fun j => ?_
  rw [testBit_peek h (by omega), netBit_put h hput, Nat.testBit_mod_two_pow]
  by_cases hj : j < f.width
  · rw [if_pos (by omega)]
    congr 2
    omega
  · simp [hj]

/-- **A field apart from a write is not changed by it.** -/
theorem peek_put_of_apart (h : f.Regular) (hg : g.Regular) (hapart : f.Apart g)
    (hlen : g.lo + g.spec.size ≤ data.length)
    (hput : (f.put data value : Outcome ε _) = .ok data') : g.peek data' = g.peek data := by
  have hlen' := (put_eq_ok hput).2.length
  refine peek_congr hg hlen (by omega) fun k hlo hhi => ?_
  rw [netBit_put h hput, if_neg]
  unfold Apart at hapart
  omega

end Field

/-! ### Many writes -/

/-- The `set` calls on the viewer of a header, in their order. -/
def putAll {ε : Type} : List (Field × ℕ) → List UInt8 → Outcome ε (List UInt8)
  | [], header => pure header
  | (f, value) :: puts, header => do
    let header ← f.put header value
    putAll puts header

section PutAll

variable {ε : Type} {puts : List (Field × ℕ)} {header written : List UInt8} {hi : ℕ}

/-- A field inside a header can be set. -/
theorem Field.put_eq (f : Field) {data : List UInt8} (h : f.hi ≤ data.length) (value : ℕ) :
    ∃ data', (f.put data value : Outcome ε _) = .ok data' := by
  unfold Field.put
  rw [Outcome.slice_eq_ok f.lo_le_hi h]
  exact ⟨_, rfl⟩

/-- Fields that end in the header can be written. -/
theorem putAll_eq (h : ∀ put ∈ puts, put.1.hi ≤ header.length) :
    ∃ written, (putAll puts header : Outcome ε _) = .ok written := by
  induction puts generalizing header with
  | nil => exact ⟨header, rfl⟩
  | cons put puts ih =>
    obtain ⟨hput, hputs⟩ := List.forall_mem_cons.1 h
    obtain ⟨header', hheader⟩ : ∃ header', (put.1.put header put.2 : Outcome ε _) = .ok header' :=
      put.1.put_eq hput put.2
    have hlength := (Field.put_eq_ok hheader).2.length
    have hputs' : ∀ p ∈ puts, p.1.hi ≤ header'.length := fun p hp => hlength ▸ hputs p hp
    obtain ⟨written, hwritten⟩ := ih hputs'
    exact ⟨written, Outcome.bind_eq_ok.2 ⟨header', hheader, hwritten⟩⟩

/-- Writes change the bytes up to the last of their ends. -/
theorem putAll_agrees (hhi : ∀ put ∈ puts, put.1.hi ≤ hi)
    (h : (putAll puts header : Outcome ε _) = .ok written) :
    AgreesOutside (Set.Ico 0 hi) header written := by
  induction puts generalizing header with
  | nil =>
    obtain rfl := Outcome.ok.inj h
    exact AgreesOutside.refl _ _
  | cons put puts ih =>
    obtain ⟨hput, hputs⟩ := List.forall_mem_cons.1 hhi
    obtain ⟨header', hheader, h⟩ := Outcome.bind_eq_ok.1 h
    refine ((Field.put_eq_ok hheader).2.mono fun k hk => ?_).trans (ih hputs h)
    exact ⟨Nat.zero_le k, hk.2.trans_le hput⟩

/-- Bits of no field are left alone. -/
theorem netBit_putAll {k : ℕ} (hregular : ∀ put ∈ puts, put.1.Regular)
    (hout : ∀ put ∈ puts, ¬(put.1.first ≤ k ∧ k < put.1.first + put.1.width))
    (h : (putAll puts header : Outcome ε _) = .ok written) :
    netBit written k = netBit header k := by
  induction puts generalizing header with
  | nil =>
    obtain rfl := Outcome.ok.inj h
    rfl
  | cons put puts ih =>
    obtain ⟨hput, hputs⟩ := List.forall_mem_cons.1 hregular
    obtain ⟨houtput, houtputs⟩ := List.forall_mem_cons.1 hout
    obtain ⟨header', hheader, h⟩ := Outcome.bind_eq_ok.1 h
    rw [ih hputs houtputs h, Field.netBit_put hput hheader, if_neg houtput]

/-- A field apart from every write is not changed by them. -/
theorem peek_putAll_of_apart {f : Field} (hf : f.Regular) (hlen : f.hi ≤ header.length)
    (hregular : ∀ put ∈ puts, put.1.Regular) (hapart : ∀ put ∈ puts, put.1.Apart f)
    (h : (putAll puts header : Outcome ε _) = .ok written) : f.peek written = f.peek header := by
  induction puts generalizing header with
  | nil =>
    obtain rfl := Outcome.ok.inj h
    rfl
  | cons put puts ih =>
    obtain ⟨hput, hputs⟩ := List.forall_mem_cons.1 hregular
    obtain ⟨haput, haputs⟩ := List.forall_mem_cons.1 hapart
    obtain ⟨header', hheader, h⟩ := Outcome.bind_eq_ok.1 h
    have hlength := (Field.put_eq_ok hheader).2.length
    have hfits := f.fits
    rw [ih (by omega) hputs haputs h]
    exact Field.peek_put_of_apart hput hf haput (by omega) hheader

/-- **Every field that was written is read back**, cut to its width, when the fields
are apart.  The induction is on the writes: the later ones leave the first alone. -/
theorem peek_putAll (hregular : ∀ put ∈ puts, put.1.Regular)
    (hapart : (puts.map Prod.fst).Pairwise Field.Apart)
    (h : (putAll puts header : Outcome ε _) = .ok written) {put : Field × ℕ} (hput : put ∈ puts) :
    put.1.peek written = put.2 % 2 ^ put.1.width := by
  induction puts generalizing header with
  | nil => simp at hput
  | cons first puts ih =>
    obtain ⟨hfirst, hputs⟩ := List.forall_mem_cons.1 hregular
    obtain ⟨hfirstApart, hapart⟩ := List.pairwise_cons.1 hapart
    obtain ⟨header', hheader, hrest⟩ := Outcome.bind_eq_ok.1 h
    rcases List.mem_cons.1 hput with rfl | hput
    · have hlen := (Field.put_eq_ok hheader).1
      have hlength := (Field.put_eq_ok hheader).2.length
      rw [peek_putAll_of_apart hfirst (by omega) hputs (fun p hp => ?_) hrest,
        Field.peek_put hfirst hheader]
      exact (hfirstApart p.1 (List.mem_map_of_mem hp)).symm
    · exact ih hputs hapart hrest hput

end PutAll

end Packet
end Maja
