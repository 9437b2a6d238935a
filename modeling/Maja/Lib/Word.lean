/-
# Machine words

Unsigned words are natural numbers; a word is read from and written to bytes in
big-endian order (`beNat`, `beBytes`), the little-endian order being the same on
the reversed bytes.  `i64` is the subtype `I64` of the integers: its values are
in range by construction, and an operation that could leave the range says what
it does there (saturate, or panic under overflow checks).
-/

import Maja.Lib.Outcome
import Mathlib.Data.List.Induction
import Mathlib.Order.BoundedOrder.Basic
import Mathlib.Order.Lattice
import Mathlib.Algebra.Order.Ring.Int
import Mathlib.Tactic.Ring
import Mathlib.Tactic.Linarith

namespace Maja
namespace Lib

/-! ### Bytes -/

/-- The number whose base-256 digits are `bs`, most significant first. -/
def beNat (bs : List UInt8) : ℕ := bs.foldl (fun n b => 256 * n + b.toNat) 0

/-- The number whose base-256 digits are `bs`, least significant first. -/
def leNat (bs : List UInt8) : ℕ := beNat bs.reverse

/-- The `n` low base-256 digits of `v`, most significant first. -/
def beBytes : ℕ → ℕ → List UInt8
  | 0, _ => []
  | n + 1, v => beBytes n (v / 256) ++ [UInt8.ofNat v]

/-- No byte is zero. -/
@[simp] theorem beNat_nil : beNat [] = 0 := rfl

/-- A byte behind the others is the lowest digit. -/
theorem beNat_concat (bs : List UInt8) (b : UInt8) :
    beNat (bs ++ [b]) = 256 * beNat bs + b.toNat := by
  simp [beNat]

/-- A number fits the bytes that it was read from. -/
theorem beNat_lt (bs : List UInt8) : beNat bs < 256 ^ bs.length := by
  induction bs using List.reverseRecOn with
  | nil => simp
  | append_singleton bs b ih =>
      have hb : b.toNat < 256 := b.toNat_lt
      rw [beNat_concat, List.length_append, List.length_singleton, Nat.pow_succ]
      omega

/-- A number is written with as many bytes as it is given. -/
@[simp] theorem length_beBytes (n v : ℕ) : (beBytes n v).length = n := by
  induction n generalizing v with
  | zero => rfl
  | succ n ih => simp [beBytes, ih]

/-- Reading back the digits that were written gives the number, cut to their
count. -/
theorem beNat_beBytes (n v : ℕ) : beNat (beBytes n v) = v % 256 ^ n := by
  induction n generalizing v with
  | zero => simp [beBytes, Nat.mod_one]
  | succ n ih =>
      have hlow : (UInt8.ofNat v).toNat = v % 256 := by simp
      calc beNat (beBytes (n + 1) v) = 256 * (v / 256 % 256 ^ n) + v % 256 := by
            rw [beBytes, beNat_concat, ih, hlow]
        _ = v % (256 * 256 ^ n) := by rw [Nat.mod_mul, Nat.add_comm]
        _ = v % 256 ^ (n + 1) := by rw [Nat.pow_succ, Nat.mul_comm]

/-- Two's complement of a `w`-bit word. -/
def toSigned (w v : ℕ) : ℤ := if v < 2 ^ (w - 1) then v else (v : ℤ) - 2 ^ w

/-! ### `i64` -/

/-- The values an `i64` can hold. -/
abbrev I64.InRange (n : ℤ) : Prop := -2 ^ 63 ≤ n ∧ n ≤ 2 ^ 63 - 1

/-- `i64`. -/
abbrev I64 : Type := {n : ℤ // I64.InRange n}

namespace I64

/-- `i64::MIN`. -/
def MIN : I64 := ⟨-2 ^ 63, by decide⟩

/-- `i64::MAX`. -/
def MAX : I64 := ⟨2 ^ 63 - 1, by decide⟩

instance : BoundedOrder I64 where
  top := MAX
  le_top a := a.2.2
  bot := MIN
  bot_le a := a.2.1

instance : DecidableLT I64 := fun a b => Int.decLt a.val b.val

instance : DecidableLE I64 := fun a b => Int.decLe a.val b.val

instance : Inhabited I64 := ⟨⟨0, by decide⟩⟩

instance : Repr I64 := ⟨fun a n => reprPrec a.val n⟩

/-- An integer that fits. -/
def ofInt (n : ℤ) (h : decide (InRange n) = true := by exact Eq.refl true) : I64 :=
  ⟨n, of_decide_eq_true h⟩

/-- The nearest value in range: what the saturating operations return. -/
def clamp (n : ℤ) : I64 := ⟨max (-2 ^ 63) (min n (2 ^ 63 - 1)), by omega⟩

/-- The `i64` with the bits of a 64-bit word, as `from_be_bytes` and `as i64`
read them. -/
def ofWord (v : ℕ) : I64 :=
  ⟨toSigned 64 (v % 2 ^ 64), by
    have hv : v % 2 ^ 64 < 2 ^ 64 := Nat.mod_lt v (by norm_num)
    simp only [toSigned]
    split_ifs <;> omega⟩

/-- A word below `2 ^ 63` keeps its value. -/
theorem ofWord_val {v : ℕ} (h : v < 2 ^ 63) : (ofWord v).val = v := by
  simp only [ofWord, toSigned, Nat.mod_eq_of_lt (show v < 2 ^ 64 by omega)]
  rw [if_pos (by omega)]

/-- `a.saturating_add(b)`. -/
def saturatingAdd (a b : I64) : I64 := clamp (a.val + b.val)

/-- `a.saturating_sub(b)`. -/
def saturatingSub (a b : I64) : I64 := clamp (a.val - b.val)

/-- An integer result under overflow checks: panics when it does not fit. -/
def checked {ε : Type} (n : ℤ) : Outcome ε I64 :=
  if h : InRange n then .ok ⟨n, h⟩ else .panic

/-- The value that is left when a result wraps. -/
def wrap (n : ℤ) : I64 := ofWord (n % 2 ^ 64).toNat

/-- The result of a plain operator: one that does not fit panics in a build with
overflow checks and wraps in one without. -/
def arith {ε : Type} (overflowChecks : Bool) (n : ℤ) : Outcome ε I64 :=
  if h : InRange n then .ok ⟨n, h⟩ else if overflowChecks then .panic else .ok (wrap n)

/-- A result that fits, or a build that does not look. -/
theorem arith_eq_ok {ε : Type} {overflowChecks : Bool} {n : ℤ}
    (h : overflowChecks = true → InRange n) :
    ∃ a : I64, (arith overflowChecks n : Outcome ε I64) = .ok a ∧ (InRange n → a.val = n) := by
  unfold arith
  by_cases hn : InRange n
  · exact ⟨_, dif_pos hn, fun _ => rfl⟩
  · rw [dif_neg hn]
    cases overflowChecks with
    | true => exact absurd (h rfl) hn
    | false => exact ⟨_, rfl, fun hn' => absurd hn' hn⟩

/-- What wraps is congruent. -/
theorem wrap_val_emod (n : ℤ) : (wrap n).val % 2 ^ 64 = n % 2 ^ 64 := by
  have hnonneg : 0 ≤ n % 2 ^ 64 := Int.emod_nonneg _ (by norm_num)
  have hlt : n % 2 ^ 64 < 2 ^ 64 := Int.emod_lt_of_pos _ (by norm_num)
  obtain ⟨m, hm⟩ := Int.eq_ofNat_of_zero_le hnonneg
  have hsmall : m % 2 ^ 64 = m := Nat.mod_eq_of_lt (by omega)
  simp only [wrap, ofWord, toSigned, hm, Int.toNat_natCast, hsmall]
  split_ifs <;> omega

/-- Numbers that agree modulo `2^64` wrap to the same `i64`. -/
theorem wrap_eq_of_emod {n m : ℤ} (h : n % 2 ^ 64 = m % 2 ^ 64) : wrap n = wrap m := by
  rw [wrap, wrap, h]

/-- A value in range is not changed. -/
theorem wrap_val {n : ℤ} (h : InRange n) : (wrap n).val = n := by
  have hmod := wrap_val_emod n
  have hrange := (wrap n).2
  omega

/-- A sum wraps once. -/
theorem wrap_wrap_add (n m : ℤ) : wrap ((wrap n).val + m) = wrap (n + m) := by
  apply wrap_eq_of_emod
  have := wrap_val_emod n
  omega

/-- Wrapping early does not change a sum. -/
theorem wrap_wrap_add_wrap (n m : ℤ) :
    wrap ((wrap n).val + (wrap m).val) = wrap (n + m) := by
  rw [wrap_wrap_add, add_comm, wrap_wrap_add, add_comm]

/-- What an operator returns has wrapped, if at all. -/
theorem eq_wrap_of_arith {ε : Type} {overflowChecks : Bool} {n : ℤ} {a : I64}
    (h : (arith overflowChecks n : Outcome ε I64) = .ok a) : a = wrap n := by
  unfold arith at h
  split_ifs at h with hn
  · cases h
    exact Subtype.ext (wrap_val hn).symm
  · cases h
    rfl

/-- A number in the range is not clamped. -/
theorem clamp_val {n : ℤ} (h : InRange n) : (clamp n).val = n := by
  simp only [clamp]
  omega

/-- A number in the range passes the overflow check. -/
theorem checked_eq_ok {ε : Type} {n : ℤ} (h : InRange n) :
    (checked n : Outcome ε I64) = .ok ⟨n, h⟩ :=
  dif_pos h

/-- A checked result is a value or a panic. -/
theorem checked_cases {ε : Type} (n : ℤ) :
    (∃ a, (checked n : Outcome ε I64) = .ok a) ∨ (checked n : Outcome ε I64) = .panic := by
  by_cases h : InRange n
  · exact .inl ⟨_, checked_eq_ok h⟩
  · exact .inr (dif_neg h)

/-- A checked result returns exactly when it fits. -/
theorem checked_returns {ε : Type} {n : ℤ} :
    (checked n : Outcome ε I64).Returns ↔ InRange n := by
  unfold checked
  split_ifs with h
  · exact iff_of_true trivial h
  · exact iff_of_false id h

end I64

/-- The result of a plain `u32` operator, as `I64.arith`. -/
def U32.arith {ε : Type} (overflowChecks : Bool) (n : ℕ) : Outcome ε ℕ :=
  if overflowChecks = true ∧ 2 ^ 32 ≤ n then .panic else .ok (n % 2 ^ 32)

/-- The result of a plain `u64` operator, as `I64.arith`. -/
def U64.arith {ε : Type} (overflowChecks : Bool) (n : ℕ) : Outcome ε UInt64 :=
  if overflowChecks = true ∧ 2 ^ 64 ≤ n then .panic else .ok (UInt64.ofNat n)

/-- A result that fits, or that is not checked, is returned wrapped. -/
theorem U64.arith_eq_ok {ε : Type} {overflowChecks : Bool} {n : ℕ}
    (h : overflowChecks = true → n < 2 ^ 64) :
    (U64.arith overflowChecks n : Outcome ε UInt64) = .ok (UInt64.ofNat n) := by
  refine if_neg ?_
  rintro ⟨hchecks, hn⟩
  have := h hchecks
  omega

/-- A result that is returned is the number wrapped. -/
theorem U64.eq_ofNat_of_arith {ε : Type} {overflowChecks : Bool} {n : ℕ} {a : UInt64}
    (h : (U64.arith overflowChecks n : Outcome ε UInt64) = .ok a) : a = .ofNat n := by
  unfold U64.arith at h
  split_ifs at h
  cases h
  rfl

/-- A sum of words wraps once. -/
theorem U64.ofNat_toNat_add (n m : ℕ) :
    UInt64.ofNat ((UInt64.ofNat n).toNat + m) = UInt64.ofNat (n + m) := by
  rw [UInt64.ofNat_add, UInt64.ofNat_toNat, UInt64.ofNat_add]

/-- Wrapping early does not change a `u64` sum. -/
theorem U64.ofNat_add_toNat (n m : ℕ) :
    UInt64.ofNat (n + (UInt64.ofNat m).toNat) = UInt64.ofNat (n + m) := by
  rw [add_comm, U64.ofNat_toNat_add, add_comm]

end Lib
end Maja
