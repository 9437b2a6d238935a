/-
# A running mean and variance

The recurrence that updates the mean of the values so far and the sum of their
squared distances from it, one value at a time.  It is stated over any type with
the four operations, so over floating-point numbers too; over a field it computes
both exactly (`mean_pushAll`, `m2_pushAll`).
-/

import Mathlib.Algebra.BigOperators.Group.List.Basic
import Mathlib.Algebra.CharZero.Defs
import Mathlib.Algebra.Field.Basic
import Mathlib.Data.List.Induction
import Mathlib.Tactic.Ring

namespace Maja
namespace Lib

/-- The operations of the recurrence. -/
class Arithmetic (F : Type) extends Zero F, Add F, Sub F, Mul F, Div F, NatCast F

instance (priority := low) {F : Type} [Field F] : Arithmetic F where

/-- The count of the values, their mean, and the sum of the squared distances from
it. -/
structure Moments (F : Type) where
  count : ℕ
  mean : F
  m2 : F
  deriving DecidableEq, Repr

namespace Moments

section Defs

variable {F : Type} [Arithmetic F]

/-- No values. -/
def empty : Moments F := ⟨0, 0, 0⟩

/-- One more value. -/
def push (m : Moments F) (value : F) : Moments F :=
  let count := m.count + 1
  let delta := value - m.mean
  let mean := m.mean + delta / (count : F)
  let delta2 := value - mean
  ⟨count, mean, m.m2 + delta * delta2⟩

/-- One value after the other. -/
def pushAll (values : List F) : Moments F := values.foldl push empty

end Defs

variable {F : Type} [Field F]

/-- The sum of the squared distances from a point. -/
def squares (values : List F) (center : F) : F := (values.map fun x => (x - center) ^ 2).sum

/-- The squared distances from a center, multiplied out. -/
theorem squares_eq (values : List F) (center : F) : squares values center =
    (values.map fun x => x ^ 2).sum - 2 * center * values.sum + values.length * center ^ 2 := by
  induction values with
  | nil => simp [squares]
  | cons x values ih =>
    unfold squares at ih ⊢
    rw [List.map_cons, List.sum_cons, ih, List.map_cons, List.sum_cons, List.sum_cons,
      List.length_cons, Nat.cast_succ]
    ring

/-- What a recurrence has computed: the sum of the values and that of their squares. -/
structure Holds (values : List F) (m : Moments F) : Prop where
  count : m.count = values.length
  sum : (m.count : F) * m.mean = values.sum
  sumSq : m.m2 + (m.count : F) * m.mean ^ 2 = (values.map fun x => x ^ 2).sum

/-- The step: with `d` the change of the mean, the value is `mean + (n + 1) * d`. -/
theorem Holds.push [CharZero F] {values : List F} {m : Moments F} (h : Holds values m) (value : F) :
    Holds (values ++ [value]) (m.push value) := by
  have hne : ((m.count + 1 : ℕ) : F) ≠ 0 := Nat.cast_ne_zero.2 (Nat.succ_ne_zero _)
  obtain ⟨d, hd⟩ : ∃ d, d = (value - m.mean) / ((m.count + 1 : ℕ) : F) := ⟨_, rfl⟩
  have hvalue : value = m.mean + ((m.count + 1 : ℕ) : F) * d := by
    rw [hd, mul_div_cancel₀ _ hne, add_sub_cancel]
  have hpush : m.push value =
      ⟨m.count + 1, m.mean + d, m.m2 + (value - m.mean) * (value - (m.mean + d))⟩ := by
    rw [hd]
    rfl
  have hsucc : ((m.count + 1 : ℕ) : F) = (m.count : F) + 1 := Nat.cast_succ _
  rw [hpush]
  rw [hsucc] at hvalue
  refine ⟨?_, ?_, ?_⟩
  · rw [List.length_append, List.length_singleton, h.count]
  · rw [List.sum_append, List.sum_singleton, ← h.sum, hsucc, hvalue]
    ring
  · rw [List.map_append, List.sum_append, List.map_singleton, List.sum_singleton, ← h.sumSq, hsucc,
      hvalue]
    ring

/-- After any values the moments are theirs. -/
theorem holds_pushAll [CharZero F] (values : List F) : Holds values (pushAll values) := by
  induction values using List.reverseRecOn with
  | nil => exact ⟨rfl, by simp [pushAll, empty], by simp [pushAll, empty]⟩
  | append_singleton values value ih =>
    rw [pushAll, List.foldl_concat]
    exact ih.push value

/-- **The mean is the mean.** -/
theorem mean_pushAll [CharZero F] {values : List F} (h : values ≠ []) :
    (pushAll values).mean = values.sum / values.length := by
  have hholds := holds_pushAll values
  have hne : (values.length : F) ≠ 0 := by
    simpa using h
  rw [eq_div_iff hne, mul_comm, ← hholds.count, hholds.sum]

/-- **The other moment is the sum of the squared distances from the mean.** -/
theorem m2_pushAll [CharZero F] (values : List F) :
    (pushAll values).m2 = squares values (pushAll values).mean := by
  have hholds := holds_pushAll values
  rw [squares_eq, ← hholds.sum, ← hholds.sumSq, ← hholds.count]
  ring

end Moments

end Lib
end Maja
