/-
# Outcomes of a Rust call

A call of a Rust function that returns `Result<α, ε>` ends in one of three ways:
`Ok`, `Err`, or a panic.  A model that runs its loops on fuel adds a fourth, the
loop that was cut off.  `Outcome` keeps the four apart, so that "never panics"
and "terminates" are statements about a computed value.

`Prog σ ε` is the same for a method that takes `&mut self`: the state survives
an `Err`, as it does in Rust, and is lost with a panic.

Slices and checked arithmetic are the partial operations of the language; each
is the Rust operation where it is defined and `panic` elsewhere.
-/

import Mathlib.Data.List.Basic
import Mathlib.Tactic.Common

namespace Maja
namespace Lib

universe u v

/-- How a call ends: `Ok`, `Err`, a panic, or a loop cut off by the fuel. -/
inductive Outcome (ε : Type u) (α : Type v) where
  | ok (a : α)
  | err (e : ε)
  | panic
  | outOfFuel
  deriving DecidableEq, Repr

namespace Outcome

variable {ε : Type u} {α β γ : Type v}

/-- Sequencing: only an `ok` runs what follows, as the `?` operator does. -/
def bind : Outcome ε α → (α → Outcome ε β) → Outcome ε β
  | ok a, f => f a
  | err e, _ => err e
  | panic, _ => panic
  | outOfFuel, _ => outOfFuel

instance : Monad (Outcome ε) where
  pure := ok
  bind := bind

/-- Returning a value. -/
@[simp] theorem pure_eq (a : α) : (pure a : Outcome ε α) = ok a := rfl

/-- Going on with a value. -/
@[simp] theorem ok_bind (a : α) (f : α → Outcome ε β) : (ok a >>= f) = f a := rfl

/-- An error is handed on. -/
@[simp] theorem err_bind (e : ε) (f : α → Outcome ε β) : (err e >>= f) = err e := rfl

/-- A panic is handed on. -/
@[simp] theorem panic_bind (f : α → Outcome ε β) : ((panic : Outcome ε α) >>= f) = panic := rfl

/-- Missing fuel is handed on. -/
@[simp] theorem outOfFuel_bind (f : α → Outcome ε β) :
    ((outOfFuel : Outcome ε α) >>= f) = outOfFuel := rfl

/-- Mapping is going on and returning. -/
@[simp] theorem map_eq (f : α → β) (x : Outcome ε α) : f <$> x = x >>= fun a => ok (f a) := rfl

/-- Sequencing is associative. -/
theorem bind_assoc (x : Outcome ε α) (f : α → Outcome ε β) (g : β → Outcome ε γ) :
    (x >>= f >>= g) = x >>= fun a => f a >>= g := by
  cases x <;> rfl

/-- A sequence is `ok` exactly when both halves are. -/
theorem bind_eq_ok {x : Outcome ε α} {f : α → Outcome ε β} {b : β} :
    (x >>= f) = ok b ↔ ∃ a, x = ok a ∧ f a = ok b := by
  cases x <;> simp

/-- The call returns to its caller, with `Ok` or with `Err`. -/
def Returns : Outcome ε α → Prop
  | ok _ => True
  | err _ => True
  | panic => False
  | outOfFuel => False

instance : ∀ x : Outcome ε α, Decidable x.Returns
  | ok _ => inferInstanceAs (Decidable True)
  | err _ => inferInstanceAs (Decidable True)
  | panic => inferInstanceAs (Decidable False)
  | outOfFuel => inferInstanceAs (Decidable False)

/-- A value is returned. -/
@[simp] theorem returns_ok (a : α) : (ok a : Outcome ε α).Returns := trivial

/-- An error is returned. -/
@[simp] theorem returns_err (e : ε) : (err e : Outcome ε α).Returns := trivial

/-- A panic does not return. -/
@[simp] theorem not_returns_panic : ¬(panic : Outcome ε α).Returns := id

/-- A loop without fuel does not return. -/
@[simp] theorem not_returns_outOfFuel : ¬(outOfFuel : Outcome ε α).Returns := id

/-- A sequence returns when its first half does and, after an `ok`, the second
half does too. -/
theorem returns_bind {x : Outcome ε α} {f : α → Outcome ε β} :
    (x >>= f).Returns ↔ x.Returns ∧ ∀ a, x = ok a → (f a).Returns := by
  cases x <;> simp

/-- A sequence whose halves are not cut off is not cut off. -/
theorem bind_ne_outOfFuel {x : Outcome ε α} {f : α → Outcome ε β} (hx : x ≠ outOfFuel)
    (hf : ∀ a, x = ok a → f a ≠ outOfFuel) : (x >>= f) ≠ outOfFuel := by
  cases x with
  | ok a => exact hf a rfl
  | err e => simp
  | panic => simp
  | outOfFuel => exact absurd rfl hx

/-- What an `ok` carries. -/
def toOption : Outcome ε α → Option α
  | ok a => some a
  | err _ => none
  | panic => none
  | outOfFuel => none

/-- What is left when the error is dropped. -/
theorem toOption_eq_some {x : Outcome ε α} {a : α} : x.toOption = some a ↔ x = ok a := by
  cases x <;> simp [toOption]

/-- Reinterpret the error of an outcome, as `map_err` and the `From` impls of
an error type do. -/
def mapErr {ε' : Type u} (g : ε → ε') : Outcome ε α → Outcome ε' α
  | ok a => ok a
  | err e => err (g e)
  | panic => panic
  | outOfFuel => outOfFuel

/-- Mapping the error does not change a value. -/
theorem mapErr_eq_ok {ε' : Type u} {g : ε → ε'} {x : Outcome ε α} {a : α} :
    x.mapErr g = ok a ↔ x = ok a := by
  cases x <;> simp [mapErr]

/-! ### Slices -/

/-- `&b[lo..hi]`: panics unless `lo ≤ hi ≤ b.len()`. -/
def slice (b : List α) (lo hi : ℕ) : Outcome ε (List α) :=
  if lo ≤ hi ∧ hi ≤ b.length then ok ((b.drop lo).take (hi - lo)) else panic

/-- `b[i]`: panics unless `i < b.len()`. -/
def index (b : List α) (i : ℕ) : Outcome ε α :=
  match b[i]? with
  | some x => ok x
  | none => panic

/-- A slice inside the bounds. -/
theorem slice_eq_ok {b : List α} {lo hi : ℕ} (h₁ : lo ≤ hi) (h₂ : hi ≤ b.length) :
    (slice b lo hi : Outcome ε (List α)) = ok ((b.drop lo).take (hi - lo)) :=
  if_pos ⟨h₁, h₂⟩

/-- A slice outside the bounds. -/
theorem slice_eq_panic {b : List α} {lo hi : ℕ} (h : ¬(lo ≤ hi ∧ hi ≤ b.length)) :
    (slice b lo hi : Outcome ε (List α)) = panic :=
  if_neg h

/-- A slice is returned exactly inside the bounds. -/
theorem slice_eq_ok_iff {b c : List α} {lo hi : ℕ} :
    (slice b lo hi : Outcome ε (List α)) = ok c ↔
      lo ≤ hi ∧ hi ≤ b.length ∧ (b.drop lo).take (hi - lo) = c := by
  unfold slice
  split_ifs with h
  · simp [h]
  · simp only [false_iff]
    exact fun hc => h ⟨hc.1, hc.2.1⟩

/-- A slice returns exactly when its range lies in the buffer. -/
theorem slice_returns {b : List α} {lo hi : ℕ} :
    (slice b lo hi : Outcome ε (List α)).Returns ↔ lo ≤ hi ∧ hi ≤ b.length := by
  unfold slice
  split_ifs with h <;> simp [h]

/-- Slicing takes no loop. -/
theorem slice_ne_outOfFuel {b : List α} {lo hi : ℕ} :
    (slice b lo hi : Outcome ε (List α)) ≠ outOfFuel := by
  unfold slice
  split_ifs <;> simp

/-- An index inside the bounds. -/
theorem index_eq_ok {b : List α} {i : ℕ} (h : i < b.length) :
    (index b i : Outcome ε α) = ok b[i] := by
  simp [index, h]

/-- What an index finds is there. -/
theorem index_eq_some {b : List α} {i : ℕ} {x : α} (h : (index b i : Outcome ε α) = ok x) :
    b[i]? = some x := by
  unfold index at h
  split at h
  · rename_i x' hx
    rw [hx, ok.inj h]
  · cases h

/-- An index outside the bounds. -/
theorem index_eq_panic {b : List α} {i : ℕ} (h : b.length ≤ i) :
    (index b i : Outcome ε α) = panic := by
  simp [index, h]

end Outcome

/-- A `&mut self` method: it is given the state and leaves one behind, also when
it returns `Err`. -/
def Prog (σ ε α : Type) : Type :=
  σ → Outcome (ε × σ) (α × σ)

namespace Prog

variable {σ ε α β : Type}

instance : Monad (Prog σ ε) where
  pure a := fun s => .ok (a, s)
  bind m f := fun s => m s >>= fun r => f r.1 r.2

/-- Read the state. -/
def get : Prog σ ε σ := fun s => .ok (s, s)

/-- Change the state. -/
def modify (f : σ → σ) : Prog σ ε Unit := fun s => .ok ((), f s)

/-- `return Err(e)`. -/
def throw (e : ε) : Prog σ ε α := fun s => .err (e, s)

/-- Run a call that does not touch the state. -/
def lift (x : Outcome ε α) : Prog σ ε α := fun s =>
  match x with
  | .ok a => .ok (a, s)
  | .err e => .err (e, s)
  | .panic => .panic
  | .outOfFuel => .outOfFuel

/-- Bind the `Result` of a call instead of propagating it with `?`. -/
def result (m : Prog σ ε α) : Prog σ ε (Except ε α) := fun s =>
  match m s with
  | .ok (a, s') => .ok (.ok a, s')
  | .err (e, s') => .ok (.error e, s')
  | .panic => .panic
  | .outOfFuel => .outOfFuel

/-- The `?` operator on a bound `Result`. -/
def rethrow : Except ε α → Prog σ ε α
  | .ok a => pure a
  | .error e => throw e

/-- Returning a value keeps the state. -/
@[simp] theorem pure_apply (a : α) (s : σ) : (pure a : Prog σ ε α) s = .ok (a, s) := rfl

/-- Going on in the state that was left. -/
@[simp] theorem bind_apply (m : Prog σ ε α) (f : α → Prog σ ε β) (s : σ) :
    (m >>= f) s = m s >>= fun r => f r.1 r.2 := rfl

/-- Reading the state. -/
@[simp] theorem get_apply (s : σ) : (get : Prog σ ε σ) s = .ok (s, s) := rfl

/-- Changing the state. -/
@[simp] theorem modify_apply (f : σ → σ) (s : σ) : (modify f : Prog σ ε Unit) s = .ok ((), f s) :=
  rfl

/-- An error keeps the state. -/
@[simp] theorem throw_apply (e : ε) (s : σ) : (throw e : Prog σ ε α) s = .err (e, s) := rfl

/-- A value from outside keeps the state. -/
@[simp] theorem lift_ok (a : α) (s : σ) : (lift (.ok a) : Prog σ ε α) s = .ok (a, s) := rfl

/-- An error from outside keeps the state. -/
@[simp] theorem lift_err (e : ε) (s : σ) : (lift (.err e) : Prog σ ε α) s = .err (e, s) := rfl

/-- A panic from outside. -/
@[simp] theorem lift_panic (s : σ) : (lift .panic : Prog σ ε α) s = .panic := rfl

/-- Missing fuel from outside. -/
@[simp] theorem lift_outOfFuel (s : σ) : (lift .outOfFuel : Prog σ ε α) s = .outOfFuel := rfl

/-- A caught error is a value. -/
@[simp] theorem result_apply (m : Prog σ ε α) (s : σ) : result m s =
    match m s with
    | .ok (a, s') => .ok (.ok a, s')
    | .err (e, s') => .ok (.error e, s')
    | .panic => .panic
    | .outOfFuel => .outOfFuel := rfl

/-- A value is returned once more. -/
@[simp] theorem rethrow_ok (a : α) : (rethrow (.ok a) : Prog σ ε α) = pure a := rfl

/-- An error is thrown once more. -/
@[simp] theorem rethrow_error (e : ε) : (rethrow (.error e) : Prog σ ε α) = throw e := rfl

/-- The call does not touch the state, and it does not look at it. -/
def Stateless (m : Prog σ ε α) : Prop := ∃ x : Outcome ε α, m = lift x

/-- Returning a value does not use the state. -/
theorem Stateless.pure (a : α) : Stateless (Pure.pure a : Prog σ ε α) := ⟨.ok a, rfl⟩

/-- Throwing an error does not use the state. -/
theorem Stateless.throw (e : ε) : Stateless (Prog.throw e : Prog σ ε α) := ⟨.err e, rfl⟩

/-- Programs without state are composed to one. -/
theorem Stateless.bind {m : Prog σ ε α} {f : α → Prog σ ε β} (hm : Stateless m)
    (hf : ∀ a, Stateless (f a)) : Stateless (m >>= f) := by
  obtain ⟨x, rfl⟩ := hm
  rcases x with a | e | _ | _
  · obtain ⟨y, hy⟩ := hf a
    exact ⟨y, funext fun s => congrFun hy s⟩
  · exact ⟨.err e, rfl⟩
  · exact ⟨.panic, rfl⟩
  · exact ⟨.outOfFuel, rfl⟩

/-- Such a call returns the same from every state. -/
theorem Stateless.eq_ok {m : Prog σ ε α} (h : Stateless m) {s s' : σ} {a : α}
    (hs : m s = .ok (a, s')) : s' = s ∧ ∀ t, m t = .ok (a, t) := by
  obtain ⟨x, rfl⟩ := h
  rcases x with b | e | _ | _
  · cases hs
    exact ⟨rfl, fun t => rfl⟩
  all_goals cases hs

end Prog

end Lib
end Maja
