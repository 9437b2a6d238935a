/-
# Records laid out in a buffer

A file is a row of records, each with its own bytes.  `rawBytes` are the bytes of a
row, and `locate` puts every record next to the offset it starts at.  Whatever
picks records out of a row by those offsets gets their bytes back
(`slice_of_mem_locate`).
-/

import Maja.Lib.Outcome

namespace Maja
namespace Lib

variable {α β : Type} (raw : α → List UInt8)

/-- The bytes of a row of records. -/
def rawBytes (as : List α) : List UInt8 := as.flatMap raw

/-- The records of a row with their offsets, the first at `pos`. -/
def locate : ℕ → List α → List (ℕ × α)
  | _, [] => []
  | pos, a :: as => (pos, a) :: locate (pos + (raw a).length) as

/-- No row has no bytes. -/
@[simp] theorem rawBytes_nil : rawBytes raw [] = [] := rfl

/-- The bytes of a row come in front of those of the others. -/
@[simp] theorem rawBytes_cons (a : α) (as : List α) :
    rawBytes raw (a :: as) = raw a ++ rawBytes raw as := List.flatMap_cons

/-- The bytes of rows, and of rows behind them. -/
@[simp] theorem rawBytes_append (as bs : List α) :
    rawBytes raw (as ++ bs) = rawBytes raw as ++ rawBytes raw bs := List.flatMap_append

/-- The bytes of lists of rows. -/
@[simp] theorem rawBytes_flatten (rows : List (List α)) :
    rawBytes raw rows.flatten = rows.flatMap (rawBytes raw) := by
  induction rows with
  | nil => rfl
  | cons as rows ih => rw [List.flatten_cons, rawBytes_append, ih, List.flatMap_cons]

/-- No row has no place. -/
@[simp] theorem locate_nil (pos : ℕ) : locate raw pos [] = [] := rfl

/-- A row lies at the position, and the others behind it. -/
@[simp] theorem locate_cons (pos : ℕ) (a : α) (as : List α) :
    locate raw pos (a :: as) = (pos, a) :: locate raw (pos + (raw a).length) as := rfl

/-- Forgetting the offsets gives the row back. -/
@[simp] theorem map_snd_locate (pos : ℕ) (as : List α) :
    (locate raw pos as).map Prod.snd = as := by
  induction as generalizing pos with
  | nil => rfl
  | cons a as ih => rw [locate_cons, List.map_cons, ih]

/-- Rows, and rows behind their bytes. -/
theorem locate_append (pos : ℕ) (as bs : List α) :
    locate raw pos (as ++ bs) =
      locate raw pos as ++ locate raw (pos + (rawBytes raw as).length) bs := by
  induction as generalizing pos with
  | nil => simp
  | cons a as ih =>
    rw [List.cons_append, locate_cons, ih, locate_cons, List.cons_append, rawBytes_cons,
      List.length_append, Nat.add_assoc]

/-- A located record has its bytes at its offset. -/
theorem slice_of_mem_locate {ε : Type} {front rest : List UInt8} {as : List α} {l : ℕ × α}
    (h : l ∈ locate raw front.length as) :
    (Outcome.slice (front ++ rawBytes raw as ++ rest) l.1 (l.1 + (raw l.2).length) :
      Outcome ε (List UInt8)) = .ok (raw l.2) := by
  induction as generalizing front with
  | nil => simp at h
  | cons a as ih =>
    rw [locate_cons] at h
    rcases List.mem_cons.1 h with rfl | hmem
    · rw [Outcome.slice_eq_ok (Nat.le_add_right ..) (by simp), rawBytes_cons,
        List.append_assoc, List.append_assoc, List.drop_left, Nat.add_sub_cancel_left, List.take_left]
    · rw [← List.length_append] at hmem
      have htail := ih hmem
      rwa [List.append_assoc front (raw a), ← rawBytes_cons] at htail

/-- The part of a row that a buffer holds at an offset. -/
theorem slice_rawBytes {ε : Type} {front rest : List UInt8} (as : List α) :
    (Outcome.slice (front ++ rawBytes raw as ++ rest) front.length
      (front.length + (rawBytes raw as).length) : Outcome ε (List UInt8)) =
        .ok (rawBytes raw as) := by
  rw [Outcome.slice_eq_ok (Nat.le_add_right ..) (by simp), List.append_assoc, List.drop_left,
    Nat.add_sub_cancel_left, List.take_left]

end Lib
end Maja
